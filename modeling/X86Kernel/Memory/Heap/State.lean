import Mathlib.Data.Finset.Dedup
import Mathlib.Data.Set.Finite.Basic
import Mathlib.Order.Interval.Finset.Nat
import X86Kernel.Memory.Heap.Kmalloc
import X86Kernel.Memory.Heap.Ledger
import X86Kernel.Memory.Heap.SlabFrame

/- The heap between calls: blocks and slabs together.

   `Intact W C s L o g` is a heap whose free blocks are listed by `L`, whose blocks that are out
   are those of `o` (`Tally`), and whose slabs are those of `g`. The slab orders of `C`, with the
   13 of `kmalloc` among them, have their lists; of a slab of another cache only what the heap
   holds is known. A block that is out and no slab shows a live block in its first descriptor.

   What is proved: each step of the allocator keeps the heap intact, adds or removes one live
   allocation, and leaves the memory of the others alone (`Intact.takeBlock`, `giveBlock`,
   `takeObject`, `giveObject`), and so does a change of the memory of a live allocation
   (`Intact.write`). -/
namespace X86Kernel.Heap
open X86Kernel.Lib

variable {ω : Type}

/-- A heap between calls. -/
structure Intact (W : World ω) (C : Nat → Prop) (s : HeapVars ω) (L : Nat → List Nat)
    (o : Nat → Option Nat) (g : Nat → Option Slab) : Prop where
  tally : Tally W s L o
  /-- the 13 orders have the sizes of `init_heap_vars` -/
  sizes : ∀ {c}, c < slabOrderCount → (s.slabs c).objSize = (kmallocOrder c).objSize ∧
    (s.slabs c).slabSize = (kmallocOrder c).slabSize
  orders : ∀ {c}, c < slabOrderCount → C c
  sized : ∀ {c}, C c → Sized (s.slabs c)
  slab : ∀ {B sl}, g B = some sl → SlabAt W s B sl
  slabBlock : ∀ {B sl}, g B = some sl → Held o B (s.slabs sl.cache).blockOrder ∧
    (s.slabs sl.cache).slabSize = 2 ^ (buddyExponMin + (s.slabs sl.cache).blockOrder)
  /-- a free object has room for its links -/
  node : ∀ {B sl}, g B = some sl → 8 ≤ (s.slabs sl.cache).objSize
  avail : ∀ {c}, C c → ∃ l, Avail W (· ≤ buddyOrderMax) s c l ∧
    ∀ B, B ∈ l ↔ ∃ sl, g B = some sl ∧ sl.cache = c ∧ sl.free ≠ []
  whole : ∀ {a k}, Held o a k → g a = none →
    LiveHead (s.desc (descOf W s a)) k ∧ (s.desc (descOf W s a)).buddyOrder = .num k

/-- A live object of the slab order `c`. -/
def LiveObject (s : HeapVars ω) (g : Nat → Option Slab) (c a : Nat) : Prop :=
  ∃ B sl, g B = some sl ∧ sl.cache = c ∧ IsObj (s.slabs c) B a ∧ a ∉ sl.free

theorem LiveObject.liveAlloc {s : HeapVars ω} {out : Nat → Nat → Prop} {g : Nat → Option Slab}
    {c a : Nat} (h : LiveObject s g c a) : LiveAlloc s out g a (s.slabs c).objSize := by
  obtain ⟨B, sl, hB, rfl, hobj, hfree⟩ := h
  exact .object hB hobj hfree

/-- The memory of what is live is the same, but for the allocation at `a`. -/
def Undisturbed (live : Nat → Nat → Prop) (a : Nat) (s t : HeapVars ω) : Prop :=
  ∀ {b m x}, live b m → b ≠ a → Inside b m x → t.mem x = s.mem x

section Intact

variable {W : World ω} {C : Nat → Prop} {s : HeapVars ω} {L : Nat → List Nat}
  {o : Nat → Option Nat} {g : Nat → Option Slab} (h : Intact W C s L o g)
include h

theorem Intact.layout : HeapLayout W s L (Held o) g where
  blocks := h.tally.toFreeBlocks
  packing := h.tally.blocks
  free := by
    intro a k ha hout
    rw [Held, h.tally.listed ha] at hout
    cases hout
  sizes := h.sizes
  slab := h.slab
  slabBlock := h.slabBlock
  first := by
    intro c i hc hi
    obtain ⟨l, havail, hmem⟩ := h.avail (h.orders hc)
    cases l with
    | nil =>
      have hnone : (s.slabs c).freeSlab = none := havail.linked
      rw [hnone] at hi
      cases hi
    | cons B l =>
      obtain ⟨sl, hB, hsc, hfree⟩ := (hmem B).1 List.mem_cons_self
      have hhead : (s.slabs c).freeSlab = some (descOf W s B) := havail.linked.1
      obtain rfl := Option.some.inj (hhead.symm.trans hi)
      exact ⟨B, sl, hB, hsc, hfree, rfl, havail.next List.mem_cons_self⟩

theorem Intact.slab_inside {B : Nat} {sl : Slab} (hB : g B = some sl) :
    Inside B (s.slabs sl.cache).slabSize B := by
  rw [(h.slabBlock hB).2]
  exact inside_base B _

theorem Intact.obj_inside {B x : Nat} {sl : Slab} (hB : g B = some sl)
    (hx : IsObj (s.slabs sl.cache) B x) :
    Inside B (2 ^ (buddyExponMin + (s.slabs sl.cache).blockOrder)) x := by
  have hin := isObj_inside hx
  have hnode := h.node hB
  rw [(h.slabBlock hB).2] at hin
  exact ⟨hin.1, by omega⟩

theorem Intact.whole_ne {a k B x : Nat} {sl : Slab} (ha : Held o a k) (hnone : g a = none)
    (hB : g B = some sl) (hx : Inside B (2 ^ (buddyExponMin + (s.slabs sl.cache).blockOrder)) x) :
    a ≠ x := by
  rintro rfl
  obtain ⟨rfl, -⟩ := h.tally.block_eq (.inr ha) (.inr (h.slabBlock hB).1) (inside_base a k) hx rfl
  rw [hB] at hnone
  cases hnone

theorem Intact.slab_eq {B B' x : Nat} {sl sl' : Slab} (hB : g B = some sl) (hB' : g B' = some sl')
    (hx : IsObj (s.slabs sl.cache) B x) (hx' : IsObj (s.slabs sl'.cache) B' x) : B = B' :=
  (h.tally.block_eq (.inr (h.slabBlock hB).1) (.inr (h.slabBlock hB').1) (h.obj_inside hB hx)
    (h.obj_inside hB' hx') rfl).1

theorem Intact.live_ne_zero {a n : Nat} (ha : LiveAlloc s (Held o) g a n) : a ≠ 0 := by
  obtain ⟨c, k, hout, hlo, -⟩ := h.layout.live_inside ha
  have hin := (h.tally.blocks.inside (.inr hout)).1
  have hlow := h.tally.low
  omega

theorem Intact.node_apart {B x a n : Nat} {sl : Slab} (hB : g B = some sl) (hx : x ∈ sl.free)
    (ha : LiveAlloc s (Held o) g a n) : ¬ Inside a n (x + 4) := by
  have hnode := h.node hB
  have hapart := h.layout.free_apart hB hx ha
  rintro ⟨hlo, hhi⟩
  omega

/-! ## The memory of a live allocation -/

/-- A change of the memory that spares the links of the free objects. -/
theorem Intact.write {m : Nat → Word}
    (hm : ∀ {B sl x}, g B = some sl → x ∈ sl.free → m (x + 4) = s.mem (x + 4)) :
    Intact W C { s with mem := m } L o g where
  tally := h.tally.congr rfl rfl rfl rfl rfl
  sizes := h.sizes
  orders := h.orders
  sized := h.sized
  slab hB := (h.slab hB).congr ⟨rfl, rfl⟩ (fun _ => ⟨rfl, .refl _⟩) (h.slab_inside hB)
    fun _ hx => hm hB hx
  slabBlock := h.slabBlock
  node := h.node
  avail hc := by
    obtain ⟨l, havail, hmem⟩ := h.avail hc
    exact ⟨l, havail.congr (fun _ _ => rfl) rfl fun _ _ => ⟨rfl, rfl⟩, hmem⟩
  whole := h.whole

/-! ## Blocks -/

theorem Intact.rebase {t : HeapVars ω} {L' : Nat → List Nat} {o' o₀ : Nat → Option Nat}
    (htally : Tally W t L' o') (honly : OnlyAt (fun i => ¬ OutDesc W s o₀ i) s t)
    (hslab : ∀ {B sl}, g B = some sl → o₀ B = o B ∧ o' B = o B)
    (hwhole : ∀ {a k}, Held o' a k → g a = none →
      LiveHead (t.desc (descOf W s a)) k ∧ (t.desc (descOf W s a)).buddyOrder = .num k) :
    Intact W C t L' o' g := by
  have hd := descOf_congr (W := W) honly.world
  have hdesc : ∀ {B sl x}, g B = some sl → Inside B (s.slabs sl.cache).slabSize x →
      t.desc (descOf W s x) = s.desc (descOf W s x) := by
    intro B sl x hB hx
    obtain ⟨hheld, hsize⟩ := h.slabBlock hB
    refine honly.desc _ (not_not.2 ⟨B, _, x, ?_, hx, rfl⟩)
    rw [(hslab hB).1, hsize]
    exact hheld
  refine ⟨htally, ?_, h.orders, ?_, ?_, ?_, ?_, ?_, ?_⟩
  · rw [honly.slabs]
    exact h.sizes
  · rw [honly.slabs]
    exact h.sized
  · intro B sl hB
    refine (h.slab hB).congr (by rw [honly.slabs]; exact ⟨rfl, rfl⟩) (fun hx => ?_)
      (h.slab_inside hB) fun x _ => by rw [honly.mem]
    rw [hd, hdesc hB hx]
    exact ⟨rfl, .refl _⟩
  · intro B sl hB
    rw [honly.slabs, Held, (hslab hB).2]
    exact h.slabBlock hB
  · rw [honly.slabs]
    exact h.node
  · intro c hc
    obtain ⟨l, havail, hmem⟩ := h.avail hc
    refine ⟨l, havail.congr (fun B _ => by rw [hd]) (by rw [honly.slabs]) ?_, hmem⟩
    intro B hB
    obtain ⟨sl, hg, -⟩ := (hmem B).1 hB
    rw [hdesc hg (h.slab_inside hg)]
    exact ⟨rfl, rfl⟩
  · intro a k ha hnone
    rw [hd]
    exact hwhole ha hnone

theorem Intact.takeBlock {k : Nat} (hserved : Served s k) (fuel : Nat) :
    ∃ t L' o' a, allocBuddy W (fuel + 1) s (2 ^ (buddyExponMin + k)) = .ok (t, a) ∧
      Intact W C t L' o' g ∧ Placed s (Held o) g a (2 ^ (buddyExponMin + k)) ∧
      (∀ b l, Held o b l → Held o' b l) ∧ t.slabs = s.slabs ∧
      (∀ b m, LiveAlloc t (Held o') g b m ↔
        LiveAlloc s (Held o) g b m ∨ b = a ∧ m = 2 ^ (buddyExponMin + k)) ∧
      Undisturbed (LiveAlloc s (Held o) g) a s t := by
  obtain ⟨t, L', a, hrun, hnone, htally, htaken, horder, honly⟩ := h.tally.allocBuddy hserved fuel
  obtain ⟨t', a', hrun', hplaced, -⟩ := h.layout.allocBuddy hserved fuel
  obtain ⟨rfl, rfl⟩ := Prod.mk.inj (Except.ok.inj (hrun'.symm.trans hrun))
  have hgnone : g a' = none := by
    rw [Option.eq_none_iff_forall_ne_some]
    intro sl hB
    have hheld := (h.slabBlock hB).1
    rw [Held, hnone] at hheld
    cases hheld
  have hheld : ∀ b l, Held o b l →
      Held (Function.update o a' (some (2 ^ (buddyExponMin + k)))) b l := by
    intro b l hb
    refine held_update_some.2 (.inr ⟨?_, hb⟩)
    rintro rfl
    rw [Held, hnone] at hb
    cases hb
  refine ⟨t', L', _, a', hrun, h.rebase htally honly ?_ ?_, hplaced, hheld, honly.slabs, ?_,
    fun _ _ _ => congrFun honly.mem _⟩
  · intro B sl hB
    refine ⟨rfl, Function.update_of_ne ?_ _ _⟩
    rintro rfl
    rw [hgnone] at hB
    cases hB
  · intro b l hb hbnone
    rcases held_update_some.1 hb with ⟨rfl, rfl⟩ | ⟨-, hb⟩
    · exact ⟨htaken.live, horder⟩
    · rw [honly.desc _ (not_not.2 ⟨b, _, b, hb, inside_base b l, rfl⟩)]
      exact h.whole hb hbnone
  · intro b m
    constructor
    · rintro (⟨hb, hbnone⟩ | ⟨hB, hobj, hfree⟩)
      · rcases held_update_some.1 hb with ⟨rfl, rfl⟩ | ⟨-, hb⟩
        · exact .inr ⟨rfl, rfl⟩
        · exact .inl (.block hb hbnone)
      · rw [honly.slabs] at hobj ⊢
        exact .inl (.object hB hobj hfree)
    · rintro ((⟨hb, hbnone⟩ | ⟨hB, hobj, hfree⟩) | ⟨rfl, rfl⟩)
      · exact .block (hheld b _ hb) hbnone
      · rw [← honly.slabs] at hobj ⊢
        exact .object hB hobj hfree
      · exact .block (held_update_some.2 (.inl ⟨rfl, rfl⟩)) hgnone

theorem Intact.giveBlock {a k : Nat} (ha : Held o a k) (hnone : g a = none) :
    ∃ t L' o', freeBuddy W s a = .ok t ∧ Intact W C t L' o' g ∧
      (∀ b m, LiveAlloc t (Held o') g b m ↔ LiveAlloc s (Held o) g b m ∧ b ≠ a) ∧
      Undisturbed (LiveAlloc s (Held o) g) a s t := by
  obtain ⟨t, L', hrun, htally, honly⟩ := h.tally.freeBuddy ha (h.whole ha hnone).1
  have hne : ∀ {B sl}, g B = some sl → B ≠ a := by
    rintro B sl hB rfl
    rw [hnone] at hB
    cases hB
  refine ⟨t, L', _, hrun, h.rebase htally honly ?_ ?_, ?_, fun _ _ _ => congrFun honly.mem _⟩
  · intro B sl hB
    exact ⟨Function.update_of_ne (hne hB) _ _, Function.update_of_ne (hne hB) _ _⟩
  · intro b l hb hbnone
    rw [honly.desc _ (not_not.2 ⟨b, _, b, hb, inside_base b l, rfl⟩)]
    exact h.whole (held_update_none.1 hb).1 hbnone
  · intro b m
    constructor
    · rintro (⟨hb, hbnone⟩ | ⟨hB, hobj, hfree⟩)
      · obtain ⟨hb, hba⟩ := held_update_none.1 hb
        exact ⟨.block hb hbnone, hba⟩
      · rw [honly.slabs] at hobj ⊢
        exact ⟨.object hB hobj hfree, (h.whole_ne ha hnone hB (h.obj_inside hB hobj)).symm⟩
    · rintro ⟨⟨hb, hbnone⟩ | ⟨hB, hobj, hfree⟩, hba⟩
      · exact .block (held_update_none.2 ⟨hb, hba⟩) hbnone
      · rw [← honly.slabs] at hobj ⊢
        exact .object hB hobj hfree

end Intact

/-! ## Objects -/

theorem slabAt_noted {W : World ω} {s : HeapVars (Noted ω)} {B : Nat} {sl : Slab} :
    SlabAt W.noted s B sl ↔ SlabAt W s.bare B sl :=
  ⟨fun h => ⟨h.1, h.2, h.3, h.4, h.5, h.6, h.7, h.8, h.9, h.10, h.11⟩,
    fun h => ⟨h.1, h.2, h.3, h.4, h.5, h.6, h.7, h.8, h.9, h.10, h.11⟩⟩

theorem avail_noted {W : World ω} {G : Nat → Prop} {s : HeapVars (Noted ω)} {c : Nat}
    {l : List Nat} : Avail W.noted G s c l ↔ Avail W G s.bare c l :=
  ⟨fun h => ⟨h.1, h.2, h.3, h.4⟩, fun h => ⟨h.1, h.2, h.3, h.4⟩⟩

open Classical in
/-- The slabs of the orders of `C`. -/
noncomputable def tracked (C : Nat → Prop) (g : Nat → Option Slab) (B : Nat) : Option Slab :=
  (g B).filter fun sl => decide (C sl.cache)

theorem tracked_eq_some {C : Nat → Prop} {g : Nat → Option Slab} {B : Nat} {sl : Slab} :
    tracked C g B = some sl ↔ g B = some sl ∧ C sl.cache := by
  simp [tracked, Option.filter_eq_some_iff]

theorem tracked_of_none {C : Nat → Prop} {g : Nat → Option Slab} {B : Nat} (h : g B = none) :
    tracked C g B = none := by
  simp [tracked, h]

theorem tracked_of_not {C : Nat → Prop} {g : Nat → Option Slab} {B : Nat} {sl : Slab}
    (hB : g B = some sl) (hc : ¬ C sl.cache) : tracked C g B = none := by
  rw [Option.eq_none_iff_forall_ne_some]
  intro sl' hB'
  obtain ⟨hB', hc'⟩ := tracked_eq_some.1 hB'
  obtain rfl := Option.some.inj (hB.symm.trans hB')
  exact hc hc'

theorem tracked_update {C : Nat → Prop} {g : Nat → Option Slab} {B : Nat} {new : Option Slab}
    (hnew : ∀ sl, new = some sl → C sl.cache) :
    Function.update (tracked C g) B new = tracked C (Function.update g B new) := by
  funext B'
  by_cases hBB : B' = B
  · subst hBB
    rw [Function.update_self, tracked, Function.update_self]
    cases new with
    | none => rfl
    | some sl => exact (Option.filter_some_pos (by simpa using hnew sl rfl)).symm
  · rw [Function.update_of_ne hBB, tracked, tracked, Function.update_of_ne hBB]

theorem update_untracked {C : Nat → Prop} {g : Nat → Option Slab} {B B' : Nat} {sl : Slab}
    {new : Option Slab} (hold : ∀ sl, g B = some sl → C sl.cache)
    (hnew : ∀ sl, new = some sl → C sl.cache) (hsl : ¬ C sl.cache) :
    Function.update g B new B' = some sl ↔ g B' = some sl := by
  by_cases hBB : B' = B
  · subst hBB
    rw [Function.update_self]
    exact ⟨fun e => absurd (hnew sl e) hsl, fun e => absurd (hold sl e) hsl⟩
  · rw [Function.update_of_ne hBB]

/-- What is live and no object of the orders of `C`. -/
def Rest (C : Nat → Prop) (s : HeapVars ω) (o : Nat → Option Nat) (g : Nat → Option Slab)
    (b m : Nat) : Prop :=
  (∃ k, Held o b k ∧ g b = none ∧ m = 2 ^ (buddyExponMin + k)) ∨
    ∃ B sl, g B = some sl ∧ ¬ C sl.cache ∧ IsObj (s.slabs sl.cache) B b ∧ b ∉ sl.free ∧
      m = (s.slabs sl.cache).objSize

theorem liveAlloc_iff {C : Nat → Prop} {s : HeapVars ω} {o : Nat → Option Nat}
    {g : Nat → Option Slab} {live : List (Nat × Nat)}
    (hlive : ∀ a c, (a, c) ∈ live ↔ LiveObject s (tracked C g) c a) (b m : Nat) :
    LiveAlloc s (Held o) g b m ↔
      Rest C s o g b m ∨ ∃ c, (b, c) ∈ live ∧ m = (s.slabs c).objSize := by
  constructor
  · rintro (⟨hb, hnone⟩ | @⟨B, _, sl, hB, hobj, hfree⟩)
    · exact .inl (.inl ⟨_, hb, hnone, rfl⟩)
    · by_cases hc : C sl.cache
      · exact .inr ⟨sl.cache, (hlive _ _).2 ⟨B, sl, tracked_eq_some.2 ⟨hB, hc⟩, rfl, hobj, hfree⟩,
          rfl⟩
      · exact .inl (.inr ⟨B, sl, hB, hc, hobj, hfree, rfl⟩)
  · rintro ((⟨k, hb, hnone, rfl⟩ | ⟨B, sl, hB, -, hobj, hfree, rfl⟩) | ⟨c, hb, rfl⟩)
    · exact .block hb hnone
    · exact .object hB hobj hfree
    · obtain ⟨B, sl, hB, rfl, hobj, hfree⟩ := (hlive b c).1 hb
      exact .object (tracked_eq_some.1 hB).1 hobj hfree

section Objects

variable {W : World ω} {C : Nat → Prop} {s : HeapVars ω} {L : Nat → List Nat}
  {o : Nat → Option Nat} {g : Nat → Option Slab} (h : Intact W C s L o g)
include h

theorem Intact.exists_live : ∃ live : List (Nat × Nat), live.Nodup ∧
    ∀ a c, (a, c) ∈ live ↔ LiveObject s (tracked C g) c a := by
  have hfin : {p : Nat × Nat | LiveObject s (tracked C g) p.2 p.1}.Finite := by
    apply Set.Finite.of_injOn (f := Prod.fst) (t := Set.Iio (2 ^ 32)) _ _ (Set.finite_Iio _)
    · rintro ⟨a, c⟩ ⟨B, sl, hB, rfl, hobj, -⟩
      have hg := (tracked_eq_some.1 hB).1
      have hin := h.obj_inside hg hobj
      have hblock := h.tally.blocks.inside (.inr (h.slabBlock hg).1)
      have hbound := h.tally.bound
      exact hin.2.trans_le (hblock.2.trans hbound.le)
    · rintro ⟨a, c⟩ ⟨B, sl, hB, rfl, hobj, -⟩ ⟨b, d⟩ ⟨B', sl', hB', rfl, hobj', -⟩ rfl
      have hg := (tracked_eq_some.1 hB).1
      have hg' := (tracked_eq_some.1 hB').1
      obtain rfl := h.slab_eq hg hg' hobj hobj'
      rw [hg] at hg'
      rw [Option.some.inj hg']
  refine ⟨hfin.toFinset.toList, Finset.nodup_toList _, fun a c => ?_⟩
  rw [Finset.mem_toList, Set.Finite.mem_toFinset]
  rfl

/-- The slabs of the orders of `C` meet the invariant of the slab code. -/
theorem Intact.inv : ∃ live, Inv (ledger W) C (fun _ n => n ≤ buddyOrderMax)
    ⟨s.note o, live⟩ (tracked C g) := by
  obtain ⟨live, hnodup, hlive⟩ := h.exists_live
  refine ⟨live, ⟨L, h.tally⟩, h.sized, ?_, fun hn => hn, ?_, ?_, ?_, ?_, hlive, hnodup⟩
  · intro c hc
    exact ⟨Nat.zero_le _, (h.sized hc).order.trans (by decide)⟩
  · intro B sl hB
    exact (tracked_eq_some.1 hB).2
  · intro B sl hB
    obtain ⟨hheld, hsize⟩ := h.slabBlock (tracked_eq_some.1 hB).1
    show o B = some (s.slabs sl.cache).slabSize
    rw [hsize]
    exact hheld
  · intro B sl hB
    exact slabAt_noted.2 (h.slab (tracked_eq_some.1 hB).1)
  · intro c hc
    obtain ⟨l, havail, hmem⟩ := h.avail hc
    refine ⟨l, avail_noted.2 havail, fun B => (hmem B).trans ?_⟩
    constructor
    · rintro ⟨sl, hB, rfl, hfree⟩
      exact ⟨sl, tracked_eq_some.2 ⟨hB, hc⟩, rfl, hfree⟩
    · rintro ⟨sl, hB, rfl, hfree⟩
      exact ⟨sl, (tracked_eq_some.1 hB).1, rfl, hfree⟩

section Call

variable {live live' : List (Nat × Nat)} {t : HeapVars (Noted ω)} {g' : Nat → Option Slab} {a : Nat}
  (hspares : Spares (ledger W) ⟨s.note o, live⟩ (tracked C g) a t)
include hspares

omit h in
theorem Spares.block {b k x : Nat} (hb : Held o b k) (hnone : tracked C g b = none)
    (hx : Inside b (2 ^ (buddyExponMin + k)) x) :
    descOf W t.bare x = descOf W s x ∧ t.desc (descOf W s x) = s.desc (descOf W s x) ∧
      t.mem x = s.mem x := by
  have helse : Elsewhere (ledger W) (s.note o) (tracked C g) x := ⟨b, _, hb, hnone, hx⟩
  exact ⟨hspares.keeps.descOf helse, hspares.keeps.desc helse, hspares.keeps.mem helse⟩

omit h in
theorem Spares.isObj_iff (c base x : Nat) :
    IsObj (t.bare.slabs c) base x ↔ IsObj (s.slabs c) base x := by
  obtain ⟨hobj, hsize, -⟩ := hspares.sizes c
  show IsObj (t.slabs c) base x ↔ _
  unfold IsObj SlabOrder.count
  rw [hobj, hsize]
  rfl

theorem Intact.kept_slab {B : Nat} {sl : Slab} (hB : g B = some sl) (hc : ¬ C sl.cache) :
    SlabAt W t.bare B sl := by
  obtain ⟨hheld, hsize⟩ := h.slabBlock hB
  have hnone : tracked C g B = none := tracked_of_not hB hc
  have hkept : ∀ {x}, Inside B (s.slabs sl.cache).slabSize x → _ := fun hx =>
    hspares.block hheld hnone (hsize ▸ hx)
  refine (h.slab hB).congr ?_ ?_ ?_ ?_
  · exact ⟨(hspares.sizes sl.cache).1, (hspares.sizes sl.cache).2.1⟩
  · intro x hx
    obtain ⟨hd, hdesc, -⟩ := hkept hx
    refine ⟨hd, ?_⟩
    show SameSlab _ (t.desc _)
    rw [hdesc]
    exact .refl _
  · exact h.slab_inside hB
  · intro x hx
    -- the links are in the object
    have hin := isObj_inside ((h.slab hB).objs hx)
    have hnode := h.node hB
    exact (hkept ⟨by omega, by omega⟩).2.2

/-- A call of the slab code leads from an intact heap to one, when the slabs of other caches
and the blocks that are no slabs stay. -/
theorem Intact.ofInv
    (hinv : Inv (ledger W) C (fun _ n => n ≤ buddyOrderMax) ⟨t, live'⟩ (tracked C g'))
    (hslabs : ∀ {B sl}, ¬ C sl.cache → (g' B = some sl ↔ g B = some sl))
    (hrest : ∀ {b k}, tracked C g b = none → Held o b k → Held t.world.2 b k)
    (hwhole : ∀ b k, Held t.world.2 b k ∧ g' b = none ↔ Held o b k ∧ g b = none) :
    (∃ L', Intact W C t.bare L' t.world.2 g') ∧
      ∀ b m, Rest C t.bare t.world.2 g' b m ↔ Rest C s o g b m := by
  have horder : ∀ c, (t.slabs c).blockOrder = (s.slabs c).blockOrder := by
    intro c
    unfold SlabOrder.blockOrder
    rw [(hspares.sizes c).2.1]
    rfl
  constructor
  · obtain ⟨L', htally⟩ := hinv.ok
    refine ⟨L', htally, ?_, h.orders, hinv.sized, ?_, ?_, ?_, ?_, ?_⟩
    · intro c hc
      obtain ⟨hobj, hsize, -⟩ := hspares.sizes c
      exact ⟨hobj.trans (h.sizes hc).1, hsize.trans (h.sizes hc).2⟩
    · intro B sl hB
      by_cases hc : C sl.cache
      · exact slabAt_noted.1 (hinv.slab (tracked_eq_some.2 ⟨hB, hc⟩))
      · exact h.kept_slab hspares ((hslabs hc).1 hB) hc
    · intro B sl hB
      by_cases hc : C sl.cache
      · have hsize := (hinv.sized hc).slabSize
        have howned : t.world.2 B = some (t.slabs sl.cache).slabSize :=
          hinv.owned (tracked_eq_some.2 ⟨hB, hc⟩)
        refine ⟨?_, hsize⟩
        rw [Held, howned]
        exact congrArg some hsize
      · have hB' := (hslabs hc).1 hB
        obtain ⟨hheld, hsize⟩ := h.slabBlock hB'
        show Held t.world.2 B (t.slabs sl.cache).blockOrder ∧ (t.slabs sl.cache).slabSize =
          2 ^ (buddyExponMin + (t.slabs sl.cache).blockOrder)
        rw [horder, (hspares.sizes sl.cache).2.1]
        exact ⟨hrest (tracked_of_not hB' hc) hheld, hsize⟩
    · intro B sl hB
      by_cases hc : C sl.cache
      · exact (hinv.sized hc).objSize
      · show 8 ≤ (t.slabs sl.cache).objSize
        rw [(hspares.sizes sl.cache).1]
        exact h.node ((hslabs hc).1 hB)
    · intro c hc
      obtain ⟨l, havail, hmem⟩ := hinv.avail hc
      refine ⟨l, avail_noted.1 havail, fun B => (hmem B).trans ?_⟩
      constructor
      · rintro ⟨sl, hB, rfl, hfree⟩
        exact ⟨sl, (tracked_eq_some.1 hB).1, rfl, hfree⟩
      · rintro ⟨sl, hB, rfl, hfree⟩
        exact ⟨sl, tracked_eq_some.2 ⟨hB, hc⟩, rfl, hfree⟩
    · intro b k hb hnone
      obtain ⟨hb, hnone⟩ := (hwhole b k).1 ⟨hb, hnone⟩
      obtain ⟨hd, hdesc, -⟩ := hspares.block hb (tracked_of_none hnone) (inside_base b k)
      rw [hd]
      show LiveHead (t.desc _) k ∧ (t.desc _).buddyOrder = _
      rw [hdesc]
      exact h.whole hb hnone
  · intro b m
    have hmain : ∀ {P : Nat → Prop}, (∃ k, Held t.world.2 b k ∧ g' b = none ∧ P k) ↔
        ∃ k, Held o b k ∧ g b = none ∧ P k := by
      intro P
      refine exists_congr fun k => ?_
      rw [← and_assoc, hwhole, and_assoc]
    unfold Rest
    rw [hmain]
    refine or_congr Iff.rfl (exists_congr fun B => exists_congr fun sl => ?_)
    constructor
    · rintro ⟨hB, hc, hobj, hfree, hm⟩
      exact ⟨(hslabs hc).1 hB, hc, (hspares.isObj_iff _ _ _).1 hobj, hfree,
        hm.trans (hspares.sizes sl.cache).1⟩
    · rintro ⟨hB, hc, hobj, hfree, hm⟩
      exact ⟨(hslabs hc).2 hB, hc, (hspares.isObj_iff _ _ _).2 hobj, hfree,
        hm.trans (hspares.sizes sl.cache).1.symm⟩

theorem Intact.undisturbed
    (hinv : Inv (ledger W) C (fun _ n => n ≤ buddyOrderMax) ⟨s.note o, live⟩ (tracked C g)) :
    Undisturbed (LiveAlloc s (Held o) g) a s t.bare := by
  intro b m x hb hba hx
  rcases (liveAlloc_iff (s := s) hinv.live b m).1 hb with (⟨k, hheld, hnone, rfl⟩ |
    ⟨B, sl, hB, hc, hobj, hfree, rfl⟩) | ⟨c, hlive, rfl⟩
  · exact (hspares.block hheld (tracked_of_none hnone) hx).2.2
  · obtain ⟨hheld, hsize⟩ := h.slabBlock hB
    have hin := isObj_inside hobj
    rw [hsize] at hin
    obtain ⟨hlo, hhi⟩ := hx
    exact (hspares.block hheld (tracked_of_not hB hc) ⟨by omega, by omega⟩).2.2
  · exact hspares.mem hlive hba hx

end Call

theorem Intact.takeObject {c : Nat} (hc : c < slabOrderCount)
    (hno : (s.slabs c).freeSlab ≠ none ∨ Served s (orderOf (s.slabs c).slabSize)) (fuel : Nat) :
    ∃ t L' o' g' a, allocSlab W (allocBuddy W (fuel + 1)) s c = .ok (t, a) ∧
      Intact W C t L' o' g' ∧ Placed s (Held o) g a (2 ^ (slabExponMin + c)) ∧
      (∀ d b, LiveObject s g d b → LiveObject t g' d b) ∧
      (∀ b m, LiveAlloc t (Held o') g' b m ↔
        LiveAlloc s (Held o) g b m ∨ b = a ∧ m = 2 ^ (slabExponMin + c)) ∧
      Undisturbed (LiveAlloc s (Held o) g) a s t := by
  have hcc := h.orders hc
  obtain ⟨live, hinv⟩ := h.inv
  obtain ⟨r, a, hrun, hplaced⟩ := h.layout.allocSlab hc hno fuel
  -- the same call with the note
  obtain ⟨t, hnoted, rfl⟩ : ∃ t, allocSlab W.noted (ledgerAlloc W) (s.note o) c = .ok (t, a) ∧
      t.bare = r := by
    have hbare := allocSlab_bare (s.note o) W c
    rw [bare_note, ← allocSlab_fuel hno fuel, hrun] at hbare
    cases hcall : allocSlab W.noted (ledgerAlloc W) (s.note o) c with
    | error e =>
      rw [hcall] at hbare
      cases hbare
    | ok v =>
      rw [hcall] at hbare
      obtain ⟨rfl, rfl⟩ := Prod.mk.inj (Except.ok.inj hbare)
      exact ⟨v.1, rfl, rfl⟩
  have hspares := hinv.allocSlab_spares hcc hnoted
  have hsize : (t.slabs c).objSize = 2 ^ (slabExponMin + c) :=
    (hspares.sizes c).1.trans (h.layout.sized hc).1
  have hlives : ∀ {o' : Nat → Option Nat} {g' : Nat → Option Slab},
      Inv (ledger W) C (fun _ n => n ≤ buddyOrderMax) ⟨t, (a, c) :: live⟩ (tracked C g') →
      (∀ b m, Rest C t.bare o' g' b m ↔ Rest C s o g b m) → ∀ b m,
      LiveAlloc t.bare (Held o') g' b m ↔
        LiveAlloc s (Held o) g b m ∨ b = a ∧ m = 2 ^ (slabExponMin + c) := by
    intro o' g' hinv' hrest b m
    rw [liveAlloc_iff (s := t.bare) hinv'.live, liveAlloc_iff (s := s) hinv.live, hrest, or_assoc]
    refine or_congr Iff.rfl ?_
    constructor
    · rintro ⟨c', hb, hm⟩
      rcases List.mem_cons.1 hb with he | hb
      · obtain ⟨rfl, rfl⟩ := Prod.mk.inj he
        exact .inr ⟨rfl, hm.trans hsize⟩
      · exact .inl ⟨c', hb, hm.trans (hspares.sizes c').1⟩
    · rintro (⟨c', hb, hm⟩ | ⟨rfl, hm⟩)
      · exact ⟨c', List.mem_cons_of_mem _ hb, hm.trans (hspares.sizes c').1.symm⟩
      · exact ⟨c, List.mem_cons_self, hm.trans hsize.symm⟩
  have hstay : ∀ {g' : Nat → Option Slab},
      Inv (ledger W) C (fun _ n => n ≤ buddyOrderMax) ⟨t, (a, c) :: live⟩ (tracked C g') →
      (∀ {B sl}, ¬ C sl.cache → (g' B = some sl ↔ g B = some sl)) →
      ∀ d b, LiveObject s g d b → LiveObject t.bare g' d b := by
    rintro g' hinv' hslabs d b ⟨B, sl, hB, rfl, hobj, hfree⟩
    by_cases hd : C sl.cache
    · have hb : (b, sl.cache) ∈ (a, c) :: live := List.mem_cons_of_mem _
        ((hinv.live _ _).2 ⟨B, sl, tracked_eq_some.2 ⟨hB, hd⟩, rfl, hobj, hfree⟩)
      obtain ⟨B', sl', hB', hsc, hobj', hfree'⟩ := (hinv'.live _ _).1 hb
      exact ⟨B', sl', (tracked_eq_some.1 hB').1, hsc, hobj', hfree'⟩
    · exact ⟨B, sl, (hslabs hd).2 hB, rfl, (hspares.isObj_iff _ _ _).2 hobj, hfree⟩
  rcases hinv.allocSlab hcc with ⟨t', B, a', F, hrun', hB, howned, hinv'⟩ |
    ⟨t', a', hrun', hnone, howned, hfresh, hinv'⟩ | ⟨e, -, hrun'⟩
  · -- an object of a slab that is there
    obtain ⟨rfl, rfl⟩ := Prod.mk.inj (Except.ok.inj (hrun'.symm.trans hnoted))
    obtain ⟨hg, -⟩ := tracked_eq_some.1 hB
    have hnew : ∀ sl, some (⟨c, F⟩ : Slab) = some sl → C sl.cache := by
      rintro sl ⟨⟩
      exact hcc
    have hold : ∀ sl, g B = some sl → C sl.cache := by
      intro sl hsl
      rw [hg] at hsl
      cases hsl
      exact hcc
    have hwhole : ∀ b k, Held o b k ∧ Function.update g B (some ⟨c, F⟩) b = none ↔
        Held o b k ∧ g b = none := by
      intro b k
      by_cases hBB : b = B
      · subst hBB
        simp [hg]
      · rw [Function.update_of_ne hBB]
    rw [tracked_update hnew] at hinv'
    change t'.world.2 = o at howned
    obtain ⟨⟨L', hintact⟩, hrest⟩ := h.ofInv hspares hinv' (update_untracked hold hnew)
      (fun _ hb => by rw [howned]; exact hb) (by rw [howned]; exact hwhole)
    exact ⟨t'.bare, L', _, _, a', hrun, hintact, hplaced,
      hstay hinv' (update_untracked hold hnew), hlives hinv' hrest, h.undisturbed hspares hinv⟩
  · -- the first object of a new slab
    obtain ⟨rfl, rfl⟩ := Prod.mk.inj (Except.ok.inj (hrun'.symm.trans hnoted))
    change o a' = none at hnone
    change t'.world.2 = Function.update o a' (some (s.slabs c).slabSize) at howned
    have hg : g a' = none := by
      rw [Option.eq_none_iff_forall_ne_some]
      intro sl hB
      have hheld := (h.slabBlock hB).1
      rw [Held, hnone] at hheld
      cases hheld
    have hnew : ∀ sl, some (⟨c, (objects (s.slabs c) a').tail⟩ : Slab) = some sl →
        C sl.cache := by
      rintro sl ⟨⟩
      exact hcc
    have hold : ∀ sl, g a' = some sl → C sl.cache := by
      intro sl hsl
      rw [hg] at hsl
      cases hsl
    have hheld : ∀ {b k}, Held o b k → Held t'.world.2 b k := by
      intro b k hb
      rw [howned, Held, Function.update_of_ne]
      · exact hb
      · rintro rfl
        rw [Held, hnone] at hb
        cases hb
    have hwhole : ∀ b k, Held t'.world.2 b k ∧
        Function.update g a' (some ⟨c, (objects (s.slabs c) a').tail⟩) b = none ↔
        Held o b k ∧ g b = none := by
      intro b k
      by_cases hba : b = a'
      · subst hba
        simp [Held, hnone]
      · rw [howned, Held, Function.update_of_ne hba, Function.update_of_ne hba]
        rfl
    change Inv (ledger W) C _ ⟨t', (a', c) :: live⟩ (Function.update (tracked C g) a'
      (some ⟨c, (objects (s.slabs c) a').tail⟩)) at hinv'
    rw [tracked_update hnew] at hinv'
    obtain ⟨⟨L', hintact⟩, hrest⟩ := h.ofInv hspares hinv' (update_untracked hold hnew)
      (fun _ hb => hheld hb) hwhole
    exact ⟨t'.bare, L', _, _, a', hrun, hintact, hplaced,
      hstay hinv' (update_untracked hold hnew), hlives hinv' hrest, h.undisturbed hspares hinv⟩
  · exact absurd (hrun'.symm.trans hnoted) (by simp)

theorem Intact.giveObject {c a : Nat} (hc : C c) (ha : LiveObject s g c a) :
    ∃ t L' o' g', freeSlab W (freeBuddy W) s a = .ok t ∧ Intact W C t L' o' g' ∧
      (∀ b m, LiveAlloc t (Held o') g' b m ↔ LiveAlloc s (Held o) g b m ∧ b ≠ a) ∧
      Undisturbed (LiveAlloc s (Held o) g) a s t := by
  obtain ⟨B, sl, hB, rfl, hobj, hfree⟩ := ha
  obtain ⟨live, hinv⟩ := h.inv
  have hlive : (a, sl.cache) ∈ live :=
    (hinv.live a sl.cache).2 ⟨B, sl, tracked_eq_some.2 ⟨hB, hc⟩, rfl, hobj, hfree⟩
  obtain ⟨B', F, t, hB', hobj', -, hrun, hcase⟩ := hinv.freeSlab hlive
  obtain ⟨hg, -⟩ := tracked_eq_some.1 hB'
  obtain rfl : B' = B := h.slab_eq hg hB hobj' hobj
  have hspares := hinv.freeSlab_spares hlive hrun
  have hbare : freeSlab W (freeBuddy W) s a = .ok t.bare := by
    have he := freeSlab_bare (s.note o) W a
    change freeSlab W.noted (ledgerFree W) (s.note o) a = .ok t at hrun
    rw [hrun] at he
    exact he
  have hne : ∀ {b m}, Rest C s o g b m → b ≠ a := by
    rintro b m (⟨k, hb, hnone, -⟩ | ⟨D, sl', hD, hsl', hobj'', -⟩)
    · exact h.whole_ne hb hnone hB (h.obj_inside hB hobj)
    · rintro rfl
      obtain rfl := h.slab_eq hD hB hobj'' hobj
      obtain rfl := Option.some.inj (hD.symm.trans hB)
      exact hsl' hc
  have hlives : ∀ {o' : Nat → Option Nat} {g' : Nat → Option Slab},
      Inv (ledger W) C (fun _ n => n ≤ buddyOrderMax)
        ⟨t, live.filter fun p => decide (p.1 ≠ a)⟩ (tracked C g') →
      (∀ b m, Rest C t.bare o' g' b m ↔ Rest C s o g b m) → ∀ b m,
      LiveAlloc t.bare (Held o') g' b m ↔ LiveAlloc s (Held o) g b m ∧ b ≠ a := by
    intro o' g' hinv' hrest b m
    rw [liveAlloc_iff (s := t.bare) hinv'.live, liveAlloc_iff (s := s) hinv.live, hrest]
    constructor
    · rintro (hb | ⟨c, hb, hm⟩)
      · exact ⟨.inl hb, hne hb⟩
      · obtain ⟨hb, hba⟩ := List.mem_filter.1 hb
        exact ⟨.inr ⟨c, hb, hm.trans (hspares.sizes c).1⟩, of_decide_eq_true hba⟩
    · rintro ⟨hb | ⟨c, hb, hm⟩, hba⟩
      · exact .inl hb
      · exact .inr ⟨c, List.mem_filter.2 ⟨hb, decide_eq_true hba⟩,
          hm.trans (hspares.sizes c).1.symm⟩
  have hold : ∀ sl', g B' = some sl' → C sl'.cache := by
    intro sl' hsl
    rw [hB] at hsl
    cases hsl
    exact hc
  rcases hcase with ⟨-, howned, hinv'⟩ | ⟨-, howned, hinv'⟩
  · have hnew : ∀ sl', some (⟨sl.cache, a :: F⟩ : Slab) = some sl' → C sl'.cache := by
      rintro sl' ⟨⟩
      exact hc
    have hwhole : ∀ b k, Held o b k ∧ Function.update g B' (some ⟨sl.cache, a :: F⟩) b = none ↔
        Held o b k ∧ g b = none := by
      intro b k
      by_cases hD : b = B'
      · subst hD
        simp [hg]
      · rw [Function.update_of_ne hD]
    rw [tracked_update hnew] at hinv'
    change t.world.2 = o at howned
    obtain ⟨⟨L', hintact⟩, hrest⟩ := h.ofInv hspares hinv' (update_untracked hold hnew)
      (fun _ hb => by rw [howned]; exact hb) (by rw [howned]; exact hwhole)
    exact ⟨t.bare, L', _, _, hbare, hintact, hlives hinv' hrest, h.undisturbed hspares hinv⟩
  · -- the block of the slab is given back
    have hnew : ∀ sl', (none : Option Slab) = some sl' → C sl'.cache := fun _ he => by cases he
    change t.world.2 = Function.update o B' none at howned
    have hheld : ∀ {b k}, tracked C g b = none → Held o b k → Held t.world.2 b k := by
      intro b k hnone hb
      rw [howned]
      refine held_update_none.2 ⟨hb, ?_⟩
      rintro rfl
      rw [hB'] at hnone
      cases hnone
    have hwhole : ∀ b k, Held t.world.2 b k ∧ Function.update g B' none b = none ↔
        Held o b k ∧ g b = none := by
      intro b k
      rw [howned, held_update_none]
      by_cases hD : b = B'
      · subst hD
        simp [hg]
      · simp [hD]
    rw [tracked_update hnew] at hinv'
    obtain ⟨⟨L', hintact⟩, hrest⟩ := h.ofInv hspares hinv' (update_untracked hold hnew)
      (fun hnone hb => hheld hnone hb) hwhole
    exact ⟨t.bare, L', _, _, hbare, hintact, hlives hinv' hrest, h.undisturbed hspares hinv⟩

end Objects

end X86Kernel.Heap
