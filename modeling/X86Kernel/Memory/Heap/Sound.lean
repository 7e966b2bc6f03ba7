import X86Kernel.Memory.Heap.AddRegion
import X86Kernel.Memory.Heap.SlabFrame
import X86Kernel.Memory.Heap.SlabRuns

/- Heaps whose lists are sound, while they grow.

   `Sound W s` says that the lists of free blocks are as the block allocator reads them, without
   the flags that `add_buddies` leaves out, that the slabs of intervals are as `alloc_slab`
   reads them, and that the heap ends where its size says. What is proved: the heap is sound
   after `init_heap` and `init_virt_region` (`sound_initVirtRegion`), which of three pages or more
   leave a free block (`inv_initVirtRegion`); `alloc_buddy` that needs no growth, the allocation
   of an interval and a new region return, and keep this.

   Correspondence (C ↔ Lean):
     the assertions of `alloc_buddy` ↔ `Whole`
     `init_virt_region`              ↔ `initVirtRegion` -/
namespace X86Kernel.Heap
open X86Kernel.Lib

variable {ω : Type}

/-- The lists of free blocks and the slabs of intervals are sound. -/
structure Sound (W : World ω) (s : HeapVars ω) : Prop where
  lists : ∃ o live g, Inv (accounts HeapFlags.IsHead W) (· = s.intervalCache)
    (fun _ n => n ≤ buddyOrderMax) ⟨s.note o, live⟩ g
  curMaxAddr : s.curMaxAddr = s.minAddr + s.curSize
  aligned : s.curMaxAddr % pageSize = 0
  top : s.minAddr + s.reservedMaxSize < 2 ^ 32

section Lists

variable {F : HeapFlags → Prop} [ListedFlags F] {W : World ω} {C : Nat → Prop}
  {G : Nat → Nat → Prop} {s : HeapVars ω} {o : Nat → Option Nat} {live : List (Nat × Nat)}
  {g : Nat → Option Slab}

theorem Inv.rebase (h : Inv (accounts F W) C G ⟨s.note o, live⟩ g) {t : HeapVars ω}
    {L' : Nat → List Nat} {o' : Nat → Option Nat} (haccount : Account F W t L' o')
    (honly : OnlyAt (fun i => ¬ OutDesc W s o i) s t)
    (hslab : ∀ {B sl}, g B = some sl → o' B = o B) :
    Inv (accounts F W) C G ⟨t.note o', live⟩ g := by
  have hkeeps : Keeps W.noted (s.note o) (t.note o')
      fun x => ∃ b m, o b = some m ∧ Inside b m x := honly.keeps
  have hout : ∀ {x}, (∃ B sl, g B = some sl ∧ Inside B (s.slabs sl.cache).slabSize x) →
      ∃ b m, o b = some m ∧ Inside b m x := by
    rintro x ⟨B, sl, hB, hx⟩
    exact ⟨B, _, h.owned hB, hx⟩
  exact h.keeps ⟨L', haccount⟩ hslab honly.slabs
    ⟨fun hx => hkeeps.descOf (hout hx), fun hx => hkeeps.desc (hout hx),
      fun hx => hkeeps.mem (hout hx)⟩

/-- Some slab has `n` free objects. -/
def Spare (g : Nat → Option Slab) (n : Nat) : Prop := ∃ B sl, g B = some sl ∧ n ≤ sl.free.length

theorem Spare.mono {n m : Nat} (h : Spare g n) (hm : m ≤ n) : Spare g m := by
  obtain ⟨B, sl, hB, hn⟩ := h
  exact ⟨B, sl, hB, hm.trans hn⟩

theorem Spare.of_taken {B c a n : Nat} {rest : List Nat} (hB : g B = some ⟨c, a :: rest⟩)
    (h : Spare g (n + 1)) : Spare (Function.update g B (some ⟨c, rest⟩)) n := by
  obtain ⟨B₀, sl, hB₀, hn⟩ := h
  by_cases he : B₀ = B
  · subst he
    obtain rfl := Option.some.inj (hB₀.symm.trans hB)
    exact ⟨B₀, _, Function.update_self .., Nat.le_of_succ_le_succ hn⟩
  · exact ⟨B₀, sl, by rw [Function.update_of_ne he, hB₀], Nat.le_of_succ_le hn⟩

theorem Spare.of_new {a n : Nat} {sl : Slab} (hnone : g a = none) (h : Spare g (n + 1)) :
    Spare (Function.update g a (some sl)) n := by
  obtain ⟨B, sl₀, hB, hn⟩ := h
  refine ⟨B, sl₀, ?_, Nat.le_of_succ_le hn⟩
  rw [Function.update_of_ne, hB]
  rintro rfl
  rw [hnone] at hB
  cases hB

theorem Inv.freeSlab_ne {B c : Nat} {sl : Slab} (h : Inv (accounts F W) C G ⟨s.note o, live⟩ g)
    (hB : g B = some sl) (hc : sl.cache = c) (hfree : sl.free ≠ []) :
    (s.slabs c).freeSlab ≠ none := by
  subst hc
  obtain ⟨l, havail, hmem⟩ := h.avail (h.cache hB)
  obtain ⟨B', l', rfl⟩ := List.exists_cons_of_ne_nil (List.ne_nil_of_mem
    ((hmem B).2 ⟨sl, hB, rfl, hfree⟩))
  have hhead : (s.slabs sl.cache).freeSlab = some (descOf W.noted (s.note o) B') :=
    havail.linked.1
  rw [hhead]
  exact nofun

/-- An object from a free one or from a new slab: it is live then, and the free objects of a slab
become fewer by at most one. -/
theorem Inv.allocServed {c : Nat} (h : Inv (accounts F W) C G ⟨s.note o, live⟩ g) (hc : C c)
    (hno : (s.slabs c).freeSlab ≠ none ∨ Served s (orderOf (s.slabs c).slabSize)) (fuel : Nat) :
    ∃ t a o' g', Heap.allocSlab W (Heap.allocBuddy W (fuel + 1)) s c = .ok (t, a) ∧
      Inv (accounts F W) C G ⟨t.note o', (a, c) :: live⟩ g' ∧
      (∀ c, (t.slabs c).objSize = (s.slabs c).objSize) ∧ (∀ n, Spare g (n + 1) → Spare g' n) ∧
      ((s.slabs c).freeSlab = none → Spare g' ((s.slabs c).count - 1)) := by
  -- a run with the note is one without it
  have hdone : ∀ {t a g'}, Heap.allocSlab W.noted (ledgerAlloc W) (s.note o) c = .ok (t, a) →
      Inv (accounts F W) C G ⟨t, (a, c) :: live⟩ g' → (∀ n, Spare g (n + 1) → Spare g' n) →
      ((s.slabs c).freeSlab = none → Spare g' ((s.slabs c).count - 1)) →
      ∃ t a o' g', Heap.allocSlab W (Heap.allocBuddy W (fuel + 1)) s c = .ok (t, a) ∧
        Inv (accounts F W) C G ⟨t.note o', (a, c) :: live⟩ g' ∧
        (∀ c, (t.slabs c).objSize = (s.slabs c).objSize) ∧ (∀ n, Spare g (n + 1) → Spare g' n) ∧
        ((s.slabs c).freeSlab = none → Spare g' ((s.slabs c).count - 1)) := by
    intro t a g' hrun hinv hspare hnew
    have hbare := allocSlab_bare (s.note o) W c
    have hspares := h.allocSlab_spares hc hrun
    rw [hrun] at hbare
    exact ⟨t.bare, a, t.world.2, g', (allocSlab_fuel hno fuel).trans hbare, hinv,
      fun c => (hspares.sizes c).1, hspare, hnew⟩
  rcases h.allocSlab hc with ⟨t, B, a, rest, hrun, hB, -, hinv⟩ | ⟨t, a, hrun, -, -, hnone, hinv⟩ |
    ⟨e, halloc, hrun⟩
  · exact hdone hrun hinv (fun n => Spare.of_taken hB)
      fun hfirst => absurd hfirst (h.freeSlab_ne hB rfl (List.cons_ne_nil a rest))
  · refine hdone hrun hinv (fun n => Spare.of_new hnone) fun _ => ?_
    refine ⟨a, _, Function.update_self .., ?_⟩
    rw [List.length_tail, length_objects]
    exact Nat.le_refl _
  · -- a slab with a free object, or a block for one
    cases hfirst : (s.slabs c).freeSlab with
    | some i =>
      obtain ⟨t, B, a, L, hobj, -⟩ := h.allocFromSlab hc hfirst
      unfold Heap.allocSlab at hrun
      rw [show ((s.note o).slabs c).freeSlab = some i from hfirst] at hrun
      cases hrun.symm.trans hobj
    | none =>
      have hserved := hno.resolve_left (not_not.2 hfirst)
      obtain ⟨L, haccount⟩ := h.ok
      have hsize : (s.slabs c).slabSize = _ := (h.sized hc).slabSize
      rw [hsize, orderOf_two_pow] at hserved
      obtain ⟨t, L', a, hblock, -⟩ := haccount.allocBuddy hserved 0
      have hledger : ledgerAlloc W (s.note o) (s.slabs c).slabSize =
          .ok (t.note (Function.update o a (some (s.slabs c).slabSize)), a) := by
        rw [bare_note] at hblock
        rw [ledgerAlloc, hsize, bare_note, hblock]
        rfl
      cases hledger.symm.trans halloc

end Lists

/-! ## Calls without growth -/

/-- The sizes that pass the assertions of `alloc_buddy`. -/
def Whole (size : Nat) : Prop :=
  (size ≠ 0 ∧ size % pageSize = 0) ∧ size &&& (size - 1) = 0

theorem Whole.exists_order {size : Nat} (h : Whole size) : ∃ k, size = 2 ^ (buddyExponMin + k) := by
  obtain ⟨⟨hpos, hpages⟩, hand⟩ := h
  obtain ⟨e, rfl⟩ := (Nat.and_sub_one_eq_zero_iff_isPowerOfTwo hpos).1 hand
  have hle : 2 ^ buddyExponMin ≤ 2 ^ e := Nat.le_of_dvd (Nat.two_pow_pos e)
    (Nat.dvd_of_mod_eq_zero hpages)
  obtain ⟨k, rfl⟩ := Nat.exists_eq_add_of_le ((Nat.pow_le_pow_iff_right (by decide)).1 hle)
  exact ⟨k, rfl⟩

theorem allocBuddy_assertion {W : World ω} {size : Nat} (h : ¬ Whole size) (fuel : Nat)
    (s : HeapVars ω) : allocBuddy W (fuel + 1) s size = .error .assertion := by
  unfold allocBuddy
  by_cases hpages : size ≠ 0 ∧ size % pageSize = 0
  · have hand : ¬ size &&& (size - 1) = 0 := fun hand => h ⟨hpages, hand⟩
    rw [assert, if_pos (decide_eq_true hpages), ok_bind, assert, if_neg (by simpa using hand)]
    rfl
  · rw [assert, if_neg (by simpa using hpages)]
    rfl

section Calls

variable {W : World ω} {s : HeapVars ω} (h : Sound W s)
include h

theorem Sound.update {t : HeapVars ω} (houtline : t.outline = s.outline)
    (hlists : ∃ o live g, Inv (accounts HeapFlags.IsHead W) (· = s.intervalCache)
      (fun _ n => n ≤ buddyOrderMax) ⟨t.note o, live⟩ g) : Sound W t := by
  have hcache : t.intervalCache = s.intervalCache := congrArg Outline.intervalCache houtline
  have hmin : t.minAddr = s.minAddr := congrArg Outline.minAddr houtline
  have hmax : t.curMaxAddr = s.curMaxAddr := congrArg Outline.curMaxAddr houtline
  have hcur : t.curSize = s.curSize := congrArg Outline.curSize houtline
  have hres : t.reservedMaxSize = s.reservedMaxSize := congrArg Outline.reservedMaxSize houtline
  refine ⟨?_, ?_, ?_, ?_⟩
  · rw [hcache]
    exact hlists
  · rw [hmax, hmin, hcur]
    exact h.curMaxAddr
  · rw [hmax]
    exact h.aligned
  · rw [hmin, hres]
    exact h.top

theorem Sound.allocBuddy {size : Nat} (hserved : Served s (orderOf size)) (hsize : Whole size)
    (fuel : Nat) : ∃ r, Heap.allocBuddy W (fuel + 1) s size = .ok r ∧ Sound W r.1 := by
  obtain ⟨k, rfl⟩ := hsize.exists_order
  obtain ⟨o, live, g, hinv⟩ := h.lists
  obtain ⟨L, haccount⟩ := hinv.ok
  rw [orderOf_two_pow] at hserved
  obtain ⟨t, L', a, hrun, hnone, haccount', -, -, honly⟩ := haccount.allocBuddy hserved fuel
  refine ⟨(t, a), hrun, h.update ?_ ⟨_, live, g, hinv.rebase haccount' honly ?_⟩⟩
  · rw [← orderOf_two_pow k] at hserved
    exact (outcome_served (fun _ _ => trivial) fuel s _ hserved).of_ok hrun
  · intro B sl hB
    refine Function.update_of_ne ?_ _ _
    rintro rfl
    have howned : o B = some _ := hinv.owned hB
    have hnone' : o B = none := hnone
    rw [howned] at hnone'
    cases hnone'

theorem Sound.allocInterval (hroom : ¬ Starved s) (fuel : Nat) :
    ∃ t a, allocSlab W (Heap.allocBuddy W (fuel + 1)) s s.intervalCache = .ok (t, a) ∧
      Sound W t := by
  obtain ⟨o, live, g, hinv⟩ := h.lists
  obtain ⟨t, a, o', g', hrun, hinv', -⟩ :=
    hinv.allocServed rfl ((not_starved_iff s).1 hroom) fuel
  exact ⟨t, a, hrun, h.update (interval_outline hrun) ⟨o', _, g', hinv'⟩⟩

end Calls

/-! ## A new region -/

section Region

variable {F : HeapFlags → Prop} {W : World ω} {s : HeapVars ω} {L : Nat → List Nat}
  {o : Nat → Option Nat}

theorem Account.remap (h : Account F W s L o) {w : ω}
    (hsame : ∀ {p}, s.minAddr ≤ p * pageSize → p * pageSize < s.curMaxAddr →
      W.descOf w p = W.descOf s.world p) (halone : AloneIn W w s.minAddr s.curMaxAddr) :
    Account F W { s with world := w } L o := by
  have hd : ∀ {a k}, a ∈ L k → descOf W { s with world := w } a = descOf W s a := by
    intro a k ha
    have hpage := h.page_aligned ha
    obtain ⟨hlo, hhi⟩ := h.packing.inside ha
    have hpos := Nat.two_pow_pos (buddyExponMin + k)
    exact hsame (by omega) (by omega)
  have hmap : (fun k => (L k).map (descOf W { s with world := w })) =
      fun k => (L k).map (descOf W s) :=
    funext fun k => List.map_congr_left fun a ha => hd ha
  refine ⟨⟨⟨?_, ?_, h.packing, h.order, h.bound, ?_⟩, ?_, ?_, ?_⟩, ?_, h.blocks, h.out, h.listed,
    halone, h.low⟩
  · rw [hmap]
    exact h.lists.congr (fun _ => rfl) fun _ => ⟨rfl, rfl⟩
  · intro a k ha
    rw [hd ha]
    exact h.head ha
  · exact fun hlo hhi _ _ => halone hlo hhi
  · intro a k ha
    rw [hd ha]
    exact h.flags ha
  · intro a k ha
    rw [hd ha]
    exact h.cache ha
  · intro i hi
    obtain ⟨a, k, ha, hai⟩ := h.only i hi
    exact ⟨a, k, ha, (hd ha).trans hai⟩
  · intro a k ha
    rw [hd ha]
    exact h.orders ha

theorem Inv.remap [ListedFlags F] {C : Nat → Prop} {G : Nat → Nat → Prop}
    {live : List (Nat × Nat)} {g : Nat → Option Slab}
    (h : Inv (accounts F W) C G ⟨s.note o, live⟩ g) {w : ω}
    (hsame : ∀ {p}, s.minAddr ≤ p * pageSize → p * pageSize < s.curMaxAddr →
      W.descOf w p = W.descOf s.world p) (halone : AloneIn W w s.minAddr s.curMaxAddr) :
    Inv (accounts F W) C G ⟨({ s with world := w } : HeapVars ω).note o, live⟩ g := by
  obtain ⟨L, haccount⟩ := h.ok
  refine h.keeps ⟨L, haccount.remap hsame halone⟩ (fun _ => rfl) rfl
    ⟨?_, fun _ => rfl, fun _ => rfl⟩
  rintro x ⟨B, sl, hB, hx⟩
  obtain ⟨k, -, hsize⟩ := haccount.out (h.owned hB)
  have hheld : Held o B k := (h.owned hB).trans (congrArg some hsize)
  rw [hsize] at hx
  have hin := inside_of_page (haccount.blocks.aligned (.inr hheld)) hx
    (Nat.mul_div_cancel (x / pageSize) (by decide))
  obtain ⟨hlo, hhi⟩ := haccount.blocks.inside (.inr hheld)
  exact hsame (hlo.trans hin.1) (hin.2.trans_le hhi)

variable (h : Sound W s)
include h

theorem Sound.remap {w : ω}
    (hsame : ∀ {p}, s.minAddr ≤ p * pageSize → p * pageSize < s.curMaxAddr →
      W.descOf w p = W.descOf s.world p) (halone : AloneIn W w s.minAddr s.curMaxAddr) :
    Sound W { s with world := w } := by
  obtain ⟨o, live, g, hinv⟩ := h.lists
  exact ⟨⟨o, live, g, hinv.remap hsame halone⟩, h.curMaxAddr, h.aligned, h.top⟩

theorem Sound.alone : AloneIn W s.world s.minAddr s.curMaxAddr := by
  obtain ⟨o, live, g, hinv⟩ := h.lists
  obtain ⟨L, haccount⟩ := hinv.ok
  exact haccount.alone

/-- The end of `add_heap_region`. -/
theorem Sound.addBuddies {n : Nat} (hpos : n ≠ 0) (hpages : n % pageSize = 0)
    (hmax : s.curSize + n ≤ s.reservedMaxSize)
    (halone : AloneIn W s.world s.curMaxAddr (s.curMaxAddr + n)) :
    ∃ t, Heap.addBuddies W false (n / pageSize + 1) s s.curMaxAddr n = .ok t ∧
      Sound W { t with
        curMaxAddr := u32 (t.curMaxAddr + n), curSize := u32 (t.curSize + n) } := by
  obtain ⟨o, live, g, hinv⟩ := h.lists
  obtain ⟨L, haccount⟩ := hinv.ok
  have hend := h.curMaxAddr
  have htop := h.top
  have hlo : s.minAddr ≤ s.curMaxAddr := by omega
  have hlt : s.curMaxAddr + n < 2 ^ 32 := by omega
  have haccount' : Account HeapFlags.IsHead W (s.endAt s.curMaxAddr) L o := haccount
  obtain ⟨t, L', hrun, hadded, honly⟩ := haccount'.addBuddies false (n / pageSize + 1) hlo
    h.aligned hpages hlt halone (Nat.lt_succ_self _)
  have houtline : t.outline = s.outline :=
    ((outcome_addBuddies (fun _ _ => trivial) false _ s _ n hpages (by omega) (Nat.lt_succ_self _)
      fun hzero => absurd hzero hpos).of_ok hrun).1
  have hcache : t.intervalCache = s.intervalCache := congrArg Outline.intervalCache houtline
  have hcur : t.curSize = s.curSize := congrArg Outline.curSize houtline
  have hcurMax : t.curMaxAddr = s.curMaxAddr := congrArg Outline.curMaxAddr houtline
  have hres : t.reservedMaxSize = s.reservedMaxSize := congrArg Outline.reservedMaxSize houtline
  have hmaxAddr : u32 (t.curMaxAddr + n) = s.curMaxAddr + n := by
    rw [hcurMax, u32_of_lt hlt]
  have hcurSize : u32 (t.curSize + n) = s.curSize + n := by
    rw [hcur, u32_of_lt (by omega)]
  refine ⟨t, hrun, ?_⟩
  rw [hmaxAddr, hcurSize]
  refine ⟨⟨o, live, g, ?_⟩, ?_, ?_, ?_⟩
  · show Inv _ (· = t.intervalCache) _ _ g
    rw [hcache]
    exact hinv.rebase (hadded.congr rfl rfl rfl rfl rfl)
      ⟨honly.world, honly.desc, honly.mem, honly.slabs, honly.minAddr⟩ fun _ => rfl
  · show s.curMaxAddr + n = t.minAddr + (s.curSize + n)
    rw [honly.minAddr, hend, Nat.add_assoc]
  · show (s.curMaxAddr + n) % pageSize = 0
    rw [Nat.add_mod, h.aligned, hpages]
    rfl
  · show t.minAddr + t.reservedMaxSize < 2 ^ 32
    rw [honly.minAddr, hres]
    exact htop

end Region

/-! ## Blocks that are left -/

section Left

variable {W : World ω}

theorem served_placeBuddy {s : HeapVars ω} {k : Nat} (h : Served s k) (addr order : Nat) :
    Served (placeBuddy W s addr order) k := by
  obtain ⟨j, hkj, hj, hne⟩ := h
  refine ⟨j, hkj, hj, ?_⟩
  rw [placeBuddy_freeBuddies]
  split
  · exact nofun
  · exact hne

theorem addBuddies_served {k : Nat} : ∀ {fuel : Nat} {s t : HeapVars ω} {addr size : Nat},
    addBuddies W true fuel s addr size = .ok t → Served s k → Served t k := by
  intro fuel
  induction fuel with
  | zero =>
    intro s t addr size hrun
    cases hrun
  | succ fuel ih =>
    intro s t addr size hrun h
    by_cases hsize : size = 0
    · unfold addBuddies at hrun
      rw [if_pos hsize] at hrun
      obtain rfl := Except.ok.inj hrun
      exact h
    · obtain ⟨order, addr', size', hrest⟩ := addBuddies_turn hsize hrun
      exact ih hrest (served_placeBuddy h addr order)

theorem one_le_fitOrder {addr : Nat} (heven : addr % 2 ^ (1 + buddyExponMin) = 0) :
    ∀ {n : Nat}, 1 ≤ n → 1 ≤ fitOrder addr n := by
  intro n
  induction n with
  | zero => exact fun hn => hn
  | succ n ih =>
    intro _
    rw [fitOrder]
    split
    · exact Nat.le_add_left 1 n
    · next hodd =>
      apply ih
      by_contra hzero
      obtain rfl : n = 0 := Nat.lt_one_iff.1 (Nat.not_le.1 hzero)
      exact hodd heven

theorem addBuddies_even {fuel : Nat} {s t : HeapVars ω} {addr size : Nat}
    (hrun : addBuddies W true fuel s addr size = .ok t)
    (heven : addr % 2 ^ (1 + buddyExponMin) = 0) (hlt : size < 2 ^ 32)
    (hsize : 2 * pageSize ≤ size) : Served t 1 := by
  cases fuel with
  | zero => cases hrun
  | succ fuel =>
    have hpos : size ≠ 0 := by
      unfold pageSize at hsize
      omega
    have hlog : 13 ≤ log2U32 size := (Nat.le_log2 hpos).2 hsize
    have hle : log2U32 size < 32 := (Nat.log2_lt hpos).2 hlt
    have hmax : 1 ≤ min (sub32 (log2U32 size) buddyExponMin) buddyOrderMax := by
      unfold buddyOrderMax buddyExponMax buddyExponMin
      rw [sub32_of_le (by omega) (by omega)]
      omega
    unfold addBuddies at hrun
    rw [if_neg hpos] at hrun
    obtain ⟨u, -, hrest⟩ := exists_of_bind_eq_ok hrun
    refine addBuddies_served hrest ⟨_, one_le_fitOrder heven hmax,
      (fitOrder_le addr _).trans (Nat.min_le_right _ _), ?_⟩
    refine (placeBuddy_freeBuddies W s addr _ _).trans_ne ?_
    rw [if_pos rfl]
    exact Option.some_ne_none _

/-- Of three pages there are two that make a block. -/
theorem addBuddies_served_one {fuel : Nat} {s t : HeapVars ω} {addr size : Nat}
    (hrun : addBuddies W true fuel s addr size = .ok t) (haligned : addr % pageSize = 0)
    (hend : addr + size < 2 ^ 32) (hsize : 3 * pageSize ≤ size) : Served t 1 := by
  by_cases heven : addr % 2 ^ (1 + buddyExponMin) = 0
  · exact addBuddies_even hrun heven (by omega) (by omega)
  · cases fuel with
    | zero => cases hrun
    | succ fuel =>
      have hpos : size ≠ 0 := by
        unfold pageSize at hsize
        omega
      unfold addBuddies at hrun
      rw [if_neg hpos] at hrun
      obtain ⟨u, -, hrest⟩ := exists_of_bind_eq_ok hrun
      have hplaced := placeBuddy_freeBuddies W s addr
        (fitOrder addr (min (sub32 (log2U32 size) buddyExponMin) buddyOrderMax))
      have hmax := (fitOrder_le addr (min (sub32 (log2U32 size) buddyExponMin)
        buddyOrderMax)).trans (Nat.min_le_right _ _)
      generalize fitOrder addr (min (sub32 (log2U32 size) buddyExponMin) buddyOrderMax) = order
        at hrest hplaced hmax
      by_cases hzero : order = 0
      · -- the page after the first one is even
        subst hzero
        have hpage : 2 ^ (0 + buddyExponMin) = pageSize := rfl
        rw [if_pos rfl, hpage, sub32_of_le (by omega) (by unfold pageSize at *; omega),
          u32_of_lt (by unfold pageSize at *; omega)] at hrest
        apply addBuddies_even hrest
        · unfold pageSize buddyExponMin at *
          omega
        · omega
        · omega
      · rw [if_pos rfl] at hrest
        refine addBuddies_served hrest ⟨order, Nat.one_le_iff_ne_zero.2 hzero, hmax, ?_⟩
        refine (hplaced order).trans_ne ?_
        rw [if_pos rfl]
        exact Option.some_ne_none _

theorem FreeBlocks.served_of_mem {s : HeapVars ω} {L : Nat → List Nat} (h : FreeBlocks W s L)
    {j : Nat} (hne : L j ≠ []) : Served s 0 := by
  obtain ⟨a, rest, hlist⟩ := List.exists_cons_of_ne_nil hne
  refine ⟨j, Nat.zero_le _, h.order (mem_first hlist), ?_⟩
  rw [h.lists.head_eq, hlist]
  exact nofun

/-- A page is taken from the smallest block there is; if there is one of two pages, there is
another block then. -/
theorem FreeBlocks.served_left {s t : HeapVars ω} {L : Nat → List Nat} (h : FreeBlocks W s L)
    (hserved : Served s 1) {fuel a : Nat}
    (hrun : Heap.allocBuddy W (fuel + 1) s pageSize = .ok (t, a)) : Served t 0 := by
  obtain ⟨j, hj, hjmax, hne⟩ := hserved
  obtain ⟨n, c, rest, -, hfirst, heq⟩ := h.allocBuddy_eq ⟨j, Nat.zero_le _, hjmax, hne⟩ fuel
  -- a split leaves both halves in the list
  obtain ⟨s₁, L₁, a₁, rest₁, hsplit, h₁, hfirst₁, hsame, hlong⟩ := splitDown_rule
    (k := 0) (F := fun L => L) (I := fun s L _ => FreeBlocks W s L)
    (R := fun n _ L _ _ L' _ => (n = 0 → L' = L) ∧ (n ≠ 0 → 2 ≤ (L' 0).length))
    (fun _ => ⟨fun _ => rfl, fun hn => absurd rfl hn⟩)
    (by
      intro n s L a rest h hfirst
      obtain ⟨s₁, hrun₁, h₁, -⟩ := h.splitFirst hfirst
      refine ⟨s₁, _, _, _, hrun₁, h₁, cutList_first L (0 + n) a rest, ?_⟩
      rintro s₂ L₂ a₂ ⟨hsame, hlong⟩
      refine ⟨nofun, fun _ => ?_⟩
      by_cases hn : n = 0
      · subst hn
        rw [hsame rfl, cutList_first]
        exact Nat.le_add_left 2 _
      · exact hlong hn) n h hfirst
  obtain ⟨s₂, htake, h₂, -⟩ := h₁.takeFirst hfirst₁
  have hrun' : Heap.allocBuddy W (fuel + 1) s pageSize = .ok (s₂, a₁) := by
    refine heq.trans ?_
    rw [hsplit, ok_bind, htake]
  obtain ⟨rfl, -⟩ := Prod.mk.inj (Except.ok.inj (hrun.symm.trans hrun'))
  by_cases hn : n = 0
  · apply h₂.served_of_mem (j := j)
    rw [Function.update_of_ne (by omega), hsame hn]
    intro hnil
    rw [h.lists.head_eq, hnil] at hne
    exact hne rfl
  · apply h₂.served_of_mem (j := 0)
    rw [Function.update_self]
    intro hnil
    have hlen := hlong hn
    rw [hfirst₁, hnil] at hlen
    exact absurd hlen (show ¬ 2 ≤ 1 by decide)

@[simp] theorem markTails_freeBuddies (head : Nat) : ∀ (n : Nat) (s : HeapVars ω) (va : Nat),
    (markTails W head n s va).freeBuddies = s.freeBuddies := by
  intro n
  induction n with
  | zero => exact fun _ _ => rfl
  | succ n ih => exact fun s va => (ih _ _).trans rfl

@[simp] theorem linkObjects_freeBuddies (objSize : Nat) : ∀ (n : Nat) (s : HeapVars ω)
    (lastPtr : Nat), (linkObjects objSize n s lastPtr).freeBuddies = s.freeBuddies := by
  intro n
  induction n with
  | zero => exact fun _ _ => rfl
  | succ n ih => exact fun s lastPtr => (ih _ _).trans rfl

@[simp] theorem setNodePrev_freeBuddies (s : HeapVars ω) (node prev : Nat) :
    (setNodePrev s node prev).freeBuddies = s.freeBuddies := by
  unfold setNodePrev
  split <;> rfl

theorem initSlab_freeBuddies {s t : HeapVars ω} {c base a : Nat}
    (hrun : initSlab W s c base = .ok (t, a)) : t.freeBuddies = s.freeBuddies := by
  unfold initSlab at hrun
  dsimp only at hrun
  split at hrun
  · cases hrun
  · obtain ⟨u, -, hrun⟩ := exists_of_bind_eq_ok hrun
    obtain ⟨pages, -, hrun⟩ := exists_of_bind_eq_ok hrun
    obtain ⟨next, -, hrun⟩ := exists_of_bind_eq_ok hrun
    obtain ⟨rfl, -⟩ := Prod.mk.inj (Except.ok.inj hrun)
    simp [HeapVars.modify, HeapVars.setFreeSlab, HeapVars.store, initSlabFreeList]

end Left

/-! ## The first heap -/

/-- `init_virt_region`, on the heap's side; `sizeof(virt_interval_t)` is 32. -/
def initVirtRegion (W : World ω) (fuel : Nat) (s : HeapVars ω) : Kernel (HeapVars ω) := do
  let (s, cache) ← kcreateSlabCache W fuel s 32
  return { s with intervalCache := cache }

section First

variable {W : World ω} {s t : HeapVars ω}

theorem account_start (F : HeapFlags → Prop) (hheads : ∀ k, s.freeBuddies k = none)
    (hlow : s.minAddr ≠ 0) (hend : s.minAddr < 2 ^ 32)
    (hflags : ∀ i, (s.desc i).flags ≠ ⟨true, true, true⟩) :
    Account F W (s.endAt s.minAddr) (fun _ => []) fun _ => none where
  lists := {
    linked k := hheads k
    nodup _ := List.nodup_nil
    apart := nofun
    ptrs := nofun }
  head := nofun
  packing := ⟨nofun, nofun, nofun⟩
  order := nofun
  bound := hend
  inj hlo hhi := absurd hhi (Nat.not_lt.2 hlo)
  flags := nofun
  cache := nofun
  only i hi := absurd hi (hflags i)
  orders := nofun
  blocks := by
    refine ⟨?_, ?_, ?_⟩
    · rintro a k (ha | ha) <;> cases ha
    · rintro a k (ha | ha) <;> cases ha
    · rintro a k b l x (ha | ha) <;> cases ha
  out := nofun
  listed := nofun
  alone hlo hhi := absurd hhi (Nat.not_lt.2 hlo)
  low := hlow

theorem served_one_initHeap {heapAddr maxSize initSize : Nat}
    (hinit : initHeap W s heapAddr maxSize initSize = .ok t) (hsize : 3 * pageSize ≤ initSize)
    (hend : heapAddr + initSize < 2 ^ 32) : Served t 1 := by
  unfold initHeap at hinit
  obtain ⟨_, haligned, hinit⟩ := exists_of_bind_eq_ok hinit
  obtain ⟨_, -, hinit⟩ := exists_of_bind_eq_ok hinit
  obtain ⟨_, -, hinit⟩ := exists_of_bind_eq_ok hinit
  obtain ⟨_, -, hinit⟩ := exists_of_bind_eq_ok hinit
  obtain ⟨⟨w₁, page⟩, -, hinit⟩ := exists_of_bind_eq_ok hinit
  obtain ⟨w, -, hadd⟩ := exists_of_bind_eq_ok hinit
  have haligned : heapAddr % pageSize = 0 := by simpa using of_assert_eq_ok haligned
  exact addBuddies_served_one hadd haligned hend hsize

theorem account_initHeap {heapAddr maxSize initSize : Nat}
    (hinit : initHeap W s heapAddr maxSize initSize = .ok t) (hlow : heapAddr ≠ 0)
    (hend : heapAddr + initSize < 2 ^ 32) (hflags : ∀ i, (s.desc i).flags ≠ ⟨true, true, true⟩)
    (halone : AloneIn W t.world heapAddr (heapAddr + initSize)) :
    (∃ L, Account HeapFlags.IsHead W t L fun _ => none) ∧ Served t 0 ∧
      (heapAddr + initSize) % pageSize = 0 ∧
      t.outline = { initHeapVars s initSize maxSize heapAddr with world := t.world }.outline ∧
      t.slabs = (initHeapVars s initSize maxSize heapAddr).slabs := by
  unfold initHeap at hinit
  obtain ⟨_, haligned, hinit⟩ := exists_of_bind_eq_ok hinit
  obtain ⟨_, hpos, hinit⟩ := exists_of_bind_eq_ok hinit
  obtain ⟨_, hpages, hinit⟩ := exists_of_bind_eq_ok hinit
  obtain ⟨-, -, hinit⟩ := exists_of_bind_eq_ok hinit
  obtain ⟨⟨w₁, page⟩, -, hinit⟩ := exists_of_bind_eq_ok hinit
  obtain ⟨w, -, hadd⟩ := exists_of_bind_eq_ok hinit
  have haligned : heapAddr % pageSize = 0 := by simpa using of_assert_eq_ok haligned
  have hpos : initSize ≠ 0 := by simpa using of_assert_eq_ok hpos
  have hpages : initSize % pageSize = 0 := by simpa using of_assert_eq_ok hpages
  obtain ⟨houtline, hserved⟩ := (outcome_addBuddies (fun _ _ => trivial) true _ _ heapAddr _ hpages
    (by omega) (Nat.lt_succ_self _) fun hzero => absurd hzero hpos).of_ok hadd
  have hworld : t.world = w := congrArg Outline.world houtline
  have hmax : t.curMaxAddr = heapAddr + initSize :=
    (congrArg Outline.curMaxAddr houtline).trans (u32_of_lt hend)
  rw [hworld] at halone
  have hstart : Account HeapFlags.IsHead W
      (({ initHeapVars s initSize maxSize heapAddr with world := w } : HeapVars ω).endAt heapAddr)
      (fun _ => []) fun _ => none :=
    account_start _ (fun _ => rfl) hlow (by show heapAddr < _; omega) hflags
  obtain ⟨u, L, hrun, haccount, honly⟩ := hstart.addBuddies true _ (Nat.le_refl heapAddr)
    haligned hpages hend halone (Nat.lt_succ_self _)
  obtain rfl := Except.ok.inj (hadd.symm.trans hrun)
  refine ⟨⟨L, haccount.congr rfl rfl rfl rfl hmax⟩, hserved, ?_, hworld ▸ houtline, honly.slabs⟩
  rw [Nat.add_mod, haligned, hpages]
  rfl

theorem inv_fresh {L : Nat → List Nat} {o : Nat → Option Nat} {c : Nat} {order : SlabOrder}
    (haccount : Account HeapFlags.IsHead W s L o) (horder : s.slabs c = order)
    (hmade : Made order) (hsize : order.objSize ≤ 2 ^ 17) :
    Inv (accounts HeapFlags.IsHead W) (· = c) (fun _ n => n ≤ buddyOrderMax) ⟨s.note o, []⟩
      fun _ => none := by
  obtain rfl := horder
  have hsized := hmade.sized hsize
  refine inv_start ⟨L, haccount⟩ ?_ ?_ fun hn => hn
  · rintro c' rfl
    exact ⟨hsized, hmade.objSize.2.2.2.2⟩
  · rintro c' rfl
    exact ⟨Nat.zero_le _, hsized.order.trans (by decide)⟩

/-- What `init_virt_region` makes of the heap of `init_heap`: slabs of intervals without a slab,
and of three pages or more there is a block left. The rest of the world may have changed. -/
theorem inv_initVirtRegion {heapAddr maxSize initSize : Nat}
    (hinit : initHeap W s heapAddr maxSize initSize = .ok t) (hlow : heapAddr ≠ 0)
    (hle : initSize ≤ maxSize) (hend : heapAddr + maxSize < 2 ^ 32)
    (hflags : ∀ i, (s.desc i).flags ≠ ⟨true, true, true⟩)
    (halone : AloneIn W t.world heapAddr (heapAddr + initSize)) {w : ω}
    (hw : ∀ p, W.descOf w p = W.descOf t.world p) (fuel : Nat) :
    ∃ u o, initVirtRegion W (fuel + 1) { t with world := w } = .ok u ∧
      Inv (accounts HeapFlags.IsHead W) (· = u.intervalCache) (fun _ n => n ≤ buddyOrderMax)
        ⟨u.note o, []⟩ (fun _ => none) ∧
      u.slabs u.intervalCache = customOrder 32 ∧ u.world = w ∧ u.minAddr = heapAddr ∧
      u.curSize = initSize ∧ u.reservedMaxSize = maxSize ∧ u.curMaxAddr = heapAddr + initSize ∧
      u.curMaxAddr % pageSize = 0 ∧ (3 * pageSize ≤ initSize → Served u 0) := by
  obtain ⟨⟨L, hfirst⟩, hserved, haligned, houtline, hslabs⟩ :=
    account_initHeap hinit hlow (by omega) hflags halone
  have haccount := hfirst.remap (w := w) (fun _ _ => hw _) fun hlo hhi he =>
    hfirst.alone hlo hhi (by rw [← hw, ← hw]; exact he)
  have horder : ({ t with world := w } : HeapVars ω).slabs 1 = kmallocOrder 1 := congrFun hslabs 1
  -- the cache itself is an object of 32 bytes
  have hinv := inv_fresh haccount horder (.inl ⟨1, by decide, rfl⟩) (by decide)
  have hroom : Served { t with world := w }
      (orderOf (({ t with world := w } : HeapVars ω).slabs 1).slabSize) := by
    rw [horder]
    exact hserved
  obtain ⟨u, cache, o, g, hrun, hinv', -⟩ := hinv.allocServed rfl (.inr hroom) fuel
  obtain ⟨L', haccount'⟩ := hinv'.ok
  have hkept := (outcome_allocSlab (fun _ _ => trivial) fuel _ 1 (.inr hroom)).of_ok hrun
  have hmin : u.minAddr = heapAddr :=
    (congrArg Outline.minAddr hkept).trans (congrArg Outline.minAddr houtline)
  have hcur : u.curSize = initSize :=
    (congrArg Outline.curSize hkept).trans (congrArg Outline.curSize houtline)
  have hres : u.reservedMaxSize = maxSize :=
    (congrArg Outline.reservedMaxSize hkept).trans (congrArg Outline.reservedMaxSize houtline)
  have hmax : u.curMaxAddr = heapAddr + initSize := (congrArg Outline.curMaxAddr hkept).trans
    ((congrArg Outline.curMaxAddr houtline).trans (u32_of_lt (by omega)))
  have hmalloc : kmalloc W (fuel + 1) { t with world := w } 20 = .ok (u, cache) := hrun
  refine ⟨{ u with
    slabs := fun c => if c = cache then customOrder 32 else u.slabs c
    intervalCache := cache }, o, ?_, inv_fresh (haccount'.congr rfl rfl rfl rfl rfl) (if_pos rfl)
      (.inr ⟨32, by decide, by decide, rfl⟩) (by decide), if_pos rfl,
      congrArg Outline.world hkept, hmin, hcur, hres, hmax, ?_, fun hsize => ?_⟩
  · unfold initVirtRegion kcreateSlabCache
    rw [hmalloc]
    rfl
  · show u.curMaxAddr % pageSize = 0
    rw [hmax]
    exact haligned
  · have hnone : (({ t with world := w } : HeapVars ω).slabs 1).freeSlab = none :=
      congrArg SlabOrder.freeSlab horder
    have hpage : (({ t with world := w } : HeapVars ω).slabs 1).slabSize = pageSize :=
      congrArg SlabOrder.slabSize horder
    unfold allocSlab at hrun
    rw [hnone, hpage] at hrun
    obtain ⟨⟨v, base⟩, hblock, hslab⟩ := exists_of_bind_eq_ok hrun
    have hone : Served t 1 := served_one_initHeap hinit hsize (by omega)
    obtain ⟨k, hk, hkmax, hne⟩ := haccount.toFreeBlocks.served_left hone hblock
    exact ⟨k, hk, hkmax, by rw [← initSlab_freeBuddies hslab] at hne; exact hne⟩

end First

end X86Kernel.Heap
