import Mathlib.Data.List.Perm.Subperm
import X86Kernel.Memory.Heap.AllocSlab

/- An object comes back (`free_slab`).

   The object goes to the front of the free objects of its slab (`giveObj`). A slab
   that was full comes back to the front of the list of its order (`pushSlab`); one
   that has no object in use any more leaves it (`unlinkSlab`), its descriptors
   become those of a block (`loosen`), and the block goes to the block allocator.

   `prev_slab` is not written when a slab is made, and the word holds the order the
   block had. The code takes it for a pointer when the slab leaves the list: the
   store goes to the lowest page of the memory (`Local.linkNext`), and the next slab
   inherits the number.

   What is proved: the call keeps the invariant of the slabs (`Inv.freeSlab`), and so
   does a store by the owner of a live object (`Inv.write`). -/
namespace X86Kernel.Heap
open X86Kernel.Lib

variable {ω : Type}

/-! ## An object comes back -/

/-- The object at `a` is put before the free object `node`. -/
def putObj (s : HeapVars ω) (i a node : Nat) : HeapVars ω :=
  (setNodePrev ((s.store a (.num 0)).store (a + 4) (.num node)) node a).modify i
    fun d => { d with nextFree := .num a }

theorem flags_setCounts (d : Desc) (n u : Nat) : (d.setCounts n u).flags = d.flags := rfl

theorem putObj_counts (s : HeapVars ω) (i a node c : Nat) :
    ((putObj s i a node).desc i).usedCount = (s.desc i).usedCount ∧
    ((putObj s i a node).desc i).objCount = (s.desc i).objCount ∧
    (putObj s i a node).slabs c = s.slabs c := by
  by_cases hn : node = 0 <;>
    simp [putObj, setNodePrev, HeapVars.modify, HeapVars.store, Desc.usedCount, Desc.objCount, hn]

/-- `slab_metadata->used_count--`. -/
def dropUsed (s : HeapVars ω) (i : Nat) : HeapVars ω :=
  s.modify i fun d => d.setCounts d.objCount (sub32 d.usedCount 1)

/-- A slab is put at the front of the list of its order. -/
def pushSlab (s : HeapVars ω) (c i : Nat) (head : Option Nat) : HeapVars ω :=
  (linkPrev (s.modify i fun d => { d with buddyOrder := .num 0, prevFree := .ofPtr head }) head
    (.page i)).setFreeSlab c (some i)

theorem relinkFull_eq (s : HeapVars ω) (c i : Nat) : relinkFull s c i =
    if (s.desc i).usedCount = (s.desc i).objCount then pushSlab s c i (s.slabs c).freeSlab
    else s := by
  unfold relinkFull pushSlab linkPrev
  split
  · cases (s.slabs c).freeSlab <;> rfl
  · rfl

theorem pushSlab_desc (s : HeapVars ω) (c i : Nat) (head : Option Nat) (j : Nat) :
    (pushSlab s c i head).desc j = { s.desc j with
      prevFree := if j = i then .ofPtr head else (s.desc j).prevFree
      buddyOrder := if head = some j then .page i
        else if j = i then .num 0 else (s.desc j).buddyOrder } := by
  show (linkPrev _ _ _).desc j = _
  rw [linkPrev_desc]
  by_cases hj : j = i <;> simp [HeapVars.modify, hj]

theorem dropUsed_desc (s : HeapVars ω) (i j : Nat) :
    (dropUsed s i).desc j = { s.desc j with
      virtAddr := if j = i then
          ((s.desc j).setCounts (s.desc j).objCount (sub32 (s.desc j).usedCount 1)).virtAddr
        else (s.desc j).virtAddr } := by
  by_cases hj : j = i
  · subst hj
    simp [dropUsed, HeapVars.modify, Desc.setCounts]
  · simp [dropUsed, HeapVars.modify, hj]

theorem dropUsed_pushSlab (s : HeapVars ω) (c i : Nat) (head : Option Nat) :
    dropUsed (pushSlab s c i head) i = pushSlab (dropUsed s i) c i head := by
  have hdesc : (dropUsed (pushSlab s c i head) i).desc =
      (pushSlab (dropUsed s i) c i head).desc := by
    funext j
    rw [dropUsed_desc, pushSlab_desc, pushSlab_desc, dropUsed_desc]
    rfl
  cases head with
  | none =>
    simp only [dropUsed, pushSlab, linkPrev, HeapVars.modify, HeapVars.setFreeSlab] at hdesc ⊢
    rw [hdesc]
  | some k =>
    simp only [dropUsed, pushSlab, linkPrev, HeapVars.modify, HeapVars.setFreeSlab] at hdesc ⊢
    rw [hdesc]

theorem pushSlab_mem (s : HeapVars ω) (c i : Nat) (head : Option Nat) :
    (pushSlab s c i head).mem = s.mem := by
  cases head <;> rfl

theorem pushSlab_freeSlab (s : HeapVars ω) (c i : Nat) (head : Option Nat) :
    ((pushSlab s c i head).slabs c).freeSlab = some i := setFreeSlab_self _ _ _

theorem pushSlab_other (s : HeapVars ω) (c i : Nat) (head : Option Nat) {c' : Nat} (hc : c' ≠ c) :
    (pushSlab s c i head).slabs c' = s.slabs c' := by
  rw [pushSlab, setFreeSlab_other _ _ hc, linkPrev_slabs]
  rfl

theorem Local.pushSlab {W : World ω} {s t : HeapVars ω} {B n : Nat} (h : Local W s t B n)
    (hB : Inside B n B) (c : Nat) (head : Option Nat) :
    Local W s (pushSlab t c (descOf W s B) head) B n :=
  ((h.andModify hB _).trans (Local.linkPrev _ _)).trans (Local.setFreeSlab _ _)

/-- The object is free and counted. -/
def giveObj (s : HeapVars ω) (i a node : Nat) : HeapVars ω := dropUsed (putObj s i a node) i

theorem giveObj_desc (s : HeapVars ω) (i a node j : Nat) : (giveObj s i a node).desc j =
    if j = i then { s.desc i with
      virtAddr := ((s.desc i).setCounts (s.desc i).objCount
        (sub32 (s.desc i).usedCount 1)).virtAddr
      nextFree := .num a } else s.desc j := by
  by_cases hn : node = 0 <;> by_cases hj : j = i <;>
    simp [giveObj, dropUsed, putObj, setNodePrev, HeapVars.modify, HeapVars.store, Desc.setCounts,
      Desc.objCount, Desc.usedCount, hn, hj]

theorem giveObj_links (t : HeapVars ω) (i a node j : Nat) :
    ((giveObj t i a node).desc j).prevFree = (t.desc j).prevFree ∧
    ((giveObj t i a node).desc j).buddyOrder = (t.desc j).buddyOrder := by
  rw [giveObj_desc]
  split
  · next hj => subst hj; exact ⟨rfl, rfl⟩
  · exact ⟨rfl, rfl⟩

theorem giveObj_flags (t : HeapVars ω) (i a node j : Nat) :
    ((giveObj t i a node).desc j).flags = (t.desc j).flags := by
  rw [giveObj_desc]
  split
  · next hj => subst hj; rfl
  · rfl

theorem giveObj_world (s : HeapVars ω) (i a node : Nat) : (giveObj s i a node).world = s.world := by
  by_cases hn : node = 0 <;>
    simp [giveObj, dropUsed, putObj, setNodePrev, HeapVars.modify, HeapVars.store, hn]

theorem giveObj_slabs (s : HeapVars ω) (i a node : Nat) : (giveObj s i a node).slabs = s.slabs := by
  by_cases hn : node = 0 <;>
    simp [giveObj, dropUsed, putObj, setNodePrev, HeapVars.modify, HeapVars.store, hn]

theorem giveObj_mem (s : HeapVars ω) (i a node x : Nat) (hx : x ≠ node ∨ node = 0) (ha : x ≠ a) :
    (giveObj s i a node).mem x = if x = a + 4 then .num node else s.mem x := by
  by_cases hn : node = 0
  · simp [giveObj, dropUsed, putObj, setNodePrev, HeapVars.modify, HeapVars.store, hn, ha]
  · have hx' := hx.resolve_right hn
    simp [giveObj, dropUsed, putObj, setNodePrev, HeapVars.modify, HeapVars.store, hn, ha, hx']

theorem Local.giveObj {W : World ω} {s : HeapVars ω} {B n a node : Nat} (hB : Inside B n B)
    (ha : Inside B n a) (ha' : Inside B n (a + 4)) (hn : node = 0 ∨ Inside B n node) :
    Local W s (giveObj s (descOf W s B) a node) B n := by
  have h₁ : Local W s ((s.store a (.num 0)).store (a + 4) (.num node)) B n :=
    (Local.store (.inl ha) _).trans (Local.store (.inl ha') _)
  unfold Heap.giveObj dropUsed putObj
  exact ((h₁.trans (Local.setNodePrev a hn)).andModify hB _).andModify hB _

section GiveObj

variable {W : World ω} {s : HeapVars ω} {B a : Nat} {sl : Slab} (hsized : Sized (s.slabs sl.cache))
  (h : SlabAt W s B sl) (hobj : IsObj (s.slabs sl.cache) B a) (hfree : a ∉ sl.free)
include hsized h hobj hfree

theorem SlabAt.chain_giveObj (hlow : a + 4 ≠ 0) :
    NodeChain (Heap.giveObj s (descOf W s B) a (sl.free.headD 0)).mem (a :: sl.free) := by
  have hz := hsized.objSize
  have hapart : ∀ x ∈ sl.free, x + (s.slabs sl.cache).objSize ≤ a ∨
      a + (s.slabs sl.cache).objSize ≤ x := by
    intro x hx
    rcases obj_apart (h.objs hx) hobj with rfl | hlt
    · exact absurd hx hfree
    · exact hlt
  have hnode : sl.free.headD 0 = 0 ∨ sl.free.headD 0 ∈ sl.free := by
    cases sl.free with
    | nil => exact .inl rfl
    | cons b F => exact .inr List.mem_cons_self
  refine ⟨?_, ?_⟩
  · rw [giveObj_mem, if_pos rfl]
    · rcases hnode with h0 | hmem
      · exact .inr h0
      · have := hapart _ hmem
        exact .inl (by omega)
    · omega
  · apply h.chain.congr
    intro x hx
    have hxa := hapart x hx
    rw [giveObj_mem, if_neg (by omega)]
    · rcases hnode with h0 | hmem
      · exact .inr h0
      · have := obj_apart (h.objs hx) (h.objs hmem)
        exact .inl (by omega)
    · omega

theorem SlabAt.giveObj (hlen : sl.free.length + 1 < (s.slabs sl.cache).count) :
    SlabAt W (Heap.giveObj s (descOf W s B) a (sl.free.headD 0)) B ⟨sl.cache, a :: sl.free⟩ := by
  have hd : descOf W (Heap.giveObj s (descOf W s B) a (sl.free.headD 0)) = descOf W s :=
    descOf_congr (giveObj_world _ _ _ _)
  have hslabs := giveObj_slabs s (descOf W s B) a (sl.free.headD 0)
  have hused := h.usedCount
  have hcount := hsized.count_lt
  have hsub : sub32 (s.desc (descOf W s B)).usedCount 1 =
      (s.desc (descOf W s B)).usedCount - 1 := sub32_of_le (by omega) (by omega)
  constructor
  · rw [hd, giveObj_desc, if_pos rfl]; exact h.flags
  · rw [hd, giveObj_desc, if_pos rfl, hslabs]; exact h.numPages
  · rw [hd, giveObj_desc, if_pos rfl, hslabs]
    change ((s.desc (descOf W s B)).setCounts _ _).objCount = _
    rw [objCount_setCounts, h.objCount, Nat.mod_eq_of_lt hcount]
  · rw [hd, giveObj_desc, if_pos rfl, hslabs]
    change ((s.desc (descOf W s B)).setCounts _ _).usedCount + _ = _
    rw [usedCount_setCounts, hsub, Nat.mod_eq_of_lt (by omega)]
    change (s.desc (descOf W s B)).usedCount - 1 + (sl.free.length + 1) = (s.slabs sl.cache).count
    omega
  · rw [hd, giveObj_desc, if_pos rfl]; exact h.orderCache
  · rw [hd, giveObj_desc, if_pos rfl]
    rfl
  · intro x hx hne
    rw [hd] at hne ⊢
    rw [hslabs] at hx
    rw [giveObj_desc, if_neg hne]
    exact h.tail hx hne
  · intro x hx
    rw [hslabs]
    rcases List.mem_cons.1 hx with rfl | hx
    · exact hobj
    · exact h.objs hx
  · exact List.nodup_cons.2 ⟨hfree, h.nodup⟩
  · exact h.chain_giveObj hsized hobj hfree (by omega)
  · rw [hslabs]
    exact hlen

end GiveObj

theorem Inv.ok_pushSlab {W : World ω} {A : Buddies W} {C : Nat → Prop} {G : Nat → Nat → Prop}
    {s : SlabState ω} {g : Nat → Option Slab} (h : Inv A C G s g) {t : HeapVars ω} (hok : A.Ok t)
    (hworld : t.world = s.heap.world) {B c : Nat} {sl : Slab} (hB : g B = some sl)
    (hflags : (t.desc (descOf W s.heap B)).flags ≠ ⟨true, true, true⟩) {head : Option Nat}
    (hhead : ∀ {j}, head = some j → ∃ B' sl', g B' = some sl' ∧ descOf W s.heap B' = j ∧
      (t.desc j).flags ≠ ⟨true, true, true⟩) :
    A.Ok (pushSlab t c (descOf W s.heap B) head) := by
  have h₁ : A.Ok (t.modify (descOf W s.heap B) fun d =>
      { d with buddyOrder := .num 0, prevFree := .ofPtr head }) :=
    A.ok_at hok hworld (h.owned hB) (h.base_inside hB) hflags
  apply A.ok_setFreeSlab
  cases head with
  | none => exact h₁
  | some j =>
    obtain ⟨B', sl', hB', he, hj⟩ := hhead rfl
    apply h.ok_linkPrev h₁ hworld hB' he
    by_cases hjB : j = descOf W s.heap B
    · subst hjB
      simpa only [HeapVars.modify, if_true] using hflags
    · simpa only [HeapVars.modify, if_neg hjB] using hj

section FreeSlab

variable {W : World ω} {A : Buddies W} {C : Nat → Prop} {G : Nat → Nat → Prop} {s : SlabState ω}
  {g : Nat → Option Slab} (h : Inv A C G s g) {B a c : Nat} {F : List Nat}
  (hB : g B = some ⟨c, F⟩) (hobj : IsObj (s.heap.slabs c) B a)
include h hB hobj

theorem Inv.slabOf_obj : (s.heap.desc (descOf W s.heap a)).flags.buddy = false ∧
    slabOf s.heap (descOf W s.heap a) = .ok (descOf W s.heap B) := by
  have hslab := h.slab hB
  have hflags := hslab.flags
  by_cases he : descOf W s.heap a = descOf W s.heap B
  · rw [he, hflags, slabOf, hflags]
    exact ⟨rfl, rfl⟩
  · obtain ⟨hbuddy, hhead, hpage⟩ := hslab.tail (h.obj_inside hB hobj) he
    rw [slabOf, hhead, hpage]
    exact ⟨hbuddy, rfl⟩

variable (hfree : a ∉ F)

/-- `free_slab` up to the test whether the slab is empty now. -/
theorem Inv.freeSlab_eq (free : HeapVars ω → Nat → Kernel (HeapVars ω)) :
    freeSlab W free s.heap a =
      if F = [] then
        .ok (pushSlab (giveObj s.heap (descOf W s.heap B) a 0) c (descOf W s.heap B)
          (s.heap.slabs c).freeSlab)
      else if F.length + 1 < (s.heap.slabs c).count then
        .ok (giveObj s.heap (descOf W s.heap B) a (F.headD 0))
      else returnSlab W free (giveObj s.heap (descOf W s.heap B) a (F.headD 0)) c
        (descOf W s.heap B) a := by
  obtain ⟨hbuddy, hof⟩ := h.slabOf_obj hB hobj
  have hslab := h.slab hB
  have hsized := h.size hB
  have hcache : (s.heap.desc (descOf W s.heap B)).buddyCache.slabOrder = .ok c := by
    rw [hslab.orderCache]
    rfl
  have hnode : (s.heap.desc (descOf W s.heap B)).nextFree.nat = .ok (F.headD 0) := by
    rw [hslab.freeNode]
    rfl
  have htwo : 2 ≤ (s.heap.slabs c).count := hsized.count_two
  have hcount : (s.heap.slabs c).count < 2 ^ 16 := hsized.count_lt
  have hused : (s.heap.desc (descOf W s.heap B)).usedCount + F.length =
      (s.heap.slabs c).count := hslab.usedCount
  have hlen : F.length < (s.heap.slabs c).count := hslab.used
  have hobjCount : (s.heap.desc (descOf W s.heap B)).objCount = (s.heap.slabs c).count :=
    hslab.objCount
  have hkind : assert (decide ((s.heap.slabs c).slabOrder < slabOrderCount ∨
      (s.heap.slabs c).slabOrder = slabCustomOrder)) = .ok () := by
    rw [assert, if_pos (decide_eq_true hsized.kind)]
  have hnot : assert (!(s.heap.desc (descOf W s.heap a)).flags.buddy) = .ok () := by
    rw [hbuddy]
    rfl
  have hput : (setNodePrev ((s.heap.store a (.num 0)).store (a + 4) (.num (F.headD 0)))
      (F.headD 0) a).modify (descOf W s.heap B) (fun d => { d with nextFree := .num a }) =
      putObj s.heap (descOf W s.heap B) a (F.headD 0) := rfl
  -- the counts before the object is counted
  obtain ⟨hputUsed, hputObj, hputSlabs⟩ :=
    putObj_counts s.heap (descOf W s.heap B) a (F.headD 0) c
  have hrelink : (relinkFull (putObj s.heap (descOf W s.heap B) a (F.headD 0)) c
      (descOf W s.heap B)).modify (descOf W s.heap B)
      (fun d => d.setCounts d.objCount (sub32 d.usedCount 1)) =
      if F = [] then pushSlab (giveObj s.heap (descOf W s.heap B) a 0) c (descOf W s.heap B)
        (s.heap.slabs c).freeSlab
      else giveObj s.heap (descOf W s.heap B) a (F.headD 0) := by
    have hfull : (s.heap.desc (descOf W s.heap B)).usedCount = (s.heap.slabs c).count ↔ F = [] := by
      rw [← List.length_eq_zero_iff]
      omega
    rw [relinkFull_eq, hputUsed, hputObj, hputSlabs, hobjCount]
    simp only [hfull]
    split
    · next hF =>
      subst hF
      exact dropUsed_pushSlab _ _ _ _
    · rfl
  have hsub : sub32 (s.heap.desc (descOf W s.heap B)).usedCount 1 =
      (s.heap.desc (descOf W s.heap B)).usedCount - 1 := sub32_of_le (by omega) (by omega)
  have hgive : ∀ node, ((giveObj s.heap (descOf W s.heap B) a node).desc
      (descOf W s.heap B)).usedCount = (s.heap.desc (descOf W s.heap B)).usedCount - 1 := by
    intro node
    rw [giveObj_desc, if_pos rfl]
    change ((s.heap.desc (descOf W s.heap B)).setCounts _ _).usedCount = _
    rw [usedCount_setCounts, hsub, Nat.mod_eq_of_lt (by omega)]
  unfold freeSlab
  simp only [hnot, ok_bind, hof, hcache, hkind, hnode, hput, hrelink]
  by_cases hF : F = []
  · have hpush : ((pushSlab (giveObj s.heap (descOf W s.heap B) a 0) c (descOf W s.heap B)
        (s.heap.slabs c).freeSlab).desc (descOf W s.heap B)).usedCount ≠ 0 := by
      have : ((pushSlab (giveObj s.heap (descOf W s.heap B) a 0) c (descOf W s.heap B)
        (s.heap.slabs c).freeSlab).desc (descOf W s.heap B)).usedCount =
          ((giveObj s.heap (descOf W s.heap B) a 0).desc (descOf W s.heap B)).usedCount := by
        show ((linkPrev _ _ _).desc _).usedCount = _
        rw [linkPrev_desc]
        simp [HeapVars.modify, Desc.usedCount]
      rw [this, hgive]
      rw [hF] at hused
      simp only [List.length_nil] at hused
      omega
    simp only [hF, if_true, if_pos hpush]
    rfl
  · simp only [if_neg hF, hgive]
    by_cases hlast : F.length + 1 < (s.heap.slabs c).count
    · rw [if_pos (by omega), if_pos hlast]
      rfl
    · rw [if_neg (by omega), if_neg hlast]

theorem Inv.live_give (x c' : Nat) :
    (x, c') ∈ s.live.filter (fun p => decide (p.1 ≠ a)) ↔
      (∃ B' sl, B' ≠ B ∧ g B' = some sl ∧ sl.cache = c' ∧
        IsObj (s.heap.slabs c') B' x ∧ x ∉ sl.free) ∨
      (c = c' ∧ IsObj (s.heap.slabs c') B x ∧ x ∉ a :: F) := by
  rw [List.mem_filter, h.live_split hB, decide_eq_true_iff]
  constructor
  · rintro ⟨hother | ⟨hc, hx, hxF⟩, hne⟩
    · exact .inl hother
    · exact .inr ⟨hc, hx, fun hmem => (List.mem_cons.1 hmem).elim hne hxF⟩
  · rintro (hother | ⟨hc, hx, hmem⟩)
    · refine ⟨.inl hother, ?_⟩
      rintro rfl
      obtain ⟨B', sl, hne, hB', rfl, hx, -⟩ := hother
      exact hne (h.slab_unique hB' hB (h.obj_inside hB' hx) (h.obj_inside hB hobj))
    · exact ⟨.inr ⟨hc, hx, fun hF => hmem (List.mem_cons_of_mem _ hF)⟩,
        fun e => hmem (List.mem_cons.2 (.inl e))⟩

theorem Inv.obj_ends : Inside B (s.heap.slabs c).slabSize a ∧
    Inside B (s.heap.slabs c).slabSize (a + 4) := by
  have hsized : Sized (s.heap.slabs c) := h.size hB
  have hin := hsized.obj_inside hobj
  have hz := hsized.objSize
  exact ⟨⟨hin.1, by omega⟩, ⟨by omega, by omega⟩⟩

theorem Inv.local_giveObj : Local W s.heap (giveObj s.heap (descOf W s.heap B) a (F.headD 0)) B
    (s.heap.slabs c).slabSize := by
  obtain ⟨ha, ha'⟩ := h.obj_ends hB hobj
  apply Local.giveObj (h.base_inside hB) ha ha'
  cases F with
  | nil => exact .inl rfl
  | cons b F => exact .inr (h.obj_inside hB ((h.slab hB).objs (show b ∈ b :: F by simp)))

omit hobj in
theorem Inv.ok_giveObj (node : Nat) : A.Ok (giveObj s.heap (descOf W s.heap B) a node) := by
  have hflags : (s.heap.desc (descOf W s.heap B)).flags = ⟨false, false, true⟩ := (h.slab hB).flags
  have h₁ := A.ok_setNodePrev node a
    (show A.Ok ((s.heap.store a (.num 0)).store (a + 4) (.num node)) from
      A.ok_store (A.ok_store h.ok))
  have h₂ : A.Ok (putObj s.heap (descOf W s.heap B) a node) := by
    apply A.ok_at (s := s.heap) h₁ (setNodePrev_world _ _ _) (h.owned hB) (h.base_inside hB)
    rw [setNodePrev_desc]
    show (s.heap.desc (descOf W s.heap B)).flags ≠ _
    rw [hflags]
    simp
  have hput : ((putObj s.heap (descOf W s.heap B) a node).desc (descOf W s.heap B)).flags =
      (s.heap.desc (descOf W s.heap B)).flags := by
    simp [putObj, setNodePrev_desc, HeapVars.modify, HeapVars.store]
  unfold giveObj dropUsed
  apply A.ok_at (s := s.heap) h₂ (setNodePrev_world _ _ _) (h.owned hB) (h.base_inside hB)
  rw [flags_setCounts, hput, hflags]
  simp

include hfree

theorem Inv.giveObj (hF : F ≠ []) (hlen : F.length + 1 < (s.heap.slabs c).count) :
    Inv A C G ⟨Heap.giveObj s.heap (descOf W s.heap B) a (F.headD 0),
      s.live.filter fun p => decide (p.1 ≠ a)⟩ (Function.update g B (some ⟨c, a :: F⟩)) := by
  have hlocal := h.local_giveObj hB hobj
  have hd := descOf_congr (W := W) hlocal.world
  apply h.local_update hlocal (h.ok_giveObj hB _) (h.owned hB)
  · intro sl he
    obtain rfl := Option.some.inj he
    have hc : C c := h.cache hB
    exact ⟨hc, (hlocal.sizes c).2.1, (h.slab hB).giveObj (h.size hB) hobj hfree hlen⟩
  · intro c' hc'
    obtain ⟨l, havail, hmem⟩ := h.avail hc'
    refine ⟨l, havail.congr (fun B' _ => by rw [hd]) (by rw [giveObj_slabs]) ?_, ?_⟩
    · exact fun B' _ => giveObj_links _ _ _ _ _
    · intro B'
      rw [hmem]
      by_cases hBB : B' = B
      · subst hBB
        rw [Function.update_self, hB]
        simp [hF]
      · rw [Function.update_of_ne hBB]
  · intro x c'
    rw [h.live_give hB hobj]
    simp
  · exact h.nodup.filter _

theorem Inv.giveFull (hF : F = []) :
    Inv A C G ⟨pushSlab (Heap.giveObj s.heap (descOf W s.heap B) a 0) c (descOf W s.heap B)
        (s.heap.slabs c).freeSlab, s.live.filter fun p => decide (p.1 ≠ a)⟩
      (Function.update g B (some ⟨c, [a]⟩)) := by
  subst hF
  have hc : C c := h.cache hB
  have hsized := h.sized hc
  have htwo := hsized.count_two
  obtain ⟨l, havail, hmem⟩ := h.avail hc
  have hgive : Local W s.heap (Heap.giveObj s.heap (descOf W s.heap B) a 0) B
      (s.heap.slabs c).slabSize := h.local_giveObj hB hobj
  have hlocal : Local W s.heap (pushSlab (Heap.giveObj s.heap (descOf W s.heap B) a 0) c
      (descOf W s.heap B) (s.heap.slabs c).freeSlab) B (s.heap.slabs c).slabSize :=
    hgive.pushSlab (h.base_inside hB) c _
  have hd := descOf_congr (W := W) hlocal.world
  have hnot : ∀ {c' : Nat} {l' : List Nat},
    (∀ B', B' ∈ l' ↔ ∃ sl, g B' = some sl ∧ sl.cache = c' ∧ sl.free ≠ []) →
      ∀ B' ∈ l', descOf W s.heap B' ≠ descOf W s.heap B := by
    intro c' l' hmem' B' hB'
    obtain ⟨sl, hg, -, hfree'⟩ := (hmem' B').1 hB'
    apply h.base_ne hg hB
    rintro rfl
    obtain rfl : sl = ⟨c, []⟩ := Option.some.inj (hg.symm.trans hB)
    exact hfree' rfl
  have hfirst : ∀ {j}, (s.heap.slabs c).freeSlab = some j →
      ∃ B' sl, B' ∈ l ∧ g B' = some sl ∧ sl.cache = c ∧ descOf W s.heap B' = j := by
    intro j hj
    obtain ⟨B', a', F', l', hg, he, -, hmem'⟩ := h.first_slab hc hj
    refine ⟨B', ⟨c, a' :: F'⟩, (hmem B').2 ⟨_, hg, rfl, by simp⟩, hg, rfl, he⟩
  apply h.local_update hlocal _ (h.owned hB)
  · intro sl he
    obtain rfl := Option.some.inj he
    refine ⟨hc, (hlocal.sizes c).2.1, ?_⟩
    have hat : SlabAt W (Heap.giveObj s.heap (descOf W s.heap B) a 0) B ⟨c, [a]⟩ :=
      (h.slab hB).giveObj hsized hobj hfree (show 0 + 1 < (s.heap.slabs c).count by omega)
    apply hat.congr
    · exact ⟨(hlocal.sizes c).1.trans (hgive.sizes c).1.symm,
        (hlocal.sizes c).2.1.trans (hgive.sizes c).2.1.symm⟩
    · intro x _
      refine ⟨by rw [hd, descOf_congr hgive.world], ?_⟩
      rw [pushSlab_desc]
      exact ⟨_, _, rfl⟩
    · rw [giveObj_slabs]
      exact (h.base_inside hB : Inside B (s.heap.slabs c).slabSize B)
    · intro x _
      rw [pushSlab_mem]
  · intro c' hc'
    by_cases hcc : c' = c
    · subst hcc
      refine ⟨B :: l, ?_, ?_⟩
      · apply havail.push (h.garbage hc').1 hd
        · intro hin
          obtain ⟨B', hB', he⟩ := List.mem_map.1 hin
          exact hnot hmem B' hB' he
        · exact pushSlab_freeSlab _ _ _ _
        · rw [pushSlab_desc]
          exact if_pos rfl
        · rw [pushSlab_desc]
          show (if _ then _ else if _ then _ else _) = _
          rw [if_neg, if_pos rfl]
          intro hj
          obtain ⟨B', sl, hB', -, -, he⟩ := hfirst hj
          exact hnot hmem B' hB' he
        · intro B' hB'
          obtain ⟨hnext, hprev⟩ :=
            giveObj_links s.heap (descOf W s.heap B) a 0 (descOf W s.heap B')
          rw [pushSlab_desc]
          refine ⟨(if_neg (hnot hmem B' hB')).trans hnext, ?_⟩
          show (if _ then _ else if _ then _ else _) = _
          rw [if_neg (hnot hmem B' hB'), hprev]
      · intro B'
        rw [List.mem_cons, hmem]
        by_cases hBB : B' = B
        · subst hBB
          rw [Function.update_self]
          exact ⟨fun _ => ⟨_, rfl, rfl, by simp⟩, fun _ => .inl rfl⟩
        · rw [Function.update_of_ne hBB]
          exact or_iff_right hBB
    · obtain ⟨l', havail', hmem'⟩ := h.avail hc'
      refine ⟨l', havail'.congr (fun B' _ => by rw [hd]) ?_ ?_, ?_⟩
      · rw [pushSlab_other _ _ _ _ hcc, giveObj_slabs]
      · intro B' hB'
        obtain ⟨hnext, hprev⟩ := giveObj_links s.heap (descOf W s.heap B) a 0 (descOf W s.heap B')
        rw [pushSlab_desc]
        refine ⟨(if_neg (hnot hmem' B' hB')).trans hnext, ?_⟩
        show (if _ then _ else if _ then _ else _) = _
        rw [if_neg, if_neg (hnot hmem' B' hB'), hprev]
        intro hj
        obtain ⟨B'', sl, -, hg, hsc, he⟩ := hfirst hj
        obtain ⟨sl', hg', hsc', -⟩ := (hmem' B').1 hB'
        obtain rfl : B'' = B' := by
          by_contra hcon
          exact h.base_ne hg hg' hcon he
        rw [hg] at hg'
        obtain rfl := Option.some.inj hg'
        exact hcc (hsc'.symm.trans hsc)
      · intro B'
        rw [hmem']
        by_cases hBB : B' = B
        · subst hBB
          rw [Function.update_self, hB]
          constructor
          · rintro ⟨sl, he, hsc, -⟩
            obtain rfl := Option.some.inj he
            exact absurd hsc.symm hcc
          · rintro ⟨sl, he, hsc, -⟩
            obtain rfl := Option.some.inj he
            exact absurd hsc.symm hcc
        · rw [Function.update_of_ne hBB]
  · intro x c'
    rw [h.live_give hB hobj]
    simp
  · exact h.nodup.filter _
  · apply h.ok_pushSlab (h.ok_giveObj hB 0) hgive.world hB
    · rw [giveObj_flags, (h.slab hB).flags]
      simp
    · intro j hj
      obtain ⟨B', sl, hB', hg, -, he⟩ := hfirst hj
      refine ⟨B', sl, hg, he, ?_⟩
      rw [← he, giveObj_flags, (h.slab hg).flags]
      simp

end FreeSlab

/-! ## A slab becomes a block again -/

/-- `if (p) p->next_slab = w;` for a word that can stand in `prev_slab`. -/
def linkNext (s : HeapVars ω) (p w : Word) : HeapVars ω :=
  match p with
  | .num 0 => s
  | .num addr => s.store (addr + 12) w
  | .page i => s.modify i fun d => { d with prevFree := w }
  | _ => s

theorem setNextSlab_eq {G : Nat → Prop} {p : Word} (hp : PrevWord G p) (s : HeapVars ω) (w : Word) :
    setNextSlab s p w = .ok (linkNext s p w) := by
  rcases hp with ⟨n, rfl, -⟩ | ⟨i, rfl⟩
  · cases n <;> rfl
  · rfl

theorem linkNext_desc (s : HeapVars ω) (p w : Word) (j : Nat) : (linkNext s p w).desc j =
    { s.desc j with prevFree := if p.ptr? = some j then w else (s.desc j).prevFree } := by
  cases p with
  | num n => cases n <;> rfl
  | page i =>
    by_cases hj : j = i
    · simp [linkNext, HeapVars.modify, Word.ptr?, hj]
    · simp [linkNext, HeapVars.modify, Word.ptr?, hj, Ne.symm hj]
  | buddies k => rfl
  | slabs c => rfl

theorem linkNext_slabs (s : HeapVars ω) (p w : Word) : (linkNext s p w).slabs = s.slabs := by
  cases p with
  | num n => cases n <;> rfl
  | _ => rfl

theorem linkNext_world (s : HeapVars ω) (p w : Word) : (linkNext s p w).world = s.world := by
  cases p with
  | num n => cases n <;> rfl
  | _ => rfl

/-- A number that a block had as its order is an address in the lowest page. -/
theorem Local.linkNext {W : World ω} {G : Nat → Prop} {s : HeapVars ω} {B n : Nat} {p : Word}
    (hp : PrevWord G p) (hlow : ∀ {m}, G m → m ≤ buddyOrderMax) (w : Word) :
    Local W s (linkNext s p w) B n := by
  rcases hp with ⟨m, rfl, hm⟩ | ⟨i, rfl⟩
  · have hle := hlow hm
    cases m with
    | zero => exact .refl s B n
    | succ m =>
      apply Local.store (.inr _)
      unfold buddyOrderMax buddyExponMax buddyExponMin at hle
      unfold pageSize
      omega
  · exact .links i _ fun d => ⟨w, d.buddyOrder, rfl⟩

/-- The descriptors of a slab become those of a block of order `k`. -/
def loosen (W : World ω) (s : HeapVars ω) (i k B : Nat) : HeapVars ω :=
  (touchPages W looseDesc (2 ^ k - 1) s (B + pageSize)).modify i fun d => { d with
    flags := { d.flags with buddy := true }, buddyCache := .buddies k }

/-- The slab is taken out of the list of its order. -/
def unlinkSlab (s : HeapVars ω) (c i : Nat) (p q : Word) : HeapVars ω :=
  if (s.slabs c).freeSlab = some i then
    (linkPrev (linkNext s p q) q.ptr? p).setFreeSlab c q.ptr?
  else linkPrev (linkNext s p q) q.ptr? p

theorem unlinkSlab_desc (s : HeapVars ω) (c i : Nat) (p q : Word) (j : Nat) :
    (unlinkSlab s c i p q).desc j = { s.desc j with
      prevFree := if p.ptr? = some j then q else (s.desc j).prevFree
      buddyOrder := if q.ptr? = some j then p else (s.desc j).buddyOrder } := by
  have hlinks : (linkPrev (linkNext s p q) q.ptr? p).desc j = { s.desc j with
      prevFree := if p.ptr? = some j then q else (s.desc j).prevFree
      buddyOrder := if q.ptr? = some j then p else (s.desc j).buddyOrder } := by
    rw [linkPrev_desc, linkNext_desc]
  unfold unlinkSlab
  split
  · exact hlinks
  · exact hlinks

theorem unlinkSlab_freeSlab (s : HeapVars ω) (c i : Nat) (p q : Word) :
    ((unlinkSlab s c i p q).slabs c).freeSlab =
      if (s.slabs c).freeSlab = some i then q.ptr? else (s.slabs c).freeSlab := by
  unfold unlinkSlab
  split
  · rw [setFreeSlab_self]
  · rw [linkPrev_slabs, linkNext_slabs]

theorem unlinkSlab_other (s : HeapVars ω) (c i : Nat) (p q : Word) {c' : Nat} (hc : c' ≠ c) :
    (unlinkSlab s c i p q).slabs c' = s.slabs c' := by
  unfold unlinkSlab
  split
  · rw [setFreeSlab_other _ _ hc, linkPrev_slabs, linkNext_slabs]
  · rw [linkPrev_slabs, linkNext_slabs]

theorem Local.unlinkSlab {W : World ω} {G : Nat → Prop} {s : HeapVars ω} {B n : Nat} {p : Word}
    (hp : PrevWord G p) (hlow : ∀ {m}, G m → m ≤ buddyOrderMax) (c i : Nat) (q : Word) :
    Local W s (unlinkSlab s c i p q) B n := by
  have h : Local W s (Heap.linkPrev (Heap.linkNext s p q) q.ptr? p) B n :=
    (Local.linkNext hp hlow q).trans (Local.linkPrev _ _)
  unfold Heap.unlinkSlab
  split
  · exact h.trans (Local.setFreeSlab _ _)
  · exact h

theorem returnSlab_eq {W : World ω} {G : Nat → Prop} {t : HeapVars ω} {c i k B a : Nat}
    (hpages : (t.desc i).numPages = .num (2 ^ k)) (hk : k ≤ 6)
    (hdvd : 2 ^ (buddyExponMin + k) ∣ B) (hin : Inside B (2 ^ (buddyExponMin + k)) a)
    (hend : (2 ^ k - 1 = 0 ∨ u32 (B + pageSize) = B + pageSize) ∧
      B + pageSize + (2 ^ k - 1) * pageSize ≤ 2 ^ 32)
    (htail : ∀ m < 2 ^ k - 1, i ≠ descOf W t (B + pageSize + m * pageSize))
    (hp : PrevWord G (t.desc i).buddyOrder) (hself : (t.desc i).buddyOrder.ptr? ≠ some i)
    (hq : (t.desc i).prevFree.IsPtr) (free : HeapVars ω → Nat → Kernel (HeapVars ω)) :
    returnSlab W free t c i a =
      free (unlinkSlab (loosen W t i k B) c i (t.desc i).buddyOrder (t.desc i).prevFree) B := by
  have hnum : (t.desc i).numPages.nat = .ok (2 ^ k) := by
    rw [hpages]
    rfl
  have hlog : log2U32 (2 ^ k) = k := Nat.log2_two_pow
  have hbase : a / 2 ^ (k + buddyExponMin) * 2 ^ (k + buddyExponMin) = B := by
    obtain ⟨r, rfl⟩ := hdvd
    obtain ⟨hlo, hhi⟩ := hin
    rw [Nat.add_comm k, Nat.mul_comm _ (2 ^ _)]
    congr 1
    apply Nat.div_eq_of_lt_le
    · rw [Nat.mul_comm]; exact hlo
    · rw [Nat.mul_comm, Nat.mul_add, Nat.mul_one]; exact hhi
  have hturns : (u32 (2 ^ k * pageSize) + pageSize - 1) / pageSize - 1 = 2 ^ k - 1 := by
    have hle : 2 ^ k ≤ 2 ^ 6 := Nat.pow_le_pow_right (by decide) hk
    unfold pageSize
    rw [u32_of_lt (by omega)]
    omega
  have htouch : touchPages W looseDesc (2 ^ k - 1) t (u32 (B + pageSize)) =
      touchPages W looseDesc (2 ^ k - 1) t (B + pageSize) := by
    rcases hend.1 with h0 | hu
    · rw [h0, touchPages, touchPages]
    · rw [hu]
  have hfold : (touchPages W looseDesc (2 ^ k - 1) t (B + pageSize)).modify i (fun d => { d with
      flags := { d.flags with buddy := true }, buddyCache := .buddies k }) =
      loosen W t i k B := rfl
  have hlinks : ((loosen W t i k B).desc i).buddyOrder = (t.desc i).buddyOrder ∧
      ((loosen W t i k B).desc i).prevFree = (t.desc i).prevFree := by
    have hdesc := touchPages_desc_of_ne (f := looseDesc) hend.2 htail
    simp only [loosen, HeapVars.modify, if_true, hdesc, and_self]
  have hnext : ((linkNext (loosen W t i k B) (t.desc i).buddyOrder (t.desc i).prevFree).desc
      i).buddyOrder = (t.desc i).buddyOrder ∧
      ((linkNext (loosen W t i k B) (t.desc i).buddyOrder (t.desc i).prevFree).desc
      i).prevFree = (t.desc i).prevFree := by
    rw [linkNext_desc]
    exact ⟨hlinks.1, (if_neg hself).trans hlinks.2⟩
  have hprev : setPrevSlab (linkNext (loosen W t i k B) (t.desc i).buddyOrder (t.desc i).prevFree)
      (t.desc i).prevFree (t.desc i).buddyOrder = .ok (linkPrev (linkNext (loosen W t i k B)
        (t.desc i).buddyOrder (t.desc i).prevFree) (t.desc i).prevFree.ptr?
        (t.desc i).buddyOrder) := by
    conv_lhs => rw [hq]
    rw [setPrevSlab_ofPtr, ← hq]
  have hlast : ((linkPrev (linkNext (loosen W t i k B) (t.desc i).buddyOrder (t.desc i).prevFree)
      (t.desc i).prevFree.ptr? (t.desc i).buddyOrder).desc i).prevFree = (t.desc i).prevFree := by
    rw [linkPrev_desc]
    exact hnext.2
  have hslabs : (linkPrev (linkNext (loosen W t i k B) (t.desc i).buddyOrder (t.desc i).prevFree)
      (t.desc i).prevFree.ptr? (t.desc i).buddyOrder).slabs = (loosen W t i k B).slabs := by
    rw [linkPrev_slabs, linkNext_slabs]
  unfold returnSlab
  simp only [hnum, ok_bind, hlog, hbase, hturns, unmarkTails_eq, htouch, hfold, hlinks.1, hlinks.2,
    setNextSlab_eq hp, hnext.1, hnext.2, hprev, hlast, hslabs, hq.ptr]
  unfold unlinkSlab
  split <;> rfl

/-- The slab at `B` without its last object, as a block, and out of the list of its order. -/
def dissolve (W : World ω) (s : HeapVars ω) (c B a node : Nat) : HeapVars ω :=
  unlinkSlab (loosen W (giveObj s (descOf W s B) a node) (descOf W s B) (s.slabs c).blockOrder B)
    c (descOf W s B) (s.desc (descOf W s B)).buddyOrder (s.desc (descOf W s B)).prevFree

section ReturnSlab

variable {W : World ω} {A : Buddies W} {C : Nat → Prop} {G : Nat → Nat → Prop} {s : SlabState ω}
  {g : Nat → Option Slab} (h : Inv A C G s g)
include h

theorem Inv.ok_unlinkSlab {t : HeapVars ω} (hok : A.Ok t) (hworld : t.world = s.heap.world)
    {c i : Nat} {p q : Word}
    (hslab : ∀ {j}, p.ptr? = some j ∨ q.ptr? = some j → ∃ B sl, g B = some sl ∧
      descOf W s.heap B = j ∧ (t.desc j).flags ≠ ⟨true, true, true⟩) :
    A.Ok (unlinkSlab t c i p q) := by
  have h₁ : A.Ok (linkNext t p q) := by
    cases p with
    | num n =>
      cases n with
      | zero => exact hok
      | succ n => exact A.ok_store hok
    | page j =>
      obtain ⟨B, sl, hB, rfl, hj⟩ := hslab (j := j) (.inl rfl)
      exact A.ok_at (f := fun d => { d with prevFree := q }) hok hworld (h.owned hB)
        (h.base_inside hB) hj
    | buddies k => exact hok
    | slabs c => exact hok
  have h₂ : A.Ok (linkPrev (linkNext t p q) q.ptr? p) := by
    cases hq : q.ptr? with
    | none => exact h₁
    | some j =>
      obtain ⟨B, sl, hB, he, hj⟩ := hslab (.inr hq)
      apply h.ok_linkPrev h₁ ((linkNext_world _ _ _).trans hworld) hB he
      rw [linkNext_desc]
      exact hj
  unfold unlinkSlab
  split
  · exact A.ok_setFreeSlab h₂
  · exact h₂

variable {B a c : Nat} {F : List Nat} (hB : g B = some ⟨c, F⟩)
  (hobj : IsObj (s.heap.slabs c) B a) (hfree : a ∉ F)
  (hlast : F.length + 1 = (s.heap.slabs c).count)
include hB hobj hfree hlast

theorem Inv.last_obj {x : Nat} (hx : IsObj (s.heap.slabs c) B x) : x ∈ a :: F := by
  have hnodup : (a :: F).Nodup := List.nodup_cons.2 ⟨hfree, (h.slab hB).nodup⟩
  have hsub : a :: F ⊆ objects (s.heap.slabs c) B := by
    intro y hy
    rw [mem_objects]
    rcases List.mem_cons.1 hy with rfl | hy
    · exact hobj
    · exact (h.slab hB).objs hy
  have hperm : (a :: F).Perm (objects (s.heap.slabs c) B) := by
    apply (List.subperm_of_subset hnodup hsub).perm_of_length_le
    rw [length_objects, List.length_cons, hlast]
  rw [hperm.mem_iff, mem_objects]
  exact hx

omit hobj hfree in
theorem Inv.last_ne : F ≠ [] := by
  have htwo : 2 ≤ (s.heap.slabs c).count := (h.size hB).count_two
  rintro rfl
  rw [List.length_nil] at hlast
  omega

omit hlast hfree in
theorem Inv.loosen_facts :
    Local W s.heap (loosen W (Heap.giveObj s.heap (descOf W s.heap B) a (F.headD 0))
      (descOf W s.heap B) (s.heap.slabs c).blockOrder B) B (s.heap.slabs c).slabSize ∧
    A.Ok (loosen W (Heap.giveObj s.heap (descOf W s.heap B) a (F.headD 0)) (descOf W s.heap B)
      (s.heap.slabs c).blockOrder B) ∧
    LiveHead ((loosen W (Heap.giveObj s.heap (descOf W s.heap B) a (F.headD 0)) (descOf W s.heap B)
      (s.heap.slabs c).blockOrder B).desc (descOf W s.heap B)) (s.heap.slabs c).blockOrder ∧
    (∀ j, (∀ x, Inside B (s.heap.slabs c).slabSize x → j ≠ descOf W s.heap x) →
      (loosen W (Heap.giveObj s.heap (descOf W s.heap B) a (F.headD 0)) (descOf W s.heap B)
        (s.heap.slabs c).blockOrder B).desc j = s.heap.desc j) := by
  have hc : C c := h.cache hB
  have hsized := h.sized hc
  have howned : A.owned s.heap.world B = some (s.heap.slabs c).slabSize := h.owned hB
  have hbase : Inside B (s.heap.slabs c).slabSize B := h.base_inside hB
  have hslab := h.slab hB
  have hgive := h.local_giveObj hB hobj
  have hd := descOf_congr (W := W) hgive.world
  obtain ⟨-, hend⟩ := new_end h.ok howned hsized
  have htail : ∀ m < 2 ^ (s.heap.slabs c).blockOrder - 1, descOf W s.heap B ≠
      descOf W (Heap.giveObj s.heap (descOf W s.heap B) a (F.headD 0))
        (B + pageSize + m * pageSize) := by
    intro m hm
    rw [hd]
    exact (new_tail h.ok howned hsized hm).2
  have htouch := hgive.trans (Local.touchPages (W := W) (f := looseDesc)
    (s := Heap.giveObj s.heap (descOf W s.heap B) a (F.headD 0)) hend
    fun m hm => (new_tail h.ok howned hsized hm).1)
  have hhead := touchPages_desc_of_ne (f := looseDesc) hend htail
  have hflags : ((touchPages W looseDesc (2 ^ (s.heap.slabs c).blockOrder - 1)
      (Heap.giveObj s.heap (descOf W s.heap B) a (F.headD 0)) (B + pageSize)).desc
      (descOf W s.heap B)).flags = ⟨false, false, true⟩ := by
    rw [hhead, giveObj_flags]
    exact hslab.flags
  refine ⟨htouch.andModify hbase _, ?_, ?_, ?_⟩
  · have hok : A.Ok (touchPages W looseDesc (2 ^ (s.heap.slabs c).blockOrder - 1)
        (Heap.giveObj s.heap (descOf W s.heap B) a (F.headD 0)) (B + pageSize)) := by
      apply A.ok_touchPages (P := fun d => d.flags.head = false) _ (h.ok_giveObj hB _)
        (B := B) (by rw [hgive.world]; exact howned) hend
      · intro m hm
        obtain ⟨hin, hne⟩ := new_tail h.ok howned hsized hm
        refine ⟨hin, ?_⟩
        rw [giveObj_flags, hd]
        exact (hslab.tail hin hne.symm).2.1
      · intro d hP
        refine ⟨hP, fun e => ?_⟩
        have : d.flags.head = true := congrArg HeapFlags.head e
        rw [hP] at this
        cases this
    apply A.ok_at (s := s.heap) hok htouch.world howned hbase
    rw [hflags]
    simp
  · have hnum : ((touchPages W looseDesc (2 ^ (s.heap.slabs c).blockOrder - 1)
        (Heap.giveObj s.heap (descOf W s.heap B) a (F.headD 0)) (B + pageSize)).desc
        (descOf W s.heap B)).numPages = .num (2 ^ (s.heap.slabs c).blockOrder) := by
      rw [hhead, giveObj_desc, if_pos rfl]
      exact hslab.numPages
    constructor
    · simp only [loosen, HeapVars.modify, if_true, hflags]
    · simp only [loosen, HeapVars.modify, if_true]
      exact hnum
    · simp only [loosen, HeapVars.modify, if_true]
  · intro j hj
    simp only [loosen, HeapVars.modify, if_neg (hj B hbase)]
    rw [touchPages_desc_of_ne hend, giveObj_desc, if_neg (hj B hbase)]
    intro m hm
    rw [hd]
    exact hj _ (new_tail h.ok howned hsized hm).1

omit hfree in
/-- `free_slab` from the tail pages on hands `dissolve` to the block allocator. -/
theorem Inv.returnSlab_eq (free : HeapVars ω → Nat → Kernel (HeapVars ω)) :
    returnSlab W free (Heap.giveObj s.heap (descOf W s.heap B) a (F.headD 0)) c
      (descOf W s.heap B) a = free (dissolve W s.heap c B a (F.headD 0)) B := by
  have hsized : Sized (s.heap.slabs c) := h.size hB
  have howned : A.owned s.heap.world B = some (s.heap.slabs c).slabSize := h.owned hB
  obtain ⟨l, havail, hmem⟩ := h.avail (h.cache hB)
  have hBl : B ∈ l := (hmem B).2 ⟨_, hB, rfl, h.last_ne hB hlast⟩
  have hBd : descOf W s.heap B ∈ l.map (descOf W s.heap) := List.mem_map_of_mem hBl
  obtain ⟨hnext, hprev⟩ := giveObj_links s.heap (descOf W s.heap B) a (F.headD 0)
    (descOf W s.heap B)
  have hgive := h.local_giveObj hB hobj
  have hdvd : 2 ^ (buddyExponMin + (s.heap.slabs c).blockOrder) ∣ B := by
    rw [← hsized.slabSize]
    exact (new_block h.ok howned).1
  have hin : Inside B (2 ^ (buddyExponMin + (s.heap.slabs c).blockOrder)) a := by
    rw [← hsized.slabSize]
    exact h.obj_inside hB hobj
  have heq := Heap.returnSlab_eq (W := W) (G := G c) (c := c) (i := descOf W s.heap B)
    (t := Heap.giveObj s.heap (descOf W s.heap B) a (F.headD 0))
    (by rw [giveObj_desc, if_pos rfl]; exact (h.slab hB).numPages) hsized.order hdvd hin
    (new_end h.ok howned hsized)
    (fun m hm => by
      rw [descOf_congr hgive.world]
      exact (new_tail h.ok howned hsized hm).2)
    (by rw [hprev]; exact havail.prev hBl)
    (by rw [hprev]; exact havail.linked.prev_ne hBd havail.nodup)
    (by rw [hnext]; exact havail.next hBl) free
  rw [hnext, hprev] at heq
  exact heq

omit hfree in
theorem Inv.local_dissolve :
    Local W s.heap (dissolve W s.heap c B a (F.headD 0)) B (s.heap.slabs c).slabSize := by
  obtain ⟨l, havail, hmem⟩ := h.avail (h.cache hB)
  have hBl : B ∈ l := (hmem B).2 ⟨_, hB, rfl, h.last_ne hB hlast⟩
  exact (h.loosen_facts hB hobj).1.trans (Local.unlinkSlab (havail.prev hBl) h.low _ _ _)

omit hfree hlast in
theorem Inv.dissolve_desc {j : Nat}
    (hj : ∀ x, Inside B (s.heap.slabs c).slabSize x → j ≠ descOf W s.heap x) :
    (dissolve W s.heap c B a (F.headD 0)).desc j = { s.heap.desc j with
      prevFree := if prevSlabOf s.heap (descOf W s.heap B) = some j then
        (s.heap.desc (descOf W s.heap B)).prevFree else (s.heap.desc j).prevFree
      buddyOrder := if nextSlabOf s.heap (descOf W s.heap B) = some j then
        (s.heap.desc (descOf W s.heap B)).buddyOrder else (s.heap.desc j).buddyOrder } := by
  obtain ⟨-, -, -, hother⟩ := h.loosen_facts hB hobj
  rw [dissolve, unlinkSlab_desc, hother j hj]
  rfl

omit hobj hfree in
theorem Inv.linked_slab {j : Nat} (hj : prevSlabOf s.heap (descOf W s.heap B) = some j ∨
    nextSlabOf s.heap (descOf W s.heap B) = some j) :
    ∃ B' sl, g B' = some sl ∧ sl.cache = c ∧ B' ≠ B ∧ descOf W s.heap B' = j := by
  obtain ⟨l, havail, hmem⟩ := h.avail (h.cache hB)
  have hBl : B ∈ l := (hmem B).2 ⟨_, hB, rfl, h.last_ne hB hlast⟩
  have hBd : descOf W s.heap B ∈ l.map (descOf W s.heap) := List.mem_map_of_mem hBl
  have hjl : j ∈ l.map (descOf W s.heap) ∧ j ≠ descOf W s.heap B := by
    rcases hj with hj | hj
    · refine ⟨havail.linked.mem_of_prev hBd hj, ?_⟩
      rintro rfl
      exact havail.linked.prev_ne hBd havail.nodup hj
    · refine ⟨havail.linked.mem_of_next hBd hj, ?_⟩
      rintro rfl
      exact havail.linked.next_ne hBd havail.nodup hj
  obtain ⟨B', hB', he⟩ := List.mem_map.1 hjl.1
  obtain ⟨sl, hg, hsc, -⟩ := (hmem B').1 hB'
  refine ⟨B', sl, hg, hsc, ?_, he⟩
  rintro rfl
  exact hjl.2 he.symm

theorem Inv.dissolve : Inv A C G ⟨Heap.dissolve W s.heap c B a (F.headD 0),
    s.live.filter fun p => decide (p.1 ≠ a)⟩ (Function.update g B none) := by
  have hc : C c := h.cache hB
  have howned : A.owned s.heap.world B = some (s.heap.slabs c).slabSize := h.owned hB
  obtain ⟨l, havail, hmem⟩ := h.avail hc
  have hBl : B ∈ l := (hmem B).2 ⟨_, hB, rfl, h.last_ne hB hlast⟩
  obtain ⟨hloose, hok, -, hother⟩ := h.loosen_facts hB hobj
  have hlocal := h.local_dissolve hB hobj hlast
  have hd := descOf_congr (W := W) hlocal.world
  have hslabs : ∀ c', ((loosen W (Heap.giveObj s.heap (descOf W s.heap B) a (F.headD 0))
      (descOf W s.heap B) (s.heap.slabs c).blockOrder B).slabs c') = s.heap.slabs c' := by
    intro c'
    show (touchPages _ _ _ _ _).slabs c' = _
    rw [touchPages_slabs, giveObj_slabs]
  -- the slabs of a list are outside of the block
  have hout : ∀ {B' sl}, g B' = some sl → B' ≠ B → ∀ x,
      Inside B (s.heap.slabs c).slabSize x → descOf W s.heap B' ≠ descOf W s.heap x :=
    fun hg hne x hx e => hne (h.slab_of_desc hg hB (h.base_inside hg) hx e)
  apply h.local_update hlocal _ howned
  · intro sl he
    cases he
  · intro c' hc'
    by_cases hcc : c' = c
    · subst hcc
      refine ⟨l.erase B, ?_, ?_⟩
      · apply havail.remove hd hBl (havail.prev hBl) rfl
        · rw [Heap.dissolve, unlinkSlab_freeSlab, hslabs]
          rfl
        · intro B' hB' hne
          obtain ⟨sl, hg, -⟩ := (hmem B').1 hB'
          rw [h.dissolve_desc hB hobj (hout hg fun e => hne (by rw [e]))]
          exact ⟨rfl, rfl⟩
      · intro B'
        rw [(havail.nodup.of_map _).mem_erase_iff, hmem]
        by_cases hBB : B' = B
        · subst hBB
          rw [Function.update_self]
          constructor
          · exact fun hcon => absurd rfl hcon.1
          · rintro ⟨sl, he, -⟩
            cases he
        · rw [Function.update_of_ne hBB]
          exact and_iff_right hBB
    · obtain ⟨l', havail', hmem'⟩ := h.avail hc'
      refine ⟨l', havail'.congr (fun B' _ => by rw [hd]) ?_ ?_, ?_⟩
      · rw [Heap.dissolve, unlinkSlab_other _ _ _ _ _ hcc, hslabs]
      · intro B' hB'
        obtain ⟨sl, hg, hsc, -⟩ := (hmem' B').1 hB'
        have hne : B' ≠ B := by
          rintro rfl
          obtain rfl : sl = ⟨c, F⟩ := Option.some.inj (hg.symm.trans hB)
          exact hcc hsc.symm
        -- a slab of another order is no neighbour
        have hnot : ∀ {j}, prevSlabOf s.heap (descOf W s.heap B) = some j ∨
            nextSlabOf s.heap (descOf W s.heap B) = some j → j ≠ descOf W s.heap B' := by
          rintro j hj rfl
          obtain ⟨B'', sl'', hg'', hsc'', -, he⟩ := h.linked_slab hB hlast hj
          obtain rfl : B'' = B' := by
            by_contra hcon
            exact h.base_ne hg'' hg hcon he
          rw [hg] at hg''
          obtain rfl := Option.some.inj hg''
          exact hcc (hsc.symm.trans hsc'')
        rw [h.dissolve_desc hB hobj (hout hg hne)]
        exact ⟨if_neg fun e => hnot (.inl e) rfl, if_neg fun e => hnot (.inr e) rfl⟩
      · intro B'
        rw [hmem']
        by_cases hBB : B' = B
        · subst hBB
          rw [Function.update_self, hB]
          constructor
          · rintro ⟨sl, he, hsc, -⟩
            obtain rfl := Option.some.inj he
            exact absurd hsc.symm hcc
          · rintro ⟨sl, he, -⟩
            cases he
        · rw [Function.update_of_ne hBB]
  · intro x c'
    rw [h.live_give hB hobj]
    constructor
    · rintro (hx | ⟨rfl, hx, hxF⟩)
      · exact .inl hx
      · exact absurd (h.last_obj hB hobj hfree hlast hx) hxF
    · rintro (hx | ⟨sl, he, -⟩)
      · exact .inl hx
      · cases he
  · exact h.nodup.filter _
  · apply h.ok_unlinkSlab hok hloose.world
    intro j hj
    obtain ⟨B', sl, hg, -, hne, rfl⟩ := h.linked_slab hB hlast hj
    refine ⟨B', sl, hg, rfl, ?_⟩
    rw [hother _ (hout hg hne), (h.slab hg).flags]
    simp

theorem Inv.free_dissolve : ∃ v, A.free (Heap.dissolve W s.heap c B a (F.headD 0)) B = .ok v ∧
    A.Ok v ∧ A.owned v.world = Function.update (A.owned s.heap.world) B none ∧
    v.slabs = (Heap.dissolve W s.heap c B a (F.headD 0)).slabs ∧
    Keeps W (Heap.dissolve W s.heap c B a (F.headD 0)) v fun x =>
      ∃ b m, b ≠ B ∧ A.owned s.heap.world b = some m ∧ Inside b m x := by
  have hsized : Sized (s.heap.slabs c) := h.size hB
  have hlocal := h.local_dissolve hB hobj hlast
  obtain ⟨-, -, hhead, -⟩ := h.loosen_facts hB hobj
  have hinv := h.dissolve hB hobj hfree hlast
  -- what is left of the head is that of a live block
  have hlive : LiveHead ((Heap.dissolve W s.heap c B a (F.headD 0)).desc
      (descOf W (Heap.dissolve W s.heap c B a (F.headD 0)) B)) (s.heap.slabs c).blockOrder := by
    rw [descOf_congr hlocal.world, Heap.dissolve, unlinkSlab_desc]
    exact ⟨hhead.flags, hhead.numPages, hhead.buddyCache⟩
  have hown : A.owned (Heap.dissolve W s.heap c B a (F.headD 0)).world B =
      some (2 ^ (buddyExponMin + (s.heap.slabs c).blockOrder)) := by
    rw [hlocal.world, ← hsized.slabSize]
    exact h.owned hB
  obtain ⟨v, hfreed, hok, hv, hvslabs, hkeeps⟩ := A.free_spec hinv.ok hown hlive
  rw [hlocal.world] at hv hkeeps
  exact ⟨v, hfreed, hok, hv, hvslabs, hkeeps⟩

/-- The last object of a slab comes back, and the block goes to the block allocator. -/
theorem Inv.giveLast : ∃ v, returnSlab W A.free
      (Heap.giveObj s.heap (descOf W s.heap B) a (F.headD 0)) c (descOf W s.heap B) a = .ok v ∧
    A.owned v.world = Function.update (A.owned s.heap.world) B none ∧
    Inv A C G ⟨v, s.live.filter fun p => decide (p.1 ≠ a)⟩ (Function.update g B none) := by
  have hinv := h.dissolve hB hobj hfree hlast
  have hworld := (h.local_dissolve hB hobj hlast).world
  obtain ⟨v, hfreed, hok, hv, hvslabs, hkeeps⟩ := h.free_dissolve hB hobj hfree hlast
  have hne : ∀ {B' sl}, Function.update g B none B' = some sl → B' ≠ B := by
    rintro B' sl hB' rfl
    rw [Function.update_self] at hB'
    cases hB'
  have hother : ∀ {x B' sl}, Function.update g B none B' = some sl →
      Inside B' ((Heap.dissolve W s.heap c B a (F.headD 0)).slabs sl.cache).slabSize x →
      ∃ b m, b ≠ B ∧ A.owned s.heap.world b = some m ∧ Inside b m x := by
    intro x B' sl hB' hx
    have howned := hinv.owned hB'
    rw [hworld] at howned
    exact ⟨B', _, hne hB', howned, hx⟩
  refine ⟨v, (h.returnSlab_eq hB hobj hlast A.free).trans hfreed, hv, ?_⟩
  apply hinv.keeps hok _ hvslabs
  · refine ⟨?_, ?_, ?_⟩
    · rintro x ⟨B', sl, hB', hx⟩
      exact hkeeps.descOf (hother hB' hx)
    · rintro x ⟨B', sl, hB', hx⟩
      exact hkeeps.desc (hother hB' hx)
    · rintro x ⟨B', sl, hB', hx⟩
      exact hkeeps.mem (hother hB' hx)
  · intro B' sl hB'
    rw [hv, hworld, Function.update_of_ne (hne hB')]

end ReturnSlab

section Calls

variable {W : World ω} {A : Buddies W} {C : Nat → Prop} {G : Nat → Nat → Prop} {s : SlabState ω}
  {g : Nat → Option Slab} (h : Inv A C G s g)
include h

theorem Inv.freeSlab {a c : Nat} (hlive : (a, c) ∈ s.live) :
    ∃ B F t, g B = some ⟨c, F⟩ ∧ IsObj (s.heap.slabs c) B a ∧ a ∉ F ∧
      Heap.freeSlab W A.free s.heap a = .ok t ∧
      ((F.length + 1 < (s.heap.slabs c).count ∧ A.owned t.world = A.owned s.heap.world ∧
          Inv A C G ⟨t, s.live.filter fun p => decide (p.1 ≠ a)⟩
            (Function.update g B (some ⟨c, a :: F⟩))) ∨
        (F.length + 1 = (s.heap.slabs c).count ∧
          A.owned t.world = Function.update (A.owned s.heap.world) B none ∧
          Inv A C G ⟨t, s.live.filter fun p => decide (p.1 ≠ a)⟩ (Function.update g B none))) := by
  obtain ⟨B, sl, hB, rfl, hobj, hfree⟩ := (h.live a c).1 hlive
  obtain ⟨c, F⟩ := sl
  have hused : F.length < (s.heap.slabs c).count := (h.slab hB).used
  have htwo : 2 ≤ (s.heap.slabs c).count := (h.size hB).count_two
  have heq := h.freeSlab_eq hB hobj A.free
  have hworld := (h.local_giveObj hB hobj).world
  by_cases hF : F = []
  · -- the slab was full
    subst hF
    rw [if_pos rfl] at heq
    have hinv := h.giveFull hB hobj hfree rfl
    refine ⟨B, [], _, hB, hobj, hfree, heq, .inl ⟨htwo, ?_, hinv⟩⟩
    have hpush : ∀ t : HeapVars ω, (pushSlab t c (descOf W s.heap B)
        (s.heap.slabs c).freeSlab).world = t.world := fun t => linkPrev_world _ _ _
    rw [hpush, giveObj_world]
  · rw [if_neg hF] at heq
    by_cases hlast : F.length + 1 < (s.heap.slabs c).count
    · rw [if_pos hlast] at heq
      exact ⟨B, F, _, hB, hobj, hfree, heq, .inl ⟨hlast, by rw [hworld],
        h.giveObj hB hobj hfree hF hlast⟩⟩
    · rw [if_neg hlast] at heq
      have hall : F.length + 1 = (s.heap.slabs c).count := by omega
      obtain ⟨v, hrun, howned, hinv⟩ := h.giveLast hB hobj hfree hall
      exact ⟨B, F, v, hB, hobj, hfree, heq.trans hrun, .inr ⟨hall, howned, hinv⟩⟩

theorem Inv.write {a c x : Nat} (hlive : (a, c) ∈ s.live)
    (hx : Inside a (s.heap.slabs c).objSize x) (w : Word) :
    Inv A C G ⟨s.heap.store x w, s.live⟩ g := by
  obtain ⟨B, sl, hB, rfl, hobj, hfree⟩ := (h.live a c).1 hlive
  have hin := (h.size hB).obj_inside hobj
  obtain ⟨hlo, hhi⟩ := hx
  have hlocal : Local W s.heap (s.heap.store x w) B (s.heap.slabs sl.cache).slabSize :=
    .store (.inl ⟨by omega, by omega⟩) w
  have hupd : Function.update g B (some sl) = g := by
    rw [← hB, Function.update_eq_self]
  rw [← hupd]
  apply h.local_update hlocal (A.ok_store h.ok) (h.owned hB)
  · intro sl' he
    obtain rfl := Option.some.inj he
    refine ⟨h.cache hB, rfl, ?_⟩
    refine SlabAt.congr (h.slab hB) ⟨rfl, rfl⟩ (fun _ => ⟨rfl, .refl _⟩) (h.base_inside hB) ?_
    intro y hy
    apply if_neg
    -- the links are in the free objects
    have hz := (h.size hB).objSize
    rcases obj_apart ((h.slab hB).objs hy) hobj with rfl | hapart
    · exact absurd hy hfree
    · omega
  · intro c hc
    rw [hupd]
    obtain ⟨l, havail, hmem⟩ := h.avail hc
    exact ⟨l, havail.congr (fun _ _ => rfl) rfl fun _ _ => ⟨rfl, rfl⟩, hmem⟩
  · intro y c
    rw [h.live_split hB]
    simp
  · exact h.nodup

end Calls

end X86Kernel.Heap
