import Mathlib.Data.Nat.Log
import X86Kernel.Memory.Heap.Outline
import X86Kernel.Memory.Heap.SlabRuns

/- Size and alignment of what `kmalloc` returns.

   `HeapLayout` is a heap with well-formed lists of blocks and well-formed slabs: free blocks
   and blocks that are out lie aligned in the heap and overlap nowhere, a slab is a block that
   is out, and the first slab of the list of a slab order is one of that order with a free
   object. What is live are the blocks that are out and no slab, and the objects of slabs that
   are not free (`LiveAlloc`).

   What is proved: a request that needs no growth returns, and the power of two that is the
   least above the size, and at least 16, divides the address; the memory from there on, as
   long as that power of two, is in the heap and apart from all that is live
   (`kmalloc_placed`). Nothing is assumed of the flags, or of the base of the heap.

   The address of a block is a multiple of its size in absolute terms, which cutting keeps;
   a slab of one of the 13 orders has a size that the size of its objects divides, and the
   objects lie in it without gaps, so an object is aligned to its own size. -/
namespace X86Kernel.Heap
open X86Kernel.Lib

variable {ω : Type}

/-! ## The size that is used -/

/-- The least power of two that is at least the size, and at least 16. -/
def usable (size : Nat) : Nat := max (2 ^ slabExponMin) (2 ^ Nat.clog 2 size)

theorem le_usable (size : Nat) : size ≤ usable size :=
  le_trans (Nat.le_pow_clog (by decide) size) (Nat.le_max_right _ _)

theorem alignUpPow2_eq {size : Nat} (hsize : size ≤ 2 ^ 31) :
    alignUpPow2 size = 2 ^ Nat.clog 2 size := by
  by_cases hzero : size = 0
  · subst hzero
    rfl
  · obtain ⟨j, -, heq, hle, hlt⟩ := exists_alignUpPow2 (by omega) hsize (Nat.le_refl 31)
    have hclog : Nat.clog 2 size = j := by
      apply Nat.le_antisymm
      · exact (Nat.clog_le_iff_le_pow (by decide)).2 hle
      · have hpow := Nat.le_pow_clog (b := 2) (by decide) size
        have hdouble : 2 ^ j < 2 ^ (Nat.clog 2 size + 1) := by
          rw [pow_succ]
          omega
        have := (Nat.pow_lt_pow_iff_right (show 1 < 2 by decide)).1 hdouble
        omega
    rw [heq, hclog]

theorem exists_usable (size : Nat) :
    ∃ e, usable size = 2 ^ e ∧ slabExponMin ≤ e ∧ e = max slabExponMin (Nat.clog 2 size) := by
  refine ⟨max slabExponMin (Nat.clog 2 size), ?_, Nat.le_max_left _ _, rfl⟩
  rcases Nat.le_total slabExponMin (Nat.clog 2 size) with h | h
  · rw [usable, Nat.max_eq_right h, Nat.max_eq_right (Nat.pow_le_pow_right (by decide) h)]
  · rw [usable, Nat.max_eq_left h, Nat.max_eq_left (Nat.pow_le_pow_right (by decide) h)]

theorem dvd_usable {e size : Nat} (h : 2 ^ e ≤ size) : 2 ^ e ∣ usable size := by
  obtain ⟨j, hj, -⟩ := exists_usable size
  have hle : 2 ^ e ≤ 2 ^ j := by
    rw [← hj]
    exact le_trans h (le_usable size)
  rw [hj]
  exact Nat.pow_dvd_pow 2 ((Nat.pow_le_pow_iff_right (by decide)).1 hle)

/-! ## Heaps -/

/-- A heap with these free blocks, blocks that are out, and slabs. -/
structure HeapLayout (W : World ω) (s : HeapVars ω) (L : Nat → List Nat) (out : Nat → Nat → Prop)
    (g : Nat → Option Slab) : Prop where
  blocks : FreeBlocks W s L
  packing : Packing buddyExponMin (fun a k => a ∈ L k ∨ out a k) s.minAddr s.curMaxAddr
  free : ∀ {a k}, a ∈ L k → ¬ out a k
  /-- the 13 orders have the sizes of `init_heap_vars` -/
  sizes : ∀ {c}, c < slabOrderCount → (s.slabs c).objSize = (kmallocOrder c).objSize ∧
    (s.slabs c).slabSize = (kmallocOrder c).slabSize
  slab : ∀ {B sl}, g B = some sl → SlabAt W s B sl
  slabBlock : ∀ {B sl}, g B = some sl → out B (s.slabs sl.cache).blockOrder ∧
    (s.slabs sl.cache).slabSize = 2 ^ (buddyExponMin + (s.slabs sl.cache).blockOrder)
  first : ∀ {c i}, c < slabOrderCount → (s.slabs c).freeSlab = some i →
    ∃ B sl, g B = some sl ∧ sl.cache = c ∧ sl.free ≠ [] ∧ descOf W s B = i ∧
      (s.desc i).prevFree.IsPtr

/-- `n` bytes at `a` are live: a block that is no slab, or an object that is not free. -/
inductive LiveAlloc (s : HeapVars ω) (out : Nat → Nat → Prop) (g : Nat → Option Slab) :
    Nat → Nat → Prop
  | block {a k : Nat} : out a k → g a = none → LiveAlloc s out g a (2 ^ (buddyExponMin + k))
  | object {B x : Nat} {sl : Slab} : g B = some sl → IsObj (s.slabs sl.cache) B x → x ∉ sl.free →
    LiveAlloc s out g x (s.slabs sl.cache).objSize

/-- Where a request of `n` bytes may be put: aligned, in the heap, apart from what is live. -/
structure Placed (s : HeapVars ω) (out : Nat → Nat → Prop) (g : Nat → Option Slab) (a n : Nat) :
    Prop where
  aligned : n ∣ a
  low : s.minAddr ≤ a
  high : a + n ≤ s.curMaxAddr
  apart : ∀ {b m}, LiveAlloc s out g b m → a + n ≤ b ∨ b + m ≤ a

theorem isObj_inside {o : SlabOrder} {base x : Nat} (hx : IsObj o base x) :
    base ≤ x ∧ x + o.objSize ≤ base + o.slabSize := by
  obtain ⟨i, hi, rfl⟩ := hx
  have hmul : (i + 1) * o.objSize ≤ o.count * o.objSize := Nat.mul_le_mul_right _ hi
  have hcount : o.count * o.objSize ≤ o.slabSize := Nat.div_mul_le_self _ _
  rw [Nat.add_mul] at hmul
  omega

theorem packing_disjoint {B : Nat → Nat → Prop} {lo hi a k b l : Nat}
    (h : Packing buddyExponMin B lo hi) (ha : B a k) (hb : B b l) (hne : ¬ (a = b ∧ k = l)) :
    a + 2 ^ (buddyExponMin + k) ≤ b ∨ b + 2 ^ (buddyExponMin + l) ≤ a := by
  have hpos := Nat.two_pow_pos (buddyExponMin + k)
  have hpos' := Nat.two_pow_pos (buddyExponMin + l)
  by_contra hover
  rcases Nat.le_total a b with hab | hab
  · exact hne (h.apart b ha hb hab (by omega) (Nat.le_refl _) (by omega))
  · exact hne (h.apart a ha hb (Nat.le_refl _) (by omega) hab (by omega))

section Layout

variable {W : World ω} {s : HeapVars ω} {L : Nat → List Nat} {out : Nat → Nat → Prop}
  {g : Nat → Option Slab} (h : HeapLayout W s L out g)
include h

theorem HeapLayout.live_inside {b m : Nat} (hb : LiveAlloc s out g b m) :
    ∃ c k, out c k ∧ c ≤ b ∧ b + m ≤ c + 2 ^ (buddyExponMin + k) := by
  cases hb with
  | block hout _ => exact ⟨b, _, hout, Nat.le_refl _, Nat.le_refl _⟩
  | object hB hobj _ =>
    obtain ⟨hout, hsize⟩ := h.slabBlock hB
    have hin := isObj_inside hobj
    rw [hsize] at hin
    exact ⟨_, _, hout, hin.1, hin.2⟩

theorem HeapLayout.placed_free {a n c j : Nat} (hc : c ∈ L j) (hdvd : n ∣ a) (hlo : c ≤ a)
    (hhi : a + n ≤ c + 2 ^ (buddyExponMin + j)) : Placed s out g a n := by
  obtain ⟨hmin, hmax⟩ := h.packing.inside (.inl hc)
  refine ⟨hdvd, by omega, by omega, fun hb => ?_⟩
  obtain ⟨d, k, hout, hdlo, hdhi⟩ := h.live_inside hb
  have hne : ¬ (c = d ∧ j = k) := by
    intro e
    obtain ⟨rfl, rfl⟩ := e
    exact h.free hc hout
  rcases packing_disjoint h.packing (.inl hc) (.inr hout) hne with hcd | hdc
  · left
    omega
  · right
    omega

theorem HeapLayout.free_apart {B a b m : Nat} {sl : Slab} (hB : g B = some sl)
    (ha : a ∈ sl.free) (hb : LiveAlloc s out g b m) :
    a + (s.slabs sl.cache).objSize ≤ b ∨ b + m ≤ a := by
  obtain ⟨hout, hsize⟩ := h.slabBlock hB
  have hobj := (h.slab hB).objs ha
  have hin := isObj_inside hobj
  rw [hsize] at hin
  -- another block, or another object of the same one
  have hother : ∀ {d k b m}, out d k → d ≠ B → d ≤ b → b + m ≤ d + 2 ^ (buddyExponMin + k) →
      a + (s.slabs sl.cache).objSize ≤ b ∨ b + m ≤ a := by
    intro d k b m hd hne hlo hhi
    rcases packing_disjoint h.packing (.inr hout) (.inr hd) fun e => hne e.1.symm with hcd | hdc
    · left
      omega
    · right
      omega
  cases hb with
  | block hd hnone =>
    apply hother hd _ (Nat.le_refl _) (Nat.le_refl _)
    intro e
    rw [e, hB] at hnone
    cases hnone
  | @object B' _ sl' hB' hobj' hfree =>
    obtain ⟨hout', hsize'⟩ := h.slabBlock hB'
    have hin' := isObj_inside hobj'
    rw [hsize'] at hin'
    by_cases he : B' = B
    · subst he
      obtain rfl : sl' = sl := Option.some.inj (hB'.symm.trans hB)
      have hne : a ≠ b := fun e => hfree (e ▸ ha)
      exact (obj_apart hobj hobj').resolve_left hne
    · exact hother hout' he hin'.1 hin'.2

theorem HeapLayout.placed_object {B a : Nat} {sl : Slab} (hB : g B = some sl) (ha : a ∈ sl.free)
    (hdvd : (s.slabs sl.cache).objSize ∣ a) : Placed s out g a (s.slabs sl.cache).objSize := by
  obtain ⟨hout, hsize⟩ := h.slabBlock hB
  obtain ⟨hmin, hmax⟩ := h.packing.inside (.inr hout)
  have hin := isObj_inside ((h.slab hB).objs ha)
  rw [hsize] at hin
  exact ⟨hdvd, by omega, by omega, fun hb => h.free_apart hB ha hb⟩

end Layout

/-! ## The three ways of a request -/

theorem pushFree_slabs (s : HeapVars ω) (order i : Nat) : (pushFree s order i).slabs = s.slabs := by
  unfold pushFree
  cases s.freeBuddies order <;> rfl

theorem splitFirst_slabs {W : World ω} {s t : HeapVars ω} {order : Nat}
    (h : splitFirst W s order = .ok t) : t.slabs = s.slabs := by
  have hout : Outcome (fun _ => True) (fun t => t.slabs = s.slabs) (splitFirst W s order) := by
    unfold splitFirst
    split
    · trivial
    · refine (outcome_ptr (fun _ _ => trivial) _).bind fun next _ =>
        (outcome_nat (fun _ _ => trivial) _).bind fun pages _ => .pure ?_
      rw [pushFree_slabs, pushFree_slabs]
      cases next <;> rfl
  exact hout.of_ok h

theorem splitDown_slabs {W : World ω} : ∀ (n : Nat) {s t : HeapVars ω} {order : Nat},
    splitDown W n s order = .ok t → t.slabs = s.slabs := by
  intro n
  induction n with
  | zero =>
    intro s t order h
    cases h
    rfl
  | succ n ih =>
    intro s t order h
    obtain ⟨u, hu, ht⟩ := exists_of_bind_eq_ok h
    rw [ih ht, splitFirst_slabs hu]

theorem takeFirst_slabs {W : World ω} {s : HeapVars ω} {order : Nat} {r : HeapVars ω × Nat}
    (h : takeFirst W s order = .ok r) : r.1.slabs = s.slabs := by
  have hout : Outcome (fun _ => True) (fun r => r.1.slabs = s.slabs) (takeFirst W s order) := by
    unfold takeFirst
    split
    · trivial
    · refine (outcome_ptr (fun _ _ => trivial) _).bind fun next _ => .pure ?_
      cases next <;> rfl
  exact hout.of_ok h

theorem allocFromSlab_returns {s : HeapVars ω} {i a next : Nat} (cache : Nat)
    (hfree : (s.desc i).nextFree = .num a) (hnext : s.mem (a + 4) = .num next)
    (hptr : (s.desc i).prevFree.IsPtr) : ∃ s', allocFromSlab s cache i = .ok (s', a) := by
  obtain ⟨v, hnode⟩ : ∃ v, nodeNext s a = .ok v := by
    unfold nodeNext
    rw [hnext]
    split
    · exact ⟨0, rfl⟩
    · exact ⟨next, rfl⟩
  have hprev : ((takeObj s i v).desc i).prevFree = .ofPtr (s.desc i).prevFree.ptr? := by
    rw [takeObj_desc, if_pos rfl]
    exact hptr
  have hrun : allocFromSlab s cache i =
      if ((takeObj s i v).desc i).usedCount = ((takeObj s i v).desc i).objCount then
        (do let s' ← setPrevSlab (takeObj s i v) ((takeObj s i v).desc i).prevFree (.num 0)
            let nextSlab ← (s'.desc i).prevFree.ptr
            return (s'.setFreeSlab cache nextSlab, a))
      else .ok (takeObj s i v, a) := by
    simp only [allocFromSlab, hfree, Word.nat, ok_bind, hnode]
    rfl
  rw [hrun]
  split
  · rw [hprev, setPrevSlab_ofPtr, ok_bind, linkPrev_desc, hprev]
    have hback := (isPtr_ofPtr (s.desc i).prevFree.ptr?).ptr
    simp only [hback, ok_bind]
    exact ⟨_, rfl⟩
  · exact ⟨_, rfl⟩

/-- Every store of `init_slab_free_list` is a number. -/
theorem linkObjects_num (z : Nat) : ∀ (n : Nat) (s : HeapVars ω) (p x : Nat),
    (x = p + 4 ∨ ∃ v, s.mem x = .num v) → ∃ v, (linkObjects z n s p).mem x = .num v := by
  intro n
  induction n with
  | zero =>
    intro s p x hx
    by_cases he : x = p + 4
    · exact ⟨0, if_pos he⟩
    · obtain ⟨v, hv⟩ := hx.resolve_left he
      exact ⟨v, (if_neg he).trans hv⟩
  | succ n ih =>
    intro s p x hx
    rw [linkObjects]
    apply ih
    right
    by_cases hcur : x = u32 (p + z)
    · exact ⟨p, if_pos hcur⟩
    · by_cases he : x = p + 4
      · exact ⟨u32 (p + z), (if_neg hcur).trans (if_pos he)⟩
      · obtain ⟨v, hv⟩ := hx.resolve_left he
        exact ⟨v, (if_neg hcur).trans ((if_neg he).trans hv)⟩

theorem initSlab_returns {W : World ω} {s : HeapVars ω} {c a pages : Nat}
    (hobj : (s.slabs c).objSize ≠ 0) (hcount : (s.slabs c).slabSize / (s.slabs c).objSize ≠ 0)
    (hpages : (s.desc (descOf W s a)).numPages = .num pages) :
    ∃ s', initSlab W s c a = .ok (s', a) := by
  have hslabs : (s.modify (descOf W s a) fun d =>
      { d with flags := { d.flags with buddy := false } }).slabs = s.slabs := rfl
  have hassert : assert (decide ((s.slabs c).slabSize / (s.slabs c).objSize ≠ 0)) = .ok () := by
    rw [assert, if_pos (decide_eq_true hcount)]
  have hhead : ((headSlab s (descOf W s a) c).desc (descOf W s a)).numPages.nat = .ok pages := by
    rw [headSlab_desc, if_pos rfl]
    show (s.desc (descOf W s a)).numPages.nat = _
    rw [hpages]
    rfl
  have hfold : (s.modify (descOf W s a) fun d =>
      { d with flags := { d.flags with buddy := false } }).modify (descOf W s a) (fun d =>
      { d.setCounts ((s.slabs c).slabSize / (s.slabs c).objSize) 0 with buddyCache := .slabs c }) =
      headSlab s (descOf W s a) c := rfl
  have hnum : ∀ (t : HeapVars ω) (z n : Nat), ∃ v, nodeNext (((initSlabFreeList t a z n).modify
      (descOf W s a) fun d => { d with prevFree := .num 0 }).setFreeSlab c
      (some (descOf W s a))) a = .ok v := by
    intro t z n
    obtain ⟨v, hv⟩ := linkObjects_num z (n - 1) (t.store a (.num 0)) a (a + 4) (.inl rfl)
    unfold nodeNext
    split
    · exact ⟨0, rfl⟩
    · refine ⟨v, ?_⟩
      show ((initSlabFreeList t a z n).mem (a + 4)).nat = _
      rw [initSlabFreeList, hv]
      rfl
  unfold initSlab
  simp only [hslabs, if_neg hobj, hassert, ok_bind]
  simp only [hfold, hhead, ok_bind]
  obtain ⟨v, hv⟩ := hnum (markTails W (descOf W s a)
    ((u32 (pages * pageSize) + pageSize - 1) / pageSize - 1) (headSlab s (descOf W s a) c)
    (u32 (a + pageSize))) (s.slabs c).objSize
    ((s.slabs c).slabSize / (s.slabs c).objSize % 2 ^ 16)
  simp only [hv, ok_bind, pure_eq_ok]
  exact ⟨_, rfl⟩

section Requests

variable {W : World ω} {s : HeapVars ω} {L : Nat → List Nat} {out : Nat → Nat → Prop}
  {g : Nat → Option Slab} (h : HeapLayout W s L out g)
include h

theorem HeapLayout.allocBuddy {k : Nat} (hserved : Served s k) (fuel : Nat) :
    ∃ s' a, allocBuddy W (fuel + 1) s (2 ^ (buddyExponMin + k)) = .ok (s', a) ∧
      Placed s out g a (2 ^ (buddyExponMin + k)) ∧ s'.slabs = s.slabs ∧
      (s'.desc (descOf W s' a)).numPages = .num (2 ^ k) := by
  obtain ⟨s', a, hrun, hdvd, hpages, ⟨c, j, hc, hlo, hhi⟩, hworld⟩ :=
    h.blocks.allocBuddy hserved fuel
  refine ⟨s', a, hrun, h.placed_free hc hdvd hlo hhi, ?_, ?_⟩
  · obtain ⟨n, -, -, -, -, hsteps⟩ := h.blocks.allocBuddy_eq hserved fuel
    obtain ⟨t, hsplit, htake⟩ := exists_of_bind_eq_ok (hsteps.symm.trans hrun)
    rw [takeFirst_slabs htake, splitDown_slabs n hsplit]
  · rw [descOf_congr hworld]
    exact hpages

theorem HeapLayout.sized {c : Nat} (hc : c < slabOrderCount) :
    (s.slabs c).objSize = 2 ^ (slabExponMin + c) ∧
      (s.slabs c).slabSize = 2 ^ (buddyExponMin + (s.slabs c).blockOrder) ∧
      2 * (s.slabs c).objSize ≤ (s.slabs c).slabSize := by
  obtain ⟨hobj, hsize⟩ := h.sizes hc
  have hsized := kmallocOrder_sized hc
  have horder : (s.slabs c).blockOrder = (kmallocOrder c).blockOrder := by
    rw [SlabOrder.blockOrder, SlabOrder.blockOrder, hsize]
  refine ⟨hobj, ?_, ?_⟩
  · rw [horder, hsize]
    exact hsized.slabSize
  · rw [hobj, hsize]
    exact hsized.two

theorem HeapLayout.objSize_dvd {c : Nat} (hc : c < slabOrderCount) :
    (s.slabs c).objSize ∣ (s.slabs c).slabSize := by
  obtain ⟨hobj, hsize, htwo⟩ := h.sized hc
  rw [hobj, hsize] at htwo ⊢
  apply Nat.pow_dvd_pow
  have hpos := Nat.two_pow_pos (slabExponMin + c)
  exact (Nat.pow_le_pow_iff_right (show 1 < 2 by decide)).1 (by omega)

theorem HeapLayout.allocSlab {c : Nat} (hc : c < slabOrderCount)
    (hno : (s.slabs c).freeSlab ≠ none ∨ Served s (orderOf (s.slabs c).slabSize)) (fuel : Nat) :
    ∃ s' a, Heap.allocSlab W (Heap.allocBuddy W (fuel + 1)) s c = .ok (s', a) ∧
      Placed s out g a (2 ^ (slabExponMin + c)) := by
  obtain ⟨hobj, hsize, htwo⟩ := h.sized hc
  have hdvd := h.objSize_dvd hc
  have hpos := Nat.two_pow_pos (slabExponMin + c)
  rw [← hobj] at hpos ⊢
  unfold Heap.allocSlab
  cases hfirst : (s.slabs c).freeSlab with
  | some i =>
    obtain ⟨B, sl, hB, rfl, hfree, rfl, hptr⟩ := h.first hc hfirst
    obtain ⟨a, F, hlist⟩ := List.exists_cons_of_ne_nil hfree
    have hslab := h.slab hB
    have ha : a ∈ sl.free := mem_first hlist
    obtain ⟨hout, -⟩ := h.slabBlock hB
    -- the slab is aligned to its size, and the object is a multiple of its size away
    have hbase : (s.slabs sl.cache).objSize ∣ B := by
      apply Dvd.dvd.trans hdvd
      rw [hsize]
      exact h.packing.aligned (.inr hout)
    obtain ⟨i, -, hai⟩ := hslab.objs ha
    have hadvd : (s.slabs sl.cache).objSize ∣ a := by
      rw [hai]
      exact Nat.dvd_add hbase (Nat.dvd_mul_left _ _)
    have hnode := hslab.freeNode
    have hchain := hslab.chain
    rw [hlist] at hnode hchain
    obtain ⟨s', hrun⟩ := allocFromSlab_returns sl.cache hnode hchain.1 hptr
    exact ⟨s', a, hrun, h.placed_object hB ha hadvd⟩
  | none =>
    have hserved := hno.resolve_left fun hne => hne hfirst
    have horder : orderOf (s.slabs c).slabSize = (s.slabs c).blockOrder := rfl
    rw [horder] at hserved
    obtain ⟨s', a, hrun, hplaced, hslabs, hpages⟩ := h.allocBuddy hserved fuel
    rw [← hsize] at hrun hplaced
    have hcount : (s.slabs c).slabSize / (s.slabs c).objSize ≠ 0 := by
      have := (Nat.le_div_iff_mul_le hpos).2 htwo
      omega
    obtain ⟨t, hinit⟩ := initSlab_returns (W := W) (s := s') (c := c) (a := a)
      (by rw [hslabs]; omega) (by rw [hslabs]; exact hcount) hpages
    refine ⟨t, a, ?_, Dvd.dvd.trans hdvd hplaced.aligned, hplaced.low, ?_, fun hb => ?_⟩
    · rw [hrun, ok_bind]
      exact hinit
    · have := hplaced.high
      omega
    · have := hplaced.apart hb
      omega

end Requests

/-! ## `kmalloc` -/

/-- The request is served without growth of the heap: by a free object or by a free block. -/
def NeedsNoGrowth (s : HeapVars ω) (size : Nat) : Prop :=
  if size > 2 ^ slabExponMax then Served s (orderOf (usable size))
  else (s.slabs (log2U32 (usable size) - slabExponMin)).freeSlab ≠ none ∨
    Served s (orderOf (s.slabs (log2U32 (usable size) - slabExponMin)).slabSize)

theorem HeapLayout.kmalloc {W : World ω} {s : HeapVars ω} {L : Nat → List Nat}
    {out : Nat → Nat → Prop} {g : Nat → Option Slab} (h : HeapLayout W s L out g) {size : Nat}
    (hsize : size ≤ 2 ^ 31) (hno : NeedsNoGrowth s size) (fuel : Nat) :
    ∃ s' a, kmalloc W (fuel + 1) s size = .ok (s', a) ∧ Placed s out g a (usable size) := by
  obtain ⟨e, he, hmin, hmax⟩ := exists_usable size
  have hlog : log2U32 (2 ^ e) = e := Nat.log2_two_pow
  unfold NeedsNoGrowth at hno
  rw [he] at hno ⊢
  rw [hlog] at hno
  unfold Heap.kmalloc
  by_cases hlarge : size > 2 ^ slabExponMax
  · -- a block of whole pages
    have hclog : slabExponMax < Nat.clog 2 size := (Nat.lt_clog_iff_pow_lt (by decide)).2 hlarge
    have hexp : e = Nat.clog 2 size := by
      unfold slabExponMax at hclog
      unfold slabExponMin at hmax
      omega
    obtain ⟨k, hk⟩ : ∃ k, e = buddyExponMin + k := by
      unfold slabExponMax at hclog
      exact ⟨e - buddyExponMin, by unfold buddyExponMin; omega⟩
    have halign : alignUpPow2 size = 2 ^ (buddyExponMin + k) := by
      rw [alignUpPow2_eq hsize, ← hexp, hk]
    have horder : orderOf (2 ^ (buddyExponMin + k)) = k := by
      rw [orderOf, ← hk, hlog, hk, Nat.add_sub_cancel_left]
    rw [if_pos hlarge, hk, horder] at hno
    obtain ⟨s', a, hrun, hplaced, -⟩ := h.allocBuddy hno fuel
    have hpos : 2 ^ (buddyExponMin + k) ≠ 0 := (Nat.two_pow_pos _).ne'
    refine ⟨s', a, ?_, by rw [hk]; exact hplaced⟩
    rw [if_pos hlarge]
    simp only [halign, hpos, assert, ne_eq, not_false_eq_true, decide_true, if_true, ok_bind, hrun]
  · -- an object of the order of the size
    have hclog : Nat.clog 2 size ≤ slabExponMax :=
      (Nat.clog_le_iff_le_pow (by decide)).2 (Nat.not_lt.1 hlarge)
    have hle : e ≤ slabExponMax := by
      rw [hmax]
      exact Nat.max_le.2 ⟨by decide, hclog⟩
    have hsum : slabExponMin + (e - slabExponMin) = e := by omega
    have hc : e - slabExponMin < slabOrderCount := by
      unfold slabOrderCount
      omega
    have halign : max (alignUpPow2 size) (2 ^ slabExponMin) = 2 ^ e := by
      rw [alignUpPow2_eq hsize, Nat.max_comm, ← he]
      rfl
    have hpow : 2 ^ e &&& (2 ^ e - 1) = 0 := by
      rw [Nat.and_two_pow_sub_one_eq_mod, Nat.mod_self]
    rw [if_neg hlarge] at hno
    obtain ⟨s', a, hrun, hplaced⟩ := h.allocSlab hc hno fuel
    rw [hsum] at hplaced
    refine ⟨s', a, ?_, hplaced⟩
    rw [if_neg hlarge]
    simp only [halign, hlog, hle, hpow, assert, decide_true, if_true, ok_bind, hrun]

/-- `kmalloc` of any size up to 2^31 that needs no growth returns a multiple of the least
power of two above the size, at least 16, with as many bytes in the heap that are apart from
all that is live; and so `kmalloc_aligned` returns a multiple of the alignment with at least
the size in bytes. -/
theorem kmalloc_placed {W : World ω} {s : HeapVars ω} {L : Nat → List Nat} {out : Nat → Nat → Prop}
    {g : Nat → Option Slab} (h : HeapLayout W s L out g) (fuel : Nat) :
    (∀ size, size ≤ 2 ^ 31 → NeedsNoGrowth s size →
      ∃ s' a, kmalloc W (fuel + 1) s size = .ok (s', a) ∧ Placed s out g a (usable size)) ∧
    (∀ e size, 2 ^ e ≤ 2 ^ 31 → size ≤ 2 ^ 31 → NeedsNoGrowth s (max (2 ^ e) size) →
      ∃ s' a n, kmallocAligned W (fuel + 1) s (2 ^ e) size = .ok (s', a) ∧ 2 ^ e ∣ a ∧
        size ≤ n ∧ Placed s out g a n) := by
  constructor
  · intro size hsize hno
    exact h.kmalloc hsize hno fuel
  · intro e size he hsize hno
    obtain ⟨s', a, hrun, hplaced⟩ := h.kmalloc (Nat.max_le.2 ⟨he, hsize⟩) hno fuel
    refine ⟨s', a, usable (max (2 ^ e) size), hrun, ?_, ?_, hplaced⟩
    · exact Dvd.dvd.trans (dvd_usable (Nat.le_max_left _ _)) hplaced.aligned
    · exact le_trans (Nat.le_max_right _ _) (le_usable _)

/-- The heap of two pages with the slab orders of the kernel. -/
def twoPageSlabs : HeapVars Unit := { twoPageHeap with slabs := kmallocOrder }

theorem twoPageSlabs_layout :
    HeapLayout twoPageWorld twoPageSlabs twoPageBlocks.free twoPageBlocks.live fun _ => none where
  blocks :=
    have hblocks := twoPageHeap_wellFormed.toRep.marked.toFreeBlocks
    ⟨⟨hblocks.lists.linked, hblocks.lists.nodup, hblocks.lists.apart, hblocks.lists.ptrs⟩,
      hblocks.head, hblocks.packing, hblocks.order, hblocks.bound, hblocks.inj⟩
  packing := twoPageHeap_wellFormed.tiling.packing
  free ha := twoPageHeap_wellFormed.toRep.not_live ha
  sizes _ := ⟨rfl, rfl⟩
  slab hB := by cases hB
  slabBlock hB := by cases hB
  first _ hi := by cases hi

/-- One byte, and a hundred bytes at a multiple of 64. -/
theorem twoPageSlabs_kmalloc :
    (∃ s' a, kmalloc twoPageWorld 1 twoPageSlabs 1 = .ok (s', a) ∧
      Placed twoPageSlabs twoPageBlocks.live (fun _ => none) a 16) ∧
    ∃ s' a n, kmallocAligned twoPageWorld 1 twoPageSlabs (2 ^ 6) 100 = .ok (s', a) ∧ 2 ^ 6 ∣ a ∧
      100 ≤ n ∧ Placed twoPageSlabs twoPageBlocks.live (fun _ => none) a n := by
  obtain ⟨hmalloc, haligned⟩ := kmalloc_placed twoPageSlabs_layout 0
  have hserved : Served twoPageSlabs 0 := ⟨0, Nat.le_refl _, by decide, by decide⟩
  constructor
  · exact hmalloc 1 (by decide) (.inr hserved)
  · exact haligned 6 100 (by decide) (by decide) (.inr hserved)

end X86Kernel.Heap
