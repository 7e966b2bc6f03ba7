import X86Kernel.Lib.Outcome
import X86Kernel.Memory.Heap.Buddy
import X86Kernel.Memory.Heap.Calls

/- What the parts of `heap.c` leave alone.

   The lists of blocks and the slabs are worked on with the descriptors and the slab
   memory only: the world, the bounds of the heap and the sizes of the slab orders, its
   outline, stay. A loop over blocks ends, so that `.diverges` is no outcome of it.

   What is proved: an interval is allocated without a change of the outline, or not at
   all (`interval_outline`). When it needs growth, the growth needs an interval, and so
   on; in a starved heap no request that needs growth returns (`starved_allocBuddy`). -/
namespace X86Kernel.Heap
open X86Kernel.Lib

variable {ω : Type}

/-- What the work on lists of blocks and on slabs leaves alone. -/
structure Outline (ω : Type) where
  world : ω
  intervalCache : Nat
  minAddr : Nat
  curMaxAddr : Nat
  reservedMaxAddr : Nat
  curSize : Nat
  reservedMaxSize : Nat
  slabSize : Nat → Nat

def HeapVars.outline (s : HeapVars ω) : Outline ω where
  world := s.world
  intervalCache := s.intervalCache
  minAddr := s.minAddr
  curMaxAddr := s.curMaxAddr
  reservedMaxAddr := s.reservedMaxAddr
  curSize := s.curSize
  reservedMaxSize := s.reservedMaxSize
  slabSize c := (s.slabs c).slabSize

@[simp] theorem outline_modify (s : HeapVars ω) (i : Nat) (f : Desc → Desc) :
    (s.modify i f).outline = s.outline := rfl

@[simp] theorem outline_store (s : HeapVars ω) (addr : Nat) (w : Word) :
    (s.store addr w).outline = s.outline := rfl

@[simp] theorem outline_setHead (s : HeapVars ω) (order : Nat) (p : Option Nat) :
    (s.setHead order p).outline = s.outline := rfl

@[simp] theorem outline_setFreeSlab (s : HeapVars ω) (cache : Nat) (p : Option Nat) :
    (s.setFreeSlab cache p).outline = s.outline := by
  unfold HeapVars.outline HeapVars.setFreeSlab
  congr 1
  funext c
  dsimp only
  split <;> rfl

@[simp] theorem outline_setPrevFree (s : HeapVars ω) (p : Option Nat) (w : Word) :
    (setPrevFree s p w).outline = s.outline := by
  cases p <;> rfl

@[simp] theorem outline_setNextFree (s : HeapVars ω) (p : Option Nat) (w : Word) :
    (setNextFree s p w).outline = s.outline := by
  cases p <;> rfl

@[simp] theorem outline_pushFree (s : HeapVars ω) (order i : Nat) :
    (pushFree s order i).outline = s.outline := by
  simp [pushFree]

@[simp] theorem outline_setNodePrev (s : HeapVars ω) (node prev : Nat) :
    (setNodePrev s node prev).outline = s.outline := by
  unfold setNodePrev
  split <;> rfl

@[simp] theorem outline_linkObjects (objSize : Nat) : ∀ (n : Nat) (s : HeapVars ω) (lastPtr : Nat),
    (linkObjects objSize n s lastPtr).outline = s.outline := by
  intro n
  induction n with
  | zero => intro s lastPtr; rfl
  | succ n ih =>
    intro s lastPtr
    rw [linkObjects, ih]
    rfl

@[simp] theorem outline_markTails (W : World ω) (head : Nat) : ∀ (n : Nat) (s : HeapVars ω)
    (va : Nat), (markTails W head n s va).outline = s.outline := by
  intro n
  induction n with
  | zero => intro s va; rfl
  | succ n ih =>
    intro s va
    rw [markTails, ih]
    rfl

theorem fitOrder_le (heapAddr : Nat) : ∀ order, fitOrder heapAddr order ≤ order := by
  intro order
  induction order with
  | zero => exact Nat.le_refl 0
  | succ order ih =>
    unfold fitOrder
    split
    · exact Nat.le_refl _
    · exact Nat.le_succ_of_le ih

theorem fitOrder_size (heapAddr : Nat) {size : Nat} (hpos : size ≠ 0) (hpage : size % pageSize = 0)
    (hlt : size < 2 ^ 32) :
    2 ^ (fitOrder heapAddr (min (sub32 (log2U32 size) buddyExponMin) buddyOrderMax) +
      buddyExponMin) ≤ size := by
  have hlog : log2U32 size < 32 := (Nat.log2_lt hpos).2 hlt
  have hge : buddyExponMin ≤ log2U32 size := by
    apply (Nat.le_log2 hpos).2
    unfold pageSize at hpage
    show 2 ^ 12 ≤ size
    omega
  have hle : fitOrder heapAddr (min (sub32 (log2U32 size) buddyExponMin) buddyOrderMax) +
      buddyExponMin ≤ log2U32 size := by
    have hfit := fitOrder_le heapAddr (min (sub32 (log2U32 size) buddyExponMin) buddyOrderMax)
    rw [sub32_of_le (by omega) hge] at hfit ⊢
    omega
  calc 2 ^ _ ≤ 2 ^ log2U32 size := Nat.pow_le_pow_right (by decide) hle
    _ ≤ size := Nat.log2_self_le hpos

section Steps

variable {W : World ω} {E : Fault → Prop} (hE : ∀ e, e ≠ .diverges → E e)
include hE

theorem outcome_assert (b : Bool) : Outcome E (fun _ => b = true) (assert b) := by
  cases b with
  | false => exact hE _ (by decide)
  | true => exact rfl

theorem outcome_ptr (w : Word) : Outcome E (fun _ => True) w.ptr := by
  unfold Word.ptr
  split
  · trivial
  · trivial
  · exact hE _ (by decide)

theorem outcome_nat (w : Word) : Outcome E (fun _ => True) w.nat := by
  cases w with
  | num n => trivial
  | page i => exact hE _ (by decide)
  | buddies k => exact hE _ (by decide)
  | slabs c => exact hE _ (by decide)

theorem outcome_unlinkFree (s : HeapVars ω) (order i : Nat) :
    Outcome E (fun t => t.outline = s.outline) (unlinkFree s order i) := by
  unfold unlinkFree
  refine (outcome_ptr hE _).bind fun next _ => (outcome_ptr hE _).bind fun prev _ => ?_
  dsimp only
  split
  · refine (outcome_ptr hE _).bind fun next _ => .pure ?_
    simp
  · exact .pure (by simp)

theorem outcome_joinBlocks (s : HeapVars ω) (order new old : Nat) :
    Outcome E (fun r => r.1.outline = s.outline ∧ order + 1 ≤ buddyOrderMax ∧
      r.1.freeBuddies (order + 1) ≠ none) (joinBlocks s order new old) := by
  unfold joinBlocks
  refine (outcome_unlinkFree hE _ _ _).bind fun s₁ h₁ => ?_
  refine (outcome_unlinkFree hE _ _ _).bind fun s₂ h₂ => ?_
  refine (outcome_assert hE _).bind fun _ hle => (outcome_nat hE _).bind fun pages _ => .pure ?_
  refine ⟨by simp [h₁, h₂], by simpa using hle, ?_⟩
  have h := freeBuddies_pushFree (s₂.modify old fun d => { d with
    nextFree := .num 0, prevFree := .num 0 }) (order + 1) new (order + 1)
  rw [if_pos rfl] at h
  show (pushFree _ (order + 1) new).freeBuddies (order + 1) ≠ none
  rw [h]
  simp

/-- A merge leaves a block in a list; the assertion on the order ends the loop. -/
theorem outcome_mergeUpwards : ∀ (fuel : Nat) (s : HeapVars ω) (cur order : Nat),
    buddyOrderMax + 1 < fuel + order → order ≤ buddyOrderMax + 1 → Served s 0 →
    Outcome E (fun t => t.outline = s.outline ∧ Served t 0) (mergeUpwards W fuel s cur order) := by
  intro fuel
  induction fuel with
  | zero => intro s cur order hfuel horder; omega
  | succ fuel ih =>
    intro s cur order hfuel horder hs
    unfold mergeUpwards resolveMerge
    dsimp only
    split
    · exact .pure ⟨rfl, hs⟩
    · -- whichever of the two blocks comes first
      split
      all_goals
        refine (outcome_joinBlocks hE s order _ _).bind fun r h => ?_
        obtain ⟨houtline, hle, hblock⟩ := h
        split
        · exact .pure ⟨houtline, order + 1, Nat.zero_le _, hle, hblock⟩
        · refine (ih r.1 _ (order + 1) (by omega) (by omega)
            ⟨order + 1, Nat.zero_le _, hle, hblock⟩).mono ?_
          intro t ht
          exact ⟨ht.1.trans houtline, ht.2⟩

/-- `add_buddies` ends, and some list has a block then. -/
theorem outcome_addBuddies (isInit : Bool) : ∀ (fuel : Nat) (s : HeapVars ω) (heapAddr size : Nat),
    size % pageSize = 0 → size < 2 ^ 32 → size / pageSize < fuel → (size = 0 → Served s 0) →
    Outcome E (fun t => t.outline = s.outline ∧ Served t 0)
      (addBuddies W isInit fuel s heapAddr size) := by
  intro fuel
  induction fuel with
  | zero =>
    intro s heapAddr size _ _ hfuel
    exact absurd hfuel (Nat.not_lt_zero _)
  | succ fuel ih =>
    intro s heapAddr size hpage hlt hfuel hblock
    by_cases hpos : size = 0
    · unfold addBuddies
      rw [if_pos hpos]
      exact .pure ⟨rfl, hblock hpos⟩
    · have hfits := fitOrder_size heapAddr hpos hpage hlt
      have hmax := (fitOrder_le heapAddr (min (sub32 (log2U32 size) buddyExponMin)
        buddyOrderMax)).trans (Nat.min_le_right _ _)
      unfold addBuddies
      rw [if_neg hpos]
      generalize fitOrder heapAddr (min (sub32 (log2U32 size) buddyExponMin) buddyOrderMax) = order
        at hfits hmax
      refine (outcome_assert hE _).bind fun _ _ => ?_
      have hplaced : (placeBuddy W s heapAddr order).outline = s.outline := by simp [placeBuddy]
      have hfirst : (placeBuddy W s heapAddr order).freeBuddies order ≠ none := by
        rw [placeBuddy_freeBuddies, if_pos rfl]
        simp
      have hserved : Served (placeBuddy W s heapAddr order) 0 :=
        ⟨order, Nat.zero_le _, hmax, hfirst⟩
      have hpow : 2 ^ (order + buddyExponMin) = 2 ^ order * pageSize := Nat.pow_add ..
      have hpow' := Nat.two_pow_pos order
      rw [sub32_of_le hlt hfits]
      have hrest : ∀ t : HeapVars ω, t.outline = s.outline → Served t 0 →
          Outcome E (fun u => u.outline = s.outline ∧ Served u 0) (addBuddies W isInit fuel t
            (u32 (heapAddr + 2 ^ (order + buddyExponMin)))
            (size - 2 ^ (order + buddyExponMin))) := by
        intro t ht hblock
        refine (ih t _ _ ?_ (by omega) ?_ fun _ => hblock).mono fun u hu => ⟨hu.1.trans ht, hu.2⟩
        · rw [hpow]
          unfold pageSize at *
          omega
        · rw [hpow] at hfits ⊢
          unfold pageSize at *
          omega
      cases isInit with
      | true => exact hrest _ hplaced hserved
      | false =>
        refine (outcome_mergeUpwards hE (buddyOrderMax + 2) (placeBuddy W s heapAddr order) _ order
          (by omega) (by omega) hserved).bind fun t ht => ?_
        exact hrest t (ht.1.trans hplaced) ht.2

theorem outcome_splitFirst (s : HeapVars ω) (order : Nat) :
    Outcome E (fun t => t.outline = s.outline) (splitFirst W s order) := by
  unfold splitFirst
  split
  · exact hE _ (by decide)
  · refine (outcome_ptr hE _).bind fun next _ => (outcome_nat hE _).bind fun pages _ => .pure ?_
    simp

theorem outcome_splitDown : ∀ (n : Nat) (s : HeapVars ω) (order : Nat),
    Outcome E (fun t => t.outline = s.outline) (splitDown W n s order) := by
  intro n
  induction n with
  | zero => intro s order; exact rfl
  | succ n ih =>
    intro s order
    refine (outcome_splitFirst hE s order).bind fun t ht => ?_
    exact (ih t (order - 1)).mono fun u hu => hu.trans ht

theorem outcome_takeFirst (s : HeapVars ω) (order : Nat) :
    Outcome E (fun r => r.1.outline = s.outline) (takeFirst W s order) := by
  unfold takeFirst
  split
  · exact hE _ (by decide)
  · refine (outcome_ptr hE _).bind fun next _ => .pure ?_
    simp

theorem outcome_nodeNext (s : HeapVars ω) (node : Nat) :
    Outcome E (fun _ => True) (nodeNext s node) := by
  unfold nodeNext
  split
  · trivial
  · exact outcome_nat hE _

theorem outcome_setPrevSlab (s : HeapVars ω) (p w : Word) :
    Outcome E (fun t => t.outline = s.outline) (setPrevSlab s p w) := by
  unfold setPrevSlab
  split
  · exact rfl
  · exact rfl
  · exact rfl
  · exact hE _ (by decide)

theorem outcome_allocFromSlab (s : HeapVars ω) (cache i : Nat) :
    Outcome E (fun r => r.1.outline = s.outline) (allocFromSlab s cache i) := by
  unfold allocFromSlab
  refine (outcome_nat hE _).bind fun usedNode _ => (outcome_nodeNext hE _ _).bind fun next _ => ?_
  dsimp only
  split
  · refine (outcome_setPrevSlab hE _ _ _).bind fun t ht => (outcome_ptr hE _).bind fun _ _ => ?_
    exact .pure (by simp [ht])
  · exact .pure (by simp)

theorem outcome_initSlab (s : HeapVars ω) (cache buddyAddr : Nat) :
    Outcome E (fun r => r.1.outline = s.outline) (initSlab W s cache buddyAddr) := by
  unfold initSlab
  dsimp only
  split
  · exact hE _ (by decide)
  · refine (outcome_assert hE _).bind fun _ _ => (outcome_nat hE _).bind fun pages _ => ?_
    refine (outcome_nodeNext hE _ _).bind fun next _ => .pure ?_
    simp [initSlabFreeList]

end Steps

/-! ## Growth -/

/-- The order `alloc_buddy` starts its search at. -/
def orderOf (size : Nat) : Nat := log2U32 size - buddyExponMin

theorem findOrder_none (s : HeapVars ω) : ∀ (n order : Nat),
    (∀ j, order ≤ j → j < order + n → s.freeBuddies j = none) →
    findOrder s n order = order + n := by
  intro n
  induction n with
  | zero => intro order _; rfl
  | succ n ih =>
    intro order hnone
    rw [findOrder, if_pos (hnone order (Nat.le_refl _) (by omega)), ih (order + 1)]
    · omega
    · intro j hj hlt
      exact hnone j (by omega) (by omega)

theorem findOrder_gt_iff (s : HeapVars ω) (k : Nat) :
    findOrder s (buddyOrderMax + 1 - k) k > buddyOrderMax ↔ ¬ Served s k := by
  constructor
  · intro hgt hserved
    obtain ⟨j, hkj, hj, hne⟩ := hserved
    have := findOrder_spec s (buddyOrderMax + 1 - k) k hkj (by omega) hne
    omega
  · intro hnot
    rw [findOrder_none]
    · omega
    · intro j hkj hj
      by_contra hne
      exact hnot ⟨j, hkj, by omega, hne⟩

/-- The request that the interval of a growth makes cannot be met: no slab of the
interval cache has a free object, and no list has a block that is large enough for
a slab. -/
def Starved (s : HeapVars ω) : Prop :=
  (s.slabs s.intervalCache).freeSlab = none ∧
    ¬ Served s (orderOf (s.slabs s.intervalCache).slabSize)

theorem not_starved_iff (s : HeapVars ω) : ¬ Starved s ↔
    (s.slabs s.intervalCache).freeSlab ≠ none ∨
      Served s (orderOf (s.slabs s.intervalCache).slabSize) := by
  rw [Starved, not_and_or, not_not]

section Growth

variable {W : World ω} {E : Fault → Prop} (hE : ∀ e, e ≠ .diverges → E e)
include hE

theorem outcome_served (fuel : Nat) (s : HeapVars ω) (size : Nat) (h : Served s (orderOf size)) :
    Outcome E (fun r => r.1.outline = s.outline) (allocBuddy W (fuel + 1) s size) := by
  unfold allocBuddy
  refine (outcome_assert hE _).bind fun _ _ => (outcome_assert hE _).bind fun _ _ => ?_
  dsimp only
  rw [if_neg]
  · refine (outcome_splitDown hE _ _ _).bind fun t ht => ?_
    exact (outcome_takeFirst hE _ _).mono fun r hr => hr.trans ht
  · rw [findOrder_gt_iff]
    exact fun hnot => hnot h

theorem outcome_allocSlab (fuel : Nat) (s : HeapVars ω) (cache : Nat)
    (h : (s.slabs cache).freeSlab ≠ none ∨ Served s (orderOf (s.slabs cache).slabSize)) :
    Outcome E (fun r => r.1.outline = s.outline)
      (allocSlab W (allocBuddy W (fuel + 1)) s cache) := by
  unfold allocSlab
  split
  · exact outcome_allocFromSlab hE _ _ _
  · next hnone =>
    refine (outcome_served hE fuel s _ (h.resolve_left (not_not.2 hnone))).bind fun r hr => ?_
    exact (outcome_initSlab hE _ _ _).mono fun r' hr' => hr'.trans hr

theorem outcome_interval (fuel : Nat) (s : HeapVars ω) (h : ¬ Starved s) :
    Outcome E (fun r => r.1.outline = s.outline)
      (allocSlab W (allocBuddy W (fuel + 1)) s s.intervalCache) :=
  outcome_allocSlab hE fuel s _ ((not_starved_iff s).1 h)

end Growth

/-- In a starved heap a growth whose blocks never come never returns. -/
theorem starved_growHeap {W : World ω} {f : HeapVars ω → Nat → Kernel (HeapVars ω × Nat)}
    {s : HeapVars ω} (hs : Starved s) (hf : ∀ w, Outcome (fun _ => True) (fun _ => False)
      (f { s with world := w } (s.slabs s.intervalCache).slabSize)) (size : Nat) :
    Outcome (fun _ => True) (fun _ => False) (growHeap W f s size) := by
  unfold growHeap
  dsimp only
  split
  · trivial
  · unfold addHeapRegion
    refine (outcome_assert (fun _ _ => trivial) _).bind fun _ _ => ?_
    split
    · trivial
    · apply Outcome.bind (P := fun _ => True) (outcome_of_ok fun _ _ => trivial) fun r _ => ?_
      apply Outcome.bind_stop
      unfold vmapPages allocSlab
      -- only the world has changed since
      dsimp only
      rw [hs.1]
      exact (hf r.1).bind_stop.bind_stop

/-- Growth asks for an interval, the interval for a block, and the block for growth: in
a starved heap a request that needs growth never returns. -/
theorem starved_allocBuddy {W : World ω} : ∀ (fuel : Nat) (s : HeapVars ω) (size : Nat), Starved s →
    ¬ Served s (orderOf size) →
    Outcome (fun _ => True) (fun _ => False) (allocBuddy W fuel s size) := by
  intro fuel
  induction fuel with
  | zero => intro s size _ _; trivial
  | succ fuel ih =>
    intro s size hs hsize
    unfold allocBuddy
    refine (outcome_assert (fun _ _ => trivial) _).bind fun _ _ =>
      (outcome_assert (fun _ _ => trivial) _).bind fun _ _ => ?_
    have hgrow := (findOrder_gt_iff s _).2 hsize
    unfold orderOf at hgrow
    dsimp only
    rw [if_pos hgrow]
    exact (starved_growHeap hs (fun w => ih { s with world := w } _ hs hs.2) size).bind_stop

/-- An interval is allocated without growth, or not at all. -/
theorem interval_outline {W : World ω} {fuel : Nat} {s t : HeapVars ω} {a : Nat}
    (h : allocSlab W (allocBuddy W fuel) s s.intervalCache = .ok (t, a)) :
    t.outline = s.outline := by
  by_cases hs : Starved s
  · unfold allocSlab at h
    rw [hs.1] at h
    obtain ⟨r, hr, -⟩ := exists_of_bind_eq_ok h
    exact ((starved_allocBuddy fuel s _ hs hs.2).of_ok hr).elim
  · cases fuel with
    | zero =>
      unfold allocSlab at h
      split at h
      · exact (outcome_allocFromSlab (fun _ _ => trivial) _ _ _).of_ok h
      · cases h
    | succ fuel => exact (outcome_interval (fun _ _ => trivial) fuel s hs).of_ok h

end X86Kernel.Heap
