import X86Kernel.Lib.Outcome
import X86Kernel.Memory.FrameAlloc.Runs

/- What `frame_alloc_phys_pages` writes.

   On every array, whatever state its free list is in, a request for `n` pages that returns
   page `p` has found the pages `p` to `p + n - 1` unused, and marks them and the page after
   them as used (`frameAllocPhysPages_marked`): `pfn_range_set_type` gets a count that is one
   too large. With an intact free list the request changes exactly the pages it returns if
   and only if that page exists and is used already (`allocExact_iff`). -/
namespace X86Kernel.Frame

open Lib

/-- The two arrays differ in the free list and its counts only. -/
structure SameMarks (s s' : Frames) : Prop where
  size : s'.count = s.count
  type : ∀ i, (s'.desc i).type = (s.desc i).type
  flags : ∀ i, (s'.desc i).flags = (s.desc i).flags
  refCount : ∀ i, (s'.desc i).refCount = (s.desc i).refCount

theorem SameMarks.refl (s : Frames) : SameMarks s s :=
  ⟨rfl, fun _ => rfl, fun _ => rfl, fun _ => rfl⟩

theorem SameMarks.trans {s s' s'' : Frames} (h : SameMarks s s') (h' : SameMarks s' s'') :
    SameMarks s s'' :=
  ⟨h'.size.trans h.size, fun i => (h'.type i).trans (h.type i),
    fun i => (h'.flags i).trans (h.flags i), fun i => (h'.refCount i).trans (h.refCount i)⟩

theorem modify_marks (s : Frames) (i : Nat) (f : Page → Page)
    (hf : ∀ d, (f d).type = d.type ∧ (f d).flags = d.flags ∧ (f d).refCount = d.refCount) :
    Outcome (fun _ => True) (SameMarks s) (modify s i f) := by
  unfold modify
  split
  · refine ⟨rfl, ?_, ?_, ?_⟩ <;> intro j <;> rw [set_desc]
    · by_cases hj : j = i
      · rw [if_pos hj, hj, (hf _).1]
      · rw [if_neg hj]
    · by_cases hj : j = i
      · rw [if_pos hj, hj, (hf _).2.1]
      · rw [if_neg hj]
    · by_cases hj : j = i
      · rw [if_pos hj, hj, (hf _).2.2]
      · rw [if_neg hj]
  · trivial

theorem setNextOf_marks (s : Frames) (p q : Option Nat) :
    Outcome (fun _ => True) (SameMarks s) (setNextOf s p q) := by
  cases p with
  | none => exact ⟨rfl, fun _ => rfl, fun _ => rfl, fun _ => rfl⟩
  | some i =>
    unfold setNextOf
    apply modify_marks
    exact fun _ => ⟨rfl, rfl, rfl⟩

theorem setPrevOf_marks (s : Frames) (p q : Option Nat) :
    Outcome (fun _ => True) (SameMarks s) (setPrevOf s p q) := by
  cases p with
  | none => exact SameMarks.refl s
  | some i =>
    unfold setPrevOf
    apply modify_marks
    exact fun _ => ⟨rfl, rfl, rfl⟩

theorem setCount_marks (s : Frames) (i n : Nat) :
    Outcome (fun _ => True) (SameMarks s) (setCount s i n) := by
  apply modify_marks
  exact fun _ => ⟨rfl, rfl, rfl⟩

theorem unlink_marks (s : Frames) (i : Nat) :
    Outcome (fun _ => True) (SameMarks s) (unlink s i) := by
  unfold unlink
  apply Outcome.bind (P := fun _ => True) (outcome_of_ok fun _ _ => trivial) fun d _ => ?_
  refine (setNextOf_marks _ _ _).bind fun s₁ h₁ => ?_
  exact (setPrevOf_marks _ _ _).mono fun s₂ h₂ => h₁.trans h₂

theorem pushFront_marks (s : Frames) (i : Nat) :
    Outcome (fun _ => True) (SameMarks s) (pushFront s i) := by
  unfold pushFront
  apply Outcome.bind (P := SameMarks s)
  · apply modify_marks
    exact fun _ => ⟨rfl, rfl, rfl⟩
  · intro s₁ h₁
    refine (setPrevOf_marks _ _ _).bind fun s₂ h₂ => .pure ?_
    have h := h₁.trans h₂
    exact ⟨h.size, h.type, h.flags, h.refCount⟩

theorem shrinkBlock_marks (s : Frames) (i newCount start : Nat) :
    Outcome (fun _ => True) (SameMarks s) (shrinkBlock s i newCount start) := by
  unfold shrinkBlock
  split
  · exact unlink_marks s i
  · refine (setCount_marks _ _ _).bind fun s₁ h₁ => ?_
    exact (setCount_marks _ _ _).mono fun s₂ h₂ => h₁.trans h₂

/-! ## Allocation -/

/-- The marks of a range are written only where there are descriptors. -/
theorem pfnRangeSetType_eq (type : PageType) : ∀ (n : Nat) (s : Frames) (i : Nat),
    Outcome (fun _ => True) (fun t => (n = 0 ∨ i + n ≤ s.count) ∧
      t = s.onRange i n fun d => { d with type }) (pfnRangeSetType type n s i) := by
  intro n
  induction n with
  | zero =>
    intro s i
    exact ⟨.inl rfl, (onRange_zero s i _).symm⟩
  | succ n ih =>
    intro s i
    unfold pfnRangeSetType modify
    split
    · next hlt =>
      refine (ih (s.set i _) (i + 1)).mono fun t ht => ⟨?_, ?_⟩
      · have hbound := ht.1
        rw [set_count] at hbound
        omega
      · rw [ht.2]
        exact onRange_succ s i n fun d => { d with type }
    · trivial

theorem pfnRangeSetType_outOfBounds (type : PageType) : ∀ (n : Nat) (s : Frames) (i : Nat),
    i ≤ s.count → s.count < i + n → pfnRangeSetType type n s i = .error .outOfBounds := by
  intro n
  induction n with
  | zero => intro s i hle hlt; omega
  | succ n ih =>
    intro s i hle hlt
    unfold pfnRangeSetType modify
    split
    · rw [ok_bind]
      apply ih
      · rw [set_count]
        omega
      · rw [set_count]
        omega
    · rfl

theorem assertUnused_eq (s : Frames) : ∀ (n i : Nat),
    Outcome (fun _ => True) (fun _ => ∀ j, i ≤ j → j < i + n → s.Unused j ∧
      (s.desc j).refCount = 0) (assertUnused s n i) := by
  intro n
  induction n with
  | zero => intro i j hj hjn; omega
  | succ n ih =>
    intro i
    unfold assertUnused load
    split
    · next hlt =>
      rw [ok_bind]
      apply Outcome.bind (P := fun _ => (s.desc i).refCount = 0)
        (outcome_of_ok fun _ h => of_decide_eq_true (of_assert_eq_ok h)) fun _ href => ?_
      apply Outcome.bind (P := fun _ => (s.desc i).type = .unused)
        (outcome_of_ok fun _ h => of_decide_eq_true (of_assert_eq_ok h)) fun _ htype => ?_
      refine (ih (i + 1)).mono fun _ h j hj hjn => ?_
      by_cases hji : j = i
      · subst hji
        exact ⟨⟨hlt, htype⟩, href⟩
      · exact h j (by omega) (by omega)
    · trivial

/-- What an allocation writes: `n` unused pages are marked, and the one after them. -/
structure Marked (s s' : Frames) (p n : Nat) : Prop where
  unused : ∀ j, p ≤ j → j < p + n → s.Unused j ∧ (s.desc j).refCount = 0
  bound : p + n < s.count
  size : s'.count = s.count
  type : ∀ j, (s'.desc j).type = if p ≤ j ∧ j ≤ p + n then .used else (s.desc j).type
  flags : ∀ j, (s'.desc j).flags = (s.desc j).flags
  refCount : ∀ j, (s'.desc j).refCount = (s.desc j).refCount

theorem Marked.unused_iff {s s' : Frames} {p n : Nat} (h : Marked s s' p n) (j : Nat) :
    s'.Unused j ↔ s.Unused j ∧ ¬ (p ≤ j ∧ j ≤ p + n) := by
  unfold Frames.Unused
  rw [h.size, h.type]
  by_cases hj : p ≤ j ∧ j ≤ p + n
  · simp [hj]
  · simp [hj]

theorem marked_of_steps {s s₁ s₂ : Frames} {start n i newCount : Nat} {u : Unit}
    (hassert : assertUnused s n start = .ok u)
    (hset : pfnRangeSetType .used (n + 1) s start = .ok s₁)
    (hshrink : shrinkBlock s₁ i newCount start = .ok s₂) : Marked s s₂ start n := by
  obtain ⟨hbound, rfl⟩ := (pfnRangeSetType_eq .used _ s _).of_ok hset
  have hmarks := (shrinkBlock_marks _ _ _ _).of_ok hshrink
  have hdesc := fun j => onRange_desc s start (n + 1) j fun d => { d with type := .used }
  have hin (j : Nat) : start ≤ j ∧ j < start + (n + 1) ↔ start ≤ j ∧ j ≤ start + n := by omega
  refine ⟨(assertUnused_eq s _ _).of_ok hassert, by omega, hmarks.size, fun j => ?_, fun j => ?_,
    fun j => ?_⟩
  · rw [hmarks.type, hdesc, if_congr (hin j) rfl rfl]
    split <;> rfl
  · rw [hmarks.flags, hdesc]
    split <;> rfl
  · rw [hmarks.refCount, hdesc]
    split <;> rfl

theorem sub32_sub32 {e n : Nat} (he : e < 2 ^ 32) (hn : n < 2 ^ 32) :
    sub32 e (sub32 e n) = n := by
  unfold sub32
  omega

/-- On every array, whatever its free list: a request that returns a page has marked it. -/
theorem frameAllocPhysPages_marked {s s' : Frames} {n p : Nat} (hsmall : s.count < 2 ^ 20)
    (hn : 1 ≤ n) (hlt : n < 2 ^ 32) (h : frameAllocPhysPages s n = .ok (s', some p)) :
    Marked s s' p n := by
  unfold frameAllocPhysPages at h
  obtain ⟨found, -, h⟩ := exists_of_bind_eq_ok h
  cases found with
  | none => cases h
  | some i =>
    obtain ⟨d, -, h⟩ := exists_of_bind_eq_ok h
    dsimp only at h
    generalize he : u32 (i + d.count) = e at h
    have hend : e < 2 ^ 32 := he ▸ Nat.mod_lt _ (by decide)
    generalize hstart : sub32 e n = start at h
    have hlen : sub32 e start = n := hstart ▸ sub32_sub32 hend hlt
    rw [hlen] at h
    obtain ⟨u, hassert, h⟩ := exists_of_bind_eq_ok h
    obtain ⟨s₁, hset, h⟩ := exists_of_bind_eq_ok h
    obtain ⟨s₂, hshrink, h⟩ := exists_of_bind_eq_ok h
    obtain ⟨rfl, hp⟩ := Prod.mk.inj (Except.ok.inj h)
    obtain rfl := Option.some.inj hp
    have hlast := ((assertUnused_eq s _ _).of_ok hassert (start + n - 1) (by omega) (by omega)).1.1
    rw [u32_of_lt (by omega)] at hset
    exact marked_of_steps hassert hset hshrink

theorem frameAllocPhysPages_none {s s' : Frames} {n : Nat}
    (h : frameAllocPhysPages s n = .ok (s', none)) : s' = s := by
  unfold frameAllocPhysPages at h
  obtain ⟨found, -, h⟩ := exists_of_bind_eq_ok h
  cases found with
  | none => exact (Prod.mk.inj (Except.ok.inj h)).1.symm
  | some i =>
    obtain ⟨d, -, h⟩ := exists_of_bind_eq_ok h
    obtain ⟨u, -, h⟩ := exists_of_bind_eq_ok h
    obtain ⟨s₁, -, h⟩ := exists_of_bind_eq_ok h
    obtain ⟨s₂, -, h⟩ := exists_of_bind_eq_ok h
    cases h

/-! ## Exactly the pages that are returned -/

section Exactly

variable {s : Frames} {L : List Nat} {n i : Nat}

theorem shrinkBlock_returns (h : Intact s L) {m : Nat} (hmem : i ∈ L)
    (hlt : i + (m + n) < s.count) :
    ∃ s', shrinkBlock (s.onRange (i + m) (n + 1) fun d => { d with type := .used }) i m (i + m) =
      .ok s' := by
  have hchain : Chain (s.onRange (i + m) (n + 1) fun d => { d with type := .used }) L := by
    refine h.chain.congr ?_ ?_ ?_
    · rfl
    · rfl
    · intro j _
      simp only [Frames.next, Frames.prev, onRange_desc]
      split <;> simp
  unfold shrinkBlock
  split
  · obtain ⟨s', hs', -⟩ := unlink_ok hchain hmem
    exact ⟨s', hs'⟩
  · have hi : i < (s.onRange (i + m) (n + 1) fun d => { d with type := .used }).count := by
      show i < s.count
      omega
    have him : i + m < (s.onRange (i + m) (n + 1) fun d => { d with type := .used }).count := by
      show i + m < s.count
      omega
    unfold setCount
    rw [modify_ok _ hi, ok_bind, modify_ok]
    · exact ⟨_, rfl⟩
    · rw [set_count]
      exact him

end Exactly

/-- The pages `p` to `p + n` become used, and no other mark changes. -/
structure Exact (s s' : Frames) (p n : Nat) : Prop where
  size : s'.count = s.count
  changed : ∀ j, p ≤ j → j < p + n → (s.desc j).type ≠ .used ∧ (s'.desc j).type = .used
  type : ∀ j, ¬ (p ≤ j ∧ j < p + n) → (s'.desc j).type = (s.desc j).type
  flags : ∀ j, ¬ (p ≤ j ∧ j < p + n) → (s'.desc j).flags = (s.desc j).flags
  refCount : ∀ j, ¬ (p ≤ j ∧ j < p + n) → (s'.desc j).refCount = (s.desc j).refCount

/-- An allocation of `n` pages touches no descriptor that does not exist, and changes the
types of the pages it returns only. -/
def Frames.AllocExact (s : Frames) (n : Nat) : Prop :=
  frameAllocPhysPages s n ≠ .error .outOfBounds ∧
    ∀ s' p, frameAllocPhysPages s n = .ok (s', some p) → Exact s s' p n

/-- The run that a request is taken from is not the last one of the array, and the page
after it is of type `PAGETYPE_USED` already. -/
def Frames.EndsAtUsed (s : Frames) (n : Nat) : Prop :=
  ∀ i, firstFit s n = some i → i + (s.desc i).count < s.count ∧
    (s.desc (i + (s.desc i).count)).type = .used

/-- One page too many is marked: an allocation is exact if and only if that page exists and
is used already. -/
theorem allocExact_iff {s : Frames} {L : List Nat} {n : Nat} (h : Intact s L)
    (hsmall : s.count < 2 ^ 20) (hn : 1 ≤ n) : s.AllocExact n ↔ s.EndsAtUsed n := by
  cases hfit : firstFit s n with
  | none =>
    have hfull := frameAllocPhysPages_full h hfit
    constructor
    · intro _ i hi
      rw [hfit] at hi
      cases hi
    · intro _
      refine ⟨by rw [hfull]; simp, fun s' p hp => ?_⟩
      rw [hfull] at hp
      cases hp
  | some i =>
    obtain ⟨m, hrun, hcount, hmem⟩ := h.fit hfit
    have heq := h.alloc_eq hsmall hfit hrun hcount
    have hle := stretch_le_count hrun
    constructor
    · intro hexact j hj
      rw [hfit] at hj
      obtain rfl := Option.some.inj hj
      rw [hcount]
      have hlt : i + (m + n) < s.count := by
        -- a run that ends the array: the page after it does not exist
        by_contra hnot
        apply hexact.1
        rw [heq, pfnRangeSetType_outOfBounds .used (n + 1) s (i + m) (by omega) (by omega)]
        rfl
      obtain ⟨s', hs'⟩ := shrinkBlock_returns (n := n) h hmem hlt
      rw [pfnRangeSetType_ok .used (n + 1) s (i + m) (by omega), ok_bind, hs', ok_bind] at heq
      have hmarked := frameAllocPhysPages_marked hsmall hn (by omega) heq
      refine ⟨hlt, ?_⟩
      have htype := hmarked.type (i + (m + n))
      rw [if_pos (by omega), (hexact.2 s' (i + m) heq).type _ (by omega)] at htype
      exact htype
    · intro hends
      have hend := hends i hfit
      rw [hcount] at hend
      obtain ⟨s', hs'⟩ := shrinkBlock_returns (n := n) h hmem hend.1
      rw [pfnRangeSetType_ok .used (n + 1) s (i + m) (by omega), ok_bind, hs', ok_bind] at heq
      refine ⟨by rw [heq]; simp, fun t p hp => ?_⟩
      have hsame : (s', some (i + m)) = (t, some p) := Except.ok.inj (heq.symm.trans hp)
      obtain ⟨rfl, hpage⟩ := Prod.mk.inj hsame
      obtain rfl := Option.some.inj hpage
      have hmarked := frameAllocPhysPages_marked hsmall hn (by omega) heq
      refine ⟨hmarked.size, fun j hj hjn => ⟨?_, ?_⟩, fun j hj => ?_, fun j _ => hmarked.flags j,
        fun j _ => hmarked.refCount j⟩
      · rw [(hmarked.unused j hj hjn).1.2]
        decide
      · rw [hmarked.type, if_pos (by omega)]
      · rw [hmarked.type]
        by_cases hj' : j = i + (m + n)
        · rw [if_pos (by omega), hj', hend.2]
        · rw [if_neg (by omega)]

instance (s : Frames) (n : Nat) : Decidable (s.EndsAtUsed n) :=
  inferInstanceAs (Decidable (∀ i ∈ firstFit s n, i + (s.desc i).count < s.count ∧
    (s.desc (i + (s.desc i).count)).type = .used))

/-- One page of a run of two that ends at a page in use. -/
theorem oneOfTwo_exact : ∃ r L, buildFreeList (framesOf [.reserved, .unused, .unused, .used]) =
      .ok r ∧ Intact r.1 L ∧ r.1.AllocExact 1 := by
  obtain ⟨s, f, L, hs, hL, hsize⟩ := buildFreeList_ok
    (framesOf [.reserved, .unused, .unused, .used]) (framesOf_idle _)
  have hends : ∃ r, buildFreeList (framesOf [.reserved, .unused, .unused, .used]) = .ok r ∧
      r.1.EndsAtUsed 1 := by
    decide +kernel
  obtain ⟨r, hr, hends⟩ := hends
  obtain rfl : (s, f) = r := Except.ok.inj (hs.symm.trans hr)
  refine ⟨(s, f), L, hs, hL, (allocExact_iff hL ?_ (Nat.le_refl 1)).2 hends⟩
  rw [hsize]
  decide

/-- A page before reserved memory: the reserved page becomes a used one. -/
theorem reserved_marked : ∃ r L, buildFreeList (framesOf [.unused, .reserved]) = .ok r ∧
    Intact r.1 L ∧ (r.1.desc 1).type = .reserved ∧
    (∃ t, frameAllocPhysPages r.1 1 = .ok t ∧ t.2 = some 0 ∧ (t.1.desc 1).type = .used) ∧
    ¬ r.1.AllocExact 1 := by
  obtain ⟨s, f, L, hs, hL, -⟩ := buildFreeList_ok (framesOf [.unused, .reserved])
    (framesOf_idle _)
  have hrun : ∃ r, buildFreeList (framesOf [.unused, .reserved]) = .ok r ∧
      (r.1.desc 1).type = .reserved ∧
      ∃ t, frameAllocPhysPages r.1 1 = .ok t ∧ t.2 = some 0 ∧ (t.1.desc 1).type = .used := by
    decide +kernel
  obtain ⟨r, hr, hreserved, ⟨s', p⟩, ht, rfl, hused⟩ := hrun
  obtain rfl : (s, f) = r := Except.ok.inj (hs.symm.trans hr)
  refine ⟨(s, f), L, hs, hL, hreserved, ⟨(s', some 0), ht, rfl, hused⟩, fun hexact => ?_⟩
  have hsame := (hexact.2 s' 0 ht).type 1 (by omega)
  rw [hreserved] at hsame
  rw [hsame] at hused
  cases hused

end X86Kernel.Frame
