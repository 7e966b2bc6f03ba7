import X86Kernel.Utils.RbTree.Contents

/- Searching in a tree with several nodes equal to the key.

   What is proved: for every key against which the nodes are first smaller, then
   equal, then greater (`Monotone`), as an interval is against disjoint intervals,
   `rb_search` finds an equal node if there is one, `rb_lower_bound` finds the first
   node that is not smaller than the key and `rb_upper_bound` the last that is not
   greater (`searches_agree`). The tree has any shape, and its nodes need not be
   ordered in any other way. -/
namespace X86Kernel.Rb
open X86Kernel.Lib X86Kernel.Lib.ColorTree

variable {δ : Type}

/-- The sign of a comparison turns with its arguments. -/
def Antisymmetric (cmp : Ptr → Ptr → Int) : Prop := ∀ a b, cmp a b < 0 ↔ 0 < cmp b a

theorem Antisymmetric.le_iff {cmp : Ptr → Ptr → Int} (h : Antisymmetric cmp) (a b : Ptr) :
    cmp a b ≤ 0 ↔ 0 ≤ cmp b a := by
  have := h b a
  omega

/-- The first node that is not smaller than the key, or NULL. -/
def firstNotLess (cmp : Ptr → Ptr → Int) (key : Ptr) (nodes : List Ptr) : Option Ptr :=
  nodes.find? fun a => decide (0 ≤ cmp a key)

/-- The last node that is not greater than the key, or NULL. -/
def lastNotGreater (cmp : Ptr → Ptr → Int) (key : Ptr) (nodes : List Ptr) : Option Ptr :=
  nodes.reverse.find? fun a => decide (cmp a key ≤ 0)

theorem rbLowerBoundLoop_ok {cmp : Ptr → Ptr → Int} (hanti : Antisymmetric cmp) {t : RbTree δ}
    {key : Ptr} : ∀ (u : ColorTree Ptr) (fuel : Nat) {fs : List (Frame Ptr)} (result : Ptr),
      At t fs u → u.toList.length < fuel → Monotone cmp key u.toList →
      rbLowerBoundLoop cmp t key fuel (ptr u) result =
        .ok ((firstNotLess cmp key u.toList).getD result) := by
  intro u
  induction u with
  | nil =>
    intro fuel fs result _ hfuel _
    obtain ⟨fuel, rfl⟩ : ∃ k, fuel = k + 1 := ⟨fuel - 1, by omega⟩
    simp [rbLowerBoundLoop, ptr, firstNotLess, toList]
  | node c l a r ihl ihr =>
    intro fuel fs result h hfuel hmono
    obtain ⟨fuel, rfl⟩ : ∃ k, fuel = k + 1 := ⟨fuel - 1, by omega⟩
    have hb : At t fs (branch .left c l a r) := h
    have hb' : At t fs (branch .right c r a l) := h
    have hptr : ptr (.node c l a r) = a := rfl
    have hleft : (t.mem a).left = ptr l := (rep_branch.1 hb.focus).2.2.2.2.2.1.ptr_eq
    have hright : (t.mem a).right = ptr r := (rep_branch.1 hb'.focus).2.2.2.2.2.1.ptr_eq
    simp only [toList, List.length_append, List.length_cons] at hfuel
    simp only [toList, Monotone, List.pairwise_append, List.pairwise_cons] at hmono
    obtain ⟨hml, ⟨-, hmr⟩, hcross⟩ := hmono
    simp only [rbLowerBoundLoop, hptr, hb.ne_zero, if_false, toList, firstNotLess,
      List.find?_append, hleft, hright]
    by_cases ha : 0 ≤ cmp a key
    · -- an equal or greater node: it is the answer unless there is one before it
      rw [if_pos ((hanti.le_iff key a).2 ha), ihl fuel a hb.down (by omega) hml]
      simp only [firstNotLess, List.find?_cons, ha, decide_true]
      cases l.toList.find? fun a => decide (0 ≤ cmp a key) <;> rfl
    · -- a smaller node, and all before it are smaller
      have hsmall : l.toList.find? (fun a => decide (0 ≤ cmp a key)) = none := by
        rw [List.find?_eq_none]
        intro b hb
        have := (hcross b hb a (by simp)).1 (by omega)
        simp only [decide_eq_true_eq]
        omega
      rw [if_neg (fun hle => ha ((hanti.le_iff key a).1 hle)),
        ihr fuel result hb'.down (by omega) hmr, hsmall]
      simp [firstNotLess, ha]

theorem rbUpperBoundLoop_ok {cmp : Ptr → Ptr → Int} (hanti : Antisymmetric cmp) {t : RbTree δ}
    {key : Ptr} : ∀ (u : ColorTree Ptr) (fuel : Nat) {fs : List (Frame Ptr)} (result : Ptr),
      At t fs u → u.toList.length < fuel → Monotone cmp key u.toList →
      rbUpperBoundLoop cmp t key fuel (ptr u) result =
        .ok ((lastNotGreater cmp key u.toList).getD result) := by
  intro u
  induction u with
  | nil =>
    intro fuel fs result _ hfuel _
    obtain ⟨fuel, rfl⟩ : ∃ k, fuel = k + 1 := ⟨fuel - 1, by omega⟩
    simp [rbUpperBoundLoop, ptr, lastNotGreater, toList]
  | node c l a r ihl ihr =>
    intro fuel fs result h hfuel hmono
    obtain ⟨fuel, rfl⟩ : ∃ k, fuel = k + 1 := ⟨fuel - 1, by omega⟩
    have hb : At t fs (branch .left c l a r) := h
    have hb' : At t fs (branch .right c r a l) := h
    have hptr : ptr (.node c l a r) = a := rfl
    have hleft : (t.mem a).left = ptr l := (rep_branch.1 hb.focus).2.2.2.2.2.1.ptr_eq
    have hright : (t.mem a).right = ptr r := (rep_branch.1 hb'.focus).2.2.2.2.2.1.ptr_eq
    simp only [toList, List.length_append, List.length_cons] at hfuel
    simp only [toList, Monotone, List.pairwise_append, List.pairwise_cons] at hmono
    obtain ⟨hml, ⟨hafter, hmr⟩, -⟩ := hmono
    simp only [rbUpperBoundLoop, hptr, hb.ne_zero, if_false, toList, lastNotGreater,
      List.reverse_append, List.reverse_cons, List.append_assoc, List.find?_append, hleft, hright]
    by_cases ha : cmp a key ≤ 0
    · -- an equal or smaller node: it is the answer unless there is one after it
      rw [if_pos ((hanti.le_iff a key).1 ha), ihr fuel a hb'.down (by omega) hmr]
      simp only [lastNotGreater, List.find?_singleton, ha, decide_true, if_true]
      cases r.toList.reverse.find? fun a => decide (cmp a key ≤ 0) <;> rfl
    · -- a greater node, and all after it are greater
      have hlarge : r.toList.reverse.find? (fun a => decide (cmp a key ≤ 0)) = none := by
        rw [List.find?_eq_none]
        intro b hb
        have := (hafter b (List.mem_reverse.1 hb)).2 (by omega)
        simp only [decide_eq_true_eq]
        omega
      rw [if_neg (fun hge => ha ((hanti.le_iff a key).2 hge)),
        ihl fuel result hb.down (by omega) hml, hlarge]
      simp [lastNotGreater, ha]

/-- The three searches in a tree of any shape. -/
theorem searches_agree (cmp : Ptr → Ptr → Int) (t : RbTree δ) (u : ColorTree Ptr) (key : Ptr)
    (h : Holds t u) (hanti : Antisymmetric cmp) (hmono : Monotone cmp key u.toList) :
    (∃ p, rbSearch cmp t key = .ok p ∧ (p ≠ 0#32 ↔ ∃ a ∈ u.toList, cmp a key = 0) ∧
      (p ≠ 0#32 → p ∈ u.toList ∧ cmp p key = 0)) ∧
    rbLowerBound cmp t key = .ok ((firstNotLess cmp key u.toList).getD 0#32) ∧
    rbUpperBound cmp t key = .ok ((lastNotGreater cmp key u.toList).getD 0#32) := by
  have hroot : t.root = ptr u := h.spine.2
  refine ⟨?_, ?_, ?_⟩
  · rcases rbSearch_monotone h hmono with ⟨a, ha, heq, hne, hsearch⟩ | ⟨hnone, hsearch⟩
    · exact ⟨a, hsearch, iff_of_true hne ⟨a, ha, heq⟩, fun _ => ⟨ha, heq⟩⟩
    · refine ⟨0#32, hsearch, iff_of_false (fun h => h rfl) ?_, fun h => absurd rfl h⟩
      intro hex
      obtain ⟨a, ha, heq⟩ := hex
      exact hnone a ha heq
  · rw [rbLowerBound, hroot]
    exact rbLowerBoundLoop_ok hanti u loopLimit 0#32 h h.length_lt hmono
  · rw [rbUpperBound, hroot]
    exact rbUpperBoundLoop_ok hanti u loopLimit 0#32 h h.length_lt hmono

/-- The interval of a node, four bytes from its address on; the key 100 is a larger
one. -/
def intervalOf (p : Ptr) : Nat × Nat := if p = 100#32 then (6, 14) else (p.toNat, p.toNat + 4)

/-- Intervals one after the other; overlapping ones are equal. -/
def overlapOrder (a b : Ptr) : Int :=
  if (intervalOf a).2 ≤ (intervalOf b).1 then -1
  else if (intervalOf b).2 ≤ (intervalOf a).1 then 1
  else 0

theorem intervalOf_lt (p : Ptr) : (intervalOf p).1 < (intervalOf p).2 := by
  rw [intervalOf]
  split <;> simp

/-- The key overlaps the intervals of 4, 8 and 12. -/
theorem threeNodes_searches :
    Holds threeNodes threeNodesTree ∧ Ordered overlapOrder threeNodesTree ∧
    Antisymmetric overlapOrder ∧ Monotone overlapOrder 100#32 threeNodesTree.toList ∧
    rbLowerBound overlapOrder threeNodes 100#32 = .ok 4#32 ∧
    rbUpperBound overlapOrder threeNodes 100#32 = .ok 12#32 := by
  have hanti : Antisymmetric overlapOrder := by
    intro a b
    have ha := intervalOf_lt a
    have hb := intervalOf_lt b
    simp only [overlapOrder]
    split <;> split <;> omega
  have hord : Ordered overlapOrder threeNodesTree := by
    unfold Ordered
    decide
  have hmono : Monotone overlapOrder 100#32 threeNodesTree.toList := by
    unfold Monotone
    decide
  obtain ⟨-, hlower, hupper⟩ := searches_agree overlapOrder threeNodes threeNodesTree 100#32
    threeNodes_holds hanti hmono
  exact ⟨threeNodes_holds, hord, hanti, hmono, hlower, hupper⟩

end X86Kernel.Rb
