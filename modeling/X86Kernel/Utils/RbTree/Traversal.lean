import X86Kernel.Utils.RbTree.Walk
import X86Kernel.Utils.RbTree.Contents

/- Going through a tree in order and backwards.

   What is proved: `rb_for_each` comes to every node once, in increasing order, and
   ends; so does the loop with `rb_max` and `rb_prev`, in the other order; and
   `rb_prev` undoes `rb_next` (`ordered_traversal`).

   `rb_prev` and `rb_max` are `rb_next` and `rb_min` with left and right exchanged.
   They are not proved again: a tree with its links exchanged in memory holds the
   mirrored tree (`Holds.mirror`). -/
namespace X86Kernel.Rb
open X86Kernel.Lib X86Kernel.Lib.ColorTree

variable {δ : Type}

/-! ## Exchanging left and right -/

def RbNode.mirror (n : RbNode) : RbNode := ⟨n.parentColor, n.right, n.left⟩

def RbTree.mirror (t : RbTree δ) : RbTree δ := { t with mem := fun p => (t.mem p).mirror }

theorem ptr_mirror (u : ColorTree Ptr) : ptr u.mirror = ptr u := by
  cases u with
  | nil => rfl
  | node c l a r => rfl

theorem Rep.mirror {m : Ptr → RbNode} : ∀ {u : ColorTree Ptr} {q p : Ptr}, Rep m q p u →
    Rep (fun p => (m p).mirror) q p u.mirror := by
  intro u
  induction u with
  | nil => exact fun h => h
  | node c l a r ihl ihr =>
    intro q p h
    obtain ⟨hp, hne, hal, hpar, hcol, hl, hr⟩ := h
    exact ⟨hp, hne, hal, hpar, hcol, ihr hr, ihl hl⟩

theorem Holds.mirror {t : RbTree δ} {u : ColorTree Ptr} (h : Holds t u) :
    Holds t.mirror u.mirror := by
  refine ⟨?_, ⟨rfl, ?_⟩, ?_⟩
  · rw [ptr_mirror]
    exact h.focus.mirror
  · rw [ptr_mirror]
    exact h.spine.2
  · rw [toList_mirror]
    simpa [frameNodes] using h.nodup

theorem rbGetMaxLoop_mirror (t : RbTree δ) : ∀ (fuel : Nat) (p : Ptr),
    rbGetMaxLoop t fuel p = rbGetMinLoop t.mirror fuel p := by
  intro fuel
  induction fuel with
  | zero => exact fun p => rfl
  | succ fuel ih =>
    intro p
    rw [rbGetMaxLoop, rbGetMinLoop, ih]
    rfl

theorem rbGetMax_mirror (t : RbTree δ) (p : Ptr) : rbGetMax t p = rbGetMin t.mirror p := by
  rw [rbGetMax, rbGetMin, rbGetMaxLoop_mirror]

theorem rbPrevLoop_mirror (t : RbTree δ) : ∀ (fuel : Nat) (p : Ptr),
    rbPrevLoop t fuel p = rbNextLoop t.mirror fuel p := by
  intro fuel
  induction fuel with
  | zero => exact fun p => rfl
  | succ fuel ih =>
    intro p
    rw [rbPrevLoop, rbNextLoop, ih]
    rfl

theorem getChild_mirror (t : RbTree δ) (p : Ptr) :
    getChild t.mirror p .right = getChild t p .left := by
  by_cases h : p = 0#32
  · simp only [getChild, load, h, if_true]
    rfl
  · simp only [getChild_ok h]
    rfl

theorem rbPrev_mirror (t : RbTree δ) (p : Ptr) : rbPrev t p = rbNext t.mirror p := by
  rw [rbPrev, rbNext, rbPrevLoop_mirror, getChild_mirror]
  simp only [rbGetMax_mirror]

theorem rbMax_ok {t : RbTree δ} {u : ColorTree Ptr} (h : Holds t u) :
    rbMax t = .ok (u.toList.reverse.headD 0#32) := by
  have hmin := rbMin_ok h.mirror
  rw [toList_mirror] at hmin
  rw [rbMax, rbGetMax_mirror]
  exact hmin

theorem rbPrev_ok {t : RbTree δ} {u : ColorTree Ptr} {a : Ptr} {xs ys : List Ptr} (h : Holds t u)
    (hlist : u.toList.reverse = xs ++ a :: ys) : rbPrev t a = .ok (ys.headD 0#32) := by
  rw [rbPrev_mirror]
  apply rbNext_ok xs h.mirror
  rw [toList_mirror, hlist]

/-! ## Whole walks -/

theorem visitLoop_ok {next : Ptr → Kernel Ptr} {nodes : List Ptr} (hne : ∀ a ∈ nodes, a ≠ 0#32)
    (hnext : ∀ xs a ys, nodes = xs ++ a :: ys → next a = .ok (ys.headD 0#32)) :
    ∀ (ys xs : List Ptr) (fuel : Nat), nodes = xs ++ ys → ys.length < fuel →
      visitLoop next fuel (ys.headD 0#32) = .ok ys := by
  intro ys
  induction ys with
  | nil =>
    intro xs fuel _ hfuel
    obtain ⟨fuel, rfl⟩ : ∃ k, fuel = k + 1 := ⟨fuel - 1, by omega⟩
    rfl
  | cons a ys ih =>
    intro xs fuel hlist hfuel
    obtain ⟨fuel, rfl⟩ : ∃ k, fuel = k + 1 := ⟨fuel - 1, by omega⟩
    have ha : a ≠ 0#32 := hne a (by simp [hlist])
    have hrest := ih (xs ++ [a]) fuel (by simp [hlist]) (by simpa using hfuel)
    simp only [visitLoop, List.headD_cons, if_neg ha, hnext xs a ys hlist, ok_bind, hrest]
    rfl

theorem rbForEach_ok {t : RbTree δ} {u : ColorTree Ptr} (h : Holds t u) :
    rbForEach t = .ok u.toList := by
  rw [rbForEach, rbMin_ok h, ok_bind]
  exact visitLoop_ok (fun a ha => h.focus.ne_zero ha) (fun xs a ys hl => rbNext_ok xs h hl)
    u.toList [] loopLimit rfl h.length_lt

theorem rbForEachBack_ok {t : RbTree δ} {u : ColorTree Ptr} (h : Holds t u) :
    rbForEachBack t = .ok u.toList.reverse := by
  rw [rbForEachBack, rbMax_ok h, ok_bind]
  refine visitLoop_ok (fun a ha => h.focus.ne_zero (List.mem_reverse.1 ha))
    (fun xs a ys hl => rbPrev_ok h hl) u.toList.reverse [] loopLimit rfl ?_
  rw [List.length_reverse]
  exact h.length_lt

/-- `rb_prev` goes back from where `rb_next` went. -/
theorem rbPrev_rbNext {t : RbTree δ} {u : ColorTree Ptr} (h : Holds t u) {a : Ptr}
    (ha : a ∈ u.toList) :
    ∃ b, rbNext t a = .ok b ∧ (b ≠ 0#32 → rbPrev t b = .ok a) := by
  obtain ⟨xs, ys, hlist⟩ := List.append_of_mem ha
  refine ⟨ys.headD 0#32, rbNext_ok xs h hlist, fun hb => ?_⟩
  cases ys with
  | nil => exact absurd rfl hb
  | cons b ys =>
    have hrev : u.toList.reverse = ys.reverse ++ b :: (a :: xs.reverse) := by
      rw [hlist]
      simp
    exact rbPrev_ok h hrev

/-- Walks over a search tree: all nodes once, in increasing order, and back. -/
theorem ordered_traversal (cmp : Ptr → Ptr → Int) (t : RbTree δ) (u : ColorTree Ptr)
    (h : Holds t u) (hord : Ordered cmp u) :
    ∃ nodes, rbForEach t = .ok nodes ∧ (∀ a, a ∈ nodes ↔ a ∈ u.toList) ∧ nodes.Nodup ∧
      nodes.Pairwise (cmp · · < 0) ∧ rbForEachBack t = .ok nodes.reverse ∧
      ∀ a ∈ nodes, ∃ b, rbNext t a = .ok b ∧ (b ≠ 0#32 → rbPrev t b = .ok a) := by
  have hnodup : u.toList.Nodup := by simpa [frameNodes] using h.nodup
  exact ⟨u.toList, rbForEach_ok h, fun _ => Iff.rfl, hnodup, hord, rbForEachBack_ok h,
    fun a ha => rbPrev_rbNext h ha⟩

theorem threeNodes_traversal :
    Holds threeNodes threeNodesTree ∧ Ordered addressOrder.cmp threeNodesTree ∧
    ∃ nodes, rbForEach threeNodes = .ok nodes ∧ (∀ a, a ∈ nodes ↔ a ∈ threeNodesTree.toList) ∧
      nodes.Nodup ∧ nodes.Pairwise (addressOrder.cmp · · < 0) ∧
      rbForEachBack threeNodes = .ok nodes.reverse ∧
      ∀ a ∈ nodes, ∃ b, rbNext threeNodes a = .ok b ∧
        (b ≠ 0#32 → rbPrev threeNodes b = .ok a) :=
  ⟨threeNodes_holds, threeNodes_ordered,
    ordered_traversal addressOrder.cmp threeNodes threeNodesTree threeNodes_holds
      threeNodes_ordered⟩

end X86Kernel.Rb
