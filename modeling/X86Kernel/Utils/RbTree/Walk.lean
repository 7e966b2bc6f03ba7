import X86Kernel.Utils.RbTree.Layout

/- Walking over a red-black tree in order.

   What is proved: `rb_min` returns the first node of the tree and `rb_next` the
   node after the given one, or NULL at the end, in the order of `toList`
   (`rbMin_ok`, `rbNext_ok`). The colours do not matter here. -/
namespace X86Kernel.Rb
open X86Kernel.Lib X86Kernel.Lib.ColorTree

variable {δ : Type}

theorem rbGetMinLoop_ok {t : RbTree δ} : ∀ (l : ColorTree Ptr) (fuel : Nat)
    {fs gs : List (Frame Ptr)}
    {c : Color} {a : Ptr} {r : ColorTree Ptr}, At t gs (.node c l a r) → l.toList.length < fuel →
    rbGetMinLoop t fuel a = .ok (leftmost c a r fs l).2.1 := by
  intro l
  induction l with
  | nil =>
    intro fuel fs gs c a r h hfuel
    obtain ⟨fuel, rfl⟩ : ∃ k, fuel = k + 1 := ⟨fuel - 1, by omega⟩
    have hl : (t.mem a).left = 0#32 := h.focus.2.2.2.2.2.1
    simp [rbGetMinLoop, hl, leftmost]
  | node c' l' a' r' ih _ =>
    intro fuel fs gs c a r h hfuel
    obtain ⟨fuel, rfl⟩ : ∃ k, fuel = k + 1 := ⟨fuel - 1, by omega⟩
    have hdown : At t (⟨.left, c, a, r⟩ :: gs) (.node c' l' a' r') :=
      At.down (d := .left) h
    have hl : (t.mem a).left = a' := h.focus.2.2.2.2.2.1.1
    have ha' : a' ≠ 0#32 := At.ne_zero (d := .left) hdown
    simp only [toList, List.length_append, List.length_cons] at hfuel
    rw [rbGetMinLoop, hl, if_neg ha', leftmost]
    exact ih fuel hdown (by omega)

theorem head_leftmost (l : ColorTree Ptr) (c : Color) (a : Ptr) (r : ColorTree Ptr)
    (rest : List Ptr) :
    ((ColorTree.node c l a r).toList ++ rest).headD 0#32 = (leftmost c a r [] l).2.1 := by
  have hplug := congrArg toList (plug_leftmost l c a r [])
  have hbefore := before_leftmost l c a r []
  simp only [plug, toList_plug, toList, before, hbefore, List.nil_append] at hplug
  simp only [toList, ← hplug, List.cons_append, List.headD_cons]

theorem rbGetMin_ok {t : RbTree δ} {fs : List (Frame Ptr)} {u : ColorTree Ptr} (h : At t fs u)
    (hne : ptr u ≠ 0#32) (rest : List Ptr) :
    rbGetMin t (ptr u) = .ok ((u.toList ++ rest).headD 0#32) := by
  cases u with
  | nil => exact absurd rfl hne
  | node c l a r =>
    have hlen : l.toList.length < loopLimit := by
      have hle := length_le_toList fs (.node c l a r)
      have hlt := h.holds.length_lt
      simp only [toList, List.length_append, List.length_cons] at hle
      omega
    rw [head_leftmost, rbGetMin, if_neg hne]
    exact rbGetMinLoop_ok l loopLimit h hlen

theorem rbMin_ok {t : RbTree δ} {u : ColorTree Ptr} (h : Holds t u) :
    rbMin t = .ok (u.toList.headD 0#32) := by
  have hroot : t.root = ptr u := h.spine.2
  rw [rbMin, hroot]
  by_cases hne : ptr u = 0#32
  · cases u with
    | nil => simp [rbGetMin, ptr, toList]
    | node c l a r => exact absurd hne (At.ne_zero (d := .left) h)
  · simpa using rbGetMin_ok h hne []

theorem rbNextLoop_ok {t : RbTree δ} : ∀ (fs : List (Frame Ptr)) (fuel : Nat) {d : Side} {c : Color}
    {u v : ColorTree Ptr} {a : Ptr}, At t fs (branch d c u a v) → fs.length < fuel →
    rbNextLoop t fuel a = .ok ((after fs).headD 0#32) := by
  intro fs
  induction fs with
  | nil =>
    intro fuel d c u v a h hfuel
    obtain ⟨fuel, rfl⟩ : ∃ k, fuel = k + 1 := ⟨fuel - 1, by omega⟩
    have hpar : (t.mem a).parent = 0#32 := (rep_branch.1 h.focus).2.2.2.1
    simp [rbNextLoop, hpar, after]
  | cons f fs ih =>
    intro fuel d c u v a h hfuel
    obtain ⟨fuel, rfl⟩ : ∃ k, fuel = k + 1 := ⟨fuel - 1, by omega⟩
    obtain ⟨df, cf, b, w⟩ := f
    have hpar : (t.mem a).parent = b := (rep_branch.1 h.focus).2.2.2.1
    have hb : b ≠ 0#32 := h.up.ne_zero
    have hside : childSide t b a = .ok df := by
      have hne : ptr (branch d c u a v) ≠ 0#32 := by simpa using h.ne_zero
      simpa using At.childSide h (.inl hne)
    rw [childSide, load_ok hb, ok_bind] at hside
    simp only [rbNextLoop, hpar, if_neg hb]
    cases df with
    | left =>
      have hleft : (t.mem b).left = a := by
        by_contra hne
        simp [hne] at hside
      simp [hleft, after]
    | right =>
      have hleft : (t.mem b).left ≠ a := by
        intro e
        simp [e] at hside
      rw [if_neg hleft]
      simpa [after] using ih fuel h.up (by rw [List.length_cons] at hfuel; omega)

theorem rbNext_ok {t : RbTree δ} {u : ColorTree Ptr} {a : Ptr} (xs : List Ptr) {ys : List Ptr}
    (h : Holds t u) (hlist : u.toList = xs ++ a :: ys) : rbNext t a = .ok (ys.headD 0#32) := by
  obtain ⟨c, l, r, fs, rfl⟩ := exists_focus (show a ∈ u.toList by simp [hlist])
  have hat : At t fs (branch .right c r a l) := Holds.at h
  -- what is after `a` is its right subtree and what is after the frames
  have hys : ys = r.toList ++ after fs := by
    have hn : (xs ++ a :: ys).Nodup := by
      rw [← hlist]
      simpa [frameNodes] using h.nodup
    have heq : (before fs ++ l.toList) ++ a :: (r.toList ++ after fs) = xs ++ a :: ys := by
      rw [← hlist, toList_plug]
      simp [toList]
    rw [← heq, List.nodup_append] at hn
    have hbefore : a ∉ before fs ++ l.toList := fun hmem => hn.2.2 a hmem a (by simp) rfl
    have hafter : a ∉ r.toList ++ after fs := (List.nodup_cons.1 hn.2.1).1
    exact ((List.append_cons_inj_of_notMem hbefore hafter).1 heq).2.2.symm
  have hright : getChild t a .right = .ok (ptr r) := hat.near
  rw [hys, rbNext, hright, ok_bind]
  split
  · rename_i hne
    exact rbGetMin_ok hat.down hne (after fs)
  · rename_i hnil
    have hr : r = .nil := by
      cases r with
      | nil => rfl
      | node cr lr ar rr => exact absurd (At.ne_zero (d := .left) hat.down) hnil
    have hlen : fs.length < loopLimit := by
      have hle := length_le_toList fs (.node c l a r)
      have hlt := h.length_lt
      omega
    rw [hr, toList, List.nil_append]
    exact rbNextLoop_ok fs loopLimit hat hlen

end X86Kernel.Rb
