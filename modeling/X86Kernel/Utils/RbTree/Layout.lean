import Mathlib.Data.Fintype.Card
import X86Kernel.Utils.RbTree

/- How a red-black tree lies in memory.

   `Rep` says that a pointer leads to the nodes of a tree, each with its colour
   and the address of its parent; `Spine` says the same for the frames from a
   focus up to the root, and `At` for both together, with all addresses
   different. One focus can be moved to another without touching the memory
   (`At.up`, `At.down`), so every operation of the source is described at the
   node it works on.

   What is proved here, for each of the small steps the operations are made of:
   setting a colour, a rotation, a transplant, hanging a subtree under a node,
   and the walks along the tree, which end within the bound on loops because
   the nodes of a tree have different nonzero addresses. -/
namespace X86Kernel.Rb
open X86Kernel.Lib X86Kernel.Lib.ColorTree

variable {δ : Type}

/-! ## The parent and colour word -/

/-- Node addresses have their two lowest bits clear. -/
def Aligned (p : Ptr) : Prop := p &&& 3#32 = 0#32

instance (p : Ptr) : Decidable (Aligned p) := inferInstanceAs (Decidable (_ = _))

def RbNode.color (n : RbNode) : Color := if n.red then .red else .black

theorem getLsbD_three (i : Nat) : (3#32).getLsbD i = decide (i < 2) := by
  rcases i with _ | _ | i
  · rfl
  · rfl
  · have hlt : 3 < 2 ^ (i + 2) := by
      calc 3 < 2 ^ 2 := by decide
        _ ≤ 2 ^ (i + 2) := Nat.pow_le_pow_right (by decide) (by omega)
    simp [BitVec.getLsbD_ofNat, Nat.testBit_lt_two_pow hlt]

theorem getLsbD_parent (n : RbNode) (i : Nat) :
    n.parent.getLsbD i = (n.parentColor.getLsbD i && !decide (i < 2)) := by
  rw [RbNode.parent, BitVec.getLsbD_and, BitVec.getLsbD_not, getLsbD_three]
  cases h : n.parentColor.getLsbD i with
  | false => rfl
  | true => simp [BitVec.lt_of_getLsbD h]

theorem red_eq_getLsbD (n : RbNode) : n.red = n.parentColor.getLsbD 0 := by
  rw [RbNode.red, BitVec.and_one_eq_setWidth_ofBool_getLsbD]
  cases n.parentColor.getLsbD 0 <;> rfl

theorem Aligned.getLsbD {p : Ptr} (h : Aligned p) {i : Nat} (hi : i < 2) : p.getLsbD i = false := by
  have hbit := congrArg (fun w : Ptr => w.getLsbD i) h
  simpa [getLsbD_three, hi] using hbit

theorem parent_setParent (n : RbNode) {p : Ptr} (h : Aligned p) : (n.setParent p).parent = p := by
  apply BitVec.eq_of_getLsbD_eq
  intro i _
  rw [getLsbD_parent]
  by_cases hi : i < 2
  · simp [hi, h.getLsbD hi]
  · simp [RbNode.setParent, getLsbD_three, hi]

theorem color_setParent (n : RbNode) {p : Ptr} (h : Aligned p) : (n.setParent p).color = n.color :=
    by
  simp only [RbNode.color, red_eq_getLsbD, RbNode.setParent, BitVec.getLsbD_or, BitVec.getLsbD_and,
    getLsbD_three, h.getLsbD (by decide : 0 < 2)]
  simp

theorem parent_congr {n n' : RbNode}
    (h : ∀ i, 2 ≤ i → n.parentColor.getLsbD i = n'.parentColor.getLsbD i) :
    n.parent = n'.parent := by
  apply BitVec.eq_of_getLsbD_eq
  intro i _
  rw [getLsbD_parent, getLsbD_parent]
  by_cases hi : i < 2
  · simp [hi]
  · rw [h i (by omega)]

@[simp] theorem parent_setRed (n : RbNode) : n.setRed.parent = n.parent := by
  apply parent_congr
  intro i hi
  simp [RbNode.setRed, show i ≠ 0 by omega]

@[simp] theorem parent_setBlack (n : RbNode) : n.setBlack.parent = n.parent := by
  apply parent_congr
  intro i hi
  rw [RbNode.setBlack, BitVec.getLsbD_and, BitVec.getLsbD_not, BitVec.getLsbD_one]
  cases h : n.parentColor.getLsbD i with
  | false => rfl
  | true => simp [BitVec.lt_of_getLsbD h, show i ≠ 0 by omega]

@[simp] theorem parent_setColorToOther (n o : RbNode) : (n.setColorToOther o).parent = n.parent :=
by
  apply parent_congr
  intro i hi
  simp [RbNode.setColorToOther, getLsbD_parent, show i ≠ 0 by omega, show ¬ i < 2 by omega]

@[simp] theorem color_setRed (n : RbNode) : n.setRed.color = .red := by
  simp [RbNode.color, red_eq_getLsbD, RbNode.setRed]

@[simp] theorem color_setBlack (n : RbNode) : n.setBlack.color = .black := by
  simp [RbNode.color, red_eq_getLsbD, RbNode.setBlack]

@[simp] theorem color_setColorToOther (n o : RbNode) : (n.setColorToOther o).color = o.color := by
  simp only [RbNode.color, red_eq_getLsbD, RbNode.setColorToOther, BitVec.getLsbD_or,
    BitVec.getLsbD_and, getLsbD_parent]
  simp

@[simp] theorem child_setParent (n : RbNode) (p : Ptr) (d : Side) :
    (n.setParent p).child d = n.child d := by cases d <;> rfl

@[simp] theorem child_setRed (n : RbNode) (d : Side) : n.setRed.child d = n.child d := by
  cases d <;> rfl

@[simp] theorem child_setBlack (n : RbNode) (d : Side) : n.setBlack.child d = n.child d := by
  cases d <;> rfl

@[simp] theorem child_setColorToOther (n o : RbNode) (d : Side) :
    (n.setColorToOther o).child d = n.child d := by cases d <;> rfl

@[simp] theorem parent_setChild (n : RbNode) (d : Side) (p : Ptr) :
    (n.setChild d p).parent = n.parent := by cases d <;> rfl

@[simp] theorem color_setChild (n : RbNode) (d : Side) (p : Ptr) :
    (n.setChild d p).color = n.color := by cases d <;> rfl

@[simp] theorem child_setChild (n : RbNode) (d : Side) (p : Ptr) : (n.setChild d p).child d = p :=
by
  cases d <;> rfl

@[simp] theorem child_setChild_flip (n : RbNode) (d : Side) (p : Ptr) :
    (n.setChild d p).child d.flip = n.child d.flip := by cases d <;> rfl

@[simp] theorem child_flip_setChild (n : RbNode) (d : Side) (p : Ptr) :
    (n.setChild d.flip p).child d = n.child d := by cases d <;> rfl

/-! ## Trees in memory -/

/-- A pointer `p` to the nodes of a tree whose parent is `q`. -/
def Rep (m : Ptr → RbNode) (q p : Ptr) : ColorTree Ptr → Prop
  | .nil => p = 0#32
  | .node c l a r => p = a ∧ a ≠ 0#32 ∧ Aligned a ∧ (m a).parent = q ∧ (m a).color = c ∧
    Rep m a (m a).left l ∧ Rep m a (m a).right r

/-- The frames above a subtree at `p` with parent `q`, up to the root pointer. -/
def Spine (m : Ptr → RbNode) (root q p : Ptr) : List (Frame Ptr) → Prop
  | [] => q = 0#32 ∧ root = p
  | f :: fs => q = f.node ∧ f.node ≠ 0#32 ∧ Aligned f.node ∧ (m f.node).child f.side = p ∧
    (m f.node).color = f.color ∧ Rep m f.node ((m f.node).child f.side.flip) f.sibling ∧
    Spine m root (m f.node).parent f.node fs

/-- The address of the root of a tree. -/
def ptr : ColorTree Ptr → Ptr
  | .nil => 0#32
  | .node _ _ a _ => a

/-- The address of the parent of a focus. -/
def top : List (Frame Ptr) → Ptr
  | [] => 0#32
  | f :: _ => f.node

/-- The tree in memory, seen from its subtree `u`. -/
structure At (t : RbTree δ) (fs : List (Frame Ptr)) (u : ColorTree Ptr) : Prop where
  focus : Rep t.mem (top fs) (ptr u) u
  spine : Spine t.mem t.root (top fs) (ptr u) fs
  nodup : (u.toList ++ frameNodes fs).Nodup

/-- The memory holds the tree `u`. -/
def Holds (t : RbTree δ) (u : ColorTree Ptr) : Prop := At t [] u

/-- The subtree on side `d`. -/
def near (d : Side) (l r : ColorTree Ptr) : ColorTree Ptr :=
  match d with
  | .left => l
  | .right => r

@[simp] theorem ptr_branch (d : Side) (c : Color) (u v : ColorTree Ptr) (a : Ptr) :
    ptr (branch d c u a v) = a := by cases d <;> rfl

@[simp] theorem ptr_blacken (u : ColorTree Ptr) : ptr u.blacken = ptr u := by cases u <;> rfl

theorem Rep.ptr_eq {m : Ptr → RbNode} {q p : Ptr} {u : ColorTree Ptr} (h : Rep m q p u) : p =
    ptr u := by
  cases u with
  | nil => exact h
  | node c l a r => exact h.1

theorem Spine.top_eq {m : Ptr → RbNode} {root q p : Ptr} {fs : List (Frame Ptr)}
    (h : Spine m root q p fs) : q = top fs := by
  cases fs with
  | nil => exact h.1
  | cons f fs => exact h.1

theorem rep_branch {m : Ptr → RbNode} {q p a : Ptr} {d : Side} {c : Color} {u v : ColorTree Ptr} :
    Rep m q p (branch d c u a v) ↔ p = a ∧ a ≠ 0#32 ∧ Aligned a ∧ (m a).parent = q ∧
      (m a).color = c ∧ Rep m a ((m a).child d) u ∧ Rep m a ((m a).child d.flip) v := by
  cases d with
  | left => exact Iff.rfl
  | right =>
    simp only [branch, Rep, RbNode.child, Side.flip]
    constructor
    · rintro ⟨h₁, h₂, h₃, h₄, h₅, h₆, h₇⟩
      exact ⟨h₁, h₂, h₃, h₄, h₅, h₇, h₆⟩
    · rintro ⟨h₁, h₂, h₃, h₄, h₅, h₆, h₇⟩
      exact ⟨h₁, h₂, h₃, h₄, h₅, h₇, h₆⟩

theorem mem_toList_branch {d : Side} {c : Color} {u v : ColorTree Ptr} {a x : Ptr} :
    x ∈ (branch d c u a v).toList ↔ x = a ∨ x ∈ u.toList ∨ x ∈ v.toList := by
  cases d <;> simp only [branch, toList, List.mem_append, List.mem_cons] <;> tauto

theorem nodup_branch {d : Side} {c : Color} {u v : ColorTree Ptr} {a : Ptr} {l : List Ptr} :
    ((branch d c u a v).toList ++ l).Nodup ↔ (u.toList ++ (a :: (v.toList ++ l))).Nodup := by
  refine List.Perm.nodup_iff ?_
  cases d with
  | left => simp [branch, toList]
  | right =>
    have h₁ : (v.toList ++ a :: u.toList ++ l).Perm (a :: (v.toList ++ u.toList) ++ l) :=
      List.Perm.append_right _ List.perm_middle
    refine h₁.trans (List.Perm.trans ?_ List.perm_middle.symm)
    refine List.Perm.cons _ ?_
    rw [← List.append_assoc]
    exact List.Perm.append_right _ List.perm_append_comm

theorem Rep.congr {m m' : Ptr → RbNode} : ∀ {u : ColorTree Ptr} {q p : Ptr},
    (∀ a ∈ u.toList, m' a = m a) → Rep m q p u → Rep m' q p u := by
  intro u
  induction u with
  | nil => intro q p _ h; exact h
  | node c l a r ihl ihr =>
    intro q p hm h
    obtain ⟨h₁, h₂, h₃, h₄, h₅, hl, hr⟩ := h
    have ha : m' a = m a := hm a (by simp [toList])
    refine ⟨h₁, h₂, h₃, ha ▸ h₄, ha ▸ h₅, ?_, ?_⟩
    · rw [ha]
      exact ihl (fun b hb => hm b (by simp [toList, hb])) hl
    · rw [ha]
      exact ihr (fun b hb => hm b (by simp [toList, hb])) hr

theorem Spine.congr {m m' : Ptr → RbNode} {root : Ptr} : ∀ {fs : List (Frame Ptr)} {q p : Ptr},
    (∀ a ∈ frameNodes fs, m' a = m a) → Spine m root q p fs → Spine m' root q p fs := by
  intro fs
  induction fs with
  | nil => intro q p _ h; exact h
  | cons f fs ih =>
    intro q p hm h
    obtain ⟨h₁, h₂, h₃, h₄, h₅, h₆, h₇⟩ := h
    have ha : m' f.node = m f.node := hm _ (by simp [frameNodes])
    refine ⟨h₁, h₂, h₃, ha ▸ h₄, ha ▸ h₅, ?_, ?_⟩
    · rw [ha]
      exact h₆.congr fun b hb => hm b (by simp [frameNodes, hb])
    · rw [ha]
      exact ih (fun b hb => hm b (by simp [frameNodes, hb])) h₇

/-- A tree whose root alone is given another parent. -/
theorem Rep.reparent {m m' : Ptr → RbNode} {u : ColorTree Ptr} {q q' p : Ptr} (h : Rep m q p u)
    (hnodup : u.toList.Nodup) (hq : Aligned q')
    (hroot : p ≠ 0#32 → m' p = (m p).setParent q') (hrest : ∀ a ∈ u.toList, a ≠ p → m' a = m a) :
    Rep m' q' p u := by
  cases u with
  | nil => exact h
  | node c l a r =>
    obtain ⟨rfl, hne, hal, hpar, hcol, hl, hr⟩ := h
    have hp := hroot hne
    simp only [toList, List.nodup_append, List.nodup_cons, List.mem_cons] at hnodup
    refine ⟨rfl, hne, hal, ?_, ?_, ?_, ?_⟩
    · rw [hp, parent_setParent _ hq]
    · rw [hp, color_setParent _ hq, hcol]
    · rw [hp]
      refine hl.congr fun b hb => hrest b (by simp [toList, hb]) ?_
      exact hnodup.2.2 b hb p (.inl rfl)
    · rw [hp]
      refine hr.congr fun b hb => hrest b (by simp [toList, hb]) ?_
      rintro rfl
      exact hnodup.2.1.1 hb

theorem ptr_mem (u : ColorTree Ptr) : ptr u = 0#32 ∨ ptr u ∈ u.toList := by
  cases u with
  | nil => exact .inl rfl
  | node c l a r => exact .inr (by simp [ptr, toList])

theorem Rep.ne_zero {m : Ptr → RbNode} : ∀ {u : ColorTree Ptr} {q p a : Ptr}, Rep m q p u →
    a ∈ u.toList → a ≠ 0#32 := by
  intro u
  induction u with
  | nil => intro q p a _ ha; simp [toList] at ha
  | node c l b r ihl ihr =>
    intro q p a h ha
    obtain ⟨-, hb, -, -, -, hl, hr⟩ := h
    simp only [toList, List.mem_append, List.mem_cons] at ha
    rcases ha with ha | rfl | ha
    · exact ihl hl ha
    · exact hb
    · exact ihr hr ha

theorem Spine.root_mem {m : Ptr → RbNode} {root : Ptr} : ∀ {fs : List (Frame Ptr)} {f : Frame Ptr}
    {q p : Ptr}, Spine m root q p (f :: fs) → root ∈ frameNodes (f :: fs) := by
  intro fs
  induction fs with
  | nil => intro f q p h; simp [frameNodes, h.2.2.2.2.2.2.2]
  | cons g fs ih =>
    intro f q p h
    rw [frameNodes]
    exact List.mem_cons_of_mem _ (List.mem_append_right _ (ih h.2.2.2.2.2.2))

theorem Spine.ne_zero {m : Ptr → RbNode} {root : Ptr} : ∀ {fs : List (Frame Ptr)} {q p a : Ptr},
    Spine m root q p fs → a ∈ frameNodes fs → a ≠ 0#32 := by
  intro fs
  induction fs with
  | nil => intro q p a _ ha; simp [frameNodes] at ha
  | cons f fs ih =>
    intro q p a h ha
    obtain ⟨-, hf, -, -, -, hs, hrest⟩ := h
    simp only [frameNodes, List.mem_cons, List.mem_append] at ha
    rcases ha with rfl | ha | ha
    · exact hf
    · exact hs.ne_zero ha
    · exact ih hrest ha

theorem Spine.aligned {m : Ptr → RbNode} {root q p : Ptr} {fs : List (Frame Ptr)}
    (h : Spine m root q p fs) : Aligned q := by
  cases fs with
  | nil => rw [h.1]; rfl
  | cons f fs => rw [h.1]; exact h.2.2.1

/-! ## Moving the focus -/

theorem At.down {t : RbTree δ} {fs : List (Frame Ptr)} {a : Ptr} {d : Side} {c : Color}
    {u v : ColorTree Ptr} (h : At t fs (branch d c u a v)) : At t (⟨d, c, a, v⟩ :: fs) u := by
  obtain ⟨hp, hne, hal, hpar, hcol, hu, hv⟩ := rep_branch.1 h.focus
  have hchild : (t.mem a).child d = ptr u := hu.ptr_eq
  have hspine := h.spine
  rw [hp] at hspine
  exact ⟨hchild ▸ hu, ⟨rfl, hne, hal, hchild, hcol, hv, hpar ▸ hspine⟩, nodup_branch.1 h.nodup⟩

theorem At.up {t : RbTree δ} {fs : List (Frame Ptr)} {a : Ptr} {d : Side} {c : Color}
    {u v : ColorTree Ptr} (h : At t (⟨d, c, a, v⟩ :: fs) u) : At t fs (branch d c u a v) := by
  obtain ⟨-, hne, hal, hchild, hcol, hv, hrest⟩ := h.spine
  have hpar : (t.mem a).parent = top fs := hrest.top_eq
  refine ⟨rep_branch.2 ⟨ptr_branch .., hne, hal, hpar, hcol, ?_, hv⟩, ?_, nodup_branch.2 h.nodup⟩
  · rw [hchild]
    exact h.focus
  · rw [ptr_branch, ← hpar]
    exact hrest

theorem At.across {t : RbTree δ} {fs : List (Frame Ptr)} {a : Ptr} {d : Side} {c : Color}
    {u v : ColorTree Ptr} (h : At t (⟨d, c, a, v⟩ :: fs) u) : At t (⟨d.flip, c, a, u⟩ :: fs) v := by
  have hup := h.up
  rw [← branch_flip] at hup
  exact hup.down

theorem At.across_flip {t : RbTree δ} {fs : List (Frame Ptr)} {a : Ptr} {d : Side} {c : Color}
    {u v : ColorTree Ptr} (h : At t (⟨d.flip, c, a, v⟩ :: fs) u) : At t (⟨d, c, a, u⟩ :: fs) v := by
  have hup := h.up
  rw [branch_flip] at hup
  exact hup.down

theorem At.plug {t : RbTree δ} {gs : List (Frame Ptr)} : ∀ {fs : List (Frame Ptr)}
    {u : ColorTree Ptr},
    At t (fs ++ gs) u → At t gs (plug u fs) := by
  intro fs
  induction fs with
  | nil => intro u h; exact h
  | cons f fs ih => intro u h; exact ih (At.up h)

theorem At.unplug {t : RbTree δ} {gs : List (Frame Ptr)} : ∀ {fs : List (Frame Ptr)}
    {u : ColorTree Ptr},
    At t gs (Lib.plug u fs) → At t (fs ++ gs) u := by
  intro fs
  induction fs with
  | nil => intro u h; exact h
  | cons f fs ih => intro u h; exact (ih h).down

theorem At.holds {t : RbTree δ} {fs : List (Frame Ptr)} {u : ColorTree Ptr} (h : At t fs u) :
    Holds t (Lib.plug u fs) := by
  rw [← List.append_nil fs] at h
  exact h.plug

theorem Holds.at {t : RbTree δ} {fs : List (Frame Ptr)} {u : ColorTree Ptr}
    (h : Holds t (plug u fs)) : At t fs u := by
  rw [← List.append_nil fs]
  exact At.unplug h

theorem At.set_outside {t : RbTree δ} {fs : List (Frame Ptr)} {u : ColorTree Ptr} {a : Ptr}
    (h : At t fs u) (hu : a ∉ u.toList) (hF : a ∉ frameNodes fs) (n : RbNode) :
    At (t.set a n) fs u := by
  refine ⟨h.focus.congr fun b hb => if_neg ?_, h.spine.congr fun b hb => if_neg ?_, h.nodup⟩
  · rintro rfl
    exact hu hb
  · rintro rfl
    exact hF hb

/-! ## Steps that return -/

@[simp] theorem set_mem (t : RbTree δ) (p q : Ptr) (n : RbNode) :
    (t.set p n).mem q = if q = p then n else t.mem q := rfl

@[simp] theorem set_root (t : RbTree δ) (p : Ptr) (n : RbNode) : (t.set p n).root = t.root := rfl

@[simp] theorem set_set (t : RbTree δ) (p : Ptr) (n n' : RbNode) :
    (t.set p n).set p n' = t.set p n' := by
  simp only [RbTree.set, RbTree.mk.injEq, and_true, true_and]
  funext q
  split <;> rfl

theorem load_ok {t : RbTree δ} {p : Ptr} (h : p ≠ 0#32) : load t p = .ok (t.mem p) := if_neg h

theorem modify_ok {t : RbTree δ} {p : Ptr} (h : p ≠ 0#32) (f : RbNode → RbNode) :
    modify t p f = .ok (t.set p (f (t.mem p))) := if_neg h

theorem getParent_ok {t : RbTree δ} {p : Ptr} (h : p ≠ 0#32) :
    getParent t p = .ok (t.mem p).parent := by simp [getParent, load_ok h]

theorem getChild_ok {t : RbTree δ} {p : Ptr} (h : p ≠ 0#32) (d : Side) :
    getChild t p d = .ok ((t.mem p).child d) := by simp [getChild, load_ok h]

theorem setParentOf_ok (t : RbTree δ) (p q : Ptr) :
    setParentOf t p q = .ok (if p = 0#32 then t else t.set p ((t.mem p).setParent q)) := by
  by_cases h : p = 0#32
  · simp [setParentOf, h]
  · simp [setParentOf, h, setParent, modify_ok h]

/-- The link above a focus now leads to `new`. -/
def RbTree.relink (t : RbTree δ) (fs : List (Frame Ptr)) (new : Ptr) : RbTree δ :=
  match fs with
  | [] => { t with root := new }
  | f :: _ => t.set f.node ((t.mem f.node).setChild f.side new)

theorem relink_mem {t : RbTree δ} {fs : List (Frame Ptr)} {new a : Ptr} (h : a ∉ frameNodes fs) :
    (t.relink fs new).mem a = t.mem a := by
  cases fs with
  | nil => rfl
  | cons f fs =>
    have hne : a ≠ f.node := fun e => h (by simp [frameNodes, e])
    simp [RbTree.relink, hne]

theorem Spine.relink {t : RbTree δ} {fs : List (Frame Ptr)} {q p : Ptr}
    (h : Spine t.mem t.root q p fs) (hn : (frameNodes fs).Nodup) (new : Ptr) :
    Spine (t.relink fs new).mem (t.relink fs new).root q new fs := by
  cases fs with
  | nil => exact ⟨h.1, rfl⟩
  | cons f fs =>
    obtain ⟨rfl, hne, hal, -, hcol, hsib, hrest⟩ := h
    simp only [frameNodes, List.nodup_cons, List.mem_append, not_or] at hn
    refine ⟨rfl, hne, hal, by simp [RbTree.relink], by simp [RbTree.relink, hcol], ?_, ?_⟩
    · have hsame : ((t.relink (f :: fs) new).mem f.node).child f.side.flip =
          (t.mem f.node).child f.side.flip := by simp [RbTree.relink]
      rw [hsame]
      refine hsib.congr fun b hb => ?_
      have hne' : b ≠ f.node := fun e => hn.1.1 (e ▸ hb)
      simp [RbTree.relink, hne']
    · have hsame : ((t.relink (f :: fs) new).mem f.node).parent = (t.mem f.node).parent := by
        simp [RbTree.relink]
      rw [hsame]
      refine hrest.congr fun b hb => ?_
      have hne' : b ≠ f.node := fun e => hn.1.2 (e ▸ hb)
      simp [RbTree.relink, hne']

theorem Spine.sibling_ne {m : Ptr → RbNode} {root q p : Ptr} {f : Frame Ptr}
    {fs : List (Frame Ptr)} (h : Spine m root q p (f :: fs)) (hp : p ≠ 0#32)
    (hout : p ∉ frameNodes (f :: fs)) : (m f.node).child f.side.flip ≠ p := by
  obtain ⟨-, -, -, -, -, hsib, -⟩ := h
  intro e
  rw [hsib.ptr_eq] at e
  rcases ptr_mem f.sibling with hz | hmem
  · exact hp (e ▸ hz)
  · exact hout (by simp [frameNodes, ← e, hmem])

theorem rotateRelink_ok {t : RbTree δ} {fs : List (Frame Ptr)} {q p : Ptr}
    (h : Spine t.mem t.root q p fs) (hp : p ≠ 0#32) (hout : p ∉ frameNodes fs) (new : Ptr) :
    rotateRelink t q p new = .ok (t.relink fs new) := by
  cases fs with
  | nil => simp [rotateRelink, h.1, RbTree.relink]
  | cons f fs =>
    have hsib := h.sibling_ne hp hout
    obtain ⟨rfl, hne, -, hchild, -⟩ := h
    cases hside : f.side with
    | left =>
      have hl : (t.mem f.node).left = p := by simpa [hside, RbNode.child] using hchild
      simp [rotateRelink, hne, hl, setChild, modify_ok hne, RbTree.relink, hside]
    | right =>
      have hr : (t.mem f.node).right = p := by simpa [hside, RbNode.child] using hchild
      have hl : (t.mem f.node).left ≠ p := by simpa [hside, RbNode.child, Side.flip] using hsib
      simp [rotateRelink, hne, hl, hr, setChild, modify_ok hne, RbTree.relink, hside]

theorem At.recolor {t : RbTree δ} {fs : List (Frame Ptr)} {a : Ptr} {d : Side} {c c' : Color}
    {u v : ColorTree Ptr} {n : RbNode} (h : At t fs (branch d c u a v))
    (hpar : n.parent = (t.mem a).parent) (hchild : ∀ e, n.child e = (t.mem a).child e)
    (hcol : n.color = c') : At (t.set a n) fs (branch d c' u a v) := by
  obtain ⟨-, hne, hal, hpar', -, hu, hv⟩ := rep_branch.1 h.focus
  have hn := nodup_branch.1 h.nodup
  have houtu : a ∉ u.toList := by
    intro ha
    exact (List.nodup_append.1 hn).2.2 a ha a (by simp) rfl
  have hout : a ∉ v.toList ++ frameNodes fs :=
    (List.nodup_cons.1 (List.nodup_append.1 hn).2.1).1
  simp only [List.mem_append, not_or] at hout
  have hmem : ∀ b, b ≠ a → (t.set a n).mem b = t.mem b := fun b hb => if_neg hb
  refine ⟨rep_branch.2 ⟨ptr_branch .., hne, hal, ?_, ?_, ?_, ?_⟩, ?_, nodup_branch.2 hn⟩
  · simp [hpar, hpar']
  · simp [hcol]
  · rw [set_mem, if_pos rfl, hchild]
    exact hu.congr fun b hb => hmem b fun e => houtu (e ▸ hb)
  · rw [set_mem, if_pos rfl, hchild]
    exact hv.congr fun b hb => hmem b fun e => hout.1 (e ▸ hb)
  · have hspine := h.spine
    rw [ptr_branch] at hspine ⊢
    exact hspine.congr fun b hb => hmem b fun e => hout.2 (e ▸ hb)

/-- The memory after the first half of a rotation at `p`, when the child `y`
has come loose and its inner subtree hangs under `p`. -/
theorem rotate_pivot (t : RbTree δ) {d : Side} {p b : Ptr} (hb : b ≠ p) :
    ∃ t₂, setParentOf (t.set p ((t.mem p).setChild d.flip b)) b p = .ok t₂ ∧
      t₂.root = t.root ∧ t₂.mem p = (t.mem p).setChild d.flip b ∧
      (b ≠ 0#32 → t₂.mem b = (t.mem b).setParent p) ∧
      ∀ a, a ≠ p → a ≠ b → t₂.mem a = t.mem a := by
  refine ⟨_, setParentOf_ok _ _ _, ?_, ?_, ?_, ?_⟩
  · split <;> rfl
  · split
    · simp
    · simp [Ne.symm hb]
  · intro hb0
    simp [hb0, hb]
  · intro a ha hab
    split <;> simp [ha, hab]

theorem At.rotate {t : RbTree δ} {fs : List (Frame Ptr)} {p y : Ptr} {d : Side}
    {c c' : Color} {u v w : ColorTree Ptr} (h : At t fs (branch d c u p (branch d c' v y w))) :
    ∃ t', rotate d t p = .ok t' ∧ At t' fs (branch d c' (branch d c u p v) y w) := by
  obtain ⟨-, hx, hxal, hxpar, hxcol, hu, hvw⟩ := rep_branch.1 h.focus
  obtain ⟨hy', hy, hyal, hypar, hycol, hv, hw⟩ := rep_branch.1 hvw
  have hspine := h.spine
  rw [ptr_branch] at hspine
  generalize hq' : top fs = q at hxpar hspine
  have hq : Aligned q := hspine.aligned
  have hn := nodup_branch.1 h.nodup
  simp only [List.nodup_append, List.nodup_cons, List.mem_append, List.mem_cons, mem_toList_branch,
    not_or] at hn
  obtain ⟨hnu, ⟨⟨⟨hpy, hpv, hpw⟩, hpF⟩, hnvw, hnF, hdF⟩, hdu⟩ := hn
  have hnvw' : (v.toList ++ (y :: (w.toList ++ []))).Nodup := nodup_branch.1 (by simpa using hnvw)
  simp only [List.append_nil, List.nodup_append, List.nodup_cons, List.mem_cons] at hnvw'
  obtain ⟨hnv, ⟨hyw, hnw⟩, hdv⟩ := hnvw'
  have hyF : y ∉ frameNodes fs := fun hy => hdF y (.inl rfl) y hy rfl
  generalize hb : (t.mem y).child d = b at hv
  have hbv : b = 0#32 ∨ b ∈ v.toList := hv.ptr_eq ▸ ptr_mem v
  have hbp : b ≠ p := by
    rintro rfl
    exact hbv.elim hx hpv
  have hby : b ≠ y := by
    rintro rfl
    exact hbv.elim hy fun hbv => hdv _ hbv _ (.inl rfl) rfl
  have hbF : b ∉ frameNodes fs := by
    intro hbF
    exact hbv.elim (hspine.ne_zero hbF) fun hbv => hdF b (.inr (.inl hbv)) b hbF rfl
  obtain ⟨t₂, ht₂, hroot₂, hp₂, hb₂, hm₂⟩ := rotate_pivot t (d := d) hbp
  have hy₂ : t₂.mem y = t.mem y := hm₂ y (Ne.symm hpy) (Ne.symm hby)
  -- the loose node takes the place of `p` below its parent
  have hspine₃ : Spine (t₂.set y ((t.mem y).setParent q)).mem
      (t₂.set y ((t.mem y).setParent q)).root q p fs := by
    rw [set_root, hroot₂]
    refine hspine.congr fun a ha => ?_
    have hay : a ≠ y := fun e => hyF (e ▸ ha)
    have hap : a ≠ p := fun e => hpF (e ▸ ha)
    have hab : a ≠ b := fun e => hbF (e ▸ ha)
    rw [set_mem, if_neg hay, hm₂ a hap hab]
  have hlink := rotateRelink_ok hspine₃ hx hpF y
  have hspine₄ := hspine₃.relink hnF y
  generalize ht₄ : (t₂.set y ((t.mem y).setParent q)).relink fs y = t₄ at hlink hspine₄
  have hm₄ : ∀ a, a ∉ frameNodes fs → t₄.mem a = (t₂.set y ((t.mem y).setParent q)).mem a := by
    intro a ha
    rw [← ht₄, relink_mem ha]
  have hp₄ : t₄.mem p = (t.mem p).setChild d.flip b := by
    rw [hm₄ p hpF, set_mem, if_neg hpy, hp₂]
  have hy₄ : t₄.mem y = (t.mem y).setParent q := by
    rw [hm₄ y hyF, set_mem, if_pos rfl]
  refine ⟨(t₄.set y ((t₄.mem y).setChild d p)).set p
    ((t₄.mem p).setParent y), ?_, rep_branch.2 ?_, ?_, ?_⟩
  · simp [Rb.rotate, getChild_ok hx, hy', getChild_ok hy, hb, setChild, modify_ok hx, ht₂,
      getParent_ok hx, hp₂, hxpar, setParent, modify_ok hy, hy₂, hlink, hpy]
  · have hm : ∀ a, a ≠ p → a ≠ y → a ≠ b → a ∉ frameNodes fs →
        ((t₄.set y ((t₄.mem y).setChild d p)).set p ((t₄.mem p).setParent y)).mem a = t.mem a := by
      intro a hap hay hab haF
      rw [set_mem, if_neg hap, set_mem, if_neg hay, hm₄ a haF, set_mem, if_neg hay, hm₂ a hap hab]
    have hyM : ((t₄.set y ((t₄.mem y).setChild d p)).set p ((t₄.mem p).setParent y)).mem y =
        ((t.mem y).setParent q).setChild d p := by
      rw [set_mem, if_neg (Ne.symm hpy), set_mem, if_pos rfl, hy₄]
    have hpM : ((t₄.set y ((t₄.mem y).setChild d p)).set p ((t₄.mem p).setParent y)).mem p =
        ((t.mem p).setChild d.flip b).setParent y := by
      rw [set_mem, if_pos rfl, hp₄]
    have hbM : b ≠ 0#32 →
        ((t₄.set y ((t₄.mem y).setChild d p)).set p ((t₄.mem p).setParent y)).mem b =
          (t.mem b).setParent p := by
      intro hb0
      rw [set_mem, if_neg hbp, set_mem, if_neg hby, hm₄ b hbF, set_mem, if_neg hby, hb₂ hb0]
    refine ⟨ptr_branch .., hy, hyal, ?_, ?_, ?_, ?_⟩
    · rw [hyM, parent_setChild, parent_setParent _ hq, hq']
    · rw [hyM, color_setChild, color_setParent _ hq, hycol]
    · rw [hyM, child_setChild]
      refine rep_branch.2 ⟨rfl, hx, hxal, ?_, ?_, ?_, ?_⟩
      · rw [hpM, parent_setParent _ hyal]
      · rw [hpM, color_setParent _ hyal, color_setChild, hxcol]
      · rw [hpM, child_setParent, child_flip_setChild]
        refine hu.congr fun a ha => ?_
        apply hm a
        · exact fun e => hdu a ha p (.inl rfl) e
        · exact fun e => hdu a ha y (.inr (.inl (.inl rfl))) e
        · rintro rfl
          exact hbv.elim (hu.ne_zero ha) fun hbv => hdu a ha a (.inr (.inl (.inr (.inl hbv)))) rfl
        · exact fun haF => hdu a ha a (.inr (.inr haF)) rfl
      · rw [hpM, child_setParent, child_setChild]
        refine hv.reparent hnv hxal hbM fun a ha hab => ?_
        apply hm a _ _ hab
        · exact fun haF => hdF a (.inr (.inl ha)) a haF rfl
        · rintro rfl
          exact hpv ha
        · exact fun e => hdv a ha y (.inl rfl) e
    · rw [hyM, child_setChild_flip, child_setParent]
      refine hw.congr fun a ha => ?_
      apply hm a
      · rintro rfl
        exact hpw ha
      · rintro rfl
        exact hyw ha
      · rintro rfl
        exact hbv.elim (hw.ne_zero ha) fun hbv => hdv a hbv a (.inr ha) rfl
      · exact fun haF => hdF a (.inr (.inr ha)) a haF rfl
  · rw [ptr_branch, hq']
    refine hspine₄.congr fun a ha => ?_
    have hap : a ≠ p := fun e => hpF (e ▸ ha)
    have hay : a ≠ y := fun e => hyF (e ▸ ha)
    rw [set_mem, if_neg hap, set_mem, if_neg hay]
  · rw [← toList_rotate d c c' c' c u v w p y]
    exact h.nodup

/-! ## Reading and colouring at the focus -/

theorem Rep.isRed {t : RbTree δ} {q p : Ptr} {u : ColorTree Ptr} (h : Rep t.mem q p u) :
    isRed t p = decide (u.color = .red) := by
  cases u with
  | nil => simp [Rb.isRed, show p = 0#32 from h, color]
  | node c l a r =>
    obtain ⟨rfl, hne, -, -, hcol, -⟩ := h
    simp only [Rb.isRed, if_neg hne, color, ← hcol, RbNode.color]
    cases (t.mem p).red <;> rfl

theorem At.isRed {t : RbTree δ} {fs : List (Frame Ptr)} {u : ColorTree Ptr} (h : At t fs u) :
    isRed t (ptr u) = decide (u.color = .red) := h.focus.isRed

theorem At.ne_zero {t : RbTree δ} {fs : List (Frame Ptr)} {u v : ColorTree Ptr} {d : Side}
    {c : Color}
    {a : Ptr} (h : At t fs (branch d c u a v)) : a ≠ 0#32 := (rep_branch.1 h.focus).2.1

theorem At.parent {t : RbTree δ} {fs : List (Frame Ptr)} {u v : ColorTree Ptr} {d : Side}
    {c : Color}
    {a : Ptr} (h : At t fs (branch d c u a v)) : getParent t a = .ok (top fs) := by
  rw [getParent_ok h.ne_zero, (rep_branch.1 h.focus).2.2.2.1]

theorem At.near {t : RbTree δ} {fs : List (Frame Ptr)} {u v : ColorTree Ptr} {d : Side} {c : Color}
    {a : Ptr} (h : At t fs (branch d c u a v)) : getChild t a d = .ok (ptr u) := by
  rw [getChild_ok h.ne_zero, (rep_branch.1 h.focus).2.2.2.2.2.1.ptr_eq]

theorem At.far {t : RbTree δ} {fs : List (Frame Ptr)} {u v : ColorTree Ptr} {d : Side} {c : Color}
    {a : Ptr} (h : At t fs (branch d c u a v)) : getChild t a d.flip = .ok (ptr v) := by
  rw [getChild_ok h.ne_zero, (rep_branch.1 h.focus).2.2.2.2.2.2.ptr_eq]

/-- The link above the focus, as `rb_find_node_link` returns it. -/
def linkOf : List (Frame Ptr) → Link
  | [] => .root
  | f :: _ => .child f.node f.side

theorem At.deref {t : RbTree δ} {fs : List (Frame Ptr)} {u : ColorTree Ptr} (h : At t fs u) :
    t.deref (linkOf fs) = ptr u := by
  cases fs with
  | nil => exact h.spine.2
  | cons f fs => exact h.spine.2.2.2.1

theorem At.ptr_ne {t : RbTree δ} {f : Frame Ptr} {fs : List (Frame Ptr)} {u : ColorTree Ptr}
    (h : At t (f :: fs) u) (hne : ptr u ≠ 0#32 ∨ ptr f.sibling ≠ 0#32) :
    ptr f.sibling ≠ ptr u := by
  intro e
  have hu : ptr u ∈ u.toList := (ptr_mem u).resolve_left (by simpa [e] using hne)
  have hs : ptr u ∈ f.sibling.toList :=
    e ▸ (ptr_mem f.sibling).resolve_left (by simpa [e] using hne)
  exact (List.nodup_append.1 h.nodup).2.2 _ hu _ (by simp [frameNodes, hs]) rfl

theorem At.ptr_ne_root {t : RbTree δ} {f : Frame Ptr} {fs : List (Frame Ptr)} {u : ColorTree Ptr}
    (h : At t (f :: fs) u) : ptr u ≠ t.root := by
  intro e
  have hroot := h.spine.root_mem
  rcases ptr_mem u with hz | hmem
  · exact h.spine.ne_zero hroot (e ▸ hz)
  · exact (List.nodup_append.1 h.nodup).2.2 _ hmem _ hroot e

theorem At.childSide {t : RbTree δ} {f : Frame Ptr} {fs : List (Frame Ptr)} {u : ColorTree Ptr}
    (h : At t (f :: fs) u) (hne : ptr u ≠ 0#32 ∨ ptr f.sibling ≠ 0#32) :
    childSide t f.node (ptr u) = .ok f.side := by
  have hp := h.ptr_ne hne
  obtain ⟨-, hf, -, hchild, -, hsib, -⟩ := h.spine
  cases hside : f.side with
  | left =>
    have hl : (t.mem f.node).left = ptr u := by simpa [hside, RbNode.child] using hchild
    simp [Rb.childSide, load_ok hf, hl]
  | right =>
    have hl : (t.mem f.node).left = ptr f.sibling := by
      simpa [hside, RbNode.child, Side.flip] using hsib.ptr_eq
    simp [Rb.childSide, load_ok hf, hl, hp]

theorem At.getSibling {t : RbTree δ} {f : Frame Ptr} {fs : List (Frame Ptr)} {u v : ColorTree Ptr}
    {d : Side} {c : Color} {a : Ptr} (h : At t (f :: fs) (branch d c u a v)) :
    getSibling t a = .ok (ptr f.sibling) := by
  have hp := h.ptr_ne (.inl (by simpa using h.ne_zero))
  have hpar := h.parent
  obtain ⟨-, hf, -, hchild, -, hsib, -⟩ := h.spine
  simp only [ptr_branch] at hp hchild
  cases hside : f.side with
  | left =>
    have hl : (t.mem f.node).left = a := by simpa [hside, RbNode.child] using hchild
    have hr : (t.mem f.node).right = ptr f.sibling := by
      simpa [hside, RbNode.child, Side.flip] using hsib.ptr_eq
    simp [Rb.getSibling, hpar, top, hf, load_ok hf, hl, hr]
  | right =>
    have hl : (t.mem f.node).left = ptr f.sibling := by
      simpa [hside, RbNode.child, Side.flip] using hsib.ptr_eq
    simp [Rb.getSibling, hpar, top, hf, load_ok hf, hl, hp]

theorem At.setBlack {t : RbTree δ} {fs : List (Frame Ptr)} {u v : ColorTree Ptr} {d : Side}
    {c : Color}
    {a : Ptr} (h : At t fs (branch d c u a v)) :
    ∃ t', setBlack t a = .ok t' ∧ At t' fs (branch d .black u a v) :=
  ⟨_, modify_ok h.ne_zero _, h.recolor (by simp) (by simp) (by simp)⟩

theorem At.setRed {t : RbTree δ} {fs : List (Frame Ptr)} {u v : ColorTree Ptr} {d : Side}
    {c : Color}
    {a : Ptr} (h : At t fs (branch d c u a v)) :
    ∃ t', setRed t a = .ok t' ∧ At t' fs (branch d .red u a v) :=
  ⟨_, modify_ok h.ne_zero _, h.recolor (by simp) (by simp) (by simp)⟩

theorem At.setBlackOf {t : RbTree δ} {fs : List (Frame Ptr)} {u : ColorTree Ptr} (h : At t fs u) :
    ∃ t', setBlackOf t (ptr u) = .ok t' ∧ At t' fs u.blacken := by
  cases u with
  | nil => exact ⟨t, rfl, h⟩
  | node c l a r =>
    have hb : At t fs (branch .left c l a r) := h
    obtain ⟨t', ht', hat⟩ := hb.setBlack
    exact ⟨t', by simpa [Rb.setBlackOf, ptr, hb.ne_zero] using ht', hat⟩

theorem Holds.setBlack_root {t : RbTree δ} {u : ColorTree Ptr} (h : Holds t u)
    (hne : ptr u ≠ 0#32) :
    ∃ t', Rb.setBlack t t.root = .ok t' ∧ Holds t' u.blacken := by
  cases u with
  | nil => exact absurd rfl hne
  | node c l a r =>
    have hb : At t [] (branch .left c l a r) := h
    rw [show t.root = a from h.spine.2]
    exact hb.setBlack

/-! ## The size of a tree -/

/-- The nodes have different nonzero addresses, so there are less than 2^32. -/
theorem Holds.length_lt {t : RbTree δ} {u : ColorTree Ptr} (h : Holds t u) :
    u.toList.length < loopLimit := by
  have hn : (0#32 :: u.toList).Nodup := by
    refine List.nodup_cons.2 ⟨fun hz => h.focus.ne_zero hz rfl, ?_⟩
    simpa [frameNodes] using h.nodup
  have hinj : ((0#32 :: u.toList).map BitVec.toFin).Nodup :=
    List.Nodup.map (fun _ _ hab => BitVec.eq_of_toFin_eq hab) hn
  have hle := hinj.length_le_card
  rw [List.length_map, Fintype.card_fin, List.length_cons] at hle
  exact hle

theorem length_le_toList (fs : List (Frame Ptr)) (u : ColorTree Ptr) :
    u.toList.length + fs.length ≤ (plug u fs).toList.length := by
  induction fs generalizing u with
  | nil => simp [plug]
  | cons f fs ih =>
    refine le_trans ?_ (ih (branch f.side f.color u f.node f.sibling))
    cases f.side <;> simp [branch, toList] <;> omega

/-! ## Augmenting up to the root -/

theorem rbAugmentFromLoop_ok {augment : (Ptr → RbNode) → (Ptr → δ) → Ptr → δ} :
    ∀ (fs : List (Frame Ptr)) (fuel : Nat) {t : RbTree δ} {d : Side} {c : Color}
    {u v : ColorTree Ptr}
      {a : Ptr}, At t fs (branch d c u a v) → fs.length < fuel →
      ∃ data', rbAugmentFromLoop augment fuel t a = .ok { t with data := data' } := by
  intro fs
  induction fs with
  | nil =>
    intro fuel t d c u v a h hfuel
    obtain ⟨fuel, rfl⟩ : ∃ k, fuel = k + 1 := ⟨fuel - 1, by omega⟩
    have hroot : t.root = a := by simpa using h.spine.2
    exact ⟨_, by simp [rbAugmentFromLoop, h.ne_zero, hroot]; rfl⟩
  | cons f fs ih =>
    intro fuel t d c u v a h hfuel
    obtain ⟨fuel, rfl⟩ : ∃ k, fuel = k + 1 := ⟨fuel - 1, by omega⟩
    obtain ⟨e, c', b, s⟩ := f
    by_cases hroot : t.root = a
    · exact ⟨_, by simp [rbAugmentFromLoop, h.ne_zero, hroot]; rfl⟩
    · have hpar : (t.mem a).parent = b := (rep_branch.1 h.focus).2.2.2.1
      have hup := h.up
      have hup' : At { t with data := fun p => if p = a then augment t.mem t.data a else t.data p }
          fs (branch e c' (branch d c u a v) b s) := ⟨hup.focus, hup.spine, hup.nodup⟩
      obtain ⟨data', hdata⟩ := ih fuel hup' (by simpa using hfuel)
      refine ⟨data', ?_⟩
      simp only [rbAugmentFromLoop, if_neg h.ne_zero, if_neg hroot, hpar]
      exact hdata

theorem rbAugmentFrom_ok (augment : (Ptr → RbNode) → (Ptr → δ) → Ptr → δ) {t : RbTree δ}
    {u : ColorTree Ptr} {p : Ptr} (h : Holds t u) (hp : p = 0#32 ∨ p ∈ u.toList) :
    ∃ t', rbAugmentFrom augment t p = .ok t' ∧ Holds t' u := by
  rcases hp with rfl | hp
  · exact ⟨t, by simp [rbAugmentFrom, loopLimit, rbAugmentFromLoop], h⟩
  · obtain ⟨c, l, r, fs, rfl⟩ := exists_focus hp
    have hat : At t fs (branch .left c l p r) := Holds.at h
    have hlen : fs.length < loopLimit := by
      have h₁ := length_le_toList fs (.node c l p r)
      have h₂ := h.length_lt
      omega
    obtain ⟨data', hdata⟩ := rbAugmentFromLoop_ok fs loopLimit hat hlen
    exact ⟨_, hdata, ⟨h.focus, h.spine, h.nodup⟩⟩

theorem Holds.child_mem {t : RbTree δ} {u : ColorTree Ptr} {a : Ptr} (h : Holds t u)
    (ha : a ∈ u.toList) (d : Side) :
    (t.mem a).child d = 0#32 ∨ (t.mem a).child d ∈ u.toList := by
  obtain ⟨c, l, r, fs, rfl⟩ := exists_focus ha
  obtain ⟨v, w, hvw⟩ := branch_eq_branch d .left c l r a
  have hnode : ColorTree.node c l a r = branch d c v a w := hvw
  rw [hnode] at h ⊢
  have hat : At t fs (branch d c v a w) := Holds.at h
  have hchild : (t.mem a).child d = ptr v := (rep_branch.1 hat.focus).2.2.2.2.2.1.ptr_eq
  rw [hchild, toList_plug]
  rcases ptr_mem v with hz | hv
  · exact .inl hz
  · exact .inr (by simp [mem_toList_branch, hv])

end X86Kernel.Rb
