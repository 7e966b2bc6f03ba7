import X86Kernel.Utils.RbTree.Walk

/- Removing a node from a red-black tree.

   What is proved: `rb_configure_delete` takes exactly the given node out of the
   tree (`rbConfigureDelete_ok`), and on a red-black tree `rb_delete_fixup`
   always returns and keeps the nodes in their order (`rbDeleteFixupLoop_ok`).
   The colours it leaves are right when `fixSafe` holds: when the fixup does not
   come to a black sibling with a red child under a red parent. There
   `rb_delete_fixup_sibling_black_child_red` sets the parent black and does not
   give its colour to the sibling that takes its place, so one side of the tree
   gets a black node too many. -/
namespace X86Kernel.Rb
open X86Kernel.Lib X86Kernel.Lib.ColorTree

variable {δ : Type}

/-! ## Taking a node out -/

theorem rbTransplant_ok {t : RbTree δ} {fs : List (Frame Ptr)} {q p a : Ptr} {v : ColorTree Ptr}
    (hspine : Spine t.mem t.root (top fs) a fs) (hpar : (t.mem a).parent = top fs)
    (ha : a ≠ 0#32) (hout : a ∉ frameNodes fs) (hv : Rep t.mem q p v)
    (hn : (v.toList ++ frameNodes fs).Nodup) :
    ∃ t', rbTransplant t a p = .ok t' ∧ At t' fs v ∧
      ∀ b, b ∉ frameNodes fs → b ≠ p → t'.mem b = t.mem b := by
  obtain ⟨hnv, hnF, hd⟩ := List.nodup_append.1 hn
  have hpF : p ≠ 0#32 → p ∉ frameNodes fs := by
    intro hp hF
    have hpv : p ∈ v.toList := by
      rw [hv.ptr_eq] at hp ⊢
      exact (ptr_mem v).resolve_left hp
    exact hd p hpv p hF rfl
  have hlink : transplantRelink t (top fs) a p = .ok (t.relink fs p) := by
    cases fs with
    | nil => simp [transplantRelink, top, RbTree.relink]
    | cons f fs =>
      have hsib := hspine.sibling_ne ha hout
      obtain ⟨-, hne, -, hchild, -⟩ := hspine
      cases hside : f.side with
      | left =>
        have hl : (t.mem f.node).left = a := by simpa [hside, RbNode.child] using hchild
        simp [transplantRelink, top, hne, hl, setChild, modify_ok hne, RbTree.relink, hside]
      | right =>
        have hl : a ≠ (t.mem f.node).left := by
          simpa [hside, RbNode.child, Side.flip] using hsib.symm
        simp [transplantRelink, top, hne, hl, setChild, modify_ok hne, RbTree.relink, hside]
  have hcode : rbTransplant t a p = setParentOf (t.relink fs p) p (top fs) := by
    simp only [rbTransplant, getParent_ok ha, hpar, ok_bind, hlink]
  have hspine' := hspine.relink hnF p
  have hq : Aligned (top fs) := hspine.aligned
  obtain ⟨t', ht', hroot, hp, hm⟩ : ∃ t', setParentOf (t.relink fs p) p (top fs) = .ok t' ∧
      t'.root = (t.relink fs p).root ∧
      (p ≠ 0#32 → t'.mem p = ((t.relink fs p).mem p).setParent (top fs)) ∧
      ∀ b, b ≠ p → t'.mem b = (t.relink fs p).mem b := by
    refine ⟨_, setParentOf_ok _ _ _, ?_, ?_, ?_⟩
    · split <;> rfl
    · intro hp0
      simp [hp0]
    · intro b hb
      split <;> simp [hb]
  refine ⟨t', hcode.trans ht', ⟨?_, ?_, hn⟩, ?_⟩
  · rw [← hv.ptr_eq]
    refine hv.reparent hnv hq ?_ ?_
    · intro hp0
      rw [hp hp0, relink_mem (hpF hp0)]
    · intro b hb hbp
      rw [hm b hbp, relink_mem fun hF => hd b hb b hF rfl]
  · rw [← hv.ptr_eq, hroot]
    refine hspine'.congr fun b hb => hm b ?_
    rintro rfl
    exact hpF (hspine.ne_zero hb) hb
  · intro b hb hbp
    rw [hm b hbp, relink_mem hb]

theorem rbTransplant_child {t : RbTree δ} {fs : List (Frame Ptr)} {d : Side} {c : Color}
    {v : ColorTree Ptr} {a : Ptr} (h : At t fs (branch d c .nil a v)) :
    ∃ t', rbTransplant t a (ptr v) = .ok t' ∧ At t' fs v := by
  obtain ⟨-, ha, -, hpar, -, -, hv⟩ := rep_branch.1 h.focus
  have hspine := h.spine
  rw [ptr_branch] at hspine
  have hn := nodup_branch.1 h.nodup
  simp only [toList, List.nil_append, List.nodup_cons, List.mem_append, not_or] at hn
  rw [hv.ptr_eq] at hv
  obtain ⟨t', ht', hat, -⟩ := rbTransplant_ok hspine hpar ha hn.1.2 hv hn.2
  exact ⟨t', ht', hat⟩

theorem hang_ok {t : RbTree δ} {q q' s : Ptr} {d : Side} {c : Color} {u v : ColorTree Ptr}
    (hs0 : s ≠ 0#32) (hal : Aligned s) (hpar : (t.mem s).parent = q) (hcol : (t.mem s).color = c)
    (hu : Rep t.mem s ((t.mem s).child d) u) (hv : Rep t.mem q' (ptr v) v)
    (hn : (s :: (u.toList ++ v.toList)).Nodup) :
    ∃ t', (do
        let t ← setChild t s d.flip (ptr v)
        setParentOf t (ptr v) s) = .ok t' ∧ Rep t'.mem q s (branch d c u s v) ∧
      t'.root = t.root ∧ ∀ b, b ≠ s → b ≠ ptr v → t'.mem b = t.mem b := by
  obtain ⟨hsuv, huv⟩ := List.nodup_cons.1 hn
  simp only [List.mem_append, not_or] at hsuv
  obtain ⟨-, hnv, hd⟩ := List.nodup_append.1 huv
  have hvs : ptr v ≠ s := by
    intro e
    rcases ptr_mem v with hz | hmem
    · exact hs0 (e ▸ hz)
    · exact hsuv.2 (e ▸ hmem)
  obtain ⟨t', ht', hroot, hsM, hvM, hm⟩ := rotate_pivot t (d := d) hvs
  refine ⟨t', ?_, rep_branch.2 ⟨rfl, hs0, hal, ?_, ?_, ?_, ?_⟩, hroot, hm⟩
  · simp only [setChild, modify_ok hs0, ok_bind, ht']
  · rw [hsM, parent_setChild, hpar]
  · rw [hsM, color_setChild, hcol]
  · rw [hsM, child_flip_setChild]
    refine hu.congr fun b hb => hm b ?_ ?_
    · rintro rfl
      exact hsuv.1 hb
    · rintro rfl
      rcases ptr_mem v with hz | hmem
      · exact hu.ne_zero hb hz
      · exact hd _ hb _ hmem rfl
  · rw [hsM, child_setChild]
    refine hv.reparent hnv hal hvM fun b hb hbv => hm b ?_ hbv
    rintro rfl
    exact hsuv.2 hb

/-- The successor, with the right subtree `u` and no left one, takes the place
of the node `a`. -/
theorem rbReplaceBySuccessor_ok {t : RbTree δ} {fs : List (Frame Ptr)} {q a s : Ptr}
    {c cs : Color} {l u : ColorTree Ptr} (hspine : Spine t.mem t.root (top fs) a fs)
    (hpar : (t.mem a).parent = top fs) (hcol : (t.mem a).color = c) (ha : a ≠ 0#32)
    (hl : Rep t.mem a (t.mem a).left l) (hs : Rep t.mem q s (branch .right cs u s .nil))
    (hn : (a :: s :: (u.toList ++ (l.toList ++ frameNodes fs))).Nodup) :
    ∃ t', rbReplaceBySuccessor t a s = .ok t' ∧ At t' fs (branch .right c u s l) := by
  obtain ⟨haout, hn'⟩ := List.nodup_cons.1 hn
  simp only [List.mem_cons, List.mem_append, not_or] at haout
  obtain ⟨has, hau, hal, haF⟩ := haout
  obtain ⟨hsout, hn''⟩ := List.nodup_cons.1 hn'
  simp only [List.mem_append, not_or] at hsout
  obtain ⟨hsu, hsl, hsF⟩ := hsout
  obtain ⟨hnu, hnlF, hdu⟩ := List.nodup_append.1 hn''
  obtain ⟨hnl, hnF, hdl⟩ := List.nodup_append.1 hnlF
  have hnsF : ((branch .right cs u s .nil).toList ++ frameNodes fs).Nodup := by
    rw [nodup_branch]
    simp only [toList, List.nil_append, List.nodup_append, List.nodup_cons, List.mem_cons]
    refine ⟨hnu, ⟨hsF, hnF⟩, ?_⟩
    rintro x hx y (rfl | hy)
    · exact fun e => hsu (e ▸ hx)
    · exact hdu x hx y (List.mem_append_right _ hy)
  obtain ⟨t₁, ht₁, h₁, hm₁⟩ := rbTransplant_ok hspine hpar ha haF hs hnsF
  have ha₁ : t₁.mem a = t.mem a := hm₁ a haF has
  -- colour and left subtree of `a` go to `s`
  have hs0 : s ≠ 0#32 := h₁.ne_zero
  have h₂ : At (t₁.set s ((t₁.mem s).setColorToOther (t₁.mem a))) fs (branch .right c u s .nil) :=
    h₁.recolor (by simp) (by simp) (by rw [color_setColorToOther, ha₁, hcol])
  have hl₂ : Rep (t₁.set s ((t₁.mem s).setColorToOther (t₁.mem a))).mem a (ptr l) l := by
    rw [← hl.ptr_eq]
    refine hl.congr fun b hb => ?_
    have hbs : b ≠ s := fun e => hsl (e ▸ hb)
    rw [set_mem, if_neg hbs, hm₁ b (fun hF => hdl b hb b hF rfl) hbs]
  obtain ⟨-, -, hsal, hspar, hscol, hsu₂, -⟩ := rep_branch.1 h₂.focus
  obtain ⟨t₃, ht₃, hrep₃, hroot₃, hm₃⟩ := hang_ok hs0 hsal hspar hscol hsu₂ hl₂ (by
    refine List.nodup_cons.2 ⟨by simp [hsu, hsl], List.nodup_append.2 ⟨hnu, hnl, ?_⟩⟩
    intro x hx y hy
    exact hdu x hx y (List.mem_append_left _ hy))
  have h₃ : At t₃ fs (branch .right c u s l) := by
    refine ⟨by rw [ptr_branch]; exact hrep₃, ?_, ?_⟩
    · have hsp := h₂.spine
      rw [ptr_branch] at hsp ⊢
      rw [hroot₃]
      refine hsp.congr fun b hb => hm₃ b ?_ ?_
      · rintro rfl
        exact hsF hb
      · rintro rfl
        rcases ptr_mem l with hz | hmem
        · exact hspine.ne_zero hb hz
        · exact hdl _ hmem _ hb rfl
    · rw [nodup_branch]
      refine List.nodup_append.2 ⟨hnu, List.nodup_cons.2 ⟨by simp [hsl, hsF], hnlF⟩, ?_⟩
      intro x hx y hy
      rcases List.mem_cons.1 hy with rfl | hy
      · exact fun e => hsu (e ▸ hx)
      · exact hdu x hx y hy
  have ha₃ : a ∉ (branch .right c u s l).toList := by
    simp [mem_toList_branch, has, hau, hal]
  refine ⟨t₃.set a ((t₃.mem a).setColorToOther (t₃.mem s)), ?_, h₃.set_outside ha₃ haF _⟩
  have hleft : ((t₁.set s ((t₁.mem s).setColorToOther (t₁.mem a))).mem a).child .left = ptr l := by
    rw [set_mem, if_neg has, ha₁]
    exact hl.ptr_eq
  simp only [rbReplaceBySuccessor, ht₁, ok_bind, Rb.setColorToOther, load_ok ha, modify_ok hs0,
    getChild_ok ha, hleft]
  simp only [setChild, modify_ok hs0, ok_bind, Side.flip] at ht₃ ⊢
  simp only [ht₃, ok_bind, load_ok hs0, modify_ok ha]

/-- The frames from the first node of a tree up are all left ones; what is below
them is the tree. -/
theorem At.leftmost {t : RbTree δ} {gs : List (Frame Ptr)} {c : Color} {l r : ColorTree Ptr}
    {a : Ptr}
    (h : At t gs (.node c l a r)) :
    At t ((Lib.leftmost c a r [] l).2.2.2 ++ gs) (branch .right (Lib.leftmost c a r [] l).1
      (Lib.leftmost c a r [] l).2.2.1 (Lib.leftmost c a r [] l).2.1 .nil) := by
  apply At.unplug
  have hplug := plug_leftmost l c a r []
  rw [Lib.plug] at hplug
  rw [← hplug] at h
  exact h

theorem rbDetachSuccessor_ok {t : RbTree δ} {fs frs : List (Frame Ptr)} {c cs : Color}
    {l u : ColorTree Ptr} {a s : Ptr}
    (h : At t (frs ++ ⟨.right, c, a, l⟩ :: fs) (branch .right cs u s .nil)) :
    ∃ t' q, rbDetachSuccessor t a s (ptr u) = .ok (t', top (frs ++ ⟨.right, c, s, l⟩ :: fs)) ∧
      Spine t'.mem t'.root (top fs) a fs ∧ (t'.mem a).parent = top fs ∧ (t'.mem a).color = c ∧
      Rep t'.mem a (t'.mem a).left l ∧ Rep t'.mem q s (branch .right cs (plug u frs) s .nil) ∧
      (a :: s :: ((plug u frs).toList ++ (l.toList ++ frameNodes fs))).Nodup := by
  have hsF : s ∉ frameNodes (frs ++ ⟨.right, c, a, l⟩ :: fs) := by
    have hn := nodup_branch.1 h.nodup
    simp only [toList, List.nil_append] at hn
    exact (List.nodup_cons.1 (List.nodup_append.1 hn).2.1).1
  have hnodup : (a :: s :: ((plug u frs).toList ++ (l.toList ++ frameNodes fs))).Nodup := by
    refine (List.Perm.nodup_iff ?_).1 (nodup_branch.1 h.nodup)
    have hperm := (toList_plug_perm u frs).symm
    simp only [toList, List.nil_append, frameNodes_append, frameNodes]
    refine List.perm_middle.trans (List.Perm.trans ?_ (List.Perm.swap _ _ _))
    refine List.Perm.cons _ ?_
    rw [← List.append_assoc]
    exact List.perm_middle.trans (List.Perm.cons _ (List.Perm.append_right _ hperm))
  obtain ⟨-, hs0, hsal, hspar, hscol, hu, hleft⟩ := rep_branch.1 h.focus
  cases frs with
  | nil =>
    obtain ⟨-, ha, -, hapar, hacol, hs, hl⟩ := rep_branch.1 h.up.focus
    have hspine := h.up.spine
    rw [ptr_branch] at hspine
    have hrep := h.focus
    rw [ptr_branch] at hrep
    refine ⟨t, a, ?_, hspine, hapar, hacol, hl, hrep, hnodup⟩
    have hpar : getParent t s = .ok a := h.parent
    simp [rbDetachSuccessor, hpar, top]
  | cons f frs =>
    have hne : f.node ≠ a := by
      intro e
      have hn := (List.nodup_append.1 h.nodup).2.1
      simp only [List.cons_append, frameNodes, frameNodes_append, List.nodup_cons] at hn
      exact hn.1 (by simp [e])
    have hspine := h.spine
    rw [ptr_branch] at hspine
    rw [hu.ptr_eq] at hu
    have hnu : (u.toList ++ frameNodes ((f :: frs) ++ ⟨.right, c, a, l⟩ :: fs)).Nodup := by
      have hn := nodup_branch.1 h.nodup
      simp only [toList, List.nil_append] at hn
      exact hn.sublist (List.Sublist.append_left (List.sublist_cons_self _ _) _)
    obtain ⟨t₁, ht₁, h₁, hm₁⟩ := rbTransplant_ok hspine hspar hs0 hsF hu hnu
    have hsu : s ≠ ptr u := by
      intro e
      have hn := nodup_branch.1 h.nodup
      refine (List.nodup_append.1 hn).2.2 s ?_ s (by simp) rfl
      rw [e]
      exact (ptr_mem u).resolve_left fun hz => hs0 (e.trans hz)
    have hs₁ : t₁.mem s = t.mem s := hm₁ s hsF hsu
    have h₂ : At t₁ fs (branch .right c (plug u (f :: frs)) a l) := (At.plug h₁).up
    generalize hR : plug u (f :: frs) = R at h₂ hnodup
    obtain ⟨-, ha, -, hapar, hacol, hRrep, hl⟩ := rep_branch.1 h₂.focus
    rw [hRrep.ptr_eq] at hRrep
    obtain ⟨haout, hn'⟩ := List.nodup_cons.1 hnodup
    obtain ⟨hsout, hn''⟩ := List.nodup_cons.1 hn'
    simp only [List.mem_cons, List.mem_append, not_or] at haout hsout
    obtain ⟨hnR, -, hdR⟩ := List.nodup_append.1 hn''
    have hptrR : ∀ b ∈ l.toList ++ frameNodes fs, b ≠ 0#32 → b ≠ ptr R := by
      rintro b hb hb0 rfl
      exact hdR _ ((ptr_mem R).resolve_left hb0) _ hb rfl
    have haR : a ≠ ptr R := by
      intro e
      exact haout.2.1 (e ▸ (ptr_mem R).resolve_left fun hz => ha (e.trans hz))
    obtain ⟨t₃, ht₃, hrep₃, hroot₃, hm₃⟩ := hang_ok (d := .left) (u := .nil) hs0 hsal
      (hs₁ ▸ hspar) (hs₁ ▸ hscol) (hs₁ ▸ hleft) hRrep (by simpa [toList] using ⟨hsout.1, hnR⟩)
    have ha₃ : t₃.mem a = t₁.mem a := hm₃ a haout.1 haR
    refine ⟨t₃, top ((f :: frs) ++ ⟨.right, c, a, l⟩ :: fs), ?_, ?_, by rw [ha₃, hapar],
      by rw [ha₃, hacol], ?_, hrep₃, hnodup⟩
    · have hpar : getParent t s = .ok f.node := h.parent
      have hright : getChild t₁ a .right = .ok (ptr R) := h₂.near
      simp only [setChild, modify_ok hs0, ok_bind, Side.flip] at ht₃
      simp only [rbDetachSuccessor, hpar, ok_bind, if_neg hne, ht₁, hright, setChild, modify_ok hs0,
        ht₃]
      rfl
    · have hsp := h₂.spine
      rw [ptr_branch] at hsp
      rw [hroot₃]
      refine hsp.congr fun b hb => hm₃ b ?_ ?_
      · rintro rfl
        exact hsout.2.2 hb
      · exact hptrR b (List.mem_append_right _ hb) (hsp.ne_zero hb)
    · rw [ha₃]
      refine hl.congr fun b hb => hm₃ b ?_ ?_
      · rintro rfl
        exact hsout.2.1 hb
      · exact hptrR b (List.mem_append_left _ hb) (hl.ne_zero hb)

/-- What is left when the node `a` is taken out: the colour of the place that is
gone, the subtree now there, and the frames above it. -/
def splice (c : Color) (l r : ColorTree Ptr) (fs : List (Frame Ptr)) :
    Color × ColorTree Ptr × List (Frame Ptr) :=
  match l, r with
  | .nil, _ => (c, r, fs)
  | _, .nil => (c, l, fs)
  | _, .node c' l' a' r' =>
    ((leftmost c' a' r' [] l').1, (leftmost c' a' r' [] l').2.2.1,
      (leftmost c' a' r' [] l').2.2.2 ++ ⟨.right, c, (leftmost c' a' r' [] l').2.1, l⟩ :: fs)

theorem rbConfigureDelete_ok {t : RbTree δ} {fs : List (Frame Ptr)} {c : Color}
    {l r : ColorTree Ptr}
    {a : Ptr} (h : At t fs (.node c l a r)) :
    ∃ t', rbConfigureDelete t a = .ok
        { tree := t', deleteWasBlack := decide ((splice c l r fs).1 = .black)
          nodeToFix := ptr (splice c l r fs).2.1, nodeToFixParent := top (splice c l r fs).2.2 } ∧
      At t' (splice c l r fs).2.2 (splice c l r fs).2.1 := by
  have hb : At t fs (branch .left c l a r) := h
  have ha : a ≠ 0#32 := hb.ne_zero
  obtain ⟨-, -, -, hpar, hcol, hl, hr⟩ := h.focus
  have hblack : (!Rb.isRed t a) = decide (c = .black) := by
    have hred : Rb.isRed t a = decide (c = .red) := h.isRed
    rw [hred]
    cases c <;> rfl
  cases l with
  | nil =>
    obtain ⟨t', ht', hat⟩ := rbTransplant_child hb
    refine ⟨t', ?_, hat⟩
    have hl0 : (t.mem a).left = 0#32 := hl
    simp only [rbConfigureDelete, load_ok ha, ok_bind, hl0, if_true, hr.ptr_eq, ht', hpar, hblack]
    rfl
  | node cl ll al rl =>
    have hl0 : ptr (.node cl ll al rl) ≠ 0#32 := At.ne_zero (d := .left) hb.down
    cases r with
    | nil =>
      obtain ⟨t', ht', hat⟩ := rbTransplant_child (d := .right) h
      refine ⟨t', ?_, hat⟩
      have hr0 : (t.mem a).right = 0#32 := hr
      simp only [rbConfigureDelete, load_ok ha, ok_bind, hl.ptr_eq, if_neg hl0, hr0, if_true, ht',
        hpar, hblack]
      rfl
    | node c' l' a' r' =>
      have hdown : At t (⟨.right, c, a, .node cl ll al rl⟩ :: fs) (.node c' l' a' r') :=
        At.down (d := .right) h
      have ha' : a' ≠ 0#32 := At.ne_zero (d := .left) hdown
      have hr0 : (t.mem a).right ≠ 0#32 := by rwa [hr.1]
      have hlen : l'.toList.length < loopLimit := by
        have h₁ := length_le_toList (⟨.right, c, a, .node cl ll al rl⟩ :: fs) (.node c' l' a' r')
        have h₂ := hdown.holds.length_lt
        simp only [toList, List.length_append, List.length_cons] at h₁
        omega
      have hmin : rbGetMinLoop t loopLimit a' = .ok (leftmost c' a' r' [] l').2.1 :=
        rbGetMinLoop_ok l' loopLimit hdown hlen
      have hs := hdown.leftmost
      rcases hm : leftmost c' a' r' [] l' with ⟨cs, s, u, frs⟩
      have hsplice : splice c (.node cl ll al rl) (.node c' l' a' r') fs =
          (cs, u, frs ++ ⟨.right, c, s, .node cl ll al rl⟩ :: fs) := by simp only [splice, hm]
      rw [hm] at hmin hs
      rw [hsplice]
      have hfind : rbFindSuccessor t a = .ok s := by
        have hright : getChild t a .right = .ok a' := At.near (d := .right) h
        simp only [rbFindSuccessor, hright, ok_bind, rbGetMin, if_neg ha', hmin]
      have hsblack : (!Rb.isRed t s) = decide (cs = .black) := by
        have hred : Rb.isRed t s = decide (cs = .red) := by simpa using hs.isRed
        rw [hred]
        cases cs <;> rfl
      have hfix : getChild t s .right = .ok (ptr u) := hs.near
      obtain ⟨t₁, q, ht₁, hspine, hpar₁, hcol₁, hl₁, hs₁, hn⟩ := rbDetachSuccessor_ok hs
      obtain ⟨t₂, ht₂, h₂⟩ := rbReplaceBySuccessor_ok hspine hpar₁ hcol₁ ha hl₁ hs₁ hn
      refine ⟨t₂, ?_, At.unplug h₂.down⟩
      simp only [rbConfigureDelete, load_ok ha, ok_bind, hl.ptr_eq, if_neg hl0, if_neg hr0,
        rbDeleteConfigureNuclearNode, hfind, hfix, ht₁, ht₂, hsblack]
      rfl

theorem toList_splice (c : Color) (l r : ColorTree Ptr) (fs : List (Frame Ptr)) :
    (plug (splice c l r fs).2.1 (splice c l r fs).2.2).toList =
      before fs ++ (l.toList ++ r.toList) ++ after fs := by
  cases l with
  | nil => simp [splice, toList_plug, toList]
  | node cl ll al rl =>
    cases r with
    | nil => simp [splice, toList_plug, toList]
    | node c' l' a' r' =>
      have hplug := congrArg toList (plug_leftmost l' c' a' r' [])
      have hbefore := before_leftmost l' c' a' r' []
      simp only [splice]
      generalize leftmost c' a' r' [] l' = m at hplug hbefore ⊢
      rw [toList_plug, hbefore] at hplug
      simp only [before, toList, List.nil_append, plug] at hplug hbefore
      rw [plug_append, plug, toList_plug, branch, toList, toList_plug, hbefore]
      simp [toList, ← hplug]

theorem hole_of_removed {d : Side} {c : Color} {v : ColorTree Ptr} {x : Ptr} {fs : List (Frame Ptr)}
    {n : Nat} (h : RB (branch d c .nil x v) c n) (hole : Hole fs c n) :
    (c = .red ∧ RedBlack (plug v fs)) ∨
      (c = .black ∧ ∃ k cv, RB v cv k ∧ Hole fs .black (k + 1)) := by
  cases c with
  | red =>
    obtain ⟨-, -, hv⟩ := h.of_branch_red
    exact .inl ⟨rfl, (hole.any .black).plug hv⟩
  | black =>
    obtain ⟨-, k, rfl, -, hv⟩ := h.of_branch_black
    exact .inr ⟨rfl, k, _, hv, hole⟩

theorem splice_redBlack {c : Color} {l r : ColorTree Ptr} {a : Ptr} {fs : List (Frame Ptr)}
    (h : RedBlack (plug (.node c l a r) fs)) :
    ((splice c l r fs).1 = .red ∧ RedBlack (plug (splice c l r fs).2.1 (splice c l r fs).2.2)) ∨
      ((splice c l r fs).1 = .black ∧ ∃ k cv, RB (splice c l r fs).2.1 cv k ∧
        Hole (splice c l r fs).2.2 .black (k + 1)) := by
  cases l with
  | nil =>
    obtain ⟨c', n, ht, hole⟩ := h.focus
    obtain rfl : c = c' := ht.color_eq
    exact hole_of_removed (d := .left) ht hole
  | node cl ll al rl =>
    cases r with
    | nil =>
      obtain ⟨c', n, ht, hole⟩ := h.focus
      obtain rfl : c = c' := ht.color_eq
      exact hole_of_removed (d := .right) ht hole
    | node c' l' a' r' =>
      have hplug := plug_leftmost l' c' a' r' []
      simp only [splice]
      generalize leftmost c' a' r' [] l' = m at hplug ⊢
      have hwhole : plug (.node c (.node cl ll al rl) a (.node c' l' a' r')) fs =
          plug (branch .right m.1 m.2.2.1 m.2.1 .nil)
            (m.2.2.2 ++ ⟨.right, c, a, .node cl ll al rl⟩ :: fs) := by
        have hpart : plug (branch .right m.1 m.2.2.1 m.2.1 .nil) m.2.2.2 = .node c' l' a' r' :=
        hplug
        rw [plug_append, hpart, plug]
        rfl
      rw [hwhole] at h
      obtain ⟨c'', n, ht, hole⟩ := h.focus
      obtain rfl : m.1 = c'' := by simpa using ht.color_eq
      rw [← branch_flip] at ht
      exact hole_of_removed ht hole.relabel

/-! ## The fixup -/

/-- Will the fixup of a focus of this colour, which lacks a black node, get the
colours right? It goes wrong at a black sibling with a red child under a red
parent, be it red before or by the rotation of a red sibling. -/
def fixSafe : Color → List (Frame Ptr) → Bool
  | _, [] => true
  | .red, _ :: _ => true
  | .black, f :: fs =>
    match f.sibling with
    | .nil => false
    | .node .red l _ r =>
      match near f.side l r with
      | .nil => false
      | .node _ l' _ r' => decide (l'.color = .black) && decide (r'.color = .black)
    | .node .black l _ r =>
      if l.color = .black ∧ r.color = .black then fixSafe f.color fs else decide (f.color = .black)

/-- The last rotation: the black sibling `y` with a red child comes up, or, where its inner
child is red, that child. The parent's colour is lost. -/
def deleteRotation (d : Side) (v : ColorTree Ptr) (b : Ptr) (i : ColorTree Ptr) (y : Ptr)
    (o : ColorTree Ptr) : ColorTree Ptr :=
  match i with
  | .node .red l z r =>
    branch d .black (branch d .black v b (near d l r)) z (branch d .black (near d.flip l r) y o)
  | i => branch d .black (branch d .black v b i) y o.blacken

/-- What the fixup makes of the focus `v` under the frames. -/
inductive DeleteRepair : List (Frame Ptr) → ColorTree Ptr → ColorTree Ptr → Prop where
  /-- At the root. -/
  | top (v : ColorTree Ptr) : DeleteRepair [] v v.blacken
  /-- A red focus is set black. -/
  | red {fs : List (Frame Ptr)} {v : ColorTree Ptr} (hv : v.color = .red) :
      DeleteRepair fs v (plug v.blacken fs)
  /-- The black sibling has black children and is set red: the parent is the next focus. -/
  | push {fs : List (Frame Ptr)} {d : Side} {c : Color} {v i o u : ColorTree Ptr} {b y : Ptr}
      (hv : v.color = .black) (hi : i.color = .black) (ho : o.color = .black)
      (next : DeleteRepair fs (branch d c v b (branch d .red i y o)) u) :
      DeleteRepair (⟨d, c, b, branch d .black i y o⟩ :: fs) v u
  /-- The black sibling has a red child. -/
  | rotate {fs : List (Frame Ptr)} {d : Side} {c : Color} {v i o : ColorTree Ptr} {b y : Ptr}
      (hv : v.color = .black) (hred : ¬ (i.color = .black ∧ o.color = .black)) :
      DeleteRepair (⟨d, c, b, branch d .black i y o⟩ :: fs) v
        (plug (deleteRotation d v b i y o) fs).blacken
  /-- The red sibling comes up, and its inner child is the next sibling. -/
  | turn {fs : List (Frame Ptr)} {d : Side} {c : Color} {v i o u : ColorTree Ptr} {b y : Ptr}
      (hv : v.color = .black) (hi : i.color = .black)
      (next : DeleteRepair (⟨d, .red, b, i⟩ :: ⟨d, .black, y, o⟩ :: fs) v u) :
      DeleteRepair (⟨d, c, b, branch d .red i y o⟩ :: fs) v u

theorem deleteRotation_zigzag (d : Side) (v x m o : ColorTree Ptr) (b y z : Ptr) :
    deleteRotation d v b (branch d .red x z m) y o =
      branch d .black (branch d .black v b x) z (branch d .black m y o) := by
  cases d <;> rfl

theorem deleteRotation_line (d : Side) (v o : ColorTree Ptr) (b y : Ptr) {i : ColorTree Ptr}
    (hi : i.color = .black) :
    deleteRotation d v b i y o = branch d .black (branch d .black v b i) y o.blacken := by
  cases i with
  | nil => rfl
  | node c l a r =>
    obtain rfl : c = .black := hi
    rfl

theorem exists_branch_of_red {i : ColorTree Ptr} (hi : i.color = .red) (d : Side) :
    ∃ x z m, i = branch d .red x z m := by
  cases i with
  | nil => cases hi
  | node c l z r =>
    obtain rfl : c = .red := hi
    obtain ⟨x, m, hxm⟩ := branch_eq_branch d .left .red l r z
    exact ⟨x, z, m, hxm⟩

theorem color_cases (u : ColorTree Ptr) : u.color = .black ∨ u.color = .red := by
  cases u.color with
  | red => exact .inr rfl
  | black => exact .inl rfl

theorem toList_deleteRotation (d : Side) (c : Color) (v i o : ColorTree Ptr) (b y : Ptr) :
    (deleteRotation d v b i y o).toList = (branch d c v b (branch d .black i y o)).toList := by
  rcases color_cases i with hi | hi
  · rw
      [deleteRotation_line d v o b y hi, ← toList_rotate d c .black .black .black v i o.blacken b y]
    exact toList_branch_congr d c c b rfl
      (toList_branch_congr d .black .black y rfl (toList_blacken o))
  · obtain ⟨x, z, m, rfl⟩ := exists_branch_of_red hi d
    rw [deleteRotation_zigzag,
      ← toList_rotate d c .black .black .black v x (branch d .black m y o) b z]
    exact toList_branch_congr d c c b rfl (toList_rotate ..)

/-- The focus gets a second black node above it, and so do the other subtrees. -/
theorem deleteRotation_redBlack {d : Side} {v i o : ColorTree Ptr} {b y : Ptr} {n : Nat}
    {ci co : Color} (hv : RB v .black n) (hi : RB i ci n) (ho : RB o co n)
    (hred : ¬ (i.color = .black ∧ o.color = .black)) :
    RB (deleteRotation d v b i y o) .black (n + 2) := by
  cases ci with
  | black =>
    -- the outer child is the red one
    obtain rfl : co = .red := by
      cases co with
      | red => rfl
      | black => exact absurd ⟨hi.color_eq, ho.color_eq⟩ hred
    rw [deleteRotation_line d v o b y hi.color_eq]
    exact (hv.branch_black hi).branch_black ho.blacken
  | red =>
    obtain ⟨x, z, m, rfl, hx, hm⟩ := hi.exists_branch_red d
    rw [deleteRotation_zigzag]
    exact (hv.branch_black hx).branch_black (hm.branch_black ho)

theorem DeleteRepair.toList_eq {fs : List (Frame Ptr)} {v u : ColorTree Ptr}
    (h : DeleteRepair fs v u) : u.toList = (plug v fs).toList := by
  induction h with
  | top v => exact toList_blacken v
  | red hv => rw [toList_plug, toList_plug, toList_blacken]
  | push hv hi ho next ih =>
    rw [ih, plug, toList_plug, toList_plug]
    congr 2
    exact toList_branch_congr _ _ _ _ rfl (toList_branch_congr _ .red .black _ rfl rfl)
  | @rotate fs d c v i o b y hv hred =>
    rw [toList_blacken, plug, toList_plug, toList_plug, toList_deleteRotation d c]
  | @turn fs d c v i o u b y hv hi next ih =>
    rw [ih, plug, plug, plug, toList_plug, toList_plug]
    congr 2
    exact (toList_rotate d c .red .black .red v i o b y).symm

/-- A red sibling leads to a right tree when the children of its inner child are
both black. -/
theorem fixSafe_sibling_red {d : Side} {c : Color} {b y : Ptr} {i o : ColorTree Ptr}
    {fs : List (Frame Ptr)} (hi : i.color = .black) :
    fixSafe .black (⟨d, c, b, branch d .red i y o⟩ :: fs) =
      fixSafe .black (⟨d, .red, b, i⟩ :: ⟨d, .black, y, o⟩ :: fs) := by
  cases i with
  | nil => cases d <;> rfl
  | node ci l z r =>
    obtain rfl : ci = .black := hi
    cases d <;> simp [fixSafe, branch, near, Bool.and_comm]

theorem fixSafe_sibling_black {d : Side} {cf : Color} {b y : Ptr} {i o : ColorTree Ptr}
    {fs : List (Frame Ptr)} :
    fixSafe .black (⟨d, cf, b, branch d .black i y o⟩ :: fs) =
      if i.color = .black ∧ o.color = .black then fixSafe cf fs else decide (cf = .black) := by
  cases d with
  | left => simp [fixSafe, branch]
  | right => simp [fixSafe, branch, and_comm]

/-- The fixup leaves a red-black tree where it is safe. A red focus may have red children:
it is set black next. -/
theorem DeleteRepair.redBlack {fs : List (Frame Ptr)} {v u : ColorTree Ptr}
    (h : DeleteRepair fs v u) : ∀ {n : Nat}, (v.color = .red → RB v.blacken .black (n + 1)) →
    (v.color = .black → RB v .black n) → Hole fs .black (n + 1) → fixSafe v.color fs = true →
    RedBlack u := by
  induction h with
  | top v =>
    intro n hred hblack _ _
    rcases color_cases v with hv | hv
    · exact ⟨n, (hblack hv).blacken_eq.symm ▸ hblack hv⟩
    · exact ⟨n + 1, hred hv⟩
  | red hv =>
    intro n hred _ hole _
    exact hole.plug (hred hv)
  | @push fs d c v i o u b y hv hi ho next ih =>
    intro n _ hblack hole hsafe
    rw [hv, fixSafe_sibling_black, if_pos ⟨hi, ho⟩] at hsafe
    rw [color_branch] at ih
    obtain ⟨hsib, hup⟩ := hole.of_cons
    obtain ⟨-, k, hk, hi', ho'⟩ := hsib.of_branch_black
    obtain rfl : n = k := by omega
    have hy : RB (branch d .red i y o) .red n := (hi ▸ hi').branch_red (ho ▸ ho')
    cases c with
    | red =>
      refine ih (fun _ => ?_) (fun hc => by cases hc) (hup.1 rfl) hsafe
      rw [blacken_branch]
      exact (hblack hv).branch_black hy
    | black =>
      exact ih (fun hc => by cases hc) (fun _ => (hblack hv).branch_black hy) (hup.2 rfl) hsafe
  | @rotate fs d c v i o b y hv hred =>
    intro n _ hblack hole hsafe
    rw [hv, fixSafe_sibling_black, if_neg hred] at hsafe
    obtain ⟨hsib, hup⟩ := hole.of_cons
    obtain ⟨-, k, hk, hi', ho'⟩ := hsib.of_branch_black
    obtain rfl : n = k := by omega
    obtain ⟨m, hm⟩ := (hup.2 (of_decide_eq_true hsafe)).plug
      (deleteRotation_redBlack (b := b) (y := y) (hblack hv) hi' ho' hred)
    exact ⟨m, hm.blacken_eq.symm ▸ hm⟩
  | @turn fs d c v i o u b y hv hi next ih =>
    intro n hred hblack hole hsafe
    rw [hv, fixSafe_sibling_red hi] at hsafe
    rw [hv] at ih hred hblack
    obtain ⟨hsib, hup⟩ := hole.of_cons
    rw [color_branch] at hsib
    obtain ⟨-, hi', ho'⟩ := hsib.of_branch_red
    -- a red sibling has a black parent
    obtain rfl : c = .black := by
      cases hole with
      | red hbad _ => exact absurd hbad.color_eq (by simp)
      | black _ _ => rfl
    exact ih hred hblack (.red hi' (.black ho' (hup.2 rfl))) hsafe

/-! ## The fixup in memory -/

theorem rbDeleteFixupLoop_red {t : RbTree δ} {fs : List (Frame Ptr)} {d : Side}
    {u v : ColorTree Ptr}
    {a : Ptr} (h : At t fs (branch d .red u a v)) (fuel : Nat) (q : Ptr) :
    ∃ t', rbDeleteFixupLoop (fuel + 1) t a q = .ok t' ∧ At t' fs (branch d .black u a v) := by
  have hred : Rb.isRed t a = true := by simpa using h.isRed
  obtain ⟨t', ht', hat⟩ := h.setBlackOf
  rw [ptr_branch] at ht'
  exact ⟨t', by simp [rbDeleteFixupLoop, hred, ht'], by simpa using hat⟩

theorem children_black {t : RbTree δ} {fs : List (Frame Ptr)} {d : Side} {c : Color}
    {u v : ColorTree Ptr} {a : Ptr} (h : At t fs (branch d c u a v)) :
    ∃ x y, getChild t a .left = .ok x ∧ getChild t a .right = .ok y ∧
      ((!Rb.isRed t x && !Rb.isRed t y) = true ↔ u.color = .black ∧ v.color = .black) := by
  have hcolor : ∀ w : ColorTree Ptr, (!decide (w.color = .red)) = decide (w.color = .black) := by
    intro w
    cases w.color <;> rfl
  have hu : (!Rb.isRed t (ptr u)) = decide (u.color = .black) := by rw [h.down.isRed, hcolor]
  have hv : (!Rb.isRed t (ptr v)) = decide (v.color = .black) := by rw [h.down.across.isRed, hcolor]
  cases d with
  | left => exact ⟨ptr u, ptr v, h.near, h.far, by simp [hu, hv]⟩
  | right => exact ⟨ptr v, ptr u, h.far, h.near, by simp [hu, hv, and_comm]⟩

theorem siblingRed_ok {t : RbTree δ} {fs : List (Frame Ptr)} {d : Side} {c : Color}
    {v i o : ColorTree Ptr} {b y : Ptr} (h : At t (⟨d, c, b, branch d .red i y o⟩ :: fs) v) :
    ∃ t', rbDeleteFixupSiblingRed t b y d = .ok t' ∧
      At t' (⟨d, .red, b, i⟩ :: ⟨d, .black, y, o⟩ :: fs) v := by
  obtain ⟨t₁, ht₁, h₁⟩ := h.across.setBlack
  obtain ⟨t₂, ht₂, h₂⟩ := h₁.across_flip.up.setRed
  obtain ⟨t₃, ht₃, h₃⟩ := h₂.rotate
  exact ⟨t₃, by simp only [rbDeleteFixupSiblingRed, ht₁, ok_bind, ht₂, ht₃], h₃.down.down⟩

/-- The zigzag rotation, if there is one: the sibling `z` is black, and its outer subtree
`w` is one that will be set black. -/
theorem zigzag_ok {t : RbTree δ} {fs : List (Frame Ptr)} {d : Side} {c : Color}
    {v i o : ColorTree Ptr} {b y : Ptr}
    (h : At t (⟨d, c, b, branch d .black i y o⟩ :: fs) v) :
    ∃ t' z x w, rbDeleteFixupZigzag t b y d = .ok (t', z) ∧
      At t' (⟨d, c, b, branch d .black x z w⟩ :: fs) v ∧
      branch d .black (branch d .black v b x) z w.blacken = deleteRotation d v b i y o := by
  have hsib : At t (⟨d.flip, c, b, v⟩ :: fs) (branch d .black i y o) := h.across
  have hinner : getChild t y d = .ok (ptr i) := hsib.near
  have hcolor : Rb.isRed t (ptr i) = decide (i.color = .red) := hsib.down.isRed
  rcases color_cases i with hi | hi
  · refine ⟨t, y, i, o, ?_, h, (deleteRotation_line d v o b y hi).symm⟩
    simp [rbDeleteFixupZigzag, hinner, hcolor, hi]
  · obtain ⟨x, z, m, rfl⟩ := exists_branch_of_red hi d
    obtain ⟨t₁, ht₁, h₁⟩ := hsib.down.setBlackOf
    obtain ⟨t₂, ht₂, h₂⟩ := h₁.up.setRed
    rw [blacken_branch, ← branch_flip d .red, ← branch_flip d .black] at h₂
    obtain ⟨t₃, ht₃, h₃⟩ := h₂.rotate
    rw [branch_flip, branch_flip] at h₃
    have h₄ := h₃.across_flip
    have hsib' : getChild t₃ b d.flip = .ok z := by simpa using h₄.up.far
    refine ⟨t₃, z, x, branch d .red m y o, ?_, h₄, ?_⟩
    · rw [ptr_branch] at hinner hcolor ht₁
      simp [rbDeleteFixupZigzag, hinner, hcolor, ht₁, ht₂, ht₃, hsib']
    · rw [blacken_branch, deleteRotation_zigzag]

theorem siblingBlackChildRed_ok {t : RbTree δ} {fs : List (Frame Ptr)} {d : Side} {c : Color}
    {v i o : ColorTree Ptr} {b y : Ptr}
    (h : At t (⟨d, c, b, branch d .black i y o⟩ :: fs) v) :
    ∃ t', rbDeleteFixupSiblingBlackChildRed t b y d = .ok t' ∧
      At t' fs (deleteRotation d v b i y o) := by
  obtain ⟨t₁, z, x, w, ht₁, h₁, hshape⟩ := zigzag_ok h
  obtain ⟨t₂, ht₂, h₂⟩ := h₁.up.setBlack
  have houter : getChild t₂ z d.flip = .ok (ptr w) := h₂.down.across.far
  obtain ⟨t₃, ht₃, h₃⟩ := h₂.down.across.down.across.setBlackOf
  obtain ⟨t₄, ht₄, h₄⟩ := h₃.across_flip.up.across_flip.up.rotate
  refine ⟨t₄, ?_, hshape ▸ h₄⟩
  simp only [rbDeleteFixupSiblingBlackChildRed, ht₁, ok_bind, ht₂, houter, ht₃, ht₄]

/-- One turn of the loop, once the sibling `y` is black. With two black children
the sibling is set red and the loop goes on at the parent; else the turn is the
last one. -/
theorem rbDeleteFixupLoop_turn {t t₁ : RbTree δ} {fs : List (Frame Ptr)} {d : Side} {c : Color}
    {v i o : ColorTree Ptr} {b y : Ptr} (fuel : Nat) (hroot : ptr v ≠ t.root)
    (hblack : Rb.isRed t (ptr v) = false) (hside : childSide t b (ptr v) = .ok d)
    (hsib : rbDeleteFixupSibling t b d = .ok (t₁, y))
    (h : At t₁ (⟨d, c, b, branch d .black i y o⟩ :: fs) v) :
    (i.color = .black ∧ o.color = .black → ∃ t', rbDeleteFixupLoop (fuel + 1) t (ptr v) b =
        rbDeleteFixupLoop fuel t' b (top fs) ∧ At t' fs (branch d c v b (branch d .red i y o))) ∧
    (¬ (i.color = .black ∧ o.color = .black) → ∃ t', rbDeleteFixupLoop (fuel + 1) t (ptr v) b =
        .ok t' ∧ Holds t' (plug (deleteRotation d v b i y o) fs).blacken) := by
  obtain ⟨x, z, hx, hz, htest⟩ := children_black h.across
  have hcode : rbDeleteFixupLoop (fuel + 1) t (ptr v) b =
      if !Rb.isRed t₁ x && !Rb.isRed t₁ z then (do
        let t ← setRed t₁ y
        let next ← getParent t b
        rbDeleteFixupLoop fuel t b next)
      else (do
        let t ← rbDeleteFixupSiblingBlackChildRed t₁ b y d
        Rb.setBlackOf t t.root) := by
    simp only [rbDeleteFixupLoop, hroot, hblack, decide_false, Bool.or_self, Bool.false_eq_true,
      if_false, hside, ok_bind, hsib, hx, hz]
  constructor
  · intro hboth
    obtain ⟨t₂, ht₂, h₂⟩ := h.across.setRed
    have h₃ := h₂.across_flip.up
    exact ⟨t₂, by rw [hcode, if_pos (htest.2 hboth), ht₂, ok_bind, h₃.parent, ok_bind], h₃⟩
  · intro hnot
    obtain ⟨t₂, ht₂, h₂⟩ := siblingBlackChildRed_ok h
    have hh := h₂.holds
    obtain ⟨t₃, ht₃, h₃⟩ := At.setBlackOf hh
    rw [show ptr (plug (deleteRotation d v b i y o) fs) = t₂.root from hh.spine.2.symm] at ht₃
    exact ⟨t₃, by rw [hcode, if_neg fun e => hnot (htest.1 e), ht₂, ok_bind, ht₃], h₃⟩

theorem rbDeleteFixupLoop_sibling_red {t : RbTree δ} {fs : List (Frame Ptr)} {d : Side}
    {cf : Color} {b : Ptr} {v w : ColorTree Ptr} {n : Nat} (fuel : Nat)
    (h : At t (⟨d, cf, b, w⟩ :: fs) v) (hv : v.color = .black) (hw : RB w .red (n + 1)) :
    ∃ t' u', rbDeleteFixupLoop (fuel + 2) t (ptr v) b = .ok t' ∧ Holds t' u' ∧
      DeleteRepair (⟨d, cf, b, w⟩ :: fs) v u' := by
  obtain ⟨i, y, o, rfl, hi, ho⟩ := hw.exists_branch_red d
  obtain ⟨i₁, z, i₂, rfl, -, -⟩ := hi.exists_branch_black d
  have hblack : Rb.isRed t (ptr v) = false := by simp [h.isRed, hv]
  have hred : Rb.isRed t y = true := by simpa using h.across.isRed
  have hy : y ≠ 0#32 := h.across.ne_zero
  have hside : childSide t b (ptr v) = .ok d := At.childSide h (.inr (by simpa using hy))
  have hget : getChild t b d.flip = .ok y := by simpa using h.up.far
  obtain ⟨t₁, ht₁, h₁⟩ := siblingRed_ok h
  have hget₁ : getChild t₁ b d.flip = .ok z := by simpa using h₁.up.far
  have hsib : rbDeleteFixupSibling t b d = .ok (t₁, z) := by
    simp [rbDeleteFixupSibling, hget, hred, ht₁, hget₁]
  obtain ⟨hboth, hnot⟩ := rbDeleteFixupLoop_turn (fuel + 1) h.ptr_ne_root hblack hside hsib h₁
  by_cases hc : i₁.color = .black ∧ i₂.color = .black
  · obtain ⟨t₂, hcode, h₂⟩ := hboth hc
    obtain ⟨t₃, ht₃, h₃⟩ := rbDeleteFixupLoop_red h₂ fuel (top (⟨d, .black, y, o⟩ :: fs))
    refine ⟨t₃, _, hcode.trans ht₃, h₃.holds, .turn hv hi.color_eq (.push hv hc.1 hc.2 ?_)⟩
    rw [← blacken_branch d .red v (branch d .red i₁ z i₂) b]
    exact .red (color_branch ..)
  · obtain ⟨t₂, ht₂, h₂⟩ := hnot hc
    exact ⟨t₂, _, ht₂, h₂, .turn hv hi.color_eq (.rotate hv hc)⟩

/-- `rb_delete_fixup` on a red-black tree in which the focus lacks a black node. -/
theorem rbDeleteFixupLoop_ok : ∀ (fs : List (Frame Ptr)) (fuel : Nat) {t : RbTree δ}
    {v : ColorTree Ptr} {n : Nat}, At t fs v → (v.color = .black → RB v .black n) →
    Hole fs .black (n + 1) → fs.length < fuel →
    ∃ t' u', rbDeleteFixupLoop fuel t (ptr v) (top fs) = .ok t' ∧ Holds t' u' ∧
      DeleteRepair fs v u' := by
  intro fs
  induction fs with
  | nil =>
    intro fuel t v n h _ _ hfuel
    obtain ⟨fuel, rfl⟩ : ∃ k, fuel = k + 1 := ⟨fuel - 1, by omega⟩
    have hroot : t.root = ptr v := h.spine.2
    obtain ⟨t', ht', hat⟩ := h.setBlackOf
    exact ⟨t', v.blacken, by simp [rbDeleteFixupLoop, hroot, ht'], hat, .top v⟩
  | cons f fs ih =>
    intro fuel t v n h hv hole hfuel
    obtain ⟨fuel, rfl⟩ : ∃ k, fuel = k + 2 := ⟨fuel - 2, by rw [List.length_cons] at hfuel; omega⟩
    obtain ⟨d, cf, b, w⟩ := f
    rcases color_cases v with hc | hc
    · obtain ⟨hw, hup⟩ := hole.of_cons
      rcases color_cases w with hcw | hcw
      · rw [hcw] at hw
        obtain ⟨i, y, o, rfl, hi, ho⟩ := hw.exists_branch_black d
        have hblack : Rb.isRed t (ptr v) = false := by simp [h.isRed, hc]
        have hred : Rb.isRed t y = false := by simpa using h.across.isRed
        have hy : y ≠ 0#32 := h.across.ne_zero
        have hside : childSide t b (ptr v) = .ok d := At.childSide h (.inr (by simpa using hy))
        have hget : getChild t b d.flip = .ok y := by simpa using h.up.far
        have hsib : rbDeleteFixupSibling t b d = .ok (t, y) := by
          simp [rbDeleteFixupSibling, hget, hred]
        obtain ⟨hboth, hnot⟩ := rbDeleteFixupLoop_turn (fuel + 1) h.ptr_ne_root hblack hside hsib h
        by_cases hio : i.color = .black ∧ o.color = .black
        · -- the sibling turns red, and the whole subtree lacks a black node
          obtain ⟨t₁, hcode, h₁⟩ := hboth hio
          have hy' : RB (branch d .red i y o) .red n := (hio.1 ▸ hi).branch_red (hio.2 ▸ ho)
          have hlen : fs.length < fuel + 1 := by
            rw [List.length_cons] at hfuel
            omega
          obtain ⟨t₂, u₂, ht₂, h₂, hrep⟩ : ∃ t₂ u₂, rbDeleteFixupLoop (fuel + 1) t₁
              (ptr (branch d cf v b (branch d .red i y o))) (top fs) = .ok t₂ ∧ Holds t₂ u₂ ∧
              DeleteRepair fs (branch d cf v b (branch d .red i y o)) u₂ := by
            cases cf with
            | red => exact ih (fuel + 1) h₁ (fun hbad => by simp at hbad) (hup.1 rfl) hlen
            | black =>
              exact ih (fuel + 1) h₁ (fun _ => (hv hc).branch_black hy') (hup.2 rfl) hlen
          rw [ptr_branch] at ht₂
          exact ⟨t₂, u₂, hcode.trans ht₂, h₂, .push hc hio.1 hio.2 hrep⟩
        · obtain ⟨t₁, ht₁, h₁⟩ := hnot hio
          exact ⟨t₁, _, ht₁, h₁, .rotate hc hio⟩
      · exact rbDeleteFixupLoop_sibling_red fuel h hc (hcw ▸ hw)
    · obtain ⟨t', ht', hat⟩ := h.setBlackOf
      have hred : Rb.isRed t (ptr v) = true := by simp [h.isRed, hc]
      exact ⟨t', _, by simp [rbDeleteFixupLoop, hred, ht'], hat.holds, .red hc⟩

/-! ## The two removals -/

/-- Does the removal of the node with these subtrees, under these frames, leave
a red-black tree? A red place can go; a black one has to be made up for. -/
def spliceSafe (c : Color) (l r : ColorTree Ptr) (fs : List (Frame Ptr)) : Bool :=
  match splice c l r fs with
  | (.red, _, _) => true
  | (.black, v, gs) => fixSafe v.color gs

theorem rbAugmentSpliced_ok (cb : Callbacks δ) {t : RbTree δ} {u v : ColorTree Ptr}
    {gs : List (Frame Ptr)}
    (h : Holds t u) (hlist : u.toList = (plug v gs).toList) :
    ∃ t', rbAugmentSpliced cb t (ptr v) (top gs) = .ok t' ∧ Holds t' u := by
  have hv : ptr v = 0#32 ∨ ptr v ∈ u.toList := by
    refine (ptr_mem v).imp_right fun hmem => ?_
    rw [hlist, (toList_plug_perm v gs).mem_iff]
    exact List.mem_append_left _ hmem
  have hg : top gs = 0#32 ∨ top gs ∈ u.toList := by
    cases gs with
    | nil => exact .inl rfl
    | cons f gs =>
      refine .inr ?_
      rw [hlist, (toList_plug_perm v _).mem_iff]
      simp [frameNodes, top]
  unfold rbAugmentSpliced
  split
  · exact rbAugmentFrom_ok cb.augment h hv
  · split
    · exact rbAugmentFrom_ok cb.augment h hg
    · exact ⟨t, rfl, h⟩

/-- What the removal of the node with these subtrees, under these frames, leaves: a red
place is gone as it is, a black one is made up for. -/
def RemoveRepair (c : Color) (l r : ColorTree Ptr) (fs : List (Frame Ptr)) (u : ColorTree Ptr) :
    Prop :=
  match splice c l r fs with
  | (.red, v, gs) => u = plug v gs
  | (.black, v, gs) => DeleteRepair gs v u

theorem rbFixSpliced_ok {t : RbTree δ} {fs : List (Frame Ptr)} {c : Color} {l r : ColorTree Ptr}
    {a : Ptr} (h : At t fs (.node c l a r)) (hrb : RedBlack (plug (.node c l a r) fs)) :
    ∃ s t' u', rbConfigureDelete t a = .ok s ∧ s.nodeToFix = ptr (splice c l r fs).2.1 ∧
      s.nodeToFixParent = top (splice c l r fs).2.2 ∧ rbFixSpliced s = .ok t' ∧ Holds t' u' ∧
      RemoveRepair c l r fs u' ∧ (spliceSafe c l r fs = true → RedBlack u') := by
  obtain ⟨t₁, ht₁, h₁⟩ := rbConfigureDelete_ok h
  have hsplice := splice_redBlack hrb
  have hlen : (splice c l r fs).2.2.length < loopLimit := by
    have hle := length_le_toList (splice c l r fs).2.2 (splice c l r fs).2.1
    have hlt := h₁.holds.length_lt
    omega
  simp only [spliceSafe, RemoveRepair]
  rcases hs : splice c l r fs with ⟨cs, v, gs⟩
  rw [hs] at ht₁ h₁ hsplice hlen
  rcases hsplice with ⟨hred, hkeep⟩ | ⟨hblack, k, cv, hv, hole⟩
  · obtain rfl : cs = .red := hred
    exact ⟨_, t₁, _, ht₁, rfl, rfl, rfl, h₁.holds, rfl, fun _ => hkeep⟩
  · obtain rfl : cs = .black := hblack
    obtain rfl : v.color = cv := hv.color_eq
    have hvb : v.color = .black → RB v .black k := fun hc => hc ▸ hv
    obtain ⟨t₂, u₂, ht₂, h₂, hrep⟩ := rbDeleteFixupLoop_ok gs loopLimit h₁ hvb hole hlen
    refine ⟨_, t₂, u₂, ht₁, rfl, rfl, ht₂, h₂, hrep, fun hsafe => ?_⟩
    exact hrep.redBlack (fun hc => RB.blacken (hc ▸ hv)) hvb hole hsafe

theorem RemoveRepair.toList_eq {c : Color} {l r u : ColorTree Ptr} {fs : List (Frame Ptr)}
    (h : RemoveRepair c l r fs u) :
    u.toList = (plug (splice c l r fs).2.1 (splice c l r fs).2.2).toList := by
  unfold RemoveRepair at h
  rcases hs : splice c l r fs with ⟨cs, v, gs⟩
  rw [hs] at h
  cases cs with
  | red => exact congrArg toList h
  | black => exact DeleteRepair.toList_eq h

theorem rbRemove_ok (cb : Callbacks δ) {t : RbTree δ} {fs : List (Frame Ptr)} {c : Color}
    {l r : ColorTree Ptr} {a : Ptr} (h : At t fs (.node c l a r))
    (hrb : RedBlack (plug (.node c l a r) fs)) :
    ∃ t' u', rbRemove cb t a = .ok (t', a) ∧ Holds t' u' ∧
      u'.toList = before fs ++ (l.toList ++ r.toList) ++ after fs ∧
      (spliceSafe c l r fs = true → RedBlack u') := by
  obtain ⟨s, t₂, u₂, ht₁, hfix, hpar, ht₂, h₂, hrep, hsafe⟩ := rbFixSpliced_ok h hrb
  obtain ⟨t₃, ht₃, h₃⟩ := rbAugmentSpliced_ok cb h₂ hrep.toList_eq
  refine ⟨t₃, u₂, ?_, h₃, hrep.toList_eq.trans (toList_splice c l r fs), hsafe⟩
  simp only [rbRemove, ht₁, ok_bind, ht₂, hfix, hpar, ht₃]
  rfl

end X86Kernel.Rb
