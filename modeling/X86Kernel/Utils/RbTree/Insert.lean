import X86Kernel.Utils.RbTree.Layout

/- Searching and inserting in a red-black tree.

   What is proved: the search follows the order of the nodes to the place of its
   key, and `rb_insert` of a node that is not in the tree puts it there and
   repairs the colours: the tree in memory is a red-black tree again, and its
   nodes in order are the old ones with the new one at its place
   (`rbInsert_new`). A node that compares equal to one in the tree changes
   nothing (`rbInsert_equal`).

   `rb_insert_fixup` is followed up the frames above the new node: the focus is
   a red tree in a hole for a black one. -/
namespace X86Kernel.Rb
open X86Kernel.Lib X86Kernel.Lib.ColorTree

variable {δ : Type}

/-! ## Order -/

/-- A comparator that orders the nodes `S` totally; different nodes may have
equal keys. -/
structure TotalOrder (S : Ptr → Prop) (cmp : Ptr → Ptr → Int) : Prop where
  refl : ∀ a, S a → cmp a a = 0
  swap : ∀ a b, S a → S b → (cmp a b < 0 ↔ 0 < cmp b a)
  trans : ∀ a b c, S a → S b → S c → cmp a b ≤ 0 → cmp b c ≤ 0 → cmp a c ≤ 0

theorem TotalOrder.lt_trans {S : Ptr → Prop} {cmp : Ptr → Ptr → Int} (h : TotalOrder S cmp)
    {a b c : Ptr} (ha : S a) (hb : S b) (hc : S c) (hab : cmp a b < 0) (hbc : cmp b c < 0) :
    cmp a c < 0 := by
  have hac := h.trans a b c ha hb hc hab.le hbc.le
  by_contra hge
  have hca : cmp c a ≤ 0 := by
    have := (h.swap a c ha hc).not.1 hge
    omega
  have hcb := h.trans c a b hc ha hb hca hab.le
  have := (h.swap b c hb hc).1 hbc
  omega

/-- The nodes of the tree stand in increasing order. -/
def Ordered (cmp : Ptr → Ptr → Int) (u : ColorTree Ptr) : Prop := u.toList.Pairwise (cmp · · < 0)

/-- The frames that the search for `data` leaves behind it. -/
def Sided (cmp : Ptr → Ptr → Int) (data : Ptr) (fs : List (Frame Ptr)) : Prop :=
  ∀ f ∈ fs, match f.side with
    | .left => cmp f.node data > 0
    | .right => cmp f.node data < 0

/-- The nodes that are smaller than `data` are a lower part of the order, and those that
are greater an upper part. More is not needed for the search. -/
structure Cuts (S : Ptr → Prop) (cmp : Ptr → Ptr → Int) (data : Ptr) : Prop where
  below : ∀ a b, S a → S b → cmp a b < 0 → cmp b data < 0 → cmp a data < 0
  above : ∀ a b, S a → S b → cmp a b < 0 → 0 < cmp a data → 0 < cmp b data

theorem TotalOrder.cuts {S : Ptr → Prop} {cmp : Ptr → Ptr → Int} (h : TotalOrder S cmp)
    {data : Ptr} (hdata : S data) : Cuts S cmp data where
  below a b ha hb hab hb' := h.lt_trans ha hb hdata hab hb'
  above a b ha hb hab ha' := by
    have hda := (h.swap _ _ hdata ha).2 ha'
    exact (h.swap _ _ hdata hb).1 (h.lt_trans hdata ha hb hda hab)

/-- Along the order the nodes are first smaller than `data`, then equal to it, then
greater. -/
def Monotone (cmp : Ptr → Ptr → Int) (data : Ptr) (nodes : List Ptr) : Prop :=
  nodes.Pairwise fun a b => (cmp b data < 0 → cmp a data < 0) ∧ (0 < cmp a data → 0 < cmp b data)

theorem Cuts.monotone {S : Ptr → Prop} {cmp : Ptr → Ptr → Int} {data : Ptr}
    (hcuts : Cuts S cmp data) {nodes : List Ptr} (hS : ∀ a ∈ nodes, S a)
    (hord : nodes.Pairwise (cmp · · < 0)) : Monotone cmp data nodes := by
  refine hord.imp_of_mem fun ha hb hab => ?_
  exact ⟨hcuts.below _ _ (hS _ ha) (hS _ hb) hab, hcuts.above _ _ (hS _ ha) (hS _ hb) hab⟩

theorem Sided.bounds_of_monotone {cmp : Ptr → Ptr → Int} {data : Ptr} :
    ∀ {fs : List (Frame Ptr)}, Sided cmp data fs → Monotone cmp data (before fs ++ after fs) →
      (∀ a ∈ before fs, cmp a data < 0) ∧ ∀ a ∈ after fs, 0 < cmp a data := by
  intro fs
  induction fs with
  | nil => intro _ _; simp [before, after]
  | cons f fs ih =>
    intro hs hmono
    have hf := hs f (by simp)
    have hrest : Sided cmp data fs := fun g hg => hs g (by simp [hg])
    cases hside : f.side with
    | left =>
      rw [hside] at hf
      simp only [before, after, hside] at hmono ⊢
      have hsub := List.Sublist.append_left (List.sublist_append_right
        (f.node :: f.sibling.toList) (after fs)) (before fs)
      obtain ⟨ihb, iha⟩ := ih hrest (hmono.sublist hsub)
      refine ⟨ihb, ?_⟩
      have hpart := hmono.sublist ((List.sublist_append_left _ _).trans
        (List.sublist_append_right (before fs) _))
      intro a ha
      simp only [List.cons_append, List.mem_cons, List.mem_append] at ha
      rcases ha with rfl | ha | ha
      · exact hf
      · exact ((List.pairwise_cons.1 hpart).1 a ha).2 hf
      · exact iha a ha
    | right =>
      rw [hside] at hf
      simp only [before, after, hside] at hmono ⊢
      have hsub := List.Sublist.append_right (List.sublist_append_left
        (before fs) (f.sibling.toList ++ [f.node])) (after fs)
      obtain ⟨ihb, iha⟩ := ih hrest (hmono.sublist hsub)
      refine ⟨?_, iha⟩
      have hpart := hmono.sublist ((List.sublist_append_right (before fs) _).trans
        (List.sublist_append_left _ (after fs)))
      intro a ha
      simp only [List.mem_append, List.mem_cons, List.not_mem_nil, or_false] at ha
      rcases ha with ha | ha | rfl
      · exact ihb a ha
      · exact ((List.pairwise_append.1 hpart).2.2 a ha f.node (by simp)).1 hf
      · exact hf

theorem Sided.bounds {S : Ptr → Prop} {cmp : Ptr → Ptr → Int} {data : Ptr}
    (hcuts : Cuts S cmp data) {fs : List (Frame Ptr)} (hs : Sided cmp data fs)
    (hS : ∀ a ∈ before fs ++ after fs, S a)
    (hord : (before fs ++ after fs).Pairwise (cmp · · < 0)) :
    (∀ a ∈ before fs, cmp a data < 0) ∧ ∀ a ∈ after fs, 0 < cmp a data :=
  hs.bounds_of_monotone (hcuts.monotone hS hord)

/-! ## The search -/

/-- Where the search for `data` ends: at a node that compares equal, or at the
empty place where `data` belongs. -/
structure Found (cmp : Ptr → Ptr → Int) (t : RbTree δ) (data : Ptr) (fs : List (Frame Ptr))
    (u : ColorTree Ptr) : Prop where
  place : At t fs u
  sided : Sided cmp data fs
  ends : u = .nil ∨ cmp (ptr u) data = 0

theorem rbFindNodeLinkLoop_ok {cmp : Ptr → Ptr → Int} {t : RbTree δ} {data : Ptr} :
    ∀ (u : ColorTree Ptr) (fs : List (Frame Ptr)) (fuel : Nat), At t fs u → Sided cmp data fs →
      u.toList.length < fuel →
      ∃ fs' u', rbFindNodeLinkLoop cmp t data fuel (linkOf fs) (top fs) =
          .ok (linkOf fs', if ptr u' = 0#32 then top fs' else ptr u') ∧
        Found cmp t data fs' u' ∧ plug u' fs' = plug u fs := by
  intro u
  induction u with
  | nil =>
    intro fs fuel h hs hfuel
    obtain ⟨fuel, rfl⟩ : ∃ k, fuel = k + 1 := ⟨fuel - 1, by omega⟩
    exact ⟨fs, .nil, by simp [rbFindNodeLinkLoop, h.deref, ptr], ⟨h, hs, .inl rfl⟩, rfl⟩
  | node c l a r ihl ihr =>
    intro fs fuel h hs hfuel
    obtain ⟨fuel, rfl⟩ : ∃ k, fuel = k + 1 := ⟨fuel - 1, by omega⟩
    have hb : At t fs (branch .left c l a r) := h
    have hb' : At t fs (branch .right c r a l) := h
    have ha : a ≠ 0#32 := hb.ne_zero
    have hder : t.deref (linkOf fs) = a := h.deref
    simp only [toList, List.length_append, List.length_cons] at hfuel
    rcases lt_trichotomy (cmp a data) 0 with hlt | heq | hgt
    · obtain ⟨fs', u', hloop, hf, hplug⟩ := ihr (⟨.right, c, a, l⟩ :: fs) fuel hb'.down
        (by intro g hg; rcases List.mem_cons.1 hg with rfl | hg; exacts [hlt, hs g hg]) (by omega)
      refine ⟨fs', u', ?_, hf, hplug⟩
      rw [rbFindNodeLinkLoop, hder, if_neg ha, if_neg (by omega), if_pos hlt]
      exact hloop
    · refine ⟨fs, .node c l a r, ?_, ⟨h, hs, .inr heq⟩, rfl⟩
      simp [rbFindNodeLinkLoop, hder, ha, heq, ptr]
    · obtain ⟨fs', u', hloop, hf, hplug⟩ := ihl (⟨.left, c, a, r⟩ :: fs) fuel hb.down
        (by intro g hg; rcases List.mem_cons.1 hg with rfl | hg; exacts [hgt, hs g hg]) (by omega)
      refine ⟨fs', u', ?_, hf, hplug⟩
      rw [rbFindNodeLinkLoop, hder, if_neg ha, if_pos hgt]
      exact hloop

theorem rbFindNodeLink_ok (cmp : Ptr → Ptr → Int) {t : RbTree δ} {u : ColorTree Ptr} (h : Holds t u)
    (data : Ptr) :
    ∃ fs' u', rbFindNodeLink cmp t data =
        .ok (linkOf fs', if ptr u' = 0#32 then top fs' else ptr u') ∧
      Found cmp t data fs' u' ∧ plug u' fs' = u :=
  rbFindNodeLinkLoop_ok u [] loopLimit h (by intro f hf; simp at hf) h.length_lt

theorem Found.sides {S : Ptr → Prop} {cmp : Ptr → Ptr → Int} {t : RbTree δ} {data : Ptr}
    {fs : List (Frame Ptr)} (hf : Found cmp t data fs .nil) (hcuts : Cuts S cmp data)
    (hS : ∀ a ∈ (plug .nil fs).toList, S a) (hord : Ordered cmp (plug .nil fs)) :
    (∀ a ∈ before fs, cmp a data < 0) ∧ ∀ a ∈ after fs, 0 < cmp a data := by
  have hlist : (plug .nil fs).toList = before fs ++ after fs := by simp [toList_plug, toList]
  rw [Ordered, hlist] at hord
  rw [hlist] at hS
  exact hf.sided.bounds hcuts hS hord

theorem Found.bounds {S : Ptr → Prop} {cmp : Ptr → Ptr → Int} (hcmp : TotalOrder S cmp)
    {t : RbTree δ} {data : Ptr} {fs : List (Frame Ptr)} (hf : Found cmp t data fs .nil)
    (hS : ∀ a ∈ data :: (plug .nil fs).toList, S a) (hord : Ordered cmp (plug .nil fs)) :
    (∀ a ∈ before fs, cmp a data < 0) ∧ ∀ a ∈ after fs, 0 < cmp a data :=
  hf.sides (hcmp.cuts (hS data (by simp))) (fun a ha => hS a (List.mem_cons_of_mem _ ha)) hord

theorem Found.not_mem {S : Ptr → Prop} {cmp : Ptr → Ptr → Int} (hcmp : TotalOrder S cmp)
    {t : RbTree δ} {data : Ptr} {fs : List (Frame Ptr)} (hf : Found cmp t data fs .nil)
    (hS : ∀ a ∈ data :: (plug .nil fs).toList, S a) (hord : Ordered cmp (plug .nil fs)) :
    data ∉ frameNodes fs := by
  obtain ⟨hb, ha⟩ := hf.bounds hcmp hS hord
  intro hmem
  have hrefl := hcmp.refl data (hS data (by simp))
  rcases List.mem_append.1 ((frameNodes_perm fs).mem_iff.1 hmem) with h | h
  · have := hb data h
    omega
  · have := ha data h
    omega

theorem Found.ordered {S : Ptr → Prop} {cmp : Ptr → Ptr → Int} (hcmp : TotalOrder S cmp)
    {t : RbTree δ} {data : Ptr} {fs : List (Frame Ptr)} (hf : Found cmp t data fs .nil)
    (hS : ∀ a ∈ data :: (plug .nil fs).toList, S a) (hord : Ordered cmp (plug .nil fs)) :
    (before fs ++ [data] ++ after fs).Pairwise (cmp · · < 0) := by
  obtain ⟨hb, ha⟩ := hf.bounds hcmp hS hord
  have hold : (before fs ++ after fs).Pairwise (cmp · · < 0) := by
    simpa [Ordered, toList_plug, toList] using hord
  rw [List.pairwise_append] at hold
  simp only [List.append_assoc, List.cons_append, List.nil_append, List.pairwise_append,
    List.pairwise_cons, List.mem_cons]
  refine
  ⟨hold.1, ⟨fun a h => (hcmp.swap _ _ (hS data (by simp)) (hS a ?_)).2 (ha a h), hold.2.1⟩, ?_⟩
  · simp [toList_plug, toList, h]
  intro a h b hb'
  rcases hb' with rfl | hb'
  · exact hb a h
  · exact hold.2.2 a h b hb'

/-! ## Repairing the colours -/

/-- The rotation at a red parent `f` and a black grandparent `g`: the parent comes up, or, in
a zigzag, the node itself. -/
def insertRotation (x : ColorTree Ptr) (f g : Frame Ptr) : ColorTree Ptr :=
  if f.side = g.side then
    branch g.side .black x f.node (branch g.side .red f.sibling g.node g.sibling)
  else
    match x with
    | .nil => .nil
    | .node _ l a r =>
      branch g.side .black (branch g.side .red f.sibling f.node (near g.side l r)) a
        (branch g.side .red (near g.side.flip l r) g.node g.sibling)

/-- What the repair makes of a red tree under these frames: at a red uncle the colours
change and the repair goes on two frames up, at a black one there is one rotation. -/
def insertRepair : List (Frame Ptr) → ColorTree Ptr → ColorTree Ptr
  | [], x => x.blacken
  | [f], x => plug x [f]
  | f :: g :: fs, x =>
    if f.color = .black then plug x (f :: g :: fs)
    else if g.sibling.color = .red then
      insertRepair fs
        (branch g.side .red (branch f.side .black x f.node f.sibling) g.node g.sibling.blacken)
    else plug (insertRotation x f g) fs

theorem insertRotation_line (x s w : ColorTree Ptr) (d : Side) (c c' : Color) (b g : Ptr) :
    insertRotation x ⟨d, c, b, s⟩ ⟨d, c', g, w⟩ =
      branch d .black x b (branch d .red s g w) := if_pos rfl

theorem insertRotation_zigzag (u v s w : ColorTree Ptr) (d : Side) (c c' c'' : Color)
    (a b g : Ptr) :
    insertRotation (branch d c'' u a v) ⟨d.flip, c, b, s⟩ ⟨d, c', g, w⟩ =
      branch d .black (branch d .red s b u) a (branch d .red v g w) := by
  cases d <;> rfl

theorem insertRotation_redBlack {x s w : ColorTree Ptr} {d d₂ : Side} {c c' : Color} {b g : Ptr}
    {n : Nat} (hx : RB x .red n) (hs : RB s .black n) (hw : RB w .black n) :
    RB (insertRotation x ⟨d, c, b, s⟩ ⟨d₂, c', g, w⟩) .black (n + 1) := by
  rcases Side.eq_or_flip d₂ d with rfl | rfl
  · rw [insertRotation_line]
    exact hx.branch_black (hs.branch_red hw)
  · obtain ⟨u, a, v, rfl, hu, hv⟩ := hx.exists_branch_red d₂
    rw [insertRotation_zigzag]
    exact (hs.branch_red hu).branch_black (hv.branch_red hw)

theorem toList_insertRotation {x s w : ColorTree Ptr} {d d₂ : Side} {c c' : Color} {b g : Ptr}
    {n : Nat} (hx : RB x .red n) :
    (insertRotation x ⟨d, c, b, s⟩ ⟨d₂, c', g, w⟩).toList =
      (branch d₂ c' (branch d c x b s) g w).toList := by
  rcases Side.eq_or_flip d₂ d with rfl | rfl
  · rw [insertRotation_line]
    exact toList_rotate ..
  · obtain ⟨u, a, v, rfl, -⟩ := hx.exists_branch_red d₂
    rw [insertRotation_zigzag, branch_flip]
    refine (toList_rotate d₂ .black .red .black .red _ v w a g).trans ?_
    exact toList_branch_congr d₂ .black c' g (toList_rotate ..).symm rfl

theorem insertRepair_black (x s : ColorTree Ptr) (d : Side) (b : Ptr) (fs : List (Frame Ptr)) :
    insertRepair (⟨d, .black, b, s⟩ :: fs) x = plug x (⟨d, .black, b, s⟩ :: fs) := by
  cases fs with
  | nil => rfl
  | cons g gs => exact if_pos rfl

theorem insertRepair_recolor {s w : ColorTree Ptr} (x : ColorTree Ptr) {d d₂ : Side} {c : Color}
    {b g : Ptr} (fs : List (Frame Ptr)) (hw : w.color = .red) :
    insertRepair (⟨d, .red, b, s⟩ :: ⟨d₂, c, g, w⟩ :: fs) x =
      insertRepair fs (branch d₂ .red (branch d .black x b s) g w.blacken) := by
  rw [insertRepair, if_neg (by simp), if_pos hw]

theorem insertRepair_rotate {s w : ColorTree Ptr} (x : ColorTree Ptr) {d d₂ : Side} {c : Color}
    {b g : Ptr} (fs : List (Frame Ptr)) (hw : w.color = .black) :
    insertRepair (⟨d, .red, b, s⟩ :: ⟨d₂, c, g, w⟩ :: fs) x =
      plug (insertRotation x ⟨d, .red, b, s⟩ ⟨d₂, c, g, w⟩) fs := by
  rw [insertRepair, if_neg (by simp), if_neg (by simp [hw])]

/-- A red tree in a hole for a black one is made red-black, with its nodes in their order. -/
theorem insertRepair_ok : ∀ (k : Nat) {fs : List (Frame Ptr)} {x : ColorTree Ptr} {n : Nat},
    fs.length ≤ k → RB x .red n → Hole fs .black n →
    RedBlack (insertRepair fs x) ∧ (insertRepair fs x).toList = (plug x fs).toList := by
  intro k
  induction k using Nat.strong_induction_on with
  | _ k ih =>
  intro fs x n hk hx hole
  cases hole with
  | top => exact ⟨⟨n + 1, hx.blacken⟩, toList_blacken x⟩
  | black hs hole' =>
    rw [insertRepair_black]
    exact ⟨(Hole.black hs hole').plug hx, rfl⟩
  | red hs hole' =>
    rename_i d b s gs
    obtain ⟨d₂, g, w, gs, cw, rfl, hw, hole''⟩ := hole'.of_red
    cases cw with
    | red =>
      rw [insertRepair_recolor x gs hw.color_eq]
      obtain ⟨hrb, hlist⟩ := ih gs.length (by simp at hk; omega) le_rfl
        ((hx.branch_black hs).branch_red hw.blacken) hole''
      refine ⟨hrb, hlist.trans ?_⟩
      rw [plug, plug, toList_plug, toList_plug]
      congr 2
      exact toList_branch_congr d₂ .red .black g (toList_branch_congr d .black .red b rfl rfl)
        (toList_blacken w)
    | black =>
      rw [insertRepair_rotate x gs hw.color_eq, plug, plug, toList_plug, toList_plug,
        toList_insertRotation hx]
      exact ⟨hole''.plug (insertRotation_redBlack hx hs hw), rfl⟩

/-! ## The repair in memory -/

/-- The last rotation of an insertion: the red node `x` on side `d` of the black
`g` comes up and the two change colours. -/
theorem insertRotate_ok {t : RbTree δ} {gs : List (Frame Ptr)} {d : Side} {g x : Ptr}
    {u v w : ColorTree Ptr} (h : At t (⟨d, .black, g, w⟩ :: gs) (branch d .red u x v)) :
    ∃ t', (do
        let t ← rotate d.flip t g
        let newTop ← getParent t g
        let t ← setBlack t newTop
        setRed t g) = .ok t' ∧ At t' gs (branch d .black u x (branch d .red v g w)) := by
  have hup : At t gs (branch d .black (branch d .red u x v) g w) := h.up
  rw [← branch_flip d .black, ← branch_flip d .red] at hup
  obtain ⟨t₁, ht₁, h₁⟩ := hup.rotate
  have hpar : getParent t₁ g = .ok x := h₁.down.parent
  obtain ⟨t₂, ht₂, h₂⟩ := h₁.setBlack
  obtain ⟨t₃, ht₃, h₃⟩ := h₂.down.setRed
  refine ⟨t₃, ?_, ?_⟩
  · simp only [ht₁, ok_bind, hpar, ht₂, ht₃]
  · have h₄ : At t₃ gs (branch d.flip .black (branch d.flip .red w g v) x u) := h₃.up
    rwa [branch_flip, branch_flip] at h₄

theorem Holds.setBlack_redBlack {t : RbTree δ} {u : ColorTree Ptr} (h : Holds t u)
    (hrb : RedBlack u)
    (hne : u.toList ≠ []) : ∃ t', Rb.setBlack t t.root = .ok t' ∧ Holds t' u := by
  obtain ⟨n, hn⟩ := hrb
  have hptr : ptr u ≠ 0#32 := by
    cases u with
    | nil => exact absurd rfl hne
    | node c l a r => exact At.ne_zero (d := .left) h
  obtain ⟨t', ht', h'⟩ := h.setBlack_root hptr
  exact ⟨t', ht', hn.blacken_eq ▸ h'⟩

theorem toList_plug_ne_nil {d : Side} {c : Color} {u v : ColorTree Ptr} {a : Ptr}
    (fs : List (Frame Ptr)) : (plug (branch d c u a v) fs).toList ≠ [] := by
  intro h
  have ha : a ∈ (plug (branch d c u a v) fs).toList := by
    simp [toList_plug, mem_toList_branch]
  rw [h] at ha
  exact absurd ha List.not_mem_nil

/-- A turn at a red parent with a red uncle: the three are recoloured, and the loop goes on
at the grandparent. -/
theorem insertFixup_recolor {t : RbTree δ} {gs : List (Frame Ptr)} {d d₂ e : Side}
    {s l r wl wr : ColorTree Ptr} {a b g x : Ptr}
    (h : At t (⟨d, .red, b, s⟩ :: ⟨d₂, .black, g, branch .left .red wl x wr⟩ :: gs)
      (branch e .red l a r)) :
    ∃ t', At t' gs (branch d₂ .red (branch d .black (branch e .red l a r) b s) g
        (branch .left .black wl x wr)) ∧
      ∀ {fuel t₁ t₂}, rbInsertFixupLoop fuel t' g = .ok t₁ → setBlack t₁ t₁.root = .ok t₂ →
        rbInsertFixupLoop (fuel + 1) t a = .ok t₂ := by
  have hb : b ≠ 0#32 := h.up.ne_zero
  have hg : g ≠ 0#32 := h.up.up.ne_zero
  have hpar : getParent t a = .ok b := h.parent
  have hgpar : getParent t b = .ok g := h.up.parent
  have hbred : Rb.isRed t b = true := by simpa using h.up.isRed
  have huncle : getUncle t a = .ok x := by
    simp only [getUncle, hpar, ok_bind, if_neg hb]
    simpa using h.up.getSibling
  have hxred : Rb.isRed t x = true := by simpa using h.up.across.isRed
  obtain ⟨t₁, ht₁, h₁⟩ := h.up.across.setBlack
  obtain ⟨t₂, ht₂, h₂⟩ := h₁.across_flip.setBlack
  obtain ⟨t₃, ht₃, h₃⟩ := h₂.up.setRed
  refine ⟨t₃, h₃, fun hloop hroot => ?_⟩
  simp [rbInsertFixupLoop, hpar, hb, hbred, hgpar, hg, huncle, hxred, ht₁, ht₂, ht₃, hloop, hroot]

theorem insertFixup_rotate {t : RbTree δ} {gs : List (Frame Ptr)} {d d₂ e : Side}
    {s l r w : ColorTree Ptr} {a b g : Ptr}
    (h : At t (⟨d, .red, b, s⟩ :: ⟨d₂, .black, g, w⟩ :: gs) (branch e .red l a r))
    (hw : w.color = .black) :
    ∃ t', At t' gs (insertRotation (branch e .red l a r) ⟨d, .red, b, s⟩ ⟨d₂, .black, g, w⟩) ∧
      ∀ {fuel t₁}, setBlack t' t'.root = .ok t₁ →
        rbInsertFixupLoop (fuel + 1) t a = .ok t₁ := by
  have hb : b ≠ 0#32 := h.up.ne_zero
  have hg : g ≠ 0#32 := h.up.up.ne_zero
  have hpar : getParent t a = .ok b := h.parent
  have hgpar : getParent t b = .ok g := h.up.parent
  have hbred : Rb.isRed t b = true := by simpa using h.up.isRed
  have huncle : getUncle t a = .ok (ptr w) := by
    simp only [getUncle, hpar, ok_bind, if_neg hb]
    exact h.up.getSibling
  have hwblack : Rb.isRed t (ptr w) = false := by simp [h.up.across.isRed, hw]
  have hside : childSide t g b = .ok d₂ := by
    simpa using At.childSide h.up (.inl (by simpa using hb))
  have hside' : childSide t b a = .ok d := by
    simpa using At.childSide h (.inl (by simpa using h.ne_zero))
  have hcode : ∀ {t₁ t₂ : RbTree δ} {fuel : Nat},
      rbHandleInsertFixupRotation t g b d₂ d = .ok t₁ → setBlack t₁ t₁.root = .ok t₂ →
      rbInsertFixupLoop (fuel + 1) t a = .ok t₂ := by
    intro t₁ t₂ fuel hrot hroot
    simp
      [rbInsertFixupLoop, hpar, hb, hbred, hgpar, hg, huncle, hwblack, hside, hside', hrot, hroot]
  rcases Side.eq_or_flip d₂ d with rfl | rfl
  · obtain ⟨t₁, ht₁, h₁⟩ := insertRotate_ok h.up
    rw [insertRotation_line]
    refine ⟨t₁, h₁, fun hroot => hcode ?_ hroot⟩
    simp only [rbHandleInsertFixupRotation, ne_eq, not_true_eq_false, if_false]
    exact ht₁
  · -- two red nodes are in line under `g` after the first rotation
    obtain ⟨u, v, hx⟩ := branch_eq_branch d₂ e .red l r a
    have h₀ := h.up
    rw [hx, branch_flip] at h₀
    obtain ⟨t₁, ht₁, h₁⟩ := h₀.rotate
    obtain ⟨t₂, ht₂, h₂⟩ := insertRotate_ok h₁
    rw [hx, insertRotation_zigzag]
    refine ⟨t₂, h₂, fun hroot => hcode ?_ hroot⟩
    simp only
      [rbHandleInsertFixupRotation, ne_eq, (Side.flip_ne d₂).symm, not_false_eq_true, if_true,
      ht₁, ok_bind]
    exact ht₂

theorem rbInsertFixupLoop_ok : ∀ (k fuel : Nat) {t : RbTree δ} {fs : List (Frame Ptr)} {e : Side}
    {l r : ColorTree Ptr} {a : Ptr} {n : Nat}, fs.length ≤ k → At t fs (branch e .red l a r) →
    RB (branch e .red l a r) .red n → Hole fs .black n → k < fuel →
    ∃ t', rbInsertFixupLoop fuel t a = .ok t' ∧ Holds t' (insertRepair fs (branch e .red l a r)) :=
    by
  intro k
  induction k using Nat.strong_induction_on with
  | _ k ih =>
  intro fuel t fs e l r a n hk h hx hole hfuel
  obtain ⟨fuel, rfl⟩ : ∃ m, fuel = m + 1 := ⟨fuel - 1, by omega⟩
  have hpar : getParent t a = .ok (top fs) := h.parent
  -- setting the root black at the end of a turn changes nothing
  obtain ⟨hrb, hlist⟩ := insertRepair_ok k hk hx hole
  have hne : (insertRepair fs (branch e .red l a r)).toList ≠ [] := by
    rw [hlist]
    exact toList_plug_ne_nil fs
  cases hole with
  | top =>
    have hptr : ptr (branch e .red l a r) ≠ 0#32 := by simpa using h.ne_zero
    obtain ⟨t', ht', h'⟩ := Holds.setBlack_root h hptr
    exact ⟨t', by simp [rbInsertFixupLoop, hpar, top, ht'], h'⟩
  | black hs hole' =>
    rename_i d b s gs c'
    have hb : b ≠ 0#32 := h.up.ne_zero
    have hred : Rb.isRed t b = false := by simpa using h.up.isRed
    rw [insertRepair_black]
    exact ⟨t, by simp [rbInsertFixupLoop, hpar, top, hb, hred], h.holds⟩
  | red hs hole' =>
    rename_i d b s gs
    obtain ⟨d₂, g, w, gs, cw, rfl, hw, hole''⟩ := hole'.of_red
    cases cw with
    | red =>
      obtain ⟨wl, y, wr, rfl, -⟩ := hw.exists_branch_red .left
      rw [insertRepair_recolor _ gs hw.color_eq, blacken_branch] at hrb hne ⊢
      obtain ⟨t₁, h₁, hcode⟩ := insertFixup_recolor h
      obtain ⟨t₂, ht₂, h₂⟩ := ih gs.length (by simp at hk; omega) fuel le_rfl h₁
        ((hx.branch_black hs).branch_red hw.blacken) hole'' (by simp at hk; omega)
      obtain ⟨t₃, ht₃, h₃⟩ := h₂.setBlack_redBlack hrb hne
      exact ⟨t₃, hcode ht₂ ht₃, h₃⟩
    | black =>
      rw [insertRepair_rotate _ gs hw.color_eq] at hrb hne ⊢
      obtain ⟨t₁, h₁, hcode⟩ := insertFixup_rotate h hw.color_eq
      obtain ⟨t₂, ht₂, h₂⟩ := h₁.holds.setBlack_redBlack hrb hne
      exact ⟨t₂, hcode ht₂, h₂⟩

/-! ## Insertion -/

theorem assign_linkOf (t : RbTree δ) (fs : List (Frame Ptr)) (p : Ptr) :
    t.assign (linkOf fs) p = t.relink fs p := by cases fs <;> rfl

theorem attach_ok {t : RbTree δ} {fs : List (Frame Ptr)} {node : Ptr} (h : At t fs .nil)
    (hne : node ≠ 0#32) (hal : Aligned node) (hout : node ∉ frameNodes fs) :
    ∃ t', (do
        let t ← setChild t node .right 0#32
        let t ← setChild t node .left 0#32
        let t ← setRed t node
        setParent (t.assign (linkOf fs) node) node (top fs)) = .ok t' ∧
      At t' fs (branch .left .red .nil node .nil) := by
  have hq : Aligned (top fs) := h.spine.aligned
  have hn : (frameNodes fs).Nodup := by simpa [toList] using h.nodup
  have hnode : (t.set node ((((t.mem node).setChild .right 0#32).setChild .left 0#32).setRed)).mem
      node = (((t.mem node).setChild .right 0#32).setChild .left 0#32).setRed := by simp
  generalize ht₁ : t.set node ((((t.mem node).setChild .right 0#32).setChild .left 0#32).setRed) =
  t₁
    at hnode
  have hroot : t₁.root = t.root := by rw [← ht₁, set_root]
  have hm : ∀ a, a ≠ node → t₁.mem a = t.mem a := by
    intro a ha
    rw [← ht₁, set_mem, if_neg ha]
  have hspine : Spine t₁.mem t₁.root (top fs) 0#32 fs := by
    rw [hroot]
    exact h.spine.congr fun a ha => hm a fun e => hout (e ▸ ha)
  have hspine' := hspine.relink hn node
  have hmem : (t₁.relink fs node).mem node = t₁.mem node := relink_mem hout
  refine ⟨(t₁.relink fs node).set node ((t₁.mem node).setParent (top fs)), ?_, ?_, ?_, ?_⟩
  · simp only [setChild, setRed, modify_ok hne, ok_bind, set_set, set_mem, if_true, ht₁,
      assign_linkOf, setParent, hmem]
  · refine rep_branch.2 ⟨rfl, hne, hal, ?_, ?_, ?_, ?_⟩
    · rw [set_mem, if_pos rfl, parent_setParent _ hq]
    · rw [set_mem, if_pos rfl, color_setParent _ hq, hnode, color_setRed]
    · simp [hnode, Rep, RbNode.child, RbNode.setChild, RbNode.setParent, RbNode.setRed]
    · simp [hnode, Rep, RbNode.child, RbNode.setChild, RbNode.setParent, RbNode.setRed, Side.flip]
  · refine hspine'.congr fun a ha => ?_
    have hne' : a ≠ node := fun e => hout (e ▸ ha)
    rw [set_mem, if_neg hne']
  · simpa [branch, toList] using ⟨hout, hn⟩

/-- The part of `rb_insert` between the search and the augment callback. -/
def insertAt (t : RbTree δ) (link : Link) (node parent : Ptr) : Kernel (RbTree δ) := do
  let t ← setChild t node .right 0#32
  let t ← setChild t node .left 0#32
  let t ← setRed t node
  let t ← setParent (t.assign link node) node parent
  rbInsertFixup t node

theorem insertAt_ok {t : RbTree δ} {fs : List (Frame Ptr)} {node : Ptr} (h : At t fs .nil)
    (hrb : RedBlack (plug .nil fs)) (hout : node ∉ frameNodes fs) (hne : node ≠ 0#32)
    (hal : Aligned node) :
    ∃ t', insertAt t (linkOf fs) node (top fs) = .ok t' ∧
      Holds t' (insertRepair fs (branch .left .red .nil node .nil)) ∧
      RedBlack (insertRepair fs (branch .left .red .nil node .nil)) ∧
      (insertRepair fs (branch .left .red .nil node .nil)).toList =
        before fs ++ [node] ++ after fs := by
  obtain ⟨t₁, ht₁, h₁⟩ := attach_ok h hne hal hout
  obtain ⟨c, n, hnil, hole⟩ := hrb.focus
  obtain ⟨rfl, rfl⟩ : c = .black ∧ n = 0 := by
    cases hnil
    exact ⟨rfl, rfl⟩
  have hlen : fs.length < loopLimit := by
    have hle := length_le_toList fs .nil
    have hlt := h.holds.length_lt
    simp only [toList, List.length_nil] at hle
    omega
  have hleaf : RB (branch .left .red .nil node .nil) .red 0 := .branch_red .nil .nil
  obtain ⟨t₂, ht₂, h₂⟩ := rbInsertFixupLoop_ok fs.length loopLimit le_rfl h₁ hleaf hole hlen
  obtain ⟨hrb', hlist⟩ := insertRepair_ok fs.length le_rfl hleaf hole
  refine ⟨t₂, ?_, h₂, hrb', ?_⟩
  · simp only [setChild, setRed, modify_ok hne, ok_bind] at ht₁
    simp only [insertAt, setChild, setRed, modify_ok hne, ok_bind, ht₁, rbInsertFixup, ht₂]
  · rw [hlist, toList_plug]
    rfl

theorem rbInsert_empty {cb : Callbacks δ} {t t₁ t₂ : RbTree δ} {fs : List (Frame Ptr)} {node : Ptr}
    (h : At t fs .nil) (hlink : rbFindNodeLink cb.cmp t node = .ok (linkOf fs, top fs))
    (hat : insertAt t (linkOf fs) node (top fs) = .ok t₁)
    (haug : rbAugmentFrom cb.augment t₁ (t₁.deref (linkOf fs)) = .ok t₂) :
    rbInsert cb t node = .ok (t₂, node) := by
  have hcode : rbInsert cb t node = (do
      let t ← insertAt t (linkOf fs) node (top fs)
      let t ← rbAugmentFrom cb.augment t (t.deref (linkOf fs))
      return (t, node)) := by
    have hempty : t.deref (linkOf fs) = 0#32 := h.deref
    simp only [rbInsert, insertAt, hlink, ok_bind, hempty, ne_eq, not_true_eq_false, if_false,
      bind_assoc]
  rw [hcode, hat, ok_bind, haug, ok_bind]
  rfl

theorem rbInsert_new {cb : Callbacks δ} {t : RbTree δ} {fs : List (Frame Ptr)} {node : Ptr}
    (hrb : RedBlack (plug .nil fs)) (hf : Found cb.cmp t node fs .nil) (hout : node ∉ frameNodes fs)
    (hlink : rbFindNodeLink cb.cmp t node = .ok (linkOf fs, top fs)) (hne : node ≠ 0#32)
    (hal : Aligned node) :
    ∃ t' u', rbInsert cb t node = .ok (t', node) ∧ Holds t' u' ∧ RedBlack u' ∧
      u'.toList = before fs ++ [node] ++ after fs := by
  obtain ⟨t₂, ht₂, h₂, hrb', hlist⟩ := insertAt_ok hf.place hrb hout hne hal
  generalize insertRepair fs (branch .left .red .nil node .nil) = u' at h₂ hrb' hlist
  have hderef : t₂.deref (linkOf fs) = 0#32 ∨ t₂.deref (linkOf fs) ∈ u'.toList := by
    cases fs with
    | nil =>
      have hroot : t₂.root = ptr u' := h₂.spine.2
      simpa [linkOf, RbTree.deref, hroot] using ptr_mem u'
    | cons f fs =>
      apply h₂.child_mem
      rw [hlist, List.append_assoc]
      have hmem : f.node ∈ before (f :: fs) ++ after (f :: fs) :=
        (frameNodes_perm (f :: fs)).mem_iff.1 (by simp [frameNodes])
      simp only [List.mem_append] at hmem ⊢
      tauto
  obtain ⟨t₃, ht₃, h₃⟩ := rbAugmentFrom_ok cb.augment h₂ hderef
  exact ⟨t₃, u', rbInsert_empty hf.place hlink ht₂ ht₃, h₃, hrb', hlist⟩

theorem rbInsert_equal {cb : Callbacks δ} {t : RbTree δ} {fs : List (Frame Ptr)} {u : ColorTree Ptr}
    {node : Ptr} {parent : Ptr} (hf : Found cb.cmp t node fs u) (hu : ptr u ≠ 0#32)
    (hlink : rbFindNodeLink cb.cmp t node = .ok (linkOf fs, parent)) :
    rbInsert cb t node = .ok (t, 0#32) := by
  have hfull : t.deref (linkOf fs) = ptr u := hf.place.deref
  simp [rbInsert, hlink, hfull, hu]

end X86Kernel.Rb
