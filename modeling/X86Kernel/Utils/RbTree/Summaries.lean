import X86Kernel.Utils.RbTree.Augment

/- When insertions and removals keep the summaries.

   What is proved (`augment_iff`): after `rb_insert` of a new node the summaries are right,
   whatever the callback, exactly where the repair of the colours makes no rotation
   (`insertRotates`), and after `rb_remove_node` exactly where it makes no zigzag rotation
   (`removeZigzags`). A rotation of the insertion takes a node off the path from the new
   node to the root that was on it, with its old summary; in a zigzag at the new node
   itself the link the callback is started from is empty, and it is not run at all. In a
   removal the rotations keep the path, but the zigzag gives the old sibling, beside the
   path, one subtree less.

   That the summaries go wrong is shown with the sizes of the subtrees: a node beside the
   path keeps a size that its subtree had before. -/
namespace X86Kernel.Rb
open X86Kernel.Lib X86Kernel.Lib.ColorTree

variable {δ : Type}

/-! ## The new node after the repair -/

/-- Does the repair after an insertion under these frames rotate? -/
def repairRotates : List (Frame Ptr) → Bool
  | f :: g :: fs =>
    if f.color = .black then false
    else if g.sibling.color = .red then repairRotates fs
    else true
  | _ => false

/-- A new node. -/
def leaf (a : Ptr) : ColorTree Ptr := branch .left .red .nil a .nil

theorem plain_leaf (a : Ptr) (d : Side) : (leaf a).plain = branch d .black .nil a .nil := by
  cases d <;> rfl

theorem plain_plug_congr {u v : ColorTree Ptr} (h : u.plain = v.plain) (fs : List (Frame Ptr)) :
    (plug u fs).plain = (plug v fs).plain := by
  rw [plain_plug, plain_plug, h]

/-- Where the new node, or the empty place of its link, is in a tree: under frames with the
same link. -/
structure Trail (a : Ptr) (fs : List (Frame Ptr)) (u v : ColorTree Ptr) (fs' : List (Frame Ptr)) :
    Prop where
  whole : u.plain = (plug v fs').plain
  focus : v = leaf a ∨ v = .nil
  link : linkOf fs' = linkOf fs

/-- Frames under which sizes are wrong after an insertion, wherever they were right before
it. -/
def Stale (fs fs' : List (Frame Ptr)) : Prop :=
  ∀ sizes : Ptr → Nat, Summed countNodes sizes (plug .nil fs) →
    ¬ SummedBeside countNodes sizes fs'

theorem sizes_before {sizes : Ptr → Nat} {d d₂ : Side} {c c₂ : Color} {b g : Ptr}
    {s w : ColorTree Ptr} (ls : List (Frame Ptr)) {gs : List (Frame Ptr)}
    (h : Summed countNodes sizes (plug .nil (ls ++ ⟨d, c, b, s⟩ :: ⟨d₂, c₂, g, w⟩ :: gs))) :
    sizes b = 1 + (plug .nil ls).toList.length + s.toList.length ∧
      sizes g = 1 + sizes b + w.toList.length := by
  rw [plug_append, plug, plug] at h
  have hg : Summed countNodes sizes (branch d₂ c₂ (branch d c (plug .nil ls) b s) g w) :=
    (Summed.of_plug h).1
  have hb := (summed_branch.1 hg).2.1.size_eq
  refine ⟨hb, ?_⟩
  rw [hg.size_eq, length_branch, hb]

/-- The parent comes up: the grandparent is beside the path, and without the new node. -/
theorem stale_line {d : Side} {c c₂ c₃ c₄ : Color} {b g : Ptr} {s w : ColorTree Ptr}
    {ls gs : List (Frame Ptr)} :
    Stale (ls ++ ⟨d, c, b, s⟩ :: ⟨d, c₂, g, w⟩ :: gs)
      (ls ++ ⟨d, c₃, b, branch d c₄ s g w⟩ :: gs) := by
  intro sizes hsum hbeside
  obtain ⟨hb, hg⟩ := sizes_before _ hsum
  have hg' := (hbeside ⟨d, c₃, b, branch d c₄ s g w⟩ (by simp)).size_eq
  omega

/-- The new node itself comes up: the grandparent has lost the parent. -/
theorem stale_zigzag_leaf {a : Ptr} {d : Side} {c c₂ c₃ c₄ c₅ : Color} {b g : Ptr}
    {s w : ColorTree Ptr} {gs : List (Frame Ptr)} :
    Stale (⟨d.flip, c, b, s⟩ :: ⟨d, c₂, g, w⟩ :: gs)
      (⟨d.flip, c₃, b, s⟩ :: ⟨d, c₄, a, branch d c₅ .nil g w⟩ :: gs) := by
  intro sizes hsum hbeside
  obtain ⟨hb, hg⟩ := sizes_before [] hsum
  have hg' := (hbeside ⟨d, c₄, a, branch d c₅ .nil g w⟩ (by simp)).size_eq
  simp only [toList, List.length_nil] at hg'
  omega

/-- A node above the new one comes up, and the new one is on the side of the parent. -/
theorem stale_zigzag_near {d : Side} {c c₁ c₂ c₃ c₄ c₅ : Color} {a b g : Ptr}
    {r s w : ColorTree Ptr} {ls gs : List (Frame Ptr)} :
    Stale (ls ++ ⟨d, c₁, a, r⟩ :: ⟨d.flip, c, b, s⟩ :: ⟨d, c₂, g, w⟩ :: gs)
      (ls ++ ⟨d.flip, c₃, b, s⟩ :: ⟨d, c₄, a, branch d c₅ r g w⟩ :: gs) := by
  intro sizes hsum hbeside
  rw [List.append_cons] at hsum
  obtain ⟨hb, hg⟩ := sizes_before _ hsum
  have hg' := (hbeside ⟨d, c₄, a, branch d c₅ r g w⟩ (by simp)).size_eq
  simp only [plug_append, plug, length_branch] at hb
  omega

theorem stale_zigzag_far {d : Side} {c c₁ c₂ c₃ c₄ c₅ : Color} {a b g : Ptr}
    {r s w : ColorTree Ptr} {ls gs : List (Frame Ptr)} :
    Stale (ls ++ ⟨d.flip, c₁, a, r⟩ :: ⟨d.flip, c, b, s⟩ :: ⟨d, c₂, g, w⟩ :: gs)
      (ls ++ ⟨d, c₃, g, w⟩ :: ⟨d.flip, c₄, a, branch d c₅ s b r⟩ :: gs) := by
  intro sizes hsum hbeside
  rw [List.append_cons] at hsum
  obtain ⟨hb, hg⟩ := sizes_before _ hsum
  have hb' := (hbeside ⟨d.flip, c₄, a, branch d c₅ s b r⟩ (by simp)).size_eq
  simp only [plug_append, plug, length_branch] at hb
  omega

theorem linkOf_append {ls fs gs : List (Frame Ptr)} (h : ls ≠ []) :
    linkOf (ls ++ fs) = linkOf (ls ++ gs) := by
  cases ls with
  | nil => exact absurd rfl h
  | cons f ls => rfl

/-- One rotation. The nodes below it come in pairs of frames, so that the link of the new
node is not one of those that the rotation changes, but in a zigzag at the new node. -/
theorem rotation_trail (a : Ptr) {ls gs : List (Frame Ptr)} {x : ColorTree Ptr} {d d₂ : Side}
    {c c₂ : Color} {b g : Ptr} {s w : ColorTree Ptr} (hls : ls = [] ∨ 2 ≤ ls.length)
    (hx : x.plain = (plug (leaf a) ls).plain) :
    ∃ v fs', Trail a (ls ++ ⟨d, c, b, s⟩ :: ⟨d₂, c₂, g, w⟩ :: gs)
        (plug (insertRotation x ⟨d, c, b, s⟩ ⟨d₂, c₂, g, w⟩) gs) v fs' ∧
      Stale (ls ++ ⟨d, c, b, s⟩ :: ⟨d₂, c₂, g, w⟩ :: gs) fs' := by
  rcases Side.eq_or_flip d₂ d with rfl | rfl
  · refine ⟨leaf a, ls ++ ⟨d, .black, b, branch d .red s g w⟩ :: gs, ⟨?_, .inl rfl, ?_⟩, stale_line⟩
    · rw [insertRotation_line, plug_append]
      refine plain_plug_congr ?_ gs
      simp only [plain_branch, hx]
    · cases ls with
      | nil => rfl
      | cons f ls => rfl
  · rcases List.eq_nil_or_concat ls with rfl | ⟨ls, f, rfl⟩
    · -- the new node has no subtrees that could be on its path
      rw [plug, plain_leaf a d₂] at hx
      obtain ⟨cx, u, v, rfl, hu, hv⟩ := exists_branch_of_plain hx
      refine ⟨.nil, ⟨d₂.flip, .red, b, s⟩ :: ⟨d₂, .black, a, branch d₂ .red .nil g w⟩ :: gs,
        ⟨?_, .inr rfl, rfl⟩, stale_zigzag_leaf⟩
      rw [insertRotation_zigzag]
      refine plain_plug_congr ?_ gs
      rw [branch_flip]
      simp only [plain_branch, hu, hv, plain]
    · have hlong : ls ≠ [] := by
        rintro rfl
        simp at hls
      obtain ⟨e, ce, y, r⟩ := f
      rw [List.concat_eq_append, plug_append, plug, plug, plain_branch] at hx
      obtain ⟨cx, u, v, rfl, hu, hv⟩ := exists_branch_of_plain hx
      rw [List.concat_eq_append, List.append_assoc, List.singleton_append]
      rcases Side.eq_or_flip d₂ e with rfl | rfl
      · refine ⟨leaf a, ls ++ ⟨e.flip, .red, b, s⟩ :: ⟨e, .black, y, branch e .red r g w⟩ :: gs,
          ⟨?_, .inl rfl, linkOf_append hlong⟩, stale_zigzag_near⟩
        rw [insertRotation_zigzag, plug_append]
        refine plain_plug_congr ?_ gs
        rw [branch_flip]
        simp only [plain_branch, hu, hv]
      · refine ⟨leaf a, ls ++ ⟨d₂, .red, g, w⟩ :: ⟨d₂.flip, .black, y, branch d₂ .red s b r⟩ :: gs,
          ⟨?_, .inl rfl, linkOf_append hlong⟩, stale_zigzag_far⟩
        rw [branch_flip, insertRotation_zigzag, plug_append]
        refine plain_plug_congr ?_ gs
        rw [branch_flip]
        simp only [plain_branch, hu, hv]

/-! ### Frames of other colours -/

theorem linkOf_of_plain {fs gs : List (Frame Ptr)}
    (h : fs.map Frame.plain = gs.map Frame.plain) : linkOf fs = linkOf gs := by
  cases fs with
  | nil =>
    cases gs with
    | nil => rfl
    | cons g gs => cases h
  | cons f fs =>
    cases gs with
    | nil => cases h
    | cons g gs =>
      have hfg : f.plain = g.plain := (List.cons.inj h).1
      have hlink := congrArg (fun x : Frame Ptr => Link.child x.node x.side) hfg
      exact hlink

theorem Stale.of_plain {fs gs fs' : List (Frame Ptr)} (h : Stale fs fs')
    (hfg : fs.map Frame.plain = gs.map Frame.plain) : Stale gs fs' := by
  intro sizes hsum
  apply h
  apply hsum.of_plain
  rw [plain_plug, plain_plug, hfg]

theorem repair_trail (a : Ptr) : ∀ (k : Nat) (ls : List (Frame Ptr)) {fs : List (Frame Ptr)}
    {x : ColorTree Ptr}, fs.length ≤ k → ls = [] ∨ 2 ≤ ls.length → x.plain =
    (plug (leaf a) ls).plain →
    (repairRotates fs = false →
      (insertRepair fs x).plain = (plug (leaf a) (ls ++ fs)).plain) ∧
    (repairRotates fs = true →
      ∃ v fs', Trail a (ls ++ fs) (insertRepair fs x) v fs' ∧ Stale (ls ++ fs) fs') := by
  intro k
  induction k using Nat.strong_induction_on with
  | _ k ih =>
  intro ls fs x hk hls hx
  have hkeep : (plug x fs).plain = (plug (leaf a) (ls ++ fs)).plain := by
    rw [plug_append]
    exact plain_plug_congr hx fs
  rcases fs with _ | ⟨f, _ | ⟨f₂, gs⟩⟩
  · refine ⟨fun _ => ?_, fun hrot => by cases hrot⟩
    rw [insertRepair, plain_blacken]
    exact hkeep
  · exact ⟨fun _ => hkeep, fun hrot => by cases hrot⟩
  · obtain ⟨d, c, b, s⟩ := f
    obtain ⟨d₂, c₂, g, w⟩ := f₂
    cases c with
    | black =>
      rw [insertRepair_black]
      exact ⟨fun _ => hkeep, fun hrot => by simp [repairRotates] at hrot⟩
    | red =>
      by_cases hw : w.color = .red
      · -- the two frames join those below, in new colours
        let two : List (Frame Ptr) := [⟨d, .black, b, s⟩, ⟨d₂, .red, g, w.blacken⟩]
        have hsame : ((ls ++ two) ++ gs).map Frame.plain =
            (ls ++ ⟨d, .red, b, s⟩ :: ⟨d₂, c₂, g, w⟩ :: gs).map Frame.plain := by
          simp [two, Frame.plain]
        have hx' : (branch d₂ .red (branch d .black x b s) g w.blacken).plain =
            (plug (leaf a) (ls ++ two)).plain := by
          rw [plug_append]
          simp only [two, plug, plain_branch, hx]
        have hrot : repairRotates (⟨d, .red, b, s⟩ :: ⟨d₂, c₂, g, w⟩ :: gs) = repairRotates gs := by
          rw [repairRotates, if_neg (by simp), if_pos hw]
        rw [insertRepair_recolor x gs hw, hrot]
        obtain ⟨hno, hyes⟩ :=
          ih gs.length (by simp at hk; omega) _ le_rfl (.inr (by simp [two])) hx'
        refine ⟨fun h => ?_, fun h => ?_⟩
        · rw [hno h, plain_plug, plain_plug, hsame]
        · obtain ⟨v, fs', htrail, hstale⟩ := hyes h
          exact ⟨v, fs', ⟨htrail.whole, htrail.focus, htrail.link.trans (linkOf_of_plain hsame)⟩,
            hstale.of_plain hsame⟩
      · have hblack : w.color = .black := by
          cases hcw : w.color with
          | red => exact absurd hcw hw
          | black => rfl
        rw [insertRepair_rotate x gs hblack]
        refine ⟨fun hrot => ?_, fun _ => rotation_trail a hls hx⟩
        rw [repairRotates, if_neg (by simp), if_neg hw] at hrot
        cases hrot

/-! ## Insertion -/

theorem eq_nil_of_plain {u : ColorTree Ptr} (h : u.plain = .nil) : u = .nil := by
  cases u with
  | nil => rfl
  | node c l a r => cases h

/-- The callback is run from the link of the new node: afterwards all is summed only where
the subtrees beside the node were. -/
theorem augment_trail (combine : Ptr → Option δ → Option δ → δ) {t : RbTree δ} {a : Ptr}
    {fs fs' : List (Frame Ptr)} {u v : ColorTree Ptr} (h : Holds t u)
    (htrail : Trail a fs u v fs') :
    ∃ t', rbAugmentFrom (augmentOf combine) t (t.deref (linkOf fs)) = .ok t' ∧ Holds t' u ∧
      (Summed combine t'.data u → SummedBeside combine t.data fs') ∧
      (v = leaf a → SummedBeside combine t.data fs' → Summed combine t'.data u) := by
  obtain ⟨v', gs, rfl, hv, hgs⟩ := exists_plug_of_plain htrail.whole
  have hat : At t gs v' := Holds.at h
  have hderef : t.deref (linkOf fs) = ptr v' := by
    rw [← htrail.link, ← linkOf_of_plain hgs]
    exact hat.deref
  rw [hderef]
  cases htrail.focus with
  | inl hleaf =>
    rw [hleaf, plain_leaf a .left] at hv
    obtain ⟨c, x, y, rfl, hx, hy⟩ := exists_branch_of_plain hv
    obtain rfl := eq_nil_of_plain hx
    obtain rfl := eq_nil_of_plain hy
    obtain ⟨data', hrun, hiff⟩ := rbAugmentFrom_iff combine hat
    rw [ptr_branch]
    refine ⟨_, hrun, ⟨h.focus, h.spine, h.nodup⟩, fun hall => ?_, fun _ hbeside => ?_⟩
    · exact (hiff.1 hall).2.2.of_plain hgs.symm
    · exact hiff.2 ⟨trivial, trivial, hbeside.of_plain hgs⟩
  | inr hnil =>
    rw [hnil] at hv
    obtain rfl := eq_nil_of_plain hv
    refine ⟨t, by simp [rbAugmentFrom, ptr, loopLimit, rbAugmentFromLoop], h, fun hall => ?_,
      fun hleaf => ?_⟩
    · exact hall.of_plug.2.of_plain hgs.symm
    · rw [hnil] at hleaf
      cases hleaf

theorem rbInsert_summed (combine : Ptr → Option δ → Option δ → δ) {cmp : Ptr → Ptr → Int}
    {t : RbTree δ} {fs : List (Frame Ptr)} {node : Ptr} (hf : Found cmp t node fs .nil)
    (hlink : rbFindNodeLink cmp t node = .ok (linkOf fs, top fs))
    (hrb : RedBlack (plug .nil fs)) (hout : node ∉ frameNodes fs) (hne : node ≠ 0#32)
    (hal : Aligned node) :
    ∃ t', rbInsert ⟨cmp, augmentOf combine⟩ t node = .ok (t', node) ∧
      (repairRotates fs = false → SummedBeside combine t.data fs →
        Summed combine t'.data t'.tree) ∧
      (repairRotates fs = true → ∃ fs', Stale fs fs' ∧
        (Summed combine t'.data t'.tree → SummedBeside combine t.data fs')) := by
  obtain ⟨t₁, ht₁, h₁, -, -⟩ := insertAt_ok hf.place hrb hout hne hal
  have hdata : t₁.data = t.data := (keepsData_insertAt _ _ _).of_ok ht₁
  obtain ⟨hno, hyes⟩ := repair_trail node fs.length [] le_rfl (.inl rfl)
    (show (leaf node).plain = _ from rfl)
  cases hrot : repairRotates fs with
  | false =>
    obtain ⟨t₂, ht₂, h₂, -, hsum⟩ := augment_trail combine h₁
      ⟨hno hrot, .inl rfl, rfl⟩
    refine
      ⟨t₂, rbInsert_empty hf.place hlink ht₁ ht₂, fun _ hbeside => ?_, fun h => absurd h (by simp)⟩
    rw [h₂.tree_eq]
    exact hsum rfl (hdata ▸ hbeside)
  | true =>
    obtain ⟨v, fs', htrail, hstale⟩ := hyes hrot
    obtain ⟨t₂, ht₂, h₂, hsum, -⟩ := augment_trail combine h₁ htrail
    refine ⟨t₂, rbInsert_empty hf.place hlink ht₁ ht₂, fun h => absurd h (by simp),
      fun _ => ⟨fs', hstale, fun hall => ?_⟩⟩
    rw [h₂.tree_eq] at hall
    exact hdata ▸ hsum hall

/-! ## The place of a removed node after the fixup -/

/-- Does the fixup of a focus of this colour, which lacks a black node, make a zigzag
rotation? It does so at a black sibling whose inner child is red. -/
def fixZigzags : Color → List (Frame Ptr) → Bool
  | _, [] => false
  | .red, _ :: _ => false
  | .black, f :: fs =>
    match f.sibling with
    | .nil => false
    | .node .red l _ r =>
      match near f.side l r with
      | .nil => false
      | .node _ l' _ r' => decide ((near f.side l' r').color = .red)
    | .node .black l _ r =>
      if l.color = .black ∧ r.color = .black then fixZigzags f.color fs
      else decide ((near f.side l r).color = .red)

theorem fixZigzags_red (fs : List (Frame Ptr)) : fixZigzags .red fs = false := by
  cases fs <;> rfl

theorem fixZigzags_sibling_black {d : Side} {c : Color} {b y : Ptr} {i o : ColorTree Ptr}
    {fs : List (Frame Ptr)} :
    fixZigzags .black (⟨d, c, b, branch d .black i y o⟩ :: fs) =
      if i.color = .black ∧ o.color = .black then fixZigzags c fs
      else decide (i.color = .red) := by
  cases d with
  | left => rfl
  | right =>
    simp only [fixZigzags, branch, near]
    by_cases h : i.color = .black ∧ o.color = .black
    · rw [if_pos h, if_pos h.symm]
    · rw [if_neg h, if_neg fun h' => h h'.symm]
      rfl

theorem fixZigzags_sibling_red {d : Side} {c : Color} {b y : Ptr} {i o : ColorTree Ptr}
    {fs : List (Frame Ptr)} (hi : i.color = .black) :
    fixZigzags .black (⟨d, c, b, branch d .red i y o⟩ :: fs) =
      fixZigzags .black (⟨d, .red, b, i⟩ :: ⟨d, .black, y, o⟩ :: fs) := by
  cases i with
  | nil => cases d <;> rfl
  | node ci l z r =>
    obtain rfl : ci = .black := hi
    obtain ⟨i₁, i₂, hz⟩ := branch_eq_branch d .left .black l r z
    rw [show ColorTree.node .black l z r = branch d .black i₁ z i₂ from hz,
      fixZigzags_sibling_black, fixZigzags_red]
    split
    · rename_i hboth
      cases d <;> simp [fixZigzags, branch, near, hboth.1]
    · cases d <;> rfl

/-- What is summed beside the old frames is summed beside the new ones. -/
def Kept (fs fs' : List (Frame Ptr)) : Prop :=
  ∀ (ε : Type) (combine : Ptr → Option ε → Option ε → ε) (data : Ptr → ε),
    SummedBeside combine data fs → SummedBeside combine data fs'

/-- Sizes that are right beside the old frames are wrong beside the new ones. -/
def Lost (fs fs' : List (Frame Ptr)) : Prop :=
  ∀ sizes : Ptr → Nat, SummedBeside countNodes sizes fs → ¬ SummedBeside countNodes sizes fs'

/-- The last rotation: in a zigzag the old sibling has lost a subtree. -/
theorem deleteRotation_trail (fs : List (Frame Ptr)) (d : Side) (c : Color)
    (v i o : ColorTree Ptr) (b y : Ptr) :
    ∃ fs', (plug (deleteRotation d v b i y o) fs).plain = (plug v fs').plain ∧ top fs' = b ∧
      (i.color ≠ .red → Kept (⟨d, c, b, branch d .black i y o⟩ :: fs) fs') ∧
      (i.color = .red → Lost (⟨d, c, b, branch d .black i y o⟩ :: fs) fs') := by
  rcases color_cases i with hi | hi
  · refine ⟨⟨d, .black, b, i⟩ :: ⟨d, .black, y, o⟩ :: fs, ?_, rfl, fun _ => ?_,
      fun hred => by simp [hi] at hred⟩
    · rw [deleteRotation_line d v o b y hi]
      refine plain_plug_congr ?_ fs
      simp only [plain_branch, plain_blacken]
    · intro ε combine data hbeside
      obtain ⟨hsib, hfs⟩ := summedBeside_cons.1 hbeside
      obtain ⟨-, hi', ho'⟩ := summed_branch.1 hsib
      exact summedBeside_cons.2 ⟨hi', summedBeside_cons.2 ⟨ho', hfs⟩⟩
  · obtain ⟨x, z, m, rfl⟩ := exists_branch_of_red hi d
    refine ⟨⟨d, .black, b, x⟩ :: ⟨d, .black, z, branch d .black m y o⟩ :: fs, ?_, rfl,
      fun hblack => absurd hi hblack, fun _ => ?_⟩
    · rw [deleteRotation_zigzag]
      rfl
    · intro sizes hbeside hbeside'
      have hy := (summedBeside_cons.1 hbeside).1.size_eq
      have hy' := (hbeside' ⟨d, .black, z, branch d .black m y o⟩ (by simp)).size_eq
      rw [length_branch] at hy
      omega

theorem deleteRepair_trail {fs : List (Frame Ptr)} {v u : ColorTree Ptr}
    (h : DeleteRepair fs v u) :
    ∃ fs', u.plain = (plug v fs').plain ∧ top fs' = top fs ∧
      (fixZigzags v.color fs = false → Kept fs fs') ∧
      (fixZigzags v.color fs = true → Lost fs fs') := by
  induction h with
  | top v =>
    refine ⟨[], plain_blacken v, rfl, fun _ ε combine data hbeside => hbeside, fun hzig => ?_⟩
    simp [fixZigzags] at hzig
  | @red fs v hv =>
    refine ⟨fs, plain_plug_congr (plain_blacken v) fs, rfl,
      fun _ ε combine data hbeside => hbeside, fun hzig => ?_⟩
    rw [hv, fixZigzags_red] at hzig
    cases hzig
  | @push fs d c v i o u b y hv hi ho next ih =>
    obtain ⟨fs', hwhole, -, hkept, hlost⟩ := ih
    rw [color_branch] at hkept hlost
    rw [hv, fixZigzags_sibling_black, if_pos ⟨hi, ho⟩]
    refine ⟨⟨d, c, b, branch d .red i y o⟩ :: fs', hwhole, rfl, fun hzig => ?_, fun hzig => ?_⟩
    · intro ε combine data hbeside
      obtain ⟨hsib, hfs⟩ := summedBeside_cons.1 hbeside
      have hsib' := hsib.of_plain (v := branch d .red i y o) (by simp only [plain_branch])
      exact summedBeside_cons.2 ⟨hsib', hkept hzig ε combine data hfs⟩
    · intro sizes hbeside hbeside'
      exact hlost hzig sizes (summedBeside_cons.1 hbeside).2 (summedBeside_cons.1 hbeside').2
  | @rotate fs d c v i o b y hv hred =>
    obtain ⟨fs', hwhole, htop, hkept, hlost⟩ := deleteRotation_trail fs d c v i o b y
    rw [hv, fixZigzags_sibling_black, if_neg hred, plain_blacken]
    exact ⟨fs', hwhole, htop, fun hzig => hkept (of_decide_eq_false hzig),
      fun hzig => hlost (of_decide_eq_true hzig)⟩
  | @turn fs d c v i o u b y hv hi next ih =>
    obtain ⟨fs', hwhole, htop, hkept, hlost⟩ := ih
    rw [hv] at hkept hlost
    rw [hv, fixZigzags_sibling_red hi]
    have hparts : Kept (⟨d, c, b, branch d .red i y o⟩ :: fs)
        (⟨d, .red, b, i⟩ :: ⟨d, .black, y, o⟩ :: fs) := by
      intro ε combine data hbeside
      obtain ⟨hsib, hfs⟩ := summedBeside_cons.1 hbeside
      obtain ⟨-, hi', ho'⟩ := summed_branch.1 hsib
      exact summedBeside_cons.2 ⟨hi', summedBeside_cons.2 ⟨ho', hfs⟩⟩
    refine ⟨fs', hwhole, htop, fun hzig ε combine data hbeside => ?_, fun hzig sizes hbeside => ?_⟩
    · exact hkept hzig ε combine data (hparts ε combine data hbeside)
    · exact hlost hzig sizes (hparts Nat countNodes sizes hbeside)

/-! ## Removal -/

/-- Does the removal of the node with these subtrees, under these frames, make a zigzag
rotation? -/
def spliceZigzags (c : Color) (l r : ColorTree Ptr) (fs : List (Frame Ptr)) : Bool :=
  match splice c l r fs with
  | (.red, _, _) => false
  | (.black, v, gs) => fixZigzags v.color gs

theorem splice_summed {ε : Type} {combine : Ptr → Option ε → Option ε → ε} {data : Ptr → ε}
    {c : Color} {l r : ColorTree Ptr} {a : Ptr} {fs : List (Frame Ptr)}
    (h : Summed combine data (plug (.node c l a r) fs)) :
    Summed combine data (splice c l r fs).2.1 ∧ SummedBeside combine data (splice c l r fs).2.2 :=
    by
  obtain ⟨⟨-, hl, hr⟩, hfs⟩ := h.of_plug
  cases l with
  | nil => exact ⟨hr, hfs⟩
  | node cl ll al rl =>
    cases r with
    | nil => exact ⟨hl, hfs⟩
    | node c' l' a' r' =>
      have hplug := plug_leftmost l' c' a' r' []
      simp only [splice]
      generalize leftmost c' a' r' [] l' = m at hplug ⊢
      rw [plug] at hplug
      rw [← hplug] at hr
      obtain ⟨⟨-, -, hv⟩, hm⟩ := hr.of_plug
      exact ⟨hv, summedBeside_append.2 ⟨hm, summedBeside_cons.2 ⟨hl, hfs⟩⟩⟩

theorem removeRepair_trail {c : Color} {l r u : ColorTree Ptr} {fs : List (Frame Ptr)}
    (h : RemoveRepair c l r fs u) :
    ∃ fs', u.plain = (plug (splice c l r fs).2.1 fs').plain ∧ top fs' = top (splice c l r fs).2.2 ∧
      (spliceZigzags c l r fs = false → Kept (splice c l r fs).2.2 fs') ∧
      (spliceZigzags c l r fs = true → Lost (splice c l r fs).2.2 fs') := by
  unfold RemoveRepair at h
  unfold spliceZigzags
  rcases hs : splice c l r fs with ⟨cs, v, gs⟩
  rw [hs] at h
  cases cs with
  | red =>
    refine ⟨gs, congrArg plain h, rfl, fun _ ε combine data hbeside => hbeside, fun hzig => ?_⟩
    cases hzig
  | black => exact deleteRepair_trail h

theorem ptr_of_plain {u v : ColorTree Ptr} (h : u.plain = v.plain) : ptr u = ptr v := by
  cases u with
  | nil => rw [eq_nil_of_plain h.symm]
  | node c l a r =>
    cases v with
    | nil => cases h
    | node c' l' a' r' => exact (ColorTree.node.inj h).2.2.1

theorem top_of_plain {fs gs : List (Frame Ptr)}
    (h : fs.map Frame.plain = gs.map Frame.plain) : top fs = top gs := by
  cases fs with
  | nil =>
    cases gs with
    | nil => rfl
    | cons g gs => cases h
  | cons f fs =>
    cases gs with
    | nil => cases h
    | cons g gs =>
      have hfg : f.plain = g.plain := (List.cons.inj h).1
      have hnode := congrArg Frame.node hfg
      exact hnode

/-- The callback is run from the place, or from the node above it where it is empty:
afterwards all is summed exactly where the subtrees beside the place were. -/
theorem rbAugmentSpliced_iff (combine : Ptr → Option δ → Option δ → δ) (cmp : Ptr → Ptr → Int)
    {t : RbTree δ} {gs : List (Frame Ptr)} {v : ColorTree Ptr} (h : At t gs v)
    (hv : Summed combine t.data v) :
    ∃ t', rbAugmentSpliced ⟨cmp, augmentOf combine⟩ t (ptr v) (top gs) = .ok t' ∧
      Holds t' (plug v gs) ∧
      (Summed combine t'.data (plug v gs) ↔ SummedBeside combine t.data gs) := by
  have hh := h.holds
  cases v with
  | node c l a r =>
    have hat : At t gs (branch .left c l a r) := h
    obtain ⟨data', hrun, hiff⟩ := rbAugmentFrom_iff combine hat
    refine ⟨{ t with data := data' }, ?_, ⟨hh.focus, hh.spine, hh.nodup⟩, hiff.trans ?_⟩
    · have ha : a ≠ 0#32 := hat.ne_zero
      simp only [rbAugmentSpliced, ptr, if_pos ha]
      exact hrun
    · exact ⟨fun hall => hall.2.2, fun hbeside => ⟨hv.2.1, hv.2.2, hbeside⟩⟩
  | nil =>
    cases gs with
    | nil =>
      refine ⟨t, by simp [rbAugmentSpliced, ptr, top], hh, fun _ f hf => ?_, fun _ => trivial⟩
      exact absurd hf List.not_mem_nil
    | cons f gs =>
      obtain ⟨d, c, b, s⟩ := f
      obtain ⟨data', hrun, hiff⟩ := rbAugmentFrom_iff combine h.up
      refine ⟨{ t with data := data' }, ?_, ⟨hh.focus, hh.spine, hh.nodup⟩, hiff.trans ?_⟩
      · have hb : b ≠ 0#32 := h.up.ne_zero
        rw [rbAugmentSpliced, if_neg (by simp [ptr]), top, if_pos hb]
        exact hrun
      · rw [summedBeside_cons]
        exact ⟨fun hall => hall.2, fun hbeside => ⟨trivial, hbeside⟩⟩

theorem rbRemove_summed (combine : Ptr → Option δ → Option δ → δ) (cmp : Ptr → Ptr → Int)
    {t : RbTree δ} {fs : List (Frame Ptr)} {c : Color} {l r : ColorTree Ptr} {a : Ptr}
    (h : At t fs (.node c l a r)) (hrb : RedBlack (plug (.node c l a r) fs))
    (hsum : Summed combine t.data (plug (.node c l a r) fs)) :
    ∃ t' fs', rbRemove ⟨cmp, augmentOf combine⟩ t a = .ok (t', a) ∧
      (Summed combine t'.data t'.tree ↔ SummedBeside combine t.data fs') ∧
      (spliceZigzags c l r fs = false → Kept (splice c l r fs).2.2 fs') ∧
      (spliceZigzags c l r fs = true → Lost (splice c l r fs).2.2 fs') := by
  obtain ⟨s, t₂, u₂, ht₁, hfix, hpar, ht₂, h₂, hrep, -⟩ := rbFixSpliced_ok h hrb
  have hdata : t₂.data = t.data :=
    ((keepsData_fixSpliced s).of_ok ht₂).trans ((keepsData_configure a).of_ok ht₁)
  obtain ⟨fs', hwhole, htop, hkept, hlost⟩ := removeRepair_trail hrep
  obtain ⟨v', gs, rfl, hv, hgs⟩ := exists_plug_of_plain hwhole
  have hsum' : Summed combine t₂.data v' := by
    rw [hdata]
    exact (splice_summed hsum).1.of_plain hv
  obtain ⟨t₃, ht₃, h₃, hiff⟩ := rbAugmentSpliced_iff combine cmp (Holds.at h₂) hsum'
  refine ⟨t₃, fs', ?_, ?_, hkept, hlost⟩
  · rw [ptr_of_plain hv, top_of_plain hgs, htop] at ht₃
    simp only [rbRemove, ht₁, ok_bind, ht₂, hfix, hpar, ht₃]
    rfl
  · rw [h₃.tree_eq, hiff, hdata]
    exact ⟨fun hbeside => hbeside.of_plain hgs.symm, fun hbeside => hbeside.of_plain hgs⟩

/-! ## The calls -/

/-- The frames above the empty place where `rb_insert` puts the node; none where an equal
node is found. -/
def insertPath (cmp : Ptr → Ptr → Int) (node : Ptr) :
    ColorTree Ptr → List (Frame Ptr) → Option (List (Frame Ptr))
  | .nil, fs => some fs
  | .node c l a r, fs =>
    if cmp a node > 0 then insertPath cmp node l (⟨.left, c, a, r⟩ :: fs)
    else if cmp a node < 0 then insertPath cmp node r (⟨.right, c, a, l⟩ :: fs)
    else none

/-- Does the insertion of the node into the tree rotate? -/
def insertRotates (cmp : Ptr → Ptr → Int) (node : Ptr) (u : ColorTree Ptr) : Bool :=
  match insertPath cmp node u [] with
  | some fs => repairRotates fs
  | none => false

/-- Does the removal of the node from the tree make a zigzag rotation? -/
def removeZigzags (a : Ptr) (u : ColorTree Ptr) : Bool :=
  match locate a u [] with
  | some (c, l, r, fs) => spliceZigzags c l r fs
  | none => false

def RbTree.withData {ε : Type} (t : RbTree δ) (data : Ptr → ε) : RbTree ε :=
  { root := t.root, mem := t.mem, data := data }

/-- Whatever the callback computes a summary from, and whatever it is: where all nodes are
summed before the call, the call returns and all nodes are summed after it. -/
def KeepsSummaries (cmp : Ptr → Ptr → Int) (t : RbTree δ) (op : Op) : Prop :=
  ∀ (ε : Type) (combine : Ptr → Option ε → Option ε → ε) (data : Ptr → ε),
    Summed combine data t.tree → ∃ t' out,
      step ⟨cmp, augmentOf combine⟩ (t.withData data) op = .ok (t', out) ∧
      Summed combine t'.data t'.tree

theorem Sided.insertPath_plug {cmp : Ptr → Ptr → Int} {node : Ptr} {fs : List (Frame Ptr)}
    (hs : Sided cmp node fs) (v : ColorTree Ptr) :
    insertPath cmp node (plug v fs) [] = insertPath cmp node v fs := by
  induction fs generalizing v with
  | nil => rfl
  | cons f fs ih =>
    have hf := hs f (by simp)
    rw [plug, ih fun g hg => hs g (by simp [hg])]
    obtain ⟨d, c, a, s⟩ := f
    cases d with
    | left => rw [branch, insertPath, if_pos hf]
    | right =>
      have hf' : cmp a node < 0 := hf
      rw [branch, insertPath, if_neg (by omega), if_pos hf']

theorem Found.insertRotates_nil {cmp : Ptr → Ptr → Int} {t : RbTree δ} {node : Ptr}
    {fs : List (Frame Ptr)} (hf : Found cmp t node fs .nil) :
    insertRotates cmp node (plug .nil fs) = repairRotates fs := by
  rw [insertRotates, hf.sided.insertPath_plug]
  rfl

theorem Found.insertRotates_node {cmp : Ptr → Ptr → Int} {t : RbTree δ} {node a : Ptr}
    {fs : List (Frame Ptr)} {c : Color} {l r : ColorTree Ptr}
    (hf : Found cmp t node fs (.node c l a r)) :
    insertRotates cmp node (plug (.node c l a r) fs) = false := by
  have heq : cmp a node = 0 := hf.equal.1
  rw [insertRotates, hf.sided.insertPath_plug, insertPath, if_neg (by omega), if_neg (by omega)]

theorem At.withData {ε : Type} {t : RbTree δ} {fs : List (Frame Ptr)} {u : ColorTree Ptr}
    (h : At t fs u) (data : Ptr → ε) : At (t.withData data) fs u :=
  ⟨h.focus, h.spine, h.nodup⟩

theorem Holds.nodup_toList {t : RbTree δ} {u : ColorTree Ptr} (h : Holds t u) :
    u.toList.Nodup := by
  have hn := h.nodup
  rwa [frameNodes, List.append_nil] at hn

theorem rbInsert_keeps_iff (cmp : Ptr → Ptr → Int) {t : RbTree δ} {u : ColorTree Ptr}
    (hu : Holds t u) (hrb : RedBlack u) {node : Ptr} (hne : node ≠ 0#32) (hal : Aligned node)
    (hnew : node ∉ u.toList) :
    KeepsSummaries cmp t (.insert node) ↔ insertRotates cmp node u = false := by
  have hout : ∀ fs, plug .nil fs = u → node ∉ frameNodes fs := by
    intro fs hplug hmem
    apply hnew
    rw [← hplug, (toList_plug_perm .nil fs).mem_iff]
    exact List.mem_append_right _ hmem
  constructor
  · -- the sizes go wrong where there is a rotation
    intro hkeeps
    obtain ⟨sizes, hsizes⟩ := exists_summed countNodes hu.nodup_toList
    obtain ⟨t', out, hstep, hsum⟩ := hkeeps Nat countNodes sizes (hu.tree_eq.symm ▸ hsizes)
    have hu' := At.withData hu sizes
    obtain ⟨fs, v, hlink, hf, hplug⟩ := rbFindNodeLink_ok cmp hu' node
    cases v with
    | node c l a r => rw [← hplug, hf.insertRotates_node]
    | nil =>
      rw [← hplug, hf.insertRotates_nil]
      rw [show ptr (.nil : ColorTree Ptr) = 0#32 from rfl, if_pos rfl] at hlink
      obtain ⟨t₁, ht₁, -, hyes⟩ := rbInsert_summed countNodes hf hlink (hplug ▸ hrb)
        (hout fs hplug) hne hal
      obtain ⟨rfl, -⟩ : t₁ = t' ∧ node = out := by
        have heq := ht₁.symm.trans hstep
        simpa using heq
      cases hrot : repairRotates fs with
      | false => rfl
      | true =>
        obtain ⟨fs', hstale, hbeside⟩ := hyes hrot
        exact absurd (hbeside hsum) (hstale sizes (hplug.symm ▸ hsizes))
  · intro hrot ε combine data hsum
    have hu' := At.withData hu data
    obtain ⟨fs, v, hlink, hf, hplug⟩ := rbFindNodeLink_ok cmp hu' node
    rw [hu.tree_eq] at hsum
    cases v with
    | node c l a r =>
      have ha : ptr (.node c l a r) ≠ 0#32 := At.ne_zero (d := .left) hf.place
      refine ⟨t.withData data, 0#32, rbInsert_equal hf ha hlink, ?_⟩
      rw [Holds.tree_eq hu']
      exact hsum
    | nil =>
      rw [show ptr (.nil : ColorTree Ptr) = 0#32 from rfl, if_pos rfl] at hlink
      obtain ⟨t₁, ht₁, hno, -⟩ := rbInsert_summed combine hf hlink (hplug ▸ hrb)
        (hout fs hplug) hne hal
      rw [← hplug, hf.insertRotates_nil] at hrot
      rw [← hplug] at hsum
      exact ⟨t₁, node, ht₁, hno hrot hsum.of_plug.2⟩

theorem rbRemoveNode_keeps_iff (cmp : Ptr → Ptr → Int) {t : RbTree δ} {u : ColorTree Ptr}
    (hu : Holds t u) (hrb : RedBlack u) {a : Ptr} (ha : a ∈ u.toList) :
    KeepsSummaries cmp t (.removeNode a) ↔ removeZigzags a u = false := by
  obtain ⟨⟨c, l, r, fs⟩, hfound⟩ := locate_isSome [] ha
  have hplug : plug (.node c l a r) fs = u := plug_locate hfound
  have hzig : removeZigzags a u = spliceZigzags c l r fs := by rw [removeZigzags, hfound]
  have ha0 : a ≠ 0#32 := Rep.ne_zero hu.focus ha
  rw [hzig]
  constructor
  · intro hkeeps
    obtain ⟨sizes, hsizes⟩ := exists_summed countNodes hu.nodup_toList
    obtain ⟨t', out, hstep, hsum⟩ := hkeeps Nat countNodes sizes (hu.tree_eq.symm ▸ hsizes)
    have hu' := At.withData hu sizes
    rw [← hplug] at hu' hrb hsizes
    obtain ⟨t₁, fs', ht₁, hiff, -, hlost⟩ := rbRemove_summed countNodes cmp
      (Holds.at hu') hrb hsizes
    obtain ⟨rfl, -⟩ : t₁ = t' ∧ a = out := by
      have heq := ht₁.symm.trans ((if_neg ha0).symm.trans hstep)
      simpa using heq
    cases hs : spliceZigzags c l r fs with
    | false => rfl
    | true => exact absurd (hiff.1 hsum) (hlost hs sizes (splice_summed hsizes).2)
  · intro hs ε combine data hsum
    have hu' := At.withData hu data
    rw [hu.tree_eq, ← hplug] at hsum
    rw [← hplug] at hu' hrb
    obtain ⟨t₁, fs', ht₁, hiff, hkept, -⟩ := rbRemove_summed combine cmp (Holds.at hu') hrb hsum
    refine ⟨t₁, a, (if_neg ha0).trans ht₁, hiff.2 ?_⟩
    exact hkept hs ε combine data (splice_summed hsum).2

/-- The summaries are kept, whatever the callback, exactly by the insertions without a
rotation and by the removals without a zigzag. -/
theorem augment_iff (cmp : Ptr → Ptr → Int) (t : RbTree δ) (u : ColorTree Ptr) (hu : Holds t u)
    (hrb : RedBlack u) :
    (∀ node, node ≠ 0#32 → Aligned node → node ∉ u.toList →
      (KeepsSummaries cmp t (.insert node) ↔ insertRotates cmp node u = false)) ∧
    ∀ a ∈ u.toList, (KeepsSummaries cmp t (.removeNode a) ↔ removeZigzags a u = false) :=
  ⟨fun _ hne hal hnew => rbInsert_keeps_iff cmp hu hrb hne hal hnew,
    fun _ ha => rbRemoveNode_keeps_iff cmp hu hrb ha⟩

/-- Node 16 comes under the red node 12, whose sibling is red; node 4 is red. -/
theorem threeNodes_summaries :
    insertRotates addressOrder.cmp 16#32 threeNodesTree = false ∧
    removeZigzags 4#32 threeNodesTree = false ∧
    KeepsSummaries addressOrder.cmp threeNodes (.insert 16#32) ∧
    KeepsSummaries addressOrder.cmp threeNodes (.removeNode 4#32) := by
  obtain ⟨hins, hrem⟩ := augment_iff addressOrder.cmp threeNodes threeNodesTree threeNodes_holds
    threeNodes_redBlack
  have hrot : insertRotates addressOrder.cmp 16#32 threeNodesTree = false := by decide
  have hzig : removeZigzags 4#32 threeNodesTree = false := by decide
  exact ⟨hrot, hzig, (hins 16#32 (by decide) (by decide) (by decide)).2 hrot,
    (hrem 4#32 (by decide)).2 hzig⟩

/-- A black node at 4 with a red right child at 8, which keep their sizes. -/
def twoNodes : RbTree Nat where
  root := 4#32
  mem p := if p = 4#32 then ⟨0#32, 0#32, 8#32⟩ else ⟨5#32, 0#32, 0#32⟩
  data p := if p = 4#32 then 2 else 1

def twoNodesTree : ColorTree Ptr := .node .black .nil 4#32 (.node .red .nil 8#32 .nil)

/-- A black node at 8 with the black children 4 and 16, and the red 12 under 16. -/
def fourNodes : RbTree Nat where
  root := 8#32
  mem p :=
    if p = 8#32 then ⟨0#32, 4#32, 16#32⟩
    else if p = 4#32 then ⟨8#32, 0#32, 0#32⟩
    else if p = 16#32 then ⟨8#32, 12#32, 0#32⟩
    else ⟨17#32, 0#32, 0#32⟩
  data p := if p = 8#32 then 4 else if p = 16#32 then 2 else 1

def fourNodesTree : ColorTree Ptr :=
  .node .black (.node .black .nil 4#32 .nil) 8#32
    (.node .black (.node .red .nil 12#32 .nil) 16#32 .nil)

theorem twoNodes_holds : Holds twoNodes twoNodesTree := by
  refine ⟨⟨rfl, by decide, by decide, by decide, by decide, ?_, ?_⟩, ⟨rfl, rfl⟩, by decide⟩
  · exact show (twoNodes.mem _).left = 0#32 by decide
  · exact ⟨by decide, by decide, by decide, by decide, by decide,
      show (twoNodes.mem _).left = 0#32 by decide, show (twoNodes.mem _).right = 0#32 by decide⟩

theorem fourNodes_holds : Holds fourNodes fourNodesTree := by
  refine ⟨⟨rfl, by decide, by decide, by decide, by decide, ?_, ?_⟩, ⟨rfl, rfl⟩, by decide⟩
  · exact ⟨by decide, by decide, by decide, by decide, by decide,
      show (fourNodes.mem _).left = 0#32 by decide, show (fourNodes.mem _).right = 0#32 by decide⟩
  · refine ⟨by decide, by decide, by decide, by decide, by decide, ?_,
      show (fourNodes.mem _).right = 0#32 by decide⟩
    exact ⟨by decide, by decide, by decide, by decide, by decide,
      show (fourNodes.mem _).left = 0#32 by decide, show (fourNodes.mem _).right = 0#32 by decide⟩

/-- The tree, what one node keeps, and the result of a call. -/
def outcomeAt (p : Ptr) (x : Kernel (RbTree Nat × Ptr)) : Kernel (ColorTree Ptr × Nat × Ptr) :=
  x.map fun r => (r.1.tree, r.1.data p, r.2)

theorem exists_of_outcomeAt {p out : Ptr} {x : Kernel (RbTree Nat × Ptr)} {u : ColorTree Ptr}
    {n : Nat} (h : outcomeAt p x = .ok (u, n, out)) :
    ∃ t', x = .ok (t', out) ∧ t'.tree = u ∧ t'.data p = n := by
  unfold outcomeAt at h
  cases hx : x with
  | error e =>
    rw [hx] at h
    cases h
  | ok r =>
    rw [hx] at h
    obtain ⟨hu, hn, hout⟩ : r.1.tree = u ∧ r.1.data p = n ∧ r.2 = out := by
      have := Except.ok.inj h
      simpa using this
    exact ⟨r.1, by rw [← hout], hu, hn⟩

/-- Node 12 in line with 4 and 8: after the rotation 4 has no children and keeps the size
two. And when 4 is removed from the four nodes, 12 comes up between 8 and 16, and 16 keeps
the size two. -/
theorem rotations_leave_sizes :
    TotalOrder (fun _ => True) addressOrder.cmp ∧
    (Holds twoNodes twoNodesTree ∧ RedBlack twoNodesTree ∧ Ordered addressOrder.cmp twoNodesTree ∧
      Summed countNodes twoNodes.data twoNodesTree ∧
      ∃ t', rbInsert ⟨addressOrder.cmp, augmentOf countNodes⟩ twoNodes 12#32 = .ok (t', 12#32) ∧
        t'.tree = .node .black (.node .red .nil 4#32 .nil) 8#32 (.node .red .nil 12#32 .nil) ∧
        t'.data 4#32 = 2 ∧ ¬ Summed countNodes t'.data t'.tree) ∧
    (Holds fourNodes fourNodesTree ∧ RedBlack fourNodesTree ∧
      Ordered addressOrder.cmp fourNodesTree ∧ Summed countNodes fourNodes.data fourNodesTree ∧
      ∃ t', rbRemoveNode ⟨addressOrder.cmp, augmentOf countNodes⟩ fourNodes 4#32 =
          .ok (t', 4#32) ∧
        t'.tree = .node .black (.node .black .nil 8#32 .nil) 12#32 (.node .black .nil 16#32 .nil) ∧
        t'.data 16#32 = 2 ∧ ¬ Summed countNodes t'.data t'.tree) := by
  refine ⟨addressOrder_total, ⟨twoNodes_holds, ⟨1, .black .nil (.red .nil .nil)⟩, ?_, ?_, ?_⟩,
    ⟨fourNodes_holds, ⟨2, .black (.black .nil .nil) (.black (.red .nil .nil) .nil)⟩, ?_, ?_, ?_⟩⟩
  · unfold Ordered
    decide +kernel
  · exact ⟨rfl, trivial, rfl, trivial, trivial⟩
  · obtain ⟨t', hrun, htree, hdata⟩ := exists_of_outcomeAt (p := 4#32) (n := 2)
      (show outcomeAt 4#32 (rbInsert ⟨addressOrder.cmp, augmentOf countNodes⟩ twoNodes 12#32) =
        .ok (.node .black (.node .red .nil 4#32 .nil) 8#32 (.node .red .nil 12#32 .nil), 2, 12#32)
        by decide +kernel)
    refine ⟨t', hrun, htree, hdata, ?_⟩
    rw [htree]
    intro hsum
    have hone : t'.data 4#32 = 1 := hsum.2.1.1
    omega
  · unfold Ordered
    decide +kernel
  · exact ⟨rfl, ⟨rfl, trivial, trivial⟩, rfl, ⟨rfl, trivial, trivial⟩, trivial⟩
  · obtain ⟨t', hrun, htree, hdata⟩ := exists_of_outcomeAt (p := 16#32) (n := 2)
      (show outcomeAt 16#32 (rbRemoveNode ⟨addressOrder.cmp, augmentOf countNodes⟩ fourNodes 4#32) =
        .ok (.node .black (.node .black .nil 8#32 .nil) 12#32 (.node .black .nil 16#32 .nil), 2,
          4#32) by decide +kernel)
    refine ⟨t', hrun, htree, hdata, ?_⟩
    rw [htree]
    intro hsum
    have hone : t'.data 16#32 = 1 := hsum.2.2.1
    omega

end X86Kernel.Rb
