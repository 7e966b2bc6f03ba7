import X86Kernel.Lib.Outcome
import X86Kernel.Lib.Summary
import X86Kernel.Utils.RbTree.Contents

/- Summaries that the augment callback keeps in the nodes of a red-black tree.

   A callback that computes the summary of a node from the node and from what its children
   keep is `augmentOf combine`. `rb_augment_from` runs it on a node and on all nodes above
   it: afterwards all is summed exactly where the subtrees beside this path were summed
   before (`rbAugmentFrom_iff`). So after an insertion or a removal it matters which nodes
   are on the path, and whether those that are not have the children they had.

   The repairs of the colours and the links leave alone what the nodes keep
   (`keepsData_insertAt`, `keepsData_fixSpliced`). -/
namespace X86Kernel.Rb
open X86Kernel.Lib X86Kernel.Lib.ColorTree

variable {δ : Type}

/-! ## The callback -/

/-- What a node is told of a child. -/
def kept (data : Ptr → δ) (p : Ptr) : Option δ := if p = 0#32 then none else some (data p)

/-- The callback that computes a summary from the node and its children's summaries. -/
def augmentOf (combine : Ptr → Option δ → Option δ → δ) (mem : Ptr → RbNode) (data : Ptr → δ)
    (p : Ptr) : δ :=
  combine p (kept data (mem p).left) (kept data (mem p).right)

variable {combine : Ptr → Option δ → Option δ → δ}

theorem kept_ptr {t : RbTree δ} {fs : List (Frame Ptr)} {u : ColorTree Ptr} (h : At t fs u)
    {data : Ptr → δ} (hsum : Summed combine data u) : kept data (ptr u) = summary combine u := by
  cases u with
  | nil => rfl
  | node c l a r =>
    have hne : ptr (.node c l a r) ≠ 0#32 := At.ne_zero (d := .left) h
    rw [kept, if_neg hne, hsum.summary_eq]
    rfl

theorem augmentOf_branch {t : RbTree δ} {fs : List (Frame Ptr)} {d : Side} {c : Color}
    {u v : ColorTree Ptr} {a : Ptr} (h : At t fs (branch d c u a v)) {data : Ptr → δ}
    (hu : Summed combine data u) (hv : Summed combine data v) :
    augmentOf combine t.mem data a =
      combineAt combine d a (summary combine u) (summary combine v) := by
  have hnear : (t.mem a).child d = ptr u := (rep_branch.1 h.focus).2.2.2.2.2.1.ptr_eq
  have hfar : (t.mem a).child d.flip = ptr v := (rep_branch.1 h.focus).2.2.2.2.2.2.ptr_eq
  rw [← kept_ptr h.down hu, ← kept_ptr h.down.across hv, ← hnear, ← hfar]
  cases d <;> rfl

/-- The nodes from the focus up to the root. -/
def pathUp (a : Ptr) (fs : List (Frame Ptr)) : List Ptr := a :: fs.map Frame.node

theorem mem_frameNodes_of_sibling {fs : List (Frame Ptr)} {f : Frame Ptr} {b : Ptr} (hf : f ∈ fs)
    (hb : b ∈ f.sibling.toList) : b ∈ frameNodes fs := by
  induction fs with
  | nil => exact absurd hf List.not_mem_nil
  | cons g fs ih =>
    rw [frameNodes, List.mem_cons, List.mem_append]
    rcases List.mem_cons.1 hf with rfl | hf
    · exact .inr (.inl hb)
    · exact .inr (.inr (ih hf))

theorem mem_frameNodes_of_node {fs : List (Frame Ptr)} {f : Frame Ptr} (hf : f ∈ fs) :
    f.node ∈ frameNodes fs := by
  induction fs with
  | nil => exact absurd hf List.not_mem_nil
  | cons g fs ih =>
    rw [frameNodes, List.mem_cons, List.mem_append]
    rcases List.mem_cons.1 hf with rfl | hf
    · exact .inl rfl
    · exact .inr (.inr (ih hf))

theorem beside_not_path {fs : List (Frame Ptr)} (hn : (frameNodes fs).Nodup) {f : Frame Ptr}
    (hf : f ∈ fs) {b : Ptr} (hb : b ∈ f.sibling.toList) : ∀ g ∈ fs, g.node ≠ b := by
  induction fs with
  | nil => exact absurd hf List.not_mem_nil
  | cons h fs ih =>
    rw [frameNodes, List.nodup_cons, List.nodup_append] at hn
    obtain ⟨hout, -, hnfs, hapart⟩ := hn
    rw [List.mem_append, not_or] at hout
    intro g hg e
    rcases List.mem_cons.1 hf with rfl | hf'
    · rcases List.mem_cons.1 hg with rfl | hg'
      · exact hout.1 (e ▸ hb)
      · exact hapart b hb g.node (mem_frameNodes_of_node hg') e.symm
    · rcases List.mem_cons.1 hg with rfl | hg'
      · exact hout.2 (e ▸ mem_frameNodes_of_sibling hf' hb)
      · exact ih hnfs hf' g hg' e

/-! ## Running it up to the root -/

/-- The callback is run on the path; what is beside the path stays, and where that is
summed, all is summed in the end. -/
theorem rbAugmentFromLoop_summed : ∀ (fs : List (Frame Ptr)) (fuel : Nat) {t : RbTree δ} {d : Side}
    {c : Color} {u v : ColorTree Ptr} {a : Ptr}, At t fs (branch d c u a v) → fs.length < fuel →
    ∃ data', rbAugmentFromLoop (augmentOf combine) fuel t a = .ok { t with data := data' } ∧
      (∀ b, b ∉ pathUp a fs → data' b = t.data b) ∧
      (Summed combine t.data u → Summed combine t.data v → SummedBeside combine t.data fs →
        Summed combine data' (plug (branch d c u a v) fs)) := by
  intro fs
  induction fs with
  | nil =>
    intro fuel t d c u v a h hfuel
    obtain ⟨fuel, rfl⟩ : ∃ k, fuel = k + 1 := ⟨fuel - 1, by omega⟩
    have hroot : t.root = a := by simpa using h.spine.2
    refine ⟨_, by simp [rbAugmentFromLoop, h.ne_zero, hroot]; rfl, ?_, ?_⟩
    · intro b hb
      exact if_neg fun e => hb (by simp [pathUp, e])
    · intro hu hv _
      have hn := nodup_branch.1 h.nodup
      simp only
        [frameNodes, List.append_nil, List.nodup_append, List.nodup_cons, List.mem_cons] at hn
      refine summed_branch.2 ⟨?_, hu.congr fun b hb => if_neg ?_, hv.congr fun b hb => if_neg ?_⟩
      · rw [if_pos rfl, augmentOf_branch h hu hv]
      · exact hn.2.2 b hb a (.inl rfl)
      · exact fun e => hn.2.1.1 (e ▸ hb)
  | cons f fs ih =>
    intro fuel t d c u v a h hfuel
    obtain ⟨fuel, rfl⟩ : ∃ k, fuel = k + 1 := ⟨fuel - 1, by omega⟩
    obtain ⟨e, c', b, s⟩ := f
    have hroot : t.root ≠ a := by simpa using h.ptr_ne_root.symm
    have hpar : (t.mem a).parent = b := (rep_branch.1 h.focus).2.2.2.1
    have hup := h.up
    let t₁ : RbTree δ :=
      { t with data := fun p => if p = a then augmentOf combine t.mem t.data a else t.data p }
    have hup₁ : At t₁ fs (branch e c' (branch d c u a v) b s) := ⟨hup.focus, hup.spine, hup.nodup⟩
    obtain ⟨data', hrun, hout, hsummed⟩ := ih fuel hup₁ (by simpa using hfuel)
    refine ⟨data', ?_, ?_, ?_⟩
    · simp only [rbAugmentFromLoop, if_neg h.ne_zero, if_neg hroot, hpar]
      exact hrun
    · intro p hp
      rw [pathUp, List.mem_cons, not_or, List.map_cons] at hp
      rw [hout p hp.2]
      exact if_neg hp.1
    · intro hu hv hbeside
      -- the summary of `a` is new, and nothing beside the path has `a`
      have hn := nodup_branch.1 h.nodup
      simp only
        [frameNodes, List.nodup_append, List.nodup_cons, List.mem_append, List.mem_cons] at hn
      have hbeside' : ∀ x, x ∈ s.toList ∨ x ∈ frameNodes fs → t₁.data x = t.data x := by
        intro x hx
        apply if_neg
        intro hxa
        rw [hxa] at hx
        exact hn.2.1.1 (.inr (.inr hx))
      obtain ⟨hs, hfs⟩ := summedBeside_cons.1 hbeside
      apply hsummed
      · refine summed_branch.2 ⟨?_, hu.congr fun x hx => if_neg ?_, hv.congr fun x hx => if_neg ?_⟩
        · rw [← augmentOf_branch h hu hv]
          exact if_pos rfl
        · exact hn.2.2 x hx a (.inl rfl)
        · exact fun hxa => hn.2.1.1 (.inl (hxa ▸ hx))
      · exact hs.congr fun x hx => hbeside' x (.inl hx)
      · intro f hf
        exact (hfs f hf).congr fun x hx => hbeside' x (.inr (mem_frameNodes_of_sibling hf hx))

/-- After `rb_augment_from` all is summed exactly where the children of its first node, and
the subtrees beside the path, were summed before. -/
theorem rbAugmentFrom_iff (combine : Ptr → Option δ → Option δ → δ) {t : RbTree δ}
    {fs : List (Frame Ptr)} {d : Side} {c : Color}
    {u v : ColorTree Ptr} {a : Ptr} (h : At t fs (branch d c u a v)) :
    ∃ data', rbAugmentFrom (augmentOf combine) t a = .ok { t with data := data' } ∧
      (Summed combine data' (plug (branch d c u a v) fs) ↔
        Summed combine t.data u ∧ Summed combine t.data v ∧ SummedBeside combine t.data fs) := by
  have hlen : fs.length < loopLimit := by
    have hle := length_le_toList fs (branch d c u a v)
    have hlt := h.holds.length_lt
    omega
  obtain ⟨data', hrun, hout, hsummed⟩ := rbAugmentFromLoop_summed fs loopLimit h hlen
  refine ⟨data', hrun, ?_, fun hall => hsummed hall.1 hall.2.1 hall.2.2⟩
  intro hall
  have hn := nodup_branch.1 h.nodup
  obtain ⟨-, hrest, hapart⟩ := List.nodup_append.1 hn
  obtain ⟨haout, hvF⟩ := List.nodup_cons.1 hrest
  obtain ⟨-, hnF, hvapart⟩ := List.nodup_append.1 hvF
  rw [List.mem_append, not_or] at haout
  have hpath : ∀ b, b ≠ a → (∀ g ∈ fs, g.node ≠ b) → data' b = t.data b := by
    intro b hba hb
    apply hout
    rw [pathUp, List.mem_cons, not_or]
    refine ⟨hba, fun hmem => ?_⟩
    obtain ⟨g, hg, he⟩ := List.mem_map.1 hmem
    exact hb g hg he
  obtain ⟨hfocus, hbeside⟩ := hall.of_plug
  obtain ⟨-, hu, hv⟩ := summed_branch.1 hfocus
  refine ⟨hu.congr fun b hb => (hpath b ?_ ?_).symm, hv.congr fun b hb => (hpath b ?_ ?_).symm,
    fun f hf => (hbeside f hf).congr fun b hb => (hpath b ?_ ?_).symm⟩
  · exact hapart b hb a (by simp)
  · intro g hg e
    exact hapart b hb g.node
      (List.mem_cons_of_mem _ (List.mem_append_right _ (mem_frameNodes_of_node hg))) e.symm
  · exact fun e => haout.1 (e ▸ hb)
  · intro g hg e
    exact hvapart b hb g.node (mem_frameNodes_of_node hg) e.symm
  · exact fun e => haout.2 (e ▸ mem_frameNodes_of_sibling hf hb)
  · exact beside_not_path hnF hf hb

/-! ## What the repairs leave alone -/

/-- Where the call returns, the nodes keep what they kept in `t`. -/
def KeepsData {β : Type} (get : β → RbTree δ) (t : RbTree δ) (x : Kernel β) : Prop :=
  Outcome (fun _ => True) (fun r => (get r).data = t.data) x

section KeepsData

variable {β γ : Type} {get : β → RbTree δ} {get' : γ → RbTree δ} {t : RbTree δ}

theorem KeepsData.bind {x : Kernel β} {f : β → Kernel γ} (hx : KeepsData get t x)
    (hf : ∀ r, KeepsData get' (get r) (f r)) : KeepsData get' t (x >>= f) :=
  Outcome.bind hx fun r hr => (hf r).mono fun _ h => h.trans hr

theorem KeepsData.read {x : Kernel β} {f : β → Kernel γ} (hf : ∀ r, KeepsData get' t (f r)) :
    KeepsData get' t (x >>= f) :=
  Outcome.bind (P := fun _ => True) (outcome_of_ok fun _ _ => trivial) fun r _ => hf r

theorem keepsData_modify (p : Ptr) (f : RbNode → RbNode) : KeepsData id t (modify t p f) := by
  unfold modify
  split
  · trivial
  · exact rfl

theorem keepsData_setParentOf (p q : Ptr) : KeepsData id t (setParentOf t p q) := by
  unfold setParentOf
  split
  · exact rfl
  · exact keepsData_modify p _

theorem keepsData_setBlackOf (p : Ptr) : KeepsData id t (setBlackOf t p) := by
  unfold setBlackOf
  split
  · exact rfl
  · exact keepsData_modify p _

theorem keepsData_setColorToOther (p q : Ptr) : KeepsData id t (setColorToOther t p q) :=
  KeepsData.read fun _ => keepsData_modify p _

theorem keepsData_rotateRelink (g old new : Ptr) : KeepsData id t (rotateRelink t g old new) := by
  unfold rotateRelink
  split
  · exact rfl
  · split
    · exact keepsData_modify g _
    · split
      · exact keepsData_modify g _
      · exact rfl

theorem keepsData_rotate (d : Side) (p : Ptr) : KeepsData id t (rotate d t p) := by
  unfold rotate
  refine KeepsData.read fun up => KeepsData.read fun pivot => ?_
  refine (keepsData_modify p _).bind fun t₁ => (keepsData_setParentOf pivot p).bind fun t₂ => ?_
  refine KeepsData.read fun gparent => (keepsData_modify up _).bind fun t₃ => ?_
  refine (keepsData_rotateRelink gparent p up).bind fun t₄ => ?_
  exact (keepsData_modify up _).bind fun t₅ => keepsData_modify p _

/-! ### The insertion -/

theorem keepsData_insertRotation (gparent parent : Ptr) (d e : Side) :
    KeepsData id t (rbHandleInsertFixupRotation t gparent parent d e) := by
  have hlast : ∀ t₁ : RbTree δ, KeepsData id t₁ (do
      let t ← rotate d.flip t₁ gparent
      let newTop ← getParent t gparent
      let t ← setBlack t newTop
      setRed t gparent) := by
    intro t₁
    refine (keepsData_rotate d.flip gparent).bind fun t₂ => KeepsData.read fun newTop => ?_
    exact (keepsData_modify newTop _).bind fun t₃ => keepsData_modify gparent _
  unfold rbHandleInsertFixupRotation
  split
  · exact (keepsData_rotate d parent).bind fun t₁ => hlast t₁
  · exact hlast t

theorem keepsData_insertFixup : ∀ (fuel : Nat) (t : RbTree δ) (node : Ptr),
    KeepsData id t (rbInsertFixupLoop fuel t node) := by
  intro fuel
  induction fuel with
  | zero => intro t node; trivial
  | succ fuel ih =>
    intro t node
    unfold rbInsertFixupLoop
    refine KeepsData.read fun parent => ?_
    split
    · exact keepsData_modify t.root _
    · split
      · exact rfl
      · refine KeepsData.read fun gparent => ?_
        split
        · exact rfl
        · refine KeepsData.read fun uncle => ?_
          split
          · refine (keepsData_modify uncle _).bind fun t₁ => ?_
            refine (keepsData_modify parent _).bind fun t₂ => ?_
            refine (keepsData_modify gparent _).bind fun t₃ => (ih t₃ gparent).bind fun t₄ => ?_
            exact keepsData_modify t₄.root _
          · refine KeepsData.read fun parentSide => KeepsData.read fun nodeSide => ?_
            refine (keepsData_insertRotation gparent parent parentSide nodeSide).bind fun t₁ => ?_
            exact keepsData_modify t₁.root _

theorem keepsData_insertAt (link : Link) (node parent : Ptr) :
    KeepsData id t (insertAt t link node parent) := by
  unfold insertAt
  refine (keepsData_modify node _).bind fun t₁ => (keepsData_modify node _).bind fun t₂ => ?_
  refine (keepsData_modify node _).bind fun t₃ => ?_
  have hassign : (t₃.assign link node).data = t₃.data := by cases link <;> rfl
  have hparent : KeepsData id t₃ (setParent (t₃.assign link node) node parent) :=
    (keepsData_modify (t := t₃.assign link node) node _).mono fun _ h => h.trans hassign
  exact hparent.bind fun t₄ => keepsData_insertFixup loopLimit t₄ node

/-! ### The removal -/

theorem keepsData_transplant (old new : Ptr) : KeepsData id t (rbTransplant t old new) := by
  unfold rbTransplant
  refine KeepsData.read fun parent => ?_
  have hlink : KeepsData id t (transplantRelink t parent old new) := by
    unfold transplantRelink
    split
    · exact rfl
    · split
      · exact keepsData_modify parent _
      · exact keepsData_modify parent _
  exact hlink.bind fun t₁ => keepsData_setParentOf new parent

theorem keepsData_detach (a s x : Ptr) : KeepsData Prod.fst t (rbDetachSuccessor t a s x) := by
  unfold rbDetachSuccessor
  refine KeepsData.read fun parent => ?_
  split
  · exact rfl
  · refine (keepsData_transplant s x).bind fun t₁ => KeepsData.read fun right => ?_
    refine (keepsData_modify s _).bind fun t₂ => (keepsData_setParentOf right s).bind fun t₃ => ?_
    exact rfl

theorem keepsData_replace (a s : Ptr) : KeepsData id t (rbReplaceBySuccessor t a s) := by
  unfold rbReplaceBySuccessor
  refine (keepsData_transplant a s).bind fun t₁ => (keepsData_setColorToOther s a).bind fun t₂ => ?_
  refine KeepsData.read fun left => (keepsData_modify s _).bind fun t₃ => ?_
  exact (keepsData_setParentOf left s).bind fun t₄ => keepsData_setColorToOther a s

theorem keepsData_configure (a : Ptr) : KeepsData Spliced.tree t (rbConfigureDelete t a) := by
  unfold rbConfigureDelete
  refine KeepsData.read fun n => ?_
  split
  · exact (keepsData_transplant a n.right).bind fun t₁ => rfl
  · split
    · exact (keepsData_transplant a n.left).bind fun t₁ => rfl
    · unfold rbDeleteConfigureNuclearNode
      refine KeepsData.read fun s => KeepsData.read fun x => ?_
      refine (keepsData_detach a s x).bind fun r => ?_
      exact (keepsData_replace a s).bind fun t₁ => rfl

theorem keepsData_sibling (b : Ptr) (d : Side) :
    KeepsData Prod.fst t (rbDeleteFixupSibling t b d) := by
  unfold rbDeleteFixupSibling
  refine KeepsData.read fun sibling => ?_
  split
  · have hred : KeepsData id t (rbDeleteFixupSiblingRed t b sibling d) :=
      (keepsData_modify sibling _).bind fun t₁ =>
        (keepsData_modify b _).bind fun t₂ => keepsData_rotate d b
    exact hred.bind fun t₁ => KeepsData.read fun s => rfl
  · exact rfl

theorem keepsData_childRed (b s : Ptr) (d : Side) :
    KeepsData id t (rbDeleteFixupSiblingBlackChildRed t b s d) := by
  unfold rbDeleteFixupSiblingBlackChildRed
  have hzigzag : KeepsData Prod.fst t (rbDeleteFixupZigzag t b s d) := by
    unfold rbDeleteFixupZigzag
    refine KeepsData.read fun inner => ?_
    split
    · refine (keepsData_setBlackOf inner).bind fun t₁ => (keepsData_modify s _).bind fun t₂ => ?_
      exact (keepsData_rotate d.flip s).bind fun t₃ => KeepsData.read fun z => rfl
    · exact rfl
  refine hzigzag.bind fun r => (keepsData_modify b _).bind fun t₁ => KeepsData.read fun outer => ?_
  exact (keepsData_setBlackOf outer).bind fun t₂ => keepsData_rotate d b

theorem keepsData_deleteFixup : ∀ (fuel : Nat) (t : RbTree δ) (x p : Ptr),
    KeepsData id t (rbDeleteFixupLoop fuel t x p) := by
  intro fuel
  induction fuel with
  | zero => intro t x p; trivial
  | succ fuel ih =>
    intro t x p
    unfold rbDeleteFixupLoop
    split
    · exact keepsData_setBlackOf x
    · refine KeepsData.read fun d => (keepsData_sibling p d).bind fun r => ?_
      refine KeepsData.read fun left => KeepsData.read fun right => ?_
      split
      · refine (keepsData_modify r.2 _).bind fun t₁ => KeepsData.read fun next => ?_
        exact ih t₁ p next
      · refine (keepsData_childRed p r.2 d).bind fun t₁ => ?_
        exact keepsData_setBlackOf t₁.root

theorem keepsData_fixSpliced (s : Spliced δ) : KeepsData id s.tree (rbFixSpliced s) := by
  unfold rbFixSpliced
  split
  · exact keepsData_deleteFixup loopLimit s.tree s.nodeToFix s.nodeToFixParent
  · exact rfl

end KeepsData

end X86Kernel.Rb
