import X86Kernel.Utils.RbTree.Contents

/- Freeing a whole tree.

   `rb_free_tree` goes through the tree without a stack. It knows where it came from
   by `last`, the node it freed last: it goes left unless `last` is one of the two
   children, then right unless `last` is the right child, and else frees the node.

   What is proved: the nodes it frees, in order, for every tree (`rbFreeTree_ok`),
   and that it frees every node once, children first, exactly where no node on the
   way to the first node it frees has a left child and no right one
   (`freesAll_iff`). Before the first node is freed `last` is NULL, and so is the
   right child of such a node: it is freed at once, and the subtree on its left
   never. -/
namespace X86Kernel.Rb
open X86Kernel.Lib X86Kernel.Lib.ColorTree

variable {δ : Type}

/-- The nodes of a tree, children first. -/
def postorder : ColorTree Ptr → List Ptr
  | .nil => []
  | .node _ l a r => postorder l ++ (postorder r ++ [a])

/-- The nodes that are freed when no node was freed before. -/
def freedFirst : ColorTree Ptr → List Ptr
  | .nil => []
  | .node _ l a r =>
    if l = .nil then freedFirst r ++ [a]
    else if r = .nil then [a]
    else freedFirst l ++ (postorder r ++ [a])

/-- On the way down, to the left where there is a left child and else to the right,
no node has a left child only. -/
def FullDescent : ColorTree Ptr → Prop
  | .nil => True
  | .node _ l _ r => if l = .nil then FullDescent r else r ≠ .nil ∧ FullDescent l

/-- `rb_free_tree` calls the callback once on every node of the tree, on children
before their parent, and leaves no root. -/
def FreesAll (t : RbTree δ) (u : ColorTree Ptr) : Prop :=
  ∃ freed, rbFreeTree t = .ok ({ t with root := 0#32 }, freed) ∧ freed.Perm u.toList ∧
    ∀ a ∈ u.toList, ∀ d, (t.mem a).child d ≠ 0#32 →
      ∀ xs ys, freed = xs ++ a :: ys → (t.mem a).child d ∈ xs

/-! ## The nodes in the lists -/

theorem postorder_perm : ∀ u : ColorTree Ptr, (postorder u).Perm u.toList
  | .nil => List.Perm.refl _
  | .node c l a r => by
    rw [postorder, toList]
    refine (postorder_perm l).append ?_
    exact (List.perm_append_singleton a _).trans ((postorder_perm r).cons a)

theorem mem_postorder {u : ColorTree Ptr} {a : Ptr} : a ∈ postorder u ↔ a ∈ u.toList :=
  (postorder_perm u).mem_iff

theorem freedFirst_subset : ∀ (u : ColorTree Ptr) {a : Ptr}, a ∈ freedFirst u → a ∈ u.toList
  | .nil, _, h => h
  | .node c l b r, a, h => by
    rw [freedFirst] at h
    rw [toList, List.mem_append, List.mem_cons]
    split at h
    · rw [List.mem_append, List.mem_singleton] at h
      rcases h with h | h
      · exact .inr (.inr (freedFirst_subset r h))
      · exact .inr (.inl h)
    · split at h
      · exact .inr (.inl (List.mem_singleton.1 h))
      · rw [List.mem_append, List.mem_append, List.mem_singleton] at h
        rcases h with h | h | h
        · exact .inl (freedFirst_subset l h)
        · exact .inr (.inr (mem_postorder.1 h))
        · exact .inr (.inl h)

/-! ## The loop -/

theorem freeLoop_turn {t : RbTree δ} {fs : List (Frame Ptr)} {c : Color} {l r : ColorTree Ptr}
    {a : Ptr} (h : At t fs (.node c l a r)) (fuel : Nat) (last : Ptr) {freed : List Ptr}
    (hfreed : a ∉ freed) :
    rbFreeTreeLoop t (fuel + 1) a last freed =
      if ptr l ≠ 0#32 ∧ last ≠ ptr l ∧ last ≠ ptr r then
        rbFreeTreeLoop t fuel (ptr l) last freed
      else if ptr r ≠ 0#32 ∧ last ≠ ptr r then rbFreeTreeLoop t fuel (ptr r) last freed
      else rbFreeTreeLoop t fuel (top fs) a (freed ++ [a]) := by
  obtain ⟨-, hne, -, hpar, -, hl, hr⟩ := h.focus
  rw [rbFreeTreeLoop, if_neg hne, if_neg hfreed]
  simp only [hl.ptr_eq, hr.ptr_eq, hpar]

theorem ptr_eq_zero {t : RbTree δ} {fs : List (Frame Ptr)} {u : ColorTree Ptr} (h : At t fs u) :
    ptr u = 0#32 ↔ u = .nil := by
  cases u with
  | nil => exact iff_of_true rfl rfl
  | node c l a r => exact iff_of_false (At.ne_zero (d := .left) h) (by simp)

/-- The loop from a subtree, with `last` and the freed nodes given, comes out above
it with the nodes `out` freed, in less than two turns for each node. -/
def Passes (t : RbTree δ) (fs : List (Frame Ptr)) (u : ColorTree Ptr) (last : Ptr)
    (freed out : List Ptr) : Prop :=
  ∃ k, k < 2 * u.toList.length ∧ ∀ fuel,
    rbFreeTreeLoop t (fuel + k) (ptr u) last freed =
      rbFreeTreeLoop t fuel (top fs) (ptr u) (freed ++ out)

theorem passes_right {t : RbTree δ} {fs : List (Frame Ptr)} {c : Color} {l r : ColorTree Ptr}
    {a : Ptr} (h : At t fs (.node c l a r)) {last : Ptr} {freed out : List Ptr}
    (hfreed : a ∉ freed ++ out) (hskip : ¬ (ptr l ≠ 0#32 ∧ last ≠ ptr l ∧ last ≠ ptr r))
    (hlast : r = .nil ∨ last ≠ ptr r) (hout : r = .nil → out = [])
    (hr : r ≠ .nil → Passes t (⟨.right, c, a, l⟩ :: fs) r last freed out) :
    ∃ k, k ≤ 2 * r.toList.length + 1 ∧ ∀ fuel,
      rbFreeTreeLoop t (fuel + k) a last freed =
        rbFreeTreeLoop t fuel (top fs) a (freed ++ (out ++ [a])) := by
  have hbefore : a ∉ freed := fun hmem => hfreed (List.mem_append_left _ hmem)
  have hdown : At t (⟨.right, c, a, l⟩ :: fs) r := At.down (d := .right) h
  by_cases hnil : r = .nil
  · refine ⟨1, by omega, fun fuel => ?_⟩
    have hzero := (ptr_eq_zero hdown).2 hnil
    rw [freeLoop_turn h fuel last hbefore, if_neg hskip, if_neg (fun hc => hc.1 hzero), hout hnil,
      List.nil_append]
  · obtain ⟨k, hk, hloop⟩ := hr hnil
    have hne : ptr r ≠ 0#32 := fun hz => hnil ((ptr_eq_zero hdown).1 hz)
    refine ⟨1 + k + 1, by omega, fun fuel => ?_⟩
    rw [show fuel + (1 + k + 1) = fuel + 1 + k + 1 by omega, freeLoop_turn h _ last hbefore,
      if_neg hskip, if_pos ⟨hne, hlast.resolve_left hnil⟩, hloop]
    -- back from the right subtree
    rw [show top (⟨.right, c, a, l⟩ :: fs) = a from rfl, freeLoop_turn h fuel (ptr r) hfreed,
      if_neg (fun hc => hc.2.2 rfl), if_neg (fun hc => hc.2 rfl), List.append_assoc]

theorem At.disjoint {t : RbTree δ} {fs : List (Frame Ptr)} {c : Color} {l r : ColorTree Ptr}
    {a : Ptr} (h : At t fs (.node c l a r)) :
    a ∉ l.toList ∧ a ∉ r.toList ∧ ∀ b ∈ l.toList, b ∉ r.toList := by
  have hn := (List.nodup_append.1 h.nodup).1
  rw [toList, List.nodup_append, List.nodup_cons] at hn
  obtain ⟨-, ⟨har, -⟩, hcross⟩ := hn
  refine ⟨fun hal => hcross a hal a List.mem_cons_self rfl, har, fun b hbl hbr => ?_⟩
  exact hcross b hbl b (List.mem_cons_of_mem _ hbr) rfl

theorem ptr_mem_of_ne {u : ColorTree Ptr} (h : u ≠ .nil) : ptr u ∈ u.toList := by
  cases u with
  | nil => exact absurd rfl h
  | node c l a r => simp [ptr, toList]

theorem passes_left {t : RbTree δ} {fs : List (Frame Ptr)} {c : Color} {l r : ColorTree Ptr}
    {a : Ptr} (h : At t fs (.node c l a r)) {last : Ptr} {freed outl outr : List Ptr}
    (hl : l ≠ .nil) (hlast : last ≠ ptr l ∧ last ≠ ptr r) (hfreed : a ∉ freed ++ outl ++ outr)
    (hout : r = .nil → outr = []) (hleft : Passes t (⟨.left, c, a, r⟩ :: fs) l last freed outl)
    (hright : r ≠ .nil →
      Passes t (⟨.right, c, a, l⟩ :: fs) r (ptr l) (freed ++ outl) outr) :
    Passes t fs (.node c l a r) last freed (outl ++ (outr ++ [a])) := by
  obtain ⟨-, -, hcross⟩ := h.disjoint
  have hdown : At t (⟨.left, c, a, r⟩ :: fs) l := At.down (d := .left) h
  have hne : ptr l ≠ 0#32 := fun hz => hl ((ptr_eq_zero hdown).1 hz)
  have hbefore : a ∉ freed := fun hmem =>
    hfreed (List.mem_append_left _ (List.mem_append_left _ hmem))
  have hptr : r = .nil ∨ ptr l ≠ ptr r := by
    by_cases hr : r = .nil
    · exact .inl hr
    · right
      intro heq
      exact hcross (ptr l) (ptr_mem_of_ne hl) (heq ▸ ptr_mem_of_ne hr)
  obtain ⟨k, hk, hloop⟩ := hleft
  obtain ⟨k', hk', hloop'⟩ := passes_right h hfreed (fun hc => hc.2.1 rfl) hptr hout hright
  refine ⟨k' + k + 1, ?_, fun fuel => ?_⟩
  · simp only [toList, List.length_append, List.length_cons]
    omega
  · rw [show fuel + (k' + k + 1) = fuel + k' + k + 1 by omega,
      show ptr (.node c l a r) = a from rfl, freeLoop_turn h _ last hbefore, if_pos ⟨hne, hlast⟩,
      hloop, show top (⟨.left, c, a, r⟩ :: fs) = a from rfl, hloop', List.append_assoc]

/-- A subtree that has nothing to do with the node freed last is freed whole. -/
theorem passes_subtree {t : RbTree δ} : ∀ (u : ColorTree Ptr) {fs : List (Frame Ptr)} {last : Ptr}
    {freed : List Ptr}, At t fs u → u ≠ .nil → last ≠ 0#32 → last ∉ u.toList →
    (∀ a ∈ u.toList, a ∉ freed) → Passes t fs u last freed (postorder u) := by
  intro u
  induction u with
  | nil =>
    intro fs last freed _ hne
    exact absurd rfl hne
  | node c l a r ihl ihr =>
    intro fs last freed h _ hlast hout hfreed
    obtain ⟨hal, har, hcross⟩ := h.disjoint
    have hdownr : At t (⟨.right, c, a, l⟩ :: fs) r := At.down (d := .right) h
    have hdownl : At t (⟨.left, c, a, r⟩ :: fs) l := At.down (d := .left) h
    simp only [toList, List.mem_append, List.mem_cons, not_or] at hout hfreed
    have hlastr : last ≠ ptr r := by
      intro heq
      rcases ptr_mem r with hz | hmem
      · exact hlast (heq.trans hz)
      · exact hout.2.2 (heq ▸ hmem)
    have hnotin : ∀ freed' : List Ptr, (∀ b ∈ freed', b ∈ freed ∨ b ∈ l.toList) →
        a ∉ freed' ++ postorder r := by
      intro freed' hsub hmem
      rw [List.mem_append, mem_postorder] at hmem
      rcases hmem with hmem | hmem
      · rcases hsub a hmem with hmem | hmem
        · exact hfreed a (.inr (.inl rfl)) hmem
        · exact hal hmem
      · exact har hmem
    have houtr : r = .nil → postorder r = [] := fun hnil => by rw [hnil]; rfl
    rw [postorder]
    by_cases hl : l = .nil
    · -- no left subtree
      have hz : ptr l = 0#32 := (ptr_eq_zero hdownl).2 hl
      obtain ⟨k, hk, hloop⟩ := passes_right h (hnotin freed fun b hb => .inl hb)
        (fun hc => hc.1 hz) (.inr hlastr) houtr fun hnil =>
          ihr hdownr hnil hlast hout.2.2 fun b hb => hfreed b (.inr (.inr hb))
      refine ⟨k, ?_, fun fuel => ?_⟩
      · simp only [toList, List.length_append, List.length_cons]
        omega
      · rw [hl]
        exact hloop fuel
    · have hptrl := ptr_mem_of_ne hl
      refine passes_left h hl ⟨fun heq => hout.1 (heq ▸ hptrl), hlastr⟩
        (hnotin (freed ++ postorder l) fun b hb => ?_) houtr
        (ihl hdownl hl hlast hout.1 fun b hb => hfreed b (.inl hb)) fun hnil =>
          ihr hdownr hnil (fun hz => hl ((ptr_eq_zero hdownl).1 hz)) (hcross _ hptrl) fun b hb => ?_
      · rwa [List.mem_append, mem_postorder] at hb
      · rw [List.mem_append, mem_postorder, not_or]
        exact ⟨hfreed b (.inr (.inr hb)), fun hbl => hcross b hbl hb⟩

theorem passes_first {t : RbTree δ} : ∀ (u : ColorTree Ptr) {fs : List (Frame Ptr)}, At t fs u →
    u ≠ .nil → Passes t fs u 0#32 [] (freedFirst u) := by
  intro u
  induction u with
  | nil =>
    intro fs _ hne
    exact absurd rfl hne
  | node c l a r ihl ihr =>
    intro fs h _
    obtain ⟨hal, har, hcross⟩ := h.disjoint
    have hdownr : At t (⟨.right, c, a, l⟩ :: fs) r := At.down (d := .right) h
    have hdownl : At t (⟨.left, c, a, r⟩ :: fs) l := At.down (d := .left) h
    rw [freedFirst]
    by_cases hl : l = .nil
    · have hz : ptr l = 0#32 := (ptr_eq_zero hdownl).2 hl
      have hlast : r = .nil ∨ 0#32 ≠ ptr r := by
        by_cases hr : r = .nil
        · exact .inl hr
        · exact .inr fun hz => hr ((ptr_eq_zero hdownr).1 hz.symm)
      have hout : a ∉ [] ++ freedFirst r := fun hmem => har (freedFirst_subset r hmem)
      obtain ⟨k, hk, hloop⟩ := passes_right h hout (fun hc => hc.1 hz) hlast
        (fun hnil => by rw [hnil]; rfl) fun hnil => ihr hdownr hnil
      rw [if_pos hl]
      refine ⟨k, ?_, hloop⟩
      simp only [toList, List.length_append, List.length_cons]
      omega
    · rw [if_neg hl]
      by_cases hr : r = .nil
      · -- `last` and the right child are both NULL
        have hz : ptr r = 0#32 := (ptr_eq_zero hdownr).2 hr
        rw [if_pos hr]
        refine ⟨1, ?_, fun fuel => ?_⟩
        · simp only [toList, List.length_append, List.length_cons]
          omega
        · rw [show ptr (.node c l a r) = a from rfl, freeLoop_turn h fuel 0#32 List.not_mem_nil,
            if_neg (fun hc => hc.2.2 hz.symm), if_neg (fun hc => hc.1 hz)]
      · rw [if_neg hr]
        have hnel : ptr l ≠ 0#32 := fun hz => hl ((ptr_eq_zero hdownl).1 hz)
        have hner : ptr r ≠ 0#32 := fun hz => hr ((ptr_eq_zero hdownr).1 hz)
        refine passes_left h hl ⟨hnel.symm, hner.symm⟩ ?_ (fun hnil => absurd hnil hr)
          (ihl hdownl hl) fun hnil => passes_subtree r hdownr hnil hnel
            (hcross _ (ptr_mem_of_ne hl)) fun b hb hmem => ?_
        · simp only [List.nil_append, List.mem_append, mem_postorder, not_or]
          exact ⟨fun hmem => hal (freedFirst_subset l hmem), har⟩
        · exact hcross b (freedFirst_subset l hmem) hb

theorem rbFreeTree_ok {t : RbTree δ} {u : ColorTree Ptr} (h : Holds t u) :
    rbFreeTree t = .ok ({ t with root := 0#32 }, freedFirst u) := by
  have hroot : t.root = ptr u := h.spine.2
  have hloop : rbFreeTreeLoop t (2 * loopLimit) t.root 0#32 [] = .ok (freedFirst u) := by
    rw [hroot]
    by_cases hnil : u = .nil
    · rw [hnil]
      rfl
    · obtain ⟨k, hk, hpass⟩ := passes_first u h hnil
      have hlen := h.length_lt
      obtain ⟨fuel, hfuel⟩ : ∃ fuel, 2 * loopLimit = fuel + 1 + k :=
        ⟨2 * loopLimit - 1 - k, by omega⟩
      rw [hfuel, hpass, rbFreeTreeLoop]
      simp [top]
  rw [rbFreeTree, hloop]
  rfl

/-! ## When every node is freed -/

theorem freedFirst_of_full : ∀ {u : ColorTree Ptr}, FullDescent u → freedFirst u = postorder u
  | .nil, _ => rfl
  | .node c l a r, h => by
    rw [FullDescent] at h
    rw [freedFirst, postorder]
    split at h
    · rename_i hl
      rw [if_pos hl, freedFirst_of_full h, hl]
      rfl
    · rename_i hl
      rw [if_neg hl, if_neg h.1, freedFirst_of_full h.2]

theorem full_of_length : ∀ {u : ColorTree Ptr}, u.toList.length ≤ (freedFirst u).length →
    FullDescent u
  | .nil, _ => trivial
  | .node c l a r, h => by
    rw [FullDescent]
    simp only [freedFirst, toList, List.length_append, List.length_cons] at h
    split at h
    · rename_i hl
      rw [if_pos hl]
      apply full_of_length
      simp only [hl, toList, List.length_append, List.length_cons, List.length_nil] at h
      omega
    · rename_i hl
      have hpos : 0 < l.toList.length := List.length_pos_of_mem (ptr_mem_of_ne hl)
      rw [if_neg hl]
      split at h
      · simp only [List.length_cons, List.length_nil] at h
        omega
      · rename_i hr
        refine ⟨hr, full_of_length ?_⟩
        have hlen := (postorder_perm r).length_eq
        simp only [List.length_append, List.length_cons, List.length_nil] at h
        omega

theorem postorder_children {m : Ptr → RbNode} : ∀ {u : ColorTree Ptr} {q p : Ptr}, Rep m q p u →
    u.toList.Nodup → ∀ a ∈ u.toList, ∀ d, (m a).child d ≠ 0#32 →
      ∀ xs ys, postorder u = xs ++ a :: ys → (m a).child d ∈ xs := by
  intro u
  induction u with
  | nil =>
    intro q p _ _ a ha
    cases ha
  | node c l b r ihl ihr =>
    intro q p h hn a ha d hchild xs ys hpost
    obtain ⟨-, -, -, -, -, hl, hr⟩ := h
    have hpn : (postorder (.node c l b r)).Nodup := (postorder_perm _).nodup_iff.2 hn
    rw [toList, List.nodup_append, List.nodup_cons] at hn
    -- a place of `a` in the sequence is the only one
    have honly : ∀ xs' ys', postorder (.node c l b r) = xs' ++ a :: ys' → xs' = xs := by
      intro xs' ys' hpost'
      rw [hpost] at hpn
      have hnot := List.nodup_append.1 hpn
      have hxs : a ∉ xs := fun hmem => hnot.2.2 a hmem a List.mem_cons_self rfl
      have hys : a ∉ ys := (List.nodup_cons.1 hnot.2.1).1
      exact ((List.append_cons_inj_of_notMem hxs hys).1 (hpost.symm.trans hpost')).1.symm
    rw [toList, List.mem_append, List.mem_cons] at ha
    rcases ha with ha | rfl | ha
    · obtain ⟨xs', ys', hsplit⟩ := List.append_of_mem (mem_postorder.2 ha)
      rw [← honly xs' (ys' ++ (postorder r ++ [b])) (by simp [postorder, hsplit])]
      exact ihl hl hn.1 a ha d hchild xs' ys' hsplit
    · rw [← honly (postorder l ++ postorder r) [] (by simp [postorder])]
      rw [List.mem_append, mem_postorder, mem_postorder]
      cases d with
      | left =>
        have hptr : (m a).child .left = ptr l := hl.ptr_eq
        rw [hptr] at hchild ⊢
        exact .inl ((ptr_mem l).resolve_left hchild)
      | right =>
        have hptr : (m a).child .right = ptr r := hr.ptr_eq
        rw [hptr] at hchild ⊢
        exact .inr ((ptr_mem r).resolve_left hchild)
    · obtain ⟨xs', ys', hsplit⟩ := List.append_of_mem (mem_postorder.2 ha)
      rw [← honly (postorder l ++ xs') (ys' ++ [b]) (by simp [postorder, hsplit])]
      exact List.mem_append_right _ (ihr hr hn.2.1.2 a ha d hchild xs' ys' hsplit)

/-- All nodes are freed as they should be exactly when the first descent comes to no
node with a left child only. -/
theorem freesAll_iff (t : RbTree δ) (u : ColorTree Ptr) (h : Holds t u) :
    FreesAll t u ↔ FullDescent u := by
  have hok := rbFreeTree_ok h
  constructor
  · intro hall
    obtain ⟨freed, hfreed, hperm, -⟩ := hall
    rw [hok] at hfreed
    have heq : freedFirst u = freed := (Prod.mk.inj (Except.ok.inj hfreed)).2
    apply full_of_length
    rw [heq, hperm.length_eq]
  · intro hfull
    have hn : u.toList.Nodup := by simpa [frameNodes] using h.nodup
    rw [freedFirst_of_full hfull] at hok
    exact ⟨postorder u, hok, postorder_perm u, postorder_children h.focus hn⟩

theorem threeNodes_freed :
    Holds threeNodes threeNodesTree ∧ FullDescent threeNodesTree ∧
    FreesAll threeNodes threeNodesTree := by
  have hfull : FullDescent threeNodesTree := by simp [threeNodesTree, FullDescent]
  exact ⟨threeNodes_holds, hfull, (freesAll_iff threeNodes threeNodesTree threeNodes_holds).2 hfull⟩

/-- A black root at 8 with a red left child at 4, as after two insertions. -/
def leftChild : RbTree Unit where
  root := 8#32
  mem p := if p = 8#32 then ⟨0#32, 4#32, 0#32⟩ else ⟨9#32, 0#32, 0#32⟩
  data _ := ()

def leftChildTree : ColorTree Ptr := .node .black (.node .red .nil 4#32 .nil) 8#32 .nil

/-- Node 4 is never freed. -/
theorem leftChild_not_freed :
    Holds leftChild leftChildTree ∧ RedBlack leftChildTree ∧
    Ordered addressOrder.cmp leftChildTree ∧
    (∃ r, rbFreeTree leftChild = .ok r ∧ r.2 = [8#32]) ∧ ¬ FreesAll leftChild leftChildTree := by
  have hholds : Holds leftChild leftChildTree := by
    refine ⟨⟨rfl, by decide, by decide, by decide, by decide, ?_, ?_⟩, ⟨rfl, rfl⟩, by decide⟩
    · exact ⟨by decide, by decide, by decide, by decide, by decide,
        show (leftChild.mem _).left = 0#32 by decide, show (leftChild.mem _).right = 0#32 by decide⟩
    · show (leftChild.mem _).right = 0#32
      decide
  refine ⟨hholds, ⟨1, .black (.red .nil .nil) .nil⟩, ?_, ⟨_, rbFreeTree_ok hholds, by decide⟩,
    fun hall => ?_⟩
  · unfold Ordered
    decide +kernel
  · have hlen := (rbFreeTree_ok hholds)
    obtain ⟨freed, hfreed, hperm, -⟩ := hall
    rw [hlen] at hfreed
    have heq : freedFirst leftChildTree = freed := (Prod.mk.inj (Except.ok.inj hfreed)).2
    have := hperm.length_eq
    rw [← heq] at this
    exact absurd this (by decide)

end X86Kernel.Rb
