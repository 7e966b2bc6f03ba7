import X86Kernel.Lib.Run
import X86Kernel.Utils.RbTree.Insert
import X86Kernel.Utils.RbTree.Delete

/- Runs of insertions and removals on a red-black tree.

   What is proved: starting from `rb_init_tree`, as long as every removal is a
   safe one (`removeSafe`), every call returns and every tree on the way is a
   red-black tree with its nodes in order (`run_keeps_redBlack`). In particular
   `rb_delete_fixup` then never reads the children of a NULL sibling, which is a
   fault of the model.

   Without the condition this fails: six insertions and one removal give a tree
   with unequal black heights, and three more removals lead the fixup to a NULL
   sibling (`removals_reach_null_sibling`). -/
namespace X86Kernel.Rb
open X86Kernel.Lib X86Kernel.Lib.ColorTree

variable {δ : Type}

/-! ## Reading the tree -/

/-- The tree at `p` in the memory `m`, down to the depth `fuel`. -/
def readTree (m : Ptr → RbNode) : Nat → Ptr → ColorTree Ptr
  | 0, _ => .nil
  | fuel + 1, p =>
    if p = 0#32 then .nil
    else .node (m p).color (readTree m fuel (m p).left) p (readTree m fuel (m p).right)

def RbTree.tree (t : RbTree δ) : ColorTree Ptr := readTree t.mem loopLimit t.root

theorem Rep.readTree_eq {m : Ptr → RbNode} : ∀ {u : ColorTree Ptr} {q p : Ptr} (fuel : Nat),
    Rep m q p u → u.toList.length < fuel → readTree m fuel p = u := by
  intro u
  induction u with
  | nil =>
    intro q p fuel h hfuel
    obtain ⟨fuel, rfl⟩ : ∃ k, fuel = k + 1 := ⟨fuel - 1, by omega⟩
    obtain rfl : p = 0#32 := h
    rw [readTree, if_pos rfl]
  | node c l a r ihl ihr =>
    intro q p fuel h hfuel
    obtain ⟨fuel, rfl⟩ : ∃ k, fuel = k + 1 := ⟨fuel - 1, by omega⟩
    obtain ⟨rfl, hne, -, -, hcol, hl, hr⟩ := h
    simp only [toList, List.length_append, List.length_cons] at hfuel
    rw [readTree, if_neg hne, hcol, ihl fuel hl (by omega), ihr fuel hr (by omega)]

theorem Holds.tree_eq {t : RbTree δ} {u : ColorTree Ptr} (h : Holds t u) : t.tree = u := by
  have hroot : t.root = ptr u := h.spine.2
  rw [RbTree.tree, hroot]
  exact h.focus.readTree_eq loopLimit h.length_lt

/-! ## Operations and their domain -/

inductive Op where
  | insert (node : Ptr)
  | removeKey (key : Ptr)
  | removeNode (node : Ptr)
  deriving DecidableEq

/-- One call; the output is what it returns. -/
def step (cb : Callbacks δ) (t : RbTree δ) : Op → Kernel (RbTree δ × Ptr)
  | .insert newNode => rbInsert cb t newNode
  | .removeKey key => rbRemoveKey cb t key
  | .removeNode deleteNode => rbRemoveNode cb t deleteNode

/-- What a caller may do: the nodes it inserts are among those the comparator
orders (`S`) and at word addresses, and only a node of the tree (or NULL) is
removed by its address. -/
def Allowed (S : Ptr → Prop) (t : RbTree δ) : Op → Prop
  | .insert newNode => S newNode ∧ newNode ≠ 0#32 ∧ Aligned newNode
  | .removeKey _ => True
  | .removeNode deleteNode => deleteNode = 0#32 ∨ deleteNode ∈ t.tree.toList

/-- The removal of the node `a` does not come to a black sibling with a red
child under a red parent. -/
def removeSafe (t : RbTree δ) (a : Ptr) : Bool :=
  match locate a t.tree [] with
  | none => true
  | some (c, l, r, fs) => spliceSafe c l r fs

/-- The calls that keep the tree red-black. -/
def safe (cb : Callbacks δ) (t : RbTree δ) : Op → Bool
  | .insert _ => true
  | .removeKey key =>
    match rbFindNodeLink cb.cmp t key with
    | .ok (link, _) => removeSafe t (t.deref link)
    | .error _ => true
  | .removeNode deleteNode => removeSafe t deleteNode

/-- The tree in memory is a red-black tree of nodes of `S` in order. -/
def WellFormed (S : Ptr → Prop) (cb : Callbacks δ) (t : RbTree δ) : Prop :=
  ∃ u, Holds t u ∧ RedBlack u ∧ Ordered cb.cmp u ∧ ∀ a ∈ u.toList, S a

/-! ## One call -/

theorem rbInitTree_wellFormed (S : Ptr → Prop) (cb : Callbacks δ) (t : RbTree δ) :
    WellFormed S cb (rbInitTree t) :=
  ⟨.nil, ⟨rfl, ⟨rfl, rfl⟩, by simp [toList, frameNodes]⟩, ⟨0, .nil⟩, by simp [Ordered, toList],
    by simp [toList]⟩

theorem rbInsert_step {S : Ptr → Prop} {cb : Callbacks δ} (hcmp : TotalOrder S cb.cmp)
    {t : RbTree δ} {node : Ptr} (h : WellFormed S cb t) (hnode : S node) (hne : node ≠ 0#32)
    (hal : Aligned node) :
    ∃ t' o, rbInsert cb t node = .ok (t', o) ∧ WellFormed S cb t' := by
  obtain ⟨u, hu, hrb, hord, hS⟩ := h
  obtain ⟨fs, v, hlink, hf, rfl⟩ := rbFindNodeLink_ok cb.cmp hu node
  cases v with
  | nil =>
    rw [show ptr (.nil : ColorTree Ptr) = 0#32 from rfl, if_pos rfl] at hlink
    have hall : ∀ a ∈ node :: (plug .nil fs).toList, S a := by
      intro a ha
      rcases List.mem_cons.1 ha with rfl | ha
      · exact hnode
      · exact hS a ha
    obtain ⟨t', u', ht', hu', hrb', hlist⟩ :=
      rbInsert_new hrb hf (hf.not_mem hcmp hall hord) hlink hne hal
    refine ⟨t', node, ht', u', hu', hrb', ?_, fun a ha => hall a ?_⟩
    · rw [Ordered, hlist]
      exact hf.ordered hcmp hall hord
    · rw [hlist] at ha
      simp only [toList_plug, toList, List.mem_append, List.mem_cons, List.not_mem_nil] at ha ⊢
      tauto
  | node c l a r =>
    have ha : ptr (.node c l a r) ≠ 0#32 := At.ne_zero (d := .left) hf.place
    exact ⟨t, 0#32, rbInsert_equal hf ha hlink, _, hu, hrb, hord, hS⟩

theorem rbRemove_step {S : Ptr → Prop} {cb : Callbacks δ} {t : RbTree δ} {a : Ptr}
    (h : WellFormed S cb t)
    (ha : a ∈ t.tree.toList) (hsafe : removeSafe t a = true) :
    ∃ t' o, rbRemove cb t a = .ok (t', o) ∧ WellFormed S cb t' := by
  obtain ⟨u, hu, hrb, hord, hS⟩ := h
  rw [hu.tree_eq] at ha
  obtain ⟨⟨c, l, r, fs⟩, hfound⟩ := locate_isSome [] ha
  have hplug : plug (.node c l a r) fs = u := plug_locate hfound
  have hs : spliceSafe c l r fs = true := by
    rw [removeSafe, hu.tree_eq, hfound] at hsafe
    exact hsafe
  rw [← hplug] at hu hrb hord hS
  obtain ⟨t', u', ht', hu', hlist, hkeep⟩ := rbRemove_ok cb hu.at hrb
  -- the nodes that are left are in their old order
  have hsub : u'.toList.Sublist (plug (.node c l a r) fs).toList := by
    rw [hlist, toList_plug]
    refine List.Sublist.append_right (List.Sublist.append_left ?_ _) _
    exact List.Sublist.append_left (List.sublist_cons_self _ _) _
  exact ⟨t', a, ht', u', hu', hkeep hs, List.Pairwise.sublist hsub hord,
    fun b hb => hS b (hsub.subset hb)⟩

theorem rbRemoveKey_step {S : Ptr → Prop} {cb : Callbacks δ} {t : RbTree δ} {key : Ptr}
    (h : WellFormed S cb t)
    (hsafe : safe cb t (.removeKey key) = true) :
    ∃ t' o, rbRemoveKey cb t key = .ok (t', o) ∧ WellFormed S cb t' := by
  obtain ⟨u, hu, hrb, hord, hS⟩ := h
  obtain ⟨fs, v, hlink, hf, hplug⟩ := rbFindNodeLink_ok cb.cmp hu key
  have hderef : t.deref (linkOf fs) = ptr v := hf.place.deref
  simp only [safe, hlink, hderef] at hsafe
  simp only [rbRemoveKey, hlink, ok_bind, hderef]
  split
  · exact ⟨t, 0#32, rfl, u, hu, hrb, hord, hS⟩
  · rename_i hne
    have hmem : ptr v ∈ t.tree.toList := by
      rw [hu.tree_eq, ← hplug, (toList_plug_perm v fs).mem_iff]
      exact List.mem_append_left _ ((ptr_mem v).resolve_left hne)
    exact rbRemove_step ⟨u, hu, hrb, hord, hS⟩ hmem hsafe

theorem step_wellFormed {S : Ptr → Prop} {cb : Callbacks δ} (hcmp : TotalOrder S cb.cmp)
    (t : RbTree δ) (op : Op) (h : WellFormed S cb t) (hop : Allowed S t op ∧ safe cb t op = true) :
    ∃ t' o, step cb t op = .ok (t', o) ∧ WellFormed S cb t' := by
  obtain ⟨hallowed, hsafe⟩ := hop
  cases op with
  | insert node => exact rbInsert_step hcmp h hallowed.1 hallowed.2.1 hallowed.2.2
  | removeKey key => exact rbRemoveKey_step h hsafe
  | removeNode node =>
    simp only [step, rbRemoveNode]
    split
    · exact ⟨t, 0#32, rfl, h⟩
    · rename_i hne
      exact rbRemove_step h (hallowed.resolve_left hne) hsafe

/-! ## Whole runs -/

/-- Every tree on the way is red-black and in order, and no call faults. -/
theorem run_keeps_redBlack {S : Ptr → Prop} {cb : Callbacks δ} (hcmp : TotalOrder S cb.cmp)
    (t₀ : RbTree δ) (ops : List Op)
    (h : Meets (step cb) (fun t op => Allowed S t op ∧ safe cb t op = true) (rbInitTree t₀) ops) :
    ∀ pre, pre <+: ops → ∃ t outs u, run (step cb) (rbInitTree t₀) pre = .ok (t, outs) ∧
      Holds t u ∧ RedBlack u ∧ Ordered cb.cmp u := by
  intro pre hpre
  obtain ⟨t, outs, hrun, u, hu, hrb, hord, -⟩ := run_preserves (step_wellFormed hcmp) pre _
    (rbInitTree_wellFormed S cb t₀) (h.of_prefix hpre)
  exact ⟨t, outs, u, hrun, hu, hrb, hord⟩

/-! ## A run that keeps the tree and one that does not -/

instance (S : Ptr → Prop) [DecidablePred S] (t : RbTree δ) : ∀ op, Decidable (Allowed S t op)
  | .insert newNode => inferInstanceAs (Decidable (S newNode ∧ newNode ≠ 0#32 ∧ Aligned newNode))
  | .removeKey _ => inferInstanceAs (Decidable True)
  | .removeNode deleteNode =>
    inferInstanceAs (Decidable (deleteNode = 0#32 ∨ deleteNode ∈ t.tree.toList))

/-- Nodes ordered by their address, with nothing kept in them. -/
def addressOrder : Callbacks Unit where
  cmp a b := (a.toNat : Int) - b.toNat
  augment _ _ _ := ()

theorem addressOrder_total : TotalOrder (fun _ => True) addressOrder.cmp := by
  constructor
  · intro a _
    simp [addressOrder]
  · intro a b _ _
    simp only [addressOrder]
    omega
  · intro a b c _ _ _
    simp only [addressOrder]
    omega

def zeroMemory : RbTree Unit :=
  { root := 0#32, mem := fun _ => ⟨0#32, 0#32, 0#32⟩, data := fun _ => () }

def sixInsertions : List Op := [24#32, 20#32, 16#32, 4#32, 8#32, 12#32].map .insert

def safeRun : List Op :=
  sixInsertions ++ [.removeNode 8#32, .removeKey 16#32, .removeNode 24#32, .insert 16#32]

theorem safeRun_keeps_redBlack :
    Meets (step addressOrder)
        (fun t op => Allowed (fun _ => True) t op ∧ safe addressOrder t op = true)
        (rbInitTree zeroMemory) safeRun ∧
      ∀ pre, pre <+: safeRun →
        ∃ t outs u, run (step addressOrder) (rbInitTree zeroMemory) pre = .ok (t, outs) ∧
          Holds t u ∧ RedBlack u ∧ Ordered addressOrder.cmp u := by
  have hmeets : Meets (step addressOrder)
      (fun t op => Allowed (fun _ => True) t op ∧ safe addressOrder t op = true)
      (rbInitTree zeroMemory) safeRun := by
    decide +kernel
  exact ⟨hmeets, run_keeps_redBlack addressOrder_total zeroMemory safeRun hmeets⟩

/-- The tree after a run, or its fault. -/
def treeAfter (ops : List Op) : Kernel (ColorTree Ptr) :=
  (run (step addressOrder) (rbInitTree zeroMemory) ops).map fun r => r.1.tree

theorem run_of_treeAfter {ops : List Op} {u : ColorTree Ptr} (h : treeAfter ops = .ok u) :
    ∃ t outs, run (step addressOrder) (rbInitTree zeroMemory) ops = .ok (t, outs) ∧ t.tree = u := by
  unfold treeAfter at h
  cases hr : run (step addressOrder) (rbInitTree zeroMemory) ops with
  | error e =>
    rw [hr] at h
    cases h
  | ok r =>
    rw [hr] at h
    exact ⟨r.1, r.2, rfl, Except.ok.inj h⟩

theorem fault_of_treeAfter {ops : List Op} {e : Fault} (h : treeAfter ops = .error e) :
    run (step addressOrder) (rbInitTree zeroMemory) ops = .error e := by
  unfold treeAfter at h
  cases hr : run (step addressOrder) (rbInitTree zeroMemory) ops with
  | error e' =>
    rw [hr, Except.map] at h
    rw [Except.error.inj h]
  | ok r =>
    rw [hr] at h
    cases h

/-- What the first of the removals leaves: one black node on the left, two on
the right. -/
def unequalHeights : ColorTree Ptr :=
  .node .black (.node .black .nil 4#32 .nil) 8#32
    (.node .black (.node .black .nil 12#32 .nil) 16#32 (.node .black .nil 24#32 .nil))

theorem unequalHeights_not_redBlack : ¬ RedBlack unequalHeights := by
  rintro ⟨n, h⟩
  cases h with
  | black hl hr =>
    cases hl with
    | black hll hlr =>
      cases hll with
      | nil =>
        cases hr with
        | black hrl hrr => cases hrl

def fourRemovals : List Op :=
  [.removeNode 20#32, .removeNode 12#32, .removeNode 24#32, .removeNode 16#32]

/-- The colour of the parent is lost in the first removal, and three removals
later the sibling is NULL. -/
theorem removals_reach_null_sibling :
    TotalOrder (fun _ => True) addressOrder.cmp ∧
    Meets (step addressOrder) (Allowed fun _ => True) (rbInitTree zeroMemory)
      (sixInsertions ++ fourRemovals) ∧
    (∃ t outs, run (step addressOrder) (rbInitTree zeroMemory)
        (sixInsertions ++ fourRemovals.take 1) = .ok (t, outs) ∧
      ∀ u, Holds t u → ¬ RedBlack u) ∧
    run (step addressOrder) (rbInitTree zeroMemory) (sixInsertions ++ fourRemovals) =
      .error .nullDeref := by
  refine ⟨addressOrder_total, by decide +kernel, ?_, fault_of_treeAfter (by decide +kernel)⟩
  have htree : treeAfter (sixInsertions ++ fourRemovals.take 1) = .ok unequalHeights := by
    decide +kernel
  obtain ⟨t, outs, hrun, ht⟩ := run_of_treeAfter htree
  refine ⟨t, outs, hrun, fun u hu => ?_⟩
  rw [← hu.tree_eq, ht]
  exact unequalHeights_not_redBlack

end X86Kernel.Rb
