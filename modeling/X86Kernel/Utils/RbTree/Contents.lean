import Mathlib.Data.List.Pairwise
import X86Kernel.Utils.RbTree.Runs

/- What one call on a red-black tree does to its nodes in order.

   What is proved: an insertion puts the node at its sorted place, a removal takes
   exactly one node out, and a call that has nothing to do returns NULL and
   changes nothing (`call_contents`). The tree in memory (`Holds`) has right
   parent links after each call. The colours play no part in this: a removal
   that leaves wrong ones still takes out the right node.

   An insertion into a red-black tree leaves a red-black tree, whatever the
   comparator and the words of the new node are (`rbInsert_redBlack`). -/
namespace X86Kernel.Rb
open X86Kernel.Lib X86Kernel.Lib.ColorTree

variable {δ : Type}

/-! ## Where a search ends -/

theorem Found.equal {cmp : Ptr → Ptr → Int} {t : RbTree δ} {data a : Ptr} {fs : List (Frame Ptr)}
    {c : Color} {l r : ColorTree Ptr} (hf : Found cmp t data fs (.node c l a r)) :
    cmp a data = 0 ∧ a ∈ (plug (.node c l a r) fs).toList := by
  refine ⟨hf.ends.resolve_left (by simp), ?_⟩
  rw [(toList_plug_perm _ fs).mem_iff]
  simp [toList]

theorem Found.none_equal {cmp : Ptr → Ptr → Int} {t : RbTree δ} {data : Ptr}
    {fs : List (Frame Ptr)} (hf : Found cmp t data fs .nil)
    (hmono : Monotone cmp data (plug .nil fs).toList) :
    ∀ a ∈ (plug .nil fs).toList, cmp a data ≠ 0 := by
  simp only [toList_plug, toList, List.append_nil] at hmono ⊢
  obtain ⟨hb, ha⟩ := hf.sided.bounds_of_monotone hmono
  intro a hmem
  rw [List.mem_append] at hmem
  cases hmem with
  | inl hmem =>
    have := hb a hmem
    omega
  | inr hmem =>
    have := ha a hmem
    omega

theorem Found.absent {S : Ptr → Prop} {cmp : Ptr → Ptr → Int} (hcmp : TotalOrder S cmp)
    {t : RbTree δ} {data : Ptr} {fs : List (Frame Ptr)} (hf : Found cmp t data fs .nil)
    (hS : ∀ a ∈ data :: (plug .nil fs).toList, S a) (hord : Ordered cmp (plug .nil fs)) :
    ∀ a ∈ (plug .nil fs).toList, cmp a data ≠ 0 :=
  hf.none_equal ((hcmp.cuts (hS data (by simp))).monotone
    (fun a ha => hS a (List.mem_cons_of_mem _ ha)) hord)

theorem rbSearch_monotone {cmp : Ptr → Ptr → Int} {t : RbTree δ} {u : ColorTree Ptr}
    (hu : Holds t u) {key : Ptr} (hmono : Monotone cmp key u.toList) :
    (∃ a ∈ u.toList, cmp a key = 0 ∧ a ≠ 0#32 ∧ rbSearch cmp t key = .ok a) ∨
      ((∀ a ∈ u.toList, cmp a key ≠ 0) ∧ rbSearch cmp t key = .ok 0#32) := by
  obtain ⟨fs, v, hlink, hf, rfl⟩ := rbFindNodeLink_ok cmp hu key
  have hderef : t.deref (linkOf fs) = ptr v := hf.place.deref
  have hsearch : rbSearch cmp t key = .ok (ptr v) := by
    simp only [rbSearch, hlink, ok_bind, hderef, pure_eq_ok]
  cases v with
  | nil => exact .inr ⟨hf.none_equal hmono, hsearch⟩
  | node c l a r =>
    obtain ⟨heq, hmem⟩ := hf.equal
    exact .inl ⟨a, hmem, heq, At.ne_zero (d := .left) hf.place, hsearch⟩

theorem rbSearch_contents {S : Ptr → Prop} {cmp : Ptr → Ptr → Int} {t : RbTree δ}
    {u : ColorTree Ptr} (hu : Holds t u) {key : Ptr} (hcuts : Cuts S cmp key)
    (hord : Ordered cmp u) (hS : ∀ a ∈ u.toList, S a) :
    (∃ a ∈ u.toList, cmp a key = 0 ∧ a ≠ 0#32 ∧ rbSearch cmp t key = .ok a) ∨
      ((∀ a ∈ u.toList, cmp a key ≠ 0) ∧ rbSearch cmp t key = .ok 0#32) :=
  rbSearch_monotone hu (hcuts.monotone hS hord)


/-- `rb_insert` puts a node that compares equal to none between those that are smaller and
those that are greater, and does nothing otherwise. -/
theorem rbInsert_between {S : Ptr → Prop} {cb : Callbacks δ} {t : RbTree δ} {u : ColorTree Ptr}
    (hu : Holds t u) (hrb : RedBlack u) {node : Ptr} (hcuts : Cuts S cb.cmp node)
    (hord : Ordered cb.cmp u) (hS : ∀ a ∈ u.toList, S a) (hnew : node ∉ u.toList)
    (hne : node ≠ 0#32) (hal : Aligned node) :
    ((∀ a ∈ u.toList, cb.cmp a node ≠ 0) ∧ ∃ t' u' xs ys, rbInsert cb t node = .ok (t', node) ∧
      Holds t' u' ∧ RedBlack u' ∧ u.toList = xs ++ ys ∧ u'.toList = xs ++ node :: ys ∧
      (∀ a ∈ xs, cb.cmp a node < 0) ∧ ∀ a ∈ ys, 0 < cb.cmp a node) ∨
    ((∃ a ∈ u.toList, cb.cmp a node = 0) ∧ rbInsert cb t node = .ok (t, 0#32)) := by
  obtain ⟨fs, v, hlink, hf, rfl⟩ := rbFindNodeLink_ok cb.cmp hu node
  cases v with
  | nil =>
    have hout : node ∉ frameNodes fs := by
      intro hmem
      apply hnew
      rw [(toList_plug_perm .nil fs).mem_iff]
      exact List.mem_append_right _ hmem
    rw [show ptr (.nil : ColorTree Ptr) = 0#32 from rfl, if_pos rfl] at hlink
    obtain ⟨t', u', ht', hu', hrb', hlist⟩ := rbInsert_new hrb hf hout hlink hne hal
    obtain ⟨hbefore, hafter⟩ := hf.sides hcuts hS hord
    refine .inl
      ⟨hf.none_equal (hcuts.monotone hS hord), t', u', before fs, after fs, ht', hu', hrb', ?_, ?_,
      hbefore, hafter⟩
    · simp [toList_plug, toList]
    · rw [hlist, List.append_assoc]
      rfl
  | node c l a r =>
    obtain ⟨heq, hmem⟩ := hf.equal
    have hfull : ptr (.node c l a r) ≠ 0#32 := At.ne_zero (d := .left) hf.place
    exact .inr ⟨⟨a, hmem, heq⟩, rbInsert_equal hf hfull hlink⟩

theorem Ordered.unique {S : Ptr → Prop} {cmp : Ptr → Ptr → Int} (hcmp : TotalOrder S cmp)
    {u : ColorTree Ptr} (hord : Ordered cmp u) (hS : ∀ a ∈ u.toList, S a) {key a b : Ptr}
    (hkey : S key) (ha : a ∈ u.toList) (hb : b ∈ u.toList) (hak : cmp a key = 0)
    (hbk : cmp b key = 0) : a = b := by
  -- one of two different nodes is smaller, and would be smaller than the key
  have hnot : ∀ x y, x ∈ u.toList → y ∈ u.toList → cmp x key = 0 → cmp y key = 0 →
      ¬ cmp x y < 0 := by
    intro x y hx hy hxk hyk hlt
    have hyx := (hcmp.swap x y (hS x hx) (hS y hy)).1 hlt
    have hkx : ¬ 0 < cmp key x := by
      intro hpos
      have := (hcmp.swap x key (hS x hx) hkey).2 hpos
      omega
    have hle := hcmp.trans y key x (hS y hy) hkey (hS x hx) (by omega) (by omega)
    omega
  have hpairs : u.toList.Pairwise fun x y => ¬ (cmp x key = 0 ∧ cmp y key = 0) :=
    hord.imp_of_mem fun hx hy hlt hxy => hnot _ _ hx hy hxy.1 hxy.2 hlt
  have : Std.Symm fun x y => ¬ (cmp x key = 0 ∧ cmp y key = 0) := ⟨fun x y h hyx => h hyx.symm⟩
  by_contra hne
  exact hpairs.forall ha hb hne ⟨hak, hbk⟩

/-! ## One call -/

theorem toList_erase {fs : List (Frame Ptr)} {c : Color} {l r : ColorTree Ptr} {a : Ptr}
    (hn : (plug (.node c l a r) fs).toList.Nodup) :
    before fs ++ (l.toList ++ r.toList) ++ after fs =
      (plug (.node c l a r) fs).toList.erase a := by
  rw [toList_plug] at hn ⊢
  simp only [toList, List.append_assoc, List.cons_append] at hn ⊢
  have hout : a ∉ before fs ++ l.toList := by
    intro hmem
    rw [← List.append_assoc] at hn
    exact (List.nodup_append.1 hn).2.2 a hmem a (by simp) rfl
  rw [← List.append_assoc (before fs) l.toList (a :: _), List.erase_append_right _ hout,
    List.erase_cons_head, List.append_assoc]

theorem rbRemove_contents (cb : Callbacks δ) {t : RbTree δ} {u : ColorTree Ptr} (hu : Holds t u)
    (hrb : RedBlack u) {a : Ptr} (ha : a ∈ u.toList) :
    ∃ t' u', rbRemove cb t a = .ok (t', a) ∧ Holds t' u' ∧ u'.toList = u.toList.erase a := by
  obtain ⟨⟨c, l, r, fs⟩, hfound⟩ := locate_isSome [] ha
  have hplug : plug (.node c l a r) fs = u := plug_locate hfound
  have hn : u.toList.Nodup := by
    have := hu.nodup
    simpa [frameNodes] using this
  rw [← hplug] at hu hrb hn ⊢
  obtain ⟨t', u', ht', hu', hlist, -⟩ := rbRemove_ok cb hu.at hrb
  exact ⟨t', u', ht', hu', hlist.trans (toList_erase hn)⟩

theorem rbInsert_contents {S : Ptr → Prop} {cb : Callbacks δ} (hcmp : TotalOrder S cb.cmp)
    {t : RbTree δ} {u : ColorTree Ptr} (hu : Holds t u) (hrb : RedBlack u)
    (hord : Ordered cb.cmp u) (hS : ∀ a ∈ u.toList, S a) {node : Ptr} (hnode : S node) :
    (node ≠ 0#32 → Aligned node → (∀ a ∈ u.toList, cb.cmp a node ≠ 0) →
      ∃ t' u' xs ys, rbInsert cb t node = .ok (t', node) ∧ Holds t' u' ∧ u.toList = xs ++ ys ∧
        u'.toList = xs ++ node :: ys ∧ Ordered cb.cmp u') ∧
    ((∃ a ∈ u.toList, cb.cmp a node = 0) → rbInsert cb t node = .ok (t, 0#32)) := by
  obtain ⟨fs, v, hlink, hf, rfl⟩ := rbFindNodeLink_ok cb.cmp hu node
  have hall : ∀ a ∈ node :: (plug v fs).toList, S a := by
    intro a ha
    rcases List.mem_cons.1 ha with rfl | ha
    · exact hnode
    · exact hS a ha
  cases v with
  | nil =>
    have habsent := hf.absent hcmp hall hord
    rw [show ptr (.nil : ColorTree Ptr) = 0#32 from rfl, if_pos rfl] at hlink
    refine ⟨fun hne hal _ => ?_, fun ⟨a, ha, heq⟩ => absurd heq (habsent a ha)⟩
    obtain ⟨t', u', ht', hu', -, hlist⟩ :=
      rbInsert_new hrb hf (hf.not_mem hcmp hall hord) hlink hne hal
    refine ⟨t', u', before fs, after fs, ht', hu', ?_, ?_, ?_⟩
    · simp [toList_plug, toList]
    · rw [hlist, List.append_assoc]
      rfl
    · rw [Ordered, hlist]
      exact hf.ordered hcmp hall hord
  | node c l a r =>
    obtain ⟨heq, hmem⟩ := hf.equal
    have hne : ptr (.node c l a r) ≠ 0#32 := At.ne_zero (d := .left) hf.place
    exact ⟨fun _ _ hno => absurd heq (hno a hmem), fun _ => rbInsert_equal hf hne hlink⟩

theorem rbRemoveKey_contents {S : Ptr → Prop} {cb : Callbacks δ} (hcmp : TotalOrder S cb.cmp)
    {t : RbTree δ} {u : ColorTree Ptr} (hu : Holds t u) (hrb : RedBlack u)
    (hord : Ordered cb.cmp u) (hS : ∀ a ∈ u.toList, S a) {key : Ptr} (hkey : S key) :
    (∀ a ∈ u.toList, cb.cmp a key = 0 → ∃ t' u', rbRemoveKey cb t key = .ok (t', a) ∧
      Holds t' u' ∧ u'.toList = u.toList.erase a) ∧
    ((∀ a ∈ u.toList, cb.cmp a key ≠ 0) → rbRemoveKey cb t key = .ok (t, 0#32)) := by
  obtain ⟨fs, v, hlink, hf, hplug⟩ := rbFindNodeLink_ok cb.cmp hu key
  have hderef : t.deref (linkOf fs) = ptr v := hf.place.deref
  cases v with
  | nil =>
    rw [show ptr (.nil : ColorTree Ptr) = 0#32 from rfl] at hderef
    have habsent : ∀ a ∈ u.toList, cb.cmp a key ≠ 0 := by
      rw [← hplug] at hord hS ⊢
      refine hf.absent hcmp (fun a ha => ?_) hord
      rcases List.mem_cons.1 ha with rfl | ha
      · exact hkey
      · exact hS a ha
    refine ⟨fun a ha heq => absurd heq (habsent a ha), fun _ => ?_⟩
    simp only [rbRemoveKey, hlink, ok_bind, hderef, if_true, pure_eq_ok]
  | node c l b r =>
    obtain ⟨heq, hmem⟩ := hf.equal
    rw [hplug] at hmem
    have hne : ptr (.node c l b r) ≠ 0#32 := At.ne_zero (d := .left) hf.place
    refine ⟨fun a ha hak => ?_, fun hno => absurd heq (hno b hmem)⟩
    obtain rfl : a = b := hord.unique hcmp hS hkey ha hmem hak heq
    obtain ⟨t', u', ht', hu', hlist⟩ := rbRemove_contents cb hu hrb hmem
    refine ⟨t', u', ?_, hu', hlist⟩
    simp only [rbRemoveKey, hlink, ok_bind, hderef, if_neg hne]
    exact ht'

/-- Insertion puts the node at its sorted place, removal takes exactly one node
out, and a call that has nothing to do changes nothing and returns NULL. In the
tree that is left every node has its real parent (`Holds`). -/
theorem call_contents {S : Ptr → Prop} {cb : Callbacks δ} (hcmp : TotalOrder S cb.cmp)
    {t : RbTree δ} {u : ColorTree Ptr} (hu : Holds t u) (hrb : RedBlack u)
    (hord : Ordered cb.cmp u) (hS : ∀ a ∈ u.toList, S a) :
    (∀ node, S node →
      (node ≠ 0#32 → Aligned node → (∀ a ∈ u.toList, cb.cmp a node ≠ 0) →
        ∃ t' u' xs ys, rbInsert cb t node = .ok (t', node) ∧ Holds t' u' ∧ u.toList = xs ++ ys ∧
          u'.toList = xs ++ node :: ys ∧ Ordered cb.cmp u') ∧
      ((∃ a ∈ u.toList, cb.cmp a node = 0) → rbInsert cb t node = .ok (t, 0#32))) ∧
    (∀ a ∈ u.toList, ∃ t' u', rbRemoveNode cb t a = .ok (t', a) ∧ Holds t' u' ∧
      u'.toList = u.toList.erase a) ∧
    (∀ key, S key →
      (∀ a ∈ u.toList, cb.cmp a key = 0 → ∃ t' u', rbRemoveKey cb t key = .ok (t', a) ∧
        Holds t' u' ∧ u'.toList = u.toList.erase a) ∧
      ((∀ a ∈ u.toList, cb.cmp a key ≠ 0) → rbRemoveKey cb t key = .ok (t, 0#32))) := by
  refine ⟨fun node hnode => rbInsert_contents hcmp hu hrb hord hS hnode, fun a ha => ?_,
    fun key hkey => rbRemoveKey_contents hcmp hu hrb hord hS hkey⟩
  obtain ⟨t', u', ht', hu', hlist⟩ := rbRemove_contents cb hu hrb ha
  refine ⟨t', u', ?_, hu', hlist⟩
  rw [rbRemoveNode, if_neg (Rep.ne_zero hu.focus ha)]
  exact ht'

/-- A black node at 8 with red children at 4 and 12. -/
def threeNodes : RbTree Unit where
  root := 8#32
  mem p := if p = 8#32 then ⟨0#32, 4#32, 12#32⟩ else ⟨9#32, 0#32, 0#32⟩
  data _ := ()

def threeNodesTree : ColorTree Ptr :=
  .node .black (.node .red .nil 4#32 .nil) 8#32 (.node .red .nil 12#32 .nil)

theorem threeNodes_holds : Holds threeNodes threeNodesTree := by
  refine ⟨⟨rfl, by decide, by decide, by decide, by decide, ?_, ?_⟩, ⟨rfl, rfl⟩, by decide⟩
  · exact ⟨by decide, by decide, by decide, by decide, by decide,
      show (threeNodes.mem _).left = 0#32 by decide, show (threeNodes.mem _).right = 0#32 by decide⟩
  · exact ⟨by decide, by decide, by decide, by decide, by decide,
      show (threeNodes.mem _).left = 0#32 by decide, show (threeNodes.mem _).right = 0#32 by decide⟩

theorem threeNodes_redBlack : RedBlack threeNodesTree :=
  ⟨1, .black (.red .nil .nil) (.red .nil .nil)⟩

theorem threeNodes_ordered : Ordered addressOrder.cmp threeNodesTree := by
  unfold Ordered
  decide +kernel

theorem threeNodes_contents :
    (∃ t' u' xs ys, rbInsert addressOrder threeNodes 16#32 = .ok (t', 16#32) ∧ Holds t' u' ∧
      threeNodesTree.toList = xs ++ ys ∧ u'.toList = xs ++ 16#32 :: ys ∧
      Ordered addressOrder.cmp u') ∧
    rbInsert addressOrder threeNodes 4#32 = .ok (threeNodes, 0#32) ∧
    (∃ t' u', rbRemoveNode addressOrder threeNodes 8#32 = .ok (t', 8#32) ∧ Holds t' u' ∧
      u'.toList = threeNodesTree.toList.erase 8#32) ∧
    (∃ t' u', rbRemoveKey addressOrder threeNodes 12#32 = .ok (t', 12#32) ∧ Holds t' u' ∧
      u'.toList = threeNodesTree.toList.erase 12#32) ∧
    rbRemoveKey addressOrder threeNodes 20#32 = .ok (threeNodes, 0#32) := by
  obtain ⟨hins, hnode, hkey⟩ := call_contents addressOrder_total threeNodes_holds
    threeNodes_redBlack threeNodes_ordered (fun _ _ => trivial)
  refine ⟨(hins 16#32 trivial).1 (by decide) (by decide) ?_, (hins 4#32 trivial).2 ?_,
    hnode 8#32 (by decide), (hkey 12#32 trivial).1 12#32 (by decide) ?_,
    (hkey 20#32 trivial).2 ?_⟩
  all_goals simp [threeNodesTree, toList, addressOrder]

/-! ## Insertion and the colours -/

/-- `rb_insert` of any new node into a red-black tree, whatever the node's words
were: the node is in and the tree is a red-black tree again, or an equal node was
found and nothing has changed. In an ordered tree an equal node is always found. -/
theorem rbInsert_redBlack (cb : Callbacks δ) (t : RbTree δ) (u : ColorTree Ptr) (node : Ptr)
    (h : Holds t u) (hrb : RedBlack u) (hne : node ≠ 0#32) (hal : Aligned node)
    (hnew : node ∉ u.toList) :
    ((∃ t' u' xs ys, rbInsert cb t node = .ok (t', node) ∧ Holds t' u' ∧ RedBlack u' ∧
        u.toList = xs ++ ys ∧ u'.toList = xs ++ node :: ys) ∨
      (rbInsert cb t node = .ok (t, 0#32) ∧ ∃ a ∈ u.toList, cb.cmp a node = 0)) ∧
    (TotalOrder (· ∈ node :: u.toList) cb.cmp → Ordered cb.cmp u →
      (∃ a ∈ u.toList, cb.cmp a node = 0) → rbInsert cb t node = .ok (t, 0#32)) := by
  obtain ⟨fs, v, hlink, hf, rfl⟩ := rbFindNodeLink_ok cb.cmp h node
  by_cases hv : ptr v = 0#32
  · -- the search ended at an empty place
    obtain rfl : v = .nil := by
      cases v with
      | nil => rfl
      | node c l a r => exact absurd hv (At.ne_zero (d := .left) hf.place)
    have hlist : (plug (.nil : ColorTree Ptr) fs).toList = before fs ++ after fs := by
      simp [toList_plug, toList]
    have hout : node ∉ frameNodes fs := by
      rwa [(frameNodes_perm fs).mem_iff, ← hlist]
    rw [if_pos hv] at hlink
    constructor
    · left
      obtain ⟨t', u', ht', hu', hrb', hlist'⟩ := rbInsert_new hrb hf hout hlink hne hal
      exact ⟨t', u', before fs, after fs, ht', hu', hrb', hlist, by simpa using hlist'⟩
    · intro hcmp hord hequal
      obtain ⟨a, ha, heq⟩ := hequal
      obtain ⟨hbelow, habove⟩ := hf.bounds hcmp (fun _ hb => hb) hord
      rw [hlist, List.mem_append] at ha
      rcases ha with ha | ha
      · have := hbelow a ha
        omega
      · have := habove a ha
        omega
  · rw [if_neg hv] at hlink
    have hsame := rbInsert_equal hf hv hlink
    refine ⟨.inr ⟨hsame, ptr v, ?_, ?_⟩, fun _ _ _ => hsame⟩
    · rw [toList_plug]
      simp [(ptr_mem v).resolve_left hv]
    · apply hf.ends.resolve_left
      intro hnil
      rw [hnil] at hv
      exact hv rfl

/-- Node 16, whose first word is that of a red child of 8. -/
theorem threeNodes_insert :
    Holds threeNodes threeNodesTree ∧ RedBlack threeNodesTree ∧ Aligned 16#32 ∧
    16#32 ∉ threeNodesTree.toList ∧
    ((∃ t' u' xs ys, rbInsert addressOrder threeNodes 16#32 = .ok (t', 16#32) ∧ Holds t' u' ∧
        RedBlack u' ∧ threeNodesTree.toList = xs ++ ys ∧ u'.toList = xs ++ 16#32 :: ys) ∨
      (rbInsert addressOrder threeNodes 16#32 = .ok (threeNodes, 0#32) ∧
        ∃ a ∈ threeNodesTree.toList, addressOrder.cmp a 16#32 = 0)) :=
  ⟨threeNodes_holds, threeNodes_redBlack, by decide, by decide,
    (rbInsert_redBlack addressOrder threeNodes threeNodesTree 16#32 threeNodes_holds
      threeNodes_redBlack (by decide) (by decide) (by decide)).1⟩

end X86Kernel.Rb
