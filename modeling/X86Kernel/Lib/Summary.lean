import X86Kernel.Lib.ColorTree

/- Summaries of subtrees, kept in the nodes of a binary tree.

   A node keeps something that is computed from the node itself and from what its children
   keep: the size of the subtree, the greatest end of an interval, and so on. `combine` is
   the computation, `summary` what it gives for a whole tree, and `Summed` says that every
   node keeps the summary of its subtree.

   What is proved: a tree in which all is summed is summed at every focus and beside every
   frame (`Summed.of_plug`), the colours do not matter (`summed_plain`), and there are data
   that sum any tree with different nodes (`exists_summed`). The sizes of the subtrees
   (`countNodes`) are the summaries that show when a node keeps the wrong subtree. -/
namespace X86Kernel.Lib
open ColorTree

variable {α ε : Type}

/-! ## Trees without colours -/

/-- The tree with all nodes black. -/
def ColorTree.plain : ColorTree α → ColorTree α
  | nil => nil
  | node _ l a r => node .black l.plain a r.plain

def Frame.plain (f : Frame α) : Frame α :=
  { f with color := .black, sibling := f.sibling.plain }

@[simp] theorem plain_branch (d : Side) (c : Color) (u v : ColorTree α) (a : α) :
    (branch d c u a v).plain = branch d .black u.plain a v.plain := by cases d <;> rfl

@[simp] theorem plain_blacken (u : ColorTree α) : u.blacken.plain = u.plain := by cases u <;> rfl

@[simp] theorem toList_plain (u : ColorTree α) : u.plain.toList = u.toList := by
  induction u with
  | nil => rfl
  | node c l a r ihl ihr => simp [plain, toList, ihl, ihr]

theorem plain_plug (u : ColorTree α) (fs : List (Frame α)) :
    (plug u fs).plain = plug u.plain (fs.map Frame.plain) := by
  induction fs generalizing u with
  | nil => rfl
  | cons f fs ih =>
    rw [plug, ih, plain_branch]
    rfl

theorem exists_branch_of_plain {d : Side} {u x y : ColorTree α} {a : α}
    (h : u.plain = branch d .black x a y) :
    ∃ c u' v', u = branch d c u' a v' ∧ u'.plain = x ∧ v'.plain = y := by
  cases u with
  | nil => cases d <;> cases h
  | node c l b r =>
    cases d with
    | left =>
      obtain ⟨-, hl, rfl, hr⟩ := ColorTree.node.inj h
      exact ⟨c, l, r, rfl, hl, hr⟩
    | right =>
      obtain ⟨-, hl, rfl, hr⟩ := ColorTree.node.inj h
      exact ⟨c, r, l, rfl, hr, hl⟩

theorem exists_plug_of_plain {u v : ColorTree α} {fs : List (Frame α)}
    (h : u.plain = (plug v fs).plain) :
    ∃ v' fs', u = plug v' fs' ∧ v'.plain = v.plain ∧
      fs'.map Frame.plain = fs.map Frame.plain := by
  induction fs generalizing v with
  | nil => exact ⟨u, [], rfl, h, rfl⟩
  | cons f fs ih =>
    obtain ⟨w, fs', rfl, hw, hfs⟩ := ih h
    rw [plain_branch] at hw
    obtain ⟨c, v', s', rfl, hv, hs⟩ := exists_branch_of_plain hw
    refine ⟨v', ⟨f.side, c, f.node, s'⟩ :: fs', rfl, hv, ?_⟩
    rw [List.map_cons, List.map_cons, hfs]
    simp only [Frame.plain, hs]

/-! ## Summaries -/

/-- What `combine` gives for the tree; there is no summary of the empty one. -/
def summary (combine : α → Option ε → Option ε → ε) : ColorTree α → Option ε
  | .nil => none
  | .node _ l a r => some (combine a (summary combine l) (summary combine r))

/-- Every node keeps the summary of its subtree. -/
def Summed (combine : α → Option ε → Option ε → ε) (data : α → ε) : ColorTree α → Prop
  | .nil => True
  | .node _ l a r => data a = combine a (summary combine l) (summary combine r) ∧
    Summed combine data l ∧ Summed combine data r

/-- The subtrees beside the frames are summed. -/
def SummedBeside (combine : α → Option ε → Option ε → ε) (data : α → ε) (fs : List (Frame α)) :
    Prop := ∀ f ∈ fs, Summed combine data f.sibling

/-- `combine` for the subtrees on side `d` and on the other side. -/
def combineAt (combine : α → Option ε → Option ε → ε) (d : Side) (a : α) (x y : Option ε) : ε :=
  match d with
  | .left => combine a x y
  | .right => combine a y x

variable {combine : α → Option ε → Option ε → ε} {data data' : α → ε}

theorem summed_branch {d : Side} {c : Color} {u v : ColorTree α} {a : α} :
    Summed combine data (branch d c u a v) ↔
      data a = combineAt combine d a (summary combine u) (summary combine v) ∧
        Summed combine data u ∧ Summed combine data v := by
  cases d with
  | left => exact Iff.rfl
  | right =>
    simp only [branch, Summed, combineAt]
    tauto

theorem summary_plain (u : ColorTree α) : summary combine u.plain = summary combine u := by
  induction u with
  | nil => rfl
  | node c l a r ihl ihr => rw [plain, summary, summary, ihl, ihr]

theorem summed_plain (u : ColorTree α) : Summed combine data u.plain ↔ Summed combine data u := by
  induction u with
  | nil => exact Iff.rfl
  | node c l a r ihl ihr => rw [plain, Summed, Summed, ihl, ihr, summary_plain, summary_plain]

theorem Summed.of_plain {u v : ColorTree α} (h : Summed combine data u) (huv : v.plain = u.plain) :
    Summed combine data v := by
  rw [← summed_plain, huv, summed_plain]
  exact h

theorem SummedBeside.of_plain {fs gs : List (Frame α)} (h : SummedBeside combine data fs)
    (hfg : gs.map Frame.plain = fs.map Frame.plain) : SummedBeside combine data gs := by
  intro g hg
  have hmem : g.plain ∈ fs.map Frame.plain := hfg ▸ List.mem_map_of_mem hg
  obtain ⟨f, hf, hfg'⟩ := List.mem_map.1 hmem
  have hs : f.sibling.plain = g.sibling.plain := congrArg Frame.sibling hfg'
  exact (h f hf).of_plain hs.symm

theorem Summed.congr {u : ColorTree α} (h : Summed combine data u)
    (hdata : ∀ a ∈ u.toList, data' a = data a) : Summed combine data' u := by
  induction u with
  | nil => trivial
  | node c l a r ihl ihr =>
    obtain ⟨ha, hl, hr⟩ := h
    refine ⟨?_, ihl hl ?_, ihr hr ?_⟩
    · rw [hdata a (by simp [toList]), ha]
    · intro b hb
      exact hdata b (by simp [toList, hb])
    · intro b hb
      exact hdata b (by simp [toList, hb])

theorem Summed.summary_eq {c : Color} {l r : ColorTree α} {a : α}
    (h : Summed combine data (.node c l a r)) : summary combine (.node c l a r) = some (data a) :=
    by
  rw [summary, h.1]

theorem summedBeside_cons {f : Frame α} {fs : List (Frame α)} :
    SummedBeside combine data (f :: fs) ↔
      Summed combine data f.sibling ∧ SummedBeside combine data fs := by
  simp only [SummedBeside, List.mem_cons, forall_eq_or_imp]

theorem summedBeside_append {fs gs : List (Frame α)} :
    SummedBeside combine data (fs ++ gs) ↔
      SummedBeside combine data fs ∧ SummedBeside combine data gs := by
  simp only [SummedBeside, List.mem_append, or_imp, forall_and]

theorem Summed.of_plug {u : ColorTree α} {fs : List (Frame α)}
    (h : Summed combine data (plug u fs)) :
    Summed combine data u ∧ SummedBeside combine data fs := by
  induction fs generalizing u with
  | nil => exact ⟨h, fun f hf => absurd hf List.not_mem_nil⟩
  | cons f fs ih =>
    obtain ⟨hf, hfs⟩ := ih h
    obtain ⟨-, hu, hs⟩ := summed_branch.1 hf
    exact ⟨hu, summedBeside_cons.2 ⟨hs, hfs⟩⟩

theorem exists_summed [DecidableEq α] [Inhabited ε] (combine : α → Option ε → Option ε → ε)
    {u : ColorTree α} (hn : u.toList.Nodup) : ∃ data : α → ε, Summed combine data u := by
  induction u with
  | nil => exact ⟨fun _ => default, trivial⟩
  | node c l a r ihl ihr =>
    simp only [toList, List.nodup_append, List.nodup_cons, List.mem_cons] at hn
    obtain ⟨hl, ⟨har, hr⟩, hapart⟩ := hn
    obtain ⟨dl, hdl⟩ := ihl hl
    obtain ⟨dr, hdr⟩ := ihr hr
    let data := fun b => if b = a then combine a (summary combine l) (summary combine r)
      else if b ∈ l.toList then dl b else dr b
    refine ⟨data, if_pos rfl, hdl.congr fun b hb => ?_, hdr.congr fun b hb => ?_⟩
    · have hba : b ≠ a := hapart b hb a (.inl rfl)
      simp only [data, if_neg hba, if_pos hb]
    · have hba : b ≠ a := fun e => har (e ▸ hb)
      have hbl : b ∉ l.toList := fun hl => hapart b hl b (.inr hb) rfl
      simp only [data, if_neg hba, if_neg hbl]

/-! ## Sizes -/

/-- The number of nodes of a subtree. -/
def countNodes (_ : α) (x y : Option Nat) : Nat := 1 + x.getD 0 + y.getD 0

theorem getD_summary_countNodes (u : ColorTree α) :
    (summary countNodes u).getD 0 = u.toList.length := by
  induction u with
  | nil => rfl
  | node c l a r ihl ihr =>
    simp only [summary, countNodes, Option.getD_some, ihl, ihr, toList, List.length_append,
      List.length_cons]
    omega

theorem length_branch (d : Side) (c : Color) (u v : ColorTree α) (a : α) :
    (branch d c u a v).toList.length = 1 + u.toList.length + v.toList.length := by
  cases d <;> simp [branch, toList] <;> omega

theorem Summed.size_eq {sizes : α → Nat} {d : Side} {c : Color} {u v : ColorTree α} {a : α}
    (h : Summed countNodes sizes (branch d c u a v)) :
    sizes a = 1 + u.toList.length + v.toList.length := by
  obtain ⟨ha, -⟩ := summed_branch.1 h
  rw [ha]
  cases d with
  | left => simp only [combineAt, countNodes, getD_summary_countNodes]
  | right =>
    simp only [combineAt, countNodes, getD_summary_countNodes]
    omega

end X86Kernel.Lib
