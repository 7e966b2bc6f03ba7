import Mathlib.Data.List.Basic

/- Binary trees with coloured nodes, and the path from a node up to the root.

   A tree is taken apart at one of its subtrees, the focus, and the frames from
   the focus up to the root; `plug` puts it together again. Most facts about an
   algorithm that walks up from a node are stated on such pairs: what a local
   change does to the focus, and what the frames then demand of it.

   What is proved: the in-order sequence of a plugged tree, that a red-black
   tree taken apart is a red-black focus in a `Hole` of its colour and black
   height and the other way round (`redBlack_plug_iff`), and that a hole under
   a black node takes either colour. Nothing here is about one
   implementation; left and right are two values of `Side`, so that a mirrored
   pair of cases is one case. -/
namespace X86Kernel.Lib

inductive Side where
  | left
  | right
  deriving DecidableEq, Repr

/-- The other side. -/
def Side.flip : Side → Side
  | .left => .right
  | .right => .left

@[simp] theorem Side.flip_flip (d : Side) : d.flip.flip = d := by cases d <;> rfl

@[simp] theorem Side.flip_ne (d : Side) : d.flip ≠ d := by cases d <;> decide

theorem Side.eq_or_flip (d e : Side) : e = d ∨ e = d.flip := by
  cases d <;> cases e <;> simp [Side.flip]

inductive Color where
  | red
  | black
  deriving DecidableEq, Repr

inductive ColorTree (α : Type) where
  | nil
  | node (color : Color) (l : ColorTree α) (a : α) (r : ColorTree α)
  deriving DecidableEq, Repr

/-- One node on the way up: on which side of it the focus hangs, its colour,
and its other subtree. -/
structure Frame (α : Type) where
  side : Side
  color : Color
  node : α
  sibling : ColorTree α
  deriving DecidableEq, Repr

variable {α : Type}

namespace ColorTree

/-- The colour of the root; the empty tree is black. -/
def color : ColorTree α → Color
  | nil => .black
  | node c _ _ _ => c

def blacken : ColorTree α → ColorTree α
  | nil => nil
  | node _ l a r => node .black l a r

/-- A node given by its subtree on side `d` and the one on the other side. -/
def branch (d : Side) (c : Color) (near : ColorTree α) (a : α) (far : ColorTree α) : ColorTree α :=
  match d with
  | .left => node c near a far
  | .right => node c far a near

/-- The nodes in order. -/
def toList : ColorTree α → List α
  | nil => []
  | node _ l a r => l.toList ++ a :: r.toList

@[simp] theorem color_branch (d : Side) (c : Color) (t u : ColorTree α) (a : α) :
    (branch d c t a u).color = c := by cases d <;> rfl

@[simp] theorem blacken_branch (d : Side) (c : Color) (t u : ColorTree α) (a : α) :
    (branch d c t a u).blacken = branch d .black t a u := by cases d <;> rfl

@[simp] theorem toList_blacken (t : ColorTree α) : t.blacken.toList = t.toList := by cases t <;> rfl

theorem toList_branch_congr (d : Side) (c c' : Color) {t t' u u' : ColorTree α} (a : α)
    (ht : t.toList = t'.toList) (hu : u.toList = u'.toList) :
    (branch d c t a u).toList = (branch d c' t' a u').toList := by
  cases d <;> simp [branch, toList, ht, hu]

theorem branch_flip (d : Side) (c : Color) (t u : ColorTree α) (a : α) :
    branch d.flip c t a u = branch d c u a t := by cases d <;> rfl

theorem branch_eq_branch (d e : Side) (c : Color) (t u : ColorTree α) (a : α) :
    ∃ t' u', branch e c t a u = branch d c t' a u' := by
  rcases Side.eq_or_flip d e with rfl | rfl
  · exact ⟨t, u, rfl⟩
  · exact ⟨u, t, branch_flip d c t u a⟩

/-- A rotation, the far child coming up, keeps the order of the nodes, whatever
the colours. -/
theorem toList_rotate (d : Side) (c₁ c₂ c₃ c₄ : Color) (t u v : ColorTree α) (a b : α) :
    (branch d c₁ t a (branch d c₂ u b v)).toList =
      (branch d c₃ (branch d c₄ t a u) b v).toList := by
  cases d <;> simp [branch, toList]

/-- Left and right exchanged. -/
def mirror : ColorTree α → ColorTree α
  | nil => nil
  | node c l a r => node c r.mirror a l.mirror

theorem toList_mirror (t : ColorTree α) : t.mirror.toList = t.toList.reverse := by
  induction t with
  | nil => rfl
  | node c l a r ihl ihr => simp [mirror, toList, ihl, ihr]

end ColorTree

open ColorTree

/-- The whole tree around a focus. -/
def plug (t : ColorTree α) : List (Frame α) → ColorTree α
  | [] => t
  | f :: fs => plug (branch f.side f.color t f.node f.sibling) fs

/-- The nodes of the frames, in no particular order. -/
def frameNodes : List (Frame α) → List α
  | [] => []
  | f :: fs => f.node :: (f.sibling.toList ++ frameNodes fs)

theorem plug_append (t : ColorTree α) (fs gs : List (Frame α)) : plug t (fs ++ gs) = plug
    (plug t fs) gs := by
  induction fs generalizing t with
  | nil => rfl
  | cons f fs ih => simpa [plug] using ih _

theorem exists_focus {u : ColorTree α} {a : α} (h : a ∈ u.toList) :
    ∃ c l r fs, plug (node c l a r) fs = u := by
  induction u with
  | nil => simp [toList] at h
  | node c l b r ihl ihr =>
    simp only [toList, List.mem_append, List.mem_cons] at h
    rcases h with h | rfl | h
    · obtain ⟨c', l', r', fs, hfs⟩ := ihl h
      exact ⟨c', l', r', fs ++ [⟨.left, c, b, r⟩], by rw [plug_append, hfs]; rfl⟩
    · exact ⟨c, l, r, [], rfl⟩
    · obtain ⟨c', l', r', fs, hfs⟩ := ihr h
      exact ⟨c', l', r', fs ++ [⟨.right, c, b, l⟩], by rw [plug_append, hfs]; rfl⟩

theorem frameNodes_append (fs gs : List (Frame α)) :
    frameNodes (fs ++ gs) = frameNodes fs ++ frameNodes gs := by
  induction fs with
  | nil => rfl
  | cons f fs ih => simp [frameNodes, ih]

/-- The frames' part of the in-order sequence, before and after the focus. -/
def before : List (Frame α) → List α
  | [] => []
  | f :: fs =>
    match f.side with
    | .left => before fs
    | .right => before fs ++ (f.sibling.toList ++ [f.node])

def after : List (Frame α) → List α
  | [] => []
  | f :: fs =>
    match f.side with
    | .left => f.node :: f.sibling.toList ++ after fs
    | .right => after fs

theorem toList_plug (t : ColorTree α) (fs : List (Frame α)) :
    (plug t fs).toList = before fs ++ t.toList ++ after fs := by
  induction fs generalizing t with
  | nil => simp [plug, before, after]
  | cons f fs ih =>
    rw [plug, ih]
    cases h : f.side <;> simp [before, after, h, branch, toList]

theorem frameNodes_perm (fs : List (Frame α)) : (frameNodes fs).Perm (before fs ++ after fs) := by
  induction fs with
  | nil => simp [frameNodes, before, after]
  | cons f fs ih =>
    have hcons : (frameNodes (f :: fs)).Perm
        (before fs ++ (f.node :: f.sibling.toList ++ after fs)) := by
      refine (List.Perm.append_left (f.node :: f.sibling.toList) ih).trans ?_
      rw [← List.append_assoc, ← List.append_assoc]
      exact List.Perm.append_right _ List.perm_append_comm
    cases hside : f.side with
    | left => simpa [before, after, hside] using hcons
    | right =>
      refine hcons.trans ?_
      simp only [before, after, hside, List.append_assoc]
      refine List.Perm.append_left _ ?_
      rw [← List.append_assoc]
      exact List.Perm.append_right _ (List.perm_append_singleton _ _).symm

theorem toList_plug_perm (t : ColorTree α) (fs : List (Frame α)) :
    (plug t fs).toList.Perm (t.toList ++ frameNodes fs) := by
  rw [toList_plug]
  refine (List.Perm.append_right _ List.perm_append_comm).trans ?_
  rw [List.append_assoc]
  exact List.Perm.append_left _ (frameNodes_perm fs).symm

/-! ## Finding a node -/

/-- The first node in order of the tree that has `a`, with colour `c` and right
subtree `r`, as its root and the given left subtree: its colour, the node, its
right subtree and the frames up to the root. -/
def leftmost (c : Color) (a : α) (r : ColorTree α) (fs : List (Frame α)) :
    ColorTree α → Color × α × ColorTree α × List (Frame α)
  | nil => (c, a, r, fs)
  | node c' l' a' r' => leftmost c' a' r' (⟨.left, c, a, r⟩ :: fs) l'

theorem plug_leftmost (l : ColorTree α) : ∀ (c : Color) (a : α) (r : ColorTree α)
    (fs : List (Frame α)),
    plug (node (leftmost c a r fs l).1 .nil (leftmost c a r fs l).2.1 (leftmost c a r fs l).2.2.1)
      (leftmost c a r fs l).2.2.2 = plug (node c l a r) fs := by
  induction l with
  | nil => intro c a r fs; rfl
  | node c' l' a' r' ih _ => intro c a r fs; exact ih c' a' r' (⟨.left, c, a, r⟩ :: fs)

theorem before_leftmost (l : ColorTree α) : ∀ (c : Color) (a : α) (r : ColorTree α)
    (fs : List (Frame α)),
    before (leftmost c a r fs l).2.2.2 = before fs := by
  induction l with
  | nil => intro c a r fs; rfl
  | node c' l' a' r' ih _ => intro c a r fs; exact ih c' a' r' (⟨.left, c, a, r⟩ :: fs)

/-- The node `a` of a tree: its colour, its subtrees and the frames above it. -/
def locate [DecidableEq α] (a : α) :
    ColorTree α → List (Frame α) → Option (Color × ColorTree α × ColorTree α × List (Frame α))
  | nil, _ => none
  | node c l b r, fs =>
    if b = a then some (c, l, r, fs)
    else
      match locate a l (⟨.left, c, b, r⟩ :: fs) with
      | some found => some found
      | none => locate a r (⟨.right, c, b, l⟩ :: fs)

theorem plug_locate [DecidableEq α] {a : α} : ∀ {u : ColorTree α} {fs gs : List (Frame α)}
    {c : Color} {l r : ColorTree α}, locate a u fs = some (c, l, r, gs) →
    plug (node c l a r) gs = plug u fs := by
  intro u
  induction u with
  | nil => intro fs gs c l r h; simp [locate] at h
  | node c' l' b r' ihl ihr =>
    intro fs gs c l r h
    simp only [locate] at h
    split at h
    · rename_i hb
      obtain ⟨rfl, rfl, rfl, rfl⟩ : c' = c ∧ l' = l ∧ r' = r ∧ fs = gs := by simpa using h
      rw [hb]
    · split at h
      · rename_i hl
        obtain rfl := Option.some.inj h
        exact ihl hl
      · exact ihr h

theorem locate_isSome [DecidableEq α] {a : α} : ∀ {u : ColorTree α} (fs : List (Frame α)),
    a ∈ u.toList → ∃ found, locate a u fs = some found := by
  intro u
  induction u with
  | nil => intro fs h; simp [toList] at h
  | node c l b r ihl ihr =>
    intro fs h
    simp only [locate]
    split
    · exact ⟨_, rfl⟩
    · rename_i hne
      simp only [toList, List.mem_append, List.mem_cons] at h
      split
      · exact ⟨_, rfl⟩
      · rename_i hnone
        rcases h with h | h | h
        · obtain ⟨found, hf⟩ := ihl (⟨.left, c, b, r⟩ :: fs) h
          simp [hf] at hnone
        · exact absurd h.symm hne
        · exact ihr _ h

/-! ## Red-black trees -/

/-- A red-black tree with root colour `c` and `n` black nodes on every path:
no red node has a red child. -/
inductive RB : ColorTree α → Color → Nat → Prop where
  | nil : RB nil .black 0
  | red {l r a n} : RB l .black n → RB r .black n → RB (node .red l a r) .red n
  | black {l r a n c c'} : RB l c n → RB r c' n → RB (node .black l a r) .black (n + 1)

/-- A red-black tree with a black root. -/
def RedBlack (t : ColorTree α) : Prop := ∃ n, RB t .black n

/-- Frames that make a red-black tree of a focus with colour `c` and black
height `n`. -/
inductive Hole : List (Frame α) → Color → Nat → Prop where
  | top {n} : Hole [] .black n
  | red {d a t fs n} : RB t .black n → Hole fs .red n → Hole (⟨d, .red, a, t⟩ :: fs) .black n
  | black {d a t fs n c c'} : RB t c' n → Hole fs .black (n + 1) → Hole
  (⟨d, .black, a, t⟩ :: fs) c n

theorem RB.color_eq {t : ColorTree α} {c : Color} {n : Nat} (h : RB t c n) : t.color = c := by
  cases h <;> rfl

theorem RB.branch_red {d : Side} {t u : ColorTree α} {a : α} {n : Nat} (ht : RB t .black n)
    (hu : RB u .black n) : RB (branch d .red t a u) .red n := by
  cases d with
  | left => exact .red ht hu
  | right => exact .red hu ht

theorem RB.branch_black {d : Side} {t u : ColorTree α} {a : α} {n : Nat} {c c' : Color}
    (ht : RB t c n)
    (hu : RB u c' n) : RB (branch d .black t a u) .black (n + 1) := by
  cases d with
  | left => exact .black ht hu
  | right => exact .black hu ht

theorem RB.of_branch_red {d : Side} {t u : ColorTree α} {a : α} {n : Nat} {c : Color}
    (h : RB (branch d .red t a u) c n) : c = .red ∧ RB t .black n ∧ RB u .black n := by
  cases d with
  | left => cases h with | red ht hu => exact ⟨rfl, ht, hu⟩
  | right => cases h with | red hu ht => exact ⟨rfl, ht, hu⟩

theorem RB.of_branch_black {d : Side} {t u : ColorTree α} {a : α} {n : Nat} {c : Color}
    (h : RB (branch d .black t a u) c n) :
    c = .black ∧ ∃ k, n = k + 1 ∧ RB t t.color k ∧ RB u u.color k := by
  cases d with
  | left =>
    cases h with
    | black ht hu => exact ⟨rfl, _, rfl, ht.color_eq ▸ ht, hu.color_eq ▸ hu⟩
  | right =>
    cases h with
    | black hu ht => exact ⟨rfl, _, rfl, ht.color_eq ▸ ht, hu.color_eq ▸ hu⟩

theorem RB.exists_branch_red {t : ColorTree α} {n : Nat} (h : RB t .red n) (d : Side) :
    ∃ u a v, t = branch d .red u a v ∧ RB u .black n ∧ RB v .black n := by
  cases h with
  | red hl hr =>
    cases d with
    | left => exact ⟨_, _, _, rfl, hl, hr⟩
    | right => exact ⟨_, _, _, rfl, hr, hl⟩

theorem RB.exists_branch_black {t : ColorTree α} {n : Nat} (h : RB t .black (n + 1)) (d : Side) :
    ∃ u a v, t = branch d .black u a v ∧ RB u u.color n ∧ RB v v.color n := by
  cases h with
  | black hl hr =>
    cases d with
    | left => exact ⟨_, _, _, rfl, hl.color_eq ▸ hl, hr.color_eq ▸ hr⟩
    | right => exact ⟨_, _, _, rfl, hr.color_eq ▸ hr, hl.color_eq ▸ hl⟩

theorem RB.blacken {t : ColorTree α} {n : Nat} (h : RB t .red n) : RB t.blacken .black (n + 1) := by
  cases h with
  | red hl hr => exact .black hl hr

theorem RB.blacken_eq {t : ColorTree α} {n : Nat} (h : RB t .black n) : t.blacken = t := by
  cases h <;> rfl

/-- A red-black focus in its hole. -/
theorem Hole.plug {fs : List (Frame α)} {c : Color} {n : Nat} (h : Hole fs c n) :
    ∀ {t : ColorTree α}, RB t c n → RedBlack (plug t fs) := by
  induction h with
  | top => intro t ht; exact ⟨_, ht⟩
  | red hs _ ih => intro t ht; exact ih (ht.branch_red hs)
  | black hs _ ih => intro t ht; exact ih (ht.branch_black hs)

/-- Taking a red-black tree apart. -/
theorem RedBlack.focus {t : ColorTree α} {fs : List (Frame α)} (h : RedBlack (Lib.plug t fs)) :
    ∃ c n, RB t c n ∧ Hole fs c n := by
  induction fs generalizing t with
  | nil =>
    obtain ⟨n, hn⟩ := h
    exact ⟨.black, n, hn, .top⟩
  | cons f fs ih =>
    obtain ⟨d, c, a, u⟩ := f
    obtain ⟨c', n, ht, hole⟩ := ih h
    cases c with
    | red =>
      obtain ⟨rfl, ht, hu⟩ := ht.of_branch_red
      exact ⟨.black, n, ht, .red hu hole⟩
    | black =>
      obtain ⟨rfl, k, rfl, ht, hu⟩ := ht.of_branch_black
      exact ⟨_, k, ht, .black hu hole⟩

/-- The frame above a hole that is for red trees is black. -/
theorem Hole.of_red {fs : List (Frame α)} {n : Nat} (h : Hole fs .red n) :
    ∃ d a t gs c', fs = ⟨d, .black, a, t⟩ :: gs ∧ RB t c' n ∧ Hole gs .black (n + 1) := by
  cases h with
  | black ht hole => exact ⟨_, _, _, _, _, rfl, ht, hole⟩

theorem Hole.any {fs : List (Frame α)} {n : Nat} (h : Hole fs .red n) (c : Color) : Hole fs c n :=
    by
  cases h with
  | black ht hole => exact .black ht hole

theorem Hole.of_cons {d : Side} {c : Color} {a : α} {t : ColorTree α} {fs : List (Frame α)}
    {n : Nat} (h : Hole (⟨d, c, a, t⟩ :: fs) .black n) :
    RB t t.color n ∧ (c = .red → Hole fs .black n) ∧ (c = .black → Hole fs .black (n + 1)) := by
  cases h with
  | red ht hole => exact ⟨ht.color_eq ▸ ht, fun _ => hole.any .black, fun hc => by cases hc⟩
  | black ht hole => exact ⟨ht.color_eq ▸ ht, fun hc => (by cases hc), fun _ => hole⟩

theorem Hole.relabel {d : Side} {c c' : Color} {a b : α} {l : ColorTree α} {fs : List (Frame α)} :
    ∀ {gs : List (Frame α)} {n : Nat}, Hole (gs ++ ⟨d, c', a, l⟩ :: fs) c n →
      Hole (gs ++ ⟨d, c', b, l⟩ :: fs) c n := by
  intro gs
  induction gs generalizing c with
  | nil =>
    intro n h
    cases h with
    | red ht hole => exact .red ht hole
    | black ht hole => exact .black ht hole
  | cons g gs ih =>
    intro n h
    cases h with
    | red ht hole => exact .red ht (ih hole)
    | black ht hole => exact .black ht (ih hole)

end X86Kernel.Lib
