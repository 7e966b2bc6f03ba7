import X86Kernel.Core
import X86Kernel.Lib.ColorTree

/- The red-black tree (`kernel/utils/data_structs/rb_tree.c`), at the level of
   its pointers: a node has two child pointers and one word that holds the
   parent's address and, in its lowest bit, the colour.

   This module is the model. The mirrored functions of the source are one
   function with a `Side`; `rb_rotate_left` is `rotate .left`. The comparator
   and the augment callback are parameters, `data` is what the callback keeps in
   each node. A loop over nodes that takes more than 2^32 turns has come to some
   node twice and does not end.

   Correspondence (C ↔ Lean):
     `is_red`, `set_red`, `set_black`     ↔ `isRed`, `setRed`, `setBlack`
     `get_parent`, `set_parent`           ↔ `getParent`, `setParent`
     `set_color_to_other`                 ↔ `setColorToOther`
     `get_sibling`, `get_uncle`           ↔ `getSibling`, `getUncle`
     `rb_rotate_left`, `rb_rotate_right`  ↔ `rotate`
     `rb_find_node_link`                  ↔ `rbFindNodeLink`
     `rb_handle_insert_fixup_rotation`    ↔ `rbHandleInsertFixupRotation`
     `rb_insert_fixup`                    ↔ `rbInsertFixup`
     `rb_find_successor`                  ↔ `rbFindSuccessor`
     `rb_transplant`                      ↔ `rbTransplant`
     `rb_delete_configure_nuclear_node`   ↔ `rbDeleteConfigureNuclearNode`
                                            (`rbDetachSuccessor`, `rbReplaceBySuccessor`)
     `rb_delete_fixup_sibling_red`        ↔ `rbDeleteFixupSiblingRed`
     `rb_delete_fixup_sibling_black_child_red` ↔ `rbDeleteFixupSiblingBlackChildRed`
                                            (`rbDeleteFixupZigzag`)
     `rb_delete_fixup`                    ↔ `rbDeleteFixup`
     `rb_configure_delete`                ↔ `rbConfigureDelete`
     `rb_augment_from`                    ↔ `rbAugmentFrom`
     `rb_init_tree`                       ↔ `rbInitTree`
     `rb_insert`                          ↔ `rbInsert`
     `rb_remove_key`, `rb_remove_node`    ↔ `rbRemoveKey`, `rbRemoveNode`
     `rb_search`                          ↔ `rbSearch`
     `rb_get_min`, `rb_min`, `rb_next`    ↔ `rbGetMin`, `rbMin`, `rbNext`
     `rb_get_max`, `rb_max`, `rb_prev`    ↔ `rbGetMax`, `rbMax`, `rbPrev`
     `rb_for_each`                        ↔ `rbForEach` (backwards: `rbForEachBack`)
     `rb_free_tree`                       ↔ `rbFreeTree`
     `rb_lower_bound`, `rb_upper_bound`   ↔ `rbLowerBound`, `rbUpperBound` -/
namespace X86Kernel.Rb
open X86Kernel.Lib

/-- `rb_node_t`. -/
structure RbNode where
  parentColor : Ptr
  left : Ptr
  right : Ptr
  deriving DecidableEq

namespace RbNode

def child (n : RbNode) : Side → Ptr
  | .left => n.left
  | .right => n.right

def setChild (n : RbNode) (d : Side) (p : Ptr) : RbNode :=
  match d with
  | .left => { n with left := p }
  | .right => { n with right := p }

/-- The address in `parent_color`. -/
def parent (n : RbNode) : Ptr := n.parentColor &&& ~~~3#32

def red (n : RbNode) : Bool := n.parentColor &&& 1#32 != 0#32

def setRed (n : RbNode) : RbNode := { n with parentColor := n.parentColor ||| 1#32 }

def setBlack (n : RbNode) : RbNode := { n with parentColor := n.parentColor &&& ~~~1#32 }

def setParent (n : RbNode) (p : Ptr) : RbNode :=
  { n with parentColor := (n.parentColor &&& 3#32) ||| p }

def setColorToOther (n other : RbNode) : RbNode :=
  { n with parentColor := n.parent ||| (other.parentColor &&& 1#32) }

end RbNode

/-- `rb_tree_t`, with the memory its nodes are in and what `augment` keeps there. -/
structure RbTree (δ : Type) where
  root : Ptr
  mem : Ptr → RbNode
  data : Ptr → δ

/-- The two callbacks of the tree: `cmp` on nodes, and `augment`, which
computes what it keeps in a node from the nodes and what it kept in them. -/
structure Callbacks (δ : Type) where
  cmp : Ptr → Ptr → Int
  augment : (Ptr → RbNode) → (Ptr → δ) → Ptr → δ

variable {δ : Type}

/-- The bound on the turns of a loop over nodes. -/
def loopLimit : Nat := 2 ^ 32

/-! ## Nodes in memory -/

def load (t : RbTree δ) (p : Ptr) : Kernel RbNode :=
  if p = 0#32 then .error .nullDeref else .ok (t.mem p)

/-- The tree with the node at `p` replaced. -/
def RbTree.set (t : RbTree δ) (p : Ptr) (n : RbNode) : RbTree δ :=
  { t with mem := fun q => if q = p then n else t.mem q }

def modify (t : RbTree δ) (p : Ptr) (f : RbNode → RbNode) : Kernel (RbTree δ) :=
  if p = 0#32 then .error .nullDeref else .ok (t.set p (f (t.mem p)))

/-- `is_red`; NULL is black. -/
def isRed (t : RbTree δ) (p : Ptr) : Bool := if p = 0#32 then false else (t.mem p).red

def setRed (t : RbTree δ) (p : Ptr) : Kernel (RbTree δ) := modify t p RbNode.setRed

def setBlack (t : RbTree δ) (p : Ptr) : Kernel (RbTree δ) := modify t p RbNode.setBlack

def getParent (t : RbTree δ) (p : Ptr) : Kernel Ptr := do
  let n ← load t p
  return n.parent

def setParent (t : RbTree δ) (p q : Ptr) : Kernel (RbTree δ) := modify t p fun n => n.setParent q

def setColorToOther (t : RbTree δ) (p q : Ptr) : Kernel (RbTree δ) := do
  let other ← load t q
  modify t p fun n => n.setColorToOther other

def getChild (t : RbTree δ) (p : Ptr) (d : Side) : Kernel Ptr := do
  let n ← load t p
  return n.child d

def setChild (t : RbTree δ) (p : Ptr) (d : Side) (q : Ptr) : Kernel (RbTree δ) :=
  modify t p fun n => n.setChild d q

def getSibling (t : RbTree δ) (p : Ptr) : Kernel Ptr := do
  let parent ← getParent t p
  if parent = 0#32 then return 0#32
  let n ← load t parent
  return if n.left = p then n.right else n.left

def getUncle (t : RbTree δ) (p : Ptr) : Kernel Ptr := do
  let parent ← getParent t p
  if parent = 0#32 then return 0#32
  getSibling t parent

/-- `if (p) set_parent(p, q)`. -/
def setParentOf (t : RbTree δ) (p q : Ptr) : Kernel (RbTree δ) :=
  if p = 0#32 then .ok t else setParent t p q

/-- `if (p) set_black(p)`. -/
def setBlackOf (t : RbTree δ) (p : Ptr) : Kernel (RbTree δ) :=
  if p = 0#32 then .ok t else setBlack t p

/-! ## Rotations and links -/

/-- The link to `old` in its parent `g`, or the root, is set to `new`. -/
def rotateRelink (t : RbTree δ) (g old new : Ptr) : Kernel (RbTree δ) :=
  if g = 0#32 then .ok { t with root := new }
  else if (t.mem g).left = old then setChild t g .left new
  else if (t.mem g).right = old then setChild t g .right new
  else .ok t

/-- `rb_rotate_left` and `rb_rotate_right`: the child on the other side of
`parent` comes up. -/
def rotate (d : Side) (t : RbTree δ) (parent : Ptr) : Kernel (RbTree δ) := do
  let up ← getChild t parent d.flip
  let pivot ← getChild t up d
  let t ← setChild t parent d.flip pivot
  let t ← setParentOf t pivot parent
  let gparent ← getParent t parent
  let t ← setParent t up gparent
  let t ← rotateRelink t gparent parent up
  let t ← setChild t up d parent
  setParent t parent up

/-- A `rb_node_t**`: the root pointer or a child pointer of a node. -/
inductive Link where
  | root
  | child (p : Ptr) (d : Side)
  deriving DecidableEq

def RbTree.deref (t : RbTree δ) : Link → Ptr
  | .root => t.root
  | .child p d => (t.mem p).child d

def RbTree.assign (t : RbTree δ) (link : Link) (p : Ptr) : RbTree δ :=
  match link with
  | .root => { t with root := p }
  | .child q d => t.set q ((t.mem q).setChild d p)

/-- The descent of `rb_find_node_link`. -/
def rbFindNodeLinkLoop (cmp : Ptr → Ptr → Int) (t : RbTree δ) (data : Ptr) :
    Nat → Link → Ptr → Kernel (Link × Ptr)
  | 0, _, _ => .error .diverges
  | fuel + 1, link, linkParent =>
    let cur := t.deref link
    if cur = 0#32 then .ok (link, linkParent)
    else if cmp cur data > 0 then
      rbFindNodeLinkLoop cmp t data fuel (.child cur .left) cur
    else if cmp cur data < 0 then
      rbFindNodeLinkLoop cmp t data fuel (.child cur .right) cur
    else .ok (link, cur)

/-- The link where `data` is or would be, and the node it is in. -/
def rbFindNodeLink (cmp : Ptr → Ptr → Int) (t : RbTree δ) (data : Ptr) : Kernel (Link × Ptr) :=
  rbFindNodeLinkLoop cmp t data loopLimit .root 0#32

/-! ## Insertion -/

/-- `rb_handle_insert_fixup_rotation`; the flags are the sides of the parent
and of the node. -/
def rbHandleInsertFixupRotation (t : RbTree δ) (gparent parent : Ptr) (parentSide nodeSide : Side) :
    Kernel (RbTree δ) := do
  let t ← if parentSide ≠ nodeSide then rotate parentSide t parent else pure t
  let t ← rotate parentSide.flip t gparent
  let newTop ← getParent t gparent
  let t ← setBlack t newTop
  setRed t gparent

/-- Which child of `parent` is `p`, by the test the source makes. -/
def childSide (t : RbTree δ) (parent p : Ptr) : Kernel Side := do
  let n ← load t parent
  return if n.left = p then .left else .right

def rbInsertFixupLoop : Nat → RbTree δ → Ptr → Kernel (RbTree δ)
  | 0, _, _ => .error .diverges
  | fuel + 1, t, node => do
    let parent ← getParent t node
    if parent = 0#32 then setBlack t t.root
    else if !isRed t parent then return t
    else
      let gparent ← getParent t parent
      if gparent = 0#32 then return t
      else
        let uncle ← getUncle t node
        if isRed t uncle then
          let t ← setBlack t uncle
          let t ← setBlack t parent
          let t ← setRed t gparent
          let t ← rbInsertFixupLoop fuel t gparent
          setBlack t t.root
        else
          let parentSide ← childSide t gparent parent
          let nodeSide ← childSide t parent node
          let t ← rbHandleInsertFixupRotation t gparent parent parentSide nodeSide
          setBlack t t.root

def rbInsertFixup (t : RbTree δ) (node : Ptr) : Kernel (RbTree δ) :=
  rbInsertFixupLoop loopLimit t node

/-! ## Deletion -/

/-- The descent of `rb_find_successor` and of `rb_get_min`. -/
def rbGetMinLoop (t : RbTree δ) : Nat → Ptr → Kernel Ptr
  | 0, _ => .error .diverges
  | fuel + 1, p =>
    if (t.mem p).left = 0#32 then .ok p else rbGetMinLoop t fuel (t.mem p).left

def rbGetMin (t : RbTree δ) (p : Ptr) : Kernel Ptr :=
  if p = 0#32 then .ok 0#32 else rbGetMinLoop t loopLimit p

def rbFindSuccessor (t : RbTree δ) (p : Ptr) : Kernel Ptr := do
  let right ← getChild t p .right
  rbGetMin t right

/-- The link from `parent`, or the root, to `oldNode` is set to `newNode`. -/
def transplantRelink (t : RbTree δ) (parent oldNode newNode : Ptr) : Kernel (RbTree δ) :=
  if parent = 0#32 then .ok { t with root := newNode }
  else if oldNode = (t.mem parent).left then setChild t parent .left newNode
  else setChild t parent .right newNode

def rbTransplant (t : RbTree δ) (oldNode newNode : Ptr) : Kernel (RbTree δ) := do
  let parent ← getParent t oldNode
  let t ← transplantRelink t parent oldNode newNode
  setParentOf t newNode parent

/-- What `rb_configure_delete` leaves: the tree, whether a black node is gone
from its place, and the node to fix with its parent. -/
structure Spliced (δ : Type) where
  tree : RbTree δ
  deleteWasBlack : Bool
  nodeToFix : Ptr
  nodeToFixParent : Ptr

/-- The first part of `rb_delete_configure_nuclear_node`: a successor that is
not the child of the node is taken out and gets the node's right subtree. Also
the parent of the node to fix. -/
def rbDetachSuccessor (t : RbTree δ) (deleteNode successor nodeToFix : Ptr) :
    Kernel (RbTree δ × Ptr) := do
  let successorParent ← getParent t successor
  if successorParent = deleteNode then return (t, successor)
  else
    let t ← rbTransplant t successor nodeToFix
    let right ← getChild t deleteNode .right
    let t ← setChild t successor .right right
    let t ← setParentOf t right successor
    return (t, successorParent)

/-- The second part: the successor takes the place, the colour and the left
subtree of the node. -/
def rbReplaceBySuccessor (t : RbTree δ) (deleteNode successor : Ptr) : Kernel (RbTree δ) := do
  let t ← rbTransplant t deleteNode successor
  let t ← setColorToOther t successor deleteNode
  let left ← getChild t deleteNode .left
  let t ← setChild t successor .left left
  let t ← setParentOf t left successor
  setColorToOther t deleteNode successor

def rbDeleteConfigureNuclearNode (t : RbTree δ) (deleteNode : Ptr) : Kernel (Spliced δ) := do
  let successor ← rbFindSuccessor t deleteNode
  let deleteWasBlack := !isRed t successor
  let nodeToFix ← getChild t successor .right
  let (t, nodeToFixParent) ← rbDetachSuccessor t deleteNode successor nodeToFix
  let t ← rbReplaceBySuccessor t deleteNode successor
  return { tree := t, deleteWasBlack, nodeToFix, nodeToFixParent }

def rbConfigureDelete (t : RbTree δ) (deleteNode : Ptr) : Kernel (Spliced δ) := do
  let n ← load t deleteNode
  if n.left = 0#32 then
    let tree ← rbTransplant t deleteNode n.right
    return { tree, deleteWasBlack := !isRed t deleteNode, nodeToFix := n.right,
             nodeToFixParent := n.parent }
  else if n.right = 0#32 then
    let tree ← rbTransplant t deleteNode n.left
    return { tree, deleteWasBlack := !isRed t deleteNode, nodeToFix := n.left,
             nodeToFixParent := n.parent }
  else rbDeleteConfigureNuclearNode t deleteNode

/-- `d` is the side of the node to fix. -/
def rbDeleteFixupSiblingRed (t : RbTree δ) (parent sibling : Ptr) (d : Side) :
    Kernel (RbTree δ) := do
  let t ← setBlack t sibling
  let t ← setRed t parent
  rotate d t parent

/-- The zigzag case of `rb_delete_fixup_sibling_black_child_red`, and the
sibling after it. -/
def rbDeleteFixupZigzag (t : RbTree δ) (parent sibling : Ptr) (d : Side) :
    Kernel (RbTree δ × Ptr) := do
  let inner ← getChild t sibling d
  if isRed t inner then
    let t ← setBlackOf t inner
    let t ← setRed t sibling
    let t ← rotate d.flip t sibling
    let sibling ← getChild t parent d.flip
    return (t, sibling)
  else return (t, sibling)

/-- The parent is set black, but the sibling, which takes the parent's place,
does not get the parent's old colour. -/
def rbDeleteFixupSiblingBlackChildRed (t : RbTree δ) (parent sibling : Ptr) (d : Side) :
    Kernel (RbTree δ) := do
  let (t, sibling) ← rbDeleteFixupZigzag t parent sibling d
  let t ← setBlack t parent
  let outer ← getChild t sibling d.flip
  let t ← setBlackOf t outer
  rotate d t parent

/-- The sibling once it is black: a red one is rotated away first. -/
def rbDeleteFixupSibling (t : RbTree δ) (parent : Ptr) (d : Side) : Kernel (RbTree δ × Ptr) := do
  let sibling ← getChild t parent d.flip
  if isRed t sibling then
    let t ← rbDeleteFixupSiblingRed t parent sibling d
    let sibling ← getChild t parent d.flip
    return (t, sibling)
  else return (t, sibling)

def rbDeleteFixupLoop : Nat → RbTree δ → Ptr → Ptr → Kernel (RbTree δ)
  | 0, _, _, _ => .error .diverges
  | fuel + 1, t, nodeToFix, nodeToFixParent =>
    if nodeToFix = t.root || isRed t nodeToFix then setBlackOf t nodeToFix
    else do
      let d ← childSide t nodeToFixParent nodeToFix
      let (t, sibling) ← rbDeleteFixupSibling t nodeToFixParent d
      let left ← getChild t sibling .left
      let right ← getChild t sibling .right
      if !isRed t left && !isRed t right then
        let t ← setRed t sibling
        let next ← getParent t nodeToFixParent
        rbDeleteFixupLoop fuel t nodeToFixParent next
      else
        let t ← rbDeleteFixupSiblingBlackChildRed t nodeToFixParent sibling d
        setBlackOf t t.root

def rbDeleteFixup (t : RbTree δ) (nodeToFix nodeToFixParent : Ptr) : Kernel (RbTree δ) :=
  rbDeleteFixupLoop loopLimit t nodeToFix nodeToFixParent

/-! ## The operations -/

def rbAugmentFromLoop (augment : (Ptr → RbNode) → (Ptr → δ) → Ptr → δ) :
    Nat → RbTree δ → Ptr → Kernel (RbTree δ)
  | 0, _, _ => .error .diverges
  | fuel + 1, t, node =>
    if node = 0#32 then .ok t
    else
      let t := { t with data := fun p => if p = node then augment t.mem t.data node else t.data p }
      if t.root = node then .ok t
      else rbAugmentFromLoop augment fuel t (t.mem node).parent

def rbAugmentFrom (augment : (Ptr → RbNode) → (Ptr → δ) → Ptr → δ) (t : RbTree δ) (node : Ptr) :
    Kernel (RbTree δ) := rbAugmentFromLoop augment loopLimit t node

def rbInitTree (t : RbTree δ) : RbTree δ := { t with root := 0#32 }

/-- `rb_insert`: the tree and the node, or NULL when an equal node is there. -/
def rbInsert (cb : Callbacks δ) (t : RbTree δ) (node : Ptr) : Kernel (RbTree δ × Ptr) := do
  let (link, parent) ← rbFindNodeLink cb.cmp t node
  if t.deref link ≠ 0#32 then return (t, 0#32)
  else
    let t ← setChild t node .right 0#32
    let t ← setChild t node .left 0#32
    let t ← setRed t node
    let t := t.assign link node
    let t ← setParent t node parent
    let t ← rbInsertFixup t node
    let t ← rbAugmentFrom cb.augment t (t.deref link)
    return (t, node)

/-- The fixup in the two removals: only where a black node is gone. -/
def rbFixSpliced (s : Spliced δ) : Kernel (RbTree δ) :=
  if s.deleteWasBlack then rbDeleteFixup s.tree s.nodeToFix s.nodeToFixParent else .ok s.tree

/-- The augment callback in the two removals. -/
def rbAugmentSpliced (cb : Callbacks δ) (t : RbTree δ) (nodeToFix nodeToFixParent : Ptr) :
    Kernel (RbTree δ) :=
  if nodeToFix ≠ 0#32 then rbAugmentFrom cb.augment t nodeToFix
  else if nodeToFixParent ≠ 0#32 then rbAugmentFrom cb.augment t nodeToFixParent
  else .ok t

/-- The common end of the two removals. -/
def rbRemove (cb : Callbacks δ) (t : RbTree δ) (deleteNode : Ptr) : Kernel (RbTree δ × Ptr) := do
  let s ← rbConfigureDelete t deleteNode
  let t ← rbFixSpliced s
  let t ← rbAugmentSpliced cb t s.nodeToFix s.nodeToFixParent
  return (t, deleteNode)

def rbRemoveKey (cb : Callbacks δ) (t : RbTree δ) (key : Ptr) : Kernel (RbTree δ × Ptr) := do
  let (link, _) ← rbFindNodeLink cb.cmp t key
  if t.deref link = 0#32 then return (t, 0#32)
  else rbRemove cb t (t.deref link)

def rbRemoveNode (cb : Callbacks δ) (t : RbTree δ) (deleteNode : Ptr) :
    Kernel (RbTree δ × Ptr) :=
  if deleteNode = 0#32 then .ok (t, 0#32) else rbRemove cb t deleteNode

/-- `rb_search`: the node that compares equal to the key, or NULL. -/
def rbSearch (cmp : Ptr → Ptr → Int) (t : RbTree δ) (key : Ptr) : Kernel Ptr := do
  let (link, _) ← rbFindNodeLink cmp t key
  return t.deref link

def rbMin (t : RbTree δ) : Kernel Ptr := rbGetMin t t.root

/-- The climb of `rb_next`. -/
def rbNextLoop (t : RbTree δ) : Nat → Ptr → Kernel Ptr
  | 0, _ => .error .diverges
  | fuel + 1, p =>
    let parent := (t.mem p).parent
    if parent = 0#32 then .ok 0#32
    else if (t.mem parent).left = p then .ok parent
    else rbNextLoop t fuel parent

def rbNext (t : RbTree δ) (p : Ptr) : Kernel Ptr := do
  let right ← getChild t p .right
  if right ≠ 0#32 then rbGetMin t right else rbNextLoop t loopLimit p

/-- The descent of `rb_get_max`. -/
def rbGetMaxLoop (t : RbTree δ) : Nat → Ptr → Kernel Ptr
  | 0, _ => .error .diverges
  | fuel + 1, p =>
    if (t.mem p).right = 0#32 then .ok p else rbGetMaxLoop t fuel (t.mem p).right

def rbGetMax (t : RbTree δ) (p : Ptr) : Kernel Ptr :=
  if p = 0#32 then .ok 0#32 else rbGetMaxLoop t loopLimit p

def rbMax (t : RbTree δ) : Kernel Ptr := rbGetMax t t.root

/-- The climb of `rb_prev`. -/
def rbPrevLoop (t : RbTree δ) : Nat → Ptr → Kernel Ptr
  | 0, _ => .error .diverges
  | fuel + 1, p =>
    let parent := (t.mem p).parent
    if parent = 0#32 then .ok 0#32
    else if (t.mem parent).right = p then .ok parent
    else rbPrevLoop t fuel parent

def rbPrev (t : RbTree δ) (p : Ptr) : Kernel Ptr := do
  let left ← getChild t p .left
  if left ≠ 0#32 then rbGetMax t left else rbPrevLoop t loopLimit p

/-- The nodes from `node` on, up to NULL. -/
def visitLoop (next : Ptr → Kernel Ptr) : Nat → Ptr → Kernel (List Ptr)
  | 0, _ => .error .diverges
  | fuel + 1, node =>
    if node = 0#32 then .ok []
    else do
      let following ← next node
      let rest ← visitLoop next fuel following
      return node :: rest

/-- The nodes that the body of `rb_for_each` is run on. -/
def rbForEach (t : RbTree δ) : Kernel (List Ptr) := do
  let node ← rbMin t
  visitLoop (rbNext t) loopLimit node

/-- The same loop with `rb_max` and `rb_prev`. -/
def rbForEachBack (t : RbTree δ) : Kernel (List Ptr) := do
  let node ← rbMax t
  visitLoop (rbPrev t) loopLimit node

/-- The loop of `rb_free_tree`; `freed` lists the nodes given to the callback, and
reading one of them is a fault. A turn goes down or frees a node, so that a loop of
more than 2 * 2^32 turns does not end. -/
def rbFreeTreeLoop (t : RbTree δ) : Nat → Ptr → Ptr → List Ptr → Kernel (List Ptr)
  | 0, _, _, _ => .error .diverges
  | fuel + 1, node, last, freed =>
    if node = 0#32 then .ok freed
    else if node ∈ freed then .error .outOfBounds
    else
      let n := t.mem node
      if n.left ≠ 0#32 ∧ last ≠ n.left ∧ last ≠ n.right then
        rbFreeTreeLoop t fuel n.left last freed
      else if n.right ≠ 0#32 ∧ last ≠ n.right then rbFreeTreeLoop t fuel n.right last freed
      else rbFreeTreeLoop t fuel n.parent node (freed ++ [node])

/-- `rb_free_tree`: the tree, and the nodes given to the callback in order. -/
def rbFreeTree (t : RbTree δ) : Kernel (RbTree δ × List Ptr) := do
  let freed ← rbFreeTreeLoop t (2 * loopLimit) t.root 0#32 []
  return ({ t with root := 0#32 }, freed)

def rbLowerBoundLoop (cmp : Ptr → Ptr → Int) (t : RbTree δ) (key : Ptr) :
    Nat → Ptr → Ptr → Kernel Ptr
  | 0, _, _ => .error .diverges
  | fuel + 1, node, result =>
    if node = 0#32 then .ok result
    else if cmp key node ≤ 0 then rbLowerBoundLoop cmp t key fuel (t.mem node).left node
    else rbLowerBoundLoop cmp t key fuel (t.mem node).right result

def rbLowerBound (cmp : Ptr → Ptr → Int) (t : RbTree δ) (key : Ptr) : Kernel Ptr :=
  rbLowerBoundLoop cmp t key loopLimit t.root 0#32

def rbUpperBoundLoop (cmp : Ptr → Ptr → Int) (t : RbTree δ) (key : Ptr) :
    Nat → Ptr → Ptr → Kernel Ptr
  | 0, _, _ => .error .diverges
  | fuel + 1, node, result =>
    if node = 0#32 then .ok result
    else if cmp key node ≥ 0 then rbUpperBoundLoop cmp t key fuel (t.mem node).right node
    else rbUpperBoundLoop cmp t key fuel (t.mem node).left result

def rbUpperBound (cmp : Ptr → Ptr → Int) (t : RbTree δ) (key : Ptr) : Kernel Ptr :=
  rbUpperBoundLoop cmp t key loopLimit t.root 0#32

end X86Kernel.Rb
