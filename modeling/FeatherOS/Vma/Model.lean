import FeatherOS.Kmalloc
import FeatherOS.Library.RedBlack
import FeatherOS.Library.SearchTree
import Mathlib.Logic.Function.Basic

/-
  The red-black tree of `kernel/mm/vma.c`, cell by cell.

  Nodes live at addresses handed out by `kmalloc`. A write
  through a pointer changes one field of one node. Following
  a NULL pointer has no result, so a function that returns
  `some` has followed none. The loops take a bound on their
  number of turns; a loop that is still running when the
  bound is used up has no result either.

  Key definitions include:
    * `Vma`
    * `VmaRbNode`
    * `VmaRbTree`
    * `vmaRbRotateLeft`
    * `vmaRbRotateRight`
    * `vmaRbInsertFixup`
    * `vmaRbInsert`
    * `VmaState`
    * `vmaCreate`
    * `vmaInsert`
-/

namespace FeatherOS

open LinkedTree

--------------------
-- Data
--------------------

/- vma_t; the list link `next` is written nowhere. -/
structure Vma where
  start : U64
  endAddr : U64
  offset : U64
  flags : U32
  id : U32
  refCount : U32
  inode : U64
  name : Option String
deriving DecidableEq, Repr

/- vma_rb_node_t -/
structure VmaRbNode where
  vma : Vma
  left : Option Addr
  right : Option Addr
  parent : Option Addr
  color : Color
deriving DecidableEq, Repr

/- sizeof(vma_rb_node_t) -/
def sizeofVmaRbNode : U64 := 96#64

/- sizeof(vma_t) -/
def sizeofVma : U64 := 64#64

/- The nodes in memory and the root of the tree. -/
structure VmaRbTree where
  nodes : Addr → VmaRbNode
  root : Option Addr

namespace VmaRbTree

/- The links of a node, with its colour and area as data. -/
def cell
    (m : VmaRbTree)
    (p : Addr) :
    Cell Addr (Color × Vma) where
  left := (m.nodes p).left
  right := (m.nodes p).right
  parent := (m.nodes p).parent
  data := ((m.nodes p).color, (m.nodes p).vma)

/- `p->left = v` -/
def setLeft
    (m : VmaRbTree)
    (p : Addr)
    (v : Option Addr) : VmaRbTree :=
  { m with
    nodes := Function.update m.nodes p
      { m.nodes p with left := v } }

/- `p->right = v` -/
def setRight
    (m : VmaRbTree)
    (p : Addr)
    (v : Option Addr) : VmaRbTree :=
  { m with
    nodes := Function.update m.nodes p
      { m.nodes p with right := v } }

/- `p->parent = v` -/
def setParent
    (m : VmaRbTree)
    (p : Addr)
    (v : Option Addr) : VmaRbTree :=
  { m with
    nodes := Function.update m.nodes p
      { m.nodes p with parent := v } }

/- `p->color = v` -/
def setColor
    (m : VmaRbTree)
    (p : Addr)
    (v : Color) : VmaRbTree :=
  { m with
    nodes := Function.update m.nodes p
      { m.nodes p with color := v } }

/- `if (p) p->parent = v` -/
def setParentIf
    (m : VmaRbTree)
    (p : Option Addr)
    (v : Option Addr) : VmaRbTree :=
  match p with
  | none => m
  | some p => m.setParent p v

/-
  `if (!q) *root = y; else if (x == q->left) q->left = y;
  else q->right = y;`
-/
def relinkLeft
    (m : VmaRbTree)
    (q : Option Addr)
    (x y : Addr) : VmaRbTree :=
  match q with
  | none => { m with root := some y }
  | some q =>
      if (m.nodes q).left = some x then
        m.setLeft q (some y)
      else
        m.setRight q (some y)

/-
  `if (!q) *root = y; else if (x == q->right) q->right = y;
  else q->left = y;`
-/
def relinkRight
    (m : VmaRbTree)
    (q : Option Addr)
    (x y : Addr) : VmaRbTree :=
  match q with
  | none => { m with root := some y }
  | some q =>
      if (m.nodes q).right = some x then
        m.setRight q (some y)
      else
        m.setLeft q (some y)

@[simp] theorem cell_setLeft
    (m : VmaRbTree)
    (p q : Addr)
    (v : Option Addr) :
    (m.setLeft p v).cell q =
      if q = p then { m.cell p with left := v }
      else m.cell q := by
  by_cases hq : q = p
  · subst hq
    simp [setLeft, cell]
  · simp [setLeft, cell, hq]

@[simp] theorem cell_setRight
    (m : VmaRbTree)
    (p q : Addr)
    (v : Option Addr) :
    (m.setRight p v).cell q =
      if q = p then { m.cell p with right := v }
      else m.cell q := by
  by_cases hq : q = p
  · subst hq
    simp [setRight, cell]
  · simp [setRight, cell, hq]

@[simp] theorem cell_setParent
    (m : VmaRbTree)
    (p q : Addr)
    (v : Option Addr) :
    (m.setParent p v).cell q =
      if q = p then { m.cell p with parent := v }
      else m.cell q := by
  by_cases hq : q = p
  · subst hq
    simp [setParent, cell]
  · simp [setParent, cell, hq]

@[simp] theorem cell_setColor
    (m : VmaRbTree)
    (p q : Addr)
    (v : Color) :
    (m.setColor p v).cell q =
      if q = p then
        { m.cell p with data := (v, (m.cell p).data.2) }
      else m.cell q := by
  by_cases hq : q = p
  · subst hq
    simp [setColor, cell]
  · simp [setColor, cell, hq]

@[simp] theorem cell_setParentIf
    (m : VmaRbTree)
    (p : Option Addr)
    (q : Addr)
    (v : Option Addr) :
    (m.setParentIf p v).cell q =
      if p = some q then { m.cell q with parent := v }
      else m.cell q := by
  cases p with
  | none => rfl
  | some p =>
      by_cases hq : q = p
      · subst hq
        simp [setParentIf]
      · simp [setParentIf, hq, Ne.symm hq]

@[simp] theorem cell_withRoot
    (m : VmaRbTree)
    (r : Option Addr) :
    ({ m with root := r } : VmaRbTree).cell = m.cell := rfl

@[simp] theorem root_setLeft
    (m : VmaRbTree)
    (p : Addr)
    (v : Option Addr) :
    (m.setLeft p v).root = m.root := rfl

@[simp] theorem root_setRight
    (m : VmaRbTree)
    (p : Addr)
    (v : Option Addr) :
    (m.setRight p v).root = m.root := rfl

@[simp] theorem root_setParent
    (m : VmaRbTree)
    (p : Addr)
    (v : Option Addr) :
    (m.setParent p v).root = m.root := rfl

@[simp] theorem root_setColor
    (m : VmaRbTree)
    (p : Addr)
    (v : Color) :
    (m.setColor p v).root = m.root := rfl

@[simp] theorem root_setParentIf
    (m : VmaRbTree)
    (p v : Option Addr) :
    (m.setParentIf p v).root = m.root := by
  cases p <;> rfl

end VmaRbTree

--------------------
-- Rotations
--------------------

def vmaRbRotateLeft
    (m : VmaRbTree)
    (x : Addr) : Option VmaRbTree := do
  let y ← (m.nodes x).right
  let m := m.setRight x (m.nodes y).left
  let m := m.setParentIf (m.nodes y).left (some x)
  let m := m.setParent y (m.nodes x).parent
  let m := m.relinkLeft (m.nodes x).parent x y
  let m := m.setLeft y (some x)
  some (m.setParent x (some y))

def vmaRbRotateRight
    (m : VmaRbTree)
    (x : Addr) : Option VmaRbTree := do
  let y ← (m.nodes x).left
  let m := m.setLeft x (m.nodes y).right
  let m := m.setParentIf (m.nodes y).right (some x)
  let m := m.setParent y (m.nodes x).parent
  let m := m.relinkRight (m.nodes x).parent x y
  let m := m.setRight y (some x)
  some (m.setParent x (some y))

--------------------
-- Insertion
--------------------

/- `uncle && uncle->color == RB_RED` -/
def VmaRbTree.isRed
    (m : VmaRbTree) :
    Option Addr → Bool
| none => false
| some p => (m.nodes p).color = .red

/- `(*root)->color = RB_BLACK` -/
def vmaRbBlackenRoot
    (m : VmaRbTree) : Option VmaRbTree := do
  let r ← m.root
  some (m.setColor r .black)

/-
  The recolouring done when parent and uncle are both red.
-/
def vmaRbRecolor
    (m : VmaRbTree)
    (parent gparent : Addr)
    (uncle : Option Addr) : Option VmaRbTree := do
  let u ← uncle
  let m := m.setColor u .black
  let m := m.setColor parent .black
  some (m.setColor gparent .red)

/-
  One turn of the fixup loop when the parent is red. The
  second component is the node the next turn looks at.
-/
def vmaRbFixupTurn
    (m : VmaRbTree)
    (node parent : Addr) :
    Option (VmaRbTree × Addr) := do
  let gparent ← (m.nodes parent).parent
  if (m.nodes gparent).left = some parent then
    let uncle := (m.nodes gparent).right
    if m.isRed uncle then
      let m ← vmaRbRecolor m parent gparent uncle
      some (m, gparent)
    else
      let inner := (m.nodes parent).right = some node
      let m ← if inner then vmaRbRotateLeft m parent
        else some m
      -- the rotation exchanges the roles of the two nodes
      let top := if inner then node else parent
      let low := if inner then parent else node
      let m := m.setColor top .black
      let m := m.setColor gparent .red
      let m ← vmaRbRotateRight m gparent
      some (m, low)
  else
    let uncle := (m.nodes gparent).left
    if m.isRed uncle then
      let m ← vmaRbRecolor m parent gparent uncle
      some (m, gparent)
    else
      let inner := (m.nodes parent).left = some node
      let m ← if inner then vmaRbRotateRight m parent
        else some m
      let top := if inner then node else parent
      let low := if inner then parent else node
      let m := m.setColor top .black
      let m := m.setColor gparent .red
      let m ← vmaRbRotateLeft m gparent
      some (m, low)

def vmaRbInsertFixup :
    Nat → VmaRbTree → Addr → Option VmaRbTree
| 0, _, _ => none
| fuel + 1, m, node =>
    match (m.nodes node).parent with
    | none => vmaRbBlackenRoot m
    | some parent =>
        if (m.nodes parent).color = .red then do
          let (m, node) ← vmaRbFixupTurn m node parent
          vmaRbInsertFixup fuel m node
        else
          vmaRbBlackenRoot m

/- Where the descent of `vma_rb_insert` ends. -/
inductive VmaSlot where
| duplicate : VmaSlot
| below (y : Option Addr) : VmaSlot
deriving DecidableEq, Repr

/- `while (x)`; `y` is the last node that was visited. -/
def vmaRbDescend
    (m : VmaRbTree)
    (start : U64) :
    Nat → Option Addr → Option Addr → Option VmaSlot
| 0, _, _ => none
| _ + 1, y, none => some (.below y)
| fuel + 1, _, some x =>
    if start < (m.nodes x).vma.start then
      vmaRbDescend m start fuel (some x) (m.nodes x).left
    else if (m.nodes x).vma.start < start then
      vmaRbDescend m start fuel (some x) (m.nodes x).right
    else
      some .duplicate

/- Linking the new red node in below `y`. -/
def vmaRbAttach
    (m : VmaRbTree)
    (node : Addr)
    (y : Option Addr) : VmaRbTree :=
  let m := m.setParent node y
  let m := m.setRight node none
  let m := m.setLeft node none
  let m := m.setColor node .red
  match y with
  | none => { m with root := some node }
  | some q =>
      if (m.nodes node).vma.start < (m.nodes q).vma.start then
        m.setLeft q (some node)
      else
        m.setRight q (some node)

def vmaRbInsert
    (fuel : Nat)
    (m : VmaRbTree)
    (node : Addr) : Option (Int × VmaRbTree) := do
  let start := (m.nodes node).vma.start
  let slot ← vmaRbDescend m start fuel none m.root
  match slot with
  | .duplicate => some (-1, m)
  | .below y =>
      let m ← vmaRbInsertFixup fuel (vmaRbAttach m node y) node
      some (0, m)

--------------------
-- The Manager
--------------------

/-
  The global `vma_tree`, the `num_vmas` field of the manager
  at each address, `vma_id_counter` and the kernel heap.
-/
structure VmaState where
  tree : VmaRbTree
  count : U32
  numVmas : Addr → U32
  idCounter : U32
  heap : Heap

/- The record `vma_create` fills in. -/
def vmaCreate
    (s : VmaState)
    (start endAddr : U64)
    (flags : U32)
    (name : Option String) : Option Vma × VmaState :=
  match kmalloc s.heap sizeofVma with
  | (none, heap) => (none, { s with heap := heap })
  | (some _, heap) =>
      let vma : Vma :=
        { start := start, endAddr := endAddr
          offset := 0, flags := flags
          id := s.idCounter, refCount := 1
          inode := 0, name := name }
      (some vma,
        { s with heap := heap, idCounter := s.idCounter + 1 })

/- The node as `vma_insert` prepares it. -/
def vmaNewNode (vma : Vma) : VmaRbNode where
  vma := vma
  left := none
  right := none
  parent := none
  color := .red

/-
  A NULL manager or area is refused before anything is
  allocated.
-/
def vmaInsert
    (fuel : Nat)
    (s : VmaState)
    (manager : Option Addr)
    (vma : Option Vma) : Option (Int × VmaState) :=
  match manager, vma with
  | none, _ => some (-1, s)
  | some _, none => some (-1, s)
  | some manager, some vma =>
      match kmalloc s.heap sizeofVmaRbNode with
      | (none, heap) => some (-1, { s with heap := heap })
      | (some node, heap) => do
          let m :=
            { s.tree with
              nodes := Function.update s.tree.nodes node
                (vmaNewNode vma) }
          let (r, m) ← vmaRbInsert fuel m node
          -- `kfree` does nothing
          if r ≠ 0 then
            some (-1, { s with tree := m, heap := heap })
          else
            some (0,
              { s with
                tree := m, heap := heap
                count := s.count + 1
                numVmas := Function.update s.numVmas manager
                  (s.numVmas manager + 1) })

end FeatherOS
