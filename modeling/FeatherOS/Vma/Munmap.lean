import FeatherOS.Vma.Mmap

/-
  `vma_munmap` of `kernel/mm/vma.c`.

  The call looks for the area at the start of the range and
  takes areas out of the tree one after the other. Every loop
  takes a bound on its turns.

  Key definitions include:
    * `vmaRbFind`
    * `vmaRbMin`
    * `vmaRbErase`
    * `vmaRbNext`
    * `munmapTurn`
    * `vmaMunmap`
-/

namespace FeatherOS

open LinkedTree

--------------------
-- Searching
--------------------

/- `addr >= vma.start && addr < vma.end` -/
def Vma.covers
    (v : Vma)
    (addr : U64) : Bool :=
  decide (v.start ≤ addr ∧ addr < v.endAddr)

/- `while (node)`; `found` is the last match so far. -/
def vmaRbFind
    (m : VmaRbTree)
    (addr : U64) :
    Nat → Option Addr → Option Addr → Option (Option Addr)
  | 0, _, _ => none
  | _ + 1, found, none => some found
  | fuel + 1, found, some node =>
      if (m.nodes node).vma.covers addr then
        vmaRbFind m addr fuel (some node) (m.nodes node).left
      else if addr < (m.nodes node).vma.start then
        vmaRbFind m addr fuel found (m.nodes node).left
      else
        vmaRbFind m addr fuel found (m.nodes node).right

/- `while (node->left) node = node->left;` -/
def vmaRbMin
    (m : VmaRbTree) :
    Nat → Addr → Option Addr
  | 0, _ => none
  | fuel + 1, node =>
      match (m.nodes node).left with
      | none => some node
      | some left => vmaRbMin m fuel left

--------------------
-- Erasing
--------------------

namespace VmaRbTree

/- `if (p) p->color = v` -/
def setColorIf
    (m : VmaRbTree)
    (p : Option Addr)
    (v : Color) : VmaRbTree :=
  match p with
  | none => m
  | some p => m.setColor p v

/-
  `if (!q) *root = child; else if (q->left == node)
  q->left = child; else q->right = child;`
-/
def relinkChild
    (m : VmaRbTree)
    (q : Option Addr)
    (node : Addr)
    (child : Option Addr) : VmaRbTree :=
  match q with
  | none => { m with root := child }
  | some q =>
      if (m.nodes q).left = some node then
        m.setLeft q child
      else
        m.setRight q child

/- `if (q && q->left == node) q->left = child;` -/
def replaceLeft
    (m : VmaRbTree)
    (q : Option Addr)
    (node : Addr)
    (child : Option Addr) : VmaRbTree :=
  match q with
  | none => m
  | some q =>
      if (m.nodes q).left = some node then
        m.setLeft q child
      else
        m

/- `if (q && q->right == node) q->right = child;` -/
def replaceRight
    (m : VmaRbTree)
    (q : Option Addr)
    (node : Addr)
    (child : Option Addr) : VmaRbTree :=
  match q with
  | none => m
  | some q =>
      if (m.nodes q).right = some node then
        m.setRight q child
      else
        m

end VmaRbTree

/- The first branch: the node has at most one child. -/
def vmaRbSplice
    (m : VmaRbTree)
    (node : Addr) : VmaRbTree :=
  let child :=
    if (m.nodes node).left.isSome then
      (m.nodes node).left
    else
      (m.nodes node).right
  let parent := (m.nodes node).parent
  let m := m.setParentIf child parent
  let m := m.relinkChild parent node child
  m.setColorIf child .black

/-
  The second branch, where `node` is the leftmost node of the
  right subtree of `old`. First `node` is put below the
  parent of `old` and its child takes its place.
-/
def vmaRbUnhook
    (m : VmaRbTree)
    (old node : Addr) : VmaRbTree :=
  let child := (m.nodes node).right
  let parent := (m.nodes node).parent
  let m := m.relinkChild (m.nodes old).parent old (some node)
  let parent :=
    if (m.nodes node).parent = some old then
      some node
    else
      parent
  let m := m.setParentIf child parent
  let m := m.replaceLeft parent node child
  m.replaceRight parent node child

/-
  Then `node` takes over the links of `old`. The last two
  tests find that `old` hangs nowhere any more.
-/
def vmaRbInstall
    (m : VmaRbTree)
    (old node : Addr) : VmaRbTree :=
  let m := m.setParent node (m.nodes old).parent
  let m := m.setLeft node (m.nodes old).left
  let m := m.setRight node (m.nodes old).right
  let m := m.setColor node (m.nodes old).color
  let m := m.setParentIf (m.nodes old).left (some node)
  let m := m.setParentIf (m.nodes old).right (some node)
  let m := m.replaceLeft (m.nodes old).parent old (some node)
  m.replaceRight (m.nodes old).parent old (some node)

def vmaRbTakeOver
    (m : VmaRbTree)
    (old node : Addr) : VmaRbTree :=
  vmaRbInstall (vmaRbUnhook m old node) old node

def vmaRbErase
    (fuel : Nat)
    (m : VmaRbTree)
    (node : Addr) : Option VmaRbTree :=
  match (m.nodes node).left, (m.nodes node).right with
  | some _, some right => do
      let next ← vmaRbMin m fuel right
      some (vmaRbTakeOver m node next)
  | _, _ => some (vmaRbSplice m node)

--------------------
-- The Call
--------------------

/- `while (p && node == p->right)`; `node` is changed. -/
def vmaRbClimb
    (m : VmaRbTree) :
    Nat → Addr → Option Addr → Option (Addr × Option Addr)
  | 0, _, _ => none
  | _ + 1, node, none => some (node, none)
  | fuel + 1, node, some p =>
      if (m.nodes p).right = some node then
        vmaRbClimb m fuel p (m.nodes p).parent
      else
        some (node, some p)

/-
  What `node` and `next` are after the search for the
  in-order successor.
-/
def vmaRbNext
    (fuel : Nat)
    (m : VmaRbTree)
    (node : Addr) : Option (Addr × Option Addr) :=
  match (m.nodes node).right with
  | some right => do
      let next ← vmaRbMin m fuel right
      some (node, some next)
  | none => vmaRbClimb m fuel node (m.nodes node).parent

/- `for (a = vma_start; a < vma_end; a += PAGE_SIZE)` -/
def unmapPages
    (stop : U64) :
    Nat → PageTables → U64 → Option PageTables
  | 0, _, _ => none
  | fuel + 1, t, a =>
      if a < stop then
        unmapPages stop fuel (pagingUnmapPage t a).2
          (a + pageSize)
      else
        some t

/-
  One turn of the loop, at a node that starts before the end
  of the range. The manager is read without a check.
-/
def munmapTurn
    (fuel : Nat)
    (s : MmapState)
    (manager : Option Addr)
    (start stop : U64)
    (node : Addr) : Option (MmapState × Option Addr) := do
  let v := (s.vma.tree.nodes node).vma
  let vmaStart := if v.start < start then start else v.start
  let vmaEnd := if stop < v.endAddr then stop else v.endAddr
  let tables ← unmapPages vmaEnd fuel s.tables vmaStart
  let (node, next) ← vmaRbNext fuel s.vma.tree node
  let tree ← vmaRbErase fuel s.vma.tree node
  let manager ← manager
  -- `kfree` does nothing
  let vma :=
    { s.vma with
      tree := tree
      count := s.vma.count - 1
      numVmas := Function.update s.vma.numVmas manager
        (s.vma.numVmas manager - 1) }
  let next ←
    match next with
    | none => some none
    | some next => vmaRbFind tree start fuel none (some next)
  some ({ s with vma := vma, tables := tables }, next)

/- The loop, with the number of areas taken out so far. -/
def munmapLoop
    (fuel : Nat)
    (manager : Option Addr)
    (start stop : U64) :
    Nat → MmapState → Int → Option Addr →
      Option (Int × MmapState)
  | 0, _, _, _ => none
  | _ + 1, s, count, none => some (count, s)
  | turns + 1, s, count, some node =>
      if (s.vma.tree.nodes node).vma.start < stop then do
        let (s, next) ← munmapTurn fuel s manager start stop node
        munmapLoop fuel manager start stop turns s (count + 1)
          next
      else
        some (count, s)

/- `addr & ~(PAGE_SIZE - 1)` -/
def munmapStart (addr : U64) : U64 :=
  addr &&& ~~~(pageSize - 1#64)

/- `(addr + length + PAGE_SIZE - 1) & ~(PAGE_SIZE - 1)` -/
def munmapStop (addr length : U64) : U64 :=
  (addr + length + pageSize - 1#64) &&& ~~~(pageSize - 1#64)

def vmaMunmap
    (fuel : Nat)
    (s : MmapState)
    (manager : Option Addr)
    (addr length : U64) :
    Option (Int × MmapState) := do
  let start := munmapStart addr
  let node ←
    vmaRbFind s.vma.tree start fuel none s.vma.tree.root
  munmapLoop fuel manager start (munmapStop addr length) fuel s
    0 node

end FeatherOS
