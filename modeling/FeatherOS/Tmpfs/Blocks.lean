import FeatherOS.Tmpfs.Session

/-
  What creating and deleting does, and how the blocks of
  tmpfs stay apart through all calls.

  Key definitions include:
    * `Created`
    * `Deleted`
    * `TmpfsWriteOk`

  Key theorems include:
    * `tmpfsCreate_cases`
    * `tmpfsDelete_deleted`
    * `tmpfsWrite_cases`
    * `TmpfsBlocks.step`
    * `TmpfsStarted.blocks`
-/

namespace FeatherOS

--------------------
-- Links
--------------------

variable {s' : TmpfsState}

section Links

variable {s : TmpfsState}

/- An inode up to its place in the lists of children. -/
def TmpfsInode.unlinked (node : TmpfsInode) : TmpfsInode :=
  { node with children := none, next := none, prev := none }

variable {f : TmpfsInode → TmpfsInode}

theorem modify_unlinked
    (hf : ∀ node, (f node).unlinked = node.unlinked)
    (s : TmpfsState)
    (a b : Addr) :
    ((s.modify a f).inodes b).unlinked =
      (s.inodes b).unlinked := by
  simp only [TmpfsState.modify, Function.update_apply]
  split
  next h => rw [hf, h]
  next => rfl

/- Only links of inodes are different. -/
structure Relinked
    (s s' : TmpfsState) : Prop where
  unlinked : ∀ b, (s'.inodes b).unlinked = (s.inodes b).unlinked
  sbPtr : s'.sbPtr = s.sbPtr
  sb : s'.sb = s.sb
  memory : s'.memory = s.memory
  heap : s'.heap = s.heap

theorem Relinked.refl
    (s : TmpfsState) :
    Relinked s s :=
  ⟨fun _ => rfl, rfl, rfl, rfl, rfl⟩

theorem Relinked.modify
    (hf : ∀ node, (f node).unlinked = node.unlinked)
    (a : Addr)
    (hRest : Relinked s s') :
    Relinked s (s'.modify a f) where
  unlinked b := by rw [modify_unlinked hf, hRest.unlinked]
  sbPtr := hRest.sbPtr
  sb := hRest.sb
  memory := hRest.memory
  heap := hRest.heap

theorem addToChildren_relinked
    (s : TmpfsState)
    (parent inode : Addr) :
    Relinked s (addToChildren s parent inode) := by
  unfold addToChildren
  simp only
  apply Relinked.modify (fun _ => by rfl)
  split
  · exact (Relinked.refl s).modify (fun _ => by rfl) inode
  · apply Relinked.modify (fun _ => by rfl)
    exact (Relinked.refl s).modify (fun _ => by rfl) inode

theorem Relinked.trans
    {s' s'' : TmpfsState}
    (hFirst : Relinked s s')
    (hSecond : Relinked s' s'') :
    Relinked s s'' where
  unlinked b := by rw [hSecond.unlinked, hFirst.unlinked]
  sbPtr := by rw [hSecond.sbPtr, hFirst.sbPtr]
  sb := by rw [hSecond.sb, hFirst.sb]
  memory := by rw [hSecond.memory, hFirst.memory]
  heap := by rw [hSecond.heap, hFirst.heap]

theorem unlinkBefore_relinked
    (s : TmpfsState)
    (parent inode : Addr) :
    Relinked s (unlinkBefore s parent inode) := by
  unfold unlinkBefore
  split
  · exact (Relinked.refl s).modify (fun _ => by rfl) _
  · exact (Relinked.refl s).modify (fun _ => by rfl) _

theorem unlinkAfter_relinked
    (s : TmpfsState)
    (inode : Addr) :
    Relinked s (unlinkAfter s inode) := by
  unfold unlinkAfter
  split
  · exact (Relinked.refl s).modify (fun _ => by rfl) _
  · exact Relinked.refl s

theorem removeFromParent_relinked
    (s : TmpfsState)
    (parent inode : Addr) :
    Relinked s (removeFromParent s parent inode) :=
  (unlinkBefore_relinked s parent inode).trans
    (unlinkAfter_relinked _ inode)

/- The fields of an inode that are not links. -/
theorem unlinked_fields
    {node node' : TmpfsInode}
    (hSame : node'.unlinked = node.unlinked) :
    node'.ino = node.ino ∧ node'.size = node.size ∧
      node'.data = node.data ∧ node'.parent = node.parent ∧
      node'.refcount = node.refcount := by
  simp only [TmpfsInode.unlinked, TmpfsInode.mk.injEq] at hSame
  rcases hSame with
    ⟨hIno, _, hSize, _, _, _, _, hData, hParent, _, _, _, hRefs⟩
  exact ⟨hIno, hSize, hData, hParent, hRefs⟩

end Links

--------------------
-- Creating And Deleting
--------------------

/- The first child of the parent, if there is one. -/
def firstChild
    (s : TmpfsState)
    (parent : Option Addr) :
    Option Addr :=
  parent.bind fun p => (s.inodes p).children

/- What creating an inode does. -/
structure Created
    (s s' : TmpfsState)
    (parent : Option Addr)
    (inode : Addr) : Prop where
  others : ∀ b, b ≠ inode →
    (s'.inodes b).unlinked = (s.inodes b).unlinked
  new :
    (s'.inodes inode).ino = s.sb.nextIno ∧
      (s'.inodes inode).size = 0#32 ∧
      (s'.inodes inode).data = none ∧
      (s'.inodes inode).parent = parent ∧
      (s'.inodes inode).refcount = 1#32
  children : (s'.inodes inode).children = none
  childrenOther : ∀ b, b ≠ inode →
    (s'.inodes b).children =
      if parent = some b then some inode
      else (s.inodes b).children
  next : (s'.inodes inode).next = firstChild s parent
  nextOther : ∀ b, b ≠ inode →
    (s'.inodes b).next = (s.inodes b).next
  prev : firstChild s parent ≠ some inode →
    (s'.inodes inode).prev = none
  prevOther : ∀ b, b ≠ inode →
    (s'.inodes b).prev =
      if firstChild s parent = some b then some inode
      else (s.inodes b).prev
  sb : s'.sb = { s.sb with nextIno := s.sb.nextIno + 1#32 }
  sbPtr : s'.sbPtr = s.sbPtr
  memory : s'.memory = s.memory

section Inodes

variable {s : TmpfsState}
variable {live : List Addr}

theorem addToChildren_links
    {parent inode : Addr}
    (hNe : parent ≠ inode)
    (b : Addr) :
    ((addToChildren s parent inode).inodes b).children =
        (if b = parent then some inode
        else (s.inodes b).children) ∧
      ((addToChildren s parent inode).inodes b).next =
        (if b = inode then (s.inodes parent).children
        else (s.inodes b).next) ∧
      ((addToChildren s parent inode).inodes b).prev =
        (if (s.inodes parent).children = some b then some inode
        else (s.inodes b).prev) := by
  simp only [addToChildren, TmpfsState.modify,
    Function.update_of_ne hNe]
  cases hChild : (s.inodes parent).children with
  | none =>
      simp only [Function.update_apply]
      grind
  | some child =>
      simp only [Function.update_apply]
      grind

theorem newInode_created
    (now : U64)
    (name : CString)
    (mode : U16)
    (inode : Addr) :
    Created s (newInode s now none name mode inode) none inode := by
  constructor
  all_goals
    simp +contextual [newInode, TmpfsInode.zero, firstChild]

theorem addToChildren_created
    {p inode : Addr}
    (hParent : p ≠ inode)
    (now : U64)
    (name : CString)
    (mode : U16) :
    Created s
      (addToChildren (newInode s now (some p) name mode inode) p
        inode)
      (some p) inode := by
  have hSame :=
    addToChildren_relinked
      (newInode s now (some p) name mode inode) p inode
  have hLinks := fun b =>
    addToChildren_links
      (s := newInode s now (some p) name mode inode) hParent b
  have hAt :
      (newInode s now (some p) name mode inode).inodes p =
        s.inodes p := by
    simp only [newInode, Function.update_of_ne hParent]
  have hOther : ∀ b, b ≠ inode →
      (newInode s now (some p) name mode inode).inodes b =
        s.inodes b := by
    intro b hb
    simp only [newInode, Function.update_of_ne hb]
  have hNew := unlinked_fields (hSame.unlinked inode)
  rw [hAt] at hLinks
  constructor
  · intro b hb
    rw [hSame.unlinked, hOther b hb]
  · rcases hNew with ⟨hIno, hSize, hData, hField, hRefs⟩
    rw [hIno, hSize, hData, hField, hRefs]
    simp only [newInode, Function.update_self, TmpfsInode.zero,
      and_self]
  · rw [(hLinks inode).1, if_neg (Ne.symm hParent)]
    simp only [newInode, Function.update_self, TmpfsInode.zero]
  · intro b hb
    rw [(hLinks b).1, hOther b hb]
    simp only [Option.some.injEq, eq_comm]
  · rw [(hLinks inode).2.1, if_pos rfl]
    rfl
  · intro b hb
    rw [(hLinks b).2.1, if_neg hb, hOther b hb]
  · intro hChild
    simp only [firstChild, Option.bind_some] at hChild
    rw [(hLinks inode).2.2, if_neg hChild]
    simp only [newInode, Function.update_self, TmpfsInode.zero]
  · intro b hb
    rw [(hLinks b).2.2, hOther b hb]
    rfl
  · rw [hSame.sb]
    rfl
  · rw [hSame.sbPtr]
    rfl
  · rw [hSame.memory]
    rfl

/- The heap has room for an inode, or nothing happens. -/
theorem tmpfsCreate_cases
    (now : U64)
    {parent : Option Addr}
    (name : Option CString)
    (mode : U16)
    (hParent : parent ≠ some s.heap.heapPtr) :
    tmpfsCreate s now parent name mode = (none, s) ∨
    ∃ s', tmpfsCreate s now parent name mode =
        (some s.heap.heapPtr, s') ∧
      Created s s' parent s.heap.heapPtr ∧
      s'.heap.heapPtr.toNat =
        s.heap.heapPtr.toNat + sizeofTmpfsInode ∧
      s.heap.heapLeft.toNat =
        s'.heap.heapLeft.toNat + sizeofTmpfsInode := by
  cases name with
  | none => exact .inl rfl
  | some name =>
      rcases @kmalloc_record s.heap
          (BitVec.ofNat 64 sizeofTmpfsInode) (by decide)
          (by decide) with
        ⟨_, hCall⟩ | ⟨hRoom, heap, hCall, hLeft, hPtr⟩
      · left
        simp only [tmpfsCreate, hCall]
      · right
        have hSize :
            (BitVec.ofNat 64 sizeofTmpfsInode).toNat =
              sizeofTmpfsInode := by
          decide
        rw [hSize] at hRoom hLeft hPtr
        have hSum : s.heap.heapLeft.toNat =
            heap.heapLeft.toNat + sizeofTmpfsInode := by
          omega
        cases parent with
        | none =>
            have hAnswer :
                tmpfsCreate s now none (some name) mode =
                  (some s.heap.heapPtr,
                    newInode { s with heap := heap } now none name
                      mode s.heap.heapPtr) := by
              simp only [tmpfsCreate, hCall]
            refine ⟨_, hAnswer, ?_, hPtr, hSum⟩
            have hNew :=
              newInode_created (s := { s with heap := heap }) now
                name mode s.heap.heapPtr
            exact { hNew with }
        | some p =>
            have hp : p ≠ s.heap.heapPtr := by
              rintro rfl
              exact hParent rfl
            have hAnswer :
                tmpfsCreate s now (some p) (some name) mode =
                  (some s.heap.heapPtr,
                    addToChildren
                      (newInode { s with heap := heap } now
                        (some p) name mode s.heap.heapPtr)
                      p s.heap.heapPtr) := by
              simp only [tmpfsCreate, hCall]
            refine ⟨_, hAnswer, ?_, ?_, ?_⟩
            · have hNew :=
                addToChildren_created (s := { s with heap := heap })
                  hp now name mode
              exact { hNew with }
            · rw [(addToChildren_relinked _ p _).heap]
              exact hPtr
            · rw [(addToChildren_relinked _ p _).heap]
              exact hSum

/- The links that go past a deleted inode. -/
structure Unlinked
    (s s' : TmpfsState)
    (p inode : Addr) : Prop where
  children : ∀ b, b ≠ inode →
    (s'.inodes b).children =
      if (s.inodes inode).prev = none ∧ b = p then
        (s.inodes inode).next
      else (s.inodes b).children
  next : ∀ b, b ≠ inode →
    (s'.inodes b).next =
      if (s.inodes inode).prev = some b then
        (s.inodes inode).next
      else (s.inodes b).next
  prev : ∀ b, b ≠ inode →
    (s'.inodes b).prev =
      if (s.inodes inode).next = some b then
        (s.inodes inode).prev
      else (s.inodes b).prev

theorem unlinkBefore_links
    (p inode b : Addr) :
    ((unlinkBefore s p inode).inodes b).children =
        (if (s.inodes inode).prev = none ∧ b = p then
          (s.inodes inode).next
        else (s.inodes b).children) ∧
      ((unlinkBefore s p inode).inodes b).next =
        (if (s.inodes inode).prev = some b then
          (s.inodes inode).next
        else (s.inodes b).next) ∧
      ((unlinkBefore s p inode).inodes b).prev =
        (s.inodes b).prev := by
  unfold unlinkBefore
  cases hPrev : (s.inodes inode).prev with
  | none =>
      simp only [TmpfsState.modify, Function.update_apply]
      grind
  | some q =>
      simp only [TmpfsState.modify, Function.update_apply]
      grind

theorem unlinkAfter_links
    (inode b : Addr) :
    ((unlinkAfter s inode).inodes b).children =
        (s.inodes b).children ∧
      ((unlinkAfter s inode).inodes b).next =
        (s.inodes b).next ∧
      ((unlinkAfter s inode).inodes b).prev =
        (if (s.inodes inode).next = some b then
          (s.inodes inode).prev
        else (s.inodes b).prev) := by
  unfold unlinkAfter
  cases hNext : (s.inodes inode).next with
  | none => simp
  | some q =>
      simp only [TmpfsState.modify, Function.update_apply]
      grind

variable {inode : Addr}

theorem removeFromParent_unlinked
    (p : Addr)
    (hSelf : (s.inodes inode).prev ≠ some inode) :
    Unlinked s (removeFromParent s p inode) p inode := by
  have hAt := (unlinkBefore_links (s := s) p inode inode).2
  rw [if_neg hSelf] at hAt
  constructor
  · intro b _
    rw [removeFromParent, (unlinkAfter_links inode b).1,
      (unlinkBefore_links p inode b).1]
  · intro b _
    rw [removeFromParent, (unlinkAfter_links inode b).2.1,
      (unlinkBefore_links p inode b).2.1]
  · intro b _
    rw [removeFromParent, (unlinkAfter_links inode b).2.2, hAt.1,
      hAt.2, (unlinkBefore_links p inode b).2.2]

/- What deleting an inode does. -/
structure Deleted
    (s s' : TmpfsState)
    (inode : Addr) : Prop where
  others : ∀ b, b ≠ inode →
    (s'.inodes b).unlinked = (s.inodes b).unlinked
  root : (s.inodes inode).parent = none → ∀ b, b ≠ inode →
    s'.inodes b = s.inodes b
  child : (s.inodes inode).prev ≠ some inode →
    ∀ p, (s.inodes inode).parent = some p →
      Unlinked s s' p inode
  sb :
    s'.sb =
      { s.sb with
        usedSize := s.sb.usedSize - (s.inodes inode).size }
  sbPtr : s'.sbPtr = s.sbPtr
  memory : s'.memory = s.memory
  heap : s'.heap = s.heap

theorem freeData_eq
    (hEmpty :
      (s.inodes inode).data = none →
        (s.inodes inode).size = 0#32) :
    freeData s inode =
      { s with
        sb :=
          { s.sb with
            usedSize := s.sb.usedSize - (s.inodes inode).size } } := by
  unfold freeData
  cases hData : (s.inodes inode).data with
  | none => simp only [hEmpty hData, BitVec.sub_zero]
  | some data => rfl

theorem tmpfsFree_deleted
    (hEmpty :
      (s.inodes inode).data = none →
        (s.inodes inode).size = 0#32) :
    Deleted s (tmpfsFree s inode) inode := by
  unfold tmpfsFree
  cases hParent : (s.inodes inode).parent with
  | none =>
      simp only
      rw [freeData_eq hEmpty]
      exact
        { others := fun _ _ => rfl
          root := fun _ _ _ => rfl
          child := by simp [hParent]
          sb := rfl
          sbPtr := rfl
          memory := rfl
          heap := rfl }
  | some p =>
      simp only
      have hSame := removeFromParent_relinked s p inode
      rcases unlinked_fields (hSame.unlinked inode) with
        ⟨_, hSize, hData, _, _⟩
      rw [freeData_eq (by rw [hSize, hData]; exact hEmpty), hSize,
        hSame.sb]
      exact
        { others := fun b _ => hSame.unlinked b
          root := by simp [hParent]
          child := by
            intro hSelf q hq
            rw [hParent] at hq
            cases hq
            have hLinks := removeFromParent_unlinked p hSelf
            exact { hLinks with }
          sb := rfl
          sbPtr := hSame.sbPtr
          memory := hSame.memory
          heap := hSame.heap }

/- The last reference is dropped. -/
theorem tmpfsDelete_deleted
    (hRefs : (s.inodes inode).refcount = 1#32)
    (hEmpty :
      (s.inodes inode).data = none →
        (s.inodes inode).size = 0#32) :
    Deleted s (tmpfsDelete s (some inode)).2 inode := by
  have hLast :
      ¬ 0 < ((s.inodes inode).refcount - 1#32).toInt := by
    rw [hRefs]
    decide
  have hOther : ∀ b, b ≠ inode →
      (dropReference s inode).inodes b = s.inodes b := by
    intro b hb
    simp only [dropReference, TmpfsState.modify,
      Function.update_of_ne hb]
  have hAt :
      (dropReference s inode).inodes inode =
        { s.inodes inode with
          refcount := (s.inodes inode).refcount - 1#32 } := by
    simp only [dropReference, TmpfsState.modify,
      Function.update_self]
  have hFree : Deleted (dropReference s inode)
      (tmpfsFree (dropReference s inode) inode) inode := by
    apply tmpfsFree_deleted
    rw [hAt]
    exact hEmpty
  have hAnswer :
      (tmpfsDelete s (some inode)).2 =
        tmpfsFree (dropReference s inode) inode := by
    simp only [tmpfsDelete, hAt, hLast, if_false]
  rw [hAnswer]
  constructor
  · intro b hb
    rw [hFree.others b hb, hOther b hb]
  · intro hNone b hb
    rw [hFree.root (by rw [hAt]; exact hNone) b hb, hOther b hb]
  · intro hSelf p hp
    have hLinks :=
      hFree.child (by rw [hAt]; exact hSelf) p
        (by rw [hAt]; exact hp)
    constructor
    · intro b hb
      rw [hLinks.children b hb, hAt, hOther b hb]
    · intro b hb
      rw [hLinks.next b hb, hAt, hOther b hb]
    · intro b hb
      rw [hLinks.prev b hb, hAt, hOther b hb]
  · rw [hFree.sb, hAt]
    rfl
  · rw [hFree.sbPtr]
    rfl
  · rw [hFree.memory]
    rfl
  · rw [hFree.heap]
    rfl

--------------------
-- One Call
--------------------

theorem TmpfsBlocks.fresh
    (hBlocks : TmpfsBlocks s live) :
    s.heap.heapPtr ∉ live := by
  intro hLive
  have hBelow :=
    hBlocks.placed.below (.record s.heap.heapPtr)
      ⟨s.heap.heapPtr.toNat, sizeofTmpfsInode⟩
      (by simp [tmpfsExtent, hLive])
  simp only [sizeofTmpfsInode] at hBelow
  omega

theorem TmpfsBlocks.create
    {s' : TmpfsState}
    {parent : Option Addr}
    (hBlocks : TmpfsBlocks s live)
    (hNew : Created s s' parent s.heap.heapPtr)
    (hPtr :
      s'.heap.heapPtr.toNat =
        s.heap.heapPtr.toNat + sizeofTmpfsInode) :
    TmpfsBlocks s' (s.heap.heapPtr :: live) := by
  rcases hNew.new with ⟨_, hSize, hData, _, hRefs⟩
  have hOther : ∀ b ∈ live, b ≠ s.heap.heapPtr := by
    rintro b hb rfl
    exact hBlocks.fresh hb
  constructor
  · exact List.nodup_cons.mpr ⟨hBlocks.fresh, hBlocks.nodup⟩
  · apply hBlocks.placed.place (i := .record s.heap.heapPtr)
      (Nat.le_refl _) (Nat.le_of_eq hPtr.symm)
    · simp [tmpfsExtent]
    · intro owner p hOwner hp
      cases owner with
      | superblock =>
          simpa only [tmpfsExtent, hNew.sbPtr] using hp
      | record b =>
          have hb : b ≠ s.heap.heapPtr := by
            rintro rfl
            exact hOwner rfl
          simpa only [tmpfsExtent, List.mem_cons, hb,
            false_or] using hp
      | data b =>
          by_cases hb : b = s.heap.heapPtr
          · subst hb
            simp [tmpfsExtent, hData] at hp
          · rcases unlinked_fields (hNew.others b hb) with
              ⟨_, hSame, hSameData, _, _⟩
            simpa only [tmpfsExtent, List.mem_cons, hb, false_or,
              hSame, hSameData] using hp
  · intro b hb hNone
    rcases List.mem_cons.mp hb with rfl | hb
    · exact hSize
    · rcases unlinked_fields (hNew.others b (hOther b hb)) with
        ⟨_, hSame, hSameData, _, _⟩
      rw [hSame]
      rw [hSameData] at hNone
      exact hBlocks.empty b hb hNone
  · intro b hb
    rcases List.mem_cons.mp hb with rfl | hb
    · exact hRefs
    · rcases unlinked_fields (hNew.others b (hOther b hb)) with
        ⟨_, _, _, _, hSame⟩
      rw [hSame]
      exact hBlocks.refs b hb

theorem TmpfsBlocks.delete
    {a : Addr}
    (hBlocks : TmpfsBlocks s live)
    (hGone : Deleted s s' a) :
    TmpfsBlocks s' (live.erase a) := by
  have hMem : ∀ b ∈ live.erase a, b ≠ a ∧ b ∈ live := fun b hb =>
    (hBlocks.nodup.mem_erase_iff).mp hb
  have hFields := fun b (hb : b ≠ a) =>
    unlinked_fields (hGone.others b hb)
  constructor
  · exact hBlocks.nodup.erase a
  · apply hBlocks.placed.mono
    · rw [hGone.heap]
    · intro owner p hp
      cases owner with
      | superblock =>
          simpa only [tmpfsExtent, hGone.sbPtr] using hp
      | record b =>
          by_cases hb : b ∈ live.erase a
          · simpa only [tmpfsExtent, hb, if_true, (hMem b hb).2]
              using hp
          · simp [tmpfsExtent, hb] at hp
      | data b =>
          by_cases hb : b ∈ live.erase a
          · rcases hFields b (hMem b hb).1 with
              ⟨_, hSize, hData, _, _⟩
            simpa only [tmpfsExtent, hb, if_true, (hMem b hb).2,
              hSize, hData] using hp
          · simp [tmpfsExtent, hb] at hp
  · intro b hb hNone
    rcases hFields b (hMem b hb).1 with ⟨_, hSize, hData, _, _⟩
    rw [hSize]
    rw [hData] at hNone
    exact hBlocks.empty b (hMem b hb).2 hNone
  · intro b hb
    rcases hFields b (hMem b hb).1 with ⟨_, _, _, _, hRefs⟩
    rw [hRefs]
    exact hBlocks.refs b (hMem b hb).2

variable {count offset : U32}

/- What `kmalloc` gives a file that grows. -/
theorem grown_heap
    (hDone : ¬ WriteRefused s inode offset count)
    (hGrows : (s.inodes inode).size < offset + count) :
    s.heap.heapPtr.toNat + (offset + count).toNat ≤
        (kmalloc s.heap
          ((offset + count).setWidth 64)).2.heapPtr.toNat ∧
      ¬ s.sb.maxSize < s.sb.usedSize + (offset + count) := by
  simp only [WriteRefused, hGrows, true_and, not_or] at hDone
  rcases hDone with ⟨hLimit, hRoom⟩
  refine ⟨?_, hLimit⟩
  cases hCall : kmalloc s.heap ((offset + count).setWidth 64) with
  | mk p heap =>
      cases p with
      | none =>
          rw [hCall] at hRoom
          exact absurd rfl hRoom
      | some p =>
          rcases kmalloc_some hCall with ⟨_, _, _, hPtr⟩
          have hSize := (offset + count).isLt
          rw [toNat_alignUp8, BitVec.toNat_setWidth] at hPtr
          simp only
          omega

variable {now : U64}
variable {buf : Bytes}

theorem TmpfsBlocks.write
    {answer : Int × TmpfsState}
    (hBlocks : TmpfsBlocks s live)
    (hInode : inode ∈ live)
    (hAccepted : ¬ WriteRefused s inode offset count)
    (hDone : WriteDone s live now inode offset buf count answer) :
    TmpfsBlocks answer.2 live := by
  have hNode := hDone.changed.inodes
  constructor
  · exact hBlocks.nodup
  · by_cases hGrows : (s.inodes inode).size < offset + count
    · have hRoom := (grown_heap hAccepted hGrows).1
      apply hBlocks.placed.place (i := .data inode) (Nat.le_refl _)
      · rw [hDone.heap, if_pos hGrows]
        exact hRoom
      · simp only [tmpfsExtent, if_pos hInode,
          hNode inode hInode, if_true, writtenData, writtenSize,
          if_pos hGrows, Option.map_some]
      · intro owner p hOwner hp
        cases owner with
        | superblock =>
            simpa only [tmpfsExtent, hDone.changed.sbPtr] using hp
        | record b => exact hp
        | data b =>
            by_cases hb : b ∈ live
            · have hNe : b ≠ inode := by
                rintro rfl
                exact hOwner rfl
              simpa only [tmpfsExtent, if_pos hb, hNode b hb,
                if_neg hNe] using hp
            · simp [tmpfsExtent, hb] at hp
    · apply hBlocks.placed.mono
      · rw [hDone.heap, if_neg hGrows]
      · intro owner p hp
        cases owner with
        | superblock =>
            simpa only [tmpfsExtent, hDone.changed.sbPtr] using hp
        | record b => exact hp
        | data b =>
            by_cases hb : b ∈ live
            · by_cases hNe : b = inode
              · subst hNe
                simpa only [tmpfsExtent, if_pos hb, hNode b hb,
                  if_true, writtenData, writtenSize,
                  if_neg hGrows] using hp
              · simpa only [tmpfsExtent, if_pos hb, hNode b hb,
                  if_neg hNe] using hp
            · simp [tmpfsExtent, hb] at hp
  · intro b hb hNone
    rw [hNode b hb] at hNone ⊢
    by_cases hNe : b = inode
    · subst hNe
      simp only [if_true, writtenData, writtenSize] at hNone ⊢
      by_cases hGrows : (s.inodes b).size < offset + count
      · simp [hGrows] at hNone
      · rw [if_neg hGrows] at hNone ⊢
        exact hBlocks.empty b hb hNone
    · rw [if_neg hNe] at hNone ⊢
      exact hBlocks.empty b hb hNone
  · intro b hb
    rw [hNode b hb]
    split
    next hNe => exact hBlocks.refs inode hInode
    next => exact hBlocks.refs b hb

/- A write whose end wraps spares the records, or is refused. -/
def TmpfsWriteOk
    (s : TmpfsSession) :
    TmpfsCall → Prop
  | .write _ (some inode) offset (some _) count =>
      offset.toNat + count.toNat < 2 ^ 32 ∨
        WriteRefused s.toTmpfsState inode offset count ∨
        Spares s.toTmpfsState s.live
          (writeExtent
            (writtenData s.toTmpfsState inode offset count) offset
            count)
  | _ => True

variable {s : TmpfsSession}

/- The outcome of a write to a live inode. -/
theorem tmpfsWrite_cases
    (hBlocks : TmpfsBlocks s.toTmpfsState s.live)
    (hInode : inode ∈ s.live)
    (hOk :
      TmpfsWriteOk s
        (.write now (some inode) offset (some buf) count)) :
    WriteRefused s.toTmpfsState inode offset count ∧
        tmpfsWrite s.toTmpfsState now (some inode) offset (some buf)
            count =
          (-1, s.toTmpfsState) ∨
      ¬ WriteRefused s.toTmpfsState inode offset count ∧
        WriteDone s.toTmpfsState s.live now inode offset buf count
          (tmpfsWrite s.toTmpfsState now (some inode) offset
            (some buf) count) := by
  by_cases hRefused :
      WriteRefused s.toTmpfsState inode offset count
  · exact .inl ⟨hRefused, tmpfsWrite_refused hRefused now buf⟩
  · right
    refine ⟨hRefused, tmpfsWrite_done hBlocks hInode hRefused ?_ now
      buf⟩
    rcases hOk with hEnd | hRefused' | hSpares
    · exact hBlocks.spares_write hInode hEnd
    · exact absurd hRefused' hRefused
    · exact hSpares

theorem TmpfsBlocks.step
    {s s' : TmpfsSession}
    {call : TmpfsCall}
    (hBlocks : TmpfsBlocks s.toTmpfsState s.live)
    (hOk : TmpfsWriteOk s call)
    (hStep : tmpfsStep s call s') :
    TmpfsBlocks s'.toTmpfsState s'.live := by
  rcases hStep with ⟨hLegal, rfl⟩
  cases call with
  | create now parent name mode =>
      have hParent : parent ≠ some s.heap.heapPtr := by
        rintro rfl
        exact hBlocks.fresh (hLegal _ rfl)
      rcases tmpfsCreate_cases now name mode hParent with
        hFull | ⟨t, hNew, hCreated, hPtr, _⟩
      · simp only [tmpfsNext, hFull]
        exact hBlocks
      · simp only [tmpfsNext, hNew]
        exact hBlocks.create hCreated hPtr
  | delete inode =>
      cases inode with
      | none => exact hBlocks
      | some a =>
          have hRefs := hBlocks.refs a (hLegal a rfl).1
          have hGone := tmpfsDelete_deleted hRefs
            (hBlocks.empty a (hLegal a rfl).1)
          simp only [tmpfsNext, hRefs]
          exact hBlocks.delete hGone
  | read inode offset buf count => exact hBlocks
  | write now inode offset buf count =>
      cases inode with
      | none => exact hBlocks
      | some inode =>
          cases buf with
          | none => exact hBlocks
          | some buf =>
              have hInode := hLegal inode rfl
              simp only [tmpfsNext]
              rcases tmpfsWrite_cases hBlocks hInode hOk with
                ⟨_, hSame⟩ | ⟨hAccepted, hDone⟩
              · rw [hSame]
                exact hBlocks
              · exact hBlocks.write hInode hAccepted hDone
  | other size memory =>
      constructor
      · exact hBlocks.nodup
      · exact hBlocks.placed.mono (kmalloc_heapPtr_le s.heap size)
          fun _ _ hp => hp
      · exact hBlocks.empty
      · exact hBlocks.refs

--------------------
-- The First State
--------------------

/- What a `tmpfs_init` that succeeds leaves. -/
structure Initialized
    (s : TmpfsSession)
    (root sb : Addr) : Prop where
  live : s.live = [root]
  sbPtr : s.sbPtr = some sb
  apart : sb.toNat + sizeofTmpfsSb ≤ root.toNat
  below :
    root.toNat + sizeofTmpfsInode = s.heap.heapPtr.toNat
  room :
    s.heap.heapLeft.toNat + sizeofTmpfsInode ≤
      heapStart + heapSize
  counters :
    s.sb.nextIno = 2#32 ∧ s.sb.maxSize = tmpfsMaxSize ∧
      s.sb.usedSize = 0#32
  node :
    s.inodes root =
      { TmpfsInode.zero with
        ino := 1#32
        name := fun k => if k = 0 then 0x2F#8 else 0#8
        mode := 0x1C2#16
        refcount := 1#32 }

theorem TmpfsStarted.initialized
    (hStart : TmpfsStarted s) :
    ∃ root sb, Initialized s root sb := by
  rcases hStart with ⟨s₀, root, hInit, hRoot, hLive⟩
  have hSb :
      (BitVec.ofNat 64 sizeofTmpfsSb).toNat = sizeofTmpfsSb := by
    decide
  have hInode :
      (BitVec.ofNat 64 sizeofTmpfsInode).toNat =
        sizeofTmpfsInode := by
    decide
  rcases @kmalloc_record s₀.heap
      (BitVec.ofNat 64 sizeofTmpfsSb) (by decide)
      (by decide) with
    ⟨_, hFirst⟩ | ⟨_, heap, hFirst, hLeft, hPtr⟩
  · simp [tmpfsInit, hFirst] at hInit
  · rcases @kmalloc_record heap
        (BitVec.ofNat 64 sizeofTmpfsInode) (by decide)
        (by decide) with
      ⟨_, hSecond⟩ | ⟨hRoom, heap', hSecond, hLeft', hPtr'⟩
    · simp [tmpfsInit, hFirst, hSecond] at hInit
    · simp only [tmpfsInit, hFirst, hSecond, Prod.mk.injEq,
        true_and] at hInit
      have hHeap : s.heap = heap' := by
        rw [← hInit]
      have hRootIs : root = heap.heapPtr := by
        rw [← hInit] at hRoot
        injection hRoot with hRoot
        exact hRoot.symm
      have hTotal := heap.adds_up
      rw [hSb] at hPtr hLeft
      rw [hInode] at hRoom hPtr' hLeft'
      refine ⟨root, s₀.heap.heapPtr, ?_⟩
      constructor
      · exact hLive
      · rw [← hInit]
      · rw [hRootIs, hPtr]
      · rw [hRootIs, hHeap, hPtr']
      · rw [hHeap]
        omega
      · rw [← hInit]
        exact ⟨rfl, rfl, rfl⟩
      · rw [← hInit, hRootIs]
        simp only [Function.update_self]

/- The blocks of the superblock and of the root. -/
theorem TmpfsStarted.blocks
    (hStart : TmpfsStarted s) :
    TmpfsBlocks s.toTmpfsState s.live := by
  rcases hStart.initialized with ⟨root, sb, hInit⟩
  have hApart := hInit.apart
  have hBelow := hInit.below
  have hNode := hInit.node
  rw [hInit.live]
  have hOwners : ∀ owner p,
      tmpfsExtent s.toTmpfsState [root] owner = some p →
        owner = .superblock ∧ p = ⟨sb.toNat, sizeofTmpfsSb⟩ ∨
          owner = .record root ∧
            p = ⟨root.toNat, sizeofTmpfsInode⟩ := by
    intro owner p hp
    cases owner with
    | superblock =>
        simp only [tmpfsExtent, hInit.sbPtr, Option.map_some,
          Option.some.injEq] at hp
        exact .inl ⟨rfl, hp.symm⟩
    | record b =>
        by_cases hb : b = root
        · subst hb
          simp only [tmpfsExtent, List.mem_singleton, if_true,
            Option.some.injEq] at hp
          exact .inr ⟨rfl, hp.symm⟩
        · simp [tmpfsExtent, hb] at hp
    | data b =>
        by_cases hb : b = root
        · subst hb
          simp [tmpfsExtent, hNode, TmpfsInode.zero] at hp
        · simp [tmpfsExtent, hb] at hp
  constructor
  · simp
  · constructor
    · intro owner p hp
      rcases hOwners owner p hp with ⟨_, rfl⟩ | ⟨_, rfl⟩
      · simp only
        omega
      · simp only
        omega
    · intro i j p q hNe hp hq
      rcases hOwners i p hp with ⟨rfl, rfl⟩ | ⟨rfl, rfl⟩
      · rcases hOwners j q hq with ⟨rfl, rfl⟩ | ⟨rfl, rfl⟩
        · exact absurd rfl hNe
        · exact .inl hApart
      · rcases hOwners j q hq with ⟨rfl, rfl⟩ | ⟨rfl, rfl⟩
        · exact .inr hApart
        · exact absurd rfl hNe
  · intro b hb _
    rw [List.mem_singleton.mp hb, hNode]
    rfl
  · intro b hb
    rw [List.mem_singleton.mp hb, hNode]

end Inodes

/- The memory before `tmpfs_init`. -/
def bootedTmpfs : TmpfsState where
  sbPtr := none
  sb := ⟨0#32, none, 0#32, 0#32⟩
  inodes := fun _ => TmpfsInode.zero
  memory := fun _ => 0#8
  heap := Heap.initial

/- After `tmpfs_init`; the root follows the superblock. -/
def startedTmpfs : TmpfsSession where
  toTmpfsState := (tmpfsInit bootedTmpfs).2
  live := [0x200018#64]

theorem startedTmpfs_started :
    TmpfsStarted startedTmpfs := by
  refine ⟨bootedTmpfs, 0x200018#64, ?_, ?_, rfl⟩
  · exact Prod.ext (by decide +kernel) rfl
  · decide +kernel

/- A file is created and 8 bytes are written to it. -/
def fileCalls : List TmpfsCall :=
  [.create 0#64 (some 0x200018#64) (some ⟨[0x66#8], by decide⟩)
      1#16,
    .write 0#64 (some 0x200170#64) 0#32 (some fun _ => 1#8) 8#32]

def fileSession : TmpfsSession :=
  fileCalls.foldl tmpfsNext startedTmpfs

end FeatherOS
