import FeatherOS.Library.DoublyLinked
import FeatherOS.Tmpfs.Blocks
import Mathlib.Algebra.BigOperators.Group.List.Basic

/-
  What tmpfs counts, and the lists of children.

  A write whose 32-bit end wraps is accepted, and copies far
  beyond the block of its file. As long as none of these
  copies reaches a live inode or the superblock, the sizes
  are counted right and the lists hold the live children.

  Key definitions include:
    * `TmpfsLinks`
    * `TmpfsAccounted`

  Key theorems include:
    * `TmpfsLinks.create`
    * `TmpfsLinks.delete`
    * `tmpfsRun_accounted`
-/

namespace FeatherOS

--------------------
-- The Property
--------------------

/- The lists of children hold the live children. -/
structure TmpfsLinks
    (s : TmpfsState)
    (live : List Addr) : Prop where
  parents : ∀ a ∈ live, ∀ p,
    (s.inodes a).parent = some p → p ∈ live
  children : ∀ dir ∈ live, ∃ kids last,
    Segment (fun a => (s.inodes a).next)
        (fun a => (s.inodes a).prev) none (s.inodes dir).children
        kids last none ∧
      kids.Nodup ∧
      ∀ c, c ∈ kids ↔ c ∈ live ∧ (s.inodes c).parent = some dir

/- The bytes of the live files. -/
def liveBytes
    (s : TmpfsState)
    (live : List Addr) :
    Nat :=
  (live.map fun a => (s.inodes a).size.toNat).sum

structure TmpfsAccounted (s : TmpfsSession) : Prop where
  used : s.sb.usedSize.toNat = liveBytes s.toTmpfsState s.live
  bounded : s.sb.usedSize.toNat ≤ s.sb.maxSize.toNat
  distinct : ∀ a ∈ s.live, ∀ b ∈ s.live,
    (s.inodes a).ino = (s.inodes b).ino → a = b
  links : TmpfsLinks s.toTmpfsState s.live

--------------------
-- Lists Of Children
--------------------

section Links

variable {s s' : TmpfsState}
variable {live : List Addr}

/- Only the links of live inodes matter. -/
theorem TmpfsLinks.congr
    (hLinks : TmpfsLinks s live)
    (hParent : ∀ b ∈ live,
      (s'.inodes b).parent = (s.inodes b).parent)
    (hChildren : ∀ b ∈ live,
      (s'.inodes b).children = (s.inodes b).children)
    (hNext : ∀ b ∈ live,
      (s'.inodes b).next = (s.inodes b).next)
    (hPrev : ∀ b ∈ live,
      (s'.inodes b).prev = (s.inodes b).prev) :
    TmpfsLinks s' live := by
  constructor
  · intro a ha p hp
    rw [hParent a ha] at hp
    exact hLinks.parents a ha p hp
  · intro dir hDir
    rcases hLinks.children dir hDir with
      ⟨kids, last, hList, hNodup, hMem⟩
    refine ⟨kids, last, ?_, hNodup, ?_⟩
    · rw [hChildren dir hDir]
      exact hList.congr
        (fun a ha => hNext a ((hMem a).mp ha).1)
        (fun a ha => hPrev a ((hMem a).mp ha).1)
    · intro c
      rw [hMem c]
      constructor
      · rintro ⟨hc, hp⟩
        exact ⟨hc, by rw [hParent c hc, hp]⟩
      · rintro ⟨hc, hp⟩
        exact ⟨hc, by rw [← hParent c hc, hp]⟩

/- The first child of a live directory is one of its own. -/
theorem TmpfsLinks.firstChild_live
    (hLinks : TmpfsLinks s live)
    {parent : Option Addr}
    {c : Addr}
    (hParent : ∀ p, parent = some p → p ∈ live)
    (hFirst : firstChild s parent = some c) :
    c ∈ live ∧ (s.inodes c).parent = parent := by
  cases parent with
  | none => cases hFirst
  | some p =>
      rcases hLinks.children p (hParent p rfl) with
        ⟨kids, last, hList, _, hMem⟩
      have hHead := hList.chain.head_eq
      simp only [firstChild, Option.bind_some] at hFirst
      rw [hFirst] at hHead
      exact (hMem c).mp (List.mem_of_mem_head? hHead.symm)

theorem TmpfsLinks.create
    {parent : Option Addr}
    {inode : Addr}
    (hLinks : TmpfsLinks s live)
    (hParent : ∀ p, parent = some p → p ∈ live)
    (hFresh : inode ∉ live)
    (hNew : Created s s' parent inode) :
    TmpfsLinks s' (inode :: live) := by
  have hNe : ∀ b ∈ live, b ≠ inode := by
    rintro b hb rfl
    exact hFresh hb
  have hField : ∀ b ∈ live,
      (s'.inodes b).parent = (s.inodes b).parent := by
    intro b hb
    exact (unlinked_fields (hNew.others b (hNe b hb))).2.2.2.1
  have hNewParent : (s'.inodes inode).parent = parent :=
    hNew.new.2.2.2.1
  have hFirst : firstChild s parent ≠ some inode := by
    intro hSome
    exact hFresh (hLinks.firstChild_live hParent hSome).1
  -- the live children of a directory, with the new inode
  have hMembers : ∀ dir ∈ live, ∀ c,
      (c ∈ inode :: live ∧ (s'.inodes c).parent = some dir) ↔
        c = inode ∧ parent = some dir ∨
          c ∈ live ∧ (s.inodes c).parent = some dir := by
    intro dir _ c
    rw [List.mem_cons]
    constructor
    · rintro ⟨rfl | hc, hp⟩
      · exact .inl ⟨rfl, by rw [← hNewParent, hp]⟩
      · exact .inr ⟨hc, by rw [← hField c hc, hp]⟩
    · rintro (⟨rfl, hp⟩ | ⟨hc, hp⟩)
      · exact ⟨.inl rfl, by rw [hNewParent, hp]⟩
      · exact ⟨.inr hc, by rw [hField c hc, hp]⟩
  constructor
  · intro a ha p hp
    rcases List.mem_cons.mp ha with rfl | ha
    · rw [hNewParent] at hp
      exact List.mem_cons_of_mem a (hParent p hp)
    · rw [hField a ha] at hp
      exact List.mem_cons_of_mem inode (hLinks.parents a ha p hp)
  · intro dir hDir
    rcases List.mem_cons.mp hDir with rfl | hDir
    · -- the new inode has no children yet
      refine ⟨[], none, ⟨hNew.children, rfl⟩, List.nodup_nil, ?_⟩
      intro c
      constructor
      · intro hc
        cases hc
      · rintro ⟨hc, hp⟩
        rcases List.mem_cons.mp hc with rfl | hc
        · rw [hNewParent] at hp
          exact absurd (hParent c hp) hFresh
        · rw [hField c hc] at hp
          exact absurd (hLinks.parents c hc dir hp) hFresh
    · rcases hLinks.children dir hDir with
        ⟨kids, last, hList, hNodup, hMem⟩
      have hOut : inode ∉ kids := fun hc =>
        hFresh ((hMem inode).mp hc).1
      by_cases hDirParent : parent = some dir
      · -- it is the first child of its parent
        subst hDirParent
        have hFront : ∃ last',
            Segment (fun a => (s'.inodes a).next)
              (fun a => (s'.inodes a).prev) none (some inode)
              (inode :: kids) last' none :=
          hList.push hOut hNodup hNew.next (hNew.prev hFirst)
            hNew.nextOther hNew.prevOther
        rcases hFront with ⟨last', hPushed⟩
        refine ⟨inode :: kids, last', ?_,
          List.nodup_cons.mpr ⟨hOut, hNodup⟩, ?_⟩
        · rw [hNew.childrenOther dir (hNe dir hDir), if_pos rfl]
          exact hPushed
        · intro c
          rw [hMembers dir hDir, List.mem_cons, hMem c]
          simp
      · refine ⟨kids, last, ?_, hNodup, ?_⟩
        · rw [hNew.childrenOther dir (hNe dir hDir),
            if_neg hDirParent]
          apply hList.congr
          · intro c hc
            exact hNew.nextOther c (hNe c ((hMem c).mp hc).1)
          · intro c hc
            rcases (hMem c).mp hc with ⟨hLive, hp⟩
            rw [hNew.prevOther c (hNe c hLive), if_neg]
            intro hHead
            have hSame := (hLinks.firstChild_live hParent hHead).2
            rw [hp] at hSame
            exact hDirParent hSame.symm
        · intro c
          rw [hMembers dir hDir, hMem c]
          simp [hDirParent]

variable {a : Addr}

theorem TmpfsLinks.delete
    (hLinks : TmpfsLinks s live)
    (hNodup : live.Nodup)
    (ha : a ∈ live)
    (hChildless : ∀ c ∈ live, (s.inodes c).parent ≠ some a)
    (hGone : Deleted s s' a) :
    TmpfsLinks s' (live.erase a) := by
  have hErase : ∀ b, b ∈ live.erase a ↔ b ≠ a ∧ b ∈ live :=
    fun _ => hNodup.mem_erase_iff
  have hField : ∀ b, b ≠ a →
      (s'.inodes b).parent = (s.inodes b).parent := fun b hb =>
    (unlinked_fields (hGone.others b hb)).2.2.2.1
  -- the live children of a directory, without the deleted inode
  have hMembers : ∀ dir c,
      (c ∈ live.erase a ∧ (s'.inodes c).parent = some dir) ↔
        c ≠ a ∧ c ∈ live ∧ (s.inodes c).parent = some dir := by
    intro dir c
    rw [hErase c, and_assoc]
    constructor
    · rintro ⟨hc, hLive, hp⟩
      exact ⟨hc, hLive, by rw [← hField c hc, hp]⟩
    · rintro ⟨hc, hLive, hp⟩
      exact ⟨hc, hLive, by rw [hField c hc, hp]⟩
  constructor
  · intro b hb p hp
    rcases (hErase b).mp hb with ⟨hNe, hLive⟩
    rw [hField b hNe] at hp
    rw [hErase]
    refine ⟨?_, hLinks.parents b hLive p hp⟩
    rintro rfl
    exact hChildless b hLive hp
  · intro dir hDir
    rcases (hErase dir).mp hDir with ⟨hDirNe, hDirLive⟩
    rcases hLinks.children dir hDirLive with
      ⟨kids, last, hList, hKids, hMem⟩
    cases hParent : (s.inodes a).parent with
    | none =>
        have hSame := hGone.root hParent
        have hOut : ∀ c ∈ kids, c ≠ a := by
          rintro c hc rfl
          rw [((hMem c).mp hc).2] at hParent
          cases hParent
        refine ⟨kids, last, ?_, hKids, ?_⟩
        · rw [hSame dir hDirNe]
          exact hList.congr
            (fun c hc => by rw [hSame c (hOut c hc)])
            (fun c hc => by rw [hSame c (hOut c hc)])
        · intro c
          rw [hMembers, hMem c]
          constructor
          · intro hc
            exact ⟨hOut c ((hMem c).mpr hc), hc⟩
          · exact And.right
    | some p =>
        rcases hLinks.children p (hLinks.parents a ha p hParent)
          with ⟨siblings, end', hSiblings, hNodup', hMem'⟩
        have hMember : a ∈ siblings := (hMem' a).mpr ⟨ha, hParent⟩
        have hSelf : (s.inodes a).prev ≠ some a :=
          hSiblings.prev_ne_self hNodup' (by simp) hMember
        have hUnlinked := hGone.child hSelf p hParent
        by_cases hDirP : dir = p
        · -- the list it was in
          subst hDirP
          have hSameKids : siblings = kids :=
            hList.chain.unique hSiblings.chain
          subst hSameKids
          rcases List.append_of_mem hMember with
            ⟨cells, more, rfl⟩
          have hRemoved :
              Segment (fun a => (s'.inodes a).next)
                (fun a => (s'.inodes a).prev) none _
                (cells ++ more) _ none :=
            hList.remove hKids hUnlinked.next hUnlinked.prev
          have hFirst := hUnlinked.children dir hDirNe
          simp only [and_true] at hFirst
          rw [← hFirst] at hRemoved
          refine ⟨cells ++ more, _, hRemoved, ?_, ?_⟩
          · exact hKids.sublist (by simp)
          · intro c
            rw [hMembers, ← hMem c]
            simp only [List.nodup_append, List.nodup_cons]
              at hKids
            grind
        · have hOther : ∀ c ∈ kids, c ≠ a ∧ c ∉ siblings := by
            intro c hc
            have hp := ((hMem c).mp hc).2
            constructor
            · rintro rfl
              rw [hParent] at hp
              injection hp with hp
              exact hDirP hp.symm
            · intro hBoth
              have hp' := ((hMem' c).mp hBoth).2
              rw [hp] at hp'
              injection hp' with hp'
              exact hDirP hp'
          refine ⟨kids, last, ?_, hKids, ?_⟩
          · rw [hUnlinked.children dir hDirNe,
              if_neg (by simp [hDirP])]
            apply hList.congr
            · intro c hc
              rw [hUnlinked.next c (hOther c hc).1, if_neg]
              intro hBack
              rcases hSiblings.mem_of_prev hMember hBack with
                hNone | hBoth
              · cases hNone
              · exact (hOther c hc).2 hBoth
            · intro c hc
              rw [hUnlinked.prev c (hOther c hc).1, if_neg]
              intro hOn
              exact (hOther c hc).2
                (hSiblings.mem_of_next hMember hOn)
          · intro c
            rw [hMembers, hMem c]
            constructor
            · intro hc
              exact ⟨(hOther c ((hMem c).mpr hc)).1, hc⟩
            · exact And.right

--------------------
-- Sizes And Numbers
--------------------

/- The total is right; what is counted is taken from the heap. -/
structure TmpfsSizes
    (s : TmpfsState)
    (live : List Addr) : Prop where
  used : s.sb.usedSize.toNat = liveBytes s live
  room :
    s.sb.usedSize.toNat + s.heap.heapLeft.toNat ≤
      heapStart + heapSize
  max : s.sb.maxSize = tmpfsMaxSize

/- Every number was given once; the next one is larger. -/
structure TmpfsNumbers
    (s : TmpfsState)
    (live : List Addr) : Prop where
  distinct : ∀ a ∈ live, ∀ b ∈ live,
    (s.inodes a).ino = (s.inodes b).ino → a = b
  below : ∀ a ∈ live, (s.inodes a).ino.toNat < s.sb.nextIno.toNat
  room :
    s.sb.nextIno.toNat + s.heap.heapLeft.toNat ≤
      heapStart + heapSize

theorem liveBytes_congr
    (hSame : ∀ b ∈ live,
      (s'.inodes b).size = (s.inodes b).size) :
    liveBytes s' live = liveBytes s live := by
  unfold liveBytes
  congr 1
  apply List.map_congr_left
  intro b hb
  rw [hSame b hb]

theorem liveBytes_erase
    (ha : a ∈ live) :
    (s.inodes a).size.toNat + liveBytes s (live.erase a) =
      liveBytes s live :=
  List.sum_map_erase (fun b => (s.inodes b).size.toNat) ha

/- The total when one file gets another size. -/
theorem liveBytes_update
    (ha : a ∈ live)
    (hNodup : live.Nodup)
    (hOther : ∀ b ∈ live, b ≠ a →
      (s'.inodes b).size = (s.inodes b).size) :
    liveBytes s' live + (s.inodes a).size.toNat =
      liveBytes s live + (s'.inodes a).size.toNat := by
  have hRest :
      liveBytes s' (live.erase a) = liveBytes s (live.erase a) := by
    apply liveBytes_congr
    intro b hb
    rcases hNodup.mem_erase_iff.mp hb with ⟨hNe, hLive⟩
    exact hOther b hLive hNe
  have hOld := liveBytes_erase (s := s) ha
  have hNew := liveBytes_erase (s := s') ha
  omega

theorem TmpfsSizes.create
    {parent : Option Addr}
    {inode : Addr}
    (hSizes : TmpfsSizes s live)
    (hFresh : inode ∉ live)
    (hNew : Created s s' parent inode)
    (hLeft : s'.heap.heapLeft.toNat ≤ s.heap.heapLeft.toNat) :
    TmpfsSizes s' (inode :: live) := by
  have hRoom := hSizes.room
  have hUsed : s'.sb.usedSize = s.sb.usedSize := by rw [hNew.sb]
  constructor
  · have hSame : liveBytes s' live = liveBytes s live := by
      apply liveBytes_congr
      intro b hb
      have hNe : b ≠ inode := by
        rintro rfl
        exact hFresh hb
      exact (unlinked_fields (hNew.others b hNe)).2.1
    rw [hUsed, hSizes.used, ← hSame]
    simp [liveBytes, hNew.new.2.1]
  · rw [hUsed]
    omega
  · rw [hNew.sb]
    exact hSizes.max

theorem TmpfsSizes.delete
    (hSizes : TmpfsSizes s live)
    (hNodup : live.Nodup)
    (ha : a ∈ live)
    (hGone : Deleted s s' a) :
    TmpfsSizes s' (live.erase a) := by
  have hTotal := liveBytes_erase (s := s) ha
  have hRoom := hSizes.room
  have hUsed := hSizes.used
  have hBound : heapStart + heapSize < 2 ^ 32 := by decide
  have hSame :
      liveBytes s' (live.erase a) = liveBytes s (live.erase a) := by
    apply liveBytes_congr
    intro b hb
    rcases hNodup.mem_erase_iff.mp hb with ⟨hNe, _⟩
    exact (unlinked_fields (hGone.others b hNe)).2.1
  have hNewUsed :
      s'.sb.usedSize.toNat =
        s.sb.usedSize.toNat - (s.inodes a).size.toNat := by
    rw [hGone.sb]
    simp only [BitVec.toNat_sub]
    omega
  constructor
  · omega
  · rw [hGone.heap]
    omega
  · rw [hGone.sb]
    exact hSizes.max

variable {count offset : U32}
variable {inode : Addr}

/- What `kmalloc` takes from the heap for a file that grows. -/
theorem grown_heapLeft
    (hAccepted : ¬ WriteRefused s inode offset count)
    (hGrows : (s.inodes inode).size < offset + count) :
    (kmalloc s.heap
          ((offset + count).setWidth 64)).2.heapLeft.toNat +
        (offset + count).toNat ≤
      s.heap.heapLeft.toNat := by
  have hPtr := (grown_heap hAccepted hGrows).1
  have hOld := s.heap.adds_up
  have hNew :=
    (kmalloc s.heap ((offset + count).setWidth 64)).2.adds_up
  omega

theorem TmpfsSizes.write
    {now : U64}
    {buf : Bytes}
    {answer : Int × TmpfsState}
    (hSizes : TmpfsSizes s live)
    (hNodup : live.Nodup)
    (hInode : inode ∈ live)
    (hAccepted : ¬ WriteRefused s inode offset count)
    (hDone : WriteDone s live now inode offset buf count answer) :
    TmpfsSizes answer.2 live := by
  have hRoom := hSizes.room
  have hUsed := hSizes.used
  have hBound : heapStart + heapSize < 2 ^ 32 := by decide
  have hNode := hDone.changed.inodes
  have hSize :
      (answer.2.inodes inode).size =
        writtenSize s inode offset count := by
    rw [hNode inode hInode, if_pos rfl]
  have hTotal :
      liveBytes answer.2 live + (s.inodes inode).size.toNat =
        liveBytes s live + (answer.2.inodes inode).size.toNat :=
    liveBytes_update hInode hNodup
      (fun b hb hNe => by rw [hNode b hb, if_neg hNe])
  have hOld := liveBytes_erase (s := s) hInode
  -- the bytes the file grows by come from the heap
  have hLeft :
      answer.2.heap.heapLeft.toNat +
          (writtenSize s inode offset count).toNat ≤
        s.heap.heapLeft.toNat + (s.inodes inode).size.toNat := by
    rw [hDone.heap, writtenSize]
    by_cases hGrows : (s.inodes inode).size < offset + count
    · rw [if_pos hGrows, if_pos hGrows]
      have hTaken := grown_heapLeft hAccepted hGrows
      omega
    · rw [if_neg hGrows, if_neg hGrows]
  have hNewUsed :
      answer.2.sb.usedSize.toNat =
        s.sb.usedSize.toNat - (s.inodes inode).size.toNat +
          (writtenSize s inode offset count).toNat := by
    rw [hDone.changed.sb]
    simp only [BitVec.toNat_add, BitVec.toNat_sub]
    omega
  rw [hSize] at hTotal
  constructor
  · omega
  · omega
  · rw [hDone.changed.sb]
    exact hSizes.max

theorem TmpfsNumbers.create
    {parent : Option Addr}
    {inode : Addr}
    (hNumbers : TmpfsNumbers s live)
    (hFresh : inode ∉ live)
    (hNew : Created s s' parent inode)
    (hLeft :
      s.heap.heapLeft.toNat =
        s'.heap.heapLeft.toNat + sizeofTmpfsInode) :
    TmpfsNumbers s' (inode :: live) := by
  have hRoom := hNumbers.room
  have hBound : heapStart + heapSize < 2 ^ 32 := by decide
  have hSize : 0 < sizeofTmpfsInode := by decide
  have hNext :
      s'.sb.nextIno.toNat = s.sb.nextIno.toNat + 1 := by
    rw [hNew.sb]
    simp only [BitVec.toNat_add, BitVec.toNat_ofNat]
    omega
  have hOther : ∀ b ∈ live,
      (s'.inodes b).ino = (s.inodes b).ino := by
    intro b hb
    have hNe : b ≠ inode := by
      rintro rfl
      exact hFresh hb
    exact (unlinked_fields (hNew.others b hNe)).1
  have hIno : (s'.inodes inode).ino = s.sb.nextIno := hNew.new.1
  have hNumber : ∀ b ∈ live,
      (s'.inodes b).ino ≠ (s'.inodes inode).ino := by
    intro b hb hSame
    have hBelow := hNumbers.below b hb
    rw [hOther b hb, hIno] at hSame
    rw [hSame] at hBelow
    omega
  constructor
  · intro a ha b hb hSame
    rcases List.mem_cons.mp ha with rfl | haOld
    · rcases List.mem_cons.mp hb with rfl | hbOld
      · rfl
      · exact absurd hSame.symm (hNumber b hbOld)
    · rcases List.mem_cons.mp hb with rfl | hbOld
      · exact absurd hSame (hNumber a haOld)
      · rw [hOther a haOld, hOther b hbOld] at hSame
        exact hNumbers.distinct a haOld b hbOld hSame
  · intro b hb
    rw [hNext]
    rcases List.mem_cons.mp hb with rfl | hb
    · rw [hIno]
      omega
    · have hBelow := hNumbers.below b hb
      rw [hOther b hb]
      omega
  · rw [hNext]
    omega

/- Fewer inodes with their numbers, and no more heap. -/
theorem TmpfsNumbers.mono
    {live' : List Addr}
    (hNumbers : TmpfsNumbers s live)
    (hLive : ∀ b ∈ live', b ∈ live)
    (hIno : ∀ b ∈ live',
      (s'.inodes b).ino = (s.inodes b).ino)
    (hNext : s'.sb.nextIno = s.sb.nextIno)
    (hLeft : s'.heap.heapLeft.toNat ≤ s.heap.heapLeft.toNat) :
    TmpfsNumbers s' live' := by
  have hRoom := hNumbers.room
  constructor
  · intro a ha b hb hSame
    rw [hIno a ha, hIno b hb] at hSame
    exact hNumbers.distinct a (hLive a ha) b (hLive b hb) hSame
  · intro b hb
    rw [hIno b hb, hNext]
    exact hNumbers.below b (hLive b hb)
  · rw [hNext]
    omega

end Links

--------------------
-- Runs
--------------------

/- What every call keeps. -/
structure TmpfsInvariant (s : TmpfsSession) : Prop where
  blocks : TmpfsBlocks s.toTmpfsState s.live
  links : TmpfsLinks s.toTmpfsState s.live
  sizes : TmpfsSizes s.toTmpfsState s.live
  numbers : TmpfsNumbers s.toTmpfsState s.live

variable {s : TmpfsSession}

theorem TmpfsInvariant.accounted
    (hInv : TmpfsInvariant s) :
    TmpfsAccounted s where
  used := hInv.sizes.used
  bounded := by
    have hRoom := hInv.sizes.room
    have hBound : heapStart + heapSize ≤ tmpfsMaxSize.toNat := by
      decide
    rw [hInv.sizes.max]
    omega
  distinct := hInv.numbers.distinct
  links := hInv.links

theorem TmpfsStarted.invariant
    (hStart : TmpfsStarted s) :
    TmpfsInvariant s := by
  rcases hStart.initialized with ⟨root, sb, hInit⟩
  have hRoom := hInit.room
  rcases hInit.counters with ⟨hNext, hMax, hUsed⟩
  have hNode := hInit.node
  refine ⟨hStart.blocks, ?_, ?_, ?_⟩
  · rw [hInit.live]
    constructor
    · intro a ha p hp
      rw [List.mem_singleton.mp ha, hNode] at hp
      cases hp
    · intro dir hDir
      refine ⟨[], none, ?_, List.nodup_nil, ?_⟩
      · rw [List.mem_singleton.mp hDir, hNode]
        exact ⟨rfl, rfl⟩
      · intro c
        constructor
        · intro hc
          cases hc
        · rintro ⟨hc, hp⟩
          rw [List.mem_singleton.mp hc, hNode] at hp
          cases hp
  · rw [hInit.live]
    constructor
    · rw [hUsed]
      simp [liveBytes, hNode, TmpfsInode.zero]
    · rw [hUsed]
      simp only [BitVec.toNat_ofNat]
      omega
    · exact hMax
  · rw [hInit.live]
    constructor
    · intro a ha b hb _
      rw [List.mem_singleton.mp ha, List.mem_singleton.mp hb]
    · intro a ha
      rw [List.mem_singleton.mp ha, hNode, hNext]
      decide
    · rw [hNext]
      have hSize : 2 ≤ sizeofTmpfsInode := by decide
      simp only [BitVec.toNat_ofNat]
      omega

theorem TmpfsInvariant.step
    {s s' : TmpfsSession}
    {call : TmpfsCall}
    (hInv : TmpfsInvariant s)
    (hOk : TmpfsWriteOk s call)
    (hStep : tmpfsStep s call s') :
    TmpfsInvariant s' := by
  have hBlocks := hInv.blocks.step hOk hStep
  have hFresh := hInv.blocks.fresh
  have hNodup := hInv.blocks.nodup
  rcases hStep with ⟨hLegal, rfl⟩
  cases call with
  | create now parent name mode =>
      have hParent : parent ≠ some s.heap.heapPtr := by
        rintro rfl
        exact hFresh (hLegal _ rfl)
      rcases tmpfsCreate_cases now name mode hParent with
        hFull | ⟨t, hNew, hCreated, _, hLeft⟩
      · simp only [tmpfsNext, hFull]
        exact hInv
      · have hLess :
            t.heap.heapLeft.toNat ≤ s.heap.heapLeft.toNat := by
          omega
        simp only [tmpfsNext, hNew] at hBlocks ⊢
        exact
          { blocks := hBlocks
            links := hInv.links.create hLegal hFresh hCreated
            sizes := hInv.sizes.create hFresh hCreated hLess
            numbers := hInv.numbers.create hFresh hCreated hLeft }
  | delete inode =>
      cases inode with
      | none => exact hInv
      | some a =>
          rcases hLegal a rfl with ⟨ha, hChildless⟩
          have hRefs := hInv.blocks.refs a ha
          have hGone :=
            tmpfsDelete_deleted hRefs (hInv.blocks.empty a ha)
          simp only [tmpfsNext, hRefs] at hBlocks ⊢
          refine ⟨hBlocks, ?_, ?_, ?_⟩
          · exact hInv.links.delete hNodup ha hChildless hGone
          · exact hInv.sizes.delete hNodup ha hGone
          · apply hInv.numbers.mono
            · exact fun b hb => List.mem_of_mem_erase hb
            · intro b hb
              rcases hNodup.mem_erase_iff.mp hb with ⟨hNe, _⟩
              exact (unlinked_fields (hGone.others b hNe)).1
            · rw [hGone.sb]
            · rw [hGone.heap]
  | read inode offset buf count => exact hInv
  | write now inode offset buf count =>
      cases inode with
      | none => exact hInv
      | some inode =>
          cases buf with
          | none => exact hInv
          | some buf =>
              have hInode := hLegal inode rfl
              simp only [tmpfsNext] at hBlocks ⊢
              rcases tmpfsWrite_cases hInv.blocks hInode hOk with
                ⟨_, hSame⟩ | ⟨hAccepted, hDone⟩
              · rw [hSame]
                exact hInv
              · have hNode := hDone.changed.inodes
                refine ⟨hBlocks, ?_, ?_, ?_⟩
                · apply hInv.links.congr
                  all_goals
                    intro b hb
                    rw [hNode b hb]
                    split
                    next hb => rw [hb]
                    next => rfl
                · exact hInv.sizes.write hNodup hInode hAccepted
                    hDone
                · apply hInv.numbers.mono
                  · exact fun b hb => hb
                  · intro b hb
                    rw [hNode b hb]
                    split
                    next hb => rw [hb]
                    next => rfl
                  · rw [hDone.changed.sb]
                  · rw [hDone.heap]
                    split
                    · exact kmalloc_heapLeft_le _ _
                    · exact Nat.le_refl _
  | other size memory =>
      have hLeft := kmalloc_heapLeft_le s.heap size
      have hRoom := hInv.sizes.room
      refine ⟨hBlocks, ?_, ?_, ?_⟩
      · exact ⟨hInv.links.parents, hInv.links.children⟩
      · exact ⟨hInv.sizes.used, by simp only [tmpfsNext]; omega,
          hInv.sizes.max⟩
      · exact hInv.numbers.mono (fun b hb => hb) (fun _ _ => rfl)
          rfl hLeft

/-
  After calls whose copies reach no live inode and not the
  superblock, sizes, numbers and lists are right.
-/
theorem tmpfsRun_accounted
    {s₀ s : TmpfsSession}
    {calls : List TmpfsCall}
    (hStart : TmpfsStarted s₀)
    (hRun : Run (Guarded TmpfsWriteOk tmpfsStep) s₀ calls s) :
    TmpfsAccounted s := by
  have hInv : TmpfsInvariant s := by
    apply hRun.invariant TmpfsInvariant
    · intro t call t' hInv hStep
      exact hInv.step hStep.1 hStep.2
    · exact hStart.invariant
  exact hInv.accounted

--------------------
-- Two Sessions
--------------------

theorem fileSession_run :
    Run (Guarded TmpfsWriteOk tmpfsStep) startedTmpfs fileCalls
      fileSession := by
  refine .cons ⟨trivial, ?_, rfl⟩
    (.cons ⟨.inl (by decide), ?_, rfl⟩ (.nil _))
  · intro p hp
    cases hp
    decide +kernel
  · intro a ha
    cases ha
    decide +kernel

theorem tmpfsRun_accounted_file :
    TmpfsAccounted fileSession :=
  tmpfsRun_accounted startedTmpfs_started fileSession_run

/-
  A write of 2^32 - 8 bytes to the end of the file is
  accepted and runs over the inode that was created last.
-/
theorem tmpfsWrite_overruns :
    ¬ ∀ (s₀ s : TmpfsSession) (calls : List TmpfsCall),
      TmpfsStarted s₀ → Run tmpfsStep s₀ calls s →
        TmpfsAccounted s := by
  intro hAll
  let create : TmpfsCall :=
    .create 0#64 (some 0x200018#64) (some ⟨[0x67#8], by decide⟩)
      1#16
  let write : TmpfsCall :=
    .write 0#64 (some 0x200170#64) 8#32 (some fun _ => 1#8)
      0xFFFFFFF8#32
  have hRun :
      Run tmpfsStep startedTmpfs (fileCalls ++ [create] ++ [write])
        (tmpfsNext (tmpfsNext fileSession create) write) := by
    apply Run.snoc
    · apply Run.snoc fileSession_run.of_guarded
      refine ⟨?_, rfl⟩
      intro p hp
      cases hp
      decide +kernel
    · refine ⟨?_, rfl⟩
      intro a ha
      cases ha
      decide +kernel
  have hUsed := (hAll _ _ _ startedTmpfs_started hRun).used
  revert hUsed
  decide +kernel

end FeatherOS
