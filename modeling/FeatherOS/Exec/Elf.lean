import FeatherOS.Kmalloc
import FeatherOS.Library.ByteImage
import FeatherOS.Library.TracedMemory

/-
  The ELF64 loader of `kernel/exec.c`.

  The file is a byte string of the kernel's own, which nothing
  the loader writes is a part of. A read outside of it has no
  result. User memory takes every write, and keeps a list of
  the addresses.

  Key definitions include:
    * `elfValidateHeader`
    * `elfSizes`
    * `loadSegment`
    * `elfLoad`
-/

namespace FeatherOS

/- `elf_data`, with `size` bytes behind it -/
abbrev ElfImage := ByteImage

--------------------
-- Headers
--------------------

/- A field of a packed struct: its offset and its length -/
structure ElfField where
  offset : Nat
  bytes : Nat

/- `elf64_header_t` -/
def eIdent (i : Nat) : ElfField := ⟨i, 1⟩
def eType : ElfField := ⟨16, 2⟩
def eMachine : ElfField := ⟨18, 2⟩
def eVersion : ElfField := ⟨20, 4⟩
def eEntry : ElfField := ⟨24, 8⟩
def ePhoff : ElfField := ⟨32, 8⟩
def ePhnum : ElfField := ⟨56, 2⟩
def elfHeaderSize : Nat := 64

/- `elf64_phdr_t` -/
def pType : ElfField := ⟨0, 4⟩
def pOffset : ElfField := ⟨8, 8⟩
def pVaddr : ElfField := ⟨16, 8⟩
def pFilesz : ElfField := ⟨32, 8⟩
def pMemsz : ElfField := ⟨40, 8⟩
def elfPhdrSize : Nat := 56

/- `PT_LOAD` -/
def ptLoad : Nat := 1

/- `hdr->f` -/
def elfHeader
    (im : ElfImage)
    (f : ElfField) : Option Nat :=
  im.number (im.data + BitVec.ofNat 64 f.offset) f.bytes

/- `phdr[i].f` -/
def elfPhdr
    (im : ElfImage)
    (phdr : Addr)
    (i : Nat)
    (f : ElfField) : Option Nat :=
  im.number
    (phdr + BitVec.ofNat 64 (elfPhdrSize * i) +
      BitVec.ofNat 64 f.offset)
    f.bytes

--------------------
-- Validation
--------------------

/- The header is refused with `code` unless `field` is `value`. -/
structure ElfTest where
  field : ElfField
  value : Nat
  code : Int

def elfTests : List ElfTest :=
  [⟨eIdent 0, 0x7F, -1⟩, ⟨eIdent 1, 0x45, -1⟩,
    ⟨eIdent 2, 0x4C, -1⟩, ⟨eIdent 3, 0x46, -1⟩,
    ⟨eIdent 4, 2, -2⟩, ⟨eIdent 5, 1, -3⟩,
    ⟨eVersion, 1, -4⟩, ⟨eMachine, 62, -5⟩, ⟨eType, 2, -6⟩]

/- The tests, up to the first one that fails -/
def elfRunTests
    (im : ElfImage) : List ElfTest → Option Int
  | [] => some 0
  | t :: ts => do
      let v ← elfHeader im t.field
      if v ≠ t.value then
        return t.code
      else
        elfRunTests im ts

def elfValidateHeader (im : ElfImage) : Option Int :=
  elfRunTests im elfTests

--------------------
-- Sizes
--------------------

/- `lowest_vaddr`, `highest_vaddr` and `total_memsz` -/
structure ElfSizes where
  lowest : Nat
  highest : Nat
  total : Nat

def ElfSizes.start : ElfSizes :=
  ⟨0xFFFFFFFFFFFFFFFF, 0, 0⟩

/- Where a segment ends, in 64 bits -/
def elfTop (vaddr memsz : Nat) : Nat :=
  (vaddr + memsz) % 2 ^ 64

def ElfSizes.add
    (z : ElfSizes)
    (vaddr memsz : Nat) : ElfSizes where
  lowest := if vaddr < z.lowest then vaddr else z.lowest
  highest :=
    if z.highest < elfTop vaddr memsz then
      elfTop vaddr memsz
    else
      z.highest
  total := (z.total + memsz) % 2 ^ 64

/- The first loop, for the entries that are left -/
def elfSizes
    (im : ElfImage)
    (phdr : Addr) : List Nat → ElfSizes → Option ElfSizes
  | [], z => some z
  | i :: is, z => do
      let type ← elfPhdr im phdr i pType
      if type = ptLoad then do
        let vaddr ← elfPhdr im phdr i pVaddr
        let memsz ← elfPhdr im phdr i pMemsz
        elfSizes im phdr is (z.add vaddr memsz)
      else
        elfSizes im phdr is z

--------------------
-- Segments
--------------------

/- `USER_CODE_VADDR` -/
def userCodeVaddr : Nat := 0x400000

/- The last address in user space -/
def userLimit : Nat := 0x7FFFFFFFFFFF

/- `dst[j] = src[j]` for the next `n` values of `j` -/
def copyLoop
    (im : ElfImage)
    (dst src : Addr) :
    Nat → Nat → TracedMemory → Option TracedMemory
  | 0, _, s => some s
  | n + 1, j, s => do
      let b ← im.byte (src + BitVec.ofNat 64 j)
      copyLoop im dst src n (j + 1)
        (s.write (dst + BitVec.ofNat 64 j) b)

/- `dst[j] = 0` for the next `n` values of `j` -/
def zeroLoop
    (dst : Addr) : Nat → Nat → TracedMemory → TracedMemory
  | 0, _, s => s
  | n + 1, j, s =>
      zeroLoop dst n (j + 1)
        (s.write (dst + BitVec.ofNat 64 j) 0#8)

/- The two loops for a segment that passed the check -/
def copySegment
    (im : ElfImage)
    (phdr : Addr)
    (i : Nat)
    (dst src : Addr)
    (copySize : Nat)
    (s : TracedMemory) : Option (Int × TracedMemory) := do
  let t ← copyLoop im dst src copySize 0 s
  let memsz ← elfPhdr im phdr i pMemsz
  return (0, zeroLoop dst (memsz - copySize) copySize t)

/- The body of the second loop: what it returns if not 0 -/
def loadSegment
    (im : ElfImage)
    (phdr : Addr)
    (i : Nat)
    (s : TracedMemory) : Option (Int × TracedMemory) := do
  let srcOffset ← elfPhdr im phdr i pOffset
  let dstVaddr ← elfPhdr im phdr i pVaddr
  let copySize ← elfPhdr im phdr i pFilesz
  let dst :=
    BitVec.ofNat 64 userCodeVaddr + BitVec.ofNat 64 dstVaddr
  let src := im.data + BitVec.ofNat 64 srcOffset
  if im.data + BitVec.ofNat 64 im.size <
      src + BitVec.ofNat 64 copySize then
    return (-11, s)
  else
    copySegment im phdr i dst src copySize s

def elfSegments
    (im : ElfImage)
    (phdr : Addr) :
    List Nat → TracedMemory → Option (Int × TracedMemory)
  | [], s => some (0, s)
  | i :: is, s => do
      let type ← elfPhdr im phdr i pType
      if type = ptLoad then do
        let (ret, t) ← loadSegment im phdr i s
        if ret ≠ 0 then
          return (ret, t)
        else
          elfSegments im phdr is t
      else
        elfSegments im phdr is s

--------------------
-- Loading
--------------------

/- `USER_STACK_VADDR + USER_STACK_SIZE - 8` -/
def userStackTop : Nat := 0x7fffffff000 + 0x200000 - 8

/- What the caller gets, and what is in user memory -/
structure ElfLoaded where
  ret : Int
  outEntry : Option Nat
  outStack : Option Nat
  user : TracedMemory

/- `return ret` without anything set -/
def ElfLoaded.failed
    (ret : Int)
    (user : TracedMemory) : ElfLoaded :=
  ⟨ret, none, none, user⟩

/- The end of the function; a NULL pointer is not written to. -/
def elfOutputs
    (im : ElfImage)
    (wantsEntry wantsStack : Bool)
    (user : TracedMemory) : Option ElfLoaded := do
  let entry ←
    if wantsEntry then
      (elfHeader im eEntry).map some
    else
      some none
  let stack := if wantsStack then some userStackTop else none
  return ⟨0, entry, stack, user⟩

def elfCopyAll
    (im : ElfImage)
    (wantsEntry wantsStack : Bool)
    (phdr : Addr)
    (is : List Nat)
    (user : TracedMemory) : Option ElfLoaded := do
  let (ret, t) ← elfSegments im phdr is user
  if ret ≠ 0 then
    return .failed ret t
  else
    elfOutputs im wantsEntry wantsStack t

/- What follows the validation -/
def elfLoadTable
    (im : ElfImage)
    (wantsEntry wantsStack : Bool)
    (user : TracedMemory) : Option ElfLoaded := do
  let phoff ← elfHeader im ePhoff
  let phnum ← elfHeader im ePhnum
  let phdr := im.data + BitVec.ofNat 64 phoff
  let z ← elfSizes im phdr (List.range phnum) .start
  if userLimit < z.highest then
    return .failed (-10) user
  else
    elfCopyAll im wantsEntry wantsStack phdr (List.range phnum)
      user

def elfLoad
    (im : ElfImage)
    (wantsEntry wantsStack : Bool)
    (m : ByteMemory) : Option ElfLoaded := do
  let valid ← elfValidateHeader im
  if valid ≠ 0 then
    return .failed (-1) ⟨m, []⟩
  else
    elfLoadTable im wantsEntry wantsStack ⟨m, []⟩

end FeatherOS
