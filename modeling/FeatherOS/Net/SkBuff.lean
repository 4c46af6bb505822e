import FeatherOS.Kmalloc
import FeatherOS.Library.ByteMemory
import FeatherOS.Library.Run

/-
  The socket buffers of `kernel/net/network.c`.

  The records are kept in a map from their addresses and the
  data in a byte memory. `kfree` gives nothing back, so the
  state only records which buffers were allocated, freed and
  handed to a device; the source has no such lists.

  Key definitions include:
    * `SkBuff`
    * `SkbState`
    * `skbAlloc`
    * `skbClone`
    * `skbStep`
-/

namespace FeatherOS

--------------------
-- State
--------------------

/- sk_buff_t, without its links -/
structure SkBuff where
  data : Addr
  head : Addr
  tail : Addr
  stop : Addr
  len : U32
  truesize : U32
  protocol : U16
  dev : Option Addr

structure SkbState where
  heap : Heap
  skbs : Addr → SkBuff
  memory : ByteMemory
  allocated : List Addr
  freed : List Addr
  handed : List Addr

/- sizeof(sk_buff_t) -/
def sizeofSkBuff : U64 := 88#64

/- The bytes before the data of a new buffer -/
def skbHeadroom : Nat := 64

def SkbState.modifySkb
    (s : SkbState)
    (p : Addr)
    (f : SkBuff → SkBuff) :
    SkbState :=
  { s with skbs := Function.update s.skbs p (f (s.skbs p)) }

--------------------
-- Operations
--------------------

/- `size + sizeof(sk_buff_t) + 64`, which wraps at 2^32 -/
def skbTotalSize (size : U32) : U32 :=
  size + 152#32

def newSkb
    (buf : Addr)
    (totalSize : U32) :
    SkBuff where
  data := buf + BitVec.ofNat 64 skbHeadroom
  head := buf
  tail := buf + BitVec.ofNat 64 skbHeadroom
  stop := buf + totalSize.setWidth 64
  len := 0#32
  truesize := totalSize
  protocol := 0#16
  dev := none

def skbAlloc
    (s : SkbState)
    (size : U32) :
    Option Addr × SkbState :=
  match kmalloc s.heap sizeofSkBuff with
  | (none, heap) => (none, { s with heap := heap })
  | (some p, heap) =>
      match kmalloc heap ((skbTotalSize size).setWidth 64) with
      | (none, heap) => (none, { s with heap := heap })
      | (some buf, heap) =>
          (some p,
            { s with
              heap := heap
              skbs :=
                Function.update s.skbs p
                  (newSkb buf (skbTotalSize size))
              allocated := s.allocated ++ [p] })

def skbFree
    (s : SkbState)
    (skb : Option Addr) :
    SkbState :=
  match skb with
  | none => s
  | some p => { s with freed := s.freed ++ [p] }

def skbClone
    (s : SkbState)
    (skb : Option Addr) :
    Option Addr × SkbState :=
  match skb with
  | none => (none, s)
  | some p =>
      match skbAlloc s (s.skbs p).len with
      | (none, s) => (none, s)
      | (some c, s) =>
          let old := s.skbs p
          let s :=
            { s with
              memory :=
                s.memory.patch (s.skbs c).data old.len.toNat
                  fun i => s.memory (old.data + BitVec.ofNat 64 i) }
          (some c,
            s.modifySkb c fun b =>
              { b with
                len := old.len
                protocol := old.protocol
                dev := old.dev })

/- The first bytes are taken off. -/
def SkBuff.pull
    (b : SkBuff)
    (len : U32) :
    SkBuff :=
  { b with
    data := b.data + len.setWidth 64
    len := b.len - len }

/- Bytes are put in front. -/
def SkBuff.push
    (b : SkBuff)
    (len : U32) :
    SkBuff :=
  { b with
    data := b.data - len.setWidth 64
    len := b.len + len }

/- Bytes are put at the end. -/
def SkBuff.put
    (b : SkBuff)
    (len : U32) :
    SkBuff :=
  { b with
    tail := b.tail + len.setWidth 64
    len := b.len + len }

def SkBuff.trim
    (b : SkBuff)
    (len : U32) :
    SkBuff :=
  { b with
    len := len
    tail := b.data + len.setWidth 64 }

def skbPull
    (s : SkbState)
    (skb : Option Addr)
    (len : U32) :
    Option Addr × SkbState :=
  match skb with
  | none => (none, s)
  | some p =>
      if (s.skbs p).len < len then
        (none, s)
      else
        let s := s.modifySkb p fun b => b.pull len
        (some (s.skbs p).data, s)

/- The room before the data is compared with `(int)len`. -/
def skbPush
    (s : SkbState)
    (skb : Option Addr)
    (len : U32) :
    Option Addr × SkbState :=
  match skb with
  | none => (none, s)
  | some p =>
      if ((s.skbs p).data - (s.skbs p).head).toInt < len.toInt then
        (none, s)
      else
        let s := s.modifySkb p fun b => b.push len
        (some (s.skbs p).data, s)

def skbPut
    (s : SkbState)
    (skb : Option Addr)
    (len : U32) :
    Option Addr × SkbState :=
  match skb with
  | none => (none, s)
  | some p =>
      (some (s.skbs p).tail, s.modifySkb p fun b => b.put len)

def skbTrim
    (s : SkbState)
    (skb : Option Addr)
    (len : U32) :
    SkbState :=
  match skb with
  | none => s
  | some p =>
      if len < (s.skbs p).len then
        s.modifySkb p fun b => b.trim len
      else
        s

--------------------
-- Calls
--------------------

inductive SkbCall where
  | alloc (size : U32)
  | clone (skb : Option Addr)
  | pull (skb : Option Addr) (len : U32)
  | push (skb : Option Addr) (len : U32)
  | put (skb : Option Addr) (len : U32)
  | trim (skb : Option Addr) (len : U32)

/- The buffer that a call gets. -/
def SkbCall.skb : SkbCall → Option Addr
  | .alloc _ => none
  | .clone skb => skb
  | .pull skb _ => skb
  | .push skb _ => skb
  | .put skb _ => skb
  | .trim skb _ => skb

/- The pointer a call returns, and the state after it -/
def skbCall
    (s : SkbState) :
    SkbCall → Option Addr × SkbState
  | .alloc size => skbAlloc s size
  | .clone skb => skbClone s skb
  | .pull skb len => skbPull s skb len
  | .push skb len => skbPush s skb len
  | .put skb len => skbPut s skb len
  | .trim skb len => (none, skbTrim s skb len)

/- A call on a buffer that was obtained before, or on NULL. -/
def skbStep
    (s : SkbState)
    (call : SkbCall)
    (s' : SkbState) : Prop :=
  (∀ p, call.skb = some p → p ∈ s.allocated) ∧
    s' = (skbCall s call).2

end FeatherOS
