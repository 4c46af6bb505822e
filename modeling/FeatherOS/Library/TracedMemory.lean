import FeatherOS.Library.ByteMemory
import Mathlib.Data.List.Induction

/-
  A byte memory with the addresses that were written to.

  The bytes of a piece are written one after another. Pieces
  that lie apart from each other all keep their bytes.

  Key definitions include:
    * `TracedMemory`
    * `TracedMemory.fill`
    * `TracedMemory.fillAll`

  Key rules include:
    * `TracedMemory.fill_mem`
    * `TracedMemory.fill_writes`
    * `TracedMemory.fillAll_inside`
    * `TracedMemory.mem_fillAll_writes`
-/

structure TracedMemory where
  mem : ByteMemory
  writes : List (BitVec 64)

namespace TracedMemory

def write
    (s : TracedMemory)
    (a : BitVec 64)
    (b : BitVec 8) : TracedMemory where
  mem := Function.update s.mem a b
  writes := s.writes ++ [a]

/- The bytes one after another from `a` on -/
def fill
    (s : TracedMemory) :
    BitVec 64 → List (BitVec 8) → TracedMemory
  | _, [] => s
  | a, b :: bs => fill (s.write a b) (a + 1#64) bs

/- Some bytes, and where they go -/
structure Piece where
  start : BitVec 64
  bytes : List (BitVec 8)

def fillAll
    (s : TracedMemory)
    (pieces : List Piece) : TracedMemory :=
  pieces.foldl (fun t piece => t.fill piece.start piece.bytes) s

variable {s : TracedMemory}
variable {a b : BitVec 64}

--------------------
-- One Piece
--------------------

theorem fill_append
    (xs ys : List (BitVec 8)) :
    s.fill a (xs ++ ys) =
      (s.fill a xs).fill (a + BitVec.ofNat 64 xs.length) ys := by
  induction xs generalizing s a with
  | nil =>
      rw [List.length_nil, BitVec.add_zero]
      rfl
  | cons x xs ih =>
      have hNext :
          a + 1#64 + BitVec.ofNat 64 xs.length =
            a + BitVec.ofNat 64 (x :: xs).length := by
        rw [List.length_cons, BitVec.add_assoc,
          BitVec.ofNat_add, BitVec.add_comm 1#64]
      rw [List.cons_append, fill, ih, hNext]
      rfl

theorem fill_mem
    {bs : List (BitVec 8)}
    (hFit : bs.length ≤ 2 ^ 64) :
    (s.fill a bs).mem = s.mem.put a bs := by
  induction bs using List.reverseRecOn with
  | nil =>
      rw [ByteMemory.put_nil]
      rfl
  | append_singleton bs b ih =>
      rw [List.length_append, List.length_singleton] at hFit
      have hLast :
          (s.fill a (bs ++ [b])).mem =
            Function.update (s.fill a bs).mem
              (a + BitVec.ofNat 64 bs.length) b := by
        rw [fill_append]
        rfl
      rw [hLast, ih (by omega)]
      exact ByteMemory.put_concat (by omega) b

theorem fill_writes
    (bs : List (BitVec 8)) :
    (s.fill a bs).writes =
      s.writes ++
        (List.range bs.length).map fun k =>
          a + BitVec.ofNat 64 k := by
  induction bs using List.reverseRecOn with
  | nil => simp [fill]
  | append_singleton bs b ih =>
      have hLast :
          (s.fill a (bs ++ [b])).writes =
            (s.fill a bs).writes ++
              [a + BitVec.ofNat 64 bs.length] := by
        rw [fill_append]
        rfl
      rw [hLast, ih, List.length_append, List.length_singleton,
        List.range_succ, List.map_append, List.append_assoc]
      rfl

--------------------
-- Several Pieces
--------------------

namespace Piece

/- The piece does not go past the end of the address space. -/
def Fits (piece : Piece) : Prop :=
  piece.start.toNat + piece.bytes.length ≤ 2 ^ 64

/- The bytes of memory that the piece goes to -/
def extent (piece : Piece) : Extent :=
  ⟨piece.start.toNat, piece.bytes.length⟩

end Piece

variable {piece : Piece}
variable {pieces : List Piece}

@[simp] theorem fillAll_nil :
    s.fillAll [] = s := rfl

@[simp] theorem fillAll_cons :
    s.fillAll (piece :: pieces) =
      (s.fill piece.start piece.bytes).fillAll pieces := rfl

theorem mem_fillAll_writes :
    b ∈ (s.fillAll pieces).writes ↔
      b ∈ s.writes ∨
        ∃ piece ∈ pieces, ∃ k < piece.bytes.length,
          piece.start + BitVec.ofNat 64 k = b := by
  induction pieces generalizing s with
  | nil => simp
  | cons piece pieces ih =>
      simp only [fillAll_cons, ih, fill_writes, List.mem_append,
        List.mem_map, List.mem_range, List.exists_mem_cons_iff,
        or_assoc]

theorem fillAll_outside
    (hFit : ∀ piece ∈ pieces, piece.Fits)
    (hOut : ∀ piece ∈ pieces,
      b.toNat < piece.start.toNat ∨
        piece.start.toNat + piece.bytes.length ≤ b.toNat) :
    (s.fillAll pieces).mem b = s.mem b := by
  induction pieces generalizing s with
  | nil => rfl
  | cons piece pieces ih =>
      rcases List.forall_mem_cons.mp hFit with ⟨hPiece, hPieces⟩
      rcases List.forall_mem_cons.mp hOut with ⟨hFar, hFars⟩
      have hLength := Nat.le_trans (Nat.le_add_left _ _) hPiece
      rw [fillAll_cons, ih hPieces hFars, fill_mem hLength]
      exact ByteMemory.patch_outside hPiece hFar

/- Every piece keeps its bytes. -/
theorem fillAll_inside
    {k : Nat}
    (hFit : ∀ piece ∈ pieces, piece.Fits)
    (hApart : pieces.Pairwise fun x y => x.extent.Apart y.extent)
    (hMem : piece ∈ pieces)
    (hIn : k < piece.bytes.length) :
    (s.fillAll pieces).mem (piece.start + BitVec.ofNat 64 k) =
      piece.bytes[k] := by
  induction pieces generalizing s with
  | nil => exact absurd hMem List.not_mem_nil
  | cons first pieces ih =>
      rcases List.forall_mem_cons.mp hFit with ⟨hFirst, hPieces⟩
      rcases List.pairwise_cons.mp hApart with ⟨hOthers, hRest⟩
      rcases List.mem_cons.mp hMem with hHere | hLater
      · subst hHere
        have hLength : piece.bytes.length ≤ 2 ^ 64 :=
          Nat.le_trans (Nat.le_add_left _ _) hFirst
        have hAt :
            (piece.start + BitVec.ofNat 64 k).toNat =
              piece.start.toNat + k := by
          unfold Piece.Fits at hFirst
          rw [BitVec.toNat_add, BitVec.toNat_ofNat]
          omega
        have hKept :
            ∀ other ∈ pieces,
              (piece.start + BitVec.ofNat 64 k).toNat <
                  other.start.toNat ∨
                other.start.toNat + other.bytes.length ≤
                  (piece.start + BitVec.ofNat 64 k).toNat := by
          intro other hOther
          have hApart := hOthers other hOther
          unfold Extent.Apart Piece.extent at hApart
          simp only at hApart
          omega
        rw [fillAll_cons, fillAll_outside hPieces hKept,
          fill_mem hLength]
        exact ByteMemory.put_inside hIn hLength
      · exact ih hPieces hRest hLater

end TracedMemory
