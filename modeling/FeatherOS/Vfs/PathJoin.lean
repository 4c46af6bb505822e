import FeatherOS.Memory.Strings
import FeatherOS.Vfs.Model

/-
  Joining a directory and a name.

  `vfs_path_join` of `kernel/fs/vfs.c` over a memory of bytes.
  What it wrote before a test fails stays in the buffer.

  Key definitions include:
    * `vfsPathJoin`
    * `joinedPath`

  Key theorems include:
    * `joinName_string`
    * `vfsPathJoin_exact`
-/

namespace FeatherOS

--------------------
-- Joining
--------------------

/- What follows the directory -/
def joinName
    (m : ByteMemory)
    (dest : Addr)
    (len pos : U64)
    (name : Addr) :
    Int × ByteMemory :=
  let nlen := strlen m name
  if pos + nlen ≥ len then
    (-1, m)
  else
    let m := memcpy m (dest + pos) name nlen
    (0, Function.update m (dest + (pos + nlen)) 0#8)

def vfsPathJoin
    (m : ByteMemory)
    (dest : Option Addr)
    (len : U64)
    (dir name : Option Addr) :
    Int × ByteMemory :=
  match dest, name with
  | some dest, some name =>
      match dir with
      | none => joinName m dest len 0 name
      | some dir =>
          let dlen := strlen m dir
          if dlen ≥ len then
            (-1, m)
          else
            let m := strcpy m dest dir
            if dlen > 0 ∧ m (dest + (dlen - 1)) ≠ slash then
              if dlen + 1 ≥ len then
                (-1, m)
              else
                joinName (Function.update m (dest + dlen) slash)
                  dest len (dlen + 1) name
            else
              joinName m dest len dlen name
  | _, _ => (-1, m)

/- The directory, a slash unless it ends in one, and the name -/
def joinedPath
    (dir : Option CString)
    (name : CString) : List U8 :=
  match dir with
  | none => name.bytes
  | some dir =>
      if dir.bytes ≠ [] ∧ dir.bytes.getLast? ≠ some slash then
        dir.bytes ++ [slash] ++ name.bytes
      else
        dir.bytes ++ name.bytes

--------------------
-- The Join
--------------------

/-
  A directory, or NULL, and a name lie apart from the bytes
  of the buffer that the joined path can take.
-/
structure JoinArgs
    (m : ByteMemory)
    (dest : Addr)
    (len : U64)
    (dir : Option (Addr × CString))
    (name : Addr × CString) : Prop where
  dirAt : ∀ d ∈ dir, StringAt m d.1 d.2
  nameAt : StringAt m name.1 name.2
  fits : dest.toNat +
      min len.toNat
        ((joinedPath (dir.map Prod.snd) name.2).length + 1) ≤
    2 ^ 64
  dirApart : ∀ d ∈ dir,
    Extent.Apart
      ⟨dest.toNat, min len.toNat
        ((joinedPath (dir.map Prod.snd) name.2).length + 1)⟩
      (d.2.extent d.1)
  nameApart :
    Extent.Apart
      ⟨dest.toNat, min len.toNat
        ((joinedPath (dir.map Prod.snd) name.2).length + 1)⟩
      (name.2.extent name.1)

section Join

variable {m : ByteMemory}
variable {dest : Addr}
variable {len : U64}

/- The name is put behind what there is, if it fits. -/
theorem joinName_string
    {s : Addr}
    {str : CString}
    {front last : List U8}
    {room : Nat}
    (hAt : StringAt m s str)
    (hFits : dest.toNat + room ≤ 2 ^ 64)
    (hApart : Extent.Apart ⟨dest.toNat, room⟩ (str.extent s))
    (hLast : last.length ≤ 1)
    (hFront : (front ++ last).length ≤ room)
    (hRoom : room = min len.toNat
      (front.length + str.bytes.length + 1)) :
    joinName (m.put dest (front ++ last)) dest len
        (BitVec.ofNat 64 front.length) s =
      if front.length + str.bytes.length + 1 ≤ len.toNat then
        (0, m.put dest (front ++ str.closed))
      else
        (-1, m.put dest (front ++ last)) := by
  rw [List.length_append] at hFront
  have hClosed := str.length_closed
  have hEnd := hAt.fits
  -- The buffer and the name share the address space.
  have hWrap : room + str.closed.length ≤ 2 ^ 64 := by
    simp only [Extent.Apart, CString.extent] at hApart
    omega
  have hThere : StringAt (m.put dest (front ++ last)) s str :=
    hAt.put (by rw [List.length_append]; omega)
      (hApart.shorter (by rw [List.length_append]; omega))
  have hPlace :
      BitVec.ofNat 64 front.length +
          BitVec.ofNat 64 str.bytes.length =
        BitVec.ofNat 64 (front.length + str.bytes.length) :=
    (BitVec.ofNat_add ..).symm
  have hSum :
      (BitVec.ofNat 64
          (front.length + str.bytes.length)).toNat =
        front.length + str.bytes.length := by
    rw [BitVec.toNat_ofNat]
    omega
  simp only [joinName, strlen_string hThere, hPlace,
    ge_iff_le, BitVec.le_def, hSum]
  by_cases hIn :
      front.length + str.bytes.length + 1 ≤ len.toNat
  · have hAddr :
        (dest + BitVec.ofNat 64 front.length).toNat =
          dest.toNat + front.length := by
      rw [BitVec.toNat_add, BitVec.toNat_ofNat]
      omega
    have hPart :
        Extent.Apart
          ⟨(dest + BitVec.ofNat 64 front.length).toNat,
            str.bytes.length⟩ (str.extent s) := by
      refine hApart.part ?_ ?_
      · simp only [hAddr]
        omega
      · simp only [hAddr]
        omega
    have hCopy := memcpy_string hThere (by omega) hPart
    have hNul :
        dest + BitVec.ofNat 64
            (front.length + str.bytes.length) =
          dest + BitVec.ofNat 64 front.length +
            BitVec.ofNat 64 str.bytes.length := by
      rw [BitVec.ofNat_add, BitVec.add_assoc]
    rw [if_neg (by omega), if_pos hIn, hCopy, hNul,
      ByteMemory.put_concat hAt.length_lt]
    have hOver := @ByteMemory.put_over m dest front
      (str.bytes ++ [0#8]) last (by simp; omega)
      (by simp; omega)
    rw [hOver]
    rfl
  · rw [if_pos (by omega), if_neg hIn]

/- What a call returns, and what it has put into the buffer -/
structure JoinDone
    (m : ByteMemory)
    (dest : Addr)
    (len : U64)
    (joined : List U8)
    (result : Int × ByteMemory) : Prop where
  built : joined.length + 1 ≤ len.toNat →
    result = (0, m.put dest (joined ++ [0#8]))
  short : len.toNat < joined.length + 1 →
    ∃ bytes : List U8, bytes.length ≤ len.toNat ∧
      result = (-1, m.put dest bytes)

theorem joinName_done
    {s : Addr}
    {str : CString}
    {front last : List U8}
    {room : Nat}
    (hAt : StringAt m s str)
    (hFits : dest.toNat + room ≤ 2 ^ 64)
    (hApart : Extent.Apart ⟨dest.toNat, room⟩ (str.extent s))
    (hLast : last.length ≤ 1)
    (hFront : (front ++ last).length ≤ room)
    (hRoom : room = min len.toNat
      ((front ++ str.bytes).length + 1)) :
    JoinDone m dest len (front ++ str.bytes)
      (joinName (m.put dest (front ++ last)) dest len
        (BitVec.ofNat 64 front.length) s) := by
  rw [List.length_append] at hRoom
  have hName :=
    joinName_string hAt hFits hApart hLast hFront hRoom
  constructor
  · intro hIn
    rw [List.length_append] at hIn
    rw [hName, if_pos hIn, List.append_assoc]
    rfl
  · intro hShort
    rw [List.length_append] at hShort
    refine ⟨front ++ last, by omega, ?_⟩
    rw [hName, if_neg (by omega)]

/- The test for a slash at the end of the directory -/
theorem needs_slash
    {dir : CString}
    (hLength : dir.closed.length ≤ 2 ^ 64) :
    (BitVec.ofNat 64 dir.bytes.length > 0 ∧
        m.put dest dir.closed
          (dest + (BitVec.ofNat 64 dir.bytes.length - 1)) ≠
            slash) ↔
      dir.bytes ≠ [] ∧ dir.bytes.getLast? ≠ some slash := by
  have hClosed := dir.length_closed
  have hPos :
      BitVec.ofNat 64 dir.bytes.length > 0 ↔
        dir.bytes ≠ [] := by
    rw [gt_iff_lt, BitVec.lt_def, BitVec.toNat_ofNat,
      ← List.length_pos_iff]
    have hZero : (0 : U64).toNat = 0 := rfl
    omega
  rw [hPos]
  refine and_congr_right fun hSome => ?_
  have hLength' := List.length_pos_iff.mpr hSome
  have hBack :
      BitVec.ofNat 64 dir.bytes.length - 1 =
        BitVec.ofNat 64 (dir.bytes.length - 1) := by
    apply BitVec.eq_of_toNat_eq
    have hOne : (1 : U64).toNat = 1 := rfl
    rw [BitVec.toNat_sub, BitVec.toNat_ofNat,
      BitVec.toNat_ofNat, hOne]
    omega
  have hRead :
      m.put dest dir.closed
          (dest + BitVec.ofNat 64 (dir.bytes.length - 1)) =
        dir.bytes.getLast hSome := by
    rw [ByteMemory.put_inside (by omega) hLength,
      List.getLast_eq_getElem]
    exact List.getElem_append_left (by omega)
  rw [hBack, hRead, List.getLast?_eq_getLast_of_ne_nil hSome]
  simp

/- The directory is copied first, if it fits. -/
theorem joinDir_done
    {d s : Addr}
    {dir str : CString}
    (hDir : StringAt m d dir)
    (hAt : StringAt m s str)
    (hFits : dest.toNat +
        min len.toNat ((joinedPath (some dir) str).length + 1) ≤
      2 ^ 64)
    (hDirApart :
      Extent.Apart
        ⟨dest.toNat,
          min len.toNat ((joinedPath (some dir) str).length + 1)⟩
        (dir.extent d))
    (hApart :
      Extent.Apart
        ⟨dest.toNat,
          min len.toNat ((joinedPath (some dir) str).length + 1)⟩
        (str.extent s)) :
    JoinDone m dest len (joinedPath (some dir) str)
      (vfsPathJoin m (some dest) len (some d) (some s)) := by
  have hClosed := dir.length_closed
  have hLt := hDir.length_lt
  have hLen :
      (BitVec.ofNat 64 dir.bytes.length).toNat =
        dir.bytes.length := by
    rw [BitVec.toNat_ofNat, Nat.mod_eq_of_lt hLt]
  have hJoined :
      dir.bytes.length ≤ (joinedPath (some dir) str).length := by
    simp only [joinedPath]
    split
    all_goals
      simp only [List.length_append]
      omega
  simp only [vfsPathJoin, strlen_string hDir, ge_iff_le,
    BitVec.le_def, hLen]
  by_cases hLong : len.toNat ≤ dir.bytes.length
  · rw [if_pos hLong]
    refine ⟨fun hIn => by omega, fun _ => ⟨[], ?_, ?_⟩⟩
    · exact Nat.zero_le _
    · rw [ByteMemory.put_nil]
  · have hCopy := strcpy_string hDir
      (by omega) (hDirApart.shorter (by omega))
    have hSlash := @needs_slash m dest dir (by omega)
    rw [if_neg hLong, hCopy]
    by_cases hNeeds :
        dir.bytes ≠ [] ∧ dir.bytes.getLast? ≠ some slash
    · have hPath :
          joinedPath (some dir) str =
            dir.bytes ++ [slash] ++ str.bytes :=
        if_pos hNeeds
      have hNext :
          (BitVec.ofNat 64 (dir.bytes.length + 1)).toNat =
            dir.bytes.length + 1 := by
        rw [BitVec.toNat_ofNat]
        omega
      have hOver := @ByteMemory.put_over m dest dir.bytes
        [slash] [0#8] (Nat.le_refl 1)
        (by rw [List.length_singleton]; omega)
      rw [if_pos (hSlash.mpr hNeeds), ofNat_succ, hNext,
        ByteMemory.update_eq_put, CString.closed, hOver]
      rw [hPath] at hFits hApart hDirApart ⊢
      by_cases hFull : len.toNat ≤ dir.bytes.length + 1
      · rw [if_pos hFull]
        refine ⟨fun hIn => ?_, fun _ =>
          ⟨dir.bytes ++ [0#8], ?_, rfl⟩⟩
        · simp only [List.length_append, List.length_singleton]
            at hIn
          omega
        · simp only [List.length_append, List.length_singleton]
          omega
      · have hFront :
            (dir.bytes ++ [slash] ++ []).length ≤
              min len.toNat
                ((dir.bytes ++ [slash] ++ str.bytes).length +
                  1) := by
          simp only [List.length_append, List.length_singleton,
            List.length_nil]
          omega
        have hDone := @joinName_done m dest len _ _
          (dir.bytes ++ [slash]) [] _ hAt hFits hApart
          (Nat.zero_le _) hFront rfl
        rw [List.append_nil, List.length_append] at hDone
        rw [if_neg hFull]
        exact hDone
    · have hPath :
          joinedPath (some dir) str = dir.bytes ++ str.bytes :=
        if_neg hNeeds
      rw [if_neg fun h => hNeeds (hSlash.mp h)]
      rw [hPath] at hFits hApart hDirApart ⊢
      have hFront :
          (dir.bytes ++ [0#8]).length ≤
            min len.toNat
              ((dir.bytes ++ str.bytes).length + 1) := by
        simp only [List.length_append, List.length_singleton]
        omega
      exact joinName_done hAt hFits hApart (Nat.le_refl 1) hFront
        rfl

theorem vfsPathJoin_done
    {dir : Option (Addr × CString)}
    {name : Addr × CString}
    (hArgs : JoinArgs m dest len dir name) :
    JoinDone m dest len
      (joinedPath (dir.map Prod.snd) name.2)
      (vfsPathJoin m (some dest) len (dir.map Prod.fst)
        (some name.1)) := by
  rcases hArgs with ⟨hDir, hName, hFits, hDirApart, hNameApart⟩
  cases dir with
  | none =>
      have hDone := @joinName_done m dest len _ _ [] [] _ hName
        hFits hNameApart (Nat.zero_le _) (Nat.zero_le _) rfl
      rw [List.nil_append, List.append_nil, ByteMemory.put_nil]
        at hDone
      exact hDone
  | some d =>
      rcases d with ⟨d, dir⟩
      exact joinDir_done (hDir _ rfl) hName hFits
        (hDirApart _ rfl) hNameApart

end Join

/-
  The join is made exactly when it fits with its NUL, and no
  byte is written outside the buffer.
-/
theorem vfsPathJoin_exact
    {m : ByteMemory}
    {dest : Addr}
    {len : U64}
    {dir : Option (Addr × CString)}
    {name : Addr × CString}
    (hArgs : JoinArgs m dest len dir name) :
    let joined := joinedPath (dir.map Prod.snd) name.2
    let result := vfsPathJoin m (some dest) len
      (dir.map Prod.fst) (some name.1)
    (result.1 = 0 ↔ joined.length + 1 ≤ len.toNat) ∧
      (result.1 = 0 →
        ∀ (i : Nat) (hi : i < (joined ++ [0#8]).length),
          result.2 (dest + BitVec.ofNat 64 i) =
            (joined ++ [0#8])[i]) ∧
      (result.1 ≠ 0 → result.1 = -1) ∧
      ∀ b : Addr, len.toNat ≤ (b - dest).toNat →
        result.2 b = m b := by
  intro joined result
  have hDone := vfsPathJoin_done hArgs
  have hOutside : ∀ (bytes : List U8) (b : Addr),
      bytes.length ≤ len.toNat →
      len.toNat ≤ (b - dest).toNat →
        m.put dest bytes b = m b := by
    intro bytes b hBytes hOut
    rw [ByteMemory.put_apply,
      List.getElem?_eq_none (hBytes.trans hOut)]
    rfl
  by_cases hIn : joined.length + 1 ≤ len.toNat
  · have hResult : result = (0, m.put dest (joined ++ [0#8])) :=
      hDone.built hIn
    have hLength :
        (joined ++ [0#8]).length = joined.length + 1 := by
      simp
    have hLen := len.isLt
    rw [hResult]
    refine ⟨iff_of_true rfl hIn, fun _ i hi => ?_,
      fun hNot => absurd rfl hNot, fun b => ?_⟩
    · exact ByteMemory.put_inside hi (by omega)
    · exact hOutside _ b (by omega)
  · rcases hDone.short (Nat.lt_of_not_le hIn) with
      ⟨bytes, hBytes, hResult⟩
    have hShort : result = (-1, m.put dest bytes) := hResult
    rw [hShort]
    have hNot : ¬ (-1 : Int) = 0 := by decide
    exact ⟨iff_of_false hNot hIn, fun h => absurd h hNot,
      fun _ => rfl, fun b => hOutside bytes b hBytes⟩

theorem joinNameB_noNul :
    0#8 ∉ [0x62#8] := by
  decide

/- "/a" and "b" -/
def joinDirA : CString := ⟨[slash, 0x61#8], by decide⟩
def joinNameB : CString := ⟨[0x62#8], joinNameB_noNul⟩

def joinMemory : ByteMemory :=
  ByteMemory.put
    (ByteMemory.put (fun _ => 0xFF#8) 0x1000#64 joinDirA.closed)
    0x2000#64 joinNameB.closed

/- "/a/b" just fits into five bytes. -/
theorem vfsPathJoin_exact_five :
    (vfsPathJoin joinMemory (some 0x3000#64) 5#64
      (some 0x1000#64) (some 0x2000#64)).1 = 0 := by
  have hDir : StringAt joinMemory 0x1000#64 joinDirA :=
    ⟨by decide, by decide +kernel⟩
  have hName : StringAt joinMemory 0x2000#64 joinNameB :=
    ⟨by decide, by decide +kernel⟩
  have hArgs : JoinArgs joinMemory 0x3000#64 5#64
      (some (0x1000#64, joinDirA)) (0x2000#64, joinNameB) := by
    refine ⟨?_, hName, by decide +kernel, ?_, by decide +kernel⟩
    · rintro d ⟨⟩
      exact hDir
    · rintro d ⟨⟩
      decide +kernel
  exact (vfsPathJoin_exact hArgs).1.mpr (by decide +kernel)

end FeatherOS
