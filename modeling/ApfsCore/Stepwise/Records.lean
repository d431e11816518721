import ApfsCore.Stepwise.Tree
import ApfsCore.Volume.FsRecord

/-!
# Records, operation by operation

The record decoders with each operation that could panic explicit. Every offset of a decoder is a
constant plus a 16-bit field, so none overflows, and the descriptors of the extended fields lie
below the end of a table that was checked against the blob.
-/

namespace ApfsCore

namespace Stepwise

/-! ### Text -/

/-- `decode_cstr`. -/
def decodeCstr (data : Bytes) : Run Str := do
  let text ← getRange data 0 ((data.findIdx? (· == 0)).getD data.length)
  .ok (fromUtf8Lossy text)

theorem decodeCstr_eq (data : Bytes) : decodeCstr data = .ok (ApfsCore.decodeCstr data) := by
  have hle : data.findIdx (· == 0) ≤ data.length := List.findIdx_le_length
  rw [decodeCstr, ← List.findIdx_eq_getD_findIdx?, getRange_eq (slice_of_le (Nat.zero_le _) hle),
    ok_bind, ApfsCore.decodeCstr, List.takeWhile_eq_take_findIdx_not, List.drop_zero, Nat.sub_zero]
  simp only [bne, Bool.not_not]

/-! ### Extended fields -/

/-- The descriptor loop of `parse_xfields`. -/
def xfieldsFrom (data : Bytes) : ℕ → ℕ → ℕ → Run (List (UInt8 × Bytes))
  | 0, _, _ => .ok []
  | n + 1, i, valueOff => do
    let skipped ← umul 64 i 4
    let d ← uadd 64 4 skipped
    let xType ← getAt data d
    let o ← uadd 64 d 2
    let xSize ← leU16 data o
    match slice data valueOff (valueOff + xSize) with
    | none => .ok []
    | some value => do
      let padded ← uadd 64 xSize 7
      let rest ← xfieldsFrom data n (i + 1) (valueOff + padded / 8 * 8)
      .ok ((xType, value) :: rest)

/-- `parse_xfields`. -/
def parseXfields (data : Bytes) : Run (List (UInt8 × Bytes)) :=
  if data.length < 4 then .ok []
  else do
    let num ← leU16 data 0
    let descEnd := min num maxXfNumExts * 4 + 4
    if descEnd > data.length then .ok [] else xfieldsFrom data (min num maxXfNumExts) 0 descEnd

/-- The descriptors from number `i` on lie in the blob, so each of them can be read. -/
private theorem xfieldsFrom_eq {data : Bytes} {n i : ℕ} (hcap : i + n ≤ maxXfNumExts)
    (htable : 4 + (i + n) * 4 ≤ data.length) (valueOff : ℕ) :
    xfieldsFrom data n i valueOff = .ok (ApfsCore.xfieldsFrom data n i valueOff) := by
  have hmax : maxXfNumExts = 4096 := rfl
  induction n generalizing i valueOff with
  | zero => rfl
  | succ n ih =>
    have hd : 4 + i * 4 < data.length := by omega
    have hsize := leU16_lt data (4 + i * 4 + 2)
    rw [xfieldsFrom, umul_eq (by omega), ok_bind, uadd_eq (by omega), ok_bind,
      getAt_eq (List.getElem?_eq_getElem hd), ok_bind, uadd_eq (by omega), ok_bind,
      leU16_eq (by omega), ok_bind, ApfsCore.xfieldsFrom]
    cases slice data valueOff (valueOff + ApfsCore.leU16 data (4 + i * 4 + 2)) with
    | none => rfl
    | some value =>
      dsimp only
      rw [uadd_eq (by omega), ok_bind, ih (by omega) (by omega), ok_bind,
        List.getD_eq_getElem?_getD, List.getElem?_eq_getElem hd, Option.getD_some]

theorem parseXfields_eq (data : Bytes) :
    parseXfields data = .ok (ApfsCore.parseXfields data) := by
  rw [parseXfields, ApfsCore.parseXfields, leU16_eq (by norm_num), ok_bind]
  refine ite_eq_ok (fun _ => rfl) fun _ => ?_
  refine ite_eq_ok (fun _ => rfl) fun hend => ?_
  exact xfieldsFrom_eq (by omega) (by omega) _

/-! ### Inodes -/

/-- The extended fields of an inode value. -/
def inodeXfields (value : Bytes) : Run (List (UInt8 × Bytes)) :=
  if value.length > 92 then do
    let blob ← getRange value 92 value.length
    parseXfields blob
  else .ok []

/-- What `Inode::parse` does with an extended field. -/
def inodeField (found : Option Str × Option ℕ) (f : UInt8 × Bytes) :
    Run (Option Str × Option ℕ) :=
  if f.1 = 4 then do
    let name ← decodeCstr f.2
    .ok (some name, found.2)
  else if f.1 = 8 then do
    let size ← leU64 f.2 0
    .ok (found.1, some size)
  else .ok found

/-- `Inode::parse`. -/
def Inode.parse (oid : ℕ) (value : Bytes) : Run Inode := do
  let fields ← inodeXfields value
  let (name, size) ← fields.foldlM inodeField (none, none)
  let parentId ← leU64 value 0
  let privateId ← leU64 value 8
  let createTime ← leU64 value 16
  let modTime ← leU64 value 24
  let changeTime ← leU64 value 32
  let accessTime ← leU64 value 40
  let internalFlags ← leU64 value 48
  let nchildren ← leU32 value 56
  let bsdFlags ← leU32 value 68
  let uid ← leU32 value 72
  let gid ← leU32 value 76
  let mode ← leU16 value 80
  .ok
    { oid, parentId, privateId, createTime, modTime, changeTime, accessTime, internalFlags
      nlinkOrNchildren := (BitVec.ofNat 32 nchildren).toInt
      bsdFlags, uid, gid, mode, name, size }

theorem inodeXfields_eq (value : Bytes) :
    inodeXfields value = .ok (ApfsCore.inodeXfields value) := by
  rw [inodeXfields, ApfsCore.inodeXfields]
  refine ite_eq_ok (fun hlen => ?_) fun _ => rfl
  have htail : slice value 92 value.length = some (value.drop 92) := by
    rw [slice_of_le hlen.le le_rfl, List.take_of_length_le (List.length_drop ..).le]
  rw [getRange_eq htail, ok_bind, parseXfields_eq]

/-- The name and the size are found independently of each other. -/
private theorem foldlM_inodeField (fields : List (UInt8 × Bytes)) (found : Option Str × Option ℕ) :
    fields.foldlM inodeField found =
      .ok
        (fields.foldl (fun name f => if f.1 = 4 then some (ApfsCore.decodeCstr f.2) else name)
            found.1,
          fields.foldl (fun size f => if f.1 = 8 then some (ApfsCore.leU64 f.2 0) else size)
            found.2) := by
  induction fields generalizing found with
  | nil => rfl
  | cons f fields ih =>
    have hstep : inodeField found f = .ok
        (if f.1 = 4 then some (ApfsCore.decodeCstr f.2) else found.1,
          if f.1 = 8 then some (ApfsCore.leU64 f.2 0) else found.2) := by
      rw [inodeField, decodeCstr_eq, ok_bind, leU64_eq (by norm_num), ok_bind]
      by_cases hname : f.1 = 4
      · have hsize : f.1 ≠ 8 := fun h => absurd (hname.symm.trans h) (by decide)
        rw [if_pos hname, if_pos hname, if_neg hsize]
      · rw [if_neg hname, if_neg hname]
        split_ifs <;> rfl
    rw [List.foldlM_cons, hstep, ok_bind, ih, List.foldl_cons, List.foldl_cons]

theorem Inode.parse_eq (oid : ℕ) (value : Bytes) :
    Inode.parse oid value = asRun (ApfsCore.Inode.parse oid value) := by
  rw [Inode.parse, inodeXfields_eq, ok_bind, foldlM_inodeField, ok_bind]
  simp (disch := omega) only [leU64_eq, leU32_eq, leU16_eq, ok_bind]
  rfl

/-! ### Directory entries -/

/-- A name of `len` bytes at an offset of a key, if it has any and fits. -/
def drecName (key : Bytes) (start len : ℕ) : Run (Option Str) :=
  if len > 0 then do
    let stop ← uadd 64 start len
    match slice key start stop with
    | some name => some <$> decodeCstr name
    | none => .ok none
  else .ok none

/-- `decode_drec_name`. -/
def decodeDrecName (key : Bytes) : Run (Option Str) := do
  let hashed ← leU32 key 8
  match ← drecName key 12 (hashed &&& 0x3ff) with
  | some name => .ok (some name)
  | none => do
    let unhashedLen ← leU16 key 8
    drecName key 10 unhashedLen

/-- `parse_dir_entry`. -/
def parseDirEntry (key value : Bytes) : Run (Option DirEntry) := do
  match ← decodeDrecName key with
  | none => .ok none
  | some name => do
    let fileId ← leU64 value 0
    let dateAdded ← leU64 value 8
    let flags ← leU16 value 16
    .ok (some { name, fileId, dateAdded, flags })

private theorem drecName_eq {key : Bytes} {start len : ℕ} (hlen : start + len < 2 ^ 64) :
    drecName key start len =
      .ok ((if len > 0 then slice key start (start + len) else none).map ApfsCore.decodeCstr) := by
  rw [drecName, uadd_eq hlen, ok_bind]
  by_cases hpos : len > 0
  · rw [if_pos hpos, if_pos hpos]
    cases slice key start (start + len) with
    | none => rfl
    | some name =>
      dsimp only
      rw [decodeCstr_eq, map_ok, Option.map_some]
  · rw [if_neg hpos, if_neg hpos, Option.map_none]

theorem decodeDrecName_eq (key : Bytes) :
    decodeDrecName key = .ok (ApfsCore.decodeDrecName key) := by
  have hhashed : ApfsCore.leU32 key 8 &&& 0x3ff ≤ 0x3ff := Nat.and_le_right
  have hunhashed := leU16_lt key 8
  rw [decodeDrecName, leU32_eq (by norm_num), ok_bind, drecName_eq (by omega), ok_bind]
  unfold ApfsCore.decodeDrecName
  dsimp only
  generalize (if ApfsCore.leU32 key 8 &&& 0x3ff > 0 then _ else _) = hashedName
  cases hashedName with
  | some name => rfl
  | none =>
    rw [Option.map_none]
    dsimp only
    rw [leU16_eq (by norm_num), ok_bind, drecName_eq (by omega)]
    generalize (if ApfsCore.leU16 key 8 > 0 then _ else _) = unhashedName
    cases unhashedName with
    | some name => rfl
    | none => rfl

theorem parseDirEntry_eq (key value : Bytes) :
    parseDirEntry key value = .ok (ApfsCore.parseDirEntry key value) := by
  rw [parseDirEntry, decodeDrecName_eq, ok_bind, ApfsCore.parseDirEntry]
  cases ApfsCore.decodeDrecName key with
  | none => rfl
  | some name =>
    simp (disch := omega) only [leU64_eq, leU16_eq, ok_bind]

/-! ### Extended attributes -/

/-- The value part of `parse_xattr`. -/
def parseXattrValue (value : Bytes) : Run XattrValue := do
  let flags ← leU16 value 0
  let xdataLen ← leU16 value 2
  let stop ← uadd 64 4 xdataLen
  let xdata := (slice value 4 stop).getD []
  if flags &&& xattrDataStream ≠ 0 then do
    let dstreamOid ← leU64 xdata 0
    let size ← leU64 xdata 8
    .ok (.stream dstreamOid size)
  else .ok (.embedded xdata)

/-- `parse_xattr`. -/
def parseXattr (key value : Bytes) : Run (Option Xattr) := do
  let nameLen ← leU16 key 8
  if nameLen = 0 then .ok none
  else do
    let stop ← uadd 64 10 nameLen
    match slice key 10 stop with
    | none => .ok none
    | some nameBytes => do
      let name ← decodeCstr nameBytes
      let flags ← leU16 value 0
      let xvalue ← parseXattrValue value
      .ok (some { name, flags, value := xvalue })

private theorem parseXattrValue_eq (value : Bytes) :
    parseXattrValue value = .ok (ApfsCore.parseXattrValue value) := by
  have hlen := leU16_lt value 2
  rw [parseXattrValue, leU16_eq (by norm_num), ok_bind, leU16_eq (by norm_num), ok_bind,
    uadd_eq (by omega), ok_bind]
  unfold ApfsCore.parseXattrValue
  refine ite_eq_ok (fun _ => ?_) fun _ => rfl
  rw [leU64_eq (by norm_num), ok_bind, leU64_eq (by norm_num), ok_bind]

theorem parseXattr_eq (key value : Bytes) :
    parseXattr key value = .ok (ApfsCore.parseXattr key value) := by
  have hlen := leU16_lt key 8
  rw [parseXattr, leU16_eq (by norm_num), ok_bind]
  unfold ApfsCore.parseXattr
  refine ite_eq_ok (fun _ => rfl) fun _ => ?_
  rw [uadd_eq (by omega), ok_bind]
  cases slice key 10 (10 + ApfsCore.leU16 key 8) with
  | none => rfl
  | some nameBytes =>
    dsimp only
    rw [decodeCstr_eq, ok_bind, leU16_eq (by norm_num), ok_bind, parseXattrValue_eq, ok_bind]

end Stepwise

end ApfsCore
