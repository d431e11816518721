import ApfsCore.Format.Layout
import ApfsCore.Volume.DirKeys
import ApfsCore.Volume.Navigate
import ApfsCore.Volume.XFields

/-!
# Records of a volume, written and read

A volume is a list of records: inodes, directory entries, extended attributes, file extents, and
records of types the crate passes over. `FsRecord` has them in the terms of the file system, with
the bounds of the on-disk fields as part of each record, so that every `FsRecord` can be written.
`FsRecord.encode` writes one, with whatever the words that nobody reads hold.

Each decoder of the crate reads a written record as what it was (`dirEntryOf_encode` and so on),
and passes over the records of other kinds. What an operation makes of a list of written records
is therefore what it should make of the records themselves (`dirEntries_encode` and so on).
-/

namespace ApfsCore

/-! ### Key words -/

/-- A key word is taken apart again. -/
theorem decodeJkey_encode {code oid : ℕ} (hcode : code < 16) (hoid : oid < 2 ^ 60) :
    decodeJkey (code * 2 ^ 60 + oid) = (oid, RecordType.fromU4 code) := by
  have hlow : (code * 2 ^ 60 + oid) &&& objIdMask = oid := by
    have hmask : objIdMask = 2 ^ 60 - 1 := rfl
    rw [hmask, Nat.and_two_pow_sub_one_eq_mod]
    omega
  have hhigh : ((code * 2 ^ 60 + oid) >>> 60) &&& 0xf = code := by
    have hand : ((code * 2 ^ 60 + oid) / 2 ^ 60) &&& 0xf = (code * 2 ^ 60 + oid) / 2 ^ 60 % 2 ^ 4 :=
      Nat.and_two_pow_sub_one_eq_mod _ 4
    rw [Nat.shiftRight_eq_div_pow, hand]
    omega
  rw [decodeJkey, hlow, hhigh]

section Key

variable {code oid : ℕ} {rest value : Bytes}

theorem leU64_encodeJkey (hcode : code < 16) (hoid : oid < 2 ^ 60) :
    leU64 (encodeJkey code oid ++ rest) 0 = code * 2 ^ 60 + oid := by
  rw [leU64, encodeJkey, readLE_leBytes_append, Nat.mod_eq_of_lt (by norm_num; omega)]

theorem oid_of_encodeJkey (hcode : code < 16) (hoid : oid < 2 ^ 60) :
    Entry.oid ⟨encodeJkey code oid ++ rest, value⟩ = oid := by
  rw [Entry.oid, leU64_encodeJkey hcode hoid, decodeJkey_encode hcode hoid]

theorem recordType_of_encodeJkey (hcode : code < 16) (hoid : oid < 2 ^ 60) :
    Entry.recordType ⟨encodeJkey code oid ++ rest, value⟩ = RecordType.fromU4 code := by
  rw [Entry.recordType, leU64_encodeJkey hcode hoid, decodeJkey_encode hcode hoid]

end Key

/-! ### Inodes -/

/-- The words of an inode value that are not read. -/
structure InodeUnread where
  protectionClass : ℕ
  writeGeneration : ℕ
  pad : ℕ
  uncompressedSize : ℕ

/-- The bounds of an inode's fields. A name is written with a NUL behind it. -/
structure Inode.Fits (i : Inode) : Prop where
  oid : i.oid < 2 ^ 60
  parentId : i.parentId < 2 ^ 64
  privateId : i.privateId < 2 ^ 64
  createTime : i.createTime < 2 ^ 64
  modTime : i.modTime < 2 ^ 64
  changeTime : i.changeTime < 2 ^ 64
  accessTime : i.accessTime < 2 ^ 64
  internalFlags : i.internalFlags < 2 ^ 64
  nlink_ge : -2 ^ 31 ≤ i.nlinkOrNchildren
  nlink_lt : i.nlinkOrNchildren < 2 ^ 31
  bsdFlags : i.bsdFlags < 2 ^ 32
  uid : i.uid < 2 ^ 32
  gid : i.gid < 2 ^ 32
  mode : i.mode < 2 ^ 16
  name : ∀ name ∈ i.name, (0 : UInt8) ∉ utf8Bytes name ∧ (utf8Bytes name).length < 65535
  size : ∀ size ∈ i.size, size < 2 ^ 64

/-- An extended field with the given value. -/
def XField.ofValue (type flags : UInt8) (value : Bytes) : XField :=
  ⟨type, flags, value.take 65535, by rw [List.length_take]; exact Nat.min_le_left _ _⟩

/-- A `j_dstream`: the size, and words that are not read. -/
def encodeDstream (size : ℕ) : Bytes :=
  leBytes 8 size ++ List.replicate 32 0

/-- The extended fields of an inode: its name, and its data stream. -/
def inodeFields (i : Inode) : List XField :=
  (i.name.map fun name => XField.ofValue 4 2 (utf8Bytes name ++ [0])).toList ++
    (i.size.map fun size => XField.ofValue 8 0x20 (encodeDstream size)).toList

/-- The values of extended fields, each padded to a multiple of 8. -/
def packedValues (fields : List XField) : Bytes :=
  fields.flatMap fun f => f.value ++ List.replicate (roundUp 8 f.value.length - f.value.length) 0

/-- The words of an inode value in front of its extended fields. -/
def inodeWords (i : Inode) (unread : InodeUnread) : List (ℕ × ℕ) :=
  [(8, i.parentId), (8, i.privateId), (8, i.createTime), (8, i.modTime), (8, i.changeTime),
    (8, i.accessTime), (8, i.internalFlags), (4, (BitVec.ofInt 32 i.nlinkOrNchildren).toNat),
    (4, unread.protectionClass), (4, unread.writeGeneration), (4, i.bsdFlags), (4, i.uid),
    (4, i.gid), (2, i.mode), (2, unread.pad), (8, unread.uncompressedSize)]

/-- The value of an inode record. An inode without extended fields has no blob. -/
def encodeInode (i : Inode) (unread : InodeUnread) : Bytes :=
  encodeFields (inodeWords i unread) ++
    if inodeFields i = [] then []
    else xfBlob (inodeFields i) (packedValues (inodeFields i)).length
      (packedValues (inodeFields i))

theorem leU64_encodeDstream {size : ℕ} (h : size < 2 ^ 64) :
    readLE 8 (encodeDstream size) 0 = size := by
  rw [encodeDstream, readLE_leBytes_append, Nat.mod_eq_of_lt (h.trans_le (by norm_num))]

theorem packed_packedValues (fields : List XField) :
    Packed 8 (fields.map XField.value) (packedValues fields) := by
  induction fields with
  | nil => exact .nil []
  | cons f fields ih =>
    have hle := le_roundUp (show 0 < 8 by norm_num) f.value.length
    rw [packedValues, List.flatMap_cons, List.append_assoc, List.map_cons]
    refine .cons ?_ ih
    rw [List.length_append, List.length_replicate, Nat.add_sub_cancel' hle]

theorem length_inodeFields_le (i : Inode) : (inodeFields i).length ≤ 2 := by
  rw [inodeFields, List.length_append, Option.length_toList, Option.length_toList]
  split_ifs <;> omega

/-- The extended fields of a written inode are read back. -/
theorem inodeXfields_encodeInode (i : Inode) (unread : InodeUnread) :
    inodeXfields (encodeInode i unread) = (inodeFields i).map XField.parsed := by
  have hwords : (encodeFields (inodeWords i unread)).length = 92 := by
    rw [length_encodeFields]
    rfl
  rw [inodeXfields, encodeInode, List.drop_left' hwords, List.length_append, hwords]
  by_cases hnone : inodeFields i = []
  · rw [if_pos hnone, hnone, List.map_nil]
    rfl
  · have hblob := length_xfBlob (packedValues (inodeFields i)).length (inodeFields i)
      (packedValues (inodeFields i))
    have hcount := length_inodeFields_le i
    rw [if_neg hnone, if_pos (by rw [hblob, descEnd]; omega),
      parseXfields_xfBlob _ (by omega) (packed_packedValues _)]

/-- A link count is read back with its sign. -/
theorem toInt_ofInt_of_bounds {n : ℤ} (hlow : -2 ^ 31 ≤ n) (hhigh : n < 2 ^ 31) :
    (BitVec.ofNat 32 (BitVec.ofInt 32 n).toNat).toInt = n := by
  rw [BitVec.ofNat_toNat, BitVec.setWidth_eq, BitVec.toInt_ofInt]
  exact Int.bmod_eq_of_le (by norm_num; omega) (by norm_num; omega)

/-- What is kept of the fields of a written inode is its name and its size. -/
theorem foldl_inodeFields {i : Inode} (h : i.Fits) :
    ((inodeFields i).map XField.parsed).foldl
        (fun name f => if f.1 = 4 then some (decodeCstr f.2) else name) none = i.name ∧
      ((inodeFields i).map XField.parsed).foldl
        (fun size f => if f.1 = 8 then some (leU64 f.2 0) else size) none = i.size := by
  have hname : ∀ name ∈ i.name, decodeCstr ((utf8Bytes name ++ [0]).take 65535) = name := by
    intro name hmem
    obtain ⟨hnul, hlen⟩ := h.name name hmem
    have hfit : (utf8Bytes name ++ [0]).length ≤ 65535 := by
      rw [List.length_append, List.length_singleton]
      omega
    rw [List.take_of_length_le hfit, decodeCstr_append_nul hnul, fromUtf8Lossy_utf8Bytes]
  have hsize : ∀ size ∈ i.size, leU64 ((encodeDstream size).take 65535) 0 = size := by
    intro size hmem
    rw [leU64, readLE_take (by norm_num), leU64_encodeDstream (h.size size hmem)]
  have hfour : ¬(4 : UInt8) = 8 := by decide
  have height : ¬(8 : UInt8) = 4 := by decide
  cases hn : i.name with
  | none =>
    cases hs : i.size with
    | none => simp [inodeFields, hn, hs]
    | some size => simp [inodeFields, hn, hs, XField.parsed, XField.ofValue, height, hsize size hs]
  | some name =>
    cases hs : i.size with
    | none => simp [inodeFields, hn, hs, XField.parsed, XField.ofValue, hfour, hname name hn]
    | some size =>
      simp [inodeFields, hn, hs, XField.parsed, XField.ofValue, hfour, height, hname name hn,
        hsize size hs]

/-- **A written inode is read back.** -/
theorem Inode.parse_encodeInode {i : Inode} (h : i.Fits) (unread : InodeUnread) :
    Inode.parse i.oid (encodeInode i unread) = .ok i := by
  have hword : ∀ {w n offset : ℕ} (k : ℕ), (inodeWords i unread)[k]? = some (w, n) →
      fieldOffset (inodeWords i unread) k = offset → n < 256 ^ w →
      readLE w (encodeInode i unread) offset = n :=
    fun k hk hoff hn => readLE_encodeFields k hk hoff hn _
  have hnlink : (BitVec.ofInt 32 i.nlinkOrNchildren).toNat < 256 ^ 4 := BitVec.isLt _
  obtain ⟨hname, hsize⟩ := foldl_inodeFields h
  have h₀ : readLE 8 (encodeInode i unread) 0 = i.parentId := hword 0 rfl rfl h.parentId
  have h₁ : readLE 8 (encodeInode i unread) 8 = i.privateId := hword 1 rfl rfl h.privateId
  have h₂ : readLE 8 (encodeInode i unread) 16 = i.createTime := hword 2 rfl rfl h.createTime
  have h₃ : readLE 8 (encodeInode i unread) 24 = i.modTime := hword 3 rfl rfl h.modTime
  have h₄ : readLE 8 (encodeInode i unread) 32 = i.changeTime := hword 4 rfl rfl h.changeTime
  have h₅ : readLE 8 (encodeInode i unread) 40 = i.accessTime := hword 5 rfl rfl h.accessTime
  have h₆ : readLE 8 (encodeInode i unread) 48 = i.internalFlags :=
    hword 6 rfl rfl h.internalFlags
  have h₇ : (BitVec.ofNat 32 (readLE 4 (encodeInode i unread) 56)).toInt = i.nlinkOrNchildren := by
    have hread : readLE 4 (encodeInode i unread) 56 = _ := hword 7 rfl rfl hnlink
    rw [hread, toInt_ofInt_of_bounds h.nlink_ge h.nlink_lt]
  have h₁₀ : readLE 4 (encodeInode i unread) 68 = i.bsdFlags := hword 10 rfl rfl h.bsdFlags
  have h₁₁ : readLE 4 (encodeInode i unread) 72 = i.uid := hword 11 rfl rfl h.uid
  have h₁₂ : readLE 4 (encodeInode i unread) 76 = i.gid := hword 12 rfl rfl h.gid
  have h₁₃ : readLE 2 (encodeInode i unread) 80 = i.mode := hword 13 rfl rfl h.mode
  rw [Inode.parse, inodeXfields_encodeInode, hname, hsize]
  simp only [leU64, leU32, leU16, h₀, h₁, h₂, h₃, h₄, h₅, h₆, h₇, h₁₀, h₁₁, h₁₂, h₁₃]

/-! ### Directory entries -/

/-- The bounds of a directory record: its parent, the hash in its key, if it has one, and its
entry. -/
structure DirRecFits (parent : ℕ) (hash : Option ℕ) (entry : DirEntry) : Prop where
  parent : parent < 2 ^ 60
  hash : ∀ h ∈ hash, h < 2 ^ 22
  nul : (0 : UInt8) ∉ utf8Bytes entry.name
  name : (utf8Bytes entry.name).length ≤ 1022
  fileId : entry.fileId < 2 ^ 64
  dateAdded : entry.dateAdded < 2 ^ 64
  flags : entry.flags < 2 ^ 16

/-- The key of a directory record, in the form its volume uses. -/
def drecKey (parent : ℕ) (hash : Option ℕ) (name : Bytes) : Bytes :=
  match hash with
  | some hash => hashedDrecKey parent hash name
  | none => unhashedDrecKey parent name

/-- The value of a directory record, with its extended fields behind it. -/
def encodeDrecValue (entry : DirEntry) (tail : Bytes) : Bytes :=
  encodeFields [(8, entry.fileId), (8, entry.dateAdded), (2, entry.flags)] ++ tail

/-- **A written directory record is read back**, whichever form its key has. -/
theorem parseDirEntry_encode {parent : ℕ} {hash : Option ℕ} {entry : DirEntry}
    (h : DirRecFits parent hash entry) (tail : Bytes) :
    parseDirEntry (drecKey parent hash (utf8Bytes entry.name)) (encodeDrecValue entry tail) =
      some entry := by
  have hname : decodeDrecName (drecKey parent hash (utf8Bytes entry.name)) = some entry.name := by
    cases hash with
    | none =>
      rw [drecKey, decodeDrecName_unhashedDrecKey parent h.name h.nul, fromUtf8Lossy_utf8Bytes]
    | some hash =>
      rw [drecKey, decodeDrecName_hashedDrecKey parent (h.hash hash rfl) h.name h.nul,
        fromUtf8Lossy_utf8Bytes]
  have hid : leU64 (encodeDrecValue entry tail) 0 = entry.fileId :=
    readLE_encodeFields 0 rfl rfl h.fileId tail
  have hdate : leU64 (encodeDrecValue entry tail) 8 = entry.dateAdded :=
    readLE_encodeFields 1 rfl rfl h.dateAdded tail
  have hflags : leU16 (encodeDrecValue entry tail) 16 = entry.flags :=
    readLE_encodeFields 2 rfl rfl h.flags tail
  rw [parseDirEntry, hname]
  simp only [hid, hdate, hflags]

/-! ### Extended attributes -/

/-- The bounds of an attribute. Its flags say where its value lives, and only an embedded value
has a length that is bounded. -/
structure XattrFits (oid : ℕ) (x : Xattr) : Prop where
  oid : oid < 2 ^ 60
  nul : (0 : UInt8) ∉ utf8Bytes x.name
  name : (utf8Bytes x.name).length < 65535
  flags : x.flags < 2 ^ 16
  embedded : ∀ bytes, x.value = .embedded bytes →
    x.flags &&& xattrDataStream = 0 ∧ bytes.length < 2 ^ 16
  stream : ∀ dstreamOid size, x.value = .stream dstreamOid size →
    x.flags &&& xattrDataStream ≠ 0 ∧ dstreamOid < 2 ^ 64 ∧ size < 2 ^ 64

/-- The key of an attribute. -/
def xattrKey (oid : ℕ) (name : Bytes) : Bytes :=
  encodeJkey 4 oid ++ (leBytes 2 (name.length + 1) ++ (name ++ [0]))

/-- What an attribute's record holds: its value, or the id and the `j_dstream` of the stream its
value lives in. -/
def xattrData : XattrValue → Bytes
  | .embedded bytes => bytes
  | .stream dstreamOid size => leBytes 8 dstreamOid ++ encodeDstream size

/-- The value of an attribute's record. -/
def encodeXattrValue (x : Xattr) : Bytes :=
  encodeFields [(2, x.flags), (2, (xattrData x.value).length)] ++ xattrData x.value

/-- **A written attribute is read back**, embedded or in a stream. -/
theorem parseXattr_encode {oid : ℕ} {x : Xattr} (h : XattrFits oid x) :
    parseXattr (xattrKey oid (utf8Bytes x.name)) (encodeXattrValue x) = some x := by
  have hlen : (xattrData x.value).length < 256 ^ 2 := by
    cases hx : x.value with
    | embedded bytes => exact (h.embedded bytes hx).2
    | stream dstreamOid size => rw [xattrData, encodeDstream]; simp
  have hflags : leU16 (encodeXattrValue x) 0 = x.flags :=
    readLE_encodeFields 0 rfl rfl h.flags _
  have hdata : slice (encodeXattrValue x) 4 (4 + leU16 (encodeXattrValue x) 2) =
      some (xattrData x.value) := by
    have hread : leU16 (encodeXattrValue x) 2 = (xattrData x.value).length :=
      readLE_encodeFields 1 rfl rfl hlen _
    have hslice : slice (encodeFields [(2, x.flags), (2, (xattrData x.value).length)] ++
        (xattrData x.value ++ [])) 4 (4 + (xattrData x.value).length) = some (xattrData x.value) :=
      slice_encodeFields rfl rfl
    rw [List.append_nil] at hslice
    rw [hread, encodeXattrValue, hslice]
  have hvalue : parseXattrValue (encodeXattrValue x) = x.value := by
    rw [parseXattrValue, hdata, hflags, Option.getD_some]
    cases hx : x.value with
    | embedded bytes => rw [if_neg (not_not.mpr (h.embedded bytes hx).1), xattrData]
    | stream dstreamOid size =>
      obtain ⟨hbit, hoid, hsize⟩ := h.stream dstreamOid size hx
      have hid : leU64 (leBytes 8 dstreamOid ++ encodeDstream size) 0 = dstreamOid := by
        rw [leU64, readLE_leBytes_append, Nat.mod_eq_of_lt (hoid.trans_le (by norm_num))]
      have hsz : leU64 (leBytes 8 dstreamOid ++ encodeDstream size) 8 = size := by
        have hright := readLE_append_right (w := 8) (i := 0) (a := leBytes 8 dstreamOid)
          (b := encodeDstream size)
        rw [length_leBytes, leU64_encodeDstream hsize] at hright
        exact hright
      rw [if_pos hbit, xattrData, hid, hsz]
  have hword : leU16 (xattrKey oid (utf8Bytes x.name)) 8 = (utf8Bytes x.name).length + 1 := by
    have hlt : (utf8Bytes x.name).length + 1 < 256 ^ 2 := by
      have := h.name
      omega
    have hread := readLE_append_leBytes (a := encodeJkey 4 oid) (b := utf8Bytes x.name ++ [0]) hlt
    rwa [length_encodeJkey] at hread
  have hname : slice (xattrKey oid (utf8Bytes x.name)) 10 (10 + ((utf8Bytes x.name).length + 1)) =
      some (utf8Bytes x.name ++ [0]) := by
    have hmid := slice_middle (c := [])
      (a := encodeJkey 4 oid ++ leBytes 2 ((utf8Bytes x.name).length + 1))
      (b := utf8Bytes x.name ++ [0])
    simpa only [xattrKey, List.append_nil, List.append_assoc, List.length_append,
      length_encodeJkey, length_leBytes, List.length_singleton] using hmid
  rw [parseXattr]
  simp only [hword, Nat.add_one_ne_zero, if_false, hname, hflags, hvalue,
    decodeCstr_append_nul h.nul, fromUtf8Lossy_utf8Bytes]

/-! ### File extents -/

/-- The bounds of an extent of a stream. -/
structure ExtentFits (streamOid : ℕ) (ext : FileExtent) (flags cryptoId : ℕ) : Prop where
  streamOid : streamOid < 2 ^ 60
  logicalOffset : ext.logicalOffset < 2 ^ 64
  len : ext.len < 2 ^ 56
  physBlockNum : ext.physBlockNum < 2 ^ 64
  flags : flags < 2 ^ 8
  cryptoId : cryptoId < 2 ^ 64

/-- The record of an extent. -/
def extentEntry (streamOid : ℕ) (ext : FileExtent) (flags cryptoId : ℕ) : Entry where
  key := encodeJkey 8 streamOid ++ leBytes 8 ext.logicalOffset
  value := encodeFields [(8, flags * 2 ^ 56 + ext.len), (8, ext.physBlockNum), (8, cryptoId)]

/-- **A written extent is read back**, whatever its flags. -/
theorem ofEntry_extentEntry {streamOid : ℕ} {ext : FileExtent} {flags cryptoId : ℕ}
    (h : ExtentFits streamOid ext flags cryptoId) :
    FileExtent.ofEntry (extentEntry streamOid ext flags cryptoId) = ext := by
  have hoff : leU64 (extentEntry streamOid ext flags cryptoId).key 8 = ext.logicalOffset := by
    have hright := readLE_append_leBytes (a := encodeJkey 8 streamOid) (b := [])
      (h.logicalOffset.trans_le (by norm_num : 2 ^ 64 ≤ 256 ^ 8))
    rwa [length_encodeJkey, List.append_nil] at hright
  have hword : leU64 (extentEntry streamOid ext flags cryptoId).value 0 =
      flags * 2 ^ 56 + ext.len := by
    have hlen := h.len
    have hflags := h.flags
    exact readLE_encodeFields_end 0 rfl rfl (by norm_num; omega)
  have hphys : leU64 (extentEntry streamOid ext flags cryptoId).value 8 = ext.physBlockNum :=
    readLE_encodeFields_end 1 rfl rfl h.physBlockNum
  have hmask : (flags * 2 ^ 56 + ext.len) &&& jFileExtentLenMask = ext.len := by
    have hones : jFileExtentLenMask = 2 ^ 56 - 1 := rfl
    have hlen := h.len
    rw [hones, Nat.and_two_pow_sub_one_eq_mod]
    omega
  rw [FileExtent.ofEntry, hoff, hword, hphys, hmask]

/-! ### Records -/

/-- A record of a volume. -/
inductive FsRecord where
  | inode (i : Inode) (unread : InodeUnread) (fits : i.Fits)
  | dirRec (parent : ℕ) (hash : Option ℕ) (entry : DirEntry) (tail : Bytes)
      (fits : DirRecFits parent hash entry)
  | xattr (oid : ℕ) (x : Xattr) (fits : XattrFits oid x)
  | fileExtent (streamOid : ℕ) (ext : FileExtent) (flags cryptoId : ℕ)
      (fits : ExtentFits streamOid ext flags cryptoId)
  | other (e : Entry)
      (fits : e.recordType ∉ [some .inode, some .dirRec, some .xattr, some .fileExtent])

namespace FsRecord

/-- The record as an entry of the file-system tree. -/
def encode : FsRecord → Entry
  | inode i unread _ => ⟨encodeJkey 3 i.oid, encodeInode i unread⟩
  | dirRec parent hash entry tail _ =>
    ⟨drecKey parent hash (utf8Bytes entry.name), encodeDrecValue entry tail⟩
  | xattr oid x _ => ⟨xattrKey oid (utf8Bytes x.name), encodeXattrValue x⟩
  | fileExtent streamOid ext flags cryptoId _ => extentEntry streamOid ext flags cryptoId
  | other e _ => e

/-- The object a record belongs to. -/
def oid : FsRecord → ℕ
  | inode i _ _ => i.oid
  | dirRec parent _ _ _ _ => parent
  | xattr oid _ _ => oid
  | fileExtent streamOid _ _ _ _ => streamOid
  | other e _ => e.oid

/-- The type of a record. -/
def type : FsRecord → Option RecordType
  | inode _ _ _ => some .inode
  | dirRec _ _ _ _ _ => some .dirRec
  | xattr _ _ _ => some .xattr
  | fileExtent _ _ _ _ _ => some .fileExtent
  | other e _ => e.recordType

/-- The entry of a directory that a record is. -/
def entryIn (parent : ℕ) : FsRecord → Option DirEntry
  | dirRec p _ entry _ _ => if p = parent then some entry else none
  | _ => none

/-- The inode of the given id that a record is. -/
def inodeWith (oid : ℕ) : FsRecord → Option Inode
  | inode i _ _ => if i.oid = oid then some i else none
  | _ => none

/-- The attribute of an inode that a record is. -/
def attributeOf (oid : ℕ) : FsRecord → Option Xattr
  | xattr o x _ => if o = oid then some x else none
  | _ => none

/-- The extent of a stream that a record is. -/
def extentOf (streamOid : ℕ) : FsRecord → Option FileExtent
  | fileExtent s ext _ _ _ => if s = streamOid then some ext else none
  | _ => none

/-- The key of a written record names its object and its type. -/
theorem encode_key (r : FsRecord) : r.encode.oid = r.oid ∧ r.encode.recordType = r.type := by
  cases r with
  | inode i unread fits =>
    have hkey : encodeJkey 3 i.oid = encodeJkey 3 i.oid ++ [] := (List.append_nil _).symm
    rw [encode, hkey]
    exact ⟨oid_of_encodeJkey (by norm_num) fits.oid,
      recordType_of_encodeJkey (by norm_num) fits.oid⟩
  | dirRec parent hash entry tail fits =>
    have hkey : ∃ rest, drecKey parent hash (utf8Bytes entry.name) =
        encodeJkey 9 parent ++ rest := by
      cases hash with
      | none => exact ⟨_, rfl⟩
      | some hash => exact ⟨_, rfl⟩
    obtain ⟨rest, hkey⟩ := hkey
    rw [encode, hkey]
    exact ⟨oid_of_encodeJkey (by norm_num) fits.parent,
      recordType_of_encodeJkey (by norm_num) fits.parent⟩
  | xattr oid x fits =>
    exact ⟨oid_of_encodeJkey (by norm_num) fits.oid,
      recordType_of_encodeJkey (by norm_num) fits.oid⟩
  | fileExtent streamOid ext flags cryptoId fits =>
    exact ⟨oid_of_encodeJkey (by norm_num) fits.streamOid,
      recordType_of_encodeJkey (by norm_num) fits.streamOid⟩
  | other e fits => exact ⟨rfl, rfl⟩

/-- A record of a type that is passed over is of none of the types that are read. -/
theorem type_of_other {e : Entry}
    {fits : e.recordType ∉ [some .inode, some .dirRec, some .xattr, some .fileExtent]}
    {kind : RecordType} (hkind : kind ∈ [.inode, .dirRec, .xattr, .fileExtent]) :
    (other e fits).type ≠ some kind := by
  intro htype
  refine fits ?_
  rw [show e.recordType = some kind from htype]
  simpa using hkind

/-! ### One record -/

/-- A filter for the records of one kind and object, on a written record: it passes over the
records of other kinds and objects, and reads the others as what they are. -/
private theorem filter_encode {γ : Type} {kind : RecordType} {oid : ℕ} {r : FsRecord}
    {read view : Option γ} (hmiss : ¬(r.type = some kind ∧ r.oid = oid) → view = none)
    (hhit : r.type = some kind → r.oid = oid → read = view) :
    (if r.encode.recordType ≠ some kind ∨ r.encode.oid ≠ oid then none else read) = view := by
  obtain ⟨hoid, htype⟩ := r.encode_key
  rw [hoid, htype]
  by_cases h : r.type = some kind ∧ r.oid = oid
  · rw [if_neg (not_or.mpr ⟨not_not.mpr h.1, not_not.mpr h.2⟩)]
    exact hhit h.1 h.2
  · rw [if_pos (not_and_or.mp h), hmiss h]

/-- The directory filter on a written record. -/
theorem dirEntryOf_encode (parent : ℕ) (r : FsRecord) :
    dirEntryOf parent r.encode = r.entryIn parent := by
  refine filter_encode (fun hmiss => ?_) fun htype hoid => ?_
  · cases r with
    | dirRec p hash entry tail fits => exact if_neg fun hp => hmiss ⟨rfl, hp⟩
    | _ => rfl
  · cases r with
    | dirRec p hash entry tail fits =>
      rw [encode, parseDirEntry_encode fits, entryIn, if_pos (show p = parent from hoid)]
    | other e fits => exact absurd htype (type_of_other (by decide))
    | _ => simp [type] at htype

/-- The attribute filter on a written record. -/
theorem xattrFilter_encode (oid : ℕ) (r : FsRecord) :
    (if r.encode.recordType ≠ some .xattr ∨ r.encode.oid ≠ oid then none
      else parseXattr r.encode.key r.encode.value) = r.attributeOf oid := by
  refine filter_encode (fun hmiss => ?_) fun htype hoid => ?_
  · cases r with
    | xattr o x fits => exact if_neg fun ho => hmiss ⟨rfl, ho⟩
    | _ => rfl
  · cases r with
    | xattr o x fits =>
      rw [encode, parseXattr_encode fits, attributeOf, if_pos (show o = oid from hoid)]
    | other e fits => exact absurd htype (type_of_other (by decide))
    | _ => simp [type] at htype

/-- The extent filter on a written record. -/
theorem extentFilter_encode (streamOid : ℕ) (r : FsRecord) :
    (if r.encode.recordType ≠ some .fileExtent ∨ r.encode.oid ≠ streamOid then none
      else some (FileExtent.ofEntry r.encode)) = r.extentOf streamOid := by
  refine filter_encode (fun hmiss => ?_) fun htype hoid => ?_
  · cases r with
    | fileExtent s ext flags cryptoId fits => exact if_neg fun hs => hmiss ⟨rfl, hs⟩
    | _ => rfl
  · cases r with
    | fileExtent s ext flags cryptoId fits =>
      rw [encode, ofEntry_extentEntry fits, extentOf, if_pos (show s = streamOid from hoid)]
    | other e fits => exact absurd htype (type_of_other (by decide))
    | _ => simp [type] at htype

/-- The inode filter on a written record, with what is made of the value it finds. -/
theorem inodeFilter_encode (oid : ℕ) (r : FsRecord) :
    (if r.encode.recordType = some .inode ∧ r.encode.oid = oid then some r.encode.value
      else none).map (Inode.parse oid) = (r.inodeWith oid).map .ok := by
  obtain ⟨hoid, htype⟩ := r.encode_key
  rw [hoid, htype]
  by_cases h : r.type = some .inode ∧ r.oid = oid
  · rw [if_pos h, Option.map_some]
    cases r with
    | inode i unread fits =>
      obtain rfl : i.oid = oid := h.2
      rw [encode, Inode.parse_encodeInode fits, inodeWith, if_pos rfl, Option.map_some]
    | other e fits => exact absurd h.1 (type_of_other (by decide))
    | _ => simp [type] at h
  · rw [if_neg h, Option.map_none]
    cases r with
    | inode i unread fits =>
      have hi : ¬i.oid = oid := fun hi => h ⟨rfl, hi⟩
      rw [inodeWith, if_neg hi, Option.map_none]
    | _ => rfl

/-! ### Lists of records -/

theorem dirEntries_encode (parent : ℕ) (rs : List FsRecord) :
    dirEntries parent (rs.map encode) = rs.filterMap (entryIn parent) := by
  rw [dirEntries, List.filterMap_map]
  exact List.filterMap_congr fun r _ => dirEntryOf_encode parent r

theorem inodeOf_encode (oid xid : ℕ) (rs : List FsRecord) :
    inodeOf oid xid (rs.map encode) =
      match rs.findSome? (inodeWith oid) with
      | none => fail (.omapUnresolved oid xid)
      | some i => .ok i := by
  have hvalue : (inodeValue oid (rs.map encode)).map (Inode.parse oid) =
      (rs.findSome? (inodeWith oid)).map .ok := by
    rw [inodeValue, List.findSome?_map]
    induction rs with
    | nil => rfl
    | cons r rs ih =>
      rw [List.findSome?_cons, List.findSome?_cons, Function.comp_apply]
      have hr := inodeFilter_encode oid r
      cases hi : r.inodeWith oid with
      | none =>
        rw [hi, Option.map_none, Option.map_eq_none_iff] at hr
        rw [hr]
        exact ih
      | some i =>
        rw [hi, Option.map_some, Option.map_eq_some_iff] at hr
        obtain ⟨value, hsome, hparse⟩ := hr
        rw [hsome]
        exact congrArg some hparse
  rw [inodeOf]
  cases hv : inodeValue oid (rs.map encode) with
  | none =>
    rw [hv, Option.map_none, eq_comm, Option.map_eq_none_iff] at hvalue
    rw [hvalue]
  | some value =>
    rw [hv, Option.map_some, eq_comm, Option.map_eq_some_iff] at hvalue
    obtain ⟨i, hi, hparse⟩ := hvalue
    rw [hi]
    exact hparse.symm

theorem xattrs_encode (oid : ℕ) (rs : List FsRecord) :
    xattrs oid (rs.map encode) = rs.filterMap (attributeOf oid) := by
  rw [xattrs, List.filterMap_map]
  exact List.filterMap_congr fun r _ => xattrFilter_encode oid r

theorem fileExtents_encode (streamOid : ℕ) (rs : List FsRecord) :
    fileExtents streamOid (rs.map encode) = rs.filterMap (extentOf streamOid) := by
  rw [fileExtents, List.filterMap_map]
  exact List.filterMap_congr fun r _ => extentFilter_encode streamOid r

end FsRecord

end ApfsCore
