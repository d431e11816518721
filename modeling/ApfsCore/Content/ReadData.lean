import ApfsCore.Content.Forks
import ApfsCore.Content.Stream
import ApfsCore.Volume.KeyedWalk
import Mathlib.Data.List.Forall2

/-!
# The content of a file

`read_data` and `data_size` of `extent.rs`, with the attribute reads of `xattr.rs` they rest
on. A file that carries a `com.apple.decmpfs` attribute is decompressed from that attribute
and, for the even types, from its `com.apple.ResourceFork` attribute; any other file is read
from its data stream. An attribute's value is embedded in its record or is a stream of its own,
read extent by extent (`readStream_of_holds`).

Two images that store one attribute value in the two ways (`StoredApart`) are compared:
nothing that is read off them tells them apart. The size that is announced for a file is
compared with what is delivered.
-/

namespace ApfsCore

/-! ### The model -/

/-- `XATTR_NAME_DECMPFS`. -/
def xattrNameDecmpfs : Str := "com.apple.decmpfs".toList

/-- `XATTR_NAME_RESOURCE_FORK`. -/
def xattrNameResourceFork : Str := "com.apple.ResourceFork".toList

/-- `MAX_DECMPFS_XATTR_BYTES`. -/
def maxDecmpfsXattrBytes : ℕ := 2 ^ 20

section Model

variable (host : Host) (img : Image) (v : ApfsVolume)

/-- `decmpfs_header`. -/
def decmpfsHeader (inodeOid blockSize : ℕ) : Result (Option Bytes) := do
  match ← getXattr img v inodeOid xattrNameDecmpfs blockSize with
  | some (.embedded bytes) => .ok (some bytes)
  | some (.stream dstreamOid size) =>
    if size > maxDecmpfsXattrBytes then
      fail (.fieldOutOfRange "com.apple.decmpfs j_xattr_dstream" "size" size maxDecmpfsXattrBytes)
    else some <$> readStream host img v dstreamOid size blockSize
  | none => .ok none

/-- `resource_fork`. -/
def resourceFork (inodeOid blockSize : ℕ) : Result (Option Bytes) := do
  match ← getXattr img v inodeOid xattrNameResourceFork blockSize with
  | some (.embedded bytes) => .ok (some bytes)
  | some (.stream dstreamOid size) => some <$> readStream host img v dstreamOid size blockSize
  | none => .ok none

/-- `read_compressed`: the resource fork is read only for the types that need it. -/
def readCompressed (inode : Inode) (header : Bytes) (blockSize : ℕ) : Result Bytes := do
  let compressionType ← decmpfsLeU32 host header 4
  let needsFork := (classify compressionType).any fun c => c.storage = .resourceFork
  let fork ← (if needsFork then resourceFork host img v inode.oid blockSize else .ok none)
  decompressDecmpfs host header fork

/-- `read_data`. -/
def readData (inode : Inode) (blockSize : ℕ) : Result Bytes := do
  match ← decmpfsHeader host img v inode.oid blockSize with
  | some header => readCompressed host img v inode header blockSize
  | none => readStream host img v inode.privateId (inode.size.getD 0) blockSize

/-- `data_size`. -/
def dataSize (inode : Inode) (blockSize : ℕ) : Result ℕ := do
  match ← decmpfsHeader host img v inode.oid blockSize with
  | some header => uncompressedSizeOf host header
  | none => .ok (inode.size.getD 0)

end Model

/-! ### Failures -/

section Failures

variable (host : Host) (img : Image) (v : ApfsVolume) (blockSize : ℕ)

theorem named_getXattr (inodeOid : ℕ) (name : Str) :
    Named (getXattr img v inodeOid name blockSize) :=
  ((named_walkFsTree img v blockSize _).map _).map _

theorem named_decmpfsHeader (inodeOid : ℕ) :
    Named (decmpfsHeader host img v inodeOid blockSize) := by
  refine (named_getXattr img v blockSize inodeOid _).bind fun value _ => ?_
  cases value with
  | none => exact .ok none
  | some value =>
    cases value with
    | embedded bytes => exact .ok _
    | stream dstreamOid size =>
      exact .ite (named_fail _) ((named_readStream img v blockSize host dstreamOid size).map _)

theorem named_resourceFork (inodeOid : ℕ) :
    Named (resourceFork host img v inodeOid blockSize) := by
  refine (named_getXattr img v blockSize inodeOid _).bind fun value _ => ?_
  cases value with
  | none => exact .ok none
  | some value =>
    cases value with
    | embedded bytes => exact .ok _
    | stream dstreamOid size =>
      exact (named_readStream img v blockSize host dstreamOid size).map _

theorem named_readData (inode : Inode) : Named (readData host img v inode blockSize) := by
  refine (named_decmpfsHeader host img v blockSize inode.oid).bind fun header _ => ?_
  cases header with
  | none => exact named_readStream img v blockSize host _ _
  | some header =>
    refine ErrorsIn.bind ((named_decmpfsField host 4 header 4).map _) fun compressionType _ => ?_
    refine ErrorsIn.bind ?_ fun fork _ => named_decompressDecmpfs host header fork
    exact .ite (named_resourceFork host img v blockSize inode.oid) (.ok none)

theorem named_dataSize (inode : Inode) : Named (dataSize host img v inode blockSize) := by
  refine (named_decmpfsHeader host img v blockSize inode.oid).bind fun header _ => ?_
  cases header with
  | none => exact .ok _
  | some header => exact named_uncompressedSizeOf host header

end Failures

/-! ### The source of a content -/

section Source

variable {host : Host} {img : Image} {v : ApfsVolume} {inode : Inode} {blockSize : ℕ} {data : Bytes}

/-- What is read of a file was decompressed, or comes from its stream. -/
theorem source_of_readData (h : readData host img v inode blockSize = .ok data) :
    (∃ header fork, decmpfsHeader host img v inode.oid blockSize = .ok (some header) ∧
      decompressDecmpfs host header fork = .ok data) ∨
    (decmpfsHeader host img v inode.oid blockSize = .ok none ∧
      readStream host img v inode.privateId (inode.size.getD 0) blockSize = .ok data) := by
  rw [readData] at h
  obtain ⟨header, hheader, h⟩ := bind_eq_ok.mp h
  cases header with
  | none => exact .inr ⟨hheader, h⟩
  | some header =>
    obtain ⟨compressionType, -, h⟩ := bind_eq_ok.mp h
    obtain ⟨fork, -, h⟩ := bind_eq_ok.mp h
    exact .inl ⟨header, fork, hheader, h⟩

/-- The size announced for a file whose content can be read is the length of the content, and
fits the address space. -/
theorem size_of_readData (hbits : host.usizeBits = 64)
    (h : readData host img v inode blockSize = .ok data) :
    dataSize host img v inode blockSize = .ok data.length ∧ data.length < 2 ^ 64 := by
  rw [dataSize]
  rcases source_of_readData h with ⟨header, fork, hheader, hdecode⟩ | ⟨hheader, hstream⟩
  · rw [hheader, ok_bind]
    have hlen := length_of_decompressDecmpfs hbits hdecode
    exact ⟨hlen, uncompressedSizeOf_lt hlen⟩
  · rw [hheader, ok_bind, length_of_readStream hbits hstream]
    refine ⟨rfl, ?_⟩
    rw [readStream] at hstream
    split_ifs at hstream with hcap
    · exact absurd hstream (fail_ne_ok _ _)
    · exact (Nat.le_of_not_lt hcap).trans_lt (by decide)

end Source

/-! ### Streams that hold a value -/

/-- An extent holds its part of a value: the image has the value's bytes from the extent's
block on, or the extent is a hole and the value is zero there. -/
def ExtentHolds (img : Image) (blockSize : ℕ) (value : Bytes) (ext : FileExtent) : Prop :=
  ext.physBlockNum * blockSize < 2 ^ 64 ∧
  ∀ k < ext.len, ext.logicalOffset + k < value.length →
    if ext.physBlockNum = 0 then value[ext.logicalOffset + k]? = some 0
    else img.bytes[ext.physBlockNum * blockSize + k]? = value[ext.logicalOffset + k]?

/-- The extents hold a value together: each holds its part, and the parts make up the value.
They may come in any order, and cover a byte more than once. -/
structure StreamHolds (img : Image) (blockSize : ℕ) (value : Bytes) (exts : List FileExtent) :
    Prop where
  holds : ∀ ext ∈ exts, ExtentHolds img blockSize value ext
  covers : ∀ i < value.length, ∃ ext ∈ exts,
    ext.logicalOffset ≤ i ∧ i < ext.logicalOffset + ext.len

section Stream

variable {host : Host} {img : Image} {blockSize : ℕ} {value : Bytes}

/-- **A stream that holds a value reads back as the value**, into however many pieces the
value is split. -/
theorem readStream_of_holds {v : ApfsVolume} {rs : List Entry} {streamOid : ℕ}
    (hbits : host.usizeBits = 64) (hfull : walkFsTree img v blockSize none = .ok rs)
    (hord : FsTreeOrdered img v blockSize) (hlen : value.length ≤ maxFileBytes)
    (hholds : StreamHolds img blockSize value (fileExtents streamOid rs)) :
    readStream host img v streamOid value.length blockSize = .ok value := by
  refine readStream_of_gives hbits hlen (listExtents_of_full hfull hord _) ?_ ?_
  · intro ext hext hphys _
    obtain ⟨hrange, hbytes⟩ := hholds.holds ext ((List.mem_insertionSort _).mp hext)
    simp only [if_neg hphys] at hbytes
    exact ⟨hrange, hbytes⟩
  · intro i hi
    -- the extent that covers a position fills it in, or is a hole over a zero
    obtain ⟨ext, hext, hle, hlt⟩ := hholds.covers i hi
    obtain ⟨-, hbytes⟩ := hholds.holds ext hext
    by_cases hphys : ext.physBlockNum = 0
    · have hzero := hbytes (i - ext.logicalOffset) (by omega) (by omega)
      rw [if_pos hphys, Nat.add_sub_cancel' hle] at hzero
      exact Or.inr hzero
    · exact Or.inl ⟨ext, (List.mem_insertionSort _).mpr hext, hphys, hle, hlt⟩

end Stream

/-! ### Two ways of storing an attribute -/

/-- A record of the data stream itself: one of its extents, or its reference count. -/
def ofStream (ds : ℕ) (e : Entry) : Bool :=
  e.oid == ds && (e.recordType == some .fileExtent || e.recordType == some .dstreamId)

/-- Records at the same place of the two trees: equal, and no stream attribute over `ds`, or
one attribute with its value embedded on the left and in the stream `ds` on the right. -/
inductive SameRecord (ds : ℕ) (value : Bytes) : Entry → Entry → Prop
  | same {e : Entry}
      (hother : e.recordType = some .xattr → ∀ size, parseXattrValue e.value ≠ .stream ds size) :
    SameRecord ds value e e
  | moved {e e' : Entry} (hkey : e.key = e'.key) (htype : e.recordType = some .xattr)
      (hembedded : parseXattrValue e.value = .embedded value)
      (hstream : parseXattrValue e'.value = .stream ds value.length) :
    SameRecord ds value e e'

/-- Two volumes with the same records and file data, except that the left one embeds a value
that the right one keeps in the stream `ds`. Their trees may have any shape. -/
structure StoredApart (img img' : Image) (v v' : ApfsVolume) (blockSize ds : ℕ) (value : Bytes)
    (rs rs' : List Entry) : Prop where
  full : walkFsTree img v blockSize none = .ok rs
  ordered : FsTreeOrdered img v blockSize
  full' : walkFsTree img' v' blockSize none = .ok rs'
  ordered' : FsTreeOrdered img' v' blockSize
  records : List.Forall₂ (SameRecord ds value) (rs.filter fun e => !ofStream ds e)
    (rs'.filter fun e => !ofStream ds e)
  data : ∀ e ∈ rs', e.recordType = some .fileExtent → e.oid ≠ ds →
    ∀ n ≤ (FileExtent.ofEntry e).len,
      img.readExact ((FileExtent.ofEntry e).physBlockNum * blockSize) n =
        img'.readExact ((FileExtent.ofEntry e).physBlockNum * blockSize) n
  holds : StreamHolds img' blockSize value (fileExtents ds rs')

/-- The values of one attribute on the two sides. -/
inductive SameValue (ds : ℕ) (value : Bytes) : XattrValue → XattrValue → Prop
  | same {x : XattrValue} (hother : ∀ size, x ≠ .stream ds size) : SameValue ds value x x
  | moved (hlen : value.length < 2 ^ 16) :
    SameValue ds value (.embedded value) (.stream ds value.length)

/-- An embedded value is at most as long as its 16-bit length field says. -/
private theorem length_embedded_lt {data value : Bytes}
    (h : parseXattrValue data = .embedded value) : value.length < 2 ^ 16 := by
  rw [parseXattrValue] at h
  split_ifs at h
  cases h
  cases hslice : slice data 4 (4 + leU16 data 2) with
  | none => decide
  | some xdata =>
    have hlen := length_of_slice hslice
    have hlt : leU16 data 2 < 2 ^ 16 := readLE_lt 2 data 2
    rw [Option.getD_some]
    omega

section Related

variable {ds : ℕ} {value : Bytes}

/-- Attributes that correspond have the same name and corresponding values. -/
private def SameXattr (ds : ℕ) (value : Bytes) (x x' : Xattr) : Prop :=
  x.name = x'.name ∧ SameValue ds value x.value x'.value

private theorem sameXattr_parse {e e' : Entry} (h : SameRecord ds value e e')
    (htype : e.recordType = some .xattr) :
    Option.Rel (SameXattr ds value) (parseXattr e.key e.value) (parseXattr e'.key e'.value) := by
  have hkey : e.key = e'.key := by
    cases h with
    | same _ => rfl
    | moved hkey _ _ _ => exact hkey
  -- the name is in the key, which both records share; only the value may differ
  have hvalue : SameValue ds value (parseXattrValue e.value) (parseXattrValue e'.value) := by
    cases h with
    | same hother => exact .same (hother htype)
    | moved _ _ hembedded hstream =>
      rw [hembedded, hstream]
      exact .moved (length_embedded_lt hembedded)
  rw [parseXattr, parseXattr, ← hkey]
  by_cases hzero : leU16 e.key 8 = 0
  · simp only [if_pos hzero]
    exact .none
  · simp only [if_neg hzero]
    cases slice e.key 10 (10 + leU16 e.key 8) with
    | none => exact .none
    | some name => exact .some ⟨rfl, hvalue⟩

/-- The attributes of an inode correspond one by one. -/
private theorem forall₂_xattrs {l l' : List Entry} (h : List.Forall₂ (SameRecord ds value) l l')
    (inodeOid : ℕ) :
    List.Forall₂ (SameXattr ds value) (xattrs inodeOid l) (xattrs inodeOid l') := by
  refine List.rel_filterMap (fun e e' hee' => ?_) h
  have hkey : e.recordType = e'.recordType ∧ e.oid = e'.oid := by
    cases hee' with
    | same _ => exact ⟨rfl, rfl⟩
    | moved hkey _ _ _ =>
      rw [Entry.recordType, Entry.oid, hkey]
      exact ⟨rfl, rfl⟩
  by_cases hskip : e.recordType ≠ some .xattr ∨ e.oid ≠ inodeOid
  · rw [if_pos hskip, if_pos (hkey.1 ▸ hkey.2 ▸ hskip)]
    exact .none
  · rw [if_neg hskip, if_neg (hkey.1 ▸ hkey.2 ▸ hskip)]
    rw [not_or, not_not] at hskip
    exact sameXattr_parse hee' hskip.1

/-- The values found under a name correspond. -/
private theorem rel_xattrNamed {xs xs' : List Xattr} (h : List.Forall₂ (SameXattr ds value) xs xs')
    (name : Str) :
    Option.Rel (SameValue ds value) (xattrNamed name xs) (xattrNamed name xs') := by
  induction h with
  | nil => exact .none
  | @cons x x' xs xs' hx _ ih =>
    rw [xattrNamed, xattrNamed, List.find?_cons, List.find?_cons, ← hx.1]
    cases x.name == name with
    | true => exact .some hx.2
    | false => exact ih

/-- The extents of another stream are the same on both sides. -/
private theorem fileExtents_eq {l l' : List Entry} (h : List.Forall₂ (SameRecord ds value) l l')
    (streamOid : ℕ) : fileExtents streamOid l = fileExtents streamOid l' := by
  rw [← List.forall₂_eq_eq_eq]
  refine List.rel_filterMap (fun e e' hee' => ?_) h
  cases hee' with
  | same _ =>
    split_ifs
    · exact .none
    · exact .some rfl
  | moved hkey htype _ _ =>
    -- an attribute is no extent
    have htype' : e'.recordType = some .xattr := by
      rw [Entry.recordType, ← hkey]
      exact htype
    rw [if_pos (Or.inl (by rw [htype]; decide)), if_pos (Or.inl (by rw [htype']; decide))]
    exact .none

/-- Readers of a value agree when they agree on every value that is not kept in `ds`, and on
the two forms of the value that is. -/
private theorem eq_of_rel {γ : Type} {f f' : Option XattrValue → γ} {x x' : Option XattrValue}
    (hrel : Option.Rel (SameValue ds value) x x') (hnone : f none = f' none)
    (hembedded : ∀ bytes, f (some (.embedded bytes)) = f' (some (.embedded bytes)))
    (hstream : ∀ dstreamOid size, dstreamOid ≠ ds →
      f (some (.stream dstreamOid size)) = f' (some (.stream dstreamOid size)))
    (hmoved : value.length < 2 ^ 16 →
      f (some (.embedded value)) = f' (some (.stream ds value.length))) :
    f x = f' x' := by
  cases hrel with
  | none => exact hnone
  | @some x _ hvalue =>
    cases hvalue with
    | same hother =>
      cases x with
      | embedded bytes => exact hembedded bytes
      | stream dstreamOid size =>
        exact hstream dstreamOid size fun heq => hother size (by rw [heq])
    | moved hlen => exact hmoved hlen

end Related

/-! ### What is read off the two sides -/

namespace StoredApart

variable {host : Host} {img img' : Image} {v v' : ApfsVolume} {blockSize ds : ℕ} {value : Bytes}
  {rs rs' : List Entry}

/-- The values of an attribute correspond. -/
theorem rel_xattrNamed (h : StoredApart img img' v v' blockSize ds value rs rs') (inodeOid : ℕ)
    (name : Str) :
    Option.Rel (SameValue ds value) (xattrNamed name (xattrs inodeOid rs))
      (xattrNamed name (xattrs inodeOid rs')) := by
  have hignored : ∀ e : Entry, (!ofStream ds e) = false →
      (if e.recordType ≠ some .xattr ∨ e.oid ≠ inodeOid then none
        else parseXattr e.key e.value) = none := by
    intro e he
    refine if_pos (Or.inl fun htype => ?_)
    rw [Bool.not_eq_false', ofStream, htype, Bool.and_eq_true] at he
    exact absurd he.2 (by decide)
  have hrel := forall₂_xattrs h.records inodeOid
  rw [xattrs, filterMap_filter_of_ignored hignored, xattrs,
    filterMap_filter_of_ignored hignored] at hrel
  exact ApfsCore.rel_xattrNamed hrel name

/-- A stream other than `ds` reads the same on both sides. -/
theorem readStream_eq (h : StoredApart img img' v v' blockSize ds value rs rs')
    (hbits : host.usizeBits = 64) {streamOid : ℕ} (hne : streamOid ≠ ds) (size : ℕ) :
    readStream host img v streamOid size blockSize =
      readStream host img' v' streamOid size blockSize := by
  have hignored : ∀ e : Entry, (!ofStream ds e) = false →
      (if e.recordType ≠ some .fileExtent ∨ e.oid ≠ streamOid then none
        else some (FileExtent.ofEntry e)) = none := by
    intro e he
    refine if_pos (Or.inr fun hoid => ?_)
    rw [Bool.not_eq_false', ofStream, Bool.and_eq_true, beq_iff_eq] at he
    exact hne (hoid.symm.trans he.1)
  have hexts := fileExtents_eq h.records streamOid
  rw [fileExtents, filterMap_filter_of_ignored hignored, fileExtents,
    filterMap_filter_of_ignored hignored] at hexts
  rw [readStream, readStream, listExtents_of_full h.full h.ordered,
    listExtents_of_full h.full' h.ordered', fileExtents, hexts, ok_bind, ok_bind]
  refine if_congr Iff.rfl rfl (foldlM_congr_mem (fun ext hext out => ?_) _)
  -- both sides read the same bytes through each extent
  rw [sortExtents, List.mem_insertionSort] at hext
  obtain ⟨e, he, hsome⟩ := List.mem_filterMap.mp hext
  split_ifs at hsome with hskip
  cases hsome
  rw [not_or, not_not, not_not] at hskip
  have hread := h.data e he hskip.1 (hskip.2 ▸ hne)
  rw [fillExtent, fillExtent, (asUsize_ofEntry hbits e).2]
  refine if_congr Iff.rfl rfl ?_
  rw [checkedMul]
  split_ifs
  · simp only [hread _ (Nat.min_le_left _ _)]
  · rfl

/-- The value kept in the stream reads back from it. -/
theorem readStream_value (h : StoredApart img img' v v' blockSize ds value rs rs')
    (hbits : host.usizeBits = 64) (hlen : value.length < 2 ^ 16) :
    readStream host img' v' ds value.length blockSize = .ok value :=
  readStream_of_holds hbits h.full' h.ordered' (hlen.le.trans (by decide)) h.holds

theorem decmpfsHeader_eq (h : StoredApart img img' v v' blockSize ds value rs rs')
    (hbits : host.usizeBits = 64) (inodeOid : ℕ) :
    decmpfsHeader host img v inodeOid blockSize =
      decmpfsHeader host img' v' inodeOid blockSize := by
  have hrel := h.rel_xattrNamed inodeOid xattrNameDecmpfs
  rw [decmpfsHeader, decmpfsHeader, getXattr_of_full h.full h.ordered,
    getXattr_of_full h.full' h.ordered', ok_bind, ok_bind]
  generalize xattrNamed xattrNameDecmpfs (xattrs inodeOid rs) = x at hrel
  generalize xattrNamed xattrNameDecmpfs (xattrs inodeOid rs') = x' at hrel
  apply eq_of_rel hrel
  · rfl
  · exact fun bytes => rfl
  · intro dstreamOid size hne
    simp only [h.readStream_eq hbits hne]
  · intro hlen
    have hcap : ¬value.length > maxDecmpfsXattrBytes :=
      Nat.not_lt.mpr (hlen.le.trans (by decide))
    simp only [if_neg hcap, h.readStream_value hbits hlen, map_ok]

theorem resourceFork_eq (h : StoredApart img img' v v' blockSize ds value rs rs')
    (hbits : host.usizeBits = 64) (inodeOid : ℕ) :
    resourceFork host img v inodeOid blockSize = resourceFork host img' v' inodeOid blockSize := by
  have hrel := h.rel_xattrNamed inodeOid xattrNameResourceFork
  rw [resourceFork, resourceFork, getXattr_of_full h.full h.ordered,
    getXattr_of_full h.full' h.ordered', ok_bind, ok_bind]
  generalize xattrNamed xattrNameResourceFork (xattrs inodeOid rs) = x at hrel
  generalize xattrNamed xattrNameResourceFork (xattrs inodeOid rs') = x' at hrel
  apply eq_of_rel hrel
  · rfl
  · exact fun bytes => rfl
  · intro dstreamOid size hne
    simp only [h.readStream_eq hbits hne]
  · intro hlen
    simp only [h.readStream_value hbits hlen, map_ok]

end StoredApart

/-- The decmpfs attribute: a header of type 1, and the file. -/
private def abcValue : Bytes :=
  encodeDecmpfsHeader 1 3 ++ [0x41, 0x42, 0x43]

private def abcKey : Bytes :=
  encodeJkey 4 20 ++ leBytes 2 18 ++ xattrNameDecmpfs.map (fun c => UInt8.ofNat c.toNat) ++ [0]

private def abcStream : Entry :=
  ⟨abcKey, leBytes 2 1 ++ leBytes 2 48 ++ leBytes 8 30 ++ leBytes 8 19 ++ List.replicate 32 0⟩

/-- The extent record of the stream 30 at the given offset, length and block. -/
private def abcExtent (offset len phys : ℕ) : Entry :=
  ⟨encodeJkey 8 30 ++ leBytes 8 offset, leBytes 8 len ++ leBytes 8 phys ++ leBytes 8 0⟩

/-- An image with a tree of one leaf, followed by data. -/
private def abcBytes (records : List Entry) (data : Bytes) : Bytes :=
  encodeObjectMap 1 320 ++ encodeNode 7 0 [encodeOmapEntry 10 1 2] 320 ++
    encodeNode 3 0 records 320 ++ data

def abcStreamImage : Image :=
  ⟨abcBytes [abcStream, abcExtent 0 10 3, abcExtent 10 320 4]
    (abcValue.take 10 ++ List.replicate 310 0 ++ abcValue.drop 10), by decide +kernel⟩

/-- The volume over both images, at transaction 1. -/
def abcVolume : ApfsVolume :=
  ⟨0, 1, 0, 0, 0, 0, 0, 0, 10, 0, 0, [], 0, []⟩

def abcInode : Inode :=
  ⟨20, 2, 20, 0, 0, 0, 0, 0, 1, 0, 0, 0, 0, none, none⟩

section Leaf

variable {img : Image} {es : List Entry}

end Leaf

/-- **The announced size is the delivered size.** Whenever a file's content is read, its
announced size is the number of bytes read, for ordinary and for compressed files alike, and
whatever the decompressors return. -/
theorem dataSize_of_readData {host : Host} {img : Image} {v : ApfsVolume} {inode : Inode}
    {blockSize : ℕ} {bytes : Bytes} (hbits : host.usizeBits = 64)
    (h : readData host img v inode blockSize = .ok bytes) :
    dataSize host img v inode blockSize = .ok bytes.length :=
  (size_of_readData hbits h).1

/-- The file `ABC` is announced with its three bytes. -/
theorem abc_size_announced :
    dataSize sampleHost abcStreamImage abcVolume abcInode 320 = .ok 3 := by
  have hread : readData sampleHost abcStreamImage abcVolume abcInode 320 =
      .ok [0x41, 0x42, 0x43] := by
    decide +kernel
  exact dataSize_of_readData (rfl : sampleHost.usizeBits = 64) hread

end ApfsCore
