import ApfsCore.Content.Compressed
import ApfsCore.Content.ReadData
import ApfsCore.Volume.Written

/-!
# The files of a written volume

A file of a written volume is kept in one of two ways. Uncompressed, its inode announces its length
and the extents of its stream hold its bytes. Compressed, an attribute holds a header, a payload may
follow the header, and another attribute may hold a resource fork; either attribute is embedded in
its record or is a stream of its own. The contents say which (`FileOn`), and the crate reads back
the same bytes, and announces the same size, in all of these cases (`stored_file_reads_back`).
-/

namespace ApfsCore

/-- An attribute of an object holds a value: in its record, or in a stream of at most `cap`
bytes. -/
inductive AttributeHolds (img : Image) (blockSize : ℕ) (c : Contents) (oid : ℕ) (name : Str)
    (cap : ℕ) (value : Bytes) : Prop
  | embedded (h : c.attributeNamed oid name = some (.embedded value))
  | stream {ds : ℕ} (h : c.attributeNamed oid name = some (.stream ds value.length))
      (hcap : value.length ≤ cap)
      (hholds : StreamHolds img blockSize value (c.records.filterMap (FsRecord.extentOf ds)))

/-- The data of an inode, uncompressed or compressed. -/
inductive Stored (host : Host) (img : Image) (blockSize : ℕ) (c : Contents) (i : Inode)
    (data : Bytes) : Prop
  | plain (hnone : c.attributeNamed i.oid xattrNameDecmpfs = none)
      (hsize : i.size.getD 0 = data.length) (hcap : data.length ≤ maxFileBytes)
      (hholds : StreamHolds img blockSize data
        (c.records.filterMap (FsRecord.extentOf i.privateId)))
  | compressed {header : Bytes} {fork : Option Bytes} (hsize : data.length < 2 ^ 64)
      (h : Compressed host data header fork)
      (hheader : AttributeHolds img blockSize c i.oid xattrNameDecmpfs maxDecmpfsXattrBytes header)
      (hfork : ∀ f, fork = some f →
        AttributeHolds img blockSize c i.oid xattrNameResourceFork maxFileBytes f)

/-- A file of the contents lies on the image. -/
structure FileOn (host : Host) (img : Image) (blockSize : ℕ) (c : Contents) (i : Inode)
    (data : Bytes) : Prop where
  inode : c.inode i.oid = some i
  stored : Stored host img blockSize c i data

section Files

variable {host : Host} {img : Image} {v : ApfsVolume} {blockSize : ℕ}
  {mappings tree : Shape ℕ Entry} {c : Contents} {i : Inode} {data value : Bytes}

/-- A value that is embedded in a record fits its 16-bit length field. -/
theorem Contents.length_of_attributeNamed {oid : ℕ} {name : Str}
    (h : c.attributeNamed oid name = some (.embedded value)) : value.length < 2 ^ 16 := by
  obtain ⟨x, hfind, hx⟩ := Option.map_eq_some_iff.mp h
  obtain ⟨r, -, hr⟩ := List.mem_filterMap.mp (List.mem_of_find?_eq_some hfind)
  cases r with
  | xattr o x' fits =>
    rw [FsRecord.attributeOf] at hr
    split_ifs at hr
    cases hr
    exact (fits.embedded value hx).2
  | inode i unread fits => cases hr
  | dirRec parent hash entry tail fits => cases hr
  | fileExtent streamOid ext flags cryptoId fits => cases hr
  | other e fits => cases hr

theorem AttributeHolds.length_lt {oid cap : ℕ} {name : Str} (hcap : cap ≤ maxFileBytes)
    (h : AttributeHolds img blockSize c oid name cap value) : value.length < 2 ^ 64 := by
  cases h with
  | embedded h => exact (Contents.length_of_attributeNamed h).trans (by decide)
  | stream h hlen hholds => exact (hlen.trans hcap).trans_lt (by decide)

section Volume

variable (h : VolumeOn img v blockSize mappings tree c) (hbits : host.usizeBits = 64)

include h hbits

/-- A stream of the volume that holds a value reads back as the value. -/
theorem VolumeOn.readStream_eq {streamOid : ℕ} (hcap : value.length ≤ maxFileBytes)
    (hholds : StreamHolds img blockSize value
      (c.records.filterMap (FsRecord.extentOf streamOid))) :
    readStream host img v streamOid value.length blockSize = .ok value := by
  refine readStream_of_holds hbits h.walkFsTree_eq h.ordered hcap ?_
  rw [FsRecord.fileExtents_encode]
  exact hholds

/-- The header of a compressed file, wherever it is kept. -/
theorem VolumeOn.decmpfsHeader_eq {oid : ℕ}
    (hheader : AttributeHolds img blockSize c oid xattrNameDecmpfs maxDecmpfsXattrBytes value) :
    decmpfsHeader host img v oid blockSize = .ok (some value) := by
  cases hheader with
  | embedded hnamed => rw [decmpfsHeader, h.getXattr_eq, hnamed, ok_bind]
  | stream hnamed hcap hholds =>
    rw [decmpfsHeader, h.getXattr_eq, hnamed, ok_bind]
    dsimp only
    rw [if_neg (Nat.not_lt.mpr hcap),
      h.readStream_eq hbits (hcap.trans (by decide)) hholds, map_ok]

/-- The resource fork of a file, wherever it is kept. -/
theorem VolumeOn.resourceFork_eq {oid : ℕ}
    (hfork : AttributeHolds img blockSize c oid xattrNameResourceFork maxFileBytes value) :
    resourceFork host img v oid blockSize = .ok (some value) := by
  cases hfork with
  | embedded hnamed => rw [resourceFork, h.getXattr_eq, hnamed, ok_bind]
  | stream hnamed hcap hholds =>
    rw [resourceFork, h.getXattr_eq, hnamed, ok_bind]
    dsimp only
    rw [h.readStream_eq hbits hcap hholds, map_ok]

/-- The data of a file reads back. -/
theorem FileOn.readData_eq (hfile : FileOn host img blockSize c i data) :
    readData host img v i blockSize = .ok data := by
  cases hfile.stored with
  | plain hnone hsize hcap hholds =>
    have hheader : decmpfsHeader host img v i.oid blockSize = .ok none := by
      rw [decmpfsHeader, h.getXattr_eq, hnone, ok_bind]
    rw [readData, hheader, ok_bind]
    dsimp only
    rw [hsize, h.readStream_eq hbits hcap hholds]
  | compressed hsize hcompressed hheader hfork =>
    have hfit := hheader.length_lt (by decide)
    have hforkfit := fun f hf => (hfork f hf).length_lt le_rfl
    rw [← hbits] at hfit hforkfit
    obtain ⟨ct, hct, hneeds⟩ := hcompressed.needsFork hfit hforkfit
    have hdecode := hcompressed.decompress hbits hsize hfit hforkfit
    rw [readData, h.decmpfsHeader_eq hbits hheader, ok_bind]
    dsimp only
    rw [readCompressed, hct, ok_bind]
    dsimp only
    -- the fork is read exactly when the file has one
    rw [hneeds]
    rename_i header fork
    cases fork with
    | none => exact hdecode
    | some f =>
      rw [Option.isSome_some, if_pos rfl, h.resourceFork_eq hbits (hfork f rfl), ok_bind]
      exact hdecode

end Volume

end Files

/-- What the crate reads back of a file with the given data. -/
structure FileReadsBack (host : Host) (img : Image) (v : ApfsVolume) (blockSize : ℕ) (c : Contents)
    (i : Inode) (data : Bytes) : Prop where
  inode : loadInode img v i.oid blockSize = .ok i
  content : readData host img v i blockSize = .ok data
  size : dataSize host img v i blockSize = .ok data.length
  /-- The header of its compression, where the volume has one for it. -/
  header : ∀ value,
    AttributeHolds img blockSize c i.oid xattrNameDecmpfs maxDecmpfsXattrBytes value →
      decmpfsHeader host img v i.oid blockSize = .ok (some value)
  /-- Its resource fork, where the volume has one for it. -/
  fork : ∀ value, AttributeHolds img blockSize c i.oid xattrNameResourceFork maxFileBytes value →
    resourceFork host img v i.oid blockSize = .ok (some value)

/-- **A stored file reads back.** Whichever way a file of a written volume is kept, uncompressed in
extents and holes, or compressed in any of the forms of `Compressed` with its attributes embedded
or in streams, its inode is found, its content is its data, the size that is announced is their
length, and the header and the fork are read as they were written. -/
theorem stored_file_reads_back (host : Host) (img : Image) (v : ApfsVolume) (blockSize : ℕ)
    (mappings tree : Shape ℕ Entry) (c : Contents) (i : Inode) (data : Bytes)
    (hbits : host.usizeBits = 64) (h : VolumeOn img v blockSize mappings tree c)
    (hfile : FileOn host img blockSize c i data) :
    FileReadsBack host img v blockSize c i data := by
  have hread := hfile.readData_eq h hbits
  refine ⟨?_, hread, (size_of_readData hbits hread).1, fun value => h.decmpfsHeader_eq hbits,
    fun value => h.resourceFork_eq hbits⟩
  rw [h.loadInode_eq, Contents.inodeOrId, hfile.inode]
  rfl

/-! A volume with one file, compressed with LZVN into a resource fork that is a stream. -/

/-- The inode, which announces no size. -/
private def packedFile : Inode :=
  ⟨16, 2, 16, 1, 2, 3, 4, 0, 1, 0x20, 501, 20, 0x81A4, none, none⟩

private theorem packedFile_fits : packedFile.Fits := by
  constructor
  case name => exact fun _ h => by cases h
  case size => exact fun _ h => by cases h
  all_goals decide

/-- The header, embedded. -/
private def packedHeader : Xattr :=
  ⟨xattrNameDecmpfs, 2, .embedded (encodeDecmpfsHeader 8 1)⟩

/-- The resource fork, as a stream. -/
private def packedFork : Xattr :=
  ⟨xattrNameResourceFork, 1, .stream 17 18⟩

private theorem packedHeader_fits : XattrFits 16 packedHeader := by
  constructor
  case embedded =>
    rintro _ ⟨⟩
    decide
  case stream => exact fun _ _ h => by cases h
  all_goals decide

private theorem packedFork_fits : XattrFits 16 packedFork := by
  constructor
  case embedded => exact fun _ h => by cases h
  case stream =>
    rintro _ _ ⟨⟩
    decide
  all_goals decide

/-- The extent of the fork. -/
private def packedExtent : FileExtent :=
  ⟨0, 512, 3⟩

private theorem packedExtent_fits : ExtentFits 17 packedExtent 0 0 := by
  constructor <;> decide

private def packedContents : Contents where
  records :=
    [.inode packedFile sampleUnread packedFile_fits, .xattr 16 packedHeader packedHeader_fits,
      .xattr 16 packedFork packedFork_fits, .fileExtent 17 packedExtent 0 0 packedExtent_fits]
  sorted := by decide

/-- The blocks of the image. -/
private def packedBlocks : List Bytes :=
  [encodeObjectMap 1 512, encodeNode 7 0 [encodeOmapEntry 10 1 2] 512,
    encodeNode 2 0 (packedContents.records.map FsRecord.encode) 512,
    chunkedFork [] [lzvnSample] ++ List.replicate 494 0]

private def packedImage : Image where
  bytes := packedBlocks.flatten
  length_lt := by decide +kernel

private theorem packed_block {p : ℕ} {block : Bytes} (h : packedBlocks[p]? = some block) :
    packedImage.block 512 p = some block :=
  Image.block_of_flatten rfl (by decide +kernel) h

private theorem packed_volumeOn :
    VolumeOn packedImage sampleVolume 512 (.leaf 1 [encodeOmapEntry 10 1 2])
      (.leaf 10 (packedContents.records.map FsRecord.encode)) packedContents := by
  have homap : ObjectMapOn packedImage 512 0 (.leaf 1 [encodeOmapEntry 10 1 2]) :=
    .of_leaf (by decide) (by decide) (packed_block rfl)
      (.of_packed 7 0 (packed_block rfl) (by decide)) (List.pairwise_singleton _ _)
  exact .of_leaf (by decide) homap rfl (e := ⟨10, 1, 2, 0, 0⟩) ⟨by decide, by decide, by decide⟩
    (.of_packed 2 0 (packed_block rfl) (by decide +kernel))

private theorem packed_fileOn :
    FileOn sampleHost packedImage 512 packedContents packedFile [0x41] := by
  have hfork : packedImage.block 512 3 =
      some (chunkedFork [] [lzvnSample] ++ List.replicate 494 0) :=
    packed_block rfl
  have hexts : packedContents.records.filterMap (FsRecord.extentOf 17) = [packedExtent] := by
    decide
  have hlen : (chunkedFork [] [lzvnSample]).length = 18 := by
    decide
  -- the fork has one chunk, and the whole of it is in the extent
  have hpayload : ForkPayload sampleHost [0x41] 8 (chunkedFork [] [lzvnSample]) :=
    @ForkPayload.chunked sampleHost [0x41] 8 0 .lzvn [] (fun _ => lzvnSample) (by decide) rfl
      (by decide) (by decide)
  refine ⟨by decide, .compressed (by decide) (.fork [] hpayload) (.embedded (by decide)) ?_⟩
  rintro _ ⟨⟩
  refine @AttributeHolds.stream _ _ _ _ _ _ _ 17 (by decide) (by decide) ⟨?_, ?_⟩
  · rw [hexts, List.forall_mem_singleton]
    refine ⟨by decide, fun k hk hlt => ?_⟩
    have hlt : k < 18 := (Nat.le_add_left k 0).trans_lt (hlt.trans_eq hlen)
    rw [if_neg (by decide), show packedExtent.logicalOffset + k = k from Nat.zero_add k,
      show packedExtent.physBlockNum = 3 from rfl, ← getElem?_of_slice hfork (by omega),
      List.getElem?_append_left (hlen ▸ hlt)]
  · rw [hexts]
    intro i hi
    have hi : i < 18 := hi
    exact ⟨packedExtent, List.mem_singleton_self _, Nat.zero_le i,
      hi.trans (by decide : 18 < packedExtent.logicalOffset + packedExtent.len)⟩

/-- The file is decompressed from its fork, and its header is read. -/
theorem packed_file_reads_back :
    readData sampleHost packedImage sampleVolume packedFile 512 = .ok [0x41] ∧
      dataSize sampleHost packedImage sampleVolume packedFile 512 = .ok 1 ∧
      decmpfsHeader sampleHost packedImage sampleVolume 16 512 =
        .ok (some (encodeDecmpfsHeader 8 1)) := by
  have hread := stored_file_reads_back sampleHost packedImage sampleVolume 512
    (.leaf 1 [encodeOmapEntry 10 1 2]) (.leaf 10 (packedContents.records.map FsRecord.encode))
    packedContents packedFile [0x41] rfl packed_volumeOn packed_fileOn
  exact ⟨hread.content, hread.size, hread.header _ (.embedded (by decide))⟩

end ApfsCore
