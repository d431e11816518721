import ApfsCore.Format.Object
import Mathlib.Data.Nat.Bitwise

/-!
# The space manager and its allocation bitmaps

`spaceman.rs`: whether a block is free is answered by one bit. The space manager divides the
device into chunks and the chunks among chunk-info blocks (CIBs); a chunk-info slot points at
the bitmap of its chunk, and a chunk without a bitmap is free as a whole. The geometry comes from
the image, and what is read past the end of a block reads as zero, or as a clear bit: in either
case as free.

`LookupLeaves` says when the geometry sends a lookup outside the blocks it reads from. An answer
"free" rests on evidence, and such a geometry is refused (`FreeOnEvidence`), exactly when the
lookup stays inside them or is refused for another reason, met by accident (`LookupContained`).
-/

namespace ApfsCore

/-! ### The model -/

/-- The fields of a `spaceman_phys_t` that a lookup uses, those of its main device included. -/
structure Spaceman where
  blocksPerChunk : ℕ
  chunksPerCib : ℕ
  blockCount : ℕ
  chunkCount : ℕ
  cibCount : ℕ
  cabCount : ℕ
  addrOffset : ℕ
  deriving DecidableEq

/-- The fields as they stand in a block. -/
def Spaceman.ofBlock (sm : Bytes) : Spaceman where
  blocksPerChunk := leU32 sm 36
  chunksPerCib := leU32 sm 40
  blockCount := leU64 sm 48
  chunkCount := leU64 sm (48 + 8)
  cibCount := leU32 sm (48 + 16)
  cabCount := leU32 sm (48 + 20)
  addrOffset := leU32 sm (48 + 32)

/-- The chunk of a block. -/
def Spaceman.chunkIndex (s : Spaceman) (block : ℕ) : ℕ :=
  block / s.blocksPerChunk

/-- The CIB that holds the slot of a block's chunk. -/
def Spaceman.cibIndex (s : Spaceman) (block : ℕ) : ℕ :=
  s.chunkIndex block / s.chunksPerCib

/-- The slot of a block's chunk within its CIB. -/
def Spaceman.withinCib (s : Spaceman) (block : ℕ) : ℕ :=
  s.chunkIndex block % s.chunksPerCib

/-- The bit of a block in the bitmap of its chunk. -/
def Spaceman.bit (s : Spaceman) (block : ℕ) : ℕ :=
  block % s.blocksPerChunk

/-- The offset, in the space manager, of the address of a CIB. -/
def Spaceman.cibSlot (s : Spaceman) (cibIndex : ℕ) : ℕ :=
  s.addrOffset + cibIndex * 8

/-- `chunk_info_t` number `within` starts at this offset of its CIB. -/
def infoSlot (within : ℕ) : ℕ :=
  40 + within * 32

/-- `ci_bitmap_addr` of a slot. -/
def ciBitmapAddr (cib : Bytes) (within : ℕ) : ℕ :=
  leU64 cib (infoSlot within + 24)

/-- The `FieldOutOfRange` error of the space manager. -/
def spacemanRange (field : String) (value cap : ℕ) : ApfsError :=
  .fieldOutOfRange "spaceman_phys" field value cap

/-- The checks of `is_block_free` on the space manager, in the order in which it makes them. -/
def Spaceman.check (s : Spaceman) (block : ℕ) : Result Unit :=
  if s.blocksPerChunk = 0 ∨ s.chunksPerCib = 0 then
    fail (spacemanRange "sm_blocks_per_chunk/sm_chunks_per_cib" 0 1)
  else if block ≥ s.blockCount then fail (spacemanRange "block" block s.blockCount)
  else if s.cabCount ≠ 0 then fail (.unsupportedSpacemanCab s.cabCount)
  else if s.chunkIndex block ≥ s.chunkCount then
    fail (spacemanRange "chunk_index" (s.chunkIndex block) s.chunkCount)
  else if s.cibIndex block ≥ s.cibCount then
    fail (spacemanRange "cib_index" (s.cibIndex block) s.cibCount)
  else .ok ()

/-- The allocation bit, least significant bit first. A bit past the end of the bitmap is
clear. -/
def allocated (bitmap : Bytes) (bit : ℕ) : Bool :=
  match bitmap[bit / 8]? with
  | none => false
  | some byte => byte.toNat &&& (1 <<< (bit % 8)) != 0

/-- `is_block_free`. -/
def isBlockFree (img : Image) (spacemanPaddr block blockSize : ℕ) : Result Bool := do
  let sm ← readObjBlock img spacemanPaddr blockSize
  let s := Spaceman.ofBlock sm
  s.check block
  let cib ← readObjBlock img (leU64 sm (s.cibSlot (s.cibIndex block))) blockSize
  if s.withinCib block ≥ leU32 cib 36 then
    fail (spacemanRange "chunk_info_index" (s.withinCib block) (leU32 cib 36))
  else if ciBitmapAddr cib (s.withinCib block) = 0 then .ok true
  else do
    let bitmap ← img.readExact
      (saturatingMul (ciBitmapAddr cib (s.withinCib block)) blockSize) blockSize
    .ok (!allocated bitmap (s.bit block))

/-! ### The steps of a lookup -/

/-- The space manager admits a block: no check refuses it. -/
structure Spaceman.Admits (s : Spaceman) (block : ℕ) : Prop where
  blocksPerChunk_pos : 0 < s.blocksPerChunk
  chunksPerCib_pos : 0 < s.chunksPerCib
  inDevice : block < s.blockCount
  noCab : s.cabCount = 0
  chunkIndex_lt : s.chunkIndex block < s.chunkCount
  cibIndex_lt : s.cibIndex block < s.cibCount

theorem Spaceman.check_eq_ok_iff {s : Spaceman} {block : ℕ} :
    s.check block = .ok () ↔ s.Admits block := by
  rw [Spaceman.check]
  split_ifs with hzero hdevice hcab hchunk hcib
  · refine iff_of_false (fail_ne_ok _ _) fun h => ?_
    have hchunks := h.blocksPerChunk_pos
    have hcibs := h.chunksPerCib_pos
    omega
  · exact iff_of_false (fail_ne_ok _ _) fun h => absurd h.inDevice (Nat.not_lt.mpr hdevice)
  · exact iff_of_false (fail_ne_ok _ _) fun h => hcab h.noCab
  · exact iff_of_false (fail_ne_ok _ _) fun h => absurd h.chunkIndex_lt (Nat.not_lt.mpr hchunk)
  · exact iff_of_false (fail_ne_ok _ _) fun h => absurd h.cibIndex_lt (Nat.not_lt.mpr hcib)
  · exact iff_of_true rfl ⟨by omega, by omega, Nat.not_le.mp hdevice, not_not.mp hcab,
      Nat.not_le.mp hchunk, Nat.not_le.mp hcib⟩

theorem Spaceman.named_check (s : Spaceman) (block : ℕ) : Named (s.check block) :=
  .ite (named_fail _) <| .ite (named_fail _) <| .ite (named_fail _) <| .ite (named_fail _) <|
    .ite (named_fail _) (.ok ())

theorem named_isBlockFree (img : Image) (spacemanPaddr block blockSize : ℕ) :
    Named (isBlockFree img spacemanPaddr block blockSize) := by
  refine (named_readObjBlock img _ _).bind fun sm _ => ?_
  refine (Spaceman.named_check _ block).bind fun _ _ => ?_
  refine (named_readObjBlock img _ _).bind fun cib _ => ?_
  exact .ite (named_fail _) (.ite (.ok true) ((img.named_readExact _ _).bind fun _ _ => .ok _))

/-- The bit is in the bitmap, and clear: bit `bit % 8` of byte `bit / 8`. -/
def BitClear (bitmap : Bytes) (bit : ℕ) : Prop :=
  ∃ byte, bitmap[bit / 8]? = some byte ∧ byte.toNat.testBit (bit % 8) = false

/-- The bit test of the source is the test of one bit. -/
theorem allocated_eq (bitmap : Bytes) (bit : ℕ) :
    allocated bitmap bit = bitmap[bit / 8]?.any fun byte => byte.toNat.testBit (bit % 8) := by
  rw [allocated]
  cases bitmap[bit / 8]? with
  | none => rfl
  | some byte =>
    simp only [Option.any_some, Nat.one_shiftLeft, Nat.and_two_pow]
    cases byte.toNat.testBit (bit % 8) with
    | false => rw [Bool.toNat_false, Nat.zero_mul, bne_self_eq_false]
    | true =>
      rw [Bool.toNat_true, Nat.one_mul, bne_iff_ne]
      exact Nat.ne_of_gt (Nat.two_pow_pos _)

theorem allocated_eq_false_iff {bitmap : Bytes} {bit : ℕ} :
    allocated bitmap bit = false ↔ 8 * bitmap.length ≤ bit ∨ BitClear bitmap bit := by
  rw [allocated_eq, BitClear]
  cases hbyte : bitmap[bit / 8]? with
  | none =>
    have hlen := List.getElem?_eq_none_iff.mp hbyte
    exact iff_of_true rfl (.inl (by omega))
  | some byte =>
    obtain ⟨hlt, -⟩ := List.getElem?_eq_some_iff.mp hbyte
    have hin : ¬8 * bitmap.length ≤ bit := by omega
    simp only [Option.any_some, Option.some.injEq, exists_eq_left', hin, false_or]

/-- What the second half of a lookup needs: the CIB is verified and has the slot. -/
structure CibHolds (img : Image) (blockSize : ℕ) (sm : Bytes) (block : ℕ) (cib : Bytes) :
    Prop where
  verified : BlockVerified img blockSize
    (leU64 sm ((Spaceman.ofBlock sm).cibSlot ((Spaceman.ofBlock sm).cibIndex block))) cib
  within_lt : (Spaceman.ofBlock sm).withinCib block < leU32 cib 36

section Lookup

variable {img : Image} {spacemanPaddr block blockSize : ℕ} {sm cib : Bytes}

/-- A lookup that finds its slot is decided by the bitmap address in it. -/
theorem isBlockFree_of_holds (hbs : blockSize ≠ 0)
    (hsm : BlockVerified img blockSize spacemanPaddr sm)
    (hadmits : (Spaceman.ofBlock sm).Admits block) (hcib : CibHolds img blockSize sm block cib) :
    isBlockFree img spacemanPaddr block blockSize =
      if ciBitmapAddr cib ((Spaceman.ofBlock sm).withinCib block) = 0 then .ok true
      else
        match img.block blockSize (ciBitmapAddr cib ((Spaceman.ofBlock sm).withinCib block)) with
        | none => fail .io
        | some bitmap => .ok (!allocated bitmap ((Spaceman.ofBlock sm).bit block)) := by
  rw [isBlockFree, (readObjBlock_eq_ok_iff hbs).mpr hsm, ok_bind]
  simp only [Spaceman.check_eq_ok_iff.mpr hadmits, ok_bind,
    (readObjBlock_eq_ok_iff hbs).mpr hcib.verified, ge_iff_le, Nat.not_le.mpr hcib.within_lt,
    if_false, Image.readExact_saturatingMul img hbs]
  refine if_congr Iff.rfl rfl ?_
  cases img.block blockSize (ciBitmapAddr cib ((Spaceman.ofBlock sm).withinCib block)) with
  | none => rfl
  | some bitmap => rfl

/-- A lookup that answers has found its slot. -/
theorem exists_holds_of_isBlockFree {free : Bool} (hbs : blockSize ≠ 0)
    (h : isBlockFree img spacemanPaddr block blockSize = .ok free) :
    ∃ sm cib, BlockVerified img blockSize spacemanPaddr sm ∧
      (Spaceman.ofBlock sm).Admits block ∧ CibHolds img blockSize sm block cib := by
  obtain ⟨sm, hsm, h⟩ := bind_eq_ok.mp h
  obtain ⟨⟨⟩, hcheck, h⟩ := bind_eq_ok.mp h
  obtain ⟨cib, hcib, h⟩ := bind_eq_ok.mp h
  split_ifs at h with hwithin
  · exact absurd h (fail_ne_ok _ _)
  all_goals
    exact ⟨sm, cib, (readObjBlock_eq_ok_iff hbs).mp hsm, Spaceman.check_eq_ok_iff.mp hcheck,
      (readObjBlock_eq_ok_iff hbs).mp hcib, Nat.not_le.mp hwithin⟩

end Lookup

/-! ### Evidence -/

/-- The evidence for an answer "free": the slots used lie in their blocks, and the slot of the
chunk holds no bitmap address, or that of a bitmap in which the bit is clear. -/
structure FreeEvidence (img : Image) (spacemanPaddr block blockSize : ℕ) (sm cib : Bytes) :
    Prop where
  spaceman : BlockVerified img blockSize spacemanPaddr sm
  cibSlot_le : (Spaceman.ofBlock sm).cibSlot ((Spaceman.ofBlock sm).cibIndex block) + 8 ≤ blockSize
  found : CibHolds img blockSize sm block cib
  infoSlot_le : infoSlot ((Spaceman.ofBlock sm).withinCib block) + 32 ≤ blockSize
  free : ciBitmapAddr cib ((Spaceman.ofBlock sm).withinCib block) = 0 ∨
    ∃ bitmap, img.block blockSize (ciBitmapAddr cib ((Spaceman.ofBlock sm).withinCib block)) =
        some bitmap ∧
      (Spaceman.ofBlock sm).bit block < 8 * blockSize ∧
      BitClear bitmap ((Spaceman.ofBlock sm).bit block)

/-- The geometry sends the lookup of a block outside the space manager, the CIB, or the
bitmap. -/
inductive LookupLeaves (img : Image) (blockSize : ℕ) (sm : Bytes) (block : ℕ) : Prop where
  | cibSlot
      (h : blockSize < (Spaceman.ofBlock sm).cibSlot ((Spaceman.ofBlock sm).cibIndex block) + 8)
  | infoSlot (cib : Bytes) (hcib : CibHolds img blockSize sm block cib)
      (h : blockSize < infoSlot ((Spaceman.ofBlock sm).withinCib block) + 32)
  | bit (cib : Bytes) (hcib : CibHolds img blockSize sm block cib)
      (haddr : ciBitmapAddr cib ((Spaceman.ofBlock sm).withinCib block) ≠ 0)
      (h : 8 * blockSize ≤ (Spaceman.ofBlock sm).bit block)

/-- "Free" is never answered without evidence, and a geometry that sends the lookup outside its
blocks is refused. -/
structure FreeOnEvidence (img : Image) (spacemanPaddr block blockSize : ℕ) : Prop where
  evidence : isBlockFree img spacemanPaddr block blockSize = .ok true →
    ∃ sm cib, FreeEvidence img spacemanPaddr block blockSize sm cib
  refused : ∀ sm, BlockVerified img blockSize spacemanPaddr sm →
    (Spaceman.ofBlock sm).Admits block → LookupLeaves img blockSize sm block →
    ∃ field value cap,
      isBlockFree img spacemanPaddr block blockSize = fail (spacemanRange field value cap)

/-- The address of the CIB is read past the end of the space manager, as zero, and block zero
happens to be a verified object with too few slots. -/
def RefusedAtZero (img : Image) (blockSize : ℕ) (sm : Bytes) (block : ℕ) : Prop :=
  blockSize < (Spaceman.ofBlock sm).cibSlot ((Spaceman.ofBlock sm).cibIndex block) + 8 ∧
    ∃ cib, BlockVerified img blockSize 0 cib ∧
      leU32 cib 36 ≤ (Spaceman.ofBlock sm).withinCib block

/-- The lookup of an admitted block stays inside the blocks it reads from, or is refused at block
zero. -/
def LookupContained (img : Image) (spacemanPaddr block blockSize : ℕ) : Prop :=
  ∀ sm, BlockVerified img blockSize spacemanPaddr sm → (Spaceman.ofBlock sm).Admits block →
    ¬LookupLeaves img blockSize sm block ∨ RefusedAtZero img blockSize sm block

section Evidence

variable {img : Image} {spacemanPaddr block blockSize : ℕ} {sm cib : Bytes}

/-- Past the end of the space manager the address of the CIB reads as zero. -/
private theorem cibAddr_eq_zero (hsm : BlockVerified img blockSize spacemanPaddr sm) {slot : ℕ}
    (h : blockSize < slot + 8) : leU64 sm slot = 0 := by
  have hlen := Image.length_of_block hsm.1
  have hnone : slice sm slot (slot + 8) = none := by
    rw [slice_eq_none_iff]
    omega
  rw [leU64, readLE, hnone]

/-- Past the end of the CIB the address of the bitmap reads as zero. -/
private theorem ciBitmapAddr_eq_zero (hcib : CibHolds img blockSize sm block cib) {within : ℕ}
    (h : blockSize < infoSlot within + 32) : ciBitmapAddr cib within = 0 := by
  have hlen := Image.length_of_block hcib.verified.1
  have hnone : slice cib (infoSlot within + 24) (infoSlot within + 24 + 8) = none := by
    rw [slice_eq_none_iff]
    omega
  rw [ciBitmapAddr, leU64, readLE, hnone]

/-- A lookup that finds its slot is not refused for its geometry. -/
private theorem not_refused_of_holds (hbs : blockSize ≠ 0)
    (hsm : BlockVerified img blockSize spacemanPaddr sm)
    (hadmits : (Spaceman.ofBlock sm).Admits block) (hcib : CibHolds img blockSize sm block cib)
    (field : String) (value cap : ℕ) :
    isBlockFree img spacemanPaddr block blockSize ≠ fail (spacemanRange field value cap) := by
  rw [isBlockFree_of_holds hbs hsm hadmits hcib]
  split_ifs
  · exact (fail_ne_ok _ _).symm
  · cases img.block blockSize (ciBitmapAddr cib ((Spaceman.ofBlock sm).withinCib block)) with
    | none =>
      intro h
      cases h
    | some bitmap => exact (fail_ne_ok _ _).symm

/-- An answer "free" that is read inside the blocks has its evidence there. -/
private theorem freeEvidence_of_inside (hbs : blockSize ≠ 0)
    (hsm : BlockVerified img blockSize spacemanPaddr sm)
    (hadmits : (Spaceman.ofBlock sm).Admits block) (hcib : CibHolds img blockSize sm block cib)
    (hinside : ¬LookupLeaves img blockSize sm block)
    (hfree : isBlockFree img spacemanPaddr block blockSize = .ok true) :
    FreeEvidence img spacemanPaddr block blockSize sm cib := by
  refine ⟨hsm, Nat.not_lt.mp fun h => hinside (.cibSlot h), hcib,
    Nat.not_lt.mp fun h => hinside (.infoSlot cib hcib h), ?_⟩
  rw [isBlockFree_of_holds hbs hsm hadmits hcib] at hfree
  split_ifs at hfree with haddr
  · exact .inl haddr
  · have hbit := Nat.not_le.mp fun h => hinside (.bit cib hcib haddr h)
    cases hbitmap : img.block blockSize
        (ciBitmapAddr cib ((Spaceman.ofBlock sm).withinCib block)) with
    | none =>
      rw [hbitmap] at hfree
      exact absurd hfree (fail_ne_ok _ _)
    | some bitmap =>
      rw [hbitmap, Except.ok.injEq, Bool.not_eq_true'] at hfree
      have hlen := Image.length_of_block hbitmap
      refine .inr ⟨bitmap, rfl, hbit, ?_⟩
      refine (allocated_eq_false_iff.mp hfree).resolve_left ?_
      rw [hlen]
      exact Nat.not_le.mpr hbit

/-- **"Free" is answered on evidence exactly when the lookup stays inside its blocks**, the
refusals at block zero apart. -/
theorem freeOnEvidence_iff (hbs : blockSize ≠ 0) :
    FreeOnEvidence img spacemanPaddr block blockSize ↔
      LookupContained img spacemanPaddr block blockSize := by
  constructor
  · intro h sm hsm hadmits
    refine or_iff_not_imp_left.mpr fun hleaves => ?_
    rw [not_not] at hleaves
    obtain ⟨field, value, cap, hrange⟩ := h.refused sm hsm hadmits hleaves
    -- a slot that is found is not refused, so it is the address of the CIB that lies outside
    have hno : ∀ cib, ¬CibHolds img blockSize sm block cib := fun cib hcib =>
      not_refused_of_holds hbs hsm hadmits hcib field value cap hrange
    rcases hleaves with hslot | ⟨cib, hcib, -⟩ | ⟨cib, hcib, -, -⟩
    · refine ⟨hslot, ?_⟩
      rw [isBlockFree, (readObjBlock_eq_ok_iff hbs).mpr hsm, ok_bind] at hrange
      simp only [Spaceman.check_eq_ok_iff.mpr hadmits, ok_bind] at hrange
      rw [cibAddr_eq_zero hsm hslot] at hrange
      rcases readObjBlock_cases img 0 hbs with ⟨cib, hread, hcib⟩ | ⟨e, hread, he, -⟩
      · refine ⟨cib, hcib, Nat.not_lt.mp fun hwithin => hno cib ⟨?_, hwithin⟩⟩
        rw [cibAddr_eq_zero hsm hslot]
        exact hcib
      · -- a block zero that cannot be read or verified is refused for that
        rw [hread, fail_bind] at hrange
        rcases he with rfl | ⟨b, stored, computed, rfl⟩
        · cases hrange
        · cases hrange
    · exact absurd hcib (hno cib)
    · exact absurd hcib (hno cib)
  · intro h
    refine ⟨fun hfree => ?_, fun sm hsm hadmits hleaves => ?_⟩
    · obtain ⟨sm, cib, hsm, hadmits, hcib⟩ := exists_holds_of_isBlockFree hbs hfree
      rcases h sm hsm hadmits with hinside | ⟨hslot, cib', hcib', hcount⟩
      · exact ⟨sm, cib, freeEvidence_of_inside hbs hsm hadmits hcib hinside hfree⟩
      · -- the answer has been read at block zero, which has the slot
        have hverified := hcib.verified
        rw [cibAddr_eq_zero hsm hslot] at hverified
        obtain rfl := hverified.unique hcib'
        exact absurd hcib.within_lt (Nat.not_lt.mpr hcount)
    · obtain ⟨hslot, cib, hcib, hcount⟩ := (h sm hsm hadmits).resolve_left (not_not.mpr hleaves)
      refine ⟨"chunk_info_index", (Spaceman.ofBlock sm).withinCib block, leU32 cib 36, ?_⟩
      rw [isBlockFree, (readObjBlock_eq_ok_iff hbs).mpr hsm, ok_bind]
      simp only [Spaceman.check_eq_ok_iff.mpr hadmits, ok_bind]
      rw [cibAddr_eq_zero hsm hslot, (readObjBlock_eq_ok_iff hbs).mpr hcib, ok_bind,
        if_pos hcount]

end Evidence

/-! A device of 1000 chunks whose only CIB claims a slot for each and holds 126. -/

/-- The space manager: chunks of 32768 blocks, and the address of its CIB at byte 84. -/
private def deviceSpaceman : Bytes :=
  stamp (List.replicate 28 0 ++ leBytes 4 32768 ++ leBytes 4 1000 ++ leBytes 4 0 ++
    leBytes 8 32768000 ++ leBytes 8 1000 ++ leBytes 4 1 ++ leBytes 4 0 ++ leBytes 8 0 ++
    leBytes 4 84 ++ leBytes 8 1 ++ List.replicate 4004 0)

/-- The CIB: every chunk has its bitmap at block 2. -/
private def deviceCib : Bytes :=
  stamp (List.replicate 28 0 ++ leBytes 4 1000 ++
    (List.replicate 126 (List.replicate 24 0 ++ leBytes 8 2)).flatten ++ List.replicate 24 0)

private theorem length_deviceBlocks :
    deviceSpaceman.length = 4096 ∧ deviceCib.length = 4096 := by
  constructor
  · rw [deviceSpaceman, length_stamp]
    simp only [List.length_append, length_leBytes, List.length_replicate]
  · rw [deviceCib, length_stamp]
    simp only [List.length_append, length_leBytes, List.length_replicate, List.length_flatten,
      List.map_replicate, List.sum_replicate]
    rfl

/-- The device: every bit of the bitmap is set. -/
def deviceImage : Image :=
  ⟨deviceSpaceman ++ deviceCib ++ List.replicate 4096 255, by
    rw [List.length_append, List.length_append, length_deviceBlocks.1, length_deviceBlocks.2,
      List.length_replicate]
    norm_num⟩

private theorem device_verified :
    BlockVerified deviceImage 4096 0 deviceSpaceman ∧
      BlockVerified deviceImage 4096 1 deviceCib := by
  obtain ⟨hsm, hcib⟩ := length_deviceBlocks
  refine ⟨⟨?_, checksumValid_stamp _⟩, ⟨?_, checksumValid_stamp _⟩⟩
  · exact Image.block_of_append
      ((List.append_assoc _ _ _).trans (List.nil_append _).symm) (Nat.zero_mul _).symm hsm
  · exact Image.block_of_append (List.append_assoc _ _ _) (hsm.trans (Nat.one_mul _).symm) hcib

private theorem device_fields :
    Spaceman.ofBlock deviceSpaceman = ⟨32768, 1000, 32768000, 1000, 1, 0, 84⟩ := by
  decide +kernel

/-- The lookup of a block of the first chunk stays inside the blocks. -/
theorem first_chunk_on_evidence : FreeOnEvidence deviceImage 0 7 4096 := by
  refine (freeOnEvidence_iff (by decide)).mpr fun sm hsm hadmits => .inl ?_
  obtain rfl := hsm.unique device_verified.1
  rintro (h | ⟨cib, hcib, h⟩ | ⟨cib, hcib, haddr, h⟩)
  · rw [device_fields] at h
    exact absurd h (by decide)
  · rw [device_fields] at h
    exact absurd h (by decide)
  · rw [device_fields] at h
    exact absurd h (by decide)

/-- A block of chunk 500 is reported free, although its chunk has no slot in the CIB. -/
theorem far_chunk_free_without_evidence :
    isBlockFree deviceImage 0 16384000 4096 = .ok true ∧
      ¬FreeOnEvidence deviceImage 0 16384000 4096 := by
  have hadmits : (Spaceman.ofBlock deviceSpaceman).Admits 16384000 := by
    rw [device_fields]
    exact Spaceman.check_eq_ok_iff.mp rfl
  have hcib : CibHolds deviceImage 4096 deviceSpaceman 16384000 deviceCib := by
    have haddr : leU64 deviceSpaceman 84 = 1 := by
      decide +kernel
    have hcount : leU32 deviceCib 36 = 1000 := by
      decide +kernel
    constructor
    · rw [device_fields]
      exact haddr.symm ▸ device_verified.2
    · rw [device_fields, hcount]
      decide
  have hfree : isBlockFree deviceImage 0 16384000 4096 = .ok true := by
    have haddr : ciBitmapAddr deviceCib
        ((Spaceman.ofBlock deviceSpaceman).withinCib 16384000) = 0 := by
      refine ciBitmapAddr_eq_zero hcib ?_
      rw [device_fields]
      decide
    rw [isBlockFree_of_holds (by decide) device_verified.1 hadmits hcib, if_pos haddr]
  refine ⟨hfree, fun h => ?_⟩
  obtain ⟨sm, cib, hev⟩ := h.evidence hfree
  have hslot := hev.infoSlot_le
  rw [hev.spaceman.unique device_verified.1, device_fields] at hslot
  exact absurd hslot (by decide)

end ApfsCore
