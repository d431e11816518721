import ApfsCore.Container.Superblock
import ApfsCore.Format.Layout
import Mathlib.Data.Nat.Bitwise

/-!
# Writing a container superblock

`encodeSuperblock` writes a container superblock, sealed over its whole block: the geometry in its
places, the slots of the volume ids behind it, and the top bit of the length of a checkpoint area
for an area that is a tree. `NxSuperblock.parse` gives the superblock back
(`NxSuperblock.parse_encodeSuperblock`), with the volume ids of the slots in use.
-/

namespace ApfsCore

/-- What of a container superblock is not read, and the slots of its volume ids. -/
structure NxUnread where
  oid : ℕ
  typeFlags : ℕ
  subtype : ℕ
  features : ℕ
  nextIds : ℕ
  ringState : ℕ
  testType : ℕ
  slots : List ℕ
  rest : Bytes

/-- The bounds of a superblock's fields. A slot that is not in use is zero. -/
structure NxSuperblock.Fits (nx : NxSuperblock) (u : NxUnread) : Prop where
  xid : nx.xid < 2 ^ 64
  uuid : nx.uuid.length = 16
  blockSize : nx.blockSize < 2 ^ 32
  blockCount : nx.blockCount < 2 ^ 64
  incompatibleFeatures : nx.incompatibleFeatures < 2 ^ 64
  xpDescBase : nx.xpDescBase < 2 ^ 64
  xpDescBlocks : nx.xpDescBlocks < 2 ^ 31
  xpDataBase : nx.xpDataBase < 2 ^ 64
  xpDataBlocks : nx.xpDataBlocks < 2 ^ 31
  omapOid : nx.omapOid < 2 ^ 64
  spacemanOid : nx.spacemanOid < 2 ^ 64
  reaperOid : nx.reaperOid < 2 ^ 64
  slots : u.slots.length ≤ nxMaxFileSystems
  slot : ∀ oid ∈ u.slots, oid < 2 ^ 64
  fsOids : nx.fsOids = u.slots.filter (· ≠ 0)

/-- The length of a checkpoint area, with the flag of a tree. -/
def xpBlocksWord (blocks : ℕ) (isTree : Bool) : ℕ :=
  blocks + if isTree then 2 ^ 31 else 0

/-- The words between the checksum and the UUID. -/
def nxFront (nx : NxSuperblock) (u : NxUnread) : List (ℕ × ℕ) :=
  [(8, u.oid), (8, nx.xid), (4, u.typeFlags % 65536 * 65536 + 1), (4, u.subtype), (4, nxMagic),
    (4, nx.blockSize), (8, nx.blockCount), (16, u.features), (8, nx.incompatibleFeatures)]

/-- The words between the UUID and the volume ids. -/
def nxGeometry (nx : NxSuperblock) (u : NxUnread) : List (ℕ × ℕ) :=
  [(16, u.nextIds), (4, xpBlocksWord nx.xpDescBlocks nx.descIsTree),
    (4, xpBlocksWord nx.xpDataBlocks nx.dataIsTree), (8, nx.xpDescBase), (8, nx.xpDataBase),
    (24, u.ringState), (8, nx.spacemanOid), (8, nx.omapOid), (8, nx.reaperOid), (4, u.testType),
    (4, u.slots.length)]

/-- The slots of the volume ids. -/
def nxSlots (u : NxUnread) : List (ℕ × ℕ) :=
  u.slots.map fun oid => (8, oid)

/-- The container superblock. -/
def encodeSuperblock (nx : NxSuperblock) (u : NxUnread) : Bytes :=
  stamp (encodeFields (nxFront nx u) ++ (nx.uuid ++ (encodeFields (nxGeometry nx u) ++
    (encodeFields (nxSlots u) ++ u.rest))))

/-- The length of a checkpoint area and its flag are taken apart again. -/
theorem xpBlocksWord_and {blocks : ℕ} (h : blocks < 2 ^ 31) (isTree : Bool) :
    xpBlocksWord blocks isTree &&& xpBlocksMask = blocks ∧
      (xpBlocksWord blocks isTree &&& xpBlocksTreeFlag != 0) = isTree := by
  constructor
  · rw [show xpBlocksMask = 2 ^ 31 - 1 from rfl, Nat.and_two_pow_sub_one_eq_mod, xpBlocksWord]
    split_ifs <;> omega
  · rw [show xpBlocksTreeFlag = 2 ^ 31 from rfl, Nat.and_two_pow, xpBlocksWord]
    cases isTree with
    | false => simp [Nat.testBit_lt_two_pow h]
    | true =>
      rw [if_pos rfl, Nat.add_comm, Nat.testBit_two_pow_add_eq, Nat.testBit_lt_two_pow h]
      rfl

section Superblock

variable {nx : NxSuperblock} {u : NxUnread}

theorem length_nxFront (nx : NxSuperblock) (u : NxUnread) :
    (encodeFields (nxFront nx u)).length = 64 := by
  rw [length_encodeFields]
  rfl

theorem length_nxGeometry (nx : NxSuperblock) (u : NxUnread) :
    (encodeFields (nxGeometry nx u)).length = 96 := by
  rw [length_encodeFields, show (nxGeometry nx u).map Prod.fst =
    [16, 4, 4, 8, 8, 24, 8, 8, 8, 4, 4] from rfl]
  decide

theorem length_nxSlots (u : NxUnread) : (encodeFields (nxSlots u)).length = 8 * u.slots.length := by
  rw [length_encodeFields, nxSlots, List.map_map]
  simp [Function.comp_def, Nat.mul_comm]

theorem length_encodeSuperblock (h : nx.Fits u) :
    (encodeSuperblock nx u).length = 184 + 8 * u.slots.length + u.rest.length := by
  simp only [encodeSuperblock, length_stamp, List.length_append, length_nxFront, h.uuid,
    length_nxGeometry, length_nxSlots]
  omega

/-- A word in front of the UUID is read back. -/
theorem readLE_nxFront {w n offset : ℕ} (i : ℕ) (hi : (nxFront nx u)[i]? = some (w, n))
    (hoff : 8 + fieldOffset (nxFront nx u) i = offset) (hn : n < 256 ^ w) :
    readLE w (encodeSuperblock nx u) offset = n := by
  rw [encodeSuperblock, ← hoff, readLE_stamp, readLE_encodeFields i hi rfl hn]

/-- What lies behind the UUID is found there. -/
theorem readLE_behind_uuid (h : nx.Fits u) (w offset : ℕ) :
    readLE w (encodeSuperblock nx u) (88 + offset) =
      readLE w (encodeFields (nxGeometry nx u) ++ (encodeFields (nxSlots u) ++ u.rest)) offset := by
  have hfront : (encodeFields (nxFront nx u) ++ nx.uuid).length = 80 := by
    rw [List.length_append, length_nxFront, h.uuid]
  have hright := readLE_append_right (w := w) (i := offset)
    (a := encodeFields (nxFront nx u) ++ nx.uuid)
    (b := encodeFields (nxGeometry nx u) ++ (encodeFields (nxSlots u) ++ u.rest))
  rw [hfront, List.append_assoc] at hright
  rw [show 88 + offset = 8 + (80 + offset) by omega, encodeSuperblock, readLE_stamp, hright]

/-- A word of the geometry is read back. -/
theorem readLE_nxGeometry (h : nx.Fits u) {w n offset : ℕ} (i : ℕ)
    (hi : (nxGeometry nx u)[i]? = some (w, n))
    (hoff : 88 + (([16, 4, 4, 8, 8, 24, 8, 8, 8, 4, 4] : List ℕ).take i).sum = offset)
    (hn : n < 256 ^ w) : readLE w (encodeSuperblock nx u) offset = n := by
  rw [← hoff, readLE_behind_uuid h,
    readLE_encodeFields i hi (fieldOffset_of_widths (by rfl) i) hn]

/-- The volume ids of the slots in use are read back, in order. -/
theorem fsOids_encodeSuperblock (h : nx.Fits u) :
    ((List.range (min (leU32 (encodeSuperblock nx u) 180) nxMaxFileSystems)).map
      fun i => leU64 (encodeSuperblock nx u) (184 + i * 8)).filter (· ≠ 0) = nx.fsOids := by
  have hslots := h.slots
  have hcount : leU32 (encodeSuperblock nx u) 180 = u.slots.length :=
    readLE_nxGeometry h 10 rfl (by decide) (by rw [nxMaxFileSystems] at hslots; omega)
  have hslot : ∀ i < u.slots.length,
      leU64 (encodeSuperblock nx u) (184 + i * 8) = u.slots.getD i 0 := by
    intro i hi
    have hright := readLE_append_right (w := 8) (i := 8 * i)
      (a := encodeFields (nxGeometry nx u)) (b := encodeFields (nxSlots u) ++ u.rest)
    have hoffset : fieldOffset (nxSlots u) i = 8 * i := by
      rw [fieldOffset, nxSlots, ← List.map_take, List.map_map]
      simp [Function.comp_def, Nat.mul_comm, hi.le]
    have hmem : u.slots[i]? = some (u.slots.getD i 0) := by
      rw [List.getD_eq_getElem?_getD, List.getElem?_eq_getElem hi]
      rfl
    have hget : (nxSlots u)[i]? = some (8, u.slots.getD i 0) := by
      rw [nxSlots, List.getElem?_map, hmem]
      rfl
    rw [length_nxGeometry] at hright
    rw [leU64, show 184 + i * 8 = 88 + (96 + 8 * i) by omega, readLE_behind_uuid h, hright]
    exact readLE_encodeFields i hget hoffset (h.slot _ (List.mem_of_getElem? hmem)) _
  have hall : ((List.range u.slots.length).map
      fun i => leU64 (encodeSuperblock nx u) (184 + i * 8)) = u.slots := by
    refine List.ext_getElem? fun i => ?_
    rw [List.getElem?_map]
    rcases Nat.lt_or_ge i u.slots.length with hi | hi
    · rw [List.getElem?_range hi, Option.map_some, hslot i hi, List.getD_eq_getElem?_getD,
        List.getElem?_eq_getElem hi]
      rfl
    · rw [List.getElem?_eq_none (by simpa using hi), List.getElem?_eq_none hi]
      rfl
  rw [hcount, Nat.min_eq_left hslots, hall, h.fsOids]

/-- A written superblock has the type that the scan of the checkpoint ring looks for. -/
theorem type_encodeSuperblock (nx : NxSuperblock) (u : NxUnread) :
    leU32 (encodeSuperblock nx u) 24 &&& 0xffff = 1 := by
  have htype : leU32 (encodeSuperblock nx u) 24 = u.typeFlags % 65536 * 65536 + 1 :=
    readLE_nxFront 2 rfl rfl (by norm_num; omega)
  rw [htype, show 0xffff = 2 ^ 16 - 1 from rfl, Nat.and_two_pow_sub_one_eq_mod]
  omega

/-- **A written container superblock is read back.** -/
theorem NxSuperblock.parse_encodeSuperblock (h : nx.Fits u) :
    NxSuperblock.parse (encodeSuperblock nx u) = .ok nx := by
  have hlen := length_encodeSuperblock h
  have hmagic : leU32 (encodeSuperblock nx u) 32 = nxMagic := readLE_nxFront 4 rfl rfl (by decide)
  refine NxSuperblock.parse_eq_ok_iff.mpr ⟨by omega, hmagic, checksumValid_stamp _, ?_⟩
  have hgeometry : ∀ {w n offset : ℕ} (i : ℕ), (nxGeometry nx u)[i]? = some (w, n) →
      88 + (([16, 4, 4, 8, 8, 24, 8, 8, 8, 4, 4] : List ℕ).take i).sum = offset → n < 256 ^ w →
      readLE w (encodeSuperblock nx u) offset = n :=
    fun i hi hoff hn => readLE_nxGeometry h i hi hoff hn
  have hword : ∀ {blocks : ℕ} (isTree : Bool), blocks < 2 ^ 31 →
      xpBlocksWord blocks isTree < 256 ^ 4 := by
    intro blocks isTree hblocks
    rw [xpBlocksWord]
    split_ifs <;> omega
  have hxid : readLE 8 (encodeSuperblock nx u) 16 = nx.xid := readLE_nxFront 1 rfl rfl h.xid
  have hsize : readLE 4 (encodeSuperblock nx u) 36 = nx.blockSize :=
    readLE_nxFront 5 rfl rfl h.blockSize
  have hcount : readLE 8 (encodeSuperblock nx u) 40 = nx.blockCount :=
    readLE_nxFront 6 rfl rfl h.blockCount
  have hfeatures : readLE 8 (encodeSuperblock nx u) 64 = nx.incompatibleFeatures :=
    readLE_nxFront 8 rfl rfl h.incompatibleFeatures
  have hdesc : readLE 4 (encodeSuperblock nx u) 104 = _ :=
    hgeometry 1 rfl (by decide) (hword nx.descIsTree h.xpDescBlocks)
  have hdata : readLE 4 (encodeSuperblock nx u) 108 = _ :=
    hgeometry 2 rfl (by decide) (hword nx.dataIsTree h.xpDataBlocks)
  have hdescBase : readLE 8 (encodeSuperblock nx u) 112 = nx.xpDescBase :=
    hgeometry 3 rfl (by decide) h.xpDescBase
  have hdataBase : readLE 8 (encodeSuperblock nx u) 120 = nx.xpDataBase :=
    hgeometry 4 rfl (by decide) h.xpDataBase
  have hspaceman : readLE 8 (encodeSuperblock nx u) 152 = nx.spacemanOid :=
    hgeometry 6 rfl (by decide) h.spacemanOid
  have homap : readLE 8 (encodeSuperblock nx u) 160 = nx.omapOid :=
    hgeometry 7 rfl (by decide) h.omapOid
  have hreaper : readLE 8 (encodeSuperblock nx u) 168 = nx.reaperOid :=
    hgeometry 8 rfl (by decide) h.reaperOid
  have huuid : arr 16 (encodeSuperblock nx u) 72 = nx.uuid := by
    have hmiddle := slice_middle (a := encodeFields (nxFront nx u)) (b := nx.uuid)
      (c := encodeFields (nxGeometry nx u) ++ (encodeFields (nxSlots u) ++ u.rest))
    rw [length_nxFront, h.uuid] at hmiddle
    rw [arr, show 72 = 8 + 64 from rfl, Nat.add_assoc, encodeSuperblock, slice_stamp, hmiddle,
      Option.getD_some]
  obtain ⟨hdescBlocks, hdescTree⟩ := xpBlocksWord_and h.xpDescBlocks nx.descIsTree
  obtain ⟨hdataBlocks, hdataTree⟩ := xpBlocksWord_and h.xpDataBlocks nx.dataIsTree
  rw [NxSuperblock.ofBlock, fsOids_encodeSuperblock h, huuid]
  simp only [leU64, leU32, hxid, hsize, hcount, hfeatures, hdesc, hdata, hdescBase, hdataBase,
    hspaceman, homap, hreaper, hdescBlocks, hdescTree, hdataBlocks, hdataTree]

end Superblock

end ApfsCore
