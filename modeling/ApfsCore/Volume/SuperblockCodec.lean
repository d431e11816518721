import ApfsCore.Format.Layout
import ApfsCore.Volume.DirKeys
import ApfsCore.Volume.Superblock

/-!
# Writing a volume superblock

A volume superblock is a sealed block: its fields in their places, words that nobody reads between
them, and the checksum of it all in front. `encodeVolume` writes one for any volume whose fields
fit, and `ApfsVolume.parse` gives the volume back (`ApfsVolume.parse_encodeVolume`), whatever the
words in between and behind hold.
-/

namespace ApfsCore

/-- The words of a volume superblock that are not read. -/
structure VolumeUnread where
  typeFlags : ℕ
  subtype : ℕ
  accounting : ℕ
  treeTypes : ℕ
  counters : ℕ
  history : ℕ
  rest : Bytes

/-- The bounds of a volume's fields. Its name fills its field, or is followed by zeros. -/
structure ApfsVolume.Fits (v : ApfsVolume) : Prop where
  oid : v.oid < 2 ^ 64
  xid : v.xid < 2 ^ 64
  fsIndex : v.fsIndex < 2 ^ 32
  features : v.features < 2 ^ 64
  readonlyCompatibleFeatures : v.readonlyCompatibleFeatures < 2 ^ 64
  incompatibleFeatures : v.incompatibleFeatures < 2 ^ 64
  rootTreeType : v.rootTreeType < 2 ^ 32
  omapOid : v.omapOid < 2 ^ 64
  rootTreeOid : v.rootTreeOid < 2 ^ 64
  extentrefTreeOid : v.extentrefTreeOid < 2 ^ 64
  snapMetaTreeOid : v.snapMetaTreeOid < 2 ^ 64
  uuid : v.uuid.length = 16
  fsFlags : v.fsFlags < 2 ^ 64
  nul : (0 : UInt8) ∉ utf8Bytes v.name
  name : (utf8Bytes v.name).length ≤ 256

/-- The words between the checksum and the UUID. -/
def volumeWords (v : ApfsVolume) (u : VolumeUnread) : List (ℕ × ℕ) :=
  [(8, v.oid), (8, v.xid), (4, u.typeFlags % 65536 * 65536 + objectTypeFs), (4, u.subtype),
    (4, apfsMagic), (4, v.fsIndex), (8, v.features), (8, v.readonlyCompatibleFeatures),
    (8, v.incompatibleFeatures), (52, u.accounting), (4, v.rootTreeType), (8, u.treeTypes),
    (8, v.omapOid), (8, v.rootTreeOid), (8, v.extentrefTreeOid), (8, v.snapMetaTreeOid),
    (80, u.counters)]

/-- The widths of these words. -/
def volumeWidths : List ℕ :=
  [8, 8, 4, 4, 4, 4, 8, 8, 8, 52, 4, 8, 8, 8, 8, 8, 80]

/-- The field of a name. -/
def volnameField (name : Str) : Bytes :=
  utf8Bytes name ++ List.replicate (256 - (utf8Bytes name).length) 0

/-- What a volume superblock holds behind its UUID. -/
def volumeTail (v : ApfsVolume) (u : VolumeUnread) : Bytes :=
  encodeFields [(8, v.fsFlags), (440, u.history)] ++ (volnameField v.name ++ u.rest)

/-- The superblock of a volume. -/
def encodeVolume (v : ApfsVolume) (u : VolumeUnread) : Bytes :=
  stamp (encodeFields (volumeWords v u) ++ (v.uuid ++ volumeTail v u))

section Volume

variable {v : ApfsVolume} {u : VolumeUnread}

theorem length_volnameField {name : Str} (h : (utf8Bytes name).length ≤ 256) :
    (volnameField name).length = 256 := by
  rw [volnameField, List.length_append, List.length_replicate, Nat.add_sub_cancel' h]

theorem widths_volumeWords (v : ApfsVolume) (u : VolumeUnread) :
    (volumeWords v u).map Prod.fst = volumeWidths :=
  rfl

theorem length_volumeWords (v : ApfsVolume) (u : VolumeUnread) :
    (encodeFields (volumeWords v u)).length = 232 := by
  rw [length_encodeFields, widths_volumeWords]
  decide

theorem length_encodeVolume (h : v.Fits) (u : VolumeUnread) :
    (encodeVolume v u).length = apsbMinLen + u.rest.length := by
  have hmid : (encodeFields [(8, v.fsFlags), (440, u.history)]).length = 448 := by
    rw [length_encodeFields, show List.map Prod.fst _ = [8, 440] from rfl]
    decide
  simp only [encodeVolume, length_stamp, volumeTail, List.length_append, length_volumeWords, hmid,
    h.uuid, length_volnameField h.name, apsbMinLen]
  omega

/-- A word in front of the UUID is read back. -/
theorem readLE_encodeVolume {w n offset : ℕ} (i : ℕ) (hi : (volumeWords v u)[i]? = some (w, n))
    (hoff : 8 + (volumeWidths.take i).sum = offset) (hn : n < 256 ^ w) :
    readLE w (encodeVolume v u) offset = n := by
  rw [encodeVolume, ← hoff, readLE_stamp,
    readLE_encodeFields i hi (fieldOffset_of_widths (widths_volumeWords v u) i) hn]

/-- What lies behind the UUID is found there. -/
theorem slice_volumeTail (h : v.Fits) (u : VolumeUnread) (i j : ℕ) :
    slice (encodeVolume v u) (256 + i) (256 + j) = slice (volumeTail v u) i j := by
  have hfront : (encodeFields (volumeWords v u) ++ v.uuid).length = 248 := by
    rw [List.length_append, length_volumeWords, h.uuid]
  have hright := slice_append_right (a := encodeFields (volumeWords v u) ++ v.uuid)
    (b := volumeTail v u) (i := i) (j := j)
  rw [hfront, List.append_assoc] at hright
  rw [show 256 + i = 8 + (248 + i) by omega, show 256 + j = 8 + (248 + j) by omega, encodeVolume,
    slice_stamp, hright]

/-- A written superblock passes the gates. -/
theorem volumeGates_encodeVolume (h : v.Fits) (u : VolumeUnread) :
    VolumeGates (encodeVolume v u) := by
  refine ⟨?_, ?_, ?_, checksumValid_stamp _⟩
  · rw [length_encodeVolume h]
    exact Nat.le_add_right _ _
  · have htype : leU32 (encodeVolume v u) 24 = u.typeFlags % 65536 * 65536 + objectTypeFs :=
      readLE_encodeVolume 2 rfl (by decide) (by rw [objectTypeFs]; norm_num; omega)
    rw [htype, show 0xffff = 2 ^ 16 - 1 from rfl, Nat.and_two_pow_sub_one_eq_mod, objectTypeFs]
    omega
  · exact readLE_encodeVolume 4 rfl (by decide) (by decide)

/-- The UUID, the flags and the name of a written superblock are read back. -/
theorem volumeTail_encodeVolume (h : v.Fits) (u : VolumeUnread) :
    arr 16 (encodeVolume v u) 240 = v.uuid ∧ leU64 (encodeVolume v u) 256 = v.fsFlags ∧
      decodeVolname (encodeVolume v u) 704 256 = v.name := by
  refine ⟨?_, ?_, ?_⟩
  · have huuid := slice_middle (a := encodeFields (volumeWords v u)) (b := v.uuid)
      (c := volumeTail v u)
    rw [length_volumeWords, h.uuid] at huuid
    rw [arr, show 240 = 8 + 232 from rfl, Nat.add_assoc, encodeVolume, slice_stamp, huuid,
      Option.getD_some]
  · have hread : readLE 8 (volumeTail v u) 0 = v.fsFlags :=
      readLE_encodeFields 0 rfl rfl h.fsFlags _
    rw [← hread, leU64, readLE, readLE, ← slice_volumeTail h u]
  · have hname : slice (volumeTail v u) 448 (448 + 256) = some (volnameField v.name) :=
      slice_encodeFields rfl (length_volnameField h.name)
    rw [decodeVolname, show 704 = 256 + 448 from rfl, Nat.add_assoc, slice_volumeTail h u, hname]
    dsimp only
    rw [volnameField, decodeCstr_append_zeros h.nul, fromUtf8Lossy_utf8Bytes]

/-- **A written volume superblock is read back.** -/
theorem ApfsVolume.parse_encodeVolume (h : v.Fits) (u : VolumeUnread) :
    ApfsVolume.parse (encodeVolume v u) = .ok v := by
  have hword : ∀ {w n offset : ℕ} (i : ℕ), (volumeWords v u)[i]? = some (w, n) →
      8 + (volumeWidths.take i).sum = offset → n < 256 ^ w →
      readLE w (encodeVolume v u) offset = n :=
    fun i hi hoff hn => readLE_encodeVolume i hi hoff hn
  have h₀ : readLE 8 (encodeVolume v u) 8 = v.oid := hword 0 rfl (by decide) h.oid
  have h₁ : readLE 8 (encodeVolume v u) 16 = v.xid := hword 1 rfl (by decide) h.xid
  have h₅ : readLE 4 (encodeVolume v u) 36 = v.fsIndex := hword 5 rfl (by decide) h.fsIndex
  have h₆ : readLE 8 (encodeVolume v u) 40 = v.features := hword 6 rfl (by decide) h.features
  have h₇ : readLE 8 (encodeVolume v u) 48 = v.readonlyCompatibleFeatures :=
    hword 7 rfl (by decide) h.readonlyCompatibleFeatures
  have h₈ : readLE 8 (encodeVolume v u) 56 = v.incompatibleFeatures :=
    hword 8 rfl (by decide) h.incompatibleFeatures
  have h₁₀ : readLE 4 (encodeVolume v u) 116 = v.rootTreeType :=
    hword 10 rfl (by decide) h.rootTreeType
  have h₁₂ : readLE 8 (encodeVolume v u) 128 = v.omapOid := hword 12 rfl (by decide) h.omapOid
  have h₁₃ : readLE 8 (encodeVolume v u) 136 = v.rootTreeOid :=
    hword 13 rfl (by decide) h.rootTreeOid
  have h₁₄ : readLE 8 (encodeVolume v u) 144 = v.extentrefTreeOid :=
    hword 14 rfl (by decide) h.extentrefTreeOid
  have h₁₅ : readLE 8 (encodeVolume v u) 152 = v.snapMetaTreeOid :=
    hword 15 rfl (by decide) h.snapMetaTreeOid
  obtain ⟨huuid, hflags, hname⟩ := volumeTail_encodeVolume h u
  rw [(volumeGates_encodeVolume h u).parse_eq, ApfsVolume.ofBlock, huuid, hflags, hname]
  simp only [leU64, leU32, h₀, h₁, h₅, h₆, h₇, h₈, h₁₀, h₁₂, h₁₃, h₁₄, h₁₅]

end Volume

end ApfsCore
