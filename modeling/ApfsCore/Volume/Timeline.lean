import ApfsCore.Tree.Written
import ApfsCore.Volume.Records
import ApfsCore.Volume.Snapshot
import Mathlib.Data.List.Find

/-!
# Snapshots that were written

A `Timeline` is what a snapshot-metadata tree is for: the retained snapshots of a volume, no two of
one transaction and no two of one name. `SnapshotsOn` says that an image has a timeline: a tree of
any shape, its root in the block the volume names and its other nodes where the volume's object map
leads, with a metadata record and a name record for each snapshot in the leaves, in any order and
among records of other types.

Over such an image the snapshots are listed by transaction, and a name resolves to the transaction
of the snapshot that has it (`SnapshotsOn.listSnapshots_eq`, `SnapshotsOn.resolveSnapshotXid_eq`).
-/

namespace ApfsCore

/-! ### Records -/

/-- The bounds of a snapshot's fields. Its name is written with a NUL behind it. -/
structure Snapshot.Fits (s : Snapshot) : Prop where
  xid : s.xid < 2 ^ 60
  nul : (0 : UInt8) ∉ utf8Bytes s.name
  name : (utf8Bytes s.name).length < maxSnapNameLen
  createTime : s.createTime < 2 ^ 64
  changeTime : s.changeTime < 2 ^ 64
  sblockOid : s.sblockOid < 2 ^ 64
  extentrefTreeOid : s.extentrefTreeOid < 2 ^ 64
  inum : s.inum < 2 ^ 64
  flags : s.flags < 2 ^ 32

/-- The words of a metadata value, with the type of the extent-reference tree, which is not
read. -/
def snapMetadataWords (s : Snapshot) (extentrefTreeType : ℕ) : List (ℕ × ℕ) :=
  [(8, s.extentrefTreeOid), (8, s.sblockOid), (8, s.createTime), (8, s.changeTime), (8, s.inum),
    (4, extentrefTreeType), (4, s.flags), (2, (utf8Bytes s.name).length + 1)]

/-- The value of a metadata record. -/
def encodeSnapMetadata (s : Snapshot) (extentrefTreeType : ℕ) : Bytes :=
  encodeFields (snapMetadataWords s extentrefTreeType) ++ (utf8Bytes s.name ++ [0])

/-- **A written metadata record is read back.** -/
theorem parseSnapMetadata_encode {s : Snapshot} (h : s.Fits) (extentrefTreeType : ℕ) :
    parseSnapMetadata s.xid (encodeSnapMetadata s extentrefTreeType) = s := by
  have hlen : (utf8Bytes s.name).length + 1 ≤ maxSnapNameLen := h.name
  have hlt : (utf8Bytes s.name).length + 1 < 256 ^ 2 := hlen.trans_lt (by decide)
  have hword : ∀ {w n offset : ℕ} (k : ℕ),
      (snapMetadataWords s extentrefTreeType)[k]? = some (w, n) →
      fieldOffset (snapMetadataWords s extentrefTreeType) k = offset → n < 256 ^ w →
      readLE w (encodeSnapMetadata s extentrefTreeType) offset = n :=
    fun k hk hoff hn => readLE_encodeFields k hk hoff hn _
  have h₀ : readLE 8 (encodeSnapMetadata s extentrefTreeType) 0 = s.extentrefTreeOid :=
    hword 0 rfl rfl h.extentrefTreeOid
  have h₁ : readLE 8 (encodeSnapMetadata s extentrefTreeType) 8 = s.sblockOid :=
    hword 1 rfl rfl h.sblockOid
  have h₂ : readLE 8 (encodeSnapMetadata s extentrefTreeType) 16 = s.createTime :=
    hword 2 rfl rfl h.createTime
  have h₃ : readLE 8 (encodeSnapMetadata s extentrefTreeType) 24 = s.changeTime :=
    hword 3 rfl rfl h.changeTime
  have h₄ : readLE 8 (encodeSnapMetadata s extentrefTreeType) 32 = s.inum :=
    hword 4 rfl rfl h.inum
  have h₆ : readLE 4 (encodeSnapMetadata s extentrefTreeType) 44 = s.flags :=
    hword 6 rfl rfl h.flags
  have h₇ : readLE 2 (encodeSnapMetadata s extentrefTreeType) 48 =
      (utf8Bytes s.name).length + 1 := hword 7 rfl rfl hlt
  have hname : slice (encodeSnapMetadata s extentrefTreeType) 50
      (50 + ((utf8Bytes s.name).length + 1)) = some (utf8Bytes s.name ++ [0]) := by
    have hslice : slice (encodeFields (snapMetadataWords s extentrefTreeType) ++
        ((utf8Bytes s.name ++ [0]) ++ [])) 50 (50 + ((utf8Bytes s.name).length + 1)) =
        some (utf8Bytes s.name ++ [0]) :=
      slice_encodeFields rfl (by rw [List.length_append, List.length_singleton])
    rwa [List.append_nil] at hslice
  rw [parseSnapMetadata]
  simp only [leU64, leU32, leU16, h₀, h₁, h₂, h₃, h₄, h₆, h₇, Nat.min_eq_left hlen, hname,
    decodeCstr_append_nul h.nul, fromUtf8Lossy_utf8Bytes]

/-- The bounds of a name record. -/
structure SnapNameFits (oid : ℕ) (name : Str) (xid : ℕ) : Prop where
  oid : oid < 2 ^ 60
  nul : (0 : UInt8) ∉ utf8Bytes name
  name : (utf8Bytes name).length < maxSnapNameLen
  xid : xid < 2 ^ 64

/-- The key of a name record. -/
def snapNameKey (oid : ℕ) (name : Bytes) : Bytes :=
  encodeJkey 11 oid ++ (leBytes 2 (name.length + 1) ++ (name ++ [0]))

/-- **A written name is read back.** -/
theorem decodeSnapNameKey_snapNameKey (oid : ℕ) {name : Str} (hnul : (0 : UInt8) ∉ utf8Bytes name)
    (hlen : (utf8Bytes name).length < maxSnapNameLen) :
    decodeSnapNameKey (snapNameKey oid (utf8Bytes name)) = some name := by
  have hle : (utf8Bytes name).length + 1 ≤ maxSnapNameLen := hlen
  have hword : leU16 (snapNameKey oid (utf8Bytes name)) 8 = (utf8Bytes name).length + 1 := by
    have hlt : (utf8Bytes name).length + 1 < 256 ^ 2 := hle.trans_lt (by decide)
    have hread := readLE_append_leBytes (a := encodeJkey 11 oid) (b := utf8Bytes name ++ [0]) hlt
    rwa [length_encodeJkey] at hread
  have hname : slice (snapNameKey oid (utf8Bytes name)) 10 (10 + ((utf8Bytes name).length + 1)) =
      some (utf8Bytes name ++ [0]) := by
    have hmid := slice_middle (c := [])
      (a := encodeJkey 11 oid ++ leBytes 2 ((utf8Bytes name).length + 1))
      (b := utf8Bytes name ++ [0])
    simpa only [snapNameKey, List.append_nil, List.append_assoc, List.length_append,
      length_encodeJkey, length_leBytes, List.length_singleton] using hmid
  rw [decodeSnapNameKey]
  simp only [hword, Nat.min_eq_left hle, Nat.add_one_ne_zero, if_false, hname, Option.map_some,
    decodeCstr_append_nul hnul, fromUtf8Lossy_utf8Bytes]

/-- A record of the snapshot-metadata tree. -/
inductive SnapRecord where
  | metadata (s : Snapshot) (extentrefTreeType : ℕ) (fits : s.Fits)
  | named (oid : ℕ) (name : Str) (xid : ℕ) (fits : SnapNameFits oid name xid)
  | other (e : Entry) (fits : e.recordType ∉ [some .snapMetadata, some .snapName])

namespace SnapRecord

/-- The record as an entry of the tree. -/
def encode : SnapRecord → Entry
  | metadata s extentrefTreeType _ => ⟨encodeJkey 1 s.xid, encodeSnapMetadata s extentrefTreeType⟩
  | named oid name xid _ => ⟨snapNameKey oid (utf8Bytes name), leBytes 8 xid⟩
  | other e _ => e

/-- The snapshot that a record describes. -/
def snapshot : SnapRecord → Option Snapshot
  | metadata s _ _ => some s
  | _ => none

/-- The name that a record gives to a transaction. -/
def naming : SnapRecord → Option (Str × ℕ)
  | named _ name xid _ => some (name, xid)
  | _ => none

/-- The type of a record. -/
def type : SnapRecord → Option RecordType
  | metadata _ _ _ => some .snapMetadata
  | named _ _ _ _ => some .snapName
  | other e _ => e.recordType

theorem recordType_encode (r : SnapRecord) : r.encode.recordType = r.type := by
  cases r with
  | metadata s extentrefTreeType fits =>
    rw [encode, ← List.append_nil (encodeJkey 1 s.xid)]
    exact recordType_of_encodeJkey (by norm_num) fits.xid
  | named oid name xid fits => exact recordType_of_encodeJkey (by norm_num) fits.oid
  | other e fits => rfl

/-- What `list_snapshots` makes of a written record. -/
theorem snapshotOf_encode (r : SnapRecord) : snapshotOf r.encode = r.snapshot := by
  rw [snapshotOf, recordType_encode]
  cases r with
  | metadata s extentrefTreeType fits =>
    have hoid : Entry.oid (metadata s extentrefTreeType fits).encode = s.xid := by
      rw [encode, ← List.append_nil (encodeJkey 1 s.xid)]
      exact oid_of_encodeJkey (by norm_num) fits.xid
    rw [type, if_pos rfl, hoid, encode, parseSnapMetadata_encode fits, snapshot]
  | named oid name xid fits => rfl
  | other e fits => exact if_neg fun h => fits (List.mem_cons.mpr (.inl h))

/-- What `resolve_snapshot_xid` makes of a written record. -/
theorem snapXidOf_encode (wanted : Str) (r : SnapRecord) :
    snapXidOf wanted r.encode =
      r.naming.bind fun p => if p.1 = wanted then some p.2 else none := by
  rw [snapXidOf, recordType_encode]
  cases r with
  | metadata s extentrefTreeType fits => rfl
  | named oid name xid fits =>
    have hxid : leU64 (leBytes 8 xid) 0 = xid := by
      have hread := readLE_leBytes_append 8 xid []
      rwa [List.append_nil, Nat.mod_eq_of_lt (fits.xid.trans_le (by norm_num))] at hread
    simp only [type, naming, encode, ne_eq, not_true_eq_false, if_false, Option.bind_some,
      decodeSnapNameKey_snapNameKey oid fits.nul fits.name, Option.some.injEq, hxid]
  | other e fits => exact if_pos fun h => fits (List.mem_cons_of_mem _ (List.mem_singleton.mpr h))

end SnapRecord

/-! ### Timelines -/

/-- The retained snapshots of a volume. -/
structure Timeline where
  snapshots : List Snapshot
  xids : (snapshots.map Snapshot.xid).Nodup
  names : (snapshots.map Snapshot.name).Nodup

namespace Timeline

variable (t : Timeline)

/-- The snapshots by transaction. -/
def inOrder : List Snapshot :=
  sortSnapshots t.snapshots

/-- The snapshot of a transaction. -/
def atXid (xid : ℕ) : Option Snapshot :=
  t.snapshots.find? fun s => s.xid == xid

/-- The snapshot of a name. -/
def named (name : Str) : Option Snapshot :=
  t.snapshots.find? fun s => s.name == name

variable {t}

theorem eq_of_xid {s s' : Snapshot} (hs : s ∈ t.snapshots) (hs' : s' ∈ t.snapshots)
    (h : s.xid = s'.xid) : s = s' :=
  List.inj_on_of_nodup_map t.xids hs hs' h

theorem eq_of_name {s s' : Snapshot} (hs : s ∈ t.snapshots) (hs' : s' ∈ t.snapshots)
    (h : s.name = s'.name) : s = s' :=
  List.inj_on_of_nodup_map t.names hs hs' h

/-- Snapshots of distinct transactions have one order by transaction. -/
theorem sortSnapshots_of_perm {snaps : List Snapshot} (h : snaps.Perm t.snapshots) :
    sortSnapshots snaps = t.inOrder := by
  have hsort : ∀ l : List Snapshot, l.Perm t.snapshots →
      (sortSnapshots l).Perm t.snapshots ∧
        (sortSnapshots l).Pairwise fun a b => a.xid ≤ b.xid := fun l hl =>
    ⟨(List.perm_insertionSort _ l).trans hl, List.pairwise_insertionSort _ l⟩
  obtain ⟨hperm, hsorted⟩ := hsort snaps h
  obtain ⟨hperm', hsorted'⟩ := hsort t.snapshots (List.Perm.refl _)
  refine List.Perm.eq_of_pairwise (fun a b ha hb hab hba => ?_) hsorted hsorted'
    (hperm.trans hperm'.symm)
  exact eq_of_xid (hperm.mem_iff.mp ha) (hperm'.mem_iff.mp hb) (le_antisymm hab hba)

end Timeline

/-! ### Trees on an image -/

/-- The block of a node: the root's own number, or the newest mapping of a virtual id. -/
def SnapBlock (v : ApfsVolume) (mappings : Shape ℕ Entry) (a : SnapNode) (paddr : ℕ) : Prop :=
  if a.isRoot then paddr = a.nodeOid
  else ∃ e, IsNewest a.nodeOid v.xid (mappings.entries.map OmapEntry.ofEntry) e ∧ e.paddr = paddr

/-- The image has the timeline of the volume `v`: `mappings` is the tree of the object map, and
`tree` the snapshot-metadata tree, whose height is within the cap. The walk tells its nodes apart by
number, so the block number of the root is none of the virtual ids of the others. -/
structure SnapshotsOn (img : Image) (v : ApfsVolume) (blockSize : ℕ) (mappings : Shape ℕ Entry)
    (tree : Shape SnapNode Entry) (t : Timeline) : Prop where
  blockSize_ne : blockSize ≠ 0
  omap : ObjectMapOn img blockSize v.omapOid mappings
  nodes : ∀ s : Shape SnapNode Entry, s.IsSubtree tree → ∃ paddr,
    SnapBlock v mappings s.address paddr ∧ NodeOn img blockSize .fsTree paddr s.node
  linked : ∀ s : Shape SnapNode Entry, s.IsSubtree tree → s.Linked snapChildren
  root : tree.address = ⟨true, v.snapMetaTreeOid⟩
  height : tree.height ≤ maxSnapTreeDepth
  nodup : (tree.addresses.map SnapNode.nodeOid).Nodup
  records : ∃ rs : List SnapRecord, tree.entries = rs.map SnapRecord.encode ∧
    (rs.filterMap SnapRecord.snapshot).Perm t.snapshots ∧
    (rs.filterMap SnapRecord.naming).Perm (t.snapshots.map fun s => (s.name, s.xid))

section Snapshots

variable {img : Image} {v : ApfsVolume} {blockSize : ℕ} {mappings : Shape ℕ Entry}
  {tree : Shape SnapNode Entry} {t : Timeline}

/-- The walk of the tree delivers its entries. -/
theorem SnapshotsOn.forEachSnapRecord_eq (h : SnapshotsOn img v blockSize mappings tree t) :
    forEachSnapRecord img v blockSize = .ok tree.entries := by
  obtain ⟨om, hom, htree⟩ := h.omap.omapTree h.blockSize_ne
  have hfetch : ∀ s : Shape SnapNode Entry, s.IsSubtree tree →
      fetchSnap img om v.xid blockSize s.address = .ok s.node := by
    intro s hs
    obtain ⟨paddr, hpaddr, hnode⟩ := h.nodes s hs
    refine fetchSnap_of_nodeOn h.blockSize_ne ?_ hnode
    rw [SnapBlock] at hpaddr
    rw [snapPaddr]
    split_ifs at hpaddr ⊢ with hroot
    · rw [hpaddr]
    · obtain ⟨e, hnewest, rfl⟩ := hpaddr
      rw [htree.resolve_eq_ok_iff.mpr hnewest, map_ok]
  rw [forEachSnapRecord, hom, ok_bind, descendSnap, walk_snd_eq_ok_iff, ← h.root]
  exact ⟨tree.addresses, Shape.explore_eq hfetch h.linked h.height, h.nodup⟩

/-- The snapshots are listed by transaction. -/
theorem SnapshotsOn.listSnapshots_eq (h : SnapshotsOn img v blockSize mappings tree t) :
    listSnapshots img v blockSize = .ok t.inOrder := by
  obtain ⟨rs, hentries, hsnaps, -⟩ := h.records
  rw [listSnapshots, h.forEachSnapRecord_eq, ok_bind, hentries, List.filterMap_map]
  have hfilter : rs.filterMap (snapshotOf ∘ SnapRecord.encode) =
      rs.filterMap SnapRecord.snapshot :=
    List.filterMap_congr fun r _ => r.snapshotOf_encode
  rw [hfilter, Timeline.sortSnapshots_of_perm hsnaps]

/-- The first name record of a name, among those of all snapshots. -/
private theorem findSome?_naming (wanted : Str) (rs : List SnapRecord) :
    (rs.map SnapRecord.encode).findSome? (snapXidOf wanted) =
      ((rs.filterMap SnapRecord.naming).find? fun p => p.1 == wanted).map Prod.snd := by
  induction rs with
  | nil => rfl
  | cons r rs ih =>
    rw [List.map_cons, List.findSome?_cons, r.snapXidOf_encode, List.filterMap_cons]
    cases r.naming with
    | none => exact ih
    | some p =>
      rw [Option.bind_some]
      dsimp only
      rw [List.find?_cons]
      by_cases hp : p.1 = wanted
      · rw [if_pos hp, beq_iff_eq.mpr hp]
        rfl
      · rw [if_neg hp, beq_false_of_ne hp]
        exact ih

/-- A name resolves to the transaction of the snapshot that has it. -/
theorem SnapshotsOn.resolveSnapshotXid_eq (h : SnapshotsOn img v blockSize mappings tree t)
    (name : Str) :
    resolveSnapshotXid img v name blockSize = .ok ((t.named name).map Snapshot.xid) := by
  obtain ⟨rs, hentries, -, hnames⟩ := h.records
  have hone : {p ∈ rs.filterMap SnapRecord.naming | (p.1 == name) = true}.Subsingleton := by
    rintro p ⟨hp, hpname⟩ q ⟨hq, hqname⟩
    obtain ⟨s, hs, rfl⟩ := List.mem_map.mp (hnames.mem_iff.mp hp)
    obtain ⟨s', hs', rfl⟩ := List.mem_map.mp (hnames.mem_iff.mp hq)
    rw [Timeline.eq_of_name hs hs' ((beq_iff_eq.mp hpname).trans (beq_iff_eq.mp hqname).symm)]
  rw [resolveSnapshotXid, h.forEachSnapRecord_eq, ok_bind, hentries, findSome?_naming,
    List.find?_eq_find?_of_perm hnames hone, List.find?_map, Option.map_map, Timeline.named]
  rfl

end Snapshots

end ApfsCore
