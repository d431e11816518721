import ApfsCore.Tree.Btree
import Mathlib.Data.List.MinMax
import Mathlib.Data.Prod.Lex

/-!
# The object map

`omap.rs`: a virtual object id resolves, at a transaction id, to a physical block through a
B-tree keyed by `(ok_oid, ok_xid)`. `ObjectMap.parse` reads the header object;
`ObjectMap.resolve` descends to one leaf and keeps, among its entries for the object id that
are not newer than the transaction, the first one of largest `ok_xid`.
-/

namespace ApfsCore

/-! ### The header object -/

/-- An object map header. -/
structure ObjectMap where
  flags : ℕ
  treeType : ℕ
  treeOid : ℕ
  snapshotTreeOid : ℕ
  deriving DecidableEq

/-- `OBJECT_TYPE_OMAP`. -/
def objectTypeOmap : ℕ := 0xb

/-- `ObjectMap::parse`. -/
def ObjectMap.parse (block : Bytes) : Result ObjectMap :=
  if block.length < 56 then
    fail (.unexpectedObjectType "omap_phys" objectTypeOmap 0)
  else
    match ObjPhys.parse block with
    | none => fail (.unexpectedObjectType "omap_phys" objectTypeOmap 0)
    | some hdr =>
      if hdr.objType ≠ objectTypeOmap then
        fail (.unexpectedObjectType "omap_phys" objectTypeOmap hdr.objTypeRaw)
      else if ¬ChecksumValid block then
        fail (.checksumMismatch hdr.oid (fletcher64Stored block) (fletcher64Checksum block))
      else .ok
        { flags := leU32 block 32
          treeType := leU32 block 40
          treeOid := leU64 block 48
          snapshotTreeOid := leU64 block 56 }

/-- Read the object map header at a physical object id, as every walk that resolves virtual
ids does first. -/
def readObjectMap (img : Image) (omapOid blockSize : ℕ) : Result ObjectMap := do
  let buf ← img.readExact (saturatingMul omapOid blockSize) blockSize
  ObjectMap.parse buf

/-- A sealed header block of an object map whose tree is at the given block. -/
def encodeObjectMap (treeOid blockSize : ℕ) : Bytes :=
  stamp (List.replicate 16 0 ++ leBytes 4 objectTypeOmap ++ List.replicate 20 0 ++
    leBytes 8 treeOid ++ List.replicate (blockSize - 56) 0)

theorem length_encodeObjectMap {treeOid blockSize : ℕ} (hlen : 56 ≤ blockSize) :
    (encodeObjectMap treeOid blockSize).length = blockSize := by
  simp only [encodeObjectMap, length_stamp, List.length_append, List.length_replicate,
    length_leBytes]
  omega

/-! ### Lookup -/

/-- A resolved object-map entry. -/
structure OmapEntry where
  oid : ℕ
  xid : ℕ
  paddr : ℕ
  size : ℕ
  flags : ℕ
  deriving DecidableEq, Repr

/-- The `omap_key_t` and `omap_val_t` of a leaf entry. -/
def OmapEntry.ofEntry (e : Entry) : OmapEntry :=
  { oid := leU64 e.key 0
    xid := leU64 e.key 8
    flags := leU32 e.value 0
    size := leU32 e.value 4
    paddr := leU64 e.value 8 }

/-- The leaf entry that maps version `xid` of an object to a block. -/
def encodeOmapEntry (oid xid paddr : ℕ) : Entry where
  key := leBytes 8 oid ++ leBytes 8 xid
  value := leBytes 8 0 ++ leBytes 8 paddr

/-- How a key orders against the target `(oid, xid)`. -/
def omapCmp (oid xid : ℕ) (key : Bytes) : Ordering :=
  (compare (leU64 key 0) oid).then (compare (leU64 key 8) xid)

/-- What the lookup does with each leaf entry it visits: skip other objects and newer
versions, and keep the newest candidate. -/
def omapVisit (oid xid : ℕ) (best : Option OmapEntry) (e : Entry) : Option OmapEntry :=
  let entry := OmapEntry.ofEntry e
  if entry.oid ≠ oid ∨ entry.xid > xid then best
  else
    match best with
    | none => some entry
    | some b => if entry.xid > b.xid then some entry else some b

/-- `ObjectMap::resolve`. -/
def ObjectMap.resolve (om : ObjectMap) (img : Image) (oid xid blockSize : ℕ) :
    Result OmapEntry := do
  let es ← findLeaf img om.treeOid blockSize .omap (omapCmp oid xid)
  match es.foldl (omapVisit oid xid) none with
  | some e => .ok e
  | none => fail (.omapUnresolved oid xid)

/-- The blocks that pass the checks, and what is read from them. -/
theorem ObjectMap.parse_eq_ok_iff {block : Bytes} {om : ObjectMap} :
    ObjectMap.parse block = .ok om ↔
      56 ≤ block.length ∧ leU32 block 24 &&& 0xffff = objectTypeOmap ∧ ChecksumValid block ∧
        om = ⟨leU32 block 32, leU32 block 40, leU64 block 48, leU64 block 56⟩ := by
  rw [ObjectMap.parse]
  by_cases hlen : block.length < 56
  · rw [if_pos hlen]
    exact iff_of_false (fail_ne_ok _ _) fun h => absurd hlen (Nat.not_lt.mpr h.1)
  · have hheader : ¬block.length < objPhysLen := fun h => hlen (h.trans (by decide))
    rw [if_neg hlen, ObjPhys.parse, if_neg hheader]
    simp only [ObjPhys.objType]
    split_ifs with htype hsum
    · exact iff_of_false (fail_ne_ok _ _) fun h => htype h.2.1
    · rw [Except.ok.injEq, eq_comm]
      constructor
      · rintro rfl
        exact ⟨Nat.le_of_not_lt hlen, not_not.mp htype, hsum, rfl⟩
      · exact fun h => h.2.2.2
    · exact iff_of_false (fail_ne_ok _ _) fun h => hsum h.2.2.1

/-- The header that is read is that of the block. -/
theorem readObjectMap_of_block {img : Image} {blockSize omapOid : ℕ} {buf : Bytes}
    (hbs : blockSize ≠ 0) (h : img.block blockSize omapOid = some buf) :
    readObjectMap img omapOid blockSize = ObjectMap.parse buf := by
  rw [readObjectMap, Image.readExact_saturatingMul img hbs, h, ok_bind]

theorem ObjectMap.named_parse (block : Bytes) : Named (ObjectMap.parse block) := by
  rw [ObjectMap.parse]
  refine .ite (named_fail _) ?_
  cases ObjPhys.parse block with
  | none => exact named_fail _
  | some hdr => exact .ite (named_fail _) (.ite (named_fail _) (.ok _))

theorem named_readObjectMap (img : Image) (omapOid blockSize : ℕ) :
    Named (readObjectMap img omapOid blockSize) :=
  (img.named_readExact _ _).bind fun buf _ => ObjectMap.named_parse buf

theorem ObjectMap.named_resolve (om : ObjectMap) (img : Image) (oid xid blockSize : ℕ) :
    Named (om.resolve img oid xid blockSize) := by
  refine (named_findLeaf img om.treeOid blockSize .omap _).bind fun es _ => ?_
  cases es.foldl (omapVisit oid xid) none with
  | none => exact named_fail _
  | some e => exact .ok e

/-! ### The visited candidate is a maximum -/

/-- An entry the lookup of `(oid, xid)` may answer with. -/
def OmapEntry.Candidate (oid xid : ℕ) (e : OmapEntry) : Prop :=
  e.oid = oid ∧ e.xid ≤ xid

instance (oid xid : ℕ) : DecidablePred (OmapEntry.Candidate oid xid) := fun _ =>
  inferInstanceAs (Decidable (_ ∧ _))

/-- Visiting entries one by one keeps the first candidate of largest transaction id. -/
theorem foldl_omapVisit (oid xid : ℕ) (es : List Entry) :
    es.foldl (omapVisit oid xid) none =
      ((es.map OmapEntry.ofEntry).filter (OmapEntry.Candidate oid xid)).argmax OmapEntry.xid := by
  have hstep : omapVisit oid xid = fun best e =>
      if OmapEntry.Candidate oid xid (OmapEntry.ofEntry e) then
        List.argAux (fun b c => OmapEntry.xid c < OmapEntry.xid b) best (OmapEntry.ofEntry e)
      else best := by
    funext best e
    have hc : ¬((OmapEntry.ofEntry e).oid ≠ oid ∨ (OmapEntry.ofEntry e).xid > xid) ↔
        OmapEntry.Candidate oid xid (OmapEntry.ofEntry e) := by
      rw [OmapEntry.Candidate]
      omega
    unfold omapVisit
    by_cases h : OmapEntry.Candidate oid xid (OmapEntry.ofEntry e)
    · rw [if_neg (hc.mpr h), if_pos h]
      cases best <;> rfl
    · rw [if_pos (not_not.mp fun h' => h (hc.mp h')), if_neg h]
  rw [hstep, List.argmax, List.foldl_filter, List.foldl_map]
  simp only [decide_eq_true_eq]

/-- The key `(ok_oid, ok_xid)` of an entry, ordered lexicographically. -/
def omapKey (e : Entry) : ℕ ×ₗ ℕ :=
  toLex (leU64 e.key 0, leU64 e.key 8)

/-- A key compares above the target exactly when it is larger in lexicographic order. -/
theorem omapCmp_eq_gt_iff (oid xid : ℕ) (e : Entry) :
    omapCmp oid xid e.key = .gt ↔ toLex (oid, xid) < omapKey e := by
  rw [omapCmp, omapKey]
  rw [Prod.Lex.toLex_lt_toLex, Ordering.then_eq_gt, Nat.compare_eq_gt, Nat.compare_eq_gt,
    Nat.compare_eq_eq, eq_comm (a := oid)]

end ApfsCore
