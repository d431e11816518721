import ApfsCore.General.VisitedWalk
import ApfsCore.Stepwise.Format
import ApfsCore.Tree.Omap

/-!
# B-trees and the object map, operation by operation

The functions of `btree.rs` and `omap.rs` with each operation that could panic explicit, and with
the callbacks they call. `nodeEntries_eq` carries the bounds: the table of contents, the keys and
the values of a node are addressed by 16-bit fields and a capped count, so no position computed
in a buffer leaves the range of `usize`, whatever the fields are.

A buffer has fewer than `2 ^ 63` bytes, as any slice of the language has.
-/

namespace ApfsCore

namespace Stepwise

/-! ### Nodes -/

/-- `parse_node_header`. -/
def parseNodeHeader (block : Bytes) : Run (Option BTreeNodeHeader) :=
  if block.length < 56 then .ok none
  else do
    let flags ← leU16 block 32
    let level ← leU16 block 34
    let nkeys ← leU32 block 36
    .ok (some { flags, level, nkeys })

/-- The geometry `node_entries` derives from the header. -/
def nodeLayout (block : Bytes) (subtype : BTreeSubtype) (hdr : BTreeNodeHeader) :
    Run NodeLayout := do
  let tocOff ← leU16 block 40
  let tocLen ← leU16 block 42
  let tocStart ← uadd 64 56 tocOff
  let keyArea ← uadd 64 tocStart tocLen
  .ok
    { tocStart
      keyArea
      valBase := if hdr.isRoot then block.length - 40 else block.length
      fixed := hdr.isFixedKv
      keyLen := subtype.fixedKeyLen
      valLen := if hdr.isLeaf then subtype.fixedLeafValLen else subtype.fixedBranchValLen }

/-- The value offset, key length and value length of a TOC slot at offset `e`. -/
def tocFields (block : Bytes) (l : NodeLayout) (e : ℕ) : Run (ℕ × ℕ × ℕ) :=
  if l.fixed then do
    let o ← uadd 64 e 2
    let voff ← leU16 block o
    .ok (voff, l.keyLen, l.valLen)
  else do
    let o ← uadd 64 e 4
    let voff ← leU16 block o
    let o ← uadd 64 e 2
    let keyLen ← leU16 block o
    let o ← uadd 64 e 6
    let valLen ← leU16 block o
    .ok (voff, keyLen, valLen)

/-- Decode TOC slot `i`. -/
def tocSlot (block : Bytes) (l : NodeLayout) (i : ℕ) : Run TocSlot := do
  let skipped ← umul 64 i l.entryLen
  let e ← uadd 64 l.tocStart skipped
  let stop ← uadd 64 e l.entryLen
  if stop > l.keyArea ∨ stop > block.length then .ok .stop
  else do
    let koff ← leU16 block e
    let (voff, keyLen, valLen) ← tocFields block l e
    let kstart ← uadd 64 l.keyArea koff
    let kend ← uadd 64 kstart keyLen
    if l.valBase < voff then .ok .skip
    else do
      let vstart := l.valBase - voff
      let vend ← uadd 64 vstart valLen
      match slice block kstart kend, slice block vstart vend with
      | some key, some value => .ok (.entry ⟨key, value⟩)
      | _, _ => .ok .skip

/-- Scan `n` TOC slots from slot `i` on. -/
def tocEntries (slot : ℕ → Run TocSlot) : ℕ → ℕ → Run (List Entry)
  | 0, _ => .ok []
  | n + 1, i => do
    match ← slot i with
    | .stop => .ok []
    | .skip => tocEntries slot n (i + 1)
    | .entry e => do
      let es ← tocEntries slot n (i + 1)
      .ok (e :: es)

/-- `node_entries`. -/
def nodeEntries (block : Bytes) (subtype : BTreeSubtype) : Run (List Entry) := do
  match ← parseNodeHeader block with
  | none => .ok []
  | some hdr => do
    let l ← nodeLayout block subtype hdr
    tocEntries (tocSlot block l) (min hdr.nkeys maxBtnNkeys) 0

theorem parseNodeHeader_eq (block : Bytes) :
    parseNodeHeader block = .ok (ApfsCore.parseNodeHeader block) := by
  rw [parseNodeHeader, ApfsCore.parseNodeHeader]
  split_ifs
  · rfl
  · simp (disch := omega) only [leU16_eq, leU32_eq, ok_bind]

theorem nodeLayout_eq (block : Bytes) (subtype : BTreeSubtype) (hdr : BTreeNodeHeader) :
    nodeLayout block subtype hdr = .ok (ApfsCore.nodeLayout block subtype hdr) := by
  have hoff := leU16_lt block 40
  have hlen := leU16_lt block 42
  rw [nodeLayout, leU16_eq (by norm_num), ok_bind, leU16_eq (by norm_num), ok_bind,
    uadd_eq (by omega), ok_bind, uadd_eq (by omega), ok_bind]
  rfl

/-- The positions of a layout are those of 16-bit fields and of the buffer. -/
private structure LayoutBounded (block : Bytes) (l : NodeLayout) : Prop where
  tocStart_lt : l.tocStart < 2 ^ 17
  keyArea_lt : l.keyArea < 2 ^ 18
  valBase_le : l.valBase ≤ block.length
  keyLen_le : l.keyLen ≤ 16
  valLen_le : l.valLen ≤ 16

private theorem layoutBounded (block : Bytes) (subtype : BTreeSubtype) (hdr : BTreeNodeHeader) :
    LayoutBounded block (ApfsCore.nodeLayout block subtype hdr) := by
  have hoff := leU16_lt block 40
  have hlen := leU16_lt block 42
  refine ⟨?_, ?_, ?_, ?_, ?_⟩
  · simp only [ApfsCore.nodeLayout]
    omega
  · simp only [ApfsCore.nodeLayout]
    omega
  · simp only [ApfsCore.nodeLayout]
    split_ifs
    · exact Nat.sub_le _ _
    · exact le_rfl
  · cases subtype with
    | omap => exact le_rfl
    | fsTree => exact Nat.zero_le _
  · simp only [ApfsCore.nodeLayout]
    cases subtype with
    | omap => split_ifs <;> decide
    | fsTree => split_ifs <;> decide

/-- The fields of a slot, in the words of the plain model. -/
private theorem tocFields_eq {block : Bytes} {l : NodeLayout} {e : ℕ} (he : e < 2 ^ 32) :
    tocFields block l e = .ok
      (if l.fixed then ApfsCore.leU16 block (e + 2) else ApfsCore.leU16 block (e + 4),
        if l.fixed then l.keyLen else ApfsCore.leU16 block (e + 2),
        if l.fixed then l.valLen else ApfsCore.leU16 block (e + 6)) := by
  rw [tocFields]
  split_ifs
  · rw [uadd_eq (by omega), ok_bind, leU16_eq (by omega), ok_bind]
  · rw [uadd_eq (by omega), ok_bind, leU16_eq (by omega), ok_bind, uadd_eq (by omega), ok_bind,
      leU16_eq (by omega), ok_bind, uadd_eq (by omega), ok_bind, leU16_eq (by omega), ok_bind]

/-- A slot within the count's cap is decoded in range, whatever its fields are. -/
private theorem tocSlot_eq {block : Bytes} {l : NodeLayout} {i : ℕ}
    (hblock : block.length < 2 ^ 63) (hl : LayoutBounded block l) (hi : i < maxBtnNkeys) :
    tocSlot block l i = .ok (ApfsCore.tocSlot block l i) := by
  have hlen : l.entryLen ≤ 8 := by
    rw [NodeLayout.entryLen]
    split_ifs <;> decide
  have hskip : i * l.entryLen ≤ 2 ^ 20 * 8 := Nat.mul_le_mul hi.le hlen
  obtain ⟨htoc, hkey, hval, hkeyLen, hvalLen⟩ := hl
  rw [tocSlot, umul_eq (by omega), ok_bind, uadd_eq (by omega), ok_bind, uadd_eq (by omega),
    ok_bind, ApfsCore.tocSlot]
  dsimp only
  refine ite_eq_ok (fun _ => rfl) fun hstop => ?_
  have hkoff := leU16_lt block (l.tocStart + i * l.entryLen)
  have hfield2 := leU16_lt block (l.tocStart + i * l.entryLen + 2)
  have hfield6 := leU16_lt block (l.tocStart + i * l.entryLen + 6)
  have hkeyLen' : (if l.fixed then l.keyLen
      else ApfsCore.leU16 block (l.tocStart + i * l.entryLen + 2)) < 65536 := by
    split_ifs <;> omega
  have hvalLen' : (if l.fixed then l.valLen
      else ApfsCore.leU16 block (l.tocStart + i * l.entryLen + 6)) < 65536 := by
    split_ifs <;> omega
  rw [leU16_eq (by omega), ok_bind, tocFields_eq (by omega), ok_bind]
  dsimp only
  rw [uadd_eq (by omega), ok_bind, uadd_eq (by omega), ok_bind]
  refine ite_eq_ok (fun _ => rfl) fun hbase => ?_
  rw [uadd_eq (by omega), ok_bind]
  generalize slice block _ _ = key
  generalize slice block _ _ = value
  cases key <;> cases value <;> rfl

private theorem tocEntries_eq {slot : ℕ → Run TocSlot} {slot' : ℕ → TocSlot} {m : ℕ}
    (hslot : ∀ i < m, slot i = .ok (slot' i)) {n i : ℕ} (h : i + n ≤ m) :
    tocEntries slot n i = .ok (ApfsCore.tocEntries slot' n i) := by
  induction n generalizing i with
  | zero => rfl
  | succ n ih =>
    rw [tocEntries, hslot i (by omega), ok_bind, ApfsCore.tocEntries]
    cases slot' i with
    | stop => rfl
    | skip => exact ih (by omega)
    | entry e =>
      dsimp only
      rw [ih (by omega), ok_bind]

/-- **Node decoding** stays in range on every block. -/
theorem nodeEntries_eq {block : Bytes} (hblock : block.length < 2 ^ 63) (subtype : BTreeSubtype) :
    nodeEntries block subtype = .ok (ApfsCore.nodeEntries block subtype) := by
  rw [nodeEntries, parseNodeHeader_eq, ok_bind, ApfsCore.nodeEntries]
  cases ApfsCore.parseNodeHeader block with
  | none => rfl
  | some hdr =>
    dsimp only
    rw [nodeLayout_eq, ok_bind]
    refine tocEntries_eq (m := maxBtnNkeys) (fun i hi => ?_) (by omega)
    exact tocSlot_eq hblock (layoutBounded block subtype hdr) hi

/-- A node has no more entries than slots are scanned. -/
private theorem length_tocEntries_le (slot : ℕ → TocSlot) (n i : ℕ) :
    (ApfsCore.tocEntries slot n i).length ≤ n := by
  induction n generalizing i with
  | zero => exact le_rfl
  | succ n ih =>
    rw [ApfsCore.tocEntries]
    cases slot i with
    | stop => exact Nat.zero_le _
    | skip => exact (ih (i + 1)).trans n.le_succ
    | entry e => exact Nat.succ_le_succ (ih (i + 1))

theorem length_nodeEntries_le (block : Bytes) (subtype : BTreeSubtype) :
    (ApfsCore.nodeEntries block subtype).length ≤ maxBtnNkeys := by
  rw [ApfsCore.nodeEntries]
  cases ApfsCore.parseNodeHeader block with
  | none => exact Nat.zero_le _
  | some hdr => exact (length_tocEntries_le _ _ 0).trans (Nat.min_le_right _ _)

/-! ### Reading nodes -/

/-- Pass a block on if its checksum validates; otherwise report the mismatch. -/
def verified (paddr : ℕ) (buf : Bytes) : Run Bytes := do
  let stored ← fletcher64Stored buf
  let computed ← fletcher64Checksum buf
  if stored = computed then .ok buf
  else do
    let header ← ObjPhys.parse buf
    asRun (fail (.checksumMismatch (header.elim paddr ObjPhys.oid) stored computed))

/-- `read_verified_node`. -/
def readVerifiedNode (img : Image) (paddr blockSize : ℕ) : Run (Option Bytes) :=
  match checkedMul paddr blockSize with
  | none => .ok none
  | some offset => do
    let buf ← asRun (img.readExact offset blockSize)
    some <$> verified paddr buf

/-- A verified block as a node of a tree walk. -/
def nodeOf (block : Bytes) (subtype : BTreeSubtype) : Run (Node Entry) := do
  match ← parseNodeHeader block with
  | none => .ok (.leaf [])
  | some hdr => do
    let es ← nodeEntries block subtype
    .ok (if hdr.isLeaf then .leaf es else .index es)

/-- The node of a physically stored tree at a block number. -/
def fetchNode (img : Image) (blockSize : ℕ) (subtype : BTreeSubtype) (paddr : ℕ) :
    Run (Node Entry) := do
  match ← readVerifiedNode img paddr blockSize with
  | none => .ok (.leaf [])
  | some buf => nodeOf buf subtype

theorem verified_eq (paddr : ℕ) (buf : Bytes) :
    verified paddr buf = asRun (ApfsCore.verified paddr buf) := by
  rw [verified, ApfsCore.verified, fletcher64Stored_eq, ok_bind, fletcher64Checksum_eq, ok_bind,
    ObjPhys.parse_eq, ok_bind]
  exact ite_eq_asRun (fun _ => rfl) fun _ => rfl

theorem readVerifiedNode_eq (img : Image) (paddr blockSize : ℕ) :
    readVerifiedNode img paddr blockSize =
      asRun (ApfsCore.readVerifiedNode img paddr blockSize) := by
  rw [readVerifiedNode, ApfsCore.readVerifiedNode]
  cases checkedMul paddr blockSize with
  | none => rfl
  | some offset =>
    refine bind_eq_asRun rfl fun buf _ => ?_
    rw [verified_eq, asRun_map]

/-- A block that is passed on is the block that was read. -/
theorem eq_of_verified {paddr : ℕ} {buf block : Bytes}
    (h : ApfsCore.verified paddr buf = .ok block) : block = buf := by
  rw [ApfsCore.verified] at h
  split_ifs at h with hvalid
  · cases h
    rfl
  · exact absurd h (fail_ne_ok _ _)

private theorem length_of_readVerifiedNode {img : Image} {paddr blockSize : ℕ} {buf : Bytes}
    (h : ApfsCore.readVerifiedNode img paddr blockSize = .ok (some buf)) :
    buf.length = blockSize := by
  rw [ApfsCore.readVerifiedNode] at h
  cases hoff : checkedMul paddr blockSize with
  | none =>
    rw [hoff] at h
    cases h
  | some offset =>
    rw [hoff] at h
    obtain ⟨read, hread, h⟩ := bind_eq_ok.mp h
    obtain ⟨block, hblock, h⟩ := map_eq_ok.mp h
    cases h
    rw [eq_of_verified hblock, Image.length_of_readExact hread]

theorem nodeOf_eq {block : Bytes} (hblock : block.length < 2 ^ 63) (subtype : BTreeSubtype) :
    nodeOf block subtype = .ok (ApfsCore.nodeOf block subtype) := by
  rw [nodeOf, parseNodeHeader_eq, ok_bind, ApfsCore.nodeOf]
  cases ApfsCore.parseNodeHeader block with
  | none => rfl
  | some hdr =>
    dsimp only
    rw [nodeEntries_eq hblock, ok_bind]

theorem eq_nodeEntries_of_index {block : Bytes} {subtype : BTreeSubtype} {es : List Entry}
    (h : ApfsCore.nodeOf block subtype = .index es) : es = ApfsCore.nodeEntries block subtype := by
  rw [ApfsCore.nodeOf] at h
  cases hdr : ApfsCore.parseNodeHeader block with
  | none =>
    rw [hdr] at h
    cases h
  | some hdr' =>
    rw [hdr] at h
    dsimp only at h
    split_ifs at h
    cases h
    rfl

theorem fetchNode_eq (img : Image) {blockSize : ℕ} (hsize : blockSize < 2 ^ 63)
    (subtype : BTreeSubtype) (paddr : ℕ) :
    fetchNode img blockSize subtype paddr =
      asRun (ApfsCore.fetchNode img blockSize subtype paddr) := by
  refine bind_eq_asRun (readVerifiedNode_eq img paddr blockSize) fun read hread => ?_
  cases read with
  | none => rfl
  | some buf => exact nodeOf_eq ((length_of_readVerifiedNode hread).trans_lt hsize) subtype

/-! ### Walks -/

/-- The block numbers of the children of an index node. -/
def childNumbers (es : List Entry) : Run (List ℕ) :=
  es.mapM fun e => leU64 e.value 0

/-- `for_each_leaf_entry`, with a callback and the state it starts from. -/
def forEachLeafEntry {σ : Type} (img : Image) (rootPaddr blockSize : ℕ) (subtype : BTreeSubtype)
    (visit : σ → Entry → Run σ) (s : σ) : Run σ :=
  Prod.snd <$> visitWalk (fetchNode img blockSize subtype) childNumbers (fun _ c => .ok (some c))
    visit btreeCycle.stop 64 maxBtreeDepth maxBtreeDepth 0 ([], s) rootPaddr

/-- The scan of an index node for the last child not above the target. -/
def lastNotAbove (cmp : Bytes → Run Ordering) : ℕ → List Entry → Run ℕ
  | child, [] => .ok child
  | child, e :: es => do
    let order ← cmp e.key
    if order = .gt then .ok child
    else do
      let child ← leU64 e.value 0
      lastNotAbove cmp child es

/-- The child a point lookup follows. -/
def floorChild (cmp : Bytes → Run Ordering) : List Entry → Run (Option ℕ)
  | [] => .ok none
  | first :: rest => do
    let child ← leU64 first.value 0
    some <$> lastNotAbove cmp child (first :: rest)

/-- `find_leaf`, with a comparison, a callback and the state it starts from. -/
def findLeaf {σ : Type} (img : Image) (rootPaddr blockSize : ℕ) (subtype : BTreeSubtype)
    (cmp : Bytes → Run Ordering) (visit : σ → Entry → Run σ) (s : σ) : Run σ :=
  visitFollow (fetchNode img blockSize subtype) (floorChild cmp) visit btreeCycle.stop
    maxBtreeDepth [] s rootPaddr

section Walks

variable {σ : Type} {img : Image} {rootPaddr blockSize : ℕ} {subtype : BTreeSubtype}
  {visit : σ → Entry → Run σ} {g : σ → Entry → σ}

private theorem childNumbers_eq (es : List Entry) :
    childNumbers es = .ok (es.map Entry.child) := by
  have hread : (fun e : Entry => leU64 e.value 0) = fun e => pure e.child :=
    funext fun e => leU64_eq (by norm_num)
  rw [childNumbers, hread]
  exact List.mapM_pure

theorem forEachLeafEntry_eq (hsize : blockSize < 2 ^ 63) (hvisit : ∀ s e, visit s e = .ok (g s e))
    (s : σ) :
    forEachLeafEntry img rootPaddr blockSize subtype visit s =
      asRun ((fun rs => rs.foldl g s) <$>
        ApfsCore.forEachLeafEntry img rootPaddr blockSize subtype) := by
  have hchildren : ∀ es, YieldsChildren childNumbers (fun _ c => .ok (some c)) es
      (es.map Entry.child) := fun es =>
    ⟨es.map Entry.child, some, childNumbers_eq es, fun _ _ => rfl, List.filterMap_some⟩
  exact visitWalk_snd_eq (by decide) (fetchNode_eq img hsize subtype) (fun _ es _ => hchildren es)
    hvisit s rootPaddr

private theorem floorChild_eq {cmp : Bytes → Run Ordering} {cmp' : Bytes → Ordering}
    (hcmp : ∀ key, cmp key = .ok (cmp' key)) (es : List Entry) :
    floorChild cmp es =
      .ok (ApfsCore.floorChild Entry.child (fun e => cmp' e.key == .gt) es) := by
  have hscan : ∀ child, lastNotAbove cmp child es =
      .ok (ApfsCore.lastNotAbove Entry.child (fun e => cmp' e.key == .gt) child es) := by
    induction es with
    | nil => exact fun child => rfl
    | cons e es ih =>
      intro child
      rw [lastNotAbove, hcmp, ok_bind, leU64_eq (by norm_num), ok_bind, ih,
        ApfsCore.lastNotAbove]
      simp only [beq_iff_eq]
      exact ite_eq_ok (fun _ => rfl) fun _ => rfl
  cases es with
  | nil => rfl
  | cons first rest =>
    rw [floorChild, leU64_eq (by norm_num), ok_bind, hscan]
    rfl

theorem findLeaf_eq {cmp : Bytes → Run Ordering} {cmp' : Bytes → Ordering}
    (hsize : blockSize < 2 ^ 63) (hcmp : ∀ key, cmp key = .ok (cmp' key))
    (hvisit : ∀ s e, visit s e = .ok (g s e)) (s : σ) :
    findLeaf img rootPaddr blockSize subtype cmp visit s =
      asRun ((fun rs => rs.foldl g s) <$>
        ApfsCore.findLeaf img rootPaddr blockSize subtype cmp') :=
  visitFollow_eq (fetchNode_eq img hsize subtype) (floorChild_eq hcmp) hvisit _ _ s rootPaddr

end Walks

/-! ### The object map -/

/-- `ObjectMap::parse`. -/
def ObjectMap.parse (block : Bytes) : Run ObjectMap :=
  if block.length < 56 then
    asRun (fail (.unexpectedObjectType "omap_phys" objectTypeOmap 0))
  else do
    match ← ObjPhys.parse block with
    | none => asRun (fail (.unexpectedObjectType "omap_phys" objectTypeOmap 0))
    | some hdr =>
      if hdr.objType ≠ objectTypeOmap then
        asRun (fail (.unexpectedObjectType "omap_phys" objectTypeOmap hdr.objTypeRaw))
      else do
        let stored ← fletcher64Stored block
        let computed ← fletcher64Checksum block
        if ¬stored = computed then asRun (fail (.checksumMismatch hdr.oid stored computed))
        else do
          let flags ← leU32 block 32
          let treeType ← leU32 block 40
          let treeOid ← leU64 block 48
          let snapshotTreeOid ← leU64 block 56
          .ok { flags, treeType, treeOid, snapshotTreeOid }

/-- Read the object map header at a physical object id. -/
def readObjectMap (img : Image) (omapOid blockSize : ℕ) : Run ObjectMap := do
  let buf ← asRun (img.readExact (saturatingMul omapOid blockSize) blockSize)
  ObjectMap.parse buf

/-- How a key orders against the target `(oid, xid)`. -/
def omapCmp (oid xid : ℕ) (key : Bytes) : Run Ordering := do
  let kOid ← leU64 key 0
  let kXid ← leU64 key 8
  .ok ((compare kOid oid).then (compare kXid xid))

/-- What the lookup does with each leaf entry it visits. -/
def omapVisit (oid xid : ℕ) (best : Option OmapEntry) (e : Entry) : Run (Option OmapEntry) := do
  let kOid ← leU64 e.key 0
  let kXid ← leU64 e.key 8
  if kOid ≠ oid ∨ kXid > xid then .ok best
  else do
    let flags ← leU32 e.value 0
    let size ← leU32 e.value 4
    let paddr ← leU64 e.value 8
    let entry : OmapEntry := { oid := kOid, xid := kXid, flags, size, paddr }
    .ok
      (match best with
      | none => some entry
      | some b => if kXid > b.xid then some entry else some b)

/-- `ObjectMap::resolve`. -/
def resolve (om : ObjectMap) (img : Image) (oid xid blockSize : ℕ) : Run OmapEntry := do
  let best ← findLeaf img om.treeOid blockSize .omap (omapCmp oid xid) (omapVisit oid xid) none
  match best with
  | some e => .ok e
  | none => asRun (fail (.omapUnresolved oid xid))

theorem ObjectMap.parse_eq (block : Bytes) :
    ObjectMap.parse block = asRun (ApfsCore.ObjectMap.parse block) := by
  rw [ObjectMap.parse, ApfsCore.ObjectMap.parse]
  refine ite_eq_asRun (fun _ => rfl) fun _ => ?_
  rw [ObjPhys.parse_eq, ok_bind]
  cases ApfsCore.ObjPhys.parse block with
  | none => rfl
  | some hdr =>
    refine ite_eq_asRun (fun _ => rfl) fun _ => ?_
    rw [fletcher64Stored_eq, ok_bind, fletcher64Checksum_eq, ok_bind]
    refine ite_eq_asRun (fun _ => rfl) fun _ => ?_
    simp (disch := omega) only [leU32_eq, leU64_eq, ok_bind]
    rfl

theorem readObjectMap_eq (img : Image) (omapOid blockSize : ℕ) :
    readObjectMap img omapOid blockSize =
      asRun (ApfsCore.readObjectMap img omapOid blockSize) :=
  bind_eq_asRun rfl fun buf _ => ObjectMap.parse_eq buf

private theorem omapCmp_eq (oid xid : ℕ) (key : Bytes) :
    omapCmp oid xid key = .ok (ApfsCore.omapCmp oid xid key) := by
  rw [omapCmp, leU64_eq (by norm_num), ok_bind, leU64_eq (by norm_num), ok_bind]
  rfl

private theorem omapVisit_eq (oid xid : ℕ) (best : Option OmapEntry) (e : Entry) :
    omapVisit oid xid best e = .ok (ApfsCore.omapVisit oid xid best e) := by
  rw [omapVisit, leU64_eq (by norm_num), ok_bind, leU64_eq (by norm_num), ok_bind]
  unfold ApfsCore.omapVisit
  refine ite_eq_ok (fun _ => rfl) fun _ => ?_
  simp (disch := omega) only [leU32_eq, leU64_eq, ok_bind]
  cases best with
  | none => rfl
  | some b => rfl

/-- **The lookup of a virtual object** stays in range. -/
theorem resolve_eq (om : ObjectMap) (img : Image) (oid xid : ℕ) {blockSize : ℕ}
    (hsize : blockSize < 2 ^ 63) :
    resolve om img oid xid blockSize = asRun (om.resolve img oid xid blockSize) := by
  rw [resolve, findLeaf_eq hsize (omapCmp_eq oid xid) (omapVisit_eq oid xid),
    ApfsCore.ObjectMap.resolve]
  cases ApfsCore.findLeaf img om.treeOid blockSize .omap (ApfsCore.omapCmp oid xid) with
  | error f => rfl
  | ok es =>
    rw [map_ok, asRun_ok, ok_bind, ok_bind]
    cases es.foldl (ApfsCore.omapVisit oid xid) none with
    | none => rfl
    | some e => rfl

end Stepwise

end ApfsCore
