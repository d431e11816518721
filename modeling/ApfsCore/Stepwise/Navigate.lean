import ApfsCore.Content.Stream
import ApfsCore.Stepwise.Records

/-!
# The file-system tree, operation by operation

The walk of the file-system tree and the operations that run it, each with its callback and with
each operation that could panic explicit. The entries of an index node are indexed below their
number, and a node has at most `2 ^ 20` of them. An extent is read into a range of the buffer that
starts below the size of the stream and ends at most there, and the buffer keeps that size.
-/

namespace ApfsCore

namespace Stepwise

/-! ### The walk -/

/-- Read the block at a physical address and verify its checksum. -/
def readVerifiedBlock (img : Image) (paddr blockSize : ℕ) : Run Bytes := do
  let buf ← asRun (img.readExact (saturatingMul paddr blockSize) blockSize)
  verified paddr buf

/-- The node a virtual id names at a transaction. -/
def fetchVirtual (img : Image) (omap : ObjectMap) (xid blockSize oid : ℕ) : Run (Node Entry) := do
  let entry ← resolve omap img oid xid blockSize
  let buf ← readVerifiedBlock img entry.paddr blockSize
  nodeOf buf .fsTree

/-- The object id in the key of a record. -/
def keyOid (e : Entry) : Run ℕ := do
  let word ← leU64 e.key 0
  .ok (decodeJkey word).1

/-- Whether a walk for the target descends below entry `i` of an index node. -/
def leadsTo (target : Option ℕ) (es : List Entry) (i : ℕ) : Run Bool :=
  match target with
  | none => .ok true
  | some t => do
    let e ← getAt es i
    let sepOid ← keyOid e
    let next ← uadd 64 i 1
    match es[next]? with
    | none => .ok (childMayContainOid sepOid none t)
    | some e => do
      let nextSepOid ← keyOid e
      .ok (childMayContainOid sepOid (some nextSepOid) t)

/-- The child of entry `i` of an index node, if the walk descends into it. -/
def keptChild (target : Option ℕ) (es : List Entry) (i : ℕ) : Run (Option ℕ) := do
  let kept ← leadsTo target es i
  if kept then do
    let e ← getAt es i
    some <$> leU64 e.value 0
  else .ok none

/-- `walk_fs_tree`, with a callback and the state it starts from. -/
def walkFsTree {σ : Type} (img : Image) (v : ApfsVolume) (blockSize : ℕ) (target : Option ℕ)
    (visit : σ → Entry → Run σ) (s : σ) : Run σ := do
  let omap ← readObjectMap img v.omapOid blockSize
  Prod.snd <$> visitWalk (fetchVirtual img omap v.xid blockSize)
    (fun es => .ok (List.range es.length)) (keptChild target) visit fstreeCycle.stop 64
    maxFstreeDepth maxFstreeDepth 0 ([], s) v.rootTreeOid

/-- `for_each_fs_record_for_oid`. -/
def forEachFsRecordForOid {σ : Type} (img : Image) (v : ApfsVolume) (blockSize targetOid : ℕ)
    (visit : σ → Entry → Run σ) (s : σ) : Run σ :=
  walkFsTree img v blockSize (some targetOid) visit s

theorem fetchVirtual_eq (img : Image) (omap : ObjectMap) (xid : ℕ) {blockSize : ℕ}
    (hsize : blockSize < 2 ^ 63) (oid : ℕ) :
    fetchVirtual img omap xid blockSize oid =
      asRun (ApfsCore.fetchVirtual img omap xid blockSize oid) := by
  refine bind_eq_asRun (resolve_eq omap img oid xid hsize) fun entry _ => ?_
  refine bind_eq_asRun ?_ fun buf hbuf => ?_
  · exact bind_eq_asRun rfl fun buf _ => verified_eq entry.paddr buf
  · obtain ⟨read, hread, hverified⟩ := bind_eq_ok.mp hbuf
    rw [eq_of_verified hverified, nodeOf_eq ((Image.length_of_readExact hread).trans_lt hsize)]
    rfl

/-- An index node has no more entries than the cap on their number. -/
private theorem length_of_fetchVirtual {img : Image} {omap : ObjectMap} {xid blockSize oid : ℕ}
    {es : List Entry} (h : ApfsCore.fetchVirtual img omap xid blockSize oid = .ok (.index es)) :
    es.length ≤ maxBtnNkeys := by
  obtain ⟨entry, -, h⟩ := bind_eq_ok.mp h
  obtain ⟨buf, -, h⟩ := bind_eq_ok.mp h
  have hnode : ApfsCore.nodeOf buf .fsTree = .index es := Except.ok.inj h
  rw [eq_nodeEntries_of_index hnode]
  exact length_nodeEntries_le buf .fsTree

private theorem leadsTo_eq (target : Option ℕ) {es : List Entry} {i : ℕ} {e : Entry}
    (he : es[i]? = some e) (hi : i < 2 ^ 20) :
    leadsTo target es i =
      .ok (target.all fun t => childMayContainOid e.oid (es[i + 1]?.map Entry.oid) t) := by
  have hkey : ∀ e : Entry, keyOid e = .ok e.oid := fun e => by
    rw [keyOid, leU64_eq (by norm_num), ok_bind]
    rfl
  cases target with
  | none => rfl
  | some t =>
    rw [leadsTo, getAt_eq he, ok_bind, hkey, ok_bind, uadd_eq (by omega), ok_bind, Option.all_some]
    cases es[i + 1]? with
    | none => rfl
    | some next =>
      dsimp only
      rw [hkey, ok_bind, Option.map_some]

/-- The child of entry `i`, in the words of the plain model. -/
private def keptAt (target : Option ℕ) (es : List Entry) (i : ℕ) : Option ℕ :=
  es[i]?.bind fun e =>
    if target.all fun t => childMayContainOid e.oid (es[i + 1]?.map Entry.oid) t then some e.child
    else none

private theorem keptChild_eq (target : Option ℕ) {es : List Entry} {i : ℕ} (hi : i < es.length)
    (hlen : es.length ≤ maxBtnNkeys) : keptChild target es i = .ok (keptAt target es i) := by
  have hmax : maxBtnNkeys = 2 ^ 20 := rfl
  have he : es[i]? = some es[i] := List.getElem?_eq_getElem hi
  rw [keptChild, leadsTo_eq target he (by omega), ok_bind, getAt_eq he, ok_bind,
    leU64_eq (by norm_num), map_ok, keptAt, he, Option.bind_some]
  exact ite_eq_ok (fun _ => rfl) fun _ => rfl

/-- The loop over the entries of an index node visits the children that are kept. -/
private theorem filterMap_keptAt (target : Option ℕ) (es : List Entry) :
    (List.range es.length).filterMap (keptAt target es) = keptChildren target es := by
  induction es with
  | nil => rfl
  | cons e es ih =>
    have hshift : keptAt target (e :: es) ∘ Nat.succ = keptAt target es := rfl
    have hfirst : keptAt target (e :: es) 0 =
        if target.all fun t => childMayContainOid e.oid (es.head?.map Entry.oid) t then some e.child
        else none := by
      rw [List.head?_eq_getElem?]
      rfl
    rw [List.length_cons, List.range_succ_eq_map, List.filterMap_cons, List.filterMap_map, hshift,
      ih, hfirst, keptChildren]
    split_ifs <;> rfl

section Walk

variable {σ : Type} {img : Image} {v : ApfsVolume} {blockSize : ℕ} {visit : σ → Entry → Run σ}
  {g : σ → Entry → σ}

/-- **The walk of the file-system tree** stays in range. -/
theorem walkFsTree_eq (hsize : blockSize < 2 ^ 63) (hvisit : ∀ s e, visit s e = .ok (g s e))
    (target : Option ℕ) (s : σ) :
    walkFsTree img v blockSize target visit s =
      asRun ((fun rs => rs.foldl g s) <$> ApfsCore.walkFsTree img v blockSize target) := by
  rw [walkFsTree, ApfsCore.walkFsTree, map_bind]
  refine bind_eq_asRun (readObjectMap_eq img v.omapOid blockSize) fun omap _ => ?_
  have hchildren : ∀ a es,
      ApfsCore.fetchVirtual img omap v.xid blockSize a = .ok (.index es) →
        YieldsChildren (fun es => .ok (List.range es.length)) (keptChild target) es
          (keptChildren target es) := fun a es hes =>
    ⟨List.range es.length, keptAt target es, rfl,
      fun i hi => keptChild_eq target (List.mem_range.mp hi) (length_of_fetchVirtual hes),
      filterMap_keptAt target es⟩
  exact visitWalk_snd_eq (by decide) (fetchVirtual_eq img omap v.xid hsize) hchildren hvisit s
    v.rootTreeOid

end Walk

/-! ### Callbacks -/

/-- A callback that decodes the records of one type and object id. -/
def decodeRecord {α : Type} (kind : RecordType) (oid : ℕ) (decode : Entry → Run (Option α))
    (e : Entry) : Run (Option α) := do
  let word ← leU64 e.key 0
  if (decodeJkey word).2 ≠ some kind ∨ (decodeJkey word).1 ≠ oid then .ok none else decode e

/-- The callback that collects what is decoded. -/
def collect {α : Type} (decode : Entry → Run (Option α)) (out : List α) (e : Entry) :
    Run (List α) := do
  match ← decode e with
  | none => .ok out
  | some a => .ok (out ++ [a])

/-- The callback that keeps the first of what is decoded. -/
def keepFirst {α : Type} (decode : Entry → Run (Option α)) (found : Option α) (e : Entry) :
    Run (Option α) :=
  match found with
  | some a => .ok (some a)
  | none => decode e

section Callbacks

variable {α : Type} {decode : Entry → Run (Option α)} {f : Entry → Option α}

private theorem decodeRecord_eq (hdecode : ∀ e, decode e = .ok (f e)) (kind : RecordType)
    (oid : ℕ) (e : Entry) :
    decodeRecord kind oid decode e =
      .ok (if e.recordType ≠ some kind ∨ e.oid ≠ oid then none else f e) := by
  rw [decodeRecord, leU64_eq (by norm_num), ok_bind]
  exact ite_eq_ok (fun _ => rfl) fun _ => hdecode e

private theorem collect_eq (hdecode : ∀ e, decode e = .ok (f e)) (out : List α) (e : Entry) :
    collect decode out e = .ok (out ++ (f e).toList) := by
  rw [collect, hdecode, ok_bind]
  cases f e with
  | none => rw [Option.toList_none, List.append_nil]
  | some a => rfl

private theorem keepFirst_eq (hdecode : ∀ e, decode e = .ok (f e)) (found : Option α)
    (e : Entry) : keepFirst decode found e = .ok (found.or (f e)) := by
  cases found with
  | none => exact hdecode e
  | some a => rfl

private theorem foldl_keepFirst (rs : List Entry) (found : Option α) :
    rs.foldl (fun found e => found.or (f e)) found = found.or (rs.findSome? f) := by
  induction rs generalizing found with
  | nil => rw [List.foldl_nil, List.findSome?_nil, Option.or_none]
  | cons e rs ih =>
    rw [List.foldl_cons, ih, List.findSome?_cons, Option.or_assoc]
    cases f e <;> rfl

variable {img : Image} {v : ApfsVolume} {blockSize : ℕ}

/-- A walk that collects what the records decode to. -/
private theorem walk_collect (hsize : blockSize < 2 ^ 63) (hdecode : ∀ e, decode e = .ok (f e))
    (oid : ℕ) :
    forEachFsRecordForOid img v blockSize oid (collect decode) [] =
      asRun (List.filterMap f <$> ApfsCore.forEachFsRecordForOid img v blockSize oid) := by
  rw [forEachFsRecordForOid, walkFsTree_eq hsize (collect_eq hdecode)]
  simp only [foldl_append_toList, List.nil_append]
  rfl

/-- A walk that keeps the first of what the records decode to. -/
private theorem walk_keepFirst (hsize : blockSize < 2 ^ 63) (hdecode : ∀ e, decode e = .ok (f e))
    (oid : ℕ) :
    forEachFsRecordForOid img v blockSize oid (keepFirst decode) none =
      asRun (List.findSome? f <$> ApfsCore.forEachFsRecordForOid img v blockSize oid) := by
  rw [forEachFsRecordForOid, walkFsTree_eq hsize (keepFirst_eq hdecode)]
  simp only [foldl_keepFirst, Option.none_or]
  rfl

end Callbacks

/-! ### Directories and inodes -/

/-- `list_dir`. -/
def listDir (img : Image) (v : ApfsVolume) (parentOid blockSize : ℕ) : Run (List DirEntry) :=
  forEachFsRecordForOid img v blockSize parentOid
    (collect (decodeRecord .dirRec parentOid fun e => parseDirEntry e.key e.value)) []

/-- The file id of a directory record, if its name is the one looked up. -/
def fileIdNamed (name : Str) (e : Entry) : Run (Option ℕ) := do
  match ← parseDirEntry e.key e.value with
  | none => .ok none
  | some entry => .ok (if entry.name = name then some entry.fileId else none)

/-- `lookup_child`. -/
def lookupChild (img : Image) (v : ApfsVolume) (parentOid : ℕ) (name : Str) (blockSize : ℕ) :
    Run (Option ℕ) :=
  forEachFsRecordForOid img v blockSize parentOid
    (keepFirst (decodeRecord .dirRec parentOid (fileIdNamed name))) none

/-- `load_inode`. -/
def loadInode (img : Image) (v : ApfsVolume) (oid blockSize : ℕ) : Run Inode := do
  let value ← forEachFsRecordForOid img v blockSize oid
    (keepFirst (decodeRecord .inode oid fun e => .ok (some e.value))) none
  match value with
  | none => asRun (fail (.omapUnresolved oid v.xid))
  | some value => Inode.parse oid value

/-- `list_xattrs`. -/
def listXattrs (img : Image) (v : ApfsVolume) (inodeOid blockSize : ℕ) : Run (List Xattr) :=
  forEachFsRecordForOid img v blockSize inodeOid
    (collect (decodeRecord .xattr inodeOid fun e => parseXattr e.key e.value)) []

section Navigate

variable {img : Image} {v : ApfsVolume} {blockSize : ℕ}

theorem listDir_eq (hsize : blockSize < 2 ^ 63) (parentOid : ℕ) :
    listDir img v parentOid blockSize = asRun (ApfsCore.listDir img v parentOid blockSize) :=
  walk_collect hsize
    (decodeRecord_eq (fun e => parseDirEntry_eq e.key e.value) .dirRec parentOid) parentOid

theorem lookupChild_eq (hsize : blockSize < 2 ^ 63) (parentOid : ℕ) (name : Str) :
    lookupChild img v parentOid name blockSize =
      asRun (ApfsCore.lookupChild img v parentOid name blockSize) := by
  have hname : ∀ e, fileIdNamed name e = .ok ((ApfsCore.parseDirEntry e.key e.value).bind
      fun entry => if entry.name = name then some entry.fileId else none) := fun e => by
    rw [fileIdNamed, parseDirEntry_eq, ok_bind]
    cases ApfsCore.parseDirEntry e.key e.value <;> rfl
  rw [lookupChild, walk_keepFirst hsize (decodeRecord_eq hname .dirRec parentOid) parentOid,
    ApfsCore.lookupChild]
  refine congrArg (fun h => asRun (h <$> _)) (funext fun rs => ?_)
  refine congrArg (fun h => rs.findSome? h) (funext fun e => ?_)
  rw [dirEntryOf]
  split_ifs
  · rfl
  · cases ApfsCore.parseDirEntry e.key e.value <;> rfl

theorem loadInode_eq (hsize : blockSize < 2 ^ 63) (oid : ℕ) :
    loadInode img v oid blockSize = asRun (ApfsCore.loadInode img v oid blockSize) := by
  have hvalue : ∀ rs : List Entry,
      rs.findSome? (fun e =>
          if e.recordType ≠ some .inode ∨ e.oid ≠ oid then none else some e.value) =
        inodeValue oid rs := fun rs => by
    refine congrArg (fun h => rs.findSome? h) (funext fun e => ?_)
    simp only [← not_and_or, ite_not]
  rw [loadInode, walk_keepFirst hsize (decodeRecord_eq (fun e => rfl) .inode oid) oid,
    ApfsCore.loadInode]
  cases ApfsCore.forEachFsRecordForOid img v blockSize oid with
  | error f => rfl
  | ok rs =>
    rw [map_ok, asRun_ok, ok_bind, ok_bind, hvalue, inodeOf]
    cases inodeValue oid rs with
    | none => rfl
    | some value => exact Inode.parse_eq oid value

theorem listXattrs_eq (hsize : blockSize < 2 ^ 63) (inodeOid : ℕ) :
    listXattrs img v inodeOid blockSize = asRun (ApfsCore.listXattrs img v inodeOid blockSize) :=
  walk_collect hsize (decodeRecord_eq (fun e => parseXattr_eq e.key e.value) .xattr inodeOid)
    inodeOid

end Navigate

/-! ### Extents -/

/-- The extent of a `FILE_EXTENT` record. -/
def extentOf (e : Entry) : Run (Option FileExtent) := do
  let logicalOffset ← leU64 e.key 8
  let lenAndFlags ← leU64 e.value 0
  let physBlockNum ← leU64 e.value 8
  .ok (some { logicalOffset, len := lenAndFlags &&& jFileExtentLenMask, physBlockNum })

/-- `list_extents`. -/
def listExtents (img : Image) (v : ApfsVolume) (streamOid blockSize : ℕ) :
    Run (List FileExtent) := do
  let out ← forEachFsRecordForOid img v blockSize streamOid
    (collect (decodeRecord .fileExtent streamOid extentOf)) []
  .ok (sortExtents out)

/-- One extent of `read_stream`. The error of an extent that cannot be addressed is made before
it is known whether it is needed. -/
def fillExtent (host : Host) (img : Image) (blockSize size : ℕ) (out : Bytes) (ext : FileExtent) :
    Run Bytes :=
  let start := host.asUsize ext.logicalOffset
  if start ≥ size ∨ ext.physBlockNum = 0 then .ok out
  else do
    let avail ← usub size start
    let copyLen := min (host.asUsize ext.len) avail
    let cap ← udiv (2 ^ 64 - 1) blockSize
    match checkedMul ext.physBlockNum blockSize with
    | none => asRun (fail (.fieldOutOfRange "j_file_extent" "phys_block_num" ext.physBlockNum cap))
    | some byteOff => do
      let stop ← uadd host.usizeBits start copyLen
      let window ← getRange out start stop
      let data ← asRun (img.readExact byteOff window.length)
      .ok (overwrite out start data)

/-- `read_stream`. -/
def readStream (host : Host) (img : Image) (v : ApfsVolume)
    (streamOid logicalSize blockSize : ℕ) : Run Bytes :=
  if logicalSize > maxFileBytes then
    asRun (fail (.fieldOutOfRange "j_dstream" "size" logicalSize maxFileBytes))
  else do
    let extents ← listExtents img v streamOid blockSize
    let size := host.asUsize logicalSize
    extents.foldlM (fillExtent host img blockSize size) (List.replicate size 0)

section Extents

variable {host : Host} {img : Image} {v : ApfsVolume} {blockSize : ℕ}

theorem listExtents_eq (hsize : blockSize < 2 ^ 63) (streamOid : ℕ) :
    listExtents img v streamOid blockSize =
      asRun (ApfsCore.listExtents img v streamOid blockSize) := by
  have hextent : ∀ e, extentOf e = .ok (some (FileExtent.ofEntry e)) := fun e => by
    rw [extentOf]
    simp (disch := omega) only [leU64_eq, ok_bind]
    rfl
  rw [listExtents,
    walk_collect hsize (decodeRecord_eq hextent .fileExtent streamOid) streamOid,
    ApfsCore.listExtents]
  cases ApfsCore.forEachFsRecordForOid img v blockSize streamOid <;> rfl

/-- An extent is read into a range of the buffer. -/
private theorem fillExtent_eq (hpos : blockSize ≠ 0) {size : ℕ} (hsize : size < 2 ^ host.usizeBits)
    {out : Bytes} (hout : out.length = size) (ext : FileExtent) :
    fillExtent host img blockSize size out ext =
      asRun (ApfsCore.fillExtent host img blockSize size out ext) := by
  rw [fillExtent, ApfsCore.fillExtent]
  refine ite_eq_asRun (fun _ => rfl) fun hskip => ?_
  rw [not_or] at hskip
  have hstart : host.asUsize ext.logicalOffset ≤ size := (Nat.lt_of_not_ge hskip.1).le
  rw [usub_eq hstart, ok_bind, udiv_eq hpos, ok_bind]
  cases checkedMul ext.physBlockNum blockSize with
  | none => rfl
  | some byteOff =>
    have hend : host.asUsize ext.logicalOffset +
        min (host.asUsize ext.len) (size - host.asUsize ext.logicalOffset) ≤ size := by omega
    have hwindow : slice out _ _ = some _ :=
      slice_of_le (Nat.le_add_right _ _) (hend.trans hout.ge)
    dsimp only
    rw [uadd_eq (hend.trans_lt hsize), ok_bind, getRange_eq hwindow, ok_bind,
      length_of_slice hwindow, Nat.add_sub_cancel_left]
    exact bind_eq_asRun rfl fun data _ => rfl

/-- **Reading a stream** stays in range. -/
theorem readStream_eq (hpos : blockSize ≠ 0) (hsize : blockSize < 2 ^ 63)
    (streamOid logicalSize : ℕ) :
    readStream host img v streamOid logicalSize blockSize =
      asRun (ApfsCore.readStream host img v streamOid logicalSize blockSize) := by
  refine ite_eq_asRun (fun _ => rfl) fun _ => ?_
  refine bind_eq_asRun (listExtents_eq hsize streamOid) fun extents _ => ?_
  have husize : host.asUsize logicalSize < 2 ^ host.usizeBits := Nat.mod_lt _ (Nat.two_pow_pos _)
  -- the buffer keeps its length from one extent to the next
  exact foldlM_mapError (P := fun out => out.length = host.asUsize logicalSize)
    (fun out ext _ hout => fillExtent_eq hpos husize hout ext)
    (fun out ext _ out' hout hstep => length_of_fillExtent hout hstep) List.length_replicate

end Extents

end Stepwise

end ApfsCore
