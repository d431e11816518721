import ApfsCore.Container.Open
import ApfsCore.Container.Reaper
import ApfsCore.Volume.Navigate
import ApfsCore.Volume.Snapshot

/-!
# Checksum before trust

No byte of a corrupted metadata block influences a successful result. The statement is about
two images (`SameTrusted`): block by block they are identical, or both blocks fail their
checksum. An operation then succeeds on one image exactly when it succeeds on the other, with
the same value (`OkEq`). Errors are not compared, since they report what was found.

Every operation reads the image through a gate that rejects a block with a bad checksum
(`SameTrusted.gate`), or, in the checkpoint ring, skips it. The walks compose gated reads, so
the property carries over by `walk_okEq` and `follow_okEq`.
-/

namespace ApfsCore

/-- Two images of equal length whose blocks are pairwise identical or both corrupted. -/
structure SameTrusted (img img' : Image) (blockSize : ℕ) : Prop where
  admitted : nxMinimumBlockSize ≤ blockSize ∧ blockSize ≤ nxMaximumBlockSize
  length_eq : img.bytes.length = img'.bytes.length
  blocks : ∀ p b b', img.block blockSize p = some b → img'.block blockSize p = some b' →
    b = b' ∨ (¬ChecksumValid b ∧ ¬ChecksumValid b')

section TwoImages

variable {img img' : Image} {blockSize : ℕ}

theorem SameTrusted.blockSize_ne_zero (h : SameTrusted img img' blockSize) : blockSize ≠ 0 := by
  have := h.admitted.1
  rw [nxMinimumBlockSize] at this
  omega

/-- A block number is outside both images, or names blocks that are equal or both corrupted. -/
private theorem SameTrusted.block_cases (h : SameTrusted img img' blockSize) (p : ℕ) :
    (img.block blockSize p = none ∧ img'.block blockSize p = none) ∨
    ∃ b b', img.block blockSize p = some b ∧ img'.block blockSize p = some b' ∧
      (b = b' ∨ (¬ChecksumValid b ∧ ¬ChecksumValid b')) := by
  have hlen := h.length_eq
  by_cases hin : p * blockSize + blockSize ≤ img.bytes.length
  · have hb : img.block blockSize p = some _ := slice_of_le (Nat.le_add_right _ _) hin
    have hb' : img'.block blockSize p = some _ :=
      slice_of_le (Nat.le_add_right _ _) (hlen ▸ hin)
    exact .inr ⟨_, _, hb, hb', h.blocks p _ _ hb hb'⟩
  · refine .inl ⟨?_, ?_⟩
    · rw [Image.block, slice_eq_none_iff]
      omega
    · rw [Image.block, slice_eq_none_iff]
      omega

/-- **The gate.** Reading a block and handing it to a consumer that rejects corrupted blocks
succeeds alike on both images. -/
theorem SameTrusted.gate (h : SameTrusted img img' blockSize) {γ : Type} {f : Bytes → Result γ}
    (hf : ∀ b, ¬ChecksumValid b → ∀ c, f b ≠ .ok c) (p : ℕ) :
    OkEq (img.readExact (saturatingMul p blockSize) blockSize >>= f)
      (img'.readExact (saturatingMul p blockSize) blockSize >>= f) := by
  rw [Image.readExact_saturatingMul img h.blockSize_ne_zero,
    Image.readExact_saturatingMul img' h.blockSize_ne_zero]
  rcases h.block_cases p with ⟨hb, hb'⟩ | ⟨b, b', hb, hb', hsame⟩
  · rw [hb, hb']
    exact OkEq.refl _
  · rw [hb, hb']
    rcases hsame with rfl | ⟨hbad, hbad'⟩
    · exact OkEq.refl _
    · exact okEq_iff.mpr fun c => iff_of_false (hf b hbad c) (hf b' hbad' c)

/-! ### Reads -/

theorem verified_ne_ok {paddr : ℕ} {b : Bytes} (h : ¬ChecksumValid b) (c : Bytes) :
    verified paddr b ≠ .ok c := by
  rw [verified, if_neg h]
  exact fail_ne_ok _ _

theorem ObjectMap.parse_ne_ok {b : Bytes} (h : ¬ChecksumValid b) (om : ObjectMap) :
    ObjectMap.parse b ≠ .ok om :=
  fun hok => h (ObjectMap.parse_eq_ok_iff.mp hok).2.2.1

theorem ApfsVolume.parse_ne_ok {b : Bytes} (h : ¬ChecksumValid b) (v : ApfsVolume) :
    ApfsVolume.parse b ≠ .ok v :=
  fun hok => h (ApfsVolume.xid_of_parse hok).1.checksum

theorem SameTrusted.readVerifiedBlock (h : SameTrusted img img' blockSize) (p : ℕ) :
    OkEq (readVerifiedBlock img p blockSize) (readVerifiedBlock img' p blockSize) :=
  h.gate (fun _ hb c => verified_ne_ok hb c) p

theorem SameTrusted.readObjectMap (h : SameTrusted img img' blockSize) (p : ℕ) :
    OkEq (readObjectMap img p blockSize) (readObjectMap img' p blockSize) :=
  h.gate (fun _ hb om => ObjectMap.parse_ne_ok hb om) p

theorem SameTrusted.readObjBlock (h : SameTrusted img img' blockSize) (p : ℕ) :
    OkEq (readObjBlock img p blockSize) (readObjBlock img' p blockSize) := by
  refine h.gate (fun b hb c => ?_) p
  rw [if_neg hb]
  exact fail_ne_ok _ _

/-- A physical tree node is a block address that overflows, in either image, or a gated
read. -/
theorem SameTrusted.fetchNode (h : SameTrusted img img' blockSize) (subtype : BTreeSubtype)
    (p : ℕ) : OkEq (fetchNode img blockSize subtype p) (fetchNode img' blockSize subtype p) := by
  unfold ApfsCore.fetchNode readVerifiedNode
  refine OkEq.bind ?_ fun buf => OkEq.refl _
  cases hoff : checkedMul p blockSize with
  | none => exact OkEq.refl _
  | some offset =>
    -- an offset that does not overflow is the saturated one, so the gate applies
    have hsat : offset = saturatingMul p blockSize := by
      rw [checkedMul] at hoff
      split_ifs at hoff with hlt
      cases hoff
      exact (saturatingMul_of_lt hlt).symm
    simp only [hsat]
    refine h.gate (fun b hb c => ?_) p
    rw [verified, if_neg hb]
    exact fail_ne_ok _ _

/-! ### Lookups and walks -/

theorem SameTrusted.resolve (h : SameTrusted img img' blockSize) (om : ObjectMap)
    (oid xid : ℕ) : OkEq (om.resolve img oid xid blockSize) (om.resolve img' oid xid blockSize) :=
  (follow_okEq (fun p => h.fetchNode .omap p) _ _ _).bind fun _ => OkEq.refl _

theorem SameTrusted.fetchVirtual (h : SameTrusted img img' blockSize) (om : ObjectMap)
    (xid oid : ℕ) :
    OkEq (fetchVirtual img om xid blockSize oid) (fetchVirtual img' om xid blockSize oid) :=
  (h.resolve om oid xid).bind fun entry => (h.readVerifiedBlock entry.paddr).bind fun _ =>
    OkEq.refl _

theorem SameTrusted.forEachFsRecordForOid (h : SameTrusted img img' blockSize) (v : ApfsVolume)
    (target : ℕ) :
    OkEq (forEachFsRecordForOid img v blockSize target)
      (forEachFsRecordForOid img' v blockSize target) :=
  (h.readObjectMap v.omapOid).bind fun om =>
    (walk_okEq (h.fetchVirtual om v.xid) _ _ _).map _

theorem SameTrusted.fetchSnap (h : SameTrusted img img' blockSize) (om : ObjectMap)
    (xid : ℕ) (a : SnapNode) :
    OkEq (fetchSnap img om xid blockSize a) (fetchSnap img' om xid blockSize a) := by
  refine OkEq.bind ?_ fun paddr => (h.readVerifiedBlock paddr).bind fun _ => OkEq.refl _
  unfold snapPaddr
  split_ifs with hroot
  · exact OkEq.refl _
  · exact (h.resolve om a.nodeOid xid).map _

theorem SameTrusted.forEachSnapRecord (h : SameTrusted img img' blockSize) (v : ApfsVolume) :
    OkEq (forEachSnapRecord img v blockSize) (forEachSnapRecord img' v blockSize) :=
  (h.readObjectMap v.omapOid).bind fun om => (walk_okEq (h.fetchSnap om v.xid) _ _ _).map _

theorem SameTrusted.reapChain (h : SameTrusted img img' blockSize)
    (mappings : List CheckpointMapping) (n : ℕ) (seen : List ℕ) (oid : ℕ) :
    OkEq (reapChain img mappings blockSize n seen oid)
      (reapChain img' mappings blockSize n seen oid) := by
  induction n generalizing seen oid with
  | zero => exact OkEq.refl _
  | succ n ih =>
    rw [ApfsCore.reapChain, ApfsCore.reapChain]
    split_ifs
    · exact OkEq.refl _
    · exact OkEq.refl _
    · cases mappings.find? fun m => m.oid == oid with
      | none => exact OkEq.refl _
      | some m =>
        exact (h.readObjBlock m.paddr).bind fun list => (ih _ _).bind fun _ => OkEq.refl _

/-! ### The checkpoint ring -/

/-- A slot either reads alike in both images or is skipped in both. -/
private theorem SameTrusted.slot_cases (h : SameTrusted img img' blockSize) (p : ℕ) :
    readBlock img p blockSize = readBlock img' p blockSize ∨
    ∃ b b', readBlock img p blockSize = some b ∧ readBlock img' p blockSize = some b' ∧
      ¬ChecksumValid b ∧ ¬ChecksumValid b' := by
  rw [readBlock_eq_block img h.blockSize_ne_zero, readBlock_eq_block img' h.blockSize_ne_zero]
  rcases h.block_cases p with ⟨hb, hb'⟩ | ⟨b, b', hb, hb', rfl | hbad⟩
  · exact .inl (hb.trans hb'.symm)
  · exact .inl (hb.trans hb'.symm)
  · exact .inr ⟨b, b', hb, hb', hbad⟩

/-- A corrupted block does not change the best slot. -/
private theorem RingScan.visit_best_of_corrupted (st : RingScan) (p : ℕ) {b : Bytes}
    (hb : ¬ChecksumValid b) : (st.visit p b).best = st.best := by
  rw [RingScan.visit]
  cases ObjPhys.parse b with
  | none => rfl
  | some hdr =>
    simp only [if_pos hb]
    split_ifs <;> rfl

/-- What a slot does to the best superblock depends on the best one so far and the block. -/
private theorem RingScan.visit_best_congr {st st' : RingScan} (h : st.best = st'.best) (p : ℕ)
    (b : Bytes) : (st.visit p b).best = (st'.visit p b).best := by
  unfold RingScan.visit
  cases ObjPhys.parse b with
  | none => exact h
  | some hdr =>
    simp only [h]
    split_ifs <;> rfl

theorem SameTrusted.scanRing (h : SameTrusted img img' blockSize) (base n : ℕ) :
    OkRel (fun st st' : RingScan => st.best = st'.best) (scanRing img blockSize base n)
      (scanRing img' blockSize base n) := by
  refine OkRel.foldlM _ (fun st st' i _ hst => ?_) rfl
  refine (OkEq.refl (addU64 base i)).bind fun paddr => OkRel.ok ?_
  unfold RingScan.slot
  rcases h.slot_cases paddr with heq | ⟨b, b', hb, hb', hbad, hbad'⟩
  · rw [heq]
    cases readBlock img' paddr blockSize with
    | none => exact hst
    | some b => exact RingScan.visit_best_congr hst paddr b
  · -- both scans skip a corrupted slot, though they may record different magics on the way
    rw [hb, hb']
    exact (RingScan.visit_best_of_corrupted st paddr hbad).trans
      (hst.trans (RingScan.visit_best_of_corrupted st' paddr hbad').symm)

private theorem slotMappings_of_corrupted {xid : ℕ} {b : Bytes} (hb : ¬ChecksumValid b) :
    slotMappings xid b = [] := by
  rw [slotMappings]
  cases ObjPhys.parse b with
  | none => rfl
  | some hdr =>
    simp only [if_pos hb]
    split_ifs <;> rfl

theorem SameTrusted.collectMappings (h : SameTrusted img img' blockSize) (base n xid : ℕ) :
    OkEq (collectMappings img blockSize base n xid)
      (collectMappings img' blockSize base n xid) := by
  refine OkRel.foldlM _ ?_ rfl
  rintro ms _ i - rfl
  refine (OkEq.refl (addU64 base i)).bind fun paddr => ?_
  rcases h.slot_cases paddr with heq | ⟨b, b', hb, hb', hbad, hbad'⟩
  · rw [heq]
    exact OkEq.refl _
  · simp only [hb, hb', slotMappings_of_corrupted hbad, slotMappings_of_corrupted hbad']
    exact OkEq.refl _

theorem SameTrusted.resolveLiveCheckpoint (h : SameTrusted img img' blockSize)
    {bootstrap : NxSuperblock} (hbs : bootstrap.blockSize = blockSize) :
    OkEq (resolveLiveCheckpoint img bootstrap) (resolveLiveCheckpoint img' bootstrap) := by
  unfold ApfsCore.resolveLiveCheckpoint
  split_ifs
  · exact OkEq.refl _
  · rw [hbs]
    refine (h.scanRing _ _).bind fun st st' hst => ?_
    rw [← hst]
    cases st.best with
    | none => exact OkRel.error _ _
    | some b => exact (h.collectMappings _ _ _).bind fun _ => OkEq.refl _
  · exact OkEq.refl _

/-! ### Operations -/

theorem SameTrusted.lookupChild (h : SameTrusted img img' blockSize) (v : ApfsVolume)
    (parentOid : ℕ) (name : Str) :
    OkEq (lookupChild img v parentOid name blockSize)
      (lookupChild img' v parentOid name blockSize) :=
  (h.forEachFsRecordForOid v parentOid).map _

theorem SameTrusted.loadInode (h : SameTrusted img img' blockSize) (v : ApfsVolume) (oid : ℕ) :
    OkEq (loadInode img v oid blockSize) (loadInode img' v oid blockSize) :=
  (h.forEachFsRecordForOid v oid).bind fun _ => OkEq.refl _

theorem SameTrusted.openPath (h : SameTrusted img img' blockSize) (v : ApfsVolume) (path : Str) :
    OkEq (openPath img v path blockSize) (openPath img' v path blockSize) := by
  refine OkEq.bind (OkRel.foldlM _ ?_ rfl) fun current => h.loadInode v current
  rintro current _ component - rfl
  exact (h.lookupChild v current component).bind fun _ => OkEq.refl _

end TwoImages

/-- **Checksum before trust.** On two images whose blocks are pairwise identical or both
corrupted, each of the metadata operations succeeds with a value on one exactly when it
succeeds with that value on the other. -/
theorem checksum_before_trust (img img' : Image) (blockSize : ℕ)
    (h : SameTrusted img img' blockSize) :
    (∀ (om : ObjectMap) oid xid,
      OkEq (om.resolve img oid xid blockSize) (om.resolve img' oid xid blockSize)) ∧
    (∀ bootstrap : NxSuperblock, bootstrap.blockSize = blockSize →
      OkEq (resolveLiveCheckpoint img bootstrap) (resolveLiveCheckpoint img' bootstrap)) ∧
    (∀ v parentOid, OkEq (listDir img v parentOid blockSize) (listDir img' v parentOid blockSize)) ∧
    (∀ v parentOid name, OkEq (lookupChild img v parentOid name blockSize)
      (lookupChild img' v parentOid name blockSize)) ∧
    (∀ v oid, OkEq (loadInode img v oid blockSize) (loadInode img' v oid blockSize)) ∧
    (∀ v path, OkEq (openPath img v path blockSize) (openPath img' v path blockSize)) ∧
    (∀ v streamOid,
      OkEq (listExtents img v streamOid blockSize) (listExtents img' v streamOid blockSize)) ∧
    (∀ v inodeOid,
      OkEq (listXattrs img v inodeOid blockSize) (listXattrs img' v inodeOid blockSize)) ∧
    (∀ v, OkEq (listSnapshots img v blockSize) (listSnapshots img' v blockSize)) ∧
    (∀ v name,
      OkEq (resolveSnapshotXid img v name blockSize) (resolveSnapshotXid img' v name blockSize)) ∧
    (∀ v snapshot,
      OkEq (mountSnapshot img v snapshot blockSize) (mountSnapshot img' v snapshot blockSize)) ∧
    ∀ reaperPaddr mappings, OkEq (pendingObjects img reaperPaddr mappings blockSize)
      (pendingObjects img' reaperPaddr mappings blockSize) := by
  refine ⟨h.resolve, fun bootstrap hbs => h.resolveLiveCheckpoint hbs, fun v parentOid => ?_,
    h.lookupChild, h.loadInode, h.openPath, fun v streamOid => ?_, fun v inodeOid => ?_,
    fun v => ?_, fun v name => ?_, fun v snapshot => ?_, fun reaperPaddr mappings => ?_⟩
  · exact (h.forEachFsRecordForOid v parentOid).map _
  · exact (h.forEachFsRecordForOid v streamOid).bind fun _ => OkEq.refl _
  · exact (h.forEachFsRecordForOid v inodeOid).map _
  · exact (h.forEachSnapRecord v).bind fun _ => OkEq.refl _
  · exact (h.forEachSnapRecord v).bind fun _ => OkEq.refl _
  · refine h.gate (fun b hb w hw => ?_) snapshot.sblockOid
    obtain ⟨vol, hvol, -⟩ := bind_eq_ok.mp hw
    exact ApfsVolume.parse_ne_ok hb vol hvol
  · exact (h.readObjBlock reaperPaddr).bind fun reaper =>
      (h.reapChain mappings _ _ _).bind fun _ => OkEq.refl _

/-! Two images of a ring of four slots, one of them torn and one of them the reaper, whose first
list is said to be in the torn slot. They differ in what the torn slot holds. -/

/-- A reaper with object 7, of type 3, in progress, and the list 16385 queued. -/
private def reaperBlock : Bytes :=
  stamp (List.replicate 40 0 ++ leBytes 8 16385 ++ List.replicate 16 0 ++ leBytes 4 3 ++
    List.replicate 12 0 ++ leBytes 8 7 ++ List.replicate 4000 0)

/-- The torn slot is block 3, and the reaper block 4. -/
private def tornBlocksAt (xid : ℕ) : List Bytes :=
  [stamp (slotBody 5), stamp (slotBody 5), stamp (slotBody 7), tornSlot xid, reaperBlock]

private theorem length_tornBlocksAt (xid : ℕ) : ∀ b ∈ tornBlocksAt xid, b.length = 4096 := by
  have hreaper : reaperBlock.length = 4096 := by
    rw [reaperBlock, length_stamp]
    simp only [List.length_append, List.length_replicate, length_leBytes]
  simp only [tornBlocksAt, List.forall_mem_cons, length_slots, hreaper, List.not_mem_nil,
    false_imp_iff, implies_true, and_self]

private theorem length_flatten_tornBlocksAt (xid : ℕ) :
    (tornBlocksAt xid).flatten.length = 20480 := by
  rw [length_flatten_blocks (length_tornBlocksAt xid),
    show (tornBlocksAt xid).length = 5 from rfl]

/-- The image whose torn slot was to be the superblock of the given transaction. -/
def tornSlotImage (xid : ℕ) : Image where
  bytes := (tornBlocksAt xid).flatten
  length_lt := by
    rw [length_flatten_tornBlocksAt]
    norm_num

private theorem tornSlot_block {xid p : ℕ} {block : Bytes}
    (h : (tornBlocksAt xid)[p]? = some block) :
    (tornSlotImage xid).block 4096 p = some block :=
  Image.block_of_flatten rfl (length_tornBlocksAt xid) h

private theorem sameTrusted_tornSlotImage (xid xid' : ℕ) :
    SameTrusted (tornSlotImage xid) (tornSlotImage xid') 4096 := by
  have hlen : ∀ xid, (tornSlotImage xid).bytes.length = 20480 := length_flatten_tornBlocksAt
  refine ⟨by decide, (hlen xid).trans (hlen xid').symm, fun p b b' hb hb' => ?_⟩
  have hp : p < 5 := by
    have hle := (slice_eq_some_iff.mp hb).2.1
    rw [hlen] at hle
    omega
  by_cases htorn : p = 3
  · subst htorn
    rw [tornSlot_block rfl, Option.some.injEq] at hb hb'
    rw [← hb, ← hb']
    exact .inr ⟨not_checksumValid_tornSlot _, not_checksumValid_tornSlot _⟩
  · -- the other blocks are the same in both images
    refine .inl ?_
    have hblock : ∀ xid, ∃ b, (tornBlocksAt xid)[p]? = some b ∧
        (tornBlocksAt 0)[p]? = some b := by
      intro xid
      obtain rfl | rfl | rfl | rfl : p = 0 ∨ p = 1 ∨ p = 2 ∨ p = 4 := by omega
      all_goals exact ⟨_, rfl, rfl⟩
    obtain ⟨c, hc, hzero⟩ := hblock xid
    obtain ⟨c', hc', hzero'⟩ := hblock xid'
    rw [tornSlot_block hc, Option.some.injEq] at hb
    rw [tornSlot_block hc', Option.some.injEq] at hb'
    rw [hzero, Option.some.injEq] at hzero'
    rw [← hb, ← hb', hzero']

/-- In both images the superblock of transaction 7 is live, although the torn slot would be newer;
and in both the reap lists cannot be read. -/
theorem torn_slot_reads_alike :
    (∃ live, live.xid = 7 ∧ ∀ xid ∈ [8, 9], resolveLiveCheckpoint (tornSlotImage xid)
      (NxSuperblock.ofBlock (stamp (slotBody 5))) = .ok live) ∧
    ∀ xid ∈ [8, 9], ∀ out,
      pendingObjects (tornSlotImage xid) 4 [⟨16385, 3, 0, 0⟩] 4096 ≠ .ok out := by
  obtain ⟨-, hring, -, -, -, -, -, -, -, -, -, hpending⟩ :=
    checksum_before_trust _ _ _ (sameTrusted_tornSlotImage 8 9)
  obtain ⟨-, hsize, hbase, hblocks⟩ := slot_geometry
  constructor
  · have hnew : SuperblockAt (tornSlotImage 8) 4096 2 7 :=
      superblockAt_of_slot (by decide) (tornSlot_block rfl)
    have hcases := slot_resolvable.resolve_cases (tornSlotImage 8)
    rw [hsize, hbase, hblocks] at hcases
    rcases hcases with ⟨live, hok, hlive⟩ | ⟨hnone, -⟩
    · have hok' := (okEq_iff.mp (hring _ hsize) live).mp hok
      refine ⟨live, ?_, by simpa using ⟨hok, hok'⟩⟩
      have hge := hlive.newest 2 7 (by decide) (by decide) hnew
      obtain ⟨hlow, hhigh⟩ := hlive.inRing
      have hvalid := hlive.valid
      have hslots : live.superblockPaddr = 1 ∨ live.superblockPaddr = 2 ∨
          live.superblockPaddr = 3 ∨ live.superblockPaddr = 4 := by
        omega
      rcases hslots with hp | hp | hp | hp <;> rw [hp] at hvalid
      · have hxid := hvalid.unique (superblockAt_of_slot (by decide) (tornSlot_block rfl))
        omega
      · exact hvalid.unique hnew
      · exact absurd hvalid (not_superblockAt_of_tornSlot (tornSlot_block rfl) _)
      · -- the reaper is no superblock
        obtain ⟨buf, hbuf, htype, -⟩ := hvalid
        rw [tornSlot_block rfl, Option.some.injEq] at hbuf
        rw [← hbuf] at htype
        exact absurd htype (by decide +kernel)
    · exact absurd hnew (hnone 2 7 (by decide) (by decide))
  · have hfail : ∀ out, pendingObjects (tornSlotImage 8) 4 [⟨16385, 3, 0, 0⟩] 4096 ≠ .ok out := by
      intro out hout
      have hread : readObjBlock (tornSlotImage 8) 4 4096 = .ok reaperBlock :=
        (readObjBlock_eq_ok_iff (by decide)).mpr ⟨tornSlot_block rfl, checksumValid_stamp _⟩
      have hhead : leU64 reaperBlock 48 = 16385 := by
        decide +kernel
      rw [pendingObjects, hread, ok_bind, hhead] at hout
      obtain ⟨queued, hchain, -⟩ := bind_eq_ok.mp hout
      obtain ⟨list, hlist, -⟩ := bind_eq_ok.mp hchain
      obtain ⟨hblock, hsum⟩ := (readObjBlock_eq_ok_iff (by decide)).mp hlist
      rw [tornSlot_block rfl, Option.some.injEq] at hblock
      exact not_checksumValid_tornSlot 8 (hblock ▸ hsum)
    have hfail' : ∀ out, pendingObjects (tornSlotImage 9) 4 [⟨16385, 3, 0, 0⟩] 4096 ≠ .ok out :=
      fun out hout => hfail out ((okEq_iff.mp (hpending 4 _) out).mpr hout)
    simpa using ⟨hfail, hfail'⟩

end ApfsCore
