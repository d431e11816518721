import ApfsCore.Vfs.Mounted

/-!
# What a mounted volume depends on

The state that is mounted from an image lies in certain of its bytes: block zero, the live
superblock, the two object maps, the nodes that ids resolve to, and the extents of the files
(`stateSpan`). Whatever is written elsewhere, as long as the checkpoint ring does not get a newer
superblock with a valid checksum, the same state is mounted and served. If it gets one, that
superblock is the live one from then on. So a transaction, which writes its blocks aside and its
superblock last, takes effect as a whole or not at all, at whatever point it is interrupted
(`switch_is_atomic`).
-/

namespace ApfsCore

/-! ### Footprints -/

/-- The bytes of a block. -/
def blockSpan (blockSize p : ℕ) : Set ℕ :=
  Set.Ico (p * blockSize) (p * blockSize + blockSize)

/-- The second image has the bytes of the first one at the given positions. -/
def Keeps (span : Set ℕ) (img img' : Image) : Prop :=
  ∀ i ∈ span, img'.bytes[i]? = img.bytes[i]?

/-- An object map: its header and the nodes of its tree. -/
def objectMapSpan (blockSize omapOid : ℕ) (t : Shape ℕ Entry) : Set ℕ :=
  {i | i ∈ blockSpan blockSize omapOid ∨
    ∃ s : Shape ℕ Entry, s.IsSubtree t ∧ i ∈ blockSpan blockSize s.address}

/-- A volume: its object map, and the nodes of its file-system tree where they are mapped. -/
def volumeSpan (v : ApfsVolume) (blockSize : ℕ) (mappings tree : Shape ℕ Entry) : Set ℕ :=
  {i | i ∈ objectMapSpan blockSize v.omapOid mappings ∨
    ∃ s : Shape ℕ Entry, s.IsSubtree tree ∧ ∃ e,
      IsNewest s.address v.xid (mappings.entries.map OmapEntry.ofEntry) e ∧
        i ∈ blockSpan blockSize e.paddr}

/-- The data of all files, where their extents say. -/
def dataSpan (blockSize : ℕ) (c : Contents) : Set ℕ :=
  {i | ∃ streamOid, ∃ ext ∈ c.records.filterMap (FsRecord.extentOf streamOid),
    ext.physBlockNum ≠ 0 ∧ ext.physBlockNum * blockSize ≤ i ∧
      i < ext.physBlockNum * blockSize + ext.len}

/-- A container: what is read of block zero, the live superblock, the object map, and the
superblock of the first volume. -/
def containerSpan (nx : NxSuperblock) (live : ℕ) (mappings : Shape ℕ Entry) : Set ℕ :=
  {i | i < nxMinimumBlockSize ∨ i ∈ blockSpan nx.blockSize live ∨
    i ∈ objectMapSpan nx.blockSize nx.omapOid mappings ∨
    ∃ oid, nx.fsOids.head? = some oid ∧ ∃ e,
      IsNewest oid nx.xid (mappings.entries.map OmapEntry.ofEntry) e ∧
        i ∈ blockSpan nx.blockSize e.paddr}

/-- The state that is mounted. -/
def stateSpan (nx : NxSuperblock) (live : ℕ) (mappings : Shape ℕ Entry) (v : ApfsVolume)
    (vmappings tree : Shape ℕ Entry) (c : Contents) : Set ℕ :=
  {i | i ∈ containerSpan nx live mappings ∨ i ∈ volumeSpan v nx.blockSize vmappings tree ∨
    i ∈ dataSpan nx.blockSize c}

section Kept

variable {img img' : Image} {span : Set ℕ} {blockSize : ℕ}

theorem Keeps.mono {small : Set ℕ} (h : Keeps span img img') (hsub : small ⊆ span) :
    Keeps small img img' :=
  fun i hi => h i (hsub hi)

/-- A block inside the footprint is kept. -/
theorem Keeps.block (h : Keeps span img img') (hbs : blockSize ≠ 0) {p : ℕ} {b : Bytes}
    (hsub : ∀ i ∈ blockSpan blockSize p, i ∈ span) (hb : img.block blockSize p = some b) :
    img'.block blockSize p = some b :=
  slice_of_agree (by omega) hb fun k hlow hhigh => h k (hsub k ⟨hlow, hhigh⟩)

theorem Keeps.nodeOn (h : Keeps span img img') (hbs : blockSize ≠ 0) {subtype : BTreeSubtype}
    {p : ℕ} {node : Node Entry} (hsub : ∀ i ∈ blockSpan blockSize p, i ∈ span)
    (hnode : NodeOn img blockSize subtype p node) : NodeOn img' blockSize subtype p node := by
  obtain ⟨plan, hlegal, hsubtype, hplan, hblock, hsum⟩ := hnode
  exact ⟨plan, hlegal, hsubtype, hplan, h.block hbs hsub hblock, hsum⟩

/-- An object map is kept with its footprint. -/
theorem ObjectMapOn.kept {omapOid : ℕ} {t : Shape ℕ Entry} (hbs : blockSize ≠ 0)
    (h : ObjectMapOn img blockSize omapOid t)
    (hkeep : Keeps (objectMapSpan blockSize omapOid t) img img') :
    ObjectMapOn img' blockSize omapOid t where
  header := by
    obtain ⟨buf, ⟨hblock, hsum⟩, hfields⟩ := h.header
    exact ⟨buf, ⟨hkeep.block hbs (fun _ hi => .inl hi) hblock, hsum⟩, hfields⟩
  tree :=
    { nodes := fun s hs => hkeep.nodeOn hbs (fun _ hi => .inr ⟨s, hs, hi⟩) (h.tree.nodes s hs)
      separated := h.tree.separated
      height := h.tree.height }
  sorted := h.sorted

/-- A volume is kept with its footprint. -/
theorem VolumeOn.kept {v : ApfsVolume} {mappings tree : Shape ℕ Entry} {c : Contents}
    (h : VolumeOn img v blockSize mappings tree c)
    (hkeep : Keeps (volumeSpan v blockSize mappings tree) img img') :
    VolumeOn img' v blockSize mappings tree c where
  blockSize_ne := h.blockSize_ne
  omap := h.omap.kept h.blockSize_ne (hkeep.mono fun _ hi => .inl hi)
  nodes s hs := by
    obtain ⟨e, hnewest, hnode⟩ := h.nodes s hs
    exact ⟨e, hnewest, hkeep.nodeOn h.blockSize_ne (fun _ hi => .inr ⟨s, hs, e, hnewest, hi⟩) hnode⟩
  separated := h.separated
  root := h.root
  height := h.height
  nodup := h.nodup
  entries := h.entries

/-- What a stream holds is kept with the data of the volume. -/
theorem StreamHolds.kept {c : Contents} {streamOid : ℕ} {value : Bytes}
    (h : StreamHolds img blockSize value (c.records.filterMap (FsRecord.extentOf streamOid)))
    (hkeep : Keeps (dataSpan blockSize c) img img') :
    StreamHolds img' blockSize value (c.records.filterMap (FsRecord.extentOf streamOid)) where
  holds := fun ext hext => by
    obtain ⟨hoff, hbytes⟩ := h.holds ext hext
    refine ⟨hoff, fun k hk hlt => ?_⟩
    have hheld := hbytes k hk hlt
    split_ifs at hheld ⊢ with hhole
    · exact hheld
    · rw [← hheld]
      exact hkeep _ ⟨streamOid, ext, hext, hhole, Nat.le_add_right _ _, Nat.add_lt_add_left hk _⟩
  covers := h.covers

theorem AttributeHolds.kept {c : Contents} {oid cap : ℕ} {name : Str} {value : Bytes}
    (h : AttributeHolds img blockSize c oid name cap value)
    (hkeep : Keeps (dataSpan blockSize c) img img') :
    AttributeHolds img' blockSize c oid name cap value := by
  cases h with
  | embedded h => exact .embedded h
  | stream h hcap hholds => exact .stream h hcap (hholds.kept hkeep)

/-- A file is kept with the data of the volume. -/
theorem FileOn.kept {host : Host} {c : Contents} {i : Inode} {data : Bytes}
    (h : FileOn host img blockSize c i data) (hkeep : Keeps (dataSpan blockSize c) img img') :
    FileOn host img' blockSize c i data := by
  refine ⟨h.inode, ?_⟩
  cases h.stored with
  | plain hnone hsize hcap hholds => exact .plain hnone hsize hcap (hholds.kept hkeep)
  | compressed hsize hcompressed hheader hfork =>
    exact .compressed hsize hcompressed (hheader.kept hkeep) fun f hf => (hfork f hf).kept hkeep

variable {boot nx : NxSuperblock} {live : ℕ} {mappings : Shape ℕ Entry}

/-- The gate to the ring is kept with the container. -/
theorem ContainerOn.bootstraps_kept (h : ContainerOn img boot nx live mappings)
    (hkeep : Keeps (containerSpan nx live mappings) img img') : Bootstraps img' boot := by
  obtain ⟨b0, hread, hparse⟩ := h.bootstraps.parses
  refine ⟨⟨b0, ?_, hparse⟩, h.bootstraps.noFusion, h.bootstraps.resolvable⟩
  rw [Image.readExact_eq_ok (by decide)] at hread ⊢
  exact slice_of_agree (by decide) hread fun k _ hk => hkeep k (.inl (by omega))

/-- A container is kept with its footprint, as long as its superblock is the live one. -/
theorem ContainerOn.kept (h : ContainerOn img boot nx live mappings)
    (hkeep : Keeps (containerSpan nx live mappings) img img')
    (hlive : IsLive img' nx.blockSize boot.xpDescBase boot.xpDescBlocks nx.xid live) :
    ContainerOn img' boot nx live mappings where
  bootstraps := h.bootstraps_kept hkeep
  blockSize_eq := h.blockSize_eq
  newest := hlive
  superblock := by
    obtain ⟨buf, hblock, hparse⟩ := h.superblock
    exact ⟨buf, hkeep.block h.blockSize_ne (fun _ hi => .inr (.inl hi)) hblock, hparse⟩
  omap := h.omap.kept h.blockSize_ne (hkeep.mono fun _ hi => .inr (.inr (.inl hi)))
  volumes := h.volumes

theorem FirstVolumeOn.kept {v : ApfsVolume} (h : ContainerOn img boot nx live mappings)
    (hv : FirstVolumeOn img nx mappings v)
    (hkeep : Keeps (containerSpan nx live mappings) img img') :
    FirstVolumeOn img' nx mappings v := by
  obtain ⟨oid, hfirst, e, hnewest, buf, hblock, hparse⟩ := hv.first
  exact ⟨oid, hfirst, e, hnewest, buf, hkeep.block h.blockSize_ne
    (fun _ hi => .inr (.inr (.inr ⟨oid, hfirst, e, hnewest, hi⟩))) hblock, hparse⟩

/-- The live superblock is still a candidate. -/
theorem ContainerOn.superblockAt_kept (h : ContainerOn img boot nx live mappings)
    (hkeep : Keeps (containerSpan nx live mappings) img img') :
    SuperblockAt img' nx.blockSize live nx.xid := by
  obtain ⟨buf, hblock, hgates⟩ := h.newest.valid
  exact ⟨buf, hkeep.block h.blockSize_ne (fun _ hi => .inr (.inl hi)) hblock, hgates⟩

/-- A newer superblock of the ring: of a later transaction, or of the same one and in front. -/
def Newer (xid paddr xid' paddr' : ℕ) : Prop :=
  xid < xid' ∨ xid = xid' ∧ paddr' < paddr

/-- The old superblock is the live one, or a newer one is. -/
theorem ContainerOn.live_or_newer (h : ContainerOn img boot nx live mappings)
    (hkeep : Keeps (containerSpan nx live mappings) img img') :
    IsLive img' nx.blockSize boot.xpDescBase boot.xpDescBlocks nx.xid live ∨
      ∃ xid paddr, IsLive img' nx.blockSize boot.xpDescBase boot.xpDescBlocks xid paddr ∧
        Newer nx.xid live xid paddr := by
  have hold := h.superblockAt_kept hkeep
  have hring := h.newest.inRing
  rcases h.bootstraps.resolvable.resolve_cases img' with
    ⟨⟨paddr, xid, ephemeral⟩, -, hlive⟩ | ⟨hnone, -⟩
  · rw [h.blockSize_eq] at hlive
    dsimp only at hlive
    have hxid := hlive.newest live nx.xid hring.1 hring.2 hold
    by_cases hsame : nx.xid = xid ∧ live = paddr
    · obtain ⟨rfl, rfl⟩ := hsame
      exact .inl hlive
    · refine .inr ⟨xid, paddr, hlive, ?_⟩
      rcases hxid.lt_or_eq with hlt | rfl
      · exact .inl hlt
      · have hle := hlive.lowest live hring.1 hring.2 hold
        exact .inr ⟨rfl, lt_of_le_of_ne hle fun heq => hsame ⟨rfl, heq.symm⟩⟩
  · rw [h.blockSize_eq] at hnone
    exact absurd hold (hnone live nx.xid hring.1 hring.2)

end Kept

/-- **The switch to a new state is atomic.** Of an image on which a container with a volume is
mounted, change whatever lies outside the footprint of that state: the same volume is mounted and
its contents are served, files included, or a newer superblock with a valid checksum lies in the
ring and is the one that is opened. -/
theorem switch_is_atomic (host : Host) (img img' : Image) (boot nx : NxSuperblock) (live : ℕ)
    (mappings : Shape ℕ Entry) (v : ApfsVolume) (vmappings tree : Shape ℕ Entry) (c : Contents)
    (hbits : host.usizeBits = 64) (h : ContainerOn img boot nx live mappings)
    (hfirst : FirstVolumeOn img nx mappings v)
    (hv : VolumeOn img v nx.blockSize vmappings tree c)
    (hkeep : Keeps (stateSpan nx live mappings v vmappings tree c) img img') :
    (ApfsFs.open img' = .ok ⟨v, nx.blockSize, v.xid⟩ ∧
      ServesContents ⟨v, nx.blockSize, v.xid⟩ host img' c ∧
      ∀ i data, FileOn host img nx.blockSize c i data → FileOn host img' nx.blockSize c i data) ∨
    ∃ xid paddr, Newer nx.xid live xid paddr ∧
      IsLive img' nx.blockSize boot.xpDescBase boot.xpDescBlocks xid paddr ∧
      ∃ container, ApfsContainer.open img' = .ok container ∧
        container.superblock.xid = xid ∧ container.liveSuperblockPaddr = paddr := by
  have hcontainer : Keeps (containerSpan nx live mappings) img img' :=
    hkeep.mono fun _ hi => .inl hi
  rcases h.live_or_newer hcontainer with hlive | ⟨xid, paddr, hlive, hnewer⟩
  · -- the old state, whole
    have h' := h.kept hcontainer hlive
    have hv' := hv.kept (hkeep.mono fun _ hi => .inr (.inl hi))
    refine .inl ⟨?_, VolumeOn.serves hv' hbits, fun i data hfile =>
      hfile.kept (hkeep.mono fun _ hi => .inr (.inr hi))⟩
    rw [ApfsFs.open, h'.openFirstVolume_eq (hfirst.kept h hcontainer), ok_bind]
  · -- the new one, from its superblock on
    refine .inr ⟨xid, paddr, hnewer, hlive, ?_⟩
    obtain ⟨b0, hread, hparse⟩ := (h.bootstraps_kept hcontainer).parses
    rw [← h.blockSize_eq] at hlive
    rcases h.bootstraps.resolvable.resolve_cases img' with ⟨resolved, hok, hresolved⟩ | ⟨hnone, -⟩
    · obtain ⟨hxid, hpaddr⟩ := hresolved.unique hlive
      obtain ⟨container, hopen, hx, hp⟩ := ApfsContainer.open_of_resolve hread hparse
        h.bootstraps.noFusion (le_trans (by decide) h.bootstraps.resolvable.admitted.1) hok
        hresolved.valid
      exact ⟨container, hopen, hx.trans hxid, hp.trans hpaddr⟩
    · exact absurd hlive.valid (hnone paddr xid hlive.inRing.1 hlive.inRing.2)

/-! The sample container, with everything behind its live state overwritten. -/

/-- The image. -/
def tornImage : Image where
  bytes := keptImage.bytes.take 49152 ++ List.replicate 12288 0xFF
  length_lt := by
    have hle := List.length_take_le 49152 keptImage.bytes
    rw [List.length_append, List.length_replicate]
    omega

/-- A mapping that is one of a list's. -/
private theorem kept_paddr {es : List Entry} {bound : ℕ}
    (h : ∀ e ∈ es.map OmapEntry.ofEntry, e.paddr < bound) {oid xid : ℕ} {e : OmapEntry}
    (he : IsNewest oid xid (es.map OmapEntry.ofEntry) e) : e.paddr < bound :=
  h e he.1

private theorem lt_of_mem_blockSpan {p i : ℕ} (h : i ∈ blockSpan 4096 p) (hp : p < 12) :
    i < 49152 := by
  have hi := h.2
  omega

private theorem lt_of_mem_objectMapSpan {omapOid root i : ℕ} {es : List Entry}
    (h : i ∈ objectMapSpan 4096 omapOid (.leaf root es)) (homap : omapOid < 12)
    (hroot : root < 12) : i < 49152 := by
  rcases h with h | ⟨s, hs, h⟩
  · exact lt_of_mem_blockSpan h homap
  · rw [Shape.isSubtree_leaf] at hs
    rw [hs] at h
    exact lt_of_mem_blockSpan h hroot

private theorem torn_keeps :
    Keeps (stateSpan keptContainer 1 (.leaf 3 keptVolumeMapped) (keptVolume 5 5)
      (.leaf 6 keptNodesMapped) (.leaf 10 (contentsNow.records.map FsRecord.encode)) contentsNow)
      keptImage tornImage := by
  intro i hi
  have hlen := length_keptImage
  have hlt : i < 49152 := by
    rcases hi with (h | h | h | ⟨oid, -, e, he, h⟩) | (h | ⟨s, -, e, he, h⟩) |
      ⟨streamOid, ext, hext, -, -, h⟩
    · exact h.trans (by decide)
    · exact lt_of_mem_blockSpan h (by decide)
    · exact lt_of_mem_objectMapSpan h (by decide) (by decide)
    · exact lt_of_mem_blockSpan h (kept_paddr (by decide) he)
    · exact lt_of_mem_objectMapSpan h (by decide) (by decide)
    · exact lt_of_mem_blockSpan h (kept_paddr (by decide) he)
    · obtain ⟨r, hr, hext⟩ := List.mem_filterMap.mp hext
      rw [contentsNow] at hr
      simp only [List.mem_cons, List.not_mem_nil, or_false] at hr
      rcases hr with rfl | rfl | rfl | rfl
      · cases hext
      · cases hext
      · cases hext
      · rw [FsRecord.extentOf] at hext
        split_ifs at hext
        cases hext
        exact h.trans_le (by decide)
  rw [tornImage, List.getElem?_append_left (by rw [List.length_take]; omega),
    List.getElem?_take_of_lt hlt]

/-- The container is mounted as before, and its file is read. -/
theorem torn_image_mounted :
    ApfsFs.open tornImage = .ok keptFs ∧
      readWindows (keptFs.readBytes sampleHost tornImage (.apfsOid 16 5)) 0 [2, 5] =
        .ok [65, 66, 67] := by
  rcases switch_is_atomic sampleHost keptImage tornImage keptContainer keptContainer 1
    (.leaf 3 keptVolumeMapped) (keptVolume 5 5) (.leaf 6 keptNodesMapped)
    (.leaf 10 (contentsNow.records.map FsRecord.encode)) contentsNow rfl kept_containerOn
    kept_firstVolume kept_now torn_keeps with ⟨hopen, hserves, hfiles⟩ |
      ⟨xid, paddr, hnewer, hlive, -⟩
  · exact ⟨hopen, (hserves.reads sampleFile [65, 66, 67] 5
      (hfiles _ _ kept_fileOn)).sequence 0 [2, 5]⟩
  · -- the ring has one slot, and it is kept
    have hring := hlive.inRing
    rw [show keptContainer.xpDescBase = 1 from rfl,
      show keptContainer.xpDescBlocks = 1 from rfl] at hring
    obtain rfl : paddr = 1 := by omega
    have hkept := kept_containerOn.superblockAt_kept (torn_keeps.mono fun _ hi => .inl hi)
    have hxid := hlive.valid.unique hkept
    rw [hxid] at hnewer
    rcases hnewer with hlt | ⟨-, hlt⟩
    · exact absurd hlt (lt_irrefl _)
    · exact absurd hlt (lt_irrefl _)

end ApfsCore
