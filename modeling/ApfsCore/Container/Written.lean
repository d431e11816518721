import ApfsCore.Container.Gates
import ApfsCore.Container.SuperblockCodec
import ApfsCore.Tree.Written

/-!
# A written container

A container is on an image when block zero leads to the checkpoint ring and the live superblock of
the ring is the container's (`LiveOn`), and its object map has a newest mapping for each of its
volumes (`ContainerOn`). Opening such an image gives the container (`LiveOn.open_eq`), and the
addresses of the volume superblocks are those of the newest mappings
(`ContainerOn.volumeSuperblockAddrs_eq`).
-/

namespace ApfsCore

/-- The superblock `nx`, at the block `live`, is the live one of the image. Block zero holds `boot`,
which need not be live itself; as `open` reads it, its first 4096 bytes pass a checksum of their
own, and its ring fits the address space. -/
structure LiveOn (img : Image) (boot nx : NxSuperblock) (live : ℕ) : Prop where
  bootstraps : Bootstraps img boot
  blockSize_eq : boot.blockSize = nx.blockSize
  newest : IsLive img nx.blockSize boot.xpDescBase boot.xpDescBlocks nx.xid live
  superblock : ∃ buf, img.block nx.blockSize live = some buf ∧ NxSuperblock.parse buf = .ok nx

/-- The container of the live superblock `nx` is on the image, behind a block zero that `open`
accepts (`LiveOn`), and `mappings` is the tree of its object map. -/
structure ContainerOn (img : Image) (boot nx : NxSuperblock) (live : ℕ)
    (mappings : Shape ℕ Entry) : Prop extends LiveOn img boot nx live where
  omap : ObjectMapOn img nx.blockSize nx.omapOid mappings
  volumes : ∀ oid ∈ nx.fsOids, ∃ e,
    IsNewest oid nx.xid (mappings.entries.map OmapEntry.ofEntry) e

/-- A written superblock is one of the candidates of the ring. -/
theorem SuperblockAt.of_encode {img : Image} {blockSize p : ℕ} {nx : NxSuperblock} {u : NxUnread}
    (hblock : img.block blockSize p = some (encodeSuperblock nx u)) (h : nx.Fits u) :
    SuperblockAt img blockSize p nx.xid :=
  ⟨_, hblock, type_encodeSuperblock nx u, readLE_nxFront 4 rfl rfl (by decide),
    checksumValid_stamp _, readLE_nxFront 1 rfl rfl h.xid⟩

section Written

variable {img : Image} {boot nx : NxSuperblock} {live : ℕ} {mappings : Shape ℕ Entry}

theorem LiveOn.admitted (h : LiveOn img boot nx live) :
    nxMinimumBlockSize ≤ nx.blockSize ∧ nx.blockSize ≤ nxMaximumBlockSize := by
  rw [← h.blockSize_eq]
  exact h.bootstraps.resolvable.admitted

theorem LiveOn.blockSize_ne (h : LiveOn img boot nx live) : nx.blockSize ≠ 0 :=
  Nat.ne_of_gt ((by decide : 0 < nxMinimumBlockSize).trans_le h.admitted.1)

/-- The checkpoint ring resolves to the live superblock. -/
theorem LiveOn.resolve_eq (h : LiveOn img boot nx live) :
    ∃ ephemeral, resolveLiveCheckpoint img boot = .ok ⟨live, nx.xid, ephemeral⟩ := by
  have hnewest := h.newest
  rw [← h.blockSize_eq] at hnewest
  rcases h.bootstraps.resolvable.resolve_cases img with
    ⟨⟨paddr, xid, ephemeral⟩, hok, hlive⟩ | ⟨hnone, -⟩
  · obtain ⟨rfl, rfl⟩ := hlive.unique hnewest
    exact ⟨ephemeral, hok⟩
  · exact absurd hnewest.valid (hnone live nx.xid hnewest.inRing.1 hnewest.inRing.2)

/-- **A written container is opened as it was written**, with the mappings of its checkpoint. -/
theorem LiveOn.open_eq_of_resolve (h : LiveOn img boot nx live)
    {ephemeral : List CheckpointMapping}
    (hresolve : resolveLiveCheckpoint img boot = .ok ⟨live, nx.xid, ephemeral⟩) :
    ApfsContainer.open img = .ok ⟨nx, live, ephemeral⟩ := by
  obtain ⟨b0, hread, hparse⟩ := h.bootstraps.parses
  obtain ⟨buf, hbuf, hsuper⟩ := h.superblock
  have hreread : img.readExact (saturatingMul live boot.blockSize) boot.blockSize = .ok buf := by
    rw [h.blockSize_eq, Image.readExact_saturatingMul img h.blockSize_ne, hbuf]
  simp only [ApfsContainer.open, hread, hparse, ok_bind, h.bootstraps.noFusion, hresolve, hreread,
    hsuper, Bool.false_eq_true, if_false]

theorem LiveOn.open_eq (h : LiveOn img boot nx live) :
    ∃ ephemeral, ApfsContainer.open img = .ok ⟨nx, live, ephemeral⟩ := by
  obtain ⟨ephemeral, hresolve⟩ := h.resolve_eq
  exact ⟨ephemeral, h.open_eq_of_resolve hresolve⟩

/-- The superblocks of the volumes lie where the newest mappings of their ids say. -/
theorem ContainerOn.volumeSuperblockAddrs_eq (h : ContainerOn img boot nx live mappings)
    (ephemeral : List CheckpointMapping) :
    ∃ addrs, ApfsContainer.volumeSuperblockAddrs ⟨nx, live, ephemeral⟩ img = .ok addrs ∧
      List.Forall₂ (fun oid addr => ∃ e, IsNewest oid nx.xid
        (mappings.entries.map OmapEntry.ofEntry) e ∧ e.paddr = addr) nx.fsOids addrs := by
  obtain ⟨om, hom, htree⟩ := h.omap.omapTree h.blockSize_ne
  have haddr : ∀ oid ∈ nx.fsOids, ∃ addr, ∃ e,
      IsNewest oid nx.xid (mappings.entries.map OmapEntry.ofEntry) e ∧ e.paddr = addr := by
    intro oid hoid
    obtain ⟨e, he⟩ := h.volumes oid hoid
    exact ⟨e.paddr, e, he, rfl⟩
  choose! addr haddr using haddr
  refine ⟨nx.fsOids.map addr, ?_, ?_⟩
  · simp only [ApfsContainer.volumeSuperblockAddrs, not_not.mpr h.admitted, if_false, hom, ok_bind]
    refine mapM_eq_ok.mpr ?_
    rw [List.forall₂_map_right_iff, List.forall₂_same]
    intro oid hoid
    obtain ⟨e, he, heq⟩ := haddr oid hoid
    rw [htree.resolve_eq_ok_iff.mpr he, ok_bind, heq]
  · rw [List.forall₂_map_right_iff, List.forall₂_same]
    exact haddr

end Written

end ApfsCore
