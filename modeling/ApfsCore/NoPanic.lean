import ApfsCore.Container.Superblock
import ApfsCore.Content.Forks
import ApfsCore.Stepwise.Container
import ApfsCore.Stepwise.Decmpfs
import ApfsCore.Stepwise.Navigate

/-!
# No panic on any input

Once a container is open, nothing its bytes say makes an operation of the crate panic. Each
operation, written with its dangerous steps explicit, is the plain one with the errors renamed
(`nodeEntries_eq`, `walkFsTree_eq` and so on), and the plain one only fails by name (`Named`).

The operations are taken over every image, block, blob, key, value, header and fork, and over
every callback; a callback is a function, so it does not panic itself. The decompressors, known
only by what they return, do not panic either, and allocations succeed.
-/

namespace ApfsCore

/-- A buffer the language can hold: no slice has more than `isize::MAX` bytes. -/
def Addressable (data : Bytes) : Prop :=
  data.length < 2 ^ 63

/-- No run of an operation indexes or slices out of range, leaves the range of a type in its
arithmetic, or divides by zero. -/
structure NeverPanics (host : Host) (blockSize : ℕ) : Prop where
  nodeEntries : ∀ block subtype, Addressable block →
    NoPanic (Stepwise.nodeEntries block subtype)
  findLeaf : ∀ {σ : Type} img rootPaddr subtype (cmp : Bytes → Ordering) (visit : σ → Entry → σ) s,
    NoPanic (Stepwise.findLeaf img rootPaddr blockSize subtype (fun key => .ok (cmp key))
      (fun s e => .ok (visit s e)) s)
  forEachLeafEntry : ∀ {σ : Type} img rootPaddr subtype (visit : σ → Entry → σ) s,
    NoPanic (Stepwise.forEachLeafEntry img rootPaddr blockSize subtype
      (fun s e => .ok (visit s e)) s)
  walkFsTree : ∀ {σ : Type} img v target (visit : σ → Entry → σ) s,
    NoPanic (Stepwise.walkFsTree img v blockSize target (fun s e => .ok (visit s e)) s)
  listDir : ∀ img v parentOid, NoPanic (Stepwise.listDir img v parentOid blockSize)
  lookupChild : ∀ img v parentOid name,
    NoPanic (Stepwise.lookupChild img v parentOid name blockSize)
  loadInode : ∀ img v oid, NoPanic (Stepwise.loadInode img v oid blockSize)
  listXattrs : ∀ img v inodeOid, NoPanic (Stepwise.listXattrs img v inodeOid blockSize)
  listExtents : ∀ img v streamOid, NoPanic (Stepwise.listExtents img v streamOid blockSize)
  readStream : ∀ img v streamOid logicalSize,
    NoPanic (Stepwise.readStream host img v streamOid logicalSize blockSize)
  parseXfields : ∀ data, NoPanic (Stepwise.parseXfields data)
  inodeParse : ∀ oid value, NoPanic (Stepwise.Inode.parse oid value)
  decompressDecmpfs : ∀ header resourceFork, (∀ fork ∈ resourceFork, Addressable fork) →
    NoPanic (Stepwise.decompressDecmpfs host header resourceFork)
  isBlockFree : ∀ img spacemanPaddr block,
    NoPanic (Stepwise.isBlockFree img spacemanPaddr block blockSize)
  pendingObjects : ∀ img reaperPaddr mappings,
    NoPanic (Stepwise.pendingObjects img reaperPaddr mappings blockSize)
  readKeybag : ∀ data, Addressable data → NoPanic (Stepwise.readKeybag data)

/-- An operation that is a run of the plain model, and fails by name there, does not panic. -/
private theorem noPanic_of_eq {α : Type} {x : Run α} {x' : Result α} (h : x = asRun x')
    (hx' : Named x') : NoPanic x := by
  rw [h]
  exact noPanic_asRun hx'

private theorem noPanic_of_eq_ok {α : Type} {x : Run α} {a : α} (h : x = .ok a) : NoPanic x :=
  noPanic_of_eq (h.trans (asRun_ok a).symm) (.ok a)

/-- **No operation panics**, whatever the bytes are: on a 64-bit target, with the block size of
an open container. -/
theorem operations_never_panic {host : Host} {blockSize : ℕ} (hbits : host.usizeBits = 64)
    (hmin : nxMinimumBlockSize ≤ blockSize) (hmax : blockSize ≤ nxMaximumBlockSize) :
    NeverPanics host blockSize := by
  have hpos : blockSize ≠ 0 := Nat.ne_of_gt ((by decide : 0 < nxMinimumBlockSize).trans_le hmin)
  have hsize : blockSize < 2 ^ 63 := hmax.trans_lt (by decide)
  have hwalk : ∀ img v target, Named (walkFsTree img v blockSize target) := fun img v target =>
    named_walkFsTree img v blockSize target
  exact
    { nodeEntries := fun block subtype hblock =>
        noPanic_of_eq_ok (Stepwise.nodeEntries_eq hblock subtype)
      findLeaf := fun img rootPaddr subtype cmp visit s =>
        noPanic_of_eq (Stepwise.findLeaf_eq hsize (fun _ => rfl) (fun _ _ => rfl) s)
          ((named_findLeaf img rootPaddr blockSize subtype cmp).map _)
      forEachLeafEntry := fun img rootPaddr subtype visit s =>
        noPanic_of_eq (Stepwise.forEachLeafEntry_eq hsize (fun _ _ => rfl) s)
          ((named_forEachLeafEntry img rootPaddr blockSize subtype).map _)
      walkFsTree := fun img v target visit s =>
        noPanic_of_eq (Stepwise.walkFsTree_eq hsize (fun _ _ => rfl) target s)
          ((hwalk img v target).map _)
      listDir := fun img v parentOid =>
        noPanic_of_eq (Stepwise.listDir_eq hsize parentOid) ((hwalk img v _).map _)
      lookupChild := fun img v parentOid name =>
        noPanic_of_eq (Stepwise.lookupChild_eq hsize parentOid name) ((hwalk img v _).map _)
      loadInode := fun img v oid =>
        noPanic_of_eq (Stepwise.loadInode_eq hsize oid) (named_loadInode img v blockSize oid)
      listXattrs := fun img v inodeOid =>
        noPanic_of_eq (Stepwise.listXattrs_eq hsize inodeOid) ((hwalk img v _).map _)
      listExtents := fun img v streamOid =>
        noPanic_of_eq (Stepwise.listExtents_eq hsize streamOid)
          (named_listExtents img v blockSize streamOid)
      readStream := fun img v streamOid logicalSize =>
        noPanic_of_eq (Stepwise.readStream_eq hpos hsize streamOid logicalSize)
          (named_readStream img v blockSize host streamOid logicalSize)
      parseXfields := fun data => noPanic_of_eq_ok (Stepwise.parseXfields_eq data)
      inodeParse := fun oid value => noPanic_of_eq (Stepwise.Inode.parse_eq oid value) (.ok _)
      decompressDecmpfs := fun header resourceFork hfork =>
        noPanic_of_eq (Stepwise.decompressDecmpfs_eq hbits header hfork)
          (named_decompressDecmpfs host header resourceFork)
      isBlockFree := fun img spacemanPaddr block =>
        noPanic_of_eq (Stepwise.isBlockFree_eq img spacemanPaddr block blockSize)
          (named_isBlockFree img spacemanPaddr block blockSize)
      pendingObjects := fun img reaperPaddr mappings =>
        noPanic_of_eq (Stepwise.pendingObjects_eq img reaperPaddr mappings blockSize)
          (named_pendingObjects img reaperPaddr mappings blockSize)
      readKeybag := fun data hdata => noPanic_of_eq (Stepwise.readKeybag_eq hdata) (.ok _) }

/-- With blocks of 4096 bytes. -/
theorem sample_host_never_panics : NeverPanics sampleHost 4096 :=
  operations_never_panic rfl (by decide) (by decide)

end ApfsCore
