import ApfsCore.Format.Object
import ApfsCore.General.FloorSearch

/-!
# B-tree nodes and walks

`btree.rs`. A node is one block: a header, a table of contents (TOC), keys addressed forward
from the end of the TOC, and values addressed backward from the footer (on a root) or from
the end of the node. `nodeEntries` decodes it; an entry that leaves the node is skipped and a
TOC slot that leaves the TOC ends the scan.

The tree walks are instances of the generic ones: `descend` and `forEachLeafEntry` of the
guarded walk, `findLeaf` of the floor search, both over `fetchNode`, which reads a node by
its block number and verifies its checksum before decoding anything. The `visit` callback of
the source is modelled by the list of entries it is called on, in order; a caller's closure
is a fold over that list.
-/

namespace ApfsCore

/-! ### Node layout -/

/-- `MAX_BTN_NKEYS`. -/
def maxBtnNkeys : ℕ := 2 ^ 20

/-- The B-tree subtype. -/
inductive BTreeSubtype where
  | omap
  | fsTree
  deriving DecidableEq

/-- `BTreeSubtype::fixed_key_len`. -/
def BTreeSubtype.fixedKeyLen : BTreeSubtype → ℕ
  | .omap => 16
  | .fsTree => 0

/-- `BTreeSubtype::fixed_leaf_val_len`. -/
def BTreeSubtype.fixedLeafValLen : BTreeSubtype → ℕ
  | .omap => 16
  | .fsTree => 0

/-- `BTreeSubtype::fixed_branch_val_len`. -/
def BTreeSubtype.fixedBranchValLen : BTreeSubtype → ℕ
  | .omap => 8
  | .fsTree => 8

/-- A parsed node header. -/
structure BTreeNodeHeader where
  flags : ℕ
  level : ℕ
  nkeys : ℕ

/-- `BTreeNodeHeader::is_leaf`. -/
def BTreeNodeHeader.isLeaf (h : BTreeNodeHeader) : Bool :=
  h.flags &&& 0x2 != 0 || h.level == 0

/-- `BTreeNodeHeader::is_root`. -/
def BTreeNodeHeader.isRoot (h : BTreeNodeHeader) : Bool :=
  h.flags &&& 0x1 != 0

/-- `BTreeNodeHeader::is_fixed_kv`. -/
def BTreeNodeHeader.isFixedKv (h : BTreeNodeHeader) : Bool :=
  h.flags &&& 0x4 != 0

/-- `parse_node_header`. -/
def parseNodeHeader (block : Bytes) : Option BTreeNodeHeader :=
  if block.length < 56 then none
  else some { flags := leU16 block 32, level := leU16 block 34, nkeys := leU32 block 36 }

/-- A key/value pair of a node. -/
structure Entry where
  key : Bytes
  value : Bytes
  deriving DecidableEq, Repr

/-- What a TOC slot leads to: the end of the scan, a skipped entry, or an entry. -/
inductive TocSlot where
  | stop
  | skip
  | entry (e : Entry)

/-- The geometry of a node, computed once before its TOC is scanned. -/
structure NodeLayout where
  tocStart : ℕ
  keyArea : ℕ
  valBase : ℕ
  fixed : Bool
  keyLen : ℕ
  valLen : ℕ

/-- The length of a TOC slot: `kvoff_t` or `kvloc_t`. -/
def NodeLayout.entryLen (l : NodeLayout) : ℕ :=
  if l.fixed then 4 else 8

/-- The geometry `node_entries` derives from the header. -/
def nodeLayout (block : Bytes) (subtype : BTreeSubtype) (hdr : BTreeNodeHeader) : NodeLayout :=
  let tocStart := 56 + leU16 block 40
  { tocStart := tocStart
    keyArea := tocStart + leU16 block 42
    valBase := if hdr.isRoot then block.length - 40 else block.length
    fixed := hdr.isFixedKv
    keyLen := subtype.fixedKeyLen
    valLen := if hdr.isLeaf then subtype.fixedLeafValLen else subtype.fixedBranchValLen }

/-- Decode TOC slot `i`. -/
def tocSlot (block : Bytes) (l : NodeLayout) (i : ℕ) : TocSlot :=
  let e := l.tocStart + i * l.entryLen
  if e + l.entryLen > l.keyArea ∨ e + l.entryLen > block.length then .stop
  else
    let koff := leU16 block e
    let voff := if l.fixed then leU16 block (e + 2) else leU16 block (e + 4)
    let keyLen := if l.fixed then l.keyLen else leU16 block (e + 2)
    let valLen := if l.fixed then l.valLen else leU16 block (e + 6)
    let kstart := l.keyArea + koff
    if l.valBase < voff then .skip
    else
      let vstart := l.valBase - voff
      match slice block kstart (kstart + keyLen), slice block vstart (vstart + valLen) with
      | some key, some value => .entry ⟨key, value⟩
      | _, _ => .skip

/-- Scan `n` TOC slots from slot `i` on. -/
def tocEntries (slot : ℕ → TocSlot) : ℕ → ℕ → List Entry
  | 0, _ => []
  | n + 1, i =>
    match slot i with
    | .stop => []
    | .skip => tocEntries slot n (i + 1)
    | .entry e => e :: tocEntries slot n (i + 1)

/-- `node_entries`. -/
def nodeEntries (block : Bytes) (subtype : BTreeSubtype) : List Entry :=
  match parseNodeHeader block with
  | none => []
  | some hdr =>
    tocEntries (tocSlot block (nodeLayout block subtype hdr)) (min hdr.nkeys maxBtnNkeys) 0

/-- A verified block as a node of a tree walk. A block too short for a header is passed over
as a leaf without entries. -/
def nodeOf (block : Bytes) (subtype : BTreeSubtype) : Node Entry :=
  match parseNodeHeader block with
  | none => .leaf []
  | some hdr =>
    if hdr.isLeaf then .leaf (nodeEntries block subtype) else .index (nodeEntries block subtype)

/-- The child an index entry points to: the first eight bytes of its value. -/
def Entry.child (e : Entry) : ℕ :=
  leU64 e.value 0

/-! ### Writing nodes -/

/-- The TOC of a list of entries whose keys are stored in order from offset `koff` on, and
whose values are stored backwards from offset `voff` on. -/
def encodeToc (fixed : Bool) : ℕ → ℕ → List Entry → Bytes
  | _, _, [] => []
  | koff, voff, e :: es =>
    let voff' := voff + e.value.length
    let slot :=
      if fixed then leBytes 2 koff ++ leBytes 2 voff'
      else leBytes 2 koff ++ leBytes 2 e.key.length ++ leBytes 2 voff' ++
        leBytes 2 e.value.length
    slot ++ encodeToc fixed (koff + e.key.length) voff' es

/-- A sealed node block with the given flags, level and entries, packed from both ends. -/
def encodeNode (flags level : ℕ) (es : List Entry) (blockSize : ℕ) : Bytes :=
  let toc := encodeToc (flags &&& 0x4 != 0) 0 0 es
  let keys := es.flatMap Entry.key
  let values := es.reverse.flatMap Entry.value
  let footer := if flags &&& 0x1 != 0 then 40 else 0
  stamp (List.replicate 24 0 ++ leBytes 2 flags ++ leBytes 2 level ++ leBytes 4 es.length ++
    leBytes 2 0 ++ leBytes 2 toc.length ++ List.replicate 12 0 ++ toc ++ keys ++
    List.replicate (blockSize - 56 - toc.length - keys.length - values.length - footer) 0 ++
    values ++ List.replicate footer 0)

/-- A node whose entries fit its block fills it. -/
theorem length_encodeNode {flags level blockSize : ℕ} {es : List Entry}
    (hfit : 56 + (encodeToc (flags &&& 0x4 != 0) 0 0 es).length + (es.flatMap Entry.key).length +
      (es.reverse.flatMap Entry.value).length + (if flags &&& 0x1 != 0 then 40 else 0) ≤
        blockSize) :
    (encodeNode flags level es blockSize).length = blockSize := by
  simp only [encodeNode, length_stamp, List.length_append, List.length_replicate, length_leBytes]
  omega

/-! ### Reading nodes -/

/-- `MAX_BTREE_DEPTH`. -/
def maxBtreeDepth : ℕ := 64

/-- Pass a block on if its checksum validates; otherwise report the mismatch, naming the
object by its header or, failing that, by the block read. -/
def verified (paddr : ℕ) (buf : Bytes) : Result Bytes :=
  if ChecksumValid buf then .ok buf
  else
    fail (.checksumMismatch ((ObjPhys.parse buf).elim paddr ObjPhys.oid) (fletcher64Stored buf)
      (fletcher64Checksum buf))

/-- `read_verified_node`. `none` stands for a block address whose byte offset overflows. -/
def readVerifiedNode (img : Image) (paddr blockSize : ℕ) : Result (Option Bytes) :=
  match checkedMul paddr blockSize with
  | none => .ok none
  | some offset => do
    let buf ← img.readExact offset blockSize
    some <$> verified paddr buf

/-- The node of a physically stored tree at a block number. -/
def fetchNode (img : Image) (blockSize : ℕ) (subtype : BTreeSubtype) (paddr : ℕ) :
    Result (Node Entry) := do
  match ← readVerifiedNode img paddr blockSize with
  | none => .ok (.leaf [])
  | some buf => .ok (nodeOf buf subtype)

/-- A node fetched at a block number whose byte offset does not overflow was read from the
image. -/
theorem exists_buf_of_fetchNode {img : Image} {blockSize paddr : ℕ} {subtype : BTreeSubtype}
    {node : Node Entry} (h : fetchNode img blockSize subtype paddr = .ok node)
    (hoff : paddr * blockSize < 2 ^ 64) :
    ∃ buf, readVerifiedNode img paddr blockSize = .ok (some buf) := by
  obtain ⟨read, hread, -⟩ := bind_eq_ok.mp h
  cases read with
  | some buf => exact ⟨buf, hread⟩
  | none =>
    simp only [readVerifiedNode, checkedMul, if_pos hoff] at hread
    obtain ⟨buf, -, hbuf⟩ := bind_eq_ok.mp hread
    obtain ⟨buf', -, hnone⟩ := map_eq_ok.mp hbuf
    cases hnone

/-- A verified block is fetched as the node it holds. -/
theorem fetchNode_of_verified {img : Image} {blockSize paddr : ℕ} {buf : Bytes}
    (hbs : blockSize ≠ 0) (h : BlockVerified img blockSize paddr buf) (subtype : BTreeSubtype) :
    fetchNode img blockSize subtype paddr = .ok (nodeOf buf subtype) := by
  have hoff : paddr * blockSize < 2 ^ 64 := by
    by_contra hle
    rw [BlockVerified, Image.block_eq_none_of_le (Nat.not_lt.mp hle)] at h
    cases h.1
  simp only [fetchNode, readVerifiedNode, checkedMul, if_pos hoff]
  rw [← saturatingMul_of_lt hoff, Image.readExact_saturatingMul img hbs, h.1]
  simp only [ok_bind, verified, if_pos h.2, map_ok]

theorem named_verified (paddr : ℕ) (buf : Bytes) : Named (verified paddr buf) :=
  .ite (.ok buf) (named_fail _)

theorem named_fetchNode (img : Image) (blockSize : ℕ) (subtype : BTreeSubtype) (paddr : ℕ) :
    Named (fetchNode img blockSize subtype paddr) := by
  have hread : Named (readVerifiedNode img paddr blockSize) := by
    rw [readVerifiedNode]
    cases checkedMul paddr blockSize with
    | none => exact .ok none
    | some offset =>
      exact (img.named_readExact _ _).bind fun buf _ => (named_verified paddr buf).map _
  refine hread.bind fun read _ => ?_
  cases read with
  | none => exact .ok _
  | some buf => exact .ok _

/-! ### Walks -/

/-- The error of both walk guards. -/
def btreeCycle : Fault := .apfs (.cycleGuard maxBtreeDepth)

/-- `descend`, at the given depth and with the given blocks visited: the blocks visited when
it returns, and the entries `visit` was called on. -/
def descend (img : Image) (paddr blockSize : ℕ) (subtype : BTreeSubtype) (depth : ℕ)
    (visited : List ℕ) : Result (List ℕ × List Entry) :=
  walk (fetchNode img blockSize subtype) (List.map Entry.child) id btreeCycle
    (maxBtreeDepth - depth) visited paddr

/-- `for_each_leaf_entry`: the entries `visit` is called on, in order. -/
def forEachLeafEntry (img : Image) (rootPaddr blockSize : ℕ) (subtype : BTreeSubtype) :
    Result (List Entry) :=
  Prod.snd <$> descend img rootPaddr blockSize subtype 0 []

/-- `find_leaf`, where `cmp` orders a key against the target: the entries of the one leaf
`visit` is called on. -/
def findLeaf (img : Image) (rootPaddr blockSize : ℕ) (subtype : BTreeSubtype)
    (cmp : Bytes → Ordering) : Result (List Entry) :=
  follow (fetchNode img blockSize subtype) (floorChild Entry.child fun e => cmp e.key == .gt)
    btreeCycle maxBtreeDepth [] rootPaddr

theorem named_forEachLeafEntry (img : Image) (rootPaddr blockSize : ℕ)
    (subtype : BTreeSubtype) : Named (forEachLeafEntry img rootPaddr blockSize subtype) :=
  (walk_errorsIn ⟨_, rfl⟩ (named_fetchNode img blockSize subtype) _ _ _).map _

theorem named_findLeaf (img : Image) (rootPaddr blockSize : ℕ) (subtype : BTreeSubtype)
    (cmp : Bytes → Ordering) : Named (findLeaf img rootPaddr blockSize subtype cmp) :=
  follow_errorsIn ⟨_, rfl⟩ (named_fetchNode img blockSize subtype) _ _ _

/-- The recursion of `descend`, as the source writes it. -/
theorem descend_eq (img : Image) (paddr blockSize : ℕ) (subtype : BTreeSubtype) (depth : ℕ)
    (visited : List ℕ) :
    descend img paddr blockSize subtype depth visited =
      if depth ≥ maxBtreeDepth then fail (.cycleGuard maxBtreeDepth)
      else if paddr ∈ visited then fail (.cycleGuard maxBtreeDepth)
      else fetchNode img blockSize subtype paddr >>= fun node =>
        match node with
        | .leaf es => .ok (paddr :: visited, es)
        | .index es =>
          walkList (fun visited child => descend img child blockSize subtype (depth + 1) visited)
            (paddr :: visited) (es.map Entry.child) := by
  rw [descend, walk_at_depth]
  refine if_congr Iff.rfl rfl (if_congr Iff.rfl rfl ?_)
  congr 1
  funext node
  cases node <;> rfl

/-- The leaf entries of a physically stored tree are those its unfolding meets, provided no
block is met twice. -/
theorem forEachLeafEntry_eq_ok_iff {img : Image} {rootPaddr blockSize : ℕ}
    {subtype : BTreeSubtype} {rs : List Entry} :
    forEachLeafEntry img rootPaddr blockSize subtype = .ok rs ↔
      ∃ as, explore (fetchNode img blockSize subtype) (List.map Entry.child) btreeCycle
        maxBtreeDepth rootPaddr = .ok (as, rs) ∧ as.Nodup := by
  rw [forEachLeafEntry, descend]
  rw [walk_snd_eq_ok_iff]
  simp only [List.map_id]
  rfl

end ApfsCore
