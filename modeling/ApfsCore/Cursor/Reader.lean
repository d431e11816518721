import ApfsCore.General.Program
import ApfsCore.Volume.Navigate

/-!
# Reading through a cursor

The crate is generic over a `Read + Seek` source that every operation borrows mutably. Such a
source has a position, which operations leave wherever they stopped, and which is unspecified after
a read that failed. Here the source is a device with a position for its state (`reader`), and the
operations are programs that seek and read; the model elsewhere knows only the image.

Every read of the crate follows a seek to an absolute position, so the position an operation finds
does not matter: from any position, each operation comes to what the plain one does
(`answers_walkFsTree` and so on).
-/

namespace ApfsCore

namespace Cursor

/-- What is asked of the source. -/
inductive Command where
  | seek (offset : ℕ)
  | readExact (len : ℕ)

/-- What the source replies. -/
inductive Reply where
  | done
  | data (bytes : Bytes)
  | eof

/-- The source of an image, at a position. A read that fails leaves it anywhere. -/
inductive reader (img : Image) : Device ℕ Command Reply
  | seek (pos offset : ℕ) : reader img pos (.seek offset) .done offset
  | nothing (pos : ℕ) : reader img pos (.readExact 0) (.data []) pos
  | data {pos len : ℕ} {bytes : Bytes} (hlen : len ≠ 0)
      (h : slice img.bytes pos (pos + len) = some bytes) :
      reader img pos (.readExact len) (.data bytes) (pos + len)
  | eof {pos len : ℕ} (pos' : ℕ) (hlen : len ≠ 0)
      (h : slice img.bytes pos (pos + len) = none) : reader img pos (.readExact len) .eof pos'

/-- An operation over the source. -/
abbrev Action (α : Type) :=
  Program Command Reply Fault α

/-- The operation comes to the outcome, whatever position it finds. -/
abbrev Answers (img : Image) {α : Type} (p : Action α) (x : Result α) : Prop :=
  Program.Answers (reader img) p x

/-- `reader.seek(SeekFrom::Start(offset))?`. -/
def seek (offset : ℕ) : Action Unit := do
  match ← Program.perform (.seek offset) with
  | .done => Program.lift (.ok ())
  | _ => Program.lift (fail .io)

/-- `reader.read_exact(&mut buf)?` for a buffer of `len` bytes. -/
def readExact (len : ℕ) : Action Bytes := do
  match ← Program.perform (.readExact len) with
  | .data bytes => Program.lift (.ok bytes)
  | _ => Program.lift (fail .io)

/-- A seek and a read. -/
def readAt (offset len : ℕ) : Action Bytes := do
  seek offset
  readExact len

/-- What is read after a seek does not depend on the position before it. -/
theorem answers_readAt (img : Image) (offset len : ℕ) :
    Answers img (readAt offset len) (img.readExact offset len) := by
  intro pos
  refine ⟨⟨.done, offset, .seek pos offset⟩, fun r pos' h => ?_⟩
  cases h
  rw [Image.readExact]
  by_cases hlen : len = 0
  · subst hlen
    rw [if_pos rfl]
    refine ⟨⟨.data [], offset, .nothing offset⟩, fun r pos' h => ?_⟩
    cases h with
    | nothing => rfl
    | data hlen => exact absurd rfl hlen
    | eof _ hlen => exact absurd rfl hlen
  · rw [if_neg hlen]
    cases hslice : slice img.bytes offset (offset + len) with
    | none =>
      refine ⟨⟨.eof, 0, .eof 0 hlen hslice⟩, fun r pos' h => ?_⟩
      cases h with
      | nothing => exact absurd rfl hlen
      | data _ h =>
        rw [hslice] at h
        cases h
      | eof => rfl
    | some bytes =>
      refine ⟨⟨.data bytes, offset + len, .data hlen hslice⟩, fun r pos' h => ?_⟩
      cases h with
      | nothing => exact absurd rfl hlen
      | data _ h =>
        rw [hslice] at h
        cases h
        rfl
      | eof _ _ h =>
        rw [hslice] at h
        cases h

/-! ### Trees -/

section Trees

variable {img : Image}

/-- `read_verified_node`. -/
def readVerifiedNode (paddr blockSize : ℕ) : Action (Option Bytes) :=
  match checkedMul paddr blockSize with
  | none => Program.lift (.ok none)
  | some offset => do
    let buf ← readAt offset blockSize
    some <$> Program.lift (verified paddr buf)

/-- The node of a physically stored tree at a block number. -/
def fetchNode (blockSize : ℕ) (subtype : BTreeSubtype) (paddr : ℕ) : Action (Node Entry) := do
  match ← readVerifiedNode paddr blockSize with
  | none => Program.lift (.ok (.leaf []))
  | some buf => Program.lift (.ok (nodeOf buf subtype))

/-- `for_each_leaf_entry`. -/
def forEachLeafEntry (rootPaddr blockSize : ℕ) (subtype : BTreeSubtype) : Action (List Entry) :=
  Prod.snd <$> Program.walk (fetchNode blockSize subtype) (List.map Entry.child) id btreeCycle
    maxBtreeDepth [] rootPaddr

/-- `find_leaf`. -/
def findLeaf (rootPaddr blockSize : ℕ) (subtype : BTreeSubtype) (cmp : Bytes → Ordering) :
    Action (List Entry) :=
  Program.follow (fetchNode blockSize subtype) (floorChild Entry.child fun e => cmp e.key == .gt)
    btreeCycle maxBtreeDepth [] rootPaddr

theorem answers_fetchNode (blockSize : ℕ) (subtype : BTreeSubtype) (paddr : ℕ) :
    Answers img (fetchNode blockSize subtype paddr)
      (ApfsCore.fetchNode img blockSize subtype paddr) := by
  refine .bind ?_ fun read _ => ?_
  · rw [readVerifiedNode, ApfsCore.readVerifiedNode]
    cases checkedMul paddr blockSize with
    | none => exact .done _
    | some offset =>
      exact (answers_readAt img offset blockSize).bind fun buf _ => (.map (.done _) _)
  · cases read <;> exact .done _

theorem answers_findLeaf (rootPaddr blockSize : ℕ) (subtype : BTreeSubtype)
    (cmp : Bytes → Ordering) :
    Answers img (findLeaf rootPaddr blockSize subtype cmp)
      (ApfsCore.findLeaf img rootPaddr blockSize subtype cmp) :=
  Program.answers_follow (answers_fetchNode blockSize subtype) _ _ _ _ _

/-! ### The object map -/

/-- Read the object map header. -/
def readObjectMap (omapOid blockSize : ℕ) : Action ObjectMap := do
  let buf ← readAt (saturatingMul omapOid blockSize) blockSize
  Program.lift (ObjectMap.parse buf)

/-- `ObjectMap::resolve`. -/
def resolve (om : ObjectMap) (oid xid blockSize : ℕ) : Action OmapEntry := do
  let es ← findLeaf om.treeOid blockSize .omap (omapCmp oid xid)
  match es.foldl (omapVisit oid xid) none with
  | some e => Program.lift (.ok e)
  | none => Program.lift (fail (.omapUnresolved oid xid))

theorem answers_readObjectMap (omapOid blockSize : ℕ) :
    Answers img (readObjectMap omapOid blockSize)
      (ApfsCore.readObjectMap img omapOid blockSize) :=
  (answers_readAt img _ _).bind fun _ _ => .done _

theorem answers_resolve (om : ObjectMap) (oid xid blockSize : ℕ) :
    Answers img (resolve om oid xid blockSize) (om.resolve img oid xid blockSize) := by
  refine (answers_findLeaf _ _ _ _).bind fun es _ => ?_
  cases es.foldl (omapVisit oid xid) none <;> exact .done _

/-! ### The file-system tree -/

/-- The node a virtual id names at a transaction. -/
def fetchVirtual (omap : ObjectMap) (xid blockSize oid : ℕ) : Action (Node Entry) := do
  let entry ← resolve omap oid xid blockSize
  let buf ← readAt (saturatingMul entry.paddr blockSize) blockSize
  let buf ← Program.lift (verified entry.paddr buf)
  Program.lift (.ok (nodeOf buf .fsTree))

/-- `walk_fs_tree`. -/
def walkFsTree (v : ApfsVolume) (blockSize : ℕ) (target : Option ℕ) : Action (List Entry) := do
  let omap ← readObjectMap v.omapOid blockSize
  Prod.snd <$> Program.walk (fetchVirtual omap v.xid blockSize) (keptChildren target) id
    fstreeCycle maxFstreeDepth [] v.rootTreeOid

/-- `for_each_fs_record_for_oid`. -/
def forEachFsRecordForOid (v : ApfsVolume) (blockSize targetOid : ℕ) : Action (List Entry) :=
  walkFsTree v blockSize (some targetOid)

theorem answers_fetchVirtual (omap : ObjectMap) (xid blockSize oid : ℕ) :
    Answers img (fetchVirtual omap xid blockSize oid)
      (ApfsCore.fetchVirtual img omap xid blockSize oid) := by
  refine (answers_resolve omap oid xid blockSize).bind fun entry _ => ?_
  rw [readVerifiedBlock, bind_assoc]
  refine (answers_readAt img _ _).bind fun buf _ => ?_
  exact (Program.Answers.done _).bind fun buf _ => .done _

theorem answers_walkFsTree (v : ApfsVolume) (blockSize : ℕ) (target : Option ℕ) :
    Answers img (walkFsTree v blockSize target)
      (ApfsCore.walkFsTree img v blockSize target) :=
  (answers_readObjectMap _ _).bind fun omap _ =>
    (Program.answers_walk (answers_fetchVirtual omap v.xid blockSize) _ _ _ _ _ _).map _

end Trees

end Cursor

end ApfsCore
