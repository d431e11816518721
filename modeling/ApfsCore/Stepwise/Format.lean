import ApfsCore.Format.Object
import ApfsCore.General.Panics

/-!
# Field reads and checksums, operation by operation

The functions of `bytes.rs` and `object.rs` once more, with each operation that could panic
explicit: the unchecked sums, differences and divisions, the indexing of arrays, and the copies of
slices. Each is shown to be the plain function: none of its operations leaves its range.

The target has a 64-bit `usize`, so both `usize` and `u64` operations are those of 64 bits.
-/

namespace ApfsCore

/-! ### Runs -/

/-- The outcome of a run, its panics told apart from its errors. -/
abbrev Run (α : Type) := Except (Stop ApfsError) α

/-- How a run of the plain model stops. -/
def Fault.stop : Fault → Stop ApfsError
  | .apfs e => .error e
  | .overflow => .panic .overflow

/-- A run of the plain model. -/
def asRun {α : Type} (x : Result α) : Run α :=
  x.mapError Fault.stop

section AsRun

variable {α β : Type}

@[simp] theorem asRun_ok (a : α) : asRun (.ok a : Result α) = .ok a := rfl

theorem asRun_eq_ok {x : Result α} {a : α} : asRun x = .ok a ↔ x = .ok a := by
  cases x with
  | error f => exact iff_of_false (fun h => by cases h) (fun h => by cases h)
  | ok b => rw [asRun_ok, Except.ok.injEq, Except.ok.injEq]

theorem asRun_map (x : Result α) (f : α → β) : asRun (f <$> x) = f <$> asRun x :=
  mapError_map x f

theorem bind_eq_asRun {x : Run α} {x' : Result α} {f : α → Run β} {f' : α → Result β}
    (hx : x = asRun x') (hf : ∀ a, x' = .ok a → f a = asRun (f' a)) :
    (x >>= f) = asRun (x' >>= f') :=
  bind_eq_mapError hx hf

theorem ite_eq_asRun {c : Prop} [Decidable c] {x y : Run α} {x' y' : Result α}
    (hpos : c → x = asRun x') (hneg : ¬c → y = asRun y') :
    (if c then x else y) = asRun (if c then x' else y') :=
  ite_eq_mapError hpos hneg

/-- A run of the plain model that fails by name does not panic. -/
theorem noPanic_asRun {x : Result α} (h : Named x) : NoPanic (asRun x) := by
  refine NoPanic.mapError fun f hf => ?_
  obtain ⟨e, rfl⟩ := h f hf
  exact ⟨e, rfl⟩

end AsRun

namespace Stepwise

/-! ### Field reads -/

/-- The readers of `bytes.rs`, at the width `w`. -/
def readLE (w : ℕ) (data : Bytes) (offset : ℕ) : Run ℕ := do
  let stop ← uadd 64 offset w
  match slice data offset stop with
  | none => .ok 0
  | some s => do
    let bytes ← copyFrom w s
    .ok (leNat bytes)

/-- `bytes::le_u16`. -/
def leU16 : Bytes → ℕ → Run ℕ := readLE 2

/-- `bytes::le_u32`. -/
def leU32 : Bytes → ℕ → Run ℕ := readLE 4

/-- `bytes::le_u64`. -/
def leU64 : Bytes → ℕ → Run ℕ := readLE 8

section Reads

variable {w : ℕ} {data : Bytes} {offset : ℕ}

theorem readLE_eq (h : offset + w < 2 ^ 64) :
    readLE w data offset = .ok (ApfsCore.readLE w data offset) := by
  rw [readLE, uadd_eq h, ok_bind, ApfsCore.readLE]
  cases hslice : slice data offset (offset + w) with
  | none => rfl
  | some s =>
    have hlen : s.length = w := by
      rw [length_of_slice hslice, Nat.add_sub_cancel_left]
    dsimp only
    rw [copyFrom_eq hlen, ok_bind]

theorem leU16_lt (data : Bytes) (offset : ℕ) : ApfsCore.leU16 data offset < 65536 :=
  readLE_lt 2 data offset

theorem leU32_lt (data : Bytes) (offset : ℕ) : ApfsCore.leU32 data offset < 2 ^ 32 :=
  readLE_lt 4 data offset

theorem leU16_eq (h : offset + 2 < 2 ^ 64) : leU16 data offset = .ok (ApfsCore.leU16 data offset) :=
  readLE_eq h

theorem leU32_eq (h : offset + 4 < 2 ^ 64) : leU32 data offset = .ok (ApfsCore.leU32 data offset) :=
  readLE_eq h

theorem leU64_eq (h : offset + 8 < 2 ^ 64) : leU64 data offset = .ok (ApfsCore.leU64 data offset) :=
  readLE_eq h

end Reads

/-! ### Object headers -/

/-- `ObjPhys::parse`. -/
def ObjPhys.parse (block : Bytes) : Run (Option ObjPhys) :=
  if block.length < objPhysLen then .ok none
  else do
    let cksum ← leU64 block 0
    let oid ← leU64 block 8
    let xid ← leU64 block 16
    let objTypeRaw ← leU32 block 24
    let subtype ← leU32 block 28
    .ok (some { cksum, oid, xid, objTypeRaw, subtype })

theorem ObjPhys.parse_eq (block : Bytes) :
    ObjPhys.parse block = .ok (ApfsCore.ObjPhys.parse block) := by
  rw [ObjPhys.parse, ApfsCore.ObjPhys.parse]
  split_ifs
  · rfl
  · simp (disch := omega) only [leU64_eq, leU32_eq, ok_bind]

/-! ### Checksums -/

/-- `chunks_exact(4)`. -/
def chunksExact4 : Bytes → List Bytes
  | a :: b :: c :: d :: rest => [a, b, c, d] :: chunksExact4 rest
  | _ => []

/-- The word of a chunk, with its bytes taken out one by one. -/
def wordOf (word : Bytes) : Run ℕ := do
  let a ← getAt word 0
  let b ← getAt word 1
  let c ← getAt word 2
  let d ← getAt word 3
  .ok (leNat [a, b, c, d])

/-- The word of chunk number `i` as it is summed. -/
def summedWord (word : Bytes) (i : ℕ) : Run ℕ :=
  if i < 2 then .ok 0 else wordOf word

/-- One round of the loop of `fletcher64_checksum`, over a chunk and its number. -/
def fletcherRound (sums : ℕ × ℕ) (word : Bytes × ℕ) : Run (ℕ × ℕ) := do
  let v ← summedWord word.1 word.2
  let lo ← uadd 64 sums.1 v
  let lo ← urem lo fletcherMod
  let hi ← uadd 64 sums.2 lo
  let hi ← urem hi fletcherMod
  .ok (lo, hi)

/-- `fletcher64_checksum`. -/
def fletcher64Checksum (block : Bytes) : Run ℕ := do
  let (lo, hi) ← (chunksExact4 block).zipIdx.foldlM fletcherRound (0, 0)
  let sum ← uadd 64 lo hi
  let sum ← urem sum fletcherMod
  let checkLo ← usub fletcherMod sum
  let sum ← uadd 64 lo checkLo
  let sum ← urem sum fletcherMod
  let checkHi ← usub fletcherMod sum
  .ok ((checkHi <<< 32) ||| checkLo)

/-- `fletcher64_stored`. -/
def fletcher64Stored (block : Bytes) : Run ℕ :=
  leU64 block 0

theorem fletcher64Stored_eq (block : Bytes) :
    fletcher64Stored block = .ok (ApfsCore.fletcher64Stored block) :=
  leU64_eq (by norm_num)

/-- The words of a block are those of its chunks. -/
private theorem words_eq_map (block : Bytes) : words block = (chunksExact4 block).map leNat := by
  induction block using chunksExact4.induct with
  | case1 a b c d rest ih => rw [chunksExact4, words, ih, List.map_cons]
  | case2 block h =>
    rw [chunksExact4, words, List.map_nil]
    · exact h
    · exact h

/-- A chunk has four bytes, and its word is read without leaving it. -/
private theorem summedWord_eq {block word : Bytes} (h : word ∈ chunksExact4 block) (i : ℕ) :
    summedWord word i = .ok (if i < 2 then 0 else leNat word) ∧
      (if i < 2 then 0 else leNat word) < 2 ^ 32 := by
  induction block using chunksExact4.induct with
  | case1 a b c d rest ih =>
    rw [chunksExact4, List.mem_cons] at h
    rcases h with rfl | h
    · have hlt : leNat [a, b, c, d] < 256 ^ 4 := leNat_lt [a, b, c, d]
      rw [summedWord]
      split_ifs
      · exact ⟨rfl, by norm_num⟩
      · exact ⟨rfl, by omega⟩
    · exact ih h
  | case2 block hshort =>
    rw [chunksExact4] at h
    · exact absurd h List.not_mem_nil
    · exact hshort

/-- The two sums are below the modulus. -/
private def SumsReduced (sums : ℕ × ℕ) : Prop :=
  sums.1 < fletcherMod ∧ sums.2 < fletcherMod

/-- One round, from sums below the modulus. -/
private theorem fletcherRound_eq {block : Bytes} {sums : ℕ × ℕ} {word : Bytes × ℕ}
    (hword : word ∈ (chunksExact4 block).zipIdx) (hsums : SumsReduced sums) :
    fletcherRound sums word =
        .ok (fletcherStep fletcherMod sums (if word.2 < 2 then 0 else leNat word.1)) ∧
      SumsReduced (fletcherStep fletcherMod sums (if word.2 < 2 then 0 else leNat word.1)) := by
  have hmod : fletcherMod = 4294967295 := rfl
  obtain ⟨hlo, hhi⟩ := hsums
  obtain ⟨hv, hle⟩ := summedWord_eq (List.fst_mem_of_mem_zipIdx hword) word.2
  have hlo' := Nat.mod_lt (sums.1 + if word.2 < 2 then 0 else leNat word.1) fletcherMod_pos
  have hne := Nat.ne_of_gt fletcherMod_pos
  refine ⟨?_, hlo', Nat.mod_lt _ fletcherMod_pos⟩
  rw [fletcherRound, hv, ok_bind, uadd_eq (by omega), ok_bind, urem_eq hne, ok_bind,
    uadd_eq (by omega), ok_bind, urem_eq hne, ok_bind]
  rfl

theorem fletcher64Checksum_eq (block : Bytes) :
    fletcher64Checksum block = .ok (ApfsCore.fletcher64Checksum block) := by
  have hmod : fletcherMod = 4294967295 := rfl
  have hne := Nat.ne_of_gt fletcherMod_pos
  have hzero : SumsReduced (0, 0) := ⟨fletcherMod_pos, fletcherMod_pos⟩
  -- the two sums stay below the modulus through the whole loop
  have hfold : (chunksExact4 block).zipIdx.foldlM fletcherRound (0, 0) =
      .ok (fletcherFold fletcherMod (0, 0) (summedWords block)) := by
    rw [foldlM_eq_ok_foldl_of_inv (fun sums word hword => fletcherRound_eq hword) hzero,
      summedWords, words_eq_map, List.zipIdx_map, List.map_map, fletcherFold, List.foldl_map]
    rfl
  obtain ⟨hlo, hhi⟩ := fletcherFold_lt fletcherMod_pos (summedWords block)
  rw [fletcher64Checksum, hfold, ok_bind, ApfsCore.fletcher64Checksum]
  generalize fletcherFold fletcherMod (0, 0) (summedWords block) = sums at hlo hhi ⊢
  obtain ⟨lo, hi⟩ := sums
  dsimp only at hlo hhi ⊢
  have hsum := Nat.mod_lt (lo + hi) fletcherMod_pos
  rw [uadd_eq (by omega), ok_bind, urem_eq hne, ok_bind, usub_eq hsum.le, ok_bind,
    uadd_eq (by omega), ok_bind, urem_eq hne, ok_bind,
    usub_eq (Nat.mod_lt _ fletcherMod_pos).le, ok_bind]
  rfl

/-! ### Verified objects -/

/-- `spaceman::read_obj_block`. -/
def readObjBlock (img : Image) (paddr blockSize : ℕ) : Run Bytes := do
  let buf ← asRun (img.readExact (saturatingMul paddr blockSize) blockSize)
  let stored ← fletcher64Stored buf
  let computed ← fletcher64Checksum buf
  if stored = computed then .ok buf
  else do
    let block ← leU64 buf 8
    asRun (fail (.checksumMismatch block stored computed))

theorem readObjBlock_eq (img : Image) (paddr blockSize : ℕ) :
    readObjBlock img paddr blockSize = asRun (ApfsCore.readObjBlock img paddr blockSize) := by
  refine bind_eq_asRun rfl fun buf _ => ?_
  rw [fletcher64Stored_eq, ok_bind, fletcher64Checksum_eq, ok_bind, leU64_eq (by norm_num), ok_bind]
  exact ite_eq_asRun (fun _ => rfl) fun _ => rfl

end Stepwise

end ApfsCore
