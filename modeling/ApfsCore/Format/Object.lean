import ApfsCore.Format.Reader
import ApfsCore.General.FletcherSum

/-!
# Object headers and the Fletcher-64 checksum

`object.rs`: the 32-byte `obj_phys_t` header and the checksum that guards every object. The
checksum reads the block as little-endian 32-bit words (a trailing partial word is ignored),
takes the first two words, where the checksum itself is stored, as zero, and folds the
double sum modulo `2 ^ 32 - 1` into two check words.

`checksum_eq_iff` reduces equality of checksums to equality of the double sums, and
`checksum_take_eq_iff` says exactly when a truncated block has the checksum of the whole
one.
-/

namespace ApfsCore

/-! ### The header -/

/-- `OBJ_PHYS_LEN`. -/
def objPhysLen : ℕ := 32

/-- A parsed object header. -/
structure ObjPhys where
  cksum : ℕ
  oid : ℕ
  xid : ℕ
  objTypeRaw : ℕ
  subtype : ℕ

/-- `ObjPhys::parse`. -/
def ObjPhys.parse (block : Bytes) : Option ObjPhys :=
  if block.length < objPhysLen then none
  else some
    { cksum := leU64 block 0
      oid := leU64 block 8
      xid := leU64 block 16
      objTypeRaw := leU32 block 24
      subtype := leU32 block 28 }

/-- `ObjPhys::obj_type`: the type code without the storage flags. -/
def ObjPhys.objType (h : ObjPhys) : ℕ :=
  h.objTypeRaw &&& 0xffff

/-! ### The checksum -/

/-- The modulus of the checksum. -/
def fletcherMod : ℕ := 0xffffffff

/-- `fletcher64_stored`: the checksum field of an object. -/
def fletcher64Stored (block : Bytes) : ℕ :=
  leU64 block 0

/-- `chunks_exact(4)`, each chunk as a little-endian word. -/
def words : Bytes → List ℕ
  | a :: b :: c :: d :: rest => leNat [a, b, c, d] :: words rest
  | _ => []

/-- The words the checksum sums: the first two are taken as zero. -/
def summedWords (block : Bytes) : List ℕ :=
  (words block).zipIdx.map fun wi => if wi.2 < 2 then 0 else wi.1

/-- `fletcher64_checksum`. -/
def fletcher64Checksum (block : Bytes) : ℕ :=
  let check := fletcherCheck fletcherMod (fletcherFold fletcherMod (0, 0) (summedWords block))
  (check.2 <<< 32) ||| check.1

/-- The stored checksum of a block is the computed one. -/
def ChecksumValid (block : Bytes) : Prop :=
  fletcher64Stored block = fletcher64Checksum block

instance (block : Bytes) : Decidable (ChecksumValid block) :=
  inferInstanceAs (Decidable (_ = _))

/-- `spaceman::read_obj_block`: read a block and verify its checksum. -/
def readObjBlock (img : Image) (paddr blockSize : ℕ) : Result Bytes := do
  let buf ← img.readExact (saturatingMul paddr blockSize) blockSize
  if ChecksumValid buf then .ok buf
  else
    fail (.checksumMismatch (leU64 buf 8) (fletcher64Stored buf) (fletcher64Checksum buf))

/-- A block lies in the image with a valid checksum. -/
def BlockVerified (img : Image) (blockSize paddr : ℕ) (buf : Bytes) : Prop :=
  img.block blockSize paddr = some buf ∧ ChecksumValid buf

theorem BlockVerified.unique {img : Image} {blockSize paddr : ℕ} {buf buf' : Bytes}
    (h : BlockVerified img blockSize paddr buf) (h' : BlockVerified img blockSize paddr buf') :
    buf = buf' :=
  Option.some.inj (h.1.symm.trans h'.1)

theorem named_readObjBlock (img : Image) (paddr blockSize : ℕ) :
    Named (readObjBlock img paddr blockSize) :=
  (img.named_readExact _ _).bind fun buf _ => .ite (.ok buf) (named_fail _)

/-- An object is read when its block is verified; otherwise the read or the checksum fails. -/
theorem readObjBlock_cases (img : Image) (paddr : ℕ) {blockSize : ℕ} (hbs : blockSize ≠ 0) :
    (∃ buf, readObjBlock img paddr blockSize = .ok buf ∧ BlockVerified img blockSize paddr buf) ∨
    (∃ e, readObjBlock img paddr blockSize = fail e ∧
      (e = .io ∨ ∃ block stored computed, e = .checksumMismatch block stored computed) ∧
      ∀ buf, ¬BlockVerified img blockSize paddr buf) := by
  rw [readObjBlock, Image.readExact_saturatingMul img hbs]
  cases hblock : img.block blockSize paddr with
  | none =>
    refine .inr ⟨.io, rfl, .inl rfl, fun buf h => ?_⟩
    rw [BlockVerified, hblock] at h
    cases h.1
  | some buf =>
    rw [ok_bind]
    by_cases hsum : ChecksumValid buf
    · exact .inl ⟨buf, if_pos hsum, hblock, hsum⟩
    · refine .inr ⟨_, if_neg hsum, .inr ⟨_, _, _, rfl⟩, fun buf' h => ?_⟩
      rw [BlockVerified, hblock, Option.some.injEq] at h
      exact hsum (h.1 ▸ h.2)

theorem readObjBlock_eq_ok_iff {img : Image} {paddr blockSize : ℕ} {buf : Bytes}
    (hbs : blockSize ≠ 0) :
    readObjBlock img paddr blockSize = .ok buf ↔ BlockVerified img blockSize paddr buf := by
  rcases readObjBlock_cases img paddr hbs with ⟨buf', hread, hbuf'⟩ | ⟨e, hread, -, hno⟩
  · rw [hread, Except.ok.injEq]
    refine ⟨fun h => h ▸ hbuf', fun h => hbuf'.unique h⟩
  · rw [hread]
    exact iff_of_false (fail_ne_ok e buf) (hno buf)

/-! ### What the checksum depends on -/

/-- The words of a block are those of a whole number of words of it followed by those of the
rest. -/
theorem words_append {k : ℕ} {a : Bytes} (b : Bytes) (h : a.length = 4 * k) :
    words (a ++ b) = words a ++ words b := by
  induction k generalizing a with
  | zero =>
    obtain rfl : a = [] := List.eq_nil_of_length_eq_zero (by omega)
    rfl
  | succ k ih =>
    match a, h with
    | x :: y :: z :: w :: a', h =>
      have h' : a'.length = 4 * k := by
        simp only [List.length_cons] at h
        omega
      simp only [List.cons_append, words, ih h']

theorem length_words {k : ℕ} {a : Bytes} (h : a.length = 4 * k) : (words a).length = k := by
  induction k generalizing a with
  | zero =>
    obtain rfl : a = [] := List.eq_nil_of_length_eq_zero (by omega)
    rfl
  | succ k ih =>
    match a, h with
    | x :: y :: z :: w :: a', h =>
      have h' : a'.length = 4 * k := by
        simp only [List.length_cons] at h
        omega
      simp only [words, List.length_cons, ih h']

/-- The words of zero bytes are zero words. -/
theorem words_replicate_zero (k : ℕ) :
    words (List.replicate (4 * k) 0) = List.replicate k 0 := by
  induction k with
  | zero => rfl
  | succ k ih =>
    have h : 4 * (k + 1) = 4 * k + 1 + 1 + 1 + 1 := by ring
    rw [h]
    simp [List.replicate_succ, words, ih]

/-- The double sum only sees the words after the checksum field. -/
theorem fletcherFold_summedWords (block : Bytes) :
    fletcherFold fletcherMod (0, 0) (summedWords block) =
      fletcherFold fletcherMod (0, 0) ((words block).drop 2) := by
  -- from the third word on the sum takes every word as it is
  have htail : ∀ (ws : List ℕ) (n : ℕ), 2 ≤ n →
      (ws.zipIdx n).map (fun wi => if wi.2 < 2 then 0 else wi.1) = ws := by
    intro ws
    induction ws with
    | nil => intro n _; rfl
    | cons w ws ih =>
      intro n hn
      rw [List.zipIdx_cons, List.map_cons, ih (n + 1) (by omega), if_neg (by omega)]
  rw [summedWords]
  match words block with
  | [] => rfl
  | [_] => simp [fletcherFold_zero_cons]
  | _ :: _ :: ws =>
    simp only [List.zipIdx_cons, List.map_cons]
    rw [htail ws (0 + 1 + 1) (by omega), if_pos (by omega), if_pos (by omega),
      fletcherFold_zero_cons, fletcherFold_zero_cons]
    rfl

theorem fletcherMod_pos : 0 < fletcherMod := by
  decide

private theorem fletcherCheck_le (s : ℕ × ℕ) :
    (fletcherCheck fletcherMod s).1 < 2 ^ 32 ∧ (fletcherCheck fletcherMod s).2 < 2 ^ 32 := by
  simp only [fletcherCheck, fletcherMod]
  omega

/-- The checksum is the pair of check words, the second in the upper half. -/
theorem fletcher64Checksum_eq (block : Bytes) :
    fletcher64Checksum block =
      (fletcherCheck fletcherMod (fletcherFold fletcherMod (0, 0) ((words block).drop 2))).2
          * 2 ^ 32
        + (fletcherCheck fletcherMod
            (fletcherFold fletcherMod (0, 0) ((words block).drop 2))).1 := by
  rw [← fletcherFold_summedWords]
  simp only [fletcher64Checksum]
  rw [← Nat.shiftLeft_add_eq_or_of_lt (fletcherCheck_le _).1, Nat.shiftLeft_eq]

/-- Two blocks have equal checksums exactly when the words after their checksum fields have
equal double sums. -/
theorem checksum_eq_iff (a b : Bytes) :
    fletcher64Checksum a = fletcher64Checksum b ↔
      fletcherFold fletcherMod (0, 0) ((words a).drop 2) =
        fletcherFold fletcherMod (0, 0) ((words b).drop 2) := by
  constructor
  · intro h
    rw [fletcher64Checksum_eq, fletcher64Checksum_eq] at h
    obtain ⟨hs₁, hs₂⟩ := fletcherFold_lt fletcherMod_pos ((words a).drop 2)
    obtain ⟨ht₁, ht₂⟩ := fletcherFold_lt fletcherMod_pos ((words b).drop 2)
    -- both check words are below `2 ^ 32`, so the checksum determines each of them
    refine fletcherCheck_inj hs₁ hs₂ ht₁ ht₂ (Prod.ext ?_ ?_)
    · have := fletcherCheck_le (fletcherFold fletcherMod (0, 0) ((words a).drop 2))
      have := fletcherCheck_le (fletcherFold fletcherMod (0, 0) ((words b).drop 2))
      omega
    · have := fletcherCheck_le (fletcherFold fletcherMod (0, 0) ((words a).drop 2))
      have := fletcherCheck_le (fletcherFold fletcherMod (0, 0) ((words b).drop 2))
      omega
  · intro h
    rw [fletcher64Checksum_eq, fletcher64Checksum_eq, h]

/-! ### Stamping a checksum -/

theorem fletcher64Checksum_lt (block : Bytes) : fletcher64Checksum block < 2 ^ 64 := by
  have h := fletcherCheck_le (fletcherFold fletcherMod (0, 0) ((words block).drop 2))
  rw [fletcher64Checksum_eq]
  omega

/-- A block with the given bytes after its checksum field, and its checksum in it. -/
def stamp (body : Bytes) : Bytes :=
  leBytes 8 (fletcher64Checksum (List.replicate 8 0 ++ body)) ++ body

theorem length_stamp (body : Bytes) : (stamp body).length = 8 + body.length := by
  rw [stamp, List.length_append, length_leBytes]

/-- The fields of a stamped block are those of its body. -/
theorem readLE_stamp (w : ℕ) (body : Bytes) (offset : ℕ) :
    readLE w (stamp body) (8 + offset) = readLE w body offset := by
  have hlen : (leBytes 8 (fletcher64Checksum (List.replicate 8 0 ++ body))).length = 8 :=
    length_leBytes _ _
  have h := slice_append_right (a := leBytes 8 (fletcher64Checksum (List.replicate 8 0 ++ body)))
    (b := body) (i := offset) (j := offset + w)
  rw [hlen, ← Nat.add_assoc] at h
  unfold readLE stamp
  rw [h]

/-- So are its bytes. -/
theorem slice_stamp (body : Bytes) (i j : ℕ) :
    slice (stamp body) (8 + i) (8 + j) = slice body i j := by
  have h := slice_append_right (a := leBytes 8 (fletcher64Checksum (List.replicate 8 0 ++ body)))
    (b := body) (i := i) (j := j)
  rwa [length_leBytes] at h

/-- A checksum field is accepted exactly when it holds the checksum. -/
theorem checksumValid_append_iff {n : ℕ} (hn : n < 2 ^ 64) (body : Bytes) :
    ChecksumValid (leBytes 8 n ++ body) ↔
      n = fletcher64Checksum (List.replicate 8 0 ++ body) := by
  -- the checksum does not see its own field, so it may be computed with the field zeroed
  have hwords : ∀ field : Bytes, field.length = 4 * 2 →
      (words (field ++ body)).drop 2 = words body := by
    intro field hfield
    rw [words_append body hfield]
    exact List.drop_left' (length_words hfield)
  have hsum : fletcher64Checksum (leBytes 8 n ++ body) =
      fletcher64Checksum (List.replicate 8 0 ++ body) := by
    rw [checksum_eq_iff, hwords _ (length_leBytes 8 n), hwords _ List.length_replicate]
  have hstored : fletcher64Stored (leBytes 8 n ++ body) = n := by
    have hslice := slice_append_left (i := 0) (b := body) (length_leBytes 8 n).ge
    rw [fletcher64Stored, leU64, readLE, Nat.zero_add, hslice, slice_all (length_leBytes _ _)]
    exact leNat_leBytes_of_lt hn
  rw [ChecksumValid, hstored, hsum]

/-- A stamped checksum is accepted. -/
theorem checksumValid_stamp (body : Bytes) : ChecksumValid (stamp body) :=
  (checksumValid_append_iff (fletcher64Checksum_lt _) body).mpr rfl

/-! ### Truncation -/

/-- The words past byte `4 * k` do not contribute to the checksum: they sum to zero modulo
the modulus, and so does their weighted sum together with the weight they add to the words
between the checksum field and byte `4 * k`. -/
def NeutralTail (block : Bytes) (k : ℕ) : Prop :=
  let head := (words (block.take (4 * k))).drop 2
  let tail := words (block.drop (4 * k))
  fletcherMod ∣ tail.sum ∧ fletcherMod ∣ tail.length * head.sum + weightedSum tail

/-- **Truncated checksums.** The first `4 * k` bytes of a block have the checksum of the whole
block exactly when the words past them are neutral. -/
theorem checksum_take_eq_iff {block : Bytes} {k : ℕ} (hk : 2 ≤ k)
    (hlen : 4 * k ≤ block.length) :
    fletcher64Checksum (block.take (4 * k)) = fletcher64Checksum block ↔
      NeutralTail block k := by
  have htake : (block.take (4 * k)).length = 4 * k := by
    rw [List.length_take]
    omega
  have hwords : words block = words (block.take (4 * k)) ++ words (block.drop (4 * k)) := by
    conv_lhs => rw [← List.take_append_drop (4 * k) block]
    exact words_append _ htake
  have hdrop : (words block).drop 2 =
      (words (block.take (4 * k))).drop 2 ++ words (block.drop (4 * k)) := by
    rw [hwords, List.drop_append_of_le_length (by rw [length_words htake]; exact hk)]
  rw [checksum_eq_iff, eq_comm, hdrop, fletcherFold_append_eq_iff fletcherMod_pos]
  rfl

end ApfsCore
