import ApfsCore.General.Bytes
import ApfsCore.General.Outcome

/-!
# The image a reader runs over, and how a run can fail

The crate reads any `Read + Seek` source. A source is modelled by the bytes it holds
(`Image`): seeks address it by a `u64`, so it holds fewer than `2 ^ 64` bytes, and a seek
itself never fails. `Image.readExact` is a seek followed by `read_exact`; the one I/O error
that remains is the unexpected end of file.

`ApfsError` is the crate's error type. A run can also stop because an unchecked addition
leaves the range of `u64` (a panic in builds with overflow checks); `Fault` keeps that
outcome apart from the crate's own errors. Machine words are natural numbers, with the
range of each operation spelled out where the source makes it checked, saturating or
unchecked.

The multi-byte reads of `bytes.rs` are one definition, `readLE`, at three widths.
-/

namespace ApfsCore

/-- A byte buffer. -/
abbrev Bytes := List UInt8

/-- A Rust `String`, as its characters. -/
abbrev Str := List Char

/-! ### Errors -/

/-- The crate's `ApfsError`. The only I/O error of an in-memory source is the unexpected end
of file. -/
inductive ApfsError where
  | io
  | noValidSuperblock (checked lastMagic : ℕ)
  | checksumMismatch (block stored computed : ℕ)
  | omapUnresolved (oid xid : ℕ)
  | unexpectedObjectType (record : String) (expected found : ℕ)
  | unsupportedFusion
  | unsupportedSpacemanCab (count : ℕ)
  | fieldOutOfRange (record field : String) (value cap : ℕ)
  | cycleGuard (cap : ℕ)
  | checkpointTreeUnsupported (area : String)
  | snapshotNotFound (xid : ℕ)
  | decmpfs (reason : String)
  deriving DecidableEq, Repr

/-- How a run stops short of a value: with an error of the crate, or on an unchecked
addition that overflows `u64`. -/
inductive Fault where
  | apfs (e : ApfsError)
  | overflow
  deriving DecidableEq, Repr

/-- The crate's `Result`. -/
abbrev Result (α : Type) := Except Fault α

/-- Return one of the crate's errors. -/
def fail {α : Type} (e : ApfsError) : Result α :=
  .error (.apfs e)

theorem fail_ne_ok {α : Type} (e : ApfsError) (a : α) : fail e ≠ .ok a := by
  intro h
  cases h

@[simp] theorem fail_bind {α β : Type} (e : ApfsError) (f : α → Result β) :
    (fail e >>= f) = fail e := rfl

/-- A run that fails does so with one of the crate's errors. -/
abbrev Named {α : Type} (x : Result α) : Prop :=
  ErrorsIn (fun f => ∃ e, f = .apfs e) x

theorem named_fail {α : Type} (e : ApfsError) : Named (fail e : Result α) :=
  .error ⟨e, rfl⟩

/-! ### Machine arithmetic -/

/-- An unchecked `u64` addition, which a build with overflow checks stops at. -/
def addU64 (a b : ℕ) : Result ℕ :=
  if a + b < 2 ^ 64 then .ok (a + b) else .error .overflow

/-- `u64::checked_mul`. -/
def checkedMul (a b : ℕ) : Option ℕ :=
  if a * b < 2 ^ 64 then some (a * b) else none

/-- `u64::saturating_mul`. -/
def saturatingMul (a b : ℕ) : ℕ :=
  min (a * b) (2 ^ 64 - 1)

theorem saturatingMul_of_lt {a b : ℕ} (h : a * b < 2 ^ 64) : saturatingMul a b = a * b := by
  rw [saturatingMul]
  omega

/-! ### The image -/

/-- The bytes of a `Read + Seek` source, addressed by a `u64`. -/
structure Image where
  bytes : Bytes
  length_lt : bytes.length < 2 ^ 64

/-- Seek to `offset` and `read_exact` a buffer of `len` bytes. Reading no bytes succeeds
wherever the cursor stands. -/
def Image.readExact (img : Image) (offset len : ℕ) : Result Bytes :=
  if len = 0 then .ok []
  else
    match slice img.bytes offset (offset + len) with
    | some buf => .ok buf
    | none => fail .io

theorem Image.readExact_eq_ok {img : Image} {offset len : ℕ} {buf : Bytes} (hlen : len ≠ 0) :
    img.readExact offset len = .ok buf ↔ slice img.bytes offset (offset + len) = some buf := by
  rw [Image.readExact]
  rw [if_neg hlen]
  cases slice img.bytes offset (offset + len) with
  | none => simp [fail]
  | some s => simp

theorem Image.named_readExact (img : Image) (offset len : ℕ) :
    Named (img.readExact offset len) := by
  rw [Image.readExact]
  refine .ite (.ok []) ?_
  cases slice img.bytes offset (offset + len) with
  | none => exact named_fail _
  | some buf => exact .ok buf

theorem Image.length_of_readExact {img : Image} {offset len : ℕ} {buf : Bytes}
    (h : img.readExact offset len = .ok buf) : buf.length = len := by
  by_cases hlen : len = 0
  · rw [Image.readExact, if_pos hlen] at h
    cases h
    exact hlen.symm
  · rw [length_of_slice ((Image.readExact_eq_ok hlen).mp h), Nat.add_sub_cancel_left]

/-- A read past the end of the image is an I/O error. -/
theorem Image.readExact_of_length_lt {img : Image} {offset len : ℕ} (hlen : len ≠ 0)
    (h : img.bytes.length < offset + len) : img.readExact offset len = fail .io := by
  have hnone : slice img.bytes offset (offset + len) = none := by
    rw [slice_eq_none_iff]
    omega
  rw [Image.readExact, if_neg hlen, hnone]

/-- The bytes of block `p`, when the block lies in the image. -/
def Image.block (img : Image) (blockSize p : ℕ) : Option Bytes :=
  slice img.bytes (p * blockSize) (p * blockSize + blockSize)

theorem Image.length_of_block {img : Image} {blockSize p : ℕ} {buf : Bytes}
    (h : img.block blockSize p = some buf) : buf.length = blockSize := by
  have := length_of_slice h
  omega

/-- The block that starts after a whole number of blocks. -/
theorem Image.block_of_append {img : Image} {blockSize p : ℕ} {front block rest : Bytes}
    (h : img.bytes = front ++ (block ++ rest)) (hfront : front.length = p * blockSize)
    (hblock : block.length = blockSize) : img.block blockSize p = some block := by
  rw [Image.block, h, ← hfront]
  conv_lhs => rw [← hblock]
  exact slice_middle

/-- The length of a run of blocks. -/
theorem length_flatten_blocks {blockSize : ℕ} {blocks : List Bytes}
    (hlen : ∀ b ∈ blocks, b.length = blockSize) :
    blocks.flatten.length = blocks.length * blockSize := by
  rw [List.length_flatten, List.map_eq_replicate_iff.mpr hlen, List.sum_replicate_nat]

/-- The blocks of an image that is a run of blocks. -/
theorem Image.block_of_flatten {img : Image} {blockSize p : ℕ} {blocks : List Bytes}
    {block : Bytes} (h : img.bytes = blocks.flatten)
    (hlen : ∀ b ∈ blocks, b.length = blockSize) (hp : blocks[p]? = some block) :
    img.block blockSize p = some block := by
  obtain ⟨hlt, rfl⟩ := List.getElem?_eq_some_iff.mp hp
  have hfront : (blocks.take p).flatten.length = p * blockSize := by
    rw [length_flatten_blocks fun b hb => hlen b (List.mem_of_mem_take hb), List.length_take,
      min_eq_left hlt.le]
  have hsplit : img.bytes =
      (blocks.take p).flatten ++ (blocks[p] ++ (blocks.drop (p + 1)).flatten) := by
    rw [h, ← List.flatten_cons, List.getElem_cons_drop, ← List.flatten_append,
      List.take_append_drop]
  exact Image.block_of_append hsplit hfront (hlen _ (List.getElem_mem hlt))

/-- A block whose byte offset is out of the range of `u64` is not in the image. -/
theorem Image.block_eq_none_of_le {img : Image} {blockSize p : ℕ} (h : 2 ^ 64 ≤ p * blockSize) :
    img.block blockSize p = none := by
  have hlen := img.length_lt
  rw [Image.block, slice_eq_none_iff]
  omega

/-- Reading at a saturated block offset is reading the block: a saturated offset lies past
the end of any image. -/
theorem Image.readExact_saturatingMul (img : Image) {blockSize : ℕ} (hbs : blockSize ≠ 0)
    (p : ℕ) :
    img.readExact (saturatingMul p blockSize) blockSize =
      match img.block blockSize p with
      | some buf => .ok buf
      | none => fail .io := by
  by_cases h : p * blockSize < 2 ^ 64
  · rw [saturatingMul_of_lt h, Image.readExact, if_neg hbs, Image.block]
    rfl
  · have hsat : saturatingMul p blockSize = 2 ^ 64 - 1 := by
      rw [saturatingMul]
      omega
    have hlen := img.length_lt
    rw [hsat, Image.readExact_of_length_lt hbs (by omega),
      Image.block_eq_none_of_le (Nat.le_of_not_lt h)]

/-! ### Multi-byte reads -/

/-- The little-endian number in the `w` bytes at `offset`, or `0` when they run past `data`. -/
def readLE (w : ℕ) (data : Bytes) (offset : ℕ) : ℕ :=
  match slice data offset (offset + w) with
  | some s => leNat s
  | none => 0

/-- `bytes::le_u16`. -/
def leU16 : Bytes → ℕ → ℕ := readLE 2

/-- `bytes::le_u32`. -/
def leU32 : Bytes → ℕ → ℕ := readLE 4

/-- `bytes::le_u64`. -/
def leU64 : Bytes → ℕ → ℕ := readLE 8

/-- `bytes::arr::<N>`: the `n` bytes at `offset`, or zeros when they run past `data`. -/
def arr (n : ℕ) (data : Bytes) (offset : ℕ) : Bytes :=
  (slice data offset (offset + n)).getD (List.replicate n 0)

theorem readLE_lt (w : ℕ) (data : Bytes) (offset : ℕ) : readLE w data offset < 256 ^ w := by
  rw [readLE]
  cases h : slice data offset (offset + w) with
  | none => positivity
  | some s =>
    have hlen : s.length = w := by
      have := length_of_slice h
      omega
    exact hlen ▸ leNat_lt s

theorem leU64_lt (data : Bytes) (offset : ℕ) : leU64 data offset < 2 ^ 64 :=
  readLE_lt 8 data offset

/-- A field read is not affected by what follows it in the buffer. -/
theorem readLE_take {w n offset : ℕ} {data : Bytes} (h : offset + w ≤ n) :
    readLE w (data.take n) offset = readLE w data offset := by
  unfold readLE
  rw [slice_take h]

/-- A field that lies in a prefix is read off that prefix. -/
theorem readLE_append_left {w offset : ℕ} {a b : Bytes} (h : offset + w ≤ a.length) :
    readLE w (a ++ b) offset = readLE w a offset := by
  unfold readLE
  rw [slice_append_left h]

/-- A field that lies past a prefix is read off the remainder. -/
theorem readLE_append_right {w i : ℕ} {a b : Bytes} :
    readLE w (a ++ b) (a.length + i) = readLE w b i := by
  unfold readLE
  rw [Nat.add_assoc, slice_append_right]

/-- A field that lies in a slice is read off that slice. -/
theorem readLE_of_slice {w i j offset : ℕ} {data s : Bytes} (h : slice data i j = some s)
    (hin : offset + w ≤ j - i) : readLE w data (i + offset) = readLE w s offset := by
  unfold readLE
  rw [slice_slice h hin, Nat.add_assoc]

/-- Reading back an encoded number. -/
theorem readLE_leBytes_append (w n : ℕ) (rest : Bytes) :
    readLE w (leBytes w n ++ rest) 0 = n % 256 ^ w := by
  have hslice : slice (leBytes w n ++ rest) 0 (0 + w) = some (leBytes w n) := by
    rw [Nat.zero_add, slice_append_left (length_leBytes w n).ge, slice_all (length_leBytes w n)]
  unfold readLE
  rw [hslice]
  exact leNat_leBytes w n

/-- Reading back an encoded number that is stored behind other bytes. -/
theorem readLE_append_leBytes {w n : ℕ} {a b : Bytes} (hn : n < 256 ^ w) :
    readLE w (a ++ (leBytes w n ++ b)) a.length = n := by
  have h := readLE_append_right (w := w) (i := 0) (a := a) (b := leBytes w n ++ b)
  rw [Nat.add_zero] at h
  rw [h, readLE_leBytes_append, Nat.mod_eq_of_lt hn]

/-! ### Text -/

/-- The replacement character `String::from_utf8_lossy` substitutes. -/
def replacementChar : Char := '\uFFFD'

/-- A UTF-8 decoder between two bytes: at a character boundary, or inside a sequence with
payload bits `acc` so far and `need` bytes to go, the next of them in `lo..=hi`. -/
inductive Utf8State where
  | boundary
  | inside (acc need lo hi : ℕ)

/-- A byte met at a character boundary. The second byte of a sequence is restricted for the
lead bytes whose sequences could be overlong, a surrogate, or past the last character. -/
def Utf8State.openByte (b : ℕ) : Str × Utf8State :=
  if b < 0x80 then ([Char.ofNat b], .boundary)
  else if 0xC2 ≤ b ∧ b ≤ 0xDF then ([], .inside (b - 0xC0) 1 0x80 0xBF)
  else if 0xE0 ≤ b ∧ b ≤ 0xEF then
    ([], .inside (b - 0xE0) 2 (if b = 0xE0 then 0xA0 else 0x80) (if b = 0xED then 0x9F else 0xBF))
  else if 0xF0 ≤ b ∧ b ≤ 0xF4 then
    ([], .inside (b - 0xF0) 3 (if b = 0xF0 then 0x90 else 0x80) (if b = 0xF4 then 0x8F else 0xBF))
  else ([replacementChar], .boundary)

/-- Feed one byte: the characters completed and the new state. A byte that does not continue
the open sequence closes it with a replacement character and is met afresh. -/
def Utf8State.step (st : Utf8State) (b : ℕ) : Str × Utf8State :=
  match st with
  | .boundary => openByte b
  | .inside acc need lo hi =>
    if lo ≤ b ∧ b ≤ hi then
      if need = 1 then ([Char.ofNat (acc * 64 + (b - 0x80))], .boundary)
      else ([], .inside (acc * 64 + (b - 0x80)) (need - 1) 0x80 0xBF)
    else (replacementChar :: (openByte b).1, (openByte b).2)

/-- Decode from a state on; a sequence cut short by the end is one replacement character. -/
def Utf8State.decode : Utf8State → Bytes → Str
  | .boundary, [] => []
  | .inside _ _ _ _, [] => [replacementChar]
  | st, b :: rest => (st.step b.toNat).1 ++ (st.step b.toNat).2.decode rest

/-- `String::from_utf8_lossy`: decode UTF-8, replacing each maximal invalid piece by one
replacement character. -/
def fromUtf8Lossy (data : Bytes) : Str :=
  Utf8State.decode .boundary data

/-- `decode_cstr`: the text before the first NUL, or all of it when there is none. -/
def decodeCstr (data : Bytes) : Str :=
  fromUtf8Lossy (data.takeWhile (· != 0))

end ApfsCore
