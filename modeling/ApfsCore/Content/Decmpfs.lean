import ApfsCore.Format.Host

/-!
# Transparent compression

`decmpfs.rs` and `compression.rs`. A compressed file carries a 16-byte header that names a
compression type and the uncompressed size. Odd types keep the payload after the header, even
types in the resource fork: zlib forks with a block table of offsets and sizes, the other
forks with a table of end offsets. The decoder is `decompressDecmpfs`.

Arithmetic on positions is in `usize`, checked where the source checks it. Field reads check
their range and fail by name.
-/

namespace ApfsCore

/-! ### Compression types -/

/-- `MAGIC`. -/
def decmpfsMagic : ℕ := 0x636d7066

/-- `HEADER_LEN`. -/
def decmpfsHeaderLen : ℕ := 16

/-- `CHUNK_SIZE`. -/
def chunkSize : ℕ := 65536

/-- `Storage`. -/
inductive Storage where
  | inline
  | resourceFork
  deriving DecidableEq

/-- `Algorithm`. -/
inductive Algorithm where
  | uncompressed
  | zlib
  | lzvn
  | lzfse
  | lzBitmap
  deriving DecidableEq

/-- `Compression`. -/
structure Compression where
  algorithm : Algorithm
  storage : Storage

/-- `classify`. -/
def classify : ℕ → Option Compression
  | 1 => some ⟨.uncompressed, .inline⟩
  | 9 => some ⟨.uncompressed, .inline⟩
  | 10 => some ⟨.uncompressed, .resourceFork⟩
  | 3 => some ⟨.zlib, .inline⟩
  | 4 => some ⟨.zlib, .resourceFork⟩
  | 7 => some ⟨.lzvn, .inline⟩
  | 8 => some ⟨.lzvn, .resourceFork⟩
  | 11 => some ⟨.lzfse, .inline⟩
  | 12 => some ⟨.lzfse, .resourceFork⟩
  | 13 => some ⟨.lzBitmap, .inline⟩
  | 14 => some ⟨.lzBitmap, .resourceFork⟩
  | _ => none

/-! ### Range-checked reads -/

section Decode

variable (host : Host)

/-- The `w` bytes at an offset, with the errors of the readers of `compression.rs`. -/
def decmpfsField (w : ℕ) (data : Bytes) (offset : ℕ) : Result Bytes :=
  match host.checkedAdd offset w with
  | none => fail (.decmpfs "decmpfs read offset overflow")
  | some stop =>
    match slice data offset stop with
    | none => fail (.decmpfs "decmpfs read out of bounds")
    | some bytes => .ok bytes

/-- `compression::le_u32`. -/
def decmpfsLeU32 (data : Bytes) (offset : ℕ) : Result ℕ :=
  leNat <$> decmpfsField host 4 data offset

/-- `compression::be_u32`. -/
def decmpfsBeU32 (data : Bytes) (offset : ℕ) : Result ℕ :=
  (fun bytes => leNat bytes.reverse) <$> decmpfsField host 4 data offset

/-- `compression::le_u64`. -/
def decmpfsLeU64 (data : Bytes) (offset : ℕ) : Result ℕ :=
  leNat <$> decmpfsField host 8 data offset

/-! ### Codecs -/

/-- The value of an option, or a named refusal. -/
def orDecmpfs {α : Type} (o : Option α) (reason : String) : Result α :=
  match o with
  | some a => .ok a
  | none => fail (.decmpfs reason)

/-- `inflate`. -/
def inflate (data : Bytes) : Result Bytes :=
  orDecmpfs (host.inflate data) "decmpfs zlib codec error"

/-- `lzvn_decode`. -/
def lzvnDecode (chunk : Bytes) (uncompressedLen : ℕ) : Result Bytes :=
  orDecmpfs (host.lzvn chunk uncompressedLen) "decmpfs lzvn codec error"

/-- `lzfse_decode`. -/
def lzfseDecode (stream : Bytes) : Result Bytes :=
  orDecmpfs (host.lzfse stream) "decmpfs lzfse codec error"

/-- `unreachable_algorithm`. -/
def unreachableAlgorithm : Result Bytes :=
  fail (.decmpfs "decmpfs unsupported algorithm")

/-! ### Payloads -/

/-- `decode_inline`. -/
def decodeInline (algorithm : Algorithm) (payload : Bytes)
    (uncompressedSize compressionType : ℕ) : Result Bytes :=
  match algorithm with
  | .uncompressed => if compressionType = 9 then .ok (payload.drop 1) else .ok payload
  | .zlib => if payload.head? = some 0xFF then .ok (payload.drop 1) else inflate host payload
  | .lzvn =>
    if payload.head? = some 0x06 then .ok (payload.drop 1)
    else lzvnDecode host payload uncompressedSize
  | .lzfse => lzfseDecode host payload
  | .lzBitmap => unreachableAlgorithm

/-- Block `i` of a zlib resource fork, whose table is at `table`. -/
def zlibBlock (fork : Bytes) (table i : ℕ) : Result Bytes := do
  let entry ← orDecmpfs
    ((host.checkedAdd table 4).bind fun b =>
      (host.checkedMulUsize i 8).bind fun o => host.checkedAdd b o)
    "decmpfs zlib fork entry offset overflow"
  let offset ← decmpfsLeU32 host fork entry
  let size ← decmpfsLeU32 host fork (entry + 4)
  let start ← orDecmpfs (host.checkedAdd table (host.asUsize offset))
    "decmpfs zlib fork block start overflow"
  let stop ← orDecmpfs (host.checkedAdd start (host.asUsize size))
    "decmpfs zlib fork block end overflow"
  let block ← orDecmpfs (slice fork start stop) "decmpfs zlib fork block out of bounds"
  inflate host block

/-- `decode_zlib_resource_fork`. -/
def decodeZlibResourceFork (fork : Bytes) : Result Bytes := do
  let headerSize ← decmpfsBeU32 host fork 0
  let table ← orDecmpfs (host.checkedAdd (host.asUsize headerSize) 4)
    "decmpfs zlib fork table offset overflow"
  let numBlocks ← decmpfsLeU32 host fork table
  (List.range (host.asUsize numBlocks)).foldlM
    (fun out i => do
      let decoded ← zlibBlock host fork table i
      .ok (out ++ decoded))
    []

/-- Decode one chunk of a chunked fork. -/
def decodeChunk (algorithm : Algorithm) (chunk : Bytes) (uncompressedLen : ℕ) : Result Bytes :=
  match algorithm with
  | .lzvn => lzvnDecode host chunk uncompressedLen
  | .lzfse => lzfseDecode host chunk
  | .uncompressed => .ok chunk
  | .zlib => unreachableAlgorithm
  | .lzBitmap => unreachableAlgorithm

/-- The loop of `decode_chunked_resource_fork`: `n` slots from slot `i` on, with the next chunk
starting at `src`. It ends early once `out` has reached the uncompressed size. -/
def chunkLoop (algorithm : Algorithm) (fork : Bytes) (uncompressedSize : ℕ) :
    ℕ → ℕ → ℕ → Bytes → Result Bytes
  | 0, _, _, out => .ok out
  | n + 1, i, src, out =>
    if out.length ≥ uncompressedSize then .ok out
    else do
      let stop ← host.asUsize <$> decmpfsLeU32 host fork (4 + i * 4)
      if stop < src then fail (.decmpfs "decmpfs chunked fork end-offset goes backward")
      else do
        let chunk ← orDecmpfs (slice fork src stop) "decmpfs chunked fork chunk out of bounds"
        let decoded ← decodeChunk host algorithm chunk
          (min (uncompressedSize - out.length) chunkSize)
        chunkLoop algorithm fork uncompressedSize n (i + 1) stop (out ++ decoded)

/-- `decode_chunked_resource_fork`. -/
def decodeChunkedResourceFork (algorithm : Algorithm) (fork : Bytes) (uncompressedSize : ℕ) :
    Result Bytes := do
  let headerSize ← host.asUsize <$> decmpfsLeU32 host fork 0
  if headerSize / 4 = 0 then fail (.decmpfs "decmpfs chunked fork header too small")
  else chunkLoop host algorithm fork uncompressedSize (headerSize / 4 - 1) 0 headerSize []

/-- `decode_resource_fork`. -/
def decodeResourceFork (algorithm : Algorithm) (fork : Bytes) (uncompressedSize : ℕ) :
    Result Bytes :=
  match algorithm with
  | .zlib => decodeZlibResourceFork host fork
  | .lzvn => decodeChunkedResourceFork host .lzvn fork uncompressedSize
  | .lzfse => decodeChunkedResourceFork host .lzfse fork uncompressedSize
  | .uncompressed => decodeChunkedResourceFork host .uncompressed fork uncompressedSize
  | .lzBitmap => unreachableAlgorithm

/-! ### Headers -/

/-- `uncompressed_size`. -/
def uncompressedSizeOf (header : Bytes) : Result ℕ :=
  if header.length < decmpfsHeaderLen then
    fail (.decmpfs "decmpfs xattr shorter than 16-byte header")
  else do
    let magic ← decmpfsLeU32 host header 0
    if magic ≠ decmpfsMagic then fail (.decmpfs "decmpfs bad magic (expected 'cmpf')")
    else decmpfsLeU64 host header 8

/-- The payload a header of the given kind leads to, decoded. -/
def decodePayload (kind : Compression) (header : Bytes) (resourceFork : Option Bytes)
    (uncompressedSize compressionType : ℕ) : Result Bytes :=
  match kind.storage with
  | .inline => do
    let payload ← orDecmpfs (slice header decmpfsHeaderLen header.length)
      "decmpfs inline payload truncated"
    decodeInline host kind.algorithm payload uncompressedSize compressionType
  | .resourceFork => do
    let fork ← orDecmpfs resourceFork "decmpfs resource-fork type but no fork present"
    decodeResourceFork host kind.algorithm fork uncompressedSize

/-- `decompress_decmpfs`. -/
def decompressDecmpfs (header : Bytes) (resourceFork : Option Bytes) : Result Bytes := do
  let uncompressedSize ← host.asUsize <$> uncompressedSizeOf host header
  let compressionType ← decmpfsLeU32 host header 4
  match classify compressionType with
  | none =>
    if compressionType = 5 then
      fail (.decmpfs "decmpfs type 5 (de-dup generation store, no payload)")
    else fail (.decmpfs "decmpfs unknown compression_type")
  | some kind =>
    if kind.algorithm = .lzBitmap then fail (.decmpfs "decmpfs LZBitmap (no public spec)")
    else do
      let out ← decodePayload host kind header resourceFork uncompressedSize compressionType
      if out.length ≠ uncompressedSize then
        fail (.decmpfs "decmpfs decoded length != uncompressed_size")
      else .ok out

end Decode

theorem orDecmpfs_eq_ok_iff {α : Type} {o : Option α} {reason : String} {a : α} :
    orDecmpfs o reason = .ok a ↔ o = some a := by
  cases o with
  | none => exact ⟨fun h => (nomatch h), fun h => (nomatch h)⟩
  | some b =>
    exact ⟨fun h => congrArg some (Except.ok.inj h), fun h => congrArg _ (Option.some.inj h)⟩

/-! ### Refusals -/

section Refusals

variable (host : Host)

theorem named_decmpfsField (w : ℕ) (data : Bytes) (offset : ℕ) :
    Named (decmpfsField host w data offset) := by
  rw [decmpfsField]
  cases host.checkedAdd offset w with
  | none => exact named_fail _
  | some stop =>
    cases hslice : slice data offset stop with
    | none => simpa only [hslice] using named_fail _
    | some bytes => simpa only [hslice] using ErrorsIn.ok bytes

theorem named_orDecmpfs {α : Type} (o : Option α) (reason : String) :
    Named (orDecmpfs o reason) := by
  cases o with
  | none => exact named_fail _
  | some a => exact .ok a

private theorem named_decodeInline (algorithm : Algorithm) (payload : Bytes)
    (uncompressedSize compressionType : ℕ) :
    Named (decodeInline host algorithm payload uncompressedSize compressionType) := by
  cases algorithm with
  | uncompressed => exact .ite (.ok _) (.ok _)
  | zlib => exact .ite (.ok _) (named_orDecmpfs _ _)
  | lzvn => exact .ite (.ok _) (named_orDecmpfs _ _)
  | lzfse => exact named_orDecmpfs _ _
  | lzBitmap => exact named_fail _

private theorem named_zlibBlock (fork : Bytes) (table i : ℕ) :
    Named (zlibBlock host fork table i) := by
  refine (named_orDecmpfs _ _).bind fun entry _ => ?_
  refine ((named_decmpfsField host 4 fork entry).map _).bind fun offset _ => ?_
  refine ((named_decmpfsField host 4 fork (entry + 4)).map _).bind fun size _ => ?_
  refine (named_orDecmpfs _ _).bind fun start _ => ?_
  refine (named_orDecmpfs _ _).bind fun stop _ => ?_
  exact (named_orDecmpfs _ _).bind fun block _ => named_orDecmpfs _ _

private theorem named_decodeZlibResourceFork (fork : Bytes) :
    Named (decodeZlibResourceFork host fork) := by
  refine ((named_decmpfsField host 4 fork 0).map _).bind fun headerSize _ => ?_
  refine (named_orDecmpfs _ _).bind fun table _ => ?_
  refine ((named_decmpfsField host 4 fork table).map _).bind fun numBlocks _ => ?_
  exact ErrorsIn.foldlM
    (fun out i _ => (named_zlibBlock host fork table i).bind fun decoded _ => .ok _) []

private theorem named_decodeChunk (algorithm : Algorithm) (chunk : Bytes)
    (uncompressedLen : ℕ) : Named (decodeChunk host algorithm chunk uncompressedLen) := by
  cases algorithm with
  | uncompressed => exact .ok chunk
  | zlib => exact named_fail _
  | lzvn => exact named_orDecmpfs _ _
  | lzfse => exact named_orDecmpfs _ _
  | lzBitmap => exact named_fail _

private theorem named_chunkLoop (algorithm : Algorithm) (fork : Bytes)
    (uncompressedSize n i src : ℕ) (out : Bytes) :
    Named (chunkLoop host algorithm fork uncompressedSize n i src out) := by
  induction n generalizing i src out with
  | zero => exact .ok out
  | succ n ih =>
    refine .ite (.ok out) ?_
    refine ErrorsIn.bind (((named_decmpfsField host 4 fork _).map _).map _) fun stop _ => ?_
    refine .ite (named_fail _) ((named_orDecmpfs _ _).bind fun chunk _ => ?_)
    exact (named_decodeChunk host algorithm chunk _).bind fun decoded _ => ih _ _ _

private theorem named_decodeResourceFork (algorithm : Algorithm) (fork : Bytes)
    (uncompressedSize : ℕ) :
    Named (decodeResourceFork host algorithm fork uncompressedSize) := by
  have hchunked : ∀ algorithm,
      Named (decodeChunkedResourceFork host algorithm fork uncompressedSize) := fun algorithm =>
    ErrorsIn.bind (((named_decmpfsField host 4 fork 0).map _).map _) fun headerSize _ =>
      .ite (named_fail _) (named_chunkLoop host algorithm fork uncompressedSize _ _ _ _)
  cases algorithm with
  | uncompressed => exact hchunked _
  | zlib => exact named_decodeZlibResourceFork host fork
  | lzvn => exact hchunked _
  | lzfse => exact hchunked _
  | lzBitmap => exact named_fail _

theorem named_uncompressedSizeOf (header : Bytes) :
    Named (uncompressedSizeOf host header) :=
  .ite (named_fail _) <| ErrorsIn.bind ((named_decmpfsField host 4 header 0).map _) fun _ _ =>
    .ite (named_fail _) ((named_decmpfsField host 8 header 8).map _)

/-- A payload that cannot be decoded is refused by name. -/
theorem named_decompressDecmpfs (header : Bytes) (resourceFork : Option Bytes) :
    Named (decompressDecmpfs host header resourceFork) := by
  refine ((named_uncompressedSizeOf host header).map _).bind fun uncompressedSize _ => ?_
  refine ((named_decmpfsField host 4 header 4).map _).bind fun compressionType _ => ?_
  cases classify compressionType with
  | none => exact .ite (named_fail _) (named_fail _)
  | some kind =>
    have hpayload : Named
        (decodePayload host kind header resourceFork uncompressedSize compressionType) := by
      rw [decodePayload]
      cases kind.storage with
      | inline =>
        exact (named_orDecmpfs _ _).bind fun payload _ => named_decodeInline host _ _ _ _
      | resourceFork =>
        exact (named_orDecmpfs _ _).bind fun fork _ => named_decodeResourceFork host _ _ _
    exact .ite (named_fail _) (hpayload.bind fun out _ => .ite (named_fail _) (.ok out))

end Refusals

/-! ### The length of what is decoded -/

section Length

variable {host : Host}

/-- A field that is read lies in the buffer. -/
theorem slice_of_decmpfsField {w offset : ℕ} {data bytes : Bytes}
    (h : decmpfsField host w data offset = .ok bytes) :
    slice data offset (offset + w) = some bytes := by
  rw [decmpfsField] at h
  split at h
  · exact absurd h (fail_ne_ok _ _)
  · rename_i stop hstop
    -- the end of the field is computed without wrapping
    have hend : stop = offset + w := by
      rw [Host.checkedAdd] at hstop
      split_ifs at hstop
      exact (Option.some.inj hstop).symm
    split at h
    · exact absurd h (fail_ne_ok _ _)
    · rename_i s hslice
      cases h
      rw [← hend, hslice]

/-- The size a header declares is a `u64`. -/
theorem uncompressedSizeOf_lt {header : Bytes} {n : ℕ}
    (h : uncompressedSizeOf host header = .ok n) : n < 2 ^ 64 := by
  rw [uncompressedSizeOf] at h
  split_ifs at h with hlen
  · exact absurd h (fail_ne_ok _ _)
  · obtain ⟨magic, -, hsize⟩ := bind_eq_ok.mp h
    split_ifs at hsize with hmagic
    · exact absurd hsize (fail_ne_ok _ _)
    · obtain ⟨bytes, hfield, rfl⟩ := map_eq_ok.mp hsize
      have hfit := leNat_lt bytes
      rw [length_of_slice (slice_of_decmpfsField hfield), Nat.add_sub_cancel_left] at hfit
      exact hfit

/-- A decoded payload is as long as the size its header declares, cast to `usize`. -/
theorem length_of_decompressDecmpfs_cast {header out : Bytes} {fork : Option Bytes}
    (h : decompressDecmpfs host header fork = .ok out) :
    ∃ n, uncompressedSizeOf host header = .ok n ∧ out.length = host.asUsize n := by
  rw [decompressDecmpfs] at h
  obtain ⟨size, hsize, h⟩ := bind_eq_ok.mp h
  obtain ⟨n, hn, rfl⟩ := map_eq_ok.mp hsize
  obtain ⟨compressionType, -, h⟩ := bind_eq_ok.mp h
  refine ⟨n, hn, ?_⟩
  split at h
  · split_ifs at h
    · exact absurd h (fail_ne_ok _ _)
    · exact absurd h (fail_ne_ok _ _)
  · split_ifs at h
    · exact absurd h (fail_ne_ok _ _)
    · -- the last check compares the two lengths
      obtain ⟨decoded, -, h⟩ := bind_eq_ok.mp h
      split_ifs at h with hlen
      · exact absurd h (fail_ne_ok _ _)
      · cases h
        exact not_not.mp hlen

/-- **A decoded payload is as long as its header declares**, whatever the decompressors
return. -/
theorem length_of_decompressDecmpfs (hbits : host.usizeBits = 64) {header out : Bytes}
    {fork : Option Bytes} (h : decompressDecmpfs host header fork = .ok out) :
    uncompressedSizeOf host header = .ok out.length := by
  obtain ⟨n, hn, hlen⟩ := length_of_decompressDecmpfs_cast h
  rw [hlen, Host.asUsize_of_lt (hbits.symm ▸ uncompressedSizeOf_lt hn), hn]

end Length

end ApfsCore
