import ApfsCore.Content.Decmpfs
import ApfsCore.Stepwise.Format

/-!
# Transparent compression, operation by operation

The decoder of `compression.rs` with each operation that could panic explicit. Most of its
arithmetic is checked; what is left rests on a read made just before: the second field of a table
entry is four bytes after one that was read, and the slots of a chunked fork are counted by a
32-bit field. The codecs, and the functions without an unchecked operation, are run as they are.
-/

namespace ApfsCore

namespace Stepwise

section Decode

variable (host : Host)

/-! ### Range-checked reads -/

/-- `compression::le_u32`. -/
def decmpfsLeU32 (data : Bytes) (offset : ℕ) : Run ℕ := do
  let bytes ← asRun (decmpfsField host 4 data offset)
  wordOf bytes

/-- `compression::be_u32`. -/
def decmpfsBeU32 (data : Bytes) (offset : ℕ) : Run ℕ := do
  let bytes ← asRun (decmpfsField host 4 data offset)
  let a ← getAt bytes 0
  let b ← getAt bytes 1
  let c ← getAt bytes 2
  let d ← getAt bytes 3
  .ok (leNat [d, c, b, a])

/-- `compression::le_u64`. -/
def decmpfsLeU64 (data : Bytes) (offset : ℕ) : Run ℕ := do
  let bytes ← asRun (decmpfsField host 8 data offset)
  let bytes ← copyFrom 8 bytes
  .ok (leNat bytes)

/-! ### Payloads -/

/-- Block `i` of a zlib resource fork, whose table is at `table`. -/
def zlibBlock (fork : Bytes) (table i : ℕ) : Run Bytes := do
  let entry ← asRun <| orDecmpfs
    ((host.checkedAdd table 4).bind fun b =>
      (host.checkedMulUsize i 8).bind fun o => host.checkedAdd b o)
    "decmpfs zlib fork entry offset overflow"
  let offset ← decmpfsLeU32 host fork entry
  let next ← uadd host.usizeBits entry 4
  let size ← decmpfsLeU32 host fork next
  let start ← asRun <| orDecmpfs (host.checkedAdd table (host.asUsize offset))
    "decmpfs zlib fork block start overflow"
  let stop ← asRun <| orDecmpfs (host.checkedAdd start (host.asUsize size))
    "decmpfs zlib fork block end overflow"
  let block ← asRun <| orDecmpfs (slice fork start stop) "decmpfs zlib fork block out of bounds"
  asRun (inflate host block)

/-- `decode_zlib_resource_fork`. -/
def decodeZlibResourceFork (fork : Bytes) : Run Bytes := do
  let headerSize ← decmpfsBeU32 host fork 0
  let table ← asRun <| orDecmpfs (host.checkedAdd (host.asUsize headerSize) 4)
    "decmpfs zlib fork table offset overflow"
  let numBlocks ← decmpfsLeU32 host fork table
  (List.range (host.asUsize numBlocks)).foldlM
    (fun out i => do
      let decoded ← zlibBlock host fork table i
      .ok (out ++ decoded))
    []

/-- The loop of `decode_chunked_resource_fork`. -/
def chunkLoop (algorithm : Algorithm) (fork : Bytes) (uncompressedSize : ℕ) :
    ℕ → ℕ → ℕ → Bytes → Run Bytes
  | 0, _, _, out => .ok out
  | n + 1, i, src, out =>
    if out.length ≥ uncompressedSize then .ok out
    else do
      let skipped ← umul host.usizeBits i 4
      let slot ← uadd host.usizeBits 4 skipped
      let stop ← host.asUsize <$> decmpfsLeU32 host fork slot
      if stop < src then asRun (fail (.decmpfs "decmpfs chunked fork end-offset goes backward"))
      else do
        let chunk ← asRun <| orDecmpfs (slice fork src stop)
          "decmpfs chunked fork chunk out of bounds"
        let decoded ← asRun <| decodeChunk host algorithm chunk
          (min (uncompressedSize - out.length) chunkSize)
        chunkLoop algorithm fork uncompressedSize n (i + 1) stop (out ++ decoded)

/-- `decode_chunked_resource_fork`. -/
def decodeChunkedResourceFork (algorithm : Algorithm) (fork : Bytes) (uncompressedSize : ℕ) :
    Run Bytes := do
  let headerSize ← host.asUsize <$> decmpfsLeU32 host fork 0
  if headerSize / 4 = 0 then asRun (fail (.decmpfs "decmpfs chunked fork header too small"))
  else chunkLoop host algorithm fork uncompressedSize (headerSize / 4 - 1) 0 headerSize []

/-- `decode_resource_fork`. -/
def decodeResourceFork (algorithm : Algorithm) (fork : Bytes) (uncompressedSize : ℕ) :
    Run Bytes :=
  match algorithm with
  | .zlib => decodeZlibResourceFork host fork
  | .lzvn => decodeChunkedResourceFork host .lzvn fork uncompressedSize
  | .lzfse => decodeChunkedResourceFork host .lzfse fork uncompressedSize
  | .uncompressed => decodeChunkedResourceFork host .uncompressed fork uncompressedSize
  | .lzBitmap => asRun unreachableAlgorithm

/-! ### Headers -/

/-- `uncompressed_size`. -/
def uncompressedSizeOf (header : Bytes) : Run ℕ :=
  if header.length < decmpfsHeaderLen then
    asRun (fail (.decmpfs "decmpfs xattr shorter than 16-byte header"))
  else do
    let magic ← decmpfsLeU32 host header 0
    if magic ≠ decmpfsMagic then
      asRun (fail (.decmpfs "decmpfs bad magic (expected 'cmpf')"))
    else decmpfsLeU64 host header 8

/-- The payload a header of the given kind leads to, decoded. -/
def decodePayload (kind : Compression) (header : Bytes) (resourceFork : Option Bytes)
    (uncompressedSize compressionType : ℕ) : Run Bytes :=
  match kind.storage with
  | .inline => do
    let payload ← asRun <| orDecmpfs (slice header decmpfsHeaderLen header.length)
      "decmpfs inline payload truncated"
    asRun (decodeInline host kind.algorithm payload uncompressedSize compressionType)
  | .resourceFork => do
    let fork ← asRun <| orDecmpfs resourceFork "decmpfs resource-fork type but no fork present"
    decodeResourceFork host kind.algorithm fork uncompressedSize

/-- `decompress_decmpfs`. -/
def decompressDecmpfs (header : Bytes) (resourceFork : Option Bytes) : Run Bytes := do
  let uncompressedSize ← host.asUsize <$> uncompressedSizeOf host header
  let compressionType ← decmpfsLeU32 host header 4
  match classify compressionType with
  | none =>
    if compressionType = 5 then
      asRun (fail (.decmpfs "decmpfs type 5 (de-dup generation store, no payload)"))
    else asRun (fail (.decmpfs "decmpfs unknown compression_type"))
  | some kind =>
    if kind.algorithm = .lzBitmap then
      asRun (fail (.decmpfs "decmpfs LZBitmap (no public spec)"))
    else do
      let out ← decodePayload host kind header resourceFork uncompressedSize compressionType
      if out.length ≠ uncompressedSize then
        asRun (fail (.decmpfs "decmpfs decoded length != uncompressed_size"))
      else .ok out

end Decode

/-! ### Comparison -/

section Compare

variable {host : Host}

/-- The bytes of a word are there to be taken out. -/
private theorem wordOf_eq {word : Bytes} (h : word.length = 4) :
    wordOf word = .ok (leNat word) := by
  obtain ⟨a, b, c, d, rfl⟩ := List.length_eq_four.mp h
  rfl

private theorem length_of_decmpfsField {w offset : ℕ} {data bytes : Bytes}
    (h : decmpfsField host w data offset = .ok bytes) : bytes.length = w := by
  rw [length_of_slice (slice_of_decmpfsField h), Nat.add_sub_cancel_left]

theorem decmpfsLeU32_eq (data : Bytes) (offset : ℕ) :
    decmpfsLeU32 host data offset = asRun (ApfsCore.decmpfsLeU32 host data offset) := by
  rw [decmpfsLeU32, ApfsCore.decmpfsLeU32, map_eq_pure_bind]
  exact bind_eq_asRun rfl fun bytes hbytes => wordOf_eq (length_of_decmpfsField hbytes)

theorem decmpfsBeU32_eq (data : Bytes) (offset : ℕ) :
    decmpfsBeU32 host data offset = asRun (ApfsCore.decmpfsBeU32 host data offset) := by
  rw [decmpfsBeU32, ApfsCore.decmpfsBeU32, map_eq_pure_bind]
  refine bind_eq_asRun rfl fun bytes hbytes => ?_
  obtain ⟨a, b, c, d, rfl⟩ := List.length_eq_four.mp (length_of_decmpfsField hbytes)
  rfl

theorem decmpfsLeU64_eq (data : Bytes) (offset : ℕ) :
    decmpfsLeU64 host data offset = asRun (ApfsCore.decmpfsLeU64 host data offset) := by
  rw [decmpfsLeU64, ApfsCore.decmpfsLeU64, map_eq_pure_bind]
  refine bind_eq_asRun rfl fun bytes hbytes => ?_
  rw [copyFrom_eq (length_of_decmpfsField hbytes)]
  rfl

/-- The field after a field that was read can be addressed. -/
private theorem lt_of_decmpfsLeU32 {data : Bytes} {offset n : ℕ} (hdata : data.length < 2 ^ 63)
    (h : ApfsCore.decmpfsLeU32 host data offset = .ok n) : offset + 4 < 2 ^ 63 := by
  obtain ⟨bytes, hbytes, -⟩ := map_eq_ok.mp h
  obtain ⟨-, hle, -⟩ := slice_eq_some_iff.mp (slice_of_decmpfsField hbytes)
  exact hle.trans_lt hdata

/-- A 32-bit field is one. -/
private theorem decmpfsLeU32_lt {data : Bytes} {offset n : ℕ}
    (h : ApfsCore.decmpfsLeU32 host data offset = .ok n) : n < 2 ^ 32 := by
  obtain ⟨bytes, hbytes, rfl⟩ := map_eq_ok.mp h
  have hlt := leNat_lt bytes
  rw [length_of_decmpfsField hbytes] at hlt
  exact hlt

private theorem zlibBlock_eq (hbits : host.usizeBits = 64) {fork : Bytes}
    (hfork : fork.length < 2 ^ 63) (table i : ℕ) :
    zlibBlock host fork table i = asRun (ApfsCore.zlibBlock host fork table i) := by
  refine bind_eq_asRun rfl fun entry _ => ?_
  refine bind_eq_asRun (decmpfsLeU32_eq fork entry) fun offset hoffset => ?_
  have hentry := lt_of_decmpfsLeU32 hfork hoffset
  rw [uadd_eq (by rw [hbits]; omega), ok_bind]
  refine bind_eq_asRun (decmpfsLeU32_eq fork (entry + 4)) fun size _ => ?_
  refine bind_eq_asRun rfl fun start _ => ?_
  refine bind_eq_asRun rfl fun stop _ => ?_
  exact bind_eq_asRun rfl fun block _ => rfl

private theorem decodeZlibResourceFork_eq (hbits : host.usizeBits = 64) {fork : Bytes}
    (hfork : fork.length < 2 ^ 63) :
    decodeZlibResourceFork host fork = asRun (ApfsCore.decodeZlibResourceFork host fork) := by
  refine bind_eq_asRun (decmpfsBeU32_eq fork 0) fun headerSize _ => ?_
  refine bind_eq_asRun rfl fun table _ => ?_
  refine bind_eq_asRun (decmpfsLeU32_eq fork table) fun numBlocks _ => ?_
  refine foldlM_mapError (P := fun _ => True) (fun out i _ _ => ?_) (fun _ _ _ _ _ _ => trivial)
    trivial
  exact bind_eq_asRun (zlibBlock_eq hbits hfork table i) fun decoded _ => rfl

/-- The slots are counted by a 32-bit field, so the next one can be addressed. -/
private theorem chunkLoop_eq (hbits : host.usizeBits = 64) (algorithm : Algorithm) (fork : Bytes)
    (uncompressedSize : ℕ) {n i : ℕ} (h : i + n < 2 ^ 32) (src : ℕ) (out : Bytes) :
    chunkLoop host algorithm fork uncompressedSize n i src out =
      asRun (ApfsCore.chunkLoop host algorithm fork uncompressedSize n i src out) := by
  induction n generalizing i src out with
  | zero => rfl
  | succ n ih =>
    refine ite_eq_asRun (fun _ => rfl) fun _ => ?_
    rw [umul_eq (by rw [hbits]; omega), ok_bind, uadd_eq (by rw [hbits]; omega), ok_bind]
    refine bind_eq_asRun ?_ fun stop _ => ?_
    · rw [decmpfsLeU32_eq, asRun_map]
    · refine ite_eq_asRun (fun _ => rfl) fun _ => ?_
      refine bind_eq_asRun rfl fun chunk _ => ?_
      exact bind_eq_asRun rfl fun decoded _ => ih (by omega) stop _

private theorem decodeChunkedResourceFork_eq (hbits : host.usizeBits = 64)
    (algorithm : Algorithm) (fork : Bytes) (uncompressedSize : ℕ) :
    decodeChunkedResourceFork host algorithm fork uncompressedSize =
      asRun (ApfsCore.decodeChunkedResourceFork host algorithm fork uncompressedSize) := by
  refine bind_eq_asRun ?_ fun headerSize hheader => ?_
  · rw [decmpfsLeU32_eq, asRun_map]
  · obtain ⟨field, hfield, rfl⟩ := map_eq_ok.mp hheader
    have hlt : host.asUsize field < 2 ^ 32 :=
      (Nat.mod_le field _).trans_lt (decmpfsLeU32_lt hfield)
    exact ite_eq_asRun (fun _ => rfl) fun _ =>
      chunkLoop_eq hbits algorithm fork uncompressedSize (by omega) _ []

private theorem decodeResourceFork_eq (hbits : host.usizeBits = 64) (algorithm : Algorithm)
    {fork : Bytes} (hfork : fork.length < 2 ^ 63) (uncompressedSize : ℕ) :
    decodeResourceFork host algorithm fork uncompressedSize =
      asRun (ApfsCore.decodeResourceFork host algorithm fork uncompressedSize) := by
  cases algorithm with
  | uncompressed => exact decodeChunkedResourceFork_eq hbits _ fork uncompressedSize
  | zlib => exact decodeZlibResourceFork_eq hbits hfork
  | lzvn => exact decodeChunkedResourceFork_eq hbits _ fork uncompressedSize
  | lzfse => exact decodeChunkedResourceFork_eq hbits _ fork uncompressedSize
  | lzBitmap => rfl

private theorem uncompressedSizeOf_eq (header : Bytes) :
    uncompressedSizeOf host header = asRun (ApfsCore.uncompressedSizeOf host header) := by
  refine ite_eq_asRun (fun _ => rfl) fun _ => ?_
  refine bind_eq_asRun (decmpfsLeU32_eq header 0) fun magic _ => ?_
  exact ite_eq_asRun (fun _ => rfl) fun _ => decmpfsLeU64_eq header 8

/-- **Decoding a compressed file** stays in range, whatever the decompressors return. -/
theorem decompressDecmpfs_eq (hbits : host.usizeBits = 64) (header : Bytes)
    {resourceFork : Option Bytes} (hfork : ∀ fork ∈ resourceFork, fork.length < 2 ^ 63) :
    decompressDecmpfs host header resourceFork =
      asRun (ApfsCore.decompressDecmpfs host header resourceFork) := by
  refine bind_eq_asRun ?_ fun uncompressedSize _ => ?_
  · rw [uncompressedSizeOf_eq, asRun_map]
  · refine bind_eq_asRun (decmpfsLeU32_eq header 4) fun compressionType _ => ?_
    cases classify compressionType with
    | none => exact ite_eq_asRun (fun _ => rfl) fun _ => rfl
    | some kind =>
      refine ite_eq_asRun (fun _ => rfl) fun _ => ?_
      refine bind_eq_asRun ?_ fun out _ => ite_eq_asRun (fun _ => rfl) fun _ => rfl
      rw [decodePayload, ApfsCore.decodePayload]
      cases kind.storage with
      | inline => exact bind_eq_asRun rfl fun payload _ => rfl
      | resourceFork =>
        cases resourceFork with
        | none => rfl
        | some fork => exact decodeResourceFork_eq hbits _ (hfork fork rfl) uncompressedSize

end Compare

end Stepwise

end ApfsCore
