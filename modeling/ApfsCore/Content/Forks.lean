import ApfsCore.Content.Decmpfs
import ApfsCore.General.Chunks

/-!
# Resource forks of compressed files

The two layouts a compressed resource fork can have, as an encoder writes them:

* `ZlibFork`: a big-endian header size, a block table at that position plus four, and blocks
  placed anywhere, each found through its offset and size in the table;
* `chunkedFork`: a little-endian header size, the end offsets of the chunks, spare slots, and
  the chunks one after the other.

`decodeZlibResourceFork_of_fork` and `chunkLoop_of_holds` say what the decoder makes of them,
chunk by chunk. It recovers a file of any size from the chunks it was cut into.
-/

namespace ApfsCore

/-- The 16-byte header of a compressed file. -/
def encodeDecmpfsHeader (compressionType uncompressedSize : ℕ) : Bytes :=
  leBytes 4 decmpfsMagic ++ (leBytes 4 compressionType ++ leBytes 8 uncompressedSize)

theorem length_encodeDecmpfsHeader (compressionType uncompressedSize : ℕ) :
    (encodeDecmpfsHeader compressionType uncompressedSize).length = 16 := by
  simp only [encodeDecmpfsHeader, List.length_append, length_leBytes]

/-! ### Reading fields back -/

section Fields

variable {host : Host} {data : Bytes} {offset : ℕ}

/-- A field inside a buffer that fits the address space reads back. -/
theorem decmpfsField_of_slice {w : ℕ} (hfit : data.length < 2 ^ host.usizeBits) {bytes : Bytes}
    (h : slice data offset (offset + w) = some bytes) :
    decmpfsField host w data offset = .ok bytes := by
  have hle := (slice_eq_some_iff.mp h).2.1
  simp only [decmpfsField, Host.checkedAdd_of_lt (hle.trans_lt hfit), h]

theorem decmpfsLeU32_of_slice (hfit : data.length < 2 ^ host.usizeBits) {n : ℕ}
    (hn : n < 2 ^ 32) (h : slice data offset (offset + 4) = some (leBytes 4 n)) :
    decmpfsLeU32 host data offset = .ok n := by
  rw [decmpfsLeU32, decmpfsField_of_slice hfit h, map_ok, leNat_leBytes_of_lt hn]

theorem decmpfsBeU32_of_slice (hfit : data.length < 2 ^ host.usizeBits) {n : ℕ}
    (hn : n < 2 ^ 32) (h : slice data offset (offset + 4) = some (leBytes 4 n).reverse) :
    decmpfsBeU32 host data offset = .ok n := by
  rw [decmpfsBeU32, decmpfsField_of_slice hfit h, map_ok, List.reverse_reverse,
    leNat_leBytes_of_lt hn]

end Fields

/-! ### Headers -/

section Header

variable {host : Host} {ct n : ℕ} {p : Bytes}

/-- The parts of a buffer that starts with fields of four, four and eight bytes. -/
private theorem slice_fields {a b c p : Bytes} (ha : a.length = 4) (hb : b.length = 4)
    (hc : c.length = 8) :
    slice (a ++ (b ++ (c ++ p))) 0 (0 + 4) = some a ∧
    slice (a ++ (b ++ (c ++ p))) 4 (4 + 4) = some b ∧
    slice (a ++ (b ++ (c ++ p))) 8 (8 + 8) = some c := by
  have h₀ := slice_middle (a := ([] : Bytes)) (b := a) (c := b ++ (c ++ p))
  have h₁ := slice_middle (a := a) (b := b) (c := c ++ p)
  have h₂ := slice_middle (a := a ++ b) (b := c) (c := p)
  rw [List.length_nil, List.nil_append, ha] at h₀
  rw [ha, hb] at h₁
  rw [List.length_append, ha, hb, hc, List.append_assoc] at h₂
  exact ⟨h₀, h₁, h₂⟩

/-- The fields of a header, whatever follows it. -/
theorem slice_encodeDecmpfsHeader (ct n : ℕ) (p : Bytes) :
    slice (encodeDecmpfsHeader ct n ++ p) 0 (0 + 4) = some (leBytes 4 decmpfsMagic) ∧
    slice (encodeDecmpfsHeader ct n ++ p) 4 (4 + 4) = some (leBytes 4 ct) ∧
    slice (encodeDecmpfsHeader ct n ++ p) 8 (8 + 8) = some (leBytes 8 n) := by
  rw [encodeDecmpfsHeader, List.append_assoc, List.append_assoc]
  exact slice_fields (length_leBytes _ _) (length_leBytes _ _) (length_leBytes _ _)

theorem uncompressedSizeOf_header
    (hfit : (encodeDecmpfsHeader ct n ++ p).length < 2 ^ host.usizeBits) (hn : n < 2 ^ 64) :
    uncompressedSizeOf host (encodeDecmpfsHeader ct n ++ p) = .ok n := by
  obtain ⟨h₀, -, h₂⟩ := slice_encodeDecmpfsHeader ct n p
  have hlen : ¬(encodeDecmpfsHeader ct n ++ p).length < decmpfsHeaderLen := by
    rw [List.length_append, length_encodeDecmpfsHeader, decmpfsHeaderLen]
    omega
  have hmagic : decmpfsLeU32 host (encodeDecmpfsHeader ct n ++ p) 0 = .ok decmpfsMagic :=
    decmpfsLeU32_of_slice hfit (by decide) h₀
  rw [uncompressedSizeOf, if_neg hlen, hmagic, ok_bind, if_neg (not_not.mpr rfl), decmpfsLeU64,
    decmpfsField_of_slice hfit h₂, map_ok, leNat_leBytes_of_lt hn]

/-- What the decoder does once it has read the header: decode the payload, and check the
length. -/
theorem decompressDecmpfs_header {kind : Compression} {fork : Option Bytes}
    (hfit : (encodeDecmpfsHeader ct n ++ p).length < 2 ^ host.usizeBits) (hn : n < 2 ^ 64)
    (hn' : n < 2 ^ host.usizeBits) (hct : ct < 2 ^ 32) (hkind : classify ct = some kind)
    (halg : kind.algorithm ≠ .lzBitmap) :
    decompressDecmpfs host (encodeDecmpfsHeader ct n ++ p) fork =
      decodePayload host kind (encodeDecmpfsHeader ct n ++ p) fork n ct >>= fun out =>
        if out.length ≠ n then fail (.decmpfs "decmpfs decoded length != uncompressed_size")
        else .ok out := by
  have htype : decmpfsLeU32 host (encodeDecmpfsHeader ct n ++ p) 4 = .ok ct :=
    decmpfsLeU32_of_slice hfit hct (slice_encodeDecmpfsHeader ct n p).2.1
  simp only [decompressDecmpfs, uncompressedSizeOf_header hfit hn, map_ok, ok_bind,
    Host.asUsize_of_lt hn', htype, hkind, if_neg halg]

/-- The payload of an inline type is what follows the header. -/
theorem decodePayload_inline {alg : Algorithm} (size : ℕ) :
    decodePayload host ⟨alg, .inline⟩ (encodeDecmpfsHeader ct n ++ p) none size ct =
      decodeInline host alg p size ct := by
  have h := slice_middle (a := encodeDecmpfsHeader ct n) (b := p) (c := [])
  rw [length_encodeDecmpfsHeader, List.append_nil] at h
  have hlen : (encodeDecmpfsHeader ct n ++ p).length = 16 + p.length := by
    rw [List.length_append, length_encodeDecmpfsHeader]
  simp only [decodePayload, decmpfsHeaderLen, hlen, h, orDecmpfs, ok_bind]

end Header

/-! ### Zlib forks -/

/-- A zlib fork that holds the given blocks: the header size, the block count after a four-byte
gap, one offset and size for each block, and each block at its offset from the count. -/
structure ZlibFork (f : Bytes) (headerSize : ℕ) (blocks : List Bytes) : Prop where
  four_le : 4 ≤ headerSize
  headerSize_lt : headerSize < 2 ^ 32
  header : slice f 0 (0 + 4) = some (leBytes 4 headerSize).reverse
  count_lt : blocks.length < 2 ^ 32
  count : slice f (headerSize + 4) (headerSize + 4 + 4) = some (leBytes 4 blocks.length)
  block : ∀ i b, blocks[i]? = some b → ∃ offset < 2 ^ 32, b.length < 2 ^ 32 ∧
    slice f (headerSize + 4 + 4 + i * 8) (headerSize + 4 + 4 + i * 8 + 4) =
      some (leBytes 4 offset) ∧
    slice f (headerSize + 4 + 4 + i * 8 + 4) (headerSize + 4 + 4 + i * 8 + 4 + 4) =
      some (leBytes 4 b.length) ∧
    slice f (headerSize + 4 + offset) (headerSize + 4 + offset + b.length) = some b

/-- The zlib fork of one block, right after a table that follows the shortest header. -/
def zlibForkOne (p : Bytes) : Bytes :=
  [0, 0, 0, 4] ++ ([0, 0, 0, 0] ++ (leBytes 4 1 ++ (leBytes 4 12 ++ (leBytes 4 p.length ++ p))))

theorem zlibForkOne_holds {p : Bytes} (hp : p.length < 2 ^ 32) :
    ZlibFork (zlibForkOne p) 4 [p] := by
  have hsize := slice_middle (a := [0, 0, 0, 4] ++ ([0, 0, 0, 0] ++ (leBytes 4 1 ++ leBytes 4 12)))
    (b := leBytes 4 p.length) (c := p)
  have hblock := slice_middle
    (a := [0, 0, 0, 4] ++ ([0, 0, 0, 0] ++ (leBytes 4 1 ++ (leBytes 4 12 ++ leBytes 4 p.length))))
    (b := p) (c := [])
  simp only [List.append_assoc, List.length_append, length_leBytes, List.append_nil] at hsize hblock
  have hone : [p].length < 2 ^ 32 := by
    rw [List.length_singleton]
    decide
  refine ⟨le_rfl, by decide, rfl, hone, rfl, ?_⟩
  intro i b hb
  obtain ⟨rfl, rfl⟩ : i = 0 ∧ b = p := by
    cases i with
    | zero => exact ⟨rfl, (Option.some.inj hb).symm⟩
    | succ i => cases hb
  exact ⟨12, by decide, hp, rfl, hsize, hblock⟩

section Zlib

variable {host : Host} {f : Bytes} {headerSize : ℕ} {blocks : List Bytes}

/-- Block `i` of a zlib fork decodes to what its codec makes of the block. -/
private theorem zlibBlock_of_fork (hf : ZlibFork f headerSize blocks)
    (hfit : f.length < 2 ^ host.usizeBits) {i : ℕ} {b : Bytes} (hb : blocks[i]? = some b) :
    zlibBlock host f (headerSize + 4) i = inflate host b := by
  obtain ⟨offset, hoff, hsize, hoffset, hlen, hblock⟩ := hf.block i b hb
  -- every position computed lies in the fork, so no checked operation overflows
  have hentry := (slice_eq_some_iff.mp hoffset).2.1
  have hend := (slice_eq_some_iff.mp hblock).2.1
  have h₁ : host.checkedAdd (headerSize + 4) 4 = some (headerSize + 4 + 4) :=
    Host.checkedAdd_of_lt (by omega)
  have h₂ : host.checkedMulUsize i 8 = some (i * 8) := Host.checkedMulUsize_of_lt (by omega)
  have h₃ : host.checkedAdd (headerSize + 4 + 4) (i * 8) = some (headerSize + 4 + 4 + i * 8) :=
    Host.checkedAdd_of_lt (by omega)
  have h₄ : host.asUsize offset = offset := Host.asUsize_of_lt (by omega)
  have h₅ : host.asUsize b.length = b.length := Host.asUsize_of_lt (by omega)
  have h₆ : host.checkedAdd (headerSize + 4) offset = some (headerSize + 4 + offset) :=
    Host.checkedAdd_of_lt (by omega)
  have h₇ : host.checkedAdd (headerSize + 4 + offset) b.length =
      some (headerSize + 4 + offset + b.length) := Host.checkedAdd_of_lt (by omega)
  simp only [zlibBlock, h₁, Option.bind_some, h₂, h₃, orDecmpfs, ok_bind,
    decmpfsLeU32_of_slice hfit hoff hoffset, decmpfsLeU32_of_slice hfit hsize hlen, h₄, h₅, h₆, h₇,
    hblock]

/-- A zlib fork decodes to its blocks, decoded one after the other. -/
theorem decodeZlibResourceFork_of_fork (hf : ZlibFork f headerSize blocks)
    (hfit : f.length < 2 ^ host.usizeBits) :
    decodeZlibResourceFork host f =
      blocks.foldlM (fun out b => do
        let decoded ← inflate host b
        .ok (out ++ decoded)) [] := by
  have hcount := (slice_eq_some_iff.mp hf.count).2.1
  have h₁ : host.asUsize headerSize = headerSize := Host.asUsize_of_lt (by omega)
  have h₂ : host.checkedAdd headerSize 4 = some (headerSize + 4) :=
    Host.checkedAdd_of_lt (by omega)
  -- the table has room for every block, so their number fits as well
  have h₃ : host.asUsize blocks.length = blocks.length := by
    refine Host.asUsize_of_lt ?_
    rcases Nat.eq_zero_or_pos blocks.length with hzero | hpos
    · rw [hzero]
      positivity
    · obtain ⟨b, hb⟩ : ∃ b, blocks[blocks.length - 1]? = some b :=
        ⟨_, List.getElem?_eq_getElem (by omega)⟩
      obtain ⟨offset, -, -, hoffset, -, -⟩ := hf.block _ b hb
      have := (slice_eq_some_iff.mp hoffset).2.1
      omega
  simp only [decodeZlibResourceFork, decmpfsBeU32_of_slice hfit hf.headerSize_lt hf.header,
    ok_bind, h₁, h₂, orDecmpfs, decmpfsLeU32_of_slice hfit hf.count_lt hf.count, h₃]
  exact foldlM_range_eq (fun i b hb out => by rw [zlibBlock_of_fork hf hfit hb]) []

/-- Blocks that each decode to a chunk decode to the chunks put together. -/
private theorem foldlM_inflate {enc : Bytes → Bytes} {cs : List Bytes}
    (h : ∀ c ∈ cs, host.inflate (enc c) = some c) (out : Bytes) :
    (cs.map enc).foldlM (fun out b => do
      let decoded ← inflate host b
      .ok (out ++ decoded)) out = (.ok (out ++ cs.flatten) : Result Bytes) := by
  induction cs generalizing out with
  | nil =>
    rw [List.flatten_nil, List.append_nil]
    rfl
  | cons c cs ih =>
    have hc : inflate host (enc c) = .ok c := by
      rw [inflate, h c List.mem_cons_self]
      rfl
    rw [List.map_cons, List.foldlM_cons, hc, ok_bind, ok_bind,
      ih (fun c' hc' => h c' (List.mem_cons_of_mem c hc')), List.flatten_cons, List.append_assoc]

end Zlib

/-! ### Chunked forks -/

/-- The end offsets of chunks stored one after the other from `src` on. -/
def endOffsets : ℕ → List Bytes → List ℕ
  | _, [] => []
  | src, e :: es => (src + e.length) :: endOffsets (src + e.length) es

theorem length_endOffsets (src : ℕ) (es : List Bytes) : (endOffsets src es).length = es.length := by
  induction es generalizing src with
  | nil => rfl
  | cons e es ih => rw [endOffsets, List.length_cons, List.length_cons, ih]

/-- A chunked fork: the header size, the end offsets, the bytes of spare slots, and the
chunks. -/
def chunkedFork (spare : Bytes) (es : List Bytes) : Bytes :=
  let headerSize := 4 * (es.length + 1) + spare.length
  leBytes 4 headerSize ++ ((endOffsets headerSize es).flatMap (leBytes 4) ++ (spare ++ es.flatten))

/-- The fork holds the chunks `es` from slot `i` and position `src` on. -/
def HoldsChunks (f : Bytes) : ℕ → ℕ → List Bytes → Prop
  | _, _, [] => True
  | i, src, e :: es =>
    src + e.length < 2 ^ 32 ∧
    slice f (4 + i * 4) (4 + i * 4 + 4) = some (leBytes 4 (src + e.length)) ∧
    slice f src (src + e.length) = some e ∧ HoldsChunks f (i + 1) (src + e.length) es

private theorem length_flatMap_leBytes (ns : List ℕ) :
    (ns.flatMap (leBytes 4)).length = 4 * ns.length := by
  induction ns with
  | nil => rfl
  | cons n ns ih =>
    rw [List.flatMap_cons, List.length_append, length_leBytes, ih, List.length_cons]
    omega

/-- A buffer laid out as slots, spare bytes and chunks holds its chunks. -/
private theorem holdsChunks_layout {i src : ℕ} {es : List Bytes} {front mid : Bytes}
    (hfront : front.length = 4 + i * 4)
    (hsrc : (front ++ ((endOffsets src es).flatMap (leBytes 4) ++ mid)).length = src)
    (hlt : src + es.flatten.length < 2 ^ 32) :
    HoldsChunks (front ++ ((endOffsets src es).flatMap (leBytes 4) ++ (mid ++ es.flatten))) i src
      es := by
  induction es generalizing i src front mid with
  | nil => trivial
  | cons e es ih =>
    rw [List.flatten_cons, List.length_append] at hlt
    refine ⟨by omega, ?_, ?_, ?_⟩
    · have h := slice_middle (a := front) (b := leBytes 4 (src + e.length))
        (c := (endOffsets (src + e.length) es).flatMap (leBytes 4) ++
          (mid ++ (e ++ es.flatten)))
      rw [hfront, length_leBytes] at h
      simpa only [endOffsets, List.flatMap_cons, List.flatten_cons, List.append_assoc] using h
    · have h := slice_middle
        (a := front ++ ((endOffsets src (e :: es)).flatMap (leBytes 4) ++ mid)) (b := e)
        (c := es.flatten)
      rw [hsrc] at h
      simpa only [List.flatten_cons, List.append_assoc] using h
    · -- the slot just read joins the front, the chunk just read the middle
      simp only [endOffsets, List.flatMap_cons, List.length_append, length_leBytes] at hsrc
      have hnext := @ih (i + 1) (src + e.length) (front ++ leBytes 4 (src + e.length)) (mid ++ e)
        (by rw [List.length_append, length_leBytes, hfront]; omega)
        (by simp only [List.length_append, length_leBytes]; omega)
        (by omega)
      simpa only [endOffsets, List.flatMap_cons, List.flatten_cons, List.append_assoc] using hnext

theorem length_chunkedFork (spare : Bytes) (es : List Bytes) :
    (chunkedFork spare es).length = 4 * (es.length + 1) + spare.length + es.flatten.length := by
  simp only [chunkedFork, List.length_append, length_leBytes, length_flatMap_leBytes,
    length_endOffsets]
  omega

theorem holdsChunks_chunkedFork {spare : Bytes} {es : List Bytes}
    (hlt : (chunkedFork spare es).length < 2 ^ 32) :
    HoldsChunks (chunkedFork spare es) 0 (4 * (es.length + 1) + spare.length) es := by
  rw [length_chunkedFork] at hlt
  refine holdsChunks_layout (length_leBytes _ _) ?_ hlt
  simp only [List.length_append, length_leBytes, length_flatMap_leBytes, length_endOffsets]
  omega

section Chunked

variable {host : Host} {f : Bytes} {alg : Algorithm}

/-- A loop that has produced everything stops. -/
theorem chunkLoop_of_done {size n i src : ℕ} {out : Bytes} (h : size ≤ out.length) :
    chunkLoop host alg f size n i src out = .ok out := by
  cases n with
  | zero => rfl
  | succ n => exact if_pos h

/-- One step of the loop over a chunk that the fork holds. -/
theorem chunkLoop_step (hfit : f.length < 2 ^ host.usizeBits) {size n i src : ℕ}
    {out e : Bytes} {es : List Bytes} (hholds : HoldsChunks f i src (e :: es))
    (hout : out.length < size) :
    chunkLoop host alg f size (n + 1) i src out =
      decodeChunk host alg e (min (size - out.length) chunkSize) >>= fun decoded =>
        chunkLoop host alg f size n (i + 1) (src + e.length) (out ++ decoded) := by
  obtain ⟨hlt, hslot, hchunk, -⟩ := hholds
  have hend := (slice_eq_some_iff.mp hchunk).2.1
  have hstop : host.asUsize (src + e.length) = src + e.length := Host.asUsize_of_lt (by omega)
  rw [chunkLoop, if_neg (by omega), decmpfsLeU32_of_slice hfit hlt hslot, map_ok, ok_bind, hstop,
    if_neg (by omega), hchunk]
  rfl

/-- **The loop over a chunked fork.** From any slot on, the loop appends to its output what
is left of the file, whatever slots come after. -/
theorem chunkLoop_of_holds (hfit : f.length < 2 ^ host.usizeBits) {enc : Bytes → Bytes}
    {k size i src extra : ℕ} {l out : Bytes}
    (hcount : l.length ≤ k * chunkSize ∧ k * chunkSize < l.length + chunkSize)
    (hsize : out.length + l.length = size)
    (hholds : HoldsChunks f i src ((chunksFrom chunkSize k l).map enc))
    (hcodec : ∀ c ∈ chunksFrom chunkSize k l, decodeChunk host alg (enc c) c.length = .ok c) :
    chunkLoop host alg f size (k + extra) i src out = .ok (out ++ l) := by
  induction k generalizing i src l out with
  | zero =>
    -- nothing is left, so the loop stops before it reads a spare slot
    have hnil : l = [] := List.eq_nil_of_length_eq_zero (by omega)
    rw [hnil, List.length_nil] at hsize
    rw [hnil, List.append_nil, chunkLoop_of_done (by omega)]
  | succ k ih =>
    rw [Nat.succ_mul] at hcount
    have hpos : 0 < l.length := by omega
    -- the length the decoder asks for is that of the next chunk, the last one included
    have hlen : (l.take chunkSize).length = min (size - out.length) chunkSize := by
      rw [List.length_take]
      omega
    have hdecode : decodeChunk host alg (enc (l.take chunkSize))
        (min (size - out.length) chunkSize) = .ok (l.take chunkSize) := by
      rw [← hlen]
      exact hcodec _ List.mem_cons_self
    have hn : k + 1 + extra = k + extra + 1 := by omega
    rw [hn, chunkLoop_step hfit hholds (by omega), hdecode, ok_bind]
    have hrest := @ih (i + 1) (src + (enc (l.take chunkSize)).length) (l.drop chunkSize)
      (out ++ l.take chunkSize) (by rw [List.length_drop]; omega)
      (by rw [List.length_append, List.length_take, List.length_drop]; omega)
      hholds.2.2.2 (fun c hc => hcodec c (List.mem_cons_of_mem _ hc))
    rw [hrest, List.append_assoc, List.take_append_drop]

/-- The decoder of chunked forks reads the header size and enters the loop. -/
theorem decodeChunkedResourceFork_of_chunkedFork {spare : Bytes} {es : List Bytes} {m : ℕ}
    (hspare : spare.length = 4 * m)
    (hlt : (chunkedFork spare es).length < 2 ^ 32)
    (hfit : (chunkedFork spare es).length < 2 ^ host.usizeBits) (size : ℕ) :
    decodeChunkedResourceFork host alg (chunkedFork spare es) size =
      chunkLoop host alg (chunkedFork spare es) size (es.length + m) 0
        (4 * (es.length + 1) + spare.length) [] := by
  have hlen := length_chunkedFork spare es
  have hhead : decmpfsLeU32 host (chunkedFork spare es) 0 =
      .ok (4 * (es.length + 1) + spare.length) := by
    refine decmpfsLeU32_of_slice hfit (by omega) ?_
    rw [chunkedFork, slice_append_left (length_leBytes _ _).ge, slice_all (length_leBytes _ _)]
  have husize : host.asUsize (4 * (es.length + 1) + spare.length) =
      4 * (es.length + 1) + spare.length := Host.asUsize_of_lt (by omega)
  have hslots : (4 * (es.length + 1) + spare.length) / 4 - 1 = es.length + m := by omega
  rw [decodeChunkedResourceFork, hhead, map_ok, ok_bind, husize, if_neg (by omega), hslots]

end Chunked

/-! ### Round trips -/

section RoundTrip

variable {host : Host} {d : Bytes} {enc : Bytes → Bytes}

/-- The chunked fork of a file decodes to the file. -/
theorem decodeChunkedResourceFork_chunks {alg : Algorithm} {spare : Bytes} {m : ℕ}
    (hspare : spare.length = 4 * m)
    (hlt : (chunkedFork spare ((chunksOf chunkSize d).map enc)).length < 2 ^ 32)
    (hfit : (chunkedFork spare ((chunksOf chunkSize d).map enc)).length < 2 ^ host.usizeBits)
    (hcodec : ∀ c ∈ chunksOf chunkSize d, decodeChunk host alg (enc c) c.length = .ok c) :
    decodeChunkedResourceFork host alg (chunkedFork spare ((chunksOf chunkSize d).map enc))
      d.length = .ok d := by
  have hslots : ((chunksOf chunkSize d).map enc).length = chunkCount chunkSize d.length := by
    rw [List.length_map, chunksOf, length_chunksFrom]
  rw [decodeChunkedResourceFork_of_chunkedFork hspare hlt hfit]
  have hholds := holdsChunks_chunkedFork hlt
  rw [hslots] at hholds ⊢
  rw [chunkLoop_of_holds hfit (chunkCount_bounds (by decide) d.length)
    (by rw [List.length_nil, Nat.zero_add]) hholds hcodec, List.nil_append]

/-- The zlib fork of a file decodes to the file. -/
theorem decodeZlibResourceFork_chunks {f : Bytes} {headerSize : ℕ}
    (hf : ZlibFork f headerSize ((chunksOf chunkSize d).map enc))
    (hfit : f.length < 2 ^ host.usizeBits)
    (hcodec : ∀ c ∈ chunksOf chunkSize d, host.inflate (enc c) = some c) :
    decodeZlibResourceFork host f = .ok d := by
  rw [decodeZlibResourceFork_of_fork hf hfit, foldlM_inflate hcodec,
    flatten_chunksOf (by decide), List.nil_append]

/-- A fork that decodes to the file is what the decoder returns for the file's header. -/
private theorem decompressDecmpfs_of_fork {ct : ℕ} {alg : Algorithm} {f : Bytes}
    (hbits : host.usizeBits = 64) (hd : d.length < 2 ^ 64) (hct : ct < 2 ^ 32)
    (hkind : classify ct = some ⟨alg, .resourceFork⟩) (halg : alg ≠ .lzBitmap)
    (h : decodeResourceFork host alg f d.length = .ok d) :
    decompressDecmpfs host (encodeDecmpfsHeader ct d.length) (some f) = .ok d := by
  have hfit : (encodeDecmpfsHeader ct d.length ++ []).length < 2 ^ host.usizeBits := by
    rw [List.append_nil, length_encodeDecmpfsHeader, hbits]
    decide
  have hheader := @decompressDecmpfs_header host ct d.length [] _ (some f) hfit hd (hbits ▸ hd) hct
    hkind halg
  rw [List.append_nil] at hheader
  rw [hheader, decodePayload, orDecmpfs, ok_bind, h, ok_bind, if_neg (not_not.mpr rfl)]

/-- **Resource forks decode to the file they were made from.** A file of any size, cut into
chunks of `chunkSize` bytes and encoded chunk by chunk with a codec that the linked
decompressor undoes, comes back from a chunked fork with any spare slots, and from a zlib fork
with its blocks anywhere. -/
theorem decmpfs_fork_round_trip (hbits : host.usizeBits = 64) (hd : d.length < 2 ^ 64) :
    (∀ (ct : ℕ) (alg : Algorithm) (spare : Bytes) (pad : ℕ),
      (ct, alg) ∈ [(8, Algorithm.lzvn), (10, .uncompressed), (12, .lzfse)] →
      spare.length = 4 * pad →
      (chunkedFork spare ((chunksOf chunkSize d).map enc)).length < 2 ^ 32 →
      (∀ c ∈ chunksOf chunkSize d, decodeChunk host alg (enc c) c.length = .ok c) →
      decompressDecmpfs host (encodeDecmpfsHeader ct d.length)
        (some (chunkedFork spare ((chunksOf chunkSize d).map enc))) = .ok d) ∧
    (∀ (f : Bytes) (headerSize : ℕ), f.length < 2 ^ 64 →
      ZlibFork f headerSize ((chunksOf chunkSize d).map enc) →
      (∀ c ∈ chunksOf chunkSize d, host.inflate (enc c) = some c) →
      decompressDecmpfs host (encodeDecmpfsHeader 4 d.length) (some f) = .ok d) := by
  constructor
  · intro ct alg spare pad hct hspare hlt hcodec
    have hfit : (chunkedFork spare ((chunksOf chunkSize d).map enc)).length <
        2 ^ host.usizeBits := by
      rw [hbits]
      omega
    have hfork := decodeChunkedResourceFork_chunks hspare hlt hfit hcodec
    simp only [List.mem_cons, List.not_mem_nil, Prod.mk.injEq, or_false] at hct
    rcases hct with ⟨rfl, rfl⟩ | ⟨rfl, rfl⟩ | ⟨rfl, rfl⟩
    all_goals exact decompressDecmpfs_of_fork hbits hd (by decide) rfl (by decide) hfork
  · intro f headerSize hlen hf hcodec
    have hfork := decodeZlibResourceFork_chunks hf (by rw [hbits]; exact hlen) hcodec
    exact decompressDecmpfs_of_fork hbits hd (by decide) rfl (by decide) hfork

/-- The one byte `0x41` as a zlib stream with a stored block. -/
def zlibSample : Bytes := [0x78, 0x01, 0x01, 1, 0, 0xFE, 0xFF, 0x41, 0, 0x42, 0, 0x42]

/-- The same byte as an LZVN literal. -/
def lzvnSample : Bytes := [0xE1, 0x41, 0x06, 0, 0, 0, 0, 0, 0, 0]

/-- The same byte as an uncompressed LZFSE block. -/
def lzfseSample : Bytes := [0x62, 0x76, 0x78, 0x2D, 1, 0, 0, 0, 0x41, 0x62, 0x76, 0x78, 0x24]

/-- Decompressors that know the sample streams. -/
def sampleHost : Host where
  usizeBits := 64
  inflate := fun data => if data = zlibSample then some [0x41] else none
  lzvn := fun data _ => if data = lzvnSample then some [0x41] else none
  lzfse := fun data => if data = lzfseSample then some [0x41] else none

/-- A file of two full chunks and a third of one byte. -/
private def longFile : Bytes :=
  List.replicate 131073 0x41

private theorem length_longFile : longFile.length = 131073 :=
  List.length_replicate

/-- The one-byte file comes back from forks of all four types, two with a spare slot, and the long
one from its three chunks. -/
theorem sample_forks_decode :
    decompressDecmpfs sampleHost (encodeDecmpfsHeader 8 1)
      (some (chunkedFork [9, 9, 9, 9] [lzvnSample])) = .ok [0x41] ∧
    decompressDecmpfs sampleHost (encodeDecmpfsHeader 10 1) (some (chunkedFork [] [[0x41]])) =
      .ok [0x41] ∧
    decompressDecmpfs sampleHost (encodeDecmpfsHeader 12 1)
      (some (chunkedFork [9, 9, 9, 9] [lzfseSample])) = .ok [0x41] ∧
    decompressDecmpfs sampleHost (encodeDecmpfsHeader 4 1) (some (zlibForkOne zlibSample)) =
      .ok [0x41] ∧
    (chunksOf chunkSize longFile).length = 3 ∧
    decompressDecmpfs sampleHost (encodeDecmpfsHeader 10 131073)
      (some (chunkedFork [9, 9, 9, 9] (chunksOf chunkSize longFile))) = .ok longFile := by
  have hd : ([0x41] : Bytes).length < 2 ^ 64 := by decide
  have hlong : longFile.length < 2 ^ 64 := by
    rw [length_longFile]
    norm_num
  have hbits : sampleHost.usizeBits = 64 := rfl
  have hcount : (chunksOf chunkSize longFile).length = 3 := by
    rw [chunksOf, length_chunksFrom, length_longFile]
    rfl
  refine ⟨?_, ?_, ?_, ?_, hcount, ?_⟩
  · exact (@decmpfs_fork_round_trip sampleHost [0x41] (fun _ => lzvnSample) hbits hd).1 8 .lzvn
      [9, 9, 9, 9] 1 (by decide) rfl (by decide) (by decide)
  · exact (@decmpfs_fork_round_trip sampleHost [0x41] id hbits hd).1 10 .uncompressed [] 0
      (by decide) rfl (by decide) (by decide)
  · exact (@decmpfs_fork_round_trip sampleHost [0x41] (fun _ => lzfseSample) hbits hd).1 12 .lzfse
      [9, 9, 9, 9] 1 (by decide) rfl (by decide) (by decide)
  · exact (@decmpfs_fork_round_trip sampleHost [0x41] (fun _ => zlibSample) hbits hd).2
      (zlibForkOne zlibSample) 4 (by decide) (zlibForkOne_holds (by decide)) (by decide)
  · have hfit : (chunkedFork [9, 9, 9, 9] ((chunksOf chunkSize longFile).map id)).length <
        2 ^ 32 := by
      rw [List.map_id, length_chunkedFork, hcount, flatten_chunksOf (by decide), length_longFile]
      decide
    have hdecode := (@decmpfs_fork_round_trip sampleHost longFile id hbits hlong).1 10
      .uncompressed [9, 9, 9, 9] 1 (by decide) rfl hfit fun _ _ => rfl
    rwa [List.map_id, length_longFile] at hdecode

end RoundTrip

end ApfsCore
