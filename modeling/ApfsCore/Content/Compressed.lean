import ApfsCore.Content.Forks

/-!
# Compressed files

The ways in which a file can be kept compressed: seven inline forms behind the header of the
`com.apple.decmpfs` attribute, and four forms of resource fork. `Compressed` relates a file to the
header and the fork that hold it. Whatever the form, the decoder returns the file, and the header
says by its type whether the fork has to be read.
-/

namespace ApfsCore

/-- The payload of a file of an inline type. -/
inductive InlinePayload (host : Host) (d : Bytes) : ℕ → Bytes → Prop
  | verbatim : InlinePayload host d 1 d
  | prefixed (b : UInt8) : InlinePayload host d 9 (b :: d)
  | zlibRaw : InlinePayload host d 3 (0xFF :: d)
  | zlib {p : Bytes} (hmark : p.head? ≠ some 0xFF) (h : host.inflate p = some d) :
    InlinePayload host d 3 p
  | lzvnRaw : InlinePayload host d 7 (0x06 :: d)
  | lzvn {p : Bytes} (hmark : p.head? ≠ some 0x06) (h : host.lzvn p d.length = some d) :
    InlinePayload host d 7 p
  | lzfse {p : Bytes} (h : host.lzfse p = some d) : InlinePayload host d 11 p

/-- The resource fork of a file of a fork type: the file is cut into chunks, and each chunk is
encoded by itself. -/
inductive ForkPayload (host : Host) (d : Bytes) : ℕ → Bytes → Prop
  | zlib {f : Bytes} {headerSize : ℕ} {enc : Bytes → Bytes}
      (hf : ZlibFork f headerSize ((chunksOf chunkSize d).map enc))
      (hcodec : ∀ c ∈ chunksOf chunkSize d, host.inflate (enc c) = some c) :
    ForkPayload host d 4 f
  | chunked {ct pad : ℕ} {alg : Algorithm} {spare : Bytes} {enc : Bytes → Bytes}
      (hkind : (ct, alg) ∈ [(8, Algorithm.lzvn), (10, .uncompressed), (12, .lzfse)])
      (hspare : spare.length = 4 * pad)
      (hlt : (chunkedFork spare ((chunksOf chunkSize d).map enc)).length < 2 ^ 32)
      (hcodec : ∀ c ∈ chunksOf chunkSize d, decodeChunk host alg (enc c) c.length = .ok c) :
    ForkPayload host d ct (chunkedFork spare ((chunksOf chunkSize d).map enc))

/-- A compressed file: the value of its `com.apple.decmpfs` attribute, and its resource fork. Of an
attribute that leads to a fork, what follows the header does not matter. -/
inductive Compressed (host : Host) (d : Bytes) : Bytes → Option Bytes → Prop
  | inline {ct : ℕ} {p : Bytes} (h : InlinePayload host d ct p) :
    Compressed host d (encodeDecmpfsHeader ct d.length ++ p) none
  | fork {ct : ℕ} {f : Bytes} (rest : Bytes) (h : ForkPayload host d ct f) :
    Compressed host d (encodeDecmpfsHeader ct d.length ++ rest) (some f)

section

variable {host : Host} {d header p f : Bytes} {fork : Option Bytes} {ct : ℕ}

/-- The type of an inline payload, and what the decoder makes of it. -/
theorem InlinePayload.decode (h : InlinePayload host d ct p) :
    ct < 2 ^ 32 ∧ ∃ alg, classify ct = some ⟨alg, .inline⟩ ∧ alg ≠ .lzBitmap ∧
      decodeInline host alg p d.length ct = .ok d := by
  cases h with
  | verbatim => exact ⟨by decide, _, rfl, by decide, rfl⟩
  | prefixed b => exact ⟨by decide, _, rfl, by decide, rfl⟩
  | zlibRaw => exact ⟨by decide, _, rfl, by decide, rfl⟩
  | zlib hmark h =>
    refine ⟨by decide, _, rfl, by decide, ?_⟩
    rw [decodeInline, if_neg hmark, inflate, h, orDecmpfs]
  | lzvnRaw => exact ⟨by decide, _, rfl, by decide, rfl⟩
  | lzvn hmark h =>
    refine ⟨by decide, _, rfl, by decide, ?_⟩
    rw [decodeInline, if_neg hmark, lzvnDecode, h, orDecmpfs]
  | lzfse h =>
    refine ⟨by decide, _, rfl, by decide, ?_⟩
    rw [decodeInline, lzfseDecode, h, orDecmpfs]

/-- The type of a fork, and what the decoder makes of it. -/
theorem ForkPayload.decode (h : ForkPayload host d ct f) (hfit : f.length < 2 ^ host.usizeBits) :
    ct < 2 ^ 32 ∧ ∃ alg, classify ct = some ⟨alg, .resourceFork⟩ ∧ alg ≠ .lzBitmap ∧
      decodeResourceFork host alg f d.length = .ok d := by
  cases h with
  | zlib hf hcodec =>
    exact ⟨by decide, _, rfl, by decide, decodeZlibResourceFork_chunks hf hfit hcodec⟩
  | chunked hkind hspare hlt hcodec =>
    have hdecode := decodeChunkedResourceFork_chunks hspare hlt hfit hcodec
    simp only [List.mem_cons, List.not_mem_nil, Prod.mk.injEq, or_false] at hkind
    rcases hkind with ⟨rfl, rfl⟩ | ⟨rfl, rfl⟩ | ⟨rfl, rfl⟩
    all_goals exact ⟨by decide, _, rfl, by decide, hdecode⟩

/-- The type of a header. -/
theorem compressionType_header (hfit : (encodeDecmpfsHeader ct d.length ++ p).length <
    2 ^ host.usizeBits) (hct : ct < 2 ^ 32) :
    decmpfsLeU32 host (encodeDecmpfsHeader ct d.length ++ p) 4 = .ok ct :=
  decmpfsLeU32_of_slice hfit hct (slice_encodeDecmpfsHeader ct d.length p).2.1

/-- The header of a compressed file names a type, which tells whether there is a fork to read. -/
theorem Compressed.needsFork (h : Compressed host d header fork)
    (hheader : header.length < 2 ^ host.usizeBits)
    (hfork : ∀ f, fork = some f → f.length < 2 ^ host.usizeBits) :
    ∃ ct, decmpfsLeU32 host header 4 = .ok ct ∧
      ((classify ct).any fun c => c.storage = .resourceFork) = fork.isSome := by
  cases h with
  | inline h =>
    obtain ⟨hct, alg, hkind, -⟩ := h.decode
    refine ⟨_, compressionType_header hheader hct, ?_⟩
    rw [hkind]
    rfl
  | fork rest h =>
    obtain ⟨hct, alg, hkind, -⟩ := h.decode (hfork _ rfl)
    refine ⟨_, compressionType_header hheader hct, ?_⟩
    rw [hkind]
    rfl

/-- **A compressed file decodes to the file**, in each of its forms. -/
theorem Compressed.decompress (h : Compressed host d header fork)
    (hbits : host.usizeBits = 64) (hd : d.length < 2 ^ 64)
    (hheader : header.length < 2 ^ host.usizeBits)
    (hfork : ∀ f, fork = some f → f.length < 2 ^ host.usizeBits) :
    decompressDecmpfs host header fork = .ok d := by
  have hd' : d.length < 2 ^ host.usizeBits := hbits ▸ hd
  cases h with
  | inline h =>
    obtain ⟨hct, alg, hkind, halg, hdecode⟩ := h.decode
    rw [decompressDecmpfs_header hheader hd hd' hct hkind halg, decodePayload_inline, hdecode,
      ok_bind, if_neg (not_not.mpr rfl)]
  | fork rest h =>
    obtain ⟨hct, alg, hkind, halg, hdecode⟩ := h.decode (hfork _ rfl)
    rw [decompressDecmpfs_header hheader hd hd' hct hkind halg, decodePayload, orDecmpfs, ok_bind,
      hdecode, ok_bind, if_neg (not_not.mpr rfl)]

end

end ApfsCore
