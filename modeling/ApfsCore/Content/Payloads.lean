import ApfsCore.Content.Compressed
import ApfsCore.General.GuardedWalk

/-!
# Payloads of a given length

Any bytes may stand where a compressed payload is expected. `PayloadHas` says of which of them the
layout that the header's type names, and the codecs, make a content of a given length: an inline
payload as it is, or the blocks of a zlib fork, or the chunks of one of the other forks, one after
the other until the length is reached. The decoder succeeds on exactly these
(`decompressDecmpfs_ok_iff`).
-/

namespace ApfsCore

/-! ### The layouts -/

/-- An inline payload of the given type has `size` bytes. A prefixed payload without its prefix
has none. -/
inductive InlineHas (host : Host) (ct : ℕ) (payload : Bytes) : ℕ → Prop
  | held {d : Bytes} (h : InlinePayload host d ct payload) : InlineHas host ct payload d.length
  | empty (hct : ct = 9) (h : payload = []) : InlineHas host ct payload 0

/-- Block `i` of a zlib fork whose table is at `table` is the stream of `piece`. -/
def ZlibBlockAt (host : Host) (fork : Bytes) (table i : ℕ) (piece : Bytes) : Prop :=
  ∃ offset len block,
    decmpfsLeU32 host fork (table + 4 + i * 8) = .ok offset ∧
    decmpfsLeU32 host fork (table + 4 + i * 8 + 4) = .ok len ∧
    table + host.asUsize offset + host.asUsize len < 2 ^ host.usizeBits ∧
    slice fork (table + host.asUsize offset)
      (table + host.asUsize offset + host.asUsize len) = some block ∧
    host.inflate block = some piece

/-- A chunk stands for `piece`, of `len` bytes at most, in the algorithm of its fork. -/
inductive ChunkHolds (host : Host) (chunk : Bytes) (len : ℕ) : Algorithm → Bytes → Prop
  | stored : ChunkHolds host chunk len .uncompressed chunk
  | lzvn {piece : Bytes} (h : host.lzvn chunk len = some piece) :
    ChunkHolds host chunk len .lzvn piece
  | lzfse {piece : Bytes} (h : host.lzfse chunk = some piece) :
    ChunkHolds host chunk len .lzfse piece

/-- The chunks of a fork, from slot `i` and position `src` on and with `n` more slots, make the
`left` bytes that are missing. -/
inductive ChunksHave (host : Host) (alg : Algorithm) (fork : Bytes) : ℕ → ℕ → ℕ → ℕ → Prop
  | done (n i src : ℕ) : ChunksHave host alg fork n i src 0
  | chunk {n i src stop left : ℕ} {bytes piece : Bytes} (hleft : left ≠ 0)
      (hstop : decmpfsLeU32 host fork (4 + i * 4) = .ok stop) (hle : src ≤ host.asUsize stop)
      (hbytes : slice fork src (host.asUsize stop) = some bytes)
      (hpiece : ChunkHolds host bytes (min left chunkSize) alg piece)
      (hlen : piece.length ≤ left)
      (hrest : ChunksHave host alg fork n (i + 1) (host.asUsize stop) (left - piece.length)) :
    ChunksHave host alg fork (n + 1) i src left

/-- A resource fork of the given algorithm has `size` bytes. -/
inductive ForkHas (host : Host) (fork : Bytes) (size : ℕ) : Algorithm → Prop
  | zlib {headerSize count : ℕ} {pieces : List Bytes}
      (hheader : decmpfsBeU32 host fork 0 = .ok headerSize)
      (hcount : decmpfsLeU32 host fork (host.asUsize headerSize + 4) = .ok count)
      (hblocks : List.Forall₂ (ZlibBlockAt host fork (host.asUsize headerSize + 4))
        (List.range (host.asUsize count)) pieces)
      (hsize : pieces.flatten.length = size) : ForkHas host fork size .zlib
  | chunked {alg : Algorithm} {headerSize : ℕ} (halg : alg ∈ [.lzvn, .lzfse, .uncompressed])
      (hheader : decmpfsLeU32 host fork 0 = .ok headerSize)
      (hslots : host.asUsize headerSize / 4 ≠ 0)
      (hchunks : ChunksHave host alg fork (host.asUsize headerSize / 4 - 1) 0
        (host.asUsize headerSize) size) : ForkHas host fork size alg

/-- The payload, laid out as the header's type says, has `size` bytes. -/
inductive PayloadHas (host : Host) (header : Bytes) (fork : Option Bytes) (size : ℕ) : Prop
  | inline {ct : ℕ} {alg : Algorithm} (hct : decmpfsLeU32 host header 4 = .ok ct)
      (hkind : classify ct = some ⟨alg, .inline⟩)
      (h : InlineHas host ct (header.drop decmpfsHeaderLen) size)
  | fork {ct : ℕ} {alg : Algorithm} {f : Bytes} (hct : decmpfsLeU32 host header 4 = .ok ct)
      (hkind : classify ct = some ⟨alg, .resourceFork⟩) (hfork : fork = some f)
      (h : ForkHas host f size alg)

/-! ### What the decoder makes of them -/

section Decode

variable {host : Host} {header fork payload chunk piece : Bytes} {alg : Algorithm}
  {ct n i src table size len : ℕ}

private theorem decodeChunk_eq_ok_iff :
    decodeChunk host alg chunk len = .ok piece ↔ ChunkHolds host chunk len alg piece := by
  constructor
  · intro h
    cases alg with
    | uncompressed =>
      cases h
      exact .stored
    | lzvn => exact .lzvn (orDecmpfs_eq_ok_iff.mp h)
    | lzfse => exact .lzfse (orDecmpfs_eq_ok_iff.mp h)
    | zlib => exact absurd h (fail_ne_ok _ _)
    | lzBitmap => exact absurd h (fail_ne_ok _ _)
  · intro h
    cases h with
    | stored => rfl
    | lzvn h => exact orDecmpfs_eq_ok_iff.mpr h
    | lzfse h => exact orDecmpfs_eq_ok_iff.mpr h

private theorem checkedAdd_eq_some_iff {a b c : ℕ} :
    host.checkedAdd a b = some c ↔ a + b < 2 ^ host.usizeBits ∧ a + b = c := by
  rw [Host.checkedAdd]
  split_ifs with hlt
  · rw [Option.some.injEq, and_iff_right hlt]
  · exact iff_of_false (fun h => by cases h) fun h => hlt h.1

private theorem checkedMulUsize_eq_some_iff {a b c : ℕ} :
    host.checkedMulUsize a b = some c ↔ a * b < 2 ^ host.usizeBits ∧ a * b = c := by
  rw [Host.checkedMulUsize]
  split_ifs with hlt
  · rw [Option.some.injEq, and_iff_right hlt]
  · exact iff_of_false (fun h => by cases h) fun h => hlt h.1

/-- A field that is read ends at a position that fits. -/
private theorem pos_lt_of_decmpfsLeU32 {pos v : ℕ} (h : decmpfsLeU32 host fork pos = .ok v) :
    pos + 4 < 2 ^ host.usizeBits := by
  obtain ⟨bytes, h, -⟩ := map_eq_ok.mp h
  rw [decmpfsField] at h
  cases hstop : host.checkedAdd pos 4 with
  | none =>
    rw [hstop] at h
    exact absurd h (fail_ne_ok _ _)
  | some stop => exact (checkedAdd_eq_some_iff.mp hstop).1

/-- The positions of a block's fields are computed when the fields can be read. -/
private theorem zlibBlock_eq_ok_iff :
    zlibBlock host fork table i = .ok piece ↔ ZlibBlockAt host fork table i piece := by
  rw [zlibBlock]
  simp only [bind_eq_ok, orDecmpfs_eq_ok_iff, Option.bind_eq_some_iff, checkedAdd_eq_some_iff,
    checkedMulUsize_eq_some_iff]
  constructor
  · rintro ⟨_, ⟨_, ⟨-, rfl⟩, _, ⟨-, rfl⟩, -, rfl⟩, offset, hoffset, len, hlen, _, ⟨-, rfl⟩, _,
      ⟨hfit, rfl⟩, block, hblock, hpiece⟩
    exact ⟨offset, len, block, hoffset, hlen, hfit, hblock, orDecmpfs_eq_ok_iff.mp hpiece⟩
  · rintro ⟨offset, len, block, hoffset, hlen, hfit, hblock, hpiece⟩
    have hentry := pos_lt_of_decmpfsLeU32 hoffset
    exact ⟨_, ⟨_, ⟨by omega, rfl⟩, _, ⟨by omega, rfl⟩, by omega, rfl⟩, offset, hoffset, len, hlen,
      _, ⟨by omega, rfl⟩, _, ⟨hfit, rfl⟩, block, hblock, orDecmpfs_eq_ok_iff.mpr hpiece⟩

/-- A loop that appends what each step gives. -/
private theorem foldlM_append_eq_ok_iff {f : ℕ → Result Bytes} {l : List ℕ} {out d : Bytes} :
    l.foldlM (fun out i => f i >>= fun piece => .ok (out ++ piece)) out = .ok d ↔
      ∃ pieces, List.Forall₂ (fun i piece => f i = .ok piece) l pieces ∧
        out ++ pieces.flatten = d := by
  induction l generalizing out with
  | nil =>
    simp only [List.forall₂_nil_left_iff, exists_eq_left, List.flatten_nil, List.append_nil]
    exact Except.ok.injEq out d ▸ Iff.rfl
  | cons i l ih =>
    rw [List.foldlM_cons, bind_eq_ok]
    constructor
    · rintro ⟨next, hstep, hrest⟩
      obtain ⟨piece, hpiece, hnext⟩ := bind_eq_ok.mp hstep
      cases hnext
      obtain ⟨pieces, hpieces, rfl⟩ := ih.mp hrest
      exact ⟨piece :: pieces, .cons hpiece hpieces, by
        rw [List.flatten_cons, List.append_assoc]⟩
    · rintro ⟨_, hall, rfl⟩
      cases hall with
      | @cons _ piece _ pieces hpiece hpieces =>
        refine ⟨out ++ piece, bind_eq_ok.mpr ⟨piece, hpiece, rfl⟩, ih.mpr ⟨pieces, hpieces, ?_⟩⟩
        rw [List.flatten_cons, List.append_assoc]

/-- The loop over the slots reaches the length exactly when the chunks have what is missing. -/
private theorem chunkLoop_ok_iff {out : Bytes} :
    (∃ d, chunkLoop host alg fork size n i src out = .ok d ∧ d.length = size) ↔
      ∃ left, out.length + left = size ∧ ChunksHave host alg fork n i src left := by
  induction n generalizing i src out with
  | zero =>
    constructor
    · rintro ⟨d, ⟨⟩, hd⟩
      exact ⟨0, hd, .done 0 i src⟩
    · rintro ⟨left, hleft, h⟩
      cases h
      exact ⟨out, rfl, hleft⟩
  | succ n ih =>
    rw [chunkLoop]
    by_cases hfull : out.length ≥ size
    · -- the loop ends early
      rw [if_pos hfull]
      constructor
      · rintro ⟨d, ⟨⟩, hd⟩
        exact ⟨0, hd, .done _ i src⟩
      · rintro ⟨left, hleft, -⟩
        exact ⟨out, rfl, by omega⟩
    · rw [if_neg hfull]
      constructor
      · rintro ⟨d, hd, hsize⟩
        obtain ⟨_, hcast, hd⟩ := bind_eq_ok.mp hd
        obtain ⟨stop, hstop, rfl⟩ := map_eq_ok.mp hcast
        split_ifs at hd with hback
        · exact absurd hd (fail_ne_ok _ _)
        · obtain ⟨bytes, hbytes, hd⟩ := bind_eq_ok.mp hd
          obtain ⟨piece, hpiece, hd⟩ := bind_eq_ok.mp hd
          obtain ⟨left, hleft, hrest⟩ := ih.mp ⟨d, hd, hsize⟩
          rw [List.length_append] at hleft
          refine ⟨size - out.length, by omega, .chunk (by omega) hstop (Nat.le_of_not_lt hback)
            (orDecmpfs_eq_ok_iff.mp hbytes) (decodeChunk_eq_ok_iff.mp hpiece) (by omega) ?_⟩
          rwa [show size - out.length - piece.length = left by omega]
      · rintro ⟨left, hleft, h⟩
        cases h with
        | done => omega
        | @chunk _ _ _ stop _ bytes piece hne hstop hle hbytes hpiece hlen hrest =>
          have hleft' : (out ++ piece).length + (left - piece.length) = size := by
            rw [List.length_append]
            omega
          obtain ⟨d, hd, hsize⟩ := ih.mpr ⟨left - piece.length, hleft', hrest⟩
          refine ⟨d, bind_eq_ok.mpr ⟨_, map_eq_ok.mpr ⟨stop, hstop, rfl⟩, ?_⟩, hsize⟩
          rw [if_neg (Nat.not_lt.mpr hle)]
          refine bind_eq_ok.mpr ⟨bytes, orDecmpfs_eq_ok_iff.mpr hbytes,
            bind_eq_ok.mpr ⟨piece, decodeChunk_eq_ok_iff.mpr ?_, hd⟩⟩
          rwa [show size - out.length = left by omega]

private theorem decodeChunkedResourceFork_ok_iff :
    (∃ d, decodeChunkedResourceFork host alg fork size = .ok d ∧ d.length = size) ↔
      ∃ headerSize, decmpfsLeU32 host fork 0 = .ok headerSize ∧
        host.asUsize headerSize / 4 ≠ 0 ∧
        ChunksHave host alg fork (host.asUsize headerSize / 4 - 1) 0
          (host.asUsize headerSize) size := by
  constructor
  · rintro ⟨d, hd, hsize⟩
    obtain ⟨_, hcast, hd⟩ := bind_eq_ok.mp hd
    obtain ⟨headerSize, hheader, rfl⟩ := map_eq_ok.mp hcast
    split_ifs at hd with hslots
    · exact absurd hd (fail_ne_ok _ _)
    · obtain ⟨left, hleft, hchunks⟩ := chunkLoop_ok_iff.mp ⟨d, hd, hsize⟩
      rw [List.length_nil, Nat.zero_add] at hleft
      exact ⟨headerSize, hheader, hslots, hleft ▸ hchunks⟩
  · rintro ⟨headerSize, hheader, hslots, hchunks⟩
    have hstart : ([] : Bytes).length + size = size := Nat.zero_add size
    obtain ⟨d, hd, hsize⟩ := chunkLoop_ok_iff.mpr ⟨size, hstart, hchunks⟩
    exact ⟨d, bind_eq_ok.mpr ⟨_, map_eq_ok.mpr ⟨headerSize, hheader, rfl⟩,
      (if_neg hslots).trans hd⟩, hsize⟩

private theorem decodeZlibResourceFork_eq_ok_iff {d : Bytes} :
    decodeZlibResourceFork host fork = .ok d ↔
      ∃ headerSize count pieces, decmpfsBeU32 host fork 0 = .ok headerSize ∧
        decmpfsLeU32 host fork (host.asUsize headerSize + 4) = .ok count ∧
        List.Forall₂ (ZlibBlockAt host fork (host.asUsize headerSize + 4))
          (List.range (host.asUsize count)) pieces ∧ pieces.flatten = d := by
  rw [decodeZlibResourceFork]
  simp only [bind_eq_ok, orDecmpfs_eq_ok_iff, checkedAdd_eq_some_iff, foldlM_append_eq_ok_iff,
    zlibBlock_eq_ok_iff, List.nil_append]
  constructor
  · rintro ⟨headerSize, hheader, _, ⟨-, rfl⟩, count, hcount, pieces, hpieces, hd⟩
    exact ⟨headerSize, count, pieces, hheader, hcount, hpieces, hd⟩
  · rintro ⟨headerSize, count, pieces, hheader, hcount, hpieces, hd⟩
    have hfit := pos_lt_of_decmpfsLeU32 hcount
    exact ⟨headerSize, hheader, _, ⟨by omega, rfl⟩, count, hcount, pieces, hpieces, hd⟩

private theorem decodeResourceFork_ok_iff :
    (∃ d, decodeResourceFork host alg fork size = .ok d ∧ d.length = size) ↔
      ForkHas host fork size alg := by
  constructor
  · rintro ⟨d, hd, hsize⟩
    cases alg with
    | zlib =>
      obtain ⟨headerSize, count, pieces, hheader, hcount, hpieces, rfl⟩ :=
        decodeZlibResourceFork_eq_ok_iff.mp hd
      exact .zlib hheader hcount hpieces hsize
    | lzBitmap => exact absurd hd (fail_ne_ok _ _)
    | lzvn | lzfse | uncompressed =>
      obtain ⟨headerSize, hheader, hslots, hchunks⟩ :=
        decodeChunkedResourceFork_ok_iff.mp ⟨d, hd, hsize⟩
      exact .chunked (by decide) hheader hslots hchunks
  · intro h
    cases h with
    | zlib hheader hcount hblocks hsize =>
      exact ⟨_, decodeZlibResourceFork_eq_ok_iff.mpr ⟨_, _, _, hheader, hcount, hblocks, rfl⟩,
        hsize⟩
    | chunked halg hheader hslots hchunks =>
      have hdecode := decodeChunkedResourceFork_ok_iff.mpr ⟨_, hheader, hslots, hchunks⟩
      simp only [List.mem_cons, List.not_mem_nil, or_false] at halg
      rcases halg with rfl | rfl | rfl
      all_goals exact hdecode

/-- The types of inline payloads. -/
private theorem inlineType_cases (h : classify ct = some ⟨alg, .inline⟩) :
    (ct = 1 ∧ alg = .uncompressed) ∨ (ct = 9 ∧ alg = .uncompressed) ∨ (ct = 3 ∧ alg = .zlib) ∨
      (ct = 7 ∧ alg = .lzvn) ∨ (ct = 11 ∧ alg = .lzfse) ∨ alg = .lzBitmap := by
  rw [classify.eq_def] at h
  split at h <;> cases h <;> simp

/-- The inline payloads of the types that the decoder takes apart inline. -/
private theorem decodeInline_ok_iff (hkind : classify ct = some ⟨alg, .inline⟩) :
    (∃ d, decodeInline host alg payload size ct = .ok d ∧ d.length = size) ↔
      InlineHas host ct payload size := by
  constructor
  · rintro ⟨d, hd, rfl⟩
    rcases inlineType_cases hkind with ⟨rfl, rfl⟩ | ⟨rfl, rfl⟩ | ⟨rfl, rfl⟩ | ⟨rfl, rfl⟩ |
      ⟨rfl, rfl⟩ | rfl
    · cases hd
      exact .held .verbatim
    · cases hd
      cases payload with
      | nil => exact .empty rfl rfl
      | cons b d => exact .held (.prefixed b)
    · rw [decodeInline] at hd
      split_ifs at hd with hmark
      · cases hd
        obtain ⟨d, rfl⟩ := List.head?_eq_some_iff.mp hmark
        exact .held .zlibRaw
      · exact .held (.zlib hmark (orDecmpfs_eq_ok_iff.mp hd))
    · rw [decodeInline] at hd
      split_ifs at hd with hmark
      · cases hd
        obtain ⟨d, rfl⟩ := List.head?_eq_some_iff.mp hmark
        exact .held .lzvnRaw
      · exact .held (.lzvn hmark (orDecmpfs_eq_ok_iff.mp hd))
    · exact .held (.lzfse (orDecmpfs_eq_ok_iff.mp hd))
    · exact absurd hd (fail_ne_ok _ _)
  · intro h
    cases h with
    | held h =>
      obtain ⟨-, alg', hkind', -, hdecode⟩ := h.decode
      rw [hkind, Option.some.injEq, Compression.mk.injEq] at hkind'
      rw [hkind'.1]
      exact ⟨_, hdecode, rfl⟩
    | empty hct hnil =>
      subst hct hnil
      cases hkind
      exact ⟨[], rfl, rfl⟩

/-- **A payload is decoded exactly when it has as many bytes as the header declares**, as they are
left by the cast. -/
theorem decompressDecmpfs_ok_iff {resourceFork : Option Bytes} {declared : ℕ}
    (hsize : uncompressedSizeOf host header = .ok declared) :
    (∃ out, decompressDecmpfs host header resourceFork = .ok out) ↔
      PayloadHas host header resourceFork (host.asUsize declared) := by
  have hlen : decmpfsHeaderLen ≤ header.length := by
    by_contra hshort
    rw [uncompressedSizeOf, if_pos (Nat.lt_of_not_le hshort)] at hsize
    exact absurd hsize (fail_ne_ok _ _)
  have hpayload : slice header decmpfsHeaderLen header.length =
      some (header.drop decmpfsHeaderLen) := by
    rw [slice_of_le hlen le_rfl, List.take_of_length_le (by rw [List.length_drop])]
  rw [decompressDecmpfs, hsize, map_ok, ok_bind]
  constructor
  · rintro ⟨out, h⟩
    obtain ⟨ct, hct, h⟩ := bind_eq_ok.mp h
    cases hkind : classify ct with
    | none =>
      rw [hkind] at h
      split_ifs at h <;> exact absurd h (fail_ne_ok _ _)
    | some kind =>
      simp only [hkind] at h
      split_ifs at h with halg
      · exact absurd h (fail_ne_ok _ _)
      · obtain ⟨decoded, hdecode, h⟩ := bind_eq_ok.mp h
        split_ifs at h with hdeclared
        · exact absurd h (fail_ne_ok _ _)
        · obtain ⟨alg, storage⟩ := kind
          rw [decodePayload] at hdecode
          cases storage with
          | inline =>
            simp only [hpayload, orDecmpfs, ok_bind] at hdecode
            exact .inline hct hkind
              ((decodeInline_ok_iff hkind).mp ⟨decoded, hdecode, not_not.mp hdeclared⟩)
          | resourceFork =>
            obtain ⟨f, hf, hdecode⟩ := bind_eq_ok.mp hdecode
            exact .fork hct hkind (orDecmpfs_eq_ok_iff.mp hf)
              (decodeResourceFork_ok_iff.mp ⟨decoded, hdecode, not_not.mp hdeclared⟩)
  · intro h
    cases h with
    | @inline ct alg hct hkind h =>
      obtain ⟨d, hd, hdeclared⟩ := (decodeInline_ok_iff hkind).mpr h
      refine ⟨d, bind_eq_ok.mpr ⟨ct, hct, ?_⟩⟩
      have halg : alg ≠ .lzBitmap := by
        rintro rfl
        exact absurd hd (fail_ne_ok _ _)
      simp only [hkind, if_neg halg, decodePayload, hpayload, orDecmpfs, ok_bind, hd,
        if_neg (not_not.mpr hdeclared)]
    | @fork ct alg f hct hkind hfork h =>
      obtain ⟨d, hd, hdeclared⟩ := decodeResourceFork_ok_iff.mpr h
      refine ⟨d, bind_eq_ok.mpr ⟨ct, hct, ?_⟩⟩
      have halg : alg ≠ .lzBitmap := by
        rintro rfl
        exact absurd hd (fail_ne_ok _ _)
      simp only [hkind, if_neg halg, decodePayload, hfork, orDecmpfs, ok_bind, hd,
        if_neg (not_not.mpr hdeclared)]

end Decode

end ApfsCore
