import ApfsCore.Content.Forks

/-!
# Inline payloads and one-block forks

A compressed file of at most one chunk can keep its payload after the header or in a resource
fork. The decoder treats the two alike except for one thing: the marker byte of a payload that
is stored as it is (`0xFF` for zlib, `0x06` for LZVN) is looked for only after the header.
This is the whole difference: what decodes inline decodes from the fork exactly when it is not
such a payload (`Codec.RawStored`).
-/

namespace ApfsCore

/-- The codecs that have a type for inline payloads and one for resource forks. -/
inductive Codec where
  | zlib
  | lzvn
  | lzfse
  deriving DecidableEq

namespace Codec

def algorithm : Codec → Algorithm
  | zlib => .zlib
  | lzvn => .lzvn
  | lzfse => .lzfse

/-- The type of an inline payload. -/
def inlineType : Codec → ℕ
  | zlib => 3
  | lzvn => 7
  | lzfse => 11

/-- The type of a payload in the resource fork. -/
def forkType : Codec → ℕ
  | zlib => 4
  | lzvn => 8
  | lzfse => 12

/-- The linked decompressor of a codec. -/
def decode (host : Host) : Codec → Bytes → ℕ → Result Bytes
  | zlib, p, _ => inflate host p
  | lzvn, p, n => lzvnDecode host p n
  | lzfse, p, _ => lzfseDecode host p

/-- The first byte of an inline payload that is stored as it is. -/
def marker : Codec → Option UInt8
  | zlib => some 0xFF
  | lzvn => some 0x06
  | lzfse => none

/-- The payload starts with the marker of its codec. -/
def Marked (c : Codec) (p : Bytes) : Prop :=
  c.marker ≠ none ∧ p.head? = c.marker

instance (c : Codec) (p : Bytes) : Decidable (c.Marked p) :=
  inferInstanceAs (Decidable (_ ∧ _))

/-- The payload is a file of `n` bytes stored as it is. An empty file in a chunked fork is left
out: its chunk is never read. -/
def RawStored (c : Codec) (p : Bytes) (n : ℕ) : Prop :=
  c.Marked p ∧ p.length = n + 1 ∧ (c = zlib ∨ n ≠ 0)

theorem classify_inlineType (c : Codec) : classify c.inlineType = some ⟨c.algorithm, .inline⟩ := by
  cases c <;> rfl

theorem classify_forkType (c : Codec) :
    classify c.forkType = some ⟨c.algorithm, .resourceFork⟩ := by
  cases c <;> rfl

theorem algorithm_ne_lzBitmap (c : Codec) : c.algorithm ≠ .lzBitmap := by
  cases c <;> decide

theorem inlineType_lt (c : Codec) : c.inlineType < 2 ^ 32 := by
  cases c <;> decide

theorem forkType_lt (c : Codec) : c.forkType < 2 ^ 32 := by
  cases c <;> decide

end Codec

/-- The resource fork of a codec that holds one block, the payload. -/
inductive OneBlockFork : Codec → Bytes → Bytes → Prop
  | zlib {f p : Bytes} {headerSize : ℕ} (h : ZlibFork f headerSize [p]) : OneBlockFork .zlib p f
  | lzvn {p : Bytes} (h : (chunkedFork [] [p]).length < 2 ^ 32) :
    OneBlockFork .lzvn p (chunkedFork [] [p])
  | lzfse {p : Bytes} (h : (chunkedFork [] [p]).length < 2 ^ 32) :
    OneBlockFork .lzfse p (chunkedFork [] [p])

/-- An LZVN stream that starts with the end-of-stream opcode `0x06` holds no data. -/
def LzvnStops (host : Host) : Prop :=
  ∀ (rest : Bytes) (n : ℕ) (out : Bytes), host.lzvn (0x06 :: rest) n = some out → out = []

section

variable {host : Host} {c : Codec} {p f d : Bytes} {n : ℕ}

private theorem lt_of_le_chunkSize {bits m : ℕ} (hbits : 32 ≤ bits) (hm : m ≤ chunkSize) :
    m < 2 ^ bits :=
  calc
    m ≤ chunkSize := hm
    _ < 2 ^ 32 := by decide
    _ ≤ 2 ^ bits := Nat.pow_le_pow_right (by decide) hbits

/-- A result that has to pass a length check. -/
private theorem bind_check_eq_ok_iff {r : Result Bytes} {e : ApfsError} :
    (r >>= fun out => if out.length ≠ n then fail e else .ok out) = .ok d ↔
      r = .ok d ∧ d.length = n := by
  cases r with
  | error e' => exact ⟨fun h => (nomatch h), fun h => (nomatch h.1)⟩
  | ok out =>
    rw [ok_bind]
    constructor
    · intro h
      by_cases hlen : out.length = n
      · rw [if_neg (not_not.mpr hlen)] at h
        cases h
        exact ⟨rfl, hlen⟩
      · rw [if_pos hlen] at h
        cases h
    · rintro ⟨h, hlen⟩
      cases h
      rw [if_neg (not_not.mpr hlen)]

/-- An inline payload is its tail when it is marked, and goes to the decompressor otherwise. -/
theorem decodeInline_codec :
    decodeInline host c.algorithm p n c.inlineType =
      if c.Marked p then .ok (p.drop 1) else c.decode host p n := by
  cases c with
  | zlib =>
    refine if_congr ?_ rfl rfl
    exact (and_iff_right (Option.some_ne_none _)).symm
  | lzvn =>
    refine if_congr ?_ rfl rfl
    exact (and_iff_right (Option.some_ne_none _)).symm
  | lzfse => exact (if_neg fun h => h.1 rfl).symm

/-- The one block of a chunked fork goes to the decompressor, unless nothing is wanted. -/
private theorem decodeChunkedResourceFork_one {alg : Algorithm}
    (hlt : (chunkedFork [] [p]).length < 2 ^ 32)
    (hfit : (chunkedFork [] [p]).length < 2 ^ host.usizeBits) (hn : n ≤ chunkSize) :
    decodeChunkedResourceFork host alg (chunkedFork [] [p]) n =
      if n = 0 then .ok [] else decodeChunk host alg p n := by
  rw [decodeChunkedResourceFork_of_chunkedFork (m := 0) rfl hlt hfit]
  by_cases hzero : n = 0
  · rw [if_pos hzero, chunkLoop_of_done (by rw [hzero]; exact le_rfl)]
  · have hmin : min (n - ([] : Bytes).length) chunkSize = n := by
      rw [List.length_nil, Nat.sub_zero, Nat.min_eq_left hn]
    have hstep := @chunkLoop_step host _ alg hfit n 0 0 _ [] p [] (holdsChunks_chunkedFork hlt)
      (Nat.pos_of_ne_zero hzero)
    rw [if_neg hzero]
    refine hstep.trans ?_
    rw [hmin]
    -- no slot is left after the block, so the loop ends with what it has decoded
    cases decodeChunk host alg p n with
    | error e => rfl
    | ok out => rfl

/-- The block of a one-block fork goes to the decompressor, marked or not. -/
theorem decodeResourceFork_codec (hf : OneBlockFork c p f) (hfit : f.length < 2 ^ host.usizeBits)
    (hn : n ≤ chunkSize) :
    decodeResourceFork host c.algorithm f n =
      if c ≠ .zlib ∧ n = 0 then .ok [] else c.decode host p n := by
  cases hf with
  | zlib h =>
    rw [if_neg fun h => h.1 rfl]
    refine (decodeZlibResourceFork_of_fork h hfit).trans ?_
    rw [List.foldlM_cons]
    change _ = inflate host p
    cases inflate host p with
    | error e => rfl
    | ok out => rfl
  | lzvn h =>
    refine (decodeChunkedResourceFork_one h hfit hn).trans ?_
    exact if_congr (and_iff_right (by decide)).symm rfl rfl
  | lzfse h =>
    refine (decodeChunkedResourceFork_one h hfit hn).trans ?_
    exact if_congr (and_iff_right (by decide)).symm rfl rfl

/-- What the decoder makes of an inline payload. -/
theorem decompress_inline_eq_ok_iff (hbits : 32 ≤ host.usizeBits) (hn : n ≤ chunkSize)
    (hfit : (encodeDecmpfsHeader c.inlineType n ++ p).length < 2 ^ host.usizeBits) :
    decompressDecmpfs host (encodeDecmpfsHeader c.inlineType n ++ p) none = .ok d ↔
      (if c.Marked p then .ok (p.drop 1) else c.decode host p n) = .ok d ∧ d.length = n := by
  rw [decompressDecmpfs_header hfit (hn.trans_lt (by decide)) (lt_of_le_chunkSize hbits hn)
    c.inlineType_lt c.classify_inlineType c.algorithm_ne_lzBitmap, decodePayload_inline,
    decodeInline_codec]
  exact bind_check_eq_ok_iff

/-- What the decoder makes of a one-block fork. -/
theorem decompress_fork_eq_ok_iff (hbits : 32 ≤ host.usizeBits) (hn : n ≤ chunkSize)
    (hf : OneBlockFork c p f) (hfit : f.length < 2 ^ host.usizeBits) :
    decompressDecmpfs host (encodeDecmpfsHeader c.forkType n) (some f) = .ok d ↔
      (if c ≠ .zlib ∧ n = 0 then .ok [] else c.decode host p n) = .ok d ∧ d.length = n := by
  have hheader : (encodeDecmpfsHeader c.forkType n ++ []).length < 2 ^ host.usizeBits := by
    rw [List.append_nil, length_encodeDecmpfsHeader]
    exact lt_of_le_chunkSize hbits (by decide)
  have h := @decompressDecmpfs_header host c.forkType n [] _ (some f) hheader
    (hn.trans_lt (by decide)) (lt_of_le_chunkSize hbits hn) c.forkType_lt c.classify_forkType
    c.algorithm_ne_lzBitmap
  rw [List.append_nil] at h
  rw [h, decodePayload, orDecmpfs, ok_bind, decodeResourceFork_codec hf hfit hn]
  exact bind_check_eq_ok_iff

end

/-- Decompressors that reject everything. -/
def refusingHost (bits : ℕ) : Host :=
  ⟨bits, fun _ => none, fun _ _ => none, fun _ => none⟩

/-- **Inline payloads and one-block forks decode alike, except for files stored as they are.**
For each codec, payload and size, whatever the decompressors do: what decodes inline decodes to
the same file from the one-block fork, if and only if the payload is not a marker followed by
the file. -/
theorem inline_matches_fork_iff {bits : ℕ} (hbits : 32 ≤ bits) (c : Codec) {p f : Bytes} {n : ℕ}
    (hn : n ≤ chunkSize) (hf : OneBlockFork c p f) (hfork : f.length < 2 ^ bits)
    (hinline : (encodeDecmpfsHeader c.inlineType n ++ p).length < 2 ^ bits) :
    (∀ host : Host, host.usizeBits = bits → LzvnStops host → ∀ d : Bytes,
      decompressDecmpfs host (encodeDecmpfsHeader c.inlineType n ++ p) none = .ok d →
      decompressDecmpfs host (encodeDecmpfsHeader c.forkType n) (some f) = .ok d) ↔
    ¬c.RawStored p n := by
  constructor
  · -- decompressors that reject everything leave only the marker to go by
    rintro h ⟨hmarked, hlen, hpos⟩
    have hdrop : (p.drop 1).length = n := by
      rw [List.length_drop, hlen, Nat.add_sub_cancel]
    have hok := h (refusingHost bits) rfl (fun _ _ _ h => (nomatch h)) (p.drop 1)
      ((decompress_inline_eq_ok_iff hbits hn hinline).mpr ⟨if_pos hmarked, hdrop⟩)
    obtain ⟨hdecode, -⟩ := (decompress_fork_eq_ok_iff hbits hn hf hfork).mp hok
    rw [if_neg fun hzero => hpos.elim hzero.1 fun hne => hne hzero.2] at hdecode
    cases c <;> cases hdecode
  · rintro hraw host rfl - d hok
    obtain ⟨hdecode, hlen⟩ := (decompress_inline_eq_ok_iff hbits hn hinline).mp hok
    refine (decompress_fork_eq_ok_iff hbits hn hf hfork).mpr ⟨?_, hlen⟩
    by_cases hzero : c ≠ .zlib ∧ n = 0
    · rw [if_pos hzero, List.eq_nil_of_length_eq_zero (hlen.trans hzero.2)]
    · -- the marker is absent, for with it the payload would be stored as it is
      have hmarked : ¬c.Marked p := by
        intro hmarked
        rw [if_pos hmarked] at hdecode
        have hne : p ≠ [] := by
          rintro rfl
          exact hmarked.1 hmarked.2.symm
        have hdrop : p.length - 1 = n := by
          rw [← hlen, ← Except.ok.inj hdecode, List.length_drop]
        have hpos := List.length_pos_iff.mpr hne
        refine hraw ⟨hmarked, by omega, ?_⟩
        by_cases hc : c = .zlib
        · exact Or.inl hc
        · exact Or.inr fun h => hzero ⟨hc, h⟩
      rw [if_neg hmarked] at hdecode
      rw [if_neg hzero, hdecode]

private theorem lzvnStops_sampleHost : LzvnStops sampleHost := by
  intro rest n out h
  have hne : ¬(0x06 :: rest : Bytes) = lzvnSample := by
    intro heq
    exact absurd (List.cons.inj heq).1 (by decide)
  have hnone : sampleHost.lzvn (0x06 :: rest) n = none := by
    simp only [sampleHost, if_neg hne]
  rw [hnone] at h
  cases h

/-- The zlib sample decodes from its fork because it decodes inline. -/
theorem zlib_sample_decodes_from_fork :
    decompressDecmpfs sampleHost (encodeDecmpfsHeader 4 1) (some (zlibForkOne zlibSample)) =
      .ok [0x41] := by
  have hfork : OneBlockFork .zlib zlibSample (zlibForkOne zlibSample) :=
    .zlib (zlibForkOne_holds (by decide))
  have hraw : ¬Codec.RawStored .zlib zlibSample 1 := by
    rintro ⟨hmarked, -, -⟩
    exact absurd hmarked (by decide)
  exact (inline_matches_fork_iff (by decide : 32 ≤ 64) .zlib (by decide) hfork (by decide)
    (by decide)).mpr hraw sampleHost rfl lzvnStops_sampleHost _ (by decide)

/-- An LZVN decompressor that stops at its end-of-stream opcode. -/
def stoppingHost : Host where
  usizeBits := 64
  inflate := fun _ => none
  lzvn := fun data _ => if data.head? = some 0x06 then some [] else none
  lzfse := fun _ => none

/-- The file `0x41`, stored as it is, decodes inline and is refused in a fork, in both codecs
that have a marker. -/
theorem raw_stored_refused_in_fork :
    LzvnStops stoppingHost ∧
    OneBlockFork .lzvn [0x06, 0x41] (chunkedFork [] [[0x06, 0x41]]) ∧
    decompressDecmpfs stoppingHost (encodeDecmpfsHeader 7 1 ++ [0x06, 0x41]) none = .ok [0x41] ∧
    decompressDecmpfs stoppingHost (encodeDecmpfsHeader 8 1)
        (some (chunkedFork [] [[0x06, 0x41]])) =
      fail (.decmpfs "decmpfs decoded length != uncompressed_size") ∧
    OneBlockFork .zlib [0xFF, 0x41] (zlibForkOne [0xFF, 0x41]) ∧
    decompressDecmpfs stoppingHost (encodeDecmpfsHeader 3 1 ++ [0xFF, 0x41]) none = .ok [0x41] ∧
    decompressDecmpfs stoppingHost (encodeDecmpfsHeader 4 1) (some (zlibForkOne [0xFF, 0x41])) =
      fail (.decmpfs "decmpfs zlib codec error") := by
  refine ⟨?_, .lzvn (by decide), by decide, by decide, .zlib (zlibForkOne_holds (by decide)),
    by decide, by decide⟩
  intro rest n out h
  have hnil : stoppingHost.lzvn (0x06 :: rest) n = some [] := rfl
  rw [hnil] at h
  exact (Option.some.inj h).symm

end ApfsCore
