import ApfsCore.Volume.Navigate

/-!
# Reading a data stream

`read_stream` of `extent.rs` assembles the extents of a stream into one buffer. The loop is
followed position by position (`Assembles`): an extent that gives its part of a value
(`ExtentGives`) fills that part in, whatever the number, the order and the overlap of the
extents.

When the extents do not overlap, every position is filled by at most one of them, and
`readStream_of_disjoint` says which byte of the image it holds. Whatever the extents are, the
buffer that is returned has the length asked for (`length_of_readStream`).
-/

namespace ApfsCore

/-! ### What an extent gives -/

/-- The extent's logical range contains position `i` of the stream. -/
def FileExtent.Covers (ext : FileExtent) (i : ℕ) : Prop :=
  ext.logicalOffset ≤ i ∧ i < ext.logicalOffset + ext.len

instance (ext : FileExtent) (i : ℕ) : Decidable (ext.Covers i) :=
  inferInstanceAs (Decidable (_ ∧ _))

/-- An extent gives its part of a value: unless it is a hole or lies past the end, its block can
be addressed and the image holds the value's bytes from there on. -/
def ExtentGives (img : Image) (blockSize : ℕ) (value : Bytes) (ext : FileExtent) : Prop :=
  ext.physBlockNum ≠ 0 → ext.logicalOffset < value.length →
    ext.physBlockNum * blockSize < 2 ^ 64 ∧
    ∀ k < ext.len, ext.logicalOffset + k < value.length →
      img.bytes[ext.physBlockNum * blockSize + k]? = value[ext.logicalOffset + k]?

section Stream

variable {host : Host} {img : Image} {v : ApfsVolume} {blockSize streamOid : ℕ}
  {exts : List FileExtent}

/-- Bytes that are all in the image can be read. -/
private theorem readExact_of_getElem? {offset len : ℕ}
    (h : ∀ k < len, offset + k < img.bytes.length) :
    ∃ data, img.readExact offset len = .ok data ∧ data.length = len ∧
      ∀ k < len, data[k]? = img.bytes[offset + k]? := by
  by_cases hlen : len = 0
  · refine ⟨[], if_pos hlen, hlen.symm, fun k hk => ?_⟩
    omega
  · have hlast := h (len - 1) (by omega)
    have hslice : slice img.bytes offset (offset + len) = some _ :=
      slice_of_le (by omega) (by omega)
    refine ⟨_, (Image.readExact_eq_ok hlen).mpr hslice, ?_, fun k hk => ?_⟩
    · rw [length_of_slice hslice, Nat.add_sub_cancel_left]
    · exact getElem?_of_slice hslice (by omega)

/-- The fields of a recorded extent fit a 64-bit `usize`. -/
theorem asUsize_ofEntry (hbits : host.usizeBits = 64) (e : Entry) :
    host.asUsize (FileExtent.ofEntry e).logicalOffset = (FileExtent.ofEntry e).logicalOffset ∧
      host.asUsize (FileExtent.ofEntry e).len = (FileExtent.ofEntry e).len := by
  refine ⟨Host.asUsize_of_lt ?_, Host.asUsize_of_lt ?_⟩
  · rw [hbits]
    exact leU64_lt _ _
  · rw [hbits]
    exact Nat.and_le_left.trans_lt (leU64_lt _ _)

/-- So do those of every extent of a listing. -/
theorem asUsize_of_listExtents (hbits : host.usizeBits = 64)
    (hlist : listExtents img v streamOid blockSize = .ok exts) :
    ∀ ext ∈ exts,
      host.asUsize ext.logicalOffset = ext.logicalOffset ∧ host.asUsize ext.len = ext.len := by
  intro ext hext
  obtain ⟨rs, -, hrs⟩ := bind_eq_ok.mp hlist
  cases hrs
  rw [sortExtents, List.mem_insertionSort] at hext
  obtain ⟨e, -, he⟩ := List.mem_filterMap.mp hext
  split_ifs at he
  cases he
  exact asUsize_ofEntry hbits e

/-- A size that is read at all fits a 64-bit `usize`. -/
private theorem asUsize_of_le_maxFileBytes (hbits : host.usizeBits = 64) {size : ℕ}
    (hsize : size ≤ maxFileBytes) : host.asUsize size = size := by
  refine Host.asUsize_of_lt ?_
  rw [hbits]
  exact hsize.trans_lt (by decide)

/-! ### The assembly -/

/-- One step of the assembly: an extent that gives its part of the value fills it in. -/
private theorem fillExtent_assembles {value : Bytes} {ext : FileExtent}
    (husize : host.asUsize ext.logicalOffset = ext.logicalOffset ∧ host.asUsize ext.len = ext.len)
    (hext : ExtentGives img blockSize value ext) {reached : ℕ → Prop} {out : Bytes}
    (hout : Assembles 0 value reached out) :
    ∃ out', fillExtent host img blockSize value.length out ext = .ok out' ∧
      Assembles 0 value (fun i => reached i ∨ (ext.physBlockNum ≠ 0 ∧ ext.Covers i)) out' := by
  by_cases hskip : ext.logicalOffset ≥ value.length ∨ ext.physBlockNum = 0
  · -- a hole, or an extent past the end, reaches no position
    refine ⟨out, ?_, hout.congr fun i hi => ?_⟩
    · rw [fillExtent, husize.1, if_pos hskip]
    · refine or_iff_left ?_
      rintro ⟨hphys, hle, -⟩
      exact hskip.elim (fun h => by omega) hphys
  · rw [not_or] at hskip
    obtain ⟨hstart, hphys⟩ := hskip
    obtain ⟨hrange, hbytes⟩ := hext hphys (Nat.lt_of_not_ge hstart)
    -- every byte copied is a byte of the value, hence in the image
    have hin : ∀ k < min ext.len (value.length - ext.logicalOffset),
        ext.physBlockNum * blockSize + k < img.bytes.length := by
      intro k hk
      by_contra hge
      have hk' : ext.logicalOffset + k < value.length := by omega
      have hnone := hbytes k (by omega) hk'
      rw [List.getElem?_eq_none (by omega), List.getElem?_eq_getElem hk'] at hnone
      cases hnone
    obtain ⟨data, hread, hdata, hget⟩ := readExact_of_getElem? hin
    refine ⟨overwrite out ext.logicalOffset data, ?_, ?_⟩
    · rw [fillExtent, husize.1, husize.2, if_neg (not_or.mpr ⟨hstart, hphys⟩), checkedMul,
        if_pos hrange]
      simp only [hread, ok_bind]
    · have hfit : ext.logicalOffset + data.length ≤ value.length := by
        rw [hdata]
        omega
      have hover := hout.overwrite hfit fun k hk =>
        (hget k (by omega)).trans (hbytes k (by omega) (by omega))
      refine hover.congr fun i hi => or_congr_right ?_
      rw [hdata, FileExtent.Covers]
      omega

/-- The whole assembly, by induction over the extents. -/
private theorem foldlM_fillExtent_assembles {value : Bytes}
    (husize : ∀ ext ∈ exts,
      host.asUsize ext.logicalOffset = ext.logicalOffset ∧ host.asUsize ext.len = ext.len)
    (hgives : ∀ ext ∈ exts, ExtentGives img blockSize value ext) {reached : ℕ → Prop}
    {out : Bytes} (hout : Assembles 0 value reached out) :
    ∃ out', exts.foldlM (fillExtent host img blockSize value.length) out = .ok out' ∧
      Assembles 0 value
        (fun i => reached i ∨ ∃ ext ∈ exts, ext.physBlockNum ≠ 0 ∧ ext.Covers i) out' := by
  induction exts generalizing reached out with
  | nil => exact ⟨out, rfl, hout.congr fun i _ => or_iff_left (by simp)⟩
  | cons ext exts ih =>
    rw [List.forall_mem_cons] at husize hgives
    obtain ⟨out₁, hfill, hout₁⟩ := fillExtent_assembles husize.1 hgives.1 hout
    obtain ⟨out₂, hrest, hout₂⟩ := ih husize.2 hgives.2 hout₁
    refine ⟨out₂, ?_, hout₂.congr fun i _ => ?_⟩
    · rw [List.foldlM_cons, hfill, ok_bind, hrest]
    · simp only [List.exists_mem_cons_iff]
      exact or_assoc.symm

/-- A stream whose extents give a value, and reach every byte of it that is not zero, reads as
that value. -/
theorem readStream_of_gives {value : Bytes} (hbits : host.usizeBits = 64)
    (hlen : value.length ≤ maxFileBytes)
    (hlist : listExtents img v streamOid blockSize = .ok exts)
    (hgives : ∀ ext ∈ exts, ExtentGives img blockSize value ext)
    (hreach : ∀ i < value.length,
      (∃ ext ∈ exts, ext.physBlockNum ≠ 0 ∧ ext.Covers i) ∨ value[i]? = some 0) :
    readStream host img v streamOid value.length blockSize = .ok value := by
  obtain ⟨out, hfold, hout⟩ := foldlM_fillExtent_assembles (asUsize_of_listExtents hbits hlist)
    hgives (Assembles.start 0 value)
  rw [readStream, if_neg (Nat.not_lt.mpr hlen), hlist, ok_bind]
  simp only [asUsize_of_le_maxFileBytes hbits hlen, hfold]
  congr 1
  exact hout.eq_of_covered fun i hi => (hreach i hi).imp_left Or.inr

/-! ### The length of what is read -/

/-- Filling an extent in keeps the length of the buffer, wherever the extent lies. -/
theorem length_of_fillExtent {size : ℕ} {out out' : Bytes} {ext : FileExtent}
    (hout : out.length = size) (h : fillExtent host img blockSize size out ext = .ok out') :
    out'.length = size := by
  rw [fillExtent] at h
  split_ifs at h with hskip
  · cases h
    exact hout
  · rw [not_or] at hskip
    split at h
    · exact absurd h (fail_ne_ok _ _)
    · obtain ⟨data, hread, hdata⟩ := bind_eq_ok.mp h
      cases hdata
      -- what is read is no longer than what is left of the buffer
      have hlen := Image.length_of_readExact hread
      rw [length_overwrite (by omega), hout]

/-- **A stream that is read has the length asked for**, whatever its extents are. -/
theorem length_of_readStream (hbits : host.usizeBits = 64) {logicalSize : ℕ} {out : Bytes}
    (h : readStream host img v streamOid logicalSize blockSize = .ok out) :
    out.length = logicalSize := by
  rw [readStream] at h
  split_ifs at h with hcap
  · exact absurd h (fail_ne_ok _ _)
  · obtain ⟨exts, -, hfold⟩ := bind_eq_ok.mp h
    have hsize := asUsize_of_le_maxFileBytes hbits (Nat.le_of_not_lt hcap)
    simp only [hsize] at hfold
    exact foldlM_invariant (P := fun out : Bytes => out.length = logicalSize)
      (fun _ _ _ _ hout hstep => length_of_fillExtent hout hstep) List.length_replicate hfold

/-! ### Extents that do not overlap -/

/-- No position lies in the logical ranges of two of the extents. -/
def ExtentsDisjoint (exts : List FileExtent) : Prop :=
  exts.Pairwise fun a b => ∀ i, a.Covers i → ¬b.Covers i

/-- The part of an extent below `size` can be read: its block can be addressed, and the image
has the bytes. -/
def FileExtent.Readable (img : Image) (blockSize size : ℕ) (ext : FileExtent) : Prop :=
  ext.physBlockNum * blockSize < 2 ^ 64 ∧
  ∀ k < ext.len, ext.logicalOffset + k < size →
    ext.physBlockNum * blockSize + k < img.bytes.length

/-- The byte the extents put at position `i`: that of the first extent, other than a hole, whose
range contains it, and zero when there is none. -/
def streamByte (img : Image) (blockSize : ℕ) (exts : List FileExtent) (i : ℕ) : UInt8 :=
  match exts.find? fun ext => ext.physBlockNum ≠ 0 ∧ ext.Covers i with
  | some ext => img.bytes.getD (ext.physBlockNum * blockSize + (i - ext.logicalOffset)) 0
  | none => 0

/-- Of disjoint extents at most one covers a position. -/
private theorem ExtentsDisjoint.eq_of_covers (h : ExtentsDisjoint exts) {a b : FileExtent} {i : ℕ}
    (ha : a ∈ exts) (hb : b ∈ exts) (hai : a.Covers i) (hbi : b.Covers i) : a = b := by
  have : Std.Symm fun a b : FileExtent => ∀ i, a.Covers i → ¬b.Covers i :=
    ⟨fun _ _ hab i hbi hai => hab i hai hbi⟩
  by_contra hne
  exact List.Pairwise.forall h ha hb hne i hai hbi

/-- The byte at a position that an extent covers is the extent's. -/
private theorem ExtentsDisjoint.streamByte_eq (h : ExtentsDisjoint exts) {ext : FileExtent}
    {i : ℕ} (hext : ext ∈ exts) (hphys : ext.physBlockNum ≠ 0) (hi : ext.Covers i) :
    streamByte img blockSize exts i =
      img.bytes.getD (ext.physBlockNum * blockSize + (i - ext.logicalOffset)) 0 := by
  cases hfind : exts.find? fun ext => ext.physBlockNum ≠ 0 ∧ ext.Covers i with
  | none =>
    have hnone := List.find?_eq_none.mp hfind ext hext
    exact absurd (decide_eq_true ⟨hphys, hi⟩) hnone
  | some ext' =>
    have hcovers : ext'.physBlockNum ≠ 0 ∧ ext'.Covers i := by
      simpa only [decide_eq_true_eq] using List.find?_some hfind
    obtain rfl := h.eq_of_covers (List.mem_of_find?_eq_some hfind) hext hcovers.2 hi
    simp only [streamByte, hfind]

/-- The byte at a position that no extent covers, other than a hole, is zero. -/
private theorem streamByte_of_uncovered {i : ℕ}
    (h : ∀ ext ∈ exts, ext.physBlockNum ≠ 0 → ¬ext.Covers i) :
    streamByte img blockSize exts i = 0 := by
  have hfind : (exts.find? fun ext => ext.physBlockNum ≠ 0 ∧ ext.Covers i) = none := by
    refine List.find?_eq_none.mpr fun ext hext hdec => ?_
    have hcovers := of_decide_eq_true hdec
    exact h ext hext hcovers.1 hcovers.2
  simp only [streamByte, hfind]

/-- **Assembly of disjoint extents.** When the logical ranges of the extents do not overlap and
the part below the stream's size of each extent that starts there can be read, the stream reads
with the length asked for; the byte at each position is the image's byte at the matching place
of the extent that covers it, and zero where only holes, or nothing, cover it. -/
theorem readStream_of_disjoint (hbits : host.usizeBits = 64) {logicalSize : ℕ}
    (hsize : logicalSize ≤ maxFileBytes)
    (hlist : listExtents img v streamOid blockSize = .ok exts) (hdisj : ExtentsDisjoint exts)
    (hread : ∀ ext ∈ exts, ext.physBlockNum ≠ 0 → ext.logicalOffset < logicalSize →
      ext.Readable img blockSize logicalSize) :
    ∃ out, readStream host img v streamOid logicalSize blockSize = .ok out ∧
      out.length = logicalSize ∧
      ∀ i < logicalSize,
        (∀ ext ∈ exts, ext.physBlockNum ≠ 0 → ext.Covers i →
          ∃ b, img.bytes[ext.physBlockNum * blockSize + (i - ext.logicalOffset)]? = some b ∧
            out[i]? = some b) ∧
        ((∀ ext ∈ exts, ext.physBlockNum ≠ 0 → ¬ext.Covers i) → out[i]? = some 0) := by
  have hlen : ((List.range logicalSize).map (streamByte img blockSize exts)).length =
      logicalSize := by
    rw [List.length_map, List.length_range]
  have hget : ∀ i < logicalSize,
      ((List.range logicalSize).map (streamByte img blockSize exts))[i]? =
        some (streamByte img blockSize exts i) := by
    intro i hi
    rw [List.getElem?_map, List.getElem?_range hi]
    rfl
  -- at a position an extent covers, the buffer and the image have the same byte
  have hbyte : ∀ ext ∈ exts, ext.physBlockNum ≠ 0 → ∀ i < logicalSize, ext.Covers i →
      img.bytes[ext.physBlockNum * blockSize + (i - ext.logicalOffset)]? =
        some (streamByte img blockSize exts i) := by
    intro ext hext hphys i hi hcov
    obtain ⟨hle, hlt⟩ := id hcov
    have hin := (hread ext hext hphys (hle.trans_lt hi)).2 (i - ext.logicalOffset) (by omega)
      (by omega)
    rw [hdisj.streamByte_eq hext hphys hcov, List.getD_eq_getElem?_getD,
      List.getElem?_eq_getElem hin, Option.getD_some]
  refine ⟨(List.range logicalSize).map (streamByte img blockSize exts), ?_, hlen, ?_⟩
  · conv_lhs => rw [← hlen]
    refine readStream_of_gives hbits (hlen.symm ▸ hsize) hlist (fun ext hext hphys hstart => ?_)
      fun i hi => ?_
    · rw [hlen] at hstart ⊢
      refine ⟨(hread ext hext hphys hstart).1, fun k hk hlt => ?_⟩
      have hb := hbyte ext hext hphys (ext.logicalOffset + k) hlt
        ⟨Nat.le_add_right _ _, Nat.add_lt_add_left hk _⟩
      rw [Nat.add_sub_cancel_left] at hb
      rw [hb, hget _ hlt]
    · rw [hlen] at hi
      by_cases hcov : ∃ ext ∈ exts, ext.physBlockNum ≠ 0 ∧ ext.Covers i
      · exact Or.inl hcov
      · refine Or.inr ?_
        rw [hget i hi, streamByte_of_uncovered fun ext hext hphys hi => hcov ⟨ext, hext, hphys, hi⟩]
  · intro i hi
    refine ⟨fun ext hext hphys hcov => ?_, fun hno => ?_⟩
    · exact ⟨_, hbyte ext hext hphys i hi hcov, hget i hi⟩
    · rw [hget i hi, streamByte_of_uncovered hno]

end Stream

/-! A stream of 12 bytes with a hole, a gap, an extent that crosses its end, an empty extent
inside another, and an extent past the end whose block is not in the image. -/

/-- The extent record of a stream at the given offset, length and block. -/
private def encodeExtent (streamOid offset len phys : ℕ) : Entry :=
  ⟨encodeJkey 8 streamOid ++ leBytes 8 offset, leBytes 8 len ++ leBytes 8 phys ++ leBytes 8 0⟩

/-- An image with a tree of one leaf, and two blocks of data. -/
def sparseImage : Image :=
  ⟨encodeObjectMap 1 400 ++ encodeNode 7 0 [encodeOmapEntry 10 1 2] 400 ++
    encodeNode 3 0 [encodeExtent 30 10 20 4, encodeExtent 30 0 4 3, encodeExtent 30 4 4 0,
      encodeExtent 30 2 0 4, encodeExtent 30 40 20 999] 400 ++
    [1, 2, 3, 4] ++ List.replicate 396 9 ++ [5, 6] ++ List.replicate 398 9, by decide +kernel⟩

/-- The volume over it, at transaction 1. -/
def sparseVolume : ApfsVolume :=
  ⟨0, 1, 0, 0, 0, 0, 0, 0, 10, 0, 0, [], 0, []⟩

/-- A 64-bit target whose decompressors reject everything. -/
def bareHost : Host :=
  ⟨64, fun _ => none, fun _ _ => none, fun _ => none⟩

/-- The extents, in logical order. -/
private def sparseExtents : List FileExtent :=
  [⟨0, 4, 3⟩, ⟨2, 0, 4⟩, ⟨4, 4, 0⟩, ⟨10, 20, 4⟩, ⟨40, 20, 999⟩]

private theorem sparse_disjoint : ExtentsDisjoint sparseExtents := by
  simp only [ExtentsDisjoint, sparseExtents, List.pairwise_cons, List.mem_cons, List.not_mem_nil,
    or_false, forall_eq_or_imp, forall_eq, FileExtent.Covers, false_imp_iff, implies_true,
    List.Pairwise.nil, and_true]
  refine ⟨⟨?_, ?_, ?_, ?_⟩, ⟨?_, ?_, ?_⟩, ⟨?_, ?_⟩, ?_⟩
  all_goals exact fun i hi hi' => by omega

/-- The stream reads: its eleventh byte comes from the extent that crosses the end, and the sixth
lies in the hole. -/
theorem sparse_stream_read :
    ∃ out, readStream bareHost sparseImage sparseVolume 30 12 400 = .ok out ∧ out.length = 12 ∧
      out[10]? = some 5 ∧ out[5]? = some 0 := by
  have hlist : listExtents sparseImage sparseVolume 30 400 = .ok sparseExtents := by
    decide +kernel
  have hread : ∀ ext ∈ sparseExtents, ext.physBlockNum ≠ 0 → ext.logicalOffset < 12 →
      ext.Readable sparseImage 400 12 := by
    intro ext hext hphys hstart
    simp only [sparseExtents, List.mem_cons, List.not_mem_nil, or_false] at hext
    rcases hext with rfl | rfl | rfl | rfl | rfl
    · exact ⟨by decide, by decide +kernel⟩
    · exact ⟨by decide, by decide +kernel⟩
    · exact absurd rfl hphys
    · exact ⟨by decide, by decide +kernel⟩
    · exact absurd hstart (by decide)
  obtain ⟨out, hout, hlen, hbytes⟩ := readStream_of_disjoint (rfl : bareHost.usizeBits = 64)
    (by decide : 12 ≤ maxFileBytes) hlist sparse_disjoint hread
  refine ⟨out, hout, hlen, ?_, ?_⟩
  · obtain ⟨b, himg, hb⟩ := (hbytes 10 (by decide)).1 ⟨10, 20, 4⟩ (by decide) (by decide)
      (by decide)
    rw [hb, ← himg]
    decide +kernel
  · exact (hbytes 5 (by decide)).2 (by decide)

end ApfsCore
