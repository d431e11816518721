import ApfsCore.Content.Payloads
import ApfsCore.Content.Stream

/-!
# Casts to `usize`

`read_stream` and `decompress_decmpfs` cast 64-bit values of the image to `usize`: the size of a
stream, the offset of each extent and the length of each extent that is copied, and the size a
decmpfs header declares. Where a value does not fit, the cast drops its high bits.

`casts_faithful_iff` says, for every width of `usize`, when no content is changed this way: the
bytes returned are those that the extents put at their own offsets (`overlaidByte`), as many as were
asked for, and what does not fit is refused. On a 64-bit target everything fits
(`casts_faithful_of_usize64`).
-/

namespace ApfsCore

/-! ### Values that fit -/

/-- A value of the image is kept by the cast to `usize`. -/
def Host.Fits (host : Host) (x : ℕ) : Prop :=
  x < 2 ^ host.usizeBits

theorem Host.Fits.asUsize {host : Host} {x : ℕ} (h : host.Fits x) : host.asUsize x = x :=
  Host.asUsize_of_lt h

/-- All that `read_stream` casts fits: the size, the offsets of the extents, and the lengths of
those that are no holes and start below the end. -/
structure StreamFits (host : Host) (logicalSize : ℕ) (exts : List FileExtent) : Prop where
  size : host.Fits logicalSize
  offsets : ∀ ext ∈ exts, host.Fits ext.logicalOffset
  lengths : ∀ ext ∈ exts, ext.physBlockNum ≠ 0 → ext.logicalOffset < logicalSize →
    host.Fits ext.len

/-! ### Extents as they are filled in -/

/-- The number of bytes of an extent that are copied to a buffer of `size` bytes. -/
def FileExtent.copyLen (host : Host) (size : ℕ) (ext : FileExtent) : ℕ :=
  min (host.asUsize ext.len) (size - host.asUsize ext.logicalOffset)

/-- The extent is copied to a buffer of `size` bytes: it is no hole and starts below the end. -/
def FileExtent.Copied (host : Host) (size : ℕ) (ext : FileExtent) : Prop :=
  host.asUsize ext.logicalOffset < size ∧ ext.physBlockNum ≠ 0

/-- Byte `k` of the extent is written to position `i` of a buffer of `size` bytes. -/
structure FileExtent.Writes (host : Host) (size : ℕ) (ext : FileExtent) (k i : ℕ) : Prop where
  copied : ext.Copied host size
  lt_copyLen : k < ext.copyLen host size
  position : i = host.asUsize ext.logicalOffset + k

/-- An extent to be copied is refused: its block cannot be addressed, or its bytes leave the
image. -/
def FileExtent.Unreadable (host : Host) (img : Image) (blockSize size : ℕ) (ext : FileExtent) :
    Prop :=
  ext.Copied host size ∧
    (2 ^ 64 ≤ ext.physBlockNum * blockSize ∨
      ext.copyLen host size ≠ 0 ∧
        img.bytes.length < ext.physBlockNum * blockSize + ext.copyLen host size)

section Fill

variable {host : Host} {img : Image} {blockSize size : ℕ} {out : Bytes} {ext : FileExtent}

private theorem fillExtent_of_copied (h : ext.Copied host size) :
    fillExtent host img blockSize size out ext =
      if ext.physBlockNum * blockSize < 2 ^ 64 then
        img.readExact (ext.physBlockNum * blockSize) (ext.copyLen host size) >>= fun data =>
          .ok (overwrite out (host.asUsize ext.logicalOffset) data)
      else
        fail (.fieldOutOfRange "j_file_extent" "phys_block_num" ext.physBlockNum
          ((2 ^ 64 - 1) / blockSize)) := by
  have hcopy : ¬(host.asUsize ext.logicalOffset ≥ size ∨ ext.physBlockNum = 0) :=
    not_or.mpr ⟨Nat.not_le.mpr h.1, h.2⟩
  rw [fillExtent, if_neg hcopy, checkedMul]
  split_ifs <;> rfl

private theorem fillExtent_of_not_copied (h : ¬ext.Copied host size) :
    fillExtent host img blockSize size out ext = .ok out := by
  have hskip : host.asUsize ext.logicalOffset ≥ size ∨ ext.physBlockNum = 0 := by
    rw [FileExtent.Copied, not_and_or, not_not, Nat.not_lt] at h
    exact h
  rw [fillExtent, if_pos hskip]

/-- A read of the image succeeds when it is empty or inside. -/
private theorem readExact_ok_iff {offset len : ℕ} :
    (∃ data, img.readExact offset len = .ok data) ↔
      ¬(len ≠ 0 ∧ img.bytes.length < offset + len) := by
  by_cases hlen : len = 0
  · refine iff_of_true ⟨[], if_pos hlen⟩ fun h => h.1 hlen
  · rw [and_iff_right hlen, Nat.not_lt]
    constructor
    · rintro ⟨data, hread⟩
      exact (slice_eq_some_iff.mp ((Image.readExact_eq_ok hlen).mp hread)).2.1
    · intro h
      exact ⟨_, (Image.readExact_eq_ok hlen).mpr (slice_of_le (Nat.le_add_right _ _) h)⟩

/-- An extent is filled in unless it is refused. -/
private theorem fillExtent_ok_iff (out : Bytes) :
    (∃ out', fillExtent host img blockSize size out ext = .ok out') ↔
      ¬ext.Unreadable host img blockSize size := by
  by_cases hcopied : ext.Copied host size
  · rw [fillExtent_of_copied hcopied, FileExtent.Unreadable, and_iff_right hcopied, not_or,
      Nat.not_le, ← readExact_ok_iff]
    by_cases hoff : ext.physBlockNum * blockSize < 2 ^ 64
    · rw [if_pos hoff, and_iff_right hoff]
      constructor
      · rintro ⟨out', h⟩
        obtain ⟨data, hread, -⟩ := bind_eq_ok.mp h
        exact ⟨data, hread⟩
      · rintro ⟨data, hread⟩
        exact ⟨_, bind_eq_ok.mpr ⟨data, hread, rfl⟩⟩
    · rw [if_neg hoff]
      refine iff_of_false ?_ fun h => hoff h.1
      rintro ⟨out', h⟩
      exact fail_ne_ok _ _ h
  · rw [fillExtent_of_not_copied hcopied]
    exact iff_of_true ⟨out, rfl⟩ fun h => hcopied h.1

/-- What is written where: the bytes of the extent at the positions `Writes` says, and nothing
elsewhere. -/
theorem getElem?_fillExtent {out' : Bytes} (hout : out.length = size)
    (h : fillExtent host img blockSize size out ext = .ok out') :
    (∀ k i, ext.Writes host size k i →
      out'[i]? = img.bytes[ext.physBlockNum * blockSize + k]?) ∧
    ∀ i, (∀ k, ¬ext.Writes host size k i) → out'[i]? = out[i]? := by
  by_cases hcopied : ext.Copied host size
  · rw [fillExtent_of_copied hcopied] at h
    split_ifs at h with hoff
    · obtain ⟨data, hread, hdata⟩ := bind_eq_ok.mp h
      cases hdata
      have hlen := Image.length_of_readExact hread
      have hfit : host.asUsize ext.logicalOffset + data.length ≤ out.length := by
        have hstart := hcopied.1
        rw [hlen, FileExtent.copyLen]
        omega
      constructor
      · rintro k i ⟨-, hk, rfl⟩
        rw [getElem?_overwrite hfit, if_pos (by omega), Nat.add_sub_cancel_left]
        have hne : ext.copyLen host size ≠ 0 := by omega
        exact getElem?_of_slice ((Image.readExact_eq_ok hne).mp hread) (by omega)
      · intro i hi
        rw [getElem?_overwrite hfit, if_neg]
        rintro ⟨hle, hlt⟩
        exact hi (i - host.asUsize ext.logicalOffset) ⟨hcopied, by omega, by omega⟩
    · exact absurd h (fail_ne_ok _ _)
  · rw [fillExtent_of_not_copied hcopied] at h
    cases h
    exact ⟨fun k i hw => absurd hw.copied hcopied, fun i _ => rfl⟩

end Fill

/-! ### Whole streams -/

section Stream

variable {host : Host} {img : Image} {v : ApfsVolume} {streamOid logicalSize blockSize : ℕ}

/-- The last of the extents that is no hole and covers position `i`. -/
def lastCover (exts : List FileExtent) (i : ℕ) : Option FileExtent :=
  exts.reverse.find? fun ext => decide (ext.physBlockNum ≠ 0 ∧ ext.Covers i)

/-- The byte that the extents put at position `i`, each at its own 64-bit offset: that of the last
one that covers the position, or zero. -/
def overlaidByte (img : Image) (blockSize : ℕ) (exts : List FileExtent) (i : ℕ) : Option UInt8 :=
  match lastCover exts i with
  | none => some 0
  | some ext => img.bytes[ext.physBlockNum * blockSize + (i - ext.logicalOffset)]?

/-- The casts of `read_stream` change no content: what is returned has the size asked for, every
byte of it is the one that the extents put there, and a value that does not fit is refused. -/
structure StreamCasts (host : Host) (img : Image) (v : ApfsVolume)
    (streamOid logicalSize blockSize : ℕ) : Prop where
  length : ∀ out, readStream host img v streamOid logicalSize blockSize = .ok out →
    out.length = logicalSize
  placed : ∀ out exts, readStream host img v streamOid logicalSize blockSize = .ok out →
    listExtents img v streamOid blockSize = .ok exts →
    ∀ i < logicalSize, out[i]? = overlaidByte img blockSize exts i
  refused : ∀ exts, listExtents img v streamOid blockSize = .ok exts →
    ¬StreamFits host logicalSize exts →
    ∃ e, readStream host img v streamOid logicalSize blockSize = fail e

/-- Whatever is cast fits, or the stream is refused for another reason: its size is over the cap,
or one of its extents is unreadable. -/
def StreamNarrows (host : Host) (img : Image) (v : ApfsVolume)
    (streamOid logicalSize blockSize : ℕ) : Prop :=
  maxFileBytes < logicalSize ∨
    ∀ exts, listExtents img v streamOid blockSize = .ok exts →
      StreamFits host logicalSize exts ∨
        ∃ ext ∈ exts, ext.Unreadable host img blockSize (host.asUsize logicalSize)

/-- A stream under the cap reads exactly when all of its extents do. -/
private theorem readStream_ok_iff {exts : List FileExtent} (hcap : logicalSize ≤ maxFileBytes)
    (hlist : listExtents img v streamOid blockSize = .ok exts) :
    (∃ out, readStream host img v streamOid logicalSize blockSize = .ok out) ↔
      ∀ ext ∈ exts, ¬ext.Unreadable host img blockSize (host.asUsize logicalSize) := by
  rw [readStream, if_neg (Nat.not_lt.mpr hcap), hlist, ok_bind]
  dsimp only
  generalize List.replicate (host.asUsize logicalSize) (0 : UInt8) = out
  clear hlist
  induction exts generalizing out with
  | nil => exact iff_of_true ⟨out, rfl⟩ fun ext hext => absurd hext List.not_mem_nil
  | cons ext exts ih =>
    rw [List.forall_mem_cons, ← fillExtent_ok_iff out, List.foldlM_cons]
    constructor
    · rintro ⟨last, h⟩
      obtain ⟨next, hfill, hrest⟩ := bind_eq_ok.mp h
      exact ⟨⟨next, hfill⟩, (ih next).mp ⟨last, hrest⟩⟩
    · rintro ⟨⟨next, hfill⟩, hrest⟩
      obtain ⟨last, hlast⟩ := (ih next).mpr hrest
      exact ⟨last, bind_eq_ok.mpr ⟨next, hfill, hlast⟩⟩

/-- What fails, fails by name. -/
private theorem exists_fail {α : Type} {x : Result α} (hx : Named x) (h : ¬∃ a, x = .ok a) :
    ∃ e, x = fail e := by
  cases hval : x with
  | ok a => exact absurd ⟨a, hval⟩ h
  | error f =>
    obtain ⟨e, rfl⟩ := hx f hval
    exact ⟨e, rfl⟩

/-- A stream that is refused changes no content. -/
private theorem StreamCasts.of_refused
    (h : ¬∃ out, readStream host img v streamOid logicalSize blockSize = .ok out) :
    StreamCasts host img v streamOid logicalSize blockSize where
  length out hout := absurd ⟨out, hout⟩ h
  placed out _ hout := absurd ⟨out, hout⟩ h
  refused _ _ _ := exists_fail (named_readStream img v blockSize host streamOid logicalSize) h

/-- An extent whose cast values fit writes the positions it covers, and no others. -/
private theorem writes_iff_covers {size i : ℕ} {ext : FileExtent} (hi : i < size)
    (hoff : host.Fits ext.logicalOffset)
    (hlen : ext.physBlockNum ≠ 0 → ext.logicalOffset < size → host.Fits ext.len) :
    (∃ k, ext.Writes host size k i) ↔ ext.physBlockNum ≠ 0 ∧ ext.Covers i := by
  constructor
  · rintro ⟨k, ⟨hstart, hphys⟩, hk, hpos⟩
    rw [hoff.asUsize] at hstart hpos
    rw [FileExtent.copyLen, (hlen hphys hstart).asUsize, hoff.asUsize] at hk
    exact ⟨hphys, by omega, by omega⟩
  · rintro ⟨hphys, hle, hlt⟩
    have hstart : ext.logicalOffset < size := hle.trans_lt hi
    refine ⟨i - ext.logicalOffset, ⟨?_, hphys⟩, ?_, ?_⟩
    · rwa [hoff.asUsize]
    · rw [FileExtent.copyLen, (hlen hphys hstart).asUsize, hoff.asUsize]
      omega
    · rw [hoff.asUsize]
      omega

/-- What the loop leaves at a position: the byte of the last extent that covers it, or what was
there. -/
private theorem getElem?_fillExtents {size i : ℕ} {exts : List FileExtent} (hi : i < size)
    (hoffs : ∀ ext ∈ exts, host.Fits ext.logicalOffset)
    (hlens : ∀ ext ∈ exts, ext.physBlockNum ≠ 0 → ext.logicalOffset < size → host.Fits ext.len)
    {out last : Bytes} (hout : out.length = size)
    (h : exts.foldlM (fillExtent host img blockSize size) out = .ok last) :
    last[i]? = match lastCover exts i with
      | none => out[i]?
      | some ext => img.bytes[ext.physBlockNum * blockSize + (i - ext.logicalOffset)]? := by
  induction exts generalizing out with
  | nil =>
    cases h
    rfl
  | cons ext exts ih =>
    rw [List.forall_mem_cons] at hoffs hlens
    rw [List.foldlM_cons] at h
    obtain ⟨next, hfill, hrest⟩ := bind_eq_ok.mp h
    have hwrites := writes_iff_covers hi hoffs.1 hlens.1
    rw [ih hoffs.2 hlens.2 (length_of_fillExtent hout hfill) hrest, lastCover, lastCover,
      List.reverse_cons, List.find?_append]
    cases exts.reverse.find? fun ext => decide (ext.physBlockNum ≠ 0 ∧ ext.Covers i) with
    | some later => rfl
    | none =>
      -- no later extent covers the position, so this one decides
      obtain ⟨hwritten, hkept⟩ := getElem?_fillExtent hout hfill
      rw [Option.none_or, List.find?_singleton]
      by_cases hcovers : ext.physBlockNum ≠ 0 ∧ ext.Covers i
      · obtain ⟨k, hk⟩ := hwrites.mpr hcovers
        have hpos := hk.position
        rw [hoffs.1.asUsize] at hpos
        rw [if_pos (decide_eq_true hcovers), hwritten k i hk, hpos]
        dsimp only
        rw [Nat.add_sub_cancel_left]
      · rw [if_neg (by simpa only [decide_eq_true_eq] using hcovers)]
        exact hkept i fun k hk => hcovers (hwrites.mp ⟨k, hk⟩)

/-- Nor does one all of whose values fit. -/
private theorem StreamCasts.of_fits {exts : List FileExtent}
    (hlist : listExtents img v streamOid blockSize = .ok exts)
    (hfits : StreamFits host logicalSize exts) :
    StreamCasts host img v streamOid logicalSize blockSize := by
  have hread : ∀ out, readStream host img v streamOid logicalSize blockSize = .ok out →
      exts.foldlM (fillExtent host img blockSize logicalSize) (List.replicate logicalSize 0) =
        .ok out := by
    intro out hout
    rw [readStream, hlist, ok_bind, hfits.size.asUsize] at hout
    split_ifs at hout
    · exact absurd hout (fail_ne_ok _ _)
    · exact hout
  have hinit : (List.replicate logicalSize (0 : UInt8)).length = logicalSize :=
    List.length_replicate
  refine ⟨fun out hout => ?_, fun out exts' hout hlist' i hi => ?_, fun exts' hlist' hno => ?_⟩
  · exact foldlM_invariant (P := fun out : Bytes => out.length = logicalSize)
      (fun _ _ _ _ hlen hstep => length_of_fillExtent hlen hstep) hinit (hread out hout)
  · rw [hlist, Except.ok.injEq] at hlist'
    rw [← hlist', overlaidByte,
      getElem?_fillExtents hi hfits.offsets hfits.lengths hinit (hread out hout)]
    cases lastCover exts i with
    | none => exact List.getElem?_replicate_of_lt hi
    | some ext => rfl
  · rw [hlist, Except.ok.injEq] at hlist'
    exact absurd (hlist' ▸ hfits) hno

private theorem streamCasts_iff :
    StreamCasts host img v streamOid logicalSize blockSize ↔
      StreamNarrows host img v streamOid logicalSize blockSize := by
  by_cases hcap : maxFileBytes < logicalSize
  · refine iff_of_true (.of_refused ?_) (.inl hcap)
    rintro ⟨out, hout⟩
    rw [readStream, if_pos hcap] at hout
    exact fail_ne_ok _ _ hout
  · rw [StreamNarrows, or_iff_right hcap]
    rw [Nat.not_lt] at hcap
    constructor
    · intro h exts hlist
      by_contra hno
      rw [not_or] at hno
      -- every extent is readable, so the stream is read although a value does not fit
      obtain ⟨out, hout⟩ := (readStream_ok_iff hcap hlist).mpr fun ext hext hunreadable =>
        hno.2 ⟨ext, hext, hunreadable⟩
      obtain ⟨e, he⟩ := h.refused exts hlist hno.1
      exact fail_ne_ok e out (he.symm.trans hout)
    · intro h
      cases hlist : listExtents img v streamOid blockSize with
      | error f =>
        refine .of_refused ?_
        rintro ⟨out, hout⟩
        rw [readStream, if_neg (Nat.not_lt.mpr hcap), hlist] at hout
        cases hout
      | ok exts =>
        rcases h exts hlist with hfits | ⟨ext, hext, hunreadable⟩
        · exact .of_fits hlist hfits
        · exact .of_refused fun hout => (readStream_ok_iff hcap hlist).mp hout ext hext hunreadable

end Stream

/-! ### Payloads -/

section Payload

variable {host : Host} {header : Bytes} {fork : Option Bytes}

/-- The casts of `decompress_decmpfs` change no content: what is returned is as long as the header
declares, and a size that does not fit is refused. -/
structure DecmpfsCasts (host : Host) (header : Bytes) (fork : Option Bytes) : Prop where
  length : ∀ out, decompressDecmpfs host header fork = .ok out →
    uncompressedSizeOf host header = .ok out.length
  refused : ∀ n, uncompressedSizeOf host header = .ok n → ¬host.Fits n →
    ∃ e, decompressDecmpfs host header fork = fail e

/-- The size declared fits, or the payload is none of as many bytes as are left of it by the
cast. -/
def DecmpfsNarrows (host : Host) (header : Bytes) (fork : Option Bytes) : Prop :=
  ∀ n, uncompressedSizeOf host header = .ok n →
    host.Fits n ∨ ¬PayloadHas host header fork (host.asUsize n)

private theorem decmpfsCasts_iff :
    DecmpfsCasts host header fork ↔ DecmpfsNarrows host header fork := by
  constructor
  · intro h n hn
    by_contra hno
    rw [not_or, not_not] at hno
    obtain ⟨out, hout⟩ := (decompressDecmpfs_ok_iff hn).mpr hno.2
    obtain ⟨e, he⟩ := h.refused n hn hno.1
    exact fail_ne_ok e out (he.symm.trans hout)
  · intro h
    constructor
    · intro out hout
      obtain ⟨n, hn, hlen⟩ := length_of_decompressDecmpfs_cast hout
      have hfits := (h n hn).resolve_right
        (not_not.mpr ((decompressDecmpfs_ok_iff hn).mp ⟨out, hout⟩))
      rw [hlen, hfits.asUsize, hn]
    · intro n hn hno
      refine exists_fail (named_decompressDecmpfs host header fork) fun hok => ?_
      exact (h n hn).elim hno fun hnot => hnot ((decompressDecmpfs_ok_iff hn).mp hok)

end Payload

/-! ### When no content is changed -/

section Faithful

variable {host : Host} {img : Image} {v : ApfsVolume} {streamOid logicalSize blockSize : ℕ}
  {header : Bytes} {fork : Option Bytes}

/-- No cast of the two operations changes content. -/
structure CastsFaithful (host : Host) (img : Image) (v : ApfsVolume)
    (streamOid logicalSize blockSize : ℕ) (header : Bytes) (fork : Option Bytes) : Prop where
  stream : StreamCasts host img v streamOid logicalSize blockSize
  payload : DecmpfsCasts host header fork

/-- **Casts change no content exactly when whatever is cast fits**, or the operation is refused for
another reason. -/
theorem casts_faithful_iff :
    CastsFaithful host img v streamOid logicalSize blockSize header fork ↔
      StreamNarrows host img v streamOid logicalSize blockSize ∧
        DecmpfsNarrows host header fork :=
  ⟨fun h => ⟨streamCasts_iff.mp h.stream, decmpfsCasts_iff.mp h.payload⟩,
    fun h => ⟨streamCasts_iff.mpr h.1, decmpfsCasts_iff.mpr h.2⟩⟩

/-- On a 64-bit target no content is changed. -/
theorem casts_faithful_of_usize64 (hbits : host.usizeBits = 64) :
    CastsFaithful host img v streamOid logicalSize blockSize header fork := by
  constructor
  · refine streamCasts_iff.mpr ?_
    by_cases hcap : maxFileBytes < logicalSize
    · exact .inl hcap
    · have hpos : 0 < 2 ^ host.usizeBits := by positivity
      refine .inr fun exts hlist => .inl ⟨?_, fun ext hext => ?_, fun ext hext _ _ => ?_⟩
      · rw [Host.Fits, hbits]
        exact (Nat.le_of_not_lt hcap).trans_lt (by decide)
      · exact (asUsize_of_listExtents hbits hlist ext hext).1 ▸ Nat.mod_lt _ hpos
      · exact (asUsize_of_listExtents hbits hlist ext hext).2 ▸ Nat.mod_lt _ hpos
  · refine decmpfsCasts_iff.mpr fun n hn => .inl ?_
    rw [Host.Fits, hbits]
    exact uncompressedSizeOf_lt hn

end Faithful

/-! A 32-bit target, a stream of `2 ^ 32` bytes, and a header that declares as many. -/

/-- A 32-bit target whose decompressors reject everything. -/
def narrowHost : Host :=
  { bareHost with usizeBits := 32 }

/-- The header, of a payload stored as it is. -/
def hugeHeader : Bytes :=
  encodeDecmpfsHeader 1 (2 ^ 32)

/-- Both are read as empty. -/
theorem huge_content_read_as_empty :
    readStream narrowHost sparseImage sparseVolume 30 (2 ^ 32) 400 = .ok [] ∧
      decompressDecmpfs narrowHost hugeHeader none = .ok [] ∧
      ¬CastsFaithful narrowHost sparseImage sparseVolume 30 (2 ^ 32) 400 hugeHeader none := by
  have hread : readStream narrowHost sparseImage sparseVolume 30 (2 ^ 32) 400 = .ok [] := by
    decide +kernel
  refine ⟨hread, by decide +kernel, fun h => ?_⟩
  exact absurd (h.stream.length [] hread) (by decide)

end ApfsCore
