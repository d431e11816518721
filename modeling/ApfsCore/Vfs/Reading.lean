import ApfsCore.General.Windows
import ApfsCore.Vfs.FileSystem
import ApfsCore.Volume.Written

/-!
# Reading a file through the interface

A client of the interface has two ways to the content of a file. It can ask for windows of it
(`read_at`), which the adapter cuts out of the whole content; or it can ask where the content
lies (`extents`) and read the image itself.

* Windows reassemble the content, from any position and with buffers of any lengths, and the
  size that `meta` announces is where they end (`read_at_reassembles`).
* For a file that is not compressed and whose extents follow each other without a gap, the runs,
  read one after the other with zeros for the sparse ones, are the content too
  (`runs_carry_content`).
-/

namespace ApfsCore

namespace ApfsFs

/-- The content of an inode: what `read_at` cuts its windows out of. -/
def content (fs : ApfsFs) (host : Host) (img : Image) (oid : ℕ) : Result Bytes := do
  let inode ← loadInode img fs.volume oid fs.blockSize
  readData host img fs.volume inode fs.blockSize

/-- The bytes that `read_at` puts into a fresh buffer of `len` bytes. -/
def readBytes (fs : ApfsFs) (host : Host) (img : Image) (ino : FileId) (off len : ℕ) :
    VfsResult Bytes :=
  (fun r => r.2.take r.1) <$> fs.readAt host img ino .default off (List.replicate len 0)

end ApfsFs

section Reading

variable {fs : ApfsFs} {host : Host} {img : Image} {oid xid : ℕ} {data : Bytes}

/-- `read_at` reads the whole content and cuts the window out of it. -/
theorem readAt_eq (off : ℕ) (buf : Bytes) :
    fs.readAt host img (.apfsOid oid xid) .default off buf =
      (fun data => ApfsFs.window host data off buf) <$> mapErr (fs.content host img oid) := by
  rw [ApfsFs.readAt, oidOf, requireDefaultStream, ok_bind, ok_bind, ApfsFs.content, mapErr_bind]
  cases loadInode img fs.volume oid fs.blockSize with
  | error e => rfl
  | ok inode =>
    rw [mapErr_ok, ok_bind, ok_bind]
    cases readData host img fs.volume inode fs.blockSize <;> rfl

/-- The window of a content that fits the address space. -/
theorem window_eq (hbits : host.usizeBits = 64) (hlen : data.length < 2 ^ 64) (off : ℕ)
    (buf : Bytes) :
    ApfsFs.window host data off buf =
      ((windowAt data off buf.length).length,
        windowAt data off buf.length ++ buf.drop (windowAt data off buf.length).length) := by
  -- a position that is cut off at `usize::MAX` lies past the end either way
  have hstart : (if off < 2 ^ host.usizeBits then off else 2 ^ host.usizeBits - 1) ≥ data.length ↔
      data.length ≤ off := by
    rw [hbits]
    split_ifs <;> omega
  rw [ApfsFs.window]
  by_cases hend : data.length ≤ off
  · rw [if_pos (hstart.mpr hend), windowAt_of_length_le hend, List.length_nil, List.drop_zero,
      List.nil_append]
  · have hoff : off < 2 ^ host.usizeBits := by
      rw [hbits]
      omega
    have hslice : slice data off (off + min buf.length (data.length - off)) =
        some (windowAt data off buf.length) := by
      have hall : (data.drop off).length = data.length - off := List.length_drop
      rw [slice_of_le (by omega) (by omega), Nat.add_sub_cancel_left, windowAt,
        ← List.take_take, List.take_of_length_le hall.le]
    dsimp only
    rw [if_neg (mt hstart.mp hend), if_pos hoff]
    simp only [hslice, length_windowAt, overwrite, List.take_zero, List.nil_append, Nat.zero_add]

/-- What reading a file through windows gives, when its content is `data`. -/
structure ReadsBack (fs : ApfsFs) (host : Host) (img : Image) (ino : FileId) (data : Bytes) :
    Prop where
  /-- `meta` announces the length of the content. -/
  announced : ∃ m, fs.nodeMeta host img ino = .ok m ∧ m.size = data.length
  /-- A read puts the window at its position into the buffer, and leaves the rest of the buffer
  as it was. -/
  windows : ∀ off buf, fs.readAt host img ino .default off buf =
    .ok ((windowAt data off buf.length).length,
      windowAt data off buf.length ++ buf.drop (windowAt data off buf.length).length)
  /-- A read that returns less than it could ends at the end of the content, and past the end
  nothing is read. -/
  short : ∀ off buf n buf', fs.readAt host img ino .default off buf = .ok (n, buf') →
    n < buf.length → data.length ≤ off + n
  /-- Reads that follow each other give the content from where they start. -/
  sequence : ∀ off lens, readWindows (fs.readBytes host img ino) off lens =
    .ok (windowAt data off lens.sum)

/-- A content that can be read is read back through windows. -/
theorem ApfsFs.readsBack (hbits : host.usizeBits = 64) (xid : ℕ)
    (hdata : fs.content host img oid = .ok data) :
    ReadsBack fs host img (.apfsOid oid xid) data := by
  obtain ⟨inode, hinode, hread⟩ := bind_eq_ok.mp hdata
  obtain ⟨hsize, hlen⟩ := size_of_readData hbits hread
  have hwindow : ∀ off buf, fs.readAt host img (.apfsOid oid xid) .default off buf =
      .ok ((windowAt data off buf.length).length,
        windowAt data off buf.length ++ buf.drop (windowAt data off buf.length).length) := by
    intro off buf
    rw [readAt_eq, hdata, mapErr_ok, map_ok, window_eq hbits hlen]
  refine ⟨⟨buildMeta inode data.length, ?_, rfl⟩, hwindow, ?_, ?_⟩
  · rw [ApfsFs.nodeMeta, oidOf, ok_bind, hinode, mapErr_ok, ok_bind, hsize, mapErr_ok, ok_bind]
  · intro off buf n buf' h hshort
    rw [hwindow, Except.ok.injEq, Prod.mk.injEq, length_windowAt] at h
    omega
  · have hbytes : ∀ off len, fs.readBytes host img (.apfsOid oid xid) off len =
        .ok (windowAt data off len) := by
      intro off len
      rw [ApfsFs.readBytes, hwindow, map_ok, List.length_replicate, List.take_left']
      rfl
    exact readWindows_eq hbytes

end Reading

/-- **Windows reassemble the content.** When the content of an inode can be read, every read of
it is a window of that content, and any sequence of reads, with buffers of any lengths and from
any position, gives the content from there on, up to the size that `meta` announces. When it
cannot, every read fails the way reading the content does. -/
theorem read_at_reassembles (fs : ApfsFs) (host : Host) (img : Image) (oid xid : ℕ)
    (hbits : host.usizeBits = 64) :
    (∀ data, fs.content host img oid = .ok data →
      ReadsBack fs host img (.apfsOid oid xid) data) ∧
    ∀ f, fs.content host img oid = .error f → ∀ off buf,
      fs.readAt host img (.apfsOid oid xid) .default off buf = .error f.toVfs := by
  refine ⟨fun data hdata => fs.readsBack hbits xid hdata, fun f hf off buf => ?_⟩
  rw [readAt_eq, hf, mapErr_error, map_error]

/-- The sample volume, mounted. -/
def sampleFs : ApfsFs :=
  ⟨sampleVolume, 320, 1⟩

/-- A window of the sample file, of which two bytes are left. -/
theorem sample_window_read :
    sampleFs.readAt sampleHost sampleImage (.apfsOid 16 1) .default 1 [9, 9, 9] =
      .ok (2, [66, 67, 9]) :=
  ((read_at_reassembles sampleFs sampleHost sampleImage 16 1 rfl).1 [65, 66, 67]
    (by decide +kernel)).windows 1 [9, 9, 9]

/-! ### Runs -/

/-- Read one run off the image, as a client does. -/
def readRun (img : Image) (run : RunInfo) : Result Bytes :=
  if run.sparse then .ok (List.replicate run.len 0) else img.readExact run.imageOffset run.len

/-- Read runs off the image, one after the other. -/
def readRuns (img : Image) : List RunInfo → Result Bytes
  | [] => .ok []
  | run :: runs => do
    let piece ← readRun img run
    let rest ← readRuns img runs
    .ok (piece ++ rest)

/-- The extents follow each other without a gap, from position `start` on, and none is empty. -/
def Tiles : ℕ → List FileExtent → Prop
  | _, [] => True
  | start, ext :: exts => ext.logicalOffset = start ∧ 0 < ext.len ∧ Tiles (start + ext.len) exts

section Runs

variable {img : Image} {blockSize start : ℕ} {ext : FileExtent} {exts : List FileExtent}
  {bytes : Bytes}

/-- A run that is read is a piece of the length of its extent: zeros, or the bytes of the image. -/
theorem readRun_runOf (hlen : 0 < ext.len) (h : readRun img (runOf blockSize ext) = .ok bytes) :
    bytes.length = ext.len ∧
      if ext.physBlockNum = 0 then ∀ k < ext.len, bytes[k]? = some 0
      else ext.physBlockNum * blockSize < 2 ^ 64 ∧
        ∀ k < ext.len, bytes[k]? = img.bytes[ext.physBlockNum * blockSize + k]? := by
  by_cases hhole : ext.physBlockNum = 0
  · have hsparse : (runOf blockSize ext).sparse = true := by
      rw [runOf, hhole]
      rfl
    rw [readRun, if_pos hsparse, Except.ok.injEq] at h
    subst h
    rw [if_pos hhole]
    exact ⟨List.length_replicate, fun k hk => List.getElem?_replicate_of_lt hk⟩
  · have hsparse : ¬(runOf blockSize ext).sparse = true := by
      rw [runOf]
      exact fun h => hhole (beq_iff_eq.mp h)
    rw [readRun, if_neg hsparse] at h
    have hslice := (Image.readExact_eq_ok hlen.ne').mp h
    obtain ⟨-, hin, -⟩ := slice_eq_some_iff.mp hslice
    have himg := img.length_lt
    -- an address that is cut off at the end of the range lies past the end of the image
    have hoff : ext.physBlockNum * blockSize < 2 ^ 64 := by
      by_contra hle
      have hcut : (runOf blockSize ext).imageOffset = 2 ^ 64 - 1 := min_eq_right (by omega)
      rw [hcut] at hin
      omega
    have haddress : (runOf blockSize ext).imageOffset = ext.physBlockNum * blockSize :=
      saturatingMul_of_lt hoff
    rw [haddress] at hslice
    rw [if_neg hhole]
    refine ⟨Image.length_of_readExact h, hoff, fun k hk => ?_⟩
    exact getElem?_of_slice hslice (by rw [Nat.add_sub_cancel_left]; exact hk)

/-- What runs that tile a stream hold: at the positions of each extent its part, and nothing
else. -/
theorem readRuns_of_tiles (htiles : Tiles start exts)
    (h : readRuns img (exts.map (runOf blockSize)) = .ok bytes) :
    (∀ ext ∈ exts, start ≤ ext.logicalOffset ∧
      ext.logicalOffset - start + ext.len ≤ bytes.length ∧
      if ext.physBlockNum = 0 then ∀ k < ext.len, bytes[ext.logicalOffset - start + k]? = some 0
      else ext.physBlockNum * blockSize < 2 ^ 64 ∧ ∀ k < ext.len,
        bytes[ext.logicalOffset - start + k]? = img.bytes[ext.physBlockNum * blockSize + k]?) ∧
    ∀ i < bytes.length, ∃ ext ∈ exts, ext.Covers (start + i) := by
  induction exts generalizing start bytes with
  | nil =>
    cases h
    exact ⟨by simp, fun i hi => absurd hi (Nat.not_lt_zero _)⟩
  | cons ext exts ih =>
    obtain ⟨hstart, hpos, htiles⟩ := htiles
    rw [List.map_cons, readRuns] at h
    obtain ⟨piece, hpiece, h⟩ := bind_eq_ok.mp h
    obtain ⟨rest, hrest, h⟩ := bind_eq_ok.mp h
    cases h
    obtain ⟨hlen, hheld⟩ := readRun_runOf hpos hpiece
    obtain ⟨hparts, hcovered⟩ := ih htiles hrest
    constructor
    · refine List.forall_mem_cons.mpr ⟨⟨hstart.ge, ?_, ?_⟩, fun e he => ?_⟩
      · rw [List.length_append]
        omega
      · -- the first extent lies in the first piece
        have hfirst : ∀ k < ext.len,
            (piece ++ rest)[ext.logicalOffset - start + k]? = piece[k]? := by
          intro k hk
          rw [hstart, Nat.sub_self, Nat.zero_add, List.getElem?_append_left (by omega)]
        by_cases hhole : ext.physBlockNum = 0
        · rw [if_pos hhole] at hheld ⊢
          exact fun k hk => (hfirst k hk).trans (hheld k hk)
        · rw [if_neg hhole] at hheld ⊢
          exact ⟨hheld.1, fun k hk => (hfirst k hk).trans (hheld.2 k hk)⟩
      · obtain ⟨hge, hfits, hheld⟩ := hparts e he
        have hlater : ∀ k < e.len, (piece ++ rest)[e.logicalOffset - start + k]? =
            rest[e.logicalOffset - (start + ext.len) + k]? := by
          intro k hk
          rw [List.getElem?_append_right (by omega)]
          congr 1
          omega
        refine ⟨by omega, by rw [List.length_append]; omega, ?_⟩
        by_cases hhole : e.physBlockNum = 0
        · rw [if_pos hhole] at hheld ⊢
          exact fun k hk => (hlater k hk).trans (hheld k hk)
        · rw [if_neg hhole] at hheld ⊢
          exact ⟨hheld.1, fun k hk => (hlater k hk).trans (hheld.2 k hk)⟩
    · intro i hi
      rw [List.length_append] at hi
      rcases Nat.lt_or_ge i ext.len with hlt | hge
      · exact ⟨ext, List.mem_cons_self, by rw [FileExtent.Covers]; omega⟩
      · obtain ⟨e, he, hcovers⟩ := hcovered (i - ext.len) (by omega)
        refine ⟨e, List.mem_cons_of_mem _ he, ?_⟩
        rwa [Nat.add_assoc, Nat.add_sub_cancel' hge] at hcovers

end Runs

/-- **The runs carry the content.** For a file that is not compressed and whose extents follow each
other without a gap, `extents` answers with runs that, read one after the other, are the content:
up to its size, and with zeros behind them if it is longer. -/
theorem runs_carry_content (fs : ApfsFs) (host : Host) (img : Image) (oid xid : ℕ) (inode : Inode)
    (exts : List FileExtent) (bytes : Bytes) (hbits : host.usizeBits = 64)
    (hinode : loadInode img fs.volume oid fs.blockSize = .ok inode)
    (hplain : decmpfsHeader host img fs.volume inode.oid fs.blockSize = .ok none)
    (hsize : inode.size.getD 0 ≤ maxFileBytes)
    (hexts : listExtents img fs.volume inode.privateId fs.blockSize = .ok exts)
    (htiles : Tiles 0 exts)
    (hread : readRuns img (exts.map (runOf fs.blockSize)) = .ok bytes) :
    fs.extents img (.apfsOid oid xid) .default = .ok (exts.map (runOf fs.blockSize)) ∧
      fs.content host img oid = .ok ((bytes ++
        List.replicate (inode.size.getD 0 - bytes.length) 0).take (inode.size.getD 0)) := by
  obtain ⟨hparts, hcovered⟩ := readRuns_of_tiles htiles hread
  generalize hn : inode.size.getD 0 = size at hsize ⊢
  constructor
  · rw [ApfsFs.extents, oidOf, ok_bind, requireDefaultStream, ok_bind, hinode, mapErr_ok, ok_bind,
      hexts, mapErr_ok, ok_bind]
  · set value := (bytes ++ List.replicate (size - bytes.length) 0).take size with hvalue
    have hlen : value.length = size := by
      rw [hvalue, List.length_take, List.length_append, List.length_replicate]
      omega
    have hin : ∀ i < size, i < bytes.length → value[i]? = bytes[i]? := by
      intro i hi hb
      rw [hvalue, List.getElem?_take_of_lt hi, List.getElem?_append_left hb]
    have hpast : ∀ i < size, bytes.length ≤ i → value[i]? = some 0 := by
      intro i hi hb
      rw [hvalue, List.getElem?_take_of_lt hi, List.getElem?_append_right hb,
        List.getElem?_replicate_of_lt (by omega)]
    rw [ApfsFs.content, hinode, ok_bind, readData, hplain, ok_bind]
    dsimp only
    rw [hn, ← hlen]
    refine readStream_of_gives hbits (hlen ▸ hsize) hexts ?_ ?_
    · intro ext hext hphys hlt
      obtain ⟨-, hfits, hheld⟩ := hparts ext hext
      rw [if_neg hphys] at hheld
      simp only [Nat.sub_zero] at hheld hfits
      refine ⟨hheld.1, fun k hk hkin => ?_⟩
      rw [hin _ (hlen ▸ hkin) (by omega), hheld.2 k hk]
    · intro i hi
      rw [hlen] at hi
      rcases Nat.lt_or_ge i bytes.length with hb | hb
      · obtain ⟨ext, hext, hcovers⟩ := hcovered i hb
        rw [Nat.zero_add] at hcovers
        by_cases hhole : ext.physBlockNum = 0
        · obtain ⟨-, hfits, hheld⟩ := hparts ext hext
          rw [if_pos hhole] at hheld
          rw [FileExtent.Covers] at hcovers
          have hzero := hheld (i - ext.logicalOffset) (by omega)
          rw [Nat.sub_zero, Nat.add_sub_cancel' hcovers.1] at hzero
          exact .inr ((hin i hi hb).trans hzero)
        · exact .inl ⟨ext, hext, hhole, hcovers⟩
      · exact .inr (hpast i hi hb)

/-- The one run of the sample file carries its three bytes. -/
theorem sample_run_carries :
    sampleFs.extents sampleImage (.apfsOid 16 1) .default = .ok [⟨1600, 320, false⟩] ∧
      sampleFs.content sampleHost sampleImage 16 = .ok [65, 66, 67] := by
  obtain ⟨hruns, hcontent⟩ := runs_carry_content sampleFs sampleHost sampleImage 16 1 sampleFile
    [sampleExtent] ([65, 66, 67] ++ List.replicate 317 0) rfl (by decide +kernel)
    (by decide +kernel) (by decide) (by decide +kernel) ⟨rfl, by decide, trivial⟩
    (by decide +kernel)
  exact ⟨hruns.trans (congrArg Except.ok (by decide)),
    hcontent.trans (congrArg Except.ok (by decide +kernel))⟩

end ApfsCore
