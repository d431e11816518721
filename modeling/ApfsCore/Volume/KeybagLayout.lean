import ApfsCore.General.Packing
import ApfsCore.Volume.Keybag

/-!
# Keybags, written and read back

A `kb_locker` stores its entries one behind the other, each padded to a multiple of sixteen
bytes. `read_keybag` finds an entry by adding up the padded lengths before it, and looks at its
header only. Read back from a keybag that has been cut anywhere, the state is that of the entries
whose headers lie inside the cut (`keybagEntries_take`).
-/

namespace ApfsCore

/-- A `keybag_entry_t`. -/
structure KeybagEntry where
  uuid : Bytes
  tag : ℕ
  reserved : Bytes
  keydata : Bytes
  length_uuid : uuid.length = 16
  tag_lt : tag < 65536
  length_reserved : reserved.length = 4
  length_keydata : keydata.length ≤ 65535

namespace KeybagEntry

/-- The bytes of an entry: its header, and the key. -/
def bytes (e : KeybagEntry) : Bytes :=
  e.uuid ++ (leBytes 2 e.tag ++ (leBytes 2 e.keydata.length ++ (e.reserved ++ e.keydata)))

/-- The size of an entry. -/
def size (e : KeybagEntry) : ℕ :=
  e.bytes.length

/-- The size of an entry's header. -/
def headerLen (_ : KeybagEntry) : ℕ :=
  24

theorem size_eq (e : KeybagEntry) : e.size = 24 + e.keydata.length := by
  simp only [size, bytes, List.length_append, length_leBytes, e.length_uuid, e.length_reserved]
  omega

end KeybagEntry

/-- A `kb_locker` of the given entries, which are laid out in `area`. The last twelve bytes of
its header are not looked at. -/
def kbLocker (version : ℕ) (entries : List KeybagEntry) (reserved area : Bytes) : Bytes :=
  leBytes 2 version ++ (leBytes 2 entries.length ++ reserved) ++ area

/-- The raw tag of each entry, and its offset, for entries stored from `base` on. -/
def tagsFrom (base : ℕ) (entries : List KeybagEntry) : List (ℕ × ℕ) :=
  entries.zipIdx.map fun ei => (ei.1.tag, startOf 16 KeybagEntry.size base entries ei.2)

/-- The state of a keybag with the given entries. -/
def keybagState (entries : List KeybagEntry) : EncryptionState where
  encrypted := decide (∃ e ∈ entries, e.tag = 1 ∨ e.tag = 2 ∨ e.tag = 3)
  tagsPresent := (entries.map fun e => KeybagTag.fromU16 e.tag).eraseDups
  hasPassphraseHint := decide (∃ e ∈ entries, e.tag = 4)
  unknownTags := (tagsFrom 16 entries).filter fun t => KeybagTag.fromU16 t.1 = .unknown

/-! ### The walk over a cut keybag -/

theorem tagsFrom_cons (base : ℕ) (e : KeybagEntry) (entries : List KeybagEntry) :
    tagsFrom base (e :: entries) =
      (e.tag, base) :: tagsFrom (base + roundUp 16 e.size) entries := by
  rw [tagsFrom, List.zipIdx_cons, List.map_cons, startOf_zero, List.zipIdx_succ, List.map_map]
  congr 1
  refine List.map_congr_left fun ei _ => ?_
  simp only [Function.comp_apply, startOf_cons_succ]

/-- The header of an entry, read off the keybag. -/
private theorem readHeader {data front after : Bytes} {e : KeybagEntry}
    (hdata : data = front ++ (e.bytes ++ after)) :
    leU16 data (front.length + 16) = e.tag ∧
      leU16 data (front.length + 18) = e.keydata.length := by
  have htag : e.tag < 256 ^ 2 := e.tag_lt
  have hkey : e.keydata.length < 256 ^ 2 := Nat.lt_succ_of_le e.length_keydata
  refine ⟨?_, ?_⟩
  · have hread := readLE_append_leBytes (a := front ++ e.uuid)
      (b := leBytes 2 e.keydata.length ++ (e.reserved ++ e.keydata) ++ after) htag
    rw [List.length_append, e.length_uuid] at hread
    simpa only [hdata, leU16, KeybagEntry.bytes, List.append_assoc] using hread
  · have hread := readLE_append_leBytes (a := front ++ (e.uuid ++ leBytes 2 e.tag))
      (b := e.reserved ++ e.keydata ++ after) hkey
    rw [List.length_append, List.length_append, e.length_uuid, length_leBytes] at hread
    simpa only [hdata, leU16, KeybagEntry.bytes, List.append_assoc] using hread

/-- **The walk over a cut keybag.** From an entry on, the walk visits the entries whose headers
lie inside the cut. -/
private theorem keybagEntries_take {data : Bytes} {n : ℕ} {entries : List KeybagEntry}
    {front area : Bytes} (hdata : data = front ++ area)
    (hpacked : Packed 16 (entries.map KeybagEntry.bytes) area) :
    keybagEntries (data.take n) entries.length front.length =
      tagsFrom front.length
        (fitting 16 KeybagEntry.size KeybagEntry.headerLen n front.length entries) := by
  induction entries generalizing front area with
  | nil => rfl
  | cons e entries ih =>
    obtain ⟨after, rfl, hnext⟩ := hpacked.exists_append
    obtain ⟨htag, hkey⟩ := readHeader hdata
    have hlen : front.length + 24 ≤ data.length := by
      have hsize := e.size_eq
      rw [KeybagEntry.size] at hsize
      simp only [hdata, List.length_append]
      omega
    rw [List.length_cons, keybagEntries, fitting, List.length_take]
    by_cases hfit : front.length + e.headerLen ≤ n
    · have hcut : front.length + 24 ≤ n := hfit
      rw [if_neg (by omega), if_pos hfit, tagsFrom_cons]
      simp only [leU16] at htag hkey ⊢
      rw [readLE_take (by omega), readLE_take (by omega), htag, hkey]
      congr 1
      rcases hnext with hnil | ⟨pad, rest, rfl, hpad, hrest⟩
      · -- nothing follows the last entry
        rw [List.map_eq_nil_iff] at hnil
        subst hnil
        rfl
      · have hround : roundUp 16 e.size = (24 + e.keydata.length + 15) / 16 * 16 := by
          rw [e.size_eq]
          rfl
        have hoff : (front ++ (e.bytes ++ pad)).length = front.length + roundUp 16 e.size := by
          rw [List.length_append, hpad, KeybagEntry.size]
        have hdata' : data = (front ++ (e.bytes ++ pad)) ++ rest := by
          rw [hdata, List.append_assoc, List.append_assoc]
        have htail := ih hdata' hrest
        rw [hoff] at htail
        rw [← htail, Nat.max_eq_left (by omega), hround]
    · have hcut : ¬front.length + 24 ≤ n := hfit
      rw [if_pos (by omega), if_neg hfit]
      rfl

/-! ### The state -/

/-- The tags recorded are the tags met, without the later duplicates. -/
theorem foldl_addTag (rawTags : List ℕ) :
    rawTags.foldl addTag [] = (rawTags.map KeybagTag.fromU16).eraseDups := by
  induction rawTags using List.reverseRecOn with
  | nil => rfl
  | append_singleton rawTags r ih =>
    rw [List.foldl_append, ih, List.map_append, List.eraseDups_append]
    simp only [List.foldl_cons, List.foldl_nil, addTag, List.mem_eraseDups, List.map_cons,
      List.map_nil, List.removeAll, List.filter_cons, List.filter_nil, List.elem_eq_mem]
    by_cases hmem : KeybagTag.fromU16 r ∈ rawTags.map KeybagTag.fromU16
    · rw [if_pos hmem]
      simp only [hmem, decide_true, Bool.not_true, Bool.false_eq_true, if_false,
        List.eraseDups_nil, List.append_nil]
    · rw [if_neg hmem]
      simp only [hmem, decide_false, Bool.not_false, if_true, List.eraseDups_cons,
        List.filter_nil, List.eraseDups_nil]

theorem map_fst_tagsFrom (base : ℕ) (entries : List KeybagEntry) :
    (tagsFrom base entries).map Prod.fst = entries.map KeybagEntry.tag := by
  induction entries generalizing base with
  | nil => rfl
  | cons e entries ih => rw [tagsFrom_cons, List.map_cons, List.map_cons, ih]

/-- Which raw tags are read as key material, and which as the hint. -/
theorem fromU16_eq_iff (rawTag : ℕ) :
    (KeybagTag.fromU16 rawTag = .wrappingKey ↔ rawTag = 1) ∧
      (KeybagTag.fromU16 rawTag = .volumeKey ↔ rawTag = 2) ∧
      (KeybagTag.fromU16 rawTag = .volumeUnlockRecords ↔ rawTag = 3) ∧
      (KeybagTag.fromU16 rawTag = .volumePassphraseHint ↔ rawTag = 4) := by
  unfold KeybagTag.fromU16
  split <;> simp_all

/-- The state made of the entries visited is the state of the entries. -/
theorem ofEntries_tagsFrom (entries : List KeybagEntry) :
    EncryptionState.ofEntries (tagsFrom 16 entries) = keybagState entries := by
  have htags : ((tagsFrom 16 entries).map Prod.fst).foldl addTag [] =
      (entries.map fun e => KeybagTag.fromU16 e.tag).eraseDups := by
    rw [map_fst_tagsFrom, foldl_addTag, List.map_map]
    rfl
  have hmem : ∀ t, t ∈ (entries.map fun e => KeybagTag.fromU16 e.tag).eraseDups ↔
      ∃ e ∈ entries, KeybagTag.fromU16 e.tag = t := by
    intro t
    rw [List.mem_eraseDups, List.mem_map]
  unfold EncryptionState.ofEntries keybagState
  rw [htags]
  dsimp only
  congr 1
  · rw [Bool.eq_iff_iff, List.any_eq_true, decide_eq_true_eq]
    simp only [decide_eq_true_eq, hmem]
    constructor
    · rintro ⟨t, ⟨e, he, rfl⟩, ht⟩
      obtain ⟨h₁, h₂, h₃, -⟩ := fromU16_eq_iff e.tag
      exact ⟨e, he, by rwa [h₁, h₂, h₃] at ht⟩
    · rintro ⟨e, he, ht⟩
      obtain ⟨h₁, h₂, h₃, -⟩ := fromU16_eq_iff e.tag
      exact ⟨_, ⟨e, he, rfl⟩, by rwa [h₁, h₂, h₃]⟩
  · rw [decide_eq_decide, hmem]
    exact exists_congr fun e => and_congr_right fun _ => (fromU16_eq_iff e.tag).2.2.2

/-! ### Reading back -/

section Locker

variable (version : ℕ) {entries : List KeybagEntry} {reserved area : Bytes}

/-- A cut keybag yields the entries whose headers fit. -/
theorem readKeybag_take (hcount : entries.length ≤ 4096) (hreserved : reserved.length = 12)
    (hpacked : Packed 16 (entries.map KeybagEntry.bytes) area) (n : ℕ) :
    readKeybag ((kbLocker version entries reserved area).take n) =
      .ok (keybagState (fitting 16 KeybagEntry.size KeybagEntry.headerLen n 16 entries)) := by
  have hfront : (leBytes 2 version ++ (leBytes 2 entries.length ++ reserved)).length = 16 := by
    simp only [List.length_append, length_leBytes, hreserved]
  have hdata : kbLocker version entries reserved area =
      leBytes 2 version ++ (leBytes 2 entries.length ++ reserved) ++ area :=
    rfl
  have hwalk := keybagEntries_take (n := n) hdata hpacked
  rw [hfront] at hwalk
  have hcount' : n < 4 ∨ leU16 ((kbLocker version entries reserved area).take n) 2 =
      entries.length := by
    by_cases hn : n < 4
    · exact .inl hn
    · have hlt : entries.length < 256 ^ 2 := by omega
      have hread := readLE_append_leBytes (a := leBytes 2 version) (b := reserved ++ area) hlt
      rw [length_leBytes] at hread
      refine .inr ?_
      rw [leU16, readLE_take (by omega), kbLocker, List.append_assoc, List.append_assoc]
      exact hread
  rw [readKeybag, ← ofEntries_tagsFrom]
  congr 2
  rcases hcount' with hshort | hcount'
  · -- the count is cut off, and no entry is looked for
    have hnone : fitting 16 KeybagEntry.size KeybagEntry.headerLen n 16 entries = [] := by
      cases entries with
      | nil => rfl
      | cons e entries => rw [fitting, if_neg (by rw [KeybagEntry.headerLen]; omega)]
    have hzero : leU16 ((kbLocker version entries reserved area).take n) 2 = 0 := by
      have hslice : slice ((kbLocker version entries reserved area).take n) 2 (2 + 2) = none := by
        rw [slice_eq_none_iff, List.length_take]
        omega
      rw [leU16, readLE, hslice]
    rw [hnone, hzero]
    rfl
  · rw [hcount', maxKeybagEntries, Nat.min_eq_left hcount]
    exact hwalk

/-- What reading back a keybag gives: the state of its entries, and that of the entries whose
headers a cut leaves. -/
structure KeybagReadBack (version : ℕ) (entries : List KeybagEntry) (reserved area : Bytes) :
    Prop where
  whole : readKeybag (kbLocker version entries reserved area) = .ok (keybagState entries)
  cut : ∀ n, ∃ k,
    FirstFitting 16 KeybagEntry.size KeybagEntry.headerLen n 16 entries k ∧
      readKeybag ((kbLocker version entries reserved area).take n) =
        .ok (keybagState (entries.take k))

end Locker

/-- **Keybags are read back.** For every list of at most 4096 entries. -/
theorem keybag_read_back (version : ℕ) (entries : List KeybagEntry) (reserved area : Bytes)
    (hcount : entries.length ≤ 4096) (hreserved : reserved.length = 12)
    (hpacked : Packed 16 (entries.map KeybagEntry.bytes) area) :
    KeybagReadBack version entries reserved area := by
  have hheader : ∀ e : KeybagEntry, e.headerLen ≤ e.size := by
    intro e
    rw [e.size_eq]
    exact Nat.le_add_right _ _
  refine ⟨?_, fun n => ?_⟩
  · have hall : fitting 16 KeybagEntry.size KeybagEntry.headerLen
        (kbLocker version entries reserved area).length 16 entries = entries := by
      refine fitting_eq_self fun i e he => ?_
      have hend : startOf 16 KeybagEntry.size 16 entries i + e.size ≤ 16 + area.length :=
        hpacked.end_le 16 he
      have hle := hheader e
      simp only [kbLocker, List.length_append, length_leBytes, hreserved]
      omega
    have htake := readKeybag_take version hcount hreserved hpacked
      (kbLocker version entries reserved area).length
    rwa [List.take_length, hall] at htake
  · obtain ⟨k, hk, htake⟩ := exists_fitting (show 0 < 16 by norm_num) hheader n 16 entries
    exact ⟨k, hk, by rw [readKeybag_take version hcount hreserved hpacked, htake]⟩

/-- A wrapped volume key of five bytes. -/
private def sampleVolumeKey : KeybagEntry :=
  ⟨List.replicate 16 1, 2, List.replicate 4 0, List.replicate 5 9, rfl, by decide, rfl, by decide⟩

/-- An entry of an unknown tag, without a key. -/
private def sampleUnknown : KeybagEntry :=
  ⟨List.replicate 16 2, 7, List.replicate 4 0, [], rfl, by decide, rfl, by decide⟩

/-- The two entries, zero-padded. -/
private def sampleArea : Bytes :=
  sampleVolumeKey.bytes ++ (List.replicate 3 0 ++ (sampleUnknown.bytes ++ List.replicate 8 0))

/-- The unknown tag is found behind the padded key. -/
theorem sample_keybag_read_back :
    readKeybag (kbLocker 1 [sampleVolumeKey, sampleUnknown] (List.replicate 12 0) sampleArea) =
      .ok ⟨true, [.volumeKey, .unknown], false, [(7, 48)]⟩ := by
  have hpacked : Packed 16 ([sampleVolumeKey, sampleUnknown].map KeybagEntry.bytes) sampleArea :=
    .cons (by decide) (.last _ _)
  have hread := (keybag_read_back 1 [sampleVolumeKey, sampleUnknown] (List.replicate 12 0)
    sampleArea (by decide) List.length_replicate hpacked).whole
  have hstate : keybagState [sampleVolumeKey, sampleUnknown] =
      ⟨true, [.volumeKey, .unknown], false, [(7, 48)]⟩ := by
    decide
  rw [hread, hstate]

end ApfsCore
