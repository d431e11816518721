import ApfsCore.Volume.Navigate

/-!
# Path resolution by directory listings

`open_path` descends by `lookup_child`, a scan that stops at the first record of the wanted
name. Listing the directory and looking for the name in the listing gives the same answer,
since both read the same records through the same decoder (`childNamed_eq_find?`). A path
therefore resolves as if every directory on the way were listed (`ListedPath`), and only its
non-empty components matter.
-/

namespace ApfsCore

/-! ### Components -/

/-- The non-empty components of a path. -/
def pathComponents (path : Str) : List Str :=
  (path.splitOn '/').filter (· ≠ [])

/-- A slash only separates: the components around it are those of the two sides. -/
theorem pathComponents_append_slash (left right : Str) :
    pathComponents (left ++ '/' :: right) = pathComponents left ++ pathComponents right := by
  rw [pathComponents, List.splitOn_append_cons_self, List.filter_append, pathComponents,
    pathComponents]

theorem pathComponents_nil : pathComponents [] = [] := by
  decide

/-- A slash at the start, at the end, or next to another one changes nothing. -/
theorem pathComponents_extra_slash (path left right : Str) :
    pathComponents ('/' :: path) = pathComponents path ∧
      pathComponents (path ++ ['/']) = pathComponents path ∧
      pathComponents (left ++ '/' :: '/' :: right) = pathComponents (left ++ '/' :: right) := by
  have hlead : ∀ path, pathComponents ('/' :: path) = pathComponents path := by
    intro path
    have h := pathComponents_append_slash [] path
    rwa [List.nil_append, pathComponents_nil, List.nil_append] at h
  refine ⟨hlead path, ?_, ?_⟩
  · rw [pathComponents_append_slash, pathComponents_nil, List.append_nil]
  · rw [pathComponents_append_slash, hlead, pathComponents_append_slash]

/-! ### Lookup and listing -/

/-- The first entry of a listing with the given name. -/
def entryNamed (name : Str) (entries : List DirEntry) : Option DirEntry :=
  entries.find? fun entry => entry.name = name

/-- The scan of `lookup_child` finds the first entry of that name in the listing. -/
theorem childNamed_eq_find? (parentOid : ℕ) (name : Str) (rs : List Entry) :
    childNamed parentOid name rs =
      (entryNamed name (dirEntries parentOid rs)).map DirEntry.fileId := by
  unfold childNamed entryNamed dirEntries
  induction rs with
  | nil => rfl
  | cons e rs ih =>
    rw [List.findSome?_cons, List.filterMap_cons]
    cases dirEntryOf parentOid e with
    | none => exact ih
    | some entry =>
      rw [List.find?_cons]
      by_cases hname : entry.name = name
      · simp only [hname, if_true, decide_true, Option.map_some]
      · simp only [hname, if_false, decide_false]
        exact ih

/-- `lookup_child` fails as the listing fails, and otherwise answers from it. -/
theorem lookupChild_eq_listDir (img : Image) (v : ApfsVolume) (parentOid : ℕ) (name : Str)
    (blockSize : ℕ) :
    lookupChild img v parentOid name blockSize =
      (fun entries => (entryNamed name entries).map DirEntry.fileId) <$>
        listDir img v parentOid blockSize := by
  rw [lookupChild, listDir]
  cases forEachFsRecordForOid img v blockSize parentOid with
  | error e => rfl
  | ok rs => rw [map_ok, map_ok, map_ok, childNamed_eq_find?]

theorem entryNamed_eq_none {name : Str} {entries : List DirEntry} :
    entryNamed name entries = none ↔ ∀ entry ∈ entries, entry.name ≠ name := by
  rw [entryNamed, List.find?_eq_none]
  simp only [decide_eq_true_eq, ne_eq]

theorem entryNamed_spec {name : Str} {entries : List DirEntry} {entry : DirEntry}
    (h : entryNamed name entries = some entry) : entry ∈ entries ∧ entry.name = name :=
  ⟨List.mem_of_find?_eq_some h, by simpa using List.find?_some h⟩

/-- Where no two entries share a name, each is the first of its name. -/
theorem entryNamed_of_nodup {entries : List DirEntry}
    (hnodup : (entries.map DirEntry.name).Nodup) {entry : DirEntry} (hmem : entry ∈ entries) :
    entryNamed entry.name entries = some entry := by
  cases hfound : entryNamed entry.name entries with
  | none => exact absurd rfl (entryNamed_eq_none.mp hfound entry hmem)
  | some found =>
    obtain ⟨hmem', hname⟩ := entryNamed_spec hfound
    rw [List.inj_on_of_nodup_map hnodup hmem' hmem hname]

/-! ### Descent by listings -/

section Descent

variable (img : Image) (v : ApfsVolume) (blockSize : ℕ)

/-- Descending from a directory through a list of components, each looked up in the listing of
the directory reached. -/
inductive ListedPath : ℕ → List Str → ℕ → Prop
  | refl (p : ℕ) : ListedPath p [] p
  | step {p q : ℕ} {c : Str} {cs : List Str} {entries : List DirEntry} {entry : DirEntry} :
      listDir img v p blockSize = .ok entries → entryNamed c entries = some entry →
        ListedPath entry.fileId cs q → ListedPath p (c :: cs) q

/-- The path leads to inode `q`. -/
def LeadsTo (path : Str) (q : ℕ) : Prop :=
  ListedPath img v blockSize rootDirInoNum (pathComponents path) q

/-- The descent along the path ends at directory `p`, whose listing fails. -/
def ListingFails (path : Str) (p : ℕ) (e : ApfsError) : Prop :=
  ∃ done c rest, pathComponents path = done ++ c :: rest ∧
    ListedPath img v blockSize rootDirInoNum done p ∧ listDir img v p blockSize = fail e

/-- The descent along the path ends at directory `p`, whose listing has no entry of the next
name. -/
def EntryMissing (path : Str) (p : ℕ) : Prop :=
  ∃ done c rest entries, pathComponents path = done ++ c :: rest ∧
    ListedPath img v blockSize rootDirInoNum done p ∧
    listDir img v p blockSize = .ok entries ∧ ∀ entry ∈ entries, entry.name ≠ c

/-- What paths mean in terms of the directory listings. -/
structure PathsByListing : Prop where
  resolves : ∀ path q, LeadsTo img v blockSize path q →
    openPath img v path blockSize = loadInode img v q blockSize
  listing_fails : ∀ path p e, ListingFails img v blockSize path p e →
    openPath img v path blockSize = fail e
  entry_missing : ∀ path p, EntryMissing img v blockSize path p →
    openPath img v path blockSize = fail (.omapUnresolved p v.xid)
  exhaustive : ∀ path, (∃ q, LeadsTo img v blockSize path q) ∨
    (∃ p e, ListingFails img v blockSize path p e) ∨ ∃ p, EntryMissing img v blockSize path p
  same_components : ∀ path path', pathComponents path = pathComponents path' →
    openPath img v path blockSize = openPath img v path' blockSize
  extra_slashes : ∀ path left right,
    openPath img v ('/' :: path) blockSize = openPath img v path blockSize ∧
    openPath img v (path ++ ['/']) blockSize = openPath img v path blockSize ∧
    openPath img v (left ++ '/' :: '/' :: right) blockSize =
      openPath img v (left ++ '/' :: right) blockSize
  lookup_listed : ∀ p entries, listDir img v p blockSize = .ok entries →
    (entries.map DirEntry.name).Nodup → ∀ entry ∈ entries,
      lookupChild img v p entry.name blockSize = .ok (some entry.fileId)

variable {img v blockSize}

/-- One component, by the listing of the directory. -/
theorem openComponent_eq_listDir (p : ℕ) (c : Str) :
    openComponent img v blockSize p c =
      listDir img v p blockSize >>= fun entries =>
        match entryNamed c entries with
        | some entry => .ok entry.fileId
        | none => fail (.omapUnresolved p v.xid) := by
  rw [openComponent, lookupChild_eq_listDir]
  cases listDir img v p blockSize with
  | error e => rfl
  | ok entries =>
    rw [map_ok, ok_bind, ok_bind]
    cases entryNamed c entries <;> rfl

theorem named_listDir (p : ℕ) : Named (listDir img v p blockSize) :=
  (named_walkFsTree img v blockSize (some p)).map _

/-- A descent by listings is the descent of `open_path`. -/
theorem ListedPath.foldlM_eq_ok {p q : ℕ} {cs : List Str}
    (h : ListedPath img v blockSize p cs q) :
    cs.foldlM (openComponent img v blockSize) p = .ok q := by
  induction h with
  | refl p => rfl
  | step hlist hentry _ ih =>
    rw [List.foldlM_cons, openComponent_eq_listDir, hlist, ok_bind, hentry]
    exact ih

/-- A descent ends at its last component, or at the first directory whose listing fails or has
no entry of the next name. -/
theorem listedPath_or_stop (cs : List Str) (p : ℕ) :
    (∃ q, ListedPath img v blockSize p cs q) ∨
      ∃ done c rest q, cs = done ++ c :: rest ∧ ListedPath img v blockSize p done q ∧
        ((∃ e, listDir img v q blockSize = fail e) ∨
          ∃ entries, listDir img v q blockSize = .ok entries ∧
            ∀ entry ∈ entries, entry.name ≠ c) := by
  induction cs generalizing p with
  | nil => exact .inl ⟨p, .refl p⟩
  | cons c cs ih =>
    cases hlist : listDir img v p blockSize with
    | error e =>
      obtain ⟨e', rfl⟩ := named_listDir p e hlist
      exact .inr ⟨[], c, cs, p, rfl, .refl p, .inl ⟨e', hlist⟩⟩
    | ok entries =>
      cases hentry : entryNamed c entries with
      | none =>
        have hmissing := entryNamed_eq_none.mp hentry
        exact .inr ⟨[], c, cs, p, rfl, .refl p, .inr ⟨entries, hlist, hmissing⟩⟩
      | some entry =>
        rcases ih entry.fileId with ⟨q, hq⟩ | ⟨done, c', rest, q, rfl, hq, hstop⟩
        · exact .inl ⟨q, .step hlist hentry hq⟩
        · exact .inr ⟨c :: done, c', rest, q, rfl, .step hlist hentry hq, hstop⟩

/-- `open_path` descends through the components and loads the inode it ends at. -/
theorem openPath_eq_foldlM (path : Str) :
    openPath img v path blockSize =
      (pathComponents path).foldlM (openComponent img v blockSize) rootDirInoNum >>=
        fun q => loadInode img v q blockSize :=
  rfl

/-- A component that fails at the directory reached so far is the failure of the path. -/
theorem openPath_of_stop {path : Str} {done rest : List Str} {c : Str} {p : ℕ} {e : ApfsError}
    (hpath : pathComponents path = done ++ c :: rest)
    (hdone : ListedPath img v blockSize rootDirInoNum done p)
    (hfail : openComponent img v blockSize p c = fail e) :
    openPath img v path blockSize = fail e := by
  rw [openPath_eq_foldlM, hpath, List.foldlM_append, hdone.foldlM_eq_ok, ok_bind,
    List.foldlM_cons, hfail, fail_bind, fail_bind]

end Descent

/-- **Paths resolve by listings.** On every image and volume a path resolves as if each
directory on the way were listed, the extra slashes of a path are irrelevant, and where the
names of a directory are distinct `lookup_child` finds each entry the listing has. -/
theorem paths_resolve_by_listing (img : Image) (v : ApfsVolume) (blockSize : ℕ) :
    PathsByListing img v blockSize where
  resolves path q h := by
    rw [openPath_eq_foldlM, ListedPath.foldlM_eq_ok h, ok_bind]
  listing_fails path p e h := by
    obtain ⟨done, c, rest, hpath, hdone, hlist⟩ := h
    refine openPath_of_stop hpath hdone ?_
    rw [openComponent_eq_listDir, hlist, fail_bind]
  entry_missing path p h := by
    obtain ⟨done, c, rest, entries, hpath, hdone, hlist, hmissing⟩ := h
    refine openPath_of_stop hpath hdone ?_
    rw [openComponent_eq_listDir, hlist, ok_bind, entryNamed_eq_none.mpr hmissing]
  exhaustive path := by
    rcases listedPath_or_stop (pathComponents path) rootDirInoNum with
      hq | ⟨done, c, rest, p, hpath, hdone, ⟨e, hlist⟩ | ⟨entries, hlist, hmissing⟩⟩
    · exact .inl hq
    · exact .inr (.inl ⟨p, e, done, c, rest, hpath, hdone, hlist⟩)
    · exact .inr (.inr ⟨p, done, c, rest, entries, hpath, hdone, hlist, hmissing⟩)
  same_components path path' h := by
    rw [openPath_eq_foldlM, openPath_eq_foldlM, h]
  extra_slashes path left right := by
    obtain ⟨hlead, htrail, hdouble⟩ := pathComponents_extra_slash path left right
    simp only [openPath_eq_foldlM, hlead, htrail, hdouble, and_self]
  lookup_listed p entries hlist hnodup entry hmem := by
    rw [lookupChild_eq_listDir, hlist, map_ok, entryNamed_of_nodup hnodup hmem, Option.map_some]

end ApfsCore
