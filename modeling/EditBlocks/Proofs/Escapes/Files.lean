import EditBlocks.Proofs.Escapes.Path

/-!
# What ends the loading and storing of files as it is

Several files are loaded one after the other, and loading fails at the first
path that fails (`Snapshot.loadFiles_eq_error_iff`). So each cause comes with
the paths before it, which were all loaded. The root by itself is a cause
only where there are no paths, as otherwise the first of them has met it.

Storing is told the same way (`Snapshot.storeFiles_eq_error_iff`), but from a
disk that the paths before have changed. By then a path has been resolved,
and an encoding has been found, because both were needed to load. What is
left is what comes after (`Snapshot.storeFiles_escapes_iff`): a null
character in a path, which may have come there past a link that leads to
itself, directories too deep to be made, and a text for which the encoding
lacks characters. No null character is left, and there is room enough, in
what the paths of most responses come to, and an encoding that is modelled
lacks no characters that it has read (`Task.exists_encode_of_plan`).
`Snapshot.not_storeEscapes` puts this together.
-/

namespace EditBlocks

namespace Snapshot

open Disk

variable [Host] {d d' : Disk} {root path : Text} {config : RunConfig} {paths : List Text}
  {e : Failure} {s : Snapshot}

/-! ## Loading

A path that leads to no file is passed over, so it counts as loaded. -/

/-- **A path that is loaded**: it is resolved, and its text is read if it
leads to a file. -/
def Loads (d : Disk) (root : Text) (config : RunConfig) (path : Text) : Prop :=
  ∃ full, d.resolve root path config.exclude = .ok full
    ∧ (d.isFile full = true → ∃ t, d.readText full config.encoding = .ok t)

/-- **How loading a path fails**: it is not resolved, or it is and the file
that it leads to cannot be read. -/
inductive LoadFails (d : Disk) (root : Text) (config : RunConfig) (path : Text) : Failure → Prop
  /-- It is not resolved. -/
  | path {cause : PathError} (h : d.resolve root path config.exclude = .error cause) :
      LoadFails d root config path (.path cause)
  /-- Its text is not read. -/
  | text {full : Text} {e : Failure} (hfull : d.resolve root path config.exclude = .ok full)
      (hfile : d.isFile full = true) (h : d.readText full config.encoding = .error e) :
      LoadFails d root config path e

theorem loads_or_loadFails (d : Disk) (root : Text) (config : RunConfig) (path : Text) :
    Loads d root config path ∨ ∃ e, LoadFails d root config path e := by
  cases hfull : d.resolve root path config.exclude with
  | error cause => exact Or.inr ⟨_, .path hfull⟩
  | ok full =>
    by_cases hfile : d.isFile full = true
    · cases ht : d.readText full config.encoding with
      | error e => exact Or.inr ⟨e, .text hfull hfile ht⟩
      | ok t => exact Or.inl ⟨full, hfull, fun _ => ⟨t, ht⟩⟩
    · exact Or.inl ⟨full, hfull, fun h => absurd h hfile⟩

theorem loadFiles_of_loads (h : Loads d root config path) (paths : List Text)
    (files : OrderedMap Text File) :
    ∃ files', loadFiles d root config (path :: paths) files
      = loadFiles d root config paths files' := by
  obtain ⟨full, hfull, hread⟩ := h
  rw [loadFiles, hfull]
  show ∃ files', (if d.isFile full = true then _ else _) = _
  split
  next hfile =>
    obtain ⟨t, ht⟩ := hread hfile
    rw [ht]
    exact ⟨_, rfl⟩
  · exact ⟨files, rfl⟩

theorem loadFiles_of_loadFails (h : LoadFails d root config path e)
    (files : OrderedMap Text File) :
    loadFiles d root config (path :: paths) files = .error e := by
  rw [loadFiles]
  cases h with
  | path h =>
    rw [h]
    rfl
  | text hfull hfile h =>
    rw [hfull]
    show (if d.isFile _ = true then _ else _) = _
    rw [if_pos hfile, h]
    rfl

/-- **Loading fails at the first path that fails.** The paths after it are
not looked at. -/
theorem loadFiles_eq_error_iff {files : OrderedMap Text File} :
    loadFiles d root config paths files = .error e
      ↔ ∃ earlier path later, paths = earlier ++ path :: later
        ∧ (∀ other ∈ earlier, Loads d root config other) ∧ LoadFails d root config path e := by
  constructor
  · intro h
    induction paths generalizing files with
    | nil => cases h
    | cons path rest ih =>
      rcases loads_or_loadFails d root config path with hloads | ⟨cause, hfails⟩
      · obtain ⟨files', hfiles⟩ := loadFiles_of_loads hloads rest files
        obtain ⟨earlier, other, later, rfl, hearlier, hfails⟩ := ih (hfiles ▸ h)
        have hearlier := List.forall_mem_cons.2 ⟨hloads, hearlier⟩
        exact ⟨path :: earlier, other, later, rfl, hearlier, hfails⟩
      · rw [loadFiles_of_loadFails hfails] at h
        cases h
        exact ⟨[], path, rest, rfl, List.forall_mem_nil _, hfails⟩
  · rintro ⟨earlier, path, later, rfl, hearlier, hfails⟩
    induction earlier generalizing files with
    | nil => exact loadFiles_of_loadFails hfails files
    | cons other rest ih =>
      obtain ⟨hother, hrest⟩ := List.forall_mem_cons.1 hearlier
      obtain ⟨files', hfiles⟩ := loadFiles_of_loads hother (rest ++ path :: later) files
      exact hfiles.trans (ih hrest)

/-- **What ends the loading of files as it is.** It comes with the paths
before, all of which were loaded, because a failure there would have come
first. -/
inductive LoadEscapes (d : Disk) (root : Text) (config : RunConfig) (paths : List Text) :
    Failure → Prop
  /-- There are no files, and the names of the root cannot be read. -/
  | root {cause : PathError} (hpaths : paths = []) (h : d.NamesEscape root cause) :
      LoadEscapes d root config paths (.path cause)
  /-- After paths that are loaded comes one that is not resolved. -/
  | path {earlier later : List Text} {path : Text} {cause : PathError}
      (hpaths : paths = earlier ++ path :: later)
      (hearlier : ∀ other ∈ earlier, Loads d root config other)
      (h : d.ResolveEscapes root path config.exclude cause) :
      LoadEscapes d root config paths (.path cause)
  /-- After paths that are loaded comes one of a file whose text is not
  read. -/
  | text {earlier later : List Text} {path full : Text} {e : Failure}
      (hpaths : paths = earlier ++ path :: later)
      (hearlier : ∀ other ∈ earlier, Loads d root config other)
      (hfull : d.resolve root path config.exclude = .ok full) (hfile : d.isFile full = true)
      (h : d.ReadEscapes full config.encoding e) : LoadEscapes d root config paths e

/-- **The loading of files ends as it is** for those causes. -/
theorem load_escapes_iff :
    (load d root paths config = .error e ∧ e.isExpected = false)
      ↔ LoadEscapes d root config paths e := by
  constructor
  · rintro ⟨h, hnot⟩
    rcases bind_eq_error_iff.1 h with h | ⟨files, hfiles, h⟩
    · obtain ⟨earlier, path, later, hpaths, hearlier, hfails⟩ := loadFiles_eq_error_iff.1 h
      cases hfails with
      | path hresolve =>
        exact .path hpaths hearlier (resolve_escapes_iff.1 ⟨hresolve, hnot⟩)
      | text hfull hfile hread =>
        exact .text hpaths hearlier hfull hfile (readText_escapes_iff.1 ⟨hread, hnot⟩)
    · rcases bind_eq_error_iff.1 h with h | ⟨r, -, h⟩
      · obtain ⟨cause, hcause, rfl⟩ := mapError_eq_error_iff.1 h
        cases paths with
        | nil => exact .root rfl (realPathFor_eq_error_iff.1 hcause)
        | cons path rest =>
          -- a path that has been resolved has been read from the root
          obtain ⟨full, hfull, -⟩ := loadFiles_cons_eq_ok_iff.1 hfiles
          obtain ⟨r, hr, -⟩ := resolve_eq_ok_iff.1 hfull
          cases hcause.symm.trans (realPathFor_eq_ok_iff.2 hr)
      · cases h
  · intro h
    cases h with
    | root hpaths h =>
      subst hpaths
      have hroot := realPathFor_eq_error_iff.2 h
      exact ⟨bind_ok_error rfl (bind_error (mapError_eq_error_iff.2 ⟨_, hroot, rfl⟩)),
        h.not_isExpected⟩
    | path hpaths hearlier h =>
      obtain ⟨hresolve, hnot⟩ := resolve_escapes_iff.2 h
      exact ⟨bind_error (loadFiles_eq_error_iff.2
        ⟨_, _, _, hpaths, hearlier, .path hresolve⟩), hnot⟩
    | text hpaths hearlier hfull hfile h =>
      obtain ⟨hread, hnot⟩ := readText_escapes_iff.2 h
      exact ⟨bind_error (loadFiles_eq_error_iff.2
        ⟨_, _, _, hpaths, hearlier, .text hfull hfile hread⟩), hnot⟩

end Snapshot

namespace Disk

variable [Host] {d d' : Disk} {full : Text} {setting : Value} {t : Text} {e : Failure}
  {encoding : Encoding}

/-! ## Writing a text

The file is emptied before its text is encoded. What the system refuses of
the two writes is refused of the first already. -/

/-- **What ends the writing of a text as it is**, in an encoding that there
is. -/
inductive WriteEscapes (d : Disk) (full : Text) (encoding : Encoding) (t : Text) : Failure → Prop
  /-- The path holds a null character. -/
  | nullByte (h : '\x00' ∈ full) : WriteEscapes d full encoding t (.disk .nullByte)
  /-- The file has been emptied, and the encoding lacks some of the text's
  characters. -/
  | unencodable {emptied : Disk} {cause : EncodingError} (hempty : d.write full [] = .ok emptied)
      (h : encoding.encode t = .error cause) : WriteEscapes d full encoding t (.encoding cause)

omit [Host] in
/-- A file that cannot be written is refused, unless its path holds a null
character. -/
theorem write_escapes_iff {bytes : List UInt8} {cause : DiskError} :
    (d.write full bytes = .error cause ∧ (Failure.disk cause).isExpected = false)
      ↔ '\x00' ∈ full ∧ cause = .nullByte := by
  constructor
  · rintro ⟨h, hnot⟩
    rcases write_error_cases h with ⟨hnull, rfl⟩ | ⟨-, reason, rfl⟩
    · exact ⟨hnull, rfl⟩
    · cases hnot
  · rintro ⟨hnull, rfl⟩
    exact ⟨write_of_null hnull bytes, rfl⟩

/-- **How the writing of a text fails**: the file is not emptied, the text is
not encoded, or its bytes are not written. -/
theorem writeText_eq_error_iff (hset : Encoding.ofSetting setting = .ok encoding) :
    (d.writeText full setting t).2 = some e
      ↔ (∃ cause, d.write full [] = .error cause ∧ e = .disk cause)
        ∨ ∃ emptied, d.write full [] = .ok emptied
          ∧ ((∃ cause, encoding.encode t = .error cause ∧ e = .encoding cause)
            ∨ ∃ bytes cause, encoding.encode t = .ok bytes
              ∧ emptied.write full bytes = .error cause ∧ e = .disk cause) := by
  obtain ⟨name, hname, hnamed⟩ := bind_eq_ok_iff.1 hset
  have hbytesOf : bytesOf name t = Failure.ofEncoding (encoding.encode t) := by
    rw [bytesOf, ofEncoding_eq_ok_iff.2 hnamed]
    rfl
  simp only [writeText, hname, hbytesOf]
  cases hempty : d.write full [] with
  | error cause => simp [eq_comm]
  | ok emptied =>
    cases hencode : encoding.encode t with
    | error cause => simp [ofEncoding_eq_error_iff.2 ⟨_, rfl, rfl⟩, eq_comm]
    | ok bytes =>
      cases hagain : emptied.write full bytes with
      | error cause => simp [ofEncoding_eq_ok_iff.2 rfl, hagain, eq_comm]
      | ok written => simp [ofEncoding_eq_ok_iff.2 rfl, hagain]

/-- **The writing of a text ends as it is** for those causes. To write the
bytes is refused for no null character, as the file has been emptied before. -/
theorem writeText_escapes_iff (hset : Encoding.ofSetting setting = .ok encoding) :
    ((d.writeText full setting t).2 = some e ∧ e.isExpected = false)
      ↔ WriteEscapes d full encoding t e := by
  rw [writeText_eq_error_iff hset]
  constructor
  · rintro ⟨⟨cause, hempty, rfl⟩ | ⟨emptied, hempty, ⟨cause, hencode, rfl⟩ |
      ⟨bytes, cause, -, hagain, rfl⟩⟩, hnot⟩
    · obtain ⟨hnull, rfl⟩ := write_escapes_iff.1 ⟨hempty, hnot⟩
      exact .nullByte hnull
    · exact .unencodable hempty hencode
    · obtain ⟨hnull, -⟩ := write_escapes_iff.1 ⟨hagain, hnot⟩
      cases hempty.symm.trans (write_of_null hnull [])
  · intro h
    cases h with
    | nullByte hnull => exact ⟨Or.inl ⟨_, write_of_null hnull [], rfl⟩, rfl⟩
    | unencodable hempty hencode =>
      exact ⟨Or.inr ⟨_, hempty, Or.inl ⟨_, hencode, rfl⟩⟩, rfl⟩

end Disk

namespace Snapshot

open Disk

variable [Host] {d d' : Disk} {root path : Text} {config : RunConfig} {paths : List Text}
  {e : Failure} {s : Snapshot} {encoding : Encoding}

/-! ## Storing -/

/-- **Storing fails at the first file that fails**, on the disk that those
before it have left. -/
theorem storeFiles_eq_error_iff :
    (storeFiles root s config d paths).2 = some e
      ↔ ∃ earlier path later d₁, paths = earlier ++ path :: later
        ∧ storeFiles root s config d earlier = (d₁, none)
        ∧ (storeFile d₁ root s config path).2 = some e := by
  constructor
  · intro h
    induction paths generalizing d with
    | nil => cases h
    | cons path rest ih =>
      rcases hstep : storeFile d root s config path with ⟨d₁, _ | cause⟩
      · rw [storeFiles, hstep] at h
        obtain ⟨earlier, other, later, d₂, rfl, hearlier, hother⟩ := ih h
        exact ⟨path :: earlier, other, later, d₂, rfl,
          storeFiles_cons_eq_none_iff.2 ⟨d₁, hstep, hearlier⟩, hother⟩
      · rw [storeFiles, hstep] at h
        exact ⟨[], path, rest, d, rfl, rfl, (congrArg Prod.snd hstep).trans h⟩
  · rintro ⟨earlier, path, later, d₁, rfl, hearlier, hpath⟩
    induction earlier generalizing d with
    | nil =>
      cases hearlier
      rw [List.nil_append, storeFiles]
      split
      next hstep =>
        rw [hstep] at hpath
        exact hpath
      next hstep =>
        rw [hstep] at hpath
        cases hpath
    | cons first rest ih =>
      obtain ⟨d₂, hstep, hrest⟩ := storeFiles_cons_eq_none_iff.1 hearlier
      rw [List.cons_append, storeFiles, hstep]
      exact ih hrest

/-- **What ends the storing of a file as it is**, whose path has been
resolved. -/
inductive StoreFileEscapes (d : Disk) (full : Text) (encoding : Encoding) (t : Text) :
    Failure → Prop
  /-- A directory above it cannot be made, by a null character in the path or
  because there are too many. -/
  | directories {cause : DiskError}
      (h : (d.makeDirectories (Path.parent full)).2 = some cause)
      (hcause : cause = .nullByte ∨ cause = .tooDeep) :
      StoreFileEscapes d full encoding t (.disk cause)
  /-- The directories are made, and the text is not written. -/
  | text {made : Disk} {e : Failure} (hmake : d.makeDirectories (Path.parent full) = (made, none))
      (h : made.WriteEscapes full encoding t e) : StoreFileEscapes d full encoding t e

/-- **The storing of a file ends as it is** for those causes. -/
theorem storeFile_escapes_iff {full : Text} (hfull : d.resolve root path config.exclude = .ok full)
    (hset : Encoding.ofSetting config.encoding = .ok encoding) :
    ((storeFile d root s config path).2 = some e ∧ e.isExpected = false)
      ↔ StoreFileEscapes d full encoding (s.contents path) e := by
  unfold storeFile
  rw [hfull]
  dsimp only
  rcases hmake : d.makeDirectories (Path.parent full) with ⟨made, _ | cause⟩
  · dsimp only
    rw [writeText_escapes_iff hset]
    constructor
    · exact .text hmake
    · intro h
      cases h with
      | directories h _ =>
        rw [hmake] at h
        cases h
      | text hmake' h =>
        cases hmake.symm.trans hmake'
        exact h
  · dsimp only
    constructor
    · rintro ⟨h, hnot⟩
      cases h
      refine .directories (congrArg Prod.snd hmake) ?_
      rcases makeDirectories_error_cases (congrArg Prod.snd hmake) with
        ⟨-, rfl⟩ | ⟨reason, other, rfl⟩ | ⟨-, rfl⟩
      · exact Or.inl rfl
      · cases hnot
      · exact Or.inr rfl
    · intro h
      cases h with
      | directories h hcause =>
        rw [hmake] at h
        cases h
        rcases hcause with rfl | rfl <;> exact ⟨rfl, rfl⟩
      | text hmake' _ => cases hmake.symm.trans hmake'

/-- **What ends the storing of files as it is**, whose paths are resolved:
after files that are stored comes one that ends so. -/
inductive StoreEscapes (d : Disk) (root : Text) (s : Snapshot) (config : RunConfig)
    (paths : List Text) : Failure → Prop
  | intro {earlier later : List Text} {path full : Text} {d₁ : Disk} {encoding : Encoding}
      {e : Failure} (hpaths : paths = earlier ++ path :: later)
      (hearlier : storeFiles root s config d earlier = (d₁, none))
      (hfull : d.resolve root path config.exclude = .ok full)
      (hset : Encoding.ofSetting config.encoding = .ok encoding)
      (h : StoreFileEscapes d₁ full encoding (s.contents path) e) :
      StoreEscapes d root s config paths e

/-- **The storing of files ends as it is** for those causes. -/
theorem storeFiles_escapes_iff (hd : d.IsTree)
    (hset : Encoding.ofSetting config.encoding = .ok encoding)
    (hpaths : ∀ path ∈ paths, ∃ full, d.resolve root path config.exclude = .ok full) :
    ((storeFiles root s config d paths).2 = some e ∧ e.isExpected = false)
      ↔ StoreEscapes d root s config paths e := by
  constructor
  · rintro ⟨h, hnot⟩
    obtain ⟨earlier, path, later, d₁, rfl, hearlier, hstep⟩ := storeFiles_eq_error_iff.1 h
    obtain ⟨full, hfull⟩ := hpaths path (by simp)
    obtain ⟨-, hg⟩ := grows_of_storeFiles hd hearlier
    have hfull₁ := (hg.resolve root path config.exclude).trans hfull
    exact .intro rfl hearlier hfull hset ((storeFile_escapes_iff hfull₁ hset).1 ⟨hstep, hnot⟩)
  · intro h
    cases h with
    | @intro earlier later path full d₁ encoding' _ hsplit hearlier hfull hset' h =>
      obtain rfl : encoding = encoding' := Except.ok.inj (hset.symm.trans hset')
      obtain ⟨-, hg⟩ := grows_of_storeFiles hd hearlier
      have hfull₁ := (hg.resolve root path config.exclude).trans hfull
      obtain ⟨hstep, hnot⟩ := (storeFile_escapes_iff hfull₁ hset).2 h
      exact ⟨storeFiles_eq_error_iff.2 ⟨earlier, path, later, d₁, hsplit, hearlier, hstep⟩, hnot⟩

/-- **No storing ends as it is** of texts that can be encoded, under paths
that hold no null character and for whose directories there is room. -/
theorem not_storeEscapes (hset : Encoding.ofSetting config.encoding = .ok encoding)
    (hbytes : ∀ path ∈ paths, ∃ bytes, encoding.encode (s.contents path) = .ok bytes)
    (hpaths : ∀ path ∈ paths, ∀ full, d.resolve root path config.exclude = .ok full →
      '\x00' ∉ full ∧ full.count '/' < Disk.Nesting.directories) :
    ¬StoreEscapes d root s config paths e := by
  intro h
  cases h with
  | @intro earlier later path full d₁ encoding' _ hsplit hearlier hfull hset' h =>
    obtain rfl : encoding = encoding' := Except.ok.inj (hset.symm.trans hset')
    have hmem : path ∈ paths := hsplit ▸ by simp
    obtain ⟨bytes, hbytes⟩ := hbytes path hmem
    obtain ⟨hnull, hroom⟩ := hpaths path hmem full hfull
    have hpart := Path.isPrefix_parent full
    cases h with
    | directories h hcause =>
      rcases makeDirectories_error_cases h with ⟨hmem, -⟩ | ⟨_, _, rfl⟩ | ⟨hdeep, -⟩
      · exact hnull (hpart.subset hmem)
      · rcases hcause with h | h <;> cases h
      · exact absurd (hdeep.trans (hpart.sublist.count_le '/')) (Nat.not_le.2 hroom)
    | text _ h =>
      cases h with
      | nullByte h => exact hnull h
      | unencodable _ h => cases hbytes.symm.trans h

end Snapshot

end EditBlocks
