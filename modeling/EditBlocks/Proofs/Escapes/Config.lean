import EditBlocks.ConfigFile
import EditBlocks.Proofs.Escapes.Path

/-!
# What ends the making of a configuration as it is

A configuration file is read by a library that has errors of its own, and
only the one that says that the file is malformed is expected. Whatever else
the library says ends the run, and so does a file that it reads as a value of
another shape than entries have. A configuration can also be wrong without a
file, where the patterns that are to exclude paths are no items.

`RunConfig.load_escapes_iff` lists these causes. What is under the other
settings is not looked at here, only where it is used. The library is
arbitrary: which bytes it calls malformed, and what it says of the others, is
its own affair, and the causes are told in terms of what it says.
-/

namespace EditBlocks

namespace RunConfig

variable [Host] {d : Disk} {path : Option Text} {settings : List (Scalar × Value)} {e : Failure}

/-! ## Making a configuration

Three things are done in turn, each of which can fail: the file is read, its
entries are put over the settings, and the patterns are listed. -/

/-- **What ends the reading of a configuration file as it is.** It is a null
character in its path, or an error of the library that does not say that the
file is malformed. -/
inductive ReadEscapes (d : Disk) (path : Text) : Failure → Prop
  /-- Its path holds a null character. -/
  | nullByte (h : '\x00' ∈ path) : ReadEscapes d path (.disk .nullByte)
  /-- Something goes wrong with its bytes, apart from their being
  malformed. -/
  | unexpected {bytes : List UInt8} {kind message : Text} (hread : d.read path = .ok bytes)
      (h : Yaml.Reader.read bytes = .error (.unexpected kind message)) :
      ReadEscapes d path (.config (.yaml (.unexpected kind message)))

/-- **The reading of a configuration file ends as it is** for those causes. -/
theorem readFile_escapes_iff {path : Text} :
    (readFile d path = .error e ∧ e.isExpected = false) ↔ ReadEscapes d path e := by
  constructor
  · rintro ⟨h, hnot⟩
    rcases bind_eq_error_iff.1 h with h | ⟨bytes, hread, h⟩
    · obtain ⟨hnull, rfl⟩ := Disk.read_escapes_iff.1 ⟨h, hnot⟩
      exact .nullByte hnull
    have hread := mapError_eq_ok_iff.1 hread
    obtain ⟨cause, hcause, rfl⟩ := mapError_eq_error_iff.1 h
    cases cause with
    | malformed => cases hnot
    | unexpected kind message => exact .unexpected hread hcause
  · intro h
    cases h with
    | nullByte h =>
      obtain ⟨hread, hnot⟩ := Disk.read_escapes_iff.2 ⟨h, rfl⟩
      exact ⟨bind_error hread, hnot⟩
    | unexpected hread h =>
      exact ⟨bind_ok_error (mapError_eq_ok_iff.2 hread) (mapError_eq_error_iff.2 ⟨_, h, rfl⟩), rfl⟩

/-- **The entries that a configuration is made of**: saved settings, and over
them those of a file if one is given. -/
def entriesOf (d : Disk) (path : Option Text) (settings : List (Scalar × Value)) :
    Except Failure (List (Scalar × Value)) :=
  match path with
  | none | some [] => .ok settings
  | some path => do
    let v ← readFile d path
    (putOver settings v).mapError Failure.config

theorem load_eq (d : Disk) (path : Option Text) (settings : List (Scalar × Value)) :
    load d path settings
      = entriesOf d path settings >>= fun entries => (ofEntries entries).mapError .config := by
  rcases path with _ | ⟨_ | ⟨c, file⟩⟩
  · rfl
  · rfl
  · exact (bind_assoc (readFile d (c :: file)) _ _).symm

/-- **What ends the making of a configuration as it is**: the reading of its
file, a value that has no entries in it, or patterns that are no items. -/
inductive Escapes (d : Disk) (path : Option Text) (settings : List (Scalar × Value)) :
    Failure → Prop
  /-- The file cannot be read. -/
  | file {file : Text} {e : Failure} (hpath : path = some file) (hne : file ≠ [])
      (h : ReadEscapes d file e) : Escapes d path settings e
  /-- What it holds is neither a mapping nor items that are pairs. -/
  | shape {file : Text} {v : Value} {e : ConfigError} (hpath : path = some file)
      (hne : file ≠ []) (hread : readFile d file = .ok v) (h : putOver settings v = .error e) :
      Escapes d path settings (.config e)
  /-- The patterns that exclude paths are no items. -/
  | exclude {entries : List (Scalar × Value)} (hentries : entriesOf d path settings = .ok entries)
      (h : (setting entries "exclude" (.sequence [])).items? = none) :
      Escapes d path settings
        (.config (.notIterable (setting entries "exclude" (.sequence [])).kind))

omit [Host] in
/-- Items that are no pairs are no malformed file. -/
theorem not_isExpected_of_putPairs {index : Nat} {entries : List (Scalar × Value)}
    {items : List Value} {cause : ConfigError} (h : putPairs index entries items = .error cause) :
    (Failure.config cause).isExpected = false := by
  induction items generalizing index entries with
  | nil => cases h
  | cons item rest ih =>
    rcases bind_eq_error_iff.1 h with h | ⟨pair, -, h⟩
    · unfold pairOf at h
      split at h
      · cases h
        rfl
      · split at h <;> cases h
        rfl
      · cases h
        rfl
    · exact ih h

omit [Host] in
/-- Nothing that cannot be put over the settings is a malformed file. -/
theorem not_isExpected_of_putOver {v : Value} {cause : ConfigError}
    (h : putOver settings v = .error cause) : (Failure.config cause).isExpected = false := by
  unfold putOver at h
  split at h
  · cases h
  split at h
  · cases h
  split at h
  · exact not_isExpected_of_putPairs h
  · cases h
    rfl

omit [Host] in
theorem ofEntries_eq_error_iff {entries : List (Scalar × Value)} {cause : ConfigError} :
    ofEntries entries = .error cause
      ↔ (setting entries "exclude" (.sequence [])).items? = none
        ∧ cause = .notIterable (setting entries "exclude" (.sequence [])).kind := by
  unfold ofEntries
  dsimp only
  split
  next hnone => exact ⟨fun h => ⟨hnone, (Except.error.inj h).symm⟩, fun h => h.2 ▸ rfl⟩
  next hsome => exact iff_of_false (fun h => nomatch h) fun h => nomatch h.1.symm.trans hsome

theorem entriesOf_eq_error_iff :
    entriesOf d path settings = .error e
      ↔ ∃ file, path = some file ∧ file ≠ []
        ∧ (readFile d file = .error e
          ∨ ∃ v cause, readFile d file = .ok v ∧ putOver settings v = .error cause
            ∧ .config cause = e) := by
  unfold entriesOf
  split
  · exact iff_of_false (fun h => nomatch h) fun ⟨_, h, _⟩ => nomatch h
  · refine iff_of_false (fun h => nomatch h) ?_
    rintro ⟨file, h, hne, -⟩
    exact hne (Option.some.inj h).symm
  next file hne =>
    rw [bind_eq_error_iff]
    simp only [mapError_eq_error_iff]
    constructor
    · rintro (h | ⟨v, hread, cause, hcause, rfl⟩)
      · exact ⟨file, rfl, hne, Or.inl h⟩
      · exact ⟨file, rfl, hne, Or.inr ⟨v, cause, hread, hcause, rfl⟩⟩
    · rintro ⟨_, h, -, h'⟩
      cases h
      exact h'.imp_right fun ⟨v, cause, hread, hcause, he⟩ => ⟨v, hread, cause, hcause, he⟩

/-- **The making of a configuration ends as it is** for those causes. -/
theorem load_escapes_iff :
    (load d path settings = .error e ∧ e.isExpected = false) ↔ Escapes d path settings e := by
  rw [load_eq]
  constructor
  · rintro ⟨h, hnot⟩
    rcases bind_eq_error_iff.1 h with h | ⟨entries, hentries, h⟩
    · obtain ⟨file, hpath, hne, h | ⟨v, cause, hread, hcause, rfl⟩⟩ := entriesOf_eq_error_iff.1 h
      · exact .file hpath hne (readFile_escapes_iff.1 ⟨h, hnot⟩)
      · exact .shape hpath hne hread hcause
    · obtain ⟨cause, hcause, rfl⟩ := mapError_eq_error_iff.1 h
      obtain ⟨hnone, rfl⟩ := ofEntries_eq_error_iff.1 hcause
      exact .exclude hentries hnone
  · intro h
    cases h with
    | file hpath hne h =>
      obtain ⟨hread, hnot⟩ := readFile_escapes_iff.2 h
      exact ⟨bind_error (entriesOf_eq_error_iff.2 ⟨_, hpath, hne, Or.inl hread⟩), hnot⟩
    | shape hpath hne hread h =>
      have hentries := entriesOf_eq_error_iff.2 ⟨_, hpath, hne, Or.inr ⟨_, _, hread, h, rfl⟩⟩
      exact ⟨bind_error hentries, not_isExpected_of_putOver h⟩
    | exclude hentries h =>
      have hmake := ofEntries_eq_error_iff.2 ⟨h, rfl⟩
      exact ⟨bind_ok_error hentries (mapError_eq_error_iff.2 ⟨_, hmake, rfl⟩), rfl⟩

end RunConfig

end EditBlocks
