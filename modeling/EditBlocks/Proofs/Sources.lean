import EditBlocks.Host.Usual
import EditBlocks.Proofs.Encoding.RoundTrip
import EditBlocks.Proofs.Saving
import EditBlocks.Proofs.Text.Newline
import EditBlocks.Proofs.Yaml.Line

/-!
# One setting from two sources

A run is configured by the settings that have been saved and by a
configuration file over them, and both go through the same reading of what
they give. What they give is not the same: a command line saves a text, and a
line of the file stands for what its scalar looks like. So a level means the
same from both, and so does a list of patterns, but a number or a truth value
does not – and `false`, saved, asks for a dry run, as every text does that is
not empty.

`Program.configuresAlike_iff` tells for every setting and every plain scalar
whether a run is configured alike from both.

The configuration file is read by a library, so what is needed of it is asked
for: that it reads a plain scalar behind the name of a setting as it does the
scalar alone, and that a scalar which it takes for a text stands for its own
(`Yaml.ReadsPlain`). What the scalar looks like otherwise is for the library
to say. The reader that the program is run with here meets this for every
text on a line in which nothing ends a plain scalar
(`Yaml.readsPlain_of_isPlain`).
-/

namespace EditBlocks

open Disk

namespace Value

theorem putKey_named_insert (entries : OrderedMap Text Value) (key : Text) (v : Value) :
    putKey (.text key) v (named entries.entries) = named (entries.insert key v).entries := by
  have hlist (entries : List (Text × Value)) :
      putKey (.text key) v (named entries) = named (putEntry key v entries) := by
    induction entries with
    | nil => rfl
    | cons e rest ih =>
      obtain ⟨k, w⟩ := e
      have hsame : (Scalar.text k).sameKey (.text key) = decide (k = key) := by
        simp [Scalar.sameKey, Scalar.number?]
      rw [named_cons, putKey, putEntry, hsame]
      by_cases hk : k = key
      · simp [hk]
      · simp [hk, ih]
  exact hlist entries.entries

end Value

namespace RunConfig

/-- The names of the settings by which a run is configured. -/
def names : List Text := ["encoding", "log_level", "dry_run", "exclude"]

end RunConfig

/-- **A text that is read as a plain scalar** by what reads configuration
files, with the scalar that it stands for. -/
structure Yaml.ReadsPlain [Yaml.Reader] (t : Text) (s : Scalar) : Prop where
  /-- The text is not empty. -/
  ne_nil : t ≠ []
  /-- Alone it stands for the scalar. -/
  alone : Yaml.Reader.read (Utf8.encode t) = .ok (.scalar s)
  /-- Behind the name of a setting it stands for the same, with or without
  the end of the line. -/
  behind : ∀ key ∈ RunConfig.names, ∀ ending : Text,
    ending.normalizeNewlines ∈ ([[], ['\n']] : List Text) →
      Yaml.Reader.read (Utf8.encode (key ++ ": " ++ t ++ ending))
        = .ok (.mapping [(.text key, .scalar s)])
  /-- If it stands for a text, then for itself. -/
  eq_of_text : ∀ u, s = .text u → u = t
  /-- It does not stand for bytes, which nothing does that is not marked
  so. -/
  ne_bytes : ∀ bytes, s ≠ .bytes bytes

namespace RunConfig

section

variable [Host]

/-- The configuration of a run with settings, and over them a file if one is
given. -/
def loadWith (d : Disk) (path : Option Text) (entries : OrderedMap Text Value) :
    Except Failure RunConfig :=
  load d path (Value.named entries.entries)

variable {d d' : Disk} {path key t : Text} {s : Scalar} {entries : OrderedMap Text Value}

/-- **A file with one entry is put over the settings** as that entry. -/
theorem loadWith_of_readFile (hpath : path ≠ [])
    (hfile : readFile d path = .ok (.mapping [(.text key, .scalar s)])) :
    loadWith d (some path) entries = loadWith d' none (entries.insert key (.scalar s)) := by
  have hover : putOver (Value.named entries.entries) (.mapping [(.text key, .scalar s)])
      = .ok (Value.named (entries.insert key (.scalar s)).entries) := by
    rw [← Value.putKey_named_insert]
    rfl
  cases path with
  | nil => exact absurd rfl hpath
  | cons c path =>
    have hload : loadWith d (some (c :: path)) entries
        = readFile d (c :: path) >>= fun v =>
          (putOver (Value.named entries.entries) v).mapError Failure.config >>= fun entries =>
          (ofEntries entries).mapError Failure.config := rfl
    rw [hload, hfile]
    show (putOver (Value.named entries.entries) (.mapping [(.text key, .scalar s)])).mapError
      Failure.config >>= (fun entries => (ofEntries entries).mapError Failure.config) = _
    rw [hover]
    rfl

section

variable (d : Disk) (v : Value)

/-! ## One setting over the defaults

The configuration is made from four values, so one setting changes one of
them, and the other three are those of the defaults on both sides. -/

theorem loadWith_defaults : loadWith d none Settings.defaults = .ok usual := rfl

theorem loadWith_encoding : loadWith d none (Settings.defaults.insert "encoding" v)
    = .ok ⟨v, usualLevel, false, []⟩ := rfl

theorem loadWith_level : loadWith d none (Settings.defaults.insert "log_level" v)
    = .ok ⟨usualEncoding, v, false, []⟩ := rfl

theorem loadWith_dryRun : loadWith d none (Settings.defaults.insert "dry_run" v)
    = .ok ⟨usualEncoding, usualLevel, v.isTrue, []⟩ := rfl

theorem loadWith_exclude : loadWith d none (Settings.defaults.insert "exclude" v)
    = match v.items? with
      | none => .error (.config (.notIterable v.kind))
      | some patterns => .ok ⟨usualEncoding, usualLevel, false, patterns⟩ := by
  have hexclude : setting (Value.named (Settings.defaults.insert "exclude" v).entries) "exclude"
      (.sequence []) = v := rfl
  have hload : loadWith d none (Settings.defaults.insert "exclude" v)
      = (ofEntries (Value.named (Settings.defaults.insert "exclude" v).entries)).mapError
        Failure.config := rfl
  rw [hload, ofEntries, hexclude]
  cases v.items? <;> rfl

end

omit [Host] in
theorem items?_of_not_text (h : ∀ u, s ≠ .text u) (hbytes : ∀ bytes, s ≠ .bytes bytes) :
    (Value.scalar s).items? = none := by
  cases s with
  | text u => exact absurd rfl (h u)
  | bytes b => exact absurd rfl (hbytes b)
  | _ => rfl

/-- **A text and a scalar configure a run alike** if they are the same, or if
the scalar asks for a dry run as every text does. -/
theorem loadWith_text_iff (hkey : key ∈ names) (h : Yaml.ReadsPlain t s) :
    loadWith d none (Settings.defaults.insert key (.text t))
        = loadWith d none (Settings.defaults.insert key (.scalar s))
      ↔ (∃ u, s = .text u) ∨ key = "dry_run" ∧ (Value.scalar s).isTrue = true := by
  by_cases hs : ∃ u, s = .text u
  · obtain ⟨u, rfl⟩ := hs
    rw [h.eq_of_text u rfl]
    exact iff_of_true rfl (.inl ⟨_, rfl⟩)
  have hdiffers : Value.text t ≠ .scalar s := fun h => hs ⟨t, (Value.scalar.inj h).symm⟩
  have hnever {key : Text} (hkey : key ≠ "dry_run") :
      ¬((∃ u, s = .text u) ∨ key = "dry_run" ∧ (Value.scalar s).isTrue = true) := by
    rintro (h | h)
    · exact hs h
    · exact hkey h.1
  simp only [names, List.mem_cons, List.not_mem_nil, or_false] at hkey
  rcases hkey with rfl | rfl | rfl | rfl
  · refine iff_of_false (fun heq => ?_) (hnever (by decide))
    rw [loadWith_encoding, loadWith_encoding] at heq
    exact hdiffers (RunConfig.mk.inj (Except.ok.inj heq)).1
  · refine iff_of_false (fun heq => ?_) (hnever (by decide))
    rw [loadWith_level, loadWith_level] at heq
    exact hdiffers (RunConfig.mk.inj (Except.ok.inj heq)).2.1
  · have htrue : (Value.text t).isTrue = true := by simpa [Value.isTrue] using h.ne_nil
    rw [loadWith_dryRun, loadWith_dryRun, htrue]
    constructor
    · exact fun heq => .inr ⟨rfl, (RunConfig.mk.inj (Except.ok.inj heq)).2.2.1.symm⟩
    · rintro (h | ⟨-, h⟩)
      · exact absurd h hs
      · rw [h]
  · refine iff_of_false (fun heq => ?_) (hnever (by decide))
    have hnone := items?_of_not_text (fun u hu => hs ⟨u, hu⟩) h.ne_bytes
    rw [loadWith_exclude, loadWith_exclude, hnone] at heq
    cases heq

/-- **No setting and a scalar configure a run alike** only if the scalar asks
for no dry run. -/
theorem loadWith_defaults_iff (hkey : key ∈ names) (hdash : t.head? = some '-')
    (hplain : Yaml.ReadsPlain t s) :
    loadWith d none Settings.defaults
        = loadWith d none (Settings.defaults.insert key (.scalar s))
      ↔ key = "dry_run" ∧ (Value.scalar s).isTrue = false := by
  have hdiffers {u : Text} (hu : u.head? ≠ some '-') : Value.text u ≠ .scalar s := fun h => by
    obtain rfl := hplain.eq_of_text u (Value.scalar.inj h).symm
    exact hu hdash
  rw [loadWith_defaults]
  simp only [names, List.mem_cons, List.not_mem_nil, or_false] at hkey
  rcases hkey with rfl | rfl | rfl | rfl
  · refine iff_of_false (fun h => ?_) fun h => absurd h.1 (by decide)
    rw [loadWith_encoding] at h
    exact hdiffers (by decide) (RunConfig.mk.inj (Except.ok.inj h)).1
  · refine iff_of_false (fun h => ?_) fun h => absurd h.1 (by decide)
    rw [loadWith_level] at h
    exact hdiffers (by decide) (RunConfig.mk.inj (Except.ok.inj h)).2.1
  · rw [loadWith_dryRun]
    constructor
    · exact fun h => ⟨rfl, (RunConfig.mk.inj (Except.ok.inj h)).2.2.1.symm⟩
    · rintro ⟨-, h⟩
      rw [h]
      rfl
  · refine iff_of_false (fun h => ?_) fun h => absurd h.1 (by decide)
    rw [loadWith_exclude] at h
    by_cases hs : ∃ u, s = .text u
    · obtain ⟨u, rfl⟩ := hs
      obtain rfl := hplain.eq_of_text u rfl
      have hnone := (RunConfig.mk.inj (Except.ok.inj h)).2.2.2
      obtain ⟨more, rfl⟩ := List.head?_eq_some_iff.1 hdash
      cases hnone
    · rw [items?_of_not_text (fun u hu => hs ⟨u, hu⟩) hplain.ne_bytes] at h
      cases h

end

end RunConfig

namespace Program

open RunConfig

section

variable [Host] {d d₁ d' : Disk} {home key t path name : Text} {s : Scalar} {directory : Location}

/-- **A setting that configures a run alike** whether it is saved from a
command line or stands in a configuration file: with the settings that are
left by the run that should save it, or with the defaults and the file over
them. -/
def ConfiguresAlike (d : Disk) (home key t : Text) (d' : Disk) (path : Text) : Prop :=
  ∃ settings d₂ log,
    Settings.openIn (run d home (saving key t)).disk home application = (d₂, .ok (settings, log))
      ∧ loadWith d₂ none settings.entries = loadWith d' (some path) Settings.defaults

/-- **A file that holds the line of a setting.** It is one file with the key,
a colon, a blank and the text in it, and nothing else but the end of the
line. -/
structure HoldsLine (d : Disk) (path key t : Text) : Prop where
  /-- Its path is not empty. -/
  ne_nil : path ≠ []
  /-- The line is all that is in it, with or without an end. -/
  read : ∃ ending : Text, ending.normalizeNewlines ∈ ([[], ['\n']] : List Text)
    ∧ d.read path = .ok (Utf8.encode (key ++ ": " ++ t ++ ending))

omit [Host] in
theorem isOrdinary_names : ∀ key ∈ names, Arguments.IsOrdinary key := by decide

variable (hd : d.IsTree)
  (hmade : d.makeDirectories (Settings.directoryOf home application) = (d₁, none))
  (habsent : d₁.locate true (settingsFile home) = .ok (.absent directory name))
  (hkey : key ∈ names) (hplain : Yaml.ReadsPlain t s) (hholds : HoldsLine d' path key t)
include hd hmade habsent hkey hplain hholds

/-- What the settings are and what the file is read as decide. -/
theorem configuresAlike_iff_entries : ∃ entries,
    (Saves key t → entries = Settings.defaults.insert key (.text t))
      ∧ (¬Saves key t → entries = Settings.defaults)
      ∧ (ConfiguresAlike d home key t d' path ↔ loadWith d none entries
        = loadWith d none (Settings.defaults.insert key (.scalar s))) := by
  have hordinary := isOrdinary_names key hkey
  obtain ⟨entries, d₂, log, hopens, hsaved, hunsaved⟩ :=
    opens_after_saving hd hmade habsent hordinary t
  obtain ⟨ending, hending, hfile⟩ := hholds.read
  have hline : readFile d' path = .ok (.mapping [(.text key, .scalar s)]) :=
    bind_eq_ok_iff.2 ⟨_, mapError_eq_ok_iff.2 hfile,
      mapError_eq_ok_iff.2 (hplain.behind key hkey ending hending)⟩
  have hover : loadWith d' (some path) Settings.defaults
      = loadWith d none (Settings.defaults.insert key (.scalar s)) :=
    loadWith_of_readFile hholds.ne_nil hline
  refine ⟨entries, hsaved, hunsaved, ?_, fun h => ?_⟩
  · rintro ⟨settings, d₃, log', hopens', h⟩
    obtain rfl : settings = settingsWith home entries :=
      (Prod.mk.inj (Except.ok.inj (Prod.mk.inj (hopens'.symm.trans hopens)).2)).1
    exact h.trans hover
  · exact ⟨settingsWith home entries, d₂, log, hopens, h.trans hover.symm⟩

/-- A value that is saved means the same where it is a text, or asks for a
dry run. -/
theorem configuresAlike_of_saves (hsaves : Saves key t) :
    ConfiguresAlike d home key t d' path
      ↔ (∃ u, s = .text u) ∨ key = "dry_run" ∧ (Value.scalar s).isTrue = true := by
  obtain ⟨entries, hsaved, -, halike⟩ :=
    configuresAlike_iff_entries hd hmade habsent hkey hplain hholds
  rw [halike, hsaved hsaves]
  exact loadWith_text_iff hkey hplain

/-- One that is not saved leaves the defaults, which ask for none. -/
theorem configuresAlike_of_not_saves (hnot : ¬Saves key t) :
    ConfiguresAlike d home key t d' path
      ↔ key = "dry_run" ∧ (Value.scalar s).isTrue = false := by
  obtain ⟨entries, -, hunsaved, halike⟩ :=
    configuresAlike_iff_entries hd hmade habsent hkey hplain hholds
  have hordinary := isOrdinary_names key hkey
  -- what does not begin with a hyphen is saved
  have hdash : t.head? = some '-' := by
    by_cases hdash : t.head? = some '-'
    · exact hdash
    · exact absurd (readInvocation_saving hordinary hdash) hnot
  rw [halike, hunsaved hnot]
  exact loadWith_defaults_iff hkey hdash hplain

/-- **When a setting means the same from both sources**: if the value is
saved, exactly when it is read as a text, or asks for a dry run; if it is
not, exactly when it asks for none. -/
theorem configuresAlike_iff :
    ConfiguresAlike d home key t d' path
      ↔ (Saves key t → (∃ u, s = .text u) ∨ key = "dry_run" ∧ (Value.scalar s).isTrue = true)
        ∧ (¬Saves key t → key = "dry_run" ∧ (Value.scalar s).isTrue = false) := by
  by_cases hsaves : Saves key t
  · rw [configuresAlike_of_saves hd hmade habsent hkey hplain hholds hsaves]
    exact ⟨fun h => ⟨fun _ => h, fun hnot => absurd hsaves hnot⟩, fun h => h.1 hsaves⟩
  · rw [configuresAlike_of_not_saves hd hmade habsent hkey hplain hholds hsaves]
    exact ⟨fun h => ⟨fun hyes => absurd hyes hsaves, fun _ => h⟩, fun h => h.2 hsaves⟩

end

end Program

/-! ## The reader at hand

A scalar that nothing ends early is read alike alone and behind a key, token
by token. -/

namespace Yaml

/-- The names are plain scalars that look like nothing but texts. -/
theorem isPlain_names : ∀ key ∈ RunConfig.names, IsPlain key
    ∧ key.length ≤ TokenReader.maxKeyLength ∧ plainTag key = .text := by
  decide +kernel

theorem readFile_encode {t : Text} (hnone : '\r' ∉ t) {v : Value} (h : read t = .ok v) :
    readFile (Utf8.encode t) = .ok v := by
  rw [readFile, fileText, Utf8.decode_encode]
  dsimp only
  rw [Text.normalizeNewlines_of_not_mem hnone, h]
  rfl

/-- **The reader reads a plain scalar as one**, alone and behind a key. It is
asked of the text that nothing in it ends the scalar early. -/
theorem readsPlain_of_isPlain {t : Text} {s : Scalar} (h : IsPlain t)
    (hread : read t = .ok (.scalar s)) : ReadsPlain t s where
  ne_nil := by
    obtain ⟨c, u, rfl, -⟩ := h.exists_cons
    exact List.cons_ne_nil c u
  alone := readFile_encode (fun hmem => absurd (not_isBreak_of_goesOn h.goesOn _ hmem) (by decide))
    hread
  behind key hkey ending hending := by
    obtain ⟨hplain, hshort, htext⟩ := isPlain_names key hkey
    have hnone : '\r' ∉ key ++ ": " ++ t := by
      have hmem {u : Text} (hu : IsPlain u) : '\r' ∉ u := fun h =>
        absurd (not_isBreak_of_goesOn hu.goesOn _ h) (by decide)
      simp [hmem hplain, hmem h]
    have hclean : Text.CleanJoint (key ++ ": " ++ t) ending := fun hlast =>
      absurd (List.mem_of_getLast? hlast) hnone
    have hline : Text.normalizeNewlines (key ++ ": " ++ t ++ ending)
        = key ++ ':' :: ' ' :: (t ++ ending.normalizeNewlines) := by
      rw [Text.normalizeNewlines_append hclean, Text.normalizeNewlines_of_not_mem hnone]
      simp
    show readFile (Utf8.encode (key ++ ": " ++ t ++ ending)) = _
    rw [readFile, fileText, Utf8.decode_encode]
    dsimp only
    rw [hline, read_line hplain hshort htext h (by simpa using hending) hread]
    rfl
  eq_of_text := (eq_of_read ((read_of_isPlain h).1 hread)).1
  ne_bytes := (eq_of_read ((read_of_isPlain h).1 hread)).2

end Yaml

namespace Program

open RunConfig

/-- A disk with a configuration file. -/
def holding (line : Text) : Disk := ⟨.ofList [(["c.yaml"], .file (Utf8.encode line))], []⟩

theorem unsettled_facts : unsettled.IsTree
    ∧ unsettled.makeDirectories (Settings.directoryOf "/home" application)
      = (unsettled.put ["home", "codechange"] .directory, none)
    ∧ (unsettled.put ["home", "codechange"] .directory).locate true (settingsFile "/home")
      = .ok (.absent ["home", "codechange"] "config.json") := by
  refine ⟨?_, rfl, ?_⟩ <;> decide +kernel

theorem holdsLine_holding (key t : Text) :
    HoldsLine (holding (key ++ ": " ++ t ++ "\n")) "/c.yaml" key t :=
  ⟨by decide, ['\n'], by decide, rfl⟩

/-- A level is the same from both sources; that there should be no dry run is
not. -/
theorem configuresAlike_iff_unsettled :
    ConfiguresAlike unsettled "/home" "log_level" "DEBUG" (holding "log_level: DEBUG\n") "/c.yaml"
      ∧ ¬ConfiguresAlike unsettled "/home" "dry_run" "false" (holding "dry_run: false\n")
        "/c.yaml" := by
  obtain ⟨hd, hmade, habsent⟩ := unsettled_facts
  have hlevel : Yaml.IsPlain "DEBUG" := by decide +kernel
  have hfalse : Yaml.IsPlain "false" := by decide +kernel
  have hlevel := Yaml.readsPlain_of_isPlain hlevel ((Yaml.read_of_isPlain hlevel).2 rfl)
  have hfalse := Yaml.readsPlain_of_isPlain hfalse ((Yaml.read_of_isPlain hfalse).2 rfl)
  refine ⟨?_, fun h => ?_⟩
  · refine (configuresAlike_iff hd hmade habsent (by decide) hlevel
      (holdsLine_holding "log_level" "DEBUG")).2
      ⟨fun _ => .inl ⟨_, rfl⟩, fun hnot => ?_⟩
    exact absurd (readInvocation_saving (by decide) (by decide)) hnot
  · have hboth := (configuresAlike_iff hd hmade habsent (by decide) hfalse
      (holdsLine_holding "dry_run" "false")).1 h
    rcases hboth.1 (readInvocation_saving (by decide) (by decide)) with ⟨u, hu⟩ | ⟨-, htrue⟩
    · cases hu
    · cases htrue

/-- Not every setting means the same from both sources: `false` asks for a
dry run when it is saved. -/
theorem not_always_alike :
    ¬∀ (d d₁ d' : Disk) (home key t path name : Text) (s : Scalar) (directory : Location),
      d.IsTree → d.makeDirectories (Settings.directoryOf home application) = (d₁, none) →
      d₁.locate true (settingsFile home) = .ok (.absent directory name) →
      key ∈ names → Yaml.ReadsPlain t s →
      (∃ u, s = .text u) ∨ (∃ b, s = .bool b) ∨ (∃ n, s = .int n) →
      HoldsLine d' path key t → ConfiguresAlike d home key t d' path := by
  intro hall
  obtain ⟨hd, hmade, habsent⟩ := unsettled_facts
  have hplain : Yaml.IsPlain "false" := by decide +kernel
  have hplain : Yaml.ReadsPlain "false" (.bool false) :=
    Yaml.readsPlain_of_isPlain hplain ((Yaml.read_of_isPlain hplain).2 rfl)
  have hholds := holdsLine_holding "dry_run" "false"
  have halike := hall _ _ _ _ _ _ _ _ _ _ hd hmade habsent (by decide) hplain
    (.inr (.inl ⟨false, rfl⟩)) hholds
  have hsaves : Saves "dry_run" "false" := readInvocation_saving (by decide) (by decide)
  rcases (configuresAlike_of_saves hd hmade habsent (by decide) hplain hholds hsaves).1
    halike with ⟨u, hu⟩ | ⟨-, htrue⟩
  · cases hu
  · cases htrue

end Program

end EditBlocks
