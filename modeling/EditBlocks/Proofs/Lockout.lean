import EditBlocks.Proofs.Arguments
import EditBlocks.Proofs.Command
import EditBlocks.Proofs.Settings

/-!
# Settings that lock the user out

Every run of the program begins with the settings that the runs before it
have saved, so what one run saves decides whether the next one can be used.
Of all that can be saved from a command line only the level of records is
looked at before the task is begun. A text that the library which keeps the
records takes for no level ends every later run that is given no
configuration file, the one included that would save another level.

`Program.leadTo_of_absent` is about any changes of settings, one run for
each, from a disk without a file of settings: they are saved, and shown
again, up to the first that locks the user out, and after that nothing
changes any more.

Which texts are levels is for that library to say, and only two things are
used of it: that it knows the level which is the default, and that it says of
a text always the same. Of the settings themselves it counts that they are
texts. Those are not nested, so there is always room to write them, to read
them again and to show them.
-/

namespace EditBlocks

open Disk RunConfig

namespace Settings

/-- **Settings that are texts**, as all are that are saved from a command
line. -/
def AreTexts (entries : OrderedMap Text Value) : Prop := ∀ e ∈ entries.entries, ∃ t, e.2 = .text t

section

variable {entries : OrderedMap Text Value}

theorem areTexts_defaults : AreTexts defaults := by
  intro e he
  rcases List.mem_cons.1 he with rfl | he
  · exact ⟨_, rfl⟩
  · rw [List.mem_singleton.1 he]
    exact ⟨_, rfl⟩

theorem AreTexts.insert (h : AreTexts entries) (key t : Text) :
    AreTexts (entries.insert key (.text t)) := by
  intro e he
  rcases OrderedMap.mem_entries_insert he with rfl | he
  · exact ⟨t, rfl⟩
  · exact h e he

theorem AreTexts.get? (h : AreTexts entries) {key : Text} {v : Value}
    (hv : entries.get? key = some v) : ∃ t, v = .text t :=
  h _ (OrderedMap.mem_entries_of_get? hv)

theorem AreTexts.plain (h : AreTexts entries) : ∀ e ∈ entries.entries, e.2.Plain := by
  intro e he
  obtain ⟨t, ht⟩ := h e he
  exact ht ▸ .text t

/-- Writing texts never breaks off. -/
theorem AreTexts.part? (h : AreTexts entries) : Json.part? (asValue entries) = none := by
  refine Json.partOfEntries?_eq_none_iff.2 fun e he => ?_
  obtain ⟨t, ht⟩ := h e he
  rw [ht]
  rfl

theorem AreTexts.exists_ofTexts (h : AreTexts entries) :
    ∃ texts, asValue entries = .ofTexts texts := by
  have hmap : ∀ l : List (Text × Value), (∀ e ∈ l, ∃ t, e.2 = .text t) →
      ∃ texts : List (Text × Text), l = texts.map fun e => (e.1, .text e.2) := by
    intro l hl
    induction l with
    | nil => exact ⟨[], rfl⟩
    | cons e rest ih =>
      obtain ⟨⟨t, ht⟩, hrest⟩ := List.forall_mem_cons.1 hl
      obtain ⟨texts, rfl⟩ := ih hrest
      exact ⟨(e.1, t) :: texts, by rw [List.map_cons, ← ht]⟩
  obtain ⟨texts, htexts⟩ := hmap _ h
  refine ⟨texts, ?_⟩
  rw [asValue, htexts, List.map_map]
  rfl

variable [Host] {d d' : Disk} {s : Settings}

/-- **Texts are saved** where their file can be written. There is room for
them, and none of them breaks off, so the file gives them again. -/
theorem AreTexts.ofFile_save (hd : d.IsTree) (h : AreTexts s.entries)
    (hfirst : defaults.keys <+: s.entries.keys) {place : Location}
    (hreach : d.reach? s.file = some place) (htakes : ∀ bytes, d.Takes place (.file bytes)) :
    (s.save d).1.IsTree ∧ ofFile (s.save d).1 s.file = .ok s.entries := by
  obtain ⟨hd', hcases⟩ := save_cases hd h.plain hfirst (Prod.eta (s.save d)).symm
  refine ⟨hd', hcases.resolve_right ?_⟩
  obtain ⟨texts, htexts⟩ := h.exists_ofTexts
  have hwriting : Json.Nesting.writing (asValue s.entries) = none :=
    htexts ▸ Json.Nesting.writing_ofTexts texts
  have hreading : Json.Nesting.reading (Json.write (asValue s.entries)) = none :=
    htexts ▸ Json.Nesting.reading_ofTexts texts
  have hshowing : Json.Nesting.showing (asValue s.entries) = none :=
    htexts ▸ Json.Nesting.showing_ofTexts texts
  have hjson : toJson (asValue s.entries) = (Json.write (asValue s.entries), none) := by
    rw [toJson, hwriting]
    dsimp only
    rw [h.part?]
  rintro ⟨⟨message, hmem⟩ | hdeep, -⟩
  · -- no error is reported
    have hwrite : d.writeText s.file usualEncoding (Json.write (asValue s.entries))
        = (d.put place (.file (Utf8.encode (Json.write (asValue s.entries)))), none) :=
      writeText_of_takes hd rfl rfl hreach (htakes _)
    unfold save at hmem
    dsimp only at hmem
    rw [hjson] at hmem
    dsimp only at hmem
    rw [hwrite] at hmem
    dsimp only at hmem
    rw [Option.none_or, hshowing] at hmem
    cases List.mem_singleton.1 hmem
  · exact hdeep hreading

end

end Settings

namespace RunConfig

/-- A setting is found under its name. -/
theorem setting_texts (entries : OrderedMap Text Value) (name : Text) (default : Value) :
    setting (entries.entries.map fun (k, v) => (Scalar.text k, v)) name default
      = (entries.get? name).getD default := by
  have hkey (k : Text) : (Scalar.text k).sameKey (.text name) = decide (k = name) := by
    simp [Scalar.sameKey, Scalar.number?]
  rw [setting, Value.findKey?, List.find?_map, Option.map_map, OrderedMap.get?]
  simp only [Function.comp_def, hkey]

/-- **Settings that are texts make a configuration**, whatever they say. -/
theorem exists_ofEntries {entries : OrderedMap Text Value} (h : Settings.AreTexts entries)
    {level : Value} (hlevel : entries.get? "log_level" = some level) :
    ∃ config, ofEntries (entries.entries.map fun (k, v) => (Scalar.text k, v)) = .ok config
      ∧ config.logLevel = level := by
  have hitems : ∃ patterns,
      ((entries.get? "exclude").getD (.sequence [])).items? = some patterns := by
    cases hexclude : entries.get? "exclude" with
    | none => exact ⟨[], rfl⟩
    | some v =>
      obtain ⟨t, rfl⟩ := h.get? hexclude
      exact ⟨_, rfl⟩
  obtain ⟨patterns, hpatterns⟩ := hitems
  simp only [ofEntries, setting_texts, hpatterns, hlevel]
  exact ⟨_, rfl, rfl⟩

end RunConfig

namespace Program

open Arguments

/-- The command line that shows a setting. -/
def showing (key : Text) : List Text := ["config", key]

/-- The command line that saves a setting. -/
def saving (key value : Text) : List Text := ["config", key, value]

/-- A command line that shows a setting. -/
theorem readInvocation_showing {key : Text} (hkey : IsOrdinary key) :
    readInvocation (showing key) = .ok ⟨none, .settings (some key) none⟩ := by
  have h : ∀ t ∈ [key], IsOrdinary t := List.forall_mem_singleton.2 hkey
  refine readInvocation_config ⟨[], [("key", [key]), ("value", [])], []⟩ h rfl
    (read_of_ordinary settingsGrammar h rfl ?_ rfl) rfl
  show _ = (⟨[], [("key", dropSign [key]), ("value", dropSign [])], []⟩ : Found)
  rw [dropSign_of_ordinary h]
  rfl

theorem readInvocation_saving {key value : Text} (hkey : IsOrdinary key)
    (hvalue : IsOrdinary value) :
    readInvocation (saving key value) = .ok ⟨none, .settings (some key) (some value)⟩ := by
  have h : ∀ t ∈ [key, value], IsOrdinary t :=
    List.forall_mem_cons.2 ⟨hkey, List.forall_mem_singleton.2 hvalue⟩
  refine readInvocation_config ⟨[], [("key", [key]), ("value", [value])], []⟩ h rfl
    (read_of_ordinary settingsGrammar h rfl ?_ rfl) rfl
  show _ = (⟨[], [("key", dropSign [key]), ("value", dropSign [value])], []⟩ : Found)
  rw [dropSign_of_ordinary (List.forall_mem_singleton.2 hkey),
    dropSign_of_ordinary (List.forall_mem_singleton.2 hvalue)]

/-- The settings of the program, with their entries. -/
def settingsWith (home : Text) (entries : OrderedMap Text Value) : Settings :=
  { Settings.initial home application with entries }

/-- The file of the settings. -/
def settingsFile (home : Text) : Text := (Settings.initial home application).file

/-- **A disk on which the settings can be used**, from a command line: they
are opened with texts as their entries, and can be saved again. -/
structure Ready [Host] (d : Disk) (home : Text) (entries : OrderedMap Text Value)
    (d₁ : Disk) : Prop where
  /-- What is left when they are opened is a disk. -/
  isTree : d₁.IsTree
  /-- They are opened. -/
  opens : ∃ log, Settings.openIn d home application = (d₁, .ok (settingsWith home entries, log))
  /-- They are texts. -/
  texts : Settings.AreTexts entries
  /-- The defaults come first. -/
  first : Settings.defaults.keys <+: entries.keys
  /-- Their file can be written. -/
  takes : ∃ place, d₁.reach? (settingsFile home) = some place
    ∧ ∀ bytes, d₁.Takes place (.file bytes)

section

variable [Host] {d d₁ : Disk} {home : Text} {entries : OrderedMap Text Value}

/-- Where the file is missing the settings are the defaults. -/
theorem ready_of_absent (hd : d.IsTree)
    (hmade : d.makeDirectories (Settings.directoryOf home application) = (d₁, none))
    {directory : Location} {name : Text}
    (habsent : d₁.locate true (settingsFile home) = .ok (.absent directory name)) :
    Ready d home Settings.defaults d₁ := by
  have hd₁ : d₁.IsTree := by
    have := (extends_makeDirectories hd (Settings.directoryOf home application)).isTree
    rwa [hmade] at this
  have hreload : (Settings.initial home application).reload d₁
      = (Settings.initial home application, []) := by
    have hnot : ¬d₁.isThere (settingsFile home) = true := by
      rw [isThere, lookUp?, habsent]
      exact Bool.false_ne_true
    rw [Settings.reload]
    exact if_neg hnot
  exact
    { isTree := hd₁
      opens := ⟨[], Settings.openIn_eq_ok_iff.2 ⟨hmade, hreload⟩⟩
      texts := Settings.areTexts_defaults
      first := List.prefix_refl _
      takes := ⟨_, reach?_eq_some_iff.2 ⟨_, habsent, rfl⟩,
        fun bytes => takes_of_absent hd₁ habsent (by rintro _ ⟨⟩)⟩ }

/-- Once the settings are in their file, opening them leaves the disk as it
is. -/
theorem ready_of_ofFile (hd : d.IsTree) (hne : Settings.directoryOf home application ≠ [])
    (htexts : Settings.AreTexts entries) (hfirst : Settings.defaults.keys <+: entries.keys)
    (hfile : Settings.ofFile d (settingsFile home) = .ok entries) : Ready d home entries d where
  isTree := hd
  opens := Settings.openIn_of_ofFile (s := settingsWith home entries) hd rfl hne rfl hfile
  texts := htexts
  first := hfirst
  takes := by
    obtain ⟨t, ht, -⟩ := Settings.readText_of_ofFile hfile
    obtain ⟨-, place, bytes, -, hreach, hnode, -⟩ := (readText_eq_ok_iff hd).1 ht
    exact ⟨place, hreach, takes_of_file hd hnode⟩

/-- The directory of settings that are opened has a name. -/
theorem Ready.directory_ne_nil (h : Ready d home entries d₁) :
    Settings.directoryOf home application ≠ [] := fun hnil => by
  obtain ⟨log, hopen⟩ := h.opens
  obtain ⟨hmade, -⟩ := Settings.openIn_eq_ok_iff.1 hopen
  obtain ⟨e, he⟩ := Settings.makeDirectories_nil d
  rw [hnil, he] at hmade
  cases hmade

/-- A run that is given no configuration file is configured by the
settings. -/
theorem Ready.run_eq (h : Ready d home entries d₁) {args : List Text} {task : Task}
    (hargs : Arguments.readInvocation args = .ok ⟨none, task⟩) {level : Text}
    (hlevel : entries.get? "log_level" = some (.text level)) :
    ∃ config log, configFor d₁ ⟨none, task⟩ (settingsWith home entries) = .ok config
      ∧ config.logLevel = .text level
      ∧ run d home args = runInvocation d₁ ⟨none, task⟩ (settingsWith home entries) log := by
  obtain ⟨log, hopen⟩ := h.opens
  obtain ⟨config, hconfig, hlogLevel⟩ := RunConfig.exists_ofEntries h.texts hlevel
  refine ⟨{ config with dryRun := config.dryRun || task.wantsDryRun }, log, ?_, hlogLevel, ?_⟩
  · exact map_eq_ok_iff.2 ⟨config, mapError_eq_ok_iff.2 hconfig, rfl⟩
  · rw [run, hargs]
    dsimp only
    rw [hopen]

/-- **With an unknown level it ends at once**, whatever its task is. The
saving of another level is a task as well, so it is not come to. -/
theorem Ready.run_of_unknown (h : Ready d home entries d₁) {args : List Text} {task : Task}
    (hargs : Arguments.readInvocation args = .ok ⟨none, task⟩) {level : Text}
    (hlevel : entries.get? "log_level" = some (.text level)) {cause : LevelError}
    (hunknown : Levels.threshold (.text level) = .error cause) :
    (run d home args).result = .error (.level cause) ∧ (run d home args).disk = d₁ := by
  obtain ⟨config, log, hconfig, hlogLevel, hrun⟩ := h.run_eq hargs hlevel
  rw [hrun, runInvocation, hconfig]
  dsimp only
  rw [hlogLevel, hunknown]
  exact ⟨rfl, rfl⟩

/-- **With a known one the settings are shown or changed.** -/
theorem Ready.run_of_known (h : Ready d home entries d₁) {args : List Text}
    {key value : Option Text}
    (hargs : Arguments.readInvocation args = .ok ⟨none, .settings key value⟩) {level : Text}
    (hlevel : entries.get? "log_level" = some (.text level)) {severity : Nat}
    (hknown : Levels.threshold (.text level) = .ok severity) :
    (run d home args).result = .ok success
      ∧ (run d home args).disk = (Task.runSettings d₁ (settingsWith home entries) key value).disk
      ∧ (run d home args).printed
        = (Task.runSettings d₁ (settingsWith home entries) key value).printed := by
  obtain ⟨config, log, hconfig, hlogLevel, hrun⟩ := h.run_eq hargs hlevel
  have hdone : (Task.runSettings d₁ (settingsWith home entries) key value).result = .ok () := by
    cases key <;> cases value <;> rfl
  rw [hrun, runInvocation, hconfig]
  dsimp only
  rw [hlogLevel, hknown]
  dsimp only [Task.run]
  rw [hdone]
  exact ⟨rfl, rfl, rfl⟩

/-- **A setting is saved**, and is then in the file with the others, if it is
one that the command line saves. -/
theorem Ready.run_of_saving (h : Ready d home entries d₁) {key value : Text}
    (hargs : Arguments.readInvocation (saving key value)
      = .ok ⟨none, .settings (some key) (some value)⟩) {level : Text}
    (hlevel : entries.get? "log_level" = some (.text level)) {severity : Nat}
    (hknown : Levels.threshold (.text level) = .ok severity) :
    (run d home (saving key value)).result = .ok success
      ∧ Settings.ofFile (run d home (saving key value)).disk (settingsFile home)
        = .ok (entries.insert key (.text value))
      ∧ Ready (run d home (saving key value)).disk home (entries.insert key (.text value))
        (run d home (saving key value)).disk := by
  obtain ⟨hresult, hdisk, -⟩ := h.run_of_known hargs hlevel hknown
  obtain ⟨place, hreach, htakes⟩ := h.takes
  have htexts := h.texts.insert key value
  have hfirst := Settings.Session.first_insert h.first key (.text value)
  obtain ⟨htree, hfile⟩ :=
    htexts.ofFile_save (s := settingsWith home _) h.isTree hfirst hreach htakes
  refine ⟨hresult, ?_⟩
  rw [hdisk]
  exact ⟨hfile, ready_of_ofFile htree h.directory_ne_nil htexts hfirst hfile⟩

/-- So it is if nothing in the line looks like an option. -/
theorem Ready.run_saving (h : Ready d home entries d₁) {key value : Text} (hkey : IsOrdinary key)
    (hvalue : IsOrdinary value) {level : Text}
    (hlevel : entries.get? "log_level" = some (.text level)) {severity : Nat}
    (hknown : Levels.threshold (.text level) = .ok severity) :
    (run d home (saving key value)).result = .ok success
      ∧ Settings.ofFile (run d home (saving key value)).disk (settingsFile home)
        = .ok (entries.insert key (.text value))
      ∧ Ready (run d home (saving key value)).disk home (entries.insert key (.text value))
        (run d home (saving key value)).disk :=
  h.run_of_saving (readInvocation_saving hkey hvalue) hlevel hknown

end

/-! ## Changes, one after the other

A change is a key and a text. Of the changes before the first that locks the
user out, every one is saved; of those after it none is. -/

/-- **A change that locks the user out**: as the level of records it saves
what is none. -/
def LocksOut [Levels] (c : Text × Text) : Prop :=
  c.1 = "log_level" ∧ (Levels.threshold (.text c.2)).isOk = false

instance [Levels] : DecidablePred LocksOut := fun _ => inferInstanceAs (Decidable (_ ∧ _))

/-- **The disk after changes of settings**, each of them saved by a run of
its own that opens the settings anew. -/
def savedAfter [Host] (d : Disk) (home : Text) (changes : List (Text × Text)) : Disk :=
  changes.foldl (fun d c => (run d home (saving c.1 c.2)).disk) d

/-- The settings after changes. -/
def settingsOf (changes : List (Text × Text)) : OrderedMap Text Value :=
  Settings.defaults.insertAll (changes.map fun c => (c.1, .text c.2))

section

variable [Host] {d d₁ : Disk} {home : Text} {changes : List (Text × Text)}

theorem savedAfter_append (d : Disk) (home : Text) (before later : List (Text × Text)) :
    savedAfter d home (before ++ later) = savedAfter (savedAfter d home before) home later :=
  List.foldl_append

theorem savedAfter_concat (d : Disk) (home : Text) (changes : List (Text × Text))
    (c : Text × Text) : savedAfter d home (changes ++ [c])
      = (run (savedAfter d home changes) home (saving c.1 c.2)).disk :=
  savedAfter_append d home changes [c]

omit [Host] in
theorem settingsOf_concat (changes : List (Text × Text)) (c : Text × Text) :
    settingsOf (changes ++ [c]) = (settingsOf changes).insert c.1 (.text c.2) := by
  rw [settingsOf, List.map_append, OrderedMap.insertAll, List.foldl_append]
  rfl

omit [Host] in
theorem get?_settingsOf {key value : Text} {before later : List (Text × Text)}
    (hlast : ∀ c ∈ later, c.1 ≠ key) :
    (settingsOf (before ++ (key, value) :: later)).get? key = some (.text value) := by
  have hnot : key ∉ (later.map fun c => (c.1, Value.text c.2)).map Prod.fst := by
    rw [List.map_map]
    rintro hmem
    obtain ⟨c, hc, rfl⟩ := List.mem_map.1 hmem
    exact hlast c hc rfl
  rw [settingsOf, List.map_append, List.map_cons, OrderedMap.insertAll, List.foldl_append,
    List.foldl_cons]
  refine (OrderedMap.get?_insertAll_of_not_mem _ hnot).trans ?_
  rw [OrderedMap.get?_insert, if_pos rfl]

/-- **The level of records stays known** until a change locks the user out:
it is the default at first, and each change leaves it alone or sets it to one
that is known. -/
theorem level_settingsOf (h : ∀ c ∈ changes, ¬LocksOut c) :
    ∃ level severity, (settingsOf changes).get? "log_level" = some (.text level)
      ∧ Levels.threshold (.text level) = .ok severity := by
  induction changes using List.reverseRecOn with
  | nil =>
    obtain ⟨severity, hseverity⟩ := isOk_iff.1 Levels.isOk_threshold_info
    exact ⟨"INFO", severity, rfl, hseverity⟩
  | append_singleton rest c ih =>
    obtain ⟨level, severity, hlevel, hknown⟩ := ih fun c hc => h c (List.mem_append_left _ hc)
    rw [settingsOf_concat, OrderedMap.get?_insert]
    by_cases hkey : ("log_level" : Text) = c.1
    · rw [if_pos hkey]
      obtain ⟨severity, hseverity⟩ := isOk_iff.1 <| eq_true_of_ne_false fun hnone =>
        h c List.mem_concat_self ⟨hkey.symm, hnone⟩
      exact ⟨c.2, severity, rfl, hseverity⟩
    · rw [if_neg hkey]
      exact ⟨level, severity, hlevel, hknown⟩

/-- **All changes are saved** until one locks the user out. -/
theorem Ready.afterSaving (h : Ready d home Settings.defaults d₁)
    (hordinary : ∀ c ∈ changes, IsOrdinary c.1 ∧ IsOrdinary c.2)
    (hnone : ∀ c ∈ changes, ¬LocksOut c) :
    ∃ d', Ready (savedAfter d home changes) home (settingsOf changes) d' := by
  induction changes using List.reverseRecOn with
  | nil => exact ⟨d₁, h⟩
  | append_singleton rest c ih =>
    obtain ⟨hrest, hc⟩ := List.forall_mem_append.1 hordinary
    have hbefore : ∀ c ∈ rest, ¬LocksOut c := fun c hc => hnone c (List.mem_append_left _ hc)
    obtain ⟨d', hd'⟩ := ih hrest hbefore
    obtain ⟨level, severity, hlevel, hknown⟩ := level_settingsOf hbefore
    obtain ⟨hkey, hvalue⟩ := hc c (List.mem_singleton_self c)
    obtain ⟨-, -, hready⟩ := hd'.run_saving hkey hvalue hlevel hknown
    rw [savedAfter_concat, settingsOf_concat]
    exact ⟨_, hready⟩

/-- **Nothing is saved any more** where the level of records is unknown. -/
theorem Ready.stays_of_unknown {entries : OrderedMap Text Value}
    (h : Ready d home entries d) {level : Text}
    (hlevel : entries.get? "log_level" = some (.text level)) {cause : LevelError}
    (hunknown : Levels.threshold (.text level) = .error cause)
    (hordinary : ∀ c ∈ changes, IsOrdinary c.1 ∧ IsOrdinary c.2) :
    savedAfter d home changes = d := by
  induction changes with
  | nil => rfl
  | cons c rest ih =>
    obtain ⟨⟨hkey, hvalue⟩, hrest⟩ := List.forall_mem_cons.1 hordinary
    have hsame := (h.run_of_unknown (readInvocation_saving hkey hvalue) hlevel hunknown).2
    show savedAfter (run d home (saving c.1 c.2)).disk home rest = d
    rw [hsame]
    exact ih hrest

/-- **What changes of settings lead to.** The first two fields are about the
time before a change that locks the user out, and the last one is about the
time from then on. -/
structure LeadTo [Host] (d : Disk) (home : Text) (changes : List (Text × Text)) : Prop where
  /-- A change is saved, whatever it is, as long as none before it has locked
  the user out, and the file gives it with those before it. -/
  saves : ∀ before c later, changes = before ++ c :: later → (∀ c ∈ before, ¬LocksOut c) →
    (run (savedAfter d home before) home (saving c.1 c.2)).result = .ok success
      ∧ Settings.ofFile (savedAfter d home (before ++ [c])) (settingsFile home)
        = .ok (settingsOf (before ++ [c]))
  /-- As long as none has locked the user out, a setting is shown as it was
  saved last. -/
  shows : (∀ c ∈ changes, ¬LocksOut c) → ∀ before key value later,
    changes = before ++ (key, value) :: later → (∀ c ∈ later, c.1 ≠ key) →
    (run (savedAfter d home changes) home (showing key)).result = .ok success
      ∧ (run (savedAfter d home changes) home (showing key)).printed = printedLine value
  /-- After the first that locks the user out nothing is done any more
  without a configuration file, and so no change repairs it. -/
  lockedOut : ∀ before c later, changes = before ++ c :: later → (∀ c ∈ before, ¬LocksOut c) →
    LocksOut c → ∃ cause, Levels.threshold (.text c.2) = .error cause
      ∧ ∀ args task, Arguments.readInvocation args = .ok ⟨none, task⟩ →
        (run (savedAfter d home changes) home args).result = .error (.level cause)
          ∧ (run (savedAfter d home changes) home args).disk = savedAfter d home changes

/-- **Settings are saved and shown until a level of records is saved that is
none**, which no later change can repair. They begin without a file. -/
theorem leadTo_of_absent (hd : d.IsTree)
    (hmade : d.makeDirectories (Settings.directoryOf home application) = (d₁, none))
    {directory : Location} {name : Text}
    (habsent : d₁.locate true (settingsFile home) = .ok (.absent directory name))
    (hordinary : ∀ c ∈ changes, IsOrdinary c.1 ∧ IsOrdinary c.2) : LeadTo d home changes := by
  have hready := ready_of_absent hd hmade habsent
  refine ⟨?saves, ?shows, ?lockedOut⟩
  case saves =>
    rintro before c later rfl hnone
    obtain ⟨hbefore, hchange⟩ := List.forall_mem_append.1 hordinary
    obtain ⟨hkey, hvalue⟩ := hchange c List.mem_cons_self
    obtain ⟨d', hd'⟩ := hready.afterSaving hbefore hnone
    obtain ⟨level, severity, hlevel, hknown⟩ := level_settingsOf hnone
    obtain ⟨hresult, hfile, -⟩ := hd'.run_saving hkey hvalue hlevel hknown
    rw [savedAfter_concat, settingsOf_concat]
    exact ⟨hresult, hfile⟩
  case shows =>
    rintro hnone before key value later rfl hlast
    obtain ⟨d', hd'⟩ := hready.afterSaving hordinary hnone
    obtain ⟨level, severity, hlevel, hknown⟩ := level_settingsOf hnone
    have hkey := (hordinary (key, value) List.mem_append_cons_self).1
    obtain ⟨hresult, -, hprinted⟩ := hd'.run_of_known (readInvocation_showing hkey) hlevel hknown
    refine ⟨hresult, hprinted.trans ?_⟩
    show printedLine (((settingsOf _).get? key).getD .null).toText = _
    rw [get?_settingsOf hlast]
    rfl
  case lockedOut =>
    rintro before c later rfl hnone ⟨hlevels, hunknown⟩
    obtain ⟨cause, hunknown⟩ := isOk_eq_false_iff.1 hunknown
    obtain ⟨hbefore, hchange⟩ := List.forall_mem_append.1 hordinary
    obtain ⟨⟨hkey, hvalue⟩, hlater⟩ := List.forall_mem_cons.1 hchange
    obtain ⟨d', hd'⟩ := hready.afterSaving hbefore hnone
    obtain ⟨known, severity, hlevel, hknown⟩ := level_settingsOf hnone
    obtain ⟨-, -, hsaved⟩ := hd'.run_saving hkey hvalue hlevel hknown
    -- the change itself is saved, and none after it
    have hlocked : ((settingsOf before).insert c.1 (.text c.2)).get? "log_level"
        = some (.text c.2) := by
      rw [OrderedMap.get?_insert, if_pos hlevels.symm]
    have hsame : savedAfter d home (before ++ c :: later)
        = (run (savedAfter d home before) home (saving c.1 c.2)).disk :=
      (savedAfter_append d home before _).trans (hsaved.stays_of_unknown hlocked hunknown hlater)
    rw [hsame]
    exact ⟨cause, hunknown, fun _ _ hargs => hsaved.run_of_unknown hargs hlocked hunknown⟩

end

/-- A disk without settings. -/
def unsettled : Disk := ⟨.ofList [(["home"], .directory)], ["home"]⟩

/-- The value that was saved last is shown; but a level that is written in
small letters locks the user out. -/
theorem leadTo_of_absent_unsettled :
    unsettled.IsTree
      ∧ (run (savedAfter unsettled "/home" [("encoding", "bogus"), ("log_level", "DEBUG")]) "/home"
          (showing "encoding")).printed = printedLine "bogus"
      ∧ (run (savedAfter unsettled "/home" [("log_level", "debug")]) "/home"
          (saving "log_level" "INFO")).result = .error (.level (.unknown "debug")) := by
  have hd : unsettled.IsTree := by decide +kernel
  have hmade : unsettled.makeDirectories (Settings.directoryOf "/home" application)
      = (unsettled.put ["home", "codechange"] .directory, none) := rfl
  have habsent : (unsettled.put ["home", "codechange"] .directory).locate true
      (settingsFile "/home") = .ok (.absent ["home", "codechange"] "config.json") := by
    decide +kernel
  have hleads {changes : List (Text × Text)}
      (h : ∀ c ∈ changes, IsOrdinary c.1 ∧ IsOrdinary c.2) : LeadTo unsettled "/home" changes :=
    leadTo_of_absent hd hmade habsent h
  refine ⟨hd, ?_, ?_⟩
  · exact ((hleads (by decide)).shows (by decide) [] "encoding" "bogus" [("log_level", "DEBUG")]
      rfl (by decide)).2
  · obtain ⟨cause, hcause, hlocked⟩ :=
      (hleads (by decide)).lockedOut [] ("log_level", "debug") [] rfl (by decide) (by decide)
    cases hcause
    exact (hlocked _ _ (readInvocation_saving (by decide) (by decide))).1

/-- Nothing is repaired then: the level that would do is not saved any
more. -/
theorem not_always_repaired :
    ¬∀ (d d₁ : Disk) (home : Text) (changes : List (Text × Text)) (directory : Location)
      (name : Text), d.IsTree →
      d.makeDirectories (Settings.directoryOf home application) = (d₁, none) →
      d₁.locate true (settingsFile home) = .ok (.absent directory name) →
      (∀ c ∈ changes, IsOrdinary c.1 ∧ IsOrdinary c.2) →
      ∀ before c later, changes = before ++ c :: later →
        (run (savedAfter d home before) home (saving c.1 c.2)).result = .ok success
          ∧ Settings.ofFile (savedAfter d home (before ++ [c])) (settingsFile home)
            = .ok (settingsOf (before ++ [c])) := by
  intro hall
  have hrun := hall unsettled (unsettled.put ["home", "codechange"] .directory) "/home"
    [("log_level", "debug"), ("log_level", "INFO")] ["home", "codechange"] "config.json"
    (by decide +kernel) rfl (by decide +kernel) (by decide)
    [("log_level", "debug")] ("log_level", "INFO") [] rfl
  exact absurd hrun.1 (by decide +kernel)

end Program

end EditBlocks
