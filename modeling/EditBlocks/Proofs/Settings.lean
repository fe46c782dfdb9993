import EditBlocks.Host.Usual
import EditBlocks.Proofs.Checkout
import EditBlocks.Proofs.Disk.Standing
import EditBlocks.Proofs.Json.Part
import EditBlocks.Settings

/-!
# Settings are kept

The settings in use and their file go their ways: a change that cannot be
saved stays in use, and the file is left as it was or holds a part. What
relates the two is that **the file never gives other settings than those in
use** (`Settings.Session.Settled`): it gives them, or it cannot be read. It
holds when the settings are opened, whatever the file holds then, and every
call preserves it, because a file that can be read can be written.

So reading the settings again never changes them, and when a change has been
saved without an error, settings that are opened anew are those in use
(`Settings.keeps_after`), as long as there is room to read what was written.
That there is need not be: a value that is nested too deeply to be read may
have been written without an error, and then all settings are lost with it.
-/

namespace EditBlocks

open Disk RunConfig

namespace Settings

/-! ## What the file of settings gives

A file gives settings when its bytes are UTF-8, its text is JSON for which
there is room, and the value is a mapping. The defaults that it leaves out
are put in front. -/

section

variable [Host] {d d' : Disk} {s : Settings} {file : Text} {entries : OrderedMap Text Value}
  {log : List Record}

omit [Host] in
theorem textEntries_named (entries : List (Text × Value)) :
    textEntries (Value.named entries) = entries := by
  induction entries with
  | nil => rfl
  | cons e rest ih => exact congrArg (e :: ·) ih

omit [Host] in
theorem plain_asValue (h : ∀ e ∈ entries.entries, e.2.Plain) : (asValue entries).Plain :=
  .mapping entries.nodup_keys h

/-- **Settings are given by what is written of them**, with the defaults in
the first place, unless writing breaks off, if there is room to read it. -/
theorem ofJson_write (hplain : ∀ e ∈ entries.entries, e.2.Plain)
    (hfirst : defaults.keys <+: entries.keys) (hpart : Json.part? (asValue entries) = none)
    (hroom : Json.Nesting.reading (Json.write (asValue entries)) = none) :
    ofJson (Json.write (asValue entries)) = .ok entries := by
  rw [ofJson, hroom, Json.read_write (plain_asValue hplain) hpart]
  show Except.ok (defaults.insertAll (textEntries (Value.named entries.entries))) = _
  rw [textEntries_named, OrderedMap.insertAll_entries hfirst]

theorem ofJson_of_read {t : Text} {stop : Json.Stop} (h : Json.read t = .error stop) :
    ∃ message, ofJson t = .error message := by
  unfold ofJson
  cases Json.Nesting.reading t with
  | some message => exact ⟨message, rfl⟩
  | none => exact ⟨stop.message t, by rw [h]⟩

/-- **What is written of settings** is all of it, or a beginning that gives
no settings. In neither is there a carriage return. -/
theorem toJson_cases (hplain : ∀ e ∈ entries.entries, e.2.Plain) :
    '\r' ∉ (toJson (asValue entries)).1
      ∧ (toJson (asValue entries) = (Json.write (asValue entries), none)
          ∧ Json.part? (asValue entries) = none
        ∨ (toJson (asValue entries)).2 ≠ none
          ∧ ∃ message, ofJson (toJson (asValue entries)).1 = .error message) := by
  have hplain := plain_asValue hplain
  obtain ⟨hwhole, hparts⟩ := Json.writesNone_of_plain hplain 0
  change '\r' ∉ Json.write (asValue entries) at hwhole
  unfold toJson
  cases hdeep : Json.Nesting.writing (asValue entries) with
  | some stopped =>
    obtain ⟨part, message⟩ := stopped
    have hpart := (Json.Nesting.prefix_of_writing hdeep).subset
    obtain ⟨stop, hstop⟩ := Json.Nesting.read_of_writing hdeep
    exact ⟨fun h => hwhole (hpart h), Or.inr ⟨by simp, ofJson_of_read hstop⟩⟩
  | none =>
    dsimp only
    cases hpart : Json.part? (asValue entries) with
    | some part =>
      obtain ⟨stop, hstop⟩ := Json.read_part hplain hpart
      exact ⟨hparts part hpart, Or.inr ⟨by simp, ofJson_of_read hstop⟩⟩
    | none => exact ⟨hwhole, Or.inl ⟨rfl, rfl⟩⟩

/-- A file that gives settings is one that can be read. -/
theorem readText_of_ofFile (h : ofFile d file = .ok entries) :
    ∃ t, d.readText file usualEncoding = .ok t
      ∧ ofJson (Text.normalizeNewlines t) = .ok entries := by
  unfold ofFile at h
  split at h
  · cases h
  next t ht => exact ⟨t, ht, h⟩

theorem isThere_of_ofFile (hd : d.IsTree) (h : ofFile d file = .ok entries) :
    d.isThere file = true := by
  obtain ⟨t, ht, -⟩ := readText_of_ofFile h
  obtain ⟨-, place, bytes, -, hreach, hnode, -⟩ := (readText_eq_ok_iff hd).1 ht
  rw [isThere, lookUp?_eq hd, hreach, Option.bind_some, hnode]
  rfl

/-- **Settings that their file gives, or that it cannot change, stay** when
they are read again. -/
theorem reload_eq_self (h : ∀ entries, ofFile d s.file = .ok entries → entries = s.entries) :
    (s.reload d).1 = s := by
  unfold reload
  split
  · split
    next entries hentries =>
      rw [h entries hentries]
      split <;> rfl
    · rfl
  · rfl

/-- Settings that are read are those of their file. -/
theorem reload_of_ofFile (hd : d.IsTree) (h : ofFile d s.file = .ok entries) :
    ∃ log, s.reload d = ({ s with entries }, log) := by
  unfold reload
  rw [if_pos (isThere_of_ofFile hd h), h]
  dsimp only
  split <;> exact ⟨_, rfl⟩

/-- Otherwise they stay. -/
theorem reload_of_error {message : Text} (h : ofFile d s.file = .error message) :
    (s.reload d).1 = s :=
  reload_eq_self fun _ hentries => nomatch h.symm.trans hentries

/-! ## Saving

The file ends up with the whole text, with a part that cannot be read, or as
it was. -/

/-- **A file of settings is written, or it is left as it is and cannot be
read either.** -/
theorem writeText_usual (hd : d.IsTree) (file t : Text) :
    (∃ d', d.writeText file usualEncoding t = (d', none) ∧ d'.IsTree
      ∧ d'.readText file usualEncoding = .ok t)
    ∨ (∃ e, d.writeText file usualEncoding t = (d, some e))
      ∧ ∀ t', d.readText file usualEncoding ≠ .ok t' := by
  have he : Encoding.ofSetting usualEncoding = .ok .utf8 := by rfl
  by_cases htakes : ∃ place, d.reach? file = some place ∧ d.Takes place (.file (Utf8.encode t))
  · obtain ⟨place, hreach, htakes⟩ := htakes
    have hput :
        (d.put place (.file (Utf8.encode t))).node? place = some (.file (Utf8.encode t)) := by
      rw [node?_put d _ place htakes.ne_nil, if_pos rfl]
    refine Or.inl ⟨_, writeText_of_takes hd he rfl hreach htakes, htakes.isTree hd,
      (readText_eq_ok_iff (htakes.isTree hd)).2 ⟨.utf8, place, Utf8.encode t, he,
        htakes.grows.reach? hreach, hput, Encoding.readsBack_of_isModelled rfl rfl⟩⟩
  · refine Or.inr ⟨?_, fun t' ht' => ?_⟩
    · rcases hw : d.writeText file usualEncoding t with ⟨d', failed⟩
      rcases writeText_cases hd hw with ⟨hfailed, rfl⟩ | ⟨place, hreach, hall, -⟩
      · obtain ⟨e, rfl⟩ := Option.ne_none_iff_exists'.1 hfailed
        exact ⟨e, rfl⟩
      · exact absurd ⟨place, hreach, hall _⟩ htakes
    · -- what can be read is a file, and a file takes other bytes
      obtain ⟨-, place, bytes, -, hreach, hnode, -⟩ := (readText_eq_ok_iff hd).1 ht'
      exact htakes ⟨place, hreach, takes_of_file hd hnode _⟩

/-- **Saving settings makes their file give them**. Otherwise the file gives
none, and an error is reported or there is no room to read again what has
been written. -/
theorem save_cases (hd : d.IsTree) (hplain : ∀ e ∈ s.entries.entries, e.2.Plain)
    (hfirst : defaults.keys <+: s.entries.keys) (h : s.save d = (d', log)) :
    d'.IsTree ∧ (ofFile d' s.file = .ok s.entries
      ∨ ((∃ message, .error message ∈ log)
          ∨ Json.Nesting.reading (Json.write (asValue s.entries)) ≠ none)
        ∧ ∀ entries, ofFile d' s.file ≠ .ok entries) := by
  obtain ⟨hreturn, hcases⟩ := toJson_cases hplain
  unfold save at h
  dsimp only at h
  generalize toJson (asValue s.entries) = written at h hreturn hcases
  obtain ⟨t, stopped⟩ := written
  dsimp only at h hreturn hcases
  rcases writeText_usual hd s.file t with ⟨d₁, hwrite, hd₁, hread⟩ | ⟨⟨e, hwrite⟩, hunread⟩
  · rw [hwrite] at h
    dsimp only at h
    have hdisk : d₁ = d' := by split at h <;> exact (Prod.mk.inj h).1
    subst hdisk
    have hfile : ofFile d₁ s.file = ofJson t := by
      rw [ofFile, hread]
      dsimp only
      rw [Text.normalizeNewlines_of_not_mem hreturn]
    refine ⟨hd₁, ?_⟩
    rw [hfile]
    rcases hcases with ⟨hall, hpart⟩ | ⟨hstopped, message, hmessage⟩
    · obtain ⟨rfl, rfl⟩ := Prod.mk.inj hall
      cases hroom : Json.Nesting.reading (Json.write (asValue s.entries)) with
      | none => exact Or.inl (ofJson_write hplain hfirst hpart hroom)
      | some message =>
        refine Or.inr ⟨Or.inr (by simp), fun entries hentries => ?_⟩
        rw [ofJson, hroom] at hentries
        cases hentries
    · obtain ⟨cause, rfl⟩ := Option.ne_none_iff_exists'.1 hstopped
      cases h
      exact Or.inr ⟨Or.inl ⟨_, List.mem_singleton.2 rfl⟩,
        fun entries hentries => nomatch hmessage.symm.trans hentries⟩
  · rw [hwrite] at h
    cases h
    refine ⟨hd, Or.inr ⟨Or.inl ⟨_, List.mem_singleton.2 rfl⟩, fun entries hentries => ?_⟩⟩
    obtain ⟨t, ht, -⟩ := readText_of_ofFile hentries
    exact hunread t ht

/-! ## Opening

Opening makes the directory and reads the file, if there is one. -/

theorem makeDirectories_nil (d : Disk) : ∃ e, d.makeDirectories [] = (d, some e) := by
  obtain ⟨room, hroom⟩ := Nat.exists_eq_succ_of_ne_zero Disk.Nesting.directories_pos.ne'
  exact ⟨.refused .noEntry [], by rw [makeDirectories, hroom]; rfl⟩

/-- The settings of an application before their file is read. -/
def initial (home application : Text) : Settings :=
  ⟨directoryOf home application, Path.join (directoryOf home application) fileName, defaults⟩

/-- **Settings are opened** once their directory is there, with the defaults
to begin with. -/
theorem openIn_eq_ok_iff {home application : Text} :
    openIn d home application = (d', .ok (s, log))
      ↔ d.makeDirectories (directoryOf home application) = (d', none)
        ∧ (initial home application).reload d' = (s, log) := by
  unfold openIn
  dsimp only
  match d.makeDirectories (directoryOf home application) with
  | (d₁, none) =>
    show (d₁, Except.ok ((initial home application).reload d₁)) = _ ↔ _
    constructor
    · intro h
      obtain ⟨rfl, hopened⟩ := Prod.mk.inj h
      exact ⟨rfl, Except.ok.inj hopened⟩
    · rintro ⟨h, hopened⟩
      obtain ⟨rfl, -⟩ := Prod.mk.inj h
      rw [hopened]
  | (d₁, some e) => exact iff_of_false (fun h => nomatch h) fun h => nomatch h.1

/-- **Settings are opened as their file gives them**, on a disk that stays as
it is. -/
theorem openIn_of_ofFile (hd : d.IsTree) {home application : Text}
    (hdirectory : s.directory = directoryOf home application) (hne : s.directory ≠ [])
    (hfile : s.file = Path.join s.directory fileName) (h : ofFile d s.file = .ok s.entries) :
    ∃ log, openIn d home application = (d, .ok (s, log)) := by
  obtain ⟨t, ht, -⟩ := readText_of_ofFile h
  obtain ⟨-, place, -, -, hreach, -⟩ := (readText_eq_ok_iff hd).1 ht
  -- the file is reached through the directory
  obtain ⟨found, hfound, -⟩ := reach?_eq_some_iff.1 hreach
  rw [hfile] at hfound
  have hthere := isDirectory_of_join hd hfound hne (by decide)
  have hinitial : { initial home application with entries := s.entries } = s := by
    rw [initial, ← hdirectory, ← hfile]
  rw [hfile, hdirectory] at h
  rw [hdirectory] at hthere
  obtain ⟨log, hlog⟩ := reload_of_ofFile (s := initial home application) hd h
  rw [hinitial] at hlog
  exact ⟨log, openIn_eq_ok_iff.2 ⟨makeDirectories_of_isDirectory hd hthere, hlog⟩⟩

end

/-! ## Calls

One call keeps what relates the settings to their file, and so do any number
of them. What the settings hold after some calls does not depend on the file
at all. -/

/-- **What is asked of settings that are open.** These are all the ways there
are to use them. -/
inductive Call
  /-- To read them again. -/
  | load
  /-- To change one, and save them. -/
  | set (key : Text) (v : Value)
  /-- To give the value of one. -/
  | get (key : Text) (default : Value)
  /-- To save them. -/
  | save

/-- **Settings that are open, and the disk.** -/
structure Session where
  /-- The settings in use. -/
  settings : Settings
  /-- The disk. -/
  disk : Disk

namespace Call

/-- **The session after a call**, and what is reported meanwhile. -/
def run [Host] (x : Session) : Call → Session × List Record
  | load => (⟨(x.settings.reload x.disk).1, x.disk⟩, (x.settings.reload x.disk).2)
  | set key v =>
    let (settings, disk, log) := x.settings.set x.disk key v
    (⟨settings, disk⟩, log)
  | get _ _ => (x, [])
  | save => (⟨x.settings, (x.settings.save x.disk).1⟩, (x.settings.save x.disk).2)

/-- Whether a call saves the settings. -/
def saves : Call → Bool
  | set _ _ => true
  | save => true
  | _ => false

/-- The entry that a call puts into the settings. -/
def entry? : Call → Option (Text × Value)
  | set key v => some (key, v)
  | _ => none

/-- A call brings in plain data only. -/
def Plain (call : Call) : Prop := ∀ e, call.entry? = some e → e.2.Plain

end Call

namespace Session

/-- **The session after calls.** -/
def after [Host] (x : Session) (calls : List Call) : Session :=
  calls.foldl (fun x call => (call.run x).1) x

/-- **What holds of a session all the time**: the defaults come first, and
the file gives the settings in use if it gives any. -/
structure Settled [Host] (directory : Text) (x : Session) : Prop where
  /-- The disk is one. -/
  isTree : x.disk.IsTree
  /-- The settings are kept in the directory. -/
  directory_eq : x.settings.directory = directory
  /-- There they are kept in the file of that name. -/
  file_eq : x.settings.file = Path.join x.settings.directory fileName
  /-- They are plain data. -/
  plain : ∀ e ∈ x.settings.entries.entries, e.2.Plain
  /-- The defaults are there, in the first place. -/
  first : defaults.keys <+: x.settings.entries.keys
  /-- The file gives no others. -/
  same : ∀ entries, ofFile x.disk x.settings.file = .ok entries → entries = x.settings.entries

section

variable [Host] {x : Session} {directory : Text} {call : Call} {calls : List Call}

/-- A session goes on being settled when its settings are saved, whatever the
file held before. -/
theorem Settled.of_save {s : Settings} {d : Disk} (hd : d.IsTree)
    (hdirectory : s.directory = directory) (hfile : s.file = Path.join s.directory fileName)
    (hplain : ∀ e ∈ s.entries.entries, e.2.Plain) (hfirst : defaults.keys <+: s.entries.keys) :
    Settled directory ⟨s, (s.save d).1⟩ := by
  obtain ⟨hd', hcases⟩ := save_cases hd hplain hfirst (Prod.eta (s.save d)).symm
  refine ⟨hd', hdirectory, hfile, hplain, hfirst, fun entries hentries => ?_⟩
  rcases hcases with hgiven | ⟨-, hnone⟩
  · exact Except.ok.inj (hentries.symm.trans hgiven)
  · exact absurd hentries (hnone entries)

omit [Host] in
/-- Settings with a plain value put in are plain. -/
theorem plain_insert {entries : OrderedMap Text Value} (h : ∀ e ∈ entries.entries, e.2.Plain)
    {key : Text} {v : Value} (hv : v.Plain) :
    ∀ e ∈ (entries.insert key v).entries, e.2.Plain := by
  intro e he
  rcases OrderedMap.mem_entries_insert he with rfl | he
  · exact hv
  · exact h e he

omit [Host] in
/-- Keys that come first stay there. -/
theorem first_insert {entries : OrderedMap Text Value} (h : defaults.keys <+: entries.keys)
    (key : Text) (v : Value) : defaults.keys <+: (entries.insert key v).keys :=
  h.trans (OrderedMap.keys_prefix_insertAll entries [(key, v)])

/-- **Every call preserves it.** -/
theorem Settled.run (hx : x.Settled directory) (hcall : call.Plain) :
    (call.run x).1.Settled directory := by
  cases call with
  | load =>
    show Settled directory ⟨(x.settings.reload x.disk).1, x.disk⟩
    rw [reload_eq_self hx.same]
    exact hx
  | set key v =>
    exact .of_save hx.isTree hx.directory_eq hx.file_eq (plain_insert hx.plain (hcall _ rfl))
      (first_insert hx.first key v)
  | get key default => exact hx
  | save => exact .of_save hx.isTree hx.directory_eq hx.file_eq hx.plain hx.first

/-- **So do several.** -/
theorem Settled.after (hx : x.Settled directory) (hcalls : ∀ call ∈ calls, call.Plain) :
    (x.after calls).Settled directory := by
  induction calls generalizing x with
  | nil => exact hx
  | cons call rest ih =>
    obtain ⟨hcall, hrest⟩ := List.forall_mem_cons.1 hcalls
    exact ih (hx.run hcall) hrest

/-- A call puts its entry into the settings, if it has one, and leaves the
others. -/
theorem Settled.entries_run (hx : x.Settled directory) (call : Call) :
    (call.run x).1.settings.entries
      = x.settings.entries.insertAll (call.entry?.toList) := by
  cases call with
  | load => exact congrArg Settings.entries (reload_eq_self hx.same)
  | set key v => rfl
  | get key default => rfl
  | save => rfl

/-- **The settings after calls** are those before with the entries of the
calls put in, in order. -/
theorem Settled.entries_after (hx : x.Settled directory) (hcalls : ∀ call ∈ calls, call.Plain) :
    (x.after calls).settings.entries
      = x.settings.entries.insertAll (calls.filterMap Call.entry?) := by
  induction calls generalizing x with
  | nil => rfl
  | cons call rest ih =>
    obtain ⟨hcall, hrest⟩ := List.forall_mem_cons.1 hcalls
    refine (ih (hx.run hcall) hrest).trans ?_
    rw [hx.entries_run]
    cases hentry : call.entry? with
    | none => rw [List.filterMap_cons_none hentry]; rfl
    | some e => rw [List.filterMap_cons_some hentry]; rfl

/-- What was set last under a key is found there. -/
theorem Settled.get_after (hx : x.Settled directory) (hcalls : ∀ call ∈ calls, call.Plain)
    {before later : List Call} {key : Text} {v : Value}
    (hset : calls = before ++ .set key v :: later) (hlast : ∀ v', .set key v' ∉ later)
    (default : Value) : (x.after calls).settings.get key default = v := by
  have hnot : key ∉ (later.filterMap Call.entry?).map Prod.fst := by
    intro hmem
    obtain ⟨⟨key', v'⟩, hentry, rfl⟩ := List.mem_map.1 hmem
    obtain ⟨call, hcall, hcall'⟩ := List.mem_filterMap.1 hentry
    cases call with
    | set key'' v'' =>
      cases hcall'
      exact hlast v' hcall
    | _ => cases hcall'
  have hfound : (x.after calls).settings.entries.get? key = some v := by
    rw [hx.entries_after hcalls, hset, List.filterMap_append,
      List.filterMap_cons_some (show Call.entry? (.set key v) = some (key, v) from rfl)]
    generalize before.filterMap Call.entry? = earlier
    rw [OrderedMap.insertAll, List.foldl_append]
    show (((x.settings.entries.insertAll earlier).insert key v).insertAll _).get? key = some v
    rw [OrderedMap.get?_insertAll_of_not_mem _ hnot, OrderedMap.get?_insert, if_pos rfl]
  rw [Settings.get, hfound, Option.getD_some]

/-- **After a call that has saved the settings** they are those of the file,
if there is room to read it. -/
theorem Settled.ofFile_run (hx : x.Settled directory) (hcall : call.Plain)
    (hsaves : call.saves = true) (hlog : ∀ r ∈ (call.run x).2, r.level ≠ .error)
    (hroom : Json.Nesting.reading (Json.write (asValue (call.run x).1.settings.entries)) = none) :
    ofFile (call.run x).1.disk (call.run x).1.settings.file
      = .ok (call.run x).1.settings.entries := by
  have hsaved {s : Settings} (hplain : ∀ e ∈ s.entries.entries, e.2.Plain)
      (hfirst : defaults.keys <+: s.entries.keys)
      (hlog : ∀ r ∈ (s.save x.disk).2, r.level ≠ .error)
      (hroom : Json.Nesting.reading (Json.write (asValue s.entries)) = none) :
      ofFile (s.save x.disk).1 s.file = .ok s.entries := by
    obtain ⟨-, hgiven | ⟨⟨message, hmem⟩ | hdeep, -⟩⟩ :=
      save_cases hx.isTree hplain hfirst (Prod.eta (s.save x.disk)).symm
    · exact hgiven
    · exact absurd rfl (hlog _ hmem)
    · exact absurd hroom hdeep
  cases call with
  | load => cases hsaves
  | set key v =>
    exact hsaved (plain_insert hx.plain (hcall _ rfl)) (first_insert hx.first key v) hlog hroom
  | get key default => cases hsaves
  | save => exact hsaved hx.plain hx.first hlog hroom

end

end Session

/-! ## From opening on

The settings are opened on a disk of which nothing is known but that it is a
tree. -/

theorem plain_defaults : ∀ e ∈ defaults.entries, e.2.Plain := by
  intro e he
  rcases List.mem_cons.1 he with rfl | he
  · exact .text _
  · rw [List.mem_singleton.1 he]
    exact .text _

/-- The defaults come first in what a file gives. -/
theorem first_of_ofFile [Host] {d : Disk} {file : Text} {entries : OrderedMap Text Value}
    (h : ofFile d file = .ok entries) : defaults.keys <+: entries.keys := by
  obtain ⟨t, -, h⟩ := readText_of_ofFile h
  unfold ofJson at h
  split at h
  · cases h
  split at h <;> cases h
  exact OrderedMap.keys_prefix_insertAll defaults _

section

variable [Host] {d d₁ : Disk} {home application : Text} {opened : Settings} {log : List Record}

/-- **Settings that are opened are settled**, whatever their file holds: if
it can be read it has just been, and if it cannot it gives nothing. -/
theorem settled_of_openIn (hd : d.IsTree)
    (hopen : openIn d home application = (d₁, .ok (opened, log)))
    (hfile : ∀ e ∈ opened.entries.entries, e.2.Plain) :
    Session.Settled (directoryOf home application) ⟨opened, d₁⟩
      ∧ ((∀ entries, ofFile d₁ opened.file ≠ .ok entries) → opened.entries = defaults) := by
  obtain ⟨hmade, hreload⟩ := openIn_eq_ok_iff.1 hopen
  have hd₁ : d₁.IsTree := by
    have := (extends_makeDirectories hd (directoryOf home application)).isTree
    rwa [hmade] at this
  have hopened : opened = ((initial home application).reload d₁).1 :=
    (congrArg Prod.fst hreload).symm
  cases hgiven : ofFile d₁ (initial home application).file with
  | ok entries =>
    obtain ⟨log', hlog⟩ := reload_of_ofFile hd₁ hgiven
    rw [hlog] at hopened
    subst hopened
    refine ⟨⟨hd₁, rfl, rfl, hfile, first_of_ofFile hgiven, fun entries' h => ?_⟩, fun hnone => ?_⟩
    · exact Except.ok.inj (h.symm.trans hgiven)
    · exact absurd hgiven (hnone entries)
  | error message =>
    rw [reload_of_error hgiven] at hopened
    subst hopened
    exact ⟨⟨hd₁, rfl, rfl, hfile, List.prefix_refl _, fun entries h => nomatch h.symm.trans hgiven⟩,
      fun _ => rfl⟩

/-- **What settings keep from when they are opened**, through any calls. The
defaults stay in front; reading again never changes anything; and what has
been saved is found by whoever opens the settings next, if it can be read at
all. -/
structure Keeps (home application : Text) (opened : Session) (calls : List Call) : Prop where
  /-- The defaults are there, in the first place. -/
  first : defaults.keys <+: (opened.after calls).settings.entries.keys
  /-- Settings are the defaults when they are opened on a file that gives
  none. -/
  unread : (∀ entries, ofFile opened.disk opened.settings.file ≠ .ok entries) →
    opened.settings.entries = defaults
  /-- Reading them again changes none. -/
  reload : ((opened.after calls).settings.reload (opened.after calls).disk).1
    = (opened.after calls).settings
  /-- The calls change what they set and nothing else. -/
  entries : (opened.after calls).settings.entries
    = opened.settings.entries.insertAll (calls.filterMap Call.entry?)
  /-- What was set last under a key is found there. -/
  found : ∀ before key v later default, calls = before ++ .set key v :: later →
    (∀ v', .set key v' ∉ later) → (opened.after calls).settings.get key default = v
  /-- After a call more that saves and reports no error, settings that are
  opened anew are the same, if there is room to read what has been written. -/
  saved : ∀ call : Call, call.Plain → call.saves = true →
    (∀ r ∈ (call.run (opened.after calls)).2, r.level ≠ .error) →
    Json.Nesting.reading
      (Json.write (asValue (call.run (opened.after calls)).1.settings.entries)) = none →
    ∃ log, openIn (call.run (opened.after calls)).1.disk home application
      = ((call.run (opened.after calls)).1.disk,
        .ok ((call.run (opened.after calls)).1.settings, log))

/-- **Saved settings are not lost or reordered**, as long as there is room to
read them. -/
theorem keeps_after (hd : d.IsTree) (hopen : openIn d home application = (d₁, .ok (opened, log)))
    (hfile : ∀ e ∈ opened.entries.entries, e.2.Plain) {calls : List Call}
    (hcalls : ∀ call ∈ calls, call.Plain) : Keeps home application ⟨opened, d₁⟩ calls := by
  obtain ⟨hsettled, hunread⟩ := settled_of_openIn hd hopen hfile
  have hafter := hsettled.after hcalls
  refine ⟨hafter.first, hunread, reload_eq_self hafter.same, hsettled.entries_after hcalls,
    fun _ _ _ _ default hset hlast => hsettled.get_after hcalls hset hlast default,
    fun call hcall hsaves hlog hroom => ?_⟩
  have hrun := hafter.run hcall
  have hgiven := hafter.ofFile_run hcall hsaves hlog hroom
  have hne : directoryOf home application ≠ [] := fun hnil => by
    obtain ⟨hmade, -⟩ := openIn_eq_ok_iff.1 hopen
    obtain ⟨e, he⟩ := makeDirectories_nil d
    rw [hnil, he] at hmade
    cases hmade
  exact openIn_of_ofFile hrun.isTree hrun.directory_eq (hrun.directory_eq ▸ hne) hrun.file_eq hgiven

end

/-- Settings with one of the user's own. -/
def furnishing : OrderedMap Text Value :=
  (defaults.insert "encoding" (.text "ascii")).insert "tabs" (.sequence [.int 2, .bool true])

/-- The disk on which they are kept. -/
def furnished : Disk where
  nodes := .ofList [
    (["home"], .directory),
    (["home", "editor"], .directory),
    (["home", "editor", "config.json"], .file (Utf8.encode (Json.write (asValue furnishing))))]
  workingDir := ["home"]

/-- The user's own setting is there when the settings are opened, and still
there, with the one that is set after it, when they are opened anew. -/
theorem keeps_after_furnished :
    furnished.IsTree ∧ (∀ e ∈ furnishing.entries, e.2.Plain)
      ∧ ∃ opened log, openIn furnished "/home" "editor" = (furnished, .ok (opened, log))
        ∧ opened.entries = furnishing
        ∧ ∃ d log, openIn d "/home" "editor"
          = (d, .ok ({ opened with
              entries := furnishing.insert "theme" (.text "dark") }, log)) := by
  have hd : furnished.IsTree := by decide +kernel
  have hplain : ∀ e ∈ furnishing.entries, e.2.Plain :=
    Session.plain_insert (Session.plain_insert plain_defaults (.text _))
      (.sequence (List.forall_mem_cons.2 ⟨.int 2, List.forall_mem_singleton.2 (.bool true)⟩))
  have hfirst : defaults.keys <+: furnishing.keys :=
    Session.first_insert (Session.first_insert (List.prefix_refl _) _ _) _ _
  have hread : furnished.readText "/home/editor/config.json" RunConfig.usualEncoding
      = .ok (Json.write (asValue furnishing)) :=
    toOption_eq_some_iff.1 (by decide +kernel)
  have hnone : '\r' ∉ Json.write (asValue furnishing) := by decide +kernel
  have hfile : ofFile furnished "/home/editor/config.json" = .ok furnishing := by
    rw [ofFile, hread]
    show ofJson (Text.normalizeNewlines (Json.write (asValue furnishing))) = .ok furnishing
    rw [Text.normalizeNewlines_of_not_mem hnone]
    exact ofJson_write hplain hfirst (by decide +kernel) rfl
  let opened : Settings := ⟨"/home/editor", "/home/editor/config.json", furnishing⟩
  obtain ⟨log, hopen⟩ : ∃ log, openIn furnished "/home" "editor" = (furnished, .ok (opened, log)) :=
    openIn_of_ofFile hd rfl (by decide) rfl hfile
  have hcalls : ∀ call ∈ [Call.set "theme" (.text "dark")], call.Plain := by
    intro call hcall e hentry
    rw [List.mem_singleton.1 hcall] at hentry
    cases hentry
    exact .text _
  have hkeeps := keeps_after hd hopen hplain hcalls
  -- all that is reported is that the settings are saved
  obtain ⟨log', hopened⟩ := hkeeps.saved .save (fun _ h => nomatch h) rfl (by decide +kernel) rfl
  exact ⟨hd, hplain, _, log, hopen, rfl, _, log', hopened⟩

end Settings

end EditBlocks
