import EditBlocks.Proofs.DryRun
import Mathlib.Logic.Relation

/-!
# What was checked is what is written

Each path of a response is resolved twice: when its file is loaded, and again
when it is stored. By then other files have been stored and directories have
been made for them. Neither adds a link or takes one away
(`Disk.Change.grows`), so both times the path stands for the same, or is
refused for the same reason, however many changes there have been
(`Disk.Altered.resolve`). Storing makes no other change
(`Snapshot.altered_store`).

So storing can be told without resolving a path again: it writes each file at
the path that was checked before anything was written
(`Snapshot.storeFiles_eq_storeEach`), and no path is refused once something
has been written (`Program.storesAsChecked_of_args`).
`Program.keepsChecks_of_isTree` says this of every tree, of all that storing
does to it, and of each run on it.
-/

namespace EditBlocks

section

variable {d d' : Disk} {root path full : Text} {config : RunConfig} {paths : List Text}
  {before after s : Snapshot}

namespace Disk

/-- **A change of the disk**: a directory made, or a file written. These are
the only ones that storing makes, and neither has to do with links. -/
inductive Change (d d' : Disk) : Prop
  | makeDirectory (path : Text) (h : d.makeDirectory path = .ok d')
  | write (path : Text) (bytes : List UInt8) (h : d.write path bytes = .ok d')

/-- **A disk altered by any number of changes**, by whomever they are made. -/
def Altered : Disk → Disk → Prop := Relation.ReflTransGen Change

/-- One change makes the disk grow. -/
theorem Change.grows (hd : d.IsTree) (h : Change d d') : d'.IsTree ∧ d.Grows d' := by
  cases h with
  | makeDirectory path h =>
    have hmade : d.Extends (fun _ => True) d' := extends_makeDirectory hd (fun _ _ _ => trivial) h
    exact ⟨hmade.isTree, hmade.grows⟩
  | write path bytes h =>
    obtain ⟨place, -, htakes, rfl⟩ := (write_eq_ok_iff hd).1 h
    exact ⟨htakes.isTree hd, htakes.grows⟩

/-- **So do any number of them.** -/
theorem Altered.grows (hd : d.IsTree) (h : d.Altered d') : d'.IsTree ∧ d.Grows d' := by
  induction h with
  | refl => exact ⟨hd, .refl d⟩
  | tail _ hchange ih =>
    obtain ⟨hd', hg'⟩ := hchange.grows ih.1
    exact ⟨hd', ih.2.trans hg'⟩

/-- **Every path is resolved as before** on a disk that has been altered: to
the same path, or with the same error. -/
theorem Altered.resolve [Nesting] (hd : d.IsTree) (h : d.Altered d') (root path : Text)
    (exclude : List Value) : d'.resolve root path exclude = d.resolve root path exclude :=
  (h.grows hd).2.resolve root path exclude

/-! ## What storing does

Each of the things that a store is made of is a number of changes:
directories made, a file emptied, a file written. So what holds of one change
holds of the store. -/

theorem altered_makeLast (d : Disk) (path : Text) : d.Altered (d.makeLast path).1 := by
  unfold makeLast
  split
  next h => exact .single (.makeDirectory path h)
  · exact .refl
  · split <;> exact .refl

/-- Making a directory and those above it alters the disk by the directories
made. -/
theorem altered_makeDirectoriesFrom (fuel : Nat) (d : Disk) (path : Text) :
    d.Altered (makeDirectoriesFrom fuel d path).1 := by
  induction fuel generalizing path with
  | zero => exact .refl
  | succ fuel ih =>
    rw [makeDirectoriesFrom_succ]
    split
    · exact altered_makeLast d path
    · split
      · exact ih _
      · split
        · exact ih _
        · exact (ih _).trans (altered_makeLast _ path)

variable [Host]

theorem altered_writeText (d : Disk) (path : Text) (setting : Value) (t : Text) :
    d.Altered (d.writeText path setting t).1 := by
  unfold writeText
  split
  · exact .refl
  split
  · exact .refl
  next hempty =>
    have hfirst := Change.write path [] hempty
    split
    · exact .single hfirst
    next bytes _ =>
      split
      · exact .single hfirst
      next hwrite => exact .tail (.single hfirst) (.write path bytes hwrite)

/-- **The disk with a text written to the file at a path**, and the
directories above it made. -/
def storeAt (d : Disk) (full : Text) (encoding : Value) (t : Text) : Disk × Option Failure :=
  match d.makeDirectories (Path.parent full) with
  | (d, some e) => (d, some (.disk e))
  | (d, none) => d.writeText full encoding t

/-- **The disk with several texts written**, each to the file at its path, up
to the first that cannot be. -/
def storeEach (encoding : Value) : Disk → List (Text × Text) → Disk × Option Failure
  | d, [] => (d, none)
  | d, (full, t) :: rest =>
    match d.storeAt full encoding t with
    | (d, some e) => (d, some e)
    | (d, none) => storeEach encoding d rest

theorem altered_storeAt (d : Disk) (full : Text) (setting : Value) (t : Text) :
    d.Altered (d.storeAt full setting t).1 := by
  have hmake : d.Altered (d.makeDirectories (Path.parent full)).1 :=
    altered_makeDirectoriesFrom _ d _
  rw [storeAt]
  rcases hmade : d.makeDirectories (Path.parent full) with ⟨made, _ | e⟩
  all_goals rw [hmade] at hmake
  · exact hmake.trans (altered_writeText made full setting t)
  · exact hmake

/-- **The path that an edit's path is checked to stand for**; empty if it is
refused. -/
def checkedPath (d : Disk) (root : Text) (exclude : List Value) (path : Text) : Text :=
  (d.resolve root path exclude).toOption.getD []

theorem checkedPath_eq {exclude : List Value} (h : d.resolve root path exclude = .ok full) :
    d.checkedPath root exclude path = full := by
  rw [checkedPath, h]
  rfl

end Disk

variable [Host]

namespace Snapshot

open Disk

/-- A file is stored at the path that its path stands for. -/
theorem storeFile_eq_storeAt (h : d.resolve root path config.exclude = .ok full) :
    storeFile d root s config path = d.storeAt full config.encoding (s.contents path) := by
  rw [storeFile, h]
  rfl

theorem altered_storeFile (d : Disk) (root : Text) (s : Snapshot) (config : RunConfig)
    (path : Text) : d.Altered (storeFile d root s config path).1 := by
  cases hfull : d.resolve root path config.exclude with
  | error e =>
    rw [storeFile, hfull]
    exact .refl
  | ok full =>
    rw [storeFile_eq_storeAt hfull]
    exact altered_storeAt d full _ _

theorem altered_storeFiles (d : Disk) (root : Text) (s : Snapshot) (config : RunConfig)
    (paths : List Text) : d.Altered (storeFiles root s config d paths).1 := by
  induction paths generalizing d with
  | nil => exact .refl
  | cons path rest ih =>
    have hfirst := altered_storeFile d root s config path
    rw [storeFiles]
    rcases hstep : storeFile d root s config path with ⟨d₁, _ | e⟩
    all_goals rw [hstep] at hfirst
    · exact hfirst.trans (ih d₁)
    · exact hfirst

/-- **Storing alters the disk**, however far it gets: it makes directories
and writes files, and nothing else. -/
theorem altered_store (d : Disk) (root : Text) (before after : Snapshot) (config : RunConfig) :
    d.Altered (store d root before after config).1 := by
  obtain ⟨failed, hstore, -⟩ := exists_storeFiles_of_store d root before after config
  have hfiles := altered_storeFiles d root after config (before.changed after)
  rwa [hstore] at hfiles

/-- **Files are stored where they were checked** before the first of them was
stored. -/
theorem storeFiles_eq_storeEach {d₁ : Disk} (hd : d.IsTree) (h : d.Altered d₁)
    (hfull : ∀ path ∈ paths, ∃ full, d.resolve root path config.exclude = .ok full) :
    storeFiles root s config d₁ paths
      = storeEach config.encoding d₁
          (paths.map fun path => (d.checkedPath root config.exclude path, s.contents path)) := by
  induction paths generalizing d₁ with
  | nil => rfl
  | cons path rest ih =>
    obtain ⟨⟨full, hpath⟩, hrest⟩ := List.forall_mem_cons.1 hfull
    -- the disk has been altered, but the path stands for what it stood for
    have hsame : storeFile d₁ root s config path = _ :=
      storeFile_eq_storeAt ((h.resolve hd root path config.exclude).trans hpath)
    have hafter := altered_storeFile d₁ root s config path
    rw [storeFiles, List.map_cons, storeEach, checkedPath_eq hpath, ← hsame]
    rcases hstep : storeFile d₁ root s config path with ⟨d₂, _ | e⟩
    · rw [hstep] at hafter
      exact ih (h.trans hafter) hrest
    · rfl

/-- **A path that was checked when it was loaded**, and what was loaded from
there. -/
structure CheckedAt (d : Disk) (root : Text) (config : RunConfig) (before : Snapshot)
    (path full : Text) : Prop where
  resolve : d.resolve root path config.exclude = .ok full
  /-- The file there was read, if there was one. -/
  file : d.isFile full = true → before.contains path = true
    ∧ d.readText full config.encoding = .ok (before.contents path)
  /-- If there was none, none was loaded. -/
  absent : d.isFile full = false → before.contains path = false

/-- **Every path that is loaded has been checked.** -/
theorem checkedAt_of_load (hd : d.IsTree) (hload : load d root paths config = .ok before)
    (hpath : path ∈ paths) :
    CheckedAt d root config before path (d.checkedPath root config.exclude path) := by
  rcases get?_of_load hd hload path with ⟨hnot, -⟩ | ⟨-, hloaded⟩
  · exact absurd hpath hnot
  cases hget : before.files.get? path with
  | none =>
    rw [hget] at hloaded
    cases hloaded with
    | none hfull hnode =>
      rw [checkedPath_eq hfull]
      refine ⟨hfull, fun hfile => ?_, fun _ => by rw [contains, OrderedMap.contains, hget]; rfl⟩
      obtain ⟨place, bytes, hplace, hfile⟩ := (isFile_iff hd).1 hfile
      exact absurd hfile (hnode place bytes hplace)
  | some file =>
    rw [hget] at hloaded
    cases hloaded with
    | @file full e place bytes t hfull he hplace hnode ht =>
      rw [checkedPath_eq hfull]
      refine ⟨hfull, fun _ => ⟨by rw [contains, OrderedMap.contains, hget]; rfl, ?_⟩,
        fun hno => ?_⟩
      · rw [contents_of_get? hget]
        exact (readText_eq_ok_iff hd).2 ⟨e, place, bytes, he, hplace, hnode, ht⟩
      · cases hno.symm.trans ((isFile_iff hd).2 ⟨place, bytes, hplace, hnode⟩)

end Snapshot

namespace Program

open Disk Snapshot

variable {home response : Text} {args : List Text} {configPath top : Option Text} {dry : Bool}

/-- **A run stores files where they were checked.** What it leaves is the
disk as the opening of the settings left it, or what storing the planned
texts at the paths that were checked makes of that disk. -/
structure StoresAsChecked (d : Disk) (home : Text) (args : List Text) (configPath top : Option Text)
    (response : Text) (dry : Bool) : Prop where
  /-- Once the settings are opened it writes nothing, or it writes the files
  at the paths that were checked when they were loaded. -/
  stored : ∀ d₁, d₁ = (Settings.openIn d home application).1 →
    (run d home args).disk = d₁
    ∨ ∃ settings log config edits before after failed,
      Settings.openIn d home application = (d₁, .ok (settings, log))
      ∧ configFor d₁ ⟨configPath, .apply response top dry⟩ settings = .ok config
      ∧ Task.plan d₁ response top config = .ok (edits, before, after)
      ∧ (∀ path ∈ before.changed after, CheckedAt d₁ (top.getD []) config before path
          (d₁.checkedPath (top.getD []) config.exclude path))
      ∧ storeEach config.encoding d₁ ((before.changed after).map fun path =>
          (d₁.checkedPath (top.getD []) config.exclude path, after.contents path))
        = ((run d home args).disk, failed)
  /-- Where a path is refused, nothing has been written. -/
  refused : ∀ path root, cause? d home args = some (.path (.forbidden path root)) →
    (run d home args).disk = (Settings.openIn d home application).1

/-- **A path that is refused is refused before anything is written**,
whichever of the paths of a response it is. -/
theorem disk_of_forbidden (hd : d.IsTree)
    (hargs : Arguments.readInvocation args = .ok ⟨configPath, .apply response top dry⟩)
    (hcause : cause? d home args = some (.path (.forbidden path root))) :
    (run d home args).disk = (Settings.openIn d home application).1 := by
  obtain ⟨invocation, d₁, settings, log, config, severity, hargs', hopen, hconfig, hseverity,
    hresult⟩ := exists_task_of_cause hcause rfl
  cases hargs.symm.trans hargs'
  have hext := extends_of_openIn hd hopen
  have hrun : (run d home args).disk = (Task.runApply d₁ response top config).disk := by
    have hresult' : (Task.runApply d₁ response top config).result = _ := hresult
    simp only [run, runInvocation, hargs, hopen, hconfig, hseverity, Task.run, hresult', endBy_eq]
  have happly := @Task.runApply_eq _ d₁ response top config
  rw [hrun, hopen]
  -- storing the planned files refuses none of their paths
  cases hplan : Task.plan d₁ response top config with
  | error e =>
    rw [hplan] at happly
    exact happly.1
  | ok planned =>
    obtain ⟨edits, before, after⟩ := planned
    rw [hplan] at happly
    dsimp only at happly
    split at happly
    · exact happly.1
    · cases hstore : Snapshot.store d₁ (top.getD []) before after config with
      | mk stored result =>
        rw [hstore] at happly
        cases result with
        | ok changed => cases happly.2.symm.trans hresult
        | error e =>
          cases happly.2.symm.trans hresult
          cases Task.not_isOfResponse_of_store hext.isTree hplan hstore

/-- **Files are stored where they were checked**, whatever the run. -/
theorem storesAsChecked_of_args (hd : d.IsTree)
    (hargs : Arguments.readInvocation args = .ok ⟨configPath, .apply response top dry⟩) :
    StoresAsChecked d home args configPath top response dry where
  stored d₁ hd₁ := by
    have hext : d.Extends (fun _ => True) d₁ := hd₁ ▸ extends_openIn hd home application
    rcases run_apply_cases hargs hd₁ with ⟨hdisk, -⟩ |
      ⟨settings, log, config, edits, before, after, hopen, hconfig, hplan, ⟨-, hdisk, -⟩ |
        ⟨-, failed, hstore, -⟩⟩
    · exact Or.inl hdisk
    · exact Or.inl hdisk
    have hresolve : ∀ path ∈ before.changed after,
        ∃ full, d₁.resolve (top.getD []) path config.exclude = .ok full :=
      fun _ hp => Task.exists_resolve_of_plan hext.isTree hplan hp
    refine Or.inr ⟨settings, log, config, edits, before, after, failed, hopen, hconfig, hplan,
      fun path hp => ?_, ?_⟩
    · obtain ⟨root, text, rfl, -, -, hload, happly⟩ := Task.plan_eq_ok hplan
      exact checkedAt_of_load hext.isTree hload
        (Task.mem_editedPaths_iff.2 (mem_edited_of_mem_changed hext.isTree hload happly hp))
    · rw [← storeFiles_eq_storeEach hext.isTree .refl hresolve]
      exact hstore
  refused _ _ := disk_of_forbidden hd hargs

/-- **What was checked is what is written**, for all trees and links. The
fields go from single paths over snapshots that are stored to whole runs. -/
structure KeepsChecks (d : Disk) : Prop where
  /-- After any directories that are made and files that are written, each
  path is resolved as before, under every root and whatever is excluded. -/
  resolve : ∀ d', d.Altered d' → ∀ root path exclude,
    d'.resolve root path exclude = d.resolve root path exclude
  /-- Storing files does nothing else, however many have been stored, -/
  storeFiles : ∀ root s config paths, d.Altered (Snapshot.storeFiles root s config d paths).1
  /-- and neither does storing all that a snapshot changes. -/
  store : ∀ root before after config, d.Altered (Snapshot.store d root before after config).1
  /-- So a run that applies a response writes what was checked. -/
  run : ∀ home args configPath response top dry,
    Arguments.readInvocation args = .ok ⟨configPath, .apply response top dry⟩ →
    StoresAsChecked d home args configPath top response dry

/-- **Paths that are checked stay checked** on every tree. -/
theorem keepsChecks_of_isTree (hd : d.IsTree) : KeepsChecks d where
  resolve _ h := h.resolve hd
  storeFiles := altered_storeFiles d
  store := altered_store d
  run _ _ _ _ _ _ := storesAsChecked_of_args hd

end Program

end

/-! ## Paths over links

A path over a link is the case in which a second reading could differ from
the first one. -/

namespace Program

open Disk Snapshot

/-- An edit that creates a file behind a link. -/
def behind : Edit := ⟨"in/new/b.txt", [], "2\n"⟩

/-- A snapshot without files. -/
def bare : Snapshot := ⟨.empty, none, "/srv/repo"⟩

/-- A root with a directory, a link to it and a link to itself, and beside it
the response with the edit. -/
def tied : Disk where
  nodes := .ofList [
    (["srv"], .directory),
    (["srv", "repo"], .directory),
    (["srv", "repo", "sub"], .directory),
    (["srv", "repo", "in"], .link "sub"),
    (["srv", "repo", "self"], .link "self"),
    (["srv", "response.txt"], .file (Utf8.encode behind.envelope))]
  workingDir := ["srv"]

/-- The directory behind the link is made, and the file in it is written;
paths over both links are resolved afterwards as before. -/
theorem keepsChecks_of_isTree_tied :
    tied.IsTree
      ∧ (∀ path, (store tied "repo" bare (bare.update behind.path behind.replacement)
          .usual).1.resolve "repo" path [] = tied.resolve "repo" path [])
      ∧ tied.resolve "repo" "self/in" [] = .ok "/srv/repo/self/in"
      ∧ StoresAsChecked tied "/srv/home" applyIt none (some "repo") "response.txt" false
      ∧ (run tied "/srv/home" applyIt).disk.node? ["srv", "repo", "sub", "new", "b.txt"]
        = some (.file (Utf8.encode "2\n")) := by
  have hd : tied.IsTree := by decide +kernel
  have hkeeps := keepsChecks_of_isTree hd
  exact ⟨hd, fun path => hkeeps.resolve _ (hkeeps.store _ _ _ _) "repo" path [],
    by decide +kernel, hkeeps.run _ _ _ _ _ _ rfl, by decide +kernel⟩

end Program

end EditBlocks
