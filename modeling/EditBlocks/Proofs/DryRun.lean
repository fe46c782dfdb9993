import EditBlocks.Proofs.Refinement

/-!
# What a dry run foretells

A dry run plans what the run without `--dry-run` plans, and stops there. It
has made nothing but the directory of the settings
(`Program.Predicts.untouched`).

The run without it goes on and writes, and writing resolves every path once
more. It is the same path each time, on a disk that has only grown, so no
path is refused there that was not refused before: what writing can fail by
is the system and the encoding (`Snapshot.not_isOfResponse_of_storeFiles`).
Hence a failure that lies in the response is one of the plan, and the dry run
ends by it as well, with the same records; and where the run succeeds, what
it prints is what the plan says.

The two runs are not compared step by step. Each is brought into the form of
its plan and what comes after it, the plans are shown to be equal, and only
the second part of the one run is left to look at.
-/

namespace EditBlocks

section

variable [Host] {d d' : Disk} {root path : Text} {config : RunConfig} {paths : List Text}
  {edits : List Edit} {before after : Snapshot} {e : Failure}

namespace Failure

/-- **Whether a failure lies in the response**: it cannot be parsed or
applied, or it names a path that is not allowed. -/
def isOfResponse : Failure → Bool
  | .parse _ => true
  | .apply _ => true
  | .path (.forbidden _ _) => true
  | _ => false

omit [Host] in
/-- A failure that lies in the response ends a run with an exit code. -/
theorem isExpected_of_isOfResponse (h : e.isOfResponse = true) : e.isExpected = true := by
  match e, h with
  | .parse _, _ => rfl
  | .apply _, _ => rfl
  | .path (.forbidden _ _), _ => rfl

end Failure

/-- The configuration with a dry run asked for. -/
def RunConfig.dry (config : RunConfig) : RunConfig := { config with dryRun := true }

namespace Disk

/-- The bytes of a text are only wanting where the encoding is. -/
theorem not_isOfResponse_of_bytesOf {name : Option Text} {t : Text}
    (h : bytesOf name t = .error e) : e.isOfResponse = false := by
  rcases bind_eq_error_iff.1 h with hnamed | ⟨encoding, -, hencode⟩
  · obtain ⟨_, -, rfl⟩ := ofEncoding_eq_error_iff.1 hnamed
    rfl
  · obtain ⟨_, -, rfl⟩ := ofEncoding_eq_error_iff.1 hencode
    rfl

theorem not_isOfResponse_of_writeText {setting : Value} {t : Text}
    (h : d.writeText path setting t = (d', some e)) : e.isOfResponse = false := by
  unfold writeText at h
  split at h
  · cases h
    rfl
  · split at h
    · cases h
      rfl
    · split at h
      next hbytes =>
        cases h
        exact not_isOfResponse_of_bytesOf hbytes
      · split at h <;> cases h
        rfl

end Disk

namespace Snapshot

open Disk

/-- Loading does not ask whether the run is dry. -/
theorem loadFiles_dry (files : OrderedMap Text File) :
    loadFiles d root config.dry paths files = loadFiles d root config paths files := by
  induction paths generalizing files with
  | nil => rfl
  | cons path rest ih =>
    simp only [loadFiles, ih]
    rfl

theorem load_dry : load d root paths config.dry = load d root paths config := by
  rw [load, load, loadFiles_dry]

theorem exists_resolve_of_load (hd : d.IsTree) (hload : load d root paths config = .ok before)
    (hpath : path ∈ paths) : ∃ full, d.resolve root path config.exclude = .ok full := by
  rcases get?_of_load hd hload path with ⟨hnot, -⟩ | ⟨-, hloaded⟩
  · exact absurd hpath hnot
  · cases hloaded' : before.files.get? path with
    | none =>
      rw [hloaded'] at hloaded
      cases hloaded with
      | none hfull _ => exact ⟨_, hfull⟩
    | some file =>
      rw [hloaded'] at hloaded
      cases hloaded with
      | file hfull _ _ _ _ => exact ⟨_, hfull⟩

/-- **A file whose path is resolved fails to be stored** by the system or by
the encoding. -/
theorem not_isOfResponse_of_storeFile {s : Snapshot} {full : Text}
    (hfull : d.resolve root path config.exclude = .ok full)
    (h : storeFile d root s config path = (d', some e)) : e.isOfResponse = false := by
  unfold storeFile at h
  rw [hfull] at h
  dsimp only at h
  split at h
  · cases h
    rfl
  · exact not_isOfResponse_of_writeText h

/-- **So do several**: a path that has been resolved once is resolved alike
after other files have been written. -/
theorem not_isOfResponse_of_storeFiles (hd : d.IsTree) {s : Snapshot}
    (hfull : ∀ path ∈ paths, ∃ full, d.resolve root path config.exclude = .ok full)
    (h : storeFiles root s config d paths = (d', some e)) : e.isOfResponse = false := by
  obtain ⟨path, hp, d₁, hg, hstep⟩ := exists_storeFile_of_storeFiles hd h
  obtain ⟨full, hfull⟩ := hfull path hp
  exact not_isOfResponse_of_storeFile ((hg.resolve _ _ _).trans hfull) hstep

end Snapshot

namespace Task

variable {response : Text} {top : Option Text}

theorem editedSnapshots_dry :
    editedSnapshots d edits top config.dry = editedSnapshots d edits top config := by
  simp only [editedSnapshots, Snapshot.load_dry]

/-- **A dry run plans the same**, and reports the same meanwhile. Nothing in
a plan depends on whether the run is dry. -/
theorem plan_dry : plan d response top config.dry = plan d response top config
    ∧ planLog d response top config.dry = planLog d response top config := by
  have hread : readResponse d response config.dry = readResponse d response config := rfl
  simp only [plan, planLog, editedSnapshots_dry, hread, and_self]

theorem exists_resolve_of_plan (hd : d.IsTree)
    (hplan : plan d response top config = .ok (edits, before, after))
    (hpath : path ∈ before.changed after) :
    ∃ full, d.resolve (top.getD []) path config.exclude = .ok full := by
  obtain ⟨root, text, rfl, -, -, hload, happly⟩ := plan_eq_ok hplan
  exact Snapshot.exists_resolve_of_load hd hload
    (mem_editedPaths_iff.2 (Snapshot.mem_edited_of_mem_changed hd hload happly hpath))

/-- **A planned response fails to be stored** by the system or by the
encoding. -/
theorem not_isOfResponse_of_store (hd : d.IsTree)
    (hplan : plan d response top config = .ok (edits, before, after))
    (h : Snapshot.store d (top.getD []) before after config = (d', .error e)) :
    e.isOfResponse = false := by
  exact Snapshot.not_isOfResponse_of_storeFiles hd (fun _ hp => exists_resolve_of_plan hd hplan hp)
    (Snapshot.store_eq_error_iff.1 h)

/-- **Trying a response foretells applying it**: success with what is
printed, and a failure that lies in the response with all that comes of it. -/
theorem runApply_dry (hd : d.IsTree) :
    ((runApply d response top config).result = .ok () →
      (runApply d response top config.dry).result = .ok ()
        ∧ (runApply d response top config.dry).printed = (runApply d response top config).printed)
    ∧ ∀ e, (runApply d response top config).result = .error e → e.isOfResponse = true →
      runApply d response top config.dry = runApply d response top config := by
  rw [runApply_eq_plan, runApply_eq_plan, plan_dry.1, plan_dry.2]
  cases hplan : plan d response top config with
  | error e => exact ⟨fun h => (nomatch h), fun _ _ _ => rfl⟩
  | ok planned =>
    obtain ⟨edits, before, after⟩ := planned
    dsimp only
    rw [if_pos (show config.dry.dryRun = true from rfl)]
    by_cases hdry : config.dryRun = true
    · rw [if_pos hdry]
      exact ⟨fun _ => ⟨rfl, rfl⟩, fun _ h => (nomatch h)⟩
    rw [if_neg hdry]
    cases hstore : Snapshot.store d (top.getD []) before after config with
    | mk d' result =>
      cases result with
      | ok stored =>
        rw [(Snapshot.store_eq_ok_iff.1 hstore).1]
        exact ⟨fun _ => ⟨rfl, rfl⟩, fun _ h => (nomatch h)⟩
      | error failed =>
        refine ⟨fun h => (nomatch h), fun e h he => ?_⟩
        cases h
        rw [not_isOfResponse_of_store hd hplan hstore] at he
        cases he

end Task

namespace RunConfig

/-- A configuration file that cannot be read does not lie in the response. -/
theorem not_isOfResponse_of_readFile (h : readFile d path = .error e) :
    e.isOfResponse = false := by
  rcases bind_eq_error_iff.1 h with h | ⟨bytes, -, h⟩
  · obtain ⟨_, -, rfl⟩ := mapError_eq_error_iff.1 h
    rfl
  · obtain ⟨_, -, rfl⟩ := mapError_eq_error_iff.1 h
    rfl

/-- Nor does a configuration that cannot be made. -/
theorem not_isOfResponse_of_load {file : Option Text} {settings : List (Scalar × Value)}
    (h : load d file settings = .error e) : e.isOfResponse = false := by
  have hentries (entries : List (Scalar × Value))
      (h : (ofEntries entries).mapError Failure.config = .error e) : e.isOfResponse = false := by
    obtain ⟨_, -, rfl⟩ := mapError_eq_error_iff.1 h
    rfl
  unfold load at h
  split at h
  · exact hentries settings h
  · exact hentries settings h
  · rcases bind_eq_error_iff.1 h with h | ⟨v, -, h⟩
    · exact not_isOfResponse_of_readFile h
    rcases bind_eq_error_iff.1 h with h | ⟨entries, -, h⟩
    · obtain ⟨_, -, rfl⟩ := mapError_eq_error_iff.1 h
      rfl
    · exact hentries entries h

end RunConfig

namespace Program

open Disk

/-! ## What ends a run

The failures of a run, stage by stage, as one function of the disk and the
invocation. It does not ask whether the run is dry. -/

/-- **The failure that ends an invocation**, if one does. -/
def causeOf? (d : Disk) (invocation : Invocation) (settings : Settings) : Option Failure :=
  match configFor d invocation settings with
  | .error e => some e
  | .ok config =>
    match Levels.threshold config.logLevel with
    | .error e => some (.level e)
    | .ok _ =>
      match (invocation.task.run d settings config).result with
      | .error e => some e
      | .ok () => none

/-- **The failure that ends a run**, if one does. To misuse the command line
is none. -/
def cause? (d : Disk) (home : Text) (args : List Text) : Option Failure :=
  match Arguments.readInvocation args with
  | .error _ => none
  | .ok invocation =>
    match Settings.openIn d home application with
    | (_, .error e) => some (.disk e)
    | (d, .ok (settings, _)) => causeOf? d invocation settings

/-- **The severity from which on a run shows records**, once it is
configured. -/
def threshold? (d : Disk) (home : Text) (args : List Text) : Option Nat :=
  match Arguments.readInvocation args with
  | .error _ => none
  | .ok invocation =>
    match Settings.openIn d home application with
    | (_, .error _) => none
    | (d, .ok (settings, _)) =>
      match configFor d invocation settings with
      | .error _ => none
      | .ok config => (Levels.threshold config.logLevel).toOption

variable {home response : Text} {top configPath : Option Text} {args : List Text}

/-- A dry run is configured as the run that it stands for, but that it is
dry. -/
theorem configFor_dry (settings : Settings) :
    configFor d ⟨configPath, .apply response top true⟩ settings
      = (configFor d ⟨configPath, .apply response top false⟩ settings).map RunConfig.dry := by
  unfold configFor
  generalize RunConfig.load d configPath _ = loaded
  cases loaded with
  | error e => rfl
  | ok config => exact congrArg Except.ok (by simp [RunConfig.dry, Task.wantsDryRun])

/-- **A failure that lies in the response is one of the task**: neither the
settings nor the configuration can be at fault. -/
theorem exists_task_of_cause (hcause : cause? d home args = some e)
    (he : e.isOfResponse = true) :
    ∃ invocation d₁ settings log config severity,
      Arguments.readInvocation args = .ok invocation
      ∧ Settings.openIn d home application = (d₁, .ok (settings, log))
      ∧ configFor d₁ invocation settings = .ok config
      ∧ Levels.threshold config.logLevel = .ok severity
      ∧ (invocation.task.run d₁ settings config).result = .error e := by
  unfold cause? at hcause
  split at hcause
  · cases hcause
  next invocation hargs =>
    split at hcause
    · cases hcause
      cases he
    next d₁ settings log hopen =>
      unfold causeOf? at hcause
      split at hcause
      next hconfig =>
        cases hcause
        rw [RunConfig.not_isOfResponse_of_load (map_eq_error_iff.1 hconfig)] at he
        cases he
      next config hconfig =>
        split at hcause
        · cases hcause
          cases he
        next severity hseverity =>
          split at hcause
          next hresult =>
            cases hcause
            exact ⟨invocation, d₁, settings, log, config, severity, hargs, hopen, hconfig,
              hseverity, hresult⟩
          · cases hcause

/-- **A failure that lies in the response ends a run** with an exit code, and
as an error that comes last if errors are shown. -/
theorem result_log_of_cause (hcause : cause? d home args = some e)
    (he : e.isOfResponse = true) :
    (run d home args).result = .ok failure
      ∧ ∃ severity earlier, threshold? d home args = some severity
        ∧ (run d home args).log = earlier ++ Record.atLeast severity [.error e.message] := by
  obtain ⟨invocation, d₁, settings, log, config, severity, hargs, hopen, hconfig, hseverity,
    hresult⟩ := exists_task_of_cause hcause he
  have hrun : run d home args = endBy (invocation.task.run d₁ settings config).disk
      (log ++ Record.atLeast severity (invocation.task.run d₁ settings config).log)
      (Record.atLeast severity) e := by
    simp only [run, runInvocation, hargs, hopen, hconfig, hseverity, hresult]
  rw [hrun, endBy, if_pos (Failure.isExpected_of_isOfResponse he)]
  refine ⟨rfl, severity, _, ?_, rfl⟩
  simp only [threshold?, hargs, hopen, hconfig, hseverity]
  rfl

/-! ## The two runs

Compared by their plans, which are equal, and by what comes after, which only
one of them has. -/

/-- **An invocation and the dry run of it**: where the one succeeds the other
does, and prints the same; and a failure that lies in the response ends both,
with all that comes of it. -/
theorem runInvocation_dry (hd : d.IsTree) (settings : Settings) (log : List Record) :
    ((runInvocation d ⟨configPath, .apply response top false⟩ settings log).result = .ok success →
      (runInvocation d ⟨configPath, .apply response top true⟩ settings log).result = .ok success
        ∧ (runInvocation d ⟨configPath, .apply response top true⟩ settings log).printed
          = (runInvocation d ⟨configPath, .apply response top false⟩ settings log).printed)
    ∧ ∀ e, causeOf? d ⟨configPath, .apply response top false⟩ settings = some e →
      e.isOfResponse = true →
      runInvocation d ⟨configPath, .apply response top true⟩ settings log
          = runInvocation d ⟨configPath, .apply response top false⟩ settings log
        ∧ causeOf? d ⟨configPath, .apply response top true⟩ settings = some e := by
  unfold runInvocation causeOf?
  rw [configFor_dry]
  cases configFor d ⟨configPath, .apply response top false⟩ settings with
  | error e => exact ⟨fun h => absurd h (endBy_eq d log id e).2, fun _ h _ => ⟨rfl, h⟩⟩
  | ok config =>
    dsimp only [Except.map]
    rw [show config.dry.logLevel = config.logLevel from rfl]
    cases Levels.threshold config.logLevel with
    | error e => exact ⟨fun h => absurd h (endBy_eq d log id (.level e)).2, fun _ h _ => ⟨rfl, h⟩⟩
    | ok severity =>
      dsimp only [Task.run]
      obtain ⟨hsuccess, hfailure⟩ := @Task.runApply_dry _ d config response top hd
      cases hresult : (Task.runApply d response top config).result with
      | error failed =>
        refine ⟨fun h => absurd h (endBy_eq _ _ _ failed).2, fun e h he => ?_⟩
        cases h
        rw [hfailure failed hresult he, hresult]
        exact ⟨rfl, rfl⟩
      | ok done =>
        obtain ⟨hdry, hprinted⟩ := hsuccess hresult
        rw [hdry]
        exact ⟨fun _ => ⟨rfl, hprinted⟩, fun _ h => (nomatch h)⟩

/-- **A dry run foretells the run that it stands for**, from the disk that
both start from and the arguments of the two. -/
structure Predicts (d : Disk) (home : Text) (args dryArgs : List Text) : Prop where
  /-- The dry run touches nothing, but for directories made for the settings
  where nothing was. -/
  untouched : d.Extends ((run d home dryArgs).disk.OnWay (Settings.directoryOf home application))
    (run d home dryArgs).disk
  /-- Where the run succeeds, so does the dry run, and prints the same. -/
  succeeds : (run d home args).result = .ok success →
    (run d home dryArgs).result = .ok success
      ∧ (run d home dryArgs).printed = (run d home args).printed
  /-- A failure that lies in the response ends both, with the same exit code,
  the same records and the error as the last of them, if errors are shown. -/
  fails : ∀ e, cause? d home args = some e → e.isOfResponse = true →
    run d home dryArgs = run d home args ∧ cause? d home dryArgs = some e
      ∧ (run d home dryArgs).result = .ok failure
      ∧ ∃ severity earlier, threshold? d home dryArgs = some severity
        ∧ (run d home dryArgs).log = earlier ++ Record.atLeast severity [.error e.message]

/-- **A dry run leaves the disk** as the opening of the settings does. It may
fail anywhere; nothing is stored in any case. -/
theorem disk_of_dry {dryArgs : List Text}
    (hdry : Arguments.readInvocation dryArgs = .ok ⟨configPath, .apply response top true⟩) :
    (run d home dryArgs).disk = (Settings.openIn d home application).1 := by
  rcases run_apply_cases hdry rfl with ⟨hdisk, -⟩ |
    ⟨settings, log, config, edits, before, after, -, hconfig, -, ⟨-, hdisk, -⟩ | ⟨hoff, -⟩⟩
  · exact hdisk
  · exact hdisk
  · -- it is dry, so it does not store
    rw [configFor_dry] at hconfig
    obtain ⟨asked, -, rfl⟩ := map_eq_ok_iff.1 hconfig
    cases hoff

/-- **A dry run predicts the real run and touches nothing**, whatever the
tree, the root, the response and the configuration. -/
theorem predicts_of_dry (hd : d.IsTree) {dryArgs : List Text}
    (hargs : Arguments.readInvocation args = .ok ⟨configPath, .apply response top false⟩)
    (hdry : Arguments.readInvocation dryArgs = .ok ⟨configPath, .apply response top true⟩) :
    Predicts d home args dryArgs := by
  have hext := extends_openIn_onWay hd home application
  obtain ⟨hsucceeds, hfails⟩ : ((run d home args).result = .ok success →
        (run d home dryArgs).result = .ok success
          ∧ (run d home dryArgs).printed = (run d home args).printed)
      ∧ ∀ e, cause? d home args = some e → e.isOfResponse = true →
        run d home dryArgs = run d home args ∧ cause? d home dryArgs = some e := by
    unfold run cause?
    rw [hargs, hdry]
    dsimp only
    rcases hopen : Settings.openIn d home application with ⟨d₁, failed | ⟨settings, log⟩⟩
    · exact ⟨fun h => (nomatch h), fun _ h _ => ⟨rfl, h⟩⟩
    · rw [hopen] at hext
      exact runInvocation_dry hext.isTree settings log
  constructor
  · rw [disk_of_dry hdry]
    exact hext
  · exact hsucceeds
  · intro e hcause he
    obtain ⟨hrun, hcause'⟩ := hfails e hcause he
    obtain ⟨hresult, hlog⟩ := result_log_of_cause hcause' he
    exact ⟨hrun, hcause', hresult, hlog⟩

end Program

end

/-! ## A run that succeeds and one that fails

The one edits a file and creates another. In the other the file holds another
text, so the edit does not fit. -/

namespace Program

open Disk Snapshot

/-- The arguments of `applyIt`, with a dry run asked for. -/
def tryIt : List Text := ["apply", "response.txt", "--root", "repo", "--dry-run"]

/-- The root of `sown` with another text in its file. -/
def barren : Disk := sown.put ["srv", "repo", "a.txt"] (.file (Utf8.encode "two\n"))

/-- What is printed of a run that succeeds is foretold, and so is the error
of one in which a text is not found. -/
theorem predicts_of_dry_sown :
    sown.IsTree ∧ barren.IsTree
      ∧ Arguments.readInvocation applyIt = .ok ⟨none, .apply "response.txt" (some "repo") false⟩
      ∧ Arguments.readInvocation tryIt = .ok ⟨none, .apply "response.txt" (some "repo") true⟩
      ∧ (run sown "/srv/home" tryIt).result = .ok success
      ∧ (run sown "/srv/home" tryIt).printed = "a.txt\nnew/b.txt\n"
      ∧ (run barren "/srv/home" tryIt).result = .ok failure
      ∧ (run barren "/srv/home" tryIt).log = (run barren "/srv/home" applyIt).log := by
  have hd : sown.IsTree := by decide +kernel
  have hd' : barren.IsTree := by decide +kernel
  have hargs : Arguments.readInvocation applyIt
      = .ok ⟨none, .apply "response.txt" (some "repo") false⟩ := by rfl
  have hdry : Arguments.readInvocation tryIt
      = .ok ⟨none, .apply "response.txt" (some "repo") true⟩ := by rfl
  have hok : (run sown "/srv/home" applyIt).result = .ok success := by decide +kernel
  have hprinted : (run sown "/srv/home" applyIt).printed = "a.txt\nnew/b.txt\n" := by
    decide +kernel
  have hcause : cause? barren "/srv/home" applyIt
      = some (.apply (.searchNotFound "a.txt" "one\n")) := by
    decide +kernel
  obtain ⟨hsucceeds, hsame⟩ := (predicts_of_dry hd hargs hdry).succeeds hok
  obtain ⟨hrun, -, hfails, -⟩ := (predicts_of_dry hd' hargs hdry).fails _ hcause rfl
  exact ⟨hd, hd', hargs, hdry, hsucceeds, hsame.trans hprinted, hfails,
    congrArg Run.log hrun⟩

end Program

end EditBlocks
