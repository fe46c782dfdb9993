import EditBlocks.Command
import EditBlocks.Proofs.Checkout

/-!
# How a run that applies a response ends

What a run that applies a response is about to store is settled before
anything is written: the edits and the snapshots before and after them
(`Task.plan`). The run ends in one of three ways (`Program.run_apply_cases`):
it fails with nothing but the directory of the settings made, it was a dry
run, or it stores what was planned and succeeds exactly when all of that is
stored.

Almost everything that is said of runs starts here. The statement about the
run takes its plan and the disk on which it was made from these cases, and
the rest is about snapshots and disks.

What a run reports while it plans is a function of the disk and the response
too (`Task.planLog`), so two runs with one plan have the same records up to
there, whatever they do afterwards.
-/

namespace EditBlocks

variable [Host] {d d' : Disk}

namespace Task

/-- **What applying a response comes to** before anything is written: its
edits, and the snapshots before and after them. -/
def plan (d : Disk) (response : Text) (root : Option Text) (config : RunConfig) :
    Except Failure (List Edit × Snapshot × Snapshot) := do
  let text ← readResponse d response config
  let edits ← (Block.edits text).mapError .parse
  let snapshots ← (editedSnapshots d edits root config).2
  .ok (edits, snapshots)

variable {response : Text} {root : Option Text} {config : RunConfig} {edits : List Edit}
  {before after : Snapshot}

theorem readResponse_eq_ok_iff {text : Text} :
    readResponse d response config = .ok text
      ↔ ∃ t, d.readText response config.encoding = .ok t ∧ Text.normalizeNewlines t = text :=
  map_eq_ok_iff

omit [Host] in
theorem givenRoot_eq_ok_iff {top : Text} : givenRoot root = .ok top ↔ root = some top := by
  cases root with
  | none => exact iff_of_false (fun h => (nomatch h)) fun h => (nomatch h)
  | some given => exact ⟨fun h => congrArg some (Except.ok.inj h), fun h => h ▸ rfl⟩

/-- **What a plan is made of**: a response that was read, its edits, a
snapshot of the files that they name, and what they make of it. -/
theorem plan_eq_ok (h : plan d response root config = .ok (edits, before, after)) :
    ∃ top text, root = some top ∧ d.readText response config.encoding = .ok text
      ∧ Block.edits (Text.normalizeNewlines text) = .ok edits
      ∧ Snapshot.load d top (editedPaths edits) config = .ok before
      ∧ before.applyEdits edits = .ok after := by
  obtain ⟨normal, hread, h⟩ := bind_eq_ok_iff.1 h
  obtain ⟨edits', hedits, h⟩ := bind_eq_ok_iff.1 h
  obtain ⟨snapshots, hs, h⟩ := bind_eq_ok_iff.1 h
  cases h
  have hedits := mapError_eq_ok_iff.1 hedits
  obtain ⟨text, htext, rfl⟩ := readResponse_eq_ok_iff.1 hread
  unfold editedSnapshots at hs
  split at hs
  · cases hs
  next before' hload =>
    obtain ⟨top, htop, hload⟩ := bind_eq_ok_iff.1 hload
    have hroot := givenRoot_eq_ok_iff.1 htop
    match ha : before'.applyEdits edits with
    | .ok after' =>
      rw [ha] at hs
      cases hs
      exact ⟨top, text, hroot, htext, hedits, hload, ha⟩
    | .error e =>
      rw [ha] at hs
      cases hs

/-- **A plan is made of a response that is read and parsed, files that are
loaded and edits that can be applied.** -/
theorem plan_of_applyEdits {top text : Text}
    (hread : d.readText response config.encoding = .ok text)
    (hedits : Block.edits (Text.normalizeNewlines text) = .ok edits)
    (hload : Snapshot.load d top (editedPaths edits) config = .ok before)
    (happly : before.applyEdits edits = .ok after) :
    plan d response (some top) config = .ok (edits, before, after) := by
  have hgiven : (givenRoot (some top) >>= fun top =>
      Snapshot.load d top (editedPaths edits) config) = .ok before := hload
  have hsnapshots : (editedSnapshots d edits (some top) config).2 = .ok (before, after) := by
    rw [editedSnapshots, hgiven]
    dsimp only
    rw [happly]
    rfl
  exact bind_eq_ok_iff.2 ⟨_, readResponse_eq_ok_iff.2 ⟨text, hread, rfl⟩, bind_eq_ok_iff.2
    ⟨edits, mapError_eq_ok_iff.2 hedits, bind_eq_ok_iff.2 ⟨_, hsnapshots, rfl⟩⟩⟩

/-- What is reported while a response is planned. -/
def planLog (d : Disk) (response : Text) (root : Option Text) (config : RunConfig) :
    List Record :=
  match readResponse d response config with
  | .error _ => []
  | .ok text =>
    Block.editsLog text ++
      match Block.edits text with
      | .error _ => []
      | .ok edits => (editedSnapshots d edits root config).1

/-- **Applying a response is planning it**, and then storing what is planned
or, on a dry run, only reporting it. -/
theorem runApply_eq_plan :
    runApply d response root config = match plan d response root config with
      | .error e => .failed d (planLog d response root config) e
      | .ok (edits, before, after) =>
        let log := planLog d response root config
        if config.dryRun = true then
          let paths := before.changed after
          ⟨d, log ++ [dryRunReport edits paths], paths.flatMap printedLine, .ok ()⟩
        else match Snapshot.store d (root.getD []) before after config with
          | (d, .error e) => .failed d log e
          | (d, .ok paths) =>
            ⟨d, log ++ [appliedReport edits paths], paths.flatMap printedLine, .ok ()⟩ := by
  unfold plan planLog runApply
  match readResponse d response config with
  | .error e => rfl
  | .ok text =>
    dsimp only [bind, Except.bind]
    match Block.edits text with
    | .error e =>
      rw [List.append_nil]
      rfl
    | .ok edits =>
      dsimp only [bind, Except.bind, Except.mapError]
      match editedSnapshots d edits root config with
      | (_, .error e) => rfl
      | (_, .ok (before, after)) => rfl

/-- **Applying a response** fails without a plan and with nothing done. With
one it stores what is planned, but for a dry run. -/
theorem runApply_eq :
    match plan d response root config with
    | .error e => (runApply d response root config).disk = d
      ∧ (runApply d response root config).result = .error e
    | .ok (_, before, after) =>
      if config.dryRun = true then (runApply d response root config).disk = d
        ∧ (runApply d response root config).result = .ok ()
      else (runApply d response root config).disk
          = (Snapshot.store d (root.getD []) before after config).1
        ∧ (runApply d response root config).result
          = (Snapshot.store d (root.getD []) before after config).2.map fun _ => () := by
  rw [runApply_eq_plan]
  match plan d response root config with
  | .error e => exact ⟨rfl, rfl⟩
  | .ok (edits, before, after) =>
    dsimp only
    split
    · exact ⟨rfl, rfl⟩
    · match Snapshot.store d (root.getD []) before after config with
      | (_, .error e) => exact ⟨rfl, rfl⟩
      | (_, .ok paths) => exact ⟨rfl, rfl⟩

/-- **How applying a response ends**: it fails with nothing done; or it has a
plan, which it only tries on a dry run and stores otherwise. -/
theorem runApply_cases :
    (runApply d response root config).disk = d ∧ (runApply d response root config).result ≠ .ok ()
    ∨ ∃ edits before after, plan d response root config = .ok (edits, before, after)
      ∧ (config.dryRun = true ∧ (runApply d response root config).disk = d
          ∧ (runApply d response root config).result = .ok ()
        ∨ config.dryRun = false ∧ ∃ failed,
          Snapshot.storeFiles (root.getD []) after config d (before.changed after)
            = ((runApply d response root config).disk, failed)
          ∧ ((runApply d response root config).result = .ok () ↔ failed = none)) := by
  have happly := @runApply_eq _ d response root config
  cases hplan : plan d response root config with
  | error e =>
    rw [hplan] at happly
    exact Or.inl ⟨happly.1, fun h => (nomatch happly.2.symm.trans h)⟩
  | ok planned =>
    obtain ⟨edits, before, after⟩ := planned
    rw [hplan] at happly
    dsimp only at happly
    refine Or.inr ⟨edits, before, after, rfl, ?_⟩
    cases hdry : config.dryRun with
    | true =>
      rw [hdry, if_pos rfl] at happly
      exact Or.inl ⟨rfl, happly⟩
    | false =>
      rw [hdry, if_neg Bool.false_ne_true] at happly
      rw [happly.1, happly.2]
      exact Or.inr ⟨rfl, Snapshot.exists_storeFiles_of_store d _ before after config⟩

end Task

namespace Program

omit [Host] in
/-- A run that is ended by a failure leaves the disk as it is and does not
succeed. -/
theorem endBy_eq (d : Disk) (log : List Record) (shown : List Record → List Record) (e : Failure) :
    (endBy d log shown e).disk = d ∧ (endBy d log shown e).result ≠ .ok success := by
  unfold endBy
  split
  · exact ⟨rfl, fun h => absurd (Except.ok.inj h) (by decide)⟩
  · exact ⟨rfl, fun h => (nomatch h)⟩

/-- **How a run ends once its settings are opened**: it fails before its task
is begun, or it is configured and ends as its task does. -/
theorem runInvocation_cases (invocation : Invocation) (settings : Settings) (log : List Record) :
    (runInvocation d invocation settings log).disk = d
      ∧ (runInvocation d invocation settings log).result ≠ .ok success
    ∨ ∃ config, configFor d invocation settings = .ok config
      ∧ (runInvocation d invocation settings log).disk
        = (invocation.task.run d settings config).disk
      ∧ ((runInvocation d invocation settings log).result = .ok success
        ↔ (invocation.task.run d settings config).result = .ok ()) := by
  unfold runInvocation
  cases configFor d invocation settings with
  | error e => exact Or.inl (endBy_eq d log id e)
  | ok config =>
    dsimp only
    cases Levels.threshold config.logLevel with
    | error e => exact Or.inl (endBy_eq d log id (.level e))
    | ok severity =>
      refine Or.inr ⟨config, rfl, ?_⟩
      dsimp only
      cases (invocation.task.run d settings config).result with
      | ok done => exact ⟨rfl, iff_of_true rfl rfl⟩
      | error e =>
        obtain ⟨hdisk, hresult⟩ := endBy_eq (invocation.task.run d settings config).disk
          (log ++ Record.atLeast severity (invocation.task.run d settings config).log)
          (Record.atLeast severity) e
        exact ⟨hdisk, iff_of_false hresult fun h => (nomatch h)⟩

/-- **How a run that applies a response ends**: it fails with nothing
written; or it was a dry run; or it stores what is planned, and succeeds when
it stores all of it. -/
theorem run_apply_cases {d₁ : Disk} {home response : Text} {args : List Text}
    {root configPath : Option Text} {dry : Bool}
    (hargs : Arguments.readInvocation args = .ok ⟨configPath, .apply response root dry⟩)
    (hd₁ : d₁ = (Settings.openIn d home application).1) :
    (run d home args).disk = d₁ ∧ (run d home args).result ≠ .ok success
    ∨ ∃ settings log config edits before after,
      Settings.openIn d home application = (d₁, .ok (settings, log))
      ∧ configFor d₁ ⟨configPath, .apply response root dry⟩ settings = .ok config
      ∧ Task.plan d₁ response root config = .ok (edits, before, after)
      ∧ (config.dryRun = true ∧ (run d home args).disk = d₁
          ∧ (run d home args).result = .ok success
        ∨ config.dryRun = false ∧ ∃ failed,
          Snapshot.storeFiles (root.getD []) after config d₁ (before.changed after)
            = ((run d home args).disk, failed)
          ∧ ((run d home args).result = .ok success ↔ failed = none)) := by
  unfold run
  rw [hargs]
  dsimp only
  rcases hopen : Settings.openIn d home application with ⟨d₂, e | ⟨settings, log⟩⟩
  all_goals
    rw [hopen] at hd₁
    obtain rfl : d₁ = d₂ := hd₁
    dsimp only
  · exact Or.inl ⟨rfl, fun h => (nomatch h)⟩
  rcases runInvocation_cases ⟨configPath, .apply response root dry⟩ settings log with
    hfail | ⟨config, hconfig, hdisk, hresult⟩
  · exact Or.inl hfail
  -- the run ends as applying the response does
  rw [hdisk, ne_eq, hresult]
  show (Task.runApply d₁ response root config).disk = d₁
      ∧ ¬(Task.runApply d₁ response root config).result = .ok () ∨ _
  rcases @Task.runApply_cases _ d₁ response root config with
    hfail | ⟨edits, before, after, hplan, hcases⟩
  · exact Or.inl hfail
  · exact Or.inr ⟨settings, log, config, edits, before, after, rfl, hconfig, hplan, hcases⟩

/-- **So it ends** under settings and a configuration that are known. -/
theorem run_apply_cases_of_config {d₁ : Disk} {home response : Text} {args : List Text}
    {root configPath : Option Text} {dry : Bool} {settings : Settings} {log : List Record}
    {config : RunConfig}
    (hargs : Arguments.readInvocation args = .ok ⟨configPath, .apply response root dry⟩)
    (hopen : Settings.openIn d home application = (d₁, .ok (settings, log)))
    (hconfig : configFor d₁ ⟨configPath, .apply response root dry⟩ settings = .ok config) :
    (run d home args).disk = d₁ ∧ (run d home args).result ≠ .ok success
    ∨ ∃ edits before after, Task.plan d₁ response root config = .ok (edits, before, after)
      ∧ (config.dryRun = true ∧ (run d home args).disk = d₁
          ∧ (run d home args).result = .ok success
        ∨ config.dryRun = false ∧ ∃ failed,
          Snapshot.storeFiles (root.getD []) after config d₁ (before.changed after)
            = ((run d home args).disk, failed)
          ∧ ((run d home args).result = .ok success ↔ failed = none)) := by
  have hfst : d₁ = (Settings.openIn d home application).1 := by rw [hopen]
  rcases run_apply_cases hargs hfst with hfail |
    ⟨settings', log', config', edits, before, after, hopen', hconfig', hplan, hcases⟩
  · exact Or.inl hfail
  cases hopen.symm.trans hopen'
  cases hconfig.symm.trans hconfig'
  exact Or.inr ⟨edits, before, after, hplan, hcases⟩

end Program

end EditBlocks
