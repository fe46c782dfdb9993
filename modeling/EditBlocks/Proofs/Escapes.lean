import EditBlocks.Proofs.DryRun
import EditBlocks.Proofs.Escapes.Config
import EditBlocks.Proofs.Escapes.Files
import EditBlocks.Proofs.Written

/-!
# What ends a run as it is

A run that is to apply a response tells the user of a failure and ends with
an exit code where the failure is one that is expected
(`Failure.isExpected`). Any other failure ends it as it is. Which inputs do
that is said stage by stage, each time as an equivalence: reading a text
(`Disk.readText_escapes_iff`), resolving a path (`Disk.resolve_escapes_iff`),
making a configuration (`RunConfig.load_escapes_iff`), loading the files of a
response (`Snapshot.load_escapes_iff`), and storing them again
(`Snapshot.storeFiles_escapes_iff`). The settings are opened before anything
is caught, so there every failure is a cause, one that the system refuses as
well.

Put together, a run ends with an exit code, and with its error as the last
record if errors are shown, for all inputs but those
(`Program.endsWithCode_of_apply`). There are some, so not every run does
(`Program.not_always_code`).

What is said holds whatever the codecs do that are not modelled. With an
encoding that is modelled no text is met that it lacks characters for, as all
that is stored has been read in the same encoding
(`Task.exists_encode_of_plan`). Then storing ends as it is only at paths with
a null character or with more directories than there is room for
(`Task.isExpected_of_store`).
-/

namespace EditBlocks

namespace Task

open Disk

variable [Host] {d d' : Disk} {response : Text} {top : Option Text} {config : RunConfig}
  {edits : List Edit} {before after : Snapshot} {e : Failure}

/-! ## Planning

What a response makes of the files it names is found out before any of them
is written. -/

/-- **What ends the planning of a response as it is**, in the order in which
planning goes: the response is read, its root is given, and the files that it
names are loaded. A response that cannot be read as edits is an error that is
expected, and so is one whose edits do not fit. -/
inductive PlanEscapes (d : Disk) (response : Text) (top : Option Text) (config : RunConfig) :
    Failure → Prop
  /-- The response is not read. -/
  | response {e : Failure} (h : d.ReadEscapes response config.encoding e) :
      PlanEscapes d response top config e
  /-- It can be parsed, but there is no root. -/
  | root {text : Text} {edits : List Edit} (hread : d.readText response config.encoding = .ok text)
      (hedits : Block.edits (Text.normalizeNewlines text) = .ok edits) (htop : top = none) :
      PlanEscapes d response top config (.path (.notAPattern "list"))
  /-- The files that it names are not loaded. -/
  | files {text root : Text} {edits : List Edit} {e : Failure}
      (hread : d.readText response config.encoding = .ok text)
      (hedits : Block.edits (Text.normalizeNewlines text) = .ok edits) (htop : top = some root)
      (h : Snapshot.LoadEscapes d root config (editedPaths edits) e) :
      PlanEscapes d response top config e

/-- The edits are made unless there is no root, or the files are not loaded,
but for what is expected. -/
theorem editedSnapshots_escapes_iff :
    ((editedSnapshots d edits top config).2 = .error e ∧ e.isExpected = false)
      ↔ top = none ∧ e = .path (.notAPattern "list")
        ∨ ∃ root, top = some root ∧ Snapshot.LoadEscapes d root config (editedPaths edits) e := by
  have hloaded {cause : Failure} (h : (givenRoot top >>= fun root =>
      Snapshot.load d root (editedPaths edits) config) = .error cause) :
      (editedSnapshots d edits top config).2 = .error cause := by
    rw [editedSnapshots, h]
  constructor
  · rintro ⟨h, hnot⟩
    unfold editedSnapshots at h
    split at h
    next cause hcause =>
      cases h
      rcases bind_eq_error_iff.1 hcause with hroot | ⟨root, hroot, hload⟩
      · cases top with
        | none => exact Or.inl ⟨rfl, (Except.error.inj hroot).symm⟩
        | some root => cases hroot
      · exact Or.inr ⟨root, givenRoot_eq_ok_iff.1 hroot, Snapshot.load_escapes_iff.1 ⟨hload, hnot⟩⟩
    next found hload =>
      obtain ⟨cause, -, rfl⟩ := mapError_eq_error_iff.1 (map_eq_error_iff.1 h)
      cases hnot
  · rintro (⟨rfl, rfl⟩ | ⟨root, rfl, h⟩)
    · exact ⟨hloaded rfl, rfl⟩
    · obtain ⟨hload, hnot⟩ := Snapshot.load_escapes_iff.2 h
      exact ⟨hloaded hload, hnot⟩

/-- **Planning ends as it is** for those causes. -/
theorem plan_escapes_iff :
    (plan d response top config = .error e ∧ e.isExpected = false)
      ↔ PlanEscapes d response top config e := by
  constructor
  · rintro ⟨h, hnot⟩
    rcases bind_eq_error_iff.1 h with h | ⟨normal, hnormal, h⟩
    · exact .response (readText_escapes_iff.1 ⟨map_eq_error_iff.1 h, hnot⟩)
    obtain ⟨text, hread, rfl⟩ := readResponse_eq_ok_iff.1 hnormal
    rcases bind_eq_error_iff.1 h with h | ⟨edits, hedits, h⟩
    · obtain ⟨cause, -, rfl⟩ := mapError_eq_error_iff.1 h
      cases hnot
    have hedits := mapError_eq_ok_iff.1 hedits
    rcases bind_eq_error_iff.1 h with h | ⟨snapshots, -, h⟩
    · rcases editedSnapshots_escapes_iff.1 ⟨h, hnot⟩ with ⟨htop, rfl⟩ | ⟨root, htop, hload⟩
      · exact .root hread hedits htop
      · exact .files hread hedits htop hload
    · cases h
  · have hmade {text : Text} {edits : List Edit}
        (hread : d.readText response config.encoding = .ok text)
        (hedits : Block.edits (Text.normalizeNewlines text) = .ok edits)
        (h : (editedSnapshots d edits top config).2 = .error e ∧ e.isExpected = false) :
        plan d response top config = .error e ∧ e.isExpected = false := by
      have hnormal := readResponse_eq_ok_iff.2 ⟨text, hread, rfl⟩
      exact ⟨bind_ok_error hnormal
        (bind_ok_error (mapError_eq_ok_iff.2 hedits) (bind_error h.1)), h.2⟩
    intro h
    cases h with
    | response h =>
      obtain ⟨hread, hnot⟩ := readText_escapes_iff.2 h
      exact ⟨bind_error (map_eq_error_iff.2 hread), hnot⟩
    | root hread hedits htop =>
      exact hmade hread hedits (editedSnapshots_escapes_iff.2 (Or.inl ⟨htop, rfl⟩))
    | files hread hedits htop h =>
      exact hmade hread hedits (editedSnapshots_escapes_iff.2 (Or.inr ⟨_, htop, h⟩))

/-! ## Applying a response

Storing comes after planning, so its causes are asked about on the disk and
with the snapshots that planning has come to. -/

/-- **What ends the applying of a response as it is.** Beside the causes of
planning there are those of storing, for a run that is not dry. -/
inductive Escapes (d : Disk) (response : Text) (top : Option Text) (config : RunConfig) :
    Failure → Prop
  /-- It is not planned. -/
  | plan {e : Failure} (h : PlanEscapes d response top config e) : Escapes d response top config e
  /-- It is planned, and not on a dry run, and the files that it changes are
  not stored. -/
  | store {edits : List Edit} {before after : Snapshot} {e : Failure}
      (hplan : plan d response top config = .ok (edits, before, after))
      (hdry : config.dryRun = false)
      (h : Snapshot.StoreEscapes d (top.getD []) after config (before.changed after) e) :
      Escapes d response top config e

/-- What is planned is not stored for those causes, as its paths have been
resolved and an encoding has been found. -/
theorem store_escapes_iff (hd : d.IsTree)
    (hplan : plan d response top config = .ok (edits, before, after)) :
    ((Snapshot.store d (top.getD []) before after config).2.map (fun _ => ()) = .error e
        ∧ e.isExpected = false)
      ↔ Snapshot.StoreEscapes d (top.getD []) after config (before.changed after) e := by
  obtain ⟨encoding, hset, -⟩ := exists_encode_of_plan hd hplan
  rw [← Snapshot.storeFiles_escapes_iff hd hset fun _ hp => exists_resolve_of_plan hd hplan hp]
  refine and_congr_left' (map_eq_error_iff.trans ⟨fun h => ?_, fun h => ?_⟩)
  · exact congrArg Prod.snd (Snapshot.store_eq_error_iff.1 (Prod.ext rfl h))
  · exact congrArg Prod.snd (Snapshot.store_eq_error_iff.2 (Prod.ext rfl h))

/-- **Applying a response ends as it is** for those causes. -/
theorem runApply_escapes_iff (hd : d.IsTree) :
    ((runApply d response top config).result = .error e ∧ e.isExpected = false)
      ↔ Escapes d response top config e := by
  have hrun := @runApply_eq _ d response top config
  cases hplan : plan d response top config with
  | error cause =>
    rw [hplan] at hrun
    rw [hrun.2]
    constructor
    · rintro ⟨h, hnot⟩
      obtain rfl : cause = e := Except.error.inj h
      exact .plan (plan_escapes_iff.1 ⟨hplan, hnot⟩)
    · intro h
      cases h with
      | plan h =>
        obtain ⟨h, hnot⟩ := plan_escapes_iff.2 h
        exact ⟨congrArg Except.error (Except.error.inj (hplan.symm.trans h)), hnot⟩
      | store hplan' _ _ => cases hplan.symm.trans hplan'
  | ok planned =>
    obtain ⟨edits, before, after⟩ := planned
    rw [hplan] at hrun
    have hnone (h : PlanEscapes d response top config e) : False :=
      nomatch hplan.symm.trans (plan_escapes_iff.2 h).1
    dsimp only at hrun
    cases hdry : config.dryRun with
    | true =>
      rw [hdry, if_pos rfl] at hrun
      rw [hrun.2]
      refine iff_of_false (fun h => nomatch h.1) fun h => ?_
      cases h with
      | plan h => exact hnone h
      | store _ hdry' _ => cases hdry.symm.trans hdry'
    | false =>
      rw [hdry, if_neg Bool.false_ne_true] at hrun
      rw [hrun.2, store_escapes_iff hd hplan]
      constructor
      · exact .store hplan hdry
      · intro h
        cases h with
        | plan h => exact (hnone h).elim
        | store hplan' _ h =>
          cases hplan.symm.trans hplan'
          exact h

/-- **What is planned fails to be stored by a refusal only**, in an encoding
that is modelled, under paths that hold no null character and for whose
directories there is room. -/
theorem isExpected_of_store (hd : d.IsTree)
    (hplan : plan d response top config = .ok (edits, before, after)) {encoding : Encoding}
    (hset : Encoding.ofSetting config.encoding = .ok encoding)
    (hmodelled : encoding.isModelled = true)
    (hpaths : ∀ path ∈ before.changed after, ∀ full,
      d.resolve (top.getD []) path config.exclude = .ok full →
        '\x00' ∉ full ∧ full.count '/' < Disk.Nesting.directories)
    (h : Snapshot.store d (top.getD []) before after config = (d', .error e)) :
    e.isExpected = true := by
  obtain ⟨encoding', hset', hbytes⟩ := exists_encode_of_plan hd hplan
  obtain rfl : encoding = encoding' := Except.ok.inj (hset.symm.trans hset')
  rw [← Bool.not_eq_false]
  intro hnot
  refine Snapshot.not_storeEscapes hset (fun path _ => hbytes hmodelled path) hpaths
    ((store_escapes_iff hd hplan).1 ⟨?_, hnot⟩)
  rw [h]
  rfl

end Task

namespace Program

open Disk

section

variable [Host] {d d₁ : Disk} {home response : Text} {top configPath : Option Text} {dry : Bool}
  {args : List Text} {e : Failure} {settings : Settings} {log : List Record}
  {invocation : Invocation}

/-! ## Runs

Once the settings are opened, a run ends by the cause of its invocation's
failure if there is one (`causeOf?`), and that cause decides how. -/

/-- Records that are shown: those from a severity on, or all if there is none
yet. -/
def shownFrom (severity? : Option Nat) (records : List Record) : List Record :=
  severity?.elim records fun severity => Record.atLeast severity records

omit [Host] in
theorem result_endBy (d : Disk) (log : List Record) (shown : List Record → List Record)
    (e : Failure) : (endBy d log shown e).result
      = if e.isExpected = true then .ok failure else .error e := by
  unfold endBy
  split <;> rfl

/-- **An invocation succeeds, or it is ended by its cause.** In the second
case what is shown, and whether there is an exit code, depends on the cause
alone. -/
theorem runInvocation_ends :
    (causeOf? d invocation settings = none →
      (runInvocation d invocation settings log).result = .ok success)
    ∧ ∀ e, causeOf? d invocation settings = some e →
      ∃ left earlier, runInvocation d invocation settings log
        = endBy left earlier (shownFrom ((configFor d invocation settings).toOption.bind
            fun config => (Levels.threshold config.logLevel).toOption)) e := by
  unfold runInvocation causeOf?
  cases configFor d invocation settings with
  | error failed =>
    refine ⟨fun h => (nomatch h), fun e h => ?_⟩
    cases h
    exact ⟨_, _, rfl⟩
  | ok config =>
    dsimp only [Except.toOption, Option.bind_some]
    cases Levels.threshold config.logLevel with
    | error failed =>
      refine ⟨fun h => (nomatch h), fun e h => ?_⟩
      cases h
      exact ⟨_, _, rfl⟩
    | ok severity =>
      dsimp only
      cases (invocation.task.run d settings config).result with
      | error failed =>
        refine ⟨fun h => (nomatch h), fun e h => ?_⟩
        cases h
        exact ⟨_, _, rfl⟩
      | ok done => exact ⟨fun _ => rfl, fun e h => nomatch h⟩

/-- **What ends an invocation as it is** that is to apply a response, once
the settings are opened. -/
inductive InvocationEscapes (d : Disk) (settings : Settings) (configPath : Option Text)
    (response : Text) (top : Option Text) (dry : Bool) : Failure → Prop
  /-- No configuration can be made. -/
  | config {e : Failure} (h : RunConfig.Escapes d configPath
        (settings.entries.entries.map fun (k, v) => (Scalar.text k, v)) e) :
      InvocationEscapes d settings configPath response top dry e
  /-- What is to be the level of records is none. -/
  | level {config : RunConfig} {e : LevelError}
      (hconfig : configFor d ⟨configPath, .apply response top dry⟩ settings = .ok config)
      (h : Levels.threshold config.logLevel = .error e) :
      InvocationEscapes d settings configPath response top dry (.level e)
  /-- The response cannot be applied. -/
  | task {config : RunConfig} {severity : Nat} {e : Failure}
      (hconfig : configFor d ⟨configPath, .apply response top dry⟩ settings = .ok config)
      (hlevel : Levels.threshold config.logLevel = .ok severity)
      (h : Task.Escapes d response top config e) :
      InvocationEscapes d settings configPath response top dry e

theorem causeOf_escapes_iff (hd : d.IsTree) :
    (causeOf? d ⟨configPath, .apply response top dry⟩ settings = some e ∧ e.isExpected = false)
      ↔ InvocationEscapes d settings configPath response top dry e := by
  constructor
  · rintro ⟨h, hnot⟩
    unfold causeOf? at h
    split at h
    next cause hconfig =>
      cases h
      exact .config (RunConfig.load_escapes_iff.1 ⟨map_eq_error_iff.1 hconfig, hnot⟩)
    next config hconfig =>
      split at h
      next cause hlevel =>
        cases h
        exact .level hconfig hlevel
      next severity hlevel =>
        split at h
        next cause htask =>
          cases h
          exact .task hconfig hlevel ((Task.runApply_escapes_iff hd).1 ⟨htask, hnot⟩)
        · cases h
  · intro h
    unfold causeOf?
    cases h with
    | config h =>
      obtain ⟨hload, hnot⟩ := RunConfig.load_escapes_iff.2 h
      rw [show configFor d ⟨configPath, .apply response top dry⟩ settings = .error e from
        map_eq_error_iff.2 hload]
      exact ⟨rfl, hnot⟩
    | level hconfig h =>
      rw [hconfig]
      dsimp only
      rw [h]
      exact ⟨rfl, rfl⟩
    | task hconfig hlevel h =>
      obtain ⟨htask, hnot⟩ := (Task.runApply_escapes_iff hd).2 h
      rw [hconfig]
      dsimp only [Task.run]
      rw [hlevel]
      dsimp only
      rw [htask]
      exact ⟨rfl, hnot⟩

/-- **What ends a run as it is** that is to apply a response. -/
inductive Escapes (d : Disk) (home : Text) (configPath : Option Text) (response : Text)
    (top : Option Text) (dry : Bool) : Failure → Prop
  /-- The directory of the settings cannot be made. -/
  | directory {d₁ : Disk} {e : DiskError}
      (hopen : Settings.openIn d home application = (d₁, .error e)) :
      Escapes d home configPath response top dry (.disk e)
  /-- The invocation ends so, with the settings that are opened. -/
  | invocation {d₁ : Disk} {settings : Settings} {log : List Record} {e : Failure}
      (hopen : Settings.openIn d home application = (d₁, .ok (settings, log)))
      (h : InvocationEscapes d₁ settings configPath response top dry e) :
      Escapes d home configPath response top dry e

/-- **How a run ends**, but for failures that end it as it is. One field says
how it ends where no such failure is met, and the other that no other failure
ends it so. -/
structure EndsWithCode (d : Disk) (home : Text) (args : List Text) (escapes : Failure → Prop) :
    Prop where
  /-- It succeeds, or it ends with the exit code of a failure and tells it by
  an error that comes last, if errors are shown. -/
  ends : (∀ e, ¬escapes e) → (run d home args).result = .ok success
    ∨ (run d home args).result = .ok failure ∧ ∃ e earlier, cause? d home args = some e
      ∧ (run d home args).log
        = earlier ++ shownFrom (threshold? d home args) [.error e.message]
  /-- The failures that end it as it is are those and no others. -/
  escapes : ∀ e, (run d home args).result = .error e ↔ escapes e

/-- A run that succeeds or is ended by its cause ends with an exit code, but
for the causes that are not expected. -/
theorem endsWithCode_of_ends {escapes : Failure → Prop}
    (hsucceeds : cause? d home args = none → (run d home args).result = .ok success)
    (hfails : ∀ e, cause? d home args = some e → ∃ left earlier,
      run d home args = endBy left earlier (shownFrom (threshold? d home args)) e)
    (hescapes : ∀ e, cause? d home args = some e ∧ e.isExpected = false ↔ escapes e) :
    EndsWithCode d home args escapes := by
  cases hcause : cause? d home args with
  | none =>
    have hresult := hsucceeds hcause
    rw [hcause] at hescapes
    refine ⟨fun _ => Or.inl hresult, fun e => ?_⟩
    rw [hresult, ← hescapes]
    refine iff_of_false ?_ ?_
    · rintro ⟨⟩
    · rintro ⟨⟨⟩, -⟩
  | some cause =>
    obtain ⟨left, earlier, hend⟩ := hfails cause hcause
    rw [hcause] at hescapes
    have hresult := (congrArg Run.result hend).trans (result_endBy _ _ _ cause)
    cases hexpected : cause.isExpected with
    | true =>
      rw [hexpected, if_pos rfl] at hresult
      refine ⟨fun _ => Or.inr ⟨hresult, cause, earlier, hcause, ?_⟩, fun e => ?_⟩
      · rw [hend, endBy, if_pos hexpected]
      · rw [hresult, ← hescapes]
        refine iff_of_false ?_ ?_
        · rintro ⟨⟩
        · rintro ⟨⟨rfl⟩, hnot⟩
          cases hexpected.symm.trans hnot
    | false =>
      rw [hexpected, if_neg Bool.false_ne_true] at hresult
      refine ⟨fun hnone => absurd ((hescapes cause).1 ⟨rfl, hexpected⟩) (hnone _), fun e => ?_⟩
      rw [hresult, ← hescapes]
      constructor
      · rintro ⟨rfl⟩
        exact ⟨rfl, hexpected⟩
      · rintro ⟨⟨rfl⟩, -⟩
        rfl

/-- **A run that is to apply a response ends with an exit code** for all
disks, configurations and responses but those that `Escapes` names. -/
theorem endsWithCode_of_apply (hd : d.IsTree)
    (hargs : Arguments.readInvocation args = .ok ⟨configPath, .apply response top dry⟩) :
    EndsWithCode d home args (Escapes d home configPath response top dry) := by
  have htree := (extends_openIn_onWay hd home application).isTree
  rcases hopen : Settings.openIn d home application with ⟨d₁, cause | ⟨settings, log⟩⟩
  · have hrun : (run d home args).result = .error (.disk cause) := by
      simp only [run, hargs, hopen]
    refine ⟨fun hnone => absurd (.directory hopen) (hnone _), fun e => ?_⟩
    rw [hrun]
    constructor
    · rintro ⟨rfl⟩
      exact .directory hopen
    · intro h
      cases h with
      | directory hopen' =>
        cases hopen.symm.trans hopen'
        rfl
      | invocation hopen' h => cases hopen.symm.trans hopen'
  · rw [hopen] at htree
    have hrun : run d home args
        = runInvocation d₁ ⟨configPath, .apply response top dry⟩ settings log := by
      simp only [run, hargs, hopen]
    have hcause : cause? d home args
        = causeOf? d₁ ⟨configPath, .apply response top dry⟩ settings := by
      simp only [cause?, hargs, hopen]
    have hthreshold : threshold? d home args
        = (configFor d₁ ⟨configPath, .apply response top dry⟩ settings).toOption.bind
            fun config => (Levels.threshold config.logLevel).toOption := by
      simp only [threshold?, hargs, hopen]
      cases configFor d₁ ⟨configPath, .apply response top dry⟩ settings <;> rfl
    obtain ⟨hsucceeds, hfails⟩ :=
      @runInvocation_ends _ d₁ settings log ⟨configPath, .apply response top dry⟩
    rw [← hrun, ← hcause] at hsucceeds
    rw [← hrun, ← hcause, ← hthreshold] at hfails
    refine endsWithCode_of_ends hsucceeds hfails fun e => ?_
    rw [hcause, causeOf_escapes_iff htree]
    constructor
    · exact .invocation hopen
    · intro h
      cases h with
      | directory hopen' => cases hopen.symm.trans hopen'
      | invocation hopen' h =>
        cases hopen.symm.trans hopen'
        exact h

end

/-! ## A response that is no text

One byte is enough for a response that cannot be read, and of that the user
is not told. -/

/-- The response to `sown` with a byte that begins no character. -/
def garbled : Disk := sown.put ["srv", "response.txt"] (.file [0xff])

/-- A text that is not found is told and ends with an exit code; a response
that is no text is not told. -/
theorem endsWithCode_of_apply_garbled :
    barren.IsTree ∧ garbled.IsTree
      ∧ Arguments.readInvocation applyIt = .ok ⟨none, .apply "response.txt" (some "repo") false⟩
      ∧ Escapes garbled "/srv/home" none "response.txt" (some "repo") false
        (.encoding (.undecodable ⟨"utf-8", .invalidStart, 0, [0xff]⟩))
      ∧ (∀ e, ¬Escapes barren "/srv/home" none "response.txt" (some "repo") false e)
      ∧ ((run barren "/srv/home" applyIt).result = .ok success
        ∨ (run barren "/srv/home" applyIt).result = .ok failure
          ∧ ∃ e earlier, cause? barren "/srv/home" applyIt = some e
            ∧ (run barren "/srv/home" applyIt).log = earlier
              ++ shownFrom (threshold? barren "/srv/home" applyIt) [.error e.message]) := by
  have hd : barren.IsTree := by decide +kernel
  have hd' : garbled.IsTree := by decide +kernel
  have hargs : Arguments.readInvocation applyIt
      = .ok ⟨none, .apply "response.txt" (some "repo") false⟩ := by rfl
  have hgarbled : (run garbled "/srv/home" applyIt).result
      = .error (.encoding (.undecodable ⟨"utf-8", .invalidStart, 0, [0xff]⟩)) := by
    decide +kernel
  have hbarren : (run barren "/srv/home" applyIt).result = .ok failure := by decide +kernel
  have hnone (e : Failure) :
      ¬Escapes barren "/srv/home" none "response.txt" (some "repo") false e :=
    fun h => nomatch hbarren.symm.trans (((endsWithCode_of_apply hd hargs).escapes e).2 h)
  exact ⟨hd, hd', hargs, ((endsWithCode_of_apply hd' hargs).escapes _).1 hgarbled, hnone,
    (endsWithCode_of_apply hd hargs).ends hnone⟩

/-- Not every run ends with an exit code. -/
theorem not_always_code :
    ¬∀ (d : Disk) (home : Text) (args : List Text) (configPath : Option Text) (response : Text)
      (top : Option Text) (dry : Bool), d.IsTree →
      Arguments.readInvocation args = .ok ⟨configPath, .apply response top dry⟩ →
      (run d home args).result = .ok success ∨ (run d home args).result = .ok failure := by
  intro hall
  rcases hall garbled "/srv/home" applyIt none "response.txt" (some "repo") false
    (by decide +kernel) (by rfl) with h | h
  · exact absurd h (by decide +kernel)
  · exact absurd h (by decide +kernel)

end Program

end EditBlocks
