import EditBlocks.Arguments.Invocation
import EditBlocks.ConfigFile
import EditBlocks.Prompt
import EditBlocks.Settings

/-!
# The program

A run of the program on a disk (`Program.run`): its command line is read, the
saved settings and the configuration file are loaded, and its task is done. A
task applies a response, writes a prompt, or shows or changes the settings.
What a part of a run leaves is an `Outcome`: the disk, the records made, what
was printed, and how it ended.

Records are shown from the configured level on. Before the configuration is
known all are shown, those of loading the settings among them. A failure that
is expected (`Failure.isExpected`) is shown as an error and ends the run with
exit code 1 (`Program.endBy`); any other ends it as it is. The misuse of the
command line ends it with exit code 2 before anything else is done.

The settings are opened before anything is caught. So where their directory
cannot be made the run ends as it is, whatever the failure.
-/

namespace EditBlocks

/-- **How a run or a part of it ends**, with what it has done until then. -/
structure Outcome (α : Type) where
  /-- The disk afterwards. -/
  disk : Disk
  /-- The records. -/
  log : List Record
  /-- What was printed. -/
  printed : Text
  /-- The result, or the failure that ended it. -/
  result : Except Failure α

namespace Outcome

variable {α : Type}

/-- The end by a failure, with the disk and the records until then. -/
def failed (d : Disk) (log : List Record) (e : Failure) : Outcome α := ⟨d, log, [], .error e⟩

end Outcome

variable [Host]

/-- A line of output. -/
def printedLine (t : Text) : Text := t ++ ['\n']

/-- The root that a command line gives; there may be none. -/
def givenRoot (root : Option Text) : Except Failure Text :=
  match root with
  | some root => .ok root
  | none => .error (.path (.notAPattern "list"))

namespace Task

/-- The paths of edits, each once, in the order of first mention. -/
def editedPaths (edits : List Edit) : List Text :=
  edits.foldl (fun paths e => if e.path ∈ paths then paths else paths ++ [e.path]) []

/-- The text of the response in a file. -/
def readResponse (d : Disk) (path : Text) (config : RunConfig) : Except Failure Text :=
  (d.readText path config.encoding).map Text.normalizeNewlines

/-- The edits of a response applied to the files they name: the snapshots
before and after. -/
def editedSnapshots (d : Disk) (edits : List Edit) (root : Option Text) (config : RunConfig) :
    List Record × Except Failure (Snapshot × Snapshot) :=
  match givenRoot root >>= fun root => Snapshot.load d root (editedPaths edits) config with
  | .error e => ([], .error e)
  | .ok before =>
    (before.applyLog edits,
      ((before.applyEdits edits).mapError Failure.apply).map fun after => (before, after))

/-- The report of edits that were not made. -/
def dryRunReport (edits : List Edit) (paths : List Text) : Record :=
  .info ("Dry run: " ++ Text.ofNat edits.length ++ " edits would change "
    ++ Text.ofNat paths.length ++ " files")

/-- The report of edits that were made. -/
def appliedReport (edits : List Edit) (paths : List Text) : Record :=
  .info ("Applied " ++ Text.ofNat edits.length ++ " edits to "
    ++ Text.ofNat paths.length ++ " files")

/-- **A response applied**, or only tried on a dry run. The paths of the
files that change are printed. -/
def runApply (d : Disk) (response : Text) (root : Option Text) (config : RunConfig) :
    Outcome Unit :=
  match readResponse d response config with
  | .error e => .failed d [] e
  | .ok text =>
    let parsing := Block.editsLog text
    match Block.edits text with
    | .error e => .failed d parsing (.parse e)
    | .ok edits =>
      match editedSnapshots d edits root config with
      | (editing, .error e) => .failed d (parsing ++ editing) e
      | (editing, .ok (before, after)) =>
        let log := parsing ++ editing
        if config.dryRun then
          let paths := before.changed after
          ⟨d, log ++ [dryRunReport edits paths], paths.flatMap printedLine, .ok ()⟩
        else
          match Snapshot.store d (root.getD []) before after config with
          | (d, .error e) => .failed d log e
          | (d, .ok paths) =>
            ⟨d, log ++ [appliedReport edits paths], paths.flatMap printedLine, .ok ()⟩

/-- **The prompt for some files printed.** A file that is not there counts as
empty. -/
def runPrompt (d : Disk) (files : List Text) (root : Option Text) (instructions : Text)
    (config : RunConfig) : Outcome Unit :=
  match givenRoot root >>= fun root => Snapshot.load d root files config with
  | .error e => .failed d [] e
  | .ok s =>
    let contents : OrderedMap Text Text := .ofList (files.map fun path => (path, s.contents path))
    ⟨d, [], printedLine (Prompt.render contents.entries instructions), .ok ()⟩

/-- **The settings shown, or one of them shown or changed.** -/
def runSettings (d : Disk) (settings : Settings) (key value : Option Text) : Outcome Unit :=
  match key, value with
  | none, _ =>
    let lines := settings.entries.entries.flatMap fun (k, v) => printedLine (k ++ " = " ++ v.toText)
    ⟨d, [], lines, .ok ()⟩
  | some key, none => ⟨d, [], printedLine (settings.get key .null).toText, .ok ()⟩
  | some key, some value =>
    let (s, d, log) := settings.set d key (.text value)
    ⟨d, log ++ [.info ("Saved " ++ key ++ " = " ++ value ++ " to " ++ s.file)], [], .ok ()⟩

/-- Whether a task is asked to report only. -/
def wantsDryRun : Task → Bool
  | apply _ _ dryRun => dryRun
  | _ => false

/-- **A task done.** -/
def run (task : Task) (d : Disk) (settings : Settings) (config : RunConfig) : Outcome Unit :=
  match task with
  | apply response root _ => runApply d response root config
  | prompt files root instructions => runPrompt d files root instructions config
  | Task.settings key value => runSettings d settings key value

end Task

namespace Program

/-- The name under which the program keeps its settings. -/
def application : Text := "codechange"

/-- **What a run leaves.** -/
structure Run where
  /-- The disk afterwards. -/
  disk : Disk
  /-- The records shown. -/
  log : List Record
  /-- What was printed. -/
  printed : Text
  /-- What was written beside that, for the misuse of the command line. -/
  complaint : Text
  /-- The exit code, or the failure that ended the run as it is. -/
  result : Except Failure Nat

/-- The exit code of a run that succeeds. -/
def success : Nat := 0

/-- The exit code of a run that fails by what it was given. -/
def failure : Nat := 1

/-- The exit code of a misused command line. -/
def misused : Nat := 2

/-- **The end of a run by a failure**: an error shown and an exit code if it
is expected, or else the failure itself. -/
def endBy (d : Disk) (log : List Record) (shown : List Record → List Record) (e : Failure) : Run :=
  if e.isExpected then ⟨d, log ++ shown [.error e.message], [], [], .ok failure⟩
  else ⟨d, log, [], [], .error e⟩

/-- The configuration of a task: loaded, and a dry run if the task asks for
one. -/
def configFor (d : Disk) (invocation : Invocation) (settings : Settings) :
    Except Failure RunConfig :=
  (RunConfig.load d invocation.config
    (settings.entries.entries.map fun (k, v) => (Scalar.text k, v))).map fun config =>
      { config with dryRun := config.dryRun || invocation.task.wantsDryRun }

/-- **An invocation run**, once the settings have been loaded. -/
def runInvocation (d : Disk) (invocation : Invocation) (settings : Settings)
    (log : List Record) : Run :=
  match configFor d invocation settings with
  | .error e => endBy d log id e
  | .ok config =>
    match Levels.threshold config.logLevel with
    | .error e => endBy d log id (.level e)
    | .ok severity =>
      let outcome := invocation.task.run d settings config
      let log := log ++ Record.atLeast severity outcome.log
      match outcome.result with
      | .ok () => ⟨outcome.disk, log, outcome.printed, [], .ok success⟩
      | .error e => endBy outcome.disk log (Record.atLeast severity) e

/-- **A run of the program** on a disk, with its arguments and the home of
settings. -/
def run (d : Disk) (home : Text) (args : List Text) : Run :=
  match Arguments.readInvocation args with
  | .error (.help t) => ⟨d, [], t, [], .ok success⟩
  | .error (.misuse t) => ⟨d, [], [], t, .ok misused⟩
  | .ok invocation =>
    match Settings.openIn d home application with
    | (d, .error e) => ⟨d, [], [], [], .error (.disk e)⟩
    | (d, .ok (settings, log)) => runInvocation d invocation settings log

end Program

end EditBlocks
