import EditBlocks.Arguments.Reading

/-!
# Invocations

The three things that the program is asked to do – apply the edits of a
response, print a prompt, show or change the saved settings – with what each
is given, read off the command line (`Arguments.readInvocation`).

A command line is read twice: by the grammar of the program, which stops at
the name of a command, and then by the grammar of that command. So an option
of the program has to come before the command, and one that comes after it is
left over. Where reading stops there is a `Notice`, which is help or how the
program is misused, with the command it is about.
-/

namespace EditBlocks

/-- **What the program is asked to do.** -/
inductive Task
  /-- To apply the response in a file. -/
  | apply (response : Text) (root : Option Text) (dryRun : Bool)
  /-- To print the prompt for some files. -/
  | prompt (files : List Text) (root : Option Text) (instructions : Text)
  /-- To show the settings or one of them, or to change one. -/
  | settings (key value : Option Text)
deriving DecidableEq

/-- **An invocation of the program**: the configuration file it is given, and
its task. -/
structure Invocation where
  /-- The configuration file, if one is given. -/
  config : Option Text
  /-- What is to be done. -/
  task : Task
deriving DecidableEq

namespace Arguments

/-- The option that asks for help. -/
def helpOption : OptionSpec := ⟨["-h", "--help"], .help⟩

/-- The directory when none is given. -/
def usualRoot : Text := "."

/-- The command line of the program. -/
def mainGrammar : Grammar where
  program := "codechange"
  usage := "usage: codechange [-h] [--config CONFIG] \x7bapply,prompt,config\x7d ...\n"
  explanation :=
    "positional arguments:\n" ++
    "  \x7bapply,prompt,config\x7d\n" ++
    "    apply               Apply CodeChange blocks from a model response\n" ++
    "    prompt              Print edit format instructions with file contents\n" ++
    "    config              Show or change saved user defaults\n" ++
    "\n" ++
    "options:\n" ++
    "  -h, --help            show this help message and exit\n" ++
    "  --config CONFIG       Path to YAML config file\n"
  options := [helpOption, ⟨["--config"], .value⟩]
  positionals := [("command", .command)]

/-- The command line for applying a response. -/
def applyGrammar : Grammar where
  program := "codechange apply"
  usage := "usage: codechange apply [-h] [--root ROOT] [--dry-run] response\n"
  explanation :=
    "positional arguments:\n" ++
    "  response     File holding the model response\n" ++
    "\n" ++
    "options:\n" ++
    "  -h, --help   show this help message and exit\n" ++
    "  --root ROOT  Directory the edited paths are relative to\n" ++
    "  --dry-run    Report changes without writing them\n"
  options := [helpOption, ⟨["--root"], .value⟩, ⟨["--dry-run"], .flag⟩]
  positionals := [("response", .one)]

/-- The command line for printing a prompt. -/
def promptGrammar : Grammar where
  program := "codechange prompt"
  usage :=
    "usage: codechange prompt [-h] [--root ROOT] [--instructions INSTRUCTIONS]\n" ++
    "                         [files ...]\n"
  explanation :=
    "positional arguments:\n" ++
    "  files                 Repo-relative files to include\n" ++
    "\n" ++
    "options:\n" ++
    "  -h, --help            show this help message and exit\n" ++
    "  --root ROOT           Directory the paths are relative to\n" ++
    "  --instructions INSTRUCTIONS\n" ++
    "                        Extra instructions appended to the prompt\n"
  options := [helpOption, ⟨["--root"], .value⟩, ⟨["--instructions"], .value⟩]
  positionals := [("files", .many)]

/-- The command line for the saved settings. -/
def settingsGrammar : Grammar where
  program := "codechange config"
  usage := "usage: codechange config [-h] [key] [value]\n"
  explanation :=
    "positional arguments:\n" ++
    "  key         Setting to show or change\n" ++
    "  value       New value to save\n" ++
    "\n" ++
    "options:\n" ++
    "  -h, --help  show this help message and exit\n"
  options := [helpOption]
  positionals := [("key", .optional), ("value", .optional)]

/-- **What is written where reading a command line stops**: help, or how the
program is misused. -/
inductive Notice
  | help (t : Text)
  | misuse (t : Text)
deriving DecidableEq

/-- What is written where reading stops. -/
def noticeOf (g : Grammar) : Stop → Notice
  | .help => .help (helpText g)
  | .misuse message => .misuse (misuseText g message)

/-- The arguments of a command line read, or what is written instead. -/
def readWith (g : Grammar) (ts : List Text) : Except Notice Found :=
  (read g ts).mapError (noticeOf g)

/-- The directory that a command line gives. -/
def rootOf (found : Found) : Option Text := (found.option? "--root").getD (some usualRoot)

/-- The one argument of a positional, if it took one. -/
def single (found : Found) (name : Text) : Option Text :=
  ((found.positional? name).getD []).head?

/-- **The task of a command** with its arguments, and what is left over of
them. -/
def readTask (command : Text) (ts : List Text) : Except Notice (Task × List Text) :=
  if command = ("apply" : Text) then do
    let found ← readWith applyGrammar ts
    .ok (.apply ((single found "response").getD []) (rootOf found)
      (found.option? "--dry-run").isSome, found.extras)
  else if command = ("prompt" : Text) then do
    let found ← readWith promptGrammar ts
    .ok (.prompt ((found.positional? "files").getD []) (rootOf found)
      ((found.option? "--instructions").bind id |>.getD []), found.extras)
  else if command = ("config" : Text) then do
    let found ← readWith settingsGrammar ts
    .ok (.settings (single found "key") (single found "value"), found.extras)
  else
    .error (noticeOf mainGrammar (.misuse ("argument command: invalid choice: " ++ command.quoted
      ++ " (choose from 'apply', 'prompt', 'config')")))

/-- **The invocation that a command line stands for.** Nothing may be left
over. -/
def readInvocation (ts : List Text) : Except Notice Invocation := do
  let found ← readWith mainGrammar ts
  match (found.positional? "command").getD [] with
  | [] => .error (noticeOf mainGrammar .help)
  | command :: rest =>
    let (task, extras) ← readTask command rest
    match found.extras ++ extras with
    | [] => .ok ⟨(found.option? "--config").bind id, task⟩
    | extras =>
      .error (noticeOf mainGrammar
        (.misuse ("unrecognized arguments: " ++ Text.join " " extras)))

end Arguments

end EditBlocks
