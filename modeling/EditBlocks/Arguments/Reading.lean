import EditBlocks.Arguments.Grammar
import EditBlocks.Text.Digit
import EditBlocks.Text.Find
import EditBlocks.Text.Quoted

/-!
# Reading a command line

Arguments are read from the left. The name of an option may be cut short as
long as only one option begins so, and its value may stand behind an equals
sign. Positionals take their turn where an ordinary argument stands, each
once, and all that can be satisfied at once. Arguments that nothing takes are
left over.

That positionals take all they can at once has a consequence which may
surprise: when an option follows, those after it come too late for a
positional that has had its turn, and are left over.

Reading stops where help is asked for, and where the command line is misused
(`Arguments.Stop`). Everything else is `Arguments.Found`: the values of
options and of positionals, and what is left over.
-/

namespace EditBlocks.Arguments

/-- **Why reading stops.** -/
inductive Stop
  /-- Help is asked for. -/
  | help
  /-- The command line is misused. -/
  | misuse (message : Text)
deriving DecidableEq

/-- **What has been read of a command line.** -/
structure Found where
  /-- The values of options, in order; a flag has none, and neither has an
  option whose value is the sign that ends the options. -/
  options : List (OptionSpec × Option Text)
  /-- What positionals took. -/
  positionals : List (Text × List Text)
  /-- What nothing takes. -/
  extras : List Text

namespace Found

/-- Nothing read. -/
def empty : Found := ⟨[], [], []⟩

/-- The last value of an option with a name; nothing if the option is not
there. -/
def option? (f : Found) (name : Text) : Option (Option Text) :=
  (f.options.reverse.find? fun e => name ∈ e.1.names).map Prod.snd

/-- What a positional took. -/
def positional? (f : Found) (name : Text) : Option (List Text) :=
  (f.positionals.find? fun e => e.1 = name).map Prod.snd

end Found

/-! ## What an argument is taken for

The names of options are looked up first. An argument with a hyphen that is
no name can still be a number or hold a blank, and then it is an ordinary
one. -/

/-- The two sides of the first equals sign. -/
def cutEquals (t : Text) : Text × Option Text :=
  match Text.cut? "=" t with
  | some (before, after) => (before, some after)
  | none => (t, none)

/-- The options that a name means, each with the name meant and the value
that goes with it: for a long name those that begin so; for a short one the
letter alone, with the rest as its value, and those that begin so. -/
def meant (g : Grammar) (t : Text) : List (OptionSpec × Text × Option Text) :=
  let names := g.options.flatMap fun o => o.names.map fun name => (o, name)
  if Text.startsWith t "--" then
    let (start, value) := cutEquals t
    (names.filter fun (_, name) => Text.startsWith name start).map fun (o, name) => (o, name, value)
  else
    names.filterMap fun (o, name) =>
      if name = t.take 2 then some (o, name, some (t.drop 2))
      else if Text.startsWith name t then some (o, name, none)
      else none

/-- A text without the line end at its end. -/
def dropLineEnd (t : Text) : Text := if t.getLast? = some '\n' then t.dropLast else t

/-- Whether an argument is a negative number. A line end after it does not
matter. -/
def isNegativeNumber (t : Text) : Bool :=
  match dropLineEnd t with
  | '-' :: t =>
    let whole := t.takeWhile isDecimalDigit
    match t.dropWhile isDecimalDigit with
    | [] => whole ≠ []
    | '.' :: decimals => decimals ≠ [] && decimals.all isDecimalDigit
    | _ => false
  | _ => false

/-- **What an argument is taken for**, before the sign that ends the options.
It is an option if it is the name of one, whole or cut short, and looks like
one if it begins with a hyphen and is neither a number nor more than one
word. -/
def roleOf (g : Grammar) (t : Text) : Except Stop Role :=
  let whole (name : Text) : Option OptionSpec := g.options.find? fun o => name ∈ o.names
  if t.head? ≠ some '-' then .ok .argument
  else match whole t with
    | some o => .ok (.option (some (o, t, none)))
    | none =>
      if t.length = 1 then .ok .argument
      else
        let (name, value) := cutEquals t
        match whole name, value with
        | some o, some value => .ok (.option (some (o, name, some value)))
        | _, _ =>
          match meant g t with
          | [found] => .ok (.option (some found))
          | [] =>
            if isNegativeNumber t || ' ' ∈ t then .ok .argument else .ok (.option none)
          | several =>
            .error (.misuse ("ambiguous option: " ++ t ++ " could match "
              ++ Text.join ", " (several.map fun e => e.2.1)))

/-- What the arguments are taken for. After the first sign that ends the
options all are ordinary. -/
def rolesOf (g : Grammar) : List Text → Except Stop (List (Text × Role))
  | [] => .ok []
  | t :: rest =>
    if t = endSign then .ok ((t, .endSign) :: rest.map fun t => (t, .argument))
    else do
      let role ← roleOf g t
      let more ← rolesOf g rest
      .ok ((t, role) :: more)

/-! ## Reading

Each step takes away one option with its value, or as many ordinary arguments
as positionals take, so reading is over after as many steps as there are
arguments. -/

/-- The names of an option, as a message gives them. -/
def OptionSpec.shown (o : OptionSpec) : Text := Text.join "/" o.names

/-- A misuse of an option. -/
def misuseOf (o : OptionSpec) (message : Text) : Stop :=
  .misuse ("argument " ++ o.shown ++ ": " ++ message)

/-- A value that an option does not take. -/
def ignoredValue (o : OptionSpec) (value : Text) : Stop :=
  misuseOf o ("ignored explicit argument " ++ value.quoted)

/-- Arguments without the first sign that ends the options. -/
def dropSign (ts : List Text) : List Text := ts.erase endSign

/-- The value of an option from an argument. -/
def valueOf (t : Text) : Option Text := if t = endSign then none else some t

/-- **An option with the value it carries, if it carries one**, and how many
of the arguments after it it takes. Letters behind a short option that takes
no value are short options as well. Fuel is the number of letters. -/
def readOption (g : Grammar) (rest : List (Text × Role)) :
    Nat → OptionSpec → Text → Option Text → Except Stop (List (OptionSpec × Option Text) × Nat)
  | 0, o, _, _ => .error (misuseOf o "expected one argument")
  | fuel + 1, o, name, carried =>
    match o.kind, carried with
    | .value, some value => .ok ([(o, valueOf value)], 0)
    | .value, none =>
      match rest with
      | (t, .argument) :: _ => .ok ([(o, valueOf t)], 1)
      | _ => .error (misuseOf o "expected one argument")
    | _, none => .ok ([(o, none)], 0)
    | _, some value =>
      match value with
      | [] => .error (ignoredValue o value)
      | letter :: letters =>
        if Text.startsWith name endSign then .error (ignoredValue o value)
        else
          match g.options.find? fun o => ['-', letter] ∈ o.names with
          | none => .error (ignoredValue o value)
          | some next => do
            let carried := if letters = [] then none else some letters
            let (more, count) ← readOption g rest fuel next ['-', letter] carried
            .ok ((o, none) :: more, count)

/-- How many arguments are taken together. -/
def total : List Nat → Nat
  | [] => 0
  | n :: counts => n + total counts

/-- What positionals take, in order. -/
def give : List (Text × Arity) → List Nat → List Text → List (Text × List Text)
  | (name, arity) :: rest, n :: counts, ts =>
    (name, if arity = .command then ts.take n else dropSign (ts.take n))
      :: give rest counts (ts.drop n)
  | _, _, _ => []

/-- **The arguments read from a place on**, with the positionals that have
not had their turn. Fuel bounds the number of steps. -/
def readFrom (g : Grammar) :
    Nat → Found → List (Text × Arity) → List (Text × Role) → Except Stop Found
  | 0, found, _, _ => .ok found
  | fuel + 1, found, positionals, rest =>
    let counts := takesMost (positionals.map Prod.snd) (rest.map Prod.snd)
    let given := give positionals counts (rest.map Prod.fst)
    let turned := { found with positionals := found.positionals ++ given }
    let left := positionals.drop counts.length
    let taken := total counts
    if !rest.any fun e => e.2.isOption then
      .ok { turned with extras := found.extras ++ (rest.drop taken).map Prod.fst }
    else
      match rest with
      | (t, .option none) :: rest =>
        readFrom g fuel { found with extras := found.extras ++ [t] } positionals rest
      | (_, .option (some (o, name, carried))) :: rest => do
        let (options, count) ← readOption g rest (name.length + (carried.getD []).length + 1) o name
          carried
        if options.any fun e => e.1.kind = .help then .error .help
        else
          readFrom g fuel { found with options := found.options ++ options } positionals
            (rest.drop count)
      | rest =>
        if 0 < taken then readFrom g fuel turned left (rest.drop taken)
        else
          let extras := (rest.takeWhile fun e => !e.2.isOption).map Prod.fst
          readFrom g fuel { turned with extras := found.extras ++ extras } left
            (rest.dropWhile fun e => !e.2.isOption)

/-- The positionals that have to be there and are not. -/
def missing (g : Grammar) (found : Found) : List Text :=
  (g.positionals.filter fun (name, arity) =>
    arity ∈ [.one, .command] && (found.positional? name).isNone).map Prod.fst

/-- **The arguments of a command line read**, with what is left over. -/
def read (g : Grammar) (ts : List Text) : Except Stop Found := do
  let roles ← rolesOf g ts
  let found ← readFrom g (2 * ts.length + 2) .empty g.positionals roles
  match missing g found with
  | [] => .ok found
  | names =>
    .error (.misuse ("the following arguments are required: " ++ Text.join ", " names))

/-- What is written where a command line is misused. -/
def misuseText (g : Grammar) (message : Text) : Text :=
  g.usage ++ g.program ++ ": error: " ++ message ++ "\n"

/-- What is written where help is asked for. -/
def helpText (g : Grammar) : Text := g.usage ++ "\n" ++ g.explanation

end EditBlocks.Arguments
