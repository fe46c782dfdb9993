import EditBlocks.Text.Basic

/-!
# The grammar of a command line

What a program takes on its command line: options, each with its names, and
positionals in order. An argument that looks like an option is one; the sign
`--` ends the options. A positional takes as many of the arguments in its
turn as it can.

What an argument is taken for is its `Role`, and how many arguments of given
roles each positional takes is settled by the roles alone
(`Arguments.takesMost`). So the arguments themselves come in only when they
are handed out. A command is a positional that takes all that is left, which
another grammar then reads.
-/

namespace EditBlocks.Arguments

/-- What an option does. -/
inductive OptionKind
  /-- It asks for help. -/
  | help
  /-- It is set by being there. -/
  | flag
  /-- It takes a value. -/
  | value
deriving DecidableEq

/-- **An option.** -/
structure OptionSpec where
  /-- Its names. -/
  names : List Text
  /-- What it does. -/
  kind : OptionKind
deriving DecidableEq

/-- How many arguments a positional takes. -/
inductive Arity
  | one
  /-- One or none. -/
  | optional
  /-- Any number. -/
  | many
  /-- One, and with it all that follows, options included. -/
  | command
deriving DecidableEq

/-- **What a program takes**, and how it tells so. -/
structure Grammar where
  /-- The name of the program. -/
  program : Text
  /-- The lines that say how it is used. -/
  usage : Text
  /-- The lines that explain its options and arguments. -/
  explanation : Text
  /-- Its options. -/
  options : List OptionSpec
  /-- Its positionals. -/
  positionals : List (Text × Arity)

/-- The sign that ends the options. -/
def endSign : Text := "--"

/-- **What an argument is taken for.** -/
inductive Role
  /-- An ordinary argument. -/
  | argument
  /-- Something that looks like an option, and the option it is with the
  value it carries, if it is one. -/
  | option (found : Option (OptionSpec × Text × Option Text))
  /-- The sign that ends the options. -/
  | endSign
deriving DecidableEq

namespace Role

/-- Whether an argument is the sign that ends the options. -/
def isEnd (r : Role) : Bool := r = .endSign

/-- Whether an argument looks like an option. -/
def isOption : Role → Bool
  | option _ => true
  | _ => false

end Role

/-- **Whether a positional can take arguments of these roles.** Signs that
end the options may stand around what it takes. -/
def Arity.admits (arity : Arity) (roles : List Role) : Bool :=
  match arity with
  | one => (roles.dropWhile Role.isEnd).take 1 = [.argument]
      && ((roles.dropWhile Role.isEnd).drop 1).all Role.isEnd
  | optional =>
    let rest := roles.dropWhile Role.isEnd
    (if rest.take 1 = [.argument] then rest.drop 1 else rest).all Role.isEnd
  | many => roles.all fun r => !r.isOption
  | command => (roles.dropWhile Role.isEnd).take 1 = [.argument]

/-- The first result of a function on the numbers below a bound, from the
greatest down. -/
def fromGreatest {α : Type} (f : Nat → Option α) : Nat → Option α
  | 0 => none
  | n + 1 => (f n).or (fromGreatest f n)

/-- How many arguments each of several positionals takes, if all of them can
be satisfied in order: the first as many as it can, then the next. -/
def takes : List Arity → List Role → Option (List Nat)
  | [], _ => some []
  | arity :: rest, roles =>
    fromGreatest (fun n =>
      if arity.admits (roles.take n) then (takes rest (roles.drop n)).map (n :: ·) else none)
      (roles.length + 1)

/-- **How many arguments each positional takes**, for as many of the
positionals as can be satisfied. -/
def takesMost (arities : List Arity) (roles : List Role) : List Nat :=
  (fromGreatest (fun n => takes (arities.take n) roles) (arities.length + 1)).getD []

end EditBlocks.Arguments
