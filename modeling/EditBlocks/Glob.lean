import EditBlocks.Text.Basic

/-!
# Patterns for paths

A pattern is matched against a whole text (`Glob.isMatch`). A star stands for
any characters, slashes and line boundaries included, a question mark for one
character, and square brackets for one character of a set; every other
character for itself. A bracket that is not closed stands for itself.

Inside brackets a hyphen between two characters makes a range, and an
exclamation mark at the beginning takes the characters that are not in the
set. Hyphens are found from the left, each at least two characters after the
last; the pieces between them are joined by ranges. A range whose ends are in
the wrong order is taken out together with them.

A pattern is first cut into tokens, each a condition on one character or the
star, and the tokens are then matched from the left. So matching is a
recursion over a list of tokens, with one case for a star and one for
everything else.
-/

namespace EditBlocks.Glob

/-- **A part of a pattern.** -/
inductive Token
  /-- Any number of characters. -/
  | star
  /-- Any character. -/
  | any
  /-- One character. -/
  | only (c : Char)
  /-- One character in one of the ranges, or, negated, in none of them. -/
  | set (negated : Bool) (ranges : List (Char × Char))
deriving DecidableEq

/-! ## Sets of characters

The text between brackets is cut at its hyphens before anything is made of
it, because a range can take away the pieces on both of its sides. -/

/-- The parts before and after the first hyphen that has at least a given
number of characters before it. -/
def cutHyphen? : Nat → Text → Option (Text × Text)
  | _, [] => none
  | 0, c :: t =>
    if c = '-' then some ([], t) else (cutHyphen? 0 t).map fun (a, b) => (c :: a, b)
  | n + 1, c :: t => (cutHyphen? n t).map fun (a, b) => (c :: a, b)

/-- The pieces between the hyphens that make ranges. Fuel is the length of
the text. -/
def pieces : (fuel skip : Nat) → Text → List Text
  | 0, _, t => [t]
  | fuel + 1, skip, t =>
    match cutHyphen? skip t with
    | none => [t]
    | some (before, after) => before :: pieces fuel 2 after

/-- A hyphen at the very end belongs to the piece before it. -/
def closePieces : List Text → List Text
  | [] => []
  | [t] => [t]
  | [t, []] => [t ++ ['-']]
  | t :: rest => t :: closePieces rest

/-- Ranges in the wrong order are taken out, from the right. -/
def mergePieces : List Text → List Text
  | [] => []
  | t :: rest =>
    match mergePieces rest with
    | [] => [t]
    | next :: more =>
      match t.getLast?, next with
      | some low, high :: after =>
        if high < low then (t.dropLast ++ after) :: more else t :: next :: more
      | _, _ => t :: next :: more

/-- A character as the range of itself. -/
def single (c : Char) : Char × Char := (c, c)

/-- The ranges of joined pieces: each character on its own, but for those on
the two sides of a joint. -/
def rangesFrom (open? : Option Char) : List Text → List (Char × Char)
  | [] => (open?.map single).toList
  | [t] =>
    match open?, t with
    | some low, high :: rest => (low, high) :: rest.map single
    | some low, [] => [single low]
    | none, t => t.map single
  | t :: rest =>
    match open?, t with
    | some low, high :: inner =>
      (low, high) :: inner.dropLast.map single ++ rangesFrom inner.getLast? rest
    | some low, [] => rangesFrom (some low) rest
    | none, t => t.dropLast.map single ++ rangesFrom t.getLast? rest

/-- **The set between two brackets.** -/
def setOf (inside : Text) : Token :=
  let skip := if inside.head? = some '!' then 2 else 1
  match mergePieces (closePieces (pieces inside.length skip inside)) with
  | ('!' :: t) :: rest => .set true (rangesFrom none (t :: rest))
  | parts => .set false (rangesFrom none parts)

/-- The text up to the closing bracket and the text after it. The first
character, or the one after an exclamation mark, does not close the set. -/
def cutBracket? (t : Text) : Option (Text × Text) :=
  let close (head t : Text) : Option (Text × Text) :=
    match t.dropWhile (· ≠ ']') with
    | [] => none
    | _ :: after => some (head ++ t.takeWhile (· ≠ ']'), after)
  match t with
  | '!' :: ']' :: rest => close ['!', ']'] rest
  | '!' :: rest => close ['!'] rest
  | ']' :: rest => close [']'] rest
  | t => close [] t

/-! ## Patterns

Nothing can be wrong with a pattern: what is no set and no wildcard is a
character that stands for itself. -/

/-- The parts of a pattern. Fuel is the length of the text. -/
def tokensOf : Nat → Text → List Token
  | 0, _ => []
  | _ + 1, [] => []
  | fuel + 1, c :: t =>
    if c = '*' then .star :: tokensOf fuel t
    else if c = '?' then .any :: tokensOf fuel t
    else if c = '[' then
      match cutBracket? t with
      | none => .only '[' :: tokensOf fuel t
      | some (inside, after) => setOf inside :: tokensOf fuel after
    else .only c :: tokensOf fuel t

/-- **The parts of a pattern.** -/
def tokens (pattern : Text) : List Token := tokensOf pattern.length pattern

/-- Whether a part that stands for one character admits it. -/
def Token.accepts : Token → Char → Bool
  | star, _ => false
  | any, _ => true
  | only c, c' => c = c'
  | set negated ranges, c =>
    let inside := ranges.any fun (low, high) => low ≤ c && c ≤ high
    if negated then !inside else inside

/-- Whether some end of a text, the whole and the empty one included, has a
property. -/
def anyEnd (p : Text → Bool) : Text → Bool
  | [] => p []
  | c :: t => p (c :: t) || anyEnd p t

/-- **Whether parts match a text.** -/
def matchTokens : List Token → Text → Bool
  | [], t => t.isEmpty
  | .star :: rest, t => anyEnd (matchTokens rest) t
  | _ :: _, [] => false
  | token :: rest, c :: t => token.accepts c && matchTokens rest t

/-- **Whether a pattern matches a text.** -/
def isMatch (pattern t : Text) : Bool := matchTokens (tokens pattern) t

end EditBlocks.Glob
