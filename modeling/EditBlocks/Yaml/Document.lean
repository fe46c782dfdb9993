import EditBlocks.Encoding.Utf8
import EditBlocks.Text.Newline
import EditBlocks.Yaml.Node
import EditBlocks.Yaml.Reader

/-!
# The value of a YAML document

What the nodes of a document stand for. A mapping's keys must be scalars;
under the key `<<` the entries of other mappings are taken over, and the
mapping's own entries come after them and win (`Node.flatPairs`).

Not every node has a value: a scalar can look like a number or a date and be
none, and a node can be of a kind that its contents do not fit. Such a fault
is looked for level by level: of several, the one nearest to the root is
told, and of those on one level the first (`Node.fault?`). Where there is
none, `Node.toValue` gives the value.

`Yaml.read` takes a text through all of that, and `Yaml.readFile` the bytes
of a file. It reads the YAML that configuration files are written in, which
is not all there is: nodes of kinds that it does not know are malformed to
it.
-/

namespace EditBlocks.Yaml

/-- **Why a text has no value.** -/
inductive Fault
  /-- The text is malformed, or a node is of a kind that its contents do not
  fit. -/
  | malformed
  /-- A scalar stands for nothing. -/
  | scalar (e : ScalarError)
deriving DecidableEq

namespace Node

/-- The pairs taken over by the pairs under the merging key, once their own
have been taken over. -/
def mergedPairs (merged : Node → Option (List (Node × Node))) :
    Node → Option (List (Node × Node))
  | mapping tag pairs => merged (mapping tag pairs)
  | sequence _ items => do
    let found ← items.mapM fun n => match n with
      | mapping tag pairs => merged (mapping tag pairs)
      | _ => none
    some found.reverse.flatten
  | scalar _ _ => none

/-- **The pairs of a mapping with those taken over in front**, nothing if
something else than mappings is to be taken over. Fuel bounds the nesting. -/
def flatPairs : Nat → Node → Option (List (Node × Node))
  | 0, _ => none
  | fuel + 1, mapping _ pairs => do
    let merged ← (pairs.filter fun p => p.1.tag = .merge).mapM fun p =>
      mergedPairs (flatPairs fuel) p.2
    let own := (pairs.filter fun p => p.1.tag ≠ .merge).map fun p =>
      match p.1 with
      | scalar .usualValue t => (scalar .text t, p.2)
      | _ => p
    some (merged.flatten ++ own)
  | _ + 1, _ => some []

mutual

/-- How deep the collections of a node are nested. -/
def depth : Node → Nat
  | scalar _ _ => 0
  | sequence _ items => depthItems items + 1
  | mapping _ pairs => depthPairs pairs + 1

/-- How deep the items of a sequence are nested. -/
def depthItems : List Node → Nat
  | [] => 0
  | n :: rest => max n.depth (depthItems rest)

/-- How deep the pairs of a mapping are nested. -/
def depthPairs : List (Node × Node) → Nat
  | [] => 0
  | (k, v) :: rest => max (max k.depth v.depth) (depthPairs rest)

end

/-- What is wrong with a scalar. -/
def scalarFault (tag : Tag) (t : Text) : Option Fault :=
  match tag.read t with
  | none => some .malformed
  | some (.error e) => some (.scalar e)
  | some (.ok _) => none

/-- What is wrong with a node where it is met: a scalar that stands for
nothing, or a collection of an unknown kind. -/
def faultHere : Node → Option Fault
  | scalar .sequence _ | scalar .mapping _ => none
  | scalar tag t => scalarFault tag t
  | sequence tag _ => if tag ∈ [.sequence, .mapping] then none else some .malformed
  | mapping tag _ => if tag ∈ [.sequence, .mapping] then none else some .malformed

/-- What is wrong with a key: it must be a scalar. -/
def faultOfKey : Node → Option Fault
  | scalar .sequence _ | scalar .mapping _ => some .malformed
  | scalar tag t => scalarFault tag t
  | _ => some .malformed

/-- The first fault of some nodes. -/
def firstFault (faults : List (Option Fault)) : Option Fault := faults.findSome? id

/-- What is wrong with the parts of a node, so many levels further down. A
collection's own contents count one level below it. -/
def faultBelow : Nat → Node → Option Fault
  | _, scalar .sequence _ => some .malformed
  | _, scalar .mapping _ => some .malformed
  | _, scalar _ _ => none
  | 0, sequence tag items =>
    if tag ≠ .sequence then some .malformed else firstFault (items.map faultHere)
  | 0, mapping tag pairs =>
    if tag ≠ .mapping then some .malformed
    else match flatPairs (depth (mapping tag pairs)) (mapping tag pairs) with
      | none => some .malformed
      | some pairs => firstFault (pairs.flatMap fun (k, v) => [k.faultOfKey, v.faultHere])
  | level + 1, sequence _ items => firstFault (items.map fun n => faultBelow level n)
  | level + 1, mapping tag pairs =>
    match flatPairs (depth (mapping tag pairs)) (mapping tag pairs) with
    | none => some .malformed
    | some pairs => firstFault (pairs.map fun (_, v) => faultBelow level v)

/-- **What is wrong with a node**, nearest to the root. -/
def fault? (n : Node) : Option Fault :=
  firstFault (n.faultHere :: (List.range (n.depth + 1)).map fun level => n.faultBelow level)

/-- The scalar of a key. -/
def keyOf : Node → Scalar
  | scalar tag t =>
    match tag.read t with
    | some (.ok s) => s
    | _ => .null
  | _ => .null

/-- **The value of a node** in which nothing is wrong. Fuel bounds the
nesting. -/
def toValue : Nat → Node → Value
  | _, scalar tag t => .scalar (keyOf (scalar tag t))
  | 0, _ => .null
  | fuel + 1, sequence _ items => .sequence (items.map fun n => toValue fuel n)
  | fuel + 1, mapping tag pairs =>
    .mapping (((flatPairs (depth (mapping tag pairs)) (mapping tag pairs)).getD []).foldl
      (fun entries (k, v) => Value.putKey k.keyOf (toValue fuel v) entries) [])

end Node

/-- **The value of a YAML text.** A text without a document has none of its
own and counts as null. -/
def read (t : Text) : Except Fault Value :=
  match node? t with
  | none => .error .malformed
  | some none => .ok .null
  | some (some n) =>
    match n.fault? with
    | some e => .error e
    | none => .ok (n.toValue (n.depth + 1))

/-! ## Files

A file is UTF-8, read piece by piece, and its line ends count as line feeds.
-/

/-- The text of a file that is read piece by piece: bytes that are cut short
at its end are counted from the first of them. -/
def fileText (bytes : List UInt8) : Except DecodeError Text :=
  match Utf8.decode bytes with
  | .ok t => .ok t
  | .error e => .error (if e.fault = .unexpectedEnd then { e with position := 0 } else e)

/-- The word for the kind of error that a scalar without a value is. -/
def ScalarError.kind : ScalarError → Text
  | empty => "IndexError"
  | notATruth _ => "KeyError"
  | notATime => "AttributeError"
  | _ => "ValueError"

/-- A fault as the error that it is told by. -/
def Fault.toError : Fault → Error
  | malformed => .malformed
  | scalar e => .unexpected e.kind e.message

/-- **The value of a YAML file.** -/
def readFile (bytes : List UInt8) : Except Error Value :=
  match fileText bytes with
  | .error e => .error (.unexpected "UnicodeDecodeError" e.message)
  | .ok t => (read (Text.normalizeNewlines t)).mapError Fault.toError

end EditBlocks.Yaml
