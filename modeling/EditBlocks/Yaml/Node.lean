import EditBlocks.Yaml.Scalar
import EditBlocks.Yaml.TokenStream

/-!
# The nodes of a YAML document

A document is a tree of nodes: scalars, sequences of nodes, and mappings of
pairs of nodes, each with its kind. The nodes are read off the tokens; an
alias stands for the node that was given its name before.

A node that is missing where one may be left out is a scalar that stands for
nothing. Tokens that make no document have no node, and neither does more
than one document.

A tree can hold the same node twice and cannot hold itself. That is enough
here, as what is read by this reader alone is what it is asked for; any other
reader may be put in its place (`Yaml.Reader`).
-/

namespace EditBlocks.Yaml

/-- **A node.** -/
inductive Node
  /-- A scalar and its text. -/
  | scalar (tag : Tag) (t : Text)
  /-- Nodes in order. -/
  | sequence (tag : Tag) (items : List Node)
  /-- Pairs of nodes in order. -/
  | mapping (tag : Tag) (pairs : List (Node × Node))

namespace Node

/-- The node that is left out. -/
def missing : Node := .scalar .null []

/-- The kind of a node. -/
def tag : Node → Tag
  | scalar tag _ => tag
  | sequence tag _ => tag
  | mapping tag _ => tag

end Node

/-! ## Kinds

A kind is written by a handle and a rest, and the handle stands for the
beginning of the whole name. A node without one gets the kind that it looks
like. -/

/-- The beginning of the kinds that are known. -/
def knownStart : Text := "tag:yaml.org,2002:"

/-- The handles that need no directive. -/
def usualHandles : List (Text × Text) := [("!", "!"), ("!!", knownStart)]

/-- The kind of a tag. -/
def tagOf (t : Text) : Tag :=
  match Text.dropStart? knownStart t with
  | none => .unknown
  | some name =>
    if name = ("null" : Text) then .null
    else if name = ("bool" : Text) then .bool
    else if name = ("int" : Text) then .int
    else if name = ("float" : Text) then .float
    else if name = ("timestamp" : Text) then .timestamp
    else if name = ("str" : Text) then .text
    else if name = ("seq" : Text) then .sequence
    else if name = ("map" : Text) then .mapping
    else if name = ("merge" : Text) then .merge
    else if name = ("value" : Text) then .usualValue
    else .unknown

/-- The tag that is not one: its node is read as if it were plain. -/
def nonSpecific : Text := "!"

/-- The whole tag of a tag as it is written. -/
def wholeTag (handles : List (Text × Text)) (name : TagName) : Option Text :=
  match name.handle with
  | none => some name.suffix
  | some handle => (handles.find? fun e => e.1 = handle).map fun e => e.2 ++ name.suffix

/-- The kind of a scalar with a tag, if it has one. -/
def scalarTag (tag : Option Text) (plain : Bool) (t : Text) : Tag :=
  match tag with
  | none => if plain then plainTag t else .text
  | some whole => if whole = nonSpecific then plainTag t else tagOf whole

/-- The kind of a collection with a tag, if it has one. -/
def collectionTag (usual : Tag) (tag : Option Text) : Tag :=
  match tag with
  | none => usual
  | some whole => if whole = nonSpecific then usual else tagOf whole

/-! ## Documents

Every function takes a count of steps, which the tokens bound, and those that
read nodes call one another: a node holds nodes in a block, in brackets, or
in a sequence that is not indented. -/

/-- **What is left of the tokens**, with the nodes that have been given a
name. -/
structure NodeReader where
  /-- The tokens that are left. -/
  tokens : List Token
  /-- The nodes with names. -/
  named : List (Text × Node)
  /-- The handles of tags. -/
  handles : List (Text × Text)

namespace NodeReader

/-- The next token. -/
def peek (r : NodeReader) : Option Token := r.tokens.head?

/-- The reader after the next token. -/
def next (r : NodeReader) : NodeReader := { r with tokens := r.tokens.drop 1 }

/-- Whether the next token is one of these. -/
def sees (r : NodeReader) (ts : List Token) : Bool :=
  match r.peek with
  | some t => t ∈ ts
  | none => false

/-- The reader with a node given a name. A name is given once. -/
def name (r : NodeReader) (anchor : Option Text) (n : Node) : Option NodeReader :=
  match anchor with
  | none => some r
  | some a =>
    if r.named.any fun e => e.1 = a then none else some { r with named := (a, n) :: r.named }

/-- The name and the tag before a node, in either order. -/
def properties (r : NodeReader) : Option Text × Option TagName × NodeReader :=
  match r.tokens with
  | .anchor a :: .tag t :: rest => (some a, some t, { r with tokens := rest })
  | .tag t :: .anchor a :: rest => (some a, some t, { r with tokens := rest })
  | .anchor a :: rest => (some a, none, { r with tokens := rest })
  | .tag t :: rest => (none, some t, { r with tokens := rest })
  | _ => (none, none, r)

mutual

/-- **A node.** `block` tells whether it may be a collection by indentation,
and `indentless` whether it may be a sequence whose entries are not further
to the right than the mapping it belongs to. -/
def readNode (block indentless : Bool) : Nat → NodeReader → Option (Node × NodeReader)
  | 0, _ => none
  | fuel + 1, r =>
    match r.tokens with
    | .alias a :: rest =>
      (r.named.find? fun e => e.1 = a).map fun e => (e.2, { r with tokens := rest })
    | _ => do
      let (anchor, written, r) := r.properties
      let tag ← match written with
        | none => some none
        | some name => (wholeTag r.handles name).map some
      let (n, r) ← match r.tokens with
        | .scalar plain t :: rest =>
          some (Node.scalar (scalarTag tag plain t) t, { r with tokens := rest })
        | .flowSequenceStart :: rest => do
          let (items, r) ← readFlowItems true fuel { r with tokens := rest }
          some (Node.sequence (collectionTag .sequence tag) items, r)
        | .flowMappingStart :: rest => do
          let (pairs, r) ← readFlowPairs true fuel { r with tokens := rest }
          some (Node.mapping (collectionTag .mapping tag) pairs, r)
        | first :: rest =>
          if first = .blockEntry && indentless then do
            let (items, r) ← readIndentless fuel r
            some (Node.sequence (collectionTag .sequence tag) items, r)
          else if first = .blockSequenceStart && block then do
            let (items, r) ← readBlockItems fuel { r with tokens := rest }
            some (Node.sequence (collectionTag .sequence tag) items, r)
          else if first = .blockMappingStart && block then do
            let (pairs, r) ← readBlockPairs fuel { r with tokens := rest }
            some (Node.mapping (collectionTag .mapping tag) pairs, r)
          else if anchor.isSome || written.isSome then
            some (Node.scalar (scalarTag tag true []) [], r)
          else none
        | [] => none
      let r ← r.name anchor n
      some (n, r)

/-- A node, or the one that is left out where one of these tokens follows. -/
def readNodeUnless (ends : List Token) (block indentless : Bool) :
    Nat → NodeReader → Option (Node × NodeReader)
  | 0, _ => none
  | fuel + 1, r =>
    if r.sees ends then some (.missing, r) else readNode block indentless fuel r

/-- The entries of a sequence by indentation, up to its end. -/
def readBlockItems : Nat → NodeReader → Option (List Node × NodeReader)
  | 0, _ => none
  | fuel + 1, r =>
    match r.peek with
    | some .blockEntry => do
      let (n, r) ← readNodeUnless [.blockEntry, .blockEnd] true false fuel r.next
      let (more, r) ← readBlockItems fuel r
      some (n :: more, r)
    | some .blockEnd => some ([], r.next)
    | _ => none

/-- The entries of a sequence that ends with the mapping it belongs to. -/
def readIndentless : Nat → NodeReader → Option (List Node × NodeReader)
  | 0, _ => none
  | fuel + 1, r =>
    match r.peek with
    | some .blockEntry => do
      let (n, r) ← readNodeUnless [.blockEntry, .key, .value, .blockEnd] true false fuel r.next
      let (more, r) ← readIndentless fuel r
      some (n :: more, r)
    | _ => some ([], r)

/-- The pairs of a mapping by indentation, up to its end. -/
def readBlockPairs : Nat → NodeReader → Option (List (Node × Node) × NodeReader)
  | 0, _ => none
  | fuel + 1, r =>
    match r.peek with
    | some .key => do
      let (k, r) ← readNodeUnless [.key, .value, .blockEnd] true true fuel r.next
      let (v, r) ←
        if r.sees [.value] then readNodeUnless [.key, .value, .blockEnd] true true fuel r.next
        else some (.missing, r)
      let (more, r) ← readBlockPairs fuel r
      some ((k, v) :: more, r)
    | some .blockEnd => some ([], r.next)
    | _ => none

/-- The items of a sequence in brackets. A pair among them is a mapping of
its own. -/
def readFlowItems (first : Bool) : Nat → NodeReader → Option (List Node × NodeReader)
  | 0, _ => none
  | fuel + 1, r =>
    if r.sees [.flowSequenceEnd] then some ([], r.next)
    else do
      let r ← if first then some r else if r.sees [.flowEntry] then some r.next else none
      if r.sees [.flowSequenceEnd] then some ([], r.next)
      else if r.sees [.key] then
        let (k, r) ← readNodeUnless [.value, .flowEntry, .flowSequenceEnd] false false fuel r.next
        let (v, r) ←
          if r.sees [.value] then
            readNodeUnless [.flowEntry, .flowSequenceEnd] false false fuel r.next
          else some (.missing, r)
        let (more, r) ← readFlowItems false fuel r
        some (.mapping .mapping [(k, v)] :: more, r)
      else
        let (n, r) ← readNode false false fuel r
        let (more, r) ← readFlowItems false fuel r
        some (n :: more, r)

/-- The pairs of a mapping in braces. -/
def readFlowPairs (first : Bool) : Nat → NodeReader → Option (List (Node × Node) × NodeReader)
  | 0, _ => none
  | fuel + 1, r =>
    if r.sees [.flowMappingEnd] then some ([], r.next)
    else do
      let r ← if first then some r else if r.sees [.flowEntry] then some r.next else none
      if r.sees [.flowMappingEnd] then some ([], r.next)
      else if r.sees [.key] then
        let (k, r) ← readNodeUnless [.value, .flowEntry, .flowMappingEnd] false false fuel r.next
        let (v, r) ←
          if r.sees [.value] then
            readNodeUnless [.flowEntry, .flowMappingEnd] false false fuel r.next
          else some (.missing, r)
        let (more, r) ← readFlowPairs false fuel r
        some ((k, v) :: more, r)
      else
        let (k, r) ← readNode false false fuel r
        let (more, r) ← readFlowPairs false fuel r
        some ((k, .missing) :: more, r)

end

/-- The directives before a document. A version is given once and is the
first, and a handle is given once. -/
def readDirectives (version : Bool) : List (Text × Text) → List Token → Option NodeReader
  | handles, .version major :: rest =>
    if version || major ≠ 1 then none else readDirectives true handles rest
  | handles, .tagDirective handle beginning :: rest =>
    if handles.any fun e => e.1 = handle then none
    else readDirectives version ((handle, beginning) :: handles) rest
  | handles, .otherDirective :: rest => readDirectives version handles rest
  | handles, rest => some ⟨rest, [], handles ++ usualHandles⟩

/-- Whether a token is a directive. -/
def isDirective : Token → Bool
  | .version _ | .tagDirective _ _ | .otherDirective => true
  | _ => false

/-- The tokens after the marks of documents' ends. -/
def dropEnds (ts : List Token) : List Token := ts.dropWhile (· = .documentEnd)

/-- The node of a document's contents. -/
def readContents (r : NodeReader) : Option (Node × NodeReader) :=
  match r.peek with
  | some t =>
    if isDirective t || t ∈ [.documentStart, .documentEnd, .streamEnd] then some (.missing, r)
    else readNode true false (4 * r.tokens.length + 4) r
  | none => none

/-- The first document, if there is one, and the tokens after it. -/
def readDocument (ts : List Token) : Option (Option Node × List Token) :=
  match ts with
  | [.streamEnd] => some (none, ts)
  | first :: _ =>
    if isDirective first || first = .documentStart then do
      let r ← readDirectives false [] ts
      if r.sees [.documentStart] then
        let (n, r) ← readContents r.next
        some (some n, r.tokens)
      else none
    else do
      let (n, r) ← readNode true false (4 * ts.length + 4) ⟨ts, [], usualHandles⟩
      some (some n, r.tokens)
  | [] => none

end NodeReader

/-- **The node of a text**: none if it is malformed, and no node if it holds
no document. -/
def node? (t : Text) : Option (Option Node) := do
  let ts ← tokens? t
  let (n, rest) ← NodeReader.readDocument ts
  if NodeReader.dropEnds rest = [.streamEnd] then some n else none

end EditBlocks.Yaml
