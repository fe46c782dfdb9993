import EditBlocks.Block.Marker
import EditBlocks.Edit
import Mathlib.Data.List.DropRight

/-!
# The grammar of a response

What a response is made of, as trees whose leaves are its lines. Prose and
envelopes follow each other; an envelope stands between an opening tag and a
closing tag, and holds noise and blocks; a block is a body and a replace
marker. At the end there may be a tail (`Block.Tail`), an envelope that is
cut short, in which the last block may have a body and no replace marker.

Every tree has its lines and its edits. No two trees have the same lines
(`Block.Document.lines_injective`), so lines can be read in one way at most.
The reason is that every piece of a document but the tail shows where it ends
(`SelfDelimiting`): a line of text, of noise or of prose is a piece by
itself, a block ends with its replace marker and an envelope with its closing
tag, and what follows a run of pieces never begins like one of them
(`NotAhead`).
-/

namespace EditBlocks

/-! ## Noise is no marker

A marker begins with one of three characters, and noise does not. -/

namespace Marker

theorem exists_first_of_ofLine? {line : Text} {m : Marker} (h : ofLine? line = some m) :
    ∃ c rest, line.trimEnd = c :: rest ∧ (c = '<' ∨ c = '=' ∨ c = '>') := by
  rw [ofLine?] at h
  split_ifs at h with hsearch hdivider hreplace hclosing hopening
  · exact ⟨'<', _, hsearch, Or.inl rfl⟩
  · exact ⟨'=', _, hdivider, Or.inr (Or.inl rfl)⟩
  · exact ⟨'>', _, hreplace, Or.inr (Or.inr rfl)⟩
  · exact ⟨'<', _, hclosing, Or.inl rfl⟩
  · rw [isOpening] at hopening
    cases hdrop : Text.dropStart? openingStart line.trimEnd with
    | none => simp [hdrop] at hopening
    | some after => exact ⟨'<', _, Text.eq_append_of_dropStart? hdrop, Or.inl rfl⟩

/-- A marker starts its line, so it is trimmed at its end only. -/
theorem trim_of_ofLine? {line : Text} {m : Marker} (h : ofLine? line = some m) :
    line.trim = line.trimEnd := by
  obtain ⟨c, rest, htrim, hc⟩ := exists_first_of_ofLine? h
  have hblank : isBlankChar c = false := by rcases hc with rfl | rfl | rfl <;> decide
  rw [Text.trim, htrim, List.dropWhile_cons_of_neg (by simp [hblank])]

/-- **A line of noise holds no marker.** -/
theorem ofLine?_of_isNoise {line : Text} (h : isNoise line = true) : ofLine? line = none := by
  cases hm : ofLine? line with
  | none => rfl
  | some m =>
    obtain ⟨c, rest, htrim, hc⟩ := exists_first_of_ofLine? hm
    -- none of the three begins a fence
    have hfirst : ('\x60' == c) = false := by rcases hc with rfl | rfl | rfl <;> decide
    rw [isNoise, Bool.or_eq_true] at h
    rcases h with hblank | hfence
    · rw [← Text.trimEnd_eq_nil_iff, htrim] at hblank
      cases hblank
    · rw [isFence, trim_of_ofLine? hm, htrim] at hfence
      exact absurd hfence (by simp [Text.startsWith, fence, List.isPrefixOf, hfirst])

end Marker

namespace Block

/-! ## Lines

Each kind of line is a subtype, so a tree cannot hold a line in a place where
it could not stand. -/

/-- A line that holds a given marker. -/
abbrev MarkerLine (m : Marker) : Type := {line : Text // Marker.ofLine? line = some m}

/-- A line that holds no marker: the only kind that the text of a block is
made of. -/
abbrev TextLine : Type := {line : Text // Marker.ofLine? line = none}

/-- A blank line or a code fence. -/
abbrev NoiseLine : Type := {line : Text // Marker.isNoise line = true}

/-- A line that may stand outside envelopes: any but an opening tag. -/
abbrev ProseLine : Type := {line : Text // Marker.ofLine? line ≠ some .opening}

/-- An opening tag that names a path. -/
abbrev OpeningLine : Type :=
  {line : Text // Marker.ofLine? line = some .opening ∧ (Marker.path? line).isSome}

/-- A line of noise is no marker line. -/
theorem NoiseLine.ne_marker (line : NoiseLine) {m : Marker} (other : MarkerLine m) :
    line.1 ≠ other.1 := by
  intro h
  have hnone := Marker.ofLine?_of_isNoise line.2
  rw [h, other.2] at hnone
  cases hnone

/-- Lines that hold different markers are different. -/
theorem MarkerLine.ne {m m' : Marker} (line : MarkerLine m) (other : MarkerLine m')
    (hm : m ≠ m') : line.1 ≠ other.1 := by
  intro h
  have hsome := line.2
  rw [h, other.2] at hsome
  exact hm (Option.some.inj hsome).symm

/-- The path that an opening tag names. -/
def OpeningLine.path (line : OpeningLine) : Text := (Marker.path? line.1).get line.2.2

/-! ## Trees

The leaves are lines with their boundaries, and the trees have no other data.
A document is determined by its lines, and so are its edits. -/

/-- **The body of a block**: what there is of it before its replace marker. -/
structure Body where
  /-- The search marker. -/
  search : MarkerLine .search
  /-- The lines of the text to find. -/
  sought : List TextLine
  /-- The divider. -/
  divider : MarkerLine .divider
  /-- The lines of the text to put there. -/
  put : List TextLine

/-- **What an envelope may hold**: noise or a block. -/
inductive Item
  /-- A blank line or a code fence. -/
  | noise (line : NoiseLine)
  /-- A block, with its replace marker. -/
  | block (body : Body) (replace : MarkerLine .replace)

/-- **What a document is made of**: prose or an envelope. -/
inductive Part
  /-- A line of prose. -/
  | prose (line : ProseLine)
  /-- An envelope, between its two tags. -/
  | envelope (opening : OpeningLine) (items : List Item) (closing : MarkerLine .closing)

/-- **An envelope that is cut short**: it has no closing tag, and its last
block may have no replace marker. -/
structure Tail where
  /-- The opening tag. -/
  opening : OpeningLine
  /-- Noise and whole blocks. -/
  items : List Item
  /-- The body of the block at which the envelope breaks off. -/
  unfinished : Option Body

/-- **A document**: prose and envelopes, and an envelope that is cut short at
the end, if there is one. -/
structure Document where
  /-- Prose and whole envelopes. -/
  parts : List Part
  /-- The envelope that is cut short. -/
  tail : Option Tail

/-! ## The lines of a tree, and its edits

Lines are put together from those of the parts, and so are edits, in the same
order. -/

/-- The lines of a body. -/
def Body.lines (b : Body) : List Text :=
  b.search.1 :: (b.sought.map Subtype.val ++ b.divider.1 :: b.put.map Subtype.val)

/-- **The edit of a whole block**: all the lines of its two texts. -/
def Body.edit (path : Text) (b : Body) : Edit :=
  ⟨path, (b.sought.map Subtype.val).flatten, (b.put.map Subtype.val).flatten⟩

/-- **The edit of a block that is cut short**: the text to put there is
without the code fences it ends with. -/
def Body.editCutShort (path : Text) (b : Body) : Edit :=
  ⟨path, (b.sought.map Subtype.val).flatten,
    ((b.put.map Subtype.val).rdropWhile Marker.isFence).flatten⟩

/-- The lines of what stands in an envelope. -/
def Item.lines : Item → List Text
  | noise line => [line.1]
  | block body replace => body.lines ++ [replace.1]

/-- The edits of what stands in the envelope of a path. -/
def Item.edits (path : Text) : Item → List Edit
  | noise _ => []
  | block body _ => [body.edit path]

/-- The lines of prose or an envelope. -/
def Part.lines : Part → List Text
  | prose line => [line.1]
  | envelope opening items closing => opening.1 :: (items.flatMap Item.lines ++ [closing.1])

/-- The edits of prose, which has none, or of an envelope. -/
def Part.edits : Part → List Edit
  | prose _ => []
  | envelope opening items _ => items.flatMap (Item.edits opening.path)

/-- The lines of an envelope that is cut short. -/
def Tail.lines (t : Tail) : List Text :=
  t.opening.1 :: (t.items.flatMap Item.lines ++ t.unfinished.elim [] Body.lines)

/-- The edits of an envelope that is cut short, that of the unfinished block
included. -/
def Tail.edits (t : Tail) : List Edit :=
  t.items.flatMap (Item.edits t.opening.path)
    ++ (t.unfinished.map (Body.editCutShort t.opening.path)).toList

/-- **The lines of a document.** -/
def Document.lines (d : Document) : List Text :=
  d.parts.flatMap Part.lines ++ d.tail.elim [] Tail.lines

/-- **The edits of a document**, block by block and in order. -/
def Document.edits (d : Document) : List Edit :=
  d.parts.flatMap Part.edits ++ d.tail.elim [] Tail.edits

end Block

/-! ## Pieces that show where they end

Two pieces with the same lines and more lines after them are equal, and so is
what comes after. Runs of such pieces are again self-delimiting, once what
follows the run cannot begin with another piece. -/

section Pieces

variable {α β : Type} {f : α → List β}

/-- **Pieces that show where they end**: of which piece something is the
beginning, and what is left of it, does not depend on what is left. -/
def SelfDelimiting (f : α → List β) : Prop :=
  ∀ a b r s, f a ++ r = f b ++ s → a = b ∧ r = s

/-- What is left begins with no piece. -/
def NotAhead (f : α → List β) (r : List β) : Prop := ∀ a s, f a ++ s ≠ r

/-- **Runs of pieces show where they end** when what is left begins with no
piece. -/
theorem SelfDelimiting.flatMap_inj (hf : SelfDelimiting f) {as bs : List α} {r s : List β}
    (hr : NotAhead f r) (hs : NotAhead f s) (h : as.flatMap f ++ r = bs.flatMap f ++ s) :
    as = bs ∧ r = s := by
  induction as generalizing bs with
  | nil =>
    cases bs with
    | nil => exact ⟨rfl, h⟩
    | cons b bs =>
      rw [List.flatMap_cons, List.append_assoc] at h
      exact absurd h.symm (hr b _)
  | cons a as ih =>
    rw [List.flatMap_cons, List.append_assoc] at h
    cases bs with
    | nil => exact absurd h (hs a _)
    | cons b bs =>
      rw [List.flatMap_cons, List.append_assoc] at h
      obtain ⟨rfl, hrest⟩ := hf a b _ _ h
      obtain ⟨rfl, hleft⟩ := ih hrest
      exact ⟨rfl, hleft⟩

theorem SelfDelimiting.subtype {p : β → Prop} :
    SelfDelimiting fun line : {line : β // p line} => [line.1] := by
  intro a b r s h
  obtain ⟨hline, hrest⟩ := List.cons.inj h
  exact ⟨Subtype.ext hline, hrest⟩

end Pieces

namespace Block

/-- Lines of text, and what is left after them when it begins with a marker
or is nothing, can be told apart. -/
theorem texts_inj {ts us : List TextLine} {r s : List Text}
    (hr : ∀ line ∈ r.head?, Marker.ofLine? line ≠ none)
    (hs : ∀ line ∈ s.head?, Marker.ofLine? line ≠ none)
    (h : ts.map Subtype.val ++ r = us.map Subtype.val ++ s) : ts = us ∧ r = s := by
  have hahead : ∀ r : List Text, (∀ line ∈ r.head?, Marker.ofLine? line ≠ none)
      → NotAhead (fun line : TextLine => [line.1]) r := by
    rintro _ hr line s rfl
    exact hr line.1 rfl line.2
  rw [List.map_eq_flatMap, List.map_eq_flatMap] at h
  exact SelfDelimiting.subtype.flatMap_inj (hahead r hr) (hahead s hs) h

theorem head?_ne_none {m : Marker} (line : MarkerLine m) (rest : List Text) :
    ∀ l ∈ (line.1 :: rest).head?, Marker.ofLine? l ≠ none := by
  rintro _ ⟨⟩
  simp [line.2]

/-- **Bodies can be told apart** from what is left after them. -/
theorem Body.lines_inj {a b : Body} {r s : List Text}
    (hr : ∀ line ∈ r.head?, Marker.ofLine? line ≠ none)
    (hs : ∀ line ∈ s.head?, Marker.ofLine? line ≠ none)
    (h : a.lines ++ r = b.lines ++ s) : a = b ∧ r = s := by
  obtain ⟨search, sought, divider, put⟩ := a
  obtain ⟨search', sought', divider', put'⟩ := b
  simp only [lines, List.cons_append, List.append_assoc] at h
  obtain ⟨hsearch, htexts⟩ := List.cons.inj h
  -- the divider is a marker, so it ends the text to find
  obtain ⟨rfl, hrest⟩ := texts_inj (head?_ne_none _ _) (head?_ne_none _ _) htexts
  obtain ⟨hdivider, hput⟩ := List.cons.inj hrest
  obtain ⟨rfl, hleft⟩ := texts_inj hr hs hput
  obtain rfl := Subtype.ext hsearch
  obtain rfl := Subtype.ext hdivider
  exact ⟨rfl, hleft⟩

/-- **What stands in an envelope shows where it ends.** -/
theorem Item.selfDelimiting : SelfDelimiting Item.lines := by
  intro a b r s h
  cases a with
  | noise line =>
    cases b with
    | noise line' =>
      obtain ⟨rfl, hrest⟩ := SelfDelimiting.subtype line line' r s h
      exact ⟨rfl, hrest⟩
    | block body replace =>
      exact absurd (List.cons.inj h).1 (NoiseLine.ne_marker line body.search)
  | block body replace =>
    cases b with
    | noise line =>
      exact absurd (List.cons.inj h).1.symm (NoiseLine.ne_marker line body.search)
    | block body' replace' =>
      simp only [lines, List.append_assoc, List.singleton_append] at h
      obtain ⟨rfl, hend⟩ := Body.lines_inj (head?_ne_none _ _) (head?_ne_none _ _) h
      obtain ⟨hreplace, hrest⟩ := List.cons.inj hend
      obtain rfl := Subtype.ext hreplace
      exact ⟨rfl, hrest⟩

/-- A closing tag begins nothing that may stand in an envelope. -/
theorem notAhead_closing (closing : MarkerLine .closing) (rest : List Text) :
    NotAhead Item.lines (closing.1 :: rest) := by
  intro item s h
  cases item with
  | noise line => exact NoiseLine.ne_marker line closing (List.cons.inj h).1
  | block body replace =>
    exact MarkerLine.ne body.search closing (by decide) (List.cons.inj h).1

/-- A body without a replace marker begins nothing that may stand in an
envelope, and neither does the end. -/
theorem notAhead_unfinished (unfinished : Option Body) :
    NotAhead Item.lines (unfinished.elim [] Body.lines) := by
  intro item s h
  cases unfinished with
  | none => cases item <;> cases h
  | some body =>
    cases item with
    | noise line => exact NoiseLine.ne_marker line body.search (List.cons.inj h).1
    | block body' replace =>
      simp only [Item.lines, List.append_assoc, List.singleton_append, Option.elim_some] at h
      rw [← List.append_nil body.lines] at h
      -- the body would have a replace marker left over
      obtain ⟨-, hnil⟩ := Body.lines_inj (head?_ne_none _ _) (by simp) h
      cases hnil

/-- **Prose and envelopes show where they end.** -/
theorem Part.selfDelimiting : SelfDelimiting Part.lines := by
  intro a b r s h
  cases a with
  | prose line =>
    cases b with
    | prose line' =>
      obtain ⟨rfl, hrest⟩ := SelfDelimiting.subtype line line' r s h
      exact ⟨rfl, hrest⟩
    | envelope opening items closing =>
      have hline : line.1 = opening.1 := (List.cons.inj h).1
      exact absurd (hline ▸ opening.2.1) line.2
  | envelope opening items closing =>
    cases b with
    | prose line =>
      have hline : opening.1 = line.1 := (List.cons.inj h).1
      exact absurd (hline ▸ opening.2.1) line.2
    | envelope opening' items' closing' =>
      simp only [lines, List.cons_append, List.append_assoc, List.nil_append] at h
      obtain ⟨hopening, hitems⟩ := List.cons.inj h
      obtain ⟨rfl, hend⟩ := Item.selfDelimiting.flatMap_inj (notAhead_closing _ _)
        (notAhead_closing _ _) hitems
      obtain ⟨hclosing, hrest⟩ := List.cons.inj hend
      obtain rfl := Subtype.ext hopening
      obtain rfl := Subtype.ext hclosing
      exact ⟨rfl, hrest⟩

/-- An unfinished body, or none, is told by its lines. -/
theorem unfinished_inj {a b : Option Body}
    (h : a.elim [] Body.lines = b.elim [] Body.lines) : a = b := by
  cases a with
  | none =>
    cases b with
    | none => rfl
    | some body => cases h
  | some body =>
    cases b with
    | none => cases h
    | some body' =>
      have h : body.lines ++ [] = body'.lines ++ [] := by simpa using h
      obtain ⟨rfl, -⟩ := Body.lines_inj (by simp) (by simp) h
      rfl

/-- An envelope that is cut short is told by its lines. -/
theorem Tail.lines_injective : Function.Injective Tail.lines := by
  rintro ⟨opening, items, unfinished⟩ ⟨opening', items', unfinished'⟩ h
  obtain ⟨hopening, hitems⟩ := List.cons.inj h
  obtain ⟨rfl, hend⟩ := Item.selfDelimiting.flatMap_inj (notAhead_unfinished _)
    (notAhead_unfinished _) hitems
  obtain rfl := unfinished_inj hend
  obtain rfl := Subtype.ext hopening
  rfl

/-- An envelope that is cut short is neither prose nor a whole envelope, and
neither is the end. -/
theorem notAhead_tail (tail : Option Tail) : NotAhead Part.lines (tail.elim [] Tail.lines) := by
  intro part s h
  cases tail with
  | none => cases part <;> cases h
  | some tail =>
    cases part with
    | prose line =>
      have hline : line.1 = tail.opening.1 := (List.cons.inj h).1
      exact absurd (hline ▸ tail.opening.2.1) line.2
    | envelope opening items closing =>
      simp only [Part.lines, Tail.lines, List.cons_append, List.append_assoc, List.nil_append,
        Option.elim_some] at h
      -- the same items, and then a closing tag where there is none
      obtain ⟨-, hclosing⟩ := Item.selfDelimiting.flatMap_inj (notAhead_closing _ _)
        (notAhead_unfinished _) (List.cons.inj h).2
      cases hunfinished : tail.unfinished with
      | none =>
        rw [hunfinished] at hclosing
        cases hclosing
      | some body =>
        rw [hunfinished] at hclosing
        exact MarkerLine.ne closing body.search (by decide) (List.cons.inj hclosing).1

/-- **No two documents have the same lines.** -/
theorem Document.lines_injective : Function.Injective Document.lines := by
  rintro ⟨parts, tail⟩ ⟨parts', tail'⟩ h
  obtain ⟨rfl, hend⟩ := Part.selfDelimiting.flatMap_inj (notAhead_tail _) (notAhead_tail _) h
  have htail : tail = tail' := by
    cases tail with
    | none =>
      cases tail' with
      | none => rfl
      | some t => cases hend
    | some t =>
      cases tail' with
      | none => cases hend
      | some t' => exact congrArg some (Tail.lines_injective hend)
  rw [htail]

end Block

end EditBlocks
