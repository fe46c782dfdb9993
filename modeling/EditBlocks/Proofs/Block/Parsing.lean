import EditBlocks.Proofs.Block.Grammar
import EditBlocks.Proofs.Block.Reading

/-!
# The scanner reads documents

A response can be read exactly when its lines are those of a document, and
the edits are then those of the document (`Block.edits_iff_document`).

That the scanner reads every document is put together from its pieces
(`Body.reads`, `Item.reads`, `Part.reads`, `Tail.reads`). That it reads
nothing else is an induction on the lines from the end: `State.Completes`
says for each state which lines can stand after it, in the words of the
grammar, and a line that the scanner can read before such lines gives such
lines again (`State.Steps.completes_cons`).

Going from the end has the advantage that the trees are complete at every
step. Going from the beginning one would have to speak of trees that are
being built, which is what the states of the scanner are.
-/

namespace EditBlocks.Block

open State

/-! ## Every document is read

Piece by piece, from the leaves up; noise and prose lead back to where they
began. -/

/-- Pieces that leave the state as it is are read one after the other. -/
theorem State.Reads.flatMap {α : Type} {s : State} {lines : α → List Text}
    {edits : α → List Edit} {as : List α} (h : ∀ a ∈ as, Reads s (lines a) (edits a) s) :
    Reads s (as.flatMap lines) (as.flatMap edits) s := by
  induction as with
  | nil => exact .nil s
  | cons a as ih =>
    rw [List.forall_mem_cons] at h
    rw [List.flatMap_cons, List.flatMap_cons]
    exact h.1.append (ih h.2)

/-- **A body is read** up to its last line. -/
theorem Body.reads (path : Text) (b : Body) :
    Reads (awaiting path) b.lines []
      (replace path (b.sought.map Subtype.val).flatten (b.put.map Subtype.val)) := by
  have hplain : ∀ (lines : List TextLine), ∀ line ∈ lines.map Subtype.val,
      Marker.ofLine? line = none := by
    intro lines line hline
    obtain ⟨text, -, rfl⟩ := List.mem_map.1 hline
    exact text.2
  have hsought := reads_search path [] (hplain b.sought)
  have hput := reads_replace path (b.sought.map Subtype.val).flatten [] (hplain b.put)
  rw [List.nil_append] at hsought hput
  exact Reads.skip (Steps.search b.search.2).step_eq
    (hsought.append (Reads.skip (Steps.divider b.divider.2).step_eq hput))

/-- **What stands in an envelope is read** there. -/
theorem Item.reads (path : Text) (i : Item) :
    Reads (awaiting path) i.lines (i.edits path) (awaiting path) := by
  cases i with
  | noise line =>
    exact Reads.skip (Steps.noise (Marker.ofLine?_of_isNoise line.2) line.2).step_eq (.nil _)
  | block body replace =>
    exact (body.reads path).append (Reads.cons (Steps.replace replace.2).step_eq (.nil _))

theorem OpeningLine.steps (line : OpeningLine) :
    Steps line.1 outside (awaiting line.path) none :=
  .opening line.2.1 (Option.some_get line.2.2).symm

/-- **Prose and envelopes are read** outside envelopes. -/
theorem Part.reads (p : Part) : Reads outside p.lines p.edits outside := by
  cases p with
  | prose line => exact reads_outside (by simpa [lines] using line.2)
  | envelope opening items closing =>
    have hitems := Reads.flatMap fun i (_ : i ∈ items) => i.reads opening.path
    have hread := hitems.append (Reads.skip (Steps.closing closing.2).step_eq (.nil _))
    rw [List.append_nil] at hread
    exact Reads.skip opening.steps.step_eq hread

/-- **An envelope that is cut short is read** to the end. -/
theorem Tail.reads (t : Tail) (count : Nat) :
    ∃ es last unfinished, Reads outside t.lines es last
      ∧ last.finish count = .ok unfinished ∧ es ++ unfinished.toList = t.edits := by
  obtain ⟨opening, items, unfinished⟩ := t
  have hitems := Reads.flatMap fun i (_ : i ∈ items) => i.reads opening.path
  cases unfinished with
  | none =>
    have hlines : (Tail.mk opening items none).lines
        = opening.1 :: items.flatMap Item.lines := by simp [lines]
    rw [hlines]
    exact ⟨_, _, none, Reads.skip opening.steps.step_eq hitems, rfl, rfl⟩
  | some body =>
    have hread := hitems.append (body.reads opening.path)
    rw [List.append_nil] at hread
    exact ⟨_, _, some (body.editCutShort opening.path),
      Reads.skip opening.steps.step_eq hread, rfl, rfl⟩

/-- **A document is read**, with its edits. -/
theorem Document.reads (d : Document) (count : Nat) :
    ∃ es last unfinished, Reads outside d.lines es last
      ∧ last.finish count = .ok unfinished ∧ es ++ unfinished.toList = d.edits := by
  obtain ⟨parts, tail⟩ := d
  have hparts := Reads.flatMap fun p (_ : p ∈ parts) => p.reads
  cases tail with
  | none => exact ⟨_, _, none, hparts.append (.nil _), rfl, by simp [edits]⟩
  | some t =>
    obtain ⟨es, last, unfinished, hread, hfinish, hedits⟩ := t.reads count
    refine ⟨_, last, unfinished, hparts.append hread, hfinish, ?_⟩
    rw [List.append_assoc, hedits]
    rfl

/-! ## Nothing else is read

The trees for lines that begin inside a piece are those of the grammar with
the beginning left out. -/

/-- **Lines that can stand inside an envelope**: noise and blocks, and then
either the end, after an unfinished block if there is one, or a closing tag
and the rest of the document. -/
inductive Inside : List Text → Prop
  /-- The envelope is cut short. -/
  | cutShort (items : List Item) (unfinished : Option Body) :
      Inside (items.flatMap Item.lines ++ unfinished.elim [] Body.lines)
  /-- The envelope is closed. -/
  | closed (items : List Item) (closing : MarkerLine .closing) (d : Document) :
      Inside (items.flatMap Item.lines ++ closing.1 :: d.lines)

/-- **Lines that can stand inside the text to put there**: its other lines,
and then either the end or a replace marker and the rest of the envelope. -/
inductive InsidePut : List Text → Prop
  /-- The block is cut short. -/
  | cutShort (put : List TextLine) : InsidePut (put.map Subtype.val)
  /-- The block is whole. -/
  | whole (put : List TextLine) (replace : MarkerLine .replace) {rest : List Text}
      (after : Inside rest) : InsidePut (put.map Subtype.val ++ replace.1 :: rest)

/-- **Lines that can stand inside the text to find**: its other lines, the
divider and the rest of the block. -/
inductive InsideSought : List Text → Prop
  /-- There must be a divider. -/
  | divided (sought : List TextLine) (divider : MarkerLine .divider) {rest : List Text}
      (after : InsidePut rest) : InsideSought (sought.map Subtype.val ++ divider.1 :: rest)

/-- **Lines that can stand after a state**, in the words of the grammar. -/
def State.Completes : State → List Text → Prop
  | outside, ls => ∃ d : Document, d.lines = ls
  | awaiting _, ls => Inside ls
  | search _ _, ls => InsideSought ls
  | replace _ _ _, ls => InsidePut ls

theorem Document.exists_cons (part : Part) (d : Document) :
    ∃ d' : Document, d'.lines = part.lines ++ d.lines :=
  ⟨⟨part :: d.parts, d.tail⟩, by simp [lines]⟩

/-- **An opening tag leads into the envelope**: before lines that can stand
there it gives a document. -/
theorem Inside.document (opening : OpeningLine) {ls : List Text} (h : Inside ls) :
    ∃ d : Document, d.lines = opening.1 :: ls := by
  cases h with
  | cutShort items unfinished => exact ⟨⟨[], some ⟨opening, items, unfinished⟩⟩, rfl⟩
  | closed items closing d =>
    obtain ⟨d', hd'⟩ := Document.exists_cons (.envelope opening items closing) d
    refine ⟨d', hd'.trans ?_⟩
    simp only [Part.lines, List.cons_append, List.append_assoc, List.nil_append]

/-- One more piece at the beginning of what stands inside an envelope. -/
theorem Inside.cons (item : Item) {ls : List Text} (h : Inside ls) :
    Inside (item.lines ++ ls) := by
  cases h with
  | cutShort items unfinished =>
    rw [← List.append_assoc, ← List.flatMap_cons]
    exact .cutShort (item :: items) unfinished
  | closed items closing d =>
    rw [← List.append_assoc, ← List.flatMap_cons]
    exact .closed (item :: items) closing d

theorem InsidePut.cons (line : TextLine) {ls : List Text} (h : InsidePut ls) :
    InsidePut (line.1 :: ls) := by
  cases h with
  | cutShort put => exact .cutShort (line :: put)
  | whole put replace after => exact .whole (line :: put) replace after

theorem InsideSought.cons (line : TextLine) {ls : List Text} (h : InsideSought ls) :
    InsideSought (line.1 :: ls) := by
  cases h with
  | divided sought divider after => exact .divided (line :: sought) divider after

/-- **A search marker leads into a block**: before lines that can stand in
its text to find it gives lines that can stand inside an envelope. -/
theorem InsideSought.inside (search : MarkerLine .search) {ls : List Text}
    (h : InsideSought ls) : Inside (search.1 :: ls) := by
  cases h with
  | divided sought divider after =>
    cases after with
    | cutShort put => exact .cutShort [] (some ⟨search, sought, divider, put⟩)
    | whole put replace after =>
      have hblock := after.cons (.block ⟨search, sought, divider, put⟩ replace)
      simpa only [Item.lines, Body.lines, List.cons_append, List.append_assoc,
        List.nil_append] using hblock

/-- **What one line preserves**: a line that can be read, before lines that
can stand after the next state, gives lines that can stand after the state. -/
theorem State.Steps.completes_cons {s mid : State} {line : Text} {found : Option Edit}
    {ls : List Text} (h : Steps line s mid found) (hmid : mid.Completes ls) :
    s.Completes (line :: ls) := by
  cases h with
  | prose h =>
    obtain ⟨d, rfl⟩ := hmid
    exact d.exists_cons (.prose ⟨line, h⟩)
  | opening h hpath => exact Inside.document ⟨line, h, by simp [hpath]⟩ hmid
  | noise h hnoise => exact Inside.cons (.noise ⟨line, hnoise⟩) hmid
  | search h => exact InsideSought.inside ⟨line, h⟩ hmid
  | closing h =>
    obtain ⟨d, rfl⟩ := hmid
    exact Inside.closed [] ⟨line, h⟩ d
  | sought h => exact InsideSought.cons ⟨line, h⟩ hmid
  | divider h => exact InsideSought.divided [] ⟨line, h⟩ hmid
  | put h => exact InsidePut.cons ⟨line, h⟩ hmid
  | replace h => exact InsidePut.whole [] ⟨line, h⟩ hmid

/-- A state in which a response may end is completed by no lines. -/
theorem State.completes_nil {s : State} {count : Nat} {found : Option Edit}
    (h : s.finish count = .ok found) : s.Completes [] := by
  cases s with
  | outside => exact ⟨⟨[], none⟩, rfl⟩
  | awaiting path => exact .cutShort [] none
  | search path lines => cases h
  | replace path sought lines => exact .cutShort []

/-- **Lines that the scanner reads**, to a state in which a response may end,
complete the state that they are read from. -/
theorem State.Reads.completes {s last : State} {ls : List Text} {es : List Edit} {count : Nat}
    {found : Option Edit} (h : Reads s ls es last) (hlast : last.finish count = .ok found) :
    s.Completes ls := by
  induction h with
  | nil s => exact completes_nil hlast
  | cons first others ih => exact (steps_of_step_eq (first 0)).completes_cons (ih hlast)

/-! ## The scanner and the grammar

Both directions come down to runs of lines, as the grammar knows no texts. -/

/-- The edits of a response whose lines are those of a document. -/
theorem Document.edits_eq {d : Document} {response : Text} (h : d.lines = response.lines) :
    Block.edits response = .ok d.edits := by
  obtain ⟨es, last, unfinished, hread, hfinish, hedits⟩ := d.reads response.lines.length
  rw [h] at hread
  exact edits_eq_ok_iff.2 ⟨es, last, unfinished, hread, hfinish, hedits⟩

/-- **The scanner accepts exactly the grammar, and reads a response as the
grammar says**: the edits of a response are those of the document with its
lines, of which there is one at most. -/
theorem edits_iff_document :
    (∀ (response : Text) (found : List Edit),
      Block.edits response = .ok found
        ↔ ∃ d : Document, d.lines = response.lines ∧ d.edits = found)
      ∧ Function.Injective Document.lines := by
  refine ⟨fun response found => ⟨fun h => ?_, ?_⟩, Document.lines_injective⟩
  · obtain ⟨es, last, unfinished, hread, hfinish, -⟩ := edits_eq_ok_iff.1 h
    obtain ⟨d, hlines⟩ : ∃ d : Document, d.lines = response.lines := hread.completes hfinish
    rw [d.edits_eq hlines] at h
    exact ⟨d, hlines, Except.ok.inj h⟩
  · rintro ⟨d, hlines, rfl⟩
    exact d.edits_eq hlines

/-- Of a block that is cut short only the code fences at the very end are
lost. -/
example : Block.edits
    "<CodeChange file=\"a\">\n<<<<<<< SEARCH\n=======\n\x60\x60\x60\nb\n\x60\x60\x60\n\x60\x60\x60"
      = .ok [⟨"a", [], "\x60\x60\x60\nb\n"⟩] := by
  decide

end EditBlocks.Block
