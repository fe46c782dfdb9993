import EditBlocks.Prompt
import EditBlocks.Proofs.Block.Envelopes
import EditBlocks.Proofs.Block.Writing

/-!
# The prompt as a response

The prompt teaches the format by an example, and the example is one: read as
a response, the prompt has the example's edit and no other
(`Prompt.edits_render`). Before the example stand words of the instructions,
which are prose, and after its envelope is closed everything is prose that is
no opening tag. So it does not matter which markers, code fences and line
boundaries the files hold, as long as no line of them opens an envelope; and
joining them puts each on lines of its own, so no opening tag can come from a
joint (`Prompt.envelopeCount_join`).

The condition on the files is needed, since a file that shows an envelope of
its own has it read like any other. A response that repeats the prompt is
thus read as what the prompt shows.
-/

namespace EditBlocks.Prompt

open Block

/-- The first of two parts or more, and the separator after it. -/
theorem join_cons_cons (separator t u : Text) (parts : List Text) :
    Text.join separator (t :: u :: parts) = t ++ separator ++ Text.join separator (u :: parts) :=
  rfl

theorem join_append_cons (separator t u : Text) (parts : List Text) :
    Text.join separator ((t ++ u) :: parts) = t ++ Text.join separator (u :: parts) := by
  cases parts with
  | nil => rfl
  | cons v parts => simp only [join_cons_cons, List.append_assoc]

/-! ## The envelopes of the parts

Parts are joined by line feeds, so opening tags are counted part by part. -/

/-- **Parts with blank lines between them** have the envelopes of all of
them. -/
theorem envelopeCount_join (parts : List Text) :
    envelopeCount (Text.join "\n\n" parts) = openings (parts.flatMap Text.lines) := by
  induction parts with
  | nil => rfl
  | cons t parts ih =>
    cases parts with
    | nil => rw [Text.join, envelopeCount_eq, List.flatMap_singleton]
    | cons u parts =>
      have hparts : Text.join "\n\n" (t :: u :: parts)
          = t ++ '\n' :: ([] ++ '\n' :: Text.join "\n\n" (u :: parts)) := by
        rw [join_cons_cons, List.append_assoc]
        rfl
      rw [hparts, envelopeCount_append_lineFeed, envelopeCount_append_lineFeed, ih,
        show envelopeCount [] = 0 from rfl, Nat.zero_add, envelopeCount_eq, ← openings_append]
      rfl

/-- So parts without envelopes add none to the one before them. -/
theorem envelopeCount_join_cons {parts : List Text}
    (h : ∀ part ∈ parts, envelopeCount part = 0) (t : Text) :
    envelopeCount (Text.join "\n\n" (t :: parts)) = envelopeCount t := by
  have hnone : openings (parts.flatMap Text.lines) = 0 := by
    refine openings_eq_zero_iff.2 fun line hline => ?_
    obtain ⟨part, hpart, hmem⟩ := List.mem_flatMap.1 hline
    exact envelopeCount_eq_zero_iff.1 (h part hpart) line hmem
  rw [envelopeCount_join, List.flatMap_cons, openings_append, hnone, Nat.add_zero,
    envelopeCount_eq]

/-- A file has the envelopes of its path and of its contents. -/
theorem envelopeCount_fileSection (path contents : Text) :
    envelopeCount (fileSection path contents) = envelopeCount path + envelopeCount contents := by
  have hfence : envelopeCount Marker.fence = 0 := by decide
  have hparts : fileSection path contents
      = path ++ '\n' :: (Marker.fence ++ '\n' :: (contents ++ '\n' :: Marker.fence)) := by
    simp [fileSection]
  rw [hparts, envelopeCount_append_lineFeed, envelopeCount_append_lineFeed,
    envelopeCount_append_lineFeed, hfence, Nat.zero_add, Nat.add_zero]

/-- What comes after the instructions in a prompt. -/
def appendix (files : List (Text × Text)) (additional : Text) : List Text :=
  files.map (fun file => fileSection file.1 file.2)
    ++ if additional = [] then [] else [additional]

theorem render_eq (files : List (Text × Text)) (additional : Text) :
    render files additional = Text.join "\n\n" (instructions :: appendix files additional) := rfl

/-- **Files and instructions without an opening tag** are parts without an
envelope. -/
theorem envelopeCount_of_mem_appendix {files : List (Text × Text)} {additional part : Text}
    (hfiles : ∀ file ∈ files, envelopeCount file.1 = 0 ∧ envelopeCount file.2 = 0)
    (hadditional : envelopeCount additional = 0) (hpart : part ∈ appendix files additional) :
    envelopeCount part = 0 := by
  rcases List.mem_append.1 hpart with hfile | hmore
  · obtain ⟨file, hmem, rfl⟩ := List.mem_map.1 hfile
    obtain ⟨hpath, hcontents⟩ := hfiles file hmem
    rw [envelopeCount_fileSection, hpath, hcontents, Nat.add_zero]
  · split at hmore
    · cases hmore
    · rwa [List.mem_singleton.1 hmore]

/-! ## The example

The instructions are a text with the example's envelope in it: prose before,
the envelope, prose after. -/

/-- **The edit of the example.** -/
def exampleEdit : Edit where
  path := examplePath
  search := "<exact lines currently in the file>\n"
  replacement := "<lines to put in their place>\n"

theorem writable_exampleEdit : exampleEdit.Writable := by decide +kernel

/-- What the instructions say before the example. -/
def lead : Text :=
  "You are using the 'CodeChange' edit format. Wrap every change to a file in a tag naming " ++
  "the file, and inside it write one or more search/replace blocks:\n\n"

/-- What they say after it, from the blank line on. -/
def remarks : Text :=
  "\nThe search text must match the file exactly, including whitespace and indentation, and " ++
  "only its first occurrence is replaced. Blocks are applied in order, so a later block " ++
  "sees the result of earlier ones. To create a new file, leave the search section empty " ++
  "and put the whole file in the replace section."

/-- **The example is the written form of its edit**, between words of the
instructions. -/
theorem instructions_eq : instructions = lead ++ (exampleEdit.envelope ++ remarks) := by
  decide +kernel

theorem envelopeCount_lead : envelopeCount lead = 0 := by decide +kernel

theorem envelopeCount_remarks : envelopeCount remarks = 0 := by decide +kernel

theorem envelopeCount_exampleEdit : envelopeCount exampleEdit.envelope = 1 := by decide +kernel

/-- The one envelope of the instructions is that of the example. Each of the
three parts ends a line, so they are counted one by one. -/
theorem envelopeCount_instructions : envelopeCount instructions = 1 := by
  have hlead : lead.getLast? = some '\n' := by decide +kernel
  have henvelope : exampleEdit.envelope.getLast? = some '\n' := by decide +kernel
  rw [instructions_eq, envelopeCount_eq, Text.lines_append_of_getLast? hlead, openings_append,
    Text.lines_append_of_getLast? henvelope, openings_append, ← envelopeCount_eq,
    ← envelopeCount_eq, ← envelopeCount_eq, envelopeCount_lead, envelopeCount_exampleEdit,
    envelopeCount_remarks]

/-- **The prompt teaches the format that is read.** Whatever files and
further instructions it is made for, as long as no line of them is an opening
tag: read as a response it gives the edit of the example and nothing else,
and it has one envelope. -/
theorem edits_render {files : List (Text × Text)} {additional : Text}
    (hpaths : ∀ file ∈ files, ∀ line ∈ Text.lines file.1, Marker.ofLine? line ≠ some .opening)
    (hcontents : ∀ file ∈ files, ∀ line ∈ Text.lines file.2, Marker.ofLine? line ≠ some .opening)
    (hadditional : ∀ line ∈ additional.lines, Marker.ofLine? line ≠ some .opening) :
    edits (render files additional) = .ok [exampleEdit]
      ∧ envelopeCount (render files additional) = 1 := by
  have hnone : ∀ part ∈ appendix files additional, envelopeCount part = 0 := fun part hpart =>
    envelopeCount_of_mem_appendix
      (fun file hfile => ⟨envelopeCount_eq_zero_iff.2 (hpaths file hfile),
        envelopeCount_eq_zero_iff.2 (hcontents file hfile)⟩)
      (envelopeCount_eq_zero_iff.2 hadditional) hpart
  constructor
  · have hrest : envelopeCount (Text.join "\n\n" (remarks :: appendix files additional)) = 0 := by
      rw [envelopeCount_join_cons hnone, envelopeCount_remarks]
    have hlead := State.reads_outside (envelopeCount_eq_zero_iff.1 envelopeCount_lead)
    have hread := writable_exampleEdit.reads_envelope
      (State.reads_outside (envelopeCount_eq_zero_iff.1 hrest))
    refine edits_of_reads ?_
    rw [render_eq, instructions_eq, join_append_cons, join_append_cons,
      Text.lines_append_of_getLast? (by decide +kernel)]
    exact hlead.append hread
  · rw [render_eq, envelopeCount_join_cons hnone, envelopeCount_instructions]

/-- Files whose paths and contents hold markers, code fences and carriage
returns at their ends. -/
def marked : List (Text × Text) :=
  [("a\r", "<<<<<<< SEARCH\r\n\x60\x60\x60\r"),
    ("=======", "\n  <CodeChange file=\"b\">\u2028</CodeChange>")]

/-- The prompt for these files. -/
theorem edits_render_marked :
    (∀ file ∈ marked, ∀ line ∈ Text.lines file.1, Marker.ofLine? line ≠ some .opening)
      ∧ (∀ file ∈ marked, ∀ line ∈ Text.lines file.2, Marker.ofLine? line ≠ some .opening)
      ∧ (∀ line ∈ Text.lines ">>>>>>> REPLACE\x0c", Marker.ofLine? line ≠ some .opening)
      ∧ edits (render marked ">>>>>>> REPLACE\x0c") = .ok [exampleEdit]
      ∧ envelopeCount (render marked ">>>>>>> REPLACE\x0c") = 1 := by
  have hpaths : ∀ file ∈ marked, ∀ line ∈ Text.lines file.1,
      Marker.ofLine? line ≠ some .opening := by
    decide
  have hcontents : ∀ file ∈ marked, ∀ line ∈ Text.lines file.2,
      Marker.ofLine? line ≠ some .opening := by
    decide
  have hadditional : ∀ line ∈ Text.lines ">>>>>>> REPLACE\x0c",
      Marker.ofLine? line ≠ some .opening := by
    decide
  exact ⟨hpaths, hcontents, hadditional, edits_render hpaths hcontents hadditional⟩

end EditBlocks.Prompt
