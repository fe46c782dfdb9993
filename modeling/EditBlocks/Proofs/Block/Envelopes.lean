import EditBlocks.Proofs.Block.FirstError

/-!
# Counting envelopes

How many envelopes a response has is told by counting its opening tags, line
by line and without the scanner, on lines from which the boundary has been
taken. The scanner opens an envelope when an opening tag leads it from
outside to between blocks (`State.Enters`). The two numbers agree
(`Block.countsEnvelopes`): a line that can be read is an opening tag exactly
when it is such a line (`State.Steps.enters_iff`), because in an envelope an
opening tag is an error and stops the scanner. Up to where it stops there is
thus no tag that was not entered and no entry without a tag; and of a line it
does not matter here whether its boundary is there
(`Marker.ofLine?_lineContent`).

So the count does not depend on how lines end either, and texts that are put
on lines of their own have the envelopes of each
(`Block.envelopeCount_append_lineFeed`).
-/

namespace EditBlocks

/-- Without its boundary a line holds the same marker. -/
theorem Marker.ofLine?_lineContent {t line : Text} (h : line ∈ t.lines) :
    ofLine? line.lineContent = ofLine? line := by
  obtain ⟨content, ending, rfl, hcontent, hending⟩ := Text.exists_lineEnd_of_mem_lines h
  have hcut : Text.lineContent (content ++ ending) = content := by
    have hnone : ending.takeWhile (fun c => !isLineBreak c) = [] := by
      cases hending with
      | nothing => rfl
      | single hc => simp [hc]
      | pair => rfl
    rw [Text.lineContent, List.takeWhile_append_of_pos (by simpa using hcontent), hnone,
      List.append_nil]
  rw [hcut, ignoresEnd_ofLine? content (Text.isBlank_of_lineEnd hending)]

namespace Block

open State

/-- How many of some lines are opening tags. -/
def openings (ls : List Text) : Nat := ls.countP fun line => Marker.ofLine? line = some .opening

/-- **The envelopes of a response are counted** by its opening tags, with
their boundaries or without. -/
theorem envelopeCount_eq (response : Text) : envelopeCount response = openings response.lines := by
  rw [envelopeCount, List.countP_map]
  refine List.countP_congr fun line hline => ?_
  rw [Function.comp_apply, Marker.ofLine?_lineContent hline]

/-! ## Texts on lines of their own

A line feed between two texts ends the last line of the first, if that is not
ended, and makes a blank line otherwise. Either way no line of the second is
touched. -/

theorem openings_append (ls ms : List Text) : openings (ls ++ ms) = openings ls + openings ms :=
  List.countP_append

/-- No lines are counted exactly when none of them is an opening tag. -/
theorem openings_eq_zero_iff {ls : List Text} :
    openings ls = 0 ↔ ∀ line ∈ ls, Marker.ofLine? line ≠ some .opening := by
  rw [openings, List.countP_eq_zero]
  simp

/-- A line that ends otherwise is an opening tag if it was one. -/
theorem openings_concat_append_of_isBlank (ls : List Text) (line : Text) {ending : Text}
    (h : ending.isBlank = true) : openings (ls ++ [line ++ ending]) = openings (ls ++ [line]) := by
  have hsame : openings [line ++ ending] = openings [line] := by
    simp only [openings, List.countP_singleton, Marker.ignoresEnd_ofLine? line h]
  rw [openings_append, openings_append, hsame]

/-- Ending its last line takes nothing from a text and adds nothing to it. -/
theorem openings_lines_lineFeed (t : Text) :
    openings (Text.lines (t ++ ['\n'])) = openings t.lines := by
  by_cases ht : t.Terminated
  · by_cases hreturn : t.getLast? = some '\r'
    · -- the line feed joins the carriage return before it
      obtain ⟨before, rfl⟩ := List.getLast?_eq_some_iff.1 hreturn
      have hpair := Text.lines_append_line before (u := ['\r', '\n']) rfl (by decide)
      have hreturned := Text.lines_append_line before (u := ['\r']) rfl (by decide)
      rw [List.append_assoc, List.singleton_append, hpair, hreturned]
      have hlast := openings_concat_append_of_isBlank (Text.endedLines before).lines
        (Text.openLine before ++ ['\r']) (show Text.isBlank ['\n'] = true by decide)
      rwa [List.append_assoc] at hlast
    · rw [Text.lines_append ht fun h => absurd h hreturn, openings_append]
      rfl
  · rw [Text.lines_append_of_not_terminated ht (Text.lines_singleton '\n'),
      Text.lines_of_not_terminated ht]
    exact openings_concat_append_of_isBlank _ _ rfl

/-- **Texts with a line feed between them** have the envelopes of the one and
those of the other. -/
theorem envelopeCount_append_lineFeed (t u : Text) :
    envelopeCount (t ++ '\n' :: u) = envelopeCount t + envelopeCount u := by
  have hparts : t ++ '\n' :: u = t ++ ['\n'] ++ u := by simp
  rw [envelopeCount_eq, envelopeCount_eq, envelopeCount_eq, hparts,
    Text.lines_append_of_getLast? List.getLast?_concat, openings_append, openings_lines_lineFeed]

/-- A text without envelopes has no opening tag. -/
theorem envelopeCount_eq_zero_iff {t : Text} :
    envelopeCount t = 0 ↔ ∀ line ∈ t.lines, Marker.ofLine? line ≠ some .opening := by
  rw [envelopeCount_eq, openings_eq_zero_iff]

/-! ## Envelopes as the scanner opens them

Entering an envelope is a property of one line and of the states before and
after it, so the scanner's count is a sum over the lines that were read. -/

/-- **A line that leads into an envelope**, from outside to between blocks.
No other line leads out of prose. -/
def State.Enters (s mid : State) : Prop := s.place = .outside ∧ mid.place = .awaiting

instance (s mid : State) : Decidable (s.Enters mid) :=
  inferInstanceAs (Decidable (s.place = .outside ∧ mid.place = .awaiting))

/-- **How many envelopes the scanner opens** while it reads lines: how many
of them lead into an envelope, up to the end or to the line that it cannot
read. -/
def State.opened (number : Nat) (s : State) : List Text → Nat
  | [] => 0
  | line :: rest =>
    match s.step number line with
    | .error _ => 0
    | .ok (mid, _) => (if s.Enters mid then 1 else 0) + opened (number + 1) mid rest

variable {s mid : State} {line : Text} {ls : List Text}

/-- **A line that can be read is an opening tag exactly when it leads into an
envelope.** -/
theorem State.Steps.enters_iff {found : Option Edit} (h : Steps line s mid found) :
    s.Enters mid ↔ Marker.ofLine? line = some .opening := by
  cases h with
  | opening h hpath => exact iff_of_true ⟨rfl, rfl⟩ h
  | prose h => exact iff_of_false (fun hs => nomatch hs.2) h
  | noise h | search h | closing h | sought h | divider h | put h | replace h =>
    exact iff_of_false (fun hs => nomatch hs.1) (by simp [h])

/-- **Lines that can be read open as many envelopes as there are opening tags
among them**, and what comes after them opens what it opens from where they
lead. -/
theorem State.Reads.opened_append {es : List Edit} (h : Reads s ls es mid) (number : Nat)
    (rest : List Text) :
    s.opened number (ls ++ rest) = openings ls + mid.opened (number + ls.length) rest := by
  induction h generalizing number with
  | nil s => simp [openings]
  | @cons s mid next line ls found edits first others ih =>
    have hone : (if s.Enters mid then 1 else 0) = openings [line] := by
      rw [openings, List.countP_singleton]
      refine ite_congr ?_ (fun _ => rfl) fun _ => rfl
      simp [(steps_of_step_eq (first 0)).enters_iff]
    have hcons : openings (line :: ls) = openings [line] + openings ls :=
      openings_append [line] ls
    have hnumber : number + (line :: ls).length = number + 1 + ls.length := by
      rw [List.length_cons]
      omega
    rw [List.cons_append, opened, first number, hnumber]
    dsimp only
    rw [ih, hone, hcons, ← Nat.add_assoc]

theorem State.opened_of_error {number : Nat} {e : ParseError} (h : s.step number line = .error e)
    (rest : List Text) : s.opened number (line :: rest) = 0 := by
  rw [opened, h]

/-- Nothing is opened by a line that leads into a text to find. -/
theorem State.opened_of_search {path : Text} {found : List Text} {completed : Option Edit}
    (h : Steps line s (search path found) completed) (number : Nat) :
    s.opened number [line] = 0 := by
  rw [opened, h.step_eq number]
  exact if_neg fun hs => nomatch hs.2

/-- A response that can be read opens as many envelopes as it has. -/
theorem envelopeCount_of_ok {response : Text} {found : List Edit}
    (h : edits response = .ok found) :
    envelopeCount response = State.opened 1 .outside response.lines := by
  obtain ⟨es, last, -, hreads, -, -⟩ := edits_eq_ok_iff.1 h
  have hopened := hreads.opened_append 1 []
  rw [List.append_nil] at hopened
  rw [envelopeCount_eq, hopened]
  rfl

/-- One that cannot be read opens as many as there are before the line of its
error. -/
theorem envelopeCount_of_error {response : Text} {e : ParseError}
    (h : (scan response).error = some e) :
    envelopeCount (response.lines.take (e.line - 1)).flatten
      = State.opened 1 .outside response.lines := by
  obtain ⟨before, line, after, mid, hlines, hnumber, hbefore, hstop⟩ := exists_of_error h
  have hnone : mid.opened (1 + before.length) (line :: after) = 0 := by
    obtain herror | ⟨rfl, -, path, found, hstep⟩ := hstop
    · rw [hnumber, Nat.add_comm] at herror
      exact opened_of_error herror after
    · exact opened_of_search hstep _
  have htake : response.lines.take (e.line - 1) = before := by
    rw [hnumber, Nat.add_sub_cancel, hlines, List.take_left]
  rw [envelopeCount_eq, htake, (Text.lines_flatten_of_append hlines).1, hlines,
    hbefore.opened_append, hnone, Nat.add_zero]

/-- **Counting envelopes agrees with the scanner.** A response that can be
read has as many as the scanner opens; of one that cannot, the lines before
that of the error have as many as the scanner has opened by then. And every
line that the scanner reads counts exactly when it leads into an envelope, so
none in a text to find or to put there does. -/
theorem countsEnvelopes (response : Text) :
    (match edits response with
      | .ok _ => envelopeCount response = State.opened 1 .outside response.lines
      | .error e => envelopeCount (response.lines.take (e.line - 1)).flatten
        = State.opened 1 .outside response.lines)
      ∧ ∀ line ∈ response.lines, ∀ (s mid : State) (number : Nat) (found : Option Edit),
        s.step number line = .ok (mid, found) →
          (Marker.ofLine? line.lineContent = some .opening ↔ s.Enters mid) := by
  constructor
  · cases h : edits response with
    | ok found => exact envelopeCount_of_ok h
    | error e =>
      refine envelopeCount_of_error ?_
      unfold edits at h
      dsimp only at h
      cases herror : (scan response).error with
      | none => simp [herror] at h
      | some e' => simpa [herror] using h
  · intro line hline s mid number found hstep
    rw [Marker.ofLine?_lineContent hline, (steps_of_step_eq hstep).enters_iff]

/-- A response with an opening tag in a text to find, where it may not
stand. -/
def nested : Text := "<CodeChange file=\"a\">\u2028<<<<<<< SEARCH\r\n<CodeChange file=\"b\">\x0c"

/-- The scanner has opened one envelope when it stops at the second of its
tags. -/
theorem countsEnvelopes_nested :
    edits nested = .error (.unexpectedSection 3 "<CodeChange file=\"b\">" .search)
      ∧ envelopeCount nested = 2
      ∧ envelopeCount (nested.lines.take 2).flatten = State.opened 1 .outside nested.lines
      ∧ (Marker.ofLine? "<CodeChange file=\"a\">" = some .opening
        ↔ State.Enters .outside (.awaiting "a")) := by
  have hedits : edits nested
      = .error (.unexpectedSection 3 "<CodeChange file=\"b\">" .search) := by
    decide +kernel
  have hcounts := (countsEnvelopes nested).1
  rw [hedits] at hcounts
  refine ⟨hedits, by decide +kernel, hcounts, ?_⟩
  exact (countsEnvelopes nested).2 "<CodeChange file=\"a\">\u2028" (by decide +kernel) .outside
    (.awaiting "a") 1 none rfl

end Block

end EditBlocks
