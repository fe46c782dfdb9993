import EditBlocks.Proofs.Block.LineEnd
import EditBlocks.Proofs.Block.Reading
import EditBlocks.Proofs.Text.LineEdge
import Mathlib.Data.List.DropRight

/-!
# Responses with their newlines made one

A response whose newlines have been made one is read like the response as it
was: the edits are the same but for the newlines of their texts
(`Edit.asRead`), and an error is the same error
(`Block.edits_normalizeNewlines`).

The two are read side by side, line by line, for their lines correspond
(`Text.lines_normalizeNewlines`). From corresponding states corresponding
lines lead to corresponding states (`State.step_asRead`), because a line is
read alike however it ends (`Text.IgnoresEnd`). Only where the lines of a
block are joined is there more to say: the newline of each line was made one,
and those of the joined text must come out the same. They do because the
lines that a state has gathered follow each other in the response
(`State.GoesOn`), where no carriage return that ends a line stands before a
line feed.
-/

namespace EditBlocks

/-- **An edit as it is read** from a file with its newlines made one. -/
def Edit.asRead (e : Edit) : Edit where
  path := e.path
  search := e.search.normalizeNewlines
  replacement := e.replacement.normalizeNewlines

/-- It creates a file if the edit does. -/
theorem Edit.creates_asRead (e : Edit) : e.asRead.creates = e.creates :=
  Text.isBlank_normalizeNewlines e.search

/-- **Lines of a text that are joined** have their newlines made one each for
itself. -/
theorem Text.normalizeNewlines_flatten {t : Text} {ls ms : List Text} (h : t.lines = ls ++ ms) :
    normalizeNewlines ls.flatten = (ls.map normalizeNewlines).flatten := by
  have hlines := lines_normalizeNewlines ls.flatten
  rw [(lines_flatten_of_append h).1] at hlines
  rw [← hlines, flatten_lines]

namespace Block

namespace State

/-! ## Corresponding states

The lines gathered so far are the one thing in a state that the newlines
matter to. They have theirs made one, line by line, and what is shown along
with it is that this is the same as to make those of the joined text one. -/

/-- The lines of the text at hand that have been read so far. -/
def gathered : State → List Text
  | outside => []
  | awaiting _ => []
  | search _ found => found
  | replace _ _ found => found

/-- **The lines gathered go on with others**: all of them follow each other
in a text. -/
def GoesOn (s : State) (ls : List Text) : Prop := ∃ t : Text, t.lines = s.gathered ++ ls

/-- **A state as it is reached** in a response with its newlines made one. -/
def asRead : State → State
  | outside => outside
  | awaiting path => awaiting path
  | search path found => search path (found.map Text.normalizeNewlines)
  | replace path sought found =>
    replace path sought.normalizeNewlines (found.map Text.normalizeNewlines)

variable {s mid : State} {line : Text} {ls : List Text} {found : Option Edit}

/-- **What one line keeps**: the lines gathered after it go on with those
that come after it. -/
theorem GoesOn.step (h : s.GoesOn (line :: ls)) (hstep : Steps line s mid found) :
    mid.GoesOn ls := by
  have hjoined : ∃ t : Text, t.lines = (s.gathered ++ [line]) ++ ls := by
    obtain ⟨t, ht⟩ := h
    exact ⟨t, ht.trans (List.append_cons _ _ _)⟩
  cases hstep with
  | sought | put => exact hjoined
  | prose | opening | noise | search | closing | divider | replace =>
    obtain ⟨t, ht⟩ := hjoined
    exact ⟨ls.flatten, (Text.lines_flatten_of_append ht).2⟩

/-! ## Corresponding lines

The correspondence is kept by one step, and from that by any number of them.
-/

/-- **One line, read from corresponding states**: the states afterwards
correspond, and so do the edits that it completes; and if it cannot be read,
the error is the same. -/
theorem step_asRead (h : s.GoesOn (line :: ls)) (number : Nat) :
    s.asRead.step number line.normalizeNewlines
      = (s.step number line).map (Prod.map asRead (Option.map Edit.asRead)) := by
  obtain ⟨t, ht⟩ := h
  have hmem : line ∈ t.lines := by
    rw [ht]
    exact List.mem_append_right _ List.mem_cons_self
  have hmarker := Marker.ignoresEnd_ofLine?.normalizeNewlines hmem
  have hnoise := Marker.ignoresEnd_isNoise.normalizeNewlines hmem
  have hpath := Marker.ignoresEnd_path?.normalizeNewlines hmem
  have htrim := Text.ignoresEnd_trim.normalizeNewlines hmem
  cases s with
  | outside =>
    simp only [asRead, State.step, hmarker, hpath, htrim]
    cases Marker.ofLine? line with
    | none => rfl
    | some m =>
      cases m with
      | opening => cases Marker.path? line <;> rfl
      | closing | search | divider | replace => rfl
  | awaiting path =>
    simp only [asRead, State.step, hmarker, hnoise, htrim]
    cases Marker.ofLine? line with
    | none => cases Marker.isNoise line <;> rfl
    | some m => cases m <;> rfl
  | search path found =>
    have hflat : Text.normalizeNewlines found.flatten = _ := Text.normalizeNewlines_flatten ht
    simp only [asRead, State.step, hmarker, htrim]
    cases Marker.ofLine? line with
    | none => simp [Except.map, asRead]
    | some m =>
      cases m with
      | divider => simp [Except.map, asRead, hflat]
      | opening | closing | search | replace => rfl
  | replace path sought found =>
    have hflat : Text.normalizeNewlines found.flatten = _ := Text.normalizeNewlines_flatten ht
    simp only [asRead, State.step, hmarker, htrim]
    cases Marker.ofLine? line with
    | none => simp [Except.map, asRead]
    | some m =>
      cases m with
      | replace => simp [Except.map, asRead, Edit.asRead, hflat]
      | opening | closing | search | divider => rfl

/-- **Lines that follow each other in a response**, read from corresponding
states. -/
theorem run_asRead (h : s.GoesOn ls) (number : Nat) :
    s.asRead.run number (ls.map Text.normalizeNewlines)
      = Prod.map (List.map Edit.asRead) (Except.map asRead) (s.run number ls) := by
  induction ls generalizing s number with
  | nil => rfl
  | cons line rest ih =>
    rw [List.map_cons, run, run, step_asRead h number]
    cases hstep : s.step number line with
    | error e => rfl
    | ok stepped =>
      obtain ⟨mid, found⟩ := stepped
      have hrest := ih (h.step (steps_of_step_eq hstep)) (number + 1)
      dsimp only [Except.map, Prod.map] at hrest ⊢
      rw [hrest]
      cases found <;> rfl

/-! ## The end of a response

Code fences at the end of a replacement are the same lines on both sides. -/

/-- Code fences at the end are dropped alike when lines are changed that stay
code fences, or stay none. -/
theorem dropFences_map {change : Text → Text} {lines : List Text}
    (h : ∀ line ∈ lines, Marker.isFence (change line) = Marker.isFence line) :
    dropFences (lines.map change) = (dropFences lines).map change := by
  show List.rdropWhile _ _ = (List.rdropWhile _ _).map _
  induction lines using List.reverseRecOn with
  | nil => rfl
  | append_singleton rest line ih =>
    rw [List.map_append, List.map_singleton, List.rdropWhile_concat, List.rdropWhile_concat,
      h line (List.mem_append_right _ List.mem_cons_self)]
    split
    · exact ih fun other hother => h other (List.mem_append_left _ hother)
    · rw [List.map_append, List.map_singleton]

/-- **Corresponding states end alike.** -/
theorem finish_asRead (h : s.GoesOn []) (count : Nat) :
    s.asRead.finish count = (s.finish count).map (Option.map Edit.asRead) := by
  obtain ⟨t, ht⟩ := h
  cases s with
  | outside | awaiting path | search path found => rfl
  | replace path sought found =>
    have hfound : t.lines = found := ht.trans (List.append_nil found)
    obtain ⟨fences, hfences⟩ := List.rdropWhile_prefix Marker.isFence found
    have hflat : Text.normalizeNewlines (dropFences found).flatten = _ :=
      Text.normalizeNewlines_flatten (hfound.trans hfences.symm)
    have hdrop : dropFences (found.map Text.normalizeNewlines) = _ :=
      dropFences_map fun line hline =>
        Marker.ignoresEnd_isFence.normalizeNewlines (hfound ▸ hline)
    simp only [asRead, finish, hdrop, Except.map, Option.map_some, Edit.asRead, hflat]

theorem finishLog_asRead (s : State) : s.asRead.finishLog = s.finishLog := by
  cases s <;> rfl

/-- **What a run of lines keeps**: the lines gathered after it follow each
other. -/
theorem GoesOn.reads {last : State} {es : List Edit} (h : s.GoesOn ls)
    (hreads : Reads s ls es last) : last.GoesOn [] := by
  induction hreads with
  | nil s => exact h
  | cons first others ih => exact ih (h.step (steps_of_step_eq (first 0)))

end State

/-- **The scan of a response with its newlines made one** finds the same
edits as they are read, stops at the same error and reports the same. -/
theorem scan_normalizeNewlines (response : Text) :
    scan response.normalizeNewlines
      = ⟨(scan response).edits.map Edit.asRead, (scan response).error, (scan response).log⟩ := by
  have hbegin : State.GoesOn .outside response.lines := ⟨response, rfl⟩
  have hrun := State.run_asRead hbegin 1
  unfold scan
  dsimp only
  rw [Text.lines_normalizeNewlines, List.length_map]
  change State.run 1 .outside _ = _ at hrun
  rw [hrun]
  rcases hread : State.run 1 .outside response.lines with ⟨es, e | last⟩
  · rfl
  · have hfinish := State.finish_asRead (hbegin.reads (State.reads_of_run_eq hread))
      response.lines.length
    dsimp only [Prod.map, Except.map] at hfinish ⊢
    rw [hfinish, State.finishLog_asRead]
    cases last.finish response.lines.length with
    | error e => rfl
    | ok found => cases found <;> simp

/-- **Reading commutes with making newlines one.** A response with its
newlines made one can be read exactly when the response itself can; its edits
are then the same with the newlines of their texts made one, and otherwise
the error is the same. -/
theorem edits_normalizeNewlines (response : Text) :
    edits response.normalizeNewlines = (edits response).map (List.map Edit.asRead) := by
  unfold edits
  rw [scan_normalizeNewlines]
  dsimp only
  cases (scan response).error <;> rfl

end Block

end EditBlocks
