import EditBlocks.Proofs.Apply
import EditBlocks.Proofs.Block.Extraction
import EditBlocks.Proofs.Block.LineEnd
import EditBlocks.Proofs.Text.Find

/-!
# Quoted lines

The text to find is made of lines, and it is looked for as a text. This
module says how far the two go together.

Lines of a file that are quoted in a block are found again
(`Snapshot.applyResponse_quoteLines`), but for one case: a last line that is
not ended cannot be quoted as it is, because the divider has to start a line
of its own. The line feed that has to be put after it belongs to the text to
find, and the file does not have it there (`Snapshot.not_always_found`).

What is found need not be lines of the file
(`Snapshot.not_always_wholeLines`). It is where the text before it is ended,
and no carriage return is parted from its line feed; otherwise the first line
that was quoted is the tail of a longer line, and the beginning of that line
is left to go on in what is put there
(`Snapshot.eachReplaces_of_applyResponse`). So a line that was not quoted is
changed without a word.

Where whole lines are found, the lines beside them stay as they are if what
is put there are whole lines as well. It need not be: the last block of a
response that breaks off has a text to put that may end inside a line, and
then the line after it is joined to it. `Text.EditStands` has all of this,
for the three texts that are told apart by where the text that was sought
occurs.
-/

namespace EditBlocks

namespace Text

/-- **Lines as a block quotes them**, each on a line of its own: a line feed
comes after the last one if it is not ended. -/
def quoteLines (ls : List Text) : Text :=
  if Terminated ls.flatten then ls.flatten else ls.flatten ++ ['\n']

/-- **Lines of a text that a block can quote.** They follow each other in the
text, there is at least one, none of them is a marker, and they are not all
blank. -/
structure Quotable (t : Text) (ls : List Text) : Prop where
  /-- They follow each other in the text. -/
  run : ls <:+: t.lines
  /-- One of them is not blank. -/
  notBlank : ∃ line ∈ ls, line.isBlank = false
  /-- None of them is a marker. -/
  noMarker : ∀ line ∈ ls, Marker.ofLine? line = none

namespace Quotable

variable {t : Text} {ls : List Text}

/-- Lines that follow each other in a text are the lines of what they hold. -/
theorem lines_flatten (h : Quotable t ls) : lines ls.flatten = ls := by
  obtain ⟨before, after, hlines⟩ := h.run
  rw [List.append_assoc] at hlines
  have hrest := (lines_flatten_of_append hlines.symm).2
  exact (lines_flatten_of_append hrest).1

/-- **Quoted lines can stand in a block.** Each is ended there, the last one
by a line feed of its own if the text does not end it. -/
theorem isBlockText (h : Quotable t ls) : IsBlockText (quoteLines ls) := by
  have hlines := h.lines_flatten
  have hmarker := h.noMarker
  unfold quoteLines
  split
  next hended => exact ⟨hended, hlines.symm ▸ hmarker⟩
  next hopen =>
    rw [← hlines, lines_of_not_terminated hopen] at hmarker
    refine ⟨fun c hc => ?_, fun line hline => ?_⟩
    · rw [List.getLast?_concat, Option.mem_some_iff] at hc
      subst hc
      decide
    · rw [lines_append_of_not_terminated hopen (lines_singleton '\n')] at hline
      rcases List.mem_append.1 hline with hline | hline
      · exact hmarker line (List.mem_append_left _ hline)
      · obtain rfl := List.mem_singleton.1 hline
        rw [Marker.ofLine?_append_of_isBlank _ (by decide)]
        exact hmarker _ (List.mem_append_right _ List.mem_cons_self)

/-- Quoted lines are not blank. -/
theorem isBlank_quoteLines (h : Quotable t ls) : isBlank (quoteLines ls) = false := by
  obtain ⟨line, hline, hblank⟩ := h.notBlank
  obtain ⟨c, hc, hchar⟩ := List.all_eq_false.1 hblank
  have hmem : c ∈ quoteLines ls := by
    have hflat : c ∈ ls.flatten := List.mem_flatten.2 ⟨line, hline, hc⟩
    unfold quoteLines
    split
    · exact hflat
    · exact List.mem_append_left _ hflat
  exact List.all_eq_false.2 ⟨c, hmem, hchar⟩

/-- **Lines that are ended occur in the text as they are quoted.** -/
theorem quoteLines_infix_of_terminated (h : Quotable t ls) (hended : Terminated ls.flatten) :
    quoteLines ls <:+: t := by
  obtain ⟨before, after, hlines⟩ := h.run
  refine ⟨before.flatten, after.flatten, ?_⟩
  rw [quoteLines, if_pos hended, ← List.flatten_append, ← List.flatten_append, hlines,
    flatten_lines]

end Quotable

end Text

/-! ## Responses with one envelope

One edit, and so one search: the response can be applied when its text to
find occurs in the file. -/

/-- The edit of an envelope that stands alone. -/
theorem Edit.Writable.edits_envelope {e : Edit} (h : e.Writable) :
    Block.edits e.envelope = .ok [e] := by
  have hrest : Block.State.Reads .outside (Text.lines []) [] .outside := .nil _
  have hread := h.reads_envelope hrest
  rw [List.append_nil] at hread
  exact Block.edits_of_reads hread

namespace Snapshot

variable {s s' mid : Snapshot} {path replacement response : Text} {ls : List Text}
  {edits es fs : List Edit} {e : Edit}

/-- An edit that creates no file replaces the first occurrence of its search
text. -/
theorem applyTo_eq_ok_iff (hcreates : e.creates = false) {contents t : Text} :
    e.applyTo contents = .ok t
      ↔ ∃ before after, Text.FirstOccurrence e.search contents before after
        ∧ before ++ e.replacement ++ after = t := by
  simp only [← Text.cut?_eq_some_iff]
  rw [Edit.applyTo, hcreates, if_neg Bool.false_ne_true]
  cases Text.cut? e.search contents with
  | none => simp
  | some found =>
    obtain ⟨before, after⟩ := found
    simp

/-- It cannot be applied exactly where the search text does not occur. -/
theorem applyTo_of_not_occurs (hcreates : e.creates = false) {contents : Text}
    (h : ¬e.search <:+: contents) :
    e.applyTo contents = .error (.searchNotFound e.path e.search) := by
  rw [Edit.applyTo, hcreates, if_neg Bool.false_ne_true, Text.cut?_eq_none_iff.2 h]

theorem applyResponse_envelope (h : e.Writable) (s : Snapshot) :
    s.applyResponse e.envelope = match e.applyTo (s.contents e.path) with
      | .ok t => .ok (s.update e.path t)
      | .error error => .error (.apply error) := by
  rw [applyResponse, h.edits_envelope]
  dsimp only
  rw [applyEdits_cons]
  cases e.applyTo (s.contents e.path) with
  | error error => rfl
  | ok t => rfl

/-- Where the search text of its edit occurs first, it is replaced. -/
theorem applyResponse_of_firstOccurrence (h : e.Writable) (hcreates : e.creates = false)
    {before after : Text}
    (hfirst : Text.FirstOccurrence e.search (s.contents e.path) before after) :
    s.applyResponse e.envelope = .ok (s.update e.path (before ++ e.replacement ++ after)) := by
  rw [applyResponse_envelope h, (applyTo_eq_ok_iff hcreates).2 ⟨_, _, hfirst, rfl⟩]

/-- **Quoted lines of a file are found**, and the first place where they
occur is replaced: always when the last of them is ended, and otherwise
exactly when the file holds them with a line feed after them. If it does not,
they are not found. -/
theorem applyResponse_quoteLines (hpath : Edit.PathFits path)
    (hquote : (s.contents path).Quotable ls) (hreplacement : replacement.IsBlockText) :
    (Text.Terminated ls.flatten ∨ Text.quoteLines ls <:+: s.contents path →
        ∃ before after, Text.FirstOccurrence (Text.quoteLines ls) (s.contents path) before after
          ∧ s.applyResponse (Edit.envelope ⟨path, Text.quoteLines ls, replacement⟩)
            = .ok (s.update path (before ++ replacement ++ after)))
      ∧ (¬Text.Terminated ls.flatten → ¬Text.quoteLines ls <:+: s.contents path →
        s.applyResponse (Edit.envelope ⟨path, Text.quoteLines ls, replacement⟩)
          = .error (.apply (.searchNotFound path (Text.quoteLines ls)))) := by
  have hwritable : Edit.Writable ⟨path, Text.quoteLines ls, replacement⟩ :=
    ⟨hpath, hquote.isBlockText, hreplacement⟩
  have hcreates : Edit.creates ⟨path, Text.quoteLines ls, replacement⟩ = false :=
    hquote.isBlank_quoteLines
  refine ⟨fun h => ?_, fun _ hnot => ?_⟩
  · have hoccurs : Text.quoteLines ls <:+: s.contents path :=
      h.elim hquote.quoteLines_infix_of_terminated id
    cases hcut : Text.cut? (Text.quoteLines ls) (s.contents path) with
    | none => exact absurd hoccurs (Text.cut?_eq_none_iff.1 hcut)
    | some found =>
      have hfirst := Text.cut?_eq_some_iff.1 hcut
      exact ⟨found.1, found.2, hfirst,
        applyResponse_of_firstOccurrence hwritable hcreates hfirst⟩
  · rw [applyResponse_envelope hwritable, applyTo_of_not_occurs hcreates hnot]

/-- A file whose last line is not ended. -/
def openEnded : Snapshot := ⟨.ofList [("a", ⟨"a", "one\r\ntwo"⟩)], none, []⟩

/-- **The last line of a file cannot be quoted** when it is not ended. The
quotation has a line feed that the file does not have. -/
theorem not_always_found :
    ¬∀ (s : Snapshot) (path replacement : Text) (ls : List Text), Edit.PathFits path →
      (s.contents path).Quotable ls → replacement.IsBlockText →
        ∃ s', s.applyResponse (Edit.envelope ⟨path, Text.quoteLines ls, replacement⟩)
          = .ok s' := by
  intro h
  have hquote : Text.Quotable (openEnded.contents "a") ["two"] :=
    ⟨⟨["one\r\n"], [], by decide⟩, by decide, by decide⟩
  obtain ⟨s', hs'⟩ := h openEnded "a" "2\n" ["two"] (by decide) hquote (by decide)
  have hfailed : (openEnded.applyResponse
      (Edit.envelope ⟨"a", Text.quoteLines ["two"], "2\n"⟩)).toOption.isNone = true := by
    decide +kernel
  rw [hs'] at hfailed
  cases hfailed

/-- The other line of that file is found, and the last one is not. -/
theorem applyResponse_quoteLines_openEnded :
    Edit.PathFits "a" ∧ (openEnded.contents "a").Quotable ["one\r\n"]
      ∧ (openEnded.contents "a").Quotable ["two"] ∧ Text.IsBlockText "1\n"
      ∧ (∃ before after,
        openEnded.applyResponse (Edit.envelope ⟨"a", Text.quoteLines ["one\r\n"], "1\n"⟩)
          = .ok (openEnded.update "a" (before ++ "1\n" ++ after)))
      ∧ openEnded.applyResponse (Edit.envelope ⟨"a", Text.quoteLines ["two"], "1\n"⟩)
        = .error (.apply (.searchNotFound "a" (Text.quoteLines ["two"]))) := by
  have hquote : Text.Quotable (openEnded.contents "a") ["one\r\n"] :=
    ⟨⟨[], ["two"], by decide⟩, by decide, by decide⟩
  have hlast : Text.Quotable (openEnded.contents "a") ["two"] :=
    ⟨⟨["one\r\n"], [], by decide⟩, by decide, by decide⟩
  have hreplacement : Text.IsBlockText "1\n" := by decide
  have hnot : ¬Text.quoteLines ["two"] <:+: openEnded.contents "a" :=
    Text.cut?_eq_none_iff.1 (by decide)
  obtain ⟨before, after, -, happlied⟩ :=
    (applyResponse_quoteLines (by decide) hquote hreplacement).1 (Or.inl (by decide))
  have hfailed :=
    (applyResponse_quoteLines (by decide) hlast hreplacement).2 (by decide) hnot
  exact ⟨by decide, hquote, hlast, hreplacement, ⟨before, after, happlied⟩, hfailed⟩

/-! ## What a block replaces

The texts before and after what was found are told apart by where lines end
in them, on either side. -/

/-- Edits are applied in two parts. -/
theorem exists_applyEdits_of_append (h : s.applyEdits (es ++ fs) = .ok s') :
    ∃ mid, s.applyEdits es = .ok mid ∧ mid.applyEdits fs = .ok s' := by
  induction es generalizing s with
  | nil => exact ⟨s, rfl, h⟩
  | cons e es ih =>
    obtain ⟨t, ht, hrest⟩ := applyEdits_cons_eq_ok_iff.1 h
    obtain ⟨mid, hes, hfs⟩ := ih hrest
    exact ⟨mid, applyEdits_cons_eq_ok_iff.2 ⟨t, ht, hes⟩, hfs⟩

/-- A response is applied when it can be read and its edits applied. -/
theorem applyResponse_eq_ok_iff :
    s.applyResponse response = .ok s'
      ↔ ∃ edits, Block.edits response = .ok edits ∧ s.applyEdits edits = .ok s' := by
  unfold applyResponse
  cases Block.edits response with
  | error e => simp
  | ok edits =>
    cases happlied : s.applyEdits edits with
    | error e => simp [happlied, Except.mapError]
    | ok next => simp [happlied, Except.mapError]

/-- **What edits replace, one after the other**: each that creates no file
replaces the first occurrence of its search text in what the ones before it
left. The text before, the one that is found, the one that is put there and
the text after have a property. -/
def EachReplaces (s s' : Snapshot) (edits : List Edit) (P : Text → Text → Text → Text → Prop) :
    Prop :=
  ∀ es e fs, edits = es ++ e :: fs → e.creates = false →
    ∃ mid before after, s.applyEdits es = .ok mid
      ∧ Text.FirstOccurrence e.search (mid.contents e.path) before after
      ∧ (mid.update e.path (before ++ e.replacement ++ after)).applyEdits fs = .ok s'
      ∧ P before e.search e.replacement after

/-- What one edit replaces. -/
theorem EachReplaces.of_singleton {P : Text → Text → Text → Text → Prop}
    (h : EachReplaces s s' [e] P) (hcreates : e.creates = false) {before after : Text}
    (hcut : Text.cut? e.search (s.contents e.path) = some (before, after)) :
    P before e.search e.replacement after := by
  obtain ⟨mid, b, a, hmid, hfirst, -, hP⟩ := h [] e [] rfl hcreates
  obtain rfl : s = mid := Except.ok.inj hmid
  rw [Text.cut?_eq_some_iff.2 hfirst] at hcut
  cases hcut
  exact hP

theorem eachReplaces_of_applyEdits {P : Text → Text → Text → Text → Prop}
    (h : s.applyEdits edits = .ok s')
    (hP : ∀ e ∈ edits, e.creates = false →
      ∀ before after, P before e.search e.replacement after) :
    EachReplaces s s' edits P := by
  rintro es e fs rfl hcreates
  obtain ⟨mid, hes, hrest⟩ := exists_applyEdits_of_append h
  obtain ⟨t, ht, hfs⟩ := applyEdits_cons_eq_ok_iff.1 hrest
  obtain ⟨before, after, hfirst, rfl⟩ := (applyTo_eq_ok_iff hcreates).1 ht
  exact ⟨mid, before, after, hes, hfirst, hfs, hP e (by simp) hcreates before after⟩

end Snapshot

namespace Text

/-- **How an edit stands** where the lines that it quotes occur and others
are put in their place, between the text before and the text after. -/
structure EditStands (before quote put after : Text) : Prop where
  /-- There is something quoted. -/
  ne_nil : quote ≠ []
  /-- Its lines are ended, and none of them is a marker. -/
  isBlockText : quote.IsBlockText
  /-- The place begins at the beginning of a line when the text before it is
  ended, and no carriage return is parted from its line feed there. -/
  begins : LineEdge before (quote ++ after) ↔ Terminated before ∧ CleanJoint before quote
  /-- It ends at the end of a line when no carriage return is parted from its
  line feed there. -/
  ends : LineEdge (before ++ quote) after ↔ CleanJoint quote after
  /-- It is a run of whole lines when it begins and ends with one. -/
  wholeLines : IsWholeLines before quote after
    ↔ LineEdge before (quote ++ after) ∧ LineEdge (before ++ quote) after
  /-- Then the lines before and after it stay as they are exactly when what
  is put there are whole lines, or nothing, and no carriage return comes
  before a line feed by that. -/
  kept : IsWholeLines before quote after →
    (IsWholeLines before put after ↔
      if put = [] then CleanJoint before after
      else CleanJoint before put ∧ (after = [] ∨ Terminated put ∧ CleanJoint put after))
  /-- If it begins inside a line and ends with one, the first line that was
  quoted is the tail of that line, and the other lines are lines of the
  whole. -/
  tail : ¬Terminated before → CleanJoint quote after → ∃ first rest, lines quote = first :: rest
    ∧ before.openLine ≠ []
    ∧ lines (before ++ quote ++ after)
      = lines before.endedLines ++ (before.openLine ++ first) :: (rest ++ lines after)
  /-- If it begins inside a line, the beginning of that line is left, and
  goes on in what is put there or, if that is nothing, in what comes after. -/
  left : ¬Terminated before → ∀ first rest, lines (put ++ after) = first :: rest →
    lines (before ++ put ++ after)
      = lines before.endedLines ++ (before.openLine ++ first) :: rest

section

variable {before quote put after : Text}

/-- Block text begins a line where a text is ended before it. -/
theorem lineEdge_append_iff (hne : quote ≠ []) :
    LineEdge before (quote ++ after) ↔ Terminated before ∧ CleanJoint before quote := by
  rw [lineEdge_iff, cleanJoint_append_iff hne]
  simp [hne]

/-- It ends a line where no carriage return is parted from its line feed. -/
theorem append_lineEdge_iff (hne : quote ≠ []) (hquote : Terminated quote) :
    LineEdge (before ++ quote) after ↔ CleanJoint quote after := by
  have hlast : (before ++ quote).getLast? = quote.getLast? := by
    rw [List.getLast?_append, List.getLast?_eq_getLast_of_ne_nil hne, Option.some_or]
  have hended : Terminated (before ++ quote) := by
    rw [Terminated, hlast]
    exact hquote
  rw [lineEdge_iff, CleanJoint, hlast]
  constructor
  · rintro (rfl | ⟨-, hclean⟩)
    · exact cleanJoint_nil quote
    · exact hclean
  · exact fun hclean => Or.inr ⟨hended, hclean⟩

/-- **What is put between ended text and other text** is whole lines if a
line ends at both its ends. -/
theorem isWholeLines_iff_of_terminated (hbefore : Terminated before) :
    IsWholeLines before put after ↔
      if put = [] then CleanJoint before after
      else CleanJoint before put ∧ (after = [] ∨ Terminated put ∧ CleanJoint put after) := by
  split
  next hnil =>
    rw [hnil, isWholeLines_nil_iff, lineEdge_iff, and_iff_right hbefore, or_iff_right_iff_imp]
    rintro rfl
    exact cleanJoint_nil before
  next hne =>
    rw [isWholeLines_iff_lineEdge hne, lineEdge_iff, lineEdge_iff, or_iff_right hne,
      and_iff_right hbefore]

end

/-- **Quoted lines stand so wherever they occur**, whatever is put in their
place. -/
theorem editStands {quote : Text} (hne : quote ≠ []) (hquote : quote.IsBlockText)
    (before put after : Text) : EditStands before quote put after where
  ne_nil := hne
  isBlockText := hquote
  begins := lineEdge_append_iff hne
  ends := append_lineEdge_iff hne hquote.terminated
  wholeLines := by
    rw [isWholeLines_iff hquote.terminated hne, lineEdge_append_iff hne,
      append_lineEdge_iff hne hquote.terminated, and_assoc]
  kept h := isWholeLines_iff_of_terminated ((isWholeLines_iff hquote.terminated hne).1 h).1
  tail hopen hclean := by
    obtain ⟨first, rest, hlines⟩ := List.exists_cons_of_ne_nil (lines_ne_nil hne)
    have hrest : lines (quote ++ after) = first :: (rest ++ lines after) := by
      rw [lines_append hquote.terminated hclean, hlines, List.cons_append]
    refine ⟨first, rest, hlines, fun h => hopen (openLine_eq_nil_iff.1 h), ?_⟩
    rw [List.append_assoc, lines_append_of_not_terminated hopen hrest]
  left hopen first rest hlines := by
    rw [List.append_assoc, lines_append_of_not_terminated hopen hlines]

end Text

namespace Snapshot

variable {s s' : Snapshot} {response : Text}

/-- **What a response replaces.** When a response has been applied, each of
its edits that creates no file has replaced the first place where the lines
it quotes occur in the file as the edits before left it, and nothing else.
That place ends with a line of the file, and begins with one exactly where
the text before it is ended, but for a carriage return that is parted from
its line feed. If it is whole lines, the others stay as they are wherever
whole lines are put there. Where it begins inside a line, the first line that
was quoted is the tail of that line, and the beginning of the line is left. -/
theorem eachReplaces_of_applyResponse (h : s.applyResponse response = .ok s') :
    ∃ edits, Block.edits response = .ok edits ∧ EachReplaces s s' edits Text.EditStands := by
  obtain ⟨edits, hedits, happlied⟩ := applyResponse_eq_ok_iff.1 h
  refine ⟨edits, hedits, eachReplaces_of_applyEdits happlied fun e he hcreates => ?_⟩
  have hne : e.search ≠ [] := by
    intro hnil
    rw [Edit.creates, hnil] at hcreates
    cases hcreates
  exact fun before after => Text.editStands hne (Block.isBlockText_search hedits he) before _ after

/-- A file with a line and the same line indented before it. -/
def indented : Snapshot := ⟨.ofList [("a", ⟨"a", "  x = 1\nx = 1\n"⟩)], none, []⟩

/-- A file with a line that is ended by a carriage return and a line feed. -/
def crossed : Snapshot := ⟨.ofList [("a", ⟨"a", "x = 1\r\ny\n"⟩)], none, []⟩

/-- **What is replaced need not be whole lines.** It can begin inside a line:
the line that was quoted is found at the tail of the same line indented. And
it can end inside the boundary of a line. -/
theorem not_always_wholeLines :
    (¬∀ (s s' : Snapshot) (response : Text) (edits : List Edit),
        s.applyResponse response = .ok s' → Block.edits response = .ok edits →
          EachReplaces s s' edits fun before quote _ after =>
            Text.LineEdge before (quote ++ after))
      ∧ ¬∀ (s s' : Snapshot) (response : Text) (edits : List Edit),
        s.applyResponse response = .ok s' → Block.edits response = .ok edits →
          EachReplaces s s' edits fun before quote _ after =>
            Text.LineEdge (before ++ quote) after := by
  refine ⟨fun h => ?_, fun h => ?_⟩
  · have hw : Edit.Writable ⟨"a", "x = 1\n", "y = 2\n"⟩ := by decide
    have hcut : Text.cut? "x = 1\n" (indented.contents "a")
        = some (("  " : Text), ("x = 1\n" : Text)) := by decide
    have happlied := applyResponse_of_firstOccurrence hw rfl (Text.cut?_eq_some_iff.1 hcut)
    have hedge := (h _ _ _ _ happlied hw.edits_envelope).of_singleton rfl hcut
    exact absurd hedge (by decide)
  · have hw : Edit.Writable ⟨"a", "x = 1\r", "z\n"⟩ := by decide
    have hcut : Text.cut? "x = 1\r" (crossed.contents "a")
        = some (([] : Text), ("\ny\n" : Text)) := by decide
    have happlied := applyResponse_of_firstOccurrence hw rfl (Text.cut?_eq_some_iff.1 hcut)
    have hedge := (h _ _ _ _ happlied hw.edits_envelope).of_singleton rfl hcut
    exact absurd hedge (by decide)

/-- A response with two edits of the file with the indented line. The second
quotes the line that the first has put there. -/
def twoBlocks : Text :=
  "<CodeChange file=\"a\">\n<<<<<<< SEARCH\nx = 1\n=======\nx = 2\n>>>>>>> REPLACE\n"
    ++ "<<<<<<< SEARCH\n  x = 2\n=======\ny\n>>>>>>> REPLACE\n</CodeChange>\n"

/-- Its edits are applied one after the other. -/
theorem eachReplaces_of_applyResponse_twoBlocks :
    ∃ s', indented.applyResponse twoBlocks = .ok s' ∧ s'.contents "a" = "y\nx = 1\n"
      ∧ ∃ edits, Block.edits twoBlocks = .ok edits
        ∧ EachReplaces indented s' edits Text.EditStands := by
  obtain ⟨s', hs', ht⟩ : ∃ s', indented.applyResponse twoBlocks = .ok s'
      ∧ s'.contents "a" = "y\nx = 1\n" := ⟨_, rfl, rfl⟩
  exact ⟨s', hs', ht, eachReplaces_of_applyResponse hs'⟩

end Snapshot

end EditBlocks
