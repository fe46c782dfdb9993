import EditBlocks.Proofs.Block.Reading
import EditBlocks.Proofs.Text.Line

/-!
# Writing edits into a response

The written form of edits, and the proof that reading it gives the edits back
(`Block.edits_write`). Every edit is written as an envelope of its own, with
one block in it, and prose may stand before, between and after the envelopes.

What can be written is what the form has room for. A path stands between
quotation marks inside a tag on one line (`Edit.PathFits`). The two texts of
a block end where their last line ends, and none of their lines is a marker
(`Text.IsBlockText`): every other line is kept as it is, a blank line, a code
fence and an indented marker included.

All of this can be decided of an edit, so whoever writes a response can ask
beforehand whether an edit will come back as it is.
-/

namespace EditBlocks

/-- **A text that can stand in a block**: it ends where its last line ends,
and no line of it is a marker. -/
structure Text.IsBlockText (t : Text) : Prop where
  /-- It is empty or ends with a line boundary. -/
  terminated : t.Terminated
  /-- No line of it is a marker. -/
  noMarker : ∀ line ∈ t.lines, Marker.ofLine? line = none

/-- **A text that can stand outside envelopes**: it ends where its last line
ends, and no line of it is an opening tag. -/
structure Text.IsProse (t : Text) : Prop where
  /-- It is empty or ends with a line boundary. -/
  terminated : t.Terminated
  /-- No line of it opens an envelope. -/
  noOpening : ∀ line ∈ t.lines, Marker.ofLine? line ≠ some .opening

instance (t : Text) : Decidable t.IsBlockText :=
  decidable_of_iff (t.Terminated ∧ ∀ line ∈ t.lines, Marker.ofLine? line = none)
    ⟨fun h => ⟨h.1, h.2⟩, fun h => ⟨h.1, h.2⟩⟩

instance (t : Text) : Decidable t.IsProse :=
  decidable_of_iff (t.Terminated ∧ ∀ line ∈ t.lines, Marker.ofLine? line ≠ some .opening)
    ⟨fun h => ⟨h.1, h.2⟩, fun h => ⟨h.1, h.2⟩⟩

namespace Edit

/-- A path that an opening tag has room for. -/
structure PathFits (path : Text) : Prop where
  /-- The path is not empty. -/
  ne_nil : path ≠ []
  /-- Nothing in it ends the quotation, the tag or the line. -/
  plain : ∀ c ∈ path, c ≠ '"' ∧ c ≠ '>' ∧ isLineBreak c = false

/-- **An edit that can be written.** -/
structure Writable (e : Edit) : Prop where
  /-- An opening tag has room for the path. -/
  path : PathFits e.path
  /-- The text to find can stand in a block. -/
  search : e.search.IsBlockText
  /-- The text to put there can stand in a block. -/
  replacement : e.replacement.IsBlockText

instance (path : Text) : Decidable (PathFits path) :=
  decidable_of_iff
    (path ≠ [] ∧ path.all (fun c => c ≠ '"' ∧ c ≠ '>' ∧ isLineBreak c = false) = true)
    ⟨fun h => ⟨h.1, fun c hc => of_decide_eq_true (List.all_eq_true.1 h.2 c hc)⟩,
      fun h => ⟨h.1, List.all_eq_true.2 fun c hc => decide_eq_true (h.2 c hc)⟩⟩

instance (e : Edit) : Decidable e.Writable :=
  decidable_of_iff (PathFits e.path ∧ e.search.IsBlockText ∧ e.replacement.IsBlockText)
    ⟨fun h => ⟨h.1, h.2.1, h.2.2⟩, fun h => ⟨h.1, h.2, h.3⟩⟩

/-- **The envelope of an edit**, with the one block in it. -/
def envelope (e : Edit) : Text :=
  (Marker.openingFor e.path ++ ['\n']) ++ (Marker.searchText ++ ['\n']) ++ e.search
    ++ (Marker.dividerText ++ ['\n']) ++ e.replacement ++ (Marker.replaceText ++ ['\n'])
    ++ (Marker.closingText ++ ['\n'])

/-- What stands in the envelope of an edit before the text to put there. -/
def lead (e : Edit) : Text :=
  (Marker.openingFor e.path ++ ['\n']) ++ (Marker.searchText ++ ['\n']) ++ e.search
    ++ (Marker.dividerText ++ ['\n'])

end Edit

/-- **The written form of edits**, each after a piece of prose, and with
prose after the last. -/
def Block.write (parts : List (Text × Edit)) (last : Text) : Text :=
  (parts.flatMap fun part => part.1 ++ part.2.envelope) ++ last

/-! ## The opening tag

The tag that is written for a path is read as that path, for all the paths
that fit in a tag. -/

namespace Marker

/-- The opening tag of a path, after the tag's name and up to the path. -/
theorem openingFor_eq (path : Text) :
    openingFor path
      = openingStart ++ ' ' :: (['f', 'i', 'l', 'e', '=', '"'] ++ (path ++ ['"', '>'])) := by
  rw [openingFor, List.append_assoc, List.append_assoc]
  rfl

/-- An opening tag is no text that begins otherwise. -/
theorem openingFor_ne (path : Text) {t : Text} (h : openingStart.isPrefixOf t = false) :
    openingFor path ≠ t := by
  rintro rfl
  have hp : openingStart.isPrefixOf (openingFor path) = true := by
    rw [openingFor_eq]
    exact List.isPrefixOf_iff_prefix.2 (List.prefix_append _ _)
  rw [hp] at h
  cases h

/-- A text that holds no `>` but for its last character closes there. -/
theorem closesAtEnd_append {t : Text} (h : ∀ c ∈ t, c ≠ '>') :
    closesAtEnd (t ++ ['>']) = true := by
  induction t with
  | nil => rfl
  | cons c t ih =>
    rw [List.forall_mem_cons] at h
    rw [List.cons_append, closesAtEnd, ih h.2]
    · simp [h.1]
    · simp

/-- Where a text without quotation marks is quoted, it is what stands before
the mark. -/
theorem beforeQuote?_append {t : Text} (h : ∀ c ∈ t, c ≠ '"') (rest : Text) :
    beforeQuote? (t ++ '"' :: rest) = some t := by
  induction t with
  | nil => rfl
  | cons c t ih =>
    rw [List.forall_mem_cons] at h
    rw [List.cons_append, beforeQuote?, if_neg h.1, ih h.2]
    rfl

/-- The opening tag of a path ends the way it is written, a line feed after
it aside. -/
theorem trimEnd_openingFor (path : Text) :
    (openingFor path ++ ['\n']).trimEnd = openingFor path := by
  have hend : openingFor path = (openingStart ++ ' ' :: (['f', 'i', 'l', 'e', '=', '"']
      ++ (path ++ ['"']))) ++ ['>'] := by
    rw [openingFor_eq]
    simp only [List.append_assoc, List.cons_append, List.nil_append]
  rw [Text.trimEnd_append_of_isBlank _ (by decide), hend]
  exact Text.trimEnd_append_singleton _ (by decide)

theorem isOpening_openingFor {path : Text} (h : Edit.PathFits path) :
    isOpening (openingFor path) = true := by
  have hrest : ∀ c ∈ ' ' :: (['f', 'i', 'l', 'e', '=', '"'] ++ (path ++ ['"'])), c ≠ '>' := by
    intro c hc
    simp only [List.mem_cons, List.mem_append, List.not_mem_nil, or_false] at hc
    rcases hc with rfl | (rfl | rfl | rfl | rfl | rfl | rfl) | hp | rfl
    case inr.inr.inl => exact (h.plain c hp).2.1
    all_goals decide
  have hclose := closesAtEnd_append hrest
  simp only [List.cons_append, List.append_assoc, List.nil_append] at hclose
  rw [isOpening, openingFor_eq, Text.dropStart?_append]
  simp only [List.cons_append, List.nil_append, hclose, Bool.and_true]
  decide

/-- **The line of an opening tag is read as an opening tag.** -/
theorem ofLine?_openingFor {path : Text} (h : Edit.PathFits path) :
    ofLine? (openingFor path ++ ['\n']) = some .opening := by
  rw [ofLine?, trimEnd_openingFor]
  rw [if_neg (openingFor_ne path (by decide)), if_neg (openingFor_ne path (by decide)),
    if_neg (openingFor_ne path (by decide)), if_neg (openingFor_ne path (by decide)),
    if_pos (isOpening_openingFor h)]

/-- **The opening tag of a path names that path.** -/
theorem path?_openingFor {path : Text} (h : Edit.PathFits path) :
    path? (openingFor path ++ ['\n']) = some path := by
  have hq := beforeQuote?_append (fun c hc => (h.plain c hc).1) ['>', '\n']
  have hline : openingFor path ++ ['\n'] = openingStart
      ++ ' ' :: (['f', 'i', 'l', 'e', '=', '"'] ++ (path ++ '"' :: ['>', '\n'])) := by
    rw [openingFor_eq]
    simp only [List.append_assoc, List.cons_append, List.nil_append]
  have hskip : ∀ rest : Text,
      fileAttribute? (openingStart ++ ' ' :: rest) = fileAttribute? (' ' :: rest) := fun _ => rfl
  rw [path?, hline, hskip, fileAttribute?, if_pos (by decide)]
  have hdrop : Text.dropStart? "file=\""
      (['f', 'i', 'l', 'e', '=', '"'] ++ (path ++ '"' :: ['>', '\n']))
      = some (path ++ '"' :: ['>', '\n']) := Text.dropStart?_append _ _
  rw [hdrop, Option.bind_some, hq]
  simp [h.ne_nil]

end Marker

/-! ## Reading what was written

An envelope leads from outside to outside and gives its edit. Prose between
envelopes may hold anything that is no opening tag, and it must end where its
last line does. -/

namespace Edit

open Block Block.State

theorem PathFits.no_break {path : Text} (h : PathFits path) :
    ∀ c ∈ Marker.openingFor path, isLineBreak c = false := by
  intro c hc
  rw [Marker.openingFor, List.mem_append, List.mem_append, List.mem_append] at hc
  rcases hc with ((hc | hc) | hc) | hc
  · exact Text.any_isLineBreak_eq_false_iff.1 (by decide) c hc
  · exact Text.any_isLineBreak_eq_false_iff.1 (by decide) c hc
  · exact (h.plain c hc).2.2
  · exact Text.any_isLineBreak_eq_false_iff.1 (by decide) c hc

/-- **The lines of an envelope up to its divider**, whatever comes after. -/
theorem lines_lead {e : Edit} (hpath : PathFits e.path) (hsearch : e.search.IsBlockText)
    (rest : Text) :
    (e.lead ++ rest).lines
      = (Marker.openingFor e.path ++ ['\n']) :: (Marker.searchText ++ ['\n'])
        :: (e.search.lines ++ (Marker.dividerText ++ ['\n']) :: rest.lines) := by
  have hmarker : ∀ c ∈ Marker.searchText, isLineBreak c = false :=
    Text.any_isLineBreak_eq_false_iff.1 (by decide)
  have hdivider : ∀ c ∈ Marker.dividerText, isLineBreak c = false :=
    Text.any_isLineBreak_eq_false_iff.1 (by decide)
  have hhead : (Marker.dividerText ++ ['\n'] ++ rest).head? ≠ some '\n' :=
    show some '=' ≠ some '\n' by decide
  -- one text for each cut, so that the lemmas on joined texts apply from the left
  have hparts : e.lead ++ rest = Marker.openingFor e.path ++ ['\n'] ++ (Marker.searchText ++ ['\n']
      ++ (e.search ++ (Marker.dividerText ++ ['\n'] ++ rest))) := by
    simp only [lead, List.append_assoc]
  rw [hparts, Text.lines_line_append hpath.no_break, Text.lines_line_append hmarker,
    Text.lines_append_of_head?_ne hsearch.terminated hhead, Text.lines_line_append hdivider]

/-- **An envelope is read up to its divider** as the beginning of a block. -/
theorem reads_lead {e : Edit} (hpath : PathFits e.path) (hsearch : e.search.IsBlockText)
    {rest : List Text} {found : List Edit} {next : State}
    (hrest : Reads (.replace e.path e.search []) rest found next) :
    Reads .outside ((Marker.openingFor e.path ++ ['\n']) :: (Marker.searchText ++ ['\n'])
      :: (e.search.lines ++ (Marker.dividerText ++ ['\n']) :: rest)) found next := by
  have hopening : ∀ number, State.outside.step number (Marker.openingFor e.path ++ ['\n'])
      = .ok (.awaiting e.path, none) := by
    intro number
    simp only [State.step, Marker.ofLine?_openingFor hpath, Marker.path?_openingFor hpath]
  have hmarker : ∀ number, (State.awaiting e.path).step number (Marker.searchText ++ ['\n'])
      = .ok (.search e.path [], none) := fun _ => rfl
  have hdivider : ∀ number,
      (State.search e.path e.search.lines).step number (Marker.dividerText ++ ['\n'])
        = .ok (.replace e.path e.search.lines.flatten [], none) := fun _ => rfl
  -- the scanner gathers lines, and joined again they are the text
  rw [Text.flatten_lines] at hdivider
  have hsought := reads_search e.path [] hsearch.noMarker
  rw [List.nil_append] at hsought
  exact Reads.skip hopening (Reads.skip hmarker (hsought.append (Reads.skip hdivider hrest)))

/-- An envelope is what stands before the text to put there, that text, and
what comes after it. -/
theorem envelope_eq (e : Edit) :
    e.envelope = e.lead ++ (e.replacement ++ (Marker.replaceText ++ ['\n']
      ++ (Marker.closingText ++ ['\n']))) := by
  simp only [envelope, lead, List.append_assoc]

/-- **The lines of an envelope**: the tag, the markers, and between them the
lines of the two texts. -/
theorem Writable.lines_envelope {e : Edit} (h : e.Writable) (rest : Text) :
    (e.envelope ++ rest).lines
      = (Marker.openingFor e.path ++ ['\n']) :: (Marker.searchText ++ ['\n'])
        :: (e.search.lines ++ (Marker.dividerText ++ ['\n'])
          :: (e.replacement.lines ++ (Marker.replaceText ++ ['\n'])
            :: (Marker.closingText ++ ['\n']) :: rest.lines)) := by
  have hreplace : ∀ c ∈ Marker.replaceText, isLineBreak c = false :=
    Text.any_isLineBreak_eq_false_iff.1 (by decide)
  have hclosing : ∀ c ∈ Marker.closingText, isLineBreak c = false :=
    Text.any_isLineBreak_eq_false_iff.1 (by decide)
  have hhead : ∀ u : Text, (Marker.replaceText ++ ['\n'] ++ u).head? ≠ some '\n' :=
    fun _ => show some '>' ≠ some '\n' by decide
  have hparts : e.envelope ++ rest = e.lead ++ (e.replacement ++ (Marker.replaceText ++ ['\n']
      ++ (Marker.closingText ++ ['\n'] ++ rest))) := by
    simp only [envelope_eq, List.append_assoc]
  rw [hparts, lines_lead h.path h.search,
    Text.lines_append_of_head?_ne h.replacement.terminated (hhead _),
    Text.lines_line_append hreplace, Text.lines_line_append hclosing]

/-- **The envelope of an edit is read as that edit**, and what stands after
it as if it stood alone. -/
theorem Writable.reads_envelope {e : Edit} (h : e.Writable) {rest : Text} {found : List Edit}
    {next : State} (hrest : Reads .outside rest.lines found next) :
    Reads .outside (e.envelope ++ rest).lines (e :: found) next := by
  have hreplace : ∀ number, (State.replace e.path e.search e.replacement.lines).step number
      (Marker.replaceText ++ ['\n'])
        = .ok (.awaiting e.path, some ⟨e.path, e.search, e.replacement.lines.flatten⟩) :=
    fun _ => rfl
  rw [Text.flatten_lines] at hreplace
  have hclosing : ∀ number, (State.awaiting e.path).step number (Marker.closingText ++ ['\n'])
      = .ok (.outside, none) := fun _ => rfl
  have hput := reads_replace e.path e.search [] h.replacement.noMarker
  rw [List.nil_append] at hput
  rw [h.lines_envelope]
  refine reads_lead h.path h.search (hput.append ?_)
  exact Reads.cons hreplace (Reads.skip hclosing hrest)

end Edit

/-- **Written edits can be read**: every envelope completes its edit, and the
prose around it none. -/
theorem Block.reads_write {parts : List (Text × Edit)} {last : Text}
    (hparts : ∀ part ∈ parts, part.1.IsProse ∧ part.2.Writable) (hlast : last.IsProse) :
    State.Reads .outside (write parts last).lines (parts.map Prod.snd) .outside := by
  induction parts with
  | nil => exact State.reads_outside hlast.noOpening
  | cons part parts ih =>
    rw [List.forall_mem_cons] at hparts
    obtain ⟨⟨hprose, hedit⟩, hparts⟩ := hparts
    have hwrite : write (part :: parts) last
        = part.1 ++ (part.2.envelope ++ write parts last) := by
      rw [write, write, List.flatMap_cons, List.append_assoc, List.append_assoc]
    have hhead : (part.2.envelope ++ write parts last).head? ≠ some '\n' :=
      show some '<' ≠ some '\n' by decide
    rw [hwrite, Text.lines_append_of_head?_ne hprose.terminated hhead]
    exact (State.reads_outside hprose.noOpening).append (hedit.reads_envelope (ih hparts))

/-- **Reading what was written gives the edits back**, in order and with
every character kept, whatever prose stands around the envelopes. -/
theorem Block.edits_write {parts : List (Text × Edit)} {last : Text}
    (hparts : ∀ part ∈ parts, part.1.IsProse ∧ part.2.Writable) (hlast : last.IsProse) :
    Block.edits (Block.write parts last) = .ok (parts.map Prod.snd) :=
  edits_of_reads (reads_write hparts hlast)

/-- Edits whose texts hold every kind of line boundary, a blank line, a code
fence and an indented marker, after prose with stray markers. -/
def Block.mixedParts : List (Text × Edit) :=
  [("=======\r\n</CodeChange>\n",
      ⟨"a b/c=d.txt", "one\r\n\n\ttwo\r", "  =======\n\x60\x60\x60\nthree\x0c\u2028"⟩),
    ([], ⟨"new", [], "\x1c\x1d\x1e\u0085\u2029\x0b\n"⟩)]

/-- Reading the mixed edits back. -/
theorem Block.edits_write_mixedParts :
    (∀ part ∈ mixedParts, part.1.IsProse ∧ part.2.Writable)
      ∧ Text.IsProse ">>>>>>> REPLACE\n"
      ∧ Block.edits (Block.write mixedParts ">>>>>>> REPLACE\n")
        = .ok (mixedParts.map Prod.snd) := by
  have hparts : ∀ part ∈ mixedParts, part.1.IsProse ∧ part.2.Writable := by decide
  have hlast : Text.IsProse ">>>>>>> REPLACE\n" := by decide
  exact ⟨hparts, hlast, Block.edits_write hparts hlast⟩

end EditBlocks
