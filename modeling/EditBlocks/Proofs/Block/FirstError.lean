import EditBlocks.Proofs.Block.LineEnd
import EditBlocks.Proofs.Block.Truncation

/-!
# The line of an error

The error of a response names the first line with which the response cannot
go on (`Block.locates_of_error`). The lines before it can be completed to a
response that can be read: nothing has to be added but the divider of a block
that has none yet (`State.completion`). And no response with that line after
those lines can be read, for the scanner has stopped there already, whatever
comes after. Where every line can be read, the error is that the response
ends, and then only the end is to be completed.

The edits found before the error are those of the whole blocks before its
line. A block stands where the grammar has a place for one (`Block.BlockIn`),
and its replace marker tells it (`Block.BlockIn.eq_of_number`); the scanner
completes an edit at each replace marker of a block and nowhere else
(`Block.exists_blocksBefore`).
-/

namespace EditBlocks

/-- **The error of a response that ends too early**: in a text to find. A
line that reads like the words of it is an error of another place. -/
def ParseError.IsAtEnd (e : ParseError) : Prop :=
  e = .unexpectedSection e.line "<end of input>" .search

instance (e : ParseError) : Decidable e.IsAtEnd :=
  inferInstanceAs (Decidable (e = .unexpectedSection e.line "<end of input>" .search))

/-- **A text goes on in another**: its last line is ended, if it was not, and
further lines come after. -/
def Text.GoesOnIn (t other : Text) : Prop :=
  ∃ earlier last ending further, t.lines = earlier ++ [last] ∧ Text.LineEnd ending
    ∧ Text.Terminated (last ++ ending) ∧ other.lines = earlier ++ (last ++ ending) :: further

/-- No marker is trimmed to the words that stand for the end. -/
theorem Marker.trim_ne_of_ofLine? {line : Text} {m : Marker} (h : ofLine? line = some m) :
    line.trim ≠ "<end of input>" := by
  intro hwords
  have hnone : ofLine? line = none := by
    rw [ofLine?, ← trim_of_ofLine? h, hwords]
    decide
  rw [hnone] at h
  cases h

namespace Block

open State

/-! ## Blocks among lines

A block is told by where its replace marker stands: of two blocks with the
same marker line, the lines before it are the same, and so the blocks are. -/

/-- **A whole block among lines**, where the grammar has a place for one:
after prose and whole envelopes, the opening tag of its own envelope, and
noise and whole blocks in there. What comes after it does not matter. -/
structure BlockIn (ls : List Text) where
  /-- Prose and whole envelopes before. -/
  parts : List Part
  /-- The opening tag of its envelope. -/
  opening : OpeningLine
  /-- Noise and whole blocks before it in the envelope. -/
  items : List Item
  /-- The block up to its replace marker. -/
  body : Body
  /-- The replace marker. -/
  replace : MarkerLine .replace
  /-- The lines after the block. -/
  after : List Text
  /-- These are all the lines. -/
  lines_eq : ls = parts.flatMap Part.lines ++ opening.1 :: (items.flatMap Item.lines ++ body.lines)
    ++ replace.1 :: after

namespace BlockIn

variable {ls : List Text}

/-- The edit of the block. -/
def edit (b : BlockIn ls) : Edit := b.body.edit b.opening.path

/-- The lines before the replace marker. -/
def before (b : BlockIn ls) : List Text :=
  b.parts.flatMap Part.lines ++ b.opening.1 :: (b.items.flatMap Item.lines ++ b.body.lines)

/-- **The number of the line of its replace marker**, counted from one. -/
def number (b : BlockIn ls) : Nat := b.before.length + 1

/-- The lines before the replace marker, and those after it. -/
theorem split_of_number (b : BlockIn ls) {rest after : List Text} {line : Text}
    (hls : ls = rest ++ line :: after) (hnumber : b.number = rest.length + 1) :
    b.before = rest ∧ b.replace.1 = line ∧ b.after = after := by
  obtain ⟨hbefore, hafter⟩ := List.append_inj (b.lines_eq.symm.trans hls) (Nat.succ.inj hnumber)
  exact ⟨hbefore, List.cons.inj hafter⟩

/-- **A block is told by the line of its replace marker.** -/
theorem eq_of_number {b b' : BlockIn ls} (h : b.number = b'.number) : b = b' := by
  obtain ⟨hbefore, hreplace, hafter⟩ := b.split_of_number b'.lines_eq h
  obtain ⟨parts, opening, items, body, replace, after, hlines⟩ := b
  obtain ⟨parts', opening', items', body', replace', after', hlines'⟩ := b'
  -- up to the replace marker the lines are those of a document that breaks off there
  have hdocument : Document.lines ⟨parts, some ⟨opening, items, some body⟩⟩
      = Document.lines ⟨parts', some ⟨opening', items', some body'⟩⟩ := hbefore
  cases Document.lines_injective hdocument
  cases Subtype.ext hreplace
  cases hafter
  rfl

/-- **A block is read** up to its replace marker. -/
theorem reads (b : BlockIn ls) :
    ∃ es, Reads outside b.before es (State.replace b.opening.path
      (b.body.sought.map Subtype.val).flatten (b.body.put.map Subtype.val)) := by
  have hparts := Reads.flatMap fun part (_ : part ∈ b.parts) => part.reads
  have hitems := Reads.flatMap fun item (_ : item ∈ b.items) => item.reads b.opening.path
  have henvelope := hitems.append (b.body.reads b.opening.path)
  exact ⟨_, hparts.append (Reads.skip b.opening.steps.step_eq henvelope)⟩

/-- **Its replace marker completes its edit.** -/
theorem completes {rest after : List Text} {line : Text} {es : List Edit} {mid next : State}
    {found : Option Edit} (b : BlockIn ls) (hls : ls = rest ++ line :: after)
    (hrest : Reads outside rest es mid) (hstep : Steps line mid next found)
    (hnumber : b.number = rest.length + 1) : found = some b.edit := by
  obtain ⟨hbefore, hline, -⟩ := b.split_of_number hls hnumber
  obtain ⟨es', hreads⟩ := b.reads
  rw [hbefore] at hreads
  obtain rfl := hreads.unique hrest
  cases hstep with
  | put h => exact absurd h (by simp [← hline, b.replace.2])
  | replace h => rfl

end BlockIn

/-- **Lines that lead into a text to put there** end with the body of a
block, where the grammar has a place for it. -/
theorem State.Reads.exists_body {before found : List Text} {es : List Edit} {path sought : Text}
    (h : Reads outside before es (replace path sought found)) :
    ∃ (parts : List Part) (opening : OpeningLine) (items : List Item) (body : Body),
      before = parts.flatMap Part.lines ++ opening.1 :: (items.flatMap Item.lines ++ body.lines)
        ∧ body.edit opening.path = ⟨path, sought, found.flatten⟩ := by
  have hfinish : finish 0 (replace path sought found)
      = .ok (some ⟨path, sought, (dropFences found).flatten⟩) := rfl
  obtain ⟨⟨parts, tail⟩, rfl⟩ : ∃ d : Document, d.lines = before := h.completes hfinish
  have hparts := Reads.flatMap fun part (_ : part ∈ parts) => part.reads
  cases tail with
  | none =>
    -- after whole envelopes the scanner is outside
    rw [Document.lines, Option.elim_none, List.append_nil] at h
    cases hparts.unique h
  | some tail =>
    obtain ⟨opening, items, unfinished⟩ := tail
    have hitems := Reads.flatMap fun item (_ : item ∈ items) => item.reads opening.path
    cases unfinished with
    | none =>
      -- after whole blocks it is between blocks
      rw [Document.lines, Option.elim_some, Tail.lines, Option.elim_none, List.append_nil] at h
      cases (hparts.append (Reads.skip opening.steps.step_eq hitems)).unique h
    | some body =>
      have hbody := hitems.append (body.reads opening.path)
      have hread := hparts.append (Reads.skip opening.steps.step_eq hbody)
      refine ⟨parts, opening, items, body, rfl, ?_⟩
      cases hread.unique h
      rfl

/-- **The blocks before a line**: in order, those whose replace marker stands
before it. -/
structure BlocksBefore {ls : List Text} (number : Nat) (blocks : List (BlockIn ls)) : Prop where
  /-- They stand in order. -/
  inOrder : blocks.Pairwise (·.number < ·.number)
  /-- They are all of them, and no others. -/
  mem_iff : ∀ b, b ∈ blocks ↔ b.number < number

namespace BlocksBefore

variable {ls : List Text} {number : Nat} {blocks : List (BlockIn ls)}

/-- No block ends before the first line. -/
theorem nil : BlocksBefore 1 ([] : List (BlockIn ls)) := by
  refine ⟨.nil, fun b => iff_of_false List.not_mem_nil fun hb => ?_⟩
  exact absurd (Nat.le_of_lt_succ hb) (Nat.not_succ_le_zero _)

/-- A line that ends no block. -/
theorem skip (h : BlocksBefore number blocks) (hline : ∀ b : BlockIn ls, b.number ≠ number) :
    BlocksBefore (number + 1) blocks := by
  refine ⟨h.inOrder, fun b => (h.mem_iff b).trans ?_⟩
  have := hline b
  omega

/-- The line that ends a block. -/
theorem concat {b : BlockIn ls} (h : BlocksBefore b.number blocks) :
    BlocksBefore (b.number + 1) (blocks ++ [b]) := by
  constructor
  · rw [List.pairwise_append]
    refine ⟨h.inOrder, List.pairwise_singleton _ _, fun earlier hearlier last hlast => ?_⟩
    exact List.mem_singleton.1 hlast ▸ (h.mem_iff earlier).1 hearlier
  · intro other
    rw [List.mem_append, List.mem_singleton, h.mem_iff, Nat.lt_succ_iff_lt_or_eq]
    exact or_congr_right ⟨fun hother => hother ▸ rfl, BlockIn.eq_of_number⟩

end BlocksBefore

/-- **The edits that lines complete** are those of the blocks among them. -/
theorem exists_blocksBefore {ls before after : List Text} {es : List Edit} {s : State}
    (hls : ls = before ++ after) (h : Reads outside before es s) :
    ∃ blocks : List (BlockIn ls), BlocksBefore (before.length + 1) blocks
      ∧ blocks.map BlockIn.edit = es := by
  induction before using List.reverseRecOn generalizing after es s with
  | nil =>
    cases h
    exact ⟨[], .nil, rfl⟩
  | append_singleton earlier line ih =>
    obtain ⟨mid, fs, found, hearlier, hstep, rfl⟩ := h.exists_of_concat
    rw [List.append_assoc, List.singleton_append] at hls
    obtain ⟨blocks, hblocks, rfl⟩ := ih hls hearlier
    rw [List.length_append, List.length_singleton]
    cases found with
    | none =>
      rw [Option.toList_none, List.append_nil]
      refine ⟨blocks, hblocks.skip fun b hb => ?_, rfl⟩
      cases b.completes hls hearlier hstep hb
    | some e =>
      cases hstep with
      | replace hline =>
        obtain ⟨parts, opening, items, body, rfl, hedit⟩ := hearlier.exists_body
        let b : BlockIn ls := ⟨parts, opening, items, body, ⟨line, hline⟩, after, hls⟩
        refine ⟨blocks ++ [b], BlocksBefore.concat (b := b) hblocks, ?_⟩
        rw [List.map_append, List.map_singleton]
        exact congrArg (blocks.map BlockIn.edit ++ [·]) hedit

/-! ## Where the scanner stops

There is a last line that can be read, and the state after it is what the
error is about. -/

/-- **The error of a line** names the line, and is not that of the end. -/
theorem State.step_error {s : State} {line : Text} {number : Nat} {e : ParseError}
    (h : s.step number line = .error e) : e.line = number ∧ ¬e.IsAtEnd := by
  unfold step at h
  split at h
  case h_1 => -- an opening tag
    split at h <;> cases h
    exact ⟨rfl, nofun⟩
  case h_5 => -- a line between blocks
    split at h <;> cases h
    exact ⟨rfl, fun hend => nomatch (ParseError.unexpectedSection.inj hend).2.2⟩
  case h_10 hmarker => -- a marker out of its place
    cases h
    refine ⟨rfl, fun hend => Marker.trim_ne_of_ofLine? hmarker ?_⟩
    exact (ParseError.unexpectedSection.inj hend).2.1
  all_goals cases h

/-- A text to find begins with a line, so before it ends there is a last
one. -/
theorem State.Reads.exists_last_of_search {ls found : List Text} {es : List Edit} {path : Text}
    (h : Reads outside ls es (search path found)) :
    ∃ before line mid, ls = before ++ [line] ∧ Reads outside before es mid
      ∧ Steps line mid (search path found) none := by
  obtain rfl | ⟨before, line, rfl⟩ := List.eq_nil_or_concat ls
  · cases h
  · rw [List.concat_eq_append] at h ⊢
    obtain ⟨mid, fs, completed, hbefore, hstep, rfl⟩ := h.exists_of_concat
    obtain rfl : completed = none := by cases hstep <;> rfl
    rw [Option.toList_none, List.append_nil]
    exact ⟨before, line, mid, rfl, hbefore, hstep⟩

/-- **Where the error of a response comes from**: a line that cannot be read
where the lines before it lead to; or the last line, when it can be read and
the response ends in a text to find. -/
theorem exists_of_error {response : Text} {e : ParseError}
    (h : (scan response).error = some e) :
    ∃ before line after mid, response.lines = before ++ line :: after
      ∧ e.line = before.length + 1 ∧ Reads outside before (scan response).edits mid
      ∧ (mid.step e.line line = .error e
        ∨ after = [] ∧ e.IsAtEnd ∧ ∃ path found, Steps line mid (search path found) none) := by
  unfold scan at h ⊢
  dsimp only at h ⊢
  rcases hrun : State.run 1 .outside response.lines with ⟨es, stopped | last⟩
  · rw [hrun] at h
    cases h
    obtain ⟨before, line, after, mid, hlines, hbefore, herror⟩ := run_eq_error_iff.1 hrun
    rw [Nat.add_comm] at herror
    have hline := (step_error herror).1
    exact ⟨before, line, after, mid, hlines, hline, hbefore, Or.inl (hline ▸ herror)⟩
  · rw [hrun] at h
    dsimp only at h ⊢
    cases last with
    | outside | awaiting path | replace path sought found => cases h
    | search path found =>
      cases h
      obtain ⟨before, line, mid, hlines, hbefore, hstep⟩ :=
        (reads_of_run_eq hrun).exists_last_of_search
      rw [hlines]
      exact ⟨before, line, [], mid, rfl, List.length_append, hbefore,
        Or.inr ⟨rfl, rfl, path, found, hstep⟩⟩

/-- **A line that cannot be read** decides what is made of a response,
whatever comes after it. -/
theorem scan_of_step_error {response line : Text} {before after : List Text} {es : List Edit}
    {mid : State} {e : ParseError} (hlines : response.lines = before ++ line :: after)
    (hbefore : Reads outside before es mid)
    (herror : mid.step (before.length + 1) line = .error e) :
    scan response = ⟨es, some e, []⟩ := by
  rw [Nat.add_comm] at herror
  unfold scan
  dsimp only
  rw [run_eq_error_iff.2 ⟨before, line, after, mid, hlines, hbefore, herror⟩]

/-! ## What completes a response

Outside envelopes nothing has to be added, and in an envelope neither, since
a response may be cut short there. In a text to find it is the divider, on a
line of its own. -/

/-- **What has to be added for a response to be able to end**: the divider of
a block that has none yet. -/
def State.completion : State → Text
  | search _ _ => Marker.dividerText ++ ['\n']
  | outside | awaiting _ | replace _ _ _ => []

/-- **Lines that have been read can be completed** to a response that can be
read. -/
theorem edits_of_completion {response : Text} {before : List Text} {es : List Edit} {s : State}
    (hlines : response.lines = before ++ s.completion.lines) (h : Reads outside before es s) :
    ∃ found, edits response = .ok found := by
  cases s with
  | outside | awaiting path | replace path sought found =>
    rw [completion, Text.lines_nil, List.append_nil] at hlines
    exact ⟨_, edits_of_reads_finish (hlines ▸ h) fun _ => rfl⟩
  | search path found =>
    have hdivider : Marker.ofLine? (Marker.dividerText ++ ['\n']) = some .divider := by decide
    have hlast := h.concat (Steps.divider hdivider)
    exact ⟨_, edits_of_reads_finish (hlines ▸ hlast) fun _ => rfl⟩

/-- The completion begins a line of its own. -/
theorem lines_append_completion {t : Text} (ht : t.Terminated) (s : State) :
    Text.lines (t ++ s.completion) = t.lines ++ s.completion.lines := by
  refine Text.lines_append_of_head?_ne ht ?_
  cases s <;> exact nofun

/-- A line that leads into a text to find does so with another end too. -/
theorem steps_append_of_search {line : Text} {mid : State} {path : Text}
    {found : List Text} {completed : Option Edit} (h : Steps line mid (search path found) completed)
    {ending : Text} (hending : ending.isBlank = true) :
    ∃ found', Steps (line ++ ending) mid (search path found') completed := by
  have hmarker := Marker.ignoresEnd_ofLine? line hending
  cases h with
  | search h => exact ⟨_, .search (hmarker.trans h)⟩
  | sought h => exact ⟨_, .sought (hmarker.trans h)⟩

/-! ## The line of an error

The two kinds of errors are treated one after the other: those of a line, and
those of the end. -/

/-- **An error of a line** of the response. -/
structure PointsAtLine (response : Text) (e : ParseError) : Prop where
  /-- Lines are counted from one. -/
  pos : 1 ≤ e.line
  /-- The response has that line. -/
  le : e.line ≤ response.lines.length
  /-- The lines before it can stand at the beginning of a response that can
  be read. -/
  viable : ∃ other, other.lines.take (e.line - 1) = response.lines.take (e.line - 1)
    ∧ ∃ found, edits other = .ok found
  /-- Whatever comes after it, the same edits are found and the same error is
  given. -/
  final : ∀ other, other.lines.take e.line = response.lines.take e.line →
    scan other = ⟨(scan response).edits, some e, []⟩

/-- **An error of the end** of the response. -/
structure PointsAtEnd (response : Text) (e : ParseError) : Prop where
  /-- It names the last line. -/
  line_eq : e.line = response.lines.length
  /-- The response can go on and be read. -/
  viable : ∃ other, response.GoesOnIn other ∧ ∃ found, edits other = .ok found

/-- **An error that names the first line with which a response cannot go
on.** -/
structure Locates (response : Text) (e : ParseError) : Prop where
  /-- The edits found are those of the blocks before the line. -/
  found : ∃ blocks : List (BlockIn response.lines), BlocksBefore e.line blocks
    ∧ blocks.map BlockIn.edit = (scan response).edits
  /-- An error of a line points at that line. -/
  line : ¬e.IsAtEnd → PointsAtLine response e
  /-- An error of the end points at the end. -/
  atEnd : e.IsAtEnd → PointsAtEnd response e

variable {response line : Text} {before after : List Text} {es : List Edit} {mid : State}
  {e : ParseError}

theorem pointsAtLine_of_step_error (hlines : response.lines = before ++ line :: after)
    (hnumber : e.line = before.length + 1)
    (hbefore : Reads outside before (scan response).edits mid)
    (herror : mid.step e.line line = .error e) : PointsAtLine response e := by
  have htake : response.lines.take e.line = before ++ [line] := by
    rw [hlines, hnumber, List.take_length_add_append]
    rfl
  refine ⟨by omega, ?_, ?_, ?_⟩
  · rw [hlines, hnumber, List.length_append, List.length_cons]
    omega
  · have hcut := (Text.lines_flatten_of_append hlines).1
    have hended : Text.Terminated before.flatten :=
      Text.terminated_of_append hlines (List.cons_ne_nil _ _)
    have hother := lines_append_completion hended mid
    rw [hcut] at hother
    refine ⟨before.flatten ++ mid.completion, ?_, edits_of_completion hother hbefore⟩
    rw [hnumber, Nat.add_sub_cancel, hother, hlines, List.take_left, List.take_left]
  · intro other hsame
    have hother : other.lines = before ++ line :: other.lines.drop e.line := by
      rw [← List.singleton_append, ← List.append_assoc, ← htake, ← hsame, List.take_append_drop]
    exact scan_of_step_error hother hbefore (hnumber ▸ herror)

theorem pointsAtEnd_of_steps {path : Text} {found : List Text}
    (hlines : response.lines = before ++ [line]) (hnumber : e.line = before.length + 1)
    (hbefore : Reads outside before es mid)
    (hstep : Steps line mid (search path found) none) : PointsAtEnd response e := by
  obtain ⟨ending, hending, hended, hlast, hcompleted⟩ := Text.exists_ended hlines
  obtain ⟨found', hstep'⟩ := steps_append_of_search hstep (Text.isBlank_of_lineEnd hending)
  have hother := lines_append_completion hended (search path found')
  rw [hcompleted] at hother
  refine ⟨?_, response ++ ending ++ (search path found').completion, ?_,
    edits_of_completion hother (hbefore.concat hstep')⟩
  · rw [hnumber, hlines, List.length_append, List.length_singleton]
  · exact ⟨before, line, ending, _, hlines, hending, hlast,
      hother.trans (List.append_assoc _ _ _)⟩

/-- **The error of a response points at the first line with which the
response cannot go on.** The lines before it can be completed to a response
that can be read, and with that line no response can be, which gives the same
error whatever comes after. Where every line can be read, it points at the
last one, after which the response can go on. The edits found are those of
the blocks whose replace marker stands before that line. -/
theorem locates_of_error (h : (scan response).error = some e) : Locates response e := by
  obtain ⟨before, line, after, mid, hlines, hnumber, hbefore, hstop⟩ := exists_of_error h
  refine ⟨?_, fun hline => ?_, fun hend => ?_⟩
  · rw [hnumber]
    exact exists_blocksBefore hlines hbefore
  · obtain herror | ⟨-, hend, -⟩ := hstop
    · exact pointsAtLine_of_step_error hlines hnumber hbefore herror
    · exact absurd hend hline
  · obtain herror | ⟨rfl, -, path, found, hstep⟩ := hstop
    · exact absurd hend (step_error herror).2
    · exact pointsAtEnd_of_steps hlines hnumber hbefore hstep

/-- A response with a remark after its first block, and what it would be if
it broke off in its second one. -/
def remarked : Text × Text :=
  ("<CodeChange file=\"a\">\n<<<<<<< SEARCH\none\n=======\n1\n>>>>>>> REPLACE\nand also\n"
      ++ "<<<<<<< SEARCH\ntwo\n",
    "<CodeChange file=\"a\">\n<<<<<<< SEARCH\none\n=======\n1\n>>>>>>> REPLACE\n\n"
      ++ "<<<<<<< SEARCH\ntwo")

/-- The error of the one is that of the remark, and that of the other is that
it ends. -/
theorem locates_of_error_remarked :
    (scan remarked.1).error = some (.unexpectedSection 7 "and also" .awaiting)
      ∧ Locates remarked.1 (.unexpectedSection 7 "and also" .awaiting)
      ∧ (scan remarked.2).error = some (.unexpectedSection 9 "<end of input>" .search)
      ∧ Locates remarked.2 (.unexpectedSection 9 "<end of input>" .search) := by
  have hremark : (scan remarked.1).error = some (.unexpectedSection 7 "and also" .awaiting) := by
    decide +kernel
  have hend : (scan remarked.2).error
      = some (.unexpectedSection 9 "<end of input>" .search) := by
    decide +kernel
  exact ⟨hremark, locates_of_error hremark, hend, locates_of_error hend⟩

end Block

end EditBlocks
