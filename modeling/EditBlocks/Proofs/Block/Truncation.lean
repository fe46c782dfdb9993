import EditBlocks.Proofs.Block.Parsing
import EditBlocks.Proofs.Text.LineEdge

/-!
# Responses that are cut off

A response that is cut off at the end of a line is read like the whole one,
as far as it goes (`Block.cutOff_edits`). The edits completed before the cut
are the first ones of the whole response. A block that is cut off after its
divider gives one more, the next edit of the whole response with the
beginning of its replacement; and one that is cut off before its divider is
an error.

The scanner's state at the cut says which of these it is. What ties the state
to the edits still to come is that a block with its divider will be an edit
of the same path and the same search text, and that its replacement goes on
from the lines gathered so far (`State.Reads.exists_edit_of_replace`). The
code fences at the end do not disturb this: those dropped at a cut are the
last lines gathered, and without them there is still a beginning of the
replacement.
-/

namespace EditBlocks

/-- **An edit that is cut short**: the same path, the same search text, and a
beginning of the replacement. -/
structure Edit.IsCutOf (e whole : Edit) : Prop where
  /-- The path is the same. -/
  path : e.path = whole.path
  /-- The text to find is the same. -/
  search : e.search = whole.search
  /-- The text to put there is a beginning of the whole. -/
  replacement : e.replacement <+: whole.replacement

namespace Block

open State

/-! ## Code fences at the end

The fences that are dropped are the longest run of them at the end. With more
lines after them, they are not dropped but belong to the text. -/

/-- Without the code fences at their end lines are a beginning of what they
were. -/
theorem State.dropFences_prefix_self (found : List Text) : dropFences found <+: found :=
  List.rdropWhile_prefix Marker.isFence found

/-- **One more line takes nothing back**: what is left without code fences is
a beginning of what is left after one more line. -/
theorem State.dropFences_prefix_concat (found : List Text) (line : Text) :
    dropFences found <+: dropFences (found ++ [line]) := by
  show found.rdropWhile Marker.isFence <+: (found ++ [line]).rdropWhile Marker.isFence
  rw [List.rdropWhile_concat]
  split
  · exact List.prefix_refl _
  · exact (dropFences_prefix_self found).trans (List.prefix_append _ _)

/-- Joined, a beginning of some lines is a beginning of their text. -/
theorem isPrefix_flatten {ls ms : List Text} (h : ls <+: ms) : ls.flatten <+: ms.flatten := by
  obtain ⟨rest, rfl⟩ := h
  rw [List.flatten_append]
  exact List.prefix_append _ _

/-! ## The scanner at the cut

What the state tells of edits to come: in a text to put, the edit it belongs
to; in a text to find, that there is a block. -/

/-- **The edit of a block with its divider**: the next edit to come has the
path and the search text of the block, and its replacement goes on from the
lines gathered so far. -/
theorem State.Reads.exists_edit_of_replace {path sought : Text} {found ls : List Text}
    {es : List Edit} {next : State} {count : Nat} {unfinished : Option Edit}
    (h : Reads (replace path sought found) ls es next)
    (hfinish : next.finish count = .ok unfinished) :
    ∃ e rest, es ++ unfinished.toList = e :: rest
      ∧ Edit.IsCutOf ⟨path, sought, (dropFences found).flatten⟩ e := by
  generalize hs : replace path sought found = s at h
  induction h generalizing found with
  | nil s =>
    subst hs
    cases hfinish
    exact ⟨_, [], rfl, rfl, rfl, List.prefix_refl _⟩
  | cons first others ih =>
    subst hs
    cases steps_of_step_eq (first 0) with
    | @put _ _ _ hline =>
      obtain ⟨e, rest, hes, hcut⟩ := ih hfinish rfl
      refine ⟨e, rest, hes, hcut.path, hcut.search, ?_⟩
      exact (isPrefix_flatten (dropFences_prefix_concat found _)).trans hcut.replacement
    | @replace _ _ _ hline =>
      exact ⟨_, _, rfl, rfl, rfl, isPrefix_flatten (dropFences_prefix_self found)⟩

/-- **Where a text to find comes from**: a search marker that leads into its
block, and the lines after it. -/
theorem State.Reads.exists_search {s : State} {path : Text} {found ls : List Text}
    {es : List Edit} (h : Reads s ls es (search path found)) :
    (∃ (before : List Text) (marker : MarkerLine .search) (sought : List TextLine)
        (fs : List Edit), ls = before ++ marker.1 :: sought.map Subtype.val
          ∧ Reads s before fs (awaiting path))
      ∨ ∃ (found' : List Text) (sought : List TextLine), s = search path found'
          ∧ ls = sought.map Subtype.val := by
  generalize hlast : search path found = last at h
  induction h with
  | nil s => exact Or.inr ⟨found, [], hlast.symm, rfl⟩
  | @cons s mid next line ls completed es first others ih =>
    rcases ih hlast with ⟨before, marker, sought, fs, rfl, hbefore⟩ | ⟨found', sought, rfl, rfl⟩
    · exact Or.inl ⟨line :: before, marker, sought, _, rfl, .cons first hbefore⟩
    · cases steps_of_step_eq (first 0) with
      | search hline => exact Or.inl ⟨[], ⟨line, hline⟩, sought, [], rfl, .nil _⟩
      | sought hline => exact Or.inr ⟨_, ⟨line, hline⟩ :: sought, rfl, rfl⟩

/-! ## The lines of a text to find

A cut is in a text to find when it is after the search marker and before the
divider of some block. -/

/-- **The text to find of a block**, among the lines in which it stands. -/
structure SoughtIn (ls : List Text) where
  /-- The lines before the block. -/
  before : List Text
  /-- The search marker. -/
  marker : MarkerLine .search
  /-- The lines of the text to find. -/
  sought : List TextLine
  /-- The divider. -/
  divider : MarkerLine .divider
  /-- The lines after the divider. -/
  after : List Text
  /-- These are all the lines. -/
  lines_eq : ls = before ++ marker.1 :: (sought.map Subtype.val ++ divider.1 :: after)
  /-- Where the search marker stands, a block can begin. -/
  awaits : ∃ es path, Reads outside before es (awaiting path)

/-- **A cut after so many lines falls in a text to find**: after its search
marker and before its divider. -/
def CutsSought (ls : List Text) (k : Nat) : Prop :=
  ∃ text : SoughtIn ls, text.before.length < k ∧ k ≤ text.before.length + 1 + text.sought.length

theorem CutsSought.reads {ls : List Text} {k : Nat} (h : CutsSought ls k) :
    ∃ es path found, Reads outside (ls.take k) es (search path found) := by
  obtain ⟨⟨before, marker, sought, divider, after, rfl, es, path, hbefore⟩, hlow, hhigh⟩ := h
  obtain ⟨m, rfl⟩ := Nat.exists_eq_add_of_lt hlow
  have hm : m ≤ (sought.map Subtype.val).length := by
    rw [List.length_map]
    dsimp only at hhigh
    omega
  have htake : (before ++ marker.1 :: (sought.map Subtype.val ++ divider.1 :: after)).take
      (before.length + m + 1) = before ++ marker.1 :: (sought.map Subtype.val).take m := by
    rw [Nat.add_assoc, List.take_length_add_append, List.take_succ_cons,
      List.take_append_of_le_length hm]
  have hplain : ∀ line ∈ (sought.map Subtype.val).take m, Marker.ofLine? line = none := by
    intro line hline
    obtain ⟨text, -, rfl⟩ := List.mem_map.1 (List.mem_of_mem_take hline)
    exact text.2
  rw [htake]
  exact ⟨_, path, _, hbefore.append
    (Reads.skip (Steps.search marker.2).step_eq (reads_search path [] hplain))⟩

/-- **When a cut leaves the scanner in a text to find**, it falls in one, if
the whole can be read. -/
theorem cutsSought_of_reads {ls : List Text} {k : Nat} {es fs : List Edit} {path : Text}
    {found : List Text} {last : State} {count : Nat} {unfinished : Option Edit}
    (htake : Reads outside (ls.take k) es (search path found))
    (hdrop : Reads (search path found) (ls.drop k) fs last)
    (hfinish : last.finish count = .ok unfinished) : CutsSought ls k := by
  have hrest : InsideSought (ls.drop k) := hdrop.completes hfinish
  generalize hls : ls.drop k = rest at hrest
  cases hrest with
  | @divided more divider after hput =>
    obtain ⟨before, marker, sought, gs, hbefore, hreads⟩ | ⟨found', sought, hs, -⟩
      := htake.exists_search
    · refine ⟨⟨before, marker, sought ++ more, divider, after, ?_, gs, path, hreads⟩, ?_⟩
      · rw [← List.take_append_drop k ls, hbefore, hls, List.map_append, List.append_assoc,
          List.append_assoc, List.cons_append]
      · -- the divider comes after the cut, so there are enough lines for it
        have hk : k < ls.length := by
          by_contra hk
          rw [List.drop_eq_nil_of_le (Nat.le_of_not_lt hk)] at hls
          exact absurd hls.symm (by simp)
        have hlength := congrArg List.length hbefore
        rw [List.length_take, Nat.min_eq_left (Nat.le_of_lt hk), List.length_append,
          List.length_cons, List.length_map] at hlength
        dsimp only
        rw [List.length_append]
        omega
    · cases hs

/-! ## What is read of a response that is cut off

The three outcomes are told apart by the state at the cut and then in the
words of the whole response. -/

/-- The edits of a response whose lines lead to a state in which it may
end. -/
theorem edits_of_reads_finish {response : Text} {es : List Edit} {last : State}
    {unfinished : Option Edit} (h : Reads outside response.lines es last)
    (hfinish : ∀ count, last.finish count = .ok unfinished) :
    edits response = .ok (es ++ unfinished.toList) :=
  edits_eq_ok_iff.2 ⟨es, last, unfinished, h, hfinish _, rfl⟩

/-- The error of a response that ends in a text to find. -/
theorem edits_of_reads_search {response path : Text} {found : List Text} {es : List Edit}
    (h : Reads outside response.lines es (search path found)) :
    edits response
      = .error (.unexpectedSection response.lines.length "<end of input>" .search) := by
  unfold edits scan
  dsimp only
  rw [h.run_eq 1]
  rfl

/-- **Edits that lines complete**, read from the beginning of a response. -/
def Completed (ls : List Text) (es : List Edit) : Prop := ∃ s, Reads outside ls es s

/-- **What can be read of a response that is cut off** after so many lines,
when the whole has these edits. -/
inductive CutOff (response : Text) (found : List Edit) (k : Nat) :
    Except ParseError (List Edit) → Prop
  /-- In a text to find nothing can be made of the cut, and the error names
  the last line. -/
  | broken (h : CutsSought response.lines k) :
      CutOff response found k (.error (.unexpectedSection k "<end of input>" .search))
  /-- The first edits of the whole response: those completed before the
  cut. -/
  | whole (h : ¬CutsSought response.lines k) {es rest : List Edit}
      (hes : found = es ++ rest) (hcompleted : Completed (response.lines.take k) es) :
      CutOff response found k (.ok es)
  /-- The first edits of the whole response, and the next one cut short. -/
  | short (h : ¬CutsSought response.lines k) {es rest : List Edit} {e next : Edit}
      (hes : found = es ++ next :: rest) (hcompleted : Completed (response.lines.take k) es)
      (he : e.IsCutOf next) : CutOff response found k (.ok (es ++ [e]))

/-- **A response that is cut off at the end of a line** gives the first edits
of the whole response, the next one cut short if there is its divider, and
nothing else; in a text to find it gives the error of its last line. -/
theorem cutOff_edits {response : Text} {found : List Edit} (h : edits response = .ok found)
    (k : Nat) : CutOff response found k (edits (response.lines.take k).flatten) := by
  obtain ⟨es, last, unfinished, hreads, hfinish, rfl⟩ := edits_eq_ok_iff.1 h
  have hlines := List.take_append_drop k response.lines
  rw [← hlines] at hreads
  obtain ⟨mid, fs, gs, htake, hdrop, rfl⟩ := hreads.exists_of_append
  have hcut : Text.lines (response.lines.take k).flatten = response.lines.take k :=
    (Text.lines_flatten_of_append hlines.symm).1
  have hread := htake
  rw [← hcut] at hread
  -- outside a text to find the cut response can be read
  have hnot : (∀ path found, mid ≠ search path found) → ¬CutsSought response.lines k := by
    intro hmid hsought
    obtain ⟨es', path, found, htake'⟩ := hsought.reads
    exact hmid path found (htake.unique htake')
  rw [List.append_assoc]
  cases mid with
  | outside =>
    rw [edits_of_reads_finish hread fun _ => rfl, Option.toList_none, List.append_nil]
    exact .whole (hnot fun _ _ => nofun) rfl ⟨_, htake⟩
  | awaiting path =>
    rw [edits_of_reads_finish hread fun _ => rfl, Option.toList_none, List.append_nil]
    exact .whole (hnot fun _ _ => nofun) rfl ⟨_, htake⟩
  | search path lines =>
    have hsought := cutsSought_of_reads htake hdrop hfinish
    have hlength : (response.lines.take k).length = k := by
      obtain ⟨text, -, hk⟩ := hsought
      rw [List.length_take, text.lines_eq, List.length_append, List.length_cons,
        List.length_append, List.length_map]
      omega
    rw [edits_of_reads_search hread, hcut, hlength]
    exact .broken hsought
  | replace path sought lines =>
    obtain ⟨e, rest, hnext, he⟩ := hdrop.exists_edit_of_replace hfinish
    rw [edits_of_reads_finish hread fun _ => rfl, hnext]
    exact .short (hnot fun _ _ => nofun) rfl ⟨_, htake⟩ he

/-- A response with a code fence in a replacement, and another block after
it. -/
def fenced : Text :=
  "<CodeChange file=\"a\">\n<<<<<<< SEARCH\none\n=======\n1\n\x60\x60\x60\nI\n>>>>>>> REPLACE\n"
    ++ "<<<<<<< SEARCH\n=======\nrest\n>>>>>>> REPLACE\n</CodeChange>\n"

/-- The edits of the response with a code fence. -/
def fencedEdits : List Edit := [⟨"a", "one\n", "1\n\x60\x60\x60\nI\n"⟩, ⟨"a", [], "rest\n"⟩]

/-- Cut off after its code fence, the response gives its first edit, cut
short before the fence. -/
theorem cutOff_edits_fenced :
    edits fenced = .ok fencedEdits
      ∧ edits (fenced.lines.take 6).flatten = .ok [⟨"a", "one\n", "1\n"⟩]
      ∧ CutOff fenced fencedEdits 6 (edits (fenced.lines.take 6).flatten) := by
  have hedits : edits fenced = .ok fencedEdits := by decide +kernel
  exact ⟨hedits, by decide +kernel, cutOff_edits hedits 6⟩

end Block

end EditBlocks
