import EditBlocks.Proofs.Block.Grammar
import EditBlocks.Proofs.Block.LineEnd
import EditBlocks.Proofs.Block.Writing
import EditBlocks.Proofs.Text.LineEdge

/-!
# Text between blocks, and responses one after the other

Between blocks the scanner carries nothing but the path of the envelope, and
outside envelopes not even that. So what stands there and is passed over can
be put in or left out, and a response that ends outside envelopes can have
another one after it (`Block.edits_undisturbed`). What the second gives is
what it gives alone; only the numbers of its lines, which its error may name,
go on from those of the first (`State.run_further`).

Texts are put together here, not lines, and where a carriage return comes to
stand before a line feed, two lines become one. Between blocks this does no
harm: the line feed alone was a blank line, which is passed over, and what
the line before it is read as does not depend on how it ends
(`State.Steps.append_of_isBlank`).
-/

namespace EditBlocks

namespace Text

/-- **Text that may stand between the blocks of an envelope**: it ends where
its last line ends, and every line of it is blank or a code fence. -/
structure IsNoise (t : Text) : Prop where
  /-- It is empty or ends with a line boundary. -/
  terminated : t.Terminated
  /-- Every line of it is noise. -/
  noise : ∀ line ∈ t.lines, Marker.isNoise line = true

instance (t : Text) : Decidable t.IsNoise :=
  decidable_of_iff (t.Terminated ∧ ∀ line ∈ t.lines, Marker.isNoise line = true)
    ⟨fun h => ⟨h.1, h.2⟩, fun h => ⟨h.1, h.2⟩⟩

end Text

/-- **The same error so many lines further on.** -/
def ParseError.further (count : Nat) : ParseError → ParseError
  | missingPath line fragment => missingPath (line + count) fragment
  | unexpectedSection line fragment place => unexpectedSection (line + count) fragment place

namespace Block

namespace State

/-- Whether a state lies between blocks, inside an envelope or outside. -/
def isBetween : State → Bool
  | outside => true
  | awaiting _ => true
  | search _ _ => false
  | replace _ _ _ => false

/-- **Text that is passed over** where the scanner stands. -/
inductive PassesOver : State → Text → Prop
  /-- Between blocks it is noise. -/
  | noise {s : State} {t : Text} (hs : s.isBetween = true) (h : t.IsNoise) : PassesOver s t
  /-- Outside envelopes it is anything without an opening tag. -/
  | prose {t : Text} (h : t.IsProse) : PassesOver outside t

variable {s mid next : State} {line t u : Text} {ls : List Text} {es fs : List Edit}
  {found : Option Edit}

/-! ## Text that is passed over

Between blocks it is noise, and outside envelopes it is prose as well. -/

/-- Noise is passed over between blocks. -/
theorem reads_noise (hs : s.isBetween = true) (h : ∀ line ∈ ls, Marker.isNoise line = true) :
    Reads s ls [] s := by
  induction ls with
  | nil => exact .nil _
  | cons line rest ih =>
    rw [List.forall_mem_cons] at h
    have hnone : Marker.ofLine? line = none := Marker.ofLine?_of_isNoise h.1
    have hstep : Steps line s s none := by
      cases s with
      | outside => exact .prose (by simp [hnone])
      | awaiting path => exact .noise hnone h.1
      | search path found | replace path sought found => cases hs
    exact Reads.skip hstep.step_eq (ih h.2)

/-- **Text that is passed over** leaves the state as it is and completes no
edit. -/
theorem PassesOver.reads (h : s.PassesOver t) : Reads s t.lines [] s := by
  cases h with
  | noise hs h => exact reads_noise hs h.noise
  | prose h => exact reads_outside h.noOpening

theorem PassesOver.isBetween (h : s.PassesOver t) : s.isBetween = true := by
  cases h with
  | noise hs h => exact hs
  | prose h => rfl

theorem PassesOver.terminated (h : s.PassesOver t) : t.Terminated := by
  cases h with
  | noise hs h => exact h.terminated
  | prose h => exact h.terminated

/-! ## Joints between blocks

What stands before a joint need not be ended, as its last line is read alike
with and without the boundary that the joint may bring. -/

/-- **How a line ends does not matter** where it leads to a state between
blocks: it is a line of no text. -/
theorem Steps.append_of_isBlank (h : Steps line s mid found) (hmid : mid.isBetween = true)
    {ending : Text} (hending : ending.isBlank = true) : Steps (line ++ ending) s mid found := by
  have hmarker := Marker.ignoresEnd_ofLine? line hending
  cases h with
  | prose h => exact .prose (hmarker ▸ h)
  | opening h hpath =>
    exact .opening (hmarker.trans h) ((Marker.ignoresEnd_path? line hending).trans hpath)
  | noise h hnoise =>
    exact .noise (hmarker.trans h) ((Marker.ignoresEnd_isNoise line hending).trans hnoise)
  | closing h => exact .closing (hmarker.trans h)
  | replace h => exact .replace (hmarker.trans h)
  | search h | sought h | divider h | put h => cases hmid

/-- So a carriage return at the end of a text that leads there can get its
line feed. -/
theorem Reads.append_lineFeed (h : Reads s (Text.lines (t ++ ['\r'])) es mid)
    (hmid : mid.isBetween = true) : Reads s (Text.lines (t ++ ['\r', '\n'])) es mid := by
  have hreturn := Text.lines_append_line t (u := ['\r']) rfl (by decide)
  have hpair := Text.lines_append_line t (u := ['\r', '\n']) rfl (by decide)
  rw [hreturn] at h
  obtain ⟨first, fs, completed, hbefore, hstep, rfl⟩ := h.exists_of_concat
  have hblank : Text.isBlank ['\n'] = true := rfl
  have hstep' := hstep.append_of_isBlank hmid hblank
  rw [List.append_assoc] at hstep'
  rw [hpair]
  exact hbefore.concat hstep'

/-- And a line feed alone, which is passed over there, can be left out. -/
theorem Reads.of_cons_lineFeed (h : Reads s (['\n'] :: ls) es next) (hs : s.isBetween = true) :
    Reads s ls es next := by
  have hmarker : Marker.ofLine? ['\n'] = none := by decide
  cases h with
  | @cons _ mid _ _ _ found es first others =>
    cases steps_of_step_eq (first 0) with
    | prose h | noise h hnoise => exact others
    | opening h hpath | search h | closing h | divider h | replace h =>
      rw [hmarker] at h
      cases h
    | sought h | put h => cases hs

/-- **Texts joined between blocks are read one after the other**, also where
the joint makes one boundary of two. -/
theorem Reads.join (ht : t.Terminated) (hmid : mid.isBetween = true)
    (h : Reads s t.lines es mid) (h' : Reads mid u.lines fs next) :
    Reads s (t ++ u).lines (es ++ fs) next := by
  by_cases hclean : Text.CleanJoint t u
  · rw [Text.lines_append ht hclean]
    exact h.append h'
  · -- the line feed goes from the text after the joint to the one before it
    obtain ⟨hlast, hhead⟩ := Classical.not_imp.1 hclean
    obtain ⟨before, rfl⟩ := List.getLast?_eq_some_iff.1 hlast
    obtain ⟨after, rfl⟩ := List.head?_eq_some_iff.1 (not_not.1 hhead)
    rw [Text.lines_cons_lineFeed] at h'
    have hread := (h.append_lineFeed hmid).append (h'.of_cons_lineFeed hmid)
    have hparts : before ++ ['\r'] ++ '\n' :: after = before ++ ['\r', '\n'] ++ after := by
      rw [List.append_assoc, List.append_assoc]
      rfl
    have hend : (before ++ ['\r', '\n']).getLast? = some '\n' := List.getLast?_append
    rw [hparts, Text.lines_append_of_getLast? hend]
    exact hread

/-! ## Lines with other numbers

Numbers are only carried along, so the scanner on lines that are numbered
further on does the same and reports other numbers. -/

/-- One line is read alike whatever its number, which only the error names. -/
theorem step_further (s : State) (line : Text) (number count : Nat) :
    s.step (number + count) line = (s.step number line).mapError (ParseError.further count) := by
  unfold step
  split <;> try rfl
  · cases Marker.path? line <;> rfl
  · split <;> rfl

/-- **Lines are read alike further on**: the edits are the same, and the
state or, so many lines further on, the error. -/
theorem run_further (s : State) (ls : List Text) (number count : Nat) :
    s.run (number + count) ls
      = Prod.map id (Except.mapError (ParseError.further count)) (s.run number ls) := by
  induction ls generalizing s number with
  | nil => rfl
  | cons line rest ih =>
    rw [run, run, step_further]
    cases s.step number line with
    | error e => rfl
    | ok stepped =>
      obtain ⟨mid, found⟩ := stepped
      have hrest := ih mid (number + 1)
      rw [Nat.add_right_comm] at hrest
      dsimp only [Except.mapError]
      rw [hrest]
      rfl

/-- The end of a response is the same further on, but for the number that its
error names. -/
theorem finish_further (s : State) (number count : Nat) :
    s.finish (number + count) = (s.finish number).mapError (ParseError.further count) := by
  cases s <;> rfl

/-- Where the end of a response is no error it does not depend on the number
of lines. -/
theorem finish_of_finish {number count : Nat} (h : s.finish number = .ok found) :
    s.finish count = .ok found := by
  cases s with
  | outside | awaiting path | replace path sought lines => exact h
  | search path lines => cases h

end State

/-! ## Responses

Put together from the lines before the place, those put in, and those after.
-/

/-- **Where the scanner stands** after the lines of a text. -/
def stateAfter (t : Text) : Except ParseError State := (State.run 1 .outside t.lines).2

/-- The lines of a text lead to where the scanner stands after them. -/
theorem exists_reads_of_stateAfter {t : Text} {s : State} (h : stateAfter t = .ok s) :
    ∃ es, State.Reads .outside t.lines es s :=
  ⟨_, State.reads_of_run_eq (Prod.ext rfl h)⟩

/-- **Text that is passed over can be put in** between two lines of a
response. -/
theorem edits_insert {before extra after : Text} {found : List Edit} {s : State}
    (h : edits (before ++ after) = .ok found) (hedge : Text.LineEdge before after)
    (hended : before.Terminated) (hstate : stateAfter before = .ok s)
    (hextra : s.PassesOver extra) : edits (before ++ extra ++ after) = .ok found := by
  obtain ⟨es, last, unfinished, hreads, hfinish, rfl⟩ := edits_eq_ok_iff.1 h
  rw [hedge] at hreads
  obtain ⟨mid, fs, gs, hbefore, hafter, rfl⟩ := hreads.exists_of_append
  obtain ⟨fs', hbefore'⟩ := exists_reads_of_stateAfter hstate
  obtain rfl := hbefore'.unique hbefore
  have hwith := hbefore.join hended hextra.isBetween hextra.reads
  have hread := hwith.join (hended.append hextra.terminated) hextra.isBetween hafter
  rw [List.append_nil] at hread
  exact edits_eq_ok_iff.2 ⟨_, last, unfinished, hread, State.finish_of_finish hfinish, rfl⟩

/-- **A response after one that ends outside envelopes** is scanned like
alone, but for the edits before it and the number of the line in its error. -/
theorem scan_append {a : Text} {found : List Edit} (h : edits a = .ok found)
    (hended : a.getLast? = some '\n') (hclosed : stateAfter a = .ok .outside) (b : Text) :
    scan (a ++ b) = ⟨found ++ (scan b).edits,
      (scan b).error.map (ParseError.further a.lines.length), (scan b).log⟩ := by
  obtain ⟨es, last, unfinished, hreads, hfinish, rfl⟩ := edits_eq_ok_iff.1 h
  obtain ⟨es', houtside⟩ := exists_reads_of_stateAfter hclosed
  obtain rfl := houtside.unique hreads
  obtain rfl : none = unfinished := Except.ok.inj hfinish
  have hrun := hreads.run_append 1 b.lines
  rw [State.run_further] at hrun
  unfold scan
  dsimp only
  rw [Text.lines_append_of_getLast? hended, hrun, List.length_append, Nat.add_comm,
    Option.toList_none, List.append_nil]
  rcases State.run 1 .outside b.lines with ⟨fs, e | last⟩
  · rfl
  · dsimp only [Prod.map, Except.mapError, id]
    rw [State.finish_further]
    cases last.finish b.lines.length with
    | error e => rfl
    | ok found => simp [Except.mapError]

/-- **What stands between blocks and around responses does not matter.** Text
that is passed over where the scanner stands between two lines can be put in
there, and the edits stay the same. And a response that ends outside
envelopes can have another one after it: the edits are those of the first and
then those of the second, or the error is that of the second, so many lines
further on. -/
theorem edits_undisturbed :
    (∀ (before extra after : Text) (found : List Edit) (s : State),
      edits (before ++ after) = .ok found → Text.LineEdge before after → before.Terminated →
        stateAfter before = .ok s → s.PassesOver extra →
          edits (before ++ extra ++ after) = .ok found)
      ∧ ∀ (a b : Text) (found : List Edit),
        edits a = .ok found → a.getLast? = some '\n' → stateAfter a = .ok .outside →
          edits (a ++ b) = match edits b with
            | .ok more => .ok (found ++ more)
            | .error e => .error (e.further a.lines.length) := by
  refine ⟨fun before extra after found s => edits_insert, fun a b found h hended hclosed => ?_⟩
  unfold edits
  rw [scan_append h hended hclosed]
  dsimp only
  cases (scan b).error <;> rfl

/-- A response whose first envelope begins with a line that ends with a
carriage return. -/
def returned : Text × Text :=
  ("<CodeChange file=\"a\">\r",
    "<<<<<<< SEARCH\none\n=======\n1\n>>>>>>> REPLACE\n</CodeChange>\nDone.\n")

/-- A blank line and a code fence can be put in there, though the blank line
goes into the line before it; and after that response the error of another is
found eight lines on. -/
theorem edits_undisturbed_returned :
    edits (returned.1 ++ returned.2) = .ok [⟨"a", "one\n", "1\n"⟩]
      ∧ edits (returned.1 ++ "\n\x60\x60\x60diff\n" ++ returned.2)
        = .ok [⟨"a", "one\n", "1\n"⟩]
      ∧ edits (returned.1 ++ returned.2 ++ "\n<CodeChange>\n")
        = .error (.missingPath 10 "<CodeChange>") := by
  have hedits : edits (returned.1 ++ returned.2) = .ok [⟨"a", "one\n", "1\n"⟩] := by
    decide +kernel
  have hafter : stateAfter returned.1 = .ok (.awaiting "a") := by decide +kernel
  refine ⟨hedits, ?_, ?_⟩
  · exact edits_undisturbed.1 _ _ _ _ _ hedits (by decide) (by decide) hafter
      (.noise rfl (by decide))
  · have hshort : edits "\n<CodeChange>\n" = .error (.missingPath 2 "<CodeChange>") := by
      decide +kernel
    have happend := edits_undisturbed.2 (returned.1 ++ returned.2) "\n<CodeChange>\n" _ hedits
      (by decide) (by decide +kernel)
    rw [happend, hshort]
    rfl

end Block

end EditBlocks
