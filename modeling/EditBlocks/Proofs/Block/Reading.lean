import EditBlocks.Block.Scanner

/-!
# Lines that can be read

The scanner numbers lines for the sake of its errors only: what it makes of
lines that it can read does not depend on the number of the first.
`State.Steps` says what one line does to a state, with one rule for each kind
of line that each state has a place for, and `State.Reads` says that from one
state lines can be read, which edits they complete, and which state they lead
to. Lines put one after the other are read one after the other
(`State.Reads.append`), so what the scanner does on a whole response is put
together from what it does on its parts.

A response can be read when its lines can be and lead to a state in which it
may end (`Block.edits_eq_ok_iff`).

Everything that is said of whole responses is said in terms of these two
relations. They have one rule for each thing that can happen, so an induction
over them has no cases that cannot come up, as an induction over the
scanner's branches would have.
-/

namespace EditBlocks.Block

namespace State

/-! ## One line

The rules are those of `State.step`, one for each branch of it that is no
error. -/

/-- **A line that can be read** in a state, with the state it leads to and
the edit it completes: one rule for each kind of line that each state has a
place for. -/
inductive Steps (line : Text) : State → State → Option Edit → Prop
  /-- Prose is passed over. -/
  | prose (h : Marker.ofLine? line ≠ some .opening) : Steps line outside outside none
  /-- An opening tag leads into the envelope of its path. -/
  | opening {path : Text} (h : Marker.ofLine? line = some .opening)
      (hpath : Marker.path? line = some path) : Steps line outside (awaiting path) none
  /-- Noise is passed over. -/
  | noise {path : Text} (h : Marker.ofLine? line = none) (hnoise : Marker.isNoise line = true) :
      Steps line (awaiting path) (awaiting path) none
  /-- A search marker leads into a block. -/
  | search {path : Text} (h : Marker.ofLine? line = some .search) :
      Steps line (awaiting path) (search path []) none
  /-- A closing tag leads out of the envelope. -/
  | closing {path : Text} (h : Marker.ofLine? line = some .closing) :
      Steps line (awaiting path) outside none
  /-- A line of the text to find. -/
  | sought {path : Text} {found : List Text} (h : Marker.ofLine? line = none) :
      Steps line (search path found) (search path (found ++ [line])) none
  /-- A divider leads to the text to put there. -/
  | divider {path : Text} {found : List Text} (h : Marker.ofLine? line = some .divider) :
      Steps line (search path found) (replace path found.flatten []) none
  /-- A line of the text to put there. -/
  | put {path sought : Text} {found : List Text} (h : Marker.ofLine? line = none) :
      Steps line (replace path sought found) (replace path sought (found ++ [line])) none
  /-- A replace marker completes the edit. -/
  | replace {path sought : Text} {found : List Text} (h : Marker.ofLine? line = some .replace) :
      Steps line (replace path sought found) (awaiting path)
        (some ⟨path, sought, found.flatten⟩)

theorem Steps.step_eq {s mid : State} {line : Text} {found : Option Edit}
    (h : Steps line s mid found) (number : Nat) : s.step number line = .ok (mid, found) := by
  cases h with
  | prose h =>
    cases hm : Marker.ofLine? line with
    | none => simp only [step, hm]
    | some m => cases m <;> simp_all [step]
  | opening h hpath => simp only [step, h, hpath]
  | noise h hnoise => simp only [step, h, hnoise, if_true]
  | search h | closing h | sought h | divider h | put h | replace h => simp only [step, h]

/-- What the scanner does with a line that can be read is what the rule
says. -/
theorem Steps.of_step_eq {s mid next : State} {line : Text} {found last : Option Edit}
    {number : Nat} (hs : Steps line s mid found) (h : s.step number line = .ok (next, last)) :
    Steps line s next last := by
  rw [hs.step_eq number, Except.ok.injEq, Prod.mk.injEq] at h
  obtain ⟨rfl, rfl⟩ := h
  exact hs

/-- **What the scanner can do with one line.** Every other line is an
error. -/
theorem steps_of_step_eq {s mid : State} {line : Text} {found : Option Edit} {number : Nat}
    (h : s.step number line = .ok (mid, found)) : Steps line s mid found := by
  cases s with
  | outside =>
    by_cases hm : Marker.ofLine? line = some .opening
    · cases hpath : Marker.path? line with
      | none => simp [step, hm, hpath] at h
      | some path => exact (Steps.opening hm hpath).of_step_eq h
    · exact (Steps.prose hm).of_step_eq h
  | awaiting path =>
    cases hm : Marker.ofLine? line with
    | none =>
      by_cases hnoise : Marker.isNoise line = true
      · exact (Steps.noise hm hnoise).of_step_eq h
      · simp [step, hm, hnoise] at h
    | some m =>
      cases m with
      | search => exact (Steps.search hm).of_step_eq h
      | closing => exact (Steps.closing hm).of_step_eq h
      | opening | divider | replace => simp [step, hm] at h
  | search path lines =>
    cases hm : Marker.ofLine? line with
    | none => exact (Steps.sought hm).of_step_eq h
    | some m =>
      cases m with
      | divider => exact (Steps.divider hm).of_step_eq h
      | opening | closing | search | replace => simp [step, hm] at h
  | replace path sought lines =>
    cases hm : Marker.ofLine? line with
    | none => exact (Steps.put hm).of_step_eq h
    | some m =>
      cases m with
      | replace => exact (Steps.replace hm).of_step_eq h
      | opening | closing | search | divider => simp [step, hm] at h

/-! ## Lines one after the other

Reading is a relation between two states, lines and edits, so that runs can
be put together at any state. -/

/-- **Lines that can be read** from a state, with the edits they complete and
the state they lead to. -/
inductive Reads : State → List Text → List Edit → State → Prop
  /-- No line leaves the state as it is. -/
  | nil (s : State) : Reads s [] [] s
  /-- A line that can be read, and then others. -/
  | cons {s mid next : State} {line : Text} {ls : List Text} {found : Option Edit}
      {edits : List Edit} (first : ∀ number, s.step number line = .ok (mid, found))
      (others : Reads mid ls edits next) :
      Reads s (line :: ls) (found.toList ++ edits) next

/-- **What the scanner makes of lines that can be read**, whatever the number
of the first. -/
theorem Reads.run_eq {s next : State} {ls : List Text} {edits : List Edit}
    (h : Reads s ls edits next) (number : Nat) : s.run number ls = (edits, .ok next) := by
  induction h generalizing number with
  | nil s => rfl
  | cons first others ih =>
    rw [run, first number]
    simp only [ih (number + 1)]

theorem Reads.skip {s mid next : State} {line : Text} {ls : List Text} {edits : List Edit}
    (first : ∀ number, s.step number line = .ok (mid, none)) (others : Reads mid ls edits next) :
    Reads s (line :: ls) edits next :=
  Reads.cons first others

/-- **Lines are read one after the other.** -/
theorem Reads.append {s mid next : State} {ls ms : List Text} {es fs : List Edit}
    (h : Reads s ls es mid) (h' : Reads mid ms fs next) :
    Reads s (ls ++ ms) (es ++ fs) next := by
  induction h with
  | nil s => exact h'
  | cons first others ih =>
    rw [List.append_assoc]
    exact Reads.cons first (ih h')

/-! ## Lines that stay in their place

Prose, and the lines of a text, are read one after the other without leaving
the state but for what is gathered. -/

/-- Outside envelopes every line but an opening tag is passed over. -/
theorem reads_outside {ls : List Text} (h : ∀ l ∈ ls, Marker.ofLine? l ≠ some .opening) :
    Reads outside ls [] outside := by
  induction ls with
  | nil => exact .nil _
  | cons l ls ih =>
    rw [List.forall_mem_cons] at h
    exact Reads.skip (Steps.prose h.1).step_eq (ih h.2)

theorem reads_search (path : Text) (found : List Text) {ls : List Text}
    (h : ∀ l ∈ ls, Marker.ofLine? l = none) :
    Reads (search path found) ls [] (search path (found ++ ls)) := by
  induction ls generalizing found with
  | nil => rw [List.append_nil]; exact .nil _
  | cons l ls ih =>
    rw [List.forall_mem_cons] at h
    have := ih (found ++ [l]) h.2
    rw [List.append_assoc, List.singleton_append] at this
    exact Reads.skip (Steps.sought h.1).step_eq this

/-- Lines without a marker are added to the text to put there. -/
theorem reads_replace (path sought : Text) (found : List Text) {ls : List Text}
    (h : ∀ l ∈ ls, Marker.ofLine? l = none) :
    Reads (replace path sought found) ls [] (replace path sought (found ++ ls)) := by
  induction ls generalizing found with
  | nil => rw [List.append_nil]; exact .nil _
  | cons l ls ih =>
    rw [List.forall_mem_cons] at h
    have := ih (found ++ [l]) h.2
    rw [List.append_assoc, List.singleton_append] at this
    exact Reads.skip (Steps.put h.1).step_eq this

/-! ## What was read

A run of the scanner that ends without an error is such a reading. -/

/-- **Lines that the scanner has read** can be read. -/
theorem reads_of_run_eq {s next : State} {ls : List Text} {edits : List Edit} {number : Nat}
    (h : s.run number ls = (edits, .ok next)) : Reads s ls edits next := by
  induction ls generalizing s edits number with
  | nil =>
    cases h
    exact .nil _
  | cons line rest ih =>
    rw [run] at h
    cases hstep : s.step number line with
    | error e =>
      rw [hstep] at h
      cases h
    | ok stepped =>
      obtain ⟨mid, found⟩ := stepped
      rw [hstep] at h
      obtain ⟨rfl, hlast⟩ := Prod.mk.inj h
      exact .cons (steps_of_step_eq hstep).step_eq (ih (Prod.ext rfl hlast))

/-! ## Lines in parts

A reading can be cut after any line, and each part is a reading. What the
second part gives does not depend on how the first one got to its state. -/

/-- **Lines that can be read can be parted** at any of them. -/
theorem Reads.exists_of_append {s next : State} {ls ms : List Text} {es : List Edit}
    (h : Reads s (ls ++ ms) es next) :
    ∃ mid fs gs, Reads s ls fs mid ∧ Reads mid ms gs next ∧ fs ++ gs = es := by
  induction ls generalizing s es with
  | nil => exact ⟨s, [], es, .nil s, h, rfl⟩
  | cons line ls ih =>
    cases h with
    | @cons _ after _ _ _ found rest first others =>
      obtain ⟨mid, fs, gs, hls, hms, rfl⟩ := ih others
      exact ⟨mid, found.toList ++ fs, gs, .cons first hls, hms, List.append_assoc _ _ _⟩

theorem Reads.unique {s mid mid' : State} {ls : List Text} {es es' : List Edit}
    (h : Reads s ls es mid) (h' : Reads s ls es' mid') : mid = mid' := by
  have hrun := h.run_eq 0
  rw [h'.run_eq 0] at hrun
  exact (Except.ok.inj (Prod.mk.inj hrun).2).symm

theorem Reads.concat {s mid next : State} {ls : List Text} {line : Text} {es : List Edit}
    {found : Option Edit} (h : Reads s ls es mid) (hstep : Steps line mid next found) :
    Reads s (ls ++ [line]) (es ++ found.toList) next := by
  have hlast := Reads.cons hstep.step_eq (.nil next)
  rw [List.append_nil] at hlast
  exact h.append hlast

theorem Reads.exists_of_concat {s next : State} {ls : List Text} {line : Text} {es : List Edit}
    (h : Reads s (ls ++ [line]) es next) :
    ∃ mid fs found, Reads s ls fs mid ∧ Steps line mid next found ∧ fs ++ found.toList = es := by
  obtain ⟨mid, fs, gs, hls, hlast, rfl⟩ := h.exists_of_append
  cases hlast with
  | cons first others =>
    cases others with
    | nil s => exact ⟨mid, fs, _, hls, steps_of_step_eq (first 0), by rw [List.append_nil]⟩

/-- **What the scanner makes of lines after others** that can be read is what
it makes of them from there. -/
theorem Reads.run_append {s mid : State} {ls : List Text} {es : List Edit}
    (h : Reads s ls es mid) (number : Nat) (ms : List Text) :
    s.run number (ls ++ ms) = Prod.map (es ++ ·) id (mid.run (number + ls.length) ms) := by
  induction h generalizing number with
  | nil s => rfl
  | @cons s mid next line ls found edits first others ih =>
    have hnumber : number + (line :: ls).length = number + 1 + ls.length := by
      rw [List.length_cons]
      omega
    rw [List.cons_append, run, first number, hnumber]
    dsimp only
    rw [ih (number + 1)]
    dsimp only [Prod.map]
    rw [List.append_assoc]

/-- **Where the scanner stops**: at the first line that it cannot read in the
state that the lines before it lead to. -/
theorem run_eq_error_iff {s : State} {ls : List Text} {es : List Edit} {e : ParseError}
    {number : Nat} :
    s.run number ls = (es, .error e)
      ↔ ∃ before line after mid, ls = before ++ line :: after ∧ Reads s before es mid
        ∧ mid.step (number + before.length) line = .error e := by
  constructor
  · intro h
    induction ls generalizing s es number with
    | nil => cases h
    | cons line rest ih =>
      rw [run] at h
      cases hstep : s.step number line with
      | error e' =>
        rw [hstep] at h
        cases h
        exact ⟨[], line, rest, s, rfl, .nil s, hstep⟩
      | ok stepped =>
        obtain ⟨mid, found⟩ := stepped
        rw [hstep] at h
        obtain ⟨rfl, hlast⟩ := Prod.mk.inj h
        obtain ⟨before, line', after, next, rfl, hbefore, herror⟩ := ih (Prod.ext rfl hlast)
        refine ⟨line :: before, line', after, next, rfl,
          .cons (steps_of_step_eq hstep).step_eq hbefore, ?_⟩
        rwa [List.length_cons, Nat.add_comm before.length, ← Nat.add_assoc]
  · rintro ⟨before, line, after, mid, rfl, hbefore, herror⟩
    rw [hbefore.run_append, run, herror]
    exact Prod.ext (List.append_nil es) rfl

end State

/-- **When a response can be read**: its lines can be, and lead to a state in
which it may end. The edits are those that the lines complete, and the one
that the end does. -/
theorem edits_eq_ok_iff {response : Text} {found : List Edit} :
    edits response = .ok found
      ↔ ∃ es last unfinished, State.Reads .outside response.lines es last
        ∧ last.finish response.lines.length = .ok unfinished
        ∧ es ++ unfinished.toList = found := by
  unfold edits scan
  dsimp only
  constructor
  · intro h
    rcases hrun : State.run 1 .outside response.lines with ⟨es, e | last⟩
    · rw [hrun] at h
      cases h
    · rw [hrun] at h
      dsimp only at h
      cases hfinish : last.finish response.lines.length with
      | error e =>
        rw [hfinish] at h
        cases h
      | ok unfinished =>
        rw [hfinish] at h
        exact ⟨es, last, unfinished, State.reads_of_run_eq hrun, hfinish, Except.ok.inj h⟩
  · rintro ⟨es, last, unfinished, hreads, hfinish, rfl⟩
    rw [hreads.run_eq 1]
    dsimp only
    rw [hfinish]

/-- **The edits of a response whose lines lead back outside** are those that
its lines complete. -/
theorem edits_of_reads {response : Text} {found : List Edit}
    (h : State.Reads .outside response.lines found .outside) :
    edits response = .ok found :=
  edits_eq_ok_iff.2 ⟨found, .outside, none, h, rfl, List.append_nil found⟩

end EditBlocks.Block
