import EditBlocks.Proofs.Text.Line
import Mathlib.Data.List.DropRight

/-!
# Line edges

Where two texts are joined, a line may end there or run through. It ends
there when the joined text has the lines of the one and then those of the
other (`Text.LineEdge`), which can be told from the joint alone
(`Text.lineEdge_iff`). So the lines of a text can be parted anywhere, and
each part is the lines of what it holds (`Text.lines_flatten_of_append`).

Where no line ends, the two texts share one: what the first holds after its
last boundary (`Text.openLine`) goes on in the first line of the second
(`Text.lines_append_of_not_terminated`). A text with another before it and
another after it is a run of whole lines when both joints are line edges
(`Text.isWholeLines_iff`).

Whether a line ends at a joint is told by the last character of the one text
and the first of the other, so a place in a text is judged without cutting
the text into lines.
-/

namespace EditBlocks.Text

/-- **A line edge** between two texts: joined, they have the lines of the one
and then the lines of the other. -/
def LineEdge (t u : Text) : Prop := lines (t ++ u) = lines t ++ lines u

instance (t u : Text) : Decidable (LineEdge t u) :=
  inferInstanceAs (Decidable (lines (t ++ u) = lines t ++ lines u))

instance (t u : Text) : Decidable (CleanJoint t u) :=
  inferInstanceAs (Decidable (t.getLast? = some '\r' → u.head? ≠ some '\n'))

theorem cleanJoint_nil (t : Text) : CleanJoint t [] := by
  intro _ hn
  cases hn

theorem cleanJoint_append_iff {u : Text} (hne : u ≠ []) (t v : Text) :
    CleanJoint t (u ++ v) ↔ CleanJoint t u := by
  obtain ⟨c, u, rfl⟩ := List.exists_cons_of_ne_nil hne
  rfl

/-- A character joins the first line, and the lines can be told from the
outcome. -/
theorem consLine_inj {c : Char} {ls ms : List Text} (hl : ls ≠ []) (hm : ms ≠ [])
    (h : consLine c ls = consLine c ms) : ls = ms := by
  obtain ⟨l, ls, rfl⟩ := List.exists_cons_of_ne_nil hl
  obtain ⟨m, ms, rfl⟩ := List.exists_cons_of_ne_nil hm
  obtain ⟨hfirst, rfl⟩ := List.cons.inj h
  rw [(List.cons.inj hfirst).2]

theorem lines_singleton (c : Char) : lines [c] = [[c]] := by
  rw [lines_cons]
  split <;> rfl

/-- Before a line edge with something after it the text is terminated, and no
carriage return is parted from its line feed. -/
theorem LineEdge.joint {t u : Text} (hu : u ≠ []) (h : LineEdge t u) :
    Terminated t ∧ CleanJoint t u := by
  induction t with
  | nil => exact ⟨terminated_nil, fun hr => nomatch hr⟩
  | cons c t ih =>
    unfold LineEdge at h
    cases t with
    | nil =>
      -- a character that ends no line would leave as many lines as before
      have hends : endsLine c u = true := by
        by_contra hends
        obtain ⟨first, rest, hlines⟩ := List.exists_cons_of_ne_nil (lines_ne_nil hu)
        rw [List.singleton_append, lines_cons, if_neg hends, lines_singleton, hlines] at h
        have hlength := congrArg List.length h
        simp [consLine] at hlength
      rw [endsLine, Bool.and_eq_true] at hends
      refine ⟨fun d hd => ?_, fun hr hn => ?_⟩
      · obtain rfl : c = d := by simpa using hd
        exact hends.1
      · obtain rfl : c = '\r' := by simpa using hr
        simp [hn] at hends
    | cons d t =>
      have he : endsLine c (d :: t ++ u) = endsLine c (d :: t) := rfl
      have hne : lines (d :: t) ≠ [] := lines_ne_nil (by simp)
      have hedge : LineEdge (d :: t) u := by
        rw [List.cons_append, lines_cons c, lines_cons c, he] at h
        split at h
        · exact (List.cons.inj h).2
        · rw [← consLine_append c hne] at h
          exact consLine_inj (lines_ne_nil (by simp)) (by simp [hne]) h
      simpa [Terminated, CleanJoint] using ih hedge

/-- **A line edge can be told from the joint**: nothing comes after it, or
the text before it ends with a boundary that does not go on. -/
theorem lineEdge_iff {t u : Text} :
    LineEdge t u ↔ u = [] ∨ Terminated t ∧ CleanJoint t u := by
  constructor
  · intro h
    by_cases hu : u = []
    · exact Or.inl hu
    · exact Or.inr (h.joint hu)
  · rintro (rfl | ⟨ht, hj⟩)
    · show lines (t ++ []) = lines t ++ []
      rw [List.append_nil, List.append_nil]
    · exact lines_append ht hj

/-- A character that ends a line ends it as well when less comes after it. -/
theorem endsLine_of_append {c : Char} {t u : Text} (h : endsLine c (t ++ u) = true) :
    endsLine c t = true := by
  cases t with
  | nil =>
    rw [endsLine, Bool.and_eq_true] at h
    simp [endsLine, h.1]
  | cons d t => exact h

/-- **The lines of a text can be parted anywhere**: each part is the lines of
the text that it holds. -/
theorem lines_flatten_of_append {t : Text} {ls ms : List Text} (h : lines t = ls ++ ms) :
    lines ls.flatten = ls ∧ lines ms.flatten = ms := by
  induction t generalizing ls with
  | nil =>
    obtain ⟨rfl, rfl⟩ := List.append_eq_nil_iff.1 h.symm
    exact ⟨rfl, rfl⟩
  | cons c t ih =>
    cases ls with
    | nil => exact ⟨rfl, by rw [← List.nil_append ms, ← h, flatten_lines]⟩
    | cons l ls =>
      rw [lines_cons, List.cons_append] at h
      split at h
      next hends =>
        obtain ⟨rfl, hrest⟩ := List.cons.inj h
        have ht : t = ls.flatten ++ ms.flatten := by
          rw [← List.flatten_append, ← hrest, flatten_lines]
        rw [ht] at hends
        obtain ⟨hls, hms⟩ := ih hrest
        refine ⟨?_, hms⟩
        show lines (c :: ls.flatten) = [c] :: ls
        rw [lines_cons, if_pos (endsLine_of_append hends), hls]
      next hends =>
        cases hlines : lines t with
        | nil =>
          rw [hlines] at h
          obtain ⟨rfl, hrest⟩ := List.cons.inj h
          obtain ⟨rfl, rfl⟩ := List.append_eq_nil_iff.1 hrest.symm
          exact ⟨lines_singleton c, rfl⟩
        | cons first rest =>
          -- the first line is not empty, so what comes after the character
          -- begins as before
          obtain ⟨d, u, rfl⟩ := List.exists_cons_of_ne_nil
            (ne_nil_of_mem_lines t first (by rw [hlines]; exact List.mem_cons_self))
          rw [hlines] at h
          obtain ⟨rfl, rfl⟩ := List.cons.inj h
          have hlines' : lines t = ((d :: u) :: ls) ++ ms := hlines
          obtain ⟨hls, hms⟩ := ih hlines'
          have ht : t = d :: (u ++ ls.flatten ++ ms.flatten) := by
            rw [← flatten_lines t, hlines, List.flatten_cons, List.flatten_append,
              List.cons_append, List.append_assoc]
          rw [ht] at hends
          have hends' : ¬endsLine c (d :: (u ++ ls.flatten)) = true := hends
          refine ⟨?_, hms⟩
          show lines (c :: d :: (u ++ ls.flatten)) = (c :: d :: u) :: ls
          rw [lines_cons c, if_neg hends']
          exact congrArg (consLine c) hls

theorem lineEdge_of_append {t : Text} {ls ms : List Text} (h : lines t = ls ++ ms) :
    LineEdge ls.flatten ms.flatten := by
  obtain ⟨hls, hms⟩ := lines_flatten_of_append h
  unfold LineEdge
  rw [hls, hms, ← List.flatten_append, ← h, flatten_lines]

/-- **Lines before other lines are terminated.** -/
theorem terminated_of_append {t : Text} {ls ms : List Text} (h : lines t = ls ++ ms)
    (hm : ms ≠ []) : Terminated ls.flatten := by
  refine ((lineEdge_of_append h).joint fun hflat => ?_).1
  obtain ⟨-, hms⟩ := lines_flatten_of_append h
  rw [hflat] at hms
  exact hm hms.symm

/-! ## The line that is not ended

A text is parted into the lines that are ended and the open line after them.
With another text behind it, only the open line is affected. -/

/-- **What a text holds after its last boundary.** It is empty when the text
is terminated. -/
def openLine (t : Text) : Text := t.rtakeWhile fun c => !isLineBreak c

/-- A text up to its last boundary. -/
def endedLines (t : Text) : Text := t.rdropWhile fun c => !isLineBreak c

theorem endedLines_append_openLine (t : Text) : endedLines t ++ openLine t = t :=
  List.rdropWhile_append_rtakeWhile

/-- No line ends in what a text holds after its last boundary. -/
theorem isLineBreak_of_mem_openLine {t : Text} {c : Char} (h : c ∈ openLine t) :
    isLineBreak c = false := by
  simpa using List.mem_rtakeWhile_imp h

theorem terminated_endedLines (t : Text) : Terminated (endedLines t) := by
  intro c hc
  obtain ⟨hne, rfl⟩ := List.mem_getLast?_eq_getLast hc
  have hlast := List.rdropWhile_last_not (fun c => !isLineBreak c) t hne
  rwa [Bool.not_eq_true, Bool.not_eq_false'] at hlast

theorem openLine_eq_nil_iff {t : Text} : openLine t = [] ↔ Terminated t := by
  rw [openLine, List.rtakeWhile_eq_nil_iff, Terminated]
  constructor
  · intro h c hc
    obtain ⟨hne, rfl⟩ := List.mem_getLast?_eq_getLast hc
    simpa using h hne
  · intro h hne
    simpa using h _ (List.getLast?_eq_getLast_of_ne_nil hne)

/-- Text without boundaries joins the first line of the text after it. -/
theorem lines_append_of_open {x u first : Text} {rest : List Text}
    (hx : ∀ c ∈ x, isLineBreak c = false) (hu : lines u = first :: rest) :
    lines (x ++ u) = (x ++ first) :: rest := by
  induction x with
  | nil => exact hu
  | cons c x ih =>
    rw [List.forall_mem_cons] at hx
    have hends : endsLine c (x ++ u) = false := by simp [endsLine, hx.1]
    rw [List.cons_append, lines_cons, hends, ih hx.2]
    rfl

theorem lines_open {x : Text} (hne : x ≠ []) (hx : ∀ c ∈ x, isLineBreak c = false) :
    lines x = [x] := by
  rw [← List.dropLast_concat_getLast hne]
  refine lines_append_of_open (fun c hc => ?_) (lines_singleton _)
  exact hx c (List.dropLast_subset _ hc)

/-- An open line begins where the last boundary is. -/
theorem lines_append_openLine {t : Text} (ht : ¬Terminated t) (u : Text) :
    lines (t ++ u) = lines (endedLines t) ++ lines (openLine t ++ u) := by
  have hhead : (openLine t ++ u).head? ≠ some '\n' := by
    obtain ⟨c, x, hx⟩ := List.exists_cons_of_ne_nil fun h => ht (openLine_eq_nil_iff.1 h)
    have hc : isLineBreak c = false := isLineBreak_of_mem_openLine (hx ▸ List.mem_cons_self)
    rw [hx]
    intro hn
    obtain rfl : c = '\n' := Option.some.inj hn
    cases hc
  rw [← lines_append_of_head?_ne (terminated_endedLines t) hhead, ← List.append_assoc,
    endedLines_append_openLine]

/-- **A line that is not ended goes on** in the first line of the text that
comes after. -/
theorem lines_append_of_not_terminated {t u first : Text} {rest : List Text}
    (ht : ¬Terminated t) (hu : lines u = first :: rest) :
    lines (t ++ u) = lines (endedLines t) ++ (openLine t ++ first) :: rest := by
  rw [lines_append_openLine ht, lines_append_of_open (fun c => isLineBreak_of_mem_openLine) hu]

/-- With nothing after it, it is the last line. -/
theorem lines_of_not_terminated {t : Text} (ht : ¬Terminated t) :
    lines t = lines (endedLines t) ++ [openLine t] := by
  have hne : openLine t ≠ [] := fun h => ht (openLine_eq_nil_iff.1 h)
  have hlines := lines_append_openLine ht []
  rwa [List.append_nil, List.append_nil,
    lines_open hne fun c => isLineBreak_of_mem_openLine] at hlines

/-- A line at the end of a text goes on from its open line, if it begins with
no line feed. -/
theorem lines_append_line (t : Text) {u : Text} (hu : lines u = [u]) (hhead : u.head? ≠ some '\n') :
    lines (t ++ u) = lines (endedLines t) ++ [openLine t ++ u] := by
  by_cases ht : Terminated t
  · have hopen := openLine_eq_nil_iff.2 ht
    have hended : endedLines t = t := by
      have hjoined := endedLines_append_openLine t
      rwa [hopen, List.append_nil] at hjoined
    rw [lines_append_of_head?_ne ht hhead, hu, hended, hopen, List.nil_append]
  · exact lines_append_of_not_terminated ht hu

/-- **The last line of a text can be ended**, where it is not, and the others
stay. -/
theorem exists_ended {t last : Text} {earlier : List Text} (h : lines t = earlier ++ [last]) :
    ∃ ending, LineEnd ending ∧ Terminated (t ++ ending) ∧ Terminated (last ++ ending)
      ∧ lines (t ++ ending) = earlier ++ [last ++ ending] := by
  by_cases ht : Terminated t
  · have hlast : Terminated last := by
      intro c hc
      refine ht c ?_
      rw [← flatten_lines t, h, List.flatten_append, List.flatten_singleton, List.getLast?_append]
      exact Option.or_eq_some_iff.2 (Or.inl hc)
    refine ⟨[], .nothing, ?_, ?_, ?_⟩
    · rwa [List.append_nil]
    · rwa [List.append_nil]
    · rwa [List.append_nil, List.append_nil]
  · have hended (u : Text) : Terminated (u ++ ['\n']) := by
      intro c hc
      rw [List.getLast?_concat] at hc
      exact Option.some.inj hc ▸ rfl
    obtain ⟨rfl, hopen⟩ := List.append_inj' (h.symm.trans (lines_of_not_terminated ht)) rfl
    obtain ⟨rfl, -⟩ := List.cons.inj hopen
    exact ⟨['\n'], .single rfl, hended t, hended _,
      lines_append_of_not_terminated ht (lines_singleton '\n')⟩

/-! ## Whole lines

For a text between two others, with the joints on either side. The empty text
between two lines is a run of no lines. -/

/-- **A text is a run of whole lines** between two others when its lines
stand between theirs. -/
def IsWholeLines (before t after : Text) : Prop :=
  lines (before ++ t ++ after) = lines before ++ lines t ++ lines after

instance (before t after : Text) : Decidable (IsWholeLines before t after) :=
  inferInstanceAs
    (Decidable (lines (before ++ t ++ after) = lines before ++ lines t ++ lines after))

/-- **When a text is a run of whole lines**: a line ends where it begins, and
one where it ends. -/
theorem isWholeLines_iff_lineEdge {before t after : Text} (hne : t ≠ []) :
    IsWholeLines before t after ↔ LineEdge before t ∧ LineEdge t after := by
  constructor
  · intro h
    have hparts : lines (before ++ t ++ after) = lines before ++ (lines t ++ lines after) := by
      rw [← List.append_assoc]
      exact h
    have hbefore := lineEdge_of_append (lines_flatten_of_append h).1
    have hafter := lineEdge_of_append (lines_flatten_of_append hparts).2
    rw [flatten_lines, flatten_lines] at hbefore hafter
    exact ⟨hbefore, hafter⟩
  · rintro ⟨hbefore, hafter⟩
    obtain ⟨hb, hbt⟩ := hbefore.joint hne
    show lines (before ++ t ++ after) = _
    rw [List.append_assoc, lines_append hb ((cleanJoint_append_iff hne before after).2 hbt),
      show lines (t ++ after) = lines t ++ lines after from hafter, List.append_assoc]

/-- No text is one between two others where a line ends between them. -/
theorem isWholeLines_nil_iff {before after : Text} :
    IsWholeLines before [] after ↔ LineEdge before after := by
  rw [IsWholeLines, LineEdge, List.append_nil, lines_nil, List.append_nil]

/-- **When terminated text is a run of whole lines**: a line ends before it,
and no carriage return is parted from its line feed. -/
theorem isWholeLines_iff {before t after : Text} (ht : Terminated t) (hne : t ≠ []) :
    IsWholeLines before t after
      ↔ Terminated before ∧ CleanJoint before t ∧ CleanJoint t after := by
  have hafter : LineEdge t after ↔ CleanJoint t after := by
    rw [lineEdge_iff]
    constructor
    · rintro (rfl | ⟨-, hclean⟩)
      · exact cleanJoint_nil t
      · exact hclean
    · exact fun hclean => Or.inr ⟨ht, hclean⟩
  rw [isWholeLines_iff_lineEdge hne, hafter, lineEdge_iff, or_iff_right hne, and_assoc]

end EditBlocks.Text
