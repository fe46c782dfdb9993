import EditBlocks.Text.Blank
import EditBlocks.Text.Line

/-!
# Lines of joined texts

Cutting two joined texts into lines gives the lines of the one and then those
of the other, as long as the first ends at a line boundary and the joint does
not put a line feed after a carriage return: those two would be one boundary
(`Text.lines_append`).

Two conditions come up again and again for that reason. A text is terminated
when it is empty or ends at a boundary (`Text.Terminated`), and two texts
have a clean joint when no line feed meets a carriage return there
(`Text.CleanJoint`). A line of a text holds no boundary but the one that ends
it (`Text.exists_lineEnd_of_mem_lines`).

The white space at the end of a line does not count for what the line holds,
so the last part of the module says what trimming leaves of a text.
-/

namespace EditBlocks

namespace Text

/-- **A text is terminated** when it is empty or ends with a line boundary.
These are the texts whose lines are all ended. -/
def Terminated (t : Text) : Prop := ∀ c ∈ t.getLast?, isLineBreak c = true

instance (t : Text) : Decidable (Terminated t) :=
  decidable_of_iff (t.getLast?.all isLineBreak = true) (Option.all_eq_true _ _)

/-- A text without line boundaries is tested character by character. -/
theorem any_isLineBreak_eq_false_iff {t : Text} :
    t.any isLineBreak = false ↔ ∀ c ∈ t, isLineBreak c = false := by
  simp only [List.any_eq_false, Bool.not_eq_true]

/-- **A joint is clean** when it does not join a carriage return with a line
feed. -/
def CleanJoint (t u : Text) : Prop := t.getLast? = some '\r' → u.head? ≠ some '\n'

/-- The empty text is terminated. -/
@[simp] theorem terminated_nil : Terminated [] := by
  intro c hc
  cases hc

/-- What is left of a terminated text after its first character is
terminated. -/
theorem Terminated.tail {c : Char} {t : Text} (h : Terminated (c :: t)) : Terminated t := by
  cases t with
  | nil => exact terminated_nil
  | cons d t => simpa [Terminated] using h

/-- A text with a character in front is terminated, if what follows is; where
nothing does, the character ends the line. -/
theorem terminated_cons {c : Char} {t : Text} (hc : t = [] → isLineBreak c = true)
    (ht : Terminated t) : Terminated (c :: t) := by
  intro d hd
  cases t with
  | nil => exact Option.some.inj hd ▸ hc rfl
  | cons e t =>
    rw [List.getLast?_cons_cons] at hd
    exact ht d hd

theorem lines_ne_nil {t : Text} (h : t ≠ []) : lines t ≠ [] := by
  intro hl
  have := flatten_lines t
  rw [hl] at this
  exact h this.symm

/-- A character joins the first line of a list of lines, whatever follows. -/
theorem consLine_append (c : Char) {ls : List Text} (h : ls ≠ []) (ms : List Text) :
    consLine c (ls ++ ms) = consLine c ls ++ ms := by
  cases ls with
  | nil => exact absurd rfl h
  | cons l ls => rfl

theorem lines_cons (c : Char) (t : Text) :
    lines (c :: t) = if endsLine c t then [c] :: lines t else consLine c (lines t) := rfl

/-- **The lines of joined texts** are those of the first and then those of
the second. -/
theorem lines_append {t u : Text} (ht : Terminated t) (hj : CleanJoint t u) :
    lines (t ++ u) = lines t ++ lines u := by
  induction t with
  | nil => rfl
  | cons c t ih =>
    -- only the last character of the first text can see the second
    cases t with
    | nil =>
      have hc : isLineBreak c = true := ht c (by simp)
      have hu : endsLine c u = true := by
        by_cases hr : c = '\r'
        · have := hj (by simp [hr])
          simp [endsLine, hc, this]
        · simp [endsLine, hc, hr]
      have hn : endsLine c [] = true := by simp [endsLine, hc]
      simp [lines, hu, hn]
    | cons d t =>
      have ih := ih ht.tail (by simpa [CleanJoint] using hj)
      have he : endsLine c (d :: t ++ u) = endsLine c (d :: t) := rfl
      have hne := lines_ne_nil (t := d :: t) (by simp)
      rw [List.cons_append, lines_cons c, lines_cons c, he, ih]
      split
      · rfl
      · exact consLine_append c hne _

theorem Terminated.append {t u : Text} (ht : Terminated t) (hu : Terminated u) :
    Terminated (t ++ u) := by
  intro c hc
  rw [List.getLast?_append, Option.mem_def, Option.or_eq_some_iff] at hc
  rcases hc with hc | ⟨-, hc⟩
  · exact hu c hc
  · exact ht c hc

/-- The lines of a terminated text and of one that begins with no line
feed. -/
theorem lines_append_of_head?_ne {t u : Text} (ht : Terminated t) (hu : u.head? ≠ some '\n') :
    lines (t ++ u) = lines t ++ lines u :=
  lines_append ht fun _ => hu

/-- A text that ends with a line feed has its lines before those of what
comes after. -/
theorem lines_append_of_getLast? {t : Text} (h : t.getLast? = some '\n') (u : Text) :
    lines (t ++ u) = lines t ++ lines u := by
  refine lines_append (fun c hc => ?_) fun hreturn => ?_
  · obtain rfl : '\n' = c := Option.some.inj (h.symm.trans hc)
    rfl
  · exact absurd (Option.some.inj (h.symm.trans hreturn)) (by decide)

/-- A text that ends with a line feed and has no boundary before is one
line. -/
theorem lines_line {t : Text} (h : ∀ c ∈ t, isLineBreak c = false) :
    lines (t ++ ['\n']) = [t ++ ['\n']] := by
  induction t with
  | nil => rfl
  | cons c t ih =>
    have hc : endsLine c (t ++ ['\n']) = false := by
      simp [endsLine, h c (by simp)]
    rw [List.cons_append, lines_cons, hc, ih (fun d hd => h d (by simp [hd]))]
    rfl

/-- **A line with a text after it** is cut off as it is. -/
theorem lines_line_append {t : Text} (h : ∀ c ∈ t, isLineBreak c = false) (u : Text) :
    lines (t ++ ['\n'] ++ u) = (t ++ ['\n']) :: lines u := by
  rw [lines_append_of_getLast? List.getLast?_concat, lines_line h, List.singleton_append]

/-! ## What ends a line

A boundary is one character or a carriage return with its line feed, so it is
a text and not a character. -/

/-- **What a line ends with**: nothing, one boundary character, or a carriage
return and a line feed. -/
inductive LineEnd : Text → Prop
  /-- The line is not ended. -/
  | nothing : LineEnd []
  /-- One boundary character. -/
  | single {c : Char} (h : isLineBreak c = true) : LineEnd [c]
  /-- A carriage return and the line feed after it. -/
  | pair : LineEnd ['\r', '\n']

theorem isLineBreak_of_mem_lineEnd {t : Text} (h : LineEnd t) : ∀ c ∈ t, isLineBreak c = true := by
  cases h with
  | nothing => exact fun _ hc => (nomatch hc)
  | single h => exact fun _ hc => List.mem_singleton.1 hc ▸ h
  | pair => exact List.forall_mem_cons.2 ⟨rfl, List.forall_mem_singleton.2 rfl⟩

theorem lines_cons_lineFeed (t : Text) : lines ('\n' :: t) = ['\n'] :: lines t := rfl

/-- **A line holds no boundary but the one that ends it.** The last line may
have none at all. -/
theorem exists_lineEnd_of_mem_lines {t line : Text} (h : line ∈ lines t) :
    ∃ content ending, line = content ++ ending ∧ (∀ c ∈ content, isLineBreak c = false)
      ∧ LineEnd ending := by
  induction t generalizing line with
  | nil => cases h
  | cons c t ih =>
    rw [lines_cons] at h
    split at h
    next hends =>
      rcases List.mem_cons.1 h with rfl | h
      · rw [endsLine, Bool.and_eq_true] at hends
        exact ⟨[], [c], rfl, fun _ hc => (nomatch hc), .single hends.1⟩
      · exact ih h
    next hends =>
      cases hlines : lines t with
      | nil =>
        obtain rfl : t = [] := by rw [← flatten_lines t, hlines, List.flatten_nil]
        rw [hlines] at h
        obtain rfl := List.mem_singleton.1 h
        exact ⟨[c], [], rfl, by simpa [endsLine] using hends, .nothing⟩
      | cons first rest =>
        rw [hlines] at h ih
        rcases List.mem_cons.1 h with rfl | h
        · by_cases hc : isLineBreak c = true
          · -- a boundary that ends no line is a carriage return before a line feed
            obtain ⟨rfl, hhead⟩ : c = '\r' ∧ t.head? = some '\n' := by
              simpa [endsLine, hc] using hends
            obtain ⟨u, rfl⟩ := List.head?_eq_some_iff.1 hhead
            rw [lines_cons_lineFeed] at hlines
            obtain ⟨rfl, -⟩ := List.cons.inj hlines
            exact ⟨[], _, rfl, fun _ hc => (nomatch hc), .pair⟩
          · obtain ⟨content, ending, rfl, hcontent, hending⟩ := ih List.mem_cons_self
            refine ⟨c :: content, ending, rfl, ?_, hending⟩
            exact List.forall_mem_cons.2 ⟨by simpa using hc, hcontent⟩
        · exact ih (List.mem_cons_of_mem _ h)

/-! ## Trimming

Every boundary is white space, so lines that are trimmed can be compared
without regard to how they end. -/

theorem isBlankChar_of_isLineBreak {c : Char} (h : isLineBreak c = true) :
    isBlankChar c = true := by
  unfold isLineBreak at h
  unfold isBlankChar
  simp only [Bool.or_eq_true, Bool.and_eq_true, decide_eq_true_eq] at h ⊢
  omega

theorem isBlank_of_lineEnd {t : Text} (h : LineEnd t) : isBlank t = true :=
  List.all_eq_true.2 fun c hc => isBlankChar_of_isLineBreak (isLineBreak_of_mem_lineEnd h c hc)

/-- **A text is what trimming leaves of it, and white space after that.** -/
theorem exists_isBlank_of_trimEnd (t : Text) :
    ∃ blanks, t = trimEnd t ++ blanks ∧ isBlank blanks = true := by
  induction t with
  | nil => exact ⟨[], rfl, rfl⟩
  | cons c t ih =>
    rw [trimEnd]
    split
    next hblank => exact ⟨c :: t, rfl, hblank⟩
    next hblank =>
      obtain ⟨blanks, ht, hblanks⟩ := ih
      exact ⟨blanks, by rw [List.cons_append, ← ht], hblanks⟩

/-- White space at the end is trimmed away. -/
theorem trimEnd_append_of_isBlank (t : Text) {u : Text} (hu : isBlank u = true) :
    trimEnd (t ++ u) = trimEnd t := by
  induction t with
  | nil => exact (trimEnd_eq_nil_iff u).2 hu
  | cons c t ih =>
    have hb : isBlank (c :: (t ++ u)) = isBlank (c :: t) := by
      simp only [isBlank] at hu ⊢
      rw [← List.cons_append, List.all_append, hu, Bool.and_true]
    rw [List.cons_append, trimEnd, trimEnd, ih, hb]

/-- A text that ends with a character other than white space is trimmed to
itself. -/
theorem trimEnd_append_singleton (t : Text) {c : Char} (hc : isBlankChar c = false) :
    trimEnd (t ++ [c]) = t ++ [c] := by
  induction t with
  | nil => rw [List.nil_append, trimEnd, if_neg (by simp [isBlank, hc]), trimEnd_nil]
  | cons d t ih => rw [List.cons_append, trimEnd, ih, if_neg (by simp [isBlank, hc])]

end Text

end EditBlocks
