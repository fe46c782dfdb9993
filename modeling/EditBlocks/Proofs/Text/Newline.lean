import EditBlocks.Proofs.Text.Line
import EditBlocks.Text.Newline

/-!
# Lines with their newlines made one

Making every newline a line feed changes how lines end and nothing else. The
lines afterwards are the lines of before, each with its own end made a line
feed (`Text.lines_normalizeNewlines`): what they hold stays, and so does what
counts in a line that may be a marker or blank.

Normalizing is not a function of each character, since a carriage return and
the line feed after it are one end of a line. So it does not go through
joined texts, but for clean joints (`Text.normalizeNewlines_append`), and
that is enough for lines.
-/

namespace EditBlocks.Text

theorem normalizeNewlines_cons {c : Char} (hc : c ≠ '\r') (t : Text) :
    normalizeNewlines (c :: t) = c :: normalizeNewlines t := by
  rw [normalizeNewlines]
  · rw [if_neg hc]
  · rintro _ rfl
    exact absurd rfl hc

/-- A carriage return is a newline, if no line feed follows it. -/
theorem normalizeNewlines_cons_return {t : Text} (ht : t.head? ≠ some '\n') :
    normalizeNewlines ('\r' :: t) = '\n' :: normalizeNewlines t := by
  rw [normalizeNewlines]
  · rw [if_pos rfl]
  · rintro _ - rfl
    exact ht rfl

/-- **Joined texts have their newlines made one** each for itself, where the
joint joins none. -/
theorem normalizeNewlines_append {t u : Text} (h : CleanJoint t u) :
    normalizeNewlines (t ++ u) = normalizeNewlines t ++ normalizeNewlines u := by
  fun_induction normalizeNewlines t with
  | case1 => rfl
  | case2 t ih =>
    have hrest : CleanJoint t u := fun hlast => h (by
      rw [List.getLast?_cons_cons, List.getLast?_cons, hlast]
      rfl)
    rw [List.cons_append, List.cons_append, normalizeNewlines, ih hrest, List.cons_append]
  | case3 c t hpair ih =>
    have hrest : CleanJoint t u := fun hlast => h (by rw [List.getLast?_cons, hlast]; rfl)
    by_cases hc : c = '\r'
    · subst hc
      have hhead : (t ++ u).head? ≠ some '\n' := by
        cases t with
        | nil => exact h rfl
        | cons d t =>
          intro hd
          exact hpair t rfl (congrArg (· :: t) (Option.some.inj hd))
      rw [List.cons_append, normalizeNewlines_cons_return hhead, ih hrest, if_pos rfl,
        List.cons_append]
    · rw [List.cons_append, normalizeNewlines_cons hc, ih hrest, if_neg hc, List.cons_append]

/-- What is there afterwards was there before, or is a line feed. -/
theorem mem_of_mem_normalizeNewlines {t : Text} {c : Char} (h : c ∈ normalizeNewlines t) :
    c ∈ t ∨ c = '\n' := by
  fun_induction normalizeNewlines t with
  | case1 => cases h
  | case2 t ih =>
    rcases List.mem_cons.1 h with rfl | h
    · exact Or.inr rfl
    · exact (ih h).imp_left fun hmem => List.mem_cons_of_mem _ (List.mem_cons_of_mem _ hmem)
  | case3 d t _ ih =>
    rcases List.mem_cons.1 h with hd | h
    · split at hd
      · exact Or.inr hd
      · exact Or.inl (hd ▸ List.mem_cons_self)
    · exact (ih h).imp_left (List.mem_cons_of_mem _)

/-- What was there before is there afterwards, or is a carriage return. -/
theorem mem_normalizeNewlines {t : Text} {c : Char} (h : c ∈ t) :
    c ∈ normalizeNewlines t ∨ c = '\r' := by
  fun_induction normalizeNewlines t with
  | case1 => cases h
  | case2 t ih =>
    rcases List.mem_cons.1 h with rfl | h
    · exact Or.inr rfl
    · rcases List.mem_cons.1 h with rfl | h
      · exact Or.inl List.mem_cons_self
      · exact (ih h).imp_left (List.mem_cons_of_mem _)
  | case3 d t _ ih =>
    rcases List.mem_cons.1 h with rfl | h
    · by_cases hc : c = '\r'
      · exact Or.inr hc
      · rw [if_neg hc]
        exact Or.inl List.mem_cons_self
    · exact (ih h).imp_left (List.mem_cons_of_mem _)

/-- **A text is blank afterwards** when it was before. -/
theorem isBlank_normalizeNewlines (t : Text) : isBlank (normalizeNewlines t) = isBlank t := by
  rw [Bool.eq_iff_iff, isBlank, isBlank, List.all_eq_true, List.all_eq_true]
  constructor
  · intro h c hc
    rcases mem_normalizeNewlines hc with hmem | rfl
    · exact h c hmem
    · decide
  · intro h c hc
    rcases mem_of_mem_normalizeNewlines hc with hmem | rfl
    · exact h c hmem
    · decide

/-! ## Lines

A carriage return that ends a line is followed by a line feed on the same
line or by none at all, so each line is normalized by itself. -/

/-- A line that another character joins has its newline made one as before. -/
theorem map_normalizeNewlines_consLine {c : Char} (hc : c ≠ '\r') (ls : List Text) :
    (consLine c ls).map normalizeNewlines = consLine c (ls.map normalizeNewlines) := by
  cases ls with
  | nil => exact congrArg (· :: []) (normalizeNewlines_cons hc [])
  | cons line rest =>
    exact congrArg (· :: rest.map normalizeNewlines) (normalizeNewlines_cons hc line)

/-- **The lines afterwards** are those of before, each with its newline made
one. -/
theorem lines_normalizeNewlines (t : Text) :
    lines (normalizeNewlines t) = (lines t).map normalizeNewlines := by
  fun_induction normalizeNewlines t with
  | case1 => rfl
  | case2 t ih =>
    have hline : lines ('\r' :: '\n' :: t) = ['\r', '\n'] :: lines t := rfl
    rw [lines_cons_lineFeed, ih, hline]
    rfl
  | case3 c t hpair ih =>
    by_cases hc : c = '\r'
    · subst hc
      have hends : endsLine '\r' t = true := by
        cases t with
        | nil => rfl
        | cons d t =>
          have hd : d ≠ '\n' := fun hd => hpair t rfl (congrArg (· :: t) hd)
          simp [endsLine, isLineBreak, hd]
      rw [if_pos rfl, lines_cons_lineFeed, ih, lines_cons, if_pos hends]
      rfl
    · have hends (u : Text) : endsLine c u = isLineBreak c := by simp [endsLine, hc]
      rw [if_neg hc, lines_cons, lines_cons, hends, hends, ih]
      split
      · exact congrArg (· :: _) (normalizeNewlines_cons hc []).symm
      · exact (map_normalizeNewlines_consLine hc _).symm

theorem normalizeNewlines_eq_nil_iff {t : Text} : normalizeNewlines t = [] ↔ t = [] := by
  fun_cases normalizeNewlines t <;> simp

theorem Terminated.normalizeNewlines {t : Text} (h : Terminated t) :
    Terminated (normalizeNewlines t) := by
  fun_induction Text.normalizeNewlines t with
  | case1 => exact h
  | case2 t ih => exact terminated_cons (fun _ => by decide) (ih h.tail.tail)
  | case3 c t _ ih =>
    refine terminated_cons (fun hnil => ?_) (ih h.tail)
    obtain rfl := normalizeNewlines_eq_nil_iff.1 hnil
    split
    · decide
    · exact h c rfl

/-- **What a line holds stays**: only how it ends is changed. -/
theorem exists_normalizeNewlines_of_mem_lines {t line : Text} (h : line ∈ lines t) :
    ∃ content ending ending', line = content ++ ending
      ∧ normalizeNewlines line = content ++ ending'
      ∧ isBlank ending = true ∧ isBlank ending' = true := by
  obtain ⟨content, ending, rfl, hcontent, hending⟩ := exists_lineEnd_of_mem_lines h
  have hblank : isBlank ending = true := List.all_eq_true.2 fun c hc =>
    isBlankChar_of_isLineBreak (isLineBreak_of_mem_lineEnd hending c hc)
  have hnone : '\r' ∉ content := fun hmem => absurd (hcontent _ hmem) (by decide)
  have hjoint : CleanJoint content ending := fun hlast =>
    absurd (List.mem_of_getLast? hlast) hnone
  refine ⟨content, ending, normalizeNewlines ending, rfl, ?_, hblank, ?_⟩
  · rw [normalizeNewlines_append hjoint, normalizeNewlines_of_not_mem hnone]
  · rw [isBlank_normalizeNewlines, hblank]

end EditBlocks.Text
