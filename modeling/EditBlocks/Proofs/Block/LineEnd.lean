import EditBlocks.Block.Marker
import EditBlocks.Proofs.Text.Newline

/-!
# How a line ends

What the scanner asks of a line does not depend on the white space at its
end: which marker it holds, whether it is noise or a code fence, which path
it names, and the words of it that an error quotes (`Text.IgnoresEnd`). So a
line is read alike whatever boundary ends it, and whether it is ended at all.

Each of these questions is asked of the line as it is and not of the trimmed
line, so the property is shown of each. For the first ones it is immediate,
because they trim the line themselves.
-/

namespace EditBlocks

namespace Text

theorem isBlank_append (t u : Text) : isBlank (t ++ u) = (isBlank t && isBlank u) :=
  List.all_append

theorem trim_append_of_isBlank (t : Text) {u : Text} (hu : isBlank u = true) :
    trim (t ++ u) = trim t := by
  rw [trim, trim, trimEnd_append_of_isBlank t hu]

/-- **What is read off a line whatever white space it ends with.** -/
def IgnoresEnd {α : Type} (reading : Text → α) : Prop :=
  ∀ (line : Text) {ending : Text}, isBlank ending = true → reading (line ++ ending) = reading line

/-- **It is read alike from a line with its newline made one.** -/
theorem IgnoresEnd.normalizeNewlines {α : Type} {reading : Text → α} (h : IgnoresEnd reading)
    {t line : Text} (hline : line ∈ lines t) : reading line.normalizeNewlines = reading line := by
  obtain ⟨content, ending, ending', rfl, hnormal, hblank, hblank'⟩ :=
    exists_normalizeNewlines_of_mem_lines hline
  rw [hnormal, h content hblank', h content hblank]

theorem ignoresEnd_trim : IgnoresEnd trim := trim_append_of_isBlank

end Text

namespace Marker

/-- White space at its end does not change what marker a line holds. -/
theorem ofLine?_append_of_isBlank (line : Text) {t : Text} (ht : t.isBlank = true) :
    ofLine? (line ++ t) = ofLine? line := by
  unfold ofLine?
  rw [Text.trimEnd_append_of_isBlank line ht]

theorem ignoresEnd_ofLine? : Text.IgnoresEnd ofLine? := ofLine?_append_of_isBlank

theorem ignoresEnd_isFence : Text.IgnoresEnd isFence := by
  intro line ending hending
  unfold isFence
  rw [Text.trim_append_of_isBlank line hending]

theorem ignoresEnd_isNoise : Text.IgnoresEnd isNoise := by
  intro line ending hending
  unfold isNoise
  rw [ignoresEnd_isFence line hending, Text.isBlank_append, hending, Bool.and_true]

/-! ## The path of a tag

The path is searched for in the whole line. White space at the end could only
add to what stands before a quotation mark, and there is none behind it. -/

/-- A beginning without white space stands in a text before the white space
at its end, or not at all. -/
theorem dropStart?_append_of_isBlank {start : Text} (hstart : start.any isBlankChar = false)
    (t : Text) {u : Text} (hu : u.isBlank = true) :
    Text.dropStart? start (t ++ u) = (Text.dropStart? start t).map (· ++ u) := by
  induction start generalizing t with
  | nil => rfl
  | cons s start ih =>
    rw [List.any_cons, Bool.or_eq_false_iff] at hstart
    cases t with
    | nil =>
      cases u with
      | nil => rfl
      | cons c u =>
        have hc : isBlankChar c = true := List.all_eq_true.1 hu c List.mem_cons_self
        have hne : s ≠ c := fun h => absurd hc (by rw [← h, hstart.1]; decide)
        show Text.dropStart? (s :: start) (c :: u) = none
        rw [Text.dropStart?, if_neg hne]
    | cons c t =>
      rw [List.cons_append, Text.dropStart?, Text.dropStart?]
      split
      · exact ih hstart.2 t
      · rfl

theorem beforeQuote?_append_of_isBlank (t : Text) {u : Text} (hu : u.isBlank = true) :
    beforeQuote? (t ++ u) = beforeQuote? t := by
  induction t with
  | nil =>
    induction u with
    | nil => rfl
    | cons c u ih =>
      rw [Text.isBlank, List.all_cons, Bool.and_eq_true] at hu
      have hquote : c ≠ '"' := fun h => absurd hu.1 (by rw [h]; decide)
      have hrest : beforeQuote? u = none := ih hu.2
      show beforeQuote? (c :: u) = none
      rw [beforeQuote?, if_neg hquote, hrest]
      rfl
  | cons c t ih =>
    rw [List.cons_append, beforeQuote?, beforeQuote?, ih]

/-- No attribute begins in white space at the end. -/
theorem ignoresEnd_fileAttribute? : Text.IgnoresEnd fileAttribute? := by
  intro line ending hending
  have hname : List.any "file=\"".toList isBlankChar = false := rfl
  induction line with
  | nil =>
    induction ending with
    | nil => rfl
    | cons c u ih =>
      rw [Text.isBlank, List.all_cons, Bool.and_eq_true] at hending
      have hdrop : Text.dropStart? "file=\"" u = none :=
        dropStart?_append_of_isBlank hname [] hending.2
      have hrest : fileAttribute? u = none := ih hending.2
      show fileAttribute? (c :: u) = none
      rw [fileAttribute?, if_pos hending.1, hdrop, hrest]
      rfl
  | cons c t ih =>
    have hvalue : (Text.dropStart? "file=\"" (t ++ ending)).bind beforeQuote?
        = (Text.dropStart? "file=\"" t).bind beforeQuote? := by
      rw [dropStart?_append_of_isBlank hname t hending, Option.bind_map]
      exact congrArg _ (funext fun rest => beforeQuote?_append_of_isBlank rest hending)
    rw [List.cons_append, fileAttribute?, fileAttribute?, ih, hvalue]

/-- **The path that a tag names** does not depend on the white space after
the tag. -/
theorem ignoresEnd_path? : Text.IgnoresEnd path? := by
  intro line ending hending
  unfold path?
  rw [ignoresEnd_fileAttribute? line hending]

end Marker

end EditBlocks
