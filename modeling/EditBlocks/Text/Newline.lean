import EditBlocks.Text.Basic

/-!
# Universal newlines

Three spellings of the end of a line – a line feed, a carriage return, and
the two together – are read as one line feed. A text without a carriage
return is left as it is. The other boundaries of lines, of which there are
eight, are not touched.
-/

namespace EditBlocks.Text

/-- **Every newline becomes a line feed.** A carriage return and the line
feed right after it are one newline. -/
def normalizeNewlines : Text → Text
  | [] => []
  | '\r' :: '\n' :: t => '\n' :: normalizeNewlines t
  | c :: t => (if c = '\r' then '\n' else c) :: normalizeNewlines t

theorem normalizeNewlines_of_not_mem {t : Text} (h : '\r' ∉ t) : normalizeNewlines t = t := by
  fun_induction normalizeNewlines t with
  | case1 => rfl
  | case2 t ih => simp at h
  | case3 c t _ ih =>
    rw [List.mem_cons, not_or] at h
    simp [Ne.symm h.1, ih h.2]

end EditBlocks.Text
