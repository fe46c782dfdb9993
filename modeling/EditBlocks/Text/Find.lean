import EditBlocks.Text.Basic

/-!
# First occurrences

Where a text first occurs in another, as the text before it and the text
after it (`Text.cut?`). The text before is the shortest there is: the
beginning is looked at first, and then it moves on by one character. The
empty text occurs at the beginning of every text.
-/

namespace EditBlocks.Text

/-- The text after a beginning, if the text has that beginning. -/
def dropStart? : Text → Text → Option Text
  | [], t => some t
  | _ :: _, [] => none
  | s :: start, c :: t => if s = c then dropStart? start t else none

/-- **The text before and the text after the first occurrence**, if there is
one. The empty text occurs at the beginning of every text. -/
def cut? (sought : Text) : Text → Option (Text × Text)
  | [] => if sought = [] then some ([], []) else none
  | c :: t =>
    match dropStart? sought (c :: t) with
    | some after => some ([], after)
    | none => (cut? sought t).map fun (before, after) => (c :: before, after)

/-- Whether a text occurs in another. -/
def contains (t sought : Text) : Bool := (cut? sought t).isSome

theorem eq_append_of_dropStart? {start t after : Text} (h : dropStart? start t = some after) :
    t = start ++ after := by
  fun_induction dropStart? start t with
  | case1 => simpa using h
  | case2 => simp at h
  | case3 start t s ih => simp [ih h]
  | case4 => simp at h

@[simp] theorem dropStart?_append (start after : Text) :
    dropStart? start (start ++ after) = some after := by
  induction start with
  | nil => rfl
  | cons s start ih => simp [dropStart?, ih]

/-- **What is cut out was there.** -/
theorem eq_append_of_cut? {sought t before after : Text}
    (h : cut? sought t = some (before, after)) : t = before ++ sought ++ after := by
  induction t generalizing before with
  | nil =>
    rw [cut?] at h
    split at h <;> simp_all
  | cons c t ih =>
    rw [cut?] at h
    split at h
    next found =>
      obtain ⟨rfl, rfl⟩ := Prod.mk.inj (Option.some.inj h)
      simpa using eq_append_of_dropStart? found
    next =>
      obtain ⟨⟨b, a⟩, found, same⟩ := Option.map_eq_some_iff.1 h
      obtain ⟨rfl, rfl⟩ := Prod.mk.inj same
      simp [ih found]

end EditBlocks.Text
