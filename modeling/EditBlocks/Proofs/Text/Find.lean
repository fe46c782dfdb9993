import EditBlocks.Text.Find
import Mathlib.Data.List.Infix

/-!
# What a search finds

`Text.cut?` looks for a text in another from the left. It finds it exactly
when it is there (`Text.cut?_eq_none_iff`), and what it gives is the place
with the shortest text before it (`Text.cut?_eq_some_iff`).

`Text.FirstOccurrence` is that place, as a condition on three texts: put
together they are the text that was searched, and no shorter beginning can
stand in the place of the first. Whatever is said of edits is said with it,
and the search itself is not looked at again.
-/

namespace EditBlocks.Text

/-- **The first occurrence of a text in another**, as the text before and the
text after it. -/
structure FirstOccurrence (sought t before after : Text) : Prop where
  /-- It is there. -/
  eq_append : t = before ++ sought ++ after
  /-- It is nowhere with less before it. -/
  least : ∀ b a, t = b ++ sought ++ a → before.length ≤ b.length

/-- A text has no beginning to drop when it does not begin so. -/
theorem dropStart?_eq_none_iff {start t : Text} : dropStart? start t = none ↔ ¬start <+: t := by
  constructor
  · rintro h ⟨after, rfl⟩
    rw [dropStart?_append] at h
    cases h
  · intro h
    cases hdrop : dropStart? start t with
    | none => rfl
    | some after => exact absurd ⟨after, (eq_append_of_dropStart? hdrop).symm⟩ h

/-- **Nothing is found** exactly when the text does not occur. -/
theorem cut?_eq_none_iff {sought t : Text} : cut? sought t = none ↔ ¬sought <:+: t := by
  induction t with
  | nil =>
    rw [cut?, List.infix_nil]
    split <;> simp_all
  | cons c t ih =>
    rw [cut?, List.infix_cons_iff, not_or, ← dropStart?_eq_none_iff, ← ih]
    cases dropStart? sought (c :: t) with
    | none => simp
    | some after => simp

theorem firstOccurrence_of_cut? {sought t before after : Text}
    (h : cut? sought t = some (before, after)) : FirstOccurrence sought t before after := by
  refine ⟨eq_append_of_cut? h, fun b a hba => ?_⟩
  induction t generalizing before b with
  | nil =>
    rw [cut?] at h
    split at h
    · cases h
      exact Nat.zero_le _
    · cases h
  | cons c t ih =>
    rw [cut?] at h
    split at h
    next found =>
      cases h
      exact Nat.zero_le _
    next hnone =>
      obtain ⟨⟨before', after'⟩, hfound, hsame⟩ := Option.map_eq_some_iff.1 h
      obtain ⟨rfl, rfl⟩ := Prod.mk.inj hsame
      cases b with
      | nil =>
        -- it does not occur at the very beginning
        rw [List.nil_append] at hba
        exact absurd ⟨a, hba.symm⟩ (dropStart?_eq_none_iff.1 hnone)
      | cons d b => exact Nat.succ_le_succ (ih hfound b (List.cons.inj hba).2)

/-- **What is found is the first occurrence**, and only that. -/
theorem cut?_eq_some_iff {sought t before after : Text} :
    cut? sought t = some (before, after) ↔ FirstOccurrence sought t before after := by
  refine ⟨firstOccurrence_of_cut?, fun h => ?_⟩
  cases hcut : cut? sought t with
  | none => exact absurd ⟨before, after, h.eq_append.symm⟩ (cut?_eq_none_iff.1 hcut)
  | some found =>
    obtain ⟨b, a⟩ := found
    have hfound := firstOccurrence_of_cut? hcut
    -- neither text before is shorter than the other
    have hlength : b.length = before.length :=
      Nat.le_antisymm (hfound.least _ _ h.eq_append) (h.least _ _ hfound.eq_append)
    have heq : b ++ (sought ++ a) = before ++ (sought ++ after) := by
      rw [← List.append_assoc, ← List.append_assoc, ← hfound.eq_append, ← h.eq_append]
    obtain ⟨rfl, hrest⟩ := List.append_inj heq hlength
    rw [List.append_cancel_left hrest]

theorem exists_firstOccurrence {sought t : Text} (h : sought <:+: t) :
    ∃ before after, FirstOccurrence sought t before after := by
  cases hcut : cut? sought t with
  | none => exact absurd h (cut?_eq_none_iff.1 hcut)
  | some found => exact ⟨found.1, found.2, firstOccurrence_of_cut? hcut⟩

end EditBlocks.Text
