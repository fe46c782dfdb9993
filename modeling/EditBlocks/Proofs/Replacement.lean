import EditBlocks.Proofs.Quotation
import Mathlib.Logic.Function.Basic

/-!
# What edits make of texts

Edits read and change nothing but the texts of files, and each edit only that
of its own file. An edit that creates its file gives the empty text its
replacement; any other puts the replacement in the place of the first
occurrence of its search text, and leaves what stands before and after it as
it is (`Edit.Makes`). So the texts go from one edit to the next
(`Edit.Evolves`), and there is one way in which they can go
(`Edit.Evolves.unique`).

`Snapshot.appliesInTurn` says that applying edits to a snapshot is just that:
it succeeds when each edit can be made in what the ones before it have left
of its file, the texts afterwards are those that have evolved, and where it
fails, it fails by the first edit that cannot be made, whatever comes after
it.
-/

namespace EditBlocks

namespace Edit

/-- **Whether an edit can be made in a text.** One that creates its file can
be made in the empty text only, any other where its search text occurs. -/
def FitsIn (e : Edit) (contents : Text) : Prop :=
  if e.creates = true then contents = [] else e.search <:+: contents

/-- **What an edit makes of a text.** There is one rule for edits that create
and one for those that replace, and neither applies to a text in which the
edit does not fit. -/
inductive Makes (e : Edit) : Text → Text → Prop
  /-- An edit that creates its file. -/
  | creates (h : e.creates = true) : Makes e [] e.replacement
  /-- An edit that replaces the first occurrence of its search text. -/
  | replaces (h : e.creates = false) {contents before after : Text}
      (hfirst : Text.FirstOccurrence e.search contents before after) :
      Makes e contents (before ++ e.replacement ++ after)

/-- **The error of an edit that cannot be made**: the file that it would
create holds text already, or its search text is not found. -/
def refusal (e : Edit) : ApplyError :=
  if e.creates = true then .fileExists e.path else .searchNotFound e.path e.search

variable {e : Edit} {contents t : Text} {edits : List Edit}

/-- An edit makes of a text what it is said to make. -/
theorem applyTo_eq_ok_iff_makes : e.applyTo contents = .ok t ↔ e.Makes contents t := by
  cases hcreates : e.creates with
  | true =>
    rw [applyTo, if_pos hcreates]
    constructor
    · intro h
      split at h
      next hempty =>
        cases h
        subst hempty
        exact .creates hcreates
      · cases h
    · rintro (_ | ⟨hnot, -⟩)
      · rw [if_pos rfl]
      · cases hcreates.symm.trans hnot
  | false =>
    rw [Snapshot.applyTo_eq_ok_iff hcreates]
    constructor
    · rintro ⟨before, after, hfirst, rfl⟩
      exact .replaces hcreates hfirst
    · rintro (hnot | ⟨-, hfirst⟩)
      · cases hcreates.symm.trans hnot
      · exact ⟨_, _, hfirst, rfl⟩

/-- **An edit that does not fit in a text cannot be made in it**, and only
such an edit cannot. -/
theorem applyTo_eq_error_iff {error : ApplyError} :
    e.applyTo contents = .error error ↔ ¬e.FitsIn contents ∧ error = e.refusal := by
  unfold applyTo FitsIn refusal
  split
  · -- the edit creates its file
    split
    next hempty => exact iff_of_false (fun h => nomatch h) fun h => h.1 hempty
    next htext =>
      rw [and_iff_right htext, Except.error.injEq, eq_comm]
  · cases hcut : Text.cut? e.search contents with
    | none =>
      rw [and_iff_right (Text.cut?_eq_none_iff.1 hcut), Except.error.injEq, eq_comm]
    | some found =>
      refine iff_of_false (fun h => nomatch h) fun h => h.1 ?_
      obtain ⟨before, after⟩ := found
      exact ⟨before, after, (Text.eq_append_of_cut? hcut).symm⟩

/-- An edit fits in the texts that it makes something of. -/
theorem fitsIn_iff : e.FitsIn contents ↔ ∃ t, e.Makes contents t := by
  simp only [← applyTo_eq_ok_iff_makes]
  cases h : e.applyTo contents with
  | ok t => exact iff_of_true (not_not.1 fun hnot =>
      nomatch h.symm.trans (applyTo_eq_error_iff.2 ⟨hnot, rfl⟩)) ⟨t, rfl⟩
  | error error => exact iff_of_false (applyTo_eq_error_iff.1 h).1 fun ⟨_, h⟩ => nomatch h

/-- It makes one thing of a text. -/
theorem Makes.unique {t' : Text} (h : e.Makes contents t) (h' : e.Makes contents t') : t = t' :=
  Except.ok.inj ((applyTo_eq_ok_iff_makes.2 h).symm.trans (applyTo_eq_ok_iff_makes.2 h'))

/-- **How the texts of files evolve** while edits are made, one after the
other. Each edit reads and changes the text of its own file. -/
inductive Evolves : (Text → Text) → List Edit → (Text → Text) → Prop
  /-- No edits. -/
  | nil (texts : Text → Text) : Evolves texts [] texts
  /-- An edit, and then the others. -/
  | cons {texts texts' : Text → Text} {e : Edit} {t : Text} {rest : List Edit}
      (hmakes : e.Makes (texts e.path) t)
      (hrest : Evolves (Function.update texts e.path t) rest texts') :
      Evolves texts (e :: rest) texts'

/-- **Texts evolve in one way.** Each edit makes one thing of a text, so what
all of them leave is settled by what there was. -/
theorem Evolves.unique {texts left left' : Text → Text} (h : Evolves texts edits left)
    (h' : Evolves texts edits left') : left = left' := by
  induction h with
  | nil texts =>
    cases h'
    rfl
  | cons hmakes _ ih =>
    cases h' with
    | cons hmakes' hrest' =>
      obtain rfl := hmakes.unique hmakes'
      exact ih hrest'

end Edit

namespace Snapshot

open Edit

variable {s s' : Snapshot} {edits : List Edit}

theorem contents_update_eq (s : Snapshot) (path t : Text) :
    (s.update path t).contents = Function.update s.contents path t := by
  funext p
  rw [contents_update, Function.update_apply]

/-- The texts of a snapshot evolve when edits are applied to it. -/
theorem evolves_of_applyEdits (h : s.applyEdits edits = .ok s') :
    Evolves s.contents edits s'.contents := by
  induction edits generalizing s with
  | nil =>
    cases h
    exact .nil _
  | cons e rest ih =>
    obtain ⟨t, ht, h⟩ := applyEdits_cons_eq_ok_iff.1 h
    exact .cons (applyTo_eq_ok_iff_makes.1 ht) (contents_update_eq s e.path t ▸ ih h)

/-- **Edits can be applied when the texts evolve.** -/
theorem exists_applyEdits_of_evolves {texts : Text → Text} (h : Evolves s.contents edits texts) :
    ∃ s', s.applyEdits edits = .ok s' ∧ s'.contents = texts := by
  induction edits generalizing s with
  | nil =>
    cases h
    exact ⟨s, rfl, rfl⟩
  | cons e rest ih =>
    cases h with
    | @cons _ _ _ t _ hmakes hrest =>
      obtain ⟨s', hs', htexts⟩ := ih ((contents_update_eq s e.path t).symm ▸ hrest)
      exact ⟨s', applyEdits_cons_eq_ok_iff.2 ⟨t, applyTo_eq_ok_iff_makes.2 hmakes, hs'⟩, htexts⟩

/-- **Edits fail by the first that does not fit** in what the ones before it
have left of its file. -/
theorem applyEdits_eq_error_iff {error : ApplyError} :
    s.applyEdits edits = .error error
      ↔ ∃ earlier e later texts, edits = earlier ++ e :: later
        ∧ Evolves s.contents earlier texts ∧ ¬e.FitsIn (texts e.path) ∧ error = e.refusal := by
  constructor
  · intro h
    induction edits generalizing s with
    | nil => cases h
    | cons e rest ih =>
      rw [applyEdits_cons] at h
      cases ht : e.applyTo (s.contents e.path) with
      | error error' =>
        rw [ht] at h
        cases h
        obtain ⟨hnot, rfl⟩ := applyTo_eq_error_iff.1 ht
        exact ⟨[], e, rest, _, rfl, .nil _, hnot, rfl⟩
      | ok t =>
        rw [ht] at h
        obtain ⟨earlier, e', later, texts, rfl, hevolves, hnot, rfl⟩ := ih h
        rw [contents_update_eq] at hevolves
        exact ⟨e :: earlier, e', later, texts, rfl,
          .cons (applyTo_eq_ok_iff_makes.1 ht) hevolves, hnot, rfl⟩
  · rintro ⟨earlier, e, later, texts, rfl, hevolves, hnot, rfl⟩
    obtain ⟨mid, hmid, rfl⟩ := exists_applyEdits_of_evolves hevolves
    have hfails := applyTo_eq_error_iff.2 ⟨hnot, rfl⟩
    simp only [applyEdits_append, hmid, applyEdits_cons, hfails]

/-- **Edits are applied in turn** to a snapshot. The fields say when that
succeeds, what is left then, and how it fails otherwise. -/
structure AppliesInTurn (s : Snapshot) (edits : List Edit) : Prop where
  /-- They can be applied exactly when each of them fits in what the ones
  before it have left of its file. -/
  succeeds : (∃ s', s.applyEdits edits = .ok s')
    ↔ ∀ earlier e later, edits = earlier ++ e :: later →
      ∃ texts, Evolves s.contents earlier texts ∧ e.FitsIn (texts e.path)
  /-- The texts afterwards are those that they have made, one edit after the
  other. -/
  evolves : ∀ s', s.applyEdits edits = .ok s' → Evolves s.contents edits s'.contents
  /-- They fail by the first that does not fit, with its error, whatever the
  later ones are. -/
  fails : ∀ error, s.applyEdits edits = .error error
    ↔ ∃ earlier e later texts, edits = earlier ++ e :: later
      ∧ Evolves s.contents earlier texts ∧ ¬e.FitsIn (texts e.path) ∧ error = e.refusal

/-- **Applying edits is replacing first occurrences, one after the other**,
whatever the snapshot and the edits. -/
theorem appliesInTurn (s : Snapshot) (edits : List Edit) : AppliesInTurn s edits where
  succeeds := by
    constructor
    · rintro ⟨s', h⟩ earlier e later rfl
      obtain ⟨mid, hearlier, hrest⟩ := exists_applyEdits_of_append h
      obtain ⟨t, ht, -⟩ := applyEdits_cons_eq_ok_iff.1 hrest
      exact ⟨_, evolves_of_applyEdits hearlier,
        fitsIn_iff.2 ⟨t, applyTo_eq_ok_iff_makes.1 ht⟩⟩
    · intro hall
      cases h : s.applyEdits edits with
      | ok s' => exact ⟨s', rfl⟩
      | error error =>
        obtain ⟨earlier, e, later, texts, hsplit, hevolves, hnot, -⟩ := applyEdits_eq_error_iff.1 h
        obtain ⟨texts', hevolves', hfits⟩ := hall earlier e later hsplit
        exact absurd (hevolves.unique hevolves' ▸ hfits) hnot
  evolves := fun _ h => evolves_of_applyEdits h
  fails := fun _ => applyEdits_eq_error_iff

/-- What a replacement brings in is not searched by the same edit, and
neither are later occurrences. -/
example : ((oneFile.applyEdits [⟨"a", "one", "one one"⟩, ⟨"a", "one", "1"⟩]).toOption.map
    fun s => s.contents "a") = some "1 one" := by decide

end Snapshot

end EditBlocks
