import EditBlocks.Proofs.Drafts

/-!
# Edits of one file

A snapshot keeps every file under the path that its edits name, so edits of
different paths do not touch each other: what is left under a path is what
that path's edits alone, one after the other, make of its text
(`Snapshot.applyAll_filter_of_applyEdits`). And a file is in the snapshot
afterwards if it was before or an edit names it
(`Snapshot.contains_of_applyEdits`).

Success is decided path by path as well (`Snapshot.exists_applyEdits_iff`).
So edits can be put in another order, as long as those of each path keep
theirs (`Snapshot.applyEdits_of_reordered`): only the order in which new
files come in can tell the two runs apart.

What the edits of a path make is a fold over them in the type of results
(`Edit.applyAll`), which does not mention snapshots. Whatever is said here of
one path is said of that fold.
-/

namespace EditBlocks

namespace Edit

/-- **Edits of one text**, each made in what the ones before it left. The
paths of the edits are not looked at; those of one file are picked out
before. -/
def applyAll : List Edit → Text → Except ApplyError Text
  | [], contents => .ok contents
  | e :: rest, contents =>
    match e.applyTo contents with
    | .ok next => applyAll rest next
    | .error error => .error error

/-- **Edits put in another order**, in which those of each path follow each
other as before. -/
structure Reordered (es fs : List Edit) : Prop where
  /-- They are the same edits. -/
  perm : es.Perm fs
  /-- Those of a path have kept their order. -/
  order : ∀ path, (es.filter fun e => e.path = path) = fs.filter fun e => e.path = path

end Edit

namespace Snapshot

variable {s s' : Snapshot} {e : Edit} {rest edits : List Edit}

/-- Edits are applied when the first can be, and the rest after it. -/
theorem applyEdits_cons_eq_ok_iff :
    s.applyEdits (e :: rest) = .ok s'
      ↔ ∃ t, e.applyTo (s.contents e.path) = .ok t
        ∧ (s.update e.path t).applyEdits rest = .ok s' := by
  rw [applyEdits_cons]
  cases e.applyTo (s.contents e.path) with
  | error error => exact ⟨fun h => (nomatch h), fun ⟨_, h, _⟩ => (nomatch h)⟩
  | ok t => exact ⟨fun h => ⟨t, rfl, h⟩, fun ⟨_, ht, h⟩ => (Except.ok.inj ht) ▸ h⟩

/-- **What is left under a path** is what its own edits make of its text. The
edits of other paths are made in between, and it is as if they were not. -/
theorem applyAll_filter_of_applyEdits (h : s.applyEdits edits = .ok s') (path : Text) :
    Edit.applyAll (edits.filter fun e => e.path = path) (s.contents path)
      = .ok (s'.contents path) := by
  induction edits generalizing s with
  | nil =>
    cases h
    rfl
  | cons e rest ih =>
    obtain ⟨t, ht, h⟩ := applyEdits_cons_eq_ok_iff.1 h
    have ih := ih h
    rw [contents_update] at ih
    by_cases hp : e.path = path
    · subst hp
      rw [if_pos rfl] at ih
      rw [List.filter_cons_of_pos (by simp), Edit.applyAll, ht]
      exact ih
    · rw [if_neg (Ne.symm hp)] at ih
      rwa [List.filter_cons_of_neg (by simpa using hp)]

theorem contains_update (s : Snapshot) (path contents p : Text) :
    (s.update path contents).contains p = (decide (p = path) || s.contains p) := by
  unfold contains update OrderedMap.contains
  rw [OrderedMap.get?_insert]
  by_cases hp : p = path <;> simp [hp]

/-- **The files afterwards** are those of before and those that edits name.
No edit takes a file away, not even one that leaves it empty. -/
theorem contains_of_applyEdits (h : s.applyEdits edits = .ok s') (path : Text) :
    s'.contains path = true ↔ s.contains path = true ∨ ∃ e ∈ edits, e.path = path := by
  induction edits generalizing s with
  | nil =>
    rw [applyEdits_nil] at h
    cases h
    simp
  | cons e rest ih =>
    obtain ⟨t, _, h⟩ := applyEdits_cons_eq_ok_iff.1 h
    rw [ih h, contains_update, Bool.or_eq_true, decide_eq_true_iff]
    constructor
    · rintro ((rfl | hs) | ⟨other, ho, rfl⟩)
      · exact Or.inr ⟨e, List.mem_cons_self, rfl⟩
      · exact Or.inl hs
      · exact Or.inr ⟨other, List.mem_cons_of_mem _ ho, rfl⟩
    · rintro (hs | ⟨other, ho, rfl⟩)
      · exact Or.inl (Or.inr hs)
      · rcases List.mem_cons.1 ho with rfl | ho
        · exact Or.inl (Or.inl rfl)
        · exact Or.inr ⟨other, ho, rfl⟩

theorem contents_of_get? {path : Text} {file : File} (h : s.files.get? path = some file) :
    s.contents path = file.contents := by
  rw [contents, h]

/-- **A path is changed** when its file is new or holds another text. So a
new file counts even if it is empty, and one that was changed and changed
back does not. -/
theorem mem_changed_iff {before after : Snapshot} {path : Text} :
    path ∈ before.changed after ↔ after.contains path = true
      ∧ (before.contains path = true → before.contents path ≠ after.contents path) := by
  unfold changed contains OrderedMap.contains
  rw [List.mem_map]
  constructor
  · rintro ⟨⟨path, file⟩, he, rfl⟩
    rw [List.mem_filter] at he
    have hafter := OrderedMap.get?_of_mem_entries he.1
    refine ⟨by rw [hafter]; rfl, fun hb => ?_⟩
    obtain ⟨old, hbefore⟩ := Option.isSome_iff_exists.1 hb
    rw [contents_of_get? hafter, contents_of_get? hbefore]
    simpa [hbefore] using he.2
  · rintro ⟨ha, hb⟩
    obtain ⟨file, hafter⟩ := Option.isSome_iff_exists.1 ha
    refine ⟨(path, file), List.mem_filter.2 ⟨OrderedMap.mem_entries_of_get? hafter, ?_⟩, rfl⟩
    cases hbefore : before.files.get? path with
    | none => rfl
    | some old =>
      have hne := hb (by rw [hbefore]; rfl)
      rw [contents_of_get? hafter, contents_of_get? hbefore] at hne
      simpa using hne

/-! ## Edits in another order

Two lists are reorderings of each other in this sense when, for every path,
filtering them by the path gives the same list. -/

/-- **All edits can be applied** when those of every path can be, one after
the other, to that path's text. -/
theorem exists_applyEdits_iff :
    (∃ s', s.applyEdits edits = .ok s')
      ↔ ∀ path, ∃ t,
        Edit.applyAll (edits.filter fun e => e.path = path) (s.contents path) = .ok t := by
  constructor
  · rintro ⟨s', h⟩ path
    exact ⟨_, applyAll_filter_of_applyEdits h path⟩
  · intro h
    induction edits generalizing s with
    | nil => exact ⟨s, rfl⟩
    | cons e rest ih =>
      -- the first edit is the first of its path
      obtain ⟨last, hfirst⟩ := h e.path
      rw [List.filter_cons_of_pos (by simp), Edit.applyAll] at hfirst
      cases ht : e.applyTo (s.contents e.path) with
      | error error =>
        rw [ht] at hfirst
        cases hfirst
      | ok t =>
        rw [ht] at hfirst
        obtain ⟨s', hrest⟩ := ih (s := s.update e.path t) fun path => by
          rw [contents_update]
          by_cases hp : path = e.path
          · subst hp
            exact ⟨last, by rwa [if_pos rfl]⟩
          · obtain ⟨last', hpath⟩ := h path
            rw [List.filter_cons_of_neg (by simpa using Ne.symm hp)] at hpath
            exact ⟨last', by rwa [if_neg hp]⟩
        exact ⟨s', applyEdits_cons_eq_ok_iff.2 ⟨t, ht, hrest⟩⟩

/-- Edits leave the commit and the root as they are. -/
theorem commit_root_of_applyEdits (h : s.applyEdits edits = .ok s') :
    s'.commit = s.commit ∧ s'.root = s.root := by
  induction edits generalizing s with
  | nil =>
    cases h
    exact ⟨rfl, rfl⟩
  | cons e rest ih =>
    obtain ⟨t, -, h⟩ := applyEdits_cons_eq_ok_iff.1 h
    have ih := ih h
    exact ih

/-- A file that no edit names is the one it was. -/
theorem get?_of_not_edited (h : s.applyEdits edits = .ok s') {path : Text}
    (hp : ∀ e ∈ edits, e.path ≠ path) : s'.files.get? path = s.files.get? path := by
  induction edits generalizing s with
  | nil =>
    cases h
    rfl
  | cons e rest ih =>
    obtain ⟨t, -, h⟩ := applyEdits_cons_eq_ok_iff.1 h
    rw [List.forall_mem_cons] at hp
    rw [ih h hp.2, update, OrderedMap.get?_insert, if_neg (Ne.symm hp.1)]

/-- **A file that edits name comes under its own path.** -/
theorem get?_of_edited (h : s.applyEdits edits = .ok s') {path : Text}
    (hp : ∃ e ∈ edits, e.path = path) :
    s'.files.get? path = some ⟨path, s'.contents path⟩ := by
  induction edits generalizing s with
  | nil =>
    obtain ⟨_, he, -⟩ := hp
    cases he
  | cons first rest ih =>
    obtain ⟨t, -, h⟩ := applyEdits_cons_eq_ok_iff.1 h
    by_cases hrest : ∃ e ∈ rest, e.path = path
    · exact ih h hrest
    · -- no later edit names the file, so the first does, and gives it its text
      obtain ⟨e, he, rfl⟩ := hp
      rcases List.mem_cons.1 he with rfl | he
      · have hget : s'.files.get? e.path = some ⟨e.path, t⟩ := by
          rw [get?_of_not_edited h fun other ho hp => hrest ⟨other, ho, hp⟩, update,
            OrderedMap.get?_insert, if_pos rfl]
        rw [hget, contents_of_get? hget]
      · exact absurd ⟨e, he, rfl⟩ hrest

/-- **Two snapshots are the same** when they have the same files, whatever
their order, and belong together. -/
theorem same_eq_true_iff :
    s.same s' = true ↔ (∀ path, s.files.get? path = s'.files.get? path)
      ∧ s.commit = s'.commit ∧ s.root = s'.root := by
  rw [same, Bool.and_eq_true, Bool.and_eq_true, decide_eq_true_iff, decide_eq_true_iff,
    OrderedMap.sameEntries_eq_true_iff, and_assoc]

/-- **What a path holds in the end** is decided by what it held and by the
edits that name it. -/
theorem contents_of_filter_eq {t t' : Snapshot} {es fs : List Edit} {path : Text}
    (hcontents : s.contents path = s'.contents path)
    (hedits : (es.filter fun e => e.path = path) = fs.filter fun e => e.path = path)
    (h : s.applyEdits es = .ok t) (h' : s'.applyEdits fs = .ok t') :
    t.contents path = t'.contents path := by
  have ht := applyAll_filter_of_applyEdits h path
  rw [hcontents, hedits, applyAll_filter_of_applyEdits h' path] at ht
  exact (Except.ok.inj ht).symm

/-- **Edits of different files can be put in another order.** They can be
applied in both orders or in neither, and leave the same snapshot but for the
order of its files; and what a path holds in the end depends only on what it
held and on the edits that name it, in whatever snapshot and among whatever
others. -/
theorem applyEdits_of_reordered {es fs : List Edit} (h : Edit.Reordered es fs) (s : Snapshot) :
    ((∃ t, s.applyEdits es = .ok t) ↔ ∃ u, s.applyEdits fs = .ok u)
      ∧ (∀ t u, s.applyEdits es = .ok t → s.applyEdits fs = .ok u → t.same u = true)
      ∧ ∀ (s' : Snapshot) (gs : List Edit) (path : Text), s.contents path = s'.contents path →
        ((es.filter fun e => e.path = path) = gs.filter fun e => e.path = path) →
        ∀ t t', s.applyEdits es = .ok t → s'.applyEdits gs = .ok t' →
          t.contents path = t'.contents path := by
  refine ⟨?_, fun t u ht hu => ?_, fun s' gs path hcontents hedits t t' =>
    contents_of_filter_eq hcontents hedits⟩
  · rw [exists_applyEdits_iff, exists_applyEdits_iff]
    exact forall_congr' fun path => by rw [h.order path]
  · obtain ⟨htc, htr⟩ := commit_root_of_applyEdits ht
    obtain ⟨huc, hur⟩ := commit_root_of_applyEdits hu
    refine same_eq_true_iff.2 ⟨fun path => ?_, htc.trans huc.symm, htr.trans hur.symm⟩
    by_cases hp : ∃ e ∈ es, e.path = path
    · have hp' : ∃ e ∈ fs, e.path = path := by
        obtain ⟨e, he, hpath⟩ := hp
        exact ⟨e, h.perm.mem_iff.1 he, hpath⟩
      rw [get?_of_edited ht hp, get?_of_edited hu hp',
        contents_of_filter_eq rfl (h.order path) ht hu]
    · have hes : ∀ e ∈ es, e.path ≠ path := fun e he hpath => hp ⟨e, he, hpath⟩
      have hfs : ∀ e ∈ fs, e.path ≠ path := fun e he => hes e (h.perm.mem_iff.2 he)
      rw [get?_of_not_edited ht hes, get?_of_not_edited hu hfs]

/-- A snapshot with one file, under a key that is not its path. -/
def oneFile : Snapshot := ⟨.ofList [("a", ⟨"src/a", "one"⟩)], some "c0", "/srv"⟩

/-- Two edits of that file, with one of a new file between them. -/
def interleaved : List Edit := [⟨"a", "one", "two"⟩, ⟨"b", [], "new"⟩, ⟨"a", "two", "three"⟩]

/-- The same edits, the one of the new file first. -/
def grouped : List Edit := [⟨"b", [], "new"⟩, ⟨"a", "one", "two"⟩, ⟨"a", "two", "three"⟩]

/-- The edits can be applied in both orders, with the same result. -/
theorem applyEdits_of_reordered_interleaved :
    Edit.Reordered interleaved grouped ∧ ∃ t u, oneFile.applyEdits interleaved = .ok t
      ∧ oneFile.applyEdits grouped = .ok u ∧ t.same u = true := by
  have hreordered : Edit.Reordered interleaved grouped := by
    refine ⟨by decide, fun path => ?_⟩
    by_cases ha : ['a'] = path
    · subst ha
      decide
    · by_cases hb : ['b'] = path
      · subst hb
        decide
      · simp [interleaved, grouped, ha, hb]
  obtain ⟨hiff, hsame, -⟩ := applyEdits_of_reordered hreordered oneFile
  obtain ⟨t, ht⟩ : ∃ t, oneFile.applyEdits interleaved = .ok t := ⟨_, rfl⟩
  obtain ⟨u, hu⟩ := hiff.1 ⟨t, ht⟩
  exact ⟨hreordered, t, u, ht, hu, hsame t u ht hu⟩

end Snapshot

end EditBlocks
