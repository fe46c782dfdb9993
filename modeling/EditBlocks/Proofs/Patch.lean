import EditBlocks.Proofs.Frame

/-!
# The patch between two snapshots

`Snapshot.changed` compares two snapshots file by file, and what it lists is
the patch from the one to the other: the earlier snapshot, updated under the
listed paths with the texts of the later one (`Snapshot.patched`), holds what
the later one holds, and every path of the list is needed for that
(`Snapshot.sameTexts_patched_iff`).

This asks only that no file has gone. Edits take none away, so it holds of
what they leave, however they undo each other (`Snapshot.isPatch_changed`).
Whether a file is listed is told by the file alone: one that has got its old
text back is not, and one that is new is, even when it is empty
(`Snapshot.mem_changed_iff`).
-/

namespace EditBlocks.Snapshot

variable {s before after : Snapshot} {edits : List Edit} {path : Text} {paths : List Text}

/-- **Two snapshots hold the same texts** when they have the same files, and
each file has the same text in both. The order of the files is left out, and
so are their paths. -/
structure SameTexts (s s' : Snapshot) : Prop where
  /-- A file is in the one when it is in the other. -/
  contains : ∀ path, s.contains path = s'.contains path
  /-- It has the same text. -/
  contents : ∀ path, s.contents path = s'.contents path

/-- **A snapshot updated with the texts of another** under some paths. A path
that the other has no file for gets the empty text. -/
def patched (s after : Snapshot) (paths : List Text) : Snapshot :=
  s.updateAll (paths.map fun path => (path, after.contents path))

theorem patched_cons (s after : Snapshot) (path : Text) (rest : List Text) :
    s.patched after (path :: rest) = (s.update path (after.contents path)).patched after rest :=
  rfl

/-- Under the paths that are updated it has the texts of the other, and
elsewhere its own. -/
theorem contents_patched (s after : Snapshot) (paths : List Text) (path : Text) :
    (s.patched after paths).contents path
      = if path ∈ paths then after.contents path else s.contents path := by
  induction paths generalizing s with
  | nil => rfl
  | cons first rest ih =>
    rw [patched_cons, ih, contents_update]
    by_cases hrest : path ∈ rest
    · rw [if_pos hrest, if_pos (List.mem_cons_of_mem _ hrest)]
    · rw [if_neg hrest]
      by_cases hfirst : path = first
      · rw [hfirst, if_pos rfl, if_pos List.mem_cons_self]
      · rw [if_neg hfirst, if_neg (by simp [hfirst, hrest])]

/-- It has the files that it had and those that are updated. -/
theorem contains_patched (s after : Snapshot) (paths : List Text) (path : Text) :
    (s.patched after paths).contains path = (decide (path ∈ paths) || s.contains path) := by
  induction paths generalizing s with
  | nil => simp [patched, updateAll]
  | cons first rest ih =>
    rw [patched_cons, ih, contains_update]
    by_cases hrest : path ∈ rest <;> simp [hrest]

theorem contents_of_not_contains (h : s.contains path = false) : s.contents path = [] := by
  rw [contains, OrderedMap.contains, Option.isSome_eq_false_iff, Option.isNone_iff_eq_none] at h
  rw [contents, h]

/-! ## The changed paths are enough, and all of them are needed

Leaving out a path leaves its text as it was, and for a changed path that is
another text or none. -/

/-- **Where a path is not changed**, the two snapshots agree, if no file has
gone. -/
theorem agree_of_not_mem_changed
    (hkept : ∀ path, before.contains path = true → after.contains path = true)
    (h : path ∉ before.changed after) :
    before.contains path = after.contains path
      ∧ before.contents path = after.contents path := by
  rw [mem_changed_iff, not_and, Classical.not_imp, not_not] at h
  cases hafter : after.contains path with
  | true =>
    obtain ⟨hbefore, hsame⟩ := h hafter
    exact ⟨hbefore, hsame⟩
  | false =>
    have hbefore : before.contains path = false :=
      Bool.eq_false_iff.2 fun hb => Bool.eq_false_iff.1 hafter (hkept path hb)
    exact ⟨hbefore, by rw [contents_of_not_contains hbefore, contents_of_not_contains hafter]⟩

/-- **A list of paths patches the one snapshot to the other** exactly when it
has every changed path and no path of a file that is not there. -/
theorem sameTexts_patched_iff
    (hkept : ∀ path, before.contains path = true → after.contains path = true) :
    (before.patched after paths).SameTexts after
      ↔ before.changed after ⊆ paths ∧ ∀ path ∈ paths, after.contains path = true := by
  constructor
  · intro h
    have hthere (path : Text) (hp : path ∈ paths) : after.contains path = true := by
      rw [← h.contains, contains_patched, decide_eq_true hp, Bool.true_or]
    refine ⟨fun path hchanged => ?_, hthere⟩
    -- a changed path that is left out keeps what makes it changed
    by_contra hnot
    obtain ⟨hafter, hdiffers⟩ := mem_changed_iff.1 hchanged
    have hcontains := h.contains path
    have hcontents := h.contents path
    rw [contains_patched, decide_eq_false hnot, Bool.false_or, hafter] at hcontains
    rw [contents_patched, if_neg hnot] at hcontents
    exact hdiffers hcontains hcontents
  · rintro ⟨hsub, hthere⟩
    refine ⟨fun path => ?_, fun path => ?_⟩
    · rw [contains_patched]
      by_cases hp : path ∈ paths
      · rw [decide_eq_true hp, Bool.true_or, hthere path hp]
      · rw [decide_eq_false hp, Bool.false_or]
        exact (agree_of_not_mem_changed hkept fun hc => hp (hsub hc)).1
    · rw [contents_patched]
      split
      · rfl
      next hp => exact (agree_of_not_mem_changed hkept fun hc => hp (hsub hc)).2

/-! ## Nothing is changed between snapshots that are the same

Same files under all keys, whatever their order. -/

/-- Snapshots with the same files have no changed path between them. -/
theorem changed_eq_nil_of_get?_eq (h : ∀ path, before.files.get? path = after.files.get? path) :
    before.changed after = [] := by
  refine List.eq_nil_iff_forall_not_mem.2 fun path hchanged => ?_
  obtain ⟨hafter, hdiffers⟩ := mem_changed_iff.1 hchanged
  rw [contains, OrderedMap.contains, ← h path] at hafter
  refine hdiffers hafter ?_
  rw [contents, contents, h path]

/-- **Where every file stands under its path**, snapshots without a changed
path between them have the same files. -/
theorem get?_eq_of_changed_eq_nil (hbefore : before.Keyed) (hafter : after.Keyed)
    (hkept : ∀ path, before.contains path = true → after.contains path = true)
    (h : before.changed after = []) (path : Text) :
    before.files.get? path = after.files.get? path := by
  have hnot : path ∉ before.changed after := by
    rw [h]
    exact List.not_mem_nil
  obtain ⟨hcontains, hcontents⟩ := agree_of_not_mem_changed hkept hnot
  unfold contains OrderedMap.contains at hcontains
  cases hb : before.files.get? path with
  | none =>
    rw [hb] at hcontains
    exact (Option.not_isSome_iff_eq_none.1 (Bool.eq_false_iff.1 hcontains.symm)).symm
  | some file =>
    rw [hb] at hcontains
    obtain ⟨file', ha⟩ := Option.isSome_iff_exists.1 hcontains.symm
    rw [contents_of_get? hb, contents_of_get? ha] at hcontents
    have hpath : file.path = file'.path := (hbefore path file hb).trans (hafter path file' ha).symm
    rw [ha]
    -- a file is its path and its text
    match file, file', hpath, hcontents with
    | ⟨_, _⟩, ⟨_, _⟩, rfl, rfl => rfl

/-! ## What edits change

Edits take no file away, and that is all that is used of them. -/

/-- **A list of paths is the patch** from a snapshot to what edits have left
of it. -/
structure IsPatch (before after : Snapshot) (edits : List Edit) (paths : List Text) : Prop where
  /-- No path is listed twice. -/
  nodup : paths.Nodup
  /-- The paths come in the order of the later snapshot. -/
  order : paths.Sublist after.files.keys
  /-- Edits name them. -/
  named : ∀ path ∈ paths, ∃ e ∈ edits, e.path = path
  /-- Updated under these paths, the earlier snapshot holds the texts of the
  later one. -/
  enough : (before.patched after paths).SameTexts after
  /-- Without one of them it does not. -/
  needed : ∀ path ∈ paths, ¬(before.patched after (paths.erase path)).SameTexts after
  /-- Where every file stands under its path, nothing is listed when nothing
  is different. -/
  nil_iff : before.Keyed → (after.same before = true ↔ paths = [])
  /-- A file that has the text of before is not listed, whatever was made of
  it in between. -/
  restored : ∀ path, before.contains path = true → before.contents path = after.contents path →
    path ∉ paths
  /-- A file that edits create is listed, whatever it holds. -/
  created : ∀ e ∈ edits, before.contains e.path = false → e.path ∈ paths

/-- **The changed paths are the patch** from a snapshot to what edits leave
of it. -/
theorem isPatch_changed (h : before.applyEdits edits = .ok after) :
    IsPatch before after edits (before.changed after) := by
  have hkept (path : Text) (hb : before.contains path = true) : after.contains path = true :=
    (contains_of_applyEdits h path).2 (Or.inl hb)
  have henough := (sameTexts_patched_iff hkept).2
    ⟨List.Subset.refl _, fun path hp => (mem_changed_iff.1 hp).1⟩
  refine ⟨nodup_changed before after, ?_, fun path hp => ?_, henough, fun path hp hsame => ?_,
    fun hkeyed => ?_, fun path hb hsame hp => (mem_changed_iff.1 hp).2 hb hsame,
    fun e he hnew => ?_⟩
  · rw [changed_eq_filter]
    exact List.filter_sublist
  · -- a file that no edit names is the one it was
    by_contra hnot
    have hsame := get?_of_not_edited h fun e he hpath => hnot ⟨e, he, hpath⟩
    obtain ⟨hafter, hdiffers⟩ := mem_changed_iff.1 hp
    rw [contains, OrderedMap.contains, hsame] at hafter
    exact hdiffers hafter (by rw [contents, contents, hsame])
  · have hleft := ((sameTexts_patched_iff hkept).1 hsame).1 hp
    exact (nodup_changed before after).not_mem_erase hleft
  · obtain ⟨hcommit, hroot⟩ := commit_root_of_applyEdits h
    rw [same_eq_true_iff, and_iff_left ⟨hcommit, hroot⟩]
    constructor
    · exact fun hsame => changed_eq_nil_of_get?_eq fun path => (hsame path).symm
    · intro hnil path
      exact (get?_eq_of_changed_eq_nil hkeyed (hkeyed.next (.edits edits h)) hkept hnil path).symm
  · refine mem_changed_iff.2 ⟨(contains_of_applyEdits h e.path).2 (Or.inr ⟨e, he, rfl⟩), ?_⟩
    rw [hnew]
    exact fun hb => absurd hb Bool.false_ne_true

/-- A snapshot with two files. -/
def drafted : Snapshot := ⟨.ofList [("a", ⟨"a", "one"⟩), ("b", ⟨"b", "two"⟩)], none, []⟩

/-- Edits of which the third undoes the first, and that create an empty
file. -/
def undoing : List Edit :=
  [⟨"a", "one", "1"⟩, ⟨"c", [], []⟩, ⟨"a", "1", "one"⟩, ⟨"b", "two", "2"⟩]

/-- The file that has got its text back is not in the patch, and the empty
one is. -/
theorem isPatch_changed_undoing :
    ∃ after, drafted.applyEdits undoing = .ok after
      ∧ drafted.changed after = ["b", "c"]
      ∧ IsPatch drafted after undoing (drafted.changed after) :=
  ⟨_, rfl, rfl, isPatch_changed rfl⟩

end EditBlocks.Snapshot
