import EditBlocks.Proofs.Spelling

/-!
# The order of changed files

A snapshot that is loaded has the files that are there, in the order of the
paths (`Snapshot.keys_of_load`), and edits put the files that they create
after them, in the order in which they first name them
(`Snapshot.keys_of_applyEdits`). So the changed files come in two groups,
each in the order of first mention: those that were there before, and those
that are new (`Snapshot.changed_eq`).

That is the order in which files are stored, and in which a run prints them.
It is not the order of the edits, as a new file may be named before one that
was there.

The edited paths are a fold over the edits, which puts in a path that is not
there yet (`Task.mention`), and so are the keys that edits leave, over the
keys that were there. That is why the one is described by the other, with the
paths that were there left out (`Task.foldl_mention`).
-/

namespace EditBlocks

variable {d : Disk} {root : Text} {config : RunConfig} {paths : List Text} {edits : List Edit}

namespace Task

/-- The path of an edit, put after others if it is not among them. -/
def mention (paths : List Text) (e : Edit) : List Text :=
  if e.path ∈ paths then paths else paths ++ [e.path]

theorem editedPaths_concat (edits : List Edit) (e : Edit) :
    editedPaths (edits ++ [e]) = mention (editedPaths edits) e := by
  rw [editedPaths, List.foldl_append]
  rfl

/-- **Every edited path is listed once**, where it is first mentioned. -/
theorem nodup_editedPaths (edits : List Edit) : (editedPaths edits).Nodup := by
  induction edits using List.reverseRecOn with
  | nil => exact List.nodup_nil
  | append_singleton rest e ih =>
    rw [editedPaths_concat, mention]
    split
    · exact ih
    next hnot => exact List.concat_eq_append ▸ ih.concat hnot

/-- **Paths mentioned after others** come in the order of first mention,
without those that are there. -/
theorem foldl_mention (edits : List Edit) (paths : List Text) :
    edits.foldl mention paths = paths ++ (editedPaths edits).filter (· ∉ paths) := by
  induction edits using List.reverseRecOn with
  | nil => exact (List.append_nil paths).symm
  | append_singleton rest e ih =>
    rw [List.foldl_append, ih, editedPaths_concat]
    show mention _ e = _
    rw [mention, mention]
    by_cases hp : e.path ∈ paths
    · -- a path that is there already is not mentioned again
      rw [if_pos (List.mem_append_left _ hp)]
      split
      · rfl
      · rw [List.filter_append, List.filter_cons_of_neg (by simpa using hp), List.filter_nil,
          List.append_nil]
    · by_cases he : e.path ∈ editedPaths rest
      · rw [if_pos (List.mem_append_right _ (List.mem_filter.2 ⟨he, by simpa using hp⟩)), if_pos he]
      · rw [if_neg (by simp [hp, he]), if_neg he, List.filter_append,
          List.filter_cons_of_pos (by simpa using hp), List.filter_nil, List.append_assoc]

end Task

namespace Snapshot

variable {s s' before after : Snapshot}

/-- **The order of the files after edits**: those of before, and then the new
ones in the order of first mention. -/
theorem keys_of_applyEdits (h : s.applyEdits edits = .ok s') :
    s'.files.keys = s.files.keys ++ (Task.editedPaths edits).filter (· ∉ s.files.keys) := by
  rw [← Task.foldl_mention]
  induction edits generalizing s with
  | nil =>
    cases h
    rfl
  | cons e rest ih =>
    obtain ⟨t, -, h⟩ := applyEdits_cons_eq_ok_iff.1 h
    have hkeys : (s.update e.path t).files.keys = Task.mention s.files.keys e := by
      by_cases hp : e.path ∈ s.files.keys <;> simp [update, Task.mention, hp]
    rw [ih h, hkeys]
    rfl

/-- The files that are loaded come after the others, in the order of their
paths. -/
theorem keys_of_loadFiles [Host] {files files' : OrderedMap Text File}
    (hnodup : (files.keys ++ paths).Nodup)
    (h : loadFiles d root config paths files = .ok files') :
    files'.keys = files.keys ++ paths.filter (· ∈ files'.keys) := by
  induction paths generalizing files with
  | nil =>
    cases h
    exact (List.append_nil _).symm
  | cons path rest ih =>
    have hpath : path ∉ files.keys := fun hmem =>
      (List.nodup_append.1 hnodup).2.2 path hmem path List.mem_cons_self rfl
    obtain ⟨full, -, h⟩ := loadFiles_cons_eq_ok_iff.1 h
    split at h
    · obtain ⟨t, -, h⟩ := h
      have hkeys : (files.insert path ⟨path, t⟩).keys = files.keys ++ [path] := by
        rw [OrderedMap.keys_insert, if_neg hpath]
      have hloaded := ih (by rwa [hkeys, List.append_assoc]) h
      rw [hkeys, List.append_assoc] at hloaded
      have hmem : path ∈ files'.keys := by
        rw [hloaded]
        simp
      rw [List.filter_cons_of_pos (by simpa using hmem)]
      exact hloaded
    · have hloaded :=
        ih (hnodup.sublist (List.Sublist.append_left (List.sublist_cons_self _ _) _)) h
      have hrest : path ∉ rest := (List.nodup_cons.1 (List.nodup_append.1 hnodup).2.1).1
      have hmem : path ∉ files'.keys := by
        rw [hloaded, List.mem_append, List.mem_filter]
        exact fun hor => hor.elim hpath fun hin => hrest hin.1
      rw [List.filter_cons_of_neg (by simpa using hmem)]
      exact hloaded

theorem contains_iff_mem_keys {path : Text} : s.contains path = true ↔ path ∈ s.files.keys := by
  rw [contains, OrderedMap.contains, OrderedMap.mem_keys_iff, Option.isSome_iff_exists]

/-- **The order of the files of a snapshot that is loaded** is that of the
paths, where each path comes once. -/
theorem keys_of_load [Host] (hnodup : paths.Nodup) (h : load d root paths config = .ok s) :
    s.files.keys = paths.filter fun path => s.contains path := by
  unfold load at h
  obtain ⟨files, hfiles, h⟩ := bind_eq_ok_iff.1 h
  obtain ⟨_, _, h⟩ := bind_eq_ok_iff.1 h
  cases h
  refine (keys_of_loadFiles ?_ hfiles).trans (List.filter_congr fun path _ => ?_)
  · exact hnodup
  · rw [Bool.eq_iff_iff, contains_iff_mem_keys, decide_eq_true_iff]

/-- The changed files are listed in the order of the later snapshot. -/
theorem changed_eq_filter (before after : Snapshot) :
    before.changed after = after.files.keys.filter fun path =>
      !before.contains path || before.contents path ≠ after.contents path := by
  unfold changed OrderedMap.keys
  rw [List.filter_map]
  refine congrArg (List.map Prod.fst) (List.filter_congr fun ⟨path, file⟩ he => ?_)
  have hafter : after.contents path = file.contents :=
    contents_of_get? (OrderedMap.get?_of_mem_entries he)
  show _ = (!before.contains path || decide (before.contents path ≠ after.contents path))
  rw [hafter, contains, OrderedMap.contains, contents]
  cases before.files.get? path <;> rfl

/-- The paths of files that were there before and hold another text now. -/
def rewritten (before after : Snapshot) (paths : List Text) : List Text :=
  paths.filter fun path => before.contains path && before.contents path ≠ after.contents path

/-- The paths of files that were not there before. -/
def created (before : Snapshot) (paths : List Text) : List Text :=
  paths.filter fun path => !before.contains path

/-- **The changed files** are those that were there and hold another text,
and then those that are new, each in the order in which the edits first name
them. -/
theorem changed_eq [Host] (hload : load d root (Task.editedPaths edits) config = .ok before)
    (happly : before.applyEdits edits = .ok after) :
    before.changed after = before.rewritten after (Task.editedPaths edits)
      ++ before.created (Task.editedPaths edits) := by
  have hbefore := keys_of_load (Task.nodup_editedPaths edits) hload
  rw [changed_eq_filter, keys_of_applyEdits happly, List.filter_append]
  refine congrArg₂ (· ++ ·) ?_ ?_
  · rw [hbefore, List.filter_filter]
    refine List.filter_congr fun path _ => ?_
    cases before.contains path <;> simp
  · rw [List.filter_filter]
    refine List.filter_congr fun path _ => ?_
    rw [Bool.eq_iff_iff]
    simp only [Bool.and_eq_true, Bool.or_eq_true, Bool.not_eq_true', decide_eq_true_iff,
      ← contains_iff_mem_keys, Bool.not_eq_true]
    exact ⟨And.right, fun hnot => ⟨Or.inl hnot, hnot⟩⟩

/-- **No changed file is listed twice.** -/
theorem nodup_changed (before after : Snapshot) : (before.changed after).Nodup := by
  rw [changed_eq_filter]
  exact after.files.nodup_keys.filter _

/-- **A file that gets another text is all that changes.** If it gets the
text that it has, nothing does. -/
theorem changed_update {path t : Text} (h : s.contains path = true) :
    s.changed (s.update path t) = if s.contents path = t then [] else [path] := by
  have hmem (p : Text) : p ∈ s.changed (s.update path t) ↔ p = path ∧ s.contents path ≠ t := by
    rw [mem_changed_iff, contains_update, contents_update]
    by_cases hp : p = path
    · subst hp
      simp [h]
    · simp [hp]
  split
  next hsame => exact List.eq_nil_iff_forall_not_mem.2 fun p hp => ((hmem p).1 hp).2 hsame
  next hother =>
    refine List.perm_singleton.1 ((List.perm_ext_iff_of_nodup (nodup_changed _ _)
      (List.nodup_singleton _)).2 fun p => ?_)
    rw [hmem, List.mem_singleton, and_iff_left hother]

end Snapshot

end EditBlocks
