import EditBlocks.Proofs.Changes
import Mathlib.Logic.Relation

/-!
# What edits leave as it was

Edits name files, and all that they change of a snapshot are the files that
they name: the commit, the root and the other files stay, even where a file
stands under a key that is not its path. Keys are never lost and never change
places. New ones come after them, in the order in which the edits first
mention them (`Task.pairwise_editedPaths`).

A file that is edited comes under its own path. So a snapshot in which every
file stands under its path (`Snapshot.Keyed`) stays one, whatever edits and
updates follow each other (`Snapshot.leavesRest`).

The two parts are shown apart. What edits keep is read off the texts and the
keys that they leave; that every file stands under its path is an invariant,
kept by each update and so by any steps that follow each other
(`Snapshot.Next`).
-/

namespace EditBlocks

variable {edits : List Edit}

namespace Task

/-- The number of edits before the first that mentions a path. -/
def firstMention (edits : List Edit) (path : Text) : Nat :=
  edits.findIdx fun e => e.path = path

/-- A path that is mentioned already is not mentioned first by a later
edit. -/
theorem firstMention_concat_of_mem {path : Text} (h : path ∈ editedPaths edits) (e : Edit) :
    firstMention (edits ++ [e]) path = firstMention edits path
      ∧ firstMention edits path < edits.length := by
  obtain ⟨other, ho, rfl⟩ := mem_editedPaths_iff.1 h
  have hlt : firstMention edits other.path < edits.length :=
    List.findIdx_lt_length_of_exists ⟨other, ho, by simp⟩
  exact ⟨List.findIdx_append.trans (if_pos hlt), hlt⟩

/-- Any other path that it mentions is. -/
theorem firstMention_concat_of_not_mem {e : Edit} (h : e.path ∉ editedPaths edits) :
    firstMention (edits ++ [e]) e.path = edits.length := by
  have hnone : firstMention edits e.path = edits.length := by
    refine List.findIdx_eq_length.2 fun other ho => ?_
    simpa using fun hp => h (mem_editedPaths_iff.2 ⟨other, ho, hp⟩)
  refine (List.findIdx_append.trans (if_neg (Nat.not_lt_of_le hnone.ge))).trans ?_
  simp

/-- **Edited paths are listed in the order of first mention.** This is the
order in which new files come into a snapshot. -/
theorem pairwise_editedPaths (edits : List Edit) :
    (editedPaths edits).Pairwise fun p q => firstMention edits p < firstMention edits q := by
  induction edits using List.reverseRecOn with
  | nil => exact .nil
  | append_singleton rest e ih =>
    have hrest : (editedPaths rest).Pairwise fun p q =>
        firstMention (rest ++ [e]) p < firstMention (rest ++ [e]) q := by
      refine ih.imp_of_mem fun hp hq hlt => ?_
      rwa [(firstMention_concat_of_mem hp e).1, (firstMention_concat_of_mem hq e).1]
    rw [editedPaths_concat, mention]
    split
    · exact hrest
    next hnew =>
      refine List.pairwise_append.2 ⟨hrest, List.pairwise_singleton _ _, fun p hp q hq => ?_⟩
      obtain rfl := List.mem_singleton.1 hq
      rw [firstMention_concat_of_not_mem hnew, (firstMention_concat_of_mem hp e).1]
      exact (firstMention_concat_of_mem hp e).2

end Task

namespace Snapshot

variable {s s' : Snapshot}

/-- **What edits leave as it was**, from the snapshots before and after
them. -/
structure LeavesRest (s s' : Snapshot) (edits : List Edit) : Prop where
  /-- The commit stays. -/
  commit : s'.commit = s.commit
  /-- The root stays. -/
  root : s'.root = s.root
  /-- No key comes twice. -/
  nodup : s'.files.keys.Nodup
  /-- The keys keep their places, and after them come those that the edits
  bring in, in the order of first mention. -/
  keys : ∃ added, s'.files.keys = s.files.keys ++ added
    ∧ (∀ path, path ∈ added ↔ path ∉ s.files.keys ∧ ∃ e ∈ edits, e.path = path)
    ∧ added.Pairwise fun p q => Task.firstMention edits p < Task.firstMention edits q
  /-- A file that no edit names stays, under its key, with its path and its
  text. -/
  untouched : ∀ key, (∀ e ∈ edits, e.path ≠ key) → s'.files.get? key = s.files.get? key
  /-- A file that an edit names is there, and its key is its path. -/
  named : ∀ e ∈ edits, ∃ file, s'.files.get? e.path = some file ∧ file.path = e.path

/-- **Every file stands under its path.** It is so of snapshots that are
loaded, and need not be of those that are put together by hand. -/
def Keyed (s : Snapshot) : Prop := ∀ key file, s.files.get? key = some file → file.path = key

/-- **A snapshot made of another**, by edits or by updates. There is no other
way to make one. -/
inductive Next : Snapshot → Snapshot → Prop
  /-- Edits are applied. -/
  | edits {s s' : Snapshot} (edits : List Edit) (h : s.applyEdits edits = .ok s') : Next s s'
  /-- Files are updated. -/
  | updates (s : Snapshot) (updates : List (Text × Text)) : Next s (s.updateAll updates)

/-- What edits are applied to is left but for the files that they name. -/
theorem leavesRest_of_applyEdits (h : s.applyEdits edits = .ok s') : s.LeavesRest s' edits where
  commit := (commit_root_of_applyEdits h).1
  root := (commit_root_of_applyEdits h).2
  nodup := s'.files.nodup_keys
  keys := by
    refine ⟨_, keys_of_applyEdits h, fun path => ?_,
      (Task.pairwise_editedPaths edits).filter _⟩
    rw [List.mem_filter, Task.mem_editedPaths_iff, decide_eq_true_iff, and_comm]
  untouched := fun _ hkey => get?_of_not_edited h hkey
  named := fun e he => ⟨_, get?_of_edited h ⟨e, he, rfl⟩, rfl⟩

/-- A file that is updated comes under its path. -/
theorem Keyed.update (h : s.Keyed) (path t : Text) : (s.update path t).Keyed := by
  intro key file hget
  rw [Snapshot.update, OrderedMap.get?_insert] at hget
  split at hget
  next hkey =>
    cases hget
    exact hkey.symm
  · exact h key file hget

/-- **So files go on standing under their paths**, when a snapshot is made of
another. -/
theorem Keyed.next (h : s.Keyed) (hnext : Next s s') : s'.Keyed := by
  cases hnext with
  | edits edits happly =>
    have hrest := leavesRest_of_applyEdits happly
    intro key file hget
    by_cases hkey : ∃ e ∈ edits, e.path = key
    · obtain ⟨e, he, rfl⟩ := hkey
      obtain ⟨found, hfound, hpath⟩ := hrest.named e he
      cases hget.symm.trans hfound
      exact hpath
    · exact h key file ((hrest.untouched key fun e he hp => hkey ⟨e, he, hp⟩) ▸ hget)
  | updates updates =>
    induction updates generalizing s with
    | nil => exact h
    | cons u rest ih => exact ih (h.update u.1 u.2)

/-- **Edits change the files that they name and nothing else**, keep the keys
in their order, and leave every file under its path where it was so. -/
theorem leavesRest (s : Snapshot) :
    (∀ edits s', s.applyEdits edits = .ok s' → s.LeavesRest s' edits)
      ∧ (s.Keyed → ∀ last, Relation.ReflTransGen Next s last → last.Keyed) := by
  refine ⟨fun _ _ h => leavesRest_of_applyEdits h, fun hkeyed last hsteps => ?_⟩
  induction hsteps with
  | refl => exact hkeyed
  | tail _ hnext ih => exact ih.next hnext

/-- A snapshot with two files, neither of them under its path. -/
def misplaced : Snapshot :=
  ⟨.ofList [("k", ⟨"src/k", "kept"⟩), ("a", ⟨"src/a", "one"⟩)], some "c0", "/srv"⟩

/-- The file that is not named stays as it is, new files come last, and the
file that is named comes under its path. -/
theorem leavesRest_misplaced :
    ∃ s', misplaced.applyEdits [⟨"c", [], "new"⟩, ⟨"a", "one", "two"⟩, ⟨"b", [], "new"⟩] = .ok s'
      ∧ s'.files.keys = ["k", "a", "c", "b"]
      ∧ s'.files.get? "k" = some ⟨"src/k", "kept"⟩
      ∧ (∃ file, s'.files.get? "a" = some file ∧ file.path = "a")
      ∧ s'.commit = some "c0"
      ∧ ((⟨.empty, none, []⟩ : Snapshot).update "a" "one").Keyed := by
  obtain ⟨s', hs', hkeys⟩ : ∃ s', misplaced.applyEdits
      [⟨"c", [], "new"⟩, ⟨"a", "one", "two"⟩, ⟨"b", [], "new"⟩] = .ok s'
      ∧ s'.files.keys = ["k", "a", "c", "b"] := ⟨_, rfl, rfl⟩
  have hrest := (leavesRest misplaced).1 _ s' hs'
  refine ⟨s', hs', hkeys, (hrest.untouched "k" (by decide)).trans rfl,
    hrest.named ⟨"a", "one", "two"⟩ (by simp), hrest.commit, ?_⟩
  have hempty : (⟨.empty, none, []⟩ : Snapshot).Keyed := fun _ _ h => nomatch h
  exact (leavesRest _).2 hempty _ (.single (.updates _ [("a", "one")]))

end Snapshot

end EditBlocks
