import EditBlocks.Apply
import EditBlocks.Proofs.OrderedMap

/-!
# Drafts and snapshots

Edits are made on drafts, and the snapshot they start from takes the drafts
over when all have been made. It could as well take them over after every
edit: what is made of a file depends on the snapshot and the drafts only
through the snapshot that they come to together (`Snapshot.makeEdits_congr`).
So edits can be applied in two parts, the second to what the first leaves
(`Snapshot.applyEdits_append`).

The order of the files is part of this. A draft keeps its place among the
drafts when it is made again, and a file its place in the snapshot, so it
makes no difference at which of its drafts a new file comes in
(`Snapshot.updateAll_putEntry`).

Two lists of drafts that come to the same snapshot are thus as good as each
other, and so are a list of drafts on one snapshot and none on the snapshot
that they come to. That is the case which is used.
-/

namespace EditBlocks.Snapshot

variable {s s' : Snapshot} {drafts drafts' : OrderedMap Text Text} {e : Edit} {edits : List Edit}

/-! ## Updates of one snapshot

Updates of different paths can be exchanged up to the order of new files, and
an update of a path that has one can be made first. -/

/-- Of two updates of one path the second stays. -/
theorem update_update (s : Snapshot) (path t t' : Text) :
    (s.update path t).update path t' = s.update path t' := by
  unfold update
  rw [OrderedMap.insert_insert]

/-- A file that has its place can be updated before another one as well as
after it. -/
theorem update_comm {path other : Text} (hp : path ∈ s.files.keys) (hne : path ≠ other)
    (t t' : Text) : (s.update other t').update path t = (s.update path t).update other t' := by
  unfold update
  rw [OrderedMap.insert_comm hp hne]

/-- So it can be updated before any others. -/
theorem updateAll_update {updates : List (Text × Text)} {path : Text} (hp : path ∈ s.files.keys)
    (hnot : path ∉ updates.map Prod.fst) (t : Text) :
    (s.updateAll updates).update path t = (s.update path t).updateAll updates := by
  induction updates generalizing s with
  | nil => rfl
  | cons u rest ih =>
    rw [List.map_cons, List.mem_cons, not_or] at hnot
    have hp' : path ∈ (s.update u.1 u.2).files.keys := by
      rw [update, OrderedMap.keys_insert]
      split
      · exact hp
      · exact List.mem_append_left _ hp
    show ((s.update u.1 u.2).updateAll rest).update path t
      = ((s.update path t).update u.1 u.2).updateAll rest
    rw [ih hp' hnot.2, update_comm hp hnot.1]

/-- **A draft put among others is the last update**, whichever place it has
among them. -/
theorem updateAll_putEntry {updates : List (Text × Text)} (hu : (updates.map Prod.fst).Nodup)
    (s : Snapshot) (path t : Text) :
    s.updateAll (putEntry path t updates) = (s.updateAll updates).update path t := by
  induction updates generalizing s with
  | nil => rfl
  | cons u rest ih =>
    obtain ⟨k, v⟩ := u
    rw [List.map_cons, List.nodup_cons] at hu
    by_cases hk : k = path
    · subst hk
      have hp : k ∈ (s.update k v).files.keys := by
        rw [update, OrderedMap.keys_insert]
        split
        · assumption
        · simp
      rw [putEntry, if_pos rfl]
      show (s.update k t).updateAll rest = ((s.update k v).updateAll rest).update k t
      rw [updateAll_update hp hu.1, update_update]
    · rw [putEntry, if_neg hk]
      exact ih hu.2 (s.update k v)

/-- The text of a file after updates: the one it is updated to, or that of
before. -/
theorem contents_updateAll {updates : List (Text × Text)} (hu : (updates.map Prod.fst).Nodup)
    (s : Snapshot) (path : Text) :
    (s.updateAll updates).contents path
      = ((updates.find? fun u => u.1 = path).map Prod.snd).getD (s.contents path) := by
  induction updates generalizing s with
  | nil => rfl
  | cons u rest ih =>
    rw [List.map_cons, List.nodup_cons] at hu
    show ((s.update u.1 u.2).updateAll rest).contents path = _
    rw [ih hu.2, contents_update]
    by_cases hk : u.1 = path
    · -- no later update is of the same path
      have hnone : rest.find? (fun u => u.1 = path) = none := by
        rw [List.find?_eq_none]
        intro other ho he
        have he : other.1 = path := by simpa using he
        exact hu.1 (List.mem_map.2 ⟨other, ho, he.trans hk.symm⟩)
      rw [hnone, List.find?_cons_of_pos (by simpa using hk), if_pos hk.symm]
      rfl
    · rw [List.find?_cons_of_neg (by simpa using hk), if_neg (Ne.symm hk)]

/-! ## Drafts put into a snapshot

The induction is on the edits, with any drafts at the beginning. -/

/-- **The text that an edit starts from** is the one that the snapshot has
once it has taken the drafts over. -/
theorem current_eq (s : Snapshot) (drafts : OrderedMap Text Text) (path : Text) :
    s.current drafts path = (s.updateAll drafts.entries).contents path := by
  rw [contents_updateAll drafts.nodup_keys]
  show _ = (drafts.get? path).getD (s.contents path)
  rw [current]
  cases drafts.get? path <;> rfl

/-- **Making edits depends on what snapshot and drafts come to together**,
and on nothing else. -/
theorem makeEdits_congr (h : s.updateAll drafts.entries = s'.updateAll drafts'.entries)
    (edits : List Edit) :
    (s.makeEdits drafts edits).map (fun made => s.updateAll made.entries)
      = (s'.makeEdits drafts' edits).map fun made => s'.updateAll made.entries := by
  induction edits generalizing drafts drafts' with
  | nil => exact congrArg Except.ok h
  | cons e rest ih =>
    have hcurrent : s.current drafts e.path = s'.current drafts' e.path := by
      rw [current_eq, current_eq, h]
    rw [makeEdits, makeEdits, makeEdit, makeEdit, hcurrent]
    cases e.applyTo (s'.current drafts' e.path) with
    | error error => rfl
    | ok t =>
      have hnext : s.updateAll (drafts.insert e.path t).entries
          = s'.updateAll (drafts'.insert e.path t).entries := by
        show s.updateAll (putEntry e.path t drafts.entries)
          = s'.updateAll (putEntry e.path t drafts'.entries)
        rw [updateAll_putEntry drafts.nodup_keys, updateAll_putEntry drafts'.nodup_keys, h]
      exact ih hnext

/-- **Edits made on drafts are edits applied to the snapshot that has taken
the drafts over.** -/
theorem makeEdits_eq_applyEdits (s : Snapshot) (drafts : OrderedMap Text Text)
    (edits : List Edit) :
    (s.makeEdits drafts edits).map (fun made => s.updateAll made.entries)
      = (s.updateAll drafts.entries).applyEdits edits := by
  have hempty : s.updateAll drafts.entries
      = (s.updateAll drafts.entries).updateAll OrderedMap.empty.entries := rfl
  exact makeEdits_congr hempty edits

theorem applyEdits_nil (s : Snapshot) : s.applyEdits [] = .ok s := rfl

/-- Edits are applied from the first on. -/
theorem applyEdits_cons (s : Snapshot) (e : Edit) (rest : List Edit) :
    s.applyEdits (e :: rest) = match e.applyTo (s.contents e.path) with
      | .ok t => (s.update e.path t).applyEdits rest
      | .error error => .error error := by
  have hcurrent : s.current .empty e.path = s.contents e.path := rfl
  rw [applyEdits, makeEdits, makeEdit, hcurrent]
  cases e.applyTo (s.contents e.path) with
  | error error => rfl
  | ok t => exact makeEdits_eq_applyEdits s (OrderedMap.empty.insert e.path t) rest

/-- Edits that are made in two parts: the second goes on with the drafts of
the first. -/
theorem makeEdits_append (s : Snapshot) (drafts : OrderedMap Text Text) (es fs : List Edit) :
    s.makeEdits drafts (es ++ fs) = match s.makeEdits drafts es with
      | .ok made => s.makeEdits made fs
      | .error error => .error error := by
  induction es generalizing drafts with
  | nil => rfl
  | cons e rest ih =>
    rw [List.cons_append, makeEdits, makeEdits]
    cases s.makeEdit drafts e with
    | error error => rfl
    | ok next => exact ih next

/-- **Edits are applied in two parts**: the second to the snapshot that the
first leaves, with its files in the same order; and if the first cannot be
applied, the whole fails as it does. -/
theorem applyEdits_append (s : Snapshot) (es fs : List Edit) :
    s.applyEdits (es ++ fs) = match s.applyEdits es with
      | .ok next => next.applyEdits fs
      | .error error => .error error := by
  rw [applyEdits, applyEdits, makeEdits_append]
  cases s.makeEdits .empty es with
  | error error => rfl
  | ok drafts => exact makeEdits_eq_applyEdits s drafts fs

end EditBlocks.Snapshot
