import EditBlocks.OrderedMap
import Mathlib.Data.List.Perm.Subperm
import Mathlib.Data.List.Nodup

/-!
# The entries of a map

What is found under a key is an entry, and the only one with that key
(`OrderedMap.mem_entries_of_get?`, `OrderedMap.get?_of_mem_entries`). A value
put under a key brings in that entry and no other.

So a map is told by its keys in order and by what is found under them
(`OrderedMap.ext_of_get?`), and what is found alone tells it up to the order
of its entries (`OrderedMap.sameEntries_eq_true_iff`). The first is how two
maps are shown to be equal: by their keys, and by one lookup.

Maps that are put over one another keep the places of the keys that were
there, and new keys come after them in the order in which they are put
(`OrderedMap.keys_insertAll`).
-/

namespace EditBlocks

variable {κ ν : Type} [DecidableEq κ]

theorem putEntry_putEntry (key : κ) (value value' : ν) (entries : List (κ × ν)) :
    putEntry key value' (putEntry key value entries) = putEntry key value' entries := by
  induction entries with
  | nil => simp [putEntry]
  | cons e rest ih =>
    obtain ⟨k, v⟩ := e
    by_cases hk : k = key
    · simp [putEntry, hk]
    · simp [putEntry, hk, ih]

namespace OrderedMap

theorem insert_insert (m : OrderedMap κ ν) (key : κ) (value value' : ν) :
    (m.insert key value).insert key value' = m.insert key value' := by
  have he : ((m.insert key value).insert key value').entries = (m.insert key value').entries :=
    putEntry_putEntry key value value' m.entries
  match (m.insert key value).insert key value', m.insert key value', he with
  | ⟨_, _⟩, ⟨_, _⟩, rfl => rfl

theorem mem_entries_of_get? {m : OrderedMap κ ν} {key : κ} {value : ν}
    (h : m.get? key = some value) : (key, value) ∈ m.entries := by
  obtain ⟨e, he, rfl⟩ := Option.map_eq_some_iff.1 h
  have hk : e.1 = key := by simpa using List.find?_some he
  rw [← hk]
  exact List.mem_of_find?_eq_some he

theorem get?_of_mem_entries {m : OrderedMap κ ν} {key : κ} {value : ν}
    (h : (key, value) ∈ m.entries) : m.get? key = some value := by
  obtain ⟨entries, nodup⟩ := m
  show (entries.find? fun e => e.1 = key).map Prod.snd = some value
  change (key, value) ∈ entries at h
  induction entries with
  | nil => cases h
  | cons first rest ih =>
    rw [List.map_cons, List.nodup_cons] at nodup
    rcases List.mem_cons.1 h with rfl | h
    · simp
    · have hk : first.1 ≠ key := fun hk => nodup.1 (hk ▸ List.mem_map_of_mem h)
      rw [List.find?_cons_of_neg (by simpa using hk)]
      exact ih nodup.2 h

/-- An entry of a map with a value put under a key is the new one or an old
one. -/
theorem mem_entries_insert {m : OrderedMap κ ν} {key : κ} {value : ν} {e : κ × ν}
    (h : e ∈ (m.insert key value).entries) : e = (key, value) ∨ e ∈ m.entries := by
  obtain ⟨entries, nodup⟩ := m
  change e ∈ putEntry key value entries at h
  show e = (key, value) ∨ e ∈ entries
  clear nodup
  induction entries with
  | nil => exact Or.inl (by simpa [putEntry] using h)
  | cons first rest ih =>
    rw [putEntry] at h
    split at h
    · rcases List.mem_cons.1 h with h | h
      · exact Or.inl h
      · exact Or.inr (List.mem_cons_of_mem _ h)
    · rcases List.mem_cons.1 h with h | h
      · exact Or.inr (h ▸ List.mem_cons_self)
      · exact (ih h).imp_right (List.mem_cons_of_mem _)

theorem mem_keys_iff {m : OrderedMap κ ν} {key : κ} :
    key ∈ m.keys ↔ ∃ value, m.get? key = some value := by
  rw [keys, List.mem_map]
  constructor
  · rintro ⟨e, he, rfl⟩
    exact ⟨e.2, get?_of_mem_entries he⟩
  · rintro ⟨value, h⟩
    exact ⟨(key, value), mem_entries_of_get? h, rfl⟩

theorem get?_eq_none_iff {m : OrderedMap κ ν} {key : κ} : m.get? key = none ↔ key ∉ m.keys := by
  rw [mem_keys_iff, Option.eq_none_iff_forall_ne_some, not_exists]

/-- **A map is told by its keys, in order, and what is found under them.** No
key comes twice, so the entries are those keys with those values. -/
theorem ext_of_get? {m m' : OrderedMap κ ν} (hk : m.keys = m'.keys)
    (hg : ∀ key, m.get? key = m'.get? key) : m = m' := by
  have hlength : m.entries.length = m'.entries.length := by
    simpa [keys] using congrArg List.length hk
  have he : m.entries = m'.entries := by
    refine List.ext_getElem hlength fun i hi hi' => ?_
    have hkey : m.entries[i].1 = m'.entries[i].1 := by
      simpa [keys] using List.getElem_of_eq hk (by simpa [keys] using hi)
    have hvalue : m.get? m.entries[i].1 = some m.entries[i].2 :=
      get?_of_mem_entries (List.getElem_mem hi)
    have hvalue' : m'.get? m'.entries[i].1 = some m'.entries[i].2 :=
      get?_of_mem_entries (List.getElem_mem hi')
    rw [hg, hkey, hvalue'] at hvalue
    exact Prod.ext hkey (Option.some.inj hvalue).symm
  match m, m', he with
  | ⟨_, _⟩, ⟨_, _⟩, rfl => rfl

/-- A value can be inserted before another one as well as after it, if its
key has its place already. -/
theorem insert_comm {m : OrderedMap κ ν} {key other : κ} (hm : key ∈ m.keys) (hne : key ≠ other)
    (value value' : ν) :
    (m.insert other value').insert key value = (m.insert key value).insert other value' := by
  refine ext_of_get? ?_ fun k => ?_
  · by_cases ho : other ∈ m.keys <;> simp [hm, ho]
  · by_cases hk : k = key
    · subst hk
      simp [hne]
    · simp [hk]

theorem keys_prefix_insertAll (m : OrderedMap κ ν) (entries : List (κ × ν)) :
    m.keys <+: (m.insertAll entries).keys := by
  induction entries generalizing m with
  | nil => exact List.prefix_refl _
  | cons e rest ih =>
    have hfirst : m.keys <+: (m.insert e.1 e.2).keys := by
      rw [keys_insert]
      split
      · exact List.prefix_refl _
      · exact List.prefix_append _ _
    exact hfirst.trans (ih (m.insert e.1 e.2))

theorem get?_insertAll_of_not_mem (m : OrderedMap κ ν) {entries : List (κ × ν)} {key : κ}
    (h : key ∉ entries.map Prod.fst) : (m.insertAll entries).get? key = m.get? key := by
  induction entries generalizing m with
  | nil => rfl
  | cons e rest ih =>
    rw [List.map_cons, List.mem_cons, not_or] at h
    show ((m.insert e.1 e.2).insertAll rest).get? key = _
    rw [ih (m.insert e.1 e.2) h.2, get?_insert, if_neg h.1]

/-- **What is found after entries have been inserted**: the last under a key,
and here each key has one. -/
theorem get?_insertAll (m : OrderedMap κ ν) {entries : List (κ × ν)}
    (hnodup : (entries.map Prod.fst).Nodup) (key : κ) :
    (m.insertAll entries).get? key
      = ((⟨entries, hnodup⟩ : OrderedMap κ ν).get? key).or (m.get? key) := by
  induction entries generalizing m with
  | nil => rfl
  | cons e rest ih =>
    obtain ⟨hnot, hrest⟩ := List.nodup_cons.1 hnodup
    show ((m.insert e.1 e.2).insertAll rest).get? key = _
    rw [ih (m.insert e.1 e.2) hrest, get?_insert]
    by_cases hk : key = e.1
    · subst hk
      have hnone : (⟨rest, hrest⟩ : OrderedMap κ ν).get? e.1 = none := get?_eq_none_iff.2 hnot
      rw [hnone, if_pos rfl]
      simp [get?]
    · rw [if_neg hk]
      simp [get?, Ne.symm hk]

theorem keys_insertAll (m : OrderedMap κ ν) {entries : List (κ × ν)}
    (hnodup : (entries.map Prod.fst).Nodup) :
    (m.insertAll entries).keys = m.keys ++ (entries.map Prod.fst).filter (· ∉ m.keys) := by
  induction entries generalizing m with
  | nil => exact (List.append_nil _).symm
  | cons e rest ih =>
    obtain ⟨hnot, hrest⟩ := List.nodup_cons.1 hnodup
    show ((m.insert e.1 e.2).insertAll rest).keys = _
    rw [ih (m.insert e.1 e.2) hrest, keys_insert, List.map_cons]
    by_cases hmem : e.1 ∈ m.keys
    · rw [if_pos hmem, List.filter_cons_of_neg (by simpa using hmem)]
    · rw [if_neg hmem, List.filter_cons_of_pos (by simpa using hmem), List.append_assoc]
      refine congrArg (m.keys ++ e.1 :: ·) (List.filter_congr fun k hk => ?_)
      have hne : k ≠ e.1 := fun he => hnot (he ▸ hk)
      simp [hne]

/-- **A map inserted into one whose keys it has in the first place** comes
out as it is. -/
theorem insertAll_entries {m m' : OrderedMap κ ν} (h : m.keys <+: m'.keys) :
    m.insertAll m'.entries = m' := by
  refine ext_of_get? ?_ fun key => ?_
  · rw [keys_insertAll m m'.nodup_keys]
    obtain ⟨rest, hrest⟩ := h
    have hnodup : (m.keys ++ rest).Nodup := hrest ▸ m'.nodup_keys
    show m.keys ++ m'.keys.filter (· ∉ m.keys) = m'.keys
    rw [← hrest, List.filter_append, List.filter_eq_nil_iff.2 (by simp), List.nil_append,
      List.filter_eq_self.2]
    intro k hk
    simpa using fun hm => (List.nodup_append.1 hnodup).2.2 k hm k hk rfl
  · rw [get?_insertAll m m'.nodup_keys]
    show (m'.get? key).or (m.get? key) = m'.get? key
    cases hget : m'.get? key with
    | some value => rfl
    | none =>
      rw [Option.none_or, get?_eq_none_iff]
      exact fun hmem => get?_eq_none_iff.1 hget (h.subset hmem)

/-- **Two maps hold the same** when the same is found under every key. -/
theorem sameEntries_eq_true_iff [DecidableEq ν] {m m' : OrderedMap κ ν} :
    m.sameEntries m' = true ↔ ∀ key, m.get? key = m'.get? key := by
  rw [sameEntries, Bool.and_eq_true, decide_eq_true_iff, List.all_eq_true]
  simp only [decide_eq_true_iff]
  constructor
  · rintro ⟨hlength, hall⟩ key
    -- the keys of the one are among those of the other, and as many
    have hsub : m.keys ⊆ m'.keys := fun k hk => by
      obtain ⟨value, hv⟩ := mem_keys_iff.1 hk
      exact mem_keys_iff.2 ⟨value, hall _ (mem_entries_of_get? hv)⟩
    have hperm : m.keys.Perm m'.keys :=
      (List.subperm_of_subset m.nodup_keys hsub).perm_of_length_le (by simp [keys, hlength])
    cases hg : m.get? key with
    | some value => exact (hall _ (mem_entries_of_get? hg)).symm
    | none => rw [eq_comm, get?_eq_none_iff, ← hperm.mem_iff, ← get?_eq_none_iff, hg]
  · intro hsame
    have hkeys : ∀ key, key ∈ m.keys ↔ key ∈ m'.keys := fun key => by
      rw [mem_keys_iff, mem_keys_iff, hsame]
    have hperm := (List.perm_ext_iff_of_nodup m.nodup_keys m'.nodup_keys).2 hkeys
    refine ⟨by simpa [keys] using hperm.length_eq, fun e he => ?_⟩
    rw [← hsame, get?_of_mem_entries he]

end OrderedMap

end EditBlocks
