/-!
# Maps that remember their order

A map from keys to values that lists its entries in the order in which their
keys first came. Putting a value under a key that is there keeps the key's
place; a new key goes to the end. Every key has one entry, by the type, so
nothing that is built from maps has to ask for that again.

The view of a map is its list of entries; `OrderedMap.get?_insert` and
`OrderedMap.keys_insert` say what one insertion does to the values and to the
order. All that is said of maps elsewhere comes from these two.

Maps of this kind hold the files of a snapshot, the drafts of edits, the
settings, and what stands on a disk. The order is seen in the first three of
them, in the files that are stored one after the other and in the file that
settings are saved in. Two maps that differ in the order only are told apart
by equality and not by `OrderedMap.sameEntries`.
-/

namespace EditBlocks

variable {κ ν : Type} [DecidableEq κ]

/-- An entry list with a value put under a key: in the key's place if it has
one, at the end otherwise. -/
def putEntry (key : κ) (value : ν) : List (κ × ν) → List (κ × ν)
  | [] => [(key, value)]
  | (k, v) :: rest => if k = key then (key, value) :: rest else (k, v) :: putEntry key value rest

/-- The keys after an insertion: as before if the key was there, else with
the key at the end. -/
theorem map_fst_putEntry (key : κ) (value : ν) (entries : List (κ × ν)) :
    (putEntry key value entries).map Prod.fst
      = if key ∈ entries.map Prod.fst then entries.map Prod.fst
        else entries.map Prod.fst ++ [key] := by
  induction entries with
  | nil => simp [putEntry]
  | cons e rest ih =>
    obtain ⟨k, v⟩ := e
    by_cases h : k = key
    · simp [putEntry, h]
    · by_cases hm : key ∈ rest.map Prod.fst <;> simp_all [putEntry, eq_comm]

/-- **A map with its entries in order.** -/
structure OrderedMap (κ ν : Type) where
  /-- The entries, in the order of their keys' first coming. -/
  entries : List (κ × ν)
  /-- Every key has one entry. -/
  nodup_keys : (entries.map Prod.fst).Nodup

namespace OrderedMap

/-- The map without entries. -/
def empty : OrderedMap κ ν := ⟨[], List.nodup_nil⟩

/-- The keys, in order. -/
def keys (m : OrderedMap κ ν) : List κ := m.entries.map Prod.fst

/-- The value under a key, if the key is there. -/
def get? (m : OrderedMap κ ν) (key : κ) : Option ν :=
  (m.entries.find? fun e => e.1 = key).map Prod.snd

/-- Whether a key is there. -/
def contains (m : OrderedMap κ ν) (key : κ) : Bool := (m.get? key).isSome

/-- **The map with a value under a key.** -/
def insert (m : OrderedMap κ ν) (key : κ) (value : ν) : OrderedMap κ ν where
  entries := putEntry key value m.entries
  nodup_keys := by
    rw [map_fst_putEntry]
    split
    · exact m.nodup_keys
    next h =>
      rw [List.nodup_append]
      refine ⟨m.nodup_keys, by simp, ?_⟩
      intro a ha b hb hab
      rw [List.mem_singleton] at hb
      exact h (hb ▸ hab ▸ ha)

/-- The map with every entry of a list inserted, one after the other. -/
def insertAll (m : OrderedMap κ ν) (entries : List (κ × ν)) : OrderedMap κ ν :=
  entries.foldl (fun m e => m.insert e.1 e.2) m

/-- The map of an entry list. A repeated key keeps its first place and takes
its last value. -/
def ofList (entries : List (κ × ν)) : OrderedMap κ ν := empty.insertAll entries

/-- **Whether two maps hold the same**, the order of their entries aside. -/
def sameEntries [DecidableEq ν] (m m' : OrderedMap κ ν) : Bool :=
  m.entries.length = m'.entries.length && m.entries.all fun e => m'.get? e.1 = some e.2

@[simp] theorem keys_insert (m : OrderedMap κ ν) (key : κ) (value : ν) :
    (m.insert key value).keys = if key ∈ m.keys then m.keys else m.keys ++ [key] :=
  map_fst_putEntry key value m.entries

/-- Looking up in an entry list with a value put under a key. -/
theorem find?_putEntry (key k : κ) (value : ν) (entries : List (κ × ν)) :
    ((putEntry key value entries).find? fun e => e.1 = k).map Prod.snd
      = if k = key then some value else (entries.find? fun e => e.1 = k).map Prod.snd := by
  induction entries with
  | nil => by_cases h : k = key <;> simp [putEntry, h, eq_comm]
  | cons e rest ih =>
    obtain ⟨k', v⟩ := e
    by_cases h : k' = key
    · subst h
      by_cases hk : k' = k <;> simp [putEntry, hk, eq_comm (a := k)]
    · by_cases hk : k' = k
      · subst hk; simp [putEntry, h]
      · simp [putEntry, h, hk, ih]

/-- **Reading after writing**: the new value under its key, the old one under
any other. -/
@[simp] theorem get?_insert (m : OrderedMap κ ν) (key k : κ) (value : ν) :
    (m.insert key value).get? k = if k = key then some value else m.get? k :=
  find?_putEntry key k value m.entries

end OrderedMap

end EditBlocks
