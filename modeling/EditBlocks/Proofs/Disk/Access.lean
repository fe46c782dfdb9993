import EditBlocks.Proofs.Disk.Growth

/-!
# Reading, writing and making directories

One equivalence for each operation on a path, in terms of the location that
the path leads to (`Disk.reach?`): `Disk.read_eq_ok_iff`, `Disk.isFile_iff`
and `Disk.write_eq_ok_iff`. Nothing that comes after opens a path itself; it
asks where the path leads and what stands there.

Making a directory with those above it only puts directories where nothing
was (`Disk.Extends`), whether or not it succeeds; and for a location without
links, only at the location and above it
(`Disk.extends_makeDirectories_ofLocation`). Where directories come is a
parameter of the relation, so it can be widened later on.

The locations of this module are written as paths (`Path.ofLocation`), which
is how a path looks once its links have been replaced. So these lemmas apply
to the paths that come from resolving, and not to those of a response.
-/

namespace EditBlocks.Disk

variable {d d' d'' : Disk}

/-! ## The path of a location

A location that is written as a path leads to itself, if there are no links
on its way. -/

/-- The names of a written location lead where its parts do. -/
theorem Leads.of_ofLocation {followLast : Bool} {place : Location} {links : Nat} {found : Place}
    (hp : Path.IsProper place)
    (h : d.Leads followLast [] (Path.names (Path.ofLocation place)) links found) :
    d.Leads followLast [] place links found := by
  by_cases hne : place = []
  · subst hne
    exact (h.of_skip (Or.inl rfl)).of_skip (Or.inl rfl)
  · rw [Path.names_ofLocation hne hp] at h
    exact h.of_skip (Or.inl rfl)

theorem Leads.to_ofLocation {followLast : Bool} {place : Location} {links : Nat} {found : Place}
    (hp : Path.IsProper place) (h : d.Leads followLast [] place links found) :
    d.Leads followLast [] (Path.names (Path.ofLocation place)) links found := by
  by_cases hne : place = []
  · subst hne
    exact .skip (Or.inl rfl) (.skip (Or.inl rfl) h)
  · rw [Path.names_ofLocation hne hp]
    exact .skip (Or.inl rfl) h

/-- **The path of a location without links leads to that location**, if
anywhere. -/
theorem location_of_locate {followLast : Bool} {place : Location} {found : Place}
    (hp : Path.IsProper place) (hf : d.LinkFree place)
    (h : d.locate followLast (Path.ofLocation place) = .ok found) : found.location = place := by
  obtain ⟨-, links, -, hw⟩ := locate_eq_ok_iff.1 h
  exact ((Leads.of_ofLocation hp hw).eq_of_linkFree hp hf).2.1

theorem eq_of_reach?_ofLocation {place place' : Location} (hp : Path.IsProper place)
    (hf : d.LinkFree place) (h : d.reach? (Path.ofLocation place) = some place') :
    place' = place := by
  obtain ⟨found, hl, rfl⟩ := reach?_eq_some_iff.1 h
  exact location_of_locate hp hf hl

/-- A path that leads to its location on a disk that has grown did so before,
if something stood there. -/
theorem reach?_of_node? (hd : d.IsTree) (hg : d.Grows d') {place : Location} {node : Node}
    (hf : d.LinkFree place) (hnode : d.node? place = some node)
    (h : d'.reach? (Path.ofLocation place) = some place) :
    d.reach? (Path.ofLocation place) = some place := by
  have hp := hd.isProper hnode
  obtain ⟨found, hl, -⟩ := reach?_eq_some_iff.1 h
  obtain ⟨hpath, links, -, hw⟩ := locate_eq_ok_iff.1 hl
  have hshort := ((Leads.of_ofLocation hp hw).eq_of_linkFree hp (hf.of_grows hg)).2.2
  have hlink : ∀ target, node ≠ .link target := fun target he =>
    hf place (List.prefix_refl _) target (he ▸ hnode)
  have hw' : d.Leads true [] place 0 (.present place) := leads_of_node? hd hp hshort hnode hlink
  exact reach?_eq_some_iff.2 ⟨.present place,
    locate_eq_ok_iff.2 ⟨hpath, 0, Nat.zero_le _, hw'.to_ofLocation hp⟩, rfl⟩

/-! ## Files

A file is read, or found to be one, exactly where its path leads to one.
Writing asks for no more than that something can be put there. -/

/-- **What a path leads to**, where it leads to a location. -/
theorem lookUp?_eq (hd : d.IsTree) (path : Text) :
    d.lookUp? path = (d.reach? path).bind d.node? := by
  unfold lookUp? reach?
  match hl : d.locate true path with
  | .ok (.present place) => rfl
  | .ok (.absent directory name) => exact (isIn_of_locate hd hl).2.2.symm
  | .error e => rfl

/-- **A path is that of a file** when the location that it leads to is one. -/
theorem isFile_iff (hd : d.IsTree) {path : Text} :
    d.isFile path = true
      ↔ ∃ place bytes, d.reach? path = some place ∧ d.node? place = some (.file bytes) := by
  unfold isFile
  rw [lookUp?_eq hd]
  cases hr : d.reach? path with
  | none => simp
  | some place =>
    rw [Option.bind_some]
    constructor
    · intro h
      split at h
      next bytes hn => exact ⟨place, bytes, rfl, hn⟩
      · cases h
    · rintro ⟨_, bytes, he, hn⟩
      cases he
      rw [hn]

/-- **Reading gives the bytes** of the file at the location. There are no
other conditions, as permissions are not modelled. -/
theorem read_eq_ok_iff (hd : d.IsTree) {path : Text} {bytes : List UInt8} :
    d.read path = .ok bytes
      ↔ ∃ place, d.reach? path = some place ∧ d.node? place = some (.file bytes) := by
  unfold read reach?
  match hl : d.locate true path with
  | .error e => simp
  | .ok (.absent directory name) =>
    have hin : (Place.absent directory name).IsIn d := isIn_of_locate hd hl
    simp [Place.location, hin.2.2]
  | .ok (.present place) =>
    have hnode : ∃ node, d.node? place = some node := isIn_of_locate hd hl
    obtain ⟨node, hn⟩ := hnode
    cases node <;> simp [Place.location, hn]

/-- **Writing puts the bytes** at the location, if it can take them: a file
is there, or nothing is and the directory it belongs to is. -/
theorem write_eq_ok_iff (hd : d.IsTree) {path : Text} {bytes : List UInt8} :
    d.write path bytes = .ok d'
      ↔ ∃ place, d.reach? path = some place ∧ d.Takes place (.file bytes)
        ∧ d' = d.put place (.file bytes) := by
  unfold write reach?
  match hl : d.locate true path with
  | .error e => simp
  | .ok (.absent directory name) =>
    have ht : d.Takes (directory ++ [name]) (.file bytes) :=
      takes_of_absent hd hl fun _ h => nomatch h
    simpa [Place.location, ht] using eq_comm
  | .ok (.present place) =>
    have hnode : ∃ node, d.node? place = some node := isIn_of_locate hd hl
    obtain ⟨node, hn⟩ := hnode
    cases node with
    | file old => simpa [Place.location, hn, takes_of_file hd hn bytes] using eq_comm
    | directory =>
      have hno : ¬d.Takes place (.file bytes) := fun h => by
        obtain ⟨_, _, he, _⟩ := h.replaces hn
        cases he
      simp [Place.location, hn, hno]
    | link target =>
      have hno : ¬d.Takes place (.file bytes) := fun h => by
        obtain ⟨_, _, he, _⟩ := h.replaces hn
        cases he
      simp [Place.location, hn, hno]

/-! ## Directories

One directory is made after those above it, so this is an induction on the
room for calls. -/

/-- **What stands at a location is kept**: it is what it was, or a directory
that was made where nothing was. -/
def KeptAt (d d' : Disk) (place : Location) : Prop :=
  d'.node? place = d.node? place
    ∨ d.node? place = none ∧ d'.node? place = some .directory

theorem KeptAt.trans {place : Location} (h : d.KeptAt d' place) (h' : d'.KeptAt d'' place) :
    d.KeptAt d'' place := by
  rcases h with hsame | ⟨hnone, hdir⟩
  · rw [KeptAt, ← hsame]
    exact h'
  · rcases h' with hsame | ⟨hnone', -⟩
    · exact Or.inr ⟨hnone, hsame.trans hdir⟩
    · rw [hdir] at hnone'
      cases hnone'

theorem KeptAt.file_iff {place : Location} (h : d.KeptAt d' place) (bytes : List UInt8) :
    d'.node? place = some (.file bytes) ↔ d.node? place = some (.file bytes) := by
  rcases h with hsame | ⟨hnone, hdir⟩
  · rw [hsame]
  · rw [hnone, hdir]
    simp

/-- **A disk with directories made** where nothing was, and where a condition
holds. -/
structure Extends (where' : Location → Prop) (d d' : Disk) : Prop where
  isTree : d'.IsTree
  grows : d.Grows d'
  made : ∀ place, d'.node? place = d.node? place
    ∨ where' place ∧ d.node? place = none ∧ d'.node? place = some .directory

theorem Extends.refl {where' : Location → Prop} (hd : d.IsTree) : d.Extends where' d :=
  ⟨hd, Grows.refl d, fun _ => Or.inl rfl⟩

theorem Extends.trans {where' : Location → Prop} (h : d.Extends where' d')
    (h' : d'.Extends where' d'') : d.Extends where' d'' where
  isTree := h'.isTree
  grows := h.grows.trans h'.grows
  made place := by
    rcases h.made place with he | ⟨hw, hnone, hdir⟩
    · rw [← he]
      exact h'.made place
    · exact Or.inr ⟨hw, hnone, h'.grows.directory place hdir⟩

theorem Extends.keptAt {where' : Location → Prop} (h : d.Extends where' d') (place : Location) :
    d.KeptAt d' place := (h.made place).imp_right And.right

theorem extends_makeDirectory {where' : Location → Prop} (hd : d.IsTree) {path : Text}
    (hw : ∀ directory name, d.locate false (Path.dropSlashes path) = .ok (.absent directory name) →
      where' (directory ++ [name]))
    (h : d.makeDirectory path = .ok d') : d.Extends where' d' := by
  unfold makeDirectory at h
  match hl : d.locate false (Path.dropSlashes path) with
  | .error (.refused _ _) | .error .nullByte | .error .tooDeep | .ok (.present _) =>
    rw [hl] at h
    cases h
  | .ok (.absent directory name) =>
    rw [hl] at h
    cases h
    have ht : d.Takes (directory ++ [name]) .directory :=
      takes_of_absent hd hl fun _ h => nomatch h
    refine ⟨ht.isTree hd, ht.grows, fun place => ?_⟩
    rw [node?_put d .directory place ht.ne_nil]
    split
    next he =>
      subst he
      have hin : (Place.absent directory name).IsIn d := isIn_of_locate hd hl
      exact Or.inr ⟨hw directory name hl, hin.2.2, rfl⟩
    · exact Or.inl rfl

/-- The last directory of a path, made on a disk with those above it. One
that is there already will do. -/
def makeLast (d : Disk) (path : Text) : Disk × Option DiskError :=
  match d.makeDirectory path with
  | .ok made => (made, none)
  | .error .nullByte => (d, some .nullByte)
  | .error e => if d.isDirectory path then (d, none) else (d, some e)

theorem makeDirectoriesFrom_succ (fuel : Nat) (path : Text) :
    makeDirectoriesFrom (fuel + 1) d path =
      if (splitDirectory path).1 = [] ∨ (splitDirectory path).2 = []
          ∨ d.isThere (splitDirectory path).1 then d.makeLast path
      else if (makeDirectoriesFrom fuel d (splitDirectory path).1).2.isSome
          && !saysExists (makeDirectoriesFrom fuel d (splitDirectory path).1).2 then
        makeDirectoriesFrom fuel d (splitDirectory path).1
      else if (splitDirectory path).2 = Path.here then
        ((makeDirectoriesFrom fuel d (splitDirectory path).1).1, none)
      else (makeDirectoriesFrom fuel d (splitDirectory path).1).1.makeLast path := rfl

theorem extends_makeLast {where' : Location → Prop} (hd : d.IsTree) {path : Text}
    (hw : ∀ directory name, d.locate false (Path.dropSlashes path) = .ok (.absent directory name) →
      where' (directory ++ [name])) : d.Extends where' (d.makeLast path).1 := by
  unfold makeLast
  split
  next made h => exact extends_makeDirectory hd hw h
  · exact .refl hd
  · split <;> exact .refl hd

/-- **Making a directory and those above it** puts directories only, as far
as it gets. The condition on where they are is one that holds of every path
tried, on every disk in between. -/
theorem extends_makeDirectoriesFrom {where' : Location → Prop} (tried : Text → Prop)
    (hd : d.IsTree) (htried : ∀ path, tried path → tried (splitDirectory path).1)
    (hw : ∀ d', d.Grows d' → ∀ path, tried path → ∀ directory name,
      d'.locate false (Path.dropSlashes path) = .ok (.absent directory name) →
      where' (directory ++ [name]))
    (fuel : Nat) {path : Text} (hp : tried path) :
    d.Extends where' (makeDirectoriesFrom fuel d path).1 := by
  induction fuel generalizing path with
  | zero => exact .refl hd
  | succ fuel ih =>
    have habove := ih (htried path hp)
    rw [makeDirectoriesFrom_succ]
    split
    · exact extends_makeLast hd (hw d (.refl d) path hp)
    · split
      · exact habove
      · split
        · exact habove
        · exact habove.trans (extends_makeLast habove.isTree (hw _ habove.grows path hp))

/-- There is room to make the last directory. -/
theorem exists_makeDirectories_eq [Nesting] (d : Disk) (path : Text) :
    ∃ room, d.makeDirectories path = makeDirectoriesFrom (room + 1) d path := by
  obtain ⟨room, hroom⟩ := Nat.exists_eq_add_one_of_ne_zero (Nat.ne_of_gt Nesting.directories_pos)
  exact ⟨room, by rw [makeDirectories, hroom]⟩

/-- **Making directories** makes directories and nothing else, whether or not
it succeeds. Nothing that was there is touched. -/
theorem extends_makeDirectories [Nesting] (hd : d.IsTree) (path : Text) :
    d.Extends (fun _ => True) (d.makeDirectories path).1 :=
  extends_makeDirectoriesFrom (fun _ => True) hd (fun _ _ => trivial)
    (fun _ _ _ _ _ _ _ => trivial) _ trivial

/-- The directory above that of a written location is that of a written
location. -/
theorem splitDirectory_ofLocation {place : Location} (hp : Path.IsProper place) :
    (splitDirectory (Path.ofLocation place)).1 = Path.ofLocation place.dropLast := by
  by_cases hne : place = []
  · subst hne
    decide
  · obtain ⟨front, name, rfl⟩ : ∃ front name, place = front ++ [name] :=
      ⟨_, _, (List.dropLast_concat_getLast hne).symm⟩
    have hname := hp name (by simp)
    rw [splitDirectory, Path.split_ofLocation hp, List.dropLast_concat]
    obtain ⟨c, t, rfl⟩ := List.exists_cons_of_ne_nil hname.ne_nil
    rfl

/-- **For a location without links**, directories are made there and above it
only. -/
theorem extends_makeDirectories_ofLocation [Nesting] (hd : d.IsTree) {place : Location}
    (hp : Path.IsProper place) (hf : d.LinkFree place) :
    d.Extends (· <+: place) (d.makeDirectories (Path.ofLocation place)).1 := by
  refine extends_makeDirectoriesFrom
    (fun path => ∃ above, above <+: place ∧ path = Path.ofLocation above) hd ?_ ?_ _
    ⟨place, List.prefix_refl _, rfl⟩
  · rintro _ ⟨above, ha, rfl⟩
    exact ⟨above.dropLast, (List.dropLast_prefix _).trans ha,
      splitDirectory_ofLocation (hp.of_prefix ha)⟩
  · rintro d' hg _ ⟨above, ha, rfl⟩ directory name hl
    rw [Path.dropSlashes_ofLocation (hp.of_prefix ha)] at hl
    have he : directory ++ [name] = above :=
      location_of_locate (hp.of_prefix ha) ((hf.of_prefix ha).of_grows hg) hl
    exact he ▸ ha

end EditBlocks.Disk
