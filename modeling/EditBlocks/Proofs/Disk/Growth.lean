import EditBlocks.Proofs.Disk.Walk

/-!
# Disks that grow

Making a directory and writing a file put something where nothing was, or new
bytes into a file; no link is made or removed, and no directory
(`Disk.Grows`). So a path that leads to a location goes on leading there
while the disk grows (`Disk.Grows.reach?`), whatever else is made meanwhile.

What is not said is that other paths go on leading nowhere. A path that leads
nowhere on the first disk may lead to a file on a later one, and only the
location where it would be made is settled before. For that reason
`Disk.reach?` gives a location for free names as well.

Growing is transitive, and what a run does to a disk is a chain of such
steps. So one comparison of the first disk with the last is all that most
statements need.
-/

namespace EditBlocks.Disk

/-- **A disk has grown into another.** What was there is there, but that the
bytes of a file may be others, and no link has come. -/
structure Grows (d d' : Disk) : Prop where
  /-- Relative paths are read from the same directory. -/
  workingDir : d'.workingDir = d.workingDir
  /-- The links are the same. -/
  link : ∀ place target,
    d'.node? place = some (.link target) ↔ d.node? place = some (.link target)
  /-- Directories stay. -/
  directory : ∀ place, d.node? place = some .directory → d'.node? place = some .directory
  /-- Files stay files. -/
  file : ∀ place bytes, d.node? place = some (.file bytes) →
    ∃ bytes', d'.node? place = some (.file bytes')

variable {d d' d'' : Disk}

theorem Grows.refl (d : Disk) : d.Grows d :=
  ⟨rfl, fun _ _ => Iff.rfl, fun _ h => h, fun _ bytes h => ⟨bytes, h⟩⟩

theorem Grows.trans (h : d.Grows d') (h' : d'.Grows d'') : d.Grows d'' where
  workingDir := h'.workingDir.trans h.workingDir
  link place target := (h'.link place target).trans (h.link place target)
  directory place hn := h'.directory place (h.directory place hn)
  file place bytes hn :=
    have ⟨bytes', hn'⟩ := h.file place bytes hn
    h'.file place bytes' hn'

/-! ## What can be put

A place takes something when nothing is there and the directory it belongs to
is, or when a file is there and it is replaced by a file. -/

/-- **A node that a disk can take at a location.** With it the disk is still
a tree, and no link has been made or lost. -/
structure Takes (d : Disk) (place : Location) (node : Node) : Prop where
  /-- Something else than the root stands there. -/
  ne_nil : place ≠ []
  /-- It is written with names. -/
  proper : Path.IsProper place
  /-- It is in a directory. -/
  parent : d.node? place.dropLast = some .directory
  /-- No link is put. -/
  no_link : ∀ target, node ≠ .link target
  /-- Nothing is replaced but a file, and that by a file. -/
  free : d.node? place = none
    ∨ (∃ bytes, d.node? place = some (.file bytes)) ∧ ∃ bytes, node = .file bytes

/-- What is replaced is a file, and so is what replaces it. -/
theorem Takes.replaces {place : Location} {node other : Node} (h : d.Takes place node)
    (ho : d.node? place = some other) :
    ∃ bytes bytes', other = .file bytes ∧ node = .file bytes' := by
  rcases h.free with hnone | ⟨⟨bytes, hfile⟩, bytes', hnode⟩
  · rw [hnone] at ho
    cases ho
  · rw [hfile] at ho
    exact ⟨bytes, bytes', (Option.some.inj ho).symm, hnode⟩

/-- **A disk grows** by what it can take. -/
theorem Takes.grows {place : Location} {node : Node} (h : d.Takes place node) :
    d.Grows (d.put place node) where
  workingDir := rfl
  link other target := by
    rw [node?_put d node other h.ne_nil]
    split
    next ho =>
      subst ho
      refine iff_of_false (fun he => h.no_link target (Option.some.inj he)) fun he => ?_
      obtain ⟨_, _, hl, _⟩ := h.replaces he
      cases hl
    · rfl
  directory other hother := by
    rw [node?_put d node other h.ne_nil]
    split
    next ho =>
      subst ho
      obtain ⟨_, _, hl, _⟩ := h.replaces hother
      cases hl
    · exact hother
  file other bytes hother := by
    rw [node?_put d node other h.ne_nil]
    split
    next ho =>
      subst ho
      obtain ⟨_, bytes', _, rfl⟩ := h.replaces hother
      exact ⟨bytes', rfl⟩
    · exact ⟨bytes, hother⟩

/-- **A disk stays a tree** with what it can take. -/
theorem Takes.isTree (hd : d.IsTree) {place : Location} {node : Node} (h : d.Takes place node) :
    (d.put place node).IsTree where
  proper e he := by
    rcases OrderedMap.mem_entries_insert he with rfl | he
    · exact ⟨h.ne_nil, h.proper⟩
    · exact hd.proper e he
  parent e he := by
    refine h.grows.directory _ ?_
    rcases OrderedMap.mem_entries_insert he with rfl | he
    · exact h.parent
    · exact hd.parent e he
  plain e he := by
    rcases OrderedMap.mem_entries_insert he with rfl | he
    · match node, h.no_link with
      | .file _, _ | .directory, _ => rfl
      | .link target, hl => exact absurd rfl (hl target)
    · exact hd.plain e he
  working := h.grows.directory _ hd.working

/-- Something can be put where a free name is located. -/
theorem takes_of_absent (hd : d.IsTree) {followLast : Bool} {path : Text} {directory : Location}
    {name : Text} {node : Node} (h : d.locate followLast path = .ok (.absent directory name))
    (hnode : ∀ target, node ≠ .link target) : d.Takes (directory ++ [name]) node := by
  have hin : (Place.absent directory name).IsIn d := isIn_of_locate hd h
  exact
    { ne_nil := by simp
      proper := hin.isProper hd
      parent := by rw [List.dropLast_concat]; exact hin.1
      no_link := hnode
      free := Or.inl hin.2.2 }

theorem takes_of_file (hd : d.IsTree) {place : Location} {bytes : List UInt8}
    (h : d.node? place = some (.file bytes)) (bytes' : List UInt8) :
    d.Takes place (.file bytes') where
  ne_nil := fun he => by rw [he] at h; cases h
  proper := hd.isProper h
  parent := hd.directory_of_node? h
  no_link := fun _ h => nomatch h
  free := Or.inr ⟨⟨bytes, h⟩, bytes', rfl⟩

/-! ## What stays as it is

A way goes over directories and links, and both stay. At its end there may be
a file, whose bytes do not matter to the way. -/

/-- **A way leads to the same location** on a disk that has grown. At a free
name something may stand afterwards, and that is where the way then leads. -/
theorem Leads.of_grows (hg : d.Grows d') {followLast : Bool} {place : Location} {names : List Text}
    {links : Nat} {found : Place} (h : d.Leads followLast place names links found) :
    ∃ found', d'.Leads followLast place names links found'
      ∧ found'.location = found.location := by
  induction h with
  | nil place => exact ⟨_, .nil place, rfl⟩
  | skip hn _ ih =>
    obtain ⟨found', hw, hl⟩ := ih
    exact ⟨found', .skip hn hw, hl⟩
  | up _ ih =>
    obtain ⟨found', hw, hl⟩ := ih
    exact ⟨found', .up hw, hl⟩
  | down hn hnode _ ih =>
    obtain ⟨found', hw, hl⟩ := ih
    exact ⟨found', .down hn (hg.directory _ hnode) hw, hl⟩
  | file hn hnode =>
    obtain ⟨bytes', hnode'⟩ := hg.file _ _ hnode
    exact ⟨_, .file hn hnode', rfl⟩
  | @absent place name hn hnode =>
    -- something may have come where the name was free, but no link
    match hnode' : d'.node? (place ++ [name]) with
    | none => exact ⟨_, .absent hn hnode', rfl⟩
    | some .directory => exact ⟨_, .down hn hnode' (.nil _), rfl⟩
    | some (.file bytes) => exact ⟨_, .file hn hnode', rfl⟩
    | some (.link target) =>
      rw [(hg.link _ _).1 hnode'] at hnode
      cases hnode
  | link hn hnode hlast _ ih =>
    obtain ⟨found', hw, hl⟩ := ih
    exact ⟨found', .link hn ((hg.link _ _).2 hnode) hlast hw, hl⟩
  | stay hn hnode hlast => exact ⟨_, .stay hn ((hg.link _ _).2 hnode) hlast, rfl⟩

theorem Grows.start (hg : d.Grows d') (path : Text) : d'.start path = d.start path := by
  rw [Disk.start, Disk.start, hg.workingDir]

theorem locate_of_grows (hg : d.Grows d') {followLast : Bool} {path : Text} {found : Place}
    (h : d.locate followLast path = .ok found) :
    ∃ found', d'.locate followLast path = .ok found' ∧ found'.location = found.location := by
  obtain ⟨hpath, links, hle, hw⟩ := locate_eq_ok_iff.1 h
  obtain ⟨found', hw', hl⟩ := hw.of_grows hg
  rw [← hg.start] at hw'
  exact ⟨found', locate_eq_ok_iff.2 ⟨hpath, links, hle, hw'⟩, hl⟩

/-- Locations without links stay so. -/
theorem LinkFree.of_grows (hg : d.Grows d') {place : Location} (h : d.LinkFree place) :
    d'.LinkFree place := fun above ha target hl => h above ha target ((hg.link _ _).1 hl)

/-- **The location that a path leads to**, all links followed, whether or not
something is there. -/
def reach? (d : Disk) (path : Text) : Option Location :=
  match d.locate true path with
  | .ok found => some found.location
  | .error _ => none

theorem reach?_eq_some_iff {path : Text} {place : Location} :
    d.reach? path = some place
      ↔ ∃ found, d.locate true path = .ok found ∧ found.location = place := by
  rw [reach?]
  cases d.locate true path with
  | ok found => simp
  | error e => simp

/-- **A path goes on leading to the location that it leads to**, whatever is
put there or elsewhere. -/
theorem Grows.reach? (hg : d.Grows d') {path : Text} {place : Location}
    (h : d.reach? path = some place) : d'.reach? path = some place := by
  obtain ⟨found, hf, rfl⟩ := reach?_eq_some_iff.1 h
  obtain ⟨found', hf', hl⟩ := locate_of_grows hg hf
  exact reach?_eq_some_iff.2 ⟨found', hf', hl⟩

end EditBlocks.Disk
