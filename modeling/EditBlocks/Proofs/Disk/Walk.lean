import EditBlocks.Proofs.Disk.Tree

/-!
# The way that a path takes

`Disk.follow` reads names in stretches between links, with a bound on the
links. `Disk.Leads` is the same way taken name by name: a derivation for each
name read, and the number of links on the way in place of a bound
(`Disk.follow_of_leads`, `Disk.leads_of_follow`). Inductions over a way go
over `Disk.Leads`.

The main facts are that a way is the only one from its start, links counted
(`Disk.Leads.unique`), that it can be cut at any of its names
(`Disk.Leads.split`), and that on a location without links it leads to that
very location (`Disk.Leads.eq_of_linkFree`).

A way ends at something that is there or at a free name in a directory
(`Disk.Place`). The two are kept together, since most of what is said of ways
holds of both.
-/

namespace EditBlocks.Disk

/-- The location that a path leads to, whether or not something is there. -/
def Place.location : Place → Location
  | .present place => place
  | .absent directory name => directory ++ [name]

/-- **What a path that leads to a place finds there**: something that stands
at it, or a directory in which the name is free. -/
def Place.IsIn (d : Disk) : Place → Prop
  | .present place => ∃ node, d.node? place = some node
  | .absent directory name =>
    d.node? directory = some .directory ∧ Path.IsName name ∧ d.node? (directory ++ [name]) = none

/-- **A name of an entry of a directory**, as the system reads it. -/
structure IsEntry (name : Text) : Prop where
  /-- It does not stand for the directory itself. -/
  ne_here : ¬(name = [] ∨ name = Path.here)
  /-- It does not stand for the directory above. -/
  ne_above : name ≠ Path.above
  /-- It is not too long. -/
  short : ¬maxNameLength < byteLength name

/-- **Where names read from a directory lead**, with the number of links
followed on the way. -/
inductive Leads (d : Disk) (followLast : Bool) : Location → List Text → Nat → Place → Prop
  /-- Nowhere else without names. -/
  | nil (place : Location) : Leads d followLast place [] 0 (.present place)
  /-- Nowhere else with an empty name or `.`. -/
  | skip {place : Location} {name : Text} {rest : List Text} {links : Nat} {found : Place}
      (hn : name = [] ∨ name = Path.here) (h : Leads d followLast place rest links found) :
      Leads d followLast place (name :: rest) links found
  /-- Up with `..`. -/
  | up {place : Location} {rest : List Text} {links : Nat} {found : Place}
      (h : Leads d followLast place.dropLast rest links found) :
      Leads d followLast place (Path.above :: rest) links found
  /-- Down into a directory. -/
  | down {place : Location} {name : Text} {rest : List Text} {links : Nat} {found : Place}
      (hn : IsEntry name) (hnode : d.node? (place ++ [name]) = some .directory)
      (h : Leads d followLast (place ++ [name]) rest links found) :
      Leads d followLast place (name :: rest) links found
  /-- To a file, with the last name. -/
  | file {place : Location} {name : Text} {bytes : List UInt8}
      (hn : IsEntry name) (hnode : d.node? (place ++ [name]) = some (.file bytes)) :
      Leads d followLast place [name] 0 (.present (place ++ [name]))
  /-- To nothing, with the last name. -/
  | absent {place : Location} {name : Text}
      (hn : IsEntry name) (hnode : d.node? (place ++ [name]) = none) :
      Leads d followLast place [name] 0 (.absent place name)
  /-- Through a link, with the names of its target read first. -/
  | link {place : Location} {name target : Text} {rest : List Text} {links : Nat} {found : Place}
      (hn : IsEntry name) (hnode : d.node? (place ++ [name]) = some (.link target))
      (hlast : ¬(rest = [] ∧ followLast = false))
      (h : Leads d followLast (linkStart place target) (Path.names target ++ rest) links found) :
      Leads d followLast place (name :: rest) (links + 1) found
  /-- To a link itself, with the last name. -/
  | stay {place : Location} {name target : Text} (hn : IsEntry name)
      (hnode : d.node? (place ++ [name]) = some (.link target)) (hlast : followLast = false) :
      Leads d followLast place [name] 0 (.present (place ++ [name]))

/-! ## Reading in stretches

A stretch ends at a link or at the end of the names, and is told by the names
before it. -/

variable {d : Disk} {followLast : Bool}

theorem follow_eq (links : Nat) (place : Location) (names : List Text) :
    follow d followLast links place names =
      match stretch d followLast place names, links with
      | .ends found, _ => .ok found
      | .refused reason, _ => .error reason
      | .link _ _ _, 0 => .error .tooManyLinks
      | .link directory target rest, links + 1 =>
        follow d followLast links (linkStart directory target) (Path.names target ++ rest) := by
  refine (follow.eq_def d followLast links place names).trans ?_
  cases links <;> rfl

/-- Names of the same stretch lead the same way. -/
theorem follow_congr {place place' : Location} {names names' : List Text} (links : Nat)
    (h : stretch d followLast place names = stretch d followLast place' names') :
    follow d followLast links place names = follow d followLast links place' names' := by
  rw [follow_eq, follow_eq links place', h]

/-- Names that end without a link lead to where they end. -/
theorem follow_of_ends {place : Location} {names : List Text} {found : Place} (links : Nat)
    (h : stretch d followLast place names = .ends found) :
    follow d followLast links place names = .ok found := by
  rw [follow_eq, h]

section Stretch

variable {place : Location} {name : Text} {rest : List Text}

theorem stretch_skip (hn : name = [] ∨ name = Path.here) :
    stretch d followLast place (name :: rest) = stretch d followLast place rest := by
  rw [stretch, if_pos hn]

theorem stretch_up :
    stretch d followLast place (Path.above :: rest) = stretch d followLast place.dropLast rest := by
  rw [stretch, if_neg (by decide), if_pos rfl]

theorem stretch_entry (hn : IsEntry name) :
    stretch d followLast place (name :: rest) =
      match d.node? (place ++ [name]) with
      | none => if rest = [] then .ends (.absent place name) else .refused .noEntry
      | some .directory => stretch d followLast (place ++ [name]) rest
      | some (.file _) =>
        if rest = [] then .ends (.present (place ++ [name])) else .refused .notDirectory
      | some (.link target) =>
        if rest = [] ∧ followLast = false then .ends (.present (place ++ [name]))
        else .link place target rest := by
  rw [stretch, if_neg hn.ne_here, if_neg hn.ne_above]
  exact if_neg hn.short

theorem stretch_link {target : Text} (hn : IsEntry name)
    (hnode : d.node? (place ++ [name]) = some (.link target))
    (hlast : ¬(rest = [] ∧ followLast = false)) :
    stretch d followLast place (name :: rest) = .link place target rest := by
  rw [stretch_entry hn, hnode]
  exact if_neg hlast

end Stretch

theorem follow_of_leads {place : Location} {names : List Text} {needed links : Nat} {found : Place}
    (h : d.Leads followLast place names needed found) (hle : needed ≤ links) :
    follow d followLast links place names = .ok found := by
  induction h generalizing links with
  | nil place => exact follow_of_ends links rfl
  | skip hn _ ih => rw [follow_congr links (stretch_skip hn), ih hle]
  | up _ ih => rw [follow_congr links stretch_up, ih hle]
  | down hn hnode _ ih =>
    rw [← ih hle]
    refine follow_congr links ?_
    rw [stretch_entry hn, hnode]
  | file hn hnode | absent hn hnode =>
    refine follow_of_ends links ?_
    rw [stretch_entry hn, hnode]
    exact if_pos rfl
  | link hn hnode hlast _ ih =>
    obtain ⟨more, rfl⟩ := Nat.exists_eq_add_of_le' (Nat.le_of_add_left_le hle)
    rw [follow_eq, stretch_link hn hnode hlast]
    exact ih (by omega)
  | stay hn hnode hlast =>
    exact follow_of_ends links (by rw [stretch_entry hn, hnode]; exact if_pos ⟨rfl, hlast⟩)

/-- **Every way found is a way**, of no more links than there are. The bound
is on the links of the whole way, those inside links included. -/
theorem leads_of_follow {links : Nat} {place : Location} {names : List Text} {found : Place}
    (h : follow d followLast links place names = .ok found) :
    ∃ needed, needed ≤ links ∧ d.Leads followLast place names needed found := by
  -- following a link uses up a link and may add names, so links are counted first
  induction links using Nat.strong_induction_on generalizing place names with
  | _ links hlinks =>
  induction names generalizing place with
  | nil =>
    have he : Place.present place = found := by simpa [follow_eq, stretch] using h
    exact ⟨0, Nat.zero_le _, he ▸ .nil place⟩
  | cons name rest ih =>
    by_cases hhere : name = [] ∨ name = Path.here
    · rw [follow_congr links (stretch_skip hhere)] at h
      obtain ⟨needed, hle, hw⟩ := ih h
      exact ⟨needed, hle, .skip hhere hw⟩
    by_cases habove : name = Path.above
    · subst habove
      rw [follow_congr links stretch_up] at h
      obtain ⟨needed, hle, hw⟩ := ih h
      exact ⟨needed, hle, .up hw⟩
    -- what is left is the name of an entry, if it is short enough
    by_cases hlong : maxNameLength < byteLength name
    · rw [follow_eq, stretch, if_neg hhere, if_neg habove, if_pos hlong] at h
      cases h
    have hn : IsEntry name := ⟨hhere, habove, hlong⟩
    match hnode : d.node? (place ++ [name]) with
    | none =>
      rw [follow_eq, stretch_entry hn, hnode] at h
      by_cases hr : rest = []
      · subst hr
        cases h
        exact ⟨0, Nat.zero_le _, .absent hn hnode⟩
      · simp [hr] at h
    | some .directory =>
      have hs : stretch d followLast place (name :: rest)
          = stretch d followLast (place ++ [name]) rest := by
        rw [stretch_entry hn, hnode]
      rw [follow_congr links hs] at h
      obtain ⟨needed, hle, hw⟩ := ih h
      exact ⟨needed, hle, .down hn hnode hw⟩
    | some (.file bytes) =>
      rw [follow_eq, stretch_entry hn, hnode] at h
      by_cases hr : rest = []
      · subst hr
        cases h
        exact ⟨0, Nat.zero_le _, .file hn hnode⟩
      · simp [hr] at h
    | some (.link target) =>
      by_cases hlast : rest = [] ∧ followLast = false
      · obtain ⟨rfl, rfl⟩ := hlast
        rw [follow_eq, stretch_entry hn, hnode] at h
        cases h
        exact ⟨0, Nat.zero_le _, .stay hn hnode rfl⟩
      · rw [follow_eq, stretch_link hn hnode hlast] at h
        cases links with
        | zero => cases h
        | succ links =>
          obtain ⟨needed, hle, hw⟩ := hlinks links (Nat.lt_succ_self _) h
          exact ⟨needed + 1, Nat.succ_le_succ hle, .link hn hnode hlast hw⟩

/-- **The place that is located** is where a way leads that is not too
long. -/
theorem locate_eq_ok_iff {path : Text} {found : Place} :
    d.locate followLast path = .ok found
      ↔ ('\x00' ∉ path ∧ path ≠ [] ∧ byteLength path < pathLimit)
        ∧ ∃ links, links ≤ maxLinks
          ∧ d.Leads followLast (d.start path) (Path.names path) links found := by
  have hf : (follow d followLast maxLinks (d.start path) (Path.names path)).mapError
        (DiskError.refused · path) = .ok found
      ↔ follow d followLast maxLinks (d.start path) (Path.names path) = .ok found := by
    cases follow d followLast maxLinks (d.start path) (Path.names path) <;> simp [Except.mapError]
  rw [locate]
  split
  next h => simp [h]
  next hnull =>
    split
    next h => simp [h]
    next hne =>
      split
      next h => simp [Nat.not_lt.2 h]
      next hlong =>
        rw [hf]
        exact ⟨fun h => ⟨⟨hnull, hne, Nat.not_le.1 hlong⟩, leads_of_follow h⟩,
          fun ⟨_, _, hle, h⟩ => follow_of_leads h hle⟩

/-! ## What is found

Whatever a way ends at is in the tree: something that stands there, or a name
that could. -/

/-- Names that can be read: no slash and no null character is in them. -/
def Readable (names : List Text) : Prop := ∀ name ∈ names, '/' ∉ name ∧ '\x00' ∉ name

theorem readable_names {path : Text} (h : '\x00' ∉ path) : Readable (Path.names path) :=
  fun name hn => ⟨Path.no_slash_of_mem_names name hn,
    fun h0 => h (Path.mem_of_mem_names name hn h0)⟩

theorem Readable.append {names names' : List Text} (h : Readable names) (h' : Readable names') :
    Readable (names ++ names') := fun name hn => (List.mem_append.1 hn).elim (h name) (h' name)

theorem Readable.tail {name : Text} {names : List Text} (h : Readable (name :: names)) :
    Readable names := fun other hn => h other (List.mem_cons_of_mem _ hn)

/-- The name of an entry can be a name. -/
theorem IsEntry.isName {name : Text} {names : List Text} (hn : IsEntry name)
    (h : Readable (name :: names)) : Path.IsName name :=
  ⟨fun he => hn.ne_here (Or.inl he), fun he => hn.ne_here (Or.inr he), hn.ne_above,
    (h name List.mem_cons_self).1, (h name List.mem_cons_self).2⟩

/-- A name that can be one and is short enough is that of an entry. -/
theorem IsEntry.of_isName {name : Text} (h : Path.IsName name)
    (hs : byteLength name ≤ maxNameLength) : IsEntry name :=
  ⟨not_or.2 ⟨h.ne_nil, h.ne_here⟩, h.ne_above, Nat.not_lt.2 hs⟩

/-- The directory that a link's target is read from is there. -/
theorem node?_linkStart {place : Location} (target : Text)
    (h : d.node? place = some .directory) : d.node? (linkStart place target) = some .directory := by
  rw [linkStart]
  split
  · rfl
  · exact h

/-- **A way from a directory finds what it says.** -/
theorem Leads.isIn (hd : d.IsTree) {place : Location} {names : List Text} {links : Nat}
    {found : Place} (h : d.Leads followLast place names links found)
    (hp : d.node? place = some .directory) (hn : Readable names) : found.IsIn d := by
  induction h with
  | nil place => exact ⟨_, hp⟩
  | skip _ _ ih => exact ih hp hn.tail
  | up _ ih => exact ih (hd.directory_of_node? hp) hn.tail
  | down _ hnode _ ih => exact ih hnode hn.tail
  | file _ hnode => exact ⟨_, hnode⟩
  | absent he hnode => exact ⟨hp, he.isName hn, hnode⟩
  | link _ hnode _ _ ih =>
    exact ih (node?_linkStart _ hp) ((readable_names (hd.no_null_of_link hnode)).append hn.tail)
  | stay _ hnode _ => exact ⟨_, hnode⟩

theorem IsTree.node?_start (hd : d.IsTree) (path : Text) :
    d.node? (d.start path) = some .directory := by
  rw [start]
  split
  · rfl
  · exact hd.working

/-- **What is located is there**, or is a free name in a directory. -/
theorem isIn_of_locate (hd : d.IsTree) {path : Text} {found : Place}
    (h : d.locate followLast path = .ok found) : found.IsIn d := by
  obtain ⟨⟨hnull, _, _⟩, _, _, hw⟩ := locate_eq_ok_iff.1 h
  exact hw.isIn hd (hd.node?_start path) (readable_names hnull)

/-- What is found has a location written with names. -/
theorem Place.IsIn.isProper (hd : d.IsTree) {found : Place} (h : found.IsIn d) :
    Path.IsProper found.location := by
  cases found with
  | present place => exact hd.isProper h.choose_spec
  | absent directory name =>
    refine (hd.isProper h.1).append fun other ho => ?_
    rw [List.mem_singleton.1 ho]
    exact h.2.1

/-! ## One way only

Each rule applies to names that begin otherwise or to entries of another
kind, so the last step of a way tells the rule. -/

section Inversion

variable {place : Location} {name : Text} {rest : List Text} {links : Nat} {found : Place}

theorem Leads.of_skip (h : d.Leads followLast place (name :: rest) links found)
    (hn : name = [] ∨ name = Path.here) : d.Leads followLast place rest links found := by
  cases h with
  | skip _ h => exact h
  | up h => exact absurd hn (by decide)
  | down he | file he | absent he | link he | stay he => exact absurd hn he.ne_here

theorem Leads.of_up (h : d.Leads followLast place (Path.above :: rest) links found) :
    d.Leads followLast place.dropLast rest links found := by
  cases h with
  | skip hn _ => exact absurd hn (by decide)
  | up h => exact h
  | down he | file he | absent he | link he | stay he => exact absurd rfl he.ne_above

/-- Any other name that leads somewhere is that of an entry. -/
theorem Leads.isEntry (h : d.Leads followLast place (name :: rest) links found)
    (hhere : ¬(name = [] ∨ name = Path.here)) (habove : name ≠ Path.above) : IsEntry name := by
  cases h with
  | skip hn _ => exact absurd hn hhere
  | up _ => exact absurd rfl habove
  | down he | file he | absent he | link he | stay he => exact he

/-- **What the name of an entry leads to** depends on what stands there. -/
theorem Leads.of_entry (h : d.Leads followLast place (name :: rest) links found)
    (hn : IsEntry name) :
    match d.node? (place ++ [name]) with
    | none => rest = [] ∧ links = 0 ∧ found = .absent place name
    | some .directory => d.Leads followLast (place ++ [name]) rest links found
    | some (.file _) => rest = [] ∧ links = 0 ∧ found = .present (place ++ [name])
    | some (.link target) =>
      if rest = [] ∧ followLast = false then links = 0 ∧ found = .present (place ++ [name])
      else ∃ after, links = after + 1
        ∧ d.Leads followLast (linkStart place target) (Path.names target ++ rest) after found := by
  cases h with
  | skip hhere _ => exact absurd hhere hn.ne_here
  | up _ => exact absurd rfl hn.ne_above
  | down _ hnode h => rwa [hnode]
  | file _ hnode =>
    rw [hnode]
    exact ⟨rfl, rfl, rfl⟩
  | absent _ hnode =>
    rw [hnode]
    exact ⟨rfl, rfl, rfl⟩
  | link _ hnode hlast h =>
    rw [hnode]
    exact (if_neg hlast).mpr ⟨_, rfl, h⟩
  | stay _ hnode hlast =>
    rw [hnode]
    exact (if_pos ⟨rfl, hlast⟩).mpr ⟨rfl, rfl⟩

end Inversion

/-- **Names lead one way only**: to one place, and over so many links. By
induction on the way, since each step is told by the name and what stands
there. -/
theorem Leads.unique {place : Location} {names : List Text} {links links' : Nat}
    {found found' : Place} (h : d.Leads followLast place names links found)
    (h' : d.Leads followLast place names links' found') : links = links' ∧ found = found' := by
  induction h generalizing links' with
  | nil place =>
    cases h'
    exact ⟨rfl, rfl⟩
  | skip hhere _ ih => exact ih (h'.of_skip hhere)
  | up _ ih => exact ih h'.of_up
  | down hn hnode _ ih =>
    have he := h'.of_entry hn
    rw [hnode] at he
    exact ih he
  | file hn hnode | absent hn hnode =>
    have he := h'.of_entry hn
    rw [hnode] at he
    exact ⟨he.2.1.symm, he.2.2.symm⟩
  | link hn hnode hlast _ ih =>
    have he := h'.of_entry hn
    rw [hnode] at he
    obtain ⟨after, rfl, hw⟩ := (if_neg hlast).mp he
    exact (ih hw).imp (congrArg (· + 1)) id
  | stay hn hnode hlast =>
    have he := h'.of_entry hn
    rw [hnode] at he
    have he := (if_pos ⟨rfl, hlast⟩).mp he
    exact ⟨he.1.symm, he.2.symm⟩

/-- **A way can be cut at any of its names** but the last: the names before
lead to something, and those after lead on from there. On a tree, a way that
begins in a directory is cut in one. -/
theorem Leads.split {place : Location} {first rest : List Text} {links : Nat} {found : Place}
    (h : d.Leads followLast place (first ++ rest) links found) (hr : rest ≠ []) :
    ∃ middle before after, d.Leads true place first before (.present middle)
      ∧ d.Leads followLast middle rest after found ∧ links = before + after
      ∧ (d.IsTree → d.node? place = some .directory → d.node? middle = some .directory) := by
  induction links using Nat.strong_induction_on generalizing place first with
  | _ links hlinks =>
  induction first generalizing place with
  | nil => exact ⟨place, 0, links, .nil place, h, (Nat.zero_add _).symm, fun _ hp => hp⟩
  | cons name first ih =>
    have hmore : first ++ rest ≠ [] := List.append_ne_nil_of_right_ne_nil first hr
    rw [List.cons_append] at h
    generalize hall : first ++ rest = others at h hmore
    cases h with
    | skip hn h =>
      subst hall
      obtain ⟨middle, before, after, hb, ha, he, hmiddle⟩ := ih h
      exact ⟨middle, before, after, .skip hn hb, ha, he, hmiddle⟩
    | up h =>
      subst hall
      obtain ⟨middle, before, after, hb, ha, he, hmiddle⟩ := ih h
      exact ⟨middle, before, after, .up hb, ha, he,
        fun hd hp => hmiddle hd (hd.directory_of_node? hp)⟩
    | down hn hnode h =>
      subst hall
      obtain ⟨middle, before, after, hb, ha, he, hmiddle⟩ := ih h
      exact ⟨middle, before, after, .down hn hnode hb, ha, he, fun hd _ => hmiddle hd hnode⟩
    | file hn hnode => exact absurd rfl hmore
    | absent hn hnode => exact absurd rfl hmore
    | @link _ _ target _ links _ hn hnode hlast h =>
      subst hall
      -- the names of the target come before the cut as well
      rw [← List.append_assoc] at h
      obtain ⟨middle, before, after, hb, ha, rfl, hmiddle⟩ := hlinks links (Nat.lt_succ_self _) h
      exact ⟨middle, before + 1, after, .link hn hnode (by simp) hb, ha, by omega,
        fun hd hp => hmiddle hd (node?_linkStart target hp)⟩
    | stay hn hnode hlast => exact absurd rfl hmore

/-! ## Locations without links

On such a location every name goes down by one. -/

/-- **No link stands at a location or above it.** Such a location is reached
by its own names. -/
def LinkFree (d : Disk) (place : Location) : Prop :=
  ∀ above, above <+: place → ∀ target, d.node? above ≠ some (.link target)

theorem LinkFree.of_prefix {place other : Location} (h : d.LinkFree other) (hp : place <+: other) :
    d.LinkFree place := fun _ ha => h _ (ha.trans hp)

theorem linkFree_nil : d.LinkFree [] := by
  intro above ha target
  rw [List.prefix_nil.1 ha]
  exact fun h => nomatch h

/-- A name that is not that of a link goes on without links. -/
theorem LinkFree.concat {place : Location} (h : d.LinkFree place) {name : Text}
    (hnode : ∀ target, d.node? (place ++ [name]) ≠ some (.link target)) :
    d.LinkFree (place ++ [name]) := by
  intro above ha
  rcases List.prefix_concat_iff.1 ha with rfl | ha
  · exact hnode
  · exact h above ha

/-- **Names of a location without links lead to that location**, and they are
short enough. -/
theorem Leads.eq_of_linkFree {place : Location} {names : List Text} {links : Nat} {found : Place}
    (h : d.Leads followLast place names links found) (hn : Path.IsProper names)
    (hf : d.LinkFree (place ++ names)) :
    links = 0 ∧ found.location = place ++ names
      ∧ ∀ name ∈ names, byteLength name ≤ maxNameLength := by
  induction names generalizing place with
  | nil =>
    cases h
    exact ⟨rfl, (List.append_nil _).symm, by simp⟩
  | cons name rest ih =>
    have hname := hn name List.mem_cons_self
    have hrest : Path.IsProper rest := fun other ho => hn other (List.mem_cons_of_mem _ ho)
    have hassoc : place ++ name :: rest = (place ++ [name]) ++ rest := by simp
    have hlink : ∀ target, d.node? (place ++ [name]) ≠ some (.link target) :=
      hf _ (hassoc ▸ List.prefix_append _ _)
    cases h with
    | skip hhere _ => exact absurd hhere (not_or.2 ⟨hname.ne_nil, hname.ne_here⟩)
    | up _ => exact absurd rfl hname.ne_above
    | down he _ h =>
      obtain ⟨hl, hloc, hs⟩ := ih h hrest (hassoc ▸ hf)
      refine ⟨hl, hassoc ▸ hloc, List.forall_mem_cons.2 ⟨Nat.not_lt.1 he.short, hs⟩⟩
    | file he _ | absent he _ => exact ⟨rfl, rfl, by simpa using Nat.not_lt.1 he.short⟩
    | link _ hnode | stay _ hnode => exact absurd hnode (hlink _)

/-- **Short names lead to what stands at a location without links.** -/
theorem leads_of_node? (hd : d.IsTree) {place : Location} {names : List Text} {node : Node}
    (hn : Path.IsProper names) (hs : ∀ name ∈ names, byteLength name ≤ maxNameLength)
    (hnode : d.node? (place ++ names) = some node) (hlink : ∀ target, node ≠ .link target) :
    d.Leads followLast place names 0 (.present (place ++ names)) := by
  induction names generalizing place with
  | nil =>
    rw [List.append_nil]
    exact .nil place
  | cons name rest ih =>
    rw [List.forall_mem_cons] at hs
    have he : IsEntry name := .of_isName (hn name List.mem_cons_self) hs.1
    have hassoc : place ++ name :: rest = (place ++ [name]) ++ rest := by simp
    by_cases hr : rest = []
    · subst hr
      match node, hnode with
      | .file bytes, hnode => exact .file he hnode
      | .directory, hnode => exact .down he hnode (.nil _)
      | .link target, _ => exact absurd rfl (hlink target)
    · have hdir : d.node? (place ++ [name]) = some .directory :=
        hd.directory_of_prefix hnode (hassoc ▸ List.prefix_append _ _) (by simpa using Ne.symm hr)
      rw [hassoc] at hnode ⊢
      exact .down he hdir (ih (fun other ho => hn other (List.mem_cons_of_mem _ ho)) hs.2 hnode)

end EditBlocks.Disk
