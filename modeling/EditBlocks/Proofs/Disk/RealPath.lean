import EditBlocks.Containment
import EditBlocks.Proofs.Disk.Growth

/-!
# Reading a path's names

What `Disk.realPath` keeps while it reads one name after the other. It asks
the disk for its links only, so it gives the same while the disk grows
(`Disk.Grows.realPath`, `Disk.Grows.resolve`). And a path that it reads
through (`Disk.isReadThrough`) stands for a location without links
(`Disk.realPath_of_isReadThrough`). Where it gives up on a link that leads to
itself, what it gives may still have links in it.

Reading goes by depth first: a link's target is read to its end, by a call of
its own, before the next name is. So what is shown of names at one depth is
shown with an arbitrary reader for the next one (`Disk.readNames`), which
keeps the two recursions apart.

That trails stay without links is kept by any reader of targets that keeps it
(`Disk.Settles`), and so by reading to any depth.
-/

namespace EditBlocks.Disk

variable {d d' : Disk} {descend : Seen → Trail → List Text → Resolution}

/-! ## One name at a time

Four rules, for the names that stay where they are, that go up, that go down
to no link and to a link. -/

section Equations

variable {seen : Seen} {trail : Trail} {name target : Text} {rest : List Text}

theorem readNames_skip (hn : name = [] ∨ name = Path.here) :
    readNames d descend seen trail (name :: rest) = readNames d descend seen trail rest := by
  rw [readNames, if_pos hn]

theorem readNames_up :
    readNames d descend seen trail (Path.above :: rest)
      = readNames d descend seen trail.up rest := by
  rw [readNames, if_neg (by decide), if_pos rfl]

/-- A name without a null character that is that of something. -/
structure IsStep (name : Text) : Prop where
  ne_here : ¬(name = [] ∨ name = Path.here)
  ne_above : name ≠ Path.above
  no_null : '\x00' ∉ name

theorem readNames_down (hn : IsStep name)
    (hnode : ∀ target, d.node? ((trail.down name).location d.workingDir) ≠ some (.link target)) :
    readNames d descend seen trail (name :: rest)
      = readNames d descend seen (trail.down name) rest := by
  rw [readNames, if_neg hn.ne_here, if_neg hn.ne_above, if_neg hn.no_null]
  dsimp only
  split
  next target h => exact absurd h (hnode target)
  · rfl

theorem readNames_link (hn : IsStep name)
    (hnode : d.node? ((trail.down name).location d.workingDir) = some (.link target)) :
    readNames d descend seen trail (name :: rest) =
      match seen.find? fun e => e.1 = trail.down name with
      | some (_, some known) => readNames d descend seen known rest
      | some (_, none) => .stuck (leave (trail.down name).toPath rest)
      | none =>
        match descend ((trail.down name, none) :: seen)
            (if Path.isAbsolute target then Trail.root else trail) (Path.names target) with
        | .done found seen =>
          readNames d descend ((trail.down name, some found) :: seen) found rest
        | .stuck path => .stuck (leave path rest)
        | .nullByte => .nullByte
        | .tooDeep => .tooDeep := by
  rw [readNames, if_neg hn.ne_here, if_neg hn.ne_above, if_neg hn.no_null]
  dsimp only
  split
  next found h =>
    cases hnode.symm.trans h
    rfl
  next h => exact absurd hnode (h target)

end Equations

/-! ## What stays while a disk grows

An induction on the depth and one on the names, neither of which looks at
anything but links. -/

theorem Grows.readNames (hg : d.Grows d') (seen : Seen) (trail : Trail) (names : List Text) :
    Disk.readNames d' descend seen trail names = Disk.readNames d descend seen trail names := by
  induction names generalizing seen trail with
  | nil => rfl
  | cons name rest ih =>
    by_cases hhere : name = [] ∨ name = Path.here
    · rw [readNames_skip hhere, readNames_skip hhere, ih]
    by_cases habove : name = Path.above
    · subst habove
      rw [readNames_up, readNames_up, ih]
    by_cases hnull : '\x00' ∈ name
    · rw [Disk.readNames, Disk.readNames, if_neg hhere, if_neg hhere, if_neg habove, if_neg habove,
        if_pos hnull, if_pos hnull]
    have hn : IsStep name := ⟨hhere, habove, hnull⟩
    by_cases hlink : ∃ target, d.node? ((trail.down name).location d.workingDir)
        = some (.link target)
    · obtain ⟨target, hnode⟩ := hlink
      have hnode' := (hg.link _ _).2 hnode
      rw [← hg.workingDir] at hnode'
      rw [readNames_link hn hnode, readNames_link hn hnode']
      simp only [ih]
    · rw [readNames_down hn (not_exists.1 hlink), readNames_down hn, ih]
      intro target hnode
      rw [hg.workingDir] at hnode
      exact hlink ⟨target, (hg.link _ _).1 hnode⟩

theorem Grows.readDeep (hg : d.Grows d') (depth : Nat) :
    Disk.readDeep d' depth = Disk.readDeep d depth := by
  induction depth with
  | zero => rfl
  | succ depth ih =>
    funext seen trail names
    rw [Disk.readDeep, Disk.readDeep, ih]
    exact hg.readNames seen trail names

/-- **The path without links stays the same** while a disk grows. Reading
asks for links only, and no link comes or goes. -/
theorem Grows.realPath [Nesting] (hg : d.Grows d') (path : Text) :
    d'.realPath path = d.realPath path := by
  unfold Disk.realPath Disk.workingPath
  rw [hg.readDeep, hg.workingDir]

/-- **So does the path that an edit's path stands for.** -/
theorem Grows.resolve [Nesting] (hg : d.Grows d') (root path : Text) (exclude : List Value) :
    d'.resolve root path exclude = d.resolve root path exclude := by
  unfold Disk.resolve Disk.realPathFor
  simp only [hg.realPath]

/-! ## Reading to the end

A trail is settled when no link is on its way. Reading keeps trails settled,
and so it does with what it remembers of links. -/

/-- **A trail without links**, from the root. -/
structure Trail.IsSettled (d : Disk) (trail : Trail) : Prop where
  absolute : trail.absolute = true
  proper : Path.IsProper trail.names
  linkFree : d.LinkFree trail.names

theorem Trail.isSettled_root : Trail.root.IsSettled d :=
  ⟨rfl, List.forall_mem_nil _, linkFree_nil⟩

theorem Trail.IsSettled.up {trail : Trail} (h : trail.IsSettled d) : trail.up.IsSettled d := by
  unfold Trail.up
  split
  · exact ⟨h.absolute, h.proper.dropLast, h.linkFree.of_prefix (List.dropLast_prefix _)⟩
  · rw [if_pos h.absolute]
    exact h

theorem Trail.IsSettled.down {trail : Trail} (h : trail.IsSettled d) {name : Text}
    (hname : Path.IsName name)
    (hnode : ∀ target, d.node? (trail.names ++ [name]) ≠ some (.link target)) :
    (trail.down name).IsSettled d := by
  refine ⟨h.absolute, h.proper.append fun other ho => ?_, h.linkFree.concat hnode⟩
  rw [List.mem_singleton.1 ho]
  exact hname

theorem Trail.location_of_absolute {trail : Trail} (h : trail.absolute = true)
    (workingDir : Location) : trail.location workingDir = trail.names := by
  rw [Trail.location, if_pos h]

/-- What the links met so far are known to lead to has no links. -/
def Seen.IsSettled (d : Disk) (seen : Seen) : Prop :=
  ∀ e ∈ seen, ∀ known, e.2 = some known → known.IsSettled d

theorem Seen.isSettled_nil : Seen.IsSettled d [] := List.forall_mem_nil _

theorem Seen.IsSettled.cons {seen : Seen} (h : seen.IsSettled d) {trail known : Trail}
    (hk : known.IsSettled d) : Seen.IsSettled d ((trail, some known) :: seen) := by
  intro e he found hf
  rcases List.mem_cons.1 he with rfl | he
  · exact Option.some.inj hf ▸ hk
  · exact h e he found hf

theorem Seen.IsSettled.cons_none {seen : Seen} (h : seen.IsSettled d) (trail : Trail) :
    Seen.IsSettled d ((trail, none) :: seen) := by
  intro e he found hf
  rcases List.mem_cons.1 he with rfl | he
  · exact nomatch hf
  · exact h e he found hf

/-- How names are read keeps to trails without links. -/
def Settles (d : Disk) (read : Seen → Trail → List Text → Resolution) : Prop :=
  ∀ seen trail names, seen.IsSettled d → trail.IsSettled d → (∀ name ∈ names, '/' ∉ name) →
    ∀ found seen', read seen trail names = .done found seen' →
      found.IsSettled d ∧ seen'.IsSettled d

/-- One name after the other, reading keeps to trails without links. -/
theorem settles_readNames (hdescend : Settles d descend) : Settles d (readNames d descend) := by
  intro seen trail names hseen htrail hnames found seen' h
  induction names generalizing seen trail with
  | nil =>
    cases h
    exact ⟨htrail, hseen⟩
  | cons name rest ih =>
    rw [List.forall_mem_cons] at hnames
    by_cases hhere : name = [] ∨ name = Path.here
    · rw [readNames_skip hhere] at h
      exact ih seen trail hseen htrail hnames.2 h
    by_cases habove : name = Path.above
    · subst habove
      rw [readNames_up] at h
      exact ih seen trail.up hseen htrail.up hnames.2 h
    by_cases hnull : '\x00' ∈ name
    · rw [readNames, if_neg hhere, if_neg habove, if_pos hnull] at h
      cases h
    have hn : IsStep name := ⟨hhere, habove, hnull⟩
    have hname : Path.IsName name :=
      ⟨fun he => hhere (Or.inl he), fun he => hhere (Or.inr he), habove, hnames.1, hnull⟩
    have hdown : (trail.down name).absolute = true := htrail.absolute
    have hlocation : (trail.down name).location d.workingDir = trail.names ++ [name] :=
      Trail.location_of_absolute hdown _
    -- only what links lead to can bring in a link, and that has been read itself
    by_cases hlink : ∃ target, d.node? (trail.names ++ [name]) = some (.link target)
    · obtain ⟨target, hnode⟩ := hlink
      rw [readNames_link hn (hlocation ▸ hnode)] at h
      match hknown : seen.find? fun e => e.1 = trail.down name with
      | some (_, some known) =>
        rw [hknown] at h
        have hk := hseen _ (List.mem_of_find?_eq_some hknown) known rfl
        exact ih seen known hseen hk hnames.2 h
      | some (_, none) =>
        rw [hknown] at h
        cases h
      | none =>
        rw [hknown] at h
        have horigin : Trail.IsSettled d
            (if Path.isAbsolute target then Trail.root else trail) := by
          split
          · exact Trail.isSettled_root
          · exact htrail
        match hread : descend ((trail.down name, none) :: seen)
            (if Path.isAbsolute target then Trail.root else trail) (Path.names target) with
        | .done middle seen₁ =>
          rw [hread] at h
          obtain ⟨hmiddle, hseen₁⟩ := hdescend _ _ _ (hseen.cons_none _) horigin
            Path.no_slash_of_mem_names _ _ hread
          exact ih _ middle (hseen₁.cons hmiddle) hmiddle hnames.2 h
        | .stuck path =>
          rw [hread] at h
          cases h
        | .nullByte | .tooDeep =>
          rw [hread] at h
          cases h
    · rw [readNames_down hn (hlocation ▸ not_exists.1 hlink)] at h
      exact ih seen _ hseen (htrail.down hname (not_exists.1 hlink)) hnames.2 h

/-- So does reading to any depth. -/
theorem settles_readDeep (depth : Nat) : Settles d (readDeep d depth) := by
  induction depth with
  | zero =>
    intro seen trail names _ _ _ found seen' h
    cases h
  | succ depth ih => exact settles_readNames ih

variable [Nesting]

/-- There is room to read the names of a path. -/
theorem exists_links_eq : ∃ depth, Nesting.links = depth + 1 :=
  Nat.exists_eq_add_one_of_ne_zero
    (Nat.ne_of_gt (Nat.zero_lt_of_lt Nesting.maxLinks_lt_links))

/-- **Whether a path is read through**: no link on it leads to itself, and
there is room for the links that are read inside others. -/
def isReadThrough (d : Disk) (path : Text) : Bool :=
  match readDeep d Nesting.links [] (if Path.isAbsolute path then .root else .working)
      (Path.names path) with
  | .done _ _ => true
  | _ => false

theorem Grows.isReadThrough (hg : d.Grows d') (path : Text) :
    d'.isReadThrough path = d.isReadThrough path := by
  unfold Disk.isReadThrough
  rw [hg.readDeep]

omit [Nesting] in
/-- A path from the root is not read from the working directory. -/
theorem join_ofLocation_right (directory : Text) (place : Location) :
    Path.join directory (Path.ofLocation place) = Path.ofLocation place := by
  rw [Path.join, Path.isAbsolute_ofLocation, if_pos rfl]

/-- **A path that is read through stands for a location without links.** So
to open what it stands for no link has to be followed. -/
theorem realPath_of_isReadThrough {path : Text} (habs : Path.isAbsolute path = true)
    (h : d.isReadThrough path = true) :
    ∃ place, d.realPath path = .ok (Path.ofLocation place) ∧ Path.IsProper place
      ∧ d.LinkFree place := by
  unfold isReadThrough at h
  rw [habs, if_pos rfl] at h
  match hread : readDeep d Nesting.links [] .root (Path.names path) with
  | .done trail seen =>
    obtain ⟨hs, -⟩ := settles_readDeep _ _ _ _ Seen.isSettled_nil Trail.isSettled_root
      Path.no_slash_of_mem_names _ _ hread
    refine ⟨trail.names, ?_, hs.proper, hs.linkFree⟩
    have hpath : trail.toPath = Path.ofLocation trail.names := by
      rw [Trail.toPath, if_pos hs.absolute]
    unfold Disk.realPath
    rw [habs, if_pos rfl]
    dsimp only
    rw [hread]
    dsimp only
    rw [hpath, join_ofLocation_right, Path.normalize_ofLocation hs.proper]
  | .stuck path =>
    rw [hread] at h
    cases h
  | .nullByte | .tooDeep =>
    rw [hread] at h
    cases h

end EditBlocks.Disk
