import EditBlocks.Proofs.Disk.Access

/-!
# Directories that are there

A path that leads somewhere goes through directories: what stands before one
of its slashes leads to one (`Disk.locate_of_slash`). And to make a directory
that is there does nothing, however its path is written
(`Disk.makeDirectories_of_isDirectory`): the directory above it is there as
well, so only its own path is tried.

That this needs a proof is due to paths being texts. The directory part of a
path is found by its last slash, and a path may end with slashes, or with
names that go up; so the directory above is not one name less, and it is the
way to it that tells that it is there.

A run needs this where it opens its settings. Their directory is made each
time, and from the second time on it is there, so nothing is done.
-/

namespace EditBlocks

namespace Path

/-- **Slashes are dropped from the end of a path**, if there is anything
else. -/
theorem dropSlashes_cases (t : Text) :
    (∀ c ∈ t, c = '/') ∧ dropSlashes t = t
      ∨ ∃ k, t = dropSlashes t ++ List.replicate k '/' ∧ dropSlashes t ≠ []
        ∧ (dropSlashes t).getLast? ≠ some '/' := by
  unfold dropSlashes
  split
  next hall => exact Or.inl ⟨by simpa using hall, rfl⟩
  next hall =>
    have hdrop : t.reverse.dropWhile (· = '/') ≠ [] := by
      simpa [List.dropWhile_eq_nil_iff] using hall
    refine Or.inr ⟨(t.reverse.takeWhile (· = '/')).length, ?_, by simpa using hdrop, ?_⟩
    · have hsame : t.reverse.takeWhile (· = '/')
          = List.replicate (t.reverse.takeWhile (· = '/')).length '/' :=
        List.eq_replicate_of_mem fun c hc => by simpa using List.mem_takeWhile_imp hc
      have ht := congrArg List.reverse
        (List.takeWhile_append_dropWhile (p := (· = '/')) (l := t.reverse))
      rw [List.reverse_append, List.reverse_reverse, hsame, List.reverse_replicate] at ht
      exact ht.symm
    · rw [List.getLast?_reverse]
      intro hhead
      have hnot := List.head?_dropWhile_not (· = '/') t.reverse
      rw [hhead] at hnot
      simp at hnot

theorem dropSlashes_of_getLast? {t : Text} (h : t.getLast? ≠ some '/') : dropSlashes t = t := by
  rcases dropSlashes_cases t with ⟨-, hsame⟩ | ⟨k, hk, -, -⟩
  · exact hsame
  · cases k with
    | zero => rw [List.replicate_zero, List.append_nil] at hk; exact hk.symm
    | succ k =>
      rw [List.replicate_succ', ← List.append_assoc] at hk
      exact absurd (hk ▸ List.getLast?_concat) h

/-- **A path is cut after a slash** when it is split. -/
theorem split_eq (path : Text) :
    ∃ front, path = front ++ (split path).2 ∧ (split path).1 = dropSlashes front
      ∧ (front = [] ∨ front.getLast? = some '/') := by
  have hpath := congrArg List.reverse
    (List.takeWhile_append_dropWhile (p := (· ≠ '/')) (l := path.reverse))
  rw [List.reverse_append, List.reverse_reverse] at hpath
  refine ⟨(path.reverse.dropWhile (· ≠ '/')).reverse, hpath.symm, ?_, ?_⟩
  · have hlength := congrArg List.length hpath
    rw [List.length_append] at hlength
    exact congrArg dropSlashes
      ((congrArg (List.take _) hpath.symm).trans (List.take_left' (by omega)))
  · rw [List.getLast?_reverse, List.reverse_eq_nil_iff]
    cases hrest : path.reverse.dropWhile (· ≠ '/') with
    | nil => exact Or.inl rfl
    | cons c rest =>
      have hnot := List.head?_dropWhile_not (· ≠ '/') path.reverse
      rw [hrest] at hnot
      exact Or.inr (by simpa using hnot)

theorem not_mem_split (path : Text) : '/' ∉ (split path).2 := fun hmem => by
  have hname := List.mem_takeWhile_imp (List.mem_reverse.1 hmem)
  exact absurd rfl (of_decide_eq_true hname)

/-- The directory part of a path is what stands before one of its slashes. -/
theorem splitDirectory_eq (path : Text) :
    ∃ front more, path = front ++ more ∧ (Disk.splitDirectory path).1 = dropSlashes front
      ∧ (front = [] ∨ front.getLast? = some '/') := by
  obtain ⟨front, hpath, hhead, hlast⟩ := split_eq path
  unfold Disk.splitDirectory
  split
  next head hsplit =>
    -- the path ends with slashes, which do not count
    rw [hsplit] at hpath hhead
    change head = dropSlashes front at hhead
    obtain ⟨inner, hinner, hhead', hlast'⟩ := split_eq head
    rw [List.append_nil] at hpath
    have hslashes : ∃ k, path = head ++ List.replicate k '/' := by
      rcases dropSlashes_cases front with ⟨-, hsame⟩ | ⟨k, hk, -⟩
      · exact ⟨0, by rw [hpath, hhead, hsame]; exact (List.append_nil _).symm⟩
      · exact ⟨k, by rw [hpath, hhead]; exact hk⟩
    obtain ⟨k, hk⟩ := hslashes
    refine ⟨inner, (split head).2 ++ List.replicate k '/', ?_, hhead', hlast'⟩
    rw [← List.append_assoc, ← hinner]
    exact hk
  · exact ⟨front, _, hpath, hhead, hlast⟩

end Path

namespace Disk

variable {d d' : Disk} {followLast : Bool} {path front more : Text} {place : Location}
  {found : Place}

theorem byteLength_append (t u : Text) : byteLength (t ++ u) = byteLength t + byteLength u := by
  induction t with
  | nil => exact (Nat.zero_add _).symm
  | cons c t ih => rw [List.cons_append, byteLength, byteLength, ih, Nat.add_assoc]

/-- **A way goes on** from the directory that it leads to. -/
theorem Leads.trans {middle : Location} {first rest : List Text} {before after : Nat}
    (h : d.Leads true place first before (.present middle))
    (hmiddle : d.node? middle = some .directory)
    (h' : d.Leads true middle rest after found) :
    d.Leads true place (first ++ rest) (before + after) found := by
  generalize hpresent : Place.present middle = there at h
  induction h with
  | nil place =>
    cases hpresent
    rwa [Nat.zero_add]
  | skip hn _ ih => exact .skip hn (ih hpresent)
  | up _ ih => exact .up (ih hpresent)
  | down hn hnode _ ih => exact .down hn hnode (ih hpresent)
  | file hn hnode =>
    cases hpresent
    cases hnode.symm.trans hmiddle
  | absent => cases hpresent
  | link hn hnode hlast _ ih =>
    have ih := ih hpresent
    rw [List.append_assoc] at ih
    rw [Nat.add_right_comm]
    exact .link hn hnode (by simp) ih
  | stay _ _ hlast => cases hlast

/-- What is found where the last link is followed stands behind what is found
where it is not. -/
theorem Leads.of_true {names : List Text} {links : Nat}
    (h : d.Leads true place names links found) :
    ∃ found' before, before ≤ links ∧ d.Leads false place names before found'
      ∧ ∀ there, found = .present there → ∃ there', found' = .present there' := by
  induction h with
  | nil place => exact ⟨_, 0, Nat.le_refl _, .nil place, fun _ _ => ⟨_, rfl⟩⟩
  | skip hn _ ih =>
    obtain ⟨found', before, hle, hw, hpresent⟩ := ih
    exact ⟨found', before, hle, .skip hn hw, hpresent⟩
  | up _ ih =>
    obtain ⟨found', before, hle, hw, hpresent⟩ := ih
    exact ⟨found', before, hle, .up hw, hpresent⟩
  | down hn hnode _ ih =>
    obtain ⟨found', before, hle, hw, hpresent⟩ := ih
    exact ⟨found', before, hle, .down hn hnode hw, hpresent⟩
  | file hn hnode => exact ⟨_, 0, Nat.le_refl _, .file hn hnode, fun _ _ => ⟨_, rfl⟩⟩
  | absent hn hnode => exact ⟨_, 0, Nat.le_refl _, .absent hn hnode, fun _ h => nomatch h⟩
  | @link place name target rest links found hn hnode _ _ ih =>
    by_cases hrest : rest = []
    · subst hrest
      exact ⟨_, 0, Nat.zero_le _, .stay hn hnode rfl, fun _ _ => ⟨_, rfl⟩⟩
    · obtain ⟨found', before, hle, hw, hpresent⟩ := ih
      exact ⟨found', before + 1, Nat.succ_le_succ hle,
        .link hn hnode (fun h => hrest h.1) hw, hpresent⟩
  | stay _ _ hlast => cases hlast

/-- **A path is that of a directory** when it leads to one. -/
theorem isDirectory_iff :
    d.isDirectory path = true
      ↔ ∃ middle, d.locate true path = .ok (.present middle)
        ∧ d.node? middle = some .directory := by
  rw [isDirectory, decide_eq_true_iff, lookUp?]
  match hl : d.locate true path with
  | .ok (.present middle) => simp
  | .ok (.absent directory name) => simp
  | .error e => simp

section

variable (hd : d.IsTree)

include hd

/-- **What stands before a slash of a path** leads to a directory, if the
whole path is located. Otherwise nothing after the slash could be looked
up. -/
theorem leads_of_slash (h : d.locate followLast (front ++ '/' :: more) = .ok found) :
    ∃ middle links, links ≤ maxLinks
      ∧ d.Leads true (d.start (front ++ '/' :: more)) (Path.names front) links (.present middle)
      ∧ d.node? middle = some .directory := by
  obtain ⟨-, links, hle, hw⟩ := locate_eq_ok_iff.1 h
  rw [Path.names, Text.splitOn_append] at hw
  obtain ⟨middle, before, after, hfirst, -, rfl, hmiddle⟩ := hw.split (Text.splitOn_ne_nil _ _)
  exact ⟨middle, before, (Nat.le_add_right _ _).trans hle, hfirst, hmiddle hd (hd.node?_start _)⟩

/-- It is located, with or without the slash. -/
theorem locate_of_slash (h : d.locate followLast (front ++ '/' :: more) = .ok found) :
    ∃ middle, d.node? middle = some .directory
      ∧ (front ≠ [] → d.locate true front = .ok (.present middle))
      ∧ d.locate true (front ++ ['/']) = .ok (.present middle) := by
  obtain ⟨middle, links, hle, hw, hmiddle⟩ := leads_of_slash hd h
  obtain ⟨⟨hnull, -, hlong⟩, -⟩ := locate_eq_ok_iff.1 h
  rw [byteLength_append, byteLength] at hlong
  have hone : '/'.utf8Size = 1 := rfl
  refine ⟨middle, hmiddle, fun hne => ?_, ?_⟩
  · have hstart : d.start front = d.start (front ++ '/' :: more) := by
      obtain ⟨c, t, rfl⟩ := List.exists_cons_of_ne_nil hne
      rfl
    exact locate_eq_ok_iff.2 ⟨⟨fun hn => hnull (List.mem_append_left _ hn), hne, by omega⟩, links,
      hle, hstart ▸ hw⟩
  · have hstart : d.start (front ++ ['/']) = d.start (front ++ '/' :: more) := by
      cases front <;> rfl
    have hnames : Path.names (front ++ ['/']) = Path.names front ++ [[]] :=
      Text.splitOn_append '/' front []
    refine locate_eq_ok_iff.2 ⟨⟨fun hn => hnull ?_, by simp, ?_⟩, links, hle, ?_⟩
    · rcases List.mem_append.1 hn with hn | hn
      · exact List.mem_append_left _ hn
      · exact absurd (List.mem_singleton.1 hn) (by decide)
    · rw [byteLength_append]
      have : byteLength ['/'] = 1 := rfl
      omega
    · rw [hstart, hnames]
      exact hw.trans hmiddle (.skip (Or.inl rfl) (.nil _))

/-- So is what stands before slashes, without them. -/
theorem locate_dropSlashes (h : d.locate followLast (front ++ more) = .ok found)
    (hlast : front.getLast? = some '/') :
    ∃ middle, d.node? middle = some .directory
      ∧ d.locate true (Path.dropSlashes front) = .ok (.present middle) := by
  rcases Path.dropSlashes_cases front with ⟨-, hsame⟩ | ⟨k, hk, hne, hother⟩
  · obtain ⟨t, rfl⟩ := List.getLast?_eq_some_iff.1 hlast
    rw [List.append_assoc, List.singleton_append] at h
    obtain ⟨middle, hmiddle, -, hslash⟩ := locate_of_slash hd h
    exact ⟨middle, hmiddle, hsame.symm ▸ hslash⟩
  · cases k with
    | zero =>
      rw [List.replicate_zero, List.append_nil] at hk
      exact absurd (hk ▸ hlast) hother
    | succ k =>
      rw [hk, List.append_assoc, List.replicate_succ, List.cons_append] at h
      obtain ⟨middle, hmiddle, hfront, -⟩ := locate_of_slash hd h
      exact ⟨middle, hmiddle, hfront hne⟩

/-- **A path read from a directory's path** goes through that directory. -/
theorem isDirectory_of_join (h : d.locate followLast (Path.join front path) = .ok found)
    (hne : front ≠ []) (hrelative : Path.isAbsolute path = false) : d.isDirectory front = true := by
  rw [Path.join, if_neg (by simp [hrelative])] at h
  split at h
  next hlast =>
    obtain ⟨t, rfl⟩ := List.getLast?_eq_some_iff.1 (hlast.resolve_left hne)
    rw [List.append_assoc, List.singleton_append] at h
    obtain ⟨middle, hmiddle, -, hslash⟩ := locate_of_slash hd h
    exact isDirectory_iff.2 ⟨middle, hslash, hmiddle⟩
  · obtain ⟨middle, hmiddle, hfront, -⟩ := locate_of_slash hd h
    exact isDirectory_iff.2 ⟨middle, hfront hne, hmiddle⟩

/-- A directory that is there is not made. -/
theorem makeLast_of_isDirectory (h : d.isDirectory path = true) : d.makeLast path = (d, none) := by
  obtain ⟨middle, hl⟩ :
      ∃ middle, d.locate true (Path.dropSlashes path) = .ok (.present middle) := by
    obtain ⟨middle, hl, -⟩ := isDirectory_iff.1 h
    by_cases hlast : path.getLast? = some '/'
    · rw [← List.append_nil path] at hl
      obtain ⟨middle', -, hl'⟩ := locate_dropSlashes hd hl hlast
      exact ⟨middle', hl'⟩
    · rw [Path.dropSlashes_of_getLast? hlast]
      exact ⟨middle, hl⟩
  obtain ⟨hpath, links, hle, hw⟩ := locate_eq_ok_iff.1 hl
  obtain ⟨found', before, hbefore, hw', hpresent⟩ := hw.of_true
  obtain ⟨there, rfl⟩ := hpresent middle rfl
  have hl' : d.locate false (Path.dropSlashes path) = .ok (.present there) :=
    locate_eq_ok_iff.2 ⟨hpath, before, hbefore.trans hle, hw'⟩
  have hexists : d.makeDirectory path = .error (.refused .alreadyExists path) := by
    rw [makeDirectory, hl']
  rw [makeLast, hexists]
  exact if_pos h

/-- **To make a directory that is there does nothing.** The system says that
it is there, and that is taken for success. -/
theorem makeDirectories_of_isDirectory [Nesting] (h : d.isDirectory path = true) :
    d.makeDirectories path = (d, none) := by
  obtain ⟨room, hroom⟩ := exists_makeDirectories_eq d path
  rw [hroom, makeDirectoriesFrom_succ]
  split
  · exact makeLast_of_isDirectory hd h
  next hnot =>
    -- the directory above it would have to be missing
    refine absurd (Or.inr (Or.inr ?_)) hnot
    obtain ⟨middle, hl, -⟩ := isDirectory_iff.1 h
    obtain ⟨front, more, hpath, hhead, hlast⟩ := Path.splitDirectory_eq path
    rcases hlast with rfl | hlast
    · exact absurd (Or.inl hhead) hnot
    rw [hpath] at hl
    obtain ⟨above, habove, hl'⟩ := locate_dropSlashes hd hl hlast
    rw [hhead, isThere, lookUp?, hl']
    exact Option.isSome_iff_exists.2 ⟨_, habove⟩

/-- **The directory of what a path leads to** is there, so it is not made. -/
theorem makeDirectories_parent [Nesting] (habs : Path.isAbsolute path = true)
    (h : d.locate followLast path = .ok found) :
    d.makeDirectories (Path.parent path) = (d, none) := by
  obtain ⟨front, hpath, hparent, hlast⟩ := Path.split_eq path
  have hfront : front.getLast? = some '/' := by
    refine hlast.resolve_left fun hnil => ?_
    -- without a directory part the path would be a name
    rw [hnil, List.nil_append] at hpath
    rw [hpath] at habs
    exact Path.not_mem_split path (List.mem_of_head? (of_decide_eq_true habs))
  rw [hpath] at h
  obtain ⟨middle, hmiddle, hl⟩ := locate_dropSlashes hd h hfront
  rw [Path.parent, hparent]
  exact makeDirectories_of_isDirectory hd (isDirectory_iff.2 ⟨middle, hl, hmiddle⟩)

end

end Disk

end EditBlocks
