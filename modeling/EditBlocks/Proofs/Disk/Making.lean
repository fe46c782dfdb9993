import EditBlocks.Proofs.Disk.Access

/-!
# Where directories are made

Making a directory tries its path and, as far as they are missing, the paths
of the directories above it (`Upward`). So every directory that is made is
one that such a path leads to afterwards
(`Disk.extends_makeDirectories_onWay`).

A path can lead up and down and through links, so a directory made for it
need not lie above the place that the path leads to. For the directories made
above a file it is otherwise: the file's path has no detours left when they
are made, and below a directory that was not there before there are no links
(`Disk.below_of_onWay`).

Where the paths lead is asked on the disk on which all directories have been
made. On the disk of before most of them lead nowhere, and the earlier ones
go on leading where they led because a disk only grows.
-/

namespace EditBlocks

/-! ## One slash more

A path with a slash put in front of it leads where it led from the root, and
the paths above it are those of before with the slash. -/

namespace Path

/-- A slash in front stays when slashes at the end are dropped. -/
theorem dropSlashes_cons_slash (t : Text) : dropSlashes ('/' :: t) = '/' :: dropSlashes t := by
  unfold dropSlashes
  by_cases hall : t.all (· = '/') = true
  · rw [if_pos (by simpa using hall), if_pos hall]
  · have hdrop : t.reverse.dropWhile (· = '/') ≠ [] := by
      simpa [List.dropWhile_eq_nil_iff] using hall
    rw [if_neg (by simpa using hall), if_neg hall, List.reverse_cons, List.dropWhile_append,
      if_neg (by simpa [List.isEmpty_iff] using hdrop), List.reverse_append]
    rfl

/-- A slash in front goes with the first part when a path is split. -/
theorem split_cons_slash (t : Text) : split ('/' :: t) = ('/' :: (split t).1, (split t).2) := by
  have hname : (('/' :: t).reverse.takeWhile (· ≠ '/')) = t.reverse.takeWhile (· ≠ '/') := by
    rw [List.reverse_cons, List.takeWhile_append]
    split
    next hall =>
      rw [List.takeWhile_cons_of_neg (by simp), List.append_nil]
      exact ((List.takeWhile_prefix _).eq_of_length hall).symm
    · rfl
  have hle : (t.reverse.takeWhile (· ≠ '/')).reverse.length ≤ t.length := by
    simpa using (List.takeWhile_prefix (l := t.reverse) (· ≠ '/')).length_le
  have htake : t.length + 1 - (t.reverse.takeWhile (· ≠ '/')).reverse.length
      = t.length - (t.reverse.takeWhile (· ≠ '/')).reverse.length + 1 := Nat.succ_sub hle
  unfold split
  dsimp only
  rw [hname, List.length_cons, htake, List.take_succ_cons, dropSlashes_cons_slash]

theorem parent_cons_slash (t : Text) : parent ('/' :: t) = '/' :: parent t := by
  rw [parent, split_cons_slash, parent]

/-- The names of a path with a slash in front: an empty one first. -/
theorem names_cons_slash (t : Text) : names ('/' :: t) = [] :: names t :=
  Text.splitOn_append '/' [] t

end Path

namespace Disk

variable {d d' : Disk} {path front : Text} {place : Location}

theorem splitDirectory_cons_slash (t : Text) :
    (splitDirectory ('/' :: t)).1 = '/' :: (splitDirectory t).1 := by
  unfold splitDirectory
  rw [Path.split_cons_slash]
  rcases Path.split t with ⟨head, _ | ⟨c, name⟩⟩
  · dsimp only
    rw [Path.split_cons_slash]
  · rfl

/-! ## The paths that are tried

Upward from a path, each the directory part of the one before. -/

/-- **The paths that are tried** when the directory of a path is made: its
own, and those of the directories above it. -/
inductive Upward (path : Text) : Text → Prop
  /-- The path itself. -/
  | self : Upward path path
  /-- That of the directory above one that is tried. -/
  | up {front : Text} (h : Upward path front) : Upward path (splitDirectory front).1

/-- Above a written location only written locations above it are tried. -/
theorem Upward.of_ofLocation (hp : Path.IsProper place)
    (h : Upward (Path.ofLocation place) front) :
    ∃ above, above <+: place ∧ front = Path.ofLocation above := by
  induction h with
  | self => exact ⟨place, List.prefix_refl _, rfl⟩
  | up _ ih =>
    obtain ⟨above, ha, rfl⟩ := ih
    exact ⟨above.dropLast, (List.dropLast_prefix _).trans ha,
      splitDirectory_ofLocation (hp.of_prefix ha)⟩

theorem Upward.of_cons_slash (h : Upward ('/' :: path) front) :
    ∃ front', Upward path front' ∧ front = '/' :: front' := by
  induction h with
  | self => exact ⟨path, .self, rfl⟩
  | up _ ih =>
    obtain ⟨front', h', rfl⟩ := ih
    exact ⟨_, h'.up, splitDirectory_cons_slash front'⟩

/-- **A place on the way of a path**: where one of the paths leads that are
tried when its directory is made. -/
def OnWay (d : Disk) (path : Text) (place : Location) : Prop :=
  ∃ front, Upward path front ∧ d.reach? (Path.dropSlashes front) = some place

/-- A place goes on being on the way. -/
theorem Grows.onWay (hg : d.Grows d') (h : d.OnWay path place) : d'.OnWay path place :=
  have ⟨front, hup, hreach⟩ := h
  ⟨front, hup, hg.reach? hreach⟩

/-! ## What is made

Each path is tried only after the ones above it are there, so where it leads
is settled when it is tried. -/

theorem Leads.of_absent {followLast : Bool} {names : List Text} {links : Nat}
    {directory : Location} {name : Text}
    (h : d.Leads followLast place names links (.absent directory name)) :
    d.Leads true place names links (.absent directory name) := by
  generalize hfound : Place.absent directory name = found at h
  induction h with
  | nil _ | file _ _ | stay _ _ _ => cases hfound
  | skip hn _ ih => exact .skip hn (ih hfound)
  | up _ ih => exact .up (ih hfound)
  | down hn hnode _ ih => exact .down hn hnode (ih hfound)
  | absent hn hnode => exact .absent hn hnode
  | link hn hnode _ _ ih => exact .link hn hnode (by simp) (ih hfound)

theorem reach?_of_absent {followLast : Bool} {directory : Location} {name : Text}
    (h : d.locate followLast path = .ok (.absent directory name)) :
    d.reach? path = some (directory ++ [name]) := by
  obtain ⟨hpath, links, hle, hw⟩ := locate_eq_ok_iff.1 h
  exact reach?_eq_some_iff.2 ⟨_, locate_eq_ok_iff.2 ⟨hpath, links, hle, hw.of_absent⟩, rfl⟩

theorem Extends.imp {where' where'' : Location → Prop} (h : d.Extends where' d')
    (hw : ∀ place, where' place → where'' place) : d.Extends where'' d' where
  isTree := h.isTree
  grows := h.grows
  made place := (h.made place).imp_right fun ⟨hplace, hnew⟩ => ⟨hw place hplace, hnew⟩

/-- The last directory of a path that is tried is made on the way. -/
theorem extends_makeLast_onWay (hd : d.IsTree) (hup : Upward path front) :
    d.Extends (d.OnWay path) (d.makeLast front).1 :=
  extends_makeLast hd fun _ _ hl => ⟨front, hup, reach?_of_absent hl⟩

/-- **Directories are made on the way**, as it is when they have been made.
Before that the way does not go so far, which is why the later disk is
asked. -/
theorem extends_makeDirectoriesFrom_onWay (hd : d.IsTree) (fuel : Nat) (hup : Upward path front) :
    d.Extends ((makeDirectoriesFrom fuel d front).1.OnWay path)
      (makeDirectoriesFrom fuel d front).1 := by
  induction fuel generalizing front with
  | zero => exact .refl hd
  | succ fuel ih =>
    have habove := ih hup.up
    have hlast : ∀ {d₁ : Disk}, d₁.IsTree →
        d₁.Extends ((d₁.makeLast front).1.OnWay path) (d₁.makeLast front).1 := fun hd₁ =>
      have hext := extends_makeLast_onWay hd₁ hup
      hext.imp fun _ => hext.grows.onWay
    rw [makeDirectoriesFrom_succ]
    split
    · exact hlast hd
    · split
      · exact habove
      · split
        · exact habove
        · have hext := hlast habove.isTree
          exact (habove.imp fun _ => hext.grows.onWay).trans hext

/-- **Where making a directory makes directories.** -/
theorem extends_makeDirectories_onWay [Nesting] (hd : d.IsTree) (path : Text) :
    d.Extends ((d.makeDirectories path).1.OnWay path) (d.makeDirectories path).1 :=
  extends_makeDirectoriesFrom_onWay hd _ .self

/-! ## Above a file

There the paths that are tried are those of locations, one above the other.
-/

/-- **Below a directory that was not there before there are no links**, and
none above it. -/
theorem linkFree_of_made (hd : d.IsTree) (hd' : d'.IsTree) (hg : d.Grows d')
    (hnone : d.node? place = none) (hdir : d'.node? place = some .directory)
    (rest : Location) : d'.LinkFree (place ++ rest) := by
  intro above ha target hlink
  rcases List.prefix_or_prefix_of_prefix ha (List.prefix_append place rest) with hup | hdown
  · by_cases he : above = place
    · rw [he, hdir] at hlink
      cases hlink
    · rw [hd'.directory_of_prefix hdir hup he] at hlink
      cases hlink
  · -- a link there would have been there before, and the directory with it
    have hbefore := (hg.link above target).1 hlink
    by_cases he : place = above
    · rw [← he, hnone] at hbefore
      cases hbefore
    · rw [hd.directory_of_prefix hbefore hdown he] at hnone
      cases hnone

theorem eq_present_of_location (hd : d.IsTree) {found : Place}
    (hl : d.locate true path = .ok found) (hloc : found.location = place)
    (hdir : d.node? place = some .directory) : found = .present place := by
  cases found with
  | present there => exact congrArg Place.present hloc
  | absent directory name =>
    have hin : (Place.absent directory name).IsIn d := isIn_of_locate hd hl
    rw [← hloc] at hdir
    cases hin.2.2.symm.trans hdir

/-- **A directory made on the way to a file's directory is above the file**,
where the file's path is a written location. -/
theorem below_of_onWay_ofLocation (hd : d.IsTree) (hd' : d'.IsTree) (hg : d.Grows d')
    {written target : Location} (hp : Path.IsProper written) (hne : written ≠ [])
    (hnone : d.node? place = none) (hdir : d'.node? place = some .directory)
    (hway : d'.OnWay (Path.ofLocation written.dropLast) place)
    (hreach : d'.reach? (Path.ofLocation written) = some target) : Path.Below place target := by
  obtain ⟨front, hup, hfront⟩ := hway
  obtain ⟨above, ha, rfl⟩ := hup.of_ofLocation hp.dropLast
  have habove : above <+: written := ha.trans (List.dropLast_prefix written)
  have hpa : Path.IsProper above := hp.of_prefix habove
  rw [Path.dropSlashes_ofLocation hpa] at hfront
  obtain ⟨found, hl, hloc⟩ := reach?_eq_some_iff.1 hfront
  obtain rfl := eq_present_of_location hd' hl hloc hdir
  obtain ⟨-, links, -, hw⟩ := locate_eq_ok_iff.1 hl
  obtain ⟨found', hl', rfl⟩ := reach?_eq_some_iff.1 hreach
  obtain ⟨-, links', -, hw'⟩ := locate_eq_ok_iff.1 hl'
  obtain ⟨rest, rfl⟩ := habove
  have hrest : rest ≠ [] := by
    rintro rfl
    rw [List.append_nil] at ha hne
    have hlen := ha.length_le
    rw [List.length_dropLast] at hlen
    have := List.length_pos_iff.2 hne
    omega
  -- the way to the file goes through the directory, and straight on from there
  obtain ⟨middle, before, after, hfirst, hlast, -⟩ := (Leads.of_ofLocation hp hw').split hrest
  obtain ⟨-, hmiddle⟩ := (Leads.of_ofLocation hpa hw).unique hfirst
  obtain rfl : place = middle := Place.present.inj hmiddle
  have hprest : Path.IsProper rest := fun name hn => hp name (List.mem_append_right _ hn)
  have hfree := linkFree_of_made hd hd' hg hnone hdir rest
  rw [(hlast.eq_of_linkFree hprest hfree).2.1]
  exact ⟨List.prefix_append _ _, by simpa using Ne.symm hrest⟩

/-- A path with a slash more in front leads where it leads without. -/
theorem reach?_of_cons_slash (habs : Path.isAbsolute path = true)
    (h : d.reach? ('/' :: path) = some place) : d.reach? path = some place := by
  obtain ⟨found, hl, rfl⟩ := reach?_eq_some_iff.1 h
  obtain ⟨⟨hnull, -, hlong⟩, links, hle, hw⟩ := locate_eq_ok_iff.1 hl
  have hstart : d.start ('/' :: path) = d.start path := by
    rw [start, start, if_pos habs]
    rfl
  rw [hstart, Path.names_cons_slash] at hw
  have hne : path ≠ [] := by
    rintro rfl
    cases habs
  have hshort : byteLength path < pathLimit :=
    (Nat.le_add_left _ _).trans_lt hlong
  exact reach?_eq_some_iff.2 ⟨found, locate_eq_ok_iff.2
    ⟨⟨fun hn => hnull (List.mem_cons_of_mem _ hn), hne, hshort⟩, links, hle,
      hw.of_skip (Or.inl rfl)⟩, rfl⟩

/-- What is on the way of a written location with a slash more in front is on
its way without. -/
theorem OnWay.of_cons_slash {written : Location} (hp : Path.IsProper written)
    (h : d.OnWay ('/' :: Path.ofLocation written) place) :
    d.OnWay (Path.ofLocation written) place := by
  obtain ⟨front, hup, hreach⟩ := h
  obtain ⟨front', hup', rfl⟩ := hup.of_cons_slash
  obtain ⟨above, ha, rfl⟩ := hup'.of_ofLocation hp
  rw [Path.dropSlashes_cons_slash, Path.dropSlashes_ofLocation (hp.of_prefix ha)] at hreach
  refine ⟨_, hup', ?_⟩
  rw [Path.dropSlashes_ofLocation (hp.of_prefix ha)]
  exact reach?_of_cons_slash rfl hreach

end Disk

end EditBlocks
