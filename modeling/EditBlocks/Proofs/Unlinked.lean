import EditBlocks.Host.Usual
import EditBlocks.Proofs.Resolution
import Mathlib.Data.List.Infix

/-!
# Paths that meet no link

Where none of the names on its way is that of a link, a path is read on a
stack of names, whatever stands there and whether or not anything does: the
system is asked about every name and says the same each time. Then
`Disk.resolve` has a closed form (`Disk.resolve_eq_of_meetsNoLink`). The root
is read on the empty stack, the edit's path on the root's, or on the empty
one if it starts with a slash, and it is accepted exactly when the first
stack is a proper beginning of the second.

That is a comparison of names and not of texts: `/srv/repository` does not
lie below `/srv/repo`, and a path may leave the root as long as it comes
back.

The condition is about the places that the names go through and not about the
whole disk (`Disk.MeetsNoLink`): links elsewhere do not matter, and neither
do those below the place at which the path ends.
-/

namespace EditBlocks

namespace Path

/-- The location on which the names of a path are read, in a directory. -/
def origin (directory : Location) (path : Text) : Location :=
  if isAbsolute path then [] else directory

/-- **The location that a path leads to** that is read in a directory, where
no name on it is a link. -/
def locationIn (directory : Location) (path : Text) : Location :=
  walk (origin directory path) (names path)

/-- What is in a path, its slashes aside, is in one of its names. -/
theorem exists_mem_names {path : Text} {c : Char} (h : c ∈ path) (hc : c ≠ '/') :
    ∃ name ∈ names path, c ∈ name := by
  unfold names
  induction path with
  | nil => cases h
  | cons d t ih =>
    obtain ⟨first, parts, ht⟩ := List.exists_cons_of_ne_nil (Text.splitOn_ne_nil '/' t)
    rw [ht] at ih
    rw [Text.splitOn]
    rcases List.mem_cons.1 h with rfl | h
    · rw [if_neg hc, ht]
      exact ⟨c :: first, List.mem_cons_self, List.mem_cons_self⟩
    · obtain ⟨name, hname, hmem⟩ := ih h
      split
      · exact ⟨name, ht ▸ List.mem_cons_of_mem _ hname, hmem⟩
      · rw [ht]
        rcases List.mem_cons.1 hname with rfl | hname
        · exact ⟨d :: name, List.mem_cons_self, List.mem_cons_of_mem d hmem⟩
        · exact ⟨name, List.mem_cons_of_mem _ hname, hmem⟩

/-- A path holds a null character when one of its names does. -/
theorem null_mem_iff {path : Text} : '\x00' ∈ path ↔ ∃ name ∈ names path, '\x00' ∈ name :=
  ⟨fun h => exists_mem_names h (by decide), fun ⟨name, hn, h⟩ => mem_of_mem_names name hn h⟩

/-- A path without a null character leads to a location whose parts can be
names. -/
theorem isProper_locationIn {directory : Location} (h : IsProper directory) {path : Text}
    (hnull : '\x00' ∉ path) : IsProper (locationIn directory path) := by
  have horigin : IsProper (origin directory path) := by
    unfold origin
    split
    · exact List.forall_mem_nil _
    · exact h
  exact horigin.walk no_slash_of_mem_names fun name hn h0 => hnull (mem_of_mem_names name hn h0)

/-- From the root of the tree that is the location of the path. -/
@[simp] theorem locationIn_nil (path : Text) : locationIn [] path = toLocation path := by
  rw [locationIn, origin, ite_self, toLocation]

/-- **The names of a path read from a location**: those of the location come
first, unless the path starts at the root. -/
theorem names_join_ofLocation {place : Location} (hp : IsProper place) {path : Text}
    (habs : isAbsolute path = false) :
    names (join (ofLocation place) path) = [] :: (place ++ names path) := by
  rw [join, if_neg (by simp [habs])]
  by_cases hne : place = []
  · subst hne
    rfl
  · have hcons : ofLocation place ≠ [] := List.cons_ne_nil _ _
    rw [if_neg (not_or.2 ⟨hcons, getLast?_ofLocation hp hne⟩)]
    show Text.splitOn '/' (ofLocation place ++ '/' :: path) = _
    rw [Text.splitOn_append]
    show names (ofLocation place) ++ names path = _
    rw [names_ofLocation hne hp, List.cons_append]

/-- So they lead to where the path's names lead from there. -/
theorem toLocation_join_ofLocation {place : Location} (hp : IsProper place) (path : Text) :
    toLocation (join (ofLocation place) path) = locationIn place path := by
  unfold toLocation locationIn origin
  cases habs : isAbsolute path with
  | true => rw [join, if_pos habs, if_pos rfl]
  | false =>
    rw [names_join_ofLocation hp habs, if_neg Bool.false_ne_true, walk_cons, walk_append]
    show walk (walk [] place) _ = _
    rw [walk_of_isProper [] hp, List.nil_append]

/-- No null character comes in by joining a path to a location. -/
theorem null_mem_join_ofLocation {place : Location} (hp : IsProper place) {path : Text} :
    '\x00' ∈ join (ofLocation place) path ↔ '\x00' ∈ path := by
  have hplace := no_null_ofLocation hp
  unfold join
  split
  · rfl
  · split <;> simp [hplace]

end Path

namespace Disk

variable {d : Disk} {stack : Location} {path root : Text} {names : List Text}

/-! ## Names on a stack

A place that is reached without a link is the place that the names lead to on
a stack, so the condition can be asked along the names. -/

/-- **No link is met** where names are read on a stack. The condition is
about the places that the stack goes through, whether or not anything is
there. -/
def MeetsNoLink (d : Disk) (stack : Location) (names : List Text) : Prop :=
  ∀ read, read <+: names → ∀ target, d.node? (Path.walk stack read) ≠ some (.link target)

instance (d : Disk) (stack : Location) (names : List Text) :
    Decidable (d.MeetsNoLink stack names) :=
  decidable_of_iff
    (∀ read ∈ names.inits, ((d.node? (Path.walk stack read)).any Node.isLink) = false) <| by
    simp only [List.mem_inits, MeetsNoLink]
    refine forall_congr' fun read => imp_congr_right fun _ => ?_
    cases d.node? (Path.walk stack read) with
    | none => simp
    | some node => cases node <;> simp [Node.isLink]

theorem meetsNoLink_cons {name : Text} :
    d.MeetsNoLink stack (name :: names)
      ↔ (∀ target, d.node? stack ≠ some (.link target))
        ∧ d.MeetsNoLink (Path.push stack name) names := by
  constructor
  · intro h
    exact ⟨h [] List.nil_prefix,
      fun read hread => h (name :: read) (List.cons_prefix_cons.2 ⟨rfl, hread⟩)⟩
  · rintro ⟨hstack, h⟩ read hread
    cases read with
    | nil => exact hstack
    | cons first read =>
      obtain ⟨rfl, hrest⟩ := List.cons_prefix_cons.1 hread
      exact h read hrest

/-- Names are read on the stack that those before them have left. -/
theorem meetsNoLink_append {more : List Text} :
    d.MeetsNoLink stack (names ++ more)
      ↔ d.MeetsNoLink stack names ∧ d.MeetsNoLink (Path.walk stack names) more := by
  induction names generalizing stack with
  | nil =>
    refine (and_iff_right_of_imp fun h read hread => ?_).symm
    rw [List.prefix_nil.1 hread]
    exact h [] List.nil_prefix
  | cons name names ih =>
    rw [List.cons_append, meetsNoLink_cons, meetsNoLink_cons, ih, Path.walk_cons, and_assoc]

/-- On a stack without links, names that meet none leave one without links. -/
theorem MeetsNoLink.linkFree (h : d.MeetsNoLink stack names) (hstack : d.LinkFree stack) :
    d.LinkFree (Path.walk stack names) := by
  induction names generalizing stack with
  | nil => exact hstack
  | cons name names ih =>
    obtain ⟨-, hrest⟩ := meetsNoLink_cons.1 h
    refine ih hrest ?_
    have hhere := hrest [] List.nil_prefix
    rw [Path.walk_nil, Path.push] at hhere
    rw [Path.push]
    split at hhere
    next hskip =>
      rw [if_pos hskip]
      exact hstack
    next hskip =>
      rw [if_neg hskip]
      split at hhere
      next hup =>
        rw [if_pos hup]
        exact hstack.of_prefix (List.dropLast_prefix stack)
      next hup =>
        rw [if_neg hup]
        exact hstack.concat hhere

/-- A location without links is read, name by name, without meeting one. -/
theorem LinkFree.meetsNoLink {place : Location} (h : d.LinkFree place) (hp : Path.IsProper place) :
    d.MeetsNoLink [] place := by
  intro read hread
  rw [Path.walk_of_isProper [] (hp.of_prefix hread), List.nil_append]
  exact h read hread

/-! ## Reading without links

No name is that of a link, so reading never goes a level down, and there is
always room. -/

/-- **Names that meet no link are read on the stack**, up to a null
character. -/
theorem readNames_of_meetsNoLink {descend : Seen → Trail → List Text → Resolution} {seen : Seen}
    (h : d.MeetsNoLink stack names) :
    readNames d descend seen (.at stack) names
      = if ∃ name ∈ names, '\x00' ∈ name then .nullByte
        else .done (.at (Path.walk stack names)) seen := by
  induction names generalizing stack with
  | nil => rw [if_neg (by simp), readNames, Path.walk_nil]
  | cons name rest ih =>
    obtain ⟨-, hrest⟩ := meetsNoLink_cons.1 h
    have ih := ih hrest
    by_cases hhere : name = [] ∨ name = Path.here
    · have hnull : '\x00' ∉ name := by rcases hhere with rfl | rfl <;> decide
      rw [Path.push, if_pos hhere] at ih
      rw [readNames_skip hhere, ih, Path.walk_cons, Path.push, if_pos hhere]
      simp [hnull]
    by_cases habove : name = Path.above
    · subst habove
      rw [Path.push, if_neg hhere, if_pos rfl] at ih
      rw [readNames_up, Trail.up_at, ih, Path.walk_cons, Path.push, if_neg hhere,
        if_pos rfl]
      simp [show '\x00' ∉ Path.above by decide]
    by_cases hnull : '\x00' ∈ name
    · rw [readNames, if_neg hhere, if_neg habove, if_pos hnull, if_pos ⟨name, by simp, hnull⟩]
    · -- what stands under the name is no link, so it is gone down to
      have hnode := hrest [] List.nil_prefix
      rw [Path.walk_nil, Path.push, if_neg hhere, if_neg habove] at hnode
      rw [Path.push, if_neg hhere, if_neg habove] at ih
      rw [readNames_down ⟨hhere, habove, hnull⟩ hnode]
      show readNames d descend seen (.at (stack ++ [name])) rest = _
      rw [ih, Path.walk_cons, Path.push, if_neg hhere, if_neg habove]
      simp [hnull]

/-- **The path without links of a path that meets none** is its location. -/
theorem realPath_of_meetsNoLink [Nesting] (habs : Path.isAbsolute path = true)
    (h : d.MeetsNoLink [] (Path.names path)) :
    d.realPath path = if '\x00' ∈ path then .error .nullByte
      else .ok (Path.ofLocation (Path.toLocation path)) := by
  obtain ⟨depth, hdepth⟩ := exists_links_eq
  have hread : readDeep d (depth + 1) [] Trail.root (Path.names path)
      = if ∃ name ∈ Path.names path, '\x00' ∈ name then .nullByte
        else .done (.at (Path.toLocation path)) [] := readNames_of_meetsNoLink h
  unfold realPath
  rw [hdepth, habs, if_pos rfl]
  dsimp only
  rw [hread]
  by_cases hnull : '\x00' ∈ path
  · rw [if_pos (Path.null_mem_iff.1 hnull), if_pos hnull]
  · rw [if_neg (mt Path.null_mem_iff.2 hnull), if_neg hnull]
    dsimp only
    have hpath : (Trail.at (Path.toLocation path)).toPath
        = Path.ofLocation (Path.toLocation path) := rfl
    have hproper : Path.IsProper (Path.toLocation path) :=
      Path.locationIn_nil path ▸ Path.isProper_locationIn (List.forall_mem_nil _) hnull
    rw [hpath, join_ofLocation_right, Path.normalize_ofLocation hproper]

/-- Reading a path from a location without links meets none if its names do
not. -/
theorem meetsNoLink_join {place : Location} (hp : Path.IsProper place) (hf : d.LinkFree place)
    (h : d.MeetsNoLink (Path.origin place path) (Path.names path)) :
    d.MeetsNoLink [] (Path.names (Path.join (Path.ofLocation place) path)) := by
  cases habs : Path.isAbsolute path with
  | true =>
    rw [Path.origin, if_pos habs] at h
    rwa [Path.join, if_pos habs]
  | false =>
    rw [Path.origin, habs, if_neg Bool.false_ne_true] at h
    rw [Path.names_join_ofLocation hp habs, meetsNoLink_cons]
    refine ⟨linkFree_nil [] List.nil_prefix, meetsNoLink_append.2 ⟨hf.meetsNoLink hp, ?_⟩⟩
    show d.MeetsNoLink (Path.walk [] place) _
    rwa [Path.walk_of_isProper [] hp, List.nil_append]

/-! ## Below a root

Two stacks are compared in the end. -/

/-- **Which paths a root accepts** where no link is met: those that lead
strictly below it, name by name. Such a path stands for the location that it
leads to, and any other is refused, with the path and the root. Only a null
character is in no path at all. -/
theorem resolve_eq_of_meetsNoLink [Nesting] (habs : Path.isAbsolute root = true)
    (hroot : d.MeetsNoLink [] (Path.names root))
    (hpath : d.MeetsNoLink (Path.origin (Path.toLocation root) path) (Path.names path)) :
    d.resolve root path [] =
      if '\x00' ∈ root ∨ '\x00' ∈ path then .error .nullByte
      else if Path.Below (Path.toLocation root) (Path.locationIn (Path.toLocation root) path) then
        .ok (Path.ofLocation (Path.locationIn (Path.toLocation root) path))
      else .error (.forbidden path (Path.ofLocation (Path.toLocation root))) := by
  by_cases hnull : '\x00' ∈ root
  · rw [if_pos (Or.inl hnull), resolve, realPathFor, realPath_of_meetsNoLink habs hroot,
      if_pos hnull]
    rfl
  have htop : Path.IsProper (Path.toLocation root) :=
    Path.locationIn_nil root ▸ Path.isProper_locationIn (List.forall_mem_nil _) hnull
  have hr : d.realPathFor root = .ok (Path.ofLocation (Path.toLocation root)) := by
    rw [realPathFor, realPath_of_meetsNoLink habs hroot, if_neg hnull]
  -- the path is read from the root that has been read, which meets no link either
  have hfull := realPath_of_meetsNoLink (Path.isAbsolute_join (Path.isAbsolute_ofLocation _) path)
    (meetsNoLink_join htop (hroot.linkFree linkFree_nil) hpath)
  rw [Path.toLocation_join_ofLocation htop] at hfull
  rw [resolve, hr]
  dsimp only [bind, Except.bind]
  rw [realPathFor, hfull]
  by_cases hnull' : '\x00' ∈ path
  · rw [if_pos (Or.inr hnull'), if_pos ((Path.null_mem_join_ofLocation htop).2 hnull')]
  · rw [if_neg (not_or.2 ⟨hnull, hnull'⟩),
      if_neg (mt (Path.null_mem_join_ofLocation htop).1 hnull')]
    have hbelow := Path.isBelow_ofLocation_iff htop (Path.isProper_locationIn htop hnull')
    by_cases hb : Path.Below (Path.toLocation root) (Path.locationIn (Path.toLocation root) path)
    · rw [if_pos hb]
      dsimp only
      rw [hbelow.2 hb]
      rfl
    · rw [if_neg hb]
      dsimp only
      rw [Bool.eq_false_iff.2 (mt hbelow.1 hb)]
      rfl

/-- A root beside a directory whose name goes on from its own. -/
def neighbored : Disk where
  nodes := .ofList [
    (["srv"], .directory),
    (["srv", "repo"], .directory),
    (["srv", "repo", "notes.txt"], .file []),
    (["srv", "repo", "loop"], .link "loop"),
    (["srv", "repository"], .directory)]
  workingDir := ["srv"]

/-- A path that leaves the root and comes back is accepted, one of the
neighbor is not; and below the root of the tree there is everything but the
root itself. -/
theorem resolve_eq_of_meetsNoLink_neighbored :
    neighbored.MeetsNoLink [] (Path.names "//srv/./repo/")
      ∧ neighbored.MeetsNoLink ["srv", "repo"] (Path.names "../repo//new/../notes.txt")
      ∧ neighbored.resolve "//srv/./repo/" "../repo//new/../notes.txt" []
        = .ok "/srv/repo/notes.txt"
      ∧ neighbored.resolve "//srv/./repo/" "/srv/repository/a" []
        = .error (.forbidden "/srv/repository/a" "/srv/repo")
      ∧ neighbored.resolve "/" "../srv" [] = .ok "/srv"
      ∧ neighbored.resolve "/" "srv/.." [] = .error (.forbidden "srv/.." "/") :=
  ⟨by decide +kernel, by decide +kernel,
    (resolve_eq_of_meetsNoLink (by decide) (by decide +kernel) (by decide +kernel)).trans
      (by decide +kernel),
    (resolve_eq_of_meetsNoLink (by decide) (by decide +kernel) (by decide +kernel)).trans
      (by decide +kernel),
    (resolve_eq_of_meetsNoLink (by decide) (by decide +kernel) (by decide +kernel)).trans
      (by decide +kernel),
    (resolve_eq_of_meetsNoLink (by decide) (by decide +kernel) (by decide +kernel)).trans
      (by decide +kernel)⟩

end Disk

end EditBlocks
