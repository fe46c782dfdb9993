import EditBlocks.Containment
import Mathlib.Data.List.TakeWhile

/-!
# Paths and locations

A path is read into a location by its names, and a location is written as a
path. Where every part of a location can be a name (`Path.IsProper`), writing
it and reading it back gives the location again
(`Path.toLocation_ofLocation`), and so do the ways in which paths are
normalized, split and compared: on written locations they are the operations
on lists that their names say.

The text of a path and its location are thus two views of it, and the second
is the one to reason in. The first comes back in where a text is given from
outside, or where the check of a root compares two texts
(`Path.isBelow_ofLocation_iff`).

One exception goes through all of this. A path that begins with exactly two
slashes is kept apart from one that begins with one, so a normalized path has
one slash in front or two (`Path.normalize_cases`).
-/

namespace EditBlocks

namespace Text

/-- There is a part even of the empty text. -/
theorem splitOn_ne_nil (sep : Char) (t : Text) : splitOn sep t ≠ [] := by
  cases t with
  | nil => simp [splitOn]
  | cons c t =>
    rw [splitOn]
    split
    · simp
    · split <;> simp

/-- **A text is split at a separator** into the parts before it and the parts
after it. -/
theorem splitOn_append (sep : Char) (t u : Text) :
    splitOn sep (t ++ sep :: u) = splitOn sep t ++ splitOn sep u := by
  induction t with
  | nil => simp [splitOn]
  | cons c t ih =>
    rw [List.cons_append, splitOn, splitOn, ih]
    by_cases hc : c = sep
    · rw [if_pos hc, if_pos hc, List.cons_append]
    · obtain ⟨part, parts, ht⟩ := List.exists_cons_of_ne_nil (splitOn_ne_nil sep t)
      rw [if_neg hc, if_neg hc, ht]
      rfl

theorem splitOn_of_not_mem {sep : Char} {t : Text} (h : sep ∉ t) : splitOn sep t = [t] := by
  induction t with
  | nil => rfl
  | cons c t ih =>
    rw [List.mem_cons, not_or] at h
    rw [splitOn, if_neg (Ne.symm h.1), ih h.2]

theorem not_mem_of_mem_splitOn {sep : Char} {t : Text} : ∀ part ∈ splitOn sep t, sep ∉ part := by
  induction t with
  | nil => simp [splitOn]
  | cons c t ih =>
    obtain ⟨first, parts, ht⟩ := List.exists_cons_of_ne_nil (splitOn_ne_nil sep t)
    rw [ht, List.forall_mem_cons] at ih
    rw [splitOn]
    by_cases hc : c = sep
    · rw [if_pos hc, ht]
      simpa using ih
    · rw [if_neg hc, ht]
      simpa [Ne.symm hc] using ih

/-- Parts joined by a separator that is in none of them are split again. -/
theorem splitOn_join {sep : Char} {parts : List Text} (hne : parts ≠ [])
    (h : ∀ part ∈ parts, sep ∉ part) : splitOn sep (join [sep] parts) = parts := by
  induction parts with
  | nil => exact absurd rfl hne
  | cons part parts ih =>
    rw [List.forall_mem_cons] at h
    cases parts with
    | nil => exact splitOn_of_not_mem h.1
    | cons next parts =>
      rw [join, List.append_assoc, List.singleton_append, splitOn_append, splitOn_of_not_mem h.1,
        ih (by simp) h.2, List.singleton_append]
      simp

/-- What is in joined parts is in one of them or in the separator. -/
theorem mem_join {sep : Text} {parts : List Text} {c : Char} (h : c ∈ join sep parts) :
    c ∈ sep ∨ ∃ part ∈ parts, c ∈ part := by
  induction parts with
  | nil => cases h
  | cons part parts ih =>
    cases parts with
    | nil => exact Or.inr ⟨part, by simp, h⟩
    | cons next parts =>
      rw [join, List.mem_append, List.mem_append] at h
      · rcases h with (h | h) | h
        · exact Or.inr ⟨part, by simp, h⟩
        · exact Or.inl h
        · rcases ih h with h | ⟨p, hp, h⟩
          · exact Or.inl h
          · exact Or.inr ⟨p, by simp [hp], h⟩
      · simp

/-- Two lists of parts joined are joined by one more separator. -/
theorem join_append (sep : Text) {parts more : List Text} (h : parts ≠ []) (h' : more ≠ []) :
    join sep (parts ++ more) = join sep parts ++ sep ++ join sep more := by
  induction parts with
  | nil => exact absurd rfl h
  | cons part parts ih =>
    cases parts with
    | nil =>
      obtain ⟨first, rest, rfl⟩ := List.exists_cons_of_ne_nil h'
      rfl
    | cons next parts =>
      have hj : ∀ ps : List Text, join sep (part :: next :: ps)
          = part ++ sep ++ join sep (next :: ps) := fun _ => rfl
      have ih := ih (by simp)
      rw [List.cons_append] at ih
      rw [List.cons_append, List.cons_append, hj, ih, hj]
      simp only [List.append_assoc]

end Text

namespace Path

/-- **A text that can be the name of something.** It is not empty and none of
the two that stand for directories, and it holds neither a slash nor a null
character. -/
structure IsName (name : Text) : Prop where
  /-- It is not empty. -/
  ne_nil : name ≠ []
  /-- It is not the name of the directory itself. -/
  ne_here : name ≠ here
  /-- It is not the name of the directory above. -/
  ne_above : name ≠ above
  /-- No slash is in it. -/
  no_slash : '/' ∉ name
  /-- No null character is in it. -/
  no_null : '\x00' ∉ name

instance (name : Text) : Decidable (IsName name) :=
  decidable_of_iff (name ≠ [] ∧ name ≠ here ∧ name ≠ above ∧ '/' ∉ name ∧ '\x00' ∉ name)
    ⟨fun h => ⟨h.1, h.2.1, h.2.2.1, h.2.2.2.1, h.2.2.2.2⟩,
      fun h => ⟨h.1, h.2, h.3, h.4, h.5⟩⟩

/-- **A location whose parts can all be names.** So are the locations of all
things on a disk, if the disk is a tree. -/
def IsProper (place : Location) : Prop := ∀ name ∈ place, IsName name

instance (place : Location) : Decidable (IsProper place) :=
  inferInstanceAs (Decidable (∀ name ∈ place, IsName name))

/-- The location that a path stands for where no name on it is a link. -/
def toLocation (path : Text) : Location := walk [] (names path)

theorem IsProper.append {place other : Location} (h : IsProper place) (h' : IsProper other) :
    IsProper (place ++ other) := by
  intro name hname
  rcases List.mem_append.1 hname with hn | hn
  · exact h name hn
  · exact h' name hn

theorem IsProper.of_append_left {place other : Location} (h : IsProper (place ++ other)) :
    IsProper place := fun name hn => h name (List.mem_append_left _ hn)

theorem IsProper.of_prefix {place other : Location} (h : IsProper other) (hp : place <+: other) :
    IsProper place := fun name hn => h name (hp.mem hn)

theorem IsProper.dropLast {place : Location} (h : IsProper place) : IsProper place.dropLast :=
  h.of_prefix (List.dropLast_prefix _)

/-! ## Where a path starts

A path from the root does not depend on the directory that it is joined to.
-/

theorem exists_of_isAbsolute {path : Text} (h : isAbsolute path = true) :
    ∃ t, path = '/' :: t := by
  rw [isAbsolute, decide_eq_true_iff] at h
  exact List.head?_eq_some_iff.1 h

/-- A path read from the path of a directory starts at the root. -/
theorem isAbsolute_join {directory : Text} (h : isAbsolute directory = true) (path : Text) :
    isAbsolute (join directory path) = true := by
  unfold join
  split
  next hpath => exact hpath
  · obtain ⟨t, rfl⟩ := exists_of_isAbsolute h
    split <;> rfl

/-! ## Reading what was written

The names of a written location are its parts, with an empty one in front for
the slash. -/

/-- The path of a location starts at the root. -/
@[simp] theorem isAbsolute_ofLocation (place : Location) : isAbsolute (ofLocation place) = true :=
  rfl

/-- The names of a written location: an empty one before the first slash, and
its parts. -/
theorem names_ofLocation {place : Location} (hne : place ≠ []) (h : IsProper place) :
    names (ofLocation place) = [] :: place := by
  have hj : Text.splitOn '/' (Text.join "/" place) = place :=
    Text.splitOn_join hne fun part hp => (h part hp).no_slash
  show Text.splitOn '/' ([] ++ '/' :: Text.join "/" place) = _
  rw [Text.splitOn_append, hj]
  rfl

theorem walk_of_isProper (stack : Location) {place : Location} (h : IsProper place) :
    walk stack place = stack ++ place := by
  induction place generalizing stack with
  | nil => rw [walk_nil, List.append_nil]
  | cons name place ih =>
    have hn := h name (by simp)
    rw [walk_cons, push, if_neg (not_or.2 ⟨hn.ne_nil, hn.ne_here⟩), if_neg hn.ne_above,
      ih _ fun m hm => h m (by simp [hm]), List.append_assoc, List.singleton_append]

/-- **A written location is read back.** -/
@[simp] theorem toLocation_ofLocation {place : Location} (h : IsProper place) :
    toLocation (ofLocation place) = place := by
  by_cases hne : place = []
  · subst hne
    rfl
  · rw [toLocation, names_ofLocation hne h, walk_cons]
    exact walk_of_isProper [] h

/-- Two locations with one path are the same. -/
theorem ofLocation_inj {place other : Location} (h : IsProper place) (h' : IsProper other)
    (he : ofLocation place = ofLocation other) : place = other := by
  rw [← toLocation_ofLocation h, he, toLocation_ofLocation h']

/-- The names that count of a written location are its parts. -/
theorem properNames_ofLocation {place : Location} (h : IsProper place) :
    properNames (ofLocation place) = place := by
  by_cases hne : place = []
  · subst hne
    rfl
  · rw [properNames, names_ofLocation hne h, List.filter_cons_of_neg (by simp),
      List.filter_eq_self]
    intro name hn
    simp [(h name hn).ne_nil, (h name hn).ne_here]

/-! ## Normalizing

Names are read on a stack, and whatever holds of all names of a path holds of
what is left on it. -/

/-- **What is true of the names on a stack stays true** while names are read
on it, if it is true of those that go down. -/
theorem forall_mem_walk {P : Text → Prop} {stack : Location} (h : ∀ name ∈ stack, P name)
    {ns : List Text} (hns : ∀ name ∈ ns, name ≠ [] → name ≠ here → name ≠ above → P name) :
    ∀ name ∈ walk stack ns, P name := by
  induction ns generalizing stack with
  | nil => exact h
  | cons name ns ih =>
    rw [List.forall_mem_cons] at hns
    rw [walk_cons, push]
    split
    · exact ih h hns.2
    next hhere =>
      rw [not_or] at hhere
      split
      · exact ih (fun m hm => h m ((List.dropLast_prefix _).mem hm)) hns.2
      next habove =>
        refine ih (fun m hm => ?_) hns.2
        rcases List.mem_append.1 hm with hm | hm
        · exact h m hm
        · rw [List.mem_singleton.1 hm]
          exact hns.1 hhere.1 hhere.2 habove

/-- Names without slashes and null characters lead to a location whose parts
can be names. -/
theorem IsProper.walk {stack : Location} (h : IsProper stack) {ns : List Text}
    (hs : ∀ name ∈ ns, '/' ∉ name) (hn : ∀ name ∈ ns, '\x00' ∉ name) :
    IsProper (walk stack ns) :=
  forall_mem_walk h fun name hm hne hhere habove => ⟨hne, hhere, habove, hs name hm, hn name hm⟩

theorem no_slash_of_mem_names {path : Text} : ∀ name ∈ names path, '/' ∉ name :=
  Text.not_mem_of_mem_splitOn

theorem mem_of_mem_names {path : Text} {c : Char} :
    ∀ name ∈ names path, c ∈ name → c ∈ path := by
  rw [names]
  induction path with
  | nil => simp [Text.splitOn]
  | cons d t ih =>
    obtain ⟨first, parts, ht⟩ := List.exists_cons_of_ne_nil (Text.splitOn_ne_nil '/' t)
    rw [ht, List.forall_mem_cons] at ih
    rw [Text.splitOn]
    by_cases hd : d = '/'
    · rw [if_pos hd, ht, List.forall_mem_cons, List.forall_mem_cons]
      exact ⟨by simp, fun h => List.mem_cons_of_mem d (ih.1 h),
        fun n hn h => List.mem_cons_of_mem d (ih.2 n hn h)⟩
    · rw [if_neg hd, ht, List.forall_mem_cons]
      refine ⟨fun h => ?_, fun n hn h => List.mem_cons_of_mem d (ih.2 n hn h)⟩
      rcases List.mem_cons.1 h with rfl | h
      · exact List.mem_cons_self
      · exact List.mem_cons_of_mem d (ih.1 h)

theorem mem_ofLocation {place : Location} {name : Text} (hname : name ∈ place) {c : Char}
    (hc : c ∈ name) : c ∈ ofLocation place := by
  obtain ⟨front, rest, rfl⟩ := List.append_of_mem hname
  refine List.mem_cons_of_mem _ ?_
  have hrest : c ∈ Text.join "/" (name :: rest) := by
    cases rest with
    | nil => exact hc
    | cons next rest => exact List.mem_append_left _ (List.mem_append_left _ hc)
  by_cases hf : front = []
  · rwa [hf]
  · rw [Text.join_append _ hf (List.cons_ne_nil _ _)]
    exact List.mem_append_right _ hrest

/-- A normalized path is the location of its names written, but for a slash
more at its beginning. -/
theorem normalize_eq_or (path : Text) :
    normalize path = ofLocation (toLocation path)
      ∨ normalize path = '/' :: ofLocation (toLocation path) := by
  rw [normalize]
  split
  · exact Or.inr rfl
  · exact Or.inl rfl

/-- **A normalized path is a written location**, but for a slash more at its
beginning, where it holds no null character. -/
theorem normalize_cases {path : Text} (h : '\x00' ∉ normalize path) :
    ∃ place, IsProper place
      ∧ (normalize path = ofLocation place ∨ normalize path = '/' :: ofLocation place) := by
  refine ⟨toLocation path, fun name hname => ?_, normalize_eq_or path⟩
  have hnull : '\x00' ∉ name := fun h0 => by
    have hmem := mem_ofLocation hname h0
    rcases normalize_eq_or path with he | he <;> rw [he] at h
    · exact h hmem
    · exact h (List.mem_cons_of_mem _ hmem)
  have hslash : ∀ name ∈ toLocation path, name ≠ [] ∧ name ≠ here ∧ name ≠ above ∧ '/' ∉ name :=
    forall_mem_walk (fun _ hm => by cases hm) fun name hm hne hhere habove =>
      ⟨hne, hhere, habove, no_slash_of_mem_names name hm⟩
  obtain ⟨hne, hhere, habove, hs⟩ := hslash name hname
  exact ⟨hne, hhere, habove, hs, hnull⟩

/-- A path that does not begin with two slashes is normalized to its
location. -/
theorem normalize_eq {path : Text} (hs : path.tail.head? ≠ some '/') :
    normalize path = ofLocation (toLocation path) := by
  have hslash : Text.startsWith path "//" = false := by
    cases path with
    | nil => rfl
    | cons c t =>
      cases t with
      | nil => simp [Text.startsWith, List.isPrefixOf]
      | cons d t =>
        have : d ≠ '/' := by simpa using hs
        simp [Text.startsWith, List.isPrefixOf, Ne.symm this]
  rw [normalize, hslash]
  rfl

/-- A location written below the root begins with one slash only. -/
theorem tail_head?_ofLocation {place : Location} (h : IsProper place) (hne : place ≠ []) :
    (ofLocation place).tail.head? ≠ some '/' := by
  obtain ⟨name, others, rfl⟩ := List.exists_cons_of_ne_nil hne
  have hn := h name (by simp)
  obtain ⟨c, t, rfl⟩ := List.exists_cons_of_ne_nil hn.ne_nil
  have hc : c ≠ '/' := fun hc => hn.no_slash (by simp [hc])
  have hhead : (ofLocation ((c :: t) :: others)).tail.head? = some c := by
    cases others <;> rfl
  rw [hhead]
  simpa using hc

/-- A null character in a written location is in one of its parts. -/
theorem no_null_ofLocation {place : Location} (h : IsProper place) :
    '\x00' ∉ ofLocation place := by
  intro hc
  rcases List.mem_cons.1 hc with hc | hc
  · exact absurd hc (by decide)
  · rcases Text.mem_join hc with hc | ⟨name, hn, hc⟩
    · exact absurd hc (by decide)
    · exact (h name hn).no_null hc

/-- A written location with a name more has that name after its last slash. -/
theorem ofLocation_concat {place : Location} (hne : place ≠ []) (name : Text) :
    ofLocation (place ++ [name]) = ofLocation place ++ '/' :: name := by
  rw [ofLocation, Text.join_append _ hne (by simp), ofLocation]
  simp [Text.join]

/-- A location written below the root does not end with a slash. -/
theorem getLast?_ofLocation {place : Location} (h : IsProper place) (hne : place ≠ []) :
    (ofLocation place).getLast? ≠ some '/' := by
  obtain ⟨front, name, rfl⟩ : ∃ front name, place = front ++ [name] :=
    ⟨_, _, (List.dropLast_concat_getLast hne).symm⟩
  have hname := h name (by simp)
  have hlast : ∀ t : Text, (t ++ '/' :: name).getLast? ≠ some '/' := by
    intro t hl
    obtain ⟨first, c, rfl⟩ : ∃ first c, name = first ++ [c] :=
      ⟨_, _, (List.dropLast_concat_getLast hname.ne_nil).symm⟩
    have : t ++ '/' :: (first ++ [c]) = (t ++ '/' :: first) ++ [c] := by simp
    rw [this, List.getLast?_concat, Option.some_inj] at hl
    exact hname.no_slash (by simp [hl])
  by_cases hf : front = []
  · subst hf
    exact hlast []
  · rw [ofLocation_concat hf]
    exact hlast _

/-- **Normalizing leaves a written location as it is**, since there is
nothing in it to be left out. -/
theorem normalize_ofLocation {place : Location} (h : IsProper place) :
    normalize (ofLocation place) = ofLocation place := by
  rw [normalize_eq ?_, toLocation_ofLocation h]
  by_cases hne : place = []
  · subst hne
    decide
  · exact tail_head?_ofLocation h hne

/-! ## Splitting

The part up to the last slash of a written location is the location above it.
-/

/-- A written location has no slashes at its end that could be dropped. -/
theorem dropSlashes_ofLocation {place : Location} (h : IsProper place) :
    dropSlashes (ofLocation place) = ofLocation place := by
  by_cases hne : place = []
  · subst hne
    rfl
  · have hlast := getLast?_ofLocation h hne
    rw [dropSlashes]
    split
    · rfl
    · obtain ⟨front, c, hc⟩ : ∃ front c, ofLocation place = front ++ [c] :=
        ⟨_, _, (List.dropLast_concat_getLast (List.cons_ne_nil _ _)).symm⟩
      rw [hc, List.getLast?_concat] at hlast
      rw [hc, List.reverse_append, List.reverse_singleton, List.singleton_append,
        List.dropWhile_cons_of_neg (by simpa using hlast), List.reverse_cons, List.reverse_reverse]

/-- A slash after a location written below the root is dropped. -/
theorem dropSlashes_ofLocation_append {place : Location} (h : IsProper place) (hne : place ≠ []) :
    dropSlashes (ofLocation place ++ ['/']) = ofLocation place := by
  have hlast := getLast?_ofLocation h hne
  obtain ⟨front, c, hc⟩ : ∃ front c, ofLocation place = front ++ [c] :=
    ⟨_, _, (List.dropLast_concat_getLast (List.cons_ne_nil _ _)).symm⟩
  rw [hc, List.getLast?_concat] at hlast
  have hc' : c ≠ '/' := by simpa using hlast
  rw [dropSlashes, hc, if_neg (by simp [hc']), List.append_assoc, List.singleton_append,
    List.reverse_append, List.reverse_cons, List.reverse_cons, List.reverse_nil, List.nil_append,
    List.append_assoc, List.singleton_append, List.singleton_append,
    List.dropWhile_cons_of_pos (by simp), List.dropWhile_cons_of_neg (by simpa using hc'),
    List.reverse_cons, List.reverse_reverse]

/-- **A path is split at its last slash.** -/
theorem split_append {t name : Text} (h : '/' ∉ name) :
    split (t ++ '/' :: name) = (dropSlashes (t ++ ['/']), name) := by
  have hname : ((t ++ '/' :: name).reverse.takeWhile (· ≠ '/')).reverse = name := by
    rw [List.reverse_append, List.reverse_cons, List.append_assoc, List.singleton_append,
      List.takeWhile_append_of_pos, List.takeWhile_cons_of_neg (by simp), List.append_nil,
      List.reverse_reverse]
    intro c hc
    rw [List.mem_reverse] at hc
    simpa using fun hs : c = '/' => h (hs ▸ hc)
  have htake : (t ++ '/' :: name).take ((t ++ '/' :: name).length - name.length) = t ++ ['/'] := by
    have : t ++ '/' :: name = (t ++ ['/']) ++ name := by simp
    rw [this, List.length_append, Nat.add_sub_cancel, List.take_left]
  rw [split, hname, htake]

/-- **A written location is split** into the directory and the name in it. -/
theorem split_ofLocation {place : Location} {name : Text} (h : IsProper (place ++ [name])) :
    split (ofLocation (place ++ [name])) = (ofLocation place, name) := by
  have hname := h name (by simp)
  by_cases hne : place = []
  · subst hne
    exact split_append (t := []) hname.no_slash
  · rw [ofLocation_concat hne, split_append hname.no_slash,
      dropSlashes_ofLocation_append h.of_append_left hne]

theorem parent_ofLocation {place : Location} (h : IsProper place) :
    parent (ofLocation place) = ofLocation place.dropLast := by
  by_cases hne : place = []
  · subst hne
    decide
  · rw [← List.dropLast_concat_getLast hne] at h ⊢
    rw [parent, split_ofLocation h, List.dropLast_concat]

/-! ## Comparing

What two written locations have in common is their longest common beginning.
-/

/-- The common beginning of two lists is a beginning of the first. -/
theorem commonStart_prefix_left (place other : List Text) : commonStart place other <+: place := by
  induction place generalizing other with
  | nil => simp [commonStart]
  | cons a place ih =>
    cases other with
    | nil => simp [commonStart]
    | cons b other =>
      by_cases hab : a = b
      · simpa [commonStart, hab, List.cons_prefix_cons] using ih other
      · simp [commonStart, hab]

/-- It is a beginning of the second as well. -/
theorem commonStart_prefix_right (place other : List Text) : commonStart place other <+: other := by
  induction place generalizing other with
  | nil => simp [commonStart]
  | cons a place ih =>
    cases other with
    | nil => simp [commonStart]
    | cons b other =>
      by_cases hab : a = b
      · simpa [commonStart, hab, List.cons_prefix_cons] using ih other
      · simp [commonStart, hab]

/-- The common beginning of two lists is the first of them exactly when the
second goes on from it. -/
theorem commonStart_eq_left_iff (place other : List Text) :
    commonStart place other = place ↔ place <+: other := by
  induction place generalizing other with
  | nil => simp [commonStart]
  | cons a place ih =>
    cases other with
    | nil => simp [commonStart]
    | cons b other =>
      by_cases hab : a = b
      · simp [commonStart, hab, ih, List.cons_prefix_cons]
      · simp [commonStart, hab, List.cons_prefix_cons]

/-- **One location lies strictly below another** when it goes on from it. A
location is not below itself, so a root is not a file under it. -/
def Below (root place : Location) : Prop := root <+: place ∧ root ≠ place

instance (root place : Location) : Decidable (Below root place) :=
  inferInstanceAs (Decidable (root <+: place ∧ root ≠ place))

/-- **Comparing written locations** as paths is comparing them as
locations. -/
theorem isBelow_ofLocation_iff {root place : Location} (h : IsProper root) (h' : IsProper place) :
    isBelow (ofLocation root) (ofLocation place) = true ↔ Below root place := by
  rw [isBelow, common, properNames_ofLocation h, properNames_ofLocation h', Bool.and_eq_true,
    decide_eq_true_iff, decide_eq_true_iff, Below]
  refine and_congr ⟨fun he => ?_, fun hp => ?_⟩ (not_congr ⟨fun he => ?_, fun he => ?_⟩)
  · have hc : IsProper (commonStart root place) := h.of_prefix (commonStart_prefix_left root place)
    exact (commonStart_eq_left_iff root place).1 (ofLocation_inj hc h he)
  · rw [(commonStart_eq_left_iff root place).2 hp]
  · exact (ofLocation_inj h' h he).symm
  · rw [he]

end Path

end EditBlocks
