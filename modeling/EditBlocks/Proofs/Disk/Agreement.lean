import EditBlocks.Proofs.Disk.RealPath

/-!
# Two readings of a path

`Disk.realPath` replaces the links of a path in memory; `Disk.locate` is how
the system follows the path when it is opened. They are different readings.
The first does not care whether anything is there, remembers the links it has
met, and gives up at one that leads to itself. The second fails where
something is missing, and counts links instead of remembering them.

Where the system finds a location, the first reading ends there
(`Disk.realPath_of_reach?`). The way that the system takes serves as a clock
for it: reading a link's target takes fewer links than the link itself
(`Disk.LinkWay`), so no link can be met inside its own target.

The other direction does not hold and is not needed. A path can be read to
its end where nothing is, and no run opens a path because of that.
-/

namespace EditBlocks.Disk

variable {d : Disk}

/-! ## Links and what they lead to

A trail is at a location when it is written like it. Reading goes from trail
to trail as the system goes from location to location. -/

/-- The trail from the root to a location. -/
def Trail.at (place : Location) : Trail := ⟨true, 0, place⟩

theorem Trail.up_at (place : Location) : (Trail.at place).up = Trail.at place.dropLast := by
  by_cases h : place = []
  · subst h
    rfl
  · exact if_pos h

theorem Trail.at_inj {place place' : Location} (h : Trail.at place = Trail.at place') :
    place = place' := congrArg Trail.names h

theorem Trail.at_linkStart (place : Location) (target : Text) :
    (if Path.isAbsolute target then Trail.root else Trail.at place)
      = Trail.at (linkStart place target) := by
  rw [linkStart]
  split <;> rfl

/-- **What a link at a location leads to**, with the number of links that
reading its target takes. -/
def LinkWay (d : Disk) (place : Location) (cost : Nat) (found : Place) : Prop :=
  ∃ target, d.node? place = some (.link target)
    ∧ d.Leads true (linkStart place.dropLast target) (Path.names target) cost found

theorem LinkWay.unique {place : Location} {cost cost' : Nat} {found found' : Place}
    (h : d.LinkWay place cost found) (h' : d.LinkWay place cost' found') :
    cost = cost' ∧ found = found' := by
  obtain ⟨target, hnode, hw⟩ := h
  obtain ⟨target', hnode', hw'⟩ := h'
  rw [hnode] at hnode'
  cases hnode'
  exact hw.unique hw'

/-- **A way through a link** goes to where the link leads and on from
there. -/
theorem Leads.through {place : Location} {name target : Text} {rest : List Text} {links : Nat}
    {found : Place} (h : d.Leads true place (name :: rest) links found) (hn : IsEntry name)
    (hnode : d.node? (place ++ [name]) = some (.link target)) :
    ∃ middle before after found', d.LinkWay (place ++ [name]) before middle
      ∧ d.Leads true middle.location rest after found'
      ∧ found'.location = found.location ∧ links = before + after + 1 := by
  have he := h.of_entry hn
  rw [hnode] at he
  obtain ⟨after, rfl, hw⟩ := (if_neg (by simp)).mp he
  have hdir : (place ++ [name]).dropLast = place := List.dropLast_concat
  by_cases hr : rest = []
  · subst hr
    rw [List.append_nil] at hw
    exact ⟨found, after, 0, .present found.location, ⟨target, hnode, hdir.symm ▸ hw⟩,
      .nil _, rfl, rfl⟩
  · obtain ⟨middle, before, after, hb, ha, rfl, -⟩ := hw.split hr
    exact ⟨.present middle, before, after, found, ⟨target, hnode, hdir.symm ▸ hb⟩, ha, rfl, rfl⟩

/-! ## The memory of links

What is remembered of links that have been read fits the way that the system
takes, and those that are being read are all ahead of it. -/

/-- **What is remembered of links is right**, and the links without a
remembered end are those whose targets are being read. -/
structure Seen.Fits (d : Disk) (reading : List Location) (seen : Seen) : Prop where
  /-- A remembered end is where the link leads. -/
  known : ∀ e ∈ seen, ∀ known, e.2 = some known → ∃ place cost found,
    e.1 = Trail.at place ∧ d.LinkWay place cost found ∧ known = Trail.at found.location
  /-- A link without one is being read. -/
  reading : ∀ trail e, seen.find? (fun e => e.1 = trail) = some e → e.2 = none →
    ∃ place ∈ reading, trail = Trail.at place

theorem Seen.fits_nil : Seen.Fits d [] [] :=
  ⟨fun _ h => (nomatch h), fun _ _ h => (nomatch h)⟩

theorem Seen.Fits.begin {reading : List Location} {seen : Seen} (h : seen.Fits d reading)
    (place : Location) : Seen.Fits d (place :: reading) ((Trail.at place, none) :: seen) where
  known e he known hk := by
    rcases List.mem_cons.1 he with rfl | he
    · exact nomatch hk
    · exact h.known e he known hk
  reading trail e hf he := by
    by_cases ht : Trail.at place = trail
    · exact ⟨place, List.mem_cons_self, ht.symm⟩
    · rw [List.find?_cons_of_neg (by simpa using ht)] at hf
      obtain ⟨other, ho, rfl⟩ := h.reading trail e hf he
      exact ⟨other, List.mem_cons_of_mem _ ho, rfl⟩

theorem Seen.Fits.finish {reading : List Location} {seen : Seen} {place : Location} {cost : Nat}
    {found : Place} (h : seen.Fits d (place :: reading)) (hw : d.LinkWay place cost found) :
    Seen.Fits d reading ((Trail.at place, some (Trail.at found.location)) :: seen) where
  known e he known hk := by
    rcases List.mem_cons.1 he with rfl | he
    · exact ⟨place, cost, found, rfl, hw, (Option.some.inj hk).symm⟩
    · exact h.known e he known hk
  reading trail e hf he := by
    by_cases ht : Trail.at place = trail
    · rw [List.find?_cons_of_pos (by simpa using ht)] at hf
      cases hf
      exact nomatch he
    · rw [List.find?_cons_of_neg (by simpa using ht)] at hf
      obtain ⟨other, ho, rfl⟩ := h.reading trail e hf he
      rcases List.mem_cons.1 ho with rfl | ho
      · exact absurd rfl ht
      · exact ⟨other, ho, rfl⟩

/-- **What is remembered allows a way of so many links to be read** to a
depth. Each of the links being read takes more links than are left, so none
of them is met again; and a link's target, which is read one deeper, takes
fewer links than the link. -/
structure Seen.Allows (d : Disk) (links depth : Nat) (reading : List Location)
    (seen : Seen) : Prop where
  fits : seen.Fits d reading
  later : ∀ place ∈ reading, ∃ cost found, links ≤ cost ∧ d.LinkWay place cost found
  deep : links < depth

section Allows

variable {links depth : Nat} {reading : List Location} {seen : Seen} {place : Location}
  {cost : Nat} {found : Place}

/-- Something can be read yet. -/
theorem Seen.Allows.exists_succ (h : seen.Allows d links depth reading) :
    ∃ less, depth = less + 1 :=
  Nat.exists_eq_add_one_of_ne_zero (Nat.ne_of_gt (Nat.zero_lt_of_lt h.deep))

/-- What allows many links allows fewer, whatever has been remembered
meanwhile. -/
theorem Seen.Allows.of_le {seen' : Seen} {fewer : Nat} (h : seen.Allows d links depth reading)
    (hle : fewer ≤ links) (hseen : seen'.Fits d reading) :
    seen'.Allows d fewer depth reading where
  fits := hseen
  later place hp := by
    obtain ⟨cost, found, hlater, hw⟩ := h.later place hp
    exact ⟨cost, found, hle.trans hlater, hw⟩
  deep := hle.trans_lt h.deep

/-- **No link is met inside its own target**: it would take more links than
are left. -/
theorem Seen.Allows.not_mem (h : seen.Allows d links depth reading)
    (hw : d.LinkWay place cost found) (hlt : cost < links) : place ∉ reading := by
  intro hp
  obtain ⟨more, found', hlater, hw'⟩ := h.later place hp
  obtain ⟨rfl, -⟩ := hw.unique hw'
  omega

theorem Seen.Allows.begin (h : seen.Allows d links (depth + 1) reading)
    (hw : d.LinkWay place cost found) (hlt : cost < links) :
    Seen.Allows d cost depth (place :: reading) ((Trail.at place, none) :: seen) where
  fits := h.fits.begin place
  later other ho := by
    rcases List.mem_cons.1 ho with rfl | ho
    · exact ⟨cost, found, le_rfl, hw⟩
    · obtain ⟨more, found', hlater, hw'⟩ := h.later other ho
      exact ⟨more, found', hlt.le.trans hlater, hw'⟩
  deep := Nat.lt_of_lt_of_le hlt (Nat.le_of_lt_succ h.deep)

end Allows

/-! ## The agreement

By induction on the number of links of the way, and within that on the names.
-/

/-- **Where a way leads, reading names ends.** The induction is on the links
of the way, and within a number of links on the names. -/
theorem readDeep_of_leads (hd : d.IsTree) {links depth : Nat} {reading : List Location}
    {seen : Seen} {place : Location} {names : List Text} {found : Place}
    (h : d.Leads true place names links found) (hn : Readable names)
    (hseen : seen.Allows d links depth reading) :
    ∃ seen', readDeep d depth seen (.at place) names = .done (.at found.location) seen'
      ∧ seen'.Fits d reading := by
  induction links using Nat.strong_induction_on
    generalizing depth reading seen place names found with
  | _ links hlinks =>
  obtain ⟨depth, rfl⟩ := hseen.exists_succ
  show ∃ seen', readNames d (readDeep d depth) seen _ names = _ ∧ _
  induction names generalizing place with
  | nil =>
    cases h
    exact ⟨seen, rfl, hseen.fits⟩
  | cons name rest ih =>
    have hrest := hn.tail
    have hlocation : ((Trail.at place).down name).location d.workingDir = place ++ [name] := rfl
    by_cases hhere : name = [] ∨ name = Path.here
    · rw [readNames_skip hhere]
      exact ih (h.of_skip hhere) hrest
    by_cases habove : name = Path.above
    · subst habove
      rw [readNames_up, Trail.up_at]
      exact ih h.of_up hrest
    have hs : IsStep name := ⟨hhere, habove, (hn name List.mem_cons_self).2⟩
    have he : IsEntry name := h.isEntry hhere habove
    have hentry := h.of_entry he
    match hnode : d.node? (place ++ [name]) with
    | some .directory =>
      rw [hnode] at hentry
      rw [readNames_down hs (by rw [hlocation, hnode]; exact fun _ h => nomatch h)]
      exact ih hentry hrest
    | none | some (.file _) =>
      rw [hnode] at hentry
      obtain ⟨rfl, rfl, rfl⟩ := hentry
      rw [readNames_down hs (by rw [hlocation, hnode]; exact fun _ h => nomatch h)]
      exact ⟨seen, rfl, hseen.fits⟩
    | some (.link target) =>
      obtain ⟨middle, before, after, found', hway, hgo, hloc, rfl⟩ := h.through he hnode
      have hbefore : before < before + after + 1 := by omega
      have hafter : after < before + after + 1 := by omega
      rw [readNames_link hs hnode, ← hloc]
      match hknown : seen.find? fun e => e.1 = (Trail.at place).down name with
      | some (trail, some known) =>
        -- the link has been read before, and what is remembered is right
        obtain ⟨place', cost, end', ht, hw, rfl⟩ :=
          hseen.fits.known _ (List.mem_of_find?_eq_some hknown) known rfl
        have hsame : trail = (Trail.at place).down name := by simpa using List.find?_some hknown
        have hplace : place' = place ++ [name] := Trail.at_inj (ht.symm.trans hsame)
        subst hplace
        obtain ⟨rfl, rfl⟩ := hw.unique hway
        rw [hknown]
        exact hlinks after hafter hgo hrest (hseen.of_le hafter.le hseen.fits)
      | some (trail, none) =>
        obtain ⟨place', hmem, ht⟩ := hseen.fits.reading _ _ hknown rfl
        exact absurd (Trail.at_inj ht ▸ hmem) (hseen.not_mem hway hbefore)
      | none =>
        -- the target is read first, and then the names after the link
        obtain ⟨target', hnode', hread⟩ := id hway
        rw [hnode] at hnode'
        cases hnode'
        rw [List.dropLast_concat] at hread
        obtain ⟨seen₁, hdone, hseen₁⟩ := hlinks before hbefore hread
          (readable_names (hd.no_null_of_link hnode)) (hseen.begin hway hbefore)
        have hdown : (Trail.at place).down name = Trail.at (place ++ [name]) := rfl
        rw [hknown, Trail.at_linkStart, hdown]
        dsimp only
        rw [hdone]
        exact hlinks after hafter hgo hrest (hseen.of_le hafter.le (hseen₁.finish hway))

/-- **Where the system finds a location, the path without links is its
path.** -/
theorem realPath_of_reach? [Nesting] (hd : d.IsTree) {path : Text} {place : Location}
    (habs : Path.isAbsolute path = true) (h : d.reach? path = some place) :
    d.realPath path = .ok (Path.ofLocation place) := by
  obtain ⟨found, hf, rfl⟩ := reach?_eq_some_iff.1 h
  obtain ⟨⟨hnull, _, _⟩, links, hle, hw⟩ := locate_eq_ok_iff.1 hf
  rw [start, if_pos habs] at hw
  have hallows : Seen.Allows d links Nesting.links [] [] :=
    ⟨Seen.fits_nil, fun _ h => absurd h List.not_mem_nil, hle.trans_lt Nesting.maxLinks_lt_links⟩
  obtain ⟨seen', hread, -⟩ := readDeep_of_leads hd hw (readable_names hnull) hallows
  have hproper := (isIn_of_locate hd hf).isProper hd
  unfold Disk.realPath
  rw [habs, if_pos rfl]
  dsimp only
  rw [show Trail.root = Trail.at [] from rfl, hread]
  show Except.ok (Path.normalize (Path.join _ (Path.ofLocation found.location))) = _
  rw [join_ofLocation_right, Path.normalize_ofLocation hproper]

end EditBlocks.Disk
