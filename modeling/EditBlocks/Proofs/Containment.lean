import EditBlocks.Host.Usual
import EditBlocks.Proofs.Checkout

/-!
# What stays outside the root

An edit's path is checked as a text and then opened as a path, and the two
can part: a path that leads through a link to itself is left with links in it
by the check, and when it is opened these are followed out of the root
(`Disk.not_always_contained`).

`Disk.containment` says when the file that is opened is the one that was
checked: exactly when the checked path, checked again, passes. That is so for
every path that is read through. Then loading does not depend on what files
outside the root hold, and storing changes nothing outside, but for making
the root itself and the directories above it where they are missing.

That nothing changes outside is an invariant of the disk while files are
stored (`Disk.KeepsOutside`). One file keeps it, since the directories that
are made for it lie above its own location, and any number of files do,
however far storing gets.
-/

namespace EditBlocks.Disk

open Snapshot

section

variable [Host] {d d' d'' : Disk} {root path r : Text} {config : RunConfig} {paths : List Text}

/-- **A disk changed below a location only**, that location and those above
it made where they were missing. -/
def KeepsOutside (top : Location) (d d' : Disk) : Prop :=
  ∀ place, d'.node? place = d.node? place ∨ Path.Below top place
    ∨ place <+: top ∧ d.node? place = none ∧ d'.node? place = some .directory

omit [Host] in
theorem KeepsOutside.refl (top : Location) (d : Disk) : KeepsOutside top d d :=
  fun _ => Or.inl rfl

omit [Host] in
theorem KeepsOutside.trans {top : Location} (h : KeepsOutside top d d')
    (h' : KeepsOutside top d' d'') : KeepsOutside top d d'' := by
  intro place
  rcases h place with hsame | hbelow | ⟨hp, hnone, hdir⟩
  · rw [← hsame]
    exact h' place
  · exact Or.inr (Or.inl hbelow)
  · rcases h' place with hsame' | hbelow' | ⟨-, hnone', -⟩
    · exact Or.inr (Or.inr ⟨hp, hnone, hsame'.trans hdir⟩)
    · exact Or.inr (Or.inl hbelow')
    · rw [hdir] at hnone'
      cases hnone'

omit [Host] in
/-- Directories above something below a location are below it or above it. -/
theorem KeepsOutside.of_extends {top place : Location} (hb : Path.Below top place)
    (h : d.Extends (· <+: place.dropLast) d') : KeepsOutside top d d' := by
  intro other
  rcases h.made other with hsame | ⟨hp, hnone, hdir⟩
  · exact Or.inl hsame
  · have hp : other <+: place := hp.trans (List.dropLast_prefix place)
    rcases List.prefix_or_prefix_of_prefix hp hb.1 with hup | hdown
    · exact Or.inr (Or.inr ⟨hup, hnone, hdir⟩)
    · by_cases he : top = other
      · exact Or.inr (Or.inr ⟨he ▸ List.prefix_refl _, hnone, hdir⟩)
      · exact Or.inr (Or.inl ⟨hdown, he⟩)

omit [Host] in
theorem KeepsOutside.put {top place : Location} (hb : Path.Below top place) {node : Node}
    (ht : d.Takes place node) : KeepsOutside top d (d.put place node) := by
  intro other
  rw [node?_put d node other ht.ne_nil]
  split
  next he => exact Or.inr (Or.inl (he ▸ hb))
  · exact Or.inl rfl

/-- **Storing a file under a path that is read through** changes nothing
outside the root. -/
theorem keepsOutside_storeFile (hd : d.IsTree) (hr : d.realPath root = .ok r)
    (hread : d.isReadThrough (Path.join r path) = true) {s : Snapshot} {failed : Option Failure}
    (h : storeFile d root s config path = (d', failed)) :
    KeepsOutside (Path.toLocation r) d d' := by
  -- the directories are made on the way to the file that was checked
  have hmake : ∀ {full}, d.resolve root path config.exclude = .ok full →
      ∃ place, full = Path.ofLocation place ∧ Path.Below (Path.toLocation r) place
        ∧ Path.IsProper place ∧ d.LinkFree place
        ∧ d.Extends (· <+: place.dropLast) (d.makeDirectories (Path.parent full)).1 := by
    intro full hfull
    obtain ⟨place, rfl, hp, hf, hb⟩ := resolve_of_isReadThrough hfull hr hread
    refine ⟨place, rfl, hb, hp, hf, ?_⟩
    rw [Path.parent_ofLocation hp]
    exact extends_makeDirectories_ofLocation hd hp.dropLast
      (hf.of_prefix (List.dropLast_prefix place))
  rcases storeFile_cases hd h with ⟨-, ⟨-, rfl⟩ | ⟨full, hfull, rfl⟩⟩ |
    ⟨full, d₁, target, hfull, rfl, htarget, htakes, hout⟩
  · exact .refl _ _
  · obtain ⟨place, -, hb, -, -, hext⟩ := hmake hfull
    exact .of_extends hb hext
  · obtain ⟨place, rfl, hb, hp, hf, hext⟩ := hmake hfull
    -- and the file that is opened is that file
    obtain rfl := eq_of_reach?_ofLocation hp (hf.of_grows hext.grows) htarget
    rcases hout with ⟨-, rfl⟩ | ⟨-, e, bytes, -, -, rfl⟩
    all_goals exact (KeepsOutside.of_extends hb hext).trans (.put hb (htakes _))

/-- **So does storing several**, however far it gets. -/
theorem keepsOutside_storeFiles (hd : d.IsTree) (hr : d.realPath root = .ok r)
    (hread : ∀ path ∈ paths, d.isReadThrough (Path.join r path) = true) {s : Snapshot}
    {failed : Option Failure} (h : storeFiles root s config d paths = (d', failed)) :
    KeepsOutside (Path.toLocation r) d d' := by
  induction paths generalizing d with
  | nil =>
    cases h
    exact .refl _ _
  | cons path rest ih =>
    have hfirst := hread path List.mem_cons_self
    rcases storeFiles_cons_eq_iff.1 h with ⟨-, hstep⟩ | ⟨d₁, hstep, hrest⟩
    · exact keepsOutside_storeFile hd hr hfirst hstep
    · obtain ⟨hd₁, hg⟩ := grows_of_storeFile hd hstep
      refine (keepsOutside_storeFile hd hr hfirst hstep).trans
        (ih hd₁ ((hg.realPath root).trans hr) (fun other ho => ?_) hrest)
      rw [hg.isReadThrough]
      exact hread other (List.mem_cons_of_mem _ ho)

/-- **Containment under links.** For a path that is resolved, the location
that opening it reaches lies below the root exactly when the resolved path
passes the check again, and it does so if the edit's path is read through.
Where what is reached lies below the root, loading gives the same whatever
the files elsewhere hold; and storing under paths that are read through
changes nothing outside the root. -/
theorem containment (hd : d.IsTree) (hr : d.realPath root = .ok r) (config : RunConfig) :
    (∀ path full place, d.resolve root path config.exclude = .ok full →
      d.reach? full = some place →
        (Path.Below (Path.toLocation r) place
          ↔ ∃ again, d.realPath full = .ok again ∧ isBelow r again = true)
        ∧ (d.isReadThrough (Path.join r path) = true → Path.Below (Path.toLocation r) place))
    ∧ (∀ paths d', d'.IsTree → d.Grows d' → d'.Grows d →
      (∀ place, Path.Below (Path.toLocation r) place → d'.node? place = d.node? place) →
      (∀ path ∈ paths, ∀ place, d.destination? root config.exclude path = some place →
        Path.Below (Path.toLocation r) place) →
        load d' root paths config = load d root paths config)
    ∧ (∀ before after, (∀ path ∈ before.changed after, d.isReadThrough (Path.join r path) = true) →
      KeepsOutside (Path.toLocation r) d (store d root before after config).1) := by
  refine ⟨fun path full place hfull hplace => ⟨?_, fun hread => ?_⟩, ?_, ?_⟩
  · exact below_iff_of_resolve hd hfull hr hplace
  · obtain ⟨place', rfl, hp, hf, hb⟩ := resolve_of_isReadThrough hfull hr hread
    obtain rfl := eq_of_reach?_ofLocation hp hf hplace
    exact hb
  · intro paths d' hd' hg hg' hsame hbelow
    exact load_congr hd hd' hg hg' fun path hpath place hplace =>
      hsame place (hbelow path hpath place hplace)
  · intro before after hread
    obtain ⟨failed, hstore, -⟩ := exists_storeFiles_of_store d root before after config
    exact keepsOutside_storeFiles hd hr hread hstore

end

/-! ## A root with a way out

Below the root stand a link to itself and one that leads out. A path over the
first and then back to the second is not read to its end by the check. -/

/-- A root in which one link leads to itself and another out of the root. -/
def leaky : Disk where
  nodes := .ofList [
    (["srv"], .directory),
    (["srv", "repo"], .directory),
    (["srv", "repo", "notes.txt"], .file []),
    (["srv", "repo", "loop"], .link "loop"),
    (["srv", "repo", "out"], .link "../outside"),
    (["srv", "outside"], .directory),
    (["srv", "outside", "secret.txt"], .file [])]
  workingDir := ["srv"]

/-- **What is opened need not lie below the root**: past a link to itself the
check leaves the other link as it stands. -/
theorem not_always_contained :
    ¬∀ (d : Disk) (root r path full : Text) (exclude : List Value) (place : Location), d.IsTree →
      d.realPath root = .ok r → d.resolve root path exclude = .ok full →
      d.reach? full = some place → Path.Below (Path.toLocation r) place := by
  intro h
  have hout : Path.Below (Path.toLocation "/srv/repo") ["srv", "outside", "secret.txt"] :=
    h leaky "repo" "/srv/repo" "loop/../out/secret.txt" "/srv/repo/out/secret.txt" [] _
      (by decide +kernel) (by decide +kernel) (by decide +kernel) (by decide +kernel)
  exact absurd hout (by decide +kernel)

/-- Past the other paths there is no way out. -/
theorem containment_leaky :
    leaky.IsTree ∧ leaky.realPath "repo" = .ok "/srv/repo"
      ∧ Path.Below (Path.toLocation "/srv/repo") ["srv", "repo", "notes.txt"] :=
  have hd : leaky.IsTree := by decide +kernel
  have hr : leaky.realPath "repo" = .ok "/srv/repo" := by decide +kernel
  ⟨hd, hr, ((containment hd hr RunConfig.usual).1 "./notes.txt" "/srv/repo/notes.txt" _
    (by decide +kernel) (by decide +kernel)).2 (by decide +kernel)⟩

end EditBlocks.Disk
