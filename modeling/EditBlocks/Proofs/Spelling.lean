import EditBlocks.Host.Usual
import EditBlocks.Proofs.Block.Writing
import EditBlocks.Proofs.Command

/-!
# Several paths for one file

Files are read, edited and changed under the paths that the response spells,
and only the disk knows which spellings are one file. Each spelling starts
from the text that the file had, and what is stored under the spelling that
comes last is all that is left (`Snapshot.textAt?_of_storeFiles`).

So the edits of a file are all in it after a run exactly when together they
leave what those of the last spelling leave alone
(`Snapshot.KeepsLast.editsMade_iff`): always where the response spells the
file's path in one way, and not for two edits under two spellings
(`Program.not_all_made`).

What is compared are two lists of edits on one text. The edits that lead to a
file, in the order of the response, are what should have been made
(`Disk.editsAt`); the edits of one spelling are what was made, since the
snapshot keeps each spelling for itself. They differ as soon as two spellings
have edits that change something, and whether they come to the same is a
question about the edits and no longer about the disk.
-/

namespace EditBlocks

section

variable [Host] {d d₁ d' : Disk} {root r path : Text} {config : RunConfig} {edits : List Edit}
  {before after : Snapshot} {place : Location}

namespace Disk

/-- **The edits of a file**: those whose paths lead to its location, in the
order of the response. -/
def editsAt (d : Disk) (root : Text) (exclude : List Value) (edits : List Edit)
    (place : Location) : List Edit :=
  edits.filter fun e => d.destination? root exclude e.path = some place

/-- **Edits have been made** when they all succeed on the text before, one
after the other, and leave the text after. -/
def EditsMade (d d' : Disk) (e : Encoding) (edits : List Edit) (place : Location) : Prop :=
  ∃ t t', d.textAt? e place = some t ∧ Edit.applyAll edits t = .ok t'
    ∧ d'.textAt? e place = some t'

instance (d d' : Disk) (e : Encoding) (edits : List Edit) (place : Location) :
    Decidable (d.EditsMade d' e edits place) :=
  decidable_of_iff (∃ t ∈ d.textAt? e place, ∃ t' ∈ (Edit.applyAll edits t).toOption,
      d'.textAt? e place = some t')
    ⟨fun ⟨t, ht, t', ht', h⟩ => ⟨t, t', ht, toOption_eq_some_iff.1 ht', h⟩,
      fun ⟨t, t', ht, ht', h⟩ => ⟨t, ht, t', toOption_eq_some_iff.2 ht', h⟩⟩

/-- A file that holds the bytes of a text has that text, if it is read
back. -/
theorem textAt?_of_encode {e : Encoding} (hback : e.ReadsBack) {t : Text} {bytes : List UInt8}
    (hnode : d.node? place = some (.file bytes)) (h : e.encode t = .ok bytes) :
    d.textAt? e place = some t := by
  rw [textAt?, hnode]
  show (e.decode bytes).toOption = some t
  rw [hback h]
  rfl

end Disk

namespace Task

omit [Host] in
/-- The edited paths are those that edits name. -/
theorem mem_editedPaths_iff : path ∈ editedPaths edits ↔ ∃ e ∈ edits, e.path = path := by
  -- whatever paths the fold has gathered before
  have hfold : ∀ paths : List Text,
      path ∈ edits.foldl (fun ps e => if e.path ∈ ps then ps else ps ++ [e.path]) paths
        ↔ path ∈ paths ∨ ∃ e ∈ edits, e.path = path := by
    induction edits with
    | nil => simp
    | cons e rest ih =>
      intro paths
      rw [List.foldl_cons, ih]
      split
      next hmem =>
        constructor
        · rintro (hp | ⟨other, ho, rfl⟩)
          · exact Or.inl hp
          · exact Or.inr ⟨other, List.mem_cons_of_mem _ ho, rfl⟩
        · rintro (hp | ⟨other, ho, rfl⟩)
          · exact Or.inl hp
          · rcases List.mem_cons.1 ho with rfl | ho
            · exact Or.inl hmem
            · exact Or.inr ⟨other, ho, rfl⟩
      · rw [List.mem_append, List.mem_singleton, or_assoc]
        refine or_congr_right ⟨?_, ?_⟩
        · rintro (rfl | ⟨other, ho, rfl⟩)
          · exact ⟨e, List.mem_cons_self, rfl⟩
          · exact ⟨other, List.mem_cons_of_mem _ ho, rfl⟩
        · rintro ⟨other, ho, rfl⟩
          rcases List.mem_cons.1 ho with rfl | ho
          · exact Or.inl rfl
          · exact Or.inr ⟨other, ho, rfl⟩
  exact (hfold []).trans ⟨fun h => h.resolve_left (by simp), Or.inr⟩

end Task

namespace Snapshot

open Disk

/-- **The text that a path starts from** is that of the file it leads to,
where the path is read through: loaded if the file is there, and empty if it
is yet to come. -/
theorem textAt?_of_loaded (hd : d.IsTree) (hg : d.Grows d') (hr : d.realPath root = .ok r)
    (hread : d.isReadThrough (Path.join r path) = true) {bytes : List UInt8}
    (hdest : d'.destination? root config.exclude path = some place)
    (hfile : d'.node? place = some (.file bytes)) {e : Encoding}
    (he : Encoding.ofSetting config.encoding = .ok e)
    (h : Loaded d root config path (before.files.get? path)) :
    d.textAt? e place = some (before.contents path)
      ∧ (before.contains path = false → d.node? place = none) := by
  obtain ⟨hfull, hreach, -, hf, -⟩ := resolve_of_destination? hg hr hread hdest
  match hget : before.files.get? path with
  | some file =>
    rw [hget] at h
    cases h with
    | @file full e' place' bytes' t hfull' he' hplace' hnode' ht =>
      cases hfull.symm.trans hfull'
      cases he.symm.trans he'
      cases (hg.reach? hplace').symm.trans hreach
      refine ⟨?_, fun hc => ?_⟩
      · rw [textAt?, hnode', contents_of_get? hget]
        exact congrArg Except.toOption ht
      · rw [contains, OrderedMap.contains, hget] at hc
        cases hc
  | none =>
    rw [hget] at h
    cases h with
    | @none full hfull' hnode =>
      cases hfull.symm.trans hfull'
      -- a file there would have been loaded, and nothing else turns into a file
      have hnone : d.node? place = none := by
        match hn : d.node? place with
        | none => rfl
        | some .directory =>
          rw [hg.directory _ hn] at hfile
          cases hfile
        | some (.link target) => exact absurd hn (hf _ (List.prefix_refl _) target)
        | some (.file old) =>
          exact absurd hn (hnode place old (reach?_of_node? hd hg hf hn hreach))
      refine ⟨?_, fun _ => hnone⟩
      rw [textAt?, hnone, contents, hget]

/-- The last of some paths that leads to a location is one of them. -/
theorem mem_of_lastAt? {exclude : List Value} {paths : List Text}
    (h : lastAt? d root exclude paths place = some path) :
    path ∈ paths ∧ d.destination? root exclude path = some place := by
  have hmem := List.mem_of_getLast? h
  rw [List.mem_filter] at hmem
  exact ⟨hmem.1, of_decide_eq_true hmem.2⟩

/-- Where no last path leads, none does. -/
theorem destination?_ne_of_lastAt? {exclude : List Value} {paths : List Text}
    (h : lastAt? d root exclude paths place = none) (hp : path ∈ paths) :
    d.destination? root exclude path ≠ some place := by
  rw [lastAt?, List.getLast?_eq_none_iff, List.filter_eq_nil_iff] at h
  simpa using h path hp

/-- A changed path is one that edits name. -/
theorem mem_edited_of_mem_changed (hd : d.IsTree)
    (hload : load d root (Task.editedPaths edits) config = .ok before)
    (happly : before.applyEdits edits = .ok after) (h : path ∈ before.changed after) :
    ∃ e ∈ edits, e.path = path := by
  rcases (contains_of_applyEdits happly path).1 (mem_changed_iff.1 h).1 with hb | he
  · rcases get?_of_load hd hload path with ⟨-, hnone⟩ | ⟨hmem, -⟩
    · rw [contains, OrderedMap.contains, hnone] at hb
      cases hb
    · exact Task.mem_editedPaths_iff.1 hmem
  · exact he

omit [Host] in
/-- A path that edits name and that is not changed had its file before. -/
theorem contains_of_not_mem_changed (happly : before.applyEdits edits = .ok after)
    (he : ∃ e ∈ edits, e.path = path) (h : path ∉ before.changed after) :
    before.contains path = true ∧ before.contents path = after.contents path := by
  have hafter := (contains_of_applyEdits happly path).2 (Or.inr he)
  rw [mem_changed_iff, not_and] at h
  by_cases hb : before.contains path = true
  · exact ⟨hb, not_not.1 fun hne => h hafter fun _ => hne⟩
  · exact absurd (fun hb' => absurd hb' hb) (h hafter)

/-- **Every edit's path leads to a file** when all is stored, the paths of
edits that changed nothing included. -/
theorem exists_file_of_edited (hd : d.IsTree)
    (hload : load d root (Task.editedPaths edits) config = .ok before)
    (happly : before.applyEdits edits = .ok after)
    (hstore : storeFiles root after config d (before.changed after) = (d', none))
    (he : ∃ e ∈ edits, e.path = path) :
    ∃ place bytes, d'.destination? root config.exclude path = some place
      ∧ d'.node? place = some (.file bytes) := by
  by_cases hp : path ∈ before.changed after
  · exact exists_file_of_storeFiles hd hstore hp
  · -- the file of an edited path that is not stored was loaded
    obtain ⟨hb, -⟩ := contains_of_not_mem_changed happly he hp
    obtain ⟨file, hget⟩ := Option.isSome_iff_exists.1 hb
    rcases get?_of_load hd hload path with ⟨-, hnone⟩ | ⟨-, hloaded⟩
    · rw [hget] at hnone
      cases hnone
    · rw [hget] at hloaded
      obtain ⟨-, hg⟩ := grows_of_storeFiles hd hstore
      cases hloaded with
      | @file full _ place bytes _ hfull _ hplace hnode _ =>
        obtain ⟨bytes', hfile⟩ := hg.file place bytes hnode
        exact ⟨place, bytes', hg.destination? (destination?_eq_some_iff.2 ⟨full, hfull, hplace⟩),
          hfile⟩

theorem mem_editsAt_iff {exclude : List Value} {x : Edit} :
    x ∈ d'.editsAt root exclude edits place
      ↔ x ∈ edits ∧ d'.destination? root exclude x.path = some place := by
  rw [editsAt, List.mem_filter, decide_eq_true_iff]

/-- **The text of an edited file afterwards** is what was stored in it
last. -/
theorem textAt?_of_storeFiles (hd : d.IsTree)
    (hload : load d root (Task.editedPaths edits) config = .ok before)
    (happly : before.applyEdits edits = .ok after)
    (hstore : storeFiles root after config d (before.changed after) = (d', none))
    {e : Encoding} (he : Encoding.ofSetting config.encoding = .ok e) (hback : e.ReadsBack)
    (hedits : d'.editsAt root config.exclude edits place ≠ []) :
    d'.textAt? e place = (lastAt? d' root config.exclude (before.changed after) place).elim
      (d.textAt? e place) fun path => some (after.contents path) := by
  obtain ⟨x, hx⟩ := List.exists_mem_of_ne_nil _ hedits
  obtain ⟨hxe, hxd⟩ := mem_editsAt_iff.1 hx
  obtain ⟨place', bytes, hdest, hfile⟩ :=
    exists_file_of_edited hd hload happly hstore ⟨x, hxe, rfl⟩
  obtain rfl : place' = place := Option.some.inj (hdest.symm.trans hxd)
  have hnode := node?_of_storeFiles hd hstore place'
  match hlast : lastAt? d' root config.exclude (before.changed after) place' with
  | some last =>
    rw [hlast] at hnode
    obtain ⟨e', bytes', he', hbytes', hnode⟩ := hnode
    cases he.symm.trans he'
    exact textAt?_of_encode hback hnode hbytes'
  | none =>
    rw [hlast] at hnode
    show d'.textAt? e place' = d.textAt? e place'
    rw [textAt?, textAt?, hfile, (hnode.file_iff bytes).1 hfile]

/-- **When all edits of a file have been made**, by the text that it has
afterwards: exactly when together they leave the text that was stored last. -/
theorem editsMade_iff_of_text {e : Encoding} {last : Option Text} {xs : List Edit}
    (htext : d'.textAt? e place
      = last.elim (d.textAt? e place) fun path => some (after.contents path)) :
    d.EditsMade d' e xs place
      ↔ ∃ t, d.textAt? e place = some t
        ∧ Edit.applyAll xs t = .ok (last.elim t after.contents) := by
  refine exists_congr fun t => ?_
  rw [htext]
  constructor
  · rintro ⟨t', ht, happly, ht'⟩
    refine ⟨ht, happly.trans (congrArg Except.ok ?_)⟩
    cases last with
    | none => exact Option.some.inj (ht'.symm.trans ht)
    | some path => exact (Option.some.inj ht').symm
  · rintro ⟨ht, happly⟩
    refine ⟨_, ht, happly, ?_⟩
    cases last with
    | none => exact ht
    | some path => rfl

section Stored

variable (hd : d.IsTree) (hload : load d root (Task.editedPaths edits) config = .ok before)
  (happly : before.applyEdits edits = .ok after)

include hd hload happly

/-- **All spellings of a file start from its text**, where they are read
through. -/
theorem textAt?_of_mem_editsAt
    (hstore : storeFiles root after config d (before.changed after) = (d', none))
    {e : Encoding} (he : Encoding.ofSetting config.encoding = .ok e)
    (hr : d.realPath root = .ok r) {x : Edit}
    (hx : x ∈ d'.editsAt root config.exclude edits place)
    (hread : d.isReadThrough (Path.join r x.path) = true) :
    d.textAt? e place = some (before.contents x.path) := by
  obtain ⟨hxe, hxd⟩ := mem_editsAt_iff.1 hx
  obtain ⟨place', bytes, hdest, hfile⟩ :=
    exists_file_of_edited hd hload happly hstore ⟨x, hxe, rfl⟩
  obtain rfl : place' = place := Option.some.inj (hdest.symm.trans hxd)
  have hg := (grows_of_storeFiles hd hstore).2
  rcases get?_of_load hd hload x.path with ⟨hnot, -⟩ | ⟨-, hloaded⟩
  · exact absurd (Task.mem_editedPaths_iff.2 ⟨x, hxe, rfl⟩) hnot
  · exact (textAt?_of_loaded hd hg hr hread hxd hfile he hloaded).1

/-- **The edits of a file with one spelling** leave the text that was stored
last. -/
theorem applyAll_editsAt_of_one {x : Edit} (hx : x ∈ d'.editsAt root config.exclude edits place)
    (hone : ∀ y ∈ d'.editsAt root config.exclude edits place, y.path = x.path) :
    Edit.applyAll (d'.editsAt root config.exclude edits place) (before.contents x.path)
      = .ok ((lastAt? d' root config.exclude (before.changed after) place).elim
          (before.contents x.path) after.contents) := by
  obtain ⟨hxe, hxd⟩ := mem_editsAt_iff.1 hx
  have hall : d'.editsAt root config.exclude edits place
      = edits.filter fun y => y.path = x.path := by
    refine List.filter_congr fun y hy => decide_eq_decide.2 ⟨fun hyd => ?_, fun he => he ▸ hxd⟩
    exact hone y (mem_editsAt_iff.2 ⟨hy, hyd⟩)
  rw [hall, applyAll_filter_of_applyEdits happly x.path]
  refine congrArg Except.ok ?_
  match hlast : lastAt? d' root config.exclude (before.changed after) place with
  | some path =>
    obtain ⟨hp, hdest⟩ := mem_of_lastAt? hlast
    obtain ⟨y, hy, rfl⟩ := mem_edited_of_mem_changed hd hload happly hp
    exact congrArg after.contents (hone y (mem_editsAt_iff.2 ⟨hy, hdest⟩)).symm
  | none =>
    -- nothing was stored, so these edits have left the text as it was
    have hnot : x.path ∉ before.changed after := fun hp =>
      destination?_ne_of_lastAt? hlast hp hxd
    exact (contains_of_not_mem_changed happly ⟨x, hxe, rfl⟩ hnot).2.symm

end Stored

/-- **What a run leaves in a file**, from the disk before and the disk after.
What is said of the text of the file afterwards is said for an encoding that
reads back what it has written. -/
structure KeepsLast (d d' : Disk) (root r : Text) (e : Encoding) (exclude : List Value)
    (edits : List Edit) (before after : Snapshot) (place : Location) : Prop where
  /-- A file that no edit's path leads to is what it was. -/
  untouched : d'.editsAt root exclude edits place = [] → d.KeptAt d' place
  /-- Any other has the text of the last spelling that was stored. -/
  text : e.ReadsBack → d'.editsAt root exclude edits place ≠ [] → d'.textAt? e place
    = (lastAt? d' root exclude (before.changed after) place).elim (d.textAt? e place)
        fun path => some (after.contents path)
  /-- So its edits have all been made exactly when together they leave
  that. -/
  editsMade_iff : e.ReadsBack → d'.editsAt root exclude edits place ≠ [] →
    (d.EditsMade d' e (d'.editsAt root exclude edits place) place
      ↔ ∃ t, d.textAt? e place = some t
        ∧ Edit.applyAll (d'.editsAt root exclude edits place) t
          = .ok ((lastAt? d' root exclude (before.changed after) place).elim t after.contents))
  /-- What is stored under a spelling is what its edits alone make of the
  text before, where it is read through. -/
  alone : ∀ x ∈ d'.editsAt root exclude edits place, d.isReadThrough (Path.join r x.path) = true →
    ∃ t, d.textAt? e place = some t
      ∧ Edit.applyAll (edits.filter fun y => y.path = x.path) t = .ok (after.contents x.path)
  /-- So all edits have been made if there is one spelling. -/
  editsMade : e.ReadsBack → ∀ x ∈ d'.editsAt root exclude edits place,
    d.isReadThrough (Path.join r x.path) = true →
    (∀ y ∈ d'.editsAt root exclude edits place, y.path = x.path) →
    d.EditsMade d' e (d'.editsAt root exclude edits place) place

/-- **Storing keeps the last spelling of every file.** What the edits of the
other spellings have made is written too, and is then written over. -/
theorem keepsLast_of_storeFiles (hd : d.IsTree) (hr : d.realPath root = .ok r)
    (hload : load d root (Task.editedPaths edits) config = .ok before)
    (happly : before.applyEdits edits = .ok after)
    (hstore : storeFiles root after config d (before.changed after) = (d', none))
    {e : Encoding} (he : Encoding.ofSetting config.encoding = .ok e) (place : Location) :
    KeepsLast d d' root r e config.exclude edits before after place := by
  have htext (hback : e.ReadsBack) (hedits : d'.editsAt root config.exclude edits place ≠ []) :=
    textAt?_of_storeFiles hd hload happly hstore he hback hedits
  constructor
  · intro hnone
    have hnode := node?_of_storeFiles hd hstore place
    match hlast : lastAt? d' root config.exclude (before.changed after) place with
    | none =>
      rw [hlast] at hnode
      exact hnode
    | some path =>
      obtain ⟨hp, hdest⟩ := mem_of_lastAt? hlast
      obtain ⟨x, hx, rfl⟩ := mem_edited_of_mem_changed hd hload happly hp
      exact absurd (mem_editsAt_iff.2 ⟨hx, hdest⟩) (by rw [hnone]; simp)
  · exact htext
  · exact fun hback hedits => editsMade_iff_of_text (htext hback hedits)
  · intro x hx hread
    exact ⟨_, textAt?_of_mem_editsAt hd hload happly hstore he hr hx hread,
      applyAll_filter_of_applyEdits happly x.path⟩
  · intro hback x hx hread hone
    refine (editsMade_iff_of_text (htext hback (List.ne_nil_of_mem hx))).2
      ⟨before.contents x.path, ?_, ?_⟩
    · exact textAt?_of_mem_editsAt hd hload happly hstore he hr hx hread
    · exact applyAll_editsAt_of_one hd hload happly hx hone

/-- Directories made before the run make no difference to it. -/
theorem KeepsLast.of_extends {d₀ : Disk} {where' : Location → Prop} {e : Encoding}
    {exclude : List Value} (hext : d₀.Extends where' d) (hg : d.Grows d')
    (hfile : d'.editsAt root exclude edits place ≠ [] →
      ∃ bytes, d'.node? place = some (.file bytes))
    (h : KeepsLast d d' root r e exclude edits before after place) :
    KeepsLast d₀ d' root r e exclude edits before after place := by
  -- a directory that was made is no file at the end
  have hnode : d'.editsAt root exclude edits place ≠ [] → d₀.node? place = d.node? place := by
    intro hedits
    rcases hext.made place with hsame | ⟨-, -, hdir⟩
    · exact hsame.symm
    · obtain ⟨bytes, hf⟩ := hfile hedits
      rw [hg.directory place hdir] at hf
      cases hf
  have htext : d'.editsAt root exclude edits place ≠ [] →
      d₀.textAt? e place = d.textAt? e place := fun hedits => by
    rw [textAt?, textAt?, hnode hedits]
  have hread : ∀ x : Edit, d₀.isReadThrough (Path.join r x.path)
      = d.isReadThrough (Path.join r x.path) := fun x => (hext.grows.isReadThrough _).symm
  constructor
  · exact fun hnone => (hext.keptAt place).trans (h.untouched hnone)
  · intro hback hedits
    rw [htext hedits]
    exact h.text hback hedits
  · intro hback hedits
    rw [EditsMade, htext hedits]
    exact h.editsMade_iff hback hedits
  · intro x hx hthrough
    rw [htext (List.ne_nil_of_mem hx)]
    exact h.alone x hx ((hread x).symm.trans hthrough)
  · intro hback x hx hthrough hspelling
    rw [EditsMade, htext (List.ne_nil_of_mem hx)]
    exact h.editsMade hback x hx ((hread x).symm.trans hthrough) hspelling

end Snapshot

namespace Program

open Disk Snapshot

theorem realPath_of_load {paths : List Text} (h : load d root paths config = .ok before) :
    ∃ r, d.realPath root = .ok r := by
  obtain ⟨_, _, h⟩ := bind_eq_ok_iff.1 h
  obtain ⟨r, hr, _⟩ := bind_eq_ok_iff.1 h
  exact ⟨r, realPathFor_eq_ok_iff.1 (mapError_eq_ok_iff.1 hr)⟩

theorem openIn_fst (d : Disk) (home name : Text) :
    (Settings.openIn d home name).1 = (d.makeDirectories (Settings.directoryOf home name)).1 := by
  unfold Settings.openIn
  dsimp only
  split
  next h => rw [h]
  next h => rw [h]

/-- Opening the settings makes directories only. -/
theorem extends_openIn (hd : d.IsTree) (home name : Text) :
    d.Extends (fun _ => True) (Settings.openIn d home name).1 := by
  rw [openIn_fst]
  exact extends_makeDirectories hd _

theorem extends_of_openIn (hd : d.IsTree) {home name : Text} {d₁ : Disk}
    {result : Except DiskError (Settings × List Record)}
    (hopen : Settings.openIn d home name = (d₁, result)) : d.Extends (fun _ => True) d₁ := by
  have hext := extends_openIn hd home name
  rwa [hopen] at hext

/-- **When all edits of a file are in it after a run that succeeds**: what
the last spelling of its path leaves is all that is left. -/
theorem keepsLast_of_run (hd : d.IsTree) {home response : Text} {args : List Text}
    {top configPath : Option Text} {dry : Bool}
    (hargs : Arguments.readInvocation args = .ok ⟨configPath, .apply response top dry⟩)
    (hok : (run d home args).result = .ok success) :
    ∃ d₁ settings log config,
      Settings.openIn d home application = (d₁, .ok (settings, log))
      ∧ configFor d₁ ⟨configPath, .apply response top dry⟩ settings = .ok config
      ∧ (config.dryRun = false →
        ∃ root r e edits before after, top = some root ∧ d.realPath root = .ok r
          ∧ Encoding.ofSetting config.encoding = .ok e
          ∧ Task.plan d₁ response top config = .ok (edits, before, after)
          ∧ ∀ place, KeepsLast d (run d home args).disk root r e config.exclude edits before after
              place) := by
  have hext := extends_openIn hd home application
  rcases run_apply_cases hargs rfl with ⟨-, hfail⟩ |
    ⟨settings, log, config, edits, before, after, hopen, hconfig, hplan, hcases⟩
  · exact absurd hok hfail
  · refine ⟨_, settings, log, config, hopen, hconfig, fun hdry => ?_⟩
    rcases hcases with ⟨hdry', -⟩ | ⟨-, failed, hstore, hsuccess⟩
    · rw [hdry] at hdry'
      cases hdry'
    · obtain rfl := hsuccess.1 hok
      obtain ⟨root, text, rfl, htext, -, hload, happly⟩ := Task.plan_eq_ok hplan
      obtain ⟨e, _, _, he, -⟩ := (readText_eq_ok_iff hext.isTree).1 htext
      obtain ⟨r, hr⟩ := realPath_of_load hload
      rw [Option.getD_some] at hstore
      refine ⟨root, r, e, edits, before, after, rfl, (hext.grows.realPath root).symm.trans hr, he,
        hplan, fun place => ?_⟩
      have hg := (grows_of_storeFiles hext.isTree hstore).2
      have hkeeps := keepsLast_of_storeFiles hext.isTree hr hload happly hstore he place
      refine hkeeps.of_extends hext hg fun hedits => ?_
      obtain ⟨x, hx⟩ := List.exists_mem_of_ne_nil _ hedits
      obtain ⟨hxe, hxd⟩ := mem_editsAt_iff.1 hx
      obtain ⟨place', bytes, hdest, hfile⟩ :=
        exists_file_of_edited hext.isTree hload happly hstore ⟨x, hxe, rfl⟩
      obtain rfl : place' = place := Option.some.inj (hdest.symm.trans hxd)
      exact ⟨bytes, hfile⟩

end Program

end

/-! ## Two spellings

The file is named once plainly and once with a detour. -/

namespace Program

open Disk Snapshot

/-- Two edits of one file, under two spellings of its path. -/
def twice : List Edit := [⟨"a.txt", "one\n", "1\n"⟩, ⟨"./a.txt", "two\n", "2\n"⟩]

/-- A root with the file, and beside it the response with the edits. -/
def spelled : Disk where
  nodes := .ofList [
    (["srv"], .directory),
    (["srv", "repo"], .directory),
    (["srv", "repo", "a.txt"], .file (Utf8.encode "one\ntwo\n")),
    (["srv", "response.txt"], .file (Utf8.encode (twice.flatMap Edit.envelope)))]
  workingDir := ["srv"]

/-- The arguments that apply the response. -/
def applyIt : List Text := ["apply", "response.txt", "--root", "repo"]

/-- **Not every edit is made in a run that succeeds**: both edits are of one
file, and only the last is in it. -/
theorem not_all_made :
    spelled.IsTree ∧ (run spelled "/srv/home" applyIt).result = .ok success
      ∧ Block.edits (twice.flatMap Edit.envelope) = .ok twice
      ∧ (run spelled "/srv/home" applyIt).disk.editsAt "repo" [] twice ["srv", "repo", "a.txt"]
        = twice
      ∧ ¬spelled.EditsMade (run spelled "/srv/home" applyIt).disk .utf8 twice
        ["srv", "repo", "a.txt"] := by
  decide +kernel

/-- What that run leaves everywhere, in an encoding that reads back what it
has written. -/
theorem keepsLast_of_run_spelled :
    spelled.IsTree
      ∧ Arguments.readInvocation applyIt = .ok ⟨none, .apply "response.txt" (some "repo") false⟩
      ∧ (run spelled "/srv/home" applyIt).result = .ok success
      ∧ ∃ root r e exclude edits before after, e.ReadsBack ∧ ∀ place,
        KeepsLast spelled (run spelled "/srv/home" applyIt).disk root r e exclude edits before after
          place := by
  have hd : spelled.IsTree := by decide +kernel
  have hargs : Arguments.readInvocation applyIt
      = .ok ⟨none, .apply "response.txt" (some "repo") false⟩ := by rfl
  have hok : (run spelled "/srv/home" applyIt).result = .ok success := by decide +kernel
  obtain ⟨d₁, settings, log, config, hopen, hconfig, hrun⟩ := keepsLast_of_run hd hargs hok
  have hset : ((Settings.openIn spelled "/srv/home" application).2.toOption.bind fun opened =>
      (configFor (Settings.openIn spelled "/srv/home" application).1
        ⟨none, .apply "response.txt" (some "repo") false⟩ opened.1).toOption.map fun config =>
          (config.dryRun, Encoding.ofSetting config.encoding)) = some (false, .ok .utf8) := by
    decide +kernel
  rw [hopen] at hset
  change (configFor d₁ _ settings).toOption.map _ = _ at hset
  rw [hconfig] at hset
  obtain ⟨hdry, hutf8⟩ := Prod.mk.inj (Option.some.inj hset)
  obtain ⟨root, r, e, edits, before, after, -, -, he, -, hkeeps⟩ := hrun hdry
  cases hutf8.symm.trans he
  exact ⟨hd, hargs, hok, root, r, .utf8, config.exclude, edits, before, after,
    Encoding.readsBack_of_isModelled rfl, hkeeps⟩

end Program

end EditBlocks
