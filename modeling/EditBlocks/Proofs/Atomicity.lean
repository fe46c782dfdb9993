import EditBlocks.Host.Usual
import EditBlocks.Proofs.Containment
import EditBlocks.Proofs.Spelling

/-!
# What a failed run leaves

A run that fails before it stores anything leaves the disk as the opening of
the settings made it. Storing itself is no single step: files are written one
after the other, and what was written before a failure stays
(`Program.not_all_undone`).

`Program.leavesPart_of_failed_run` says what a run that fails while storing
leaves, and exactly when that is the root as it was: when the first file
fails already, with no directory made for it and nothing emptied, or when all
files written are one that was empty, and the failure left it empty again.

The proof follows the run to the path at which it stops (`Snapshot.StopsAt`).
Before that path everything was stored, and disks only grow, so a file that
is there at the end and was not at the beginning settles the matter; what has
to be looked at closely is the case in which no new file and no new directory
has come.
-/

namespace EditBlocks

section

variable [Host] {d d₁ d' : Disk} {root r path : Text} {config : RunConfig} {edits : List Edit}
  {before after : Snapshot} {paths done : List Text} {place : Location}

namespace Disk

/-- **Nothing below a location differs** between two disks: at every place
strictly below it there stands the same, or nothing on either. -/
def SameBelow (top : Location) (d d' : Disk) : Prop :=
  ∀ place, Path.Below top place → d'.node? place = d.node? place

omit [Host] in
theorem SameBelow.of_grows {top : Location} {where' : Location → Prop} (hext : d.Extends where' d₁)
    (hg : d₁.Grows d') (h : SameBelow top d d') : SameBelow top d d₁ ∧ SameBelow top d₁ d' := by
  have hleft : SameBelow top d d₁ := by
    intro place hb
    rcases hext.made place with hsame | ⟨-, hnone, hdir⟩
    · exact hsame
    · have := (h place hb).symm.trans (hg.directory place hdir)
      rw [hnone] at this
      cases this
  exact ⟨hleft, fun place hb => (h place hb).trans (hleft place hb).symm⟩

end Disk

namespace Snapshot

open Disk

/-- **Storing stops at a path**: the files before it are stored, and its own
is not. -/
structure StopsAt (d d' : Disk) (root : Text) (s : Snapshot) (config : RunConfig)
    (done : List Text) (path : Text) : Prop where
  stored : ∃ d₁, storeFiles root s config d done = (d₁, none)
    ∧ ∃ e, storeFile d₁ root s config path = (d', some e)

/-- **Storing that stops leaves nothing behind** below a location. Either it
stops at the first file, for which it makes no directory there and empties
nothing; or all files so far are one that was empty and has been emptied
again. -/
def LeavesNothing (top : Location) (d d' : Disk) (root : Text) (exclude : List Value)
    (done : List Text) (path : Text) : Prop :=
  done = []
    ∧ (∀ full, d.resolve root path exclude = .ok full →
      SameBelow top d (d.makeDirectories (Path.parent full)).1)
    ∧ (∀ place, d'.destination? root exclude path = some place →
      d'.node? place ≠ some (.file []))
  ∨ ∃ place, (∀ other ∈ path :: done, d'.destination? root exclude other = some place)
    ∧ d.node? place = some (.file []) ∧ d'.node? place = some (.file [])

/-- Storing that fails stops at one of the paths. -/
theorem exists_stopsAt {s : Snapshot} {e : Failure}
    (h : storeFiles root s config d paths = (d', some e)) :
    ∃ done path rest, paths = done ++ path :: rest ∧ StopsAt d d' root s config done path := by
  induction paths generalizing d with
  | nil => cases h
  | cons first rest ih =>
    rcases storeFiles_cons_eq_iff.1 h with ⟨-, hstep⟩ | ⟨d₁, hstep, hrest⟩
    · exact ⟨[], first, rest, rfl, ⟨d, rfl, e, hstep⟩⟩
    · obtain ⟨done, path, rest', rfl, ⟨d₂, hdone, e', hfail⟩⟩ := ih hrest
      exact ⟨first :: done, path, rest', rfl,
        ⟨d₂, storeFiles_cons_eq_none_iff.2 ⟨d₁, hstep, hdone⟩, e', hfail⟩⟩

/-- **What a file that fails leaves**: directories, and perhaps the file
itself, emptied. -/
theorem node?_of_storeFile_failed (hd : d.IsTree) {s : Snapshot} {e : Failure}
    (h : storeFile d root s config path = (d', some e)) (place : Location) :
    d.KeptAt d' place ∨ d'.destination? root config.exclude path = some place
      ∧ d'.node? place = some (.file []) := by
  rcases storeFile_cases hd h with ⟨-, ⟨-, rfl⟩ | ⟨full, -, rfl⟩⟩ |
    ⟨full, d₁, target, hfull, rfl, htarget, htakes, ⟨-, rfl⟩ | ⟨hnone, -⟩⟩
  · exact Or.inl (Or.inl rfl)
  · exact Or.inl ((extends_makeDirectories hd (Path.parent full)).keptAt place)
  · have hmake := extends_makeDirectories hd (Path.parent full)
    have ht := htakes []
    by_cases hp : place = target
    · subst hp
      refine Or.inr ⟨destination?_eq_some_iff.2 ⟨full, ?_, ht.grows.reach? htarget⟩, ?_⟩
      · exact ((hmake.grows.trans ht.grows).resolve _ _ _).trans hfull
      · rw [node?_put _ _ place ht.ne_nil, if_pos rfl]
    · rw [KeptAt, node?_put _ _ place ht.ne_nil, if_neg hp]
      exact Or.inl (hmake.keptAt place)
  · cases hnone

/-- **A file that is stored is below the root, and it is not what it was.**
Only changed files are stored, and what is read back is the text that was
written, so the bytes must differ. -/
theorem exists_changed_of_stored (hd : d.IsTree) (hr : d.realPath root = .ok r)
    (hload : load d root (Task.editedPaths edits) config = .ok before)
    (happly : before.applyEdits edits = .ok after)
    (hread : ∀ path ∈ before.changed after, d.isReadThrough (Path.join r path) = true)
    (hdone : ∀ path ∈ done, path ∈ before.changed after)
    (hstore : storeFiles root after config d done = (d₁, none)) (hback : config.ReadsBack)
    (hp : path ∈ done) :
    ∃ place bytes, d₁.destination? root config.exclude path = some place
      ∧ Path.Below (Path.toLocation r) place ∧ d₁.node? place = some (.file bytes)
      ∧ d₁.node? place ≠ d.node? place := by
  obtain ⟨place, bytes, hdest, hfile⟩ := exists_file_of_storeFiles hd hstore hp
  have hg := (grows_of_storeFiles hd hstore).2
  obtain ⟨-, -, -, -, hbelow⟩ := resolve_of_destination? hg hr (hread path (hdone path hp)) hdest
  refine ⟨place, bytes, hdest, hbelow, hfile, fun hsame => ?_⟩
  -- the last path stored there has given the file another text than it had
  have hnode := node?_of_storeFiles hd hstore place
  match hlast : lastAt? d₁ root config.exclude done place with
  | none => exact destination?_ne_of_lastAt? hlast hp hdest
  | some last =>
    rw [hlast] at hnode
    obtain ⟨e, bytes', he, hbytes', hnode⟩ := hnode
    obtain ⟨hl, hldest⟩ := mem_of_lastAt? hlast
    have hchanged := mem_changed_iff.1 (hdone last hl)
    have hedited := mem_edited_of_mem_changed hd hload happly (hdone last hl)
    rcases get?_of_load hd hload last with ⟨hnot, -⟩ | ⟨-, hloaded⟩
    · exact hnot (Task.mem_editedPaths_iff.2 hedited)
    · obtain ⟨htext, hnew⟩ :=
        textAt?_of_loaded hd hg hr (hread last (hdone last hl)) hldest hfile he hloaded
      have htext' := textAt?_of_encode (hback he) hnode hbytes'
      cases hb : before.contains last with
      | false =>
        rw [hsame, hnew hb] at hfile
        cases hfile
      | true =>
        rw [textAt?, hsame] at htext'
        exact hchanged.2 hb (Option.some.inj (htext.symm.trans htext'))

/-- **Storing into a file that is there changes that file only.** -/
theorem node?_of_storeFile_of_file (hd : d.IsTree) (hr : d.realPath root = .ok r)
    (hread : d.isReadThrough (Path.join r path) = true) {s : Snapshot} {failed : Option Failure}
    (h : storeFile d root s config path = (d', failed))
    (hdest : d'.destination? root config.exclude path = some place) {bytes : List UInt8}
    (hfile : d.node? place = some (.file bytes)) {other : Location} (ho : other ≠ place) :
    d'.node? other = d.node? other := by
  have hg := (grows_of_storeFile hd h).2
  obtain ⟨hfull, -, hproper, hfree, -⟩ := resolve_of_destination? hg hr hread hdest
  -- the directories above a file are there already
  have hmake : ∀ other, (d.makeDirectories (Path.parent (Path.ofLocation place))).1.node? other
      = d.node? other := by
    intro other
    rw [Path.parent_ofLocation hproper]
    rcases (extends_makeDirectories_ofLocation hd hproper.dropLast
      (hfree.of_prefix (List.dropLast_prefix place))).made other with hsame | ⟨hp, hnone, -⟩
    · exact hsame
    · have hdir : d.node? other = some .directory := by
        by_cases he : other = place.dropLast
        · exact he ▸ hd.directory_of_node? hfile
        · exact hd.directory_of_prefix (hd.directory_of_node? hfile) hp he
      rw [hdir] at hnone
      cases hnone
  rcases storeFile_cases hd h with ⟨-, ⟨-, rfl⟩ | ⟨full', hfull', rfl⟩⟩ |
    ⟨full', d₁, target, hfull', rfl, htarget, htakes, hout⟩
  · rfl
  · cases hfull.symm.trans hfull'
    exact hmake other
  · cases hfull.symm.trans hfull'
    have hmakeg := (extends_makeDirectories hd (Path.parent (Path.ofLocation place))).grows
    obtain rfl := eq_of_reach?_ofLocation hproper (hfree.of_grows hmakeg) htarget
    rcases hout with ⟨-, rfl⟩ | ⟨-, _, bytes', -, -, rfl⟩
    all_goals
      rw [node?_put _ _ other (htakes []).ne_nil, if_neg ho]
      exact hmake other

/-- So does storing several, where all lead to that file. -/
theorem node?_of_storeFiles_of_file (hd : d.IsTree) (hr : d.realPath root = .ok r)
    (hread : ∀ path ∈ paths, d.isReadThrough (Path.join r path) = true) {s : Snapshot}
    (h : storeFiles root s config d paths = (d', none))
    (hdest : ∀ path ∈ paths, d'.destination? root config.exclude path = some place)
    {bytes : List UInt8} (hfile : d.node? place = some (.file bytes)) {other : Location}
    (ho : other ≠ place) : d'.node? other = d.node? other := by
  induction paths generalizing d bytes with
  | nil =>
    cases h
    rfl
  | cons path rest ih =>
    obtain ⟨d₁, hstep, h⟩ := storeFiles_cons_eq_none_iff.1 h
    obtain ⟨hd₁, hg₁⟩ := grows_of_storeFile hd hstep
    have hg := (grows_of_storeFiles hd₁ h).2
    obtain ⟨bytes₁, hfile₁⟩ := hg₁.file place bytes hfile
    obtain ⟨_, target, _, _, _, htarget, _⟩ := node?_of_storeFile hd hstep
    have hfirst := hdest path List.mem_cons_self
    obtain rfl : target = place := Option.some.inj ((hg.destination? htarget).symm.trans hfirst)
    have hrest := ih hd₁ ((hg₁.realPath root).trans hr)
      (fun other ho => (hg₁.isReadThrough _).trans (hread other (List.mem_cons_of_mem _ ho))) h
      (fun other ho => hdest other (List.mem_cons_of_mem _ ho)) hfile₁
    exact hrest.trans (node?_of_storeFile_of_file hd hr (hread path List.mem_cons_self) hstep
      htarget hfile ho)

/-- **What storing that stops leaves**: a file is emptied by the path that it
stops at, or holds what was stored in it last. Elsewhere what stands is
kept. -/
theorem StopsAt.node?_cases (hd : d.IsTree) {s : Snapshot}
    (h : StopsAt d d' root s config done path) (place : Location) :
    d'.destination? root config.exclude path = some place ∧ d'.node? place = some (.file [])
      ∨ match lastAt? d' root config.exclude done place with
        | some last => ∃ e bytes, Encoding.ofSetting config.encoding = .ok e
            ∧ e.encode (s.contents last) = .ok bytes ∧ d'.node? place = some (.file bytes)
        | none => d.KeptAt d' place := by
  obtain ⟨d₁, hstored, e, hfailed⟩ := h.stored
  obtain ⟨hd₁, -⟩ := grows_of_storeFiles hd hstored
  have hg := (grows_of_storeFile hd₁ hfailed).2
  have hlast : lastAt? d' root config.exclude done place
      = lastAt? d₁ root config.exclude done place := by
    refine lastAt?_of_grows hg fun other ho => ?_
    obtain ⟨there, _, hdest, -⟩ := exists_file_of_storeFiles hd hstored ho
    exact ⟨there, hdest⟩
  have hnode := node?_of_storeFiles hd hstored place
  rcases node?_of_storeFile_failed hd₁ hfailed place with hkept | hempty
  · refine Or.inr ?_
    rw [hlast]
    match hl : lastAt? d₁ root config.exclude done place with
    | some last =>
      rw [hl] at hnode
      obtain ⟨e, bytes, he, hbytes, hfile⟩ := hnode
      exact ⟨e, bytes, he, hbytes, (hkept.file_iff bytes).2 hfile⟩
    | none =>
      rw [hl] at hnode
      exact hnode.trans hkept
  · exact Or.inl hempty

section Stopped

variable (hd : d.IsTree) (hr : d.realPath root = .ok r)
  (hread : ∀ path ∈ before.changed after, d.isReadThrough (Path.join r path) = true)
  {rest : List Text} (hchanged : before.changed after = done ++ path :: rest)
  (h : StopsAt d d' root after config done path)

include hd hr hread hchanged h

/-- **A file that was stored has to be undone**, if the root is to be as it
was, and only emptying it can do that. -/
theorem StopsAt.emptied_of_sameBelow
    (hload : load d root (Task.editedPaths edits) config = .ok before)
    (happly : before.applyEdits edits = .ok after) (hback : config.ReadsBack)
    (hsame : SameBelow (Path.toLocation r) d d')
    {other : Text} (ho : other ∈ done) :
    ∃ place, d'.destination? root config.exclude other = some place
      ∧ d'.destination? root config.exclude path = some place
      ∧ d'.node? place = some (.file []) := by
  obtain ⟨d₁, hstored, e, hfailed⟩ := h.stored
  obtain ⟨hd₁, -⟩ := grows_of_storeFiles hd hstored
  have hg := (grows_of_storeFile hd₁ hfailed).2
  obtain ⟨place, bytes, hdest, hb, hfile, hne⟩ :=
    exists_changed_of_stored hd hr hload happly hread
      (fun _ hp => hchanged ▸ List.mem_append_left _ hp) hstored hback ho
  rcases node?_of_storeFile_failed hd₁ hfailed place with hkept | ⟨hdest', hempty⟩
  · -- a file that is kept is not the file that was there before
    have hfile' := (hkept.file_iff bytes).2 hfile
    exact absurd (hfile.trans (hfile'.symm.trans (hsame place hb))) hne
  · exact ⟨place, hg.destination? hdest, hdest', hempty⟩

/-- **Storing into one empty file, and emptying it again,** changes
nothing. -/
theorem StopsAt.sameBelow_of_emptied {place : Location}
    (hdest : ∀ other ∈ path :: done, d'.destination? root config.exclude other = some place)
    (hold : d.node? place = some (.file [])) (hnew : d'.node? place = some (.file [])) :
    SameBelow (Path.toLocation r) d d' := by
  obtain ⟨d₁, hstored, e, hfailed⟩ := h.stored
  obtain ⟨hd₁, hg₁⟩ := grows_of_storeFiles hd hstored
  have hg := (grows_of_storeFile hd₁ hfailed).2
  intro other _
  by_cases ho : other = place
  · rw [ho, hold, hnew]
  · -- elsewhere neither the files stored nor the one that failed made a change
    obtain ⟨bytes, hfile⟩ := hg₁.file place [] hold
    have hdest₁ : ∀ q ∈ done, d₁.destination? root config.exclude q = some place := by
      intro q hq
      obtain ⟨place', _, hq', _⟩ := exists_file_of_storeFiles hd hstored hq
      rw [hq', ← hg.destination? hq', hdest q (List.mem_cons_of_mem _ hq)]
    have hstep := node?_of_storeFile_of_file hd₁ ((hg₁.realPath root).trans hr)
      ((hg₁.isReadThrough _).trans (hread path (hchanged ▸ by simp))) hfailed
      (hdest path List.mem_cons_self) hfile ho
    have hrun := node?_of_storeFiles_of_file hd hr
      (fun q hq => hread q (hchanged ▸ List.mem_append_left _ hq)) hstored hdest₁ hold ho
    exact hstep.trans hrun

/-- **Storing that stops leaves the root as it was** only by leaving nothing
behind. What was stored differs from what was there, and failing undoes one
file at most. -/
theorem StopsAt.sameBelow_iff (hload : load d root (Task.editedPaths edits) config = .ok before)
    (happly : before.applyEdits edits = .ok after) (hback : config.ReadsBack) :
    SameBelow (Path.toLocation r) d d'
      ↔ LeavesNothing (Path.toLocation r) d d' root config.exclude done path := by
  obtain ⟨d₁, hstored, e, hfailed⟩ := h.stored
  obtain ⟨hd₁, hg₁⟩ := grows_of_storeFiles hd hstored
  have hg := (grows_of_storeFile hd₁ hfailed).2
  constructor
  · intro hsame
    have hundone (other : Text) (ho : other ∈ done) :=
      h.emptied_of_sameBelow hd hr hread hchanged hload happly hback hsame ho
    by_cases hempty : ∃ place, d'.destination? root config.exclude path = some place
        ∧ d'.node? place = some (.file [])
    · obtain ⟨place, hdest, hnew⟩ := hempty
      obtain ⟨-, -, -, -, hb⟩ :=
        resolve_of_destination? (hg₁.trans hg) hr (hread path (hchanged ▸ by simp)) hdest
      refine Or.inr ⟨place, fun other ho => ?_, (hsame place hb).symm.trans hnew, hnew⟩
      rcases List.mem_cons.1 ho with rfl | ho
      · exact hdest
      · obtain ⟨place', hother, hdest', -⟩ := hundone other ho
        rw [hother, ← hdest', hdest]
    · -- nothing is emptied, so nothing was stored
      obtain rfl : done = [] := by
        refine List.eq_nil_iff_forall_not_mem.2 fun other ho => ?_
        obtain ⟨place, -, hdest, hnew⟩ := hundone other ho
        exact hempty ⟨place, hdest, hnew⟩
      cases hstored
      refine Or.inl ⟨rfl, fun full hfull => ?_, fun place hdest hnew => hempty ⟨place, hdest, hnew⟩⟩
      have hmake := extends_makeDirectories hd (Path.parent full)
      rcases storeFile_cases hd hfailed with ⟨-, ⟨⟨e, he⟩, -⟩ | ⟨full', hfull', rfl⟩⟩ |
        ⟨full', d₁, target, hfull', rfl, -, htakes, ⟨-, rfl⟩ | ⟨hnone, -⟩⟩
      · rw [hfull] at he
        cases he
      · cases hfull.symm.trans hfull'
        exact hsame
      · cases hfull.symm.trans hfull'
        exact (hsame.of_grows hmake (htakes []).grows).1
      · cases hnone
  · rintro (⟨rfl, hmake, hnew⟩ | ⟨place, hdest, hold, hnew⟩)
    · cases hstored
      rcases storeFile_cases hd hfailed with ⟨-, ⟨-, rfl⟩ | ⟨full, hfull, rfl⟩⟩ |
        ⟨full, d₁, target, hfull, rfl, htarget, htakes, ⟨-, rfl⟩ | ⟨hnone, -⟩⟩
      · exact fun _ _ => rfl
      · exact hmake full hfull
      · -- a file that is opened has been emptied
        refine absurd ?_ (hnew target (destination?_eq_some_iff.2
          ⟨full, (hg.resolve _ _ _).trans hfull, (htakes []).grows.reach? htarget⟩))
        rw [node?_put _ _ target (htakes []).ne_nil, if_pos rfl]
      · cases hnone
    · exact h.sameBelow_of_emptied hd hr hread hchanged hdest hold hnew

end Stopped

/-- **What a run leaves that is stopped while storing**, from the disk before
it, the disk with its settings opened and the disk after it. -/
structure LeavesPart (d d₁ d' : Disk) (root r : Text) (config : RunConfig)
    (before after : Snapshot) (done : List Text) (path : Text) : Prop where
  /-- It is stopped at one of the changed paths. -/
  changed : ∃ rest, before.changed after = done ++ path :: rest
  stopsAt : StopsAt d₁ d' root after config done path
  /-- A file is emptied by that path, or holds what was stored in it last.
  Elsewhere what stands is kept. -/
  node? : ∀ place,
    d'.destination? root config.exclude path = some place ∧ d'.node? place = some (.file [])
    ∨ match lastAt? d' root config.exclude done place with
      | some last => ∃ e bytes, Encoding.ofSetting config.encoding = .ok e
          ∧ e.encode (after.contents last) = .ok bytes ∧ d'.node? place = some (.file bytes)
      | none => d.KeptAt d' place
  /-- Where what is written is read back and the paths are read through, the
  root is as it was exactly when it was so after the settings were opened and
  storing has left nothing behind. -/
  sameBelow_iff : config.ReadsBack →
    (∀ path ∈ before.changed after, d.isReadThrough (Path.join r path) = true) →
    (SameBelow (Path.toLocation r) d d'
      ↔ SameBelow (Path.toLocation r) d d₁
        ∧ LeavesNothing (Path.toLocation r) d₁ d' root config.exclude done path)

end Snapshot

namespace Program

open Disk Snapshot

/-- **What a failed run leaves.** It has made directories for the settings,
and either that is all, or it was stopped while storing. -/
theorem leavesPart_of_failed_run (hd : d.IsTree) {home response : Text} {args : List Text}
    {top configPath : Option Text} {dry : Bool}
    (hargs : Arguments.readInvocation args = .ok ⟨configPath, .apply response top dry⟩)
    (hr : d.realPath (top.getD []) = .ok r)
    (hd₁ : d₁ = (Settings.openIn d home application).1)
    (hfail : (run d home args).result ≠ .ok success) :
    d.Extends (fun _ => True) d₁
    ∧ ((run d home args).disk = d₁
      ∨ ∃ config edits before after done path,
        Task.plan d₁ response top config = .ok (edits, before, after)
        ∧ LeavesPart d d₁ (run d home args).disk (top.getD []) r config before after done
            path) := by
  have hext : d.Extends (fun _ => True) d₁ := hd₁ ▸ extends_openIn hd home application
  refine ⟨hext, ?_⟩
  rcases run_apply_cases hargs hd₁ with ⟨hdisk, -⟩ |
    ⟨settings, log, config, edits, before, after, hopen, -, hplan, hcases⟩
  · exact Or.inl hdisk
  rcases hcases with ⟨-, -, hok⟩ | ⟨-, failed, hstore, hsuccess⟩
  · exact absurd hok hfail
  obtain ⟨e, rfl⟩ : ∃ e, failed = some e :=
    Option.ne_none_iff_exists'.1 fun hnone => hfail (hsuccess.2 hnone)
  obtain ⟨done, path, rest, hchanged, hstop⟩ := exists_stopsAt hstore
  refine Or.inr ⟨config, edits, before, after, done, path, hplan, ⟨rest, hchanged⟩, hstop,
    fun place => ?_, fun hback hread => ?_⟩
  · refine (hstop.node?_cases hext.isTree place).imp_right fun hcases => ?_
    split at hcases
    · exact hcases
    · exact (hext.keptAt place).trans hcases
  · obtain ⟨root, -, rfl, -, -, hload, happly⟩ := Task.plan_eq_ok hplan
    rw [Option.getD_some] at hr hstop ⊢
    have hiff := hstop.sameBelow_iff hext.isTree ((hext.grows.realPath root).trans hr)
      (fun path hp => (hext.grows.isReadThrough _).trans (hread path hp)) hchanged hload
      happly hback
    have hg := (grows_of_storeFiles hext.isTree hstore).2
    constructor
    · intro hsame
      obtain ⟨hleft, hright⟩ := hsame.of_grows hext hg
      exact ⟨hleft, hiff.1 hright⟩
    · rintro ⟨hleft, hnothing⟩ place hb
      exact (hiff.2 hnothing place hb).trans (hleft place hb)

end Program

end

/-! ## A run that is stopped

A file and a directory of one name: the second file cannot be made, since the
first has its directory's place. -/

namespace Program

open Disk Snapshot

/-- Edits that make a path both a file and a directory. -/
def conflicting : List Edit := [⟨"a", [], "x\n"⟩, ⟨"a/b", [], "y\n"⟩]

/-- An empty root, and beside it the response with the edits. -/
def contested : Disk where
  nodes := .ofList [
    (["srv"], .directory),
    (["srv", "repo"], .directory),
    (["srv", "response.txt"], .file (Utf8.encode (conflicting.flatMap Edit.envelope)))]
  workingDir := ["srv"]

/-- **What a run has stored when it fails is not undone.** The first file is
written, the second cannot be, and the first stays. -/
theorem not_all_undone :
    contested.IsTree ∧ (run contested "/srv/home" applyIt).result = .ok failure
      ∧ Path.Below (Path.toLocation "/srv/repo") ["srv", "repo", "a"]
      ∧ contested.node? ["srv", "repo", "a"] = none
      ∧ (run contested "/srv/home" applyIt).disk.node? ["srv", "repo", "a"]
        = some (.file (Utf8.encode "x\n")) := by
  decide +kernel

/-- That run was stopped while storing. -/
theorem leavesPart_of_failed_run_contested :
    contested.IsTree
      ∧ Arguments.readInvocation applyIt = .ok ⟨none, .apply "response.txt" (some "repo") false⟩
      ∧ contested.realPath "repo" = .ok "/srv/repo"
      ∧ (run contested "/srv/home" applyIt).result ≠ .ok success
      ∧ ∃ config after done path,
        StopsAt (Settings.openIn contested "/srv/home" application).1
          (run contested "/srv/home" applyIt).disk "repo" after config done path := by
  have hd : contested.IsTree := by decide +kernel
  have hargs : Arguments.readInvocation applyIt
      = .ok ⟨none, .apply "response.txt" (some "repo") false⟩ := by rfl
  have hr : contested.realPath "repo" = .ok "/srv/repo" := by decide +kernel
  have hfail : (run contested "/srv/home" applyIt).result ≠ .ok success := by decide +kernel
  rcases (leavesPart_of_failed_run hd hargs hr rfl hfail).2 with
    hdisk | ⟨config, _, _, after, done, path, _, hpart⟩
  · have hnode : (run contested "/srv/home" applyIt).disk.node? ["srv", "repo", "a"]
        ≠ (Settings.openIn contested "/srv/home" application).1.node? ["srv", "repo", "a"] := by
      decide +kernel
    exact absurd (congrArg (Disk.node? · ["srv", "repo", "a"]) hdisk) hnode
  · exact ⟨hd, hargs, hr, hfail, config, after, done, path, hpart.stopsAt⟩

end Program

end EditBlocks
