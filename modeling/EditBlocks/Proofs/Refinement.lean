import EditBlocks.Host.Usual
import EditBlocks.Proofs.Changes
import EditBlocks.Proofs.Disk.Making

/-!
# What a run leaves on the disk

A run reads files into a snapshot, makes its edits there and writes what is
changed. The snapshot that the edits leave says what the disk holds
afterwards, as long as no two edited paths lead to one file
(`Disk.Separates`): each edited path can be read again, and has the text that
the snapshot has (`Snapshot.readText_of_edited`). Every write is to a file
that a changed path leads to, and every directory that is made is above such
a file (`Snapshot.storedAt_of_storeFiles`), so all else stays as it was.

`Program.refines_of_run` says this of a whole run, with the paths that it
prints.

The disk is compared with the snapshot location by location. For each there
are three cases (`Snapshot.StoredAt`): it is as it was, it is that of a file
that was stored, or a directory was made there for one; and the same three
cases are kept when one more file is stored.
-/

namespace EditBlocks

section

variable [Host] {d d' : Disk} {root path : Text} {config : RunConfig} {paths : List Text}
  {edits : List Edit} {before after : Snapshot} {place : Location}

namespace Disk

/-- **Paths that are told apart**: no two of them lead to one file. Paths
that lead nowhere do not count. -/
def Separates (d : Disk) (root : Text) (exclude : List Value) (paths : List Text) : Prop :=
  ∀ p ∈ paths, ∀ q ∈ paths, ∀ place, d.destination? root exclude p = some place →
    d.destination? root exclude q = some place → p = q

instance (d : Disk) (root : Text) (exclude : List Value) (paths : List Text) :
    Decidable (d.Separates root exclude paths) :=
  decidable_of_iff (∀ p ∈ paths, ∀ q ∈ paths, (d.destination? root exclude p).isSome = true →
      d.destination? root exclude q = d.destination? root exclude p → p = q)
    ⟨fun h p hp q hq place hplace hplace' =>
        h p hp q hq (by rw [hplace]; rfl) (hplace'.trans hplace.symm),
      fun h p hp q hq hsome hsame =>
        have ⟨place, hplace⟩ := Option.isSome_iff_exists.1 hsome
        h p hp q hq place hplace (hsame.trans hplace)⟩

/-- **A directory made on the way to a file's directory is above the file**,
where the file's path has been resolved. -/
theorem below_of_onWay (hd : d.IsTree) (hd' : d'.IsTree) (hg : d.Grows d') {full : Text}
    {target : Location} (hfull : d.realPath path = .ok full) (hne : target ≠ [])
    (hnone : d.node? place = none) (hdir : d'.node? place = some .directory)
    (hway : d'.OnWay (Path.parent full) place) (hreach : d'.reach? full = some target) :
    Path.Below place target := by
  obtain ⟨written, hp, hcases⟩ := realPath_cases hfull (no_null_of_reach? hreach)
  -- with one slash at the beginning or with two, the path leads the same way
  obtain ⟨hway, hreach⟩ : d'.OnWay (Path.ofLocation written.dropLast) place
      ∧ d'.reach? (Path.ofLocation written) = some target := by
    rcases hcases with rfl | rfl
    · rw [Path.parent_ofLocation hp] at hway
      exact ⟨hway, hreach⟩
    · rw [Path.parent_cons_slash, Path.parent_ofLocation hp] at hway
      exact ⟨hway.of_cons_slash hp.dropLast, reach?_of_cons_slash rfl hreach⟩
  have hwritten : written ≠ [] := by
    rintro rfl
    exact hne (eq_of_reach?_ofLocation hp linkFree_nil hreach)
  exact below_of_onWay_ofLocation hd hd' hg hp hwritten hnone hdir hway hreach

end Disk

namespace Snapshot

open Disk

/-- **What storing files leaves at a location.** It is what was there, the
bytes of a file that was stored, or a directory that was made above one. -/
inductive StoredAt (d d' : Disk) (root : Text) (exclude : List Value) (paths : List Text)
    (place : Location) : Prop
  /-- What was there. -/
  | kept (hsame : d'.node? place = d.node? place)
  /-- A file that one of the paths leads to. -/
  | file {path : Text} (hp : path ∈ paths)
      (hdest : d'.destination? root exclude path = some place)
  /-- A directory, made where nothing was, above such a file. -/
  | directory {path : Text} {target : Location} (hp : path ∈ paths)
      (hdest : d'.destination? root exclude path = some target)
      (hbelow : Path.Below place target) (hnone : d.node? place = none)
      (hdir : d'.node? place = some .directory)

theorem storedAt_of_storeFile (hd : d.IsTree) {s : Snapshot}
    (h : storeFile d root s config path = (d', none)) (place : Location) :
    StoredAt d d' root config.exclude [path] place := by
  rcases storeFile_cases hd h with ⟨hne, -⟩ |
    ⟨full, d₁, target, hfull, rfl, htarget, htakes, ⟨hne, -⟩ | ⟨-, e, bytes, -, -, rfl⟩⟩
  · exact absurd rfl hne
  · exact absurd rfl hne
  have hmake := extends_makeDirectories_onWay hd (Path.parent full)
  have htakes := htakes bytes
  have hgrows := hmake.grows.trans htakes.grows
  have hdest := destination?_eq_some_iff.2
    ⟨full, (hgrows.resolve root path config.exclude).trans hfull, htakes.grows.reach? htarget⟩
  have hnode := node?_put (d.makeDirectories (Path.parent full)).1 (.file bytes) place htakes.ne_nil
  by_cases hplace : place = target
  · exact .file List.mem_cons_self (hplace ▸ hdest)
  · rw [if_neg hplace] at hnode
    rcases hmake.made place with hsame | ⟨hway, hnone, hdir⟩
    · exact .kept (hnode.trans hsame)
    · obtain ⟨_, _, hreal, _⟩ := resolve_eq_ok_iff.1 hfull
      have hbelow := below_of_onWay hd hmake.isTree hmake.grows hreal htakes.ne_nil hnone hdir hway
        htarget
      exact .directory List.mem_cons_self hdest hbelow hnone (hnode.trans hdir)

/-- **What storing several files leaves at a location.** -/
theorem storedAt_of_storeFiles (hd : d.IsTree) {s : Snapshot}
    (h : storeFiles root s config d paths = (d', none)) (place : Location) :
    StoredAt d d' root config.exclude paths place := by
  induction paths generalizing d with
  | nil =>
    cases h
    exact .kept rfl
  | cons path rest ih =>
    obtain ⟨d₁, hstep, h⟩ := storeFiles_cons_eq_none_iff.1 h
    obtain ⟨hd₁, -⟩ := grows_of_storeFile hd hstep
    obtain ⟨-, hg⟩ := grows_of_storeFiles hd₁ h
    have hfirst := storedAt_of_storeFile hd hstep place
    cases ih hd₁ h with
    | file hp hdest => exact .file (List.mem_cons_of_mem _ hp) hdest
    | kept hsame =>
      cases hfirst with
      | kept hsame' => exact .kept (hsame.trans hsame')
      | file hp hdest =>
        obtain rfl := List.mem_singleton.1 hp
        exact .file List.mem_cons_self (hg.destination? hdest)
      | directory hp hdest hbelow hnone hdir =>
        obtain rfl := List.mem_singleton.1 hp
        exact .directory List.mem_cons_self (hg.destination? hdest) hbelow hnone (hsame.trans hdir)
    | directory hp hdest hbelow hnone hdir =>
      cases hfirst with
      | kept hsame =>
        exact .directory (List.mem_cons_of_mem _ hp) hdest hbelow (hsame.symm.trans hnone) hdir
      | file hp' hdest' =>
        obtain rfl := List.mem_singleton.1 hp'
        exact .file List.mem_cons_self (hg.destination? hdest')
      | directory _ _ _ _ hdir' => cases hnone.symm.trans hdir'

/-- **A file that is not changed is the one that was loaded**, and it has the
text that the snapshot has after the edits. -/
theorem exists_decode_of_not_changed (hd : d.IsTree) (hg : d.Grows d')
    (hload : load d root (Task.editedPaths edits) config = .ok before)
    (happly : before.applyEdits edits = .ok after) (hedited : ∃ e ∈ edits, e.path = path)
    (hnot : path ∉ before.changed after)
    (hdest : d'.destination? root config.exclude path = some place) :
    ∃ e bytes, Encoding.ofSetting config.encoding = .ok e ∧ d.node? place = some (.file bytes)
      ∧ e.decode bytes = .ok (after.contents path) := by
  obtain ⟨hb, hsame⟩ := contains_of_not_mem_changed happly hedited hnot
  obtain ⟨file, hget⟩ := Option.isSome_iff_exists.1 hb
  rcases get?_of_load hd hload path with ⟨-, hnone⟩ | ⟨-, hloaded⟩
  · rw [hget] at hnone
    cases hnone
  · rw [hget] at hloaded
    cases hloaded with
    | @file full e place' bytes t hfull he hplace hnode ht =>
      have hdest' : d.destination? root config.exclude path = some place' :=
        destination?_eq_some_iff.2 ⟨full, hfull, hplace⟩
      obtain rfl : place' = place := Option.some.inj ((hg.destination? hdest').symm.trans hdest)
      rw [← hsame, contents_of_get? hget]
      exact ⟨e, bytes, he, hnode, ht⟩

/-- **Every edited path is read back** as the snapshot has it, when all is
stored in an encoding that reads back what it has written. -/
theorem readText_of_edited (hd : d.IsTree)
    (hload : load d root (Task.editedPaths edits) config = .ok before)
    (happly : before.applyEdits edits = .ok after)
    (hstore : storeFiles root after config d (before.changed after) = (d', none))
    (hback : config.ReadsBack)
    (hsep : d'.Separates root config.exclude (Task.editedPaths edits))
    (hpath : path ∈ Task.editedPaths edits) :
    ∃ full, d'.resolve root path config.exclude = .ok full ∧ d'.isFile full = true
      ∧ d'.readText full config.encoding = .ok (after.contents path) := by
  have hedited := Task.mem_editedPaths_iff.1 hpath
  obtain ⟨place, bytes, hdest, hfile⟩ := exists_file_of_edited hd hload happly hstore hedited
  obtain ⟨full, hfull, hreach⟩ := destination?_eq_some_iff.1 hdest
  obtain ⟨hd', hg⟩ := grows_of_storeFiles hd hstore
  refine ⟨full, hfull, (isFile_iff hd').2 ⟨place, bytes, hreach, hfile⟩,
    (readText_eq_ok_iff hd').2 ?_⟩
  have hnode := node?_of_storeFiles hd hstore place
  match hlast : lastAt? d' root config.exclude (before.changed after) place with
  | some last =>
    -- what was stored there last was stored under this very path
    rw [hlast] at hnode
    obtain ⟨e, bytes', he, hbytes', hnode⟩ := hnode
    obtain ⟨hchanged, hdest'⟩ := mem_of_lastAt? hlast
    have hlast' := Task.mem_editedPaths_iff.2
      (mem_edited_of_mem_changed hd hload happly hchanged)
    obtain rfl : last = path := hsep last hlast' path hpath place hdest' hdest
    exact ⟨e, place, bytes', he, hreach, hnode, hback he hbytes'⟩
  | none =>
    -- nothing was stored there
    rw [hlast] at hnode
    have hnot : path ∉ before.changed after := fun hp =>
      destination?_ne_of_lastAt? hlast hp hdest
    obtain ⟨e, bytes', he, hnode', ht⟩ :=
      exists_decode_of_not_changed hd hg hload happly hedited hnot hdest
    exact ⟨e, place, bytes', he, hreach, (hnode.file_iff bytes').2 hnode', ht⟩

end Snapshot

/-! ## What is printed

The paths of the plan, one on a line, in the order in which the files were
stored. -/

namespace Task

/-- A response that is applied prints the paths of the changed files. -/
theorem printed_of_runApply {response : Text} {root : Option Text}
    (hplan : plan d response root config = .ok (edits, before, after))
    (hok : (runApply d response root config).result = .ok ()) :
    (runApply d response root config).printed = (before.changed after).flatMap printedLine := by
  rw [runApply_eq_plan, hplan] at hok ⊢
  dsimp only at hok ⊢
  split
  · rfl
  next hdry =>
    rw [if_neg hdry] at hok
    cases hstore : Snapshot.store d (root.getD []) before after config with
    | mk stored result =>
      rw [hstore] at hok
      cases result with
      | error e => cases hok
      | ok paths => rw [(Snapshot.store_eq_ok_iff.1 hstore).1]

end Task

namespace Program

open Disk Snapshot

/-- **A run that applies a response prints the paths of the changed
files.** -/
theorem printed_of_run {d₁ : Disk} {home response : Text} {args : List Text}
    {top configPath : Option Text} {dry : Bool} {settings : Settings} {log : List Record}
    (hargs : Arguments.readInvocation args = .ok ⟨configPath, .apply response top dry⟩)
    (hopen : Settings.openIn d home application = (d₁, .ok (settings, log)))
    (hconfig : configFor d₁ ⟨configPath, .apply response top dry⟩ settings = .ok config)
    (hplan : Task.plan d₁ response top config = .ok (edits, before, after))
    (hok : (run d home args).result = .ok success) :
    (run d home args).printed = (before.changed after).flatMap printedLine := by
  have htask : Task.run (.apply response top dry) d₁ settings config
      = Task.runApply d₁ response top config := rfl
  unfold run runInvocation at hok ⊢
  simp only [hargs, hopen, hconfig] at hok ⊢
  cases hlevel : Levels.threshold config.logLevel with
  | error e =>
    rw [hlevel] at hok
    exact absurd hok (endBy_eq d₁ log id (.level e)).2
  | ok severity =>
    rw [hlevel] at hok
    dsimp only at hok ⊢
    rw [htask] at hok ⊢
    cases hresult : (Task.runApply d₁ response top config).result with
    | error e =>
      rw [hresult] at hok
      exact absurd hok (endBy_eq _ _ _ e).2
    | ok done => exact Task.printed_of_runApply hplan hresult

/-! ## A whole run

The disk at the end is compared with the one at the beginning, with the
opening of the settings in between. -/

/-- **A run refines the edits made on a snapshot**: from the disk before and
the disk after, the snapshots before and after the edits, and what was
printed. -/
structure Refines (d d' : Disk) (home root : Text) (config : RunConfig) (edits : List Edit)
    (before after : Snapshot) (printed : Text) : Prop where
  /-- Where what is written is read back, each edited path leads to a file,
  and it is read again as the snapshot after the edits has it. -/
  reads : config.ReadsBack → d'.Separates root config.exclude (Task.editedPaths edits) →
    ∀ path ∈ Task.editedPaths edits, ∃ full, d'.resolve root path config.exclude = .ok full
      ∧ d'.isFile full = true ∧ d'.readText full config.encoding = .ok (after.contents path)
  /-- Nothing else is touched, but for directories made for the settings
  where nothing was. -/
  keeps : ∀ place, StoredAt d d' root config.exclude (before.changed after) place
    ∨ d.node? place = none ∧ d'.node? place = some .directory
      ∧ d'.OnWay (Settings.directoryOf home application) place
  /-- The changed paths are those of files that were there and hold another
  text, and then those of new files, each in the order of first mention. -/
  changed : before.changed after = before.rewritten after (Task.editedPaths edits)
    ++ before.created (Task.editedPaths edits)
  /-- None is listed twice. -/
  nodup : (before.changed after).Nodup
  /-- They are what is printed, one a line. -/
  printed : printed = (before.changed after).flatMap printedLine

/-- Opening the settings makes directories on the way to theirs. -/
theorem extends_openIn_onWay (hd : d.IsTree) (home name : Text) :
    d.Extends ((Settings.openIn d home name).1.OnWay (Settings.directoryOf home name))
      (Settings.openIn d home name).1 := by
  rw [openIn_fst]
  exact extends_makeDirectories_onWay hd _

/-- **The disk after a run that succeeds is what the snapshot after the edits
says**, whatever the tree, the root, the configuration and the response. -/
theorem refines_of_run (hd : d.IsTree) {home response : Text} {args : List Text}
    {top configPath : Option Text} {dry : Bool}
    (hargs : Arguments.readInvocation args = .ok ⟨configPath, .apply response top dry⟩)
    (hok : (run d home args).result = .ok success) :
    ∃ d₁ settings log config,
      Settings.openIn d home application = (d₁, .ok (settings, log))
      ∧ configFor d₁ ⟨configPath, .apply response top dry⟩ settings = .ok config
      ∧ (config.dryRun = false →
        ∃ root text edits before after, top = some root
          ∧ d₁.readText response config.encoding = .ok text
          ∧ Block.edits (Text.normalizeNewlines text) = .ok edits
          ∧ Snapshot.load d₁ root (Task.editedPaths edits) config = .ok before
          ∧ before.applyEdits edits = .ok after
          ∧ Refines d (run d home args).disk home root config edits before after
            (run d home args).printed) := by
  have hext := extends_openIn_onWay hd home application
  rcases run_apply_cases hargs rfl with ⟨-, hfail⟩ |
    ⟨settings, log, config, edits, before, after, hopen, hconfig, hplan, hcases⟩
  · exact absurd hok hfail
  refine ⟨_, settings, log, config, hopen, hconfig, fun hdry => ?_⟩
  rcases hcases with ⟨hdry', -⟩ | ⟨-, failed, hstore, hsuccess⟩
  · rw [hdry] at hdry'
    cases hdry'
  obtain rfl := hsuccess.1 hok
  have hprinted := printed_of_run hargs hopen hconfig hplan hok
  obtain ⟨root, text, rfl, htext, hedits, hload, happly⟩ := Task.plan_eq_ok hplan
  rw [Option.getD_some] at hstore
  refine ⟨root, text, edits, before, after, rfl, htext, hedits, hload, happly, ?_⟩
  have hg := (grows_of_storeFiles hext.isTree hstore).2
  constructor
  · exact fun hback hsep path hpath =>
      readText_of_edited hext.isTree hload happly hstore hback hsep hpath
  · intro place
    have hstored := storedAt_of_storeFiles hext.isTree hstore place
    rcases hext.made place with hsame | ⟨hway, hnone, hdir⟩
    · -- the settings have made nothing here
      refine Or.inl ?_
      cases hstored with
      | kept hkept => exact .kept (hkept.trans hsame)
      | file hp hdest => exact .file hp hdest
      | directory hp hdest hbelow hnone hdir =>
        exact .directory hp hdest hbelow (hsame.symm.trans hnone) hdir
    · exact Or.inr ⟨hnone, hg.directory place hdir, hg.onWay hway⟩
  · exact changed_eq hload happly
  · exact nodup_changed before after
  · exact hprinted

end Program

end

/-! ## A file that is new and one that is not

Both are edited, and the new one needs a directory. -/

namespace Program

open Disk Snapshot

/-- An edit that creates a file in a directory that is missing, and one of a
file that is there. -/
def sowing : List Edit := [⟨"new/b.txt", [], "2\n"⟩, ⟨"a.txt", "one\n", "1\n"⟩]

/-- A root with the one file, and beside it the response with the edits. -/
def sown : Disk where
  nodes := .ofList [
    (["srv"], .directory),
    (["srv", "repo"], .directory),
    (["srv", "repo", "a.txt"], .file (Utf8.encode "one\n")),
    (["srv", "response.txt"], .file (Utf8.encode (sowing.flatMap Edit.envelope)))]
  workingDir := ["srv"]

/-- The run makes the directory and prints the file that was there first. Its
encoding reads back what it has written. -/
theorem refines_of_run_sown :
    sown.IsTree
      ∧ Arguments.readInvocation applyIt = .ok ⟨none, .apply "response.txt" (some "repo") false⟩
      ∧ (run sown "/srv/home" applyIt).result = .ok success
      ∧ (run sown "/srv/home" applyIt).printed = "a.txt\nnew/b.txt\n"
      ∧ RunConfig.usual.ReadsBack
      ∧ (run sown "/srv/home" applyIt).disk.Separates "repo" [] (Task.editedPaths sowing)
      ∧ ∃ before after, Refines sown (run sown "/srv/home" applyIt).disk "/srv/home" "repo"
        RunConfig.usual sowing before after (run sown "/srv/home" applyIt).printed := by
  have hd : sown.IsTree := by decide +kernel
  have hargs : Arguments.readInvocation applyIt
      = .ok ⟨none, .apply "response.txt" (some "repo") false⟩ := by rfl
  have hok : (run sown "/srv/home" applyIt).result = .ok success := by decide +kernel
  have hback : RunConfig.usual.ReadsBack :=
    RunConfig.readsBack_of_isModelled (e := .utf8) (by rfl) rfl
  refine ⟨hd, hargs, hok, by decide +kernel, hback, by decide +kernel, ?_⟩
  obtain ⟨d₁, settings, log, config, hopen, hconfig, hrun⟩ := refines_of_run hd hargs hok
  -- nothing is configured, and the response is read as it was written
  have husual : ((Settings.openIn sown "/srv/home" application).2.toOption.bind fun opened =>
      (configFor (Settings.openIn sown "/srv/home" application).1
        ⟨none, .apply "response.txt" (some "repo") false⟩ opened.1).toOption)
      = some RunConfig.usual := by
    rfl
  have hwritten : ((Settings.openIn sown "/srv/home" application).1.readText "response.txt"
      RunConfig.usualEncoding).toOption.map (fun text =>
        Block.edits (Text.normalizeNewlines text)) = some (.ok sowing) := by
    decide +kernel
  rw [hopen] at husual hwritten
  change (configFor d₁ _ settings).toOption = _ at husual
  obtain rfl : config = RunConfig.usual :=
    Except.ok.inj (hconfig.symm.trans (toOption_eq_some_iff.1 husual))
  obtain ⟨root, text, edits, before, after, hroot, htext, hedits, -, -, hrefines⟩ := hrun rfl
  cases hroot
  rw [show d₁.readText "response.txt" RunConfig.usualEncoding = .ok text from htext] at hwritten
  cases hedits.symm.trans (Option.some.inj hwritten)
  exact ⟨before, after, hrefines⟩

end Program

end EditBlocks
