import EditBlocks.Proofs.Escapes

/-!
# What is written can be read again

A file is emptied before its text is encoded. So nothing but the text itself
keeps a file from being left empty: it must be one that the encoding has
bytes for. In an encoding that is modelled, what is planned is such a text
(`Task.exists_encode_of_plan`), and with it a file is stored as a whole or
not touched (`Snapshot.leavesWhole_of_storeFile`), though directories may
have been made for it.

`Program.writesLegibly_of_run` says what a run leaves, however it ends: no
file is emptied, and what was written in a file is read again in the encoding
of the run. The settings that are meant for encodings all name one that is
modelled; of a codec that is given from outside none of this is known.

For each file there are two outcomes and no third, because the one step that
could fail in between does not: the text is encoded without an error. What
the system may refuse it refuses before the file is emptied, as the same file
is written twice.
-/

namespace EditBlocks

section

variable [Host] {d d' : Disk} {root path : Text} {config : RunConfig} {paths : List Text}
  {edits : List Edit} {before after s : Snapshot} {e : Encoding} {failed : Option Failure}

namespace Snapshot

open Disk

/-- **What storing some files of a snapshot leaves at a location**: what was
there, but for a directory that is made where nothing was, or the whole text
of one of the files, which can be read again. -/
def LeavesWhole (d d' : Disk) (root : Text) (config : RunConfig) (e : Encoding) (s : Snapshot)
    (paths : List Text) (place : Location) : Prop :=
  d.KeptAt d' place
  ∨ ∃ path ∈ paths, ∃ bytes, d'.destination? root config.exclude path = some place
    ∧ d'.node? place = some (.file bytes) ∧ e.encode (s.contents path) = .ok bytes
    ∧ e.decode bytes = .ok (s.contents path)

/-- **A file whose text can be encoded is stored as a whole, or not
touched**, whether or not storing it succeeds. -/
theorem leavesWhole_of_storeFile (hd : d.IsTree) (he : Encoding.ofSetting config.encoding = .ok e)
    (hback : e.ReadsBack) (hbytes : ∃ bytes, e.encode (s.contents path) = .ok bytes)
    (h : storeFile d root s config path = (d', failed)) (place : Location) :
    LeavesWhole d d' root config e s [path] place := by
  obtain ⟨bytes, hbytes⟩ := hbytes
  rw [storeFile] at h
  cases hfull : d.resolve root path config.exclude with
  | error cause =>
    rw [hfull] at h
    cases h
    exact Or.inl (Or.inl rfl)
  | ok full =>
    have hmake := extends_makeDirectories hd (Path.parent full)
    rw [hfull] at h
    dsimp only at h
    rcases hmade : d.makeDirectories (Path.parent full) with ⟨made, _ | cause⟩
    all_goals
      rw [hmade] at hmake h
      dsimp only at hmake h
    · rcases writeText_cases hmake.isTree h with ⟨-, rfl⟩ | ⟨target, hreach, htakes, -⟩
      · exact Or.inl (hmake.keptAt place)
      -- the file is opened, so the text is written after it has been emptied
      have htakes := htakes bytes
      cases h.symm.trans (writeText_of_takes hmake.isTree he hbytes hreach htakes)
      have hnode := node?_put made (.file bytes) place htakes.ne_nil
      by_cases hplace : place = target
      · rw [if_pos hplace] at hnode
        have hdest : (made.put target (.file bytes)).destination? root config.exclude path
            = some place :=
          destination?_eq_some_iff.2 ⟨full,
            ((hmake.grows.trans htakes.grows).resolve _ _ _).trans hfull,
            hplace ▸ htakes.grows.reach? hreach⟩
        exact Or.inr ⟨path, List.mem_cons_self, bytes, hdest, hnode, hbytes,
          hback hbytes⟩
      · rw [if_neg hplace] at hnode
        exact Or.inl (KeptAt.trans (hmake.keptAt place) (Or.inl hnode))
    · cases h
      exact Or.inl (hmake.keptAt place)

/-- **So are several**, however far storing them gets. -/
theorem leavesWhole_of_storeFiles (hd : d.IsTree)
    (he : Encoding.ofSetting config.encoding = .ok e)
    (hback : e.ReadsBack)
    (hbytes : ∀ path ∈ paths, ∃ bytes, e.encode (s.contents path) = .ok bytes)
    (h : storeFiles root s config d paths = (d', failed)) (place : Location) :
    LeavesWhole d d' root config e s paths place := by
  induction paths generalizing d with
  | nil =>
    cases h
    exact Or.inl (Or.inl rfl)
  | cons path rest ih =>
    obtain ⟨hpath, hrest⟩ := List.forall_mem_cons.1 hbytes
    rcases storeFiles_cons_eq_iff.1 h with ⟨-, hstep⟩ | ⟨d₁, hstep, h⟩
    · -- storing stops at this file
      refine (leavesWhole_of_storeFile hd he hback hpath hstep place).imp_right ?_
      rintro ⟨other, ho, hother⟩
      obtain rfl := List.mem_singleton.1 ho
      exact ⟨other, List.mem_cons_self, hother⟩
    obtain ⟨hd₁, -⟩ := grows_of_storeFile hd hstep
    have hg := (grows_of_storeFiles hd₁ h).2
    rcases ih hd₁ hrest h with hkept | ⟨other, ho, hother⟩
    · rcases leavesWhole_of_storeFile hd he hback hpath hstep place with
        hkept' | ⟨other, ho, bytes, hdest, hnode, htext⟩
      · exact Or.inl (hkept'.trans hkept)
      · obtain rfl := List.mem_singleton.1 ho
        exact Or.inr ⟨other, List.mem_cons_self, bytes, hg.destination? hdest,
          (hkept.file_iff bytes).2 hnode, htext⟩
    · exact Or.inr ⟨other, List.mem_cons_of_mem _ ho, hother⟩

end Snapshot

namespace Program

open Disk Snapshot

variable {d₁ : Disk} {home response text : Text} {args : List Text} {configPath : Option Text}
  {dry : Bool} {settings : Settings} {log : List Record}

/-- **A run with a plan is ended by no encoding**, if what is planned can be
encoded. -/
theorem cause_ne_encoding (hd : d.IsTree)
    (hargs : Arguments.readInvocation args = .ok ⟨configPath, .apply response (some root) dry⟩)
    (hopen : Settings.openIn d home application = (d₁, .ok (settings, log)))
    (hconfig : configFor d₁ ⟨configPath, .apply response (some root) dry⟩ settings = .ok config)
    (hplan : Task.plan d₁ response (some root) config = .ok (edits, before, after))
    (hset : Encoding.ofSetting config.encoding = .ok e)
    (hbytes : ∀ path, ∃ bytes, e.encode (after.contents path) = .ok bytes)
    (cause : EncodingError) : cause? d home args ≠ some (.encoding cause) := by
  intro hcause
  have hext := extends_of_openIn hd hopen
  rw [cause?, hargs] at hcause
  dsimp only at hcause
  rw [hopen] at hcause
  -- the run has a configuration and a plan, so it is ended by a text to be stored if at all
  cases (causeOf_escapes_iff hext.isTree).1 ⟨hcause, rfl⟩ with
  | config h => cases hconfig.symm.trans (map_eq_error_iff.2 (RunConfig.load_escapes_iff.2 h).1)
  | task hconfig' _ h =>
    cases hconfig.symm.trans hconfig'
    cases h with
    | plan h => cases hplan.symm.trans (Task.plan_escapes_iff.2 h).1
    | store hplan' _ h =>
      cases hplan.symm.trans hplan'
      cases h with
      | @intro _ _ path _ _ _ _ _ _ _ hset' h =>
        cases hset.symm.trans hset'
        obtain ⟨bytes, hbytes⟩ := hbytes path
        cases h with
        | text _ h =>
          cases h with
          | unencodable _ h => cases hbytes.symm.trans h

/-- **Writing that does not fail on an encoding**: from the disk with the
settings opened and the disk after the run. -/
structure WritesLegibly (d d₁ d' : Disk) (home root : Text) (args : List Text)
    (config : RunConfig) (e : Encoding) (before after : Snapshot) : Prop where
  /-- Every text to be written can be encoded, and is read again from its
  bytes. -/
  legible : ∀ path, ∃ bytes, e.encode (after.contents path) = .ok bytes
    ∧ e.decode bytes = .ok (after.contents path)
  /-- No encoding ends the run. -/
  cause : ∀ cause, cause? d home args ≠ some (.encoding cause)
  /-- However the run ends, no file is emptied: each is as it was, or holds
  the whole of a text that was to be written in it. -/
  whole : ∀ place, LeavesWhole d₁ d' root config e after (before.changed after) place

/-- **A run writes what can be read again**, whatever the tree and the
response, in every encoding that is modelled, where the response and the
files that it names are read and its edits can be applied. -/
theorem writesLegibly_of_run (hd : d.IsTree)
    (hargs : Arguments.readInvocation args = .ok ⟨configPath, .apply response (some root) dry⟩)
    (hopen : Settings.openIn d home application = (d₁, .ok (settings, log)))
    (hconfig : configFor d₁ ⟨configPath, .apply response (some root) dry⟩ settings = .ok config)
    (hread : d₁.readText response config.encoding = .ok text)
    (hedits : Block.edits (Text.normalizeNewlines text) = .ok edits)
    (hload : Snapshot.load d₁ root (Task.editedPaths edits) config = .ok before)
    (happly : before.applyEdits edits = .ok after) :
    ∃ e, Encoding.ofSetting config.encoding = .ok e ∧ (e.isModelled = true →
      WritesLegibly d d₁ (run d home args).disk home root args config e before after) := by
  have hext := extends_of_openIn hd hopen
  have hplan := Task.plan_of_applyEdits hread hedits hload happly
  obtain ⟨e, he, hbytes⟩ := Task.exists_encode_of_plan hext.isTree hplan
  refine ⟨e, he, fun hmodelled => ?_⟩
  have hbytes := hbytes hmodelled
  have hback : e.ReadsBack := Encoding.readsBack_of_isModelled hmodelled
  refine ⟨fun path => ?_, cause_ne_encoding hd hargs hopen hconfig hplan he hbytes,
    fun place => ?_⟩
  · obtain ⟨bytes, hencode⟩ := hbytes path
    exact ⟨bytes, hencode, hback hencode⟩
  rcases run_apply_cases_of_config hargs hopen hconfig with ⟨hdisk, -⟩ |
    ⟨edits', before', after', hplan', ⟨-, hdisk, -⟩ | ⟨-, failed, hstore, -⟩⟩
  · exact Or.inl (Or.inl (by rw [hdisk]))
  · exact Or.inl (Or.inl (by rw [hdisk]))
  · cases hplan.symm.trans hplan'
    exact leavesWhole_of_storeFiles hext.isTree he hback (fun path _ => hbytes path) hstore place

/-- The settings that are meant for encodings name one, and so does none at
all. -/
example : [Value.text "utf-8", .text "latin-1", .text "ascii", .text "utf-16",
    .text "utf-16-le", .text "utf-16-be", .text "utf-8-sig", .null].map Encoding.ofSetting
      = [.ok .utf8, .ok .latin1, .ok .ascii, .ok .utf16, .ok (.utf16In .little),
        .ok (.utf16In .big), .ok .utf8Marked, .ok .utf8] := by rfl

end Program

end

namespace Program

open Disk

/-! ## Two files in UTF-16 with a mark

One of them has a second mark, which belongs to its text, and of the other
nothing is left but the mark. -/

/-- An edit of a file that begins with a mark of its own, and one that leaves
nothing of its file. -/
def trimming : List Edit := [⟨"a.txt", "one\n", "1\n"⟩, ⟨"b.txt", "all\n", []⟩]

/-- Settings for UTF-16 with a mark, a root with the two files, and beside it
the response with the edits. -/
def marked : Disk where
  nodes := .ofList [
    (["srv"], .directory),
    (["srv", "repo"], .directory),
    (["srv", "repo", "a.txt"], .file (Utf16.encodeMarked "\uFEFFone\n")),
    (["srv", "repo", "b.txt"], .file (Utf16.encodeMarked "all\n")),
    (["srv", "response.txt"], .file (Utf16.encodeMarked (trimming.flatMap Edit.envelope))),
    (["srv", "home"], .directory),
    (["srv", "home", "codechange"], .directory),
    (["srv", "home", "codechange", "config.json"],
      .file (Utf8.encode "\x7b\"encoding\": \"utf-16\"\x7d"))]
  workingDir := ["srv"]

/-- The one file is written with both marks, and the other with the mark of
the encoding alone. -/
theorem writesLegibly_of_run_marked :
    marked.IsTree
      ∧ Arguments.readInvocation applyIt = .ok ⟨none, .apply "response.txt" (some "repo") false⟩
      ∧ (run marked "/srv/home" applyIt).disk.node? ["srv", "repo", "a.txt"]
        = some (.file (Utf16.encodeMarked "\uFEFF1\n"))
      ∧ (run marked "/srv/home" applyIt).disk.node? ["srv", "repo", "b.txt"]
        = some (.file [0xff, 0xfe])
      ∧ ∃ d₁ config before after, WritesLegibly marked d₁ (run marked "/srv/home" applyIt).disk
        "/srv/home" "repo" applyIt config .utf16 before after := by
  have hd : marked.IsTree := by decide +kernel
  have hargs : Arguments.readInvocation applyIt
      = .ok ⟨none, .apply "response.txt" (some "repo") false⟩ := by rfl
  refine ⟨hd, hargs, by decide +kernel, by decide +kernel, ?_⟩
  -- the response is read under the settings, and its edits are applied to the files
  have hset : ((Settings.openIn marked "/srv/home" application).2.toOption.any fun opened =>
      (configFor (Settings.openIn marked "/srv/home" application).1
        ⟨none, .apply "response.txt" (some "repo") false⟩ opened.1).toOption.any fun config =>
          Encoding.ofSetting config.encoding = .ok .utf16
            ∧ ((Settings.openIn marked "/srv/home" application).1.readText "response.txt"
              config.encoding).toOption.any (fun text =>
                Block.edits (Text.normalizeNewlines text) = .ok trimming)
            ∧ (Snapshot.load (Settings.openIn marked "/srv/home" application).1 "repo"
              (Task.editedPaths trimming) config).toOption.any fun before =>
                (before.applyEdits trimming).toOption.isSome) = true := by
    decide +kernel
  obtain ⟨⟨settings, log⟩, hopened, hset⟩ := (Option.any_eq_true _ _).1 hset
  obtain ⟨config, hconfig, hset⟩ := (Option.any_eq_true _ _).1 hset
  obtain ⟨hutf16, hread, hload⟩ := of_decide_eq_true hset
  obtain ⟨text, htext, hedits⟩ := (Option.any_eq_true _ _).1 hread
  obtain ⟨before, hbefore, happly⟩ := (Option.any_eq_true _ _).1 hload
  obtain ⟨after, hafter⟩ := Option.isSome_iff_exists.1 happly
  have hopen : Settings.openIn marked "/srv/home" application
      = ((Settings.openIn marked "/srv/home" application).1, .ok (settings, log)) :=
    Prod.ext rfl (toOption_eq_some_iff.1 hopened)
  obtain ⟨e, he, hwrites⟩ := writesLegibly_of_run hd hargs hopen (toOption_eq_some_iff.1 hconfig)
    (toOption_eq_some_iff.1 htext) (of_decide_eq_true hedits) (toOption_eq_some_iff.1 hbefore)
    (toOption_eq_some_iff.1 hafter)
  cases hutf16.symm.trans he
  exact ⟨_, config, before, after, hwrites rfl⟩

end Program

end EditBlocks
