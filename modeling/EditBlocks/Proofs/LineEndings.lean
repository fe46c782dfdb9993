import EditBlocks.Proofs.Block.Newline
import EditBlocks.Proofs.Changes
import EditBlocks.Proofs.Disk.Standing
import EditBlocks.Proofs.DryRun
import EditBlocks.Proofs.Encoding.Repertoire
import EditBlocks.Proofs.Quotation

/-!
# Line endings of a response

The files under the root are read and written as they are, but the file of
the response is read with its newlines made one. What a run finds in it is
not the envelope that was written but that of another edit, whose two texts
have line feeds only (`Edit.asRead`). That edit is looked for and put, so a
text that ends its lines otherwise is not found in the file that it was
copied from, or comes back with other line ends
(`Program.replacesAsRead_of_run`).

The run that is followed has a response with one envelope, for a file that is
there. All that it depends on is put together in one structure
(`Disk.HoldsEnvelope`), which is kept while the settings are opened, so that
each stage of the run is one lemma about it. A response that names more than
one file adds nothing to the matter: each text of it is read in the same way.
-/

namespace EditBlocks

/-! ## Envelopes with their newlines made one

What can be written into a response can still be written with its newlines
made one, and the envelope is then that of the other edit. -/

/-- A text that can stand in a block still can when its newlines are made
one. -/
theorem Text.IsBlockText.normalizeNewlines {t : Text} (h : t.IsBlockText) :
    t.normalizeNewlines.IsBlockText where
  terminated := h.terminated.normalizeNewlines
  noMarker line hline := by
    rw [Text.lines_normalizeNewlines] at hline
    obtain ⟨before, hbefore, rfl⟩ := List.mem_map.1 hline
    -- how a line ends does not count for what it holds
    rw [Marker.ignoresEnd_ofLine?.normalizeNewlines hbefore, h.noMarker before hbefore]

namespace Edit

theorem Writable.asRead {e : Edit} (h : e.Writable) : e.asRead.Writable :=
  ⟨h.path, h.search.normalizeNewlines, h.replacement.normalizeNewlines⟩

/-- **The envelope of an edit is read as that of the other edit.** The lines
that make it an envelope end with line feeds, and the texts stand in it as
they are. -/
theorem PathFits.normalizeNewlines_envelope {e : Edit} (h : PathFits e.path) :
    e.envelope.normalizeNewlines = e.asRead.envelope := by
  have hopening : '\r' ∉ Marker.openingFor e.path ++ ['\n'] := fun hmem => by
    rcases List.mem_append.1 hmem with hmem | hmem
    · exact absurd (h.no_break _ hmem) (by decide)
    · exact absurd (List.mem_singleton.1 hmem) (by decide)
  have hjoint {t u : Text} : Text.CleanJoint (t ++ ['\n']) u := fun hlast =>
    absurd (Option.some.inj (List.getLast?_concat.symm.trans hlast)) (by decide)
  have hsearch {t u : Text} : Text.CleanJoint t (Marker.dividerText ++ ['\n'] ++ u) :=
    fun _ => show some '=' ≠ some '\n' by decide
  have hreplace {t u : Text} : Text.CleanJoint t (Marker.replaceText ++ ['\n'] ++ u) :=
    fun _ => show some '>' ≠ some '\n' by decide
  have hparts (e : Edit) : e.envelope = Marker.openingFor e.path ++ ['\n']
      ++ (Marker.searchText ++ ['\n'] ++ (e.search ++ (Marker.dividerText ++ ['\n']
        ++ (e.replacement
          ++ (Marker.replaceText ++ ['\n'] ++ (Marker.closingText ++ ['\n'])))))) := by
    simp only [envelope, List.append_assoc]
  rw [hparts, hparts, Text.normalizeNewlines_append hjoint, Text.normalizeNewlines_append hjoint,
    Text.normalizeNewlines_append hsearch, Text.normalizeNewlines_append hjoint,
    Text.normalizeNewlines_append hreplace, Text.normalizeNewlines_of_not_mem hopening]
  rfl

end Edit

/-! ## A response that names one file

All that such a run depends on, put together: the response, the root, the
file and its text. -/

/-- **What a run finds that applies one envelope**: its file, and the
response beside it, as the configuration reads them. -/
structure Disk.HoldsEnvelope [Host] (d : Disk) (config : RunConfig) (e : Encoding)
    (response root : Text) (edit : Edit) (place : Location) (contents : Text) : Prop where
  /-- The configuration's encoding. -/
  encoding : Encoding.ofSetting config.encoding = .ok e
  /-- It is one that is modelled. -/
  modelled : e.isModelled = true
  /-- The response is the envelope of the edit, in that encoding. -/
  response : ∃ there bytes, d.reach? response = some there
    ∧ d.node? there = some (.file bytes) ∧ e.encode edit.envelope = .ok bytes
  /-- The edit can be written. -/
  writable : edit.Writable
  /-- It looks for something. -/
  notBlank : edit.creates = false
  /-- The edit's path leads to the file. -/
  path : d.destination? root config.exclude edit.path = some place
  /-- The file holds the text, in that encoding. -/
  file : ∃ bytes, d.node? place = some (.file bytes) ∧ e.decode bytes = .ok contents

section

variable [Host] {d d' : Disk} {config : RunConfig} {e : Encoding} {response root contents : Text}
  {edit : Edit} {place : Location}

namespace Disk.HoldsEnvelope

/-- A disk that has got directories holds what it held. -/
theorem of_extends {where' : Location → Prop}
    (h : d.HoldsEnvelope config e response root edit place contents) (hext : d.Extends where' d') :
    d'.HoldsEnvelope config e response root edit place contents where
  encoding := h.encoding
  modelled := h.modelled
  response := by
    obtain ⟨there, bytes, hreach, hnode, hbytes⟩ := h.response
    exact ⟨there, bytes, hext.grows.reach? hreach, ((hext.keptAt there).file_iff bytes).2 hnode,
      hbytes⟩
  writable := h.writable
  notBlank := h.notBlank
  path := hext.grows.destination? h.path
  file := by
    obtain ⟨bytes, hnode, hcontents⟩ := h.file
    exact ⟨bytes, ((hext.keptAt place).file_iff bytes).2 hnode, hcontents⟩

theorem textAt? (h : d.HoldsEnvelope config e response root edit place contents) :
    d.textAt? e place = some contents := by
  obtain ⟨bytes, hnode, hcontents⟩ := h.file
  rw [Disk.textAt?, hnode]
  exact toOption_eq_some_iff.2 hcontents

/-- **What is put into the file can be encoded**, if it is put together from
the file and from the response. -/
theorem exists_encode (h : d.HoldsEnvelope config e response root edit place contents) {t : Text}
    (ht : edit.asRead.applyTo contents = .ok t) : ∃ bytes, e.encode t = .ok bytes := by
  obtain ⟨-, written, -, -, hwritten⟩ := h.response
  obtain ⟨bytes, -, hcontents⟩ := h.file
  obtain ⟨before, after, hfirst, rfl⟩ :=
    (Snapshot.applyTo_eq_ok_iff (edit.creates_asRead.trans h.notBlank)).1 ht
  have hfile := Encoding.has_of_decode hcontents
  have hreplacement : ∀ c ∈ edit.replacement, e.has c = true := fun c hc =>
    (Encoding.exists_encode_iff h.modelled).1 ⟨written, hwritten⟩ c (by simp [Edit.envelope, hc])
  rw [hfirst.eq_append] at hfile
  refine (Encoding.exists_encode_iff h.modelled).2 fun c hc => ?_
  rw [List.mem_append, List.mem_append] at hc
  rcases hc with (hc | hc) | hc
  · exact hfile c (by simp [hc])
  · rcases Text.mem_of_mem_normalizeNewlines hc with hc | rfl
    · exact hreplacement c hc
    · exact e.has_lineFeed
  · exact hfile c (by simp [hc])

theorem readResponse (hd : d.IsTree)
    (h : d.HoldsEnvelope config e response root edit place contents) :
    Task.readResponse d response config = .ok edit.asRead.envelope := by
  obtain ⟨there, bytes, hreach, hnode, hbytes⟩ := h.response
  have hread : d.readText response config.encoding = .ok edit.envelope :=
    (readText_eq_ok_iff hd).2 ⟨e, there, bytes, h.encoding, hreach, hnode,
      Encoding.readsBack_of_isModelled h.modelled hbytes⟩
  rw [Task.readResponse, hread]
  exact congrArg Except.ok h.writable.path.normalizeNewlines_envelope

/-- **The file is loaded** with its text as it is. -/
theorem load (hd : d.IsTree) (h : d.HoldsEnvelope config e response root edit place contents) :
    ∃ before, Snapshot.load d root [edit.path] config = .ok before
      ∧ before.contains edit.path = true ∧ before.contents edit.path = contents := by
  obtain ⟨bytes, hnode, hcontents⟩ := h.file
  obtain ⟨full, hfull, hreach⟩ := destination?_eq_some_iff.1 h.path
  obtain ⟨r, hr, -⟩ := resolve_eq_ok_iff.1 hfull
  have hfile : d.isFile full = true := (isFile_iff hd).2 ⟨place, bytes, hreach, hnode⟩
  have hread : d.readText full config.encoding = .ok contents :=
    (readText_eq_ok_iff hd).2 ⟨e, place, bytes, h.encoding, hreach, hnode, hcontents⟩
  have hfiles : Snapshot.loadFiles d root config [edit.path] .empty
      = .ok (OrderedMap.empty.insert edit.path ⟨edit.path, contents⟩) := by
    refine Snapshot.loadFiles_cons_eq_ok_iff.2 ⟨full, hfull, ?_⟩
    rw [if_pos hfile]
    exact ⟨contents, hread, rfl⟩
  refine ⟨_, bind_eq_ok_iff.2 ⟨_, hfiles, bind_eq_ok_iff.2
    ⟨r, mapError_eq_ok_iff.2 (realPathFor_eq_ok_iff.2 hr), rfl⟩⟩, ?_, ?_⟩
  · simp [Snapshot.contains, OrderedMap.contains]
  · simp [Snapshot.contents]

/-- **The file is stored** with another text, if that can be encoded. It is
there already, so no directory is made for it. -/
theorem storeFile (hd : d.IsTree) (h : d.HoldsEnvelope config e response root edit place contents)
    {s : Snapshot} {bytes : List UInt8} (hbytes : e.encode (s.contents edit.path) = .ok bytes) :
    Snapshot.storeFile d root s config edit.path = (d.put place (.file bytes), none) := by
  obtain ⟨old, hnode, -⟩ := h.file
  obtain ⟨full, hfull, hreach⟩ := destination?_eq_some_iff.1 h.path
  obtain ⟨r, -, hreal, -⟩ := resolve_eq_ok_iff.1 hfull
  obtain ⟨found, hfound, -⟩ := reach?_eq_some_iff.1 hreach
  rw [Snapshot.storeFile, hfull]
  dsimp only
  rw [makeDirectories_parent hd (isAbsolute_of_realPath hreal) hfound]
  exact writeText_of_takes hd h.encoding hbytes hreach (takes_of_file hd hnode bytes)

end Disk.HoldsEnvelope

namespace Task

/-- **The envelope is planned as it is read.** -/
theorem plan_of_holdsEnvelope (hd : d.IsTree)
    (h : d.HoldsEnvelope config e response root edit place contents) :
    ∃ before : Snapshot, before.contains edit.path = true
      ∧ before.contents edit.path = contents
      ∧ plan d response (some root) config = match edit.asRead.applyTo contents with
        | .ok t => .ok ([edit.asRead], before, before.update edit.path t)
        | .error error => .error (.apply error) := by
  obtain ⟨before, hload, hcontains, hcontents⟩ := h.load hd
  refine ⟨before, hcontains, hcontents, ?_⟩
  have hgiven : (givenRoot (some root) >>= fun root =>
      Snapshot.load d root (editedPaths [edit.asRead]) config) = .ok before := hload
  have happly : before.applyEdits [edit.asRead] = match edit.asRead.applyTo contents with
      | .ok t => .ok (before.update edit.path t)
      | .error error => .error error := by
    rw [← hcontents]
    exact Snapshot.applyEdits_cons before edit.asRead []
  rw [plan, h.readResponse hd]
  dsimp only [bind, Except.bind]
  rw [h.writable.asRead.edits_envelope]
  dsimp only [bind, Except.bind, Except.mapError]
  rw [editedSnapshots, hgiven]
  dsimp only
  rw [happly]
  cases edit.asRead.applyTo contents <;> rfl

/-- **The envelope is applied as it is read**: the file gets what that edit
makes of it. -/
theorem runApply_of_applyTo (hd : d.IsTree) (hdry : config.dryRun = false)
    (h : d.HoldsEnvelope config e response root edit place contents) {t : Text}
    (ht : edit.asRead.applyTo contents = .ok t) :
    (runApply d response (some root) config).result = .ok ()
      ∧ (runApply d response (some root) config).disk.textAt? e place = some t := by
  obtain ⟨before, hcontains, hcontents, hplan⟩ := plan_of_holdsEnvelope hd h
  rw [ht] at hplan
  have hrun := @runApply_eq _ d response (some root) config
  rw [hplan] at hrun
  dsimp only [Option.getD_some] at hrun
  rw [hdry, if_neg Bool.false_ne_true] at hrun
  have hchanged := Snapshot.changed_update (t := t) hcontains
  rw [hcontents] at hchanged
  by_cases hsame : contents = t
  · -- nothing changes, and the file holds that text already
    rw [if_pos hsame] at hchanged
    have hstore : Snapshot.store d root before (before.update edit.path t) config = (d, .ok []) :=
      Snapshot.store_eq_ok_iff.2 ⟨hchanged.symm, by rw [hchanged]; rfl⟩
    rw [hstore] at hrun
    refine ⟨hrun.2, ?_⟩
    rw [hrun.1, ← hsame]
    exact h.textAt?
  · rw [if_neg hsame] at hchanged
    obtain ⟨bytes, hbytes⟩ := h.exists_encode ht
    have hfile : Snapshot.storeFile d root (before.update edit.path t) config edit.path
        = (d.put place (.file bytes), none) := h.storeFile hd (by simpa using hbytes)
    have hstore : Snapshot.store d root before (before.update edit.path t) config
        = (d.put place (.file bytes), .ok [edit.path]) :=
      Snapshot.store_eq_ok_iff.2 ⟨hchanged.symm, by rw [hchanged, Snapshot.storeFiles, hfile]; rfl⟩
    rw [hstore] at hrun
    refine ⟨hrun.2, ?_⟩
    obtain ⟨old, hnode, -⟩ := h.file
    have htakes := Disk.takes_of_file hd hnode bytes
    rw [hrun.1]
    refine Disk.textAt?_of_encode (Encoding.readsBack_of_isModelled h.modelled) ?_ hbytes
    rw [Disk.node?_put _ _ place htakes.ne_nil, if_pos rfl]

/-- Where the edit that is read cannot be made, applying the envelope fails
by it. -/
theorem runApply_of_applyTo_error (hd : d.IsTree)
    (h : d.HoldsEnvelope config e response root edit place contents) {error : ApplyError}
    (herror : edit.asRead.applyTo contents = .error error) :
    (runApply d response (some root) config).result = .error (.apply error)
      ∧ (runApply d response (some root) config).disk = d := by
  obtain ⟨before, -, -, hplan⟩ := plan_of_holdsEnvelope hd h
  rw [herror] at hplan
  have hrun := @runApply_eq _ d response (some root) config
  rw [hplan] at hrun
  exact hrun.symm

end Task

/-! ## Runs

The run succeeds exactly when the edit that was read can be applied to the
file's text. -/

namespace Program

open Disk

variable {d₁ : Disk} {home : Text} {args : List Text} {configPath : Option Text} {dry : Bool}
  {settings : Settings} {log : List Record} {severity : Nat}

/-- **The envelope in a response is applied as it is read.** What the run
finds and puts are the texts with their newlines made one, and the last two
fields say when this comes to the same as what was written. -/
structure ReplacesAsRead (d : Disk) (home : Text) (args : List Text) (e : Encoding) (edit : Edit)
    (place : Location) (contents : Text) : Prop where
  /-- Where the text that is read occurs, the run puts the other text that is
  read in its place. -/
  found : ∀ before after,
    Text.FirstOccurrence edit.search.normalizeNewlines contents before after →
      (run d home args).result = .ok success
        ∧ (run d home args).disk.textAt? e place
          = some (before ++ edit.replacement.normalizeNewlines ++ after)
  /-- Where it does not occur, the run fails, and the file is left as it
  is. -/
  missing : ¬edit.search.normalizeNewlines <:+: contents →
    (run d home args).result = .ok failure
      ∧ cause? d home args
        = some (.apply (.searchNotFound edit.path edit.search.normalizeNewlines))
      ∧ (run d home args).disk.textAt? e place = some contents
  /-- So the texts that were written are the ones that are found and put
  exactly where it makes no difference. -/
  written_iff : ∀ before after, Text.FirstOccurrence edit.search contents before after →
    ((run d home args).result = .ok success
        ∧ (run d home args).disk.textAt? e place = some (before ++ edit.replacement ++ after)
      ↔ ∃ before' after',
        Text.FirstOccurrence edit.search.normalizeNewlines contents before' after'
        ∧ before' ++ edit.replacement.normalizeNewlines ++ after'
          = before ++ edit.replacement ++ after)
  /-- It makes none where both hold line feeds only. -/
  written : '\r' ∉ edit.search → '\r' ∉ edit.replacement →
    ∀ before after, Text.FirstOccurrence edit.search contents before after →
      (run d home args).result = .ok success
        ∧ (run d home args).disk.textAt? e place = some (before ++ edit.replacement ++ after)

/-- **What a run makes of the envelope of a file**, whatever its line ends. -/
theorem replacesAsRead_of_run (hd : d.IsTree)
    (hargs : Arguments.readInvocation args = .ok ⟨configPath, .apply response (some root) dry⟩)
    (hopen : Settings.openIn d home application = (d₁, .ok (settings, log)))
    (hconfig : configFor d₁ ⟨configPath, .apply response (some root) dry⟩ settings = .ok config)
    (hlevel : Levels.threshold config.logLevel = .ok severity) (hdry : config.dryRun = false)
    (h : d.HoldsEnvelope config e response root edit place contents) :
    ReplacesAsRead d home args e edit place contents := by
  have hext : d.Extends (fun _ => True) d₁ := by
    have := extends_openIn hd home application
    rwa [hopen] at this
  have h₁ := h.of_extends hext
  have hcreates : edit.asRead.creates = false := edit.creates_asRead.trans h.notBlank
  have hfound (before after : Text)
      (hfirst : Text.FirstOccurrence edit.search.normalizeNewlines contents before after) :
      (run d home args).result = .ok success ∧ (run d home args).disk.textAt? e place
        = some (before ++ edit.replacement.normalizeNewlines ++ after) := by
    obtain ⟨hresult, htext⟩ := Task.runApply_of_applyTo hext.isTree hdry h₁
      ((Snapshot.applyTo_eq_ok_iff hcreates).2 ⟨before, after, hfirst, rfl⟩)
    simp only [run, runInvocation, hargs, hopen, hconfig, hlevel, Task.run, hresult]
    exact ⟨trivial, htext⟩
  have hmissing (hnot : ¬edit.search.normalizeNewlines <:+: contents) :
      (run d home args).result = .ok failure
        ∧ cause? d home args
          = some (.apply (.searchNotFound edit.path edit.search.normalizeNewlines))
        ∧ (run d home args).disk = d₁ := by
    obtain ⟨hresult, hdisk⟩ := Task.runApply_of_applyTo_error hext.isTree h₁
      (Snapshot.applyTo_of_not_occurs hcreates hnot)
    simp only [run, runInvocation, cause?, causeOf?, hargs, hopen, hconfig, hlevel, Task.run,
      hresult]
    exact ⟨rfl, rfl, hdisk⟩
  refine ⟨hfound, fun hnot => ?_, fun before after hfirst => ⟨?_, ?_⟩, ?_⟩
  · obtain ⟨hresult, hcause, hdisk⟩ := hmissing hnot
    exact ⟨hresult, hcause, hdisk ▸ h₁.textAt?⟩
  · rintro ⟨hresult, htext⟩
    by_cases hoccurs : edit.search.normalizeNewlines <:+: contents
    · obtain ⟨before', after', hfirst'⟩ := Text.exists_firstOccurrence hoccurs
      exact ⟨before', after', hfirst', Option.some.inj ((hfound _ _ hfirst').2.symm.trans htext)⟩
    · exact absurd (Except.ok.inj ((hmissing hoccurs).1.symm.trans hresult)) (by decide)
  · rintro ⟨before', after', hfirst', hsame⟩
    rw [← hsame]
    exact hfound before' after' hfirst'
  · intro hsearch hreplacement before after hfirst
    have := hfound before after (by rwa [Text.normalizeNewlines_of_not_mem hsearch])
    rwa [Text.normalizeNewlines_of_not_mem hreplacement] at this

end Program

end

namespace Program

open Disk

/-! ## Lines that end otherwise

A file whose lines end with a carriage return and a line feed, quoted as they
stand, and a response that brings such lines into a file. -/

/-- A root with one file, and beside it a response with the envelope of an
edit. -/
def answered (contents : Text) (edit : Edit) : Disk where
  nodes := .ofList [
    (["srv"], .directory),
    (["srv", "repo"], .directory),
    (["srv", "repo", "a.txt"], .file (Utf8.encode contents)),
    (["srv", "response.txt"], .file (Utf8.encode edit.envelope))]
  workingDir := ["srv"]

/-- It holds that envelope, if the edit's path leads to the file. -/
theorem holdsEnvelope_answered {edit : Edit} (hwritable : edit.Writable)
    (hcreates : edit.creates = false)
    (hpath : (answered contents edit).destination? "repo" RunConfig.usual.exclude edit.path
      = some (["srv", "repo", "a.txt"] : Location)) :
    (answered contents edit).HoldsEnvelope .usual .utf8 "response.txt" "repo" edit
      ["srv", "repo", "a.txt"] contents where
  encoding := by rfl
  modelled := by rfl
  response := ⟨["srv", "response.txt"], _, by rfl, by rfl, rfl⟩
  writable := hwritable
  notBlank := hcreates
  path := hpath
  file := ⟨_, by rfl, Encoding.readsBack_of_isModelled rfl rfl⟩

/-- A line that ends with a carriage return and a line feed, and one to put
in its place that ends so too. -/
def returning : Edit := ⟨"a.txt", "one\r\n", "1\r\n"⟩

/-- **A line of a file is not always found in it**, though the response
quotes it as it is. -/
theorem not_all_written :
    (answered "one\r\ntwo\r\n" returning).IsTree
      ∧ (answered "one\r\ntwo\r\n" returning).HoldsEnvelope .usual .utf8 "response.txt" "repo"
        returning ["srv", "repo", "a.txt"] "one\r\ntwo\r\n"
      ∧ Text.Quotable "one\r\ntwo\r\n" ["one\r\n"]
      ∧ Text.FirstOccurrence returning.search "one\r\ntwo\r\n" [] "two\r\n"
      ∧ (run (answered "one\r\ntwo\r\n" returning) "/srv/home" applyIt).result = .ok failure
      ∧ (run (answered "one\r\ntwo\r\n" returning) "/srv/home" applyIt).disk.textAt? .utf8
        ["srv", "repo", "a.txt"] = some "one\r\ntwo\r\n" :=
  ⟨by decide +kernel, holdsEnvelope_answered (by decide) (by decide) (by decide +kernel),
    ⟨by decide, by decide, by decide⟩,
    Text.cut?_eq_some_iff.1 (by decide), by decide +kernel, by decide +kernel⟩

/-- A line that ends with a line feed, and one to put in its place that does
not end so. -/
def mixing : Edit := ⟨"a.txt", "two\n", "2\r\n"⟩

/-- Where the line is found, the one that is put there ends with a line
feed. -/
theorem replacesAsRead_of_run_mixing :
    (answered "one\r\ntwo\n" mixing).IsTree
      ∧ Arguments.readInvocation applyIt = .ok ⟨none, .apply "response.txt" (some "repo") false⟩
      ∧ (answered "one\r\ntwo\n" mixing).HoldsEnvelope .usual .utf8 "response.txt" "repo"
        mixing ["srv", "repo", "a.txt"] "one\r\ntwo\n"
      ∧ (run (answered "one\r\ntwo\n" mixing) "/srv/home" applyIt).result = .ok success
      ∧ (run (answered "one\r\ntwo\n" mixing) "/srv/home" applyIt).disk.textAt? .utf8
        ["srv", "repo", "a.txt"] = some "one\r\n2\n" := by
  have hd : (answered "one\r\ntwo\n" mixing).IsTree := by decide +kernel
  have hargs : Arguments.readInvocation applyIt
      = .ok ⟨none, .apply "response.txt" (some "repo") false⟩ := by rfl
  have hheld : (answered "one\r\ntwo\n" mixing).HoldsEnvelope .usual .utf8 "response.txt" "repo"
      mixing ["srv", "repo", "a.txt"] "one\r\ntwo\n" :=
    holdsEnvelope_answered (by decide) (by decide) (by decide +kernel)
  -- nothing is configured
  have husual : ((Settings.openIn (answered "one\r\ntwo\n" mixing) "/srv/home"
      application).2.toOption.bind fun opened =>
      (configFor (Settings.openIn (answered "one\r\ntwo\n" mixing) "/srv/home" application).1
        ⟨none, .apply "response.txt" (some "repo") false⟩ opened.1).toOption)
      = some RunConfig.usual := by
    rfl
  have hlevel : Levels.threshold RunConfig.usual.logLevel = .ok 20 := by rfl
  have hfirst : Text.FirstOccurrence mixing.search.normalizeNewlines "one\r\ntwo\n" "one\r\n" [] :=
    Text.cut?_eq_some_iff.1 (by decide)
  rcases hopen : Settings.openIn (answered "one\r\ntwo\n" mixing) "/srv/home" application with
    ⟨d₁, failed | ⟨settings, log⟩⟩
  all_goals rw [hopen] at husual
  · cases husual
  · have hconfig : configFor d₁ ⟨none, .apply "response.txt" (some "repo") false⟩ settings
        = .ok RunConfig.usual := toOption_eq_some_iff.1 husual
    obtain ⟨hok, htext⟩ :=
      (replacesAsRead_of_run hd hargs hopen hconfig hlevel rfl hheld).found _ _ hfirst
    exact ⟨hd, hargs, hheld, hok, htext⟩

end Program

end EditBlocks
