import EditBlocks.Proofs.Encoding.Exact
import EditBlocks.Proofs.Refinement
import EditBlocks.Proofs.Written

/-!
# What stands beside an edit

An edit puts a text in the place of another one, and what stands before it
and after it stays as it is (`Snapshot.applyTo_eq_ok_iff`). In an encoding
without a mark the same can be said of the bytes of the file
(`Encoding.splices_of_encode`): the file is read and written without a change
to its line ends, what was read is written again as it was, and a text is
written part by part.

`Program.splices_of_run` says this of a run that applies a response with one
edit.

That the bytes of the search text occur in the file does not make the search
text occur, as bytes can match in the middle of a character. So the place is
told in the text and then carried over to the bytes, and not found among the
bytes.
-/

namespace EditBlocks

section

variable [Host]

/-- **Bytes of which a region is replaced.** They were those of a text
before, of the text that was sought and of a text after. The new text's bytes
stand between as many bytes at the beginning as the text before has, and as
many at the end as the text after has. -/
def Splices (e : Encoding) (before sought put after : Text) (old new : List UInt8) : Prop :=
  ∃ front mid back inner, e.encode before = .ok front ∧ e.encode sought = .ok mid
    ∧ e.encode after = .ok back ∧ e.encode put = .ok inner
    ∧ old = front ++ mid ++ back
    ∧ new = old.take front.length ++ inner ++ old.drop (old.length - back.length)

/-- **A text that is replaced in another is replaced in its bytes**, where
the encoding has no mark. -/
theorem Encoding.splices_of_encode {e : Encoding} {before sought put after : Text}
    {old new : List UInt8} (he : e.unmarked = true)
    (hold : e.decode old = .ok (before ++ sought ++ after))
    (hnew : e.encode (before ++ put ++ after) = .ok new) :
    Splices e before sought put after old new := by
  obtain ⟨left, back, hleft, hback, rfl⟩ := (encode_append he).1 (encode_of_decode he hold)
  obtain ⟨front, mid, hfront, hmid, rfl⟩ := (encode_append he).1 hleft
  obtain ⟨left', back', hleft', hback', rfl⟩ := (encode_append he).1 hnew
  obtain ⟨front', inner, hfront', hinner, rfl⟩ := (encode_append he).1 hleft'
  cases hfront.symm.trans hfront'
  cases hback.symm.trans hback'
  refine ⟨front, mid, back, inner, hfront, hmid, hback, hinner, rfl, ?_⟩
  have hlast : (front ++ mid ++ back).length - back.length = (front ++ mid).length := by
    rw [List.length_append, Nat.add_sub_cancel]
  rw [hlast, List.drop_left, List.append_assoc front mid back, List.take_left]

namespace Snapshot

open Disk

variable {d d' : Disk} {root path t : Text} {config : RunConfig} {s : Snapshot}
  {e : Encoding} {place : Location} {old new : List UInt8}

/-- A file that a path leads to is the one that is loaded. -/
theorem get?_of_load_of_file {paths : List Text} {contents : Text} (hd : d.IsTree)
    (hload : load d root paths config = .ok s) (hpath : path ∈ paths)
    (he : Encoding.ofSetting config.encoding = .ok e)
    (hdest : d.destination? root config.exclude path = some place)
    (hnode : d.node? place = some (.file old)) (hdecode : e.decode old = .ok contents) :
    s.files.get? path = some ⟨path, contents⟩ := by
  obtain ⟨full, hfull, hreach⟩ := destination?_eq_some_iff.1 hdest
  rcases get?_of_load hd hload path with ⟨hnot, -⟩ | ⟨-, hloaded⟩
  · exact absurd hpath hnot
  cases hget : s.files.get? path with
  | none =>
    rw [hget] at hloaded
    cases hloaded with
    | none hfull' hnot =>
      cases hfull.symm.trans hfull'
      exact absurd hnode (hnot place old hreach)
  | some file =>
    rw [hget] at hloaded
    cases hloaded with
    | file hfull' he' hreach' hnode' hdecode' =>
      cases hfull.symm.trans hfull'
      cases he.symm.trans he'
      cases hreach.symm.trans hreach'
      cases hnode.symm.trans hnode'
      cases hdecode.symm.trans hdecode'
      rfl

/-- **A file that gets another text is left with its bytes**, also where the
text is the one that it had, if its bytes are. -/
theorem node?_of_storeFiles_update (hd : d.IsTree) (hcontains : s.contains path = true)
    (he : Encoding.ofSetting config.encoding = .ok e)
    (hdest : d.destination? root config.exclude path = some place)
    (hnode : d.node? place = some (.file old)) (hold : e.encode (s.contents path) = .ok old)
    (hnew : e.encode t = .ok new)
    (h : storeFiles root (s.update path t) config d (s.changed (s.update path t)) = (d', none)) :
    d'.node? place = some (.file new) := by
  rw [changed_update hcontains] at h
  split at h
  next hsame =>
    -- nothing is stored
    cases h
    cases (hsame ▸ hold).symm.trans hnew
    exact hnode
  · obtain ⟨d₁, hstep, h⟩ := storeFiles_cons_eq_none_iff.1 h
    cases h
    obtain ⟨e', place', bytes, he', hbytes, hdest', hfile, -⟩ := node?_of_storeFile hd hstep
    have hgrows := (grows_of_storeFile hd hstep).2
    cases he.symm.trans he'
    cases (hgrows.destination? hdest).symm.trans hdest'
    rw [contents_update, if_pos rfl] at hbytes
    cases hnew.symm.trans hbytes
    exact hfile

end Snapshot

namespace Program

open Disk Snapshot

/-- **The bytes beside an edit are kept.** A run that applies a response with
one edit replaces, in the file that the edit's path leads to, the bytes of
the first occurrence of the text that is sought. -/
theorem splices_of_run {d d₁ : Disk} {home response root : Text} {args : List Text}
    {configPath : Option Text} {dry : Bool} {settings : Settings} {log : List Record}
    {config : RunConfig} {e : Encoding} {text contents : Text} {edit : Edit} {place : Location}
    {old : List UInt8} (hd : d.IsTree)
    (hargs : Arguments.readInvocation args = .ok ⟨configPath, .apply response (some root) dry⟩)
    (hopen : Settings.openIn d home application = (d₁, .ok (settings, log)))
    (hconfig : configFor d₁ ⟨configPath, .apply response (some root) dry⟩ settings = .ok config)
    (hdry : config.dryRun = false) (he : Encoding.ofSetting config.encoding = .ok e)
    (hunmarked : e.unmarked = true)
    (hread : Task.readResponse d₁ response config = .ok text)
    (hedits : Block.edits text = .ok [edit]) (hcreates : edit.creates = false)
    (hdest : d₁.destination? root config.exclude edit.path = some place)
    (hnode : d.node? place = some (.file old)) (hdecode : e.decode old = .ok contents)
    (hok : (run d home args).result = .ok success) :
    ∃ before after new, Text.FirstOccurrence edit.search contents before after
      ∧ (run d home args).disk.node? place = some (.file new)
      ∧ Splices e before edit.search edit.replacement after old new := by
  have hext := extends_of_openIn hd hopen
  have hnode₁ := ((hext.keptAt place).file_iff old).2 hnode
  rcases run_apply_cases_of_config hargs hopen hconfig with ⟨-, hfail⟩ |
    ⟨edits, start, left, hplan, ⟨hdry', -⟩ | ⟨-, failed, hstore, hsuccess⟩⟩
  · exact absurd hok hfail
  · cases hdry.symm.trans hdry'
  obtain rfl := hsuccess.1 hok
  obtain ⟨top, given, htop, hgiven, hparsed, hload, happly⟩ := Task.plan_eq_ok hplan
  cases htop
  cases hread.symm.trans (Task.readResponse_eq_ok_iff.2 ⟨given, hgiven, rfl⟩)
  cases hedits.symm.trans hparsed
  -- the file is loaded, and the edit is made in its text
  have hget := get?_of_load_of_file hext.isTree hload
    (Task.mem_editedPaths_iff.2 ⟨edit, List.mem_cons_self, rfl⟩) he hdest hnode₁ hdecode
  have hcontents : start.contents edit.path = contents := contents_of_get? hget
  obtain ⟨t, ht, hrest⟩ := applyEdits_cons_eq_ok_iff.1 happly
  rw [applyEdits_nil] at hrest
  cases hrest
  rw [hcontents] at ht
  obtain ⟨before, after, hfirst, rfl⟩ := (applyTo_eq_ok_iff hcreates).1 ht
  -- what it makes of the text can be encoded
  obtain ⟨e', he', hencode⟩ := Task.exists_encode_of_plan hext.isTree hplan
  cases he.symm.trans he'
  obtain ⟨new, hnew⟩ := hencode (Encoding.isModelled_of_unmarked hunmarked) edit.path
  rw [contents_update, if_pos rfl] at hnew
  have hold : e.encode (start.contents edit.path) = .ok old :=
    hcontents.symm ▸ Encoding.encode_of_decode hunmarked hdecode
  refine ⟨before, after, new, hfirst, ?_, Encoding.splices_of_encode hunmarked
    (hfirst.eq_append ▸ hdecode) hnew⟩
  exact node?_of_storeFiles_update hext.isTree (by rw [contains, OrderedMap.contains, hget]; rfl)
    he hdest hnode₁ hold hnew hstore

end Program

end

namespace Program

open Disk

/-! ## A line between others

The lines beside it end in different ways, and one of them has a character
that takes two units. -/

/-- An edit of a line that stands between others. -/
def inner : Edit := ⟨"a.txt", "one\n", "1\n"⟩

/-- A text with a mark at its beginning, lines that end in several ways, a
character of two units and a null character. -/
def mixed : Text := "\uFEFFé\r\none\n😀\x00\r"

/-- Settings for UTF-16, a root with one file, and beside it the response
with the edit. -/
def wide : Disk where
  nodes := .ofList [
    (["srv"], .directory),
    (["srv", "repo"], .directory),
    (["srv", "repo", "a.txt"], .file (Utf16.encode .little mixed)),
    (["srv", "response.txt"], .file (Utf16.encode .little inner.envelope)),
    (["srv", "home"], .directory),
    (["srv", "home", "codechange"], .directory),
    (["srv", "home", "codechange", "config.json"],
      .file (Utf8.encode "\x7b\"encoding\": \"utf-16-le\"\x7d"))]
  workingDir := ["srv"]

/-- The bytes of the line are replaced, and those beside it are kept. -/
theorem splices_of_run_wide :
    wide.IsTree
      ∧ Arguments.readInvocation applyIt = .ok ⟨none, .apply "response.txt" (some "repo") false⟩
      ∧ (run wide "/srv/home" applyIt).result = .ok success
      ∧ ∃ before after new, Text.FirstOccurrence inner.search mixed before after
        ∧ (run wide "/srv/home" applyIt).disk.node? ["srv", "repo", "a.txt"] = some (.file new)
        ∧ Splices (.utf16In .little) before inner.search inner.replacement after
          (Utf16.encode .little mixed) new := by
  have hd : wide.IsTree := by decide +kernel
  have hargs : Arguments.readInvocation applyIt
      = .ok ⟨none, .apply "response.txt" (some "repo") false⟩ := by rfl
  have hok : (run wide "/srv/home" applyIt).result = .ok success := by decide +kernel
  refine ⟨hd, hargs, hok, ?_⟩
  -- the settings are for UTF-16, and the response is read as it was written
  have hset : ((Settings.openIn wide "/srv/home" application).2.toOption.any fun opened =>
      (configFor (Settings.openIn wide "/srv/home" application).1
        ⟨none, .apply "response.txt" (some "repo") false⟩ opened.1).toOption.any fun config =>
          config.dryRun = false ∧ Encoding.ofSetting config.encoding = .ok (.utf16In .little)
            ∧ ((Task.readResponse (Settings.openIn wide "/srv/home" application).1
              "response.txt" config).toOption.any fun text => Block.edits text = .ok [inner])
            ∧ (Settings.openIn wide "/srv/home" application).1.destination? "repo" config.exclude
              inner.path = some (["srv", "repo", "a.txt"] : Location)) = true := by
    decide +kernel
  obtain ⟨⟨settings, log⟩, hopened, hset⟩ := (Option.any_eq_true _ _).1 hset
  obtain ⟨config, hconfig, hset⟩ := (Option.any_eq_true _ _).1 hset
  obtain ⟨hdry, he, hread, hdest⟩ := of_decide_eq_true hset
  obtain ⟨text, htext, hedits⟩ := (Option.any_eq_true _ _).1 hread
  have hopen : Settings.openIn wide "/srv/home" application
      = ((Settings.openIn wide "/srv/home" application).1, .ok (settings, log)) :=
    Prod.ext rfl (toOption_eq_some_iff.1 hopened)
  exact splices_of_run hd hargs hopen (toOption_eq_some_iff.1 hconfig) hdry he rfl
    (toOption_eq_some_iff.1 htext) (of_decide_eq_true hedits) (by decide) hdest
    (by decide +kernel) (Encoding.readsBack_of_isModelled rfl rfl) hok

end Program

end EditBlocks
