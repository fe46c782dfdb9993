import EditBlocks.Proofs.Block.Extraction
import EditBlocks.Proofs.Command
import EditBlocks.Proofs.Encoding.Repertoire
import EditBlocks.Proofs.Replacement
import EditBlocks.Proofs.Text.Newline

/-!
# What is written can be encoded

A file is emptied before its text is encoded, so a text that cannot be
encoded would be lost. None is: what edits make of a text is put together
from that text and from the response
(`Snapshot.forall_contents_of_applyEdits`), both of which have been decoded,
and an encoding that is modelled has the characters that it decodes
(`Task.exists_encode_of_plan`). A codec from outside need not have them.

The response is read in the encoding of the run, as the files are. If it were
read in another one, it could hold characters that no file can.
-/

namespace EditBlocks

namespace Block

variable {response : Text} {ls : List Text} {e : Edit} {found : List Edit}

/-- Lines that stand among those of a response are a text that stands in
it. -/
theorem flatten_infix (h : ls <:+: response.lines) : ls.flatten <:+: response := by
  obtain ⟨before, after, hlines⟩ := h
  refine ⟨before.flatten, after.flatten, ?_⟩
  rw [← List.flatten_append, ← List.flatten_append, hlines, Text.flatten_lines]

/-- The lines of the text to put are the last ones of a body. -/
theorem Body.put_suffix (b : Body) : b.put.map Subtype.val <:+ b.lines :=
  ⟨b.search.1 :: (b.sought.map Subtype.val ++ [b.divider.1]), by simp [Body.lines]⟩

/-- **What an edit puts into a file stands in the response**, as it is and in
one piece. This holds of the last edit too, whose text may break off. -/
theorem replacement_infix (h : edits response = .ok found) (he : e ∈ found) :
    e.replacement <:+: response := by
  obtain ⟨d, hlines, rfl⟩ := exists_document_of_edits h
  obtain ⟨whole, broken, hedits, hwhole, hbroken⟩ := d.exists_edits_eq
  rw [hlines] at hwhole hbroken
  rcases List.mem_append.1 (hedits ▸ he) with he | he
  · cases hwhole e he with
    | intro opening body replace hopening hbody =>
      have hbody : body.lines <:+: response.lines := (List.prefix_append _ _).isInfix.trans hbody
      exact flatten_infix (body.put_suffix.isInfix.trans hbody)
  · cases hbroken e (Option.mem_toList.1 he) with
    | intro opening body hopening hbody =>
      have hkept := (List.rdropWhile_prefix Marker.isFence (body.put.map Subtype.val)).isInfix
      exact flatten_infix (hkept.trans (body.put_suffix.isInfix.trans hbody.isInfix))

end Block

namespace Snapshot

variable {s s' : Snapshot} {e : Edit} {edits : List Edit} {P : Char → Prop}

/-- An edit makes a text of characters that were there or that it brings
in. -/
theorem forall_of_makes {contents t : Text} (h : e.Makes contents t)
    (hcontents : ∀ c ∈ contents, P c) (he : ∀ c ∈ e.replacement, P c) : ∀ c ∈ t, P c := by
  cases h with
  | creates => exact he
  | replaces _ hfirst =>
    rw [hfirst.eq_append] at hcontents
    intro c hc
    rw [List.mem_append, List.mem_append] at hc
    rcases hc with (hc | hc) | hc
    · exact hcontents c (by simp [hc])
    · exact he c hc
    · exact hcontents c (by simp [hc])

/-- **So do edits, one after the other.** -/
theorem forall_contents_of_applyEdits (h : s.applyEdits edits = .ok s')
    (hs : ∀ path, ∀ c ∈ s.contents path, P c) (hedits : ∀ e ∈ edits, ∀ c ∈ e.replacement, P c)
    (path : Text) : ∀ c ∈ s'.contents path, P c := by
  induction edits generalizing s with
  | nil =>
    cases h
    exact hs path
  | cons e rest ih =>
    obtain ⟨t, ht, h⟩ := applyEdits_cons_eq_ok_iff.1 h
    obtain ⟨he, hrest⟩ := List.forall_mem_cons.1 hedits
    refine ih h (fun p => ?_) hrest
    rw [contents_update]
    split
    · exact forall_of_makes (Edit.applyTo_eq_ok_iff_makes.1 ht) (hs e.path) he
    · exact hs p

end Snapshot

namespace Task

open Disk

variable [Host] {d : Disk} {response : Text} {root : Option Text} {config : RunConfig}
  {edits : List Edit} {before after : Snapshot}

theorem has_of_load {top : Text} {paths : List Text} {e : Encoding} (hd : d.IsTree)
    (hload : Snapshot.load d top paths config = .ok before)
    (he : Encoding.ofSetting config.encoding = .ok e) (path : Text) :
    ∀ c ∈ before.contents path, e.has c = true := by
  have hloaded : before.files.get? path = none
      ∨ Snapshot.Loaded d top config path (before.files.get? path) :=
    (Snapshot.get?_of_load hd hload path).imp And.right And.right
  cases hfile : before.files.get? path with
  | none =>
    rw [Snapshot.contents, hfile]
    exact List.forall_mem_nil _
  | some file =>
    rw [Snapshot.contents_of_get? hfile]
    rw [hfile] at hloaded
    rcases hloaded with hnone | hloaded
    · cases hnone
    · cases hloaded with
      | file _ he' _ _ hdecode =>
        cases he.symm.trans he'
        exact Encoding.has_of_decode hdecode

/-- **What is planned can be encoded**, whatever the response makes of the
files, in an encoding that is modelled. -/
theorem exists_encode_of_plan (hd : d.IsTree)
    (hplan : plan d response root config = .ok (edits, before, after)) :
    ∃ e, Encoding.ofSetting config.encoding = .ok e
      ∧ (e.isModelled = true → ∀ path, ∃ bytes, e.encode (after.contents path) = .ok bytes) := by
  obtain ⟨top, text, -, htext, hedits, hload, happly⟩ := plan_eq_ok hplan
  obtain ⟨e, place, bytes, he, -, -, hdecode⟩ := (readText_eq_ok_iff hd).1 htext
  refine ⟨e, he, fun hmodelled path => (Encoding.exists_encode_iff hmodelled).2 ?_⟩
  refine Snapshot.forall_contents_of_applyEdits happly (has_of_load hd hload he) ?_ path
  intro edit hedit c hc
  -- the response is the text that was decoded, but for its line ends
  rcases Text.mem_of_mem_normalizeNewlines ((Block.replacement_infix hedits hedit).subset hc) with
    hc | rfl
  · exact Encoding.has_of_decode hdecode c hc
  · exact e.has_lineFeed

end Task

end EditBlocks
