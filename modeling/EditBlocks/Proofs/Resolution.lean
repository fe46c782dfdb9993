import EditBlocks.Proofs.Disk.Access
import EditBlocks.Proofs.Disk.Agreement
import EditBlocks.Proofs.Success

/-!
# The file that an edit's path stands for

What `Disk.resolve` promises of the path that it gives. It compares paths as
texts, so the promise is about the text: the path lies below the root's.
About the file that is opened there it says as much as a second reading of
the path does (`Disk.below_iff_of_resolve`). A path that was read through has
no links left, and so the file that is opened is the one that was checked
(`Disk.resolve_of_isReadThrough`).

What is compared are the names of the two paths and not their characters
(`Path.isBelow_ofLocation_iff`), so the name of a root may well be the
beginning of the name of a directory beside it.
-/

namespace EditBlocks

namespace Disk

variable [Nesting] {d d' : Disk} {root path full : Text} {exclude : List Value}

theorem exists_normalize_of_realPath (h : d.realPath path = .ok full) :
    ∃ whole, full = Path.normalize whole := by
  unfold realPath at h
  dsimp only at h
  split at h
  · exact ⟨_, (Except.ok.inj h).symm⟩
  · exact ⟨_, (Except.ok.inj h).symm⟩
  · cases h
  · cases h

/-- A path without links is a written location, but for a slash more at its
beginning, where it holds no null character. It can hold one behind a link
that leads to itself, where nothing is read any more. -/
theorem realPath_cases (h : d.realPath path = .ok full) (hnull : '\x00' ∉ full) :
    ∃ place, Path.IsProper place
      ∧ (full = Path.ofLocation place ∨ full = '/' :: Path.ofLocation place) := by
  obtain ⟨whole, rfl⟩ := exists_normalize_of_realPath h
  exact Path.normalize_cases hnull

/-- A path without links starts at the root. -/
theorem isAbsolute_of_realPath (h : d.realPath path = .ok full) :
    Path.isAbsolute full = true := by
  obtain ⟨whole, rfl⟩ := exists_normalize_of_realPath h
  rcases Path.normalize_eq_or whole with he | he <;> rw [he] <;> rfl

omit [Nesting] in
/-- A path that begins with two slashes is no written location. -/
theorem ofLocation_ne_slash {place place' : Location} (h : ∀ name ∈ place, name ≠ [] ∧ '/' ∉ name) :
    Path.ofLocation place ≠ '/' :: Path.ofLocation place' := by
  intro he
  have he : Text.join "/" place = Path.ofLocation place' := (List.cons.inj he).2
  cases place with
  | nil => cases he
  | cons name rest =>
    obtain ⟨hne, hslash⟩ := h name List.mem_cons_self
    obtain ⟨c, t, rfl⟩ := List.exists_cons_of_ne_nil hne
    have hc : (Text.join "/" ((c :: t) :: rest)).head? = some c := by cases rest <;> rfl
    rw [he] at hc
    exact hslash (by simp [← Option.some.inj hc])

omit [Nesting] in
/-- A root holds no character, slashes aside, that a path below it does not
hold. -/
theorem mem_of_isBelow (h : isBelow path full = true) {c : Char} (hc : c ∈ path) (hs : c ≠ '/') :
    c ∈ full := by
  have hcommon : Path.common path full = path := by simpa using (Bool.and_eq_true_iff.1 h).1
  rw [← hcommon, Path.common, Path.ofLocation, List.mem_cons] at hc
  rcases Text.mem_join (hc.resolve_left hs) with hc | ⟨name, hname, hc⟩
  · exact absurd (List.mem_singleton.1 hc) hs
  · have hmem := (Path.commonStart_prefix_right _ _).mem hname
    rw [Path.properNames, List.mem_filter] at hmem
    exact Path.mem_of_mem_names name hmem.1 hc

/-- **A root below which something lies** is a written location. -/
theorem eq_ofLocation_of_isBelow (hr : d.realPath root = .ok path) (h : isBelow path full = true)
    (hnull : '\x00' ∉ full) :
    path = Path.ofLocation (Path.toLocation path) ∧ Path.IsProper (Path.toLocation path) := by
  obtain ⟨place, hp, rfl | rfl⟩ :=
    realPath_cases hr fun h0 => hnull (mem_of_isBelow h h0 (by decide))
  · rw [Path.toLocation_ofLocation hp]
    exact ⟨rfl, hp⟩
  · have hcommon : Path.common ('/' :: Path.ofLocation place) full
        = '/' :: Path.ofLocation place := by
      simpa using (Bool.and_eq_true_iff.1 h).1
    refine absurd hcommon (ofLocation_ne_slash fun name hn => ?_)
    have hmem := (Path.commonStart_prefix_left _ _).mem hn
    rw [Path.properNames, List.mem_filter] at hmem
    exact ⟨(of_decide_eq_true hmem.2).1, Path.no_slash_of_mem_names name hmem.1⟩

theorem realPathFor_eq_ok_iff : d.realPathFor path = .ok full ↔ d.realPath path = .ok full := by
  unfold realPathFor
  split <;> simp_all

/-- **When a path is resolved.** The root and the path can be read, the one
lies below the other, and none of the patterns excludes the path. -/
theorem resolve_eq_ok_iff :
    d.resolve root path exclude = .ok full
      ↔ ∃ r, d.realPath root = .ok r ∧ d.realPath (Path.join r path) = .ok full
        ∧ isBelow r full = true ∧ isExcluded path exclude = .ok false := by
  simp only [resolve, bind_eq_ok_iff, realPathFor_eq_ok_iff]
  refine exists_congr fun r => and_congr_right fun _ => ⟨?_, ?_⟩
  · rintro ⟨full', hf, h⟩
    cases hb : isBelow r full' with
    | false => simp [hb] at h
    | true =>
      obtain ⟨he, rfl⟩ : isExcluded path exclude = .ok false ∧ full' = full := by
        simpa [hb, bind_eq_ok_iff] using h
      exact ⟨hf, hb, he⟩
  · rintro ⟨hf, hb, he⟩
    exact ⟨full, hf, by simp [hb, he, bind_eq_ok_iff]⟩

omit [Nesting] in
theorem no_null_of_reach? {place : Location} (h : d.reach? path = some place) : '\x00' ∉ path := by
  obtain ⟨found, hf, -⟩ := reach?_eq_some_iff.1 h
  exact (locate_eq_ok_iff.1 hf).1.1

/-- **What is opened lies below the root exactly when the path that is opened
passes the check once more.** -/
theorem below_iff_of_resolve (hd : d.IsTree) (h : d.resolve root path exclude = .ok full)
    {r : Text} (hr : d.realPath root = .ok r) {place : Location}
    (hplace : d.reach? full = some place) :
    Path.Below (Path.toLocation r) place
      ↔ ∃ again, d.realPath full = .ok again ∧ isBelow r again = true := by
  obtain ⟨r', hr', hf, hb, -⟩ := resolve_eq_ok_iff.1 h
  obtain rfl : r' = r := Except.ok.inj (hr'.symm.trans hr)
  obtain ⟨he, hp⟩ := eq_ofLocation_of_isBelow hr hb (no_null_of_reach? hplace)
  have hproper : Path.IsProper place := by
    obtain ⟨found, hl, rfl⟩ := reach?_eq_some_iff.1 hplace
    exact (isIn_of_locate hd hl).isProper hd
  rw [realPath_of_reach? hd (isAbsolute_of_realPath hf) hplace]
  rw [he, Path.toLocation_ofLocation hp, ← Path.isBelow_ofLocation_iff hp hproper]
  exact ⟨fun h => ⟨_, rfl, h⟩, fun ⟨_, h, hb⟩ => (Except.ok.inj h) ▸ hb⟩

/-- **A path that is read through is resolved** to the path of a location
below the root, with no link on it. -/
theorem resolve_of_isReadThrough (h : d.resolve root path exclude = .ok full) {r : Text}
    (hr : d.realPath root = .ok r) (hread : d.isReadThrough (Path.join r path) = true) :
    ∃ place, full = Path.ofLocation place ∧ Path.IsProper place ∧ d.LinkFree place
      ∧ Path.Below (Path.toLocation r) place := by
  obtain ⟨r', hr', hf, hb, -⟩ := resolve_eq_ok_iff.1 h
  obtain rfl : r' = r := Except.ok.inj (hr'.symm.trans hr)
  have habs : Path.isAbsolute (Path.join r' path) = true :=
    Path.isAbsolute_join (isAbsolute_of_realPath hr) path
  obtain ⟨place, hplace, hproper, hfree⟩ := realPath_of_isReadThrough habs hread
  obtain rfl : full = Path.ofLocation place := Except.ok.inj (hf.symm.trans hplace)
  obtain ⟨he, hp⟩ := eq_ofLocation_of_isBelow hr hb (Path.no_null_ofLocation hproper)
  refine ⟨place, rfl, hproper, hfree, ?_⟩
  rw [he] at hb
  exact (Path.isBelow_ofLocation_iff hp hproper).1 hb

end Disk

end EditBlocks
