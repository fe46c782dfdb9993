import EditBlocks.Proofs.Checkout
import EditBlocks.Proofs.Disk.Refusal

/-!
# What ends the reading of a file as it is

A failure that is expected (`Failure.isExpected`) is told to the user and
ends a run with an exit code. Any other ends it as it is. Which inputs do
that is said stage by stage, each time as an equivalence, and here for the
two stages that every file goes through: its path is resolved
(`Disk.resolve_escapes_iff`), and its text is read
(`Disk.readText_escapes_iff`).

What the system refuses is expected. So what is left of a path are the null
character, of which the system is not asked at all, links that lead too deep
into one another, and a pattern that is no text; and what is left of a text
is its encoding, which need not exist and need not fit the bytes.

The causes are listed in inductive predicates, one constructor for each, with
what the run has done by then as further arguments. A constructor therefore
says not only what is wrong with an input but also that nothing before it
was.
-/

namespace EditBlocks

namespace Disk

variable [Host] {d : Disk} {root path : Text} {exclude : List Value} {setting : Value}
  {e : Failure}

/-! ## Reading a text -/

/-- **What ends the reading of a text as it is.** The setting for the
encoding may be at fault, the path, or the bytes of the file, in this
order. -/
inductive ReadEscapes (d : Disk) (path : Text) (setting : Value) : Failure → Prop
  /-- What should name the encoding cannot be a name. -/
  | setting {e : EncodingError} (h : Encoding.nameIn setting = .error e) :
      ReadEscapes d path setting (.encoding e)
  /-- The path holds a null character. -/
  | nullByte {name : Option Text} (hname : Encoding.nameIn setting = .ok name)
      (h : '\x00' ∈ path) : ReadEscapes d path setting (.disk .nullByte)
  /-- The file is there, but no encoding has the name. -/
  | unknown {name : Option Text} {bytes : List UInt8} {e : EncodingError}
      (hname : Encoding.nameIn setting = .ok name) (hread : d.read path = .ok bytes)
      (h : Encoding.named name = .error e) : ReadEscapes d path setting (.encoding e)
  /-- The bytes of the file are no text in the encoding. -/
  | undecodable {encoding : Encoding} {bytes : List UInt8} {e : EncodingError}
      (hset : Encoding.ofSetting setting = .ok encoding) (hread : d.read path = .ok bytes)
      (h : encoding.decode bytes = .error e) : ReadEscapes d path setting (.encoding e)

omit [Host] in
/-- A file that cannot be read is refused, unless its path holds a null
character. -/
theorem read_escapes_iff :
    ((d.read path).mapError Failure.disk = .error e ∧ e.isExpected = false)
      ↔ '\x00' ∈ path ∧ e = .disk .nullByte := by
  rw [mapError_eq_error_iff]
  constructor
  · rintro ⟨⟨cause, hcause, rfl⟩, hnot⟩
    rcases read_error_cases hcause with ⟨hnull, rfl⟩ | ⟨-, reason, rfl⟩
    · exact ⟨hnull, rfl⟩
    · cases hnot
  · rintro ⟨hnull, rfl⟩
    exact ⟨⟨_, read_of_null hnull, rfl⟩, rfl⟩

/-- **The reading of a text ends as it is** for those causes. -/
theorem readText_escapes_iff :
    (d.readText path setting = .error e ∧ e.isExpected = false) ↔ d.ReadEscapes path setting e := by
  constructor
  · rintro ⟨h, hnot⟩
    rcases bind_eq_error_iff.1 h with h | ⟨name, hname, h⟩
    · obtain ⟨cause, hcause, rfl⟩ := ofEncoding_eq_error_iff.1 h
      exact .setting hcause
    have hname := ofEncoding_eq_ok_iff.1 hname
    rcases bind_eq_error_iff.1 h with h | ⟨bytes, hread, h⟩
    · obtain ⟨hnull, rfl⟩ := read_escapes_iff.1 ⟨h, hnot⟩
      exact .nullByte hname hnull
    have hread := mapError_eq_ok_iff.1 hread
    rcases bind_eq_error_iff.1 h with h | ⟨encoding, hnamed, h⟩
    · obtain ⟨cause, hcause, rfl⟩ := ofEncoding_eq_error_iff.1 h
      exact .unknown hname hread hcause
    · obtain ⟨cause, hcause, rfl⟩ := ofEncoding_eq_error_iff.1 h
      have hset := bind_eq_ok_iff.2 ⟨name, hname, ofEncoding_eq_ok_iff.1 hnamed⟩
      exact .undecodable hset hread hcause
  · intro h
    cases h with
    | setting h =>
      have hset := ofEncoding_eq_error_iff.2 ⟨_, h, rfl⟩
      exact ⟨bind_error hset, rfl⟩
    | nullByte hname h =>
      have hname := ofEncoding_eq_ok_iff.2 hname
      obtain ⟨hread, hnot⟩ := (@read_escapes_iff d path _).2 ⟨h, rfl⟩
      exact ⟨bind_ok_error hname (bind_error hread), hnot⟩
    | unknown hname hread h =>
      have hname := ofEncoding_eq_ok_iff.2 hname
      have hnamed := ofEncoding_eq_error_iff.2 ⟨_, h, rfl⟩
      exact ⟨bind_ok_error hname (bind_ok_error (mapError_eq_ok_iff.2 hread)
        (bind_error hnamed)), rfl⟩
    | undecodable hset hread h =>
      obtain ⟨name, hname, hnamed⟩ := bind_eq_ok_iff.1 hset
      have hname := ofEncoding_eq_ok_iff.2 hname
      have hnamed := ofEncoding_eq_ok_iff.2 hnamed
      have hdecode := ofEncoding_eq_error_iff.2 ⟨_, h, rfl⟩
      exact ⟨bind_ok_error hname (bind_ok_error (mapError_eq_ok_iff.2 hread)
        (bind_ok_error hnamed hdecode)), rfl⟩

/-! ## Resolving a path

A path is read twice over, the root first and then the path from there, and
each time the reading can meet a null character or go too deep. What is wrong
with a pattern comes out only for a path that lies below the root. -/

/-- **What ends the reading of a path's names as it is**: a null character,
or more links inside links than there is room for. -/
inductive NamesEscape (d : Disk) (path : Text) : PathError → Prop
  /-- A null character is met in them, or in a link's target. -/
  | nullByte (h : d.realPath path = .error .nullByte) : NamesEscape d path .nullByte
  /-- There are more links inside links than there is room for. -/
  | tooDeep (h : d.realPath path = .error .tooDeep) : NamesEscape d path .tooDeep

/-- **What ends the resolving of a path as it is.** -/
inductive ResolveEscapes (d : Disk) (root path : Text) (exclude : List Value) : PathError → Prop
  /-- The root cannot be read. -/
  | root {cause : PathError} (h : d.NamesEscape root cause) :
      ResolveEscapes d root path exclude cause
  /-- The path cannot be read from there. -/
  | path {r : Text} {cause : PathError} (hr : d.realPath root = .ok r)
      (h : d.NamesEscape (Path.join r path) cause) : ResolveEscapes d root path exclude cause
  /-- The path lies below the root, and none of the patterns that exclude
  paths matches it up to one that is no pattern. -/
  | pattern {r full : Text} {earlier later : List Value} {v : Value}
      (hr : d.realPath root = .ok r) (hfull : d.realPath (Path.join r path) = .ok full)
      (hbelow : isBelow r full = true) (hpatterns : exclude = earlier ++ v :: later)
      (hearlier : isExcluded path earlier = .ok false) (hv : ∀ t, v ≠ .text t) :
      ResolveEscapes d root path exclude (.notAPattern v.kind)

omit [Host] in
theorem isExcluded_of_ne_text {v : Value} (hv : ∀ t, v ≠ .text t) (rest : List Value) :
    isExcluded path (v :: rest) = .error (.notAPattern v.kind) := by
  cases v with
  | scalar s =>
    cases s with
    | text t => exact absurd rfl (hv t)
    | _ => rfl
  | _ => rfl

omit [Host] in
/-- **Patterns are tried in order**, up to the first that is none. A pattern
before it that matches ends the matter without an error. -/
theorem isExcluded_eq_error_iff {cause : PathError} :
    isExcluded path exclude = .error cause
      ↔ ∃ earlier v later, exclude = earlier ++ v :: later ∧ isExcluded path earlier = .ok false
        ∧ (∀ t, v ≠ .text t) ∧ cause = .notAPattern v.kind := by
  constructor
  · intro h
    induction exclude with
    | nil => cases h
    | cons v rest ih =>
      by_cases hv : ∀ t, v ≠ .text t
      · rw [isExcluded_of_ne_text hv] at h
        cases h
        exact ⟨[], v, rest, rfl, rfl, hv, rfl⟩
      · obtain ⟨pattern, rfl⟩ := not_forall_not.1 hv
        rw [isExcluded] at h
        split at h
        · cases h
        next hmatch =>
          obtain ⟨earlier, w, later, rfl, hearlier, hw, rfl⟩ := ih h
          exact ⟨.text pattern :: earlier, w, later, rfl, (if_neg hmatch).trans hearlier, hw, rfl⟩
  · rintro ⟨earlier, v, later, rfl, hearlier, hv, rfl⟩
    induction earlier with
    | nil => exact isExcluded_of_ne_text hv later
    | cons w rest ih =>
      by_cases hw : ∀ t, w ≠ .text t
      · rw [isExcluded_of_ne_text hw] at hearlier
        cases hearlier
      · obtain ⟨pattern, rfl⟩ := not_forall_not.1 hw
        rw [isExcluded] at hearlier
        split at hearlier
        · cases hearlier
        next hmatch => exact (if_neg hmatch).trans (ih hearlier)

/-- A path's names are not read for one of the two reasons. -/
theorem realPathFor_eq_error_iff {cause : PathError} :
    d.realPathFor path = .error cause ↔ d.NamesEscape path cause := by
  have hcause (e : DiskError) (h : d.realPath path = .error e) : e = .nullByte ∨ e = .tooDeep := by
    unfold realPath at h
    dsimp only at h
    split at h <;> cases h
    · exact Or.inl rfl
    · exact Or.inr rfl
  unfold realPathFor
  constructor
  · intro h
    cases hread : d.realPath path with
    | ok full =>
      rw [hread] at h
      cases h
    | error e =>
      rcases hcause e hread with rfl | rfl <;> rw [hread] at h <;> cases h
      · exact .nullByte hread
      · exact .tooDeep hread
  · intro h
    cases h with
    | nullByte h => rw [h]
    | tooDeep h => rw [h]

theorem NamesEscape.not_isExpected {cause : PathError} (h : d.NamesEscape path cause) :
    (Failure.path cause).isExpected = false := by
  cases h <;> rfl

/-- **The resolving of a path ends as it is** for those causes. -/
theorem resolve_escapes_iff {cause : PathError} :
    (d.resolve root path exclude = .error cause ∧ (Failure.path cause).isExpected = false)
      ↔ d.ResolveEscapes root path exclude cause := by
  constructor
  · rintro ⟨h, hnot⟩
    rcases bind_eq_error_iff.1 h with h | ⟨r, hr, h⟩
    · exact .root (realPathFor_eq_error_iff.1 h)
    have hr := realPathFor_eq_ok_iff.1 hr
    rcases bind_eq_error_iff.1 h with h | ⟨full, hfull, h⟩
    · exact .path hr (realPathFor_eq_error_iff.1 h)
    have hfull := realPathFor_eq_ok_iff.1 hfull
    cases hbelow : isBelow r full with
    | false =>
      rw [hbelow] at h
      cases h
      cases hnot
    | true =>
      rw [hbelow] at h
      rcases bind_eq_error_iff.1 h with h | ⟨excluded, -, h⟩
      · obtain ⟨earlier, v, later, hpatterns, hearlier, hv, rfl⟩ := isExcluded_eq_error_iff.1 h
        exact .pattern hr hfull hbelow hpatterns hearlier hv
      · split at h <;> cases h
        cases hnot
  · intro h
    cases h with
    | root h =>
      exact ⟨bind_error (realPathFor_eq_error_iff.2 h), h.not_isExpected⟩
    | path hr h =>
      have hr := realPathFor_eq_ok_iff.2 hr
      exact ⟨bind_ok_error hr (bind_error (realPathFor_eq_error_iff.2 h)), h.not_isExpected⟩
    | pattern hr hfull hbelow hpatterns hearlier hv =>
      have hr := realPathFor_eq_ok_iff.2 hr
      have hfull := realPathFor_eq_ok_iff.2 hfull
      have hexcluded := isExcluded_eq_error_iff.2 ⟨_, _, _, hpatterns, hearlier, hv, rfl⟩
      refine ⟨bind_ok_error hr (bind_ok_error hfull ?_), rfl⟩
      rw [hbelow]
      exact bind_error hexcluded

end Disk

end EditBlocks
