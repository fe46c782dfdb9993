import EditBlocks.Proofs.Disk.Standing
import EditBlocks.Proofs.Success

/-!
# What the system refuses

An operation on a path fails because the system refuses it, because the path
holds a null character and is never handed to the system, or because there is
no room for the calls that it takes. Each operation has a lemma that lists
these cases, with the condition on the path for each.

Reading and writing take no calls inside calls, so they fail in two ways
(`Disk.read_error_cases`, `Disk.write_error_cases`). Making directories goes
to paths that are parts of the one it is given, each with fewer slashes than
the last, so it can fail in all three (`Disk.makeDirectories_error_cases`).

What a refusal says is of no concern here. It is for the user, and a run that
meets one ends with an exit code whatever it says.
-/

namespace EditBlocks

namespace Path

variable {path : Text} {c : Char}

theorem isPrefix_dropSlashes (t : Text) : dropSlashes t <+: t := by
  rcases dropSlashes_cases t with ⟨-, hsame⟩ | ⟨k, hk, -⟩
  · exact ⟨[], by rw [hsame, List.append_nil]⟩
  · exact ⟨_, hk.symm⟩

/-- The directory part of a path is one of its parts. -/
theorem isPrefix_splitDirectory (path : Text) : (Disk.splitDirectory path).1 <+: path := by
  obtain ⟨front, more, hpath, hfront, -⟩ := splitDirectory_eq path
  rw [hfront]
  exact (isPrefix_dropSlashes front).trans ⟨more, hpath.symm⟩

theorem isPrefix_parent (path : Text) : parent path <+: path := by
  obtain ⟨front, hpath, hfront, -⟩ := split_eq path
  rw [parent, hfront]
  exact (isPrefix_dropSlashes front).trans ⟨_, hpath.symm⟩

end Path

namespace Disk

variable {d d' : Disk} {followLast : Bool} {path : Text} {e : DiskError}

/-! ## Operations on files

Reading and writing begin with where a path leads, and fail there first. -/

/-- **Why a path leads nowhere**: it holds a null character, or the system
refuses it. -/
theorem locate_error_cases (h : d.locate followLast path = .error e) :
    '\x00' ∈ path ∧ e = .nullByte ∨ '\x00' ∉ path ∧ ∃ reason, e = .refused reason path := by
  unfold locate at h
  split at h
  next hnull => exact Or.inl ⟨hnull, (Except.error.inj h).symm⟩
  next hnull =>
    refine Or.inr ⟨hnull, ?_⟩
    split at h
    · exact ⟨_, (Except.error.inj h).symm⟩
    split at h
    · exact ⟨_, (Except.error.inj h).symm⟩
    · obtain ⟨reason, -, rfl⟩ := mapError_eq_error_iff.1 h
      exact ⟨reason, rfl⟩

/-- Reading fails where locating the path does, or at what stands there. -/
theorem read_error_cases (h : d.read path = .error e) :
    '\x00' ∈ path ∧ e = .nullByte ∨ '\x00' ∉ path ∧ ∃ reason, e = .refused reason path := by
  unfold read at h
  cases hl : d.locate true path with
  | error cause =>
    rw [hl] at h
    cases h
    exact locate_error_cases hl
  | ok found =>
    have hnull := (locate_eq_ok_iff.1 hl).1.1
    rw [hl] at h
    cases found with
    | absent directory name => exact Or.inr ⟨hnull, _, (Except.error.inj h).symm⟩
    | present place =>
      dsimp only at h
      split at h <;> cases h
      · exact Or.inr ⟨hnull, _, rfl⟩
      · exact Or.inr ⟨hnull, _, rfl⟩

/-- Writing fails where locating the path does, or at what stands there. -/
theorem write_error_cases {bytes : List UInt8} (h : d.write path bytes = .error e) :
    '\x00' ∈ path ∧ e = .nullByte ∨ '\x00' ∉ path ∧ ∃ reason, e = .refused reason path := by
  unfold write at h
  cases hl : d.locate true path with
  | error cause =>
    rw [hl] at h
    cases h
    exact locate_error_cases hl
  | ok found =>
    have hnull := (locate_eq_ok_iff.1 hl).1.1
    rw [hl] at h
    cases found with
    | absent directory name => cases h
    | present place =>
      dsimp only at h
      split at h <;> cases h
      exact Or.inr ⟨hnull, _, rfl⟩

/-- A path with a null character is not read. -/
theorem read_of_null (h : '\x00' ∈ path) : d.read path = .error .nullByte := by
  rw [read, locate, if_pos h]

/-- Nothing is written at a path with a null character. -/
theorem write_of_null (h : '\x00' ∈ path) (bytes : List UInt8) :
    d.write path bytes = .error .nullByte := by
  rw [write, locate, if_pos h]

/-! ## Making directories

A directory is made at the path but for the slashes at its end, and those
above it at parts of the path. So a null character that is met is one of the
path. And each of the calls inside one another has a path with a slash less
than the one around it, so they go too deep only for a path with as many
slashes as there is room for calls. -/

/-- The last directory fails by a null character in its path, or by a
refusal. -/
theorem makeLast_error_cases (h : (d.makeLast path).2 = some e) :
    '\x00' ∈ path ∧ e = .nullByte ∨ ∃ reason, e = .refused reason path := by
  unfold makeLast makeDirectory at h
  cases hl : d.locate false (Path.dropSlashes path) with
  | error cause =>
    rw [hl] at h
    rcases locate_error_cases hl with ⟨hnull, rfl⟩ | ⟨-, reason, rfl⟩
    · exact Or.inl ⟨(Path.isPrefix_dropSlashes path).subset hnull, (Option.some.inj h).symm⟩
    · dsimp only at h
      split at h
      · cases h
      · exact Or.inr ⟨reason, (Option.some.inj h).symm⟩
  | ok found =>
    rw [hl] at h
    cases found with
    | present place =>
      dsimp only at h
      split at h
      · cases h
      · exact Or.inr ⟨_, (Option.some.inj h).symm⟩
    | absent directory name => cases h

/-- The directory above a path of slashes is asked for under no name. -/
theorem splitDirectory_of_slashes (h : ∀ c ∈ path, c = '/') : (splitDirectory path).2 = [] := by
  have hname : ∀ t : Text, (∀ c ∈ t, c = '/') → (Path.split t).2 = [] := by
    intro t ht
    refine List.eq_nil_iff_forall_not_mem.2 fun c hc => Path.not_mem_split t ?_
    obtain ⟨front, hpath, -⟩ := Path.split_eq t
    exact ht c (hpath ▸ List.mem_append_right front hc) ▸ hc
  unfold splitDirectory
  split
  next head hsplit =>
    -- what is left without the name is slashes as well
    refine hname head fun c hc => h c ?_
    have hhead : head = Path.parent path := (congrArg Prod.fst hsplit).symm
    exact (Path.isPrefix_parent path).subset (hhead ▸ hc)
  · exact hname path h

/-- The directory above has a slash less in its path, unless all of it is
slashes. -/
theorem count_splitDirectory_lt (hne : (splitDirectory path).1 ≠ []) :
    (splitDirectory path).1.count '/' < path.count '/'
      ∨ ∀ c ∈ (splitDirectory path).1, c = '/' := by
  obtain ⟨front, more, hpath, hhead, hlast⟩ := Path.splitDirectory_eq path
  rw [hhead] at hne ⊢
  rcases Path.dropSlashes_cases front with ⟨hall, hsame⟩ | ⟨k, hk, -, hother⟩
  · exact Or.inr (hsame.symm ▸ hall)
  · refine Or.inl ?_
    have hfront : front.count '/' = (Path.dropSlashes front).count '/' + k := by
      conv_lhs => rw [hk, List.count_append, List.count_replicate_self]
    have hsome : 0 < k := by
      rcases Nat.eq_zero_or_pos k with rfl | hpos
      · rw [List.replicate_zero, List.append_nil] at hk
        rcases hlast with rfl | hlast
        · exact absurd rfl hne
        · exact absurd (hk ▸ hlast) hother
      · exact hpos
    rw [hpath, List.count_append]
    omega

theorem makeDirectoriesFrom_of_slashes (room : Nat) (h : ∀ c ∈ path, c = '/') :
    makeDirectoriesFrom (room + 1) d path = d.makeLast path := by
  rw [makeDirectoriesFrom_succ, if_pos (Or.inr (Or.inl (splitDirectory_of_slashes h)))]

/-- **Why making directories fails**: a null character in the path, a
refusal, or more directories than there is room to make. -/
theorem makeDirectoriesFrom_error_cases {room : Nat}
    (h : (makeDirectoriesFrom room d path).2 = some e) :
    '\x00' ∈ path ∧ e = .nullByte ∨ (∃ reason other, e = .refused reason other)
      ∨ room ≤ path.count '/' ∧ e = .tooDeep := by
  have hlast {d : Disk} {path : Text} (h : (d.makeLast path).2 = some e) :
      '\x00' ∈ path ∧ e = .nullByte ∨ ∃ reason other, e = .refused reason other :=
    (makeLast_error_cases h).imp_right fun ⟨reason, he⟩ => ⟨reason, path, he⟩
  induction room generalizing path with
  | zero => exact Or.inr (Or.inr ⟨Nat.zero_le _, (Option.some.inj h).symm⟩)
  | succ room ih =>
    rw [makeDirectoriesFrom_succ] at h
    split at h
    · exact (hlast h).imp_right Or.inl
    next hnot =>
    have hne := (not_or.1 hnot).1
    have hpart := (Path.isPrefix_splitDirectory path).subset
    split at h
    · rcases ih h with ⟨hnull, rfl⟩ | hrefused | ⟨hroom, rfl⟩
      · exact Or.inl ⟨hpart hnull, rfl⟩
      · exact Or.inr (Or.inl hrefused)
      refine Or.inr (Or.inr ⟨?_, rfl⟩)
      rcases count_splitDirectory_lt hne with hless | hslashes
      · exact hroom.trans_lt hless
      -- above a path of slashes there is nothing to make
      cases room with
      | zero =>
        obtain ⟨c, hc⟩ := List.exists_mem_of_ne_nil _ hne
        exact List.count_pos_iff.2 (hslashes c hc ▸ hpart hc)
      | succ room =>
        rw [makeDirectoriesFrom_of_slashes room hslashes] at h
        rcases hlast h with ⟨-, he⟩ | ⟨_, _, he⟩ <;> cases he
    split at h
    · cases h
    · exact (hlast h).imp_right Or.inl

/-- So it is for all the directories above a file. -/
theorem makeDirectories_error_cases [Nesting] (h : (d.makeDirectories path).2 = some e) :
    '\x00' ∈ path ∧ e = .nullByte ∨ (∃ reason other, e = .refused reason other)
      ∨ Nesting.directories ≤ path.count '/' ∧ e = .tooDeep :=
  makeDirectoriesFrom_error_cases h

end Disk

end EditBlocks
