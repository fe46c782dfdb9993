import EditBlocks.Arguments.Invocation
import EditBlocks.Proofs.Success

/-!
# Arguments that are no options

An argument that does not begin with a hyphen is taken for what it is, and
where all arguments are such, they are read in one go: the positionals take
them in their turns (`Arguments.read_of_ordinary`). So a command line that
asks for the saved settings is read as it stands
(`Arguments.readInvocation_config`).

The condition is sufficient and not necessary, since a negative number is an
ordinary argument too, and so is one that holds a blank. What any argument is
taken for is settled where it is needed (`Program.readInvocation_cases`).
-/

namespace EditBlocks

namespace Arguments

/-- **An argument that does not look like an option.** -/
def IsOrdinary (t : Text) : Prop := t.head? ≠ some '-'

instance : DecidablePred IsOrdinary := fun _ => inferInstanceAs (Decidable (_ ≠ _))

/-- Such arguments are taken for what they are. -/
theorem rolesOf_of_ordinary {g : Grammar} {ts : List Text} (h : ∀ t ∈ ts, IsOrdinary t) :
    rolesOf g ts = .ok (ts.map fun t => (t, .argument)) := by
  induction ts with
  | nil => rfl
  | cons t rest ih =>
    obtain ⟨ht, hrest⟩ := List.forall_mem_cons.1 h
    have hend : t ≠ endSign := fun he => ht (he ▸ rfl)
    have hrole : roleOf g t = .ok .argument := if_pos ht
    rw [rolesOf, if_neg hend, hrole, ih hrest]
    rfl

theorem dropSign_of_ordinary {ts : List Text} (h : ∀ t ∈ ts, IsOrdinary t) : dropSign ts = ts :=
  List.erase_of_not_mem fun hmem => h _ hmem rfl

/-- **They are read in one go**: the positionals take their turns, and
nothing is an option. -/
theorem read_of_ordinary (g : Grammar) {ts : List Text} (h : ∀ t ∈ ts, IsOrdinary t)
    {counts : List Nat}
    (hcounts : takesMost (g.positionals.map Prod.snd) (ts.map fun _ => .argument) = counts)
    {found : Found} (hfound : found = ⟨[], give g.positionals counts ts, ts.drop (total counts)⟩)
    (hmissing : missing g found = []) : read g ts = .ok found := by
  have hfrom (fuel : Nat) : readFrom g (fuel + 1) .empty g.positionals
      (ts.map fun t => (t, Role.argument)) = .ok found := by
    have hroles : (ts.map fun t => (t, Role.argument)).map Prod.snd
        = ts.map fun _ => .argument := by
      rw [List.map_map]
      rfl
    have htexts : (ts.map fun t => (t, Role.argument)).map Prod.fst = ts := by
      rw [List.map_map]
      exact List.map_id _
    have hnone : ((ts.map fun t => (t, Role.argument)).any fun e => e.2.isOption) = false := by
      simp [Role.isOption]
    simp only [readFrom]
    rw [hnone, hroles, htexts, hcounts, List.map_drop, htexts, hfound]
    rfl
  refine bind_eq_ok_iff.2 ⟨_, rolesOf_of_ordinary h, bind_eq_ok_iff.2 ⟨found, hfrom _, ?_⟩⟩
  rw [hmissing]

/-- The word for the saved settings on a command line, and what is given with
it. -/
theorem readInvocation_config {ts : List Text} (found : Found) (h : ∀ t ∈ ts, IsOrdinary t)
    (hcounts : takesMost [.command] ((("config" : Text) :: ts).map fun _ => .argument)
      = [ts.length + 1])
    (hfound : read settingsGrammar ts = .ok found) (hextras : found.extras = []) :
    readInvocation ("config" :: ts)
      = .ok ⟨none, .settings (single found "key") (single found "value")⟩ := by
  have hconfig : IsOrdinary "config" := by decide
  have hmain : read mainGrammar ("config" :: ts) = .ok ⟨[], [("command", "config" :: ts)], []⟩ := by
    have hpositionals : mainGrammar.positionals = [(("command" : Text), Arity.command)] := rfl
    refine read_of_ordinary mainGrammar (List.forall_mem_cons.2 ⟨hconfig, h⟩) hcounts ?_ ?_
    · simp [hpositionals, give, total]
    · simp [missing, hpositionals, Found.positional?]
  have htask : readTask "config" ts
      = .ok (.settings (single found "key") (single found "value"), []) := by
    rw [readTask, if_neg (by decide), if_neg (by decide), if_pos rfl, readWith, hfound, ← hextras]
    rfl
  refine bind_eq_ok_iff.2 ⟨_, mapError_eq_ok_iff.2 hmain, ?_⟩
  exact bind_eq_ok_iff.2 ⟨_, htask, rfl⟩

end Arguments

end EditBlocks
