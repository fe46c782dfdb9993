import EditBlocks.Checkout
import Mathlib.Control.Monad.Basic

/-!
# When steps succeed

A computation that can fail is taken apart step by step: a sequence succeeds
when its first step does and the rest does with its result, and a step whose
failures are only renamed succeeds when it did before. It fails as the first
of its steps does that fails.

Each of these is an equivalence, so that a goal and a hypothesis are taken
apart by the same lemma, and no proof about runs has to unfold how steps are
put together.
-/

namespace EditBlocks

variable {ε ε' α β : Type}

/-- **When a sequence of two steps succeeds.** -/
theorem bind_eq_ok_iff {step : Except ε α} {next : α → Except ε β} {b : β} :
    (step >>= next) = .ok b ↔ ∃ a, step = .ok a ∧ next a = .ok b := by
  cases step with
  | error e => exact ⟨fun h => (nomatch h), fun ⟨_, h, _⟩ => (nomatch h)⟩
  | ok a => exact ⟨fun h => ⟨a, rfl, h⟩, fun ⟨_, h, h'⟩ => (Except.ok.inj h) ▸ h'⟩

/-- **How a sequence of two steps fails.** -/
theorem bind_eq_error_iff {step : Except ε α} {next : α → Except ε β} {e : ε} :
    (step >>= next) = .error e ↔ step = .error e ∨ ∃ a, step = .ok a ∧ next a = .error e := by
  cases step with
  | error e' =>
    constructor
    · intro h
      cases h
      exact Or.inl rfl
    · rintro (h | ⟨_, h, _⟩)
      · cases h
        rfl
      · cases h
  | ok a =>
    constructor
    · exact fun h => Or.inr ⟨a, rfl, h⟩
    · rintro (h | ⟨_, h, h'⟩)
      · cases h
      · cases h
        exact h'

/-- A sequence fails where its first step does. -/
theorem bind_error {step : Except ε α} {next : α → Except ε β} {e : ε} (h : step = .error e) :
    (step >>= next) = .error e := bind_eq_error_iff.2 (Or.inl h)

/-- A sequence whose first step succeeds fails where the rest does. -/
theorem bind_ok_error {step : Except ε α} {next : α → Except ε β} {a : α} {e : ε}
    (h : step = .ok a) (hnext : next a = .error e) : (step >>= next) = .error e :=
  bind_eq_error_iff.2 (Or.inr ⟨a, h, hnext⟩)

/-- Renaming failures leaves success as it is. -/
theorem mapError_eq_ok_iff {rename : ε → ε'} {step : Except ε α} {a : α} :
    step.mapError rename = .ok a ↔ step = .ok a := by
  cases step with
  | error e => exact ⟨fun h => (nomatch h), fun h => (nomatch h)⟩
  | ok b => exact ⟨fun h => congrArg Except.ok (Except.ok.inj h), fun h => h ▸ rfl⟩

theorem mapError_eq_error_iff {rename : ε → ε'} {step : Except ε α} {e : ε'} :
    step.mapError rename = .error e ↔ ∃ e', step = .error e' ∧ rename e' = e := by
  cases step with
  | error e' =>
    constructor
    · exact fun h => ⟨e', rfl, Except.error.inj h⟩
    · rintro ⟨_, h, h'⟩
      cases h
      exact congrArg Except.error h'
  | ok a => exact ⟨fun h => (nomatch h), fun ⟨_, h, _⟩ => (nomatch h)⟩

theorem map_eq_ok_iff {work : α → β} {step : Except ε α} {b : β} :
    step.map work = .ok b ↔ ∃ a, step = .ok a ∧ work a = b := by
  cases step with
  | error e => exact ⟨fun h => (nomatch h), fun ⟨_, h, _⟩ => (nomatch h)⟩
  | ok a =>
    constructor
    · exact fun h => ⟨a, rfl, Except.ok.inj h⟩
    · rintro ⟨_, h, h'⟩
      cases h
      exact congrArg Except.ok h'

/-- Working on a result leaves failure as it is. -/
theorem map_eq_error_iff {work : α → β} {step : Except ε α} {e : ε} :
    step.map work = .error e ↔ step = .error e := by
  cases step with
  | error e' => exact ⟨fun h => congrArg Except.error (Except.error.inj h), fun h => h ▸ rfl⟩
  | ok a => exact ⟨fun h => (nomatch h), fun h => (nomatch h)⟩

/-- A result that is kept is one of success. -/
theorem toOption_eq_some_iff {step : Except ε α} {a : α} :
    step.toOption = some a ↔ step = .ok a := by
  cases step with
  | error e => exact ⟨fun h => (nomatch h), fun h => (nomatch h)⟩
  | ok b => exact ⟨fun h => congrArg Except.ok (Option.some.inj h), fun h => h ▸ rfl⟩

/-- A step can be asked whether it succeeds. -/
theorem isOk_iff {step : Except ε α} : step.isOk = true ↔ ∃ a, step = .ok a := by
  cases step with
  | error e => exact iff_of_false Bool.false_ne_true fun ⟨_, h⟩ => nomatch h
  | ok a => exact iff_of_true rfl ⟨a, rfl⟩

/-- A step that does not succeed fails. -/
theorem isOk_eq_false_iff {step : Except ε α} : step.isOk = false ↔ ∃ e, step = .error e := by
  cases step with
  | error e => exact iff_of_true rfl ⟨e, rfl⟩
  | ok a => exact iff_of_false (fun h => nomatch h) fun ⟨_, h⟩ => nomatch h

theorem ofEncoding_eq_ok_iff {step : Except EncodingError α} {a : α} :
    Failure.ofEncoding step = .ok a ↔ step = .ok a := mapError_eq_ok_iff

theorem ofEncoding_eq_error_iff {step : Except EncodingError α} {e : Failure} :
    Failure.ofEncoding step = .error e ↔ ∃ e', step = .error e' ∧ .encoding e' = e :=
  mapError_eq_error_iff

end EditBlocks
