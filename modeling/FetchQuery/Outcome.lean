/-!
# Outcomes

An operation that can fail gives a value or a fault. Operations are run one after another,
and the fault of a part becomes a fault of the whole. Such a chain has a value exactly
when all its parts have one.
-/

namespace FetchQuery

namespace Outcome

variable {ε ε' α β : Type}

/-- Equality of outcomes can be decided. -/
instance decidableEq [DecidableEq ε] [DecidableEq α] : DecidableEq (Except ε α)
  | .ok first, .ok second => decidable_of_iff (first = second) (by simp)
  | .error first, .error second => decidable_of_iff (first = second) (by simp)
  | .ok _, .error _ => isFalse (by simp)
  | .error _, .ok _ => isFalse (by simp)

/-- A change of the faults does not change what has a value. -/
@[simp] theorem mapError_eq_ok_iff {f : ε → ε'} {outcome : Except ε α} {value : α} :
    outcome.mapError f = .ok value ↔ outcome = .ok value := by
  cases outcome with
  | error fault => exact ⟨(nomatch ·), (nomatch ·)⟩
  | ok given =>
      constructor
      · intro h
        exact congrArg Except.ok (Except.ok.inj h)
      · intro h
        exact congrArg Except.ok (Except.ok.inj h)

/-- A chain has a value when its first part has one, and what follows has one there. -/
theorem bind_eq_ok_iff {outcome : Except ε α} {next : α → Except ε β} {value : β} :
    (outcome >>= next) = .ok value ↔ ∃ given, outcome = .ok given ∧ next given = .ok value := by
  cases outcome with
  | error fault => exact ⟨(nomatch ·), fun ⟨_, h, _⟩ => nomatch h⟩
  | ok given =>
      constructor
      · intro h
        exact ⟨given, rfl, h⟩
      · rintro ⟨given', same, h⟩
        cases same
        exact h

end Outcome

end FetchQuery
