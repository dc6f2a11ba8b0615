/-!
Taking apart computations that can fail.
-/

namespace SymbolPatterns

variable {ε α β : Type}

/-- A sequence succeeds with what its second part makes of the result of the
first. With it the steps of a computation are peeled off one by one, and none
of them is unfolded. -/
theorem bind_eq_ok {result : Except ε α} {next : α → Except ε β} {b : β}
    (h : (result >>= next) = .ok b) : ∃ a, result = .ok a ∧ next a = .ok b := by
  cases result with
  | error e => cases h
  | ok a => exact ⟨a, rfl, h⟩

theorem bind_ok {result : Except ε α} {next : α → Except ε β} {a : α} {b : β}
    (h : result = .ok a) (hnext : next a = .ok b) : (result >>= next) = .ok b := by
  rw [h]
  exact hnext

theorem eq_ok_of_toOption {result : Except ε α} {a : α} (h : result.toOption = some a) :
    result = .ok a := by
  cases result with
  | error e => simp [Except.toOption] at h
  | ok b => exact congrArg Except.ok (Option.some.inj h)

theorem toOption_map (f : α → β) (result : Except ε α) :
    (result.map f).toOption = result.toOption.map f := by
  cases result <;> rfl

end SymbolPatterns
