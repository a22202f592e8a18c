/-!
# Results of stateful operations

An operation goes on behind a part that succeeded, and ends with a part that failed. These are
the equations by which a run is followed from one part to the next.
-/

namespace Contractum

variable {ε σ α β : Type} {act : EStateM ε σ α} {f : α → EStateM ε σ β} {a : α} {e : ε} {s s' : σ}

theorem bind_of_ok (h : act s = .ok a s') : (act >>= f) s = f a s' := by
  change EStateM.bind act f s = _
  rw [EStateM.bind, h]

theorem bind_of_error (h : act s = .error e s') : (act >>= f) s = .error e s' := by
  change EStateM.bind act f s = _
  rw [EStateM.bind, h]

theorem discard_of_ok (h : act s = .ok a s') : (discard act) s = .ok () s' := by
  change EStateM.map _ act s = _
  rw [EStateM.map, h]

theorem discard_of_error (h : act s = .error e s') : (discard act) s = .error e s' := by
  change EStateM.map _ act s = _
  rw [EStateM.map, h]

/-- Looking at the state changes nothing. -/
theorem get_bind {f : σ → EStateM ε σ β} : (get >>= f) s = f s s := rfl

/-- A result stands behind a result of each part. -/
theorem exists_of_bind_eq_ok {x : Except ε α} {g : α → Except ε β} {b : β}
    (h : x >>= g = .ok b) : ∃ a, x = .ok a ∧ g a = .ok b := by
  cases x with
  | error e => cases h
  | ok a => exact ⟨a, rfl, h⟩

end Contractum
