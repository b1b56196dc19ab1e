import Mathlib.Tactic.Common

/-!
# Computations that May Fail

`Except` computations whose errors are of two kinds: those that are an answer, and
those that must not happen. `Agrees` compares a computation that checks every step with
one that does not: they are equal, and no error that must not happen comes out.
-/

namespace Psbox.Foundations

variable {ε α β : Type}

/-! ## Section 1: Sequences -/

theorem bind_eq_ok {x : Except ε α} {f : α → Except ε β} {b : β} (h : x >>= f = .ok b) :
    ∃ a, x = .ok a ∧ f a = .ok b := by
  cases x with
  | error e => cases h
  | ok a => exact ⟨a, rfl, h⟩

theorem bind_eq_ok_iff {x : Except ε α} {f : α → Except ε β} {b : β} :
    x >>= f = .ok b ↔ ∃ a, x = .ok a ∧ f a = .ok b := by
  refine ⟨bind_eq_ok, ?_⟩
  rintro ⟨a, rfl, h⟩
  exact h

/-- The same after a check. -/
theorem check_bind_eq_ok_iff {x : Except ε Unit} {f : Unit → Except ε β} {b : β} :
    x >>= f = .ok b ↔ x = .ok () ∧ f () = .ok b := by
  rw [bind_eq_ok_iff]
  constructor
  · rintro ⟨⟨⟩, hx, hf⟩
    exact ⟨hx, hf⟩
  · rintro ⟨hx, hf⟩
    exact ⟨(), hx, hf⟩

theorem exists_of_isOk {x : Except ε α} (h : x.isOk = true) : ∃ a, x = .ok a := by
  cases x with
  | error e => cases h
  | ok a => exact ⟨a, rfl⟩

theorem toOption_eq_some {ε : Type*} {α : Type*} {x : Except ε α} {a : α} :
    x.toOption = some a ↔ x = .ok a := by
  cases x <;> simp [Except.toOption]

theorem mapError_eq_ok {ε' : Type} {f : ε → ε'} {x : Except ε α} {a : α} :
    x.mapError f = .ok a ↔ x = .ok a := by
  cases x <;> simp [Except.mapError]

/-- A run of steps that never fail does not fail. -/
theorem exists_foldlM {f : α → β → Except ε α} (hf : ∀ a b, ∃ a', f a b = .ok a') (l : List β)
    (a : α) : ∃ a', l.foldlM f a = .ok a' := by
  induction l generalizing a with
  | nil => exact ⟨a, rfl⟩
  | cons b l ih =>
      obtain ⟨a₁, ha₁⟩ := hf a b
      obtain ⟨a', ha'⟩ := ih a₁
      exact ⟨a', by rw [List.foldlM_cons]; exact bind_eq_ok_iff.mpr ⟨a₁, ha₁, ha'⟩⟩

/-! ## Section 2: Errors that Must Not Happen -/

/-- Every error of the computation is an answer. -/
def Safe (answer : ε → Prop) (x : Except ε α) : Prop :=
  ∀ e, x = .error e → answer e

/-- The computation `x` is `y`, and safe. -/
structure Agrees (answer : ε → Prop) (x y : Except ε α) : Prop where
  eq : x = y
  safe : Safe answer y

variable {answer : ε → Prop}

theorem safe_ok (a : α) : Safe answer (.ok a : Except ε α) := by
  intro e h
  cases h

theorem agrees_ok (a : α) : Agrees answer (.ok a : Except ε α) (.ok a) :=
  ⟨rfl, safe_ok a⟩

theorem agrees_error {e : ε} (h : answer e) : Agrees answer (.error e : Except ε α) (.error e) := by
  refine ⟨rfl, ?_⟩
  intro e' he
  cases he
  exact h

theorem Safe.bind {x : Except ε α} {f : α → Except ε β} (hx : Safe answer x)
    (hf : ∀ a, x = .ok a → Safe answer (f a)) : Safe answer (x >>= f) := by
  cases x with
  | error e =>
      intro e' h
      cases h
      exact hx e rfl
  | ok a => exact hf a rfl

/-- Two sequences agree when their first parts do, and what follows on what these return. -/
theorem Agrees.bind {x y : Except ε α} {f g : α → Except ε β} (h : Agrees answer x y)
    (hrest : ∀ a, y = .ok a → Agrees answer (f a) (g a)) :
    Agrees answer (x >>= f) (y >>= g) := by
  obtain ⟨rfl, hsafe⟩ := h
  refine ⟨?_, hsafe.bind fun a ha => (hrest a ha).safe⟩
  cases x with
  | error e => rfl
  | ok a => exact (hrest a rfl).eq

/-- A step that only the checked computation has, and that succeeds. -/
theorem Agrees.of_ok_bind {x : Except ε α} {a : α} {f : α → Except ε β} {y : Except ε β}
    (hx : x = .ok a) (h : Agrees answer (f a) y) : Agrees answer (x >>= f) y := by
  rw [hx]
  exact h

theorem Agrees.ite {c : Prop} [Decidable c] {x y x' y' : Except ε α}
    (h : c → Agrees answer x y) (h' : ¬c → Agrees answer x' y') :
    Agrees answer (if c then x else x') (if c then y else y') := by
  split
  · rename_i hc
    exact h hc
  · rename_i hc
    exact h' hc

end Psbox.Foundations
