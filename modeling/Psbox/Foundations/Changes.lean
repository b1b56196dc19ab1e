import Mathlib.Data.Option.Basic

/-!
# A Table Followed by Its Changes

A table of values by key, as someone has it who once asked for a value and is told every
change since, in order. What counts for a key is the last change that is told of it, or the
value asked for where there is none.
-/

namespace Psbox.Foundations

variable {κ ν : Type*} [DecidableEq κ]

/-- The value that the last change of a key gives it, where one is told. -/
def lastChange (k : κ) : List (κ × Option ν) → Option (Option ν)
  | [] => none
  | c :: cs =>
      match lastChange k cs with
      | some v => some v
      | none => if c.1 = k then some c.2 else none

variable {k : κ} {v : Option ν} {c : κ × Option ν} {cs ds : List (κ × Option ν)}

@[simp] theorem lastChange_nil : lastChange k ([] : List (κ × Option ν)) = none := rfl

theorem lastChange_append :
    lastChange k (cs ++ ds) = (lastChange k ds).or (lastChange k cs) := by
  induction cs with
  | nil => simp
  | cons c cs ih =>
      show (match lastChange k (cs ++ ds) with
        | some v => some v
        | none => if c.1 = k then some c.2 else none) = _
      rw [ih, lastChange]
      cases lastChange k ds <;> rfl

end Psbox.Foundations
