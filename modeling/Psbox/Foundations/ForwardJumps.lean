import Mathlib.Data.List.Basic
import Mathlib.Tactic.Common

/-!
# Programs That Only Jump Forward

A machine whose instructions go on to a later one, by a distance from their own place, or stop.
`runAt` counts places as a machine does, and can leave the program. `Stops` speaks of the rest
of a program instead, so that a block is reasoned about wherever it stands: what stops in the
one way stops in the other (`Stops.runAt`).
-/

namespace Psbox.Foundations

/-- What an instruction comes to. -/
inductive Next (σ ρ : Type*) where
  /-- `skip` instructions are left out. -/
  | goOn (s : σ) (skip : Nat)
  | stop (r : ρ)
  | fault

/-- How a run ends. -/
inductive Ending (ρ : Type*) where
  | stopped (r : ρ)
  | fault
  | outOfBounds
  | outOfFuel
  deriving DecidableEq

variable {ι σ ρ : Type*} {exec : ι → σ → Next σ ρ}

def runAt (exec : ι → σ → Next σ ρ) (p : List ι) : Nat → Nat → σ → Ending ρ
  | 0, _, _ => .outOfFuel
  | fuel + 1, pc, s =>
      match p[pc]? with
      | none => .outOfBounds
      | some i =>
          match exec i s with
          | .goOn s' skip => runAt exec p fuel (pc + 1 + skip) s'
          | .stop r => .stopped r
          | .fault => .fault

/-- From its first instruction, with fuel for all of them. -/
def runProgram (exec : ι → σ → Next σ ρ) (p : List ι) (s : σ) : Ending ρ :=
  runAt exec p p.length 0 s

/-- The code stops with a result, run from its first instruction. -/
inductive Stops (exec : ι → σ → Next σ ρ) : List ι → σ → ρ → Prop where
  | stop {i : ι} {rest : List ι} {s : σ} {r : ρ} (h : exec i s = .stop r) :
      Stops exec (i :: rest) s r
  | goOn {i : ι} {rest : List ι} {s s' : σ} {r : ρ} {skip : Nat} (h : exec i s = .goOn s' skip)
      (hrest : Stops exec (rest.drop skip) s' r) : Stops exec (i :: rest) s r

theorem of_drop_eq_cons {p rest : List ι} {pc : Nat} {i : ι} (h : p.drop pc = i :: rest) :
    p[pc]? = some i ∧ pc < p.length ∧ p.drop (pc + 1) = rest := by
  have hi : p[pc]? = some i := by
    rw [← List.head?_drop, h]
    rfl
  refine ⟨hi, (List.getElem?_eq_some_iff.mp hi).1, ?_⟩
  rw [← List.tail_drop, h]
  rfl

/-- Every jump leads forward, so that the length is fuel enough. -/
theorem Stops.runAt {p : List ι} {fuel pc : Nat} {s : σ} {r : ρ}
    (h : Stops exec (p.drop pc) s r) (hfuel : p.length - pc ≤ fuel) :
    Foundations.runAt exec p fuel pc s = .stopped r := by
  generalize hcode : p.drop pc = code at h
  induction h generalizing pc fuel with
  | stop hexec =>
      obtain ⟨hi, hlt, _⟩ := of_drop_eq_cons hcode
      obtain ⟨fuel, rfl⟩ : ∃ k, fuel = k + 1 := ⟨fuel - 1, by omega⟩
      simp only [Foundations.runAt, hi, hexec]
  | goOn hexec _ ih =>
      obtain ⟨hi, hlt, hrest⟩ := of_drop_eq_cons hcode
      obtain ⟨fuel, rfl⟩ : ∃ k, fuel = k + 1 := ⟨fuel - 1, by omega⟩
      simp only [Foundations.runAt, hi, hexec]
      refine ih (by omega) ?_
      rw [← hrest, List.drop_drop]

theorem Stops.runProgram {p : List ι} {s : σ} {r : ρ} (h : Stops exec p s r) :
    Foundations.runProgram exec p s = .stopped r :=
  Stops.runAt (p := p) h (Nat.le_refl _)

/-- Code behind a block that stops is never reached. -/
theorem Stops.append {code : List ι} {s : σ} {r : ρ} (h : Stops exec code s r) (more : List ι) :
    Stops exec (code ++ more) s r := by
  induction h with
  | stop hexec => exact .stop hexec
  | @goOn i rest s s' r skip hexec hrest ih =>
      refine .goOn hexec ?_
      -- The jump does not lead behind the block, where nothing stops.
      have hskip : skip ≤ rest.length := by
        by_contra hlong
        rw [List.drop_eq_nil_of_le (by omega)] at hrest
        cases hrest
      show Stops exec ((rest ++ more).drop skip) s' r
      rw [List.drop_append_of_le_length hskip]
      exact ih

/-- A jump over a block leads to what is behind it. -/
theorem Stops.jump {i : ι} {block code : List ι} {s s' : σ} {r : ρ}
    (hexec : exec i s = .goOn s' block.length) (h : Stops exec code s' r) :
    Stops exec (i :: (block ++ code)) s r := by
  refine .goOn hexec ?_
  rw [List.drop_left]
  exact h

/-- To the next instruction. -/
theorem Stops.next {i : ι} {code : List ι} {s s' : σ} {r : ρ} (hexec : exec i s = .goOn s' 0)
    (h : Stops exec code s' r) : Stops exec (i :: code) s r :=
  .goOn hexec h

end Psbox.Foundations
