import ThreadCore.Halt

/-!
# Trials

A trial exercises one part on its own. It performs operations one after the other and notes after
each how it ended and what the state is. A halt does not end a trial: the next operation starts from
the state that the halted one left.
-/

namespace ThreadCore.Bench

/-- How an operation ended and the state after it. -/
structure Line (σ α : Type) where
  outcome : Except Halt α
  after : σ

/-- The state after a step, halted or not, and how it ended. -/
def Line.ofResult {σ α : Type} : EStateM.Result Halt σ α → Line σ α
  | .ok a s => ⟨.ok a, s⟩
  | .error halt s => ⟨.error halt, s⟩

/-- Performs operations one after the other. -/
def run {ι σ α : Type} (step : ι → EStateM Halt σ α) (s : σ) : List ι → List (Line σ α)
  | [] => []
  | op :: ops =>
      let line := Line.ofResult (step op s)
      line :: run step line.after ops

end ThreadCore.Bench
