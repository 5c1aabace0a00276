import Mathlib.Data.List.Forall2
import Mathlib.Data.List.Induction
import ThreadCore.Bench.Basic

/-!
# Laws of trials

A law about what has been done and the state after it holds in the end of every trial if each
operation keeps it, whether or not it halts (`Bench.log_induction`). Two trials whose states stay
related by each operation, and whose operations end alike, go alike from beginning to end
(`Bench.run_forall₂`).
-/

namespace ThreadCore.Bench

variable {ι σ τ α : Type} {step : ι → EStateM Halt σ α} {step' : ι → EStateM Halt τ α} {s : σ}
  {t : τ}

/-- What an operation comes to. -/
def line (step : ι → EStateM Halt σ α) (s : σ) (op : ι) : Line σ α := Line.ofResult (step op s)

theorem line_of_ok {op : ι} {a : α} {s' : σ} (h : step op s = .ok a s') :
    line step s op = ⟨.ok a, s'⟩ := by
  rw [line, h]
  rfl

theorem line_of_error {op : ι} {halt : Halt} {s' : σ} (h : step op s = .error halt s') :
    line step s op = ⟨.error halt, s'⟩ := by
  rw [line, h]
  rfl

/-- The state in the end of a trial. -/
def finish (step : ι → EStateM Halt σ α) (s : σ) : List ι → σ
  | [] => s
  | op :: ops => finish step (line step s op).after ops

/-- The operations of a trial and how they ended. -/
def log (step : ι → EStateM Halt σ α) (s : σ) (ops : List ι) : List (ι × Except Halt α) :=
  ops.zip ((run step s ops).map Line.outcome)

theorem run_cons (op : ι) (ops : List ι) :
    run step s (op :: ops) = line step s op :: run step (line step s op).after ops :=
  rfl

theorem log_cons (op : ι) (ops : List ι) : log step s (op :: ops) =
    (op, (line step s op).outcome) :: log step (line step s op).after ops :=
  rfl

theorem finish_concat (ops : List ι) (op : ι) :
    finish step s (ops ++ [op]) = (line step (finish step s ops) op).after := by
  induction ops generalizing s with
  | nil => rfl
  | cons first ops ih => exact ih

theorem log_concat (ops : List ι) (op : ι) : log step s (ops ++ [op]) =
    log step s ops ++ [(op, (line step (finish step s ops) op).outcome)] := by
  induction ops generalizing s with
  | nil => rfl
  | cons first ops ih => rw [List.cons_append, log_cons, log_cons, ih, finish, List.cons_append]

/-- What each operation keeps holds in the end. -/
theorem log_induction {P : List (ι × Except Halt α) → σ → Prop} (hstart : P [] s)
    (hstep : ∀ done m op, P done m →
      P (done ++ [(op, (line step m op).outcome)]) (line step m op).after)
    (ops : List ι) : P (log step s ops) (finish step s ops) := by
  induction ops using List.reverseRecOn with
  | nil => exact hstart
  | append_singleton ops op ih =>
    rw [log_concat, finish_concat]
    exact hstep _ _ op ih

/-- Trials that each operation keeps alike are alike. -/
theorem run_forall₂ {R : σ → τ → Prop} (hstep : ∀ op s t, R s t →
      (line step s op).outcome = (line step' t op).outcome ∧
        R (line step s op).after (line step' t op).after)
    (h : R s t) (ops : List ι) :
    List.Forall₂ (fun l l' => l.outcome = l'.outcome ∧ R l.after l'.after) (run step s ops)
      (run step' t ops) := by
  induction ops generalizing s t with
  | nil => exact .nil
  | cons op ops ih =>
    have hfirst := hstep op s t h
    exact .cons hfirst (ih hfirst.2)

end ThreadCore.Bench
