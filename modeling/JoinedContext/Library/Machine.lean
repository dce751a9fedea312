import Mathlib.Data.List.Basic

/-!
# Runs of a machine

A machine is what each operation makes of a state. What every step preserves, every run preserves;
a condition a run meets is one that each of its steps meets in the state it is taken in.
-/

namespace JoinedContext.Machine

variable {S I : Type} (step : S → I → S)

/-- The state a list of operations leads to. -/
def run (s : S) (ops : List I) : S := ops.foldl step s

/-- Whether each operation of a run meets a condition in the state it is taken in. -/
def Along (ok : S → I → Prop) : S → List I → Prop
  | _, [] => True
  | s, op :: ops => ok s op ∧ Along ok (step s op) ops

/-- What a run answers, one answer for each operation. -/
def outputs {O : Type} (out : S → I → O) : S → List I → List O
  | _, [] => []
  | s, op :: ops => out s op :: outputs out (step s op) ops

variable {step} {ok ok' : S → I → Prop} {P : S → Prop} {s : S} {ops more : List I} {op : I}

@[simp] theorem run_nil : run step s [] = s := rfl

@[simp] theorem run_cons : run step s (op :: ops) = run step (step s op) ops := rfl

theorem run_append : run step s (ops ++ more) = run step (run step s ops) more :=
  List.foldl_append

theorem outputs_append {O : Type} {out : S → I → O} : ∀ {ops : List I} {s : S},
    outputs step out s (ops ++ more) =
      outputs step out s ops ++ outputs step out (run step s ops) more
  | [], _ => rfl
  | op :: ops, s => by rw [List.cons_append, outputs, outputs_append, outputs, run_cons]; rfl

theorem length_outputs {O : Type} {out : S → I → O} : ∀ {ops : List I} {s : S},
    (outputs step out s ops).length = ops.length
  | [], _ => rfl
  | op :: ops, s => by rw [outputs, List.length_cons, List.length_cons, length_outputs]

/-- What each step that meets the condition preserves, a run of such steps preserves. -/
theorem run_preserves_of (hstep : ∀ s op, P s → ok s op → P (step s op)) (hP : P s)
    (h : Along step ok s ops) : P (run step s ops) := by
  induction ops generalizing s with
  | nil => exact hP
  | cons op ops ih => exact ih (hstep s op hP h.1) h.2

theorem run_preserves (hstep : ∀ s op, P s → P (step s op)) (hP : P s) (ops : List I) :
    P (run step s ops) := by
  induction ops generalizing s with
  | nil => exact hP
  | cons op ops ih => exact ih (hstep s op hP)

theorem along_append :
    Along step ok s (ops ++ more) ↔ Along step ok s ops ∧ Along step ok (run step s ops) more := by
  induction ops generalizing s with
  | nil => simp [Along]
  | cons op ops ih => simp [Along, ih, and_assoc]

theorem Along.mono (h : ∀ s op, ok s op → ok' s op) :
    ∀ {ops : List I} {s : S}, Along step ok s ops → Along step ok' s ops
  | [], _, _ => trivial
  | op :: _, s, halong => ⟨h s op halong.1, halong.2.mono h⟩

/-- What holds at the start and is preserved holds at every step of a run that meets the
condition, with the condition itself. -/
theorem Along.with (hstep : ∀ s op, P s → ok s op → P (step s op)) :
    ∀ {ops : List I} {s : S}, P s → Along step ok s ops →
      Along step (fun s op => P s ∧ ok s op) s ops
  | [], _, _, _ => trivial
  | op :: _, s, hP, h => ⟨⟨hP, h.1⟩, h.2.with hstep (hstep s op hP h.1)⟩

variable (step) in
theorem along_true : ∀ (ops : List I) (s : S), Along step (fun _ _ => True) s ops
  | [], _ => trivial
  | _ :: ops, _ => ⟨trivial, along_true ops _⟩

/-- Two conditions that agree at every step of a run are met by it together. -/
theorem along_congr : ∀ {ops : List I} {s : S}, Along step (fun s op => ok s op ↔ ok' s op) s ops →
    (Along step ok s ops ↔ Along step ok' s ops)
  | [], _, _ => Iff.rfl
  | _ :: _, _, h => and_congr h.1 (along_congr h.2)

/-- A machine with its state mapped: the run of the one is the run of the other, mapped. -/
theorem map_run {T : Type} {f : S → T} {step' : T → I → T}
    (hstep : ∀ s op, f (step s op) = step' (f s) op) :
    ∀ (ops : List I) (s : S), f (run step s ops) = run step' (f s) ops
  | [], _ => rfl
  | op :: ops, s => by rw [run_cons, map_run hstep ops, hstep, run_cons]

end JoinedContext.Machine
