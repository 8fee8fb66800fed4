/-
Looking at an evaluation node by node.

The evaluator that inspects waits a turn before and after each node and each call, and
looks at a condition before each of them.  Where nothing happens in these turns it
does what the evaluator does.  Under a discipline it is known what becomes of the
store between any two of its turns, that is from each node to the next, and not only
between two turns of the evaluator itself.
-/
import TreeWalk.Proofs.Eval.Watch

namespace TreeWalk

open Eval

/-- Waits a turn before a computation and after it, however it ends. -/
def Eval.paused {α : Type} (x : Eval α) : Eval α := fun f σ =>
  .wait .turn σ fun _ σ => (x f σ).andThen fun r g τ => .wait .turn τ fun _ τ => .done r g τ

/-- The evaluator that looks at each node and each call, and pauses around them. -/
noncomputable def inspected (P : Watch) : Nat → Evaluator
  | 0 => evaluator 0
  | fuel + 1 =>
    { expr := fun e f σ =>
        guardedBy (P fuel (.expr e) f σ) (paused (Node.expr (inspected P fuel) fuel e)) f σ
      stmt := fun s f σ =>
        guardedBy (P fuel (.stmt s) f σ) (paused (Node.stmt (inspected P fuel) s)) f σ
      call := fun v args pos f σ => guardedBy (P fuel (.call v args pos) f σ)
        (paused (Call.value (inspected P fuel) fuel v args pos)) f σ }

namespace Discipline

variable {α : Type} {D : Discipline} {b : Bool} {w : Ways} {Φ : Store → α → Prop} {here : Site}
  {σ₀ σ : Store} {x y : Eval α}

/-- Pauses are no concern of the other evaluation. -/
theorem Runs.paused (hp : D.pauses) (h : D.Runs b w Φ here σ₀ σ x y) :
    D.Runs b w Φ here σ₀ σ (Eval.paused x) y := by
  intro hfit f hf _
  refine .pause hp ((D.stretch _).refl σ) hfit ?_
  rw [← Step.andThen_done_right (y f σ)]
  refine (h hfit f hf).andThen (fun _ h => h) fun r g τ hpost => ?_
  exact .pause hp ((D.stretch _).refl τ) hpost.1 (.ended hpost)

/-- Inspection finds the condition wherever it holds of all that fits. -/
theorem sound_inspected (hD : D.Lawful) (hp : D.pauses) {P : Watch}
    (hP : ∀ fuel q f σ, D.fit false f.site σ σ → q.Within (D.At σ) → P fuel q f σ) (fuel : Nat) :
    D.Sound (inspected P fuel) (evaluator fuel) := by
  induction fuel with
  | zero => exact sound_evaluator hD 0
  | succ fuel ih =>
    refine ⟨hD, fun e here σ hfit f hf _ => ?_, fun s here σ hfit f hf _ => ?_,
      fun v args pos here σ hv hargs hfit f hf _ => ?_⟩
    · have holds := hP fuel (.expr e) f σ (hf ▸ hD.restart hfit) trivial
      rw [evaluator_expr]
      show Step.Alike _ _ _ _ (guardedBy (P fuel (.expr e) f σ) _ f σ) _
      rw [guardedBy_of_holds holds]
      exact (ih.runs_exprNode e).paused hp hfit f hf
    · have holds := hP fuel (.stmt s) f σ (hf ▸ hD.restart hfit) trivial
      rw [evaluator_stmt]
      show Step.Alike _ _ _ _ (guardedBy (P fuel (.stmt s) f σ) _ f σ) _
      rw [guardedBy_of_holds holds]
      exact (ih.runs_stmtNode s).paused hp hfit f hf
    · have holds := hP fuel (.call v args pos) f σ (hf ▸ hD.restart hfit) ⟨hv, hargs⟩
      rw [evaluator_call]
      show Step.Alike _ _ _ _ (guardedBy (P fuel (.call v args pos) f σ) _ f σ) _
      rw [guardedBy_of_holds holds]
      exact (ih.runs_value hv hargs).paused hp hfit f hf

end Discipline
end TreeWalk
