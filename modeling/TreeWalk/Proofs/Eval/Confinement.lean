/-
Control stays where it belongs.

`break` and `continue` leave a tree only if one of them lies in it outside of its
loops, and `return` only if one lies in it outside of its functions.  A call lets
none of them out, and neither does a program.
-/
import TreeWalk.Proofs.Eval.Balance

namespace TreeWalk

open Discipline Eval

namespace Exit

/-- `return`, `break` or `continue` on its way. -/
def IsControl : Exit → Prop
  | ret _ | brk | next => True
  | error _ | fault _ | exhausted => False

theorem not_isControl_of_failing {e : Exit} (h : Ways.failing.allows e) : ¬ e.IsControl := by
  cases e with
  | error e => exact id
  | fault message => exact id
  | exhausted => exact id
  | ret v => exact h.elim
  | brk => exact h.elim
  | next => exact h.elim

end Exit

/-- Whatever other tasks do, a computation that runs in some ways ends in them. -/
theorem Discipline.Runs.allows_of_ends {w : Ways} {b : Bool} {α : Type} {Φ : Store → α → Prop}
    {f g : Fiber} {σ τ : Store} {x : Eval α} {e : Exit} (h : free.Runs b w Φ f.site σ σ x x)
    (hends : (x f σ).Ends (.error e) g τ) : w.allows e := by
  obtain ⟨_, _, hpost⟩ := (h trivial f rfl).of_ends hends
  exact hpost.2.1

/-- `break`, `continue` and `return` are confined, whatever other tasks do
meanwhile.  They leave a request only if it lets them out; they never leave a call,
a method and what it calls back, or a call that was put off; and a program ends
with none of them. -/
theorem control_confined :
    (∀ (fuel : Nat) (q : Request) (f g : Fiber) (σ τ : Store) (r : Except Exit Value),
      ((evaluator fuel).serve q f σ).Ends r g τ →
      (¬ q.Escapes → r ≠ .error .brk ∧ r ≠ .error .next) ∧
        (¬ q.Returns → ∀ v, r ≠ .error (.ret v))) ∧
    (∀ (fuel : Nat) (v : Value) (args : List Value) (pos : Position) (f g : Fiber) (σ τ : Store)
      (e : Exit), ((evaluator fuel).call v args pos f σ).Ends (.error e) g τ → ¬ e.IsControl) ∧
    (∀ (fuel : Nat) (v : Value) (name : String) (values : List Value) (f g : Fiber) (σ τ : Store)
      (e : Exit), (Method.call (evaluator fuel) v name values f σ).Ends (.error e) g τ →
      ¬ e.IsControl) ∧
    (∀ (fuel : Nat) (d : Deferred) (f g : Fiber) (σ τ : Store) (e : Exit),
      (Call.runOne (evaluator fuel) d f σ).Ends (.error e) g τ → ¬ e.IsControl) ∧
    (∀ (s : Session) (scope : ScopeId) (program : Program) (e : Exit),
      (s.runIn scope program).1 = .error e → ¬ e.IsControl) := by
  refine ⟨?_, ?_, ?_, ?_, ?_⟩
  · intro fuel q f g σ τ r hends
    have hallows := (ends_serve hends).1
    exact ⟨fun hin => ⟨fun h => hin (hallows _ h), fun h => hin (hallows _ h)⟩,
      fun hin v h => hin (hallows _ h)⟩
  · intro fuel v args pos f g σ τ e hends
    have hends' : ((evaluator fuel).serve (.call v args pos) f σ).Ends (.error e) g τ := hends
    exact Exit.not_isControl_of_failing ((ends_serve hends').1 e rfl)
  · intro fuel v name values f g σ τ e hends
    have hwithin : (Request.call v values .unknown).Within (free.At σ) := within_ofStack _
    have runs : free.Runs false .failing free.Holds f.site σ σ
        (Method.call (evaluator fuel) v name values)
        (Method.call (evaluator fuel) v name values) :=
      (sound_evaluator lawful_free fuel).runs_method (Ways.le_refl _) hwithin.1 hwithin.2
    exact Exit.not_isControl_of_failing (runs.allows_of_ends hends)
  · intro fuel d f g σ τ e hends
    have runs : free.Runs true .none _ f.site σ σ (Call.runOne (evaluator fuel) d)
        (Call.runOne (evaluator fuel) d) :=
      (sound_evaluator lawful_free fuel).runs_runOne trivial
    have habort := Ways.isAbort_of_none (runs.allows_of_ends hends)
    exact Exit.not_isControl_of_failing (Ways.allows_of_isAbort habort)
  · intro s scope program e he
    exact Exit.not_isControl_of_failing ((s.ends_runIn scope program).1 e he)

/-- `while (true) { break }; return 1` -/
def loopThenReturn : Block :=
  [⟨.unknown, .expr (.bare (.whileLoop (.bare (.bool true)) [⟨.unknown, .break⟩]))⟩,
    ⟨.unknown, .ret [.bare (.int 1)]⟩]

/-- The `break` of a loop does not leave it. -/
theorem not_escapes_loopThenReturn : ¬ (Request.block loopThenReturn).Escapes := by
  simp [Request.Escapes, loopThenReturn, Expr.bare, Tree.escapes_stmt_iff, Tree.escapes_expr_iff,
    StmtForm.parts, Form.parts, Part.ofExprs, Part.ofExpr, Part.ofBody, Part.inBody]

theorem control_confined_loop :
    (∃ g τ, ((evaluator 4).serve (.block loopThenReturn) default default).Ends
        (.error (.ret (.ofInt 1))) g τ ∧ ¬ (Request.block loopThenReturn).Escapes ∧
      (Except.error (.ret (.ofInt 1)) : Except Exit Value) ≠ .error .brk) ∧
    (∃ g τ, ((evaluator 4).serve (.stmt ⟨.unknown, .break⟩) default default).Ends
        (.error .brk) g τ ∧ (Except.error .brk : Except Exit Value) ≠ .error (.ret (.ofInt 1))) ∧
    ¬ (Exit.error ⟨.notCallable "NIL", .unknown⟩).IsControl ∧
    ¬ (Exit.fault "probe exploded").IsControl ∧
    ¬ Exit.exhausted.IsControl ∧
    ¬ (Exit.error ⟨.thrown "no", .unknown⟩).IsControl := by
  obtain ⟨hserve, hcall, hmethod, hdeferred, hprogram⟩ := control_confined
  have hblock : ((evaluator 4).serve (.block loopThenReturn) default default).Ends
      (.error (.ret (.ofInt 1))) default _ := .done
  have hstmt : ((evaluator 4).serve (.stmt ⟨.unknown, .break⟩) default default).Ends
      (.error .brk) default _ := .done
  refine ⟨⟨_, _, hblock, not_escapes_loopThenReturn,
      ((hserve _ _ _ _ _ _ _ hblock).1 not_escapes_loopThenReturn).1⟩,
    ⟨_, _, hstmt, (hserve _ _ _ _ _ _ _ hstmt).2 (fun h => ?_) _⟩, ?_, ?_, ?_, ?_⟩
  · cases h with
    | part hp _ => cases hp
  · exact hcall 1 .nothing [] .unknown default default default default _ .done
  · exact hmethod 1 (.object (.host ⟨0⟩ "K" none Probe.names)) "explode" [] default default default
      default _ .done
  · exact hdeferred 0 ⟨.bare .nil, default⟩ default default default default _ .done
  · exact hprogram (Session.ofSetup {}) default [⟨.unknown, .throw (.bare (.str "no"))⟩] _ rfl

end TreeWalk
