/-
Watching an evaluation.

What an evaluator is asked for is a request.  The watched evaluator looks at each
request before it serves it, and ends with a fault where a condition does not
hold.  If it nevertheless does what the evaluator does, the condition holds of all
that is evaluated on the way.
-/
import TreeWalk.Proofs.Eval.Node

namespace TreeWalk

open Eval

/-- What can be evaluated: a tree, a block in the current scope or in one of its
own, or a call. -/
inductive Request where
  | expr (e : Expr)
  | stmt (s : Stmt)
  | block (body : Block)
  | innerBlock (body : Block)
  | call (v : Value) (args : List Value) (pos : Position)

namespace Evaluator

def serve (ev : Evaluator) : Request → Eval Value
  | .expr e => ev.expr e
  | .stmt s => ev.stmt s
  | .block body => ev.block body
  | .innerBlock body => ev.innerBlock body
  | .call v args pos => ev.call v args pos

end Evaluator

/-- A condition on the evaluations of nodes and calls, by the fuel that is left for
their parts. -/
abbrev Watch := Nat → Request → Fiber → Store → Prop

open Classical in
/-- Serves a request where a condition holds, and faults where it does not. -/
noncomputable def guardedBy (P : Prop) (x : Eval Value) : Eval Value :=
  if P then x else exit (.fault "refused")

/-- The evaluator that looks at each node and each call. -/
noncomputable def watched (P : Watch) : Nat → Evaluator
  | 0 => evaluator 0
  | fuel + 1 =>
    { expr := fun e f σ =>
        guardedBy (P fuel (.expr e) f σ) (Node.expr (watched P fuel) fuel e) f σ
      stmt := fun s f σ => guardedBy (P fuel (.stmt s) f σ) (Node.stmt (watched P fuel) s) f σ
      call := fun v args pos f σ =>
        guardedBy (P fuel (.call v args pos) f σ) (Call.value (watched P fuel) fuel v args pos) f σ }

theorem guardedBy_of_holds {P : Prop} (h : P) (x : Eval Value) : guardedBy P x = x := if_pos h

namespace Request

/-- Whether `break` or `continue` may leave the request. -/
def Escapes : Request → Prop
  | expr e => (Tree.expr e).Escapes
  | stmt s => (Tree.stmt s).Escapes
  | block body => ∃ s ∈ body, (Tree.stmt s).Escapes
  | innerBlock body => ∃ s ∈ body, (Tree.stmt s).Escapes
  | call _ _ _ => False

/-- Whether `return` may leave the request. -/
def Returns : Request → Prop
  | expr e => (Tree.expr e).Returns
  | stmt s => (Tree.stmt s).Returns
  | block body => ∃ s ∈ body, (Tree.stmt s).Returns
  | innerBlock body => ∃ s ∈ body, (Tree.stmt s).Returns
  | call _ _ _ => False

/-- Whether a call may be put off on the way. -/
def PutsOff (q : Request) (c : Expr) : Prop :=
  match q with
  | expr e => (Tree.expr e).PutsOff c
  | stmt s => (Tree.stmt s).PutsOff c
  | block body => ∃ s ∈ body, (Tree.stmt s).PutsOff c
  | innerBlock body => ∃ s ∈ body, (Tree.stmt s).PutsOff c
  | call _ _ _ => False

def ways (q : Request) : Ways := ⟨True, q.Returns, q.Escapes, True, q.PutsOff⟩

/-- Whether the request may bind names in the scope where it is served. -/
def binds : Request → Bool
  | expr _ | stmt _ | block _ => true
  | innerBlock _ | call _ _ _ => false

/-- The values that the request brings along are within. -/
def Within (p : ScopeId → Prop) : Request → Prop
  | call v args _ => v.Within p ∧ Value.ListWithin p args
  | _ => True

theorem within_of_forall {p : ScopeId → Prop} (h : ∀ s, p s) (q : Request) : q.Within p := by
  cases q with
  | call v args pos =>
    exact ⟨Value.within_of_forall h v, fun v _ => Value.within_of_forall h v⟩
  | _ => trivial

end Request

namespace Discipline

variable {D : Discipline} {ev ev' : Evaluator} {here : Site} {σ σ₀ : Store}

/-- Every request is served alike. -/
theorem Sound.runs_serve (hev : D.Sound ev ev') {q : Request} (hq : q.Within (D.At σ)) :
    D.Runs q.binds q.ways D.Holds here σ₀ σ (ev.serve q) (ev'.serve q) := by
  cases q with
  | expr e => exact hev.runs_expr (Ways.le_refl _)
  | stmt s => exact hev.runs_stmt (Ways.le_refl _)
  | block body => exact hev.runs_block fun s hs => ⟨id, fun h => ⟨s, hs, h⟩, fun h => ⟨s, hs, h⟩, id, fun _ h => ⟨s, hs, h⟩⟩
  | innerBlock body =>
    exact hev.runs_innerBlock fun s hs => ⟨id, fun h => ⟨s, hs, h⟩, fun h => ⟨s, hs, h⟩, id, fun _ h => ⟨s, hs, h⟩⟩
  | call v args pos => exact hev.runs_call hq.1 hq.2 ⟨id, False.elim, False.elim, id, fun _ => id⟩

/-- Watching changes nothing if the condition holds wherever the store fits. -/
theorem sound_watched (hD : D.Lawful) {P : Watch}
    (hP : ∀ fuel q f σ, D.fit false f.site σ σ → q.Within (D.At σ) → P fuel q f σ) (fuel : Nat) :
    D.Sound (evaluator fuel) (watched P fuel) := by
  induction fuel with
  | zero => exact sound_evaluator hD 0
  | succ fuel ih =>
    refine ⟨hD, fun e here σ hfit f hf _ => ?_, fun s here σ hfit f hf _ => ?_,
      fun v args pos here σ hv hargs hfit f hf _ => ?_⟩
    · have holds := hP fuel (.expr e) f σ (hf ▸ hD.restart hfit) trivial
      rw [evaluator_expr]
      show Step.Alike _ _ _ _ _ (guardedBy (P fuel (.expr e) f σ) _ f σ)
      rw [guardedBy_of_holds holds]
      exact ih.runs_exprNode e hfit f hf
    · have holds := hP fuel (.stmt s) f σ (hf ▸ hD.restart hfit) trivial
      rw [evaluator_stmt]
      show Step.Alike _ _ _ _ _ (guardedBy (P fuel (.stmt s) f σ) _ f σ)
      rw [guardedBy_of_holds holds]
      exact ih.runs_stmtNode s hfit f hf
    · have holds := hP fuel (.call v args pos) f σ (hf ▸ hD.restart hfit) ⟨hv, hargs⟩
      rw [evaluator_call]
      show Step.Alike _ _ _ _ _ (guardedBy (P fuel (.call v args pos) f σ) _ f σ)
      rw [guardedBy_of_holds holds]
      exact ih.runs_value hv hargs hfit f hf

end Discipline
end TreeWalk
