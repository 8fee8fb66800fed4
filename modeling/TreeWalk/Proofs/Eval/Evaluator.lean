/-
Evaluators that keep to a discipline.

Two evaluators are sound if each node and each call runs alike under both, from
every store that fits.  What is built from an evaluator then keeps to the
discipline as well.
-/
import TreeWalk.Eval.Evaluator
import TreeWalk.Proofs.Eval.Runs

namespace TreeWalk

theorem Tree.failing_le_ways (t : Tree) : Ways.failing ≤ t.ways :=
  ⟨id, False.elim, False.elim, id, fun _ => False.elim⟩

namespace Discipline

open Eval

structure Sound (D : Discipline) (ev ev' : Evaluator) : Prop where
  lawful : D.Lawful
  expr : ∀ (e : Expr) (here : Site) (σ : Store),
    D.Runs true (Tree.expr e).ways D.Holds here σ σ (ev.expr e) (ev'.expr e)
  stmt : ∀ (s : Stmt) (here : Site) (σ : Store),
    D.Runs true (Tree.stmt s).ways D.Holds here σ σ (ev.stmt s) (ev'.stmt s)
  /-- A call binds no names in the scope it is made from, and only errors leave
  it. -/
  call : ∀ (v : Value) (args : List Value) (pos : Position) (here : Site) (σ : Store),
    D.Holds σ v → D.HoldsAll σ args →
    D.Runs false .failing D.Holds here σ σ (ev.call v args pos) (ev'.call v args pos)

namespace Sound

variable {D : Discipline} {ev ev' : Evaluator} {b : Bool} {w : Ways} {here : Site} {σ₀ σ : Store}
  (hev : D.Sound ev ev')
include hev

theorem runs_expr {e : Expr} (hw : (Tree.expr e).ways ≤ w) :
    D.Runs true w D.Holds here σ₀ σ (ev.expr e) (ev'.expr e) :=
  (hev.lawful.runs_restart (hev.expr e here σ)).weaken hw

theorem runs_stmt {s : Stmt} (hw : (Tree.stmt s).ways ≤ w) :
    D.Runs true w D.Holds here σ₀ σ (ev.stmt s) (ev'.stmt s) :=
  (hev.lawful.runs_restart (hev.stmt s here σ)).weaken hw

theorem runs_call {v : Value} {args : List Value} {pos : Position} (hv : D.Holds σ v)
    (hargs : D.HoldsAll σ args) (hw : .failing ≤ w) :
    D.Runs b w D.Holds here σ₀ σ (ev.call v args pos) (ev'.call v args pos) :=
  (hev.lawful.runs_open (hev.call v args pos here σ hv hargs)).weaken hw

theorem runs_callBack {v : Value} {args : List Value} (hv : D.Holds σ v)
    (hargs : D.HoldsAll σ args) (hw : .failing ≤ w) :
    D.Runs b w D.Holds here σ₀ σ (ev.callBack v args) (ev'.callBack v args) :=
  .position fun _ => hev.runs_call hv hargs hw

theorem runs_exprs {items : List Expr} (hw : ∀ e ∈ items, (Tree.expr e).ways ≤ w) :
    D.Runs true w D.HoldsAll here σ₀ σ (ev.exprs items) (ev'.exprs items) :=
  .mapList (fun _ _ _ hlater hv => hlater.value hv) fun _ _ e he => hev.runs_expr (hw e he)

theorem runs_block {body : Block} (hw : ∀ s ∈ body, (Tree.stmt s).ways ≤ w) :
    D.Runs true w D.Holds here σ₀ σ (ev.block body) (ev'.block body) :=
  .foldList D.Holds (fun _ _ _ s hs _ => hev.runs_stmt (hw s hs)) trivial

theorem runs_innerBlock {body : Block} (hw : ∀ s ∈ body, (Tree.stmt s).ways ≤ w) :
    D.Runs b w D.Holds here σ₀ σ (ev.innerBlock body) (ev'.innerBlock body) :=
  hev.lawful.runs_withChildScope (hev.runs_block hw)

theorem runs_innerBlockOr {otherwise : Option Block} {v : Value}
    (hw : ∀ s ∈ otherwise.getD [], (Tree.stmt s).ways ≤ w) (hv : D.Holds σ v) :
    D.Runs b w D.Holds here σ₀ σ (ev.innerBlockOr otherwise v) (ev'.innerBlockOr otherwise v) := by
  cases otherwise with
  | some body => exact hev.runs_innerBlock hw
  | none => exact .pure hv

theorem runs_test {cond : Expr} (hw : (Tree.expr cond).ways ≤ w) :
    D.Runs true w Any here σ₀ σ (ev.test cond) (ev'.test cond) :=
  (hev.runs_expr hw).bind fun _ _ _ _ => .read' trivial

end Sound
end Discipline
end TreeWalk
