/-
Expressions and methods whose parts get lost.

Whatever a construct makes of its parts, with parts that get lost it goes the same way
until one of them does.
-/
import TreeWalk.Eval.Node
import TreeWalk.Proofs.Fuel.Concurrence

namespace TreeWalk

open Eval

/-- The first evaluator goes as the second does until it gets lost, which nothing
catches. -/
structure Evaluator.Cut (lost : Exit → Prop) (ev ev' : Evaluator) : Prop where
  aborts : ∀ e, lost e → e.isAbort = true
  expr : ∀ e, Eval.Cut lost (ev.expr e) (ev'.expr e)
  stmt : ∀ s, Eval.Cut lost (ev.stmt s) (ev'.stmt s)
  call : ∀ v args pos, Eval.Cut lost (ev.call v args pos) (ev'.call v args pos)

namespace Evaluator.Cut

variable {lost : Exit → Prop} {ev ev' : Evaluator} {pos : Position} {n m : Nat}
  (hev : ev.Cut lost ev')
include hev

/-! ## Parts -/

theorem attempt {α : Type} {x y : Eval α} (h : Eval.Cut lost x y) :
    Eval.Cut lost (Eval.attempt x) (Eval.attempt y) := Eval.Cut.attempt hev.aborts h

theorem exprs (items : List Expr) : Eval.Cut lost (ev.exprs items) (ev'.exprs items) :=
  .mapList hev.expr items

theorem block (body : Block) : Eval.Cut lost (ev.block body) (ev'.block body) :=
  .foldList (fun _ s => hev.stmt s) body .nothing

theorem innerBlock (body : Block) : Eval.Cut lost (ev.innerBlock body) (ev'.innerBlock body) :=
  (hev.block body).withChildScope

theorem innerBlockOr (otherwise : Option Block) (v : Value) :
    Eval.Cut lost (ev.innerBlockOr otherwise v) (ev'.innerBlockOr otherwise v) := by
  cases otherwise with
  | some body => exact hev.innerBlock body
  | none => exact .refl _

theorem test (cond : Expr) : Eval.Cut lost (ev.test cond) (ev'.test cond) := (hev.expr cond).before _

theorem callBack (f : Value) (args : List Value) :
    Eval.Cut lost (ev.callBack f args) (ev'.callBack f args) := .after fun pos => hev.call f args pos

theorem passes (cond : Option Expr) : Eval.Cut lost (Loop.passes ev cond) (Loop.passes ev' cond) := by
  cases cond with
  | some e => exact hev.test e
  | none => exact .refl _

/-! ## Expressions -/

theorem interpolated (parts : List TextPart) :
    Eval.Cut lost (Node.interpolated ev parts) (Node.interpolated ev' parts) := by
  refine (Concur.mapList (fun part => ?_) parts).before _
  cases part with
  | text s => exact .refl _
  | hole e => exact (hev.expr e).before _

theorem hashLiteral (entries : List (Expr × Expr)) :
    Eval.Cut lost (Node.hashLiteral ev entries) (Node.hashLiteral ev' entries) := by
  refine (Concur.foldList (fun d entry => ?_) entries Dict.empty).before _
  refine .bind (hev.expr entry.1) fun key => .after fun pos => .after fun hash => ?_
  exact (hev.expr entry.2).before _

theorem infixed (op : InfixOp) (left right : Expr) :
    Eval.Cut lost (Node.infixed ev op left right pos) (Node.infixed ev' op left right pos) := by
  refine .bind (hev.expr left) fun a => .after fun truth => ?_
  split
  · exact .refl _
  · split
    · exact .refl _
    · exact (hev.expr right).before _

theorem callNode (callee : Expr) (args : List Expr) :
    Eval.Cut lost (Node.call ev callee args pos) (Node.call ev' callee args pos) := by
  have hcall : ∀ f, Eval.Cut lost (do ev.call f (← ev.exprs args) pos)
      (do ev'.call f (← ev'.exprs args) pos) := fun f =>
    .bind (hev.exprs args) fun values => hev.call f values pos
  unfold Node.call
  dsimp only
  split
  · exact .after hcall
  · exact .bind (hev.expr callee) hcall

theorem publishedCall (v : Value) (args : List Value) :
    Eval.Cut lost (Node.callPublished ev v args pos) (Node.callPublished ev' v args pos) := by
  unfold Node.callPublished
  split
  · exact hev.call v args pos
  · exact .refl _

theorem member (object : Expr) (name : String) :
    Eval.Cut lost (Node.member ev object name pos) (Node.member ev' object name pos) := by
  refine .after fun v? => ?_
  cases v? with
  | some v => exact .refl _
  | none => exact (hev.expr object).before _

theorem bound (v : Value) (given : Option Expr) :
    Eval.Cut lost (Node.bound ev v given pos) (Node.bound ev' v given pos) := by
  cases given with
  | some e => exact (hev.expr e).before _
  | none => exact .refl _

theorem slice (object : Expr) (start stop : Option Expr) :
    Eval.Cut lost (Node.slice ev object start stop pos) (Node.slice ev' object start stop pos) :=
  .bind (hev.expr object) fun v => .bind (hev.bound v start) fun _ => (hev.bound v stop).before _

/-! ## Bindings and assignments -/

theorem define (names : List String) (values : List Expr) :
    Eval.Cut lost (Assign.define ev names values pos) (Assign.define ev' names values pos) := by
  unfold Assign.define
  split
  · exact (hev.exprs values).before _
  · split
    · next single _ => exact (hev.expr single).before _
    · exact .refl _

theorem resolve (target : Expr) :
    Eval.Cut lost (Assign.resolve ev target pos) (Assign.resolve ev' target pos) := by
  unfold Assign.resolve
  split
  · exact .refl _
  · next object key _ => exact .bind (hev.expr object) fun _ => (hev.expr key).before _
  · next object name _ => exact (hev.expr object).before _
  · exact .refl _
  · exact .refl _
  · exact .refl _

theorem assign (op : AssignOp) (target value : Expr) :
    Eval.Cut lost (Assign.assign ev op target value pos) (Assign.assign ev' op target value pos) := by
  refine .bind (hev.resolve target) fun place => ?_
  dsimp only
  split
  · exact (hev.expr value).before _
  · exact .after fun current => (hev.expr value).before _

theorem step (op : PostfixOp) (target : Expr) :
    Eval.Cut lost (Assign.step ev op target pos) (Assign.step ev' op target pos) :=
  (hev.resolve target).before _

/-! ## Methods that call back -/

theorem callEach (f : Value) (items : List Value) :
    Eval.Cut lost (Visit.callEach ev f items) (Visit.callEach ev' f items) :=
  .mapList (fun _ => hev.callBack f _) _

theorem keep (f : Value) (items : List Value) :
    Eval.Cut lost (Visit.keep ev f items) (Visit.keep ev' f items) :=
  (Concur.foldList (fun _ _ => (hev.callBack f _).before _) _ _).before _

theorem combine (f : Value) (items : List Value) (start : Value) :
    Eval.Cut lost (Visit.combine ev f items start) (Visit.combine ev' f items start) :=
  .foldList (fun _ _ => hev.callBack f _) items start

theorem onArray (id : ArrayId) (visit : ArrayVisit) (args : Args) :
    Eval.Cut lost (Visit.onArray ev id visit args) (Visit.onArray ev' id visit args) := by
  refine .after fun items => ?_
  cases visit with
  | map => exact .after fun f => (hev.callEach f _).before _
  | filter => exact .after fun f => (hev.keep f _).before _
  | each => exact .after fun f => (hev.callEach f _).before _
  | reduce =>
    refine .after fun (f, start?) => ?_
    dsimp only
    split
    · exact hev.combine _ _ _
    · exact hev.combine _ _ _
    · exact .refl _

theorem onHash (id : HashId) (visit : HashVisit) (args : Args) :
    Eval.Cut lost (Visit.onHash ev id visit args) (Visit.onHash ev' id visit args) := by
  refine .after fun entries => .after fun f => ?_
  cases visit with
  | filter => exact (Concur.foldList (fun _ e => (hev.callBack f _).before _) _ _).before _
  | map => exact (Concur.mapList (fun e => hev.callBack f _) _).before _

theorem onOnce (id : OnceId) (args : Args) :
    Eval.Cut lost (Object.onOnce ev id args) (Object.onOnce ev' id args) := by
  refine .after fun f => .after fun _ => .after fun once => ?_
  split
  · exact .refl _
  · refine .after fun _ => ?_
    exact (CutResult.protect (hev.callBack f [])).settle (fun _ => .refl _) fun e g σ => ⟨_, _, rfl⟩

theorem onHost (id : HostId) (code : HostCode) (known : List Value) :
    Eval.Cut lost (Object.onHost ev id code known) (Object.onHost ev' id code known) := by
  induction code generalizing known with
  | answer v => exact .refl _
  | raise e => exact .refl _
  | panic message => exact .refl _
  | array items next ih => exact .after fun _ => ih _
  | call f args next ih =>
    rw [Object.onHost, Object.onHost]
    refine (hev.attempt (hev.callBack _ _)).bind fun r => ?_
    split
    · exact ih _ _
    · exact ih _ _
    · exact .refl _
  | print text next ih => exact .after fun _ => .after fun _ => ih _
  | fetch next ih => exact .after fun _ => ih _ _
  | note text next ih => exact .after fun _ => ih _

omit hev in
theorem dispatch {μ : Type} [MethodTable μ] {kind : String} {args : Args}
    {run run' : μ → Eval Value} (h : ∀ method, Eval.Cut lost (run method) (run' method)) :
    Eval.Cut lost (Object.dispatch kind args run) (Object.dispatch kind args run') := by
  unfold Object.dispatch
  split
  · exact h _
  · exact .refl _

theorem object (o : ObjectRef) (args : Args) :
    Eval.Cut lost (Object.call ev o args) (Object.call ev' o args) := by
  cases o with
  | waitGroup | mutex | rwMutex | cond => exact .refl _
  | once id => exact dispatch fun _ => hev.onOnce id args
  | host id kind key methods => exact .after fun _ => hev.onHost id _ _

theorem onFunction (f : Value) (args : Args) :
    Eval.Cut lost (Method.onFunction ev f args) (Method.onFunction ev' f args) := by
  unfold Method.onFunction
  split
  · exact hev.callBack _ _
  all_goals exact .refl _

theorem onMembers (v : Value) (scope : ScopeId) (args : Args) :
    Eval.Cut lost (Method.onMembers ev v scope args) (Method.onMembers ev' v scope args) := by
  refine .after fun member? => ?_
  split
  · split
    · exact hev.callBack _ _
    · exact .refl _
  · exact .refl _

theorem methodCall (v : Value) (name : String) (values : List Value) :
    Eval.Cut lost (Method.call ev v name values) (Method.call ev' v name values) := by
  refine .after fun pos => ?_
  cases v with
  | array id =>
    refine dispatch fun method => ?_
    cases method with
    | act => exact .refl _
    | visit method => exact hev.onArray id method _
  | hash id =>
    refine dispatch fun method => ?_
    cases method with
    | act => exact .refl _
    | visit method => exact hev.onHash id method _
  | function f => exact hev.onFunction (.function f) _
  | native f => exact hev.onFunction (.native f) _
  | struct scope methods => exact hev.onMembers (.struct scope methods) scope _
  | enum scope variants => exact hev.onMembers (.enum scope variants) scope _
  | module m => exact hev.onMembers (.module m) m.scope _
  | object o => exact hev.object o _
  | _ => exact .refl _

theorem method (receiver : Expr) (name : String) (args : List Expr) :
    Eval.Cut lost (Node.method ev receiver name args pos) (Node.method ev' receiver name args pos) := by
  refine .after fun v? => ?_
  cases v? with
  | some v => exact .bind (hev.exprs args) fun values => hev.publishedCall v values
  | none =>
    refine .bind (hev.expr receiver) fun v => .bind (hev.exprs args) fun values => ?_
    exact .after fun _ => hev.methodCall v name values

end Evaluator.Cut
end TreeWalk
