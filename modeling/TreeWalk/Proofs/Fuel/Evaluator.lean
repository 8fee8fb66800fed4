/-
More fuel makes no difference to what does not run out of it.

Loops, blocks and calls go the same way with parts that get lost, and with less fuel of
their own if running out of it counts as getting lost.  None of them goes on after that:
`try`, the calls that a function put off, and a unit that is included all let it pass.
The evaluator follows by induction.
-/
import TreeWalk.Proofs.Eval.Node
import TreeWalk.Proofs.Fuel.Expression

namespace TreeWalk

open Eval

variable {lost : Exit → Prop} {ev ev' : Evaluator} {pos : Position} {n m : Nat}

/-- Loops over the same whose turns concur. -/
theorem Eval.Concur.overElements {β : Type} {left right : Exit → Prop} {iterable : Expr}
    (hfuel : Concur.Fuels left right n m) (names : LoopNames)
    (hiterable : Concur left right (ev.expr iterable) (ev'.expr iterable)) (start : β)
    {step step' : Bool → β → Element → Eval (β ⊕ β)}
    (hstep : ∀ bindsKey b e, Concur left right (step bindsKey b e) (step' bindsKey b e)) :
    Concur left right (Loop.overElements ev n names iterable pos start step)
      (Loop.overElements ev' m names iterable pos start step') := by
  refine .bind hiterable fun v => .after fun source => ?_
  refine Concur.iterate hfuel (fun (index, elements, b) => .after fun next? => ?_) _
  cases next? with
  | none => exact .refl _
  | some next =>
    exact (Concur.withChildScope (.after fun _ => hstep source.bindsKey b next.1)).before _

namespace Evaluator.Cut

variable (hev : ev.Cut lost ev')
include hev

/-! ## Loops -/

theorem whileLoop (hfuel : Cut.Fuels lost n m) (cond : Expr) (body : Block) :
    Eval.Cut lost (Loop.whileLoop ev n cond body) (Loop.whileLoop ev' m cond body) := by
  refine .iterate (fun _ => .bind (hev.test cond) fun holds => ?_) hfuel ()
  split
  · exact (hev.attempt (hev.innerBlock body)).before _
  · exact .refl _

theorem forever (hfuel : Cut.Fuels lost n m) (body : Block) :
    Eval.Cut lost (Loop.forever ev n body) (Loop.forever ev' m body) :=
  .iterate (fun _ => (hev.attempt (hev.innerBlock body)).before _) hfuel ()

theorem forLoop (hfuel : Cut.Fuels lost n m) (init : Option Stmt) (cond update : Option Expr)
    (body : Block) :
    Eval.Cut lost (Loop.forLoop ev n init cond update body)
      (Loop.forLoop ev' m init cond update body) := by
  refine Concur.withChildScope ?_
  cases init
  case' some s => refine .bind (hev.stmt s) fun _ => ?_
  all_goals
    refine Eval.Cut.iterate (fun _ => .bind (hev.passes cond) fun holds => ?_) hfuel ()
    split
    · refine .bind (hev.attempt (hev.innerBlock body)) fun r => .after fun goes => ?_
      split
      · cases update with
        | none => exact .refl _
        | some e => exact (hev.expr e).before _
      · exact .refl _
    · exact .refl _

theorem overElements {β : Type} (hfuel : Cut.Fuels lost n m) (names : LoopNames) (iterable : Expr) (start : β)
    {step step' : Bool → β → Element → Eval (β ⊕ β)}
    (hstep : ∀ bindsKey b e, Eval.Cut lost (step bindsKey b e) (step' bindsKey b e)) :
    Eval.Cut lost (Loop.overElements ev n names iterable pos start step)
      (Loop.overElements ev' m names iterable pos start step') :=
  .overElements hfuel names (hev.expr iterable) start hstep

theorem forEach (hfuel : Cut.Fuels lost n m) (names : LoopNames) (iterable : Expr) (filter : Option Expr)
    (body : Block) : Eval.Cut lost (Loop.forEach ev n names iterable filter body pos)
      (Loop.forEach ev' m names iterable filter body pos) := by
  refine (hev.overElements hfuel names iterable [] fun _ results _ => ?_).before _
  refine (hev.attempt ?_).before _
  refine .bind (hev.passes filter) fun holds => ?_
  split
  · exact (hev.block body).before _
  · exact .refl _

theorem arrayOf (hfuel : Cut.Fuels lost n m) (names : LoopNames) (iterable : Expr) (filter : Option Expr)
    (output : Expr) : Eval.Cut lost (Loop.arrayOf ev n names iterable filter output pos)
      (Loop.arrayOf ev' m names iterable filter output pos) := by
  refine (hev.overElements hfuel names iterable [] fun _ results _ => ?_).before _
  refine .bind (hev.passes filter) fun holds => ?_
  split
  · exact (hev.expr output).before _
  · exact .refl _

theorem hashOf (hfuel : Cut.Fuels lost n m) (names : LoopNames) (iterable : Expr) (filter : Option Expr)
    (outputKey outputValue : Expr) :
    Eval.Cut lost (Loop.hashOf ev n names iterable filter outputKey outputValue pos)
      (Loop.hashOf ev' m names iterable filter outputKey outputValue pos) := by
  refine (hev.overElements hfuel names iterable Dict.empty fun _ d _ => ?_).before _
  refine .bind (hev.passes filter) fun holds => ?_
  split
  · exact .bind (hev.expr outputKey) fun key => .after fun hash => (hev.expr outputValue).before _
  · exact .refl _

theorem grep (hfuel : Cut.Fuels lost n m) (name : String) (iterable cond : Expr) :
    Eval.Cut lost (Loop.grep ev n name iterable cond pos) (Loop.grep ev' m name iterable cond pos) :=
  (hev.overElements hfuel _ iterable [] fun _ _ _ => (hev.test cond).before _).before _

theorem map (hfuel : Cut.Fuels lost n m) (name : String) (iterable body : Expr) :
    Eval.Cut lost (Loop.map ev n name iterable body pos) (Loop.map ev' m name iterable body pos) :=
  (hev.overElements hfuel _ iterable [] fun _ _ _ => (hev.expr body).before _).before _

/-! ## Conditionals and errors -/

theorem conditional (otherwise : Option Block) (branches : List (Expr × Block)) :
    Eval.Cut lost (Control.conditional ev otherwise branches)
      (Control.conditional ev' otherwise branches) := by
  induction branches with
  | nil => exact hev.innerBlockOr otherwise .nothing
  | cons branch rest ih =>
    refine .bind (hev.test branch.1) fun holds => ?_
    split
    · exact hev.innerBlock branch.2
    · exact ih

theorem unlessThen (cond : Expr) (body : Block) (otherwise : Option Block) :
    Eval.Cut lost (Control.unlessThen ev cond body otherwise)
      (Control.unlessThen ev' cond body otherwise) := by
  refine .bind (hev.test cond) fun holds => ?_
  split
  · exact hev.innerBlockOr otherwise .nothing
  · exact hev.innerBlock body

theorem anyAgrees (mode : CaseMode) (subject : Value) (patterns : List Expr) :
    Eval.Cut lost (Control.anyAgrees ev mode subject pos patterns)
      (Control.anyAgrees ev' mode subject pos patterns) := by
  induction patterns with
  | nil => exact .refl _
  | cons pattern rest ih =>
    refine .bind (hev.expr pattern) fun candidate => .after fun agrees => ?_
    split
    · exact .refl _
    · exact ih

theorem caseOf (subject : Expr) (mode : CaseMode) (arms : List (List Expr × Block))
    (otherwise : Option Block) : Eval.Cut lost (Control.caseOf ev subject mode arms otherwise pos)
      (Control.caseOf ev' subject mode arms otherwise pos) := by
  refine .bind (hev.expr subject) fun v => ?_
  induction arms with
  | nil => exact hev.innerBlockOr otherwise v
  | cons arm rest ih =>
    refine .bind (hev.anyAgrees mode v arm.1) fun holds => ?_
    split
    · exact hev.innerBlock arm.2
    · exact ih

theorem catchClauses (message : String) (result : Except Exit Value)
    (catches : List (CatchPattern × Block)) :
    Eval.Cut lost (Control.catchClauses ev message result catches)
      (Control.catchClauses ev' message result catches) := by
  induction catches with
  | nil => exact .refl _
  | cons clause rest ih =>
    refine .after fun f => .after fun accepted? => ?_
    cases accepted? with
    | none => exact ih
    | some name? =>
      refine hev.attempt (Concur.withChildScope (.after fun _ => ?_))
      cases name? with
      | none => exact hev.block clause.2
      | some name => exact .after fun _ => hev.block clause.2

theorem tryCatch (body : Block) (catches : List (CatchPattern × Block)) (cleanup : Option Block) :
    Eval.Cut lost (Control.tryCatch ev body catches cleanup)
      (Control.tryCatch ev' body catches cleanup) := by
  refine .bind (hev.attempt (hev.innerBlock body)) fun tried => ?_
  cases cleanup with
  | none =>
    cases Control.caughtMessage? tried with
    | none => exact .refl _
    | some message => exact (hev.catchClauses message tried catches).before _
  | some block =>
    cases Control.caughtMessage? tried
    case' some message => refine .bind (hev.catchClauses message tried catches) fun _ => ?_
    all_goals exact (hev.attempt (hev.innerBlock block)).before _

theorem throwValue (value : Expr) :
    Eval.Cut lost (Control.throwValue ev value pos) (Control.throwValue ev' value pos) :=
  (hev.expr value).before _

theorem pipe (left right : Expr) :
    Eval.Cut lost (Control.pipe ev left right pos) (Control.pipe ev' left right pos) := by
  unfold Control.pipe
  split
  · refine .bind (hev.expr left) fun v => .after fun literal? => ?_
    cases literal? with
    | none => exact .refl _
    | some literal =>
      dsimp only
      split
      · exact hev.expr _
      · exact .refl _
  · exact .refl _

/-! ## Modules, structs and enums -/

theorem topLevel (program : Program) :
    Eval.Cut lost (Control.topLevel ev program) (Control.topLevel ev' program) :=
  (hev.attempt (hev.block program)).before _

theorem evaluateUnit (path : String) :
    Eval.Cut lost (Control.evaluateUnit ev path pos) (Control.evaluateUnit ev' path pos) := by
  refine .after fun program? => ?_
  cases program? with
  | none => exact .refl _
  | some program =>
    exact .after fun scope => .after fun f => (Concur.withFiber (hev.topLevel program)).before _

theorem includeWith (path : String) (cyclic : Exit) :
    CutResult lost (ModuleCache.includeWith path cyclic (protect (Control.evaluateUnit ev path pos)))
      (ModuleCache.includeWith path cyclic (protect (Control.evaluateUnit ev' path pos))) := by
  refine .after fun cache => ?_
  split
  · exact .refl _
  · split
    · exact .refl _
    · refine .after fun _ => ?_
      exact (CutResult.protect (hev.evaluateUnit path)).pass (fun _ => .refl _)
        fun e f σ => ⟨_, _, rfl⟩

theorem includeUnit (path : String) :
    Eval.Cut lost (Control.includeUnit ev path pos) (Control.includeUnit ev' path pos) := by
  refine .after fun programs => ?_
  split
  · refine .after fun f => .after fun _ => ?_
    exact (hev.includeWith path _).settle (fun _ => .refl _) fun e f σ => ⟨_, _, rfl⟩
  · exact .refl _

theorem structOf (body : Block) :
    Eval.Cut lost (Control.structOf ev body) (Control.structOf ev' body) :=
  .after fun _ => .after fun _ => (Concur.withScope (hev.block body)).before _

theorem variantValues (implicit : Int64) (variants : List (String × Option Expr)) :
    Eval.Cut lost (Control.variantValues ev implicit variants)
      (Control.variantValues ev' implicit variants) := by
  induction variants generalizing implicit with
  | nil => exact .refl _
  | cons variant rest ih =>
    obtain ⟨name, explicit⟩ := variant
    cases explicit with
    | none => exact .after fun v => (ih _).before _
    | some e => exact .bind (hev.expr e) fun v => (ih _).before _

theorem enumOf (variants : List (String × Option Expr)) :
    Eval.Cut lost (Control.enumOf ev variants) (Control.enumOf ev' variants) :=
  (hev.variantValues 0 variants).before _

/-! ## Calls -/

theorem bindFixed (params : List Param) (args : List Value) :
    Eval.Cut lost (Call.bindFixed ev params args) (Call.bindFixed ev' params args) := by
  induction params generalizing args with
  | nil => cases args <;> exact .refl _
  | cons p params ih =>
    cases args with
    | cons a args => exact .after fun _ => ih args
    | nil =>
      rw [Call.bindFixed, Call.bindFixed]
      cases p.default with
      | none => exact .after fun v => .after fun _ => ih []
      | some e => exact .bind (hev.expr e) fun v => .after fun _ => ih []

theorem bindParameters (lit : FunctionLit) (args : List Value) :
    Eval.Cut lost (Call.bindParameters ev lit args) (Call.bindParameters ev' lit args) :=
  (hev.bindFixed lit.fixedParams args).before _

theorem runDeferred (hfuel : Cut.Fuels lost n m) (frame : FrameId) :
    Eval.Cut lost (Call.runDeferred ev n frame) (Call.runDeferred ev' m frame) := by
  refine .iterate (fun _ => .after fun calls => ?_) hfuel ()
  cases calls with
  | nil => exact .refl _
  | cons d rest =>
    refine (Concur.foldList (fun _ d => ?_) (d :: rest) ()).before _
    exact (hev.attempt (Concur.withScope (hev.expr d.call))).before _

theorem activate (hfuel : Cut.Fuels lost n m) (lit : FunctionLit) (args : List Value) (frame : FrameId) :
    Eval.Cut lost (Call.activate ev n lit args frame) (Call.activate ev' m lit args frame) := by
  refine .bind (hev.attempt ?_) fun result => (hev.runDeferred hfuel frame).before _
  exact .bind (hev.bindParameters lit args) fun _ => hev.block lit.body

theorem value (hfuel : Cut.Fuels lost n m) (v : Value) (args : List Value) :
    Eval.Cut lost (Call.value ev n v args pos) (Call.value ev' m v args pos) := by
  cases v with
  | function f =>
    unfold Call.value Call.invoke
    dsimp only
    split
    · refine .after fun frame => .after fun _ => .after fun scope => ?_
      exact (Concur.withScope (hev.activate hfuel f.lit args frame.id)).before _
    · exact .refl _
  | _ => exact .refl _

/-! ## Nodes -/

theorem returnValues (values : List Expr) :
    Eval.Cut lost (Node.returnValues ev values) (Node.returnValues ev' values) := by
  match values with
  | [] => exact .refl _
  | [single] => exact (hev.expr single).before _
  | first :: second :: rest => exact (hev.exprs (first :: second :: rest)).before _

theorem exprNode (hfuel : Cut.Fuels lost n m) (e : Expr) :
    Eval.Cut lost (Node.expr ev n e) (Node.expr ev' m e) := by
  refine .after fun pos => ?_
  cases e.form with
  | ident | int | float | str | bool | nil | function => exact .refl _
  | interpolated parts => exact hev.interpolated parts
  | array items => exact (hev.exprs items).before _
  | hash entries => exact hev.hashLiteral entries
  | tuple items => exact (hev.exprs items).before _
  | range start stop => exact .bind (hev.expr start) fun _ => (hev.expr stop).before _
  | struct body => exact hev.structOf body
  | enum variants => exact hev.enumOf variants
  | prefixed op operand => exact (hev.expr operand).before _
  | infixed op left right => exact hev.infixed op left right
  | postfixed op target => exact hev.step op target
  | assign op target value => exact hev.assign op target value
  | ternary cond yes no =>
    refine .bind (hev.test cond) fun holds => ?_
    split
    · exact hev.expr yes
    · exact hev.expr no
  | pipe left right => exact hev.pipe left right
  | call callee args => exact hev.callNode callee args
  | method receiver name args => exact hev.method receiver name args
  | member object name => exact hev.member object name
  | index object key => exact .bind (hev.expr object) fun _ => (hev.expr key).before _
  | slice object start stop => exact hev.slice object start stop
  | conditional branches otherwise => exact hev.conditional otherwise branches
  | unlessThen cond body otherwise => exact hev.unlessThen cond body otherwise
  | whileLoop cond body => exact hev.whileLoop hfuel cond body
  | forever body => exact hev.forever hfuel body
  | forLoop init cond update body => exact hev.forLoop hfuel init cond update body
  | forEach key value iterable filter body => exact hev.forEach hfuel _ iterable filter body
  | arrayOf key value iterable filter output => exact hev.arrayOf hfuel _ iterable filter output
  | hashOf key value iterable filter outputKey outputValue =>
    exact hev.hashOf hfuel _ iterable filter outputKey outputValue
  | grep name iterable cond => exact hev.grep hfuel name iterable cond
  | map name iterable body => exact hev.map hfuel name iterable body
  | caseOf subject mode arms otherwise => exact hev.caseOf subject mode arms otherwise
  | tryCatch body catches cleanup => exact hev.tryCatch body catches cleanup
  | «include» path => exact hev.includeUnit path

theorem stmtNode (s : Stmt) : Eval.Cut lost (Node.stmt ev s) (Node.stmt ev' s) := by
  refine .after fun pos => ?_
  cases s.form with
  | bind names values => exact hev.define names values
  | ret values => exact hev.returnValues values
  | expr e => exact hev.expr e
  | throw value => exact hev.throwValue value
  | block body => exact hev.innerBlock body
  | _ => exact .refl _

end Evaluator.Cut

/-- With more fuel the evaluator does the same, up to where less fuel runs out. -/
theorem cut_evaluator {n m : Nat} (hle : n ≤ m) :
    (evaluator n).Cut (· = .exhausted) (evaluator m) := by
  have haborts : ∀ e : Exit, e = .exhausted → e.isAbort = true := by
    rintro e rfl
    rfl
  induction n generalizing m with
  | zero =>
    exact ⟨haborts, fun _ => .exit_left rfl, fun _ => .exit_left rfl, fun _ _ _ => .exit_left rfl⟩
  | succ n ih =>
    obtain ⟨m, rfl⟩ := Nat.exists_eq_add_of_le' (Nat.lt_of_lt_of_le n.succ_pos hle)
    have hpart := Nat.le_of_succ_le_succ hle
    refine ⟨haborts, fun e => ?_, fun s => ?_, fun v args pos => ?_⟩
    · rw [evaluator_expr, evaluator_expr]
      exact (ih hpart).exprNode (Cut.fuels hpart) e
    · rw [evaluator_stmt, evaluator_stmt]
      exact (ih hpart).stmtNode s
    · rw [evaluator_call, evaluator_call]
      exact (ih hpart).value (Cut.fuels hpart) v args

end TreeWalk
