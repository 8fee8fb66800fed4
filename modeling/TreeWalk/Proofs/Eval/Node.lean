/-
Expressions and statements keep to a discipline, and so does the evaluator.

Nodes are taken by their form; each form is a construct whose parts are among the
parts of the node.  The evaluator follows by induction on its fuel.
-/
import TreeWalk.Eval.Node
import TreeWalk.Proofs.Eval.Assign
import TreeWalk.Proofs.Eval.Call
import TreeWalk.Proofs.Eval.Control
import TreeWalk.Proofs.Eval.Loop
import TreeWalk.Proofs.Eval.Method

namespace TreeWalk

open Eval Value

/-! The machine stack is left out of the equations for the evaluator. -/

theorem evaluator_expr (fuel : Nat) (e : Expr) :
    (evaluator (fuel + 1)).expr e = Node.expr (evaluator fuel) fuel e :=
  MachineStack.within_eq fuel _

theorem evaluator_stmt (fuel : Nat) (s : Stmt) :
    (evaluator (fuel + 1)).stmt s = Node.stmt (evaluator fuel) s := MachineStack.within_eq fuel _

theorem evaluator_call (fuel : Nat) (v : Value) (args : List Value) (pos : Position) :
    (evaluator (fuel + 1)).call v args pos = Call.value (evaluator fuel) fuel v args pos :=
  MachineStack.within_eq fuel _

namespace Discipline

variable {D : Discipline} {ev ev' : Evaluator} {b : Bool} {w : Ways} {here : Site} {σ₀ σ : Store}
  {pos : Position}

namespace Lawful

variable (hD : D.Lawful)
include hD

theorem runs_lookup {name : String} (hw : w.fail) :
    D.Runs b w D.Holds here σ₀ σ (Node.lookup name pos) (Node.lookup name pos) :=
  .fiber fun _ _ => hD.runs_liftValue Access.sound_lookup hw

theorem runs_functionLiteral {lit : FunctionLit} :
    D.Runs b w D.Holds here σ₀ σ (Node.functionLiteral lit) (Node.functionLiteral lit) := by
  refine .intro fun hfit => .fiber fun f hf => hD.runs_change fun _ => ⟨Store.quiet_of_content rfl, ?_⟩
  obtain rfl := hf
  exact ⟨hD.inside hfit, trivial⟩

theorem runs_published {object : Expr} {name : String} :
    D.Runs b w (fun τ v? => ∀ v, v? = some v → D.Holds τ v) here σ₀ σ (Node.published object name)
      (Node.published object name) := by
  unfold Node.published
  split
  · exact .intro fun hfit => .read' fun v hv => (hD.closed hfit).registry _ v hv
  · exact .pure fun v hv => nomatch hv

end Lawful

namespace Sound

variable (hev : D.Sound ev ev')
include hev

theorem runs_interpolated {parts : List TextPart}
    (hparts : ∀ e, .hole e ∈ parts → (Tree.expr e).ways ≤ w) :
    D.Runs true w D.Holds here σ₀ σ (Node.interpolated ev parts) (Node.interpolated ev' parts) := by
  have texts : D.Runs true w (fun _ texts => ∀ t ∈ texts, True) here σ₀ σ
      (mapList (Node.partText ev) parts) (mapList (Node.partText ev') parts) := by
    refine .mapList (fun _ _ _ _ h => h) fun τ _ part hpart => ?_
    cases part with
    | text s => exact .pure trivial
    | hole e => exact (hev.runs_expr (hparts e hpart)).bind fun _ _ _ _ => .read' trivial
  exact texts.bind fun _ _ _ _ => .pure trivial

theorem runs_hashLiteral {entries : List (Expr × Expr)} (hw : .failing ≤ w)
    (hkeys : ∀ entry ∈ entries, (Tree.expr entry.1).ways ≤ w)
    (hvalues : ∀ entry ∈ entries, (Tree.expr entry.2).ways ≤ w) :
    D.Runs true w D.Holds here σ₀ σ (Node.hashLiteral ev entries)
      (Node.hashLiteral ev' entries) := by
  refine (Runs.foldList D.HoldsDict (fun τ d _ entry hentry hd => ?_)
    holdsDict_empty).bind fun d _ _ hd => hev.lawful.runs_newDict hd
  refine (hev.runs_expr (hkeys entry hentry)).bind fun key τ₁ hlater₁ hkey => .position fun _ => ?_
  refine (hev.lawful.runs_lift Atomic.sound_keyOf (hw.fail trivial)).bind
    fun hash τ₂ hlater₂ hhash => ?_
  refine (hev.runs_expr (hvalues entry hentry)).bind fun v τ₃ hlater₃ hv => .pure ?_
  exact (hd.later (hlater₁.trans (hlater₂.trans hlater₃))).insert hhash
    ((hlater₂.trans hlater₃).value hkey) hv

theorem runs_rangeLiteral {start stop : Expr} (hw : .failing ≤ w)
    (hstart : (Tree.expr start).ways ≤ w) (hstop : (Tree.expr stop).ways ≤ w) :
    D.Runs true w D.Holds here σ₀ σ (Node.rangeLiteral ev start stop pos)
      (Node.rangeLiteral ev' start stop pos) := by
  refine (hev.runs_expr hstart).bind fun a _ _ _ => (hev.runs_expr hstop).bind fun c _ _ _ => ?_
  split
  · exact .pure trivial
  · exact .fail (hw.fail trivial)

theorem runs_infixed {op : InfixOp} {left right : Expr} (hw : .failing ≤ w)
    (hleft : (Tree.expr left).ways ≤ w) (hright : (Tree.expr right).ways ≤ w) :
    D.Runs true w D.Holds here σ₀ σ (Node.infixed ev op left right pos)
      (Node.infixed ev' op left right pos) := by
  refine (hev.runs_expr hleft).bind fun a τ _ ha => .read ?_
  split
  · exact .pure trivial
  · split
    · exact .pure trivial
    · refine (hev.runs_expr hright).bind fun c τ' hlater hc => ?_
      exact hev.lawful.runs_liftValue (Operator.sound_binary (hlater.value ha) hc) (hw.fail trivial)

theorem runs_prefixed {op : PrefixOp} {operand : Expr} (hw : .failing ≤ w)
    (hoperand : (Tree.expr operand).ways ≤ w) :
    D.Runs true w D.Holds here σ₀ σ (Node.prefixed ev op operand pos)
      (Node.prefixed ev' op operand pos) :=
  (hev.runs_expr hoperand).bind fun _ _ _ hv =>
    hev.lawful.runs_liftValue (Operator.sound_unary hv) (hw.fail trivial)

theorem runs_callNode {callee : Expr} {args : List Expr} (hw : .failing ≤ w)
    (hcallee : (Tree.expr callee).ways ≤ w) (hargs : ∀ e ∈ args, (Tree.expr e).ways ≤ w) :
    D.Runs true w D.Holds here σ₀ σ (Node.call ev callee args pos)
      (Node.call ev' callee args pos) := by
  have go : ∀ f τ, D.Holds τ f → D.Runs true w D.Holds here σ₀ τ
      (do ev.call f (← ev.exprs args) pos) (do ev'.call f (← ev'.exprs args) pos) := fun f τ hf =>
    (hev.runs_exprs hargs).bind fun vs _ hlater hvs => hev.runs_call (hlater.value hf) hvs hw
  unfold Node.call
  split
  · exact (hev.lawful.runs_lookup (hw.fail trivial)).bind fun f τ _ hf => go f τ hf
  · exact (hev.runs_expr hcallee).bind fun f τ _ hf => go f τ hf

theorem runs_methodNode {receiver : Expr} {name : String} {args : List Expr} (hw : .failing ≤ w)
    (hreceiver : (Tree.expr receiver).ways ≤ w) (hargs : ∀ e ∈ args, (Tree.expr e).ways ≤ w) :
    D.Runs true w D.Holds here σ₀ σ (Node.method ev receiver name args pos)
      (Node.method ev' receiver name args pos) := by
  refine hev.lawful.runs_published.bind fun v? τ _ hv => ?_
  split
  · next v =>
    refine (hev.runs_exprs hargs).bind fun vs τ' hlater hvs => ?_
    have hv' := hlater.value (hv v rfl)
    unfold Node.callPublished
    split
    · exact hev.runs_call hv' hvs hw
    · split
      · exact .pure hv'
      · exact .fail (hw.fail trivial)
  · refine (hev.runs_expr hreceiver).bind fun v τ₁ _ hv => ?_
    refine (hev.runs_exprs hargs).bind fun vs τ₂ hlater hvs => .enter fun _ => ?_
    exact hev.runs_method hw (hlater.value hv) hvs

theorem runs_memberNode {object : Expr} {name : String} (hw : .failing ≤ w)
    (hobject : (Tree.expr object).ways ≤ w) :
    D.Runs true w D.Holds here σ₀ σ (Node.member ev object name pos)
      (Node.member ev' object name pos) := by
  refine hev.lawful.runs_published.bind fun v? τ _ hv => ?_
  split
  · exact .pure (hv _ rfl)
  · exact (hev.runs_expr hobject).bind fun v _ _ _ =>
      hev.lawful.runs_liftValue Access.sound_member (hw.fail trivial)

theorem runs_indexNode {object key : Expr} (hw : .failing ≤ w)
    (hobject : (Tree.expr object).ways ≤ w) (hkey : (Tree.expr key).ways ≤ w) :
    D.Runs true w D.Holds here σ₀ σ (Node.index ev object key pos)
      (Node.index ev' object key pos) := by
  refine (hev.runs_expr hobject).bind fun v _ _ hv => ?_
  exact (hev.runs_expr hkey).bind fun _ _ hlater _ =>
    hev.lawful.runs_liftValue (Access.sound_index (hlater.value hv)) (hw.fail trivial)

theorem runs_bound {v : Value} {given : Option Expr} (hw : .failing ≤ w)
    (hgiven : ∀ e ∈ given, (Tree.expr e).ways ≤ w) :
    D.Runs true w Any here σ₀ σ (Node.bound ev v given pos) (Node.bound ev' v given pos) := by
  cases given with
  | none => exact .pure trivial
  | some e =>
    refine (hev.runs_expr (hgiven e rfl)).bind fun c _ _ _ => ?_
    exact (hev.lawful.runs_lift Access.sound_bound (hw.fail trivial)).bind fun _ _ _ _ =>
      .pure trivial

theorem runs_sliceNode {object : Expr} {start stop : Option Expr} (hw : .failing ≤ w)
    (hobject : (Tree.expr object).ways ≤ w) (hstart : ∀ e ∈ start, (Tree.expr e).ways ≤ w)
    (hstop : ∀ e ∈ stop, (Tree.expr e).ways ≤ w) :
    D.Runs true w D.Holds here σ₀ σ (Node.slice ev object start stop pos)
      (Node.slice ev' object start stop pos) := by
  refine (hev.runs_expr hobject).bind fun v _ _ hv => ?_
  refine (hev.runs_bound hw hstart).seq fun low _ hlater₁ => ?_
  refine (hev.runs_bound hw hstop).seq fun high _ hlater₂ => ?_
  exact hev.lawful.runs_liftValue (Access.sound_slice ((hlater₁.trans hlater₂).value hv))
    (hw.fail trivial)

/-! ## Nodes -/

/-- An expression leaves in the ways of its parts. -/
theorem runs_exprNode {fuel : Nat} (e : Expr) :
    D.Runs true (Tree.expr e).ways D.Holds here σ₀ σ (Node.expr ev fuel e)
      (Node.expr ev' fuel e) := by
  have hw := (Tree.expr e).failing_le_ways
  have part : ∀ x, .ofExpr x ∈ e.form.parts → (Tree.expr x).ways ≤ (Tree.expr e).ways := by
    intro x hx
    have hpart : Part.ofExpr x ∈ (Tree.expr e).parts := hx
    exact Tree.ways_part_le hpart rfl
  have stmt : ∀ s, .ofStmt s ∈ e.form.parts → (Tree.stmt s).ways ≤ (Tree.expr e).ways := by
    intro s hs
    have hpart : Part.ofStmt s ∈ (Tree.expr e).parts := hs
    exact Tree.ways_part_le hpart rfl
  have body : ∀ p ∈ e.form.parts, p.tree.ways ≤ (Tree.expr e).ways.inLoop := by
    intro p hp
    have hpart : p ∈ (Tree.expr e).parts := hp
    exact Tree.ways_body_le hpart
  generalize (Tree.expr e).ways = w at hw part stmt body ⊢
  refine .enter fun pos => ?_
  cases hform : e.form <;> rw [hform] at part stmt body
  case ident name => exact hev.lawful.runs_lookup (hw.fail trivial)
  case int n => exact .pure trivial
  case float x => exact .pure trivial
  case str s => exact .pure trivial
  case bool t => exact .pure trivial
  case nil => exact .pure trivial
  case interpolated parts =>
    exact hev.runs_interpolated fun x hx => part x (Form.mem_interpolated hx)
  case array items =>
    refine (hev.runs_exprs fun x hx => part x (Part.mem_ofExprs hx)).bind fun vs _ _ hvs => ?_
    exact hev.lawful.runs_newArray hvs
  case hash entries =>
    exact hev.runs_hashLiteral hw (fun entry h => part _ (Form.mem_hash_key h))
      fun entry h => part _ (Form.mem_hash_value h)
  case tuple items =>
    refine (hev.runs_exprs fun x hx => part x (Part.mem_ofExprs hx)).bind fun vs _ _ hvs => ?_
    exact .pure ((within_tuple _ _).mpr hvs)
  case range start stop =>
    exact hev.runs_rangeLiteral hw (part start (Part.mem_ofExprs (by simp)))
      (part stop (Part.mem_ofExprs (by simp)))
  case function lit => exact hev.lawful.runs_functionLiteral
  case struct members => exact hev.runs_structOf fun s hs => stmt s (Part.mem_ofBlock hs)
  case enum variants =>
    exact hev.runs_enumOf fun variant h x hx => part x (Form.mem_enum h hx)
  case prefixed op operand => exact hev.runs_prefixed hw (part operand (Part.mem_ofExprs (by simp)))
  case infixed op left right =>
    exact hev.runs_infixed hw (part left (Part.mem_ofExprs (by simp)))
      (part right (Part.mem_ofExprs (by simp)))
  case postfixed op target => exact hev.runs_step hw (part target (Part.mem_ofExprs (by simp)))
  case assign op target value =>
    exact hev.runs_assign hw (part target (Part.mem_ofExprs (by simp)))
      (part value (Part.mem_ofExprs (by simp)))
  case ternary cond yes no =>
    refine (hev.runs_test (part cond (Part.mem_ofExprs (by simp)))).seq fun truth _ _ => ?_
    split
    · exact hev.runs_expr (part yes (Part.mem_ofExprs (by simp)))
    · exact hev.runs_expr (part no (Part.mem_ofExprs (by simp)))
  case pipe left right =>
    exact hev.runs_pipe hw (part left (Part.mem_ofExprs (by simp)))
      (part right (Part.mem_ofExprs (by simp)))
  case call callee args =>
    exact hev.runs_callNode hw (part callee (Part.mem_ofExprs (by simp)))
      fun x hx => part x (Part.mem_ofExprs (List.mem_cons_of_mem callee hx))
  case method receiver name args =>
    exact hev.runs_methodNode hw (part receiver (Part.mem_ofExprs (by simp)))
      fun x hx => part x (Part.mem_ofExprs (List.mem_cons_of_mem receiver hx))
  case member object name => exact hev.runs_memberNode hw (part object (Part.mem_ofExprs (by simp)))
  case index object key =>
    exact hev.runs_indexNode hw (part object (Part.mem_ofExprs (by simp)))
      (part key (Part.mem_ofExprs (by simp)))
  case slice object start stop =>
    exact hev.runs_sliceNode hw (part object List.mem_cons_self)
      (fun x hx => part x (Form.mem_slice_start hx)) fun x hx => part x (Form.mem_slice_stop hx)
  case conditional branches otherwise =>
    exact hev.runs_conditional (fun s hs => stmt s (Form.mem_conditional_otherwise hs))
      (fun branch h => part _ (Form.mem_conditional_cond h))
      fun branch h s hs => stmt s (Form.mem_conditional_body h hs)
  case unlessThen cond yes otherwise =>
    exact hev.runs_unlessThen (part cond List.mem_cons_self)
      (fun s hs => stmt s (Form.mem_unlessThen_body hs))
      fun s hs => stmt s (Form.mem_unlessThen_otherwise hs)
  case whileLoop cond turn =>
    exact hev.runs_whileLoop hw (part cond List.mem_cons_self)
      fun s hs => body (.inBody s) (List.mem_cons_of_mem _ (Part.mem_ofBody hs))
  case forever turn => exact hev.runs_forever hw fun s hs => body (.inBody s) (Part.mem_ofBody hs)
  case forLoop init cond update turn =>
    refine hev.runs_forLoop hw (fun s hs => stmt s ?_) (fun x hx => part x ?_)
      (fun x hx => part x ?_) fun s hs => body (.inBody s) ?_
    · exact List.mem_append_left _ (Part.mem_ofBlock (Option.mem_toList.mpr hs))
    · exact List.mem_append_right _ (List.mem_append_left _ (Part.mem_ofExpr? hx))
    · exact List.mem_append_right _
        (List.mem_append_right _ (List.mem_append_left _ (Part.mem_ofExpr? hx)))
    · exact List.mem_append_right _
        (List.mem_append_right _ (List.mem_append_right _ (Part.mem_ofBody hs)))
  case forEach key value iterable filter turn =>
    exact hev.runs_forEach hw (part iterable List.mem_cons_self)
      (fun x hx => body ⟨.expr x, true⟩ (Form.mem_forEach_filter hx))
      fun s hs => body (.inBody s) (Form.mem_forEach_body hs)
  case arrayOf key value iterable filter output =>
    exact hev.runs_arrayOf hw (part iterable List.mem_cons_self)
      (fun x hx => part x (Form.mem_arrayOf_filter hx)) (part output Form.mem_arrayOf_output)
  case hashOf key value iterable filter outputKey outputValue =>
    exact hev.runs_hashOf hw (part iterable List.mem_cons_self)
      (fun x hx => part x (Form.mem_hashOf_filter hx)) (part outputKey Form.mem_hashOf_key)
      (part outputValue Form.mem_hashOf_value)
  case grep name iterable cond =>
    exact hev.runs_grep hw (part iterable (Part.mem_ofExprs (by simp)))
      (part cond (Part.mem_ofExprs (by simp)))
  case map name iterable output =>
    simp only [Loop.map_eq_arrayOf]
    exact hev.runs_arrayOf hw (part iterable (Part.mem_ofExprs (by simp)))
      (fun x hx => by cases hx) (part output (Part.mem_ofExprs (by simp)))
  case caseOf subject mode arms otherwise =>
    exact hev.runs_caseOf hw (part subject List.mem_cons_self)
      (fun s hs => stmt s (Form.mem_caseOf_otherwise hs))
      (fun arm h x hx => part x (Form.mem_caseOf_test h hx))
      fun arm h s hs => stmt s (Form.mem_caseOf_body h hs)
  case tryCatch tried catches cleanup =>
    exact hev.runs_tryCatch hw (fun s hs => stmt s (Form.mem_tryCatch_body hs))
      (fun clause h s hs => stmt s (Form.mem_tryCatch_clause h hs))
      fun s hs => stmt s (Form.mem_tryCatch_cleanup hs)
  -- The form that is left is an include.
  exact hev.runs_includeUnit hw

theorem runs_returnValues {values : List Expr} (hret : w.ret)
    (hvalues : ∀ e ∈ values, (Tree.expr e).ways ≤ w) :
    D.Runs true w D.Holds here σ₀ σ (Node.returnValues ev values)
      (Node.returnValues ev' values) := by
  unfold Node.returnValues
  split
  · exact .exit hret trivial
  · next single =>
    exact (hev.runs_expr (hvalues single List.mem_cons_self)).bind fun v _ _ hv => .exit hret hv
  · exact (hev.runs_exprs hvalues).bind fun vs _ _ hvs =>
      .exit hret ((within_tuple vs true).mpr hvs)

/-- A statement leaves in the ways of its parts, and in its own. -/
theorem runs_stmtNode (s : Stmt) :
    D.Runs true (Tree.stmt s).ways D.Holds here σ₀ σ (Node.stmt ev s) (Node.stmt ev' s) := by
  have hw := (Tree.stmt s).failing_le_ways
  obtain ⟨pos₀, form⟩ := s
  have part : ∀ p ∈ form.parts, p.inLoop = false →
      p.tree.ways ≤ (Tree.stmt ⟨pos₀, form⟩).ways := by
    intro p hp hout
    have hpart : p ∈ (Tree.stmt ⟨pos₀, form⟩).parts := hp
    exact Tree.ways_part_le hpart hout
  refine .enter fun pos => ?_
  cases form with
  | bind names values =>
    exact hev.runs_define hw fun x hx => part (.ofExpr x) (Part.mem_ofExprs hx) rfl
  | ret values =>
    exact hev.runs_returnValues .ret fun x hx => part (.ofExpr x) (Part.mem_ofExprs hx) rfl
  | expr e => exact hev.runs_expr (part (.ofExpr e) (Part.mem_ofExprs List.mem_cons_self) rfl)
  | function name lit =>
    refine hev.lawful.runs_functionLiteral.bind fun f _ _ hf => ?_
    exact (hev.lawful.runs_bindName hf).seq fun _ _ _ => .pure trivial
  | defer call => exact hev.lawful.runs_deferCall hw .defer
  | spawn call => exact hev.lawful.runs_spawnCall hw
  | throw value =>
    exact hev.runs_throwValue hw (part (.ofExpr value) (Part.mem_ofExprs List.mem_cons_self) rfl)
  | «break» => exact .exit .brk trivial
  | «continue» => exact .exit .next trivial
  | block body =>
    exact hev.runs_innerBlock fun x hx => part (.ofStmt x) (Part.mem_ofBlock hx) rfl

end Sound

/-- The evaluator keeps to every discipline. -/
theorem sound_evaluator (hD : D.Lawful) (fuel : Nat) :
    D.Sound (evaluator fuel) (evaluator fuel) := by
  induction fuel with
  | zero =>
    exact ⟨hD, fun _ _ _ => .abort rfl, fun _ _ _ => .abort rfl, fun _ _ _ _ _ _ _ => .abort rfl⟩
  | succ fuel ih =>
    refine ⟨hD, fun e here σ => ?_, fun s here σ => ?_, fun v args pos here σ hv hargs => ?_⟩
    · rw [evaluator_expr]
      exact ih.runs_exprNode e
    · rw [evaluator_stmt]
      exact ih.runs_stmtNode s
    · rw [evaluator_call]
      exact ih.runs_value hv hargs

end Discipline
end TreeWalk
