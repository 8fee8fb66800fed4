/-
Trees halt if calls and units do.

A tree is evaluated by way of its parts, so this is an induction over the tree, with
two exceptions.  The target of an assignment is not evaluated itself, but its parts
are; and a pipe evaluates a call that is made only then.  What is needed for both is
that the parts of parts halt, too, so the induction carries that along.
-/
import TreeWalk.Proofs.Halting.Call
import TreeWalk.Proofs.Halting.Control
import TreeWalk.Proofs.Halting.Loop
import TreeWalk.Proofs.Halting.Method
import TreeWalk.Proofs.Halting.Unit

namespace TreeWalk

open Eval Value Filter

/-- Refuses a value that tasks share with a fault. -/
def Eval.unshared (refusal : String) (x : Eval Value) : Eval Value := do
  let v ← x
  if v.isShared then exit (.fault refusal) else return v

/-- Evaluators that take nodes apart, with the evaluator of one level less for the
parts, and refuse expressions whose value tasks share. -/
structure Unfolds (refusal : String) (ev : Nat → Evaluator) : Prop where
  expr : ∀ n e, (ev (n + 1)).expr e = unshared refusal (Node.expr (ev n) n e)
  stmt : ∀ n s, (ev (n + 1)).stmt s = Node.stmt (ev n) s

namespace Setting

/-- A tree halts, and so do its parts. -/
structure Ready (c : Setting) (ev : Nat → Evaluator) (m : Nat) (t : Tree) : Prop where
  handled : c.Handles ev m t
  parts : ∀ p ∈ t.parts, c.Handles ev m p.tree

end Setting

namespace Unfolds

open Setting

variable {c : Setting} {refusal : String} {ev : Nat → Evaluator} {m : Nat}

theorem handles_expr {e : Expr} (hev : Unfolds refusal ev)
    (h : c.Halts m Value.Tame fun n => Node.expr (ev n) n e) : c.Handles ev m (.expr e) := by
  refine Halts.of_succ ?_
  simp only [hev.expr]
  refine Halts.bind h fun v hv => ?_
  by_cases hshared : v.isShared = true
  · simp only [if_pos hshared]
    exact .exit nofun trivial
  · simp only [if_neg hshared]
    exact .pure ⟨hv, Bool.eq_false_iff.mpr hshared⟩

theorem handles_stmt {s : Stmt} (hev : Unfolds refusal ev)
    (h : c.Halts m Value.Tame fun n => Node.stmt (ev n) s) : c.Handles ev m (.stmt s) := by
  refine Halts.of_succ ?_
  simp only [hev.stmt]
  exact h

/-! ## Literals and calls made of them -/

theorem handles_literal {σ : Store} {pos : Position} {v : Value} {literal : Expr}
    (hev : Unfolds refusal ev) (h : σ.literal? pos v = some literal) :
    c.Handles ev m (.expr literal) := by
  refine Store.literal?_induction (Q := fun e => c.Handles ev m (.expr e))
    (fun e _ hliteral hparts => ?_) h
  have part : ∀ x, .ofExpr x ∈ e.form.parts → c.Handles ev m (.expr x) := by
    intro x hx
    obtain ⟨part, heq, hpart⟩ := hparts _ hx
    obtain rfl := Tree.expr.inj (congrArg Part.tree heq)
    exact hpart
  refine hev.handles_expr (Halts.enter.seq fun _ => ?_)
  cases hform : e.form <;> rw [hform] at hliteral part <;> try cases hliteral
  case array items => exact halts_arrayLiteral fun x hx => part x (Part.mem_ofExprs hx)
  case hash entries =>
    exact halts_hashLiteral (fun entry h => part _ (Form.mem_hash_key h))
      fun entry h => part _ (Form.mem_hash_value h)
  all_goals exact .pure trivial

theorem handles_withFirstArgument {right literal call : Expr} (hev : Unfolds refusal ev)
    (hc : c.Answers ev) (hright : ∀ p ∈ right.form.parts, c.Handles ev m p.tree)
    (hliteral : c.Handles ev m (.expr literal))
    (h : right.withFirstArgument? literal = some call) : c.Handles ev m (.expr call) := by
  have part : ∀ x, .ofExpr x ∈ call.form.parts → c.Handles ev m (.expr x) := by
    intro x hx
    rcases Tree.parts_withFirstArgument h _ hx with hx | heq
    · exact hright _ hx
    · obtain rfl := Tree.expr.inj (congrArg Part.tree heq)
      exact hliteral
  unfold Expr.withFirstArgument? at h
  split at h
  · next callee args _ =>
    obtain rfl := Option.some.inj h
    refine hev.handles_expr (Halts.enter.seq fun _ => ?_)
    exact halts_call hc (part callee (Part.mem_ofExprs List.mem_cons_self))
      fun x hx => part x (Part.mem_ofExprs (List.mem_cons_of_mem callee hx))
  · next receiver name args _ =>
    obtain rfl := Option.some.inj h
    refine hev.handles_expr (Halts.enter.seq fun _ => ?_)
    exact halts_method hc (part receiver (Part.mem_ofExprs List.mem_cons_self))
      fun x hx => part x (Part.mem_ofExprs (List.mem_cons_of_mem receiver hx))
  · cases h

/-! ## Nodes -/

/-- An expression that is no open loop halts if its parts do. -/
theorem handles_exprNode {pos₀ : Position} {form : Form} (hev : Unfolds refusal ev) (hc : c.Answers ev)
    (hunits : c.HandlesUnits ev) (hclosed : form.isOpenLoop = false)
    (hparts : ∀ p ∈ form.parts, c.Ready ev m p.tree)
    (hfunctions : ∀ lit ∈ (Tree.expr ⟨pos₀, form⟩).functions, lit.LoopFree) :
    c.Handles ev m (.expr ⟨pos₀, form⟩) := by
  have part : ∀ x, .ofExpr x ∈ form.parts → c.Handles ev m (.expr x) := fun x hx =>
    (hparts _ hx).handled
  have stmt : ∀ s, .ofStmt s ∈ form.parts → c.Handles ev m (.stmt s) := fun s hs =>
    (hparts _ hs).handled
  have body : ∀ s, .inBody s ∈ form.parts → c.Handles ev m (.stmt s) := fun s hs =>
    (hparts _ hs).handled
  have inner : ∀ x, .ofExpr x ∈ form.parts → ∀ p ∈ x.form.parts, c.Handles ev m p.tree :=
    fun x hx => (hparts _ hx).parts
  have hfuel : Tendsto (fun n : Nat => n) atTop atTop := tendsto_id
  refine hev.handles_expr (Halts.enter.seq fun pos => ?_)
  cases form
  case ident name => exact halts_lookup
  case int n => exact .pure trivial
  case float x => exact .pure trivial
  case str s => exact .pure trivial
  case bool t => exact .pure trivial
  case nil => exact .pure trivial
  case interpolated parts =>
    exact halts_interpolated fun x hx => part x (Form.mem_interpolated hx)
  case array items => exact halts_arrayLiteral fun x hx => part x (Part.mem_ofExprs hx)
  case hash entries =>
    exact halts_hashLiteral (fun entry h => part _ (Form.mem_hash_key h))
      fun entry h => part _ (Form.mem_hash_value h)
  case tuple items => exact halts_tupleLiteral fun x hx => part x (Part.mem_ofExprs hx)
  case range start stop =>
    exact halts_rangeLiteral (part start (Part.mem_ofExprs (by simp)))
      (part stop (Part.mem_ofExprs (by simp)))
  case function lit => exact halts_functionLiteral (hfunctions lit (List.mem_singleton.mpr rfl))
  case struct members => exact halts_structOf fun s hs => stmt s (Part.mem_ofBlock hs)
  case enum variants =>
    exact halts_enumOf fun variant h x hx => part x (Form.mem_enum h hx)
  case prefixed op operand => exact halts_prefixed (part operand (Part.mem_ofExprs (by simp)))
  case infixed op left right =>
    exact halts_infixed (part left (Part.mem_ofExprs (by simp)))
      (part right (Part.mem_ofExprs (by simp)))
  case postfixed op target =>
    exact halts_step fun x hx => inner target (Part.mem_ofExprs (by simp)) _ hx
  case assign op target value =>
    exact halts_assign (fun x hx => inner target (Part.mem_ofExprs (by simp)) _ hx)
      (part value (Part.mem_ofExprs (by simp)))
  case ternary cond yes no =>
    exact halts_ternary (part cond (Part.mem_ofExprs (by simp)))
      (part yes (Part.mem_ofExprs (by simp))) (part no (Part.mem_ofExprs (by simp)))
  case pipe left right =>
    refine halts_pipe (part left (Part.mem_ofExprs (by simp))) fun σ v literal call hmade hcall => ?_
    exact hev.handles_withFirstArgument hc (inner right (Part.mem_ofExprs (by simp)))
      (hev.handles_literal hmade) hcall
  case call callee args =>
    exact halts_call hc (part callee (Part.mem_ofExprs (by simp)))
      fun x hx => part x (Part.mem_ofExprs (List.mem_cons_of_mem callee hx))
  case method receiver name args =>
    exact halts_method hc (part receiver (Part.mem_ofExprs (by simp)))
      fun x hx => part x (Part.mem_ofExprs (List.mem_cons_of_mem receiver hx))
  case member object name => exact halts_member (part object (Part.mem_ofExprs (by simp)))
  case index object key =>
    exact halts_index (part object (Part.mem_ofExprs (by simp)))
      (part key (Part.mem_ofExprs (by simp)))
  case slice object start stop =>
    exact halts_slice (part object List.mem_cons_self)
      (fun x hx => part x (Form.mem_slice_start hx)) fun x hx => part x (Form.mem_slice_stop hx)
  case conditional branches otherwise =>
    exact halts_conditional (fun s hs => stmt s (Form.mem_conditional_otherwise hs))
      (fun branch h => part _ (Form.mem_conditional_cond h))
      fun branch h s hs => stmt s (Form.mem_conditional_body h hs)
  case unlessThen cond yes otherwise =>
    exact halts_unlessThen (part cond List.mem_cons_self)
      (fun s hs => stmt s (Form.mem_unlessThen_body hs))
      fun s hs => stmt s (Form.mem_unlessThen_otherwise hs)
  case whileLoop cond turn => cases hclosed
  case forever turn => cases hclosed
  case forLoop init cond update turn => cases hclosed
  case forEach key value iterable filter turn =>
    exact halts_forEach hfuel (part iterable List.mem_cons_self)
      (fun x hx => (hparts ⟨.expr x, true⟩ (Form.mem_forEach_filter hx)).handled)
      fun s hs => body s (Form.mem_forEach_body hs)
  case arrayOf key value iterable filter output =>
    exact halts_arrayOf hfuel (part iterable List.mem_cons_self)
      (fun x hx => part x (Form.mem_arrayOf_filter hx)) (part output Form.mem_arrayOf_output)
  case hashOf key value iterable filter outputKey outputValue =>
    exact halts_hashOf hfuel (part iterable List.mem_cons_self)
      (fun x hx => part x (Form.mem_hashOf_filter hx)) (part outputKey Form.mem_hashOf_key)
      (part outputValue Form.mem_hashOf_value)
  case grep name iterable cond =>
    exact halts_grep hfuel (part iterable (Part.mem_ofExprs (by simp)))
      (part cond (Part.mem_ofExprs (by simp)))
  case map name iterable output =>
    simp only [Loop.map_eq_arrayOf]
    exact halts_arrayOf hfuel (part iterable (Part.mem_ofExprs (by simp)))
      (fun x hx => by cases hx) (part output (Part.mem_ofExprs (by simp)))
  case caseOf subject mode arms otherwise =>
    exact halts_caseOf (part subject List.mem_cons_self)
      (fun s hs => stmt s (Form.mem_caseOf_otherwise hs))
      (fun arm h x hx => part x (Form.mem_caseOf_test h hx))
      fun arm h s hs => stmt s (Form.mem_caseOf_body h hs)
  case tryCatch tried catches cleanup =>
    exact halts_tryCatch (fun s hs => stmt s (Form.mem_tryCatch_body hs))
      (fun clause h s hs => stmt s (Form.mem_tryCatch_clause h hs))
      fun s hs => stmt s (Form.mem_tryCatch_cleanup hs)
  -- The form that is left is an include.
  exact halts_includeUnit hunits

/-- A statement that is no `spawn` halts if its parts do.  A call that it puts off runs
later, so the call itself is only known to lie less deep. -/
theorem handles_stmtNode {pos₀ : Position} {form : StmtForm} (hev : Unfolds refusal ev)
    (hclosed : form.isSpawn = false) (hparts : ∀ p ∈ form.parts, c.Handles ev m p.tree)
    (hfunctions : ∀ lit ∈ (Tree.stmt ⟨pos₀, form⟩).functions, lit.LoopFree)
    (hputOff : ∀ call ∈ (Tree.stmt ⟨pos₀, form⟩).putOff, ∃ k, k < m ∧ (Tree.expr call).Shallow k) :
    c.Handles ev m (.stmt ⟨pos₀, form⟩) := by
  refine hev.handles_stmt (Halts.enter.seq fun pos => ?_)
  cases form with
  | bind names values => exact halts_define fun x hx => hparts (.ofExpr x) (Part.mem_ofExprs hx)
  | ret values => exact halts_returnValues fun x hx => hparts (.ofExpr x) (Part.mem_ofExprs hx)
  | expr e =>
    have hpart : c.Handles ev m (.expr e) := hparts (.ofExpr e) (Part.mem_ofExprs List.mem_cons_self)
    exact hpart.tame
  | function name lit =>
    refine (halts_functionLiteral (hfunctions lit (List.mem_singleton.mpr rfl))).bind fun f hf => ?_
    exact (Halts.bindName hf).seq fun _ => .pure trivial
  | defer call =>
    obtain ⟨k, hk, hcall⟩ := hputOff call (List.mem_singleton.mpr rfl)
    exact halts_deferCall hk hcall
  | spawn call => cases hclosed
  | throw value => exact halts_throwValue (hparts (.ofExpr value) (Part.mem_ofExprs List.mem_cons_self))
  | «break» => exact .exit (fun he => nomatch he) trivial
  | «continue» => exact .exit (fun he => nomatch he) trivial
  | block body => exact halts_innerBlock fun s hs => hparts (.ofStmt s) (Part.mem_ofBlock hs)

/-- All trees halt in a setting where calls and units do. -/
theorem handlesAll (hev : Unfolds refusal ev) (hc : c.Answers ev) (hunits : c.HandlesUnits ev) :
    c.HandlesAll ev := by
  intro m t ht
  suffices c.Ready ev m t from this.handled
  induction ht with
  | @node m t closed _ functions depth lower shallow ih _ =>
    refine ⟨?_, fun p hp => (ih p hp).handled⟩
    cases t with
    | expr e =>
      obtain ⟨pos, form⟩ := e
      exact hev.handles_exprNode hc hunits closed ih functions
    | stmt s =>
      obtain ⟨pos, form⟩ := s
      exact hev.handles_stmtNode closed (fun p hp => (ih p hp).handled) functions
        fun call hcall => ⟨depth call, lower call hcall, shallow call hcall⟩

end Unfolds
end TreeWalk
