/-
Conditionals, errors, calls put off and tasks, pipes, modules, structs and enums
keep to a discipline.
-/
import TreeWalk.Eval.Control
import TreeWalk.Proofs.Atomic.Operator
import TreeWalk.Proofs.Eval.Evaluator

namespace TreeWalk

open Eval Value

namespace Control

theorem sound_agrees {p : Reach} {mode : CaseMode} {subject candidate : Value}
    {pos : Position} : Atomic.Sound p (fun _ => True) (agrees mode subject candidate pos) := by
  cases mode with
  | equal => exact .look
  | matching =>
    exact .seq .look fun _ => .seq Operator.sound_pattern fun _ => .seq .look fun _ => .pure trivial

end Control

namespace Discipline

variable {D : Discipline} {ev ev' : Evaluator} {b : Bool} {w : Ways} {here : Site} {σ₀ σ : Store}
  {pos : Position}

/-- The variants of an enum that is being made. -/
def HoldsMembers (D : Discipline) (σ : Store) (members : List (String × Value)) : Prop :=
  ∀ member ∈ members, D.Holds σ member.2

theorem Steady.runs_modifyModules (hD : D.Steady) {g : ModuleCache → ModuleCache}
    (h : σ.Quiet (D.At σ) { σ with modules := g σ.modules }) :
    D.Runs b w Any here σ₀ σ (modify g : Eval PUnit) (modify g) := by
  show D.Runs b w Any here σ₀ σ (change fun σ => (PUnit.unit, { σ with modules := g σ.modules }))
    (change fun σ => (PUnit.unit, { σ with modules := g σ.modules }))
  exact hD.runs_change fun _ => ⟨h, trivial⟩

namespace Sound

variable (hev : D.Sound ev ev')
include hev

theorem runs_conditional {otherwise : Option Block} {branches : List (Expr × Block)}
    (hotherwise : ∀ s ∈ otherwise.getD [], (Tree.stmt s).ways ≤ w)
    (hcond : ∀ branch ∈ branches, (Tree.expr branch.1).ways ≤ w)
    (hbody : ∀ branch ∈ branches, ∀ s ∈ branch.2, (Tree.stmt s).ways ≤ w) :
    D.Runs true w D.Holds here σ₀ σ (Control.conditional ev otherwise branches)
      (Control.conditional ev' otherwise branches) := by
  induction branches generalizing σ with
  | nil => exact hev.runs_innerBlockOr hotherwise trivial
  | cons branch rest ih =>
    refine (hev.runs_test (hcond branch List.mem_cons_self)).seq fun truth σ' _ => ?_
    split
    · exact hev.runs_innerBlock (hbody branch List.mem_cons_self)
    · exact ih (fun branch h => hcond branch (List.mem_cons_of_mem _ h))
        fun branch h => hbody branch (List.mem_cons_of_mem _ h)

theorem runs_unlessThen {cond : Expr} {body : Block} {otherwise : Option Block}
    (hcond : (Tree.expr cond).ways ≤ w) (hbody : ∀ s ∈ body, (Tree.stmt s).ways ≤ w)
    (hotherwise : ∀ s ∈ otherwise.getD [], (Tree.stmt s).ways ≤ w) :
    D.Runs true w D.Holds here σ₀ σ (Control.unlessThen ev cond body otherwise)
      (Control.unlessThen ev' cond body otherwise) := by
  refine (hev.runs_test hcond).seq fun truth σ' _ => ?_
  split
  · exact hev.runs_innerBlockOr hotherwise trivial
  · exact hev.runs_innerBlock hbody

/-! ## Case -/

theorem runs_anyAgrees {mode : CaseMode} {subject : Value} {patterns : List Expr}
    (hw : .failing ≤ w) (hpatterns : ∀ e ∈ patterns, (Tree.expr e).ways ≤ w) :
    D.Runs true w Any here σ₀ σ (Control.anyAgrees ev mode subject pos patterns)
      (Control.anyAgrees ev' mode subject pos patterns) := by
  induction patterns generalizing σ with
  | nil => exact .pure trivial
  | cons pattern rest ih =>
    refine (hev.runs_expr (hpatterns pattern List.mem_cons_self)).bind fun candidate _ _ _ => ?_
    refine (hev.lawful.runs_lift Control.sound_agrees (hw.fail trivial)).bind fun truth _ _ _ => ?_
    split
    · exact .pure trivial
    · exact ih fun e h => hpatterns e (List.mem_cons_of_mem _ h)

theorem runs_caseArms {mode : CaseMode} {subject : Value} {otherwise : Option Block}
    {arms : List (List Expr × Block)} (hw : .failing ≤ w) (hsubject : D.Holds σ subject)
    (hotherwise : ∀ s ∈ otherwise.getD [], (Tree.stmt s).ways ≤ w)
    (hpatterns : ∀ arm ∈ arms, ∀ e ∈ arm.1, (Tree.expr e).ways ≤ w)
    (hbody : ∀ arm ∈ arms, ∀ s ∈ arm.2, (Tree.stmt s).ways ≤ w) :
    D.Runs true w D.Holds here σ₀ σ (Control.caseArms ev mode subject otherwise pos arms)
      (Control.caseArms ev' mode subject otherwise pos arms) := by
  induction arms generalizing σ with
  | nil => exact hev.runs_innerBlockOr hotherwise hsubject
  | cons arm rest ih =>
    refine (hev.runs_anyAgrees hw (hpatterns arm List.mem_cons_self)).seq fun truth σ' hlater => ?_
    split
    · exact hev.runs_innerBlock (hbody arm List.mem_cons_self)
    · exact ih (hlater.value hsubject) (fun arm h => hpatterns arm (List.mem_cons_of_mem _ h))
        fun arm h => hbody arm (List.mem_cons_of_mem _ h)

theorem runs_caseOf {subject : Expr} {mode : CaseMode} {otherwise : Option Block}
    {arms : List (List Expr × Block)} (hw : .failing ≤ w) (hsubject : (Tree.expr subject).ways ≤ w)
    (hotherwise : ∀ s ∈ otherwise.getD [], (Tree.stmt s).ways ≤ w)
    (hpatterns : ∀ arm ∈ arms, ∀ e ∈ arm.1, (Tree.expr e).ways ≤ w)
    (hbody : ∀ arm ∈ arms, ∀ s ∈ arm.2, (Tree.stmt s).ways ≤ w) :
    D.Runs true w D.Holds here σ₀ σ (Control.caseOf ev subject mode arms otherwise pos)
      (Control.caseOf ev' subject mode arms otherwise pos) :=
  (hev.runs_expr hsubject).bind fun _ _ _ hv =>
    hev.runs_caseArms hw hv hotherwise hpatterns hbody

/-! ## Errors -/

theorem runs_handle {message : String} {name? : Option String} {body : Block}
    (hbody : ∀ s ∈ body, (Tree.stmt s).ways ≤ w) :
    D.Runs b w D.Holds here σ₀ σ (Control.handle ev message name? body)
      (Control.handle ev' message name? body) := by
  refine hev.lawful.runs_withChildScope ?_
  refine (hev.lawful.runs_bindName (within_ofString message)).seq fun _ _ _ => ?_
  cases name? with
  | none => exact hev.runs_block hbody
  | some name =>
    refine (hev.lawful.runs_bindName (within_ofString message)).seq fun _ _ _ => ?_
    exact hev.runs_block hbody

theorem runs_catchClauses {message : String} {result : Except Exit Value}
    {clauses : List (CatchPattern × Block)} (hlost : w.lost) (hresult : D.Settled w D.Holds σ result)
    (hbody : ∀ clause ∈ clauses, ∀ s ∈ clause.2, (Tree.stmt s).ways ≤ w) :
    D.Runs b w (D.Settled w D.Holds) here σ₀ σ (Control.catchClauses ev message result clauses)
      (Control.catchClauses ev' message result clauses) := by
  induction clauses with
  | nil => exact .pure hresult
  | cons clause rest ih =>
    refine .fiber fun f _ => .read ?_
    split
    · exact (hev.runs_handle (hbody clause List.mem_cons_self)).attempt (fun _ => hlost)
        fun h => ⟨h.puts⟩
    · exact ih fun clause h => hbody clause (List.mem_cons_of_mem _ h)

/-- Only an error of the cleanup takes the place of the result. -/
theorem runs_cleanup {result : Except Exit Value} {block : Block} (hw : .failing ≤ w)
    (hresult : D.Settled w D.Holds σ result) (hblock : ∀ s ∈ block, (Tree.stmt s).ways ≤ w) :
    D.Runs b w D.Holds here σ₀ σ
      (do match ← attempt (ev.innerBlock block) with
          | .error (.error e) => exit (.error e)
          | _ => ofResult result)
      (do match ← attempt (ev'.innerBlock block) with
          | .error (.error e) => exit (.error e)
          | _ => ofResult result) := by
  refine ((hev.runs_innerBlock hblock).attempt (fun _ => hw.lost trivial) fun h => ⟨h.puts⟩).bind
    fun r σ' hlater _ => ?_
  split
  · exact .exit (hw.fail trivial) trivial
  · exact .ofResult (hresult.later hlater)

theorem runs_tryCatch {body : Block} {catches : List (CatchPattern × Block)}
    {cleanup : Option Block} (hw : .failing ≤ w) (hbody : ∀ s ∈ body, (Tree.stmt s).ways ≤ w)
    (hcatches : ∀ clause ∈ catches, ∀ s ∈ clause.2, (Tree.stmt s).ways ≤ w)
    (hcleanup : ∀ s ∈ cleanup.getD [], (Tree.stmt s).ways ≤ w) :
    D.Runs true w D.Holds here σ₀ σ (Control.tryCatch ev body catches cleanup)
      (Control.tryCatch ev' body catches cleanup) := by
  have hlost := hw.lost trivial
  refine ((hev.runs_innerBlock hbody).attempt (fun _ => hlost) fun h => ⟨h.puts⟩).bind
    fun tried σ₁ _ htried => ?_
  cases cleanup with
  | none =>
    cases Control.caughtMessage? tried with
    | none => exact .ofResult htried
    | some message =>
      exact (hev.runs_catchClauses hlost htried hcatches).bind fun _ _ _ hresult =>
        .ofResult hresult
  | some block =>
    cases Control.caughtMessage? tried with
    | none => exact hev.runs_cleanup hw htried hcleanup
    | some message =>
      exact (hev.runs_catchClauses hlost htried hcatches).bind fun _ _ _ hresult =>
        hev.runs_cleanup hw hresult hcleanup

theorem runs_throwValue {value : Expr} (hw : .failing ≤ w) (hvalue : (Tree.expr value).ways ≤ w) :
    D.Runs true w D.Holds here σ₀ σ (Control.throwValue ev value pos)
      (Control.throwValue ev' value pos) := by
  refine (hev.runs_expr hvalue).bind fun v _ _ _ => ?_
  split
  · exact .fail (hw.fail trivial)
  · exact .fail (hw.fail trivial)

/-! ## Pipes -/

theorem runs_pipe {left right : Expr} (hw : .failing ≤ w) (hleft : (Tree.expr left).ways ≤ w)
    (hright : (Tree.expr right).ways ≤ w) :
    D.Runs true w D.Holds here σ₀ σ (Control.pipe ev left right pos)
      (Control.pipe ev' left right pos) := by
  unfold Control.pipe
  split
  · refine (hev.runs_expr hleft).bind fun v σ' _ _ => .read ?_
    split
    · next literal hliteral =>
      split
      · next call hcall =>
        have hways := Tree.ways_withFirstArgument hliteral hcall
        exact hev.runs_expr (Ways.le_trans hways hright)
      · exact .fail (hw.fail trivial)
    · exact .pure trivial
  · exact .fail (hw.fail trivial)

/-! ## Modules -/

/-- `return`, `break` and `continue` end a program. -/
theorem runs_topLevel {program : Program} (hw : .failing ≤ w) [hputs : D.Admits here.stack .all] :
    D.Runs true w D.Holds here σ₀ σ (Control.topLevel ev program)
      (Control.topLevel ev' program) := by
  have hbody : ∀ s ∈ program, (Tree.stmt s).ways ≤ .all := fun _ _ => Ways.le_all _
  refine ((hev.runs_block hbody).attempt (fun _ => hw.lost trivial) fun _ => hputs).bind fun r σ' _ hr => ?_
  split
  · exact .pure hr.2.2
  · exact .pure trivial
  · exact .pure trivial
  · next hret hbrk hnext =>
    refine .ofResult ?_
    cases r with
    | ok v => exact hr
    | error e =>
      cases e with
      | error e => exact ⟨rfl, hw.fail trivial, trivial⟩
      | ret v => exact absurd rfl (hret v)
      | brk => exact absurd rfl hbrk
      | next => exact absurd rfl hnext
      | fault message => cases hr.1
      | exhausted => cases hr.1

/-- However the evaluation of a unit ends, the task is back where it was, and nothing has
been heard of it. -/
theorem runs_evaluateUnit {path : String} :
    D.hushed.Runs b Ways.failing.steady (fun τ m => D.At τ m.scope) here σ₀ σ
      (Control.evaluateUnit ev path pos) (Control.evaluateUnit ev' path pos) := by
  have hD := hev.lawful.hushed
  refine .intro fun hfit => .read ?_
  split
  · next program _ =>
    have hin := hD.enter_unit hfit
    refine .change_then (fun _ => ⟨hD.leave_unit hfit hin, hD.later_newScope, hD.still.scope⟩) ?_
    refine .fiber fun f hf => ?_
    obtain rfl := hf
    have hputs : D.Admits (f.site.unit σ).stack .all := ⟨fun _ _ => hev.lawful.puts_unit⟩
    have run : D.hushed.Runs true .failing D.Holds (f.site.unit σ) σ σ.rootScope.2
        (Control.topLevel ev program) (Control.topLevel ev' program) := fun hfit g hg =>
      hev.runs_topLevel (Ways.le_refl _) hfit g hg
    have inside : D.hushed.Runs b Ways.failing.steady D.Holds f.site σ₀ σ.rootScope.2
        (withFiber (Control.forkFiber f f.thread ⟨σ.scopes.size⟩ .discard)
          (Control.topLevel ev program))
        (withFiber (Control.forkFiber f f.thread ⟨σ.scopes.size⟩ .discard)
          (Control.topLevel ev' program)) :=
      .withFiber hin run (fun _ => inferInstance) (fun _ _ h => h) fun _ => hD.leave_unit hfit
    exact inside.bind fun _ _ hlater _ => .pure (hlater _ hD.home_new)
  · exact .fail trivial

/-- What an include answers is a module, or an error that the unit ended with. -/
def Included (D : Discipline) (σ : Store) : Except Exit Module → Prop
  | .ok m => D.At σ m.scope
  | .error e => Ways.failing.steady.allows e ∧ e.Within (D.At σ)

theorem runs_includeWith {path : String} {e : Error} :
    D.hushed.Runs b w (Included D) here σ₀ σ
      (ModuleCache.includeWith path (.error e) (protect (Control.evaluateUnit ev path pos)))
      (ModuleCache.includeWith path (.error e) (protect (Control.evaluateUnit ev' path pos))) := by
  have hD := hev.lawful.hushed
  unfold ModuleCache.includeWith
  refine .intro fun hfit => .read ?_
  split
  · next found hfound =>
    exact .pure ((hD.closed hfit).modules path found hfound)
  · split
    · exact .pure ⟨trivial, trivial⟩
    · have hbegin : σ.Quiet (D.hushed.At σ) { σ with modules := σ.modules.begin path } :=
        Store.quiet_setModules fun hc => hc.modules
      refine (hD.runs_update hbegin).seq fun _ σ₁ _ => ?_
      refine (hev.runs_evaluateUnit.protect (fun h => h) fun _ => ⟨fun _ h => h.elim⟩).bind fun r σ₂ _ hr => ?_
      have hleave : σ₂.Quiet (D.hushed.At σ₂) { σ₂ with modules := σ₂.modules.leave path } :=
        Store.quiet_setModules fun hc => hc.modules
      refine (hD.runs_modifyModules hleave).seq fun _ σ₃ hlater₃ => ?_
      cases r with
      | ok made =>
        have hmade := hlater₃ _ hr
        refine (hD.runs_modifyModules (Store.quiet_finishModule hmade)).seq
          fun _ σ₄ hlater₄ => .pure (hlater₄ _ hmade)
      | error e => exact .pure ⟨hr.1, hr.2.mono hlater₃⟩

/-- Nothing is heard of an include. -/
theorem hushed_includeUnit {path : String} (hw : .failing ≤ w) :
    D.hushed.Runs b w D.Holds here σ₀ σ (Control.includeUnit ev path pos)
      (Control.includeUnit ev' path pos) := by
  have hD := hev.lawful.hushed
  unfold Control.includeUnit
  refine .read ?_
  split
  · refine .fiber fun f _ => hD.runs_await.bind fun _ σ₁ _ _ => ?_
    refine hev.runs_includeWith.bind fun r σ₂ _ hr => ?_
    have hend : σ₂.Quiet (D.hushed.At σ₂) σ₂.endInclude := by
      unfold Store.endInclude
      split
      · exact Store.quiet_of_content rfl
      · exact Store.quiet_of_content rfl
    refine (hD.runs_update hend).seq fun _ σ₃ hlater => ?_
    cases r with
    | ok m => exact .pure (hlater _ hr)
    | error e =>
      have hallows := Ways.allows_of_le (Ways.le_trans (Ways.steady_le _) hw) hr.1
      exact .exit_then hallows (hr.2.mono hlater)
  · exact .fail (hw.fail trivial)

theorem runs_includeUnit {path : String} (hw : .failing ≤ w) :
    D.Runs b w D.Holds here σ₀ σ (Control.includeUnit ev path pos)
      (Control.includeUnit ev' path pos) :=
  hev.lawful.runs_of_hushed (hev.hushed_includeUnit hw)

/-! ## Structs and enums -/

theorem runs_structOf {body : Block} (hbody : ∀ s ∈ body, (Tree.stmt s).ways ≤ w) :
    D.Runs b w D.Holds here σ₀ σ (Control.structOf ev body) (Control.structOf ev' body) := by
  refine .intro fun hfit => .fiber fun f hf => ?_
  obtain rfl := hf
  have hin := hev.lawful.enter_child hfit
  refine .change_then (fun _ => hev.lawful.fitting_childScope hfit) ?_
  have run := Runs.withScope hin (hev.runs_block hbody) fun τ h => hev.lawful.leave_child hfit h
  exact run.bind fun _ τ hlater _ => .read (.pure (hlater _ hev.lawful.home_new))

theorem runs_variantValues {n : Int64} {variants : List (String × Option Expr)}
    (hvalues : ∀ variant ∈ variants, ∀ e ∈ variant.2, (Tree.expr e).ways ≤ w) :
    D.Runs true w D.HoldsMembers here σ₀ σ (Control.variantValues ev n variants)
      (Control.variantValues ev' n variants) := by
  induction variants generalizing σ n with
  | nil => exact .pure fun member hm => nomatch hm
  | cons variant rest ih =>
    obtain ⟨name, explicit⟩ := variant
    have go : ∀ v following τ, D.Holds τ v → D.Runs true w D.HoldsMembers here σ₀ τ
        (do return (name, v) :: (← Control.variantValues ev following rest))
        (do return (name, v) :: (← Control.variantValues ev' following rest)) := by
      intro v following τ hv
      refine (ih fun variant h => hvalues variant (List.mem_cons_of_mem _ h)).bind
        fun members υ hlater hmembers => .pure fun member hm => ?_
      rcases List.mem_cons.mp hm with rfl | hm
      · exact hlater.value hv
      · exact hmembers member hm
    cases explicit with
    | some e =>
      exact (hev.runs_expr (hvalues _ List.mem_cons_self e rfl)).bind fun v τ _ hv => go v _ τ hv
    | none => exact go (.ofInt n) _ σ trivial

theorem runs_enumOf {variants : List (String × Option Expr)}
    (hvalues : ∀ variant ∈ variants, ∀ e ∈ variant.2, (Tree.expr e).ways ≤ w) :
    D.Runs true w D.Holds here σ₀ σ (Control.enumOf ev variants) (Control.enumOf ev' variants) := by
  refine (hev.runs_variantValues hvalues).bind fun members τ _ hmembers => .fiber fun f hf => ?_
  obtain rfl := hf
  refine .change_then (fun hfit => ?_) (.pure trivial)
  exact ⟨hev.lawful.enum hfit hmembers, hev.lawful.later .addScope, hev.lawful.tells.scope⟩

end Sound

namespace Lawful

variable (hD : D.Lawful)
include hD

/-! ## Calls put off and tasks -/

theorem runs_deferCall {call : Expr} (hw : .failing ≤ w) (hputs : w.puts call) :
    D.Runs b w D.Holds here σ₀ σ (Control.deferCall call pos) (Control.deferCall call pos) := by
  refine .admitted fun hadmits => ?_
  unfold Control.deferCall
  split
  · refine .fiber fun f hf => .read ?_
    obtain rfl := hf
    split
    · next frame hframe =>
      refine (Runs.update fun hfit =>
        ⟨hD.defer hfit hframe (hadmits.puts call hputs), ?_, hD.tells.same rfl rfl⟩).seq
        fun _ _ _ => .pure trivial
      exact .of_scopes_eq rfl
    · exact .fail (hw.fail trivial)
  · exact .fail (hw.fail trivial)

theorem runs_spawnCall {call : Expr} (hw : .failing ≤ w) :
    D.Runs b w D.Holds here σ₀ σ (Control.spawnCall call pos) (Control.spawnCall call pos) := by
  unfold Control.spawnCall
  split
  · refine .fiber fun f hf => ?_
    obtain rfl := hf
    refine (Runs.update fun hfit => ⟨hD.spawn hfit, ?_, hD.tells.spawn⟩).seq
      fun _ _ _ => .pure trivial
    exact hD.later_newScope
  · exact .fail (hw.fail trivial)

end Lawful
end Discipline
end TreeWalk
