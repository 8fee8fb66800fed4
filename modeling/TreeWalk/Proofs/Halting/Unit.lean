/-
Includes halt if the evaluations of the units do.

A unit is evaluated with a stack of its own, as deep as the one of the program.  What
bounds the nesting of units is that no unit is evaluated while it is being evaluated:
with each include one unit fewer is left.

However a unit ends, the path leaves the chain and the thread gives its turn back.  A
fault does not tell what it leaves, and nothing needs to be known of it.
-/
import TreeWalk.Proofs.Halting.Control
import TreeWalk.Proofs.Module.Cache

namespace TreeWalk

open Eval Value

namespace Control

variable {ev : Evaluator} {path : String} {pos : Position} {f : Fiber} {σ τ : Store}
  {program : Program}

/-- The module of a unit that is evaluated in a scope. -/
def moduleOf (path : String) (scope : ScopeId) : Module := ⟨Module.nameOf path, path, scope⟩

/-- The path of a unit is put on the chain. -/
def began (path : String) (σ : Store) : Store := { σ with modules := σ.modules.begin path }

/-- The store in which the evaluation of a unit begins. -/
def unitStore (path : String) (σ : Store) : Store := (began path σ).rootScope.2

/-- A unit runs with a fiber of its own, and the task takes up its own again. -/
theorem evaluateUnit_apply (h : σ.programs.bind (·.get? path) = some program) :
    evaluateUnit ev path pos f σ =
      (topLevel ev program (forkFiber f f.thread ⟨σ.scopes.size⟩ .discard) σ.rootScope.2).andThen
        fun r _ τ => .done (r.map fun _ => moduleOf path ⟨σ.scopes.size⟩) f τ := by
  unfold evaluateUnit
  rw [bind_apply]
  simp only [Eval.read, Step.andThen_done, follow, h]
  show (withFiber _ _ >>= fun _ => pure _) f σ.rootScope.2 = _
  rw [bind_apply]
  unfold withFiber
  rw [Step.andThen_andThen]
  congr 1
  funext r g τ
  cases r with
  | ok v => rfl
  | error e => rfl

/-- The thread has its turn at evaluating units, and gives it back. -/
theorem includeUnit_apply {σ₁ : Store} (hprograms : σ.programs.isSome = true)
    (hturn : Event.include? σ f.thread = some σ₁) :
    includeUnit ev path pos f σ =
      (ModuleCache.includeWith path (.error ⟨.includeFailed path "cyclic include", pos⟩)
        (protect (evaluateUnit ev path pos)) f σ₁).andThen
        (follow fun r f τ => .done (r.map Value.module) f τ.endInclude) := by
  have awaited : await (.including f.thread) f σ = .done (.ok ()) f σ₁ := by
    unfold await
    simp only [Event.happen?, hturn, Option.map_some]
  unfold includeUnit
  rw [bind_apply]
  simp only [Eval.read, Step.andThen_done, follow, hprograms, if_true]
  show ((await (.including f.thread) >>= _) f σ) = _
  rw [bind_apply, awaited]
  show ((ModuleCache.includeWith _ _ _ >>= _ : Eval Value) f σ₁) = _
  rw [bind_apply]
  congr 1
  funext r g τ
  cases r with
  | error e => rfl
  | ok result =>
    cases result with
    | error e => rfl
    | ok made => rfl

theorem includeWith_found {cyclic : Exit} {evaluate : Eval (Except Exit Module)} {found : Module}
    (h : σ.modules.get? path = some found) :
    ModuleCache.includeWith path cyclic evaluate f σ = .done (.ok (.ok found)) f σ := by
  unfold ModuleCache.includeWith
  rw [bind_apply]
  show (follow _ (Except.ok σ.modules) f σ) = _
  simp only [follow, h]
  rfl

theorem includeWith_cyclic {cyclic : Exit} {evaluate : Eval (Except Exit Module)}
    (h : σ.modules.get? path = none) (hin : σ.modules.loading.contains path = true) :
    ModuleCache.includeWith path cyclic evaluate f σ = .done (.ok (.error cyclic)) f σ := by
  unfold ModuleCache.includeWith
  rw [bind_apply]
  show (follow _ (Except.ok σ.modules) f σ) = _
  simp only [follow, h, hin, if_true]
  rfl

/-- The store when the evaluation of a unit has ended. -/
def ended (path : String) (r : Except Exit Module) (τ : Store) : Store :=
  { τ with modules := Journal.closed τ.modules path r }

theorem includeWith_evaluated {cyclic : Exit} {x : Eval Module}
    (h : σ.modules.get? path = none) (hout : σ.modules.loading.contains path = false) :
    ModuleCache.includeWith path cyclic (protect x) f σ =
      (x f (began path σ)).andThen fun r g τ => .done (.ok r) g (ended path r τ) := by
  unfold ModuleCache.includeWith
  rw [bind_apply]
  show (follow _ (Except.ok σ.modules) f σ) = _
  simp only [follow, h, hout, Bool.false_eq_true, if_false]
  show ((protect x >>= _) f (began path σ)) = _
  rw [bind_apply]
  unfold protect
  rw [Step.andThen_andThen]
  congr 1
  funext r g τ
  cases r with
  | error e => rfl
  | ok made => rfl

/-- The evaluation of a unit, and what becomes of the module. -/
def evaluated (ev : Evaluator) (path : String) (pos : Position) : Eval Value := fun f σ =>
  (evaluateUnit ev path pos f (began path σ)).andThen fun r g τ =>
    .done (r.map Value.module) g (ended path r τ).endInclude

end Control

namespace Setting

variable {c : Setting} {ev : Nat → Evaluator} {m : Nat} {path : String} {pos : Position}
  {f : Fiber} {σ : Store}

/-- The setting of a unit. -/
def unit (c : Setting) (path : String) : Setting :=
  { c with stack := .empty c.stack.limit, own := none, loading := path :: c.loading }

/-- The units that are not being evaluated can be. -/
def HandlesUnits (c : Setting) (ev : Nat → Evaluator) : Prop :=
  ∀ path program, c.programs.bind (·.get? path) = some program → path ∉ c.loading →
    ∃ m, (c.unit path).Halts m Value.Tame fun n => Control.topLevel (ev n) program

namespace Fits

/-- It is left to the thread of the setting, or to none, to evaluate units. -/
theorem including {including : Option (Nat × Nat)} (hf : c.Fits f σ)
    (h : ∀ holder depth, including = some (holder, depth) → holder = c.thread) :
    c.Fits f { σ with including := including } :=
  have hquiet : σ.Quiet tame { σ with including := including } := Store.quiet_of_content rfl
  { hf with
    owner := hf.owner.later (.of_quiet hquiet)
    closed := hquiet.closed hf.closed
    free := h }

theorem exists_include (hf : c.Fits f σ) :
    ∃ σ₁, Event.include? σ f.thread = some σ₁ ∧ c.Fits f σ₁ ∧ σ.Quiet tame σ₁ := by
  unfold Event.include?
  split
  · refine ⟨_, rfl, hf.including fun holder depth h => ?_, Store.quiet_of_content rfl⟩
    obtain ⟨rfl, _⟩ := Prod.mk.inj (Option.some.inj h)
    exact hf.thread
  · next holder depth heq =>
    have hholder := hf.free holder depth heq
    rw [if_pos (hholder.trans hf.thread.symm)]
    refine ⟨_, rfl, hf.including fun other d h => ?_, Store.quiet_of_content rfl⟩
    obtain ⟨rfl, _⟩ := Prod.mk.inj (Option.some.inj h)
    exact hholder

theorem endInclude (hf : c.Fits f σ) : c.Fits f σ.endInclude := by
  unfold Store.endInclude
  split
  · next thread depth heq =>
    refine hf.including fun holder d h => ?_
    obtain ⟨rfl, _⟩ := Prod.mk.inj (Option.some.inj h)
    exact hf.free _ _ heq
  · exact hf.including nofun

/-- The evaluation of a unit begins in a scope that belongs to no call. -/
theorem enterUnit (hf : c.Fits f σ) :
    (c.unit path).Fits (Control.forkFiber f f.thread ⟨σ.scopes.size⟩ .discard)
      (Control.unitStore path σ) where
  stack := congrArg (fun s : CallStack => CallStack.empty s.limit) hf.stack
  thread := hf.thread
  owner := .rootScope
  made := nofun
  closed := by
    have hbegan : σ.Quiet tame (Control.began path σ) := Store.quiet_setModules fun hc => hc.modules
    exact (hbegan.closed hf.closed).newScope nofun
  loading := congrArg (path :: ·) hf.loading
  programs := hf.programs
  free := hf.free
  idle := hf.idle

/-- The path of a unit that has ended is no longer on the chain. -/
theorem conclude {τ : Store} {r : Except Exit Module} (hf : c.Fits f σ) (he : σ.Extends τ)
    (hclosed : τ.Closed tame) (hloading : τ.modules.loading = path :: c.loading)
    (hprograms : τ.programs = c.programs)
    (hfree : ∀ holder depth, τ.including = some (holder, depth) → holder = c.thread)
    (hidle : τ.running = 0) :
    c.Fits f (Control.ended path r τ) := by
  have hleave : τ.Quiet tame { τ with modules := τ.modules.leave path } :=
    Store.quiet_setModules fun hc => hc.modules
  have hquiet : τ.Quiet tame (Control.ended path r τ) := by
    cases r with
    | ok made => exact hleave.trans (Store.quiet_finishModule trivial)
    | error e => exact hleave
  have hleft : (τ.modules.leave path).loading = c.loading := by
    show τ.modules.loading.erase path = c.loading
    rw [hloading]
    exact List.erase_cons_head path c.loading
  have hended : (Journal.closed τ.modules path r).loading = c.loading := by
    cases r with
    | ok made => exact hleft
    | error e => exact hleft
  have hext : σ.Extends (Control.ended path r τ) :=
    he.trans (.of_quiet hquiet)
  exact {
    stack := hf.stack
    thread := hf.thread
    owner := hf.owner.later hext
    made := fun frame hframe => Nat.lt_of_lt_of_le (hf.made frame hframe) hext.frames
    closed := hquiet.closed hclosed
    loading := hended
    programs := hprograms
    free := hfree
    idle := hidle }

end Fits

/-- The thread gives its turn back, and the module is the answer. -/
theorem post_endInclude {τ : Store} {r : Except Exit Module} (hf : c.Fits f τ)
    (hleads : σ.Leads c.own m τ) (hr : Settled Any r) :
    c.Post (σ.Leads c.own m) (Exit.Within tame) Value.Tame (r.map Value.module) f τ.endInclude := by
  have hquiet : τ.Quiet tame τ.endInclude := by
    unfold Store.endInclude
    split
    · exact Store.quiet_of_content rfl
    · exact Store.quiet_of_content rfl
  have hend := hleads.trans (.of_quiet hquiet)
  cases r with
  | ok made => exact ⟨hf.endInclude, hend, trivial⟩
  | error e => exact ⟨hr.ne_exhausted, fun _ => ⟨hf.endInclude, hend, hr.2⟩⟩

/-- The way back from a unit: what it puts off, it puts off on frames of its own. -/
theorem back_of_unit {k : Nat} {g : Fiber} {τ : Store} (r : Except Exit Module) (hf : c.Fits f σ)
    (hg : (c.unit path).Fits g τ) (hτ : (Control.unitStore path σ).Leads none k τ) :
    c.Fits f (Control.ended path r τ) ∧ σ.Leads c.own m (Control.ended path r τ) := by
  have hbegan : σ.Extends (Control.began path σ) := .of_scopes_eq rfl (Nat.le_refl _)
  have hnew : (Control.began path σ).Extends (Control.unitStore path σ) := .addScope
  have hext : σ.Extends τ := (hbegan.trans hnew).trans hτ.toExtends
  refine ⟨hf.conclude hext hg.closed hg.loading hg.programs hg.free hg.idle, ?_⟩
  exact .of_deferredOf ⟨hext.scopes, hext.frames, hext.parent, hext.frame⟩
    (fun frame hframe => hτ.kept frame hframe nofun) hf.made

/-- An include of a unit that there is not fails. -/
theorem halts_missing (error : Error) (hf : c.Fits f σ) (hx : ∀ n, Control.evaluateUnit (ev n) path
      pos f (Control.began path σ) = .done (.error (.error error)) f (Control.began path σ)) :
    c.HaltsAt (σ.Leads c.own m) (Exit.Within tame) Value.Tame
      (fun n => Control.evaluated (ev n) path pos) f σ := by
  have hbegan : σ.Quiet tame (Control.began path σ) := Store.quiet_setModules fun hc => hc.modules
  have hback := hf.conclude (r := .error (.error error)) (.of_quiet hbegan) (hbegan.closed hf.closed)
    (congrArg (path :: ·) hf.loading) hf.programs hf.free hf.idle
  have hleads : σ.Leads c.own m (Control.ended path (.error (.error error)) (Control.began path σ)) :=
    .of_deferred_eq (.of_scopes_eq rfl (Nat.le_refl _)) rfl
  have hpost := post_endInclude (r := .error (.error error)) hback hleads ⟨rfl, trivial⟩
  refine .of_done (fun n => ?_) hpost
  unfold Control.evaluated
  rw [hx]
  rfl

/-- An include that evaluates a unit ends as the evaluation does. -/
theorem halts_evaluated (hunits : c.HandlesUnits ev) (hout : path ∉ c.loading) :
    c.Halts m Value.Tame fun n => Control.evaluated (ev n) path pos := by
  intro f σ hf
  cases hprogram : (Control.began path σ).programs.bind (·.get? path) with
  | none =>
    refine halts_missing ⟨.includeFailed path ("no such module: " ++ path), pos⟩ hf fun n => ?_
    unfold Control.evaluateUnit
    rw [bind_apply]
    simp only [Eval.read, Step.andThen_done, follow, hprogram]
    rfl
  | some program =>
    obtain ⟨k, hrun⟩ := hunits path program (hf.programs ▸ hprogram) hout
    let made : Except Exit Value → Except Exit Module :=
      Except.map fun _ => Control.moduleOf path ⟨σ.scopes.size⟩
    have apply : ∀ n, Control.evaluated (ev n) path pos f σ =
        (Control.topLevel (ev n) program (Control.forkFiber f f.thread ⟨σ.scopes.size⟩ .discard)
          (Control.unitStore path σ)).andThen fun r _ τ =>
          .done ((made r).map Value.module) f (Control.ended path (made r) τ).endInclude := by
      intro n
      unfold Control.evaluated
      rw [Control.evaluateUnit_apply hprogram, Step.andThen_andThen]
      rfl
    refine Comes.andThen (hrun _ _ hf.enterUnit) apply ?_
    rintro (e | v) g τ hpost
    · cases habort : e.isAbort with
      | true => exact .of_done (fun _ => rfl) (.of_abort hpost.1 habort)
      | false =>
        obtain ⟨hg, hτ, hwithin⟩ := hpost.2 habort
        obtain ⟨hback, hleads⟩ := back_of_unit (.error e) hf hg hτ
        exact .of_done (fun _ => rfl) (post_endInclude hback hleads ⟨habort, hwithin⟩)
    · obtain ⟨hg, hτ, _⟩ := hpost
      obtain ⟨hback, hleads⟩ := back_of_unit (made (.ok v)) hf hg hτ
      exact .of_done (fun _ => rfl) (post_endInclude hback hleads trivial)

/-- An include finds the module, refuses a cycle, or evaluates the unit. -/
theorem halts_includeUnit (hunits : c.HandlesUnits ev) :
    c.Halts m Value.Tame fun n => Control.includeUnit (ev n) path pos := by
  intro f σ hf
  by_cases hprograms : σ.programs.isSome = true
  · obtain ⟨σ₁, hturn, hf₁, hquiet⟩ := hf.exists_include
    have hleads : σ.Leads c.own m σ₁ := .of_quiet hquiet
    have apply : ∀ n, Control.includeUnit (ev n) path pos f σ = _ := fun n =>
      Control.includeUnit_apply hprograms hturn
    cases hget : σ₁.modules.get? path with
    | some found =>
      refine .of_done (fun n => ?_) (post_endInclude (r := .ok found) hf₁ hleads trivial)
      rw [apply, Control.includeWith_found hget]
      rfl
    | none =>
      cases hin : σ₁.modules.loading.contains path with
      | true =>
        refine .of_done (fun n => ?_) (post_endInclude
          (r := .error (.error ⟨.includeFailed path "cyclic include", pos⟩)) hf₁ hleads ⟨rfl, trivial⟩)
        rw [apply, Control.includeWith_cyclic hget hin]
        rfl
      | false =>
        have hout : path ∉ c.loading := by
          rw [← hf₁.loading]
          simpa using hin
        have run : c.Halts m Value.Tame fun n => Control.evaluated (ev n) path pos :=
          halts_evaluated hunits hout
        refine (run.part hf₁ hleads).of_eq fun n => ?_
        rw [apply, Control.includeWith_evaluated hget hin, Step.andThen_andThen]
        rfl
  · have failing : ∀ n, Control.includeUnit (ev n) path pos f σ = fail (.noModuleLoader path) pos f σ := by
      intro n
      unfold Control.includeUnit
      rw [bind_apply]
      simp only [Eval.read, Step.andThen_done, follow, if_neg hprograms]
    exact (Halts.fail f σ hf).of_eq failing

end Setting
end TreeWalk
