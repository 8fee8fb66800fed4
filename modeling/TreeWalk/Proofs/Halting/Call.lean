/-
Calls halt if whatever is evaluated with their frame on top does.

The calls put off run in rounds, in each of them those that were put off before.
What is put off during a round lies in the calls that run then, so it lies one less
deep: in as many rounds as the calls lie deep in each other, none is left.
-/
import TreeWalk.Proofs.Eval.Deferral
import TreeWalk.Proofs.Halting.Expression

namespace TreeWalk

open Eval Value Filter

namespace Setting

variable {c : Setting} {ev : Nat → Evaluator} {fuel : Nat → Nat} {m : Nat} {pos : Position}
  {frame : FrameId} {stack : CallStack} {f : Fiber} {σ : Store}

/-- All trees in which calls that are put off lie only so deep halt. -/
def HandlesAll (c : Setting) (ev : Nat → Evaluator) : Prop :=
  ∀ (m : Nat) (t : Tree), t.Shallow m → c.Handles ev m t

/-- The setting of a call. -/
def entered (c : Setting) (stack : CallStack) (frame : FrameId) : Setting :=
  { c with stack := stack, own := some frame }

/-! ## Calls put off -/

/-- One of the calls put off: whatever it ends with is dropped, but an abort. -/
theorem halts_runOne {d : Deferred} (hall : (c.entered stack frame).HandlesAll ev)
    (hf : (c.entered stack frame).Fits f σ) (hd : σ.Due (m + 1) frame d) :
    (c.entered stack frame).HaltsAt (σ.Leads (some frame) m) Never Any
      (fun n => Call.runOne (ev n) d) f σ := by
  obtain ⟨k, hk, hshallow⟩ := hd.shallow
  have evaluated : (c.entered stack frame).Halts m Value.Tame fun n => (ev n).expr d.call :=
    Halts.weaken (hall k _ hshallow).tame (Nat.le_of_lt_succ hk)
  refine Comes.andThen (evaluated _ _ (hf.inScope hd.owner)) (fun n => Call.runOne_apply d f σ) ?_
  have back : ∀ g τ, (c.entered stack frame).Fits g τ → σ.Leads (some frame) m τ →
      (c.entered stack frame).Fits { g with scope := f.scope } τ := fun g τ hg hτ =>
    hg.inScope (hf.owner.later hτ.toExtends)
  rintro (e | v) g τ hpost
  · cases habort : e.isAbort with
    | true => exact .of_done (fun _ => if_pos habort) (.of_abort hpost.1 habort)
    | false =>
      obtain ⟨hg, hτ, _⟩ := hpost.2 habort
      refine .of_done (fun _ => if_neg ?_) ⟨back g τ hg hτ, hτ, trivial⟩
      rw [habort]
      exact Bool.false_ne_true
  · exact .of_done (fun _ => rfl) ⟨back g τ hpost.1 hpost.2.1, hpost.2.1, trivial⟩

/-- A round of calls put off. -/
theorem halts_round {calls : List Deferred} (hall : (c.entered stack frame).HandlesAll ev)
    (hf : (c.entered stack frame).Fits f σ) (hcalls : ∀ d ∈ calls, σ.Due (m + 1) frame d) :
    (c.entered stack frame).HaltsAt (σ.Leads (some frame) m) Never Any
      (fun n => foldList (fun _ d => Call.runOne (ev n) d) calls ()) f σ := by
  induction calls generalizing f σ with
  | nil => exact .pure hf (.refl σ) trivial
  | cons d rest ih =>
    simp only [foldList_cons]
    refine (halts_runOne hall hf (hcalls d List.mem_cons_self)).bind
      (fun _ g τ hg hτ _ => ?_) fun _ h => h
    refine (ih hg fun d' hd' => ?_).mono (fun _ => hτ.trans) fun _ h => h
    exact (hcalls d' (List.mem_cons_of_mem d hd')).later hτ.toExtends

theorem Fits.takeDeferred (hf : (c.entered stack frame).Fits f σ) :
    (c.entered stack frame).Fits f (σ.takeDeferred frame).2 := by
  have hkeeps : σ.Keeps (some frame) (σ.takeDeferred frame).2 := .takeDeferred
  exact hf.step hkeeps.toExtends hf.closed.takeDeferred rfl

theorem halts_runDeferred_nil (hfuel : Tendsto fuel atTop atTop)
    (hf : (c.entered stack frame).Fits f σ) (hnone : σ.deferredOf frame = []) :
    (c.entered stack frame).HaltsAt (σ.Keeps (some frame)) Never Any
      (fun n => Call.runDeferred (ev n) (fuel n) frame) f σ :=
  .of_fuel hfuel (HaltsAt.pure hf.takeDeferred .takeDeferred trivial) fun _ _ hk =>
    hk ▸ Call.runDeferred_nil hnone

/-- The calls put off on the frame run until none is left. -/
theorem halts_runDeferred (hfuel : Tendsto fuel atTop atTop)
    (hall : (c.entered stack frame).HandlesAll ev) (hf : (c.entered stack frame).Fits f σ)
    (hcalls : ∀ d ∈ σ.deferredOf frame, σ.Due m frame d) :
    (c.entered stack frame).HaltsAt (σ.Keeps (some frame)) Never Any
      (fun n => Call.runDeferred (ev n) (fuel n) frame) f σ := by
  induction m generalizing fuel f σ with
  | zero =>
    refine halts_runDeferred_nil hfuel hf (List.eq_nil_iff_forall_not_mem.mpr fun d hd => ?_)
    obtain ⟨k, hk, _⟩ := (hcalls d hd).shallow
    exact Nat.not_lt_zero k hk
  | succ m ih =>
    by_cases hnone : σ.deferredOf frame = []
    · exact halts_runDeferred_nil hfuel hf hnone
    · have hkeeps : σ.Keeps (some frame) (σ.takeDeferred frame).2 := .takeDeferred
      have round := halts_round hall hf.takeDeferred fun d hd =>
        (hcalls d hd).later hkeeps.toExtends
      have run := round.bind (l := fun n _ => Call.runDeferred (ev n) (fuel n - 1) frame)
        (S := σ.Keeps (some frame)) (Ψ := Any) (fun _ g τ hg hτ _ => ?_)
        fun τ hτ => hkeeps.trans hτ.toKeeps
      · refine .of_fuel hfuel run fun n k hk => ?_
        rw [hk]
        exact Call.runDeferred_cons hnone
      · obtain ⟨new, heq, hnew⟩ := hτ.added frame rfl
        rw [Drain.deferredOf_takeDeferred, List.nil_append] at heq
        refine (ih (tendsto_pred hfuel) hg fun d hd => hnew d (heq ▸ hd)).mono
          (fun υ hυ => hkeeps.trans (hτ.toKeeps.trans hυ)) fun _ h => h

/-! ## The parameters and the body -/

theorem halts_bindFixed {params : List Param} {args : List Value} (hargs : AllTame args)
    (hparams : ∀ p ∈ params, ∀ e ∈ p.default, c.Handles ev m (.expr e)) :
    c.Halts m AllTame fun n => Call.bindFixed (ev n) params args := by
  induction params generalizing args with
  | nil => exact .pure hargs
  | cons p params ih =>
    have hrest : ∀ {args : List Value}, AllTame args →
        c.Halts m AllTame fun n => Call.bindFixed (ev n) params args := fun h =>
      ih h fun p' hp' => hparams p' (List.mem_cons_of_mem p hp')
    cases args with
    | cons a args =>
      exact (Halts.bindName (hargs a List.mem_cons_self)).seq fun _ =>
        hrest fun v hv => hargs v (List.mem_cons_of_mem a hv)
    | nil =>
      have go : ∀ v : Value, v.Tame → c.Halts m AllTame
          fun n => (do bindName p.name v; Call.bindFixed (ev n) params []) := fun v hv =>
        (Halts.bindName hv).seq fun _ => hrest allTame_nil
      unfold Call.bindFixed
      cases hdefault : p.default with
      | some e => exact (hparams p List.mem_cons_self e hdefault).tame.bind go
      | none => exact go .nothing trivial

theorem halts_bindParameters {lit : FunctionLit} {args : List Value} (hargs : AllTame args)
    (hlit : ∀ t ∈ lit.trees, c.Handles ev m t) :
    c.Halts m Any fun n => Call.bindParameters (ev n) lit args := by
  have count : c.Halts m Any fun _ => bindName "$argc" (.ofLength args.length) :=
    .bindName (within_ofLength args.length)
  have fixed : c.Halts m AllTame fun n => Call.bindFixed (ev n) lit.fixedParams args :=
    halts_bindFixed hargs fun p hp e he =>
      hlit _ (FunctionLit.mem_trees_of_default (List.mem_of_mem_take hp) he)
  refine fixed.bind fun rest hrest => ?_
  split
  · split
    · refine (Halts.newArray hrest).bind fun collected hcollected => ?_
      exact (Halts.bindName hcollected).seq fun _ => count
    · exact count
  · exact count

theorem halts_perform {lit : FunctionLit} {args : List Value} (hargs : AllTame args)
    (hlit : ∀ t ∈ lit.trees, c.Handles ev m t) :
    c.Halts m Value.Tame fun n => Call.perform (ev n) lit args :=
  (halts_bindParameters hargs hlit).seq fun _ => halts_block fun _ hs =>
    hlit _ (FunctionLit.mem_trees_of_body hs)

/-! ## Calls -/

/-- What a call answers is a value or an error. -/
theorem settled_callSettle {r : Except Exit Value} (h : Settled Value.Tame r) :
    Settled Value.Tame (Call.settle r) := by
  unfold Call.settle
  split
  · exact h.2
  · exact trivial
  · exact trivial
  · exact h

/-- The parameters, the body, and what was put off on the new frame. -/
theorem halts_activate {lit : FunctionLit} {args : List Value} (hfuel : Tendsto fuel atTop atTop)
    (hall : (c.entered stack frame).HandlesAll ev) (hlit : lit.LoopFree) (hargs : AllTame args)
    (hf : (c.entered stack frame).Fits f σ) (hnone : σ.deferredOf frame = []) :
    (c.entered stack frame).HaltsAt (σ.Keeps (some frame)) Never (Settled Value.Tame)
      (fun n => Call.activate (ev n) (fuel n) lit args frame) f σ := by
  obtain ⟨m, hm⟩ := Tree.exists_shallow_of_function hlit
  have performed := halts_perform hargs fun t ht => hall m t (hm t ht)
  refine (performed f σ hf).attempt.bind (fun r g τ hg hτ hr => ?_) fun _ h => h.toKeeps
  obtain ⟨new, heq, hnew⟩ := hτ.added frame rfl
  rw [hnone, List.nil_append] at heq
  refine (halts_runDeferred hfuel hall hg fun d hd => hnew d (heq ▸ hd)).bind
    (fun _ g' υ hg' hυ _ => ?_) fun υ hυ => hτ.toKeeps.trans hυ
  exact .pure hg' (hτ.toKeeps.trans hυ) (settled_callSettle hr)

/-- The body of a call runs in the setting of the call. -/
theorem Fits.enter {parent : ScopeId} {top : Frame} (hf : c.Fits f σ)
    (hmade : top.id.index < σ.deferred.size) :
    (c.entered stack top.id).Fits { f with scope := ⟨σ.scopes.size⟩, stack := stack }
      (σ.activation parent top).2 where
  stack := rfl
  thread := hf.thread
  owner := .activation
  made _ hframe := Option.some.inj hframe ▸ hmade
  closed := hf.closed.newScope fun _ _ => trivial
  loading := hf.loading
  programs := hf.programs
  free := hf.free
  idle := hf.idle

/-- The way back from a call. -/
theorem Fits.leave {g : Fiber} {τ : Store} (hf : c.Fits f σ) (he : σ.Extends τ)
    (hg : (c.entered stack frame).Fits g τ) (hstack : stack.pop = f.stack) :
    c.Fits { g with scope := f.scope, stack := g.stack.pop } τ where
  stack := by
    rw [show g.stack = stack from hg.stack]
    exact hstack.trans hf.stack
  thread := hg.thread
  owner := hf.owner.later he
  made frame hframe := Nat.lt_of_lt_of_le (hf.made frame hframe) he.frames
  closed := hg.closed
  loading := hg.loading
  programs := hg.programs
  free := hg.free
  idle := hg.idle

/-- Calls that are put off in a call are run there. -/
theorem leads_of_call {fn : Closure} {τ : Store} (hf : c.Fits f σ)
    (h : (Call.entryStore fn pos σ).Keeps (some (Call.frameOf fn pos σ).id) τ) :
    σ.Leads c.own 0 τ := by
  have he : σ.Extends (Call.entryStore fn pos σ) := Store.Extends.newFrame.trans .addScope
  refine .of_deferredOf (he.trans h.toExtends) (fun frame hframe => ?_) hf.made
  have hne : some frame ≠ some (Call.frameOf fn pos σ).id := by
    intro heq
    obtain rfl := Option.some.inj heq
    exact Nat.lt_irrefl _ hframe
  have hentry : (Call.entryStore fn pos σ).deferredOf frame = σ.deferredOf frame :=
    Store.deferredOf_newFrame fn.lit.displayName pos hframe
  exact (h.kept frame (Nat.lt_of_lt_of_le hframe he.frames) hne).trans hentry

/-- A call of a function written in the language: a stack that is full refuses it, and
otherwise the setting of the call is a smaller one. -/
theorem halts_invoke {fn : Closure} {args : List Value} (hfuel : Tendsto fuel atTop atTop)
    (hall : ∀ top stack, c.stack.push? top = some stack → (c.entered stack top.id).HandlesAll ev)
    (hfn : (Value.function fn).Tame) (hargs : AllTame args) :
    c.Halts 0 Value.Tame fun n => Call.invoke (ev n) (fuel n) fn args pos := by
  intro f σ hf
  have hmade : c.Fits f (σ.newFrame fn.lit.displayName pos).2 :=
    hf.step .newFrame hf.closed.newFrame rfl
  by_cases haccepts : fn.lit.accepts args.length = true
  · cases hpush : f.stack.push? (Call.frameOf fn pos σ) with
    | none =>
      have hframed : σ.Leads c.own 0 (σ.newFrame fn.lit.displayName pos).2 :=
        .of_deferredOf .newFrame (fun _ h => Store.deferredOf_newFrame _ _ h) hf.made
      have hpost : c.Post (σ.Leads c.own 0) (Exit.Within tame) Value.Tame
          (.error (.error ⟨.stackOverflow (f.stack.limit.getD 0), pos⟩)) f _ :=
        ⟨nofun, fun _ => ⟨hmade, hframed, trivial⟩⟩
      exact .of_done (fun _ => Call.invoke_full haccepts hpush) hpost
    | some stack =>
      have hnew : (Call.frameOf fn pos σ).id.index <
          (σ.newFrame fn.lit.displayName pos).2.deferred.size := by
        show σ.deferred.size < (σ.deferred.push []).size
        rw [Array.size_push]
        exact Nat.lt_succ_self _
      have run := halts_activate hfuel (hall _ _ (hf.stack ▸ hpush)) hfn.2 hargs (hmade.enter hnew)
        Call.deferredOf_entryStore
      refine run.andThen (fun _ => Call.invoke_apply haccepts hpush) ?_
      rintro (e | result) g τ hpost
      · exact .of_done (fun _ => rfl) ⟨hpost.1, fun he => (hpost.2 he).2.2.elim⟩
      · obtain ⟨hg, hτ, hresult⟩ := hpost
        have hleads := leads_of_call hf hτ
        have hback := hf.leave hleads.toExtends hg (CallStack.pop_of_push? hpush)
        cases result with
        | ok v => exact .of_done (fun _ => rfl) ⟨hback, hleads, hresult⟩
        | error e =>
          exact .of_done (fun _ => rfl)
            ⟨hresult.ne_exhausted, fun _ => ⟨hback, hleads, hresult.2⟩⟩
  · unfold Call.invoke
    simp only [if_neg haccepts]
    exact Halts.fail f σ hf

end Setting
end TreeWalk
