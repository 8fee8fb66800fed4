/-
Calls that were put off run once, in order.

A call that is put off is kept on the frame on top, and the call that the frame was
made for runs what is kept there when its parameters and its body have ended.  What
is put off meanwhile comes last.  So the calls run are those put off, each once, in
the order in which they were put off, and what they end with is dropped.
-/
import TreeWalk.Proofs.Eval.Aligned
import TreeWalk.Proofs.Eval.Balance
import TreeWalk.Proofs.Eval.Hygiene

namespace TreeWalk

open Discipline Eval

/-- The calls put off on a frame run.  From those that have been taken from the
frame, with a fiber and a store, it tells the calls that are put off on the frame
meanwhile, the calls that are evaluated, and the fiber and the store at the end. -/
inductive Drain (ev : Evaluator) (frame : FrameId) :
    List Deferred → Fiber → Store → List Deferred → List Deferred → Fiber → Store → Prop
  | finish {f σ} (h : σ.deferredOf frame = []) :
      Drain ev frame [] f σ [] [] f (σ.takeDeferred frame).2
  | take {f σ registered served g τ} (h : σ.deferredOf frame ≠ [])
      (rest : Drain ev frame (σ.deferredOf frame) f (σ.takeDeferred frame).2 registered served g τ) :
      Drain ev frame [] f σ registered served g τ
  /-- The next call is evaluated in the scope it was put off from, with the frame on
  top.  Whatever it ends with, the others follow. -/
  | turn {d calls f σ r g τ new registered served g' τ'} (htop : f.stack.topId? = some frame)
      (heval : (ev.expr d.call { f with scope := d.scope } σ).alone = .ended r g τ)
      (hkept : ∀ e, r = .error e → e.isAbort = false)
      (hnew : τ.deferredOf frame = σ.deferredOf frame ++ new)
      (rest : Drain ev frame calls { g with scope := f.scope } τ registered served g' τ') :
      Drain ev frame (d :: calls) f σ (new ++ registered) (d :: served) g' τ'

namespace Call

variable {ev : Evaluator} {fuel : Nat} {frame : FrameId} {f : Fiber} {σ : Store}

theorem runDeferred_nil (h : σ.deferredOf frame = []) :
    runDeferred ev (fuel + 1) frame f σ = .done (.ok ()) f (σ.takeDeferred frame).2 := by
  unfold runDeferred
  rw [iterate_succ, bind_apply, bind_apply]
  have htake : (σ.takeDeferred frame).1 = [] := h
  simp only [change, htake]
  rfl

theorem runDeferred_cons (h : σ.deferredOf frame ≠ []) :
    runDeferred ev (fuel + 1) frame f σ =
      (foldList (fun _ d => runOne ev d) (σ.deferredOf frame) () >>= fun _ =>
        runDeferred ev fuel frame) f (σ.takeDeferred frame).2 := by
  unfold runDeferred
  rw [iterate_succ, bind_assoc, bind_apply]
  obtain ⟨d, calls, hcalls⟩ := List.exists_cons_of_ne_nil h
  have htake : (σ.takeDeferred frame).1 = d :: calls := hcalls
  simp only [change, htake, hcalls, Step.andThen_done, follow, bind_assoc, pure_bind]

end Call

namespace Drain

variable {ev : Evaluator} {frame : FrameId} {calls registered served : List Deferred} {f g : Fiber}
  {σ τ : Store}

theorem deferredOf_takeDeferred (σ : Store) (frame : FrameId) :
    (σ.takeDeferred frame).2.deferredOf frame = [] := by
  simp only [Store.takeDeferred, Store.deferredOf, Array.getD_eq_getD_getElem?,
    Array.getElem?_setIfInBounds_self]
  split
  · rfl
  · rfl

/-- Every call put off is evaluated once, in order. -/
theorem served_eq (h : Drain ev frame calls f σ registered served g τ) :
    served = calls ++ (σ.deferredOf frame ++ registered) := by
  induction h with
  | finish h => rw [h]; rfl
  | take h rest ih =>
    rw [deferredOf_takeDeferred] at ih
    rw [ih]
    rfl
  | turn htop heval hkept hnew rest ih =>
    rw [ih, hnew]
    simp only [List.cons_append, List.append_assoc]

/-- None is left at the end. -/
theorem deferredOf_eq (h : Drain ev frame calls f σ registered served g τ) :
    τ.deferredOf frame = [] := by
  induction h with
  | finish h => exact deferredOf_takeDeferred _ _
  | take h rest ih => exact ih
  | turn htop heval hkept hnew rest ih => exact ih

end Drain

/-! ## Calls put off -/

section Running

variable {ev : Evaluator} {frame : FrameId} {f g : Fiber} {σ₀ σ τ : Store}
  (hev : aligned.Sound ev ev)
include hev

/-- One call that was put off runs, and leaves what is needed for the next one. -/
theorem turn_of_alone {d : Deferred} (hfit : Aligned true f.site σ₀ σ)
    (hd : aligned.pending f.site σ₀ σ d) (htop : f.stack.topId? = some frame)
    (h : (Call.runOne ev d f σ).alone = .ended (.ok ()) g τ) :
    (∃ r g' new, (ev.expr d.call { f with scope := d.scope } σ).alone = .ended r g' τ ∧
      (∀ e, r = .error e → e.isAbort = false) ∧
      τ.deferredOf frame = σ.deferredOf frame ++ new ∧ g = { g' with scope := f.scope }) ∧
    g.site = f.site ∧ Aligned true f.site σ₀ τ ∧
      ∀ d', aligned.pending f.site σ₀ σ d' → aligned.pending f.site σ₀ τ d' := by
  have hrun := (hev.runs_runOne hd hfit f rfl).of_alone_ended h
  refine ⟨?_, hrun.2.2.1, hrun.1, hrun.2.2.2⟩
  rw [Call.runOne_apply] at h
  obtain ⟨r, g', τ', heval, hend⟩ := Step.alone_andThen_ended h
  have hin := lawful_aligned.enter_turn hfit hd
  have hpost := (hev.expr d.call { f.site with scope := d.scope } σ hin { f with scope := d.scope }
    rfl).of_alone_ended heval
  have hturn : Aligned true { f.site with scope := d.scope } σ τ' := hpost.1
  obtain ⟨new, hnew⟩ := hturn.registers.added frame (hfit.lt_of_top htop)
  cases r with
  | ok v =>
    cases hend
    exact ⟨_, g', new, heval, fun e he => (nomatch he), hnew.symm, rfl⟩
  | error e =>
    dsimp only at hend
    split at hend
    · cases hend
    · next habort =>
      cases hend
      exact ⟨_, g', new, heval, kept_of_not_isAbort habort, hnew.symm, rfl⟩

/-- The calls taken from the frame run one after the other. -/
theorem drain_calls {calls : List Deferred} (hfit : Aligned true f.site σ₀ σ)
    (hcalls : ∀ d ∈ calls, aligned.pending f.site σ₀ σ d) (htop : f.stack.topId? = some frame)
    (h : (foldList (fun _ d => Call.runOne ev d) calls () f σ).alone = .ended (.ok ()) g τ) :
    g.site = f.site ∧ Aligned true f.site σ₀ τ ∧
      ∀ registered served g' τ', Drain ev frame [] g τ registered served g' τ' →
        ∃ registered' served', Drain ev frame calls f σ registered' served' g' τ' := by
  induction calls generalizing f σ with
  | nil =>
    cases h
    exact ⟨rfl, hfit, fun registered served _ _ hrest => ⟨registered, served, hrest⟩⟩
  | cons d calls ih =>
    rw [foldList_cons] at h
    obtain ⟨_, f', σ', hone, hrest⟩ := alone_bind_ok h
    obtain ⟨⟨r, g', new, heval, hkept, hnew, hback⟩, hsite, hfit', hlater⟩ :=
      turn_of_alone hev hfit (hcalls d List.mem_cons_self) htop hone
    have hstack := congrArg Site.stack hsite
    obtain ⟨hsite', hfit'', hdrain⟩ := ih (hsite ▸ hfit')
      (fun d' hd' => hsite ▸ hlater d' (hcalls d' (List.mem_cons_of_mem d hd')))
      ((congrArg CallStack.topId? hstack).trans htop) hrest
    refine ⟨hsite'.trans hsite, hsite ▸ hfit'', fun registered served _ _ hend => ?_⟩
    obtain ⟨registered', served', hcalls'⟩ := hdrain registered served _ _ hend
    exact ⟨new ++ registered', d :: served', .turn htop heval hkept hnew (hback ▸ hcalls')⟩

/-- What was put off on the frame of a call runs until nothing is left. -/
theorem drain_of_alone {fuel : Nat} (hfit : Aligned true f.site σ₀ σ)
    (hnew : σ₀.deferred.size ≤ frame.index) (htop : f.stack.topId? = some frame)
    (h : (Call.runDeferred ev fuel frame f σ).alone = .ended (.ok ()) g τ) :
    ∃ registered served, Drain ev frame [] f σ registered served g τ := by
  induction fuel generalizing f σ with
  | zero => cases h
  | succ fuel ih =>
    by_cases hnone : σ.deferredOf frame = []
    · rw [Call.runDeferred_nil hnone] at h
      cases h
      exact ⟨[], [], .finish hnone⟩
    · rw [Call.runDeferred_cons hnone] at h
      obtain ⟨_, f', σ', hcalls, hnext⟩ := alone_bind_ok h
      have hpending : ∀ d ∈ σ.deferredOf frame,
          aligned.pending f.site σ₀ (σ.takeDeferred frame).2 d := fun d hd =>
        lawful_aligned.pending_take hfit hnew htop hd
      obtain ⟨hsite, hfit', hdrain⟩ :=
        drain_calls hev (lawful_aligned.take hfit hnew) hpending htop hcalls
      have hstack := congrArg Site.stack hsite
      obtain ⟨registered, served, hrest⟩ := ih (hsite ▸ hfit')
        ((congrArg CallStack.topId? hstack).trans htop) hnext
      obtain ⟨registered', served', hcalls'⟩ := hdrain registered served _ _ hrest
      exact ⟨registered', served', .take hnone hcalls'⟩

end Running

/-! ## Calls -/

/-- How a call of a function goes whose frame fits on the stack: parameters and
body, then the calls put off on its frame, each once and in order, and then the way
back with what the body ended with. -/
def Call.GoesThrough (ev : Evaluator) (c : Closure) (args : List Value) (pos : Position) (f : Fiber)
    (σ : Store) (stack : CallStack) (r : Except Exit Value) (g : Fiber) (τ : Store) : Prop :=
  ∃ result g₁ σ₁ registered served g₂,
    (entryStore c pos σ).deferredOf (frameOf c pos σ).id = [] ∧
    (perform ev c.lit args { f with scope := ⟨σ.scopes.size⟩, stack := stack }
      (entryStore c pos σ)).alone = .ended result g₁ σ₁ ∧
    (∀ e, result = .error e → e.isAbort = false) ∧
    Drain ev (frameOf c pos σ).id [] g₁ σ₁ registered served g₂ τ ∧
    served = σ₁.deferredOf (frameOf c pos σ).id ++ registered ∧
    τ.deferredOf (frameOf c pos σ).id = [] ∧
    r = settle result ∧ g = { g₂ with scope := f.scope, stack := f.stack }

/-- A frame is made with nothing put off on it. -/
theorem Call.deferredOf_entryStore {c : Closure} {pos : Position} {σ : Store} :
    (entryStore c pos σ).deferredOf (frameOf c pos σ).id = [] := by
  show (σ.deferred.push []).getD σ.deferred.size [] = []
  rw [Array.getD_eq_getD_getElem?, Array.getElem?_push_size]
  rfl

/-- A call comes to a result in two steps: its body, and what was put off. -/
theorem Call.activate_ok {ev : Evaluator} {fuel : Nat} {lit : FunctionLit} {args : List Value}
    {frame : FrameId} {f g : Fiber} {σ τ : Store} {settled : Except Exit Value}
    (h : (activate ev fuel lit args frame f σ).alone = .ended (.ok settled) g τ) :
    ∃ result g₁ σ₁, (perform ev lit args f σ).alone = .ended result g₁ σ₁ ∧
      (∀ e, result = .error e → e.isAbort = false) ∧
      (runDeferred ev fuel frame g₁ σ₁).alone = .ended (.ok ()) g τ ∧ settled = settle result := by
  obtain ⟨result, g₁, σ₁, hattempt, hrest⟩ := alone_bind_ok h
  obtain ⟨hperform, hresult⟩ := alone_attempt_ok hattempt
  obtain ⟨_, g₂, σ₂, hdeferred, hpure⟩ := alone_bind_ok hrest
  cases hpure
  exact ⟨result, g₁, σ₁, hperform, hresult, hdeferred, rfl⟩

/-- Where the body of a function has ended, all is aligned, with its frame on top. -/
theorem Call.performed_of_alone {ev : Evaluator} (hev : aligned.Sound ev ev) {c : Closure}
    {args : List Value} {pos : Position} {f g : Fiber} {σ τ : Store} {stack : CallStack}
    {result : Except Exit Value} (hfit : Aligned false f.site σ σ)
    (hc : c.scope.index < σ.scopes.size) (hargs : aligned.HoldsAll σ args)
    (hpush : f.stack.push? (frameOf c pos σ) = some stack)
    (hperform : (perform ev c.lit args { f with scope := ⟨σ.scopes.size⟩, stack := stack }
      (entryStore c pos σ)).alone = .ended result g τ)
    (hkept : ∀ e, result = .error e → e.isAbort = false) :
    Aligned true g.site σ τ ∧ g.stack.topId? = some (frameOf c pos σ).id := by
  have hin : Aligned true { f.site with scope := ⟨σ.scopes.size⟩, stack := stack } σ
      (entryStore c pos σ) := lawful_aligned.enter_call hfit hc hpush
  have hargs' : aligned.HoldsAll (entryStore c pos σ) args :=
    lawful_aligned.later_newScope.values hargs
  have hbody := (hev.runs_perform hargs' hin
    { f with scope := ⟨σ.scopes.size⟩, stack := stack } rfl).of_alone_ended hperform
  have hsite : g.site = { f.site with scope := ⟨σ.scopes.size⟩, stack := stack } :=
    hbody.site_eq hkept
  have htop : stack.topId? = some (frameOf c pos σ).id := CallStack.topId?_of_push? hpush
  exact ⟨hsite ▸ hbody.1, (congrArg (fun here => CallStack.topId? here.stack) hsite).trans htop⟩

theorem Call.goesThrough_of_alone {ev : Evaluator} (hev : aligned.Sound ev ev) {fuel : Nat}
    {c : Closure} {args : List Value} {pos : Position} {f g : Fiber} {σ τ : Store}
    {stack : CallStack} {r : Except Exit Value} (hfit : Aligned false f.site σ σ)
    (hc : c.scope.index < σ.scopes.size) (hargs : aligned.HoldsAll σ args)
    (haccepts : c.lit.accepts args.length = true)
    (hpush : f.stack.push? (frameOf c pos σ) = some stack)
    (h : (invoke ev fuel c args pos f σ).alone = .ended r g τ)
    (hkept : ∀ e, r = .error e → e.isAbort = false) :
    GoesThrough ev c args pos f σ stack r g τ := by
  have hin : Aligned true { f.site with scope := ⟨σ.scopes.size⟩, stack := stack } σ
      (entryStore c pos σ) :=
    lawful_aligned.enter_call hfit hc hpush
  rw [invoke_apply haccepts hpush] at h
  obtain ⟨r', g₂, τ', hactivate, hend⟩ := Step.alone_andThen_ended h
  have hpost := (hev.runs_entered hargs hpush hin
    { f with scope := ⟨σ.scopes.size⟩, stack := stack } rfl).of_alone_ended hactivate
  cases r' with
  | error e =>
    cases hend
    have habort := Ways.isAbort_of_none hpost.2.2.2.1
    rw [hkept e rfl] at habort
    cases habort
  | ok settled =>
    cases hend
    obtain ⟨result, g₁, σ₁, hperform, hresult, hdeferred, rfl⟩ := activate_ok hactivate
    obtain ⟨hperformed, htop⟩ := performed_of_alone hev hfit hc hargs hpush hperform hresult
    obtain ⟨registered, served, hdrain⟩ :=
      drain_of_alone hev hperformed (Nat.le_refl _) htop hdeferred
    have hstack : g₂.stack.pop = f.stack := by
      rw [show g₂.stack = stack from congrArg Site.stack hpost.2.2.1]
      exact CallStack.pop_of_push? hpush
    refine ⟨result, g₁, σ₁, registered, served, g₂, deferredOf_entryStore, hperform, hresult, hdrain,
      hdrain.served_eq, hdrain.deferredOf_eq, rfl, ?_⟩
    rw [hstack]

/-- What is put off successfully is kept on the frame of the current scope. -/
theorem Control.deferCall_ok {call : Expr} {pos : Position} {f g : Fiber} {σ τ : Store} {v : Value}
    (h : (deferCall call pos f σ).alone = .ended (.ok v) g τ) :
    ∃ frame, σ.frame? f.scope = some frame ∧ τ = σ.defer frame.id ⟨call, f.scope⟩ := by
  by_cases hcall : call.isCall = true
  · unfold deferCall at h
    rw [if_pos hcall] at h
    obtain ⟨_, _, _, hfiber, h⟩ := alone_bind_ok h
    cases hfiber
    obtain ⟨found, f', σ', hread, h⟩ := alone_bind_ok h
    have hread : Outcome.ended (.ok (σ.frame? f.scope)) f σ = .ended (.ok found) f' σ' := hread
    simp only [Outcome.ended.injEq, Except.ok.injEq] at hread
    obtain ⟨hframe, rfl, rfl⟩ := hread
    cases found with
    | none => cases h
    | some frame =>
      cases h
      exact ⟨frame, hframe, rfl⟩
  · unfold deferCall at h
    rw [if_neg hcall] at h
    cases h

/-- A call that is put off is put off on the frame on top, from the current
scope. -/
theorem defer_of_alone {fuel : Nat} {pos : Position} {call : Expr} {f g : Fiber} {σ τ : Store}
    {v : Value} (hfit : Aligned false f.site σ σ)
    (h : ((evaluator (fuel + 1)).stmt ⟨pos, .defer call⟩ f σ).alone = .ended (.ok v) g τ) :
    ∃ frame, f.stack.top? = some frame ∧ τ = σ.defer frame.id ⟨call, f.scope⟩ := by
  rw [evaluator_stmt] at h
  obtain ⟨_, _, _, henter, h⟩ := alone_bind_ok h
  cases henter
  obtain ⟨frame, hframe, rfl⟩ := Control.deferCall_ok h
  have htop : f.stack.topId? = some frame.id := by
    rw [← show σ.frameId? f.scope = f.stack.topId? from hfit.top]
    exact congrArg (Option.map Frame.id) hframe
  obtain ⟨top, htop, hid⟩ := Option.map_eq_some_iff.mp htop
  exact ⟨top, htop, hid ▸ rfl⟩

/-! ## Everywhere on the way -/

/-- What is evaluated deals with calls put off in order. -/
structure Orderly (fuel : Nat) (q : Request) (f : Fiber) (σ : Store) : Prop where
  /-- Only the frame on top is given calls on the way, and no frame loses one that was
  there before. -/
  registers : σ.Registers f.stack.topId? ((evaluator (fuel + 1)).serve q f σ).alone.store
  /-- A call that is put off is put off on the frame on top. -/
  defer : ∀ pos call v g τ, q = .stmt ⟨pos, .defer call⟩ →
    ((evaluator (fuel + 1)).serve q f σ).alone = .ended (.ok v) g τ →
    ∃ frame, f.stack.top? = some frame ∧ τ = σ.defer frame.id ⟨call, f.scope⟩
  /-- A function that is called runs what was put off on its frame. -/
  call : ∀ c args pos stack r g τ, q = .call (.function c) args pos →
    c.lit.accepts args.length = true →
    f.stack.push? (Call.frameOf c pos σ) = some stack →
    ((evaluator (fuel + 1)).serve q f σ).alone = .ended r g τ →
    (∀ e, r = .error e → e.isAbort = false) →
    Call.GoesThrough (evaluator fuel) c args pos f σ stack r g τ

theorem orderly_of_aligned {fuel : Nat} {q : Request} {f : Fiber} {σ : Store}
    (hfit : Aligned false f.site σ σ) (hq : q.Within (·.index < σ.scopes.size)) :
    Orderly fuel q f σ where
  registers := by
    have runs : aligned.Runs q.binds q.ways aligned.Holds f.site σ σ
        ((evaluator (fuel + 1)).serve q) ((evaluator (fuel + 1)).serve q) :=
      (sound_evaluator lawful_aligned (fuel + 1)).runs_serve hq
    have hbegin : Aligned q.binds f.site σ σ :=
      ⟨.begin hfit.lexical.ordered hfit.lexical.closed hfit.lexical.inside, hfit.top, .refl σ⟩
    exact (runs hbegin f rfl).store_of_alone (fun _ h => Aligned.registers h)
      fun _ _ _ h => Aligned.registers h.1
  defer pos call v g τ hq h := by
    subst hq
    exact defer_of_alone hfit h
  call c args pos stack r g τ hcall haccepts hpush h hkept := by
    subst hcall
    have hinvoke : (Call.invoke (evaluator fuel) fuel c args pos f σ).alone = .ended r g τ := by
      rw [← h]
      show _ = ((evaluator (fuel + 1)).call (.function c) args pos f σ).alone
      rw [evaluator_call]
      rfl
    exact Call.goesThrough_of_alone (sound_evaluator lawful_aligned fuel) hfit hq.1.1 hq.2 haccepts
      hpush hinvoke hkept

/-- A state in which the frame on top is that of the scope. -/
structure Tidy (f : Fiber) (σ : Store) : Prop where
  wellFormed : WellFormed f σ
  top : σ.frameId? f.scope = f.stack.topId?

theorem Tidy.aligned {f : Fiber} {σ : Store} (h : Tidy f σ) {b : Bool} : Aligned b f.site σ σ :=
  ⟨.begin h.wellFormed.ordered h.wellFormed.closed h.wellFormed.inside, h.top, .refl σ⟩

/-- Watching for it changes nothing. -/
theorem sound_orderly (fuel : Nat) : aligned.Sound (evaluator fuel) (watched Orderly fuel) :=
  sound_watched lawful_aligned (fun _ _ _ _ hfit hq => orderly_of_aligned hfit hq) fuel

namespace Session

/-- A session between evaluations: no call and no task is under way. -/
structure Idle (s : Session) : Prop where
  tidy : Tidy s.fiber s.store
  stack : s.fiber.stack.frames = []
  tasks : s.tasks = []

theorem idle_ofSetup (setup : Setup) : (ofSetup setup).Idle where
  tidy := ⟨wellFormed_ofSetup setup, rfl⟩
  stack := rfl
  tasks := rfl

/-- A program leaves a store that fits its beginning. -/
theorem alike_programIn_aligned {swallow : Bool} {program : Program} {f : Fiber} {σ : Store}
    (h : Tidy f σ) :
    (programIn swallow f.scope program f σ).Alike .alone (Aligned true f.site σ)
      (fun _ _ τ => Aligned true f.site σ τ) σ (programIn swallow f.scope program f σ) := by
  have runs : aligned.Runs true .failing aligned.Holds f.site σ σ
      (Control.topLevel (evaluator fuel) program) (Control.topLevel (evaluator fuel) program) :=
    (sound_evaluator lawful_aligned fuel).runs_topLevel (Ways.le_refl _)
  unfold programIn programWith guarded withScope
  rw [Step.andThen_andThen]
  refine (runs h.aligned f rfl).andThen (fun _ h => h) ?_
  intro r g τ hpost
  cases r with
  | ok v => exact .ended hpost.1
  | error e =>
    cases e with
    | fault message => exact .ended hpost.1
    | _ => exact .ended hpost.1

/-- Programs lead from idle sessions to idle sessions. -/
theorem Idle.run {s : Session} {program : Program} (h : s.Idle)
    (hsolo : (programIn s.swallowsFaults s.fiber.scope program s.fiber s.store).Solo)
    (hended : (s.run program).1 ≠ .error .exhausted) : (s.run program).2.Idle := by
  obtain ⟨hscope, hstack⟩ := (s.ends_runIn s.fiber.scope program).2 hended
  obtain ⟨htasks, hstore⟩ := exec_solo h.tasks (alike_programIn_aligned h.tidy) hsolo
  have hfit : Aligned true s.fiber.site s.store (s.run program).2.store :=
    hstore.elim id fun hgiven => hgiven.2.2
  have hframes : (s.run program).2.fiber.stack.frames = [] := hstack h.stack
  have hscope : (s.run program).2.fiber.scope = s.fiber.scope := hscope
  have hnone : ∀ stack : CallStack, stack.frames = [] → stack.topId? = none := by
    intro stack hempty
    unfold CallStack.topId? CallStack.top?
    rw [hempty]
    rfl
  refine ⟨⟨⟨hfit.lexical.ordered, hfit.lexical.closed, ?_⟩, ?_⟩, hframes, htasks⟩
  · rw [hscope]
    exact hfit.lexical.inside
  · rw [hscope, hnone _ hframes, ← hnone _ h.stack]
    exact hfit.top

end Session

/-- Calls that are put off run once, in order, in every run of a session without
other tasks.  A new session is idle, and so it is after each program.  In states as
an idle session has them, whatever is evaluated is orderly, and so is everything
that is evaluated on the way: a call is put off on the frame on top, and a function
that is called, unless a fault ends it, runs the calls put off on its frame after
its parameters and its body, each of them once, in order, in the scope it was put
off from, with the frame still on top, and ends as its body did. -/
theorem deferred_calls_run_once :
    (∀ setup : Setup, (Session.ofSetup setup).Idle) ∧
    (∀ (s : Session) (program : Program), s.Idle →
      (Session.programIn s.swallowsFaults s.fiber.scope program s.fiber s.store).Solo →
      (s.run program).1 ≠ .error .exhausted → (s.run program).2.Idle) ∧
    (∀ (program : Program) (f : Fiber) (σ : Store), Tidy f σ →
      (Control.topLevel (watched Orderly Session.fuel) program f σ).alone =
        (Control.topLevel (evaluator Session.fuel) program f σ).alone) ∧
    (∀ (fuel : Nat) (q : Request) (f : Fiber) (σ : Store), Tidy f σ →
      q.Within (·.index < σ.scopes.size) → Orderly fuel q f σ ∧
        ((watched Orderly fuel).serve q f σ).alone = ((evaluator fuel).serve q f σ).alone) := by
  refine ⟨Session.idle_ofSetup, fun s program hidle => hidle.run, ?_, ?_⟩
  · intro program f σ h
    have runs : aligned.Runs true .failing aligned.Holds f.site σ σ
        (Control.topLevel (evaluator Session.fuel) program)
        (Control.topLevel (watched Orderly Session.fuel) program) :=
      (sound_orderly Session.fuel).runs_topLevel (Ways.le_refl _)
    exact (runs h.aligned f rfl).alone_eq.symm
  · intro fuel q f σ h hq
    have runs : aligned.Runs q.binds q.ways aligned.Holds f.site σ σ ((evaluator fuel).serve q)
        ((watched Orderly fuel).serve q) := (sound_orderly fuel).runs_serve hq
    exact ⟨orderly_of_aligned h.aligned hq, (runs h.aligned f rfl).alone_eq.symm⟩

/-- `fn() { defer fn() { return 1 }(); return 2 }` -/
def deferringFunction : FunctionLit :=
  ⟨none, [], false, [⟨.unknown, .defer (.bare (.call (.bare (.function
    ⟨none, [], false, [⟨.unknown, .ret [.bare (.int 1)]⟩]⟩)) []))⟩, ⟨.unknown, .ret [.bare (.int 2)]⟩]⟩

/-- The program that calls it. -/
def deferringProgram : Program :=
  [⟨.unknown, .expr (.bare (.call (.bare (.function deferringFunction)) []))⟩]

theorem deferred_calls_run_once_function :
    ((Session.ofSetup {}).run deferringProgram).2.Idle ∧
    (Control.topLevel (watched Orderly Session.fuel) deferringProgram
        (Session.ofSetup {}).fiber (Session.ofSetup {}).store).alone =
      (Control.topLevel (evaluator Session.fuel) deferringProgram
        (Session.ofSetup {}).fiber (Session.ofSetup {}).store).alone ∧
    ∃ g σ registered served g' τ, Drain (evaluator 8) ⟨0⟩ [] g σ registered served g' τ ∧
      served.map (·.scope) = ⟨1⟩ :: registered.map (·.scope) := by
  obtain ⟨hfresh, hrun, hwatched, hserve⟩ := deferred_calls_run_once
  refine ⟨hrun _ _ (hfresh {}) (.of_isDone (by decide +kernel)) ?_,
    hwatched _ _ _ (hfresh {}).tidy, ?_⟩
  · intro hexhausted
    have hok : ((Session.ofSetup {}).run deferringProgram).1.isOk = true := by decide +kernel
    rw [hexhausted] at hok
    cases hok
  · have horderly := (hserve 8 (.call (.function ⟨⟨0⟩, deferringFunction, ⟨0⟩⟩) [] .unknown)
      (Session.ofSetup {}).fiber (Session.ofSetup {}).store (hfresh {}).tidy
      ⟨⟨Nat.one_pos, trivial⟩, fun v hv => nomatch hv⟩).1
    have hok : ((evaluator 9).serve (.call (.function ⟨⟨0⟩, deferringFunction, ⟨0⟩⟩) [] .unknown)
        (Session.ofSetup {}).fiber (Session.ofSetup {}).store).alone.isOk = true := by decide +kernel
    obtain ⟨v, g, τ, hend⟩ := Outcome.exists_of_isOk hok
    obtain ⟨result, g₁, σ₁, registered, served, g₂, _, hperform, _, hdrain, hserved, _⟩ :=
      horderly.call _ _ _ _ _ _ _ rfl rfl rfl hend fun e he => (nomatch he)
    have hbody : ((Call.perform (evaluator 8) deferringFunction []
        ⟨0, ⟨1⟩, ⟨[⟨⟨0⟩, "fn", .unknown⟩], some 500⟩, .unknown, .capture⟩
        (Call.entryStore ⟨⟨0⟩, deferringFunction, ⟨0⟩⟩ .unknown
          (Session.ofSetup {}).store)).alone.store.deferredOf ⟨0⟩).map (·.scope) = [⟨1⟩] := by
      decide +kernel
    have hscopes : (σ₁.deferredOf ⟨0⟩).map (·.scope) = [⟨1⟩] :=
      (congrArg (fun o => (o.store.deferredOf ⟨0⟩).map (·.scope)) hperform).symm.trans hbody
    refine ⟨g₁, σ₁, registered, served, g₂, τ, hdrain, ?_⟩
    rw [hserved, List.map_append]
    exact congrArg (· ++ registered.map (·.scope)) hscopes

end TreeWalk
