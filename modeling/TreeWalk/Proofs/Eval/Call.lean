/-
Calls keep to a discipline.

A call is three computations in a row: the parameters and the body, the calls put
off meanwhile, and the way back.  All but the way back run at the site of the
call, for which the store before the call is the beginning.
-/
import TreeWalk.Eval.Call
import TreeWalk.Proofs.Atomic.Native
import TreeWalk.Proofs.Eval.Evaluator

namespace TreeWalk

open Eval Value

namespace CallStack

theorem top?_of_push? {s t : CallStack} {f : Frame} (h : s.push? f = some t) : t.top? = some f := by
  unfold push? at h
  split at h
  · cases h
  · obtain rfl := Option.some.inj h
    rfl

end CallStack

namespace Call

variable {ev : Evaluator} {fuel : Nat}

/-- One call that was put off: whatever it ends with is dropped, but an abort. -/
theorem runOne_apply (d : Deferred) (f : Fiber) (σ : Store) :
    runOne ev d f σ = (ev.expr d.call { f with scope := d.scope } σ).andThen fun r g τ =>
      match r with
      | .error e =>
        if e.isAbort then .done (.error e) { g with scope := f.scope } τ
        else .done (.ok ()) { g with scope := f.scope } τ
      | .ok _ => .done (.ok ()) { g with scope := f.scope } τ := by
  unfold runOne
  rw [bind_apply]
  unfold attempt withScope
  rw [Step.andThen_andThen, Step.andThen_andThen]
  congr 1
  funext r g τ
  cases r with
  | ok v => rfl
  | error e =>
    simp only [Step.andThen_done]
    split
    · rfl
    · rfl

/-- The parameters and the body of a call. -/
def perform (ev : Evaluator) (lit : FunctionLit) (args : List Value) : Eval Value := do
  bindParameters ev lit args
  ev.block lit.body

/-- The frame of a call that begins with a store. -/
def frameOf (f : Closure) (pos : Position) (σ : Store) : Frame :=
  (σ.newFrame f.lit.displayName pos).1

/-- The store in which the body of a call runs that begins with a store. -/
def entryStore (f : Closure) (pos : Position) (σ : Store) : Store :=
  ((σ.newFrame f.lit.displayName pos).2.activation f.scope (frameOf f pos σ)).2

/-- A call whose frame fits on the stack: its body, what was put off, and the way
back. -/
theorem invoke_apply {c : Closure} {args : List Value} {pos : Position} {f : Fiber} {σ : Store}
    {stack : CallStack} (haccepts : c.lit.accepts args.length = true)
    (hpush : f.stack.push? (frameOf c pos σ) = some stack) :
    invoke ev fuel c args pos f σ =
      (activate ev fuel c.lit args (frameOf c pos σ).id
        { f with scope := ⟨σ.scopes.size⟩, stack := stack } (entryStore c pos σ)).andThen
        fun r g τ =>
          match r with
          | .ok result => .done result { g with scope := f.scope, stack := g.stack.pop } τ
          | .error e => .done (.error e) { g with scope := f.scope } τ := by
  have hpushed : pushFrame (frameOf c pos σ) f (σ.newFrame c.lit.displayName pos).2 =
      .done (.ok ()) { f with stack := stack } (σ.newFrame c.lit.displayName pos).2 := by
    unfold pushFrame
    rw [hpush]
  unfold invoke
  rw [if_pos haccepts, bind_apply]
  show ((pushFrame (frameOf c pos σ) >>= _) f (σ.newFrame c.lit.displayName pos).2) = _
  rw [bind_apply, hpushed]
  show (withScope ⟨σ.scopes.size⟩ _ >>= _) { f with stack := stack } (entryStore c pos σ) = _
  rw [bind_apply]
  unfold withScope
  rw [Step.andThen_andThen]
  congr 1
  funext r g τ
  cases r with
  | ok result => rfl
  | error e => rfl

/-- A call whose frame does not fit on the stack fails. -/
theorem invoke_full {c : Closure} {args : List Value} {pos : Position} {f : Fiber} {σ : Store}
    (haccepts : c.lit.accepts args.length = true)
    (hpush : f.stack.push? (frameOf c pos σ) = none) :
    invoke ev fuel c args pos f σ =
      .done (.error (.error ⟨.stackOverflow (f.stack.limit.getD 0), pos⟩)) f
        (σ.newFrame c.lit.displayName pos).2 := by
  have hfull : pushFrame (frameOf c pos σ) f (σ.newFrame c.lit.displayName pos).2 =
      .done (.error (.error ⟨.stackOverflow (f.stack.limit.getD 0), pos⟩)) f
        (σ.newFrame c.lit.displayName pos).2 := by
    unfold pushFrame
    rw [hpush]
    rfl
  unfold invoke
  rw [if_pos haccepts, bind_apply]
  show ((pushFrame (frameOf c pos σ) >>= _) f (σ.newFrame c.lit.displayName pos).2) = _
  rw [bind_apply, hfull]
  rfl

end Call

namespace Discipline

variable {D : Discipline} {ev ev' : Evaluator} {b : Bool} {w : Ways} {here : Site} {σ₀ σ : Store}
  {fuel : Nat} {pos : Position}

/-- A frame and a scope are made for a call. -/
theorem Lawful.stretch_entryStore (hD : D.Lawful) {sink : Sink} {c : Closure} :
    D.stretch sink σ (Call.entryStore c pos σ) := by
  have hframe : D.stretch sink σ (σ.newFrame c.lit.displayName pos).2 := hD.tells.same rfl rfl
  exact (D.stretch sink).trans hframe hD.tells.scope

/-- What a call answers is a value or an error. -/
theorem settled_settle {r : Except Exit Value} (h : D.Settled .all D.Holds σ r) :
    D.Settled .failing D.Holds σ (Call.settle r) := by
  unfold Call.settle
  split
  · exact h.2.2
  · exact trivial
  · exact trivial
  · next hret hbrk hnext =>
    cases r with
    | ok v => exact h
    | error e =>
      cases e with
      | error e => exact ⟨rfl, trivial, trivial⟩
      | ret v => exact absurd rfl (hret v)
      | brk => exact absurd rfl hbrk
      | next => exact absurd rfl hnext
      | fault message => cases h.1
      | exhausted => cases h.1

namespace Sound

variable (hev : D.Sound ev ev')
include hev

theorem runs_bindFixed {params : List Param} {args : List Value} (hargs : D.HoldsAll σ args) :
    D.Runs true .all D.HoldsAll here σ₀ σ (Call.bindFixed ev params args)
      (Call.bindFixed ev' params args) := by
  induction params generalizing σ args with
  | nil => exact .pure hargs
  | cons p params ih =>
    cases args with
    | cons a args =>
      refine (hev.lawful.runs_bindName (hargs a List.mem_cons_self)).seq fun _ _ hlater => ih ?_
      exact hlater.values fun v hv => hargs v (List.mem_cons_of_mem a hv)
    | nil =>
      have go : ∀ v τ, D.Holds τ v → D.Runs true .all D.HoldsAll here σ₀ τ
          (do bindName p.name v; Call.bindFixed ev params [])
          (do bindName p.name v; Call.bindFixed ev' params []) := fun v τ hv =>
        (hev.lawful.runs_bindName hv).seq fun _ _ _ => ih holdsAll_nil
      unfold Call.bindFixed
      cases p.default with
      | some e => exact (hev.runs_expr (Ways.le_all _)).bind fun v τ _ hv => go v τ hv
      | none => exact go .nothing σ trivial

theorem runs_bindParameters {lit : FunctionLit} {args : List Value} (hargs : D.HoldsAll σ args) :
    D.Runs true .all Any here σ₀ σ (Call.bindParameters ev lit args)
      (Call.bindParameters ev' lit args) := by
  have count : ∀ τ, D.Runs true .all Any here σ₀ τ (bindName "$argc" (.ofLength args.length))
      (bindName "$argc" (.ofLength args.length)) := fun τ =>
    hev.lawful.runs_bindName (within_ofLength args.length)
  refine (hev.runs_bindFixed hargs).bind fun rest σ₁ _ hrest => ?_
  split
  · split
    · refine (hev.lawful.runs_newArray hrest).bind fun collected σ₂ _ hcollected => ?_
      exact (hev.lawful.runs_bindName hcollected).seq fun _ τ _ => count τ
    · exact count σ₁
  · exact count σ₁

/-! ## Calls put off -/

/-- One of the calls put off runs; the others may still run then. -/
theorem runs_runOne {d : Deferred} (hd : D.pending here σ₀ σ d) :
    D.Runs true .none (fun τ _ => ∀ d', D.pending here σ₀ σ d' → D.pending here σ₀ τ d') here σ₀ σ
      (Call.runOne ev d) (Call.runOne ev' d) := by
  intro hfit f hf hadmits
  obtain rfl := hf
  rw [Call.runOne_apply, Call.runOne_apply]
  have hin := hev.lawful.enter_turn hfit hd
  have hputs : D.Admits f.site.stack (Tree.expr d.call).ways :=
    ⟨fun call _ => hadmits.puts call trivial⟩
  refine (hev.expr d.call { f.site with scope := d.scope } σ hin { f with scope := d.scope }
    rfl).andThen (fun _ h => hev.lawful.leave_turn hfit hd h) ?_
  rintro r g τ ⟨hfit', hlater, hpost⟩
  have hback := hev.lawful.leave_turn hfit hd hfit'
  have hpending : ∀ d', D.pending f.site σ₀ σ d' → D.pending f.site σ₀ τ d' :=
    fun _ h => hev.lawful.pending_later h hfit'
  cases r with
  | ok v => exact .ended ⟨hback, hlater, Fiber.site_back hpost.1, hpending⟩
  | error e =>
    dsimp only
    split
    · next habort =>
      exact .ended ⟨hback, hlater, .inl ⟨trivial, habort⟩, Ways.allows_of_isAbort habort, hpost.2.2⟩
    · next habort =>
      have hsite := hpost.1.resolve_left fun h => habort h.2
      exact .ended ⟨hback, hlater, Fiber.site_back hsite, hpending⟩

/-- The calls put off on the frame of the call run until none is left. -/
theorem runs_runDeferred {frame : FrameId} (hnew : σ₀.deferred.size ≤ frame.index)
    (htop : here.stack.top?.map Frame.id = some frame) :
    D.Runs true .none Any here σ₀ σ (Call.runDeferred ev fuel frame)
      (Call.runDeferred ev' fuel frame) := by
  refine .iterate Any (fun σ' _ _ _ => .intro fun hfit => ?_) fuel trivial
  refine .change_then
    (fun _ => ⟨hev.lawful.take hfit hnew, .of_scopes_eq rfl, hev.lawful.tells.same rfl rfl⟩) ?_
  have hpending : ∀ d ∈ σ'.deferredOf frame,
      D.pending here σ₀ (σ'.takeDeferred frame).2 d := fun d hd =>
    hev.lawful.pending_take hfit hnew htop hd
  rw [show (σ'.takeDeferred frame).1 = σ'.deferredOf frame from rfl]
  cases hcalls : σ'.deferredOf frame with
  | nil => exact .pure trivial
  | cons d₀ rest =>
    rw [hcalls] at hpending
    refine (Runs.foldList (fun τ _ => ∀ d ∈ d₀ :: rest, D.pending here σ₀ τ d)
      (fun τ _ _ d hd hall => ?_) hpending).bind fun _ _ _ _ => .pure trivial
    exact (hev.runs_runOne (hall d hd)).mono (Ways.le_refl _) fun τ' _ _ hlater d' hd' =>
      hlater d' (hall d' hd')

/-! ## Calls -/

theorem runs_perform {lit : FunctionLit} {args : List Value} (hargs : D.HoldsAll σ args) :
    D.Runs true .all D.Holds here σ₀ σ (Call.perform ev lit args) (Call.perform ev' lit args) :=
  (hev.runs_bindParameters hargs).seq fun _ _ _ => hev.runs_block fun _ _ => Ways.le_all _

/-- Only an abort keeps a call from coming to a result. -/
theorem runs_activate {lit : FunctionLit} {args : List Value} {frame : FrameId}
    (hargs : D.HoldsAll σ args) (hnew : σ₀.deferred.size ≤ frame.index)
    (htop : here.stack.top?.map Frame.id = some frame) :
    D.Runs true .none (D.Settled .failing D.Holds) here σ₀ σ
      (Call.activate ev fuel lit args frame) (Call.activate ev' fuel lit args frame) := by
  have hputs : D.Admits here.stack .none → D.Admits here.stack .all := fun h => ⟨h.puts⟩
  refine ((hev.runs_perform hargs).attempt (fun _ => trivial) hputs).bind fun r σ₁ _ hr => ?_
  refine (hev.runs_runDeferred hnew htop).seq fun _ σ₂ hlater => .pure ?_
  exact settled_settle (hr.later hlater)

/-- The same where a call is entered. -/
theorem runs_entered {c : Closure} {args : List Value} {stack stack' : CallStack}
    (hargs : D.HoldsAll σ args) (hpush : stack.push? (Call.frameOf c pos σ) = some stack') :
    D.Runs true .none (D.Settled .failing D.Holds)
      { here with scope := ⟨σ.scopes.size⟩, stack := stack' } σ (Call.entryStore c pos σ)
      (Call.activate ev fuel c.lit args (Call.frameOf c pos σ).id)
      (Call.activate ev' fuel c.lit args (Call.frameOf c pos σ).id) := by
  have hlater : D.Later σ (Call.entryStore c pos σ) := hev.lawful.later_newScope
  have htop : stack'.top?.map Frame.id = some (Call.frameOf c pos σ).id := by
    rw [CallStack.top?_of_push? hpush]
    rfl
  exact hev.runs_activate (hlater.values hargs) (Nat.le_refl _) htop

/-- A call of a function written in the language ends with a value, an error or an
abort.  But for an abort, the task is back where it was. -/
theorem runs_invoke {c : Closure} {args : List Value} (hc : D.At σ c.scope)
    (hargs : D.HoldsAll σ args) :
    D.Runs false .failing D.Holds here σ σ (Call.invoke ev fuel c args pos)
      (Call.invoke ev' fuel c args pos) := by
  intro hfit f hf hadmits
  obtain rfl := hf
  by_cases haccepts : c.lit.accepts args.length = true
  · cases hpush : f.stack.push? (Call.frameOf c pos σ) with
    | none =>
      rw [Call.invoke_full haccepts hpush, Call.invoke_full haccepts hpush]
      exact .done (hev.lawful.tells.same rfl rfl)
        ⟨hev.lawful.frame hfit, .of_scopes_eq rfl, .inr rfl, trivial, trivial⟩
    | some stack =>
      rw [Call.invoke_apply haccepts hpush, Call.invoke_apply haccepts hpush]
      have hin := hev.lawful.enter_call hfit hc hpush
      have hlater : D.Later σ (Call.entryStore c pos σ) := hev.lawful.later_newScope
      have hputs : D.Admits stack .none := ⟨fun _ _ => hev.lawful.puts_call hfit hpush⟩
      refine .after hev.lawful.stretch_entryStore ((hev.runs_entered hargs hpush hin
        { f with scope := ⟨σ.scopes.size⟩, stack := stack } rfl).andThen
        (fun _ h => hev.lawful.leave_call hfit hpush h) ?_)
      rintro r g τ ⟨hfit', hlater', hpost⟩
      have hback := hev.lawful.leave_call hfit hpush hfit'
      cases r with
      | error e =>
        have habort := Ways.isAbort_of_none hpost.2.1
        exact .ended ⟨hback, hlater.trans hlater', .inl ⟨trivial, habort⟩,
          Ways.allows_of_isAbort habort, hpost.2.2⟩
      | ok result =>
        have hstack : g.stack.pop = f.stack := by
          rw [show g.stack = stack from congrArg Site.stack hpost.1]
          exact CallStack.pop_of_push? hpush
        have hsink : g.sink = f.sink := congrArg Site.sink hpost.1
        have hsite : ({ g with scope := f.scope, stack := g.stack.pop } : Fiber).site = f.site := by
          simp only [Fiber.site, hstack, hsink]
        have hresult := hpost.2
        cases result with
        | ok v => exact .ended ⟨hback, hlater.trans hlater', hsite, hresult⟩
        | error e => exact .ended ⟨hback, hlater.trans hlater', .inr hsite, hresult.2⟩
  · unfold Call.invoke
    rw [if_neg haccepts, if_neg haccepts]
    exact .ended ⟨hfit, .refl σ, .inr rfl, trivial, trivial⟩

theorem runs_callNative {n : Native} {args : List Value} (hargs : D.HoldsAll σ args) :
    D.Runs b .failing D.Holds here σ₀ σ (Call.callNative n args pos)
      (Call.callNative n args pos) :=
  .enter fun _ => .fiber fun f hf => by
    obtain rfl := hf
    refine (hev.lawful.runs_speak (Native.speaks_run hargs) trivial).mono
      (Ways.le_refl _) fun _ _ hlater h => hlater.value h

theorem runs_value {v : Value} {args : List Value} (hv : D.Holds σ v) (hargs : D.HoldsAll σ args) :
    D.Runs false .failing D.Holds here σ σ (Call.value ev fuel v args pos)
      (Call.value ev' fuel v args pos) := by
  cases v with
  | function c => exact hev.runs_invoke hv.1 hargs
  | native n => exact hev.runs_callNative hargs
  | _ => exact .fail trivial

end Sound
end Discipline
end TreeWalk
