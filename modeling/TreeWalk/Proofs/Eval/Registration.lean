/-
What is put off lies in what is evaluated.

A call is put off on the frame on top by a `defer` in the code that runs there, and what
is called meanwhile runs on frames of its own.  So with a frame on top an evaluation
gives it only calls that lie in the tree evaluated, outside of its function literals, and
a call of a value gives it none.
-/
import TreeWalk.Proofs.Eval.Aligned
import TreeWalk.Proofs.Eval.Watch

namespace TreeWalk

open Discipline

/-- From the first store to the second, a frame loses none of its calls and is given only
such as `allowed` holds of. -/
def Store.GivesOnly (frame : FrameId) (allowed : Expr → Prop) (σ σ' : Store) : Prop :=
  ∃ new, σ'.deferredOf frame = σ.deferredOf frame ++ new ∧ ∀ d ∈ new, allowed d.call

namespace Store.GivesOnly

variable {frame : FrameId} {allowed allowed' : Expr → Prop} {σ σ' σ'' : Store}

theorem of_eq (h : σ'.deferredOf frame = σ.deferredOf frame) : σ.GivesOnly frame allowed σ' :=
  ⟨[], by rw [h, List.append_nil], fun d hd => nomatch hd⟩

theorem of_same (h : σ'.deferred = σ.deferred) : σ.GivesOnly frame allowed σ' := by
  refine of_eq ?_
  unfold deferredOf
  rw [h]

theorem trans (h : σ.GivesOnly frame allowed σ') (h' : σ'.GivesOnly frame allowed σ'') :
    σ.GivesOnly frame allowed σ'' := by
  obtain ⟨new, heq, hnew⟩ := h
  obtain ⟨later, heq', hlater⟩ := h'
  refine ⟨new ++ later, by rw [heq', heq, List.append_assoc], fun d hd => ?_⟩
  rcases List.mem_append.mp hd with hd | hd
  · exact hnew d hd
  · exact hlater d hd

theorem mono (h : σ.GivesOnly frame allowed σ') (hle : ∀ call, allowed call → allowed' call) :
    σ.GivesOnly frame allowed' σ' := by
  obtain ⟨new, heq, hnew⟩ := h
  exact ⟨new, heq, fun d hd => hle d.call (hnew d hd)⟩

/-- A new frame changes nothing for one that was there before. -/
theorem newFrame {name : String} {pos : Position} (hold : frame.index < σ.deferred.size) :
    σ.GivesOnly frame allowed (σ.newFrame name pos).2 := by
  have h : σ.Registers none (σ.newFrame name pos).2 := .newFrame
  exact of_eq (h.kept frame hold nofun)

/-- Neither does taking the calls of another frame. -/
theorem takeDeferred {other : FrameId} (hne : other.index ≠ frame.index) :
    σ.GivesOnly frame allowed (σ.takeDeferred other).2 := by
  refine of_eq ?_
  simp only [deferredOf, Store.takeDeferred, Array.getD_eq_getD_getElem?,
    Array.getElem?_setIfInBounds, if_neg hne]

theorem defer {other : FrameId} {d : Deferred} (h : other = frame → allowed d.call) :
    σ.GivesOnly frame allowed (σ.defer other d) := by
  by_cases hne : frame = other
  · subst hne
    rcases getD_modify_cases σ.deferred frame.index frame.index [] (· ++ [d]) with heq | heq
    · refine ⟨[d], heq, fun d' hd' => ?_⟩
      obtain rfl := List.mem_singleton.mp hd'
      exact h rfl
    · exact of_eq heq
  · exact of_eq (deferredOf_defer_of_ne hne)

end Store.GivesOnly

/-- What an evaluation at `here` that began with `σ₀` may have come to: as before, and an
old frame has been given only such calls as `allowed` holds of. -/
structure Registering (frame : FrameId) (allowed : Expr → Prop) (b : Bool) (here : Site)
    (σ₀ σ : Store) : Prop where
  aligned : Aligned b here σ₀ σ
  old : frame.index < σ₀.deferred.size
  gives : σ₀.GivesOnly frame allowed σ

namespace Registering

variable {frame : FrameId} {allowed : Expr → Prop} {b : Bool} {here there : Site}
  {σ₀ σ σ' : Store}

theorem begin (h : Aligned b here σ₀ σ₀) (hold : frame.index < σ₀.deferred.size) :
    Registering frame allowed b here σ₀ σ₀ := ⟨h, hold, .of_eq rfl⟩

theorem old_now (h : Registering frame allowed b here σ₀ σ) : frame.index < σ.deferred.size :=
  Nat.lt_of_lt_of_le h.old h.aligned.lexical.grows.frames

theorem step (h : Registering frame allowed b here σ₀ σ) (haligned : Aligned b here σ₀ σ')
    (hgives : σ.GivesOnly frame allowed σ') : Registering frame allowed b here σ₀ σ' :=
  ⟨haligned, h.old, h.gives.trans hgives⟩

/-- The same for a change that leaves the calls put off alone. -/
theorem step_same (h : Registering frame allowed b here σ₀ σ) (haligned : Aligned b here σ₀ σ')
    (hdeferred : σ'.deferred = σ.deferred) : Registering frame allowed b here σ₀ σ' :=
  h.step haligned (.of_same hdeferred)

/-- Into another site, from where the frame is as old. -/
theorem enter (h : Registering frame allowed b here σ₀ σ) (haligned : Aligned true there σ σ')
    (hgives : σ.GivesOnly frame allowed σ') : Registering frame allowed true there σ σ' :=
  ⟨haligned, h.old_now, hgives⟩

/-- A frame that has just been made is another one. -/
theorem index_ne (h : Registering frame allowed b here σ₀ σ) {other : FrameId}
    (hnew : σ₀.deferred.size ≤ other.index) : other.index ≠ frame.index := by
  have hold := h.old
  omega

end Registering

namespace Discipline

/-- The discipline of tasks that run by themselves and put off only such calls on a frame
as `allowed` holds of. -/
def registering (frame : FrameId) (allowed : Expr → Prop) : Discipline where
  resumes := .alone
  puts stack call := stack.topId? = some frame → allowed call
  home scopes s := s.index < scopes.size
  fit := Registering frame allowed
  pending := aligned.pending

variable {frame : FrameId} {allowed : Expr → Prop}

theorem lawful_registering : (registering frame allowed).Lawful where
  tells := tells_free
  later := lawful_aligned.later
  home_new := lawful_aligned.home_new
  weaken h := ⟨lawful_aligned.weaken h.aligned, h.old, h.gives⟩
  restart h := .begin (lawful_aligned.restart h.aligned) h.old_now
  trans h h' := ⟨lawful_aligned.trans h.aligned h'.aligned, h.old, h.gives.trans h'.gives⟩
  closed h := lawful_aligned.closed h.aligned
  inside h := lawful_aligned.inside h.aligned
  quiet h hq := h.step_same (h.aligned.quiet hq) hq.deferred
  resume {_ _ _ σ _ _ _} h hresume := by
    have hclosed : σ.Closed (aligned.At σ) := lawful_aligned.closed h.aligned
    obtain ⟨hquiet, hknown⟩ := quiet_of_alone hclosed hresume
    exact ⟨h.step_same (h.aligned.quiet hquiet) hquiet.deferred, hknown⟩
  bind h hv := h.step_same (lawful_aligned.bind h.aligned hv) rfl
  rebind h hs hbound hv := h.step_same (lawful_aligned.rebind h.aligned hs hbound hv) rfl
  print {_ here _ _ _} h := h.step_same h.aligned.print (by cases here.sink <;> rfl)
  enum h hmembers := h.step_same (lawful_aligned.enum h.aligned hmembers) rfl
  enter_child h := h.enter h.aligned.enter_child (.of_same rfl)
  leave_child h h' := h.step (lawful_aligned.leave_child h.aligned h'.aligned) h'.gives
  enter_unit h := h.enter h.aligned.enter_unit (.of_same rfl)
  leave_unit h h' := h.step (lawful_aligned.leave_unit h.aligned h'.aligned) h'.gives
  puts_unit := fun htop => nomatch htop
  frame h := h.step (lawful_aligned.frame h.aligned) (.newFrame h.old_now)
  enter_call {_ _ _ σ name pos _ _} h hparent hpush := by
    have hframe : σ.GivesOnly frame allowed (σ.newFrame name pos).2 := .newFrame h.old_now
    exact h.enter (h.aligned.enter_call hparent hpush) (hframe.trans (.of_same rfl))
  leave_call h hpush h' := h.step (h.aligned.leave_call hpush h'.aligned) h'.gives
  puts_call h hpush htop := by
    -- The frame on top of the new calls is newer than `frame`.
    have heq := Option.some.inj ((CallStack.topId?_of_push? hpush).symm.trans htop)
    exact absurd (congrArg FrameId.index heq).symm (Nat.ne_of_lt h.old_now)
  take h hnew := h.step (lawful_aligned.take h.aligned hnew) (.takeDeferred (h.index_ne hnew))
  pending_take h hnew htop hd := lawful_aligned.pending_take h.aligned hnew htop hd
  pending_later hd h := lawful_aligned.pending_later hd h.aligned
  enter_turn h hd := h.enter (lawful_aligned.enter_turn h.aligned hd) (.of_eq rfl)
  leave_turn h hd h' := h.step (lawful_aligned.leave_turn h.aligned hd h'.aligned) h'.gives
  defer {_ here _ σ other call} h hframe hputs := by
    refine h.step (h.aligned.defer hframe) (.defer fun heq => hputs ?_)
    have htop : σ.frameId? here.scope = here.stack.topId? := h.aligned.top
    rw [← htop, ← heq]
    exact congrArg (Option.map Frame.id) hframe
  spawn h := h.step_same (lawful_aligned.spawn h.aligned) rfl

end Discipline

/-- The frame on top is only given calls that the request puts off. -/
theorem gives_of_aligned {fuel : Nat} {q : Request} {f : Fiber} {σ : Store} {frame : FrameId}
    (hfit : Aligned false f.site σ σ) (hq : q.Within (·.index < σ.scopes.size))
    (htop : f.stack.topId? = some frame) :
    σ.GivesOnly frame q.PutsOff ((evaluator fuel).serve q f σ).alone.store := by
  have hsound : (registering frame q.PutsOff).Sound (evaluator fuel) (evaluator fuel) :=
    sound_evaluator lawful_registering fuel
  have runs : (registering frame q.PutsOff).Runs q.binds q.ways
      (registering frame q.PutsOff).Holds f.site σ σ ((evaluator fuel).serve q)
      ((evaluator fuel).serve q) := hsound.runs_serve hq
  have hputs : (registering frame q.PutsOff).Admits f.site.stack q.ways :=
    ⟨fun call hcall _ => hcall⟩
  have hbegin : Aligned q.binds f.site σ σ := by
    cases q.binds with
    | false => exact hfit
    | true => exact lawful_aligned.weaken hfit
  have hstart : Registering frame q.PutsOff q.binds f.site σ σ :=
    .begin hbegin (hfit.lt_of_top htop)
  exact (runs hstart f rfl).store_of_alone (fun _ h => Registering.gives h)
    fun _ _ _ h => Registering.gives h.1

end TreeWalk
