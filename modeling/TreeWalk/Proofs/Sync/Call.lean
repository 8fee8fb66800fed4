/-
Calls of the methods of synchronization objects, as steps on the store.

A method waits for an event and then answers nothing, or it is all or nothing:
it changes its object or fails and leaves the store as it was.
-/
import TreeWalk.Eval.Object
import TreeWalk.Proofs.Atomic.Sound

namespace TreeWalk

open Eval

variable {f f' : Fiber} {σ σ' : Store} {v : Value} {e : Exit}

section Cells

variable {α : Type} {cells : Array α} {i : Nat} {a : α}

theorem getD_of_cell (h : cells[i]? = some a) (otherwise : α) : cells.getD i otherwise = a := by
  rw [Array.getD_eq_getD_getElem?, h, Option.getD_some]

theorem cell_of_set (h : cells[i]? = some a) (b : α) : (cells.setIfInBounds i b)[i]? = some b :=
  Array.getElem?_setIfInBounds_self_of_lt (Array.getElem?_eq_some_iff.mp h).1

end Cells

namespace Step

/-- The step of a task that goes on once the event has come about, and has nothing
to answer. -/
def after (event : Event) (f : Fiber) (σ : Store) : Step Value :=
  match event.happen? σ with
  | some (_, σ') => .done (.ok .nothing) f σ'
  | none => .wait event σ fun _ σ' => .done (.ok .nothing) f σ'

/-- The step of a task that makes a change if it can, and fails otherwise. -/
def ifCan (change? : Option Store) (cause : Cause) (pos : Position) (f : Fiber) (σ : Store) :
    Step Value :=
  match change? with
  | some σ' => .done (.ok .nothing) f σ'
  | none => .done (.error (.error ⟨cause, pos⟩)) f σ

variable {event : Event} {change? : Option Store} {cause : Cause} {pos : Position}

theorem happens_of_after (h : after event f σ = .done (.ok v) f' σ') :
    ∃ a, event.happen? σ = some (a, σ') := by
  unfold after at h
  split at h
  · next a τ hstep =>
    obtain rfl := (Step.done.inj h).2.2
    exact ⟨a, hstep⟩
  · cases h

theorem after_ne_error : after event f σ ≠ .done (.error e) f' σ' := by
  unfold after
  split
  · intro h
    cases (Step.done.inj h).1
  · intro h
    cases h

theorem of_ifCan_ok (h : ifCan change? cause pos f σ = .done (.ok v) f' σ') :
    change? = some σ' := by
  cases change? with
  | some τ => exact congrArg some (Step.done.inj h).2.2
  | none => cases (Step.done.inj h).1

theorem of_ifCan_error (h : ifCan change? cause pos f σ = .done (.error e) f' σ') : σ' = σ := by
  cases change? with
  | some τ => cases (Step.done.inj h).1
  | none => exact (Step.done.inj h).2.2.symm

end Step

theorem await_apply (event : Event) :
    (do let _ ← await event; return .nothing : Eval Value) f σ = .after event f σ := by
  rw [bind_apply]
  unfold await Step.after
  cases event.happen? σ with
  | some result => rfl
  | none => rfl

/-- The method that a call without arguments runs. -/
def Args.method? {μ : Type} [MethodTable μ] (args : Args) : Option μ :=
  match args.values with
  | [] => MethodTable.find? args.name
  | _ :: _ => none

theorem Args.method?_eq_some {μ : Type} [MethodTable μ] {args : Args} {m : μ}
    (h : args.method? = some m) : args.values = [] ∧ MethodTable.find? args.name = some m := by
  unfold method? at h
  split at h
  · next hnil => exact ⟨hnil, h⟩
  · cases h

namespace Object

section Dispatch

variable {μ : Type} [MethodTable μ] {args : Args} {kind : String} {run : μ → Eval Value}

theorem dispatch_eq {m : μ} (h : args.method? = some m) :
    (do lift args.empty; dispatch kind args run : Eval Value) f σ = run m f σ := by
  obtain ⟨hvalues, hfind⟩ := Args.method?_eq_some h
  unfold dispatch Args.empty
  rw [hvalues, hfind]
  rfl

theorem dispatch_none (h : args.method? (μ := μ) = none) :
    ∃ e, (do lift args.empty; dispatch kind args run : Eval Value) f σ = .done (.error e) f σ := by
  unfold Args.method? at h
  unfold dispatch Args.empty
  split at h
  · next hvalues =>
    rw [hvalues, h]
    exact ⟨_, rfl⟩
  · next hvalues =>
    rw [hvalues]
    exact ⟨_, rfl⟩

end Dispatch


theorem release_apply (released? : Store → Option Store) (kind : String) (pos : Position) :
    lift (release released? kind pos) f σ = .ifCan (released? σ) (.unlock kind) pos f σ := by
  unfold lift release
  rw [Atomic.read_bind_apply]
  cases released? σ with
  | some σ' => rfl
  | none => rfl

theorem addTo_apply (id : WaitGroupId) (delta : Int64) (pos : Position) :
    lift (addTo id delta pos) f σ =
      .ifCan (((σ.waitGroup id).add? delta).map (σ.setWaitGroup id)) .waitGroupNegative pos f σ := by
  unfold lift addTo
  rw [Atomic.read_bind_apply]
  cases (σ.waitGroup id).add? delta with
  | some w => rfl
  | none => rfl

end Object
end TreeWalk
