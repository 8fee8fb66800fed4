/-
Programs without open loops come to an end.

A session with a finite limit and loop-free code is a setting in which all loop-free
trees halt.  What holds of the sparing evaluator holds of the evaluator wherever no
expression has a channel as its value, or something else that tasks wait for: up to there
both go the same way.
-/
import TreeWalk.Proofs.Eval.Hygiene
import TreeWalk.Proofs.Halting.Depth

namespace TreeWalk

open Eval Value Filter

namespace Session

variable {s : Session} {limit : Nat}

/-- A session with a finite limit for calls and with loop-free code only, where no task is
under way. -/
structure Bounded (s : Session) (limit : Nat) : Prop where
  limit : s.fiber.stack.limit = some limit
  ordered : s.store.Ordered
  closed : s.store.Closed tame
  units : Setting.UnitsLoopFree s.store.programs
  free : ∀ holder depth, s.store.including = some (holder, depth) → holder = s.fiber.thread
  idle : s.store.running = 0

theorem bounded_ofSetup {setup : Setup} (hlimit : setup.depthLimit = some limit)
    (hunits : Setting.UnitsLoopFree setup.programs) : (ofSetup setup).Bounded limit where
  limit := hlimit
  ordered := (wellFormed_ofSetup setup).ordered
  closed := by
    have hstart : (startStore setup).Closed tame := Store.closed_start fun _ _ => within_registry
    have hroot : (startStore setup).rootScope.2.Closed tame := hstart.newScope nofun
    have hargs : AllTame (setup.args.map Value.ofString).toArray.toList := by
      intro v hv
      obtain ⟨text, _, rfl⟩ := List.mem_map.mp hv
      exact within_ofString text
    exact ((Store.quiet_newArray hargs).closed hroot).bind trivial
  units := hunits
  free := nofun
  idle := rfl

/-- The setting of a program that a session runs. -/
def setting (s : Session) (own : Option FrameId) : Setting :=
  ⟨s.fiber.stack, s.fiber.thread, own, s.store.modules.loading, s.store.programs⟩

theorem Bounded.fits {scope : ScopeId} {own : Option FrameId} (hs : s.Bounded limit)
    (howner : s.store.Owner scope own)
    (hmade : ∀ frame, own = some frame → frame.index < s.store.deferred.size) :
    (s.setting own).Fits { s.fiber with scope := scope } s.store where
  stack := rfl
  thread := rfl
  owner := howner
  made := hmade
  closed := hs.closed
  loading := rfl
  programs := rfl
  free := hs.free
  idle := hs.idle

/-- What a program comes to: a value or an error. -/
def Concludes (r : Except Exit Value) : Prop := (∃ v, r = .ok v) ∨ ∃ e, r = .error (.error e)

/-- A fault of a program becomes an error, or a value where faults are swallowed. -/
theorem concludes_guarded {x : Nat → Eval Value} {f : Fiber} {σ : Store} (swallow : Bool)
    (h : Comes x f σ fun r _ _ => Concludes r ∨ ∃ message, r = .error (.fault message)) :
    Comes (fun n => guarded swallow (x n)) f σ fun r _ _ => Concludes r := by
  refine h.andThen (fun _ => rfl) ?_
  rintro r g τ ((⟨v, rfl⟩ | ⟨e, rfl⟩) | ⟨message, rfl⟩)
  · exact .of_done (fun _ => rfl) (.inl ⟨v, rfl⟩)
  · exact .of_done (fun _ => rfl) (.inr ⟨e, rfl⟩)
  · refine .of_done (fun _ => rfl) ?_
    cases swallow with
    | true => exact .inl ⟨.nothing, rfl⟩
    | false => exact .inr ⟨_, rfl⟩

/-- The sparing evaluator brings every loop-free program to its end. -/
theorem Bounded.comes {scope : ScopeId} {program : Program} (refusal : String) (hs : s.Bounded limit)
    (hscope : scope.index < s.store.scopes.size)
    (hprogram : ∀ t ∈ program, (Tree.stmt t).LoopFree) :
    Comes (fun n => withScope scope (Control.topLevel (sparing refusal n) program)) s.fiber s.store
      fun r _ _ => Concludes r ∨ ∃ message, r = .error (.fault message) := by
  obtain ⟨own, howner, hmade⟩ := hs.ordered.exists_owner hscope
  obtain ⟨m, hm⟩ := Tree.exists_shallow_of_block hprogram
  have hall := Setting.handlesAll_sparing refusal (s.setting own) limit hs.limit hs.units
  have run := Setting.haltsAt_topLevel (fun t ht => hall m _ (hm t ht)) (hs.fits howner hmade)
  refine Comes.andThen run (fun _ => rfl) ?_
  rintro (e | v) g τ hpost
  · refine .of_done (fun _ => rfl) ?_
    cases e with
    | fault message => exact .inr ⟨message, rfl⟩
    | exhausted => exact absurd rfl hpost.1
    | _ =>
      obtain ⟨error, herror⟩ := (hpost.2 rfl).2.2
      exact .inl (.inr ⟨error, congrArg Except.error herror⟩)
  · exact .of_done (fun _ => rfl) (.inl (.inl ⟨v, rfl⟩))

/-- A program that does not wait is run to its end. -/
theorem runWith_of_done {fuel : Nat} {ev : Evaluator} {scope : ScopeId} {program : Program}
    {r : Except Exit Value} {f : Fiber} {σ : Store}
    (h : programWith ev s.swallowsFaults scope program s.fiber s.store = .done r f σ) :
    s.runWith fuel ev scope program = (r, { s with store := σ, fiber := f }) := by
  unfold runWith execWithin
  rw [h]
  cases fuel with
  | zero => rfl
  | succ fuel => rfl

end Session

/-- With enough fuel a run is the same where values that tasks share are refused. -/
def Session.Spares (s : Session) (scope : ScopeId) (program : Program) : Prop :=
  ∃ refusal enough, ∀ n, enough ≤ n →
    s.runWith n (evaluator n) scope program = s.runWith n (sparing refusal n) scope program

/-- No expression that a program comes to has a channel as its value, or something else
that tasks wait for: with enough fuel, none is refused. -/
def Session.Unshared (s : Session) (scope : ScopeId) (program : Program) : Prop :=
  ∃ refusal enough, ∀ n, enough ≤ n → ∀ f σ,
    withScope scope (Control.topLevel (sparing refusal n) program) s.fiber s.store ≠
      .done (.error (.fault refusal)) f σ

/-- The evaluator and the sparing one go in step as long as nothing is refused. -/
theorem Session.Bounded.spares {s : Session} {limit : Nat} {scope : ScopeId} {program : Program}
    (hs : s.Bounded limit) (hscope : scope.index < s.store.scopes.size)
    (hprogram : ∀ t ∈ program, (Tree.stmt t).LoopFree) (h : s.Unshared scope program) :
    s.Spares scope program := by
  obtain ⟨refusal, least, hnever⟩ := h
  obtain ⟨r, f, σ, hdone, -⟩ := hs.comes refusal hscope hprogram
  obtain ⟨enough, henough⟩ := eventually_atTop.mp hdone
  refine ⟨refusal, max least enough, fun n hn => ?_⟩
  have hsparing : withScope scope (Control.topLevel (sparing refusal n) program) s.fiber s.store =
      .done r f σ := henough n (le_of_max_le_right hn)
  have hcut : Cut (· = .fault refusal)
      (withScope scope (Control.topLevel (sparing refusal n) program))
      (withScope scope (Control.topLevel (evaluator n) program)) :=
    ((cut_sparing refusal n).topLevel program).withScope
  have hstep := hcut s.fiber s.store
  rw [hsparing] at hstep
  have hfull := Cut.eq_of_done hstep fun hrefused => by
    cases r with
    | ok v => exact hrefused
    | error e => exact hnever n (le_of_max_le_left hn) f σ (hrefused ▸ hsparing)
  simp only [runWith, execWithin, programWith, guarded, hfull, hsparing]

/-- Bounded recursion makes loop-free programs terminate.  With a finite limit for calls,
a program and units without `while`, `do`, `forever`, `for (;;)` and `spawn`, and no
function with one of them in the store, a run comes to one and the same end with all
fuel from some amount on, and that is a value or an error; a fault has become one of
them.  This holds from every scope, as long as the run is the same without values that
tasks share, and so it is if no expression has one of them as its value. -/
theorem loop_free_terminates :
    (∀ (setup : Setup) (limit : Nat), setup.depthLimit = some limit →
      Setting.UnitsLoopFree setup.programs → (Session.ofSetup setup).Bounded limit) ∧
    (∀ (s : Session) (limit : Nat) (scope : ScopeId) (program : Program), s.Bounded limit →
      scope.index < s.store.scopes.size → (∀ t ∈ program, (Tree.stmt t).LoopFree) →
      s.Unshared scope program → s.Spares scope program) ∧
    ∀ (s : Session) (limit : Nat) (scope : ScopeId) (program : Program), s.Bounded limit →
      scope.index < s.store.scopes.size → (∀ t ∈ program, (Tree.stmt t).LoopFree) →
      s.Spares scope program →
      ∃ enough r s', (∀ n, enough ≤ n → s.runWith n (evaluator n) scope program = (r, s')) ∧
        Session.Concludes r := by
  refine ⟨fun setup limit => Session.bounded_ofSetup, ?_, ?_⟩
  · intro s limit scope program hs hscope hprogram h
    exact hs.spares hscope hprogram h
  · intro s limit scope program hs hscope hprogram ⟨refusal, spared, hspared⟩
    obtain ⟨r, f, σ, hdone, hr⟩ :=
      Session.concludes_guarded s.swallowsFaults (hs.comes refusal hscope hprogram)
    obtain ⟨enough, henough⟩ := eventually_atTop.mp hdone
    refine ⟨max spared enough, r, { s with store := σ, fiber := f }, fun n hn => ?_, hr⟩
    rw [hspared n (le_of_max_le_left hn)]
    exact Session.runWith_of_done (henough n (le_of_max_le_right hn))

/-- `f()` -/
def callStmt : Stmt := ⟨.unknown, .expr (.bare (.call (.bare (.ident "f")) []))⟩

/-- `fn f() { f() }` -/
def runawayLit : FunctionLit := ⟨some "f", [], false, [callStmt]⟩

/-- A function that calls itself, and a call of it. -/
def runaway : Program := [⟨.unknown, .function "f" runawayLit⟩, callStmt]

/-- A session with room for one call. -/
def narrow : Session := .ofSetup { depthLimit := some 1 }

theorem loopFree_callStmt : (Tree.stmt callStmt).LoopFree := by
  have ident : (Tree.expr (.bare (.ident "f"))).LoopFree := .node rfl nofun nofun nofun
  have call : (Tree.expr (.bare (.call (.bare (.ident "f")) []))).LoopFree := by
    refine .node rfl (fun p hp => ?_) nofun nofun
    obtain rfl := List.mem_singleton.mp hp
    exact ident
  refine .node rfl (fun p hp => ?_) nofun nofun
  obtain rfl := List.mem_singleton.mp hp
  exact call

theorem loopFree_runaway : ∀ t ∈ runaway, (Tree.stmt t).LoopFree := by
  refine List.forall_mem_cons.mpr ⟨.node rfl nofun (fun lit hlit inner hinner => ?_) nofun, ?_⟩
  · obtain rfl := List.mem_singleton.mp hlit
    obtain rfl := List.mem_singleton.mp hinner
    exact loopFree_callStmt
  · exact List.forall_mem_singleton.mpr loopFree_callStmt

/-- The call that does not fit ends all: the frame of the first call is taken off, and
nothing was put off on either. -/
def runawayEnd : Store :=
  { narrow.store with
    scopes := #[⟨[("$args", .array ⟨0⟩), ("f", .function ⟨⟨0⟩, runawayLit, ⟨0⟩⟩)], none, none, false⟩,
      ⟨[("$argc", .ofLength 0)], some ⟨0⟩, some ⟨⟨0⟩, "f", .unknown⟩, false⟩]
    deferred := #[[], []]
    functions := 1 }

theorem unshared_runaway : narrow.Unshared ⟨0⟩ runaway := by
  refine ⟨"shared", 6, fun n hn f σ hrefused => ?_⟩
  obtain ⟨n, rfl⟩ := Nat.exists_eq_add_of_le' hn
  have hsparing : withScope ⟨0⟩ (Control.topLevel (sparing "shared" (n + 6)) runaway) narrow.fiber
      narrow.store = .done (.error (.error ⟨.stackOverflow 1, .unknown⟩)) narrow.fiber runawayEnd := rfl
  rw [hsparing] at hrefused
  injection hrefused with hresult
  cases hresult

theorem loop_free_terminates_runaway :
    ∃ enough r s', (∀ n, enough ≤ n → narrow.runWith n (evaluator n) ⟨0⟩ runaway = (r, s')) ∧
      Session.Concludes r := by
  obtain ⟨hsetup, hspares, hterminates⟩ := loop_free_terminates
  have hbounded : narrow.Bounded 1 := hsetup _ 1 rfl nofun
  exact hterminates narrow 1 ⟨0⟩ runaway hbounded (by decide) loopFree_runaway
    (hspares narrow 1 ⟨0⟩ runaway hbounded (by decide) loopFree_runaway unshared_runaway)

end TreeWalk
