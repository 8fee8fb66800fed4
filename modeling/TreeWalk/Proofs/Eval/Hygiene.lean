/-
Names stay where they are bound.

An evaluation by itself binds names in its own scope and in scopes that it makes.
It binds them in its own scope only if it is no call and no block with a scope of
its own.  Scopes keep their names, their parent and their frame for good, so the
way outwards from a scope never comes back to it.
-/
import TreeWalk.Proofs.Eval.Lexical
import TreeWalk.Proofs.Eval.Solo
import TreeWalk.Proofs.Eval.Watch
import TreeWalk.Session

namespace TreeWalk

open Discipline Eval

namespace Store

variable {σ : Store} {s t : ScopeId}

/-- A scope is inside of its parent. -/
def Inside (σ : Store) (s parent : ScopeId) : Prop := (σ.scope s).parent = some parent

theorem Ordered.lt_of_inside (ho : σ.Ordered) (h : Relation.TransGen σ.Inside s t) :
    t.index < s.index := by
  induction h with
  | single h => exact ho.parents _ _ h
  | tail _ h ih => exact Nat.lt_trans (ho.parents _ _ h) ih

/-- No scope is inside of itself. -/
theorem Ordered.acyclic (ho : σ.Ordered) (s : ScopeId) : ¬ Relation.TransGen σ.Inside s s :=
  fun h => Nat.lt_irrefl _ (ho.lt_of_inside h)

/-- A store with nothing in it but what the host provides. -/
theorem closed_start {p : Reach} {registry : Assoc Value} {programs : Option (Assoc Program)}
    (h : ∀ name v, registry.get? name = some v → v.Within p) :
    Closed p { registry := registry, programs := programs } := by
  constructor
  case registry => exact h
  case channels => exact fun _ => Channel.within_default
  case hashes => exact fun _ => Dict.within_empty
  case modules => simp [ModuleCache.get?, ModuleCache.empty]
  all_goals simp [array, getLocal?, scope, host, deferredOf, Value.ListWithin, Assoc.get?, default,
    Probe.toHost]

theorem sealed_start {registry : Assoc Value} {programs : Option (Assoc Program)}
    (h : ∀ name v, registry.get? name = some v → v.Within fun _ : ScopeId => False) :
    Sealed { registry := registry, programs := programs } :=
  (closed_start h).mono fun _ hs => hs.elim

end Store

/-- A state that a task can be in: scopes are newer than those around them, and
nothing leads out of the store. -/
structure WellFormed (f : Fiber) (σ : Store) : Prop where
  ordered : σ.Ordered
  closed : σ.Sealed
  inside : f.scope.index < σ.scopes.size

/-- What becomes of the scopes of a store. -/
structure Hygienic (binds : Bool) (scope : ScopeId) (σ τ : Store) : Prop where
  /-- Names are added to one of the scopes, if at all, and to new ones. -/
  added : ∀ (s : ScopeId) name, s.index < σ.scopes.size → τ.Binds s name →
    σ.Binds s name ∨ binds = true ∧ s = scope
  kept : ∀ s name, σ.Binds s name → τ.Binds s name
  parent : ∀ s : ScopeId, s.index < σ.scopes.size → (τ.scope s).parent = (σ.scope s).parent
  frame : ∀ s : ScopeId, s.index < σ.scopes.size → (τ.scope s).frame = (σ.scope s).frame
  acyclic : ∀ s, ¬ Relation.TransGen τ.Inside s s

theorem Lexical.hygienic {b : Bool} {here : Site} {σ₀ σ : Store} (h : Lexical b here σ₀ σ) :
    Hygienic b here.scope σ₀ σ where
  added := h.grows.added
  kept := h.grows.kept
  parent := h.grows.parent
  frame := h.grows.frame
  acyclic := h.ordered.acyclic

/-- What a request may come to that is served without other tasks. -/
def Contained (q : Request) (f : Fiber) (σ : Store) (r : Except Exit Value) (g : Fiber)
    (τ : Store) : Prop :=
  Hygienic q.binds f.scope σ τ ∧ ((∀ e, r = .error e → e.isAbort = false) → WellFormed g τ)

theorem alike_serve (fuel : Nat) {q : Request} {f : Fiber} {σ : Store} (hw : WellFormed f σ)
    (hq : q.Within (·.index < σ.scopes.size)) :
    ((evaluator fuel).serve q f σ).Alike .alone (Hygienic q.binds f.scope σ) (Contained q f σ) σ
      ((evaluator fuel).serve q f σ) := by
  have runs : lexical.Runs q.binds q.ways lexical.Holds f.site σ σ ((evaluator fuel).serve q)
      ((evaluator fuel).serve q) := (sound_evaluator lawful_lexical fuel).runs_serve hq
  refine (runs (Lexical.begin hw.ordered hw.closed hw.inside) f rfl).mono
    (fun _ h => Lexical.hygienic h) ?_
  intro r g τ hpost
  have hfit : Lexical q.binds f.site σ τ := hpost.1
  refine ⟨hfit.hygienic, fun hkept => ⟨hfit.ordered, hfit.closed, ?_⟩⟩
  rw [show g.scope = f.scope from congrArg Site.scope (hpost.site_eq hkept)]
  exact hfit.inside

namespace Session

/-- What the host publishes from the start leads to no scope. -/
theorem within_standardRegistry {p : Reach} {name : String} {v : Value}
    (h : standardRegistry.get? name = some v) : v.Within p := by
  obtain ⟨f, _, hf⟩ := List.mem_map.mp (Assoc.mem_of_get? h)
  obtain ⟨_, rfl⟩ := Prod.mk.inj hf
  exact Value.within_native f

/-- The store that a session is made from. -/
def startStore (setup : Setup) : Store :=
  { registry := if setup.standard then standardRegistry else [], programs := setup.programs }

theorem within_registry {p : Reach} {setup : Setup} {name : String} {v : Value}
    (h : (startStore setup).registry.get? name = some v) : v.Within p := by
  by_cases hstandard : setup.standard = true
  · rw [show (startStore setup).registry = standardRegistry from if_pos hstandard] at h
    exact within_standardRegistry h
  · rw [show (startStore setup).registry = [] from if_neg hstandard] at h
    cases h

theorem wellFormed_ofSetup (setup : Setup) :
    WellFormed (ofSetup setup).fiber (ofSetup setup).store := by
  let σ : Store := startStore setup
  have hclosed : σ.Sealed := Store.sealed_start fun _ _ => within_registry
  have hordered : σ.Ordered :=
    ⟨fun s parent hp => by simp [σ, startStore, Store.scope, default] at hp,
      fun s frame hf => by simp [σ, startStore, Store.scope, default] at hf⟩
  have hroot : Lexical true ⟨⟨σ.scopes.size⟩, .empty setup.depthLimit, setup.sink⟩ σ σ.rootScope.2 :=
    .enter_root hordered hclosed
  have hargs : Value.ListWithin (fun s : ScopeId => s.index < σ.rootScope.2.scopes.size)
      (setup.args.map Value.ofString).toArray.toList := by
    intro v hv
    obtain ⟨text, _, rfl⟩ := List.mem_map.mp hv
    exact Value.within_ofString text
  have hstart : Lexical true ⟨⟨σ.scopes.size⟩, .empty setup.depthLimit, setup.sink⟩ σ
      (ofSetup setup).store :=
    (hroot.quiet (Store.quiet_newArray hargs)).bind trivial fun _ => ⟨rfl, rfl⟩
  exact ⟨hstart.ordered, hstart.closed, hstart.inside⟩

end Session

/-- Names are bound hygienically by whatever is evaluated without other tasks, from
every state that a task can be in.  No scope that was there before is bound a new
name in, but for the scope of the evaluation if the request is an expression, a
statement or a plain block; none loses a name, its parent or its frame; and none is
inside of itself.  The same holds of a session that asks for no task, a session
begins in such a state, and evaluations lead from such states to such states. -/
theorem binding_hygiene :
    (∀ (fuel : Nat) (q : Request) (f : Fiber) (σ : Store), WellFormed f σ →
      q.Within (·.index < σ.scopes.size) →
      Hygienic q.binds f.scope σ ((evaluator fuel).serve q f σ).alone.store) ∧
    (∀ (fuel : Nat) (q : Request) (f g : Fiber) (σ τ : Store) (r : Except Exit Value),
      WellFormed f σ → q.Within (·.index < σ.scopes.size) →
      ((evaluator fuel).serve q f σ).alone = .ended r g τ →
      (∀ e, r = .error e → e.isAbort = false) → WellFormed g τ) ∧
    (∀ (s : Session) (q : Request), WellFormed s.fiber s.store →
      q.Within (·.index < s.store.scopes.size) → s.tasks = [] →
      ((evaluator Session.fuel).serve q s.fiber s.store).Solo →
      Hygienic q.binds s.fiber.scope s.store
        (s.exec ((evaluator Session.fuel).serve q)).2.store) ∧
    (∀ setup : Setup, WellFormed (Session.ofSetup setup).fiber (Session.ofSetup setup).store) := by
  refine ⟨?_, ?_, ?_, Session.wellFormed_ofSetup⟩
  · intro fuel q f σ hw hq
    exact (alike_serve fuel hw hq).store_of_alone (fun _ h => h) fun _ _ _ h => h.1
  · intro fuel q f g σ τ r hw hq hend hkept
    exact ((alike_serve fuel hw hq).of_alone_ended hend).2 hkept
  · intro s q hw hq htasks hsolo
    have hexec := Session.exec_solo htasks (alike_serve Session.fuel hw hq) hsolo
    exact hexec.2.elim (fun h => h.1) fun h => h.2.2

/-- `let x = 1` -/
def bindingBlock : Block := [⟨.unknown, .bind ["x"] [.bare (.int 1)]⟩]

theorem binding_hygiene_block :
    (((evaluator 4).serve (.innerBlock bindingBlock) (Session.ofSetup {}).fiber
        (Session.ofSetup {}).store).alone.store.Binds ⟨1⟩ "x" ∧
      ¬ ((evaluator 4).serve (.innerBlock bindingBlock) (Session.ofSetup {}).fiber
        (Session.ofSetup {}).store).alone.store.Binds ⟨0⟩ "x") ∧
    (∃ g τ, ((evaluator 4).serve (.block bindingBlock) (Session.ofSetup {}).fiber
        (Session.ofSetup {}).store).alone = .ended (.ok .nothing) g τ ∧ τ.Binds ⟨0⟩ "x" ∧
      WellFormed g τ) ∧
    ¬ ((Session.ofSetup {}).evalInnerBlock bindingBlock).2.store.Binds ⟨0⟩ "x" := by
  obtain ⟨hserve, hended, hexec, hfresh⟩ := binding_hygiene
  have hfree : ¬ (Session.ofSetup {}).store.Binds ⟨0⟩ "x" := by decide
  have hblock : ((evaluator 4).serve (.block bindingBlock) (Session.ofSetup {}).fiber
      (Session.ofSetup {}).store).alone = .ended (.ok .nothing) _ _ := rfl
  refine ⟨⟨?_, fun h => ?_⟩, ⟨_, _, hblock, ?_, ?_⟩, fun h => ?_⟩
  · rfl
  · exact ((hserve 4 (.innerBlock bindingBlock) _ _ (hfresh {}) trivial).added ⟨0⟩ "x"
      Nat.one_pos h).elim hfree fun h => nomatch h.1
  · rfl
  · exact hended 4 (.block bindingBlock) _ _ _ _ _ (hfresh {}) trivial hblock fun e he => nomatch he
  · exact ((hexec (Session.ofSetup {}) (.innerBlock bindingBlock) (hfresh {}) trivial rfl .done).added
      ⟨0⟩ "x" Nat.one_pos h).elim hfree fun h => nomatch h.1

end TreeWalk
