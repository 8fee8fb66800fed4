/-
What is told does not depend on the order of tables.

A name that is not found is reported with a similar one, looked for among the names that a
scope, the modules and the language have.  Scopes list their names in no particular order,
and what is suggested depends only on which names there are.  The same goes for the text
and the fields of structs.
-/
import TreeWalk.Proofs.Eval.Invariant
import TreeWalk.Proofs.Method.Table
import TreeWalk.Proofs.Store.Reordered
import TreeWalk.Proofs.Suggest.Choice

namespace TreeWalk

open Eval

variable {σ τ : Store} {scope : ScopeId} {name : String} {pos : Position} {v : Value}

namespace Atomic

variable {α β : Type}

/-- A computation that ends alike in two stores and changes neither. -/
def EndsAlike (σ τ : Store) (a : Atomic α) : Prop :=
  ∃ r : Except Exit α, a σ = r.map (·, σ) ∧ a τ = r.map (·, τ)

namespace EndsAlike

theorem pure (a : α) : EndsAlike σ τ (Pure.pure a) := ⟨.ok a, rfl, rfl⟩

theorem fail {cause : Cause} : EndsAlike σ τ (Atomic.fail cause pos : Atomic α) := ⟨.error _, rfl, rfl⟩

/-- What is read may differ as long as what follows does not. -/
theorem read {g : Store → β} {k : β → Atomic α} (hg : k (g τ) = k (g σ))
    (hk : EndsAlike σ τ (k (g σ))) : EndsAlike σ τ (Atomic.read g >>= k) := by
  obtain ⟨r, hσ, hτ⟩ := hk
  refine ⟨r, hσ, ?_⟩
  rw [Atomic.read_bind_apply, hg]
  exact hτ

end EndsAlike
end Atomic

/-! ## Names and members -/

namespace Access

open Atomic

theorem mem_known_iff (h : σ.Reordered τ) {c : String} :
    c ∈ τ.names scope ++ τ.registry.names ++ τ.moduleNames ++ Native.builtins.map Native.name ↔
      c ∈ σ.names scope ++ σ.registry.names ++ σ.moduleNames ++ Native.builtins.map Native.name := by
  simp only [List.mem_append, h.registry_eq, h.mem_names_iff, h.mem_moduleNames_iff]

theorem resolve?_eq (h : σ.Reordered τ) : resolve? τ scope name = resolve? σ scope name := by
  unfold resolve?
  rw [h.registry_eq, h.get?_eq, h.moduleMember?_eq]

theorem failName_endsAlike {α : Type} (h : σ.Reordered τ) :
    EndsAlike σ τ (failName scope name pos : Atomic α) := by
  refine .read ?_ .fail
  rw [Suggest.similar_congr fun _ => mem_known_iff h]

theorem lookup_endsAlike (h : σ.Reordered τ) : EndsAlike σ τ (lookup scope name pos) := by
  refine .read (by rw [resolve?_eq h]) ?_
  cases resolve? σ scope name with
  | some w => exact .pure w
  | none => exact failName_endsAlike h

theorem failMember_endsAlike {α : Type} (h : σ.Reordered τ) :
    EndsAlike σ τ (failMember v scope name pos : Atomic α) := by
  refine .read ?_ .fail
  rw [Suggest.similar_congr fun _ => h.mem_members_names_iff]

theorem member_endsAlike (h : σ.Reordered τ) : EndsAlike σ τ (member v name pos) := by
  unfold member
  split
  · next scope _ =>
    refine .read (by rw [h.getLocal?_eq]) ?_
    cases σ.getLocal? scope name with
    | some w => exact .pure w
    | none => exact failMember_endsAlike h
  · split
    · next id _ =>
      refine .read (by rw [h.dict_eq]) ?_
      cases (σ.dict id).get? (.ofString name) with
      | some entry => exact .pure entry.value
      | none => exact .fail
    · exact .fail

end Access

/-! ## Methods -/

namespace Eval

/-- A computation that calls the same function with the same arguments in two stores, or
ends alike in both and changes neither. -/
def GoesAlike (ev : Evaluator) (f : Fiber) (σ τ : Store) (x : Eval Value) : Prop :=
  (∃ g args, x f σ = ev.callBack g args f σ ∧ x f τ = ev.callBack g args f τ) ∨
  ∃ r, x f σ = .done r f σ ∧ x f τ = .done r f τ

variable {ev : Evaluator} {f : Fiber}

namespace GoesAlike

theorem pure (a : Value) : GoesAlike ev f σ τ (Pure.pure a) := .inr ⟨.ok a, rfl, rfl⟩

theorem callBack (g : Value) (args : List Value) : GoesAlike ev f σ τ (ev.callBack g args) :=
  .inl ⟨g, args, rfl, rfl⟩

theorem lift {a : Atomic Value} (h : Atomic.EndsAlike σ τ a) : GoesAlike ev f σ τ (Eval.lift a) := by
  obtain ⟨r, hσ, hτ⟩ := h
  refine .inr ⟨r, ?_, ?_⟩
  · unfold Eval.lift
    rw [hσ]
    cases r <;> rfl
  · unfold Eval.lift
    rw [hτ]
    cases r <;> rfl

theorem read {α : Type} {g : Store → α} {k : α → Eval Value} (hg : k (g τ) = k (g σ))
    (hk : GoesAlike ev f σ τ (k (g σ))) : GoesAlike ev f σ τ (Eval.read g >>= k) := by
  have hσ : (Eval.read g >>= k) f σ = k (g σ) f σ := rfl
  have hτ : (Eval.read g >>= k) f τ = k (g τ) f τ := rfl
  unfold GoesAlike at hk ⊢
  rwa [hσ, hτ, hg]

end GoesAlike

end Eval

namespace Method

variable {ev : Evaluator} {f : Fiber} {args : Args}

theorem onMembers_goesAlike (h : σ.Reordered τ) : GoesAlike ev f σ τ (onMembers ev v scope args) := by
  have hfail : GoesAlike ev f σ τ (lift (Access.failMember v scope args.name args.pos)) :=
    .lift (Access.failMember_endsAlike h)
  refine .read (by rw [h.getLocal?_eq]) ?_
  cases σ.getLocal? scope args.name with
  | some member =>
    dsimp only
    split
    · exact .callBack member args.values
    · split
      · exact .pure member
      · exact hfail
  | none =>
    dsimp only
    split
    · exact .read (by rw [h.display_eq]) (.pure _)
    · exact hfail

theorem call_of_memberScope? (h : v.memberScope? = some scope) {values : List Value} :
    call ev v name values f σ = onMembers ev v scope ⟨name, values, f.pos⟩ f σ := by
  cases v with
  | struct | enum | module =>
    obtain rfl := Option.some.inj h
    rfl
  | _ => cases h

/-- A computation that fails with the same error from every store, and leaves it alone. -/
def Refused (f : Fiber) (x : Eval Value) : Prop := ∃ e, ∀ σ, x f σ = .done (.error e) f σ

theorem refused_dispatch {μ : Type} [MethodTable μ] [LawfulTable μ] {kind : String}
    {run : μ → Eval Value} (h : args.name ∉ MethodTable.names μ) :
    Refused f (Object.dispatch kind args run) := by
  unfold Object.dispatch
  rw [MethodTable.find?_eq_none h]
  exact ⟨_, fun _ => rfl⟩

theorem refused_empty_then {x : Eval Value} (h : Refused f x) : Refused f (do lift args.empty; x) := by
  unfold Args.empty
  split
  · exact h
  · exact ⟨_, fun _ => rfl⟩

theorem refused_objectCall {o : ObjectRef} (ho : ∀ id kind key methods, o ≠ .host id kind key methods)
    (h : args.name ∉ o.methodNames) : Refused f (Object.call ev o args) := by
  cases o with
  | waitGroup | once => exact refused_dispatch h
  | mutex | rwMutex | cond => exact refused_empty_then (refused_dispatch h)
  | host id kind key methods => exact absurd rfl (ho id kind key methods)

theorem onFunction_eq_fail {g : Value} (h : args.name ∉ functionNames) :
    onFunction ev g args = Object.failMethod functionNames g.kind args := by
  unfold onFunction
  split <;> simp_all [functionNames]

theorem refused_onFunction {g : Value} (h : args.name ∉ functionNames) :
    Refused f (onFunction ev g args) := by
  rw [onFunction_eq_fail h]
  exact ⟨_, fun _ => rfl⟩

/-- A value has no method of a name.  The table of functions counts for those of the
language as well, but these do not tell their arity.  Which methods an object of the host
has is for the host to say. -/
def Missing (v : Value) (name : String) : Prop :=
  match v with
  | .struct _ _ | .enum _ _ | .module _ | .object (.host _ _ _ _) => False
  | .native _ => name ∉ v.methodNames ∨ name = "arity"
  | _ => name ∉ v.methodNames

theorem refused_call {values : List Value} (h : Missing v name) :
    Refused f (call ev v name values) := by
  have refused_at : ∀ {k : Position → Eval Value}, Refused f (k f.pos) → Refused f (position >>= k) :=
    fun h => h
  refine refused_at ?_
  cases v with
  | struct | enum | module => exact h.elim
  | object o =>
    cases o with
    | host => exact h.elim
    | _ => exact refused_objectCall nofun h
  | function => exact refused_onFunction h
  | native =>
    rcases h with h | rfl
    · exact refused_onFunction h
    · exact ⟨_, fun _ => rfl⟩
  | _ => exact refused_dispatch h

end Method

/-- An object of the host refuses every call of a method. -/
def HostObject.Refuses (o : HostObject) (name : String) : Prop :=
  ∀ (values : List Value) (pos : Position), ∃ e, o.run name values pos = .raise e

theorem Probe.refuses_toHost (p : Probe) (h : name ∉ Probe.names) : p.toHost.Refuses name := by
  intro values pos
  refine ⟨_, show run name values pos = refuse name pos from ?_⟩
  unfold run
  split <;> simp_all [Probe.names]

/-- What a host object refuses it refuses with the same error from every store that has it. -/
theorem Method.refused_host {ev : Evaluator} {f : Fiber} {id : HostId} {kind : String}
    {key : Option Int64} {methods : List String} {values : List Value} (hid : σ.host id = τ.host id)
    (h : (σ.host id).Refuses name) :
    ∃ e, Method.call ev (.object (.host id kind key methods)) name values f σ =
        .done (.error (.error e)) f σ ∧
      Method.call ev (.object (.host id kind key methods)) name values f τ =
        .done (.error (.error e)) f τ := by
  obtain ⟨e, hrun⟩ := h values f.pos
  have hend : ∀ υ : Store, υ.host id = σ.host id →
      Method.call ev (.object (.host id kind key methods)) name values f υ =
        .done (.error (.error e)) f υ := by
    intro υ hυ
    change Object.onHost ev id ((υ.host id).run name values f.pos) values f υ = _
    rw [hυ, hrun]
    rfl
  exact ⟨e, hend σ rfl, hend τ hid.symm⟩

/-! ## Sessions -/

theorem sturdy_distinct : Sturdy Store.Distinct where
  quiet h hquiet := h.of_scopes_eq hquiet.scopes
  cells h hscopes _ _ := h.of_scopes_eq hscopes
  bind h := h.bind
  newScope h := h.addScope List.nodup_nil
  newEnum h := h.addScope (Assoc.nodup_names_ofEntries _)

theorem Session.distinct_ofSetup (setup : Setup) : (ofSetup setup).Keeps Store.Distinct := by
  refine ⟨Store.Distinct.bind ?_, fun t ht => nomatch ht⟩
  have hempty : Store.Distinct {} := fun s => List.nodup_nil
  have hroot : (({} : Store).addScope default).2.Distinct := hempty.addScope List.nodup_nil
  exact hroot.of_scopes_eq rfl

/-- No order of names shows in what is told.  What is suggested for a name depends only on
which candidates there are, and is never the name itself.  In two stores whose scopes list
their names in different orders, a name, a member and a method of a struct, an enum or a
module come to the same value or the same error, unless a function that is found there is
called; a method that does not exist fails alike in all stores, and one that a host object
refuses in all that have the object; and all values have the same text, and structs the same
fields.  Scopes list each name once in every store that a
session comes to, and any order in which they might list them is that of some store. -/
theorem diagnoses_ignore_order :
    (∀ name candidates candidates', (∀ c, c ∈ candidates ↔ c ∈ candidates') →
      Suggest.similar name candidates = Suggest.similar name candidates' ∧
      Suggest.similar name candidates ≠ some name) ∧
    (∀ σ τ : Store, σ.Reordered τ →
      (∀ scope name pos, Atomic.EndsAlike σ τ (Access.lookup scope name pos)) ∧
      (∀ v name pos, Atomic.EndsAlike σ τ (Access.member v name pos)) ∧
      (∀ ev f v scope name values, v.memberScope? = some scope →
        GoesAlike ev f σ τ (Method.call ev v name values)) ∧
      (∀ v, τ.display v = σ.display v) ∧
      (∀ scope methods methods', (∀ n, n ∈ methods' ↔ n ∈ methods) →
        τ.structFields scope methods' = σ.structFields scope methods)) ∧
    (∀ ev f v name values, Method.Missing v name → Method.Refused f (Method.call ev v name values)) ∧
    (∀ (σ τ : Store) ev f id kind key methods name values, σ.host id = τ.host id →
      (σ.host id).Refuses name → ∃ e,
        Method.call ev (.object (.host id kind key methods)) name values f σ =
          .done (.error (.error e)) f σ ∧
        Method.call ev (.object (.host id kind key methods)) name values f τ =
          .done (.error (.error e)) f τ) ∧
    (∀ (p : Probe) name, name ∉ Probe.names → p.toHost.Refuses name) ∧
    (∀ setup : Setup, (Session.ofSetup setup).Keeps Store.Distinct) ∧
    (∀ (s : Session) (scope : ScopeId) (program : Program), s.Keeps Store.Distinct →
      (s.runIn scope program).2.Keeps Store.Distinct) ∧
    (∀ (s : Session) (program : Program), s.Keeps Store.Distinct →
      (s.fork program).2.Keeps Store.Distinct) ∧
    (∀ (s : Session) (q : Request), s.Keeps Store.Distinct →
      (s.exec ((evaluator Session.fuel).serve q)).2.Keeps Store.Distinct) ∧
    (∀ (σ : Store) (table : ScopeId → Assoc Value), σ.Distinct →
      (∀ s, (σ.members s).Perm (table s)) → ∃ τ, σ.Reordered τ ∧ ∀ s, τ.members s = table s) := by
  have hlasting : Lasting Store.Distinct := sturdy_distinct.lasting
  refine ⟨fun name candidates candidates' h => ⟨Suggest.similar_congr h, fun hsimilar => ?_⟩,
    fun σ τ h => ⟨fun scope name pos => Access.lookup_endsAlike h, fun v name pos =>
      Access.member_endsAlike h, fun ev f v scope name values hscope => ?_, h.display_eq,
      fun scope methods methods' => h.structFields_eq⟩,
    fun ev f v name values => Method.refused_call,
    fun σ τ ev f id kind key methods name values => Method.refused_host,
    fun p name => p.refuses_toHost, Session.distinct_ofSetup,
    fun s scope program hs => hlasting.runIn hs scope program,
    fun s program hs => hlasting.fork (fun _ _ h => sturdy_distinct.newScope h) hs program,
    fun s q hs => hlasting.exec hs (hlasting.serve _ q _ _ hs.store),
    fun σ table hσ => Store.exists_reordered hσ⟩
  · exact (Suggest.mem_others.mp (Suggest.mem_others_of_similar hsimilar)).2.1 rfl
  · have hcall : ∀ σ, Method.call ev v name values f σ =
        Method.onMembers ev v scope ⟨name, values, f.pos⟩ f σ :=
      fun σ => Method.call_of_memberScope? hscope
    have hmembers : GoesAlike ev f σ τ (Method.onMembers ev v scope ⟨name, values, f.pos⟩) :=
      Method.onMembers_goesAlike h
    unfold GoesAlike at hmembers ⊢
    rwa [hcall, hcall]

/-- A scope with the given entries. -/
def single (entries : Assoc Value) : Store where
  scopes := #[{ bindings := entries, parent := none, frame := none }]

theorem members_single {entries : Assoc Value} (s : ScopeId) :
    (single entries).members s = if s = ⟨0⟩ then entries else [] := by
  match s with
  | ⟨0⟩ => rfl
  | ⟨i + 1⟩ => rfl

theorem reordered_single {entries entries' : Assoc Value} (hnodup : entries.names.Nodup)
    (h : entries.Perm entries') : (single entries).Reordered (single entries') where
  size_eq := rfl
  members s := by
    rw [members_single, members_single]
    split
    · exact h
    · exact .nil
  parent_eq s := by
    match s with
    | ⟨0⟩ => rfl
    | ⟨i + 1⟩ => rfl
  distinct s := by
    rw [members_single]
    split
    · exact hnodup
    · exact List.nodup_nil
  rest := rfl

/-- Of two names that are equally close the first in the alphabet is suggested, whichever
the scope lists first. -/
theorem diagnoses_ignore_order_swapped :
    Access.lookup ⟨0⟩ "alphc" .unknown (single [("alphb", .ofInt 2), ("alpha", .ofInt 1)]) =
      .error (.error ⟨.unknownIdentifier "alphc" (some "alpha"), .unknown⟩) := by
  obtain ⟨_, hstores, _⟩ := diagnoses_ignore_order
  have hswap : (single [("alpha", .ofInt 1), ("alphb", .ofInt 2)]).Reordered
      (single [("alphb", .ofInt 2), ("alpha", .ofInt 1)]) :=
    reordered_single (by decide) (.swap _ _ [])
  obtain ⟨r, hr, hr'⟩ := (hstores _ _ hswap).1 ⟨0⟩ "alphc" .unknown
  have hfirst : Access.lookup ⟨0⟩ "alphc" .unknown (single [("alpha", .ofInt 1), ("alphb", .ofInt 2)]) =
      .error (.error ⟨.unknownIdentifier "alphc" (some "alpha"), .unknown⟩) := rfl
  rw [hfirst] at hr
  cases r with
  | ok w => cases hr
  | error e =>
    rw [hr', Except.error.inj hr]
    rfl

end TreeWalk
