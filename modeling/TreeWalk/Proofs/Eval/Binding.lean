/-
Parameters and arguments.

A call binds its parameters in a scope made for it: those with an argument to their
argument, in one go, and then those without to what their defaults come to.  Defaults
are evaluated one after the other, and the task may wait meanwhile; so how the
parameters are filled is told along the steps of the task, whatever other tasks do to
the store short of taking names out of a scope.  No task does that.
-/
import TreeWalk.Proofs.Eval.Balance
import TreeWalk.Proofs.Eval.Invariant
import TreeWalk.Proofs.Store.Place

namespace TreeWalk

open Discipline Eval

/-! ## Names that stay -/

namespace Store

variable {σ σ' : Store} {s : ScopeId} {names : List String} {name : String} {v : Value}

/-- A scope is there and binds these names. -/
def BindsAll (σ : Store) (s : ScopeId) (names : List String) : Prop :=
  s.index < σ.scopes.size ∧ ∀ name ∈ names, σ.Binds s name

theorem Grows.bindsAll {p : ScopeId → Prop} (hgrows : Grows p σ σ') (h : σ.BindsAll s names) :
    σ'.BindsAll s names :=
  ⟨Nat.lt_of_lt_of_le h.1 hgrows.scopes, fun name hname => hgrows.kept s name (h.2 name hname)⟩

theorem BindsAll.of_scopes_eq (h : σ.BindsAll s names) (hscopes : σ'.scopes = σ.scopes) :
    σ'.BindsAll s names := by
  refine ⟨hscopes ▸ h.1, fun name hname => ?_⟩
  have hbinds := h.2 name hname
  unfold Binds at hbinds ⊢
  rwa [scope_eq_of_scopes_eq hscopes]

/-- A name that is bound is one more. -/
theorem BindsAll.bind (h : σ.BindsAll s names) :
    (σ.bind s name v).BindsAll s (names ++ [name]) := by
  refine ⟨by rw [size_scopes_bind]; exact h.1, fun other hother => ?_⟩
  rcases List.mem_append.mp hother with hother | hother
  · exact (h.2 other hother).bind
  · obtain rfl := List.mem_singleton.mp hother
    unfold Binds
    rw [Assoc.contains, show ((σ.bind s other v).scope s).bindings.get? other = some v from
      getLocal?_bind_self h.1]
    rfl

theorem sturdy_bindsAll (s : ScopeId) (names : List String) : Sturdy (·.BindsAll s names) where
  quiet h hq := h.of_scopes_eq hq.scopes
  cells h hscopes _ _ := h.of_scopes_eq hscopes
  bind h := Grows.bindsAll (p := fun _ => True) (.bind trivial) h
  newScope h := Grows.bindsAll (p := fun _ => True) .addScope h
  newEnum h := Grows.bindsAll (p := fun _ => True) .addScope h

end Store

namespace Resumption

/-- Other tasks take no scope away and no name out of a scope. -/
def naming : Resumption := fun _ σ _ σ' => ∀ s names, σ.BindsAll s names → σ'.BindsAll s names

end Resumption

/-! ## Names that are bound in one go -/

namespace Store

variable {σ : Store} {s t : ScopeId} {names : List String} {name : String} {v : Value}
  {pairs : List (String × Value)}

/-- Binds names in a scope one after the other. -/
def bindAll (σ : Store) (s : ScopeId) (pairs : List (String × Value)) : Store :=
  pairs.foldl (fun σ p => σ.bind s p.1 p.2) σ

theorem size_scopes_bindAll : (σ.bindAll s pairs).scopes.size = σ.scopes.size := by
  induction pairs generalizing σ with
  | nil => rfl
  | cons p pairs ih => exact ih.trans size_scopes_bind

theorem scope_bindAll_of_ne (h : t ≠ s) : (σ.bindAll s pairs).scope t = σ.scope t := by
  induction pairs generalizing σ with
  | nil => rfl
  | cons p pairs ih => exact ih.trans (scope_bind_of_ne h)

theorem rest_bindAll : { σ.bindAll s pairs with scopes := σ.scopes } = σ := by
  induction pairs generalizing σ with
  | nil => rfl
  | cons p pairs ih =>
    have h : { σ.bindAll s (p :: pairs) with scopes := (σ.bind s p.1 p.2).scopes } =
        σ.bind s p.1 p.2 := ih
    exact congrArg (fun τ : Store => { τ with scopes := σ.scopes }) h

theorem arrays_bindAll : (σ.bindAll s pairs).arrays = σ.arrays := by
  have h : { σ.bindAll s pairs with scopes := σ.scopes } = σ := rest_bindAll
  exact (congrArg Store.arrays h :)

theorem getLocal?_bindAll_of_notMem (h : name ∉ pairs.map Prod.fst) :
    (σ.bindAll s pairs).getLocal? s name = σ.getLocal? s name := by
  induction pairs generalizing σ with
  | nil => rfl
  | cons p pairs ih =>
    rw [List.map_cons, List.mem_cons, not_or] at h
    exact (ih h.2).trans (getLocal?_bind_of_ne fun ⟨_, heq⟩ => h.1 heq.symm)

/-- What is bound last counts; names that are distinct keep what they are bound to. -/
theorem getLocal?_bindAll_of_mem (hs : s.index < σ.scopes.size)
    (hnodup : (pairs.map Prod.fst).Nodup) (h : (name, v) ∈ pairs) :
    (σ.bindAll s pairs).getLocal? s name = some v := by
  induction pairs generalizing σ with
  | nil => cases h
  | cons p pairs ih =>
    rw [List.map_cons, List.nodup_cons] at hnodup
    rcases List.mem_cons.mp h with rfl | h
    · exact (getLocal?_bindAll_of_notMem hnodup.1).trans (getLocal?_bind_self hs)
    · exact ih (by rw [size_scopes_bind]; exact hs) hnodup.2 h

theorem bindsAll_bindAll (h : σ.BindsAll s names) :
    (σ.bindAll s pairs).BindsAll s (names ++ pairs.map Prod.fst) := by
  induction pairs generalizing σ names with
  | nil => exact (List.append_nil names).symm ▸ h
  | cons p pairs ih =>
    have hbind : (σ.bind s p.1 p.2).BindsAll s (names ++ [p.1]) := h.bind
    have hrest := ih hbind
    rw [List.append_assoc] at hrest
    exact hrest

end Store

/-! ## What a call binds -/

namespace FunctionLit

/-- What a name stands for in a call with an argument for each fixed parameter, when the
arguments left over are collected in `collected`. -/
inductive Assigns (lit : FunctionLit) (args : List Value) (collected : Value) :
    String → Value → Prop
  | argument {i : Nat} {p : Param} {v} (hp : lit.fixedParams[i]? = some p) (hv : args[i]? = some v) :
      Assigns lit args collected p.name v
  | rest {p : Param} (h : lit.variadic = true) (hp : lit.params.getLast? = some p) :
      Assigns lit args collected p.name collected
  | count : Assigns lit args collected "$argc" (.ofLength args.length)

variable {lit : FunctionLit} {args rest : List Value} {count : Nat} {s t : ScopeId} {σ : Store}
  {p : Param} {name : String} {v : Value}

/-- The fixed parameters that get an argument, with it. -/
def supplied (lit : FunctionLit) (args : List Value) : List (String × Value) :=
  (lit.fixedParams.map (·.name)).zip args

/-- The parameter that collects the arguments left over. -/
def collector? (lit : FunctionLit) : Option Param :=
  if lit.variadic then lit.params.getLast? else none

/-- Binds what comes behind the fixed parameters: the arguments left over, as a new array,
and the number of all. -/
def complete (lit : FunctionLit) (count : Nat) (rest : List Value) (s : ScopeId) (σ : Store) :
    Store :=
  match lit.collector? with
  | some p =>
    ((σ.newArray rest.toArray).2.bind s p.name (.array ⟨σ.arrays.size⟩)).bind s "$argc"
      (.ofLength count)
  | none => σ.bind s "$argc" (.ofLength count)

theorem length_fixedParams (lit : FunctionLit) : lit.fixedParams.length = lit.fixedCount := by
  rw [fixedParams, List.length_take, fixedCount]
  split
  · omega
  · omega

theorem mem_supplied_iff : (name, v) ∈ lit.supplied args ↔
    ∃ (i : Nat) (p : Param), lit.fixedParams[i]? = some p ∧ args[i]? = some v ∧ p.name = name := by
  unfold supplied
  rw [List.mem_iff_getElem?]
  refine exists_congr fun i => ?_
  rw [List.getElem?_zip_eq_some, List.getElem?_map, Option.map_eq_some_iff]
  constructor
  · rintro ⟨⟨p, hp, hname⟩, hv⟩
    exact ⟨p, hp, hv, hname⟩
  · rintro ⟨p, hp, hv, hname⟩
    exact ⟨⟨p, hp, hname⟩, hv⟩

theorem names_supplied_sublist (lit : FunctionLit) (args : List Value) :
    ((lit.supplied args).map Prod.fst).Sublist (lit.params.map (·.name)) := by
  unfold supplied
  rw [List.zip_eq_zip_take_min, List.map_fst_zip]
  · exact (List.take_sublist _ _).trans ((List.take_sublist _ _).map _)
  · rw [List.length_take, List.length_take]
    omega

theorem collector?_eq_some_iff :
    lit.collector? = some p ↔ lit.variadic = true ∧ lit.params.getLast? = some p := by
  unfold collector?
  split
  · next h => exact (and_iff_right h).symm
  · next h => exact ⟨nofun, fun hp => absurd hp.1 h⟩

/-- The parameter that collects the rest stands behind the fixed ones. -/
theorem params_eq_of_collector? (h : lit.collector? = some p) :
    lit.params = lit.fixedParams ++ [p] := by
  obtain ⟨hvariadic, hlast⟩ := collector?_eq_some_iff.mp h
  obtain ⟨before, hparams⟩ := List.getLast?_eq_some_iff.mp hlast
  rw [fixedParams, fixedCount, if_pos hvariadic, hparams, List.length_append, List.length_singleton,
    Nat.add_sub_cancel, List.take_left']
  rfl

section Complete

variable (hs : s.index < σ.scopes.size)

theorem scope_complete_of_ne (h : t ≠ s) : (lit.complete count rest s σ).scope t = σ.scope t := by
  unfold complete
  split
  · rw [Store.scope_bind_of_ne h, Store.scope_bind_of_ne h]
    rfl
  · exact Store.scope_bind_of_ne h

include hs

theorem getLocal?_complete_count :
    (lit.complete count rest s σ).getLocal? s "$argc" = some (.ofLength count) := by
  unfold complete
  split
  · exact Store.getLocal?_bind_self (by rw [Store.size_scopes_bind]; exact hs)
  · exact Store.getLocal?_bind_self hs

theorem getLocal?_complete_collector (h : lit.collector? = some p) (hname : p.name ≠ "$argc") :
    (lit.complete count rest s σ).getLocal? s p.name = some (.array ⟨σ.arrays.size⟩) := by
  unfold complete
  rw [h]
  exact (Store.getLocal?_bind_of_ne fun ⟨_, heq⟩ => hname heq.symm).trans
    (Store.getLocal?_bind_self hs)

omit hs in
theorem getLocal?_complete_of_ne (hname : name ≠ "$argc")
    (h : ∀ p, lit.collector? = some p → p.name ≠ name) :
    (lit.complete count rest s σ).getLocal? s name = σ.getLocal? s name := by
  unfold complete
  split
  · next p hp =>
    exact (Store.getLocal?_bind_of_ne fun ⟨_, heq⟩ => hname heq.symm).trans
      (Store.getLocal?_bind_of_ne fun ⟨_, heq⟩ => h p hp heq)
  · exact Store.getLocal?_bind_of_ne fun ⟨_, heq⟩ => hname heq.symm

end Complete

/-- Parameters with distinct names, none of which is taken by the number of arguments. -/
structure Named (lit : FunctionLit) : Prop where
  nodup : (lit.params.map (·.name)).Nodup
  notCount : ∀ p ∈ lit.params, p.name ≠ "$argc"
  /-- There is a parameter to collect the arguments left over. -/
  collects : lit.variadic = true → lit.params ≠ []

namespace Named

variable (h : lit.Named)
include h

theorem nodup_supplied : ((lit.supplied args).map Prod.fst).Nodup :=
  h.nodup.sublist (names_supplied_sublist lit args)

omit h in
theorem mem_of_fixed {i : Nat} (hp : lit.fixedParams[i]? = some p) : p ∈ lit.params :=
  List.mem_of_mem_take (List.mem_of_getElem? hp)

theorem collector_ne {i : Nat} {q : Param} (hq : lit.collector? = some q)
    (hp : lit.fixedParams[i]? = some p) : q.name ≠ p.name := by
  have hnodup := h.nodup
  rw [params_eq_of_collector? hq, List.map_append, List.nodup_append] at hnodup
  intro heq
  exact hnodup.2.2 _ (List.mem_map_of_mem (List.mem_of_getElem? hp)) _ List.mem_cons_self heq.symm

theorem collector_ne_count (hp : lit.collector? = some p) : p.name ≠ "$argc" := by
  refine h.notCount p ?_
  rw [params_eq_of_collector? hp]
  exact List.mem_append_right _ List.mem_cons_self

/-- In a scope that binds nothing yet, exactly what is assigned is bound. -/
theorem getLocal?_complete_iff (hs : s.index < σ.scopes.size)
    (hfresh : ∀ name, σ.getLocal? s name = none) :
    (lit.complete args.length rest s (σ.bindAll s (lit.supplied args))).getLocal? s name = some v ↔
      lit.Assigns args (.array ⟨σ.arrays.size⟩) name v := by
  have hs' : s.index < (σ.bindAll s (lit.supplied args)).scopes.size := by
    rw [Store.size_scopes_bindAll]
    exact hs
  have hsupplied : ∀ v', (name, v') ∈ lit.supplied args →
      (lit.complete args.length rest s (σ.bindAll s (lit.supplied args))).getLocal? s name =
        some v' := by
    intro v' hmem
    obtain ⟨i, p, hp, hv, rfl⟩ := mem_supplied_iff.mp hmem
    rw [getLocal?_complete_of_ne (h.notCount p (mem_of_fixed hp)) fun q hq => h.collector_ne hq hp]
    exact Store.getLocal?_bindAll_of_mem hs h.nodup_supplied hmem
  constructor
  · intro hbound
    by_cases hcount : name = "$argc"
    · subst hcount
      rw [getLocal?_complete_count hs'] at hbound
      cases hbound
      exact .count
    · by_cases hrest : ∃ p, lit.collector? = some p ∧ p.name = name
      · obtain ⟨p, hp, rfl⟩ := hrest
        rw [getLocal?_complete_collector hs' hp hcount, Store.arrays_bindAll] at hbound
        cases hbound
        obtain ⟨hvariadic, hlast⟩ := collector?_eq_some_iff.mp hp
        exact .rest hvariadic hlast
      · by_cases hmem : name ∈ (lit.supplied args).map Prod.fst
        · obtain ⟨⟨other, v'⟩, hpair, rfl⟩ := List.mem_map.mp hmem
          rw [hsupplied v' hpair] at hbound
          cases hbound
          obtain ⟨i, p, hp, hv, rfl⟩ := mem_supplied_iff.mp hpair
          exact .argument hp hv
        · rw [getLocal?_complete_of_ne hcount fun p hp heq => hrest ⟨p, hp, heq⟩,
            Store.getLocal?_bindAll_of_notMem hmem, hfresh] at hbound
          cases hbound
  · intro hassigns
    cases hassigns with
    | argument hp hv => exact hsupplied _ (mem_supplied_iff.mpr ⟨_, _, hp, hv, rfl⟩)
    | rest hvariadic hlast =>
      have hp := collector?_eq_some_iff.mpr ⟨hvariadic, hlast⟩
      rw [getLocal?_complete_collector hs' hp (h.collector_ne_count hp), Store.arrays_bindAll]
    | count => exact getLocal?_complete_count hs'

/-- Outside of scopes, only the arguments left over are new. -/
theorem rest_complete :
    { lit.complete args.length (args.drop lit.fixedCount) s (σ.bindAll s (lit.supplied args)) with
      scopes := σ.scopes } =
      if lit.variadic then (σ.newArray (args.drop lit.fixedCount).toArray).2 else σ := by
  unfold complete
  split
  · next p hp =>
    rw [if_pos (collector?_eq_some_iff.mp hp).1]
    show (({ σ.bindAll s (lit.supplied args) with scopes := σ.scopes } : Store).newArray _).2 = _
    rw [Store.rest_bindAll]
  · next hnone =>
    by_cases hvariadic : lit.variadic = true
    · have hlast := List.getLast?_eq_some_getLast (h.collects hvariadic)
      rw [collector?_eq_some_iff.mpr ⟨hvariadic, hlast⟩] at hnone
      cases hnone
    · rw [if_neg hvariadic]
      exact Store.rest_bindAll

end Named
end FunctionLit

namespace Call

variable {ev : Evaluator} {n fuel : Nat} {lit : FunctionLit} {c : Closure} {args rest : List Value}
  {pos : Position} {s : ScopeId} {f g : Fiber} {σ τ : Store} {stack : CallStack}

/-- The fiber in which the parameters of a call and its body are evaluated, for the
store that the call begins with. -/
def entered (f : Fiber) (stack : CallStack) (σ : Store) : Fiber :=
  { f with scope := ⟨σ.scopes.size⟩, stack := stack }

/-- What becomes of the store `σ` in a call with an argument for each fixed parameter:
in the scope of the call exactly what is assigned is bound, the arguments left over are
a new array, and all else is as before. -/
structure Bound (lit : FunctionLit) (args : List Value) (s : ScopeId) (σ τ : Store) : Prop where
  names : ∀ name v, τ.getLocal? s name = some v ↔
    lit.Assigns args (.array ⟨σ.arrays.size⟩) name v
  collected : lit.variadic = true →
    τ.array ⟨σ.arrays.size⟩ = (args.drop lit.fixedCount).toArray
  scopes : ∀ t, t ≠ s → τ.scope t = σ.scope t
  rest : { τ with scopes := σ.scopes } =
    if lit.variadic then (σ.newArray (args.drop lit.fixedCount).toArray).2 else σ

/-- The task is in the scope of the call, which binds the parameters so far. -/
structure Ready (s : ScopeId) (earlier : List String) (f : Fiber) (σ : Store) : Prop where
  scope : f.scope = s
  bound : σ.BindsAll s earlier

/-- The parameters without an argument are filled, from left to right, in the scope of
the call, where `earlier` names are bound.  Each is bound to `nil` or to what its default
comes to, and if a default comes to no value the others are not filled. -/
inductive Fills (ev : Evaluator) (lit : FunctionLit) (count : Nat) (rest : List Value)
    (s : ScopeId) :
    List String → List Param → Fiber → Store → Except Exit Unit → Fiber → Store → Prop
  | finish {earlier f σ} (hready : Ready s earlier f σ) :
      Fills ev lit count rest s earlier [] f σ (.ok ()) f (lit.complete count rest s σ)
  | none {earlier} {p : Param} {params f σ r g τ} (hready : Ready s earlier f σ)
      (hnone : p.default = none)
      (hrest : Fills ev lit count rest s (earlier ++ [p.name]) params f
        (σ.bind s p.name .nothing) r g τ) :
      Fills ev lit count rest s earlier (p :: params) f σ r g τ
  | default {earlier} {p : Param} {params f σ e v f' σ' r g τ} (hready : Ready s earlier f σ)
      (hdefault : p.default = some e)
      (heval : (ev.expr e f σ).Leads .naming (.done (.ok v) f' σ'))
      (hrest : Fills ev lit count rest s (earlier ++ [p.name]) params f'
        (σ'.bind s p.name v) r g τ) :
      Fills ev lit count rest s earlier (p :: params) f σ r g τ
  | exit {earlier} {p : Param} {params f σ e x g τ} (hready : Ready s earlier f σ)
      (hdefault : p.default = some e)
      (heval : (ev.expr e f σ).Leads .naming (.done (.error x) g τ)) :
      Fills ev lit count rest s earlier (p :: params) f σ (.error x) g τ

/-! ## Parameters with an argument -/

/-- As long as there are arguments, parameters are bound to them in turn. -/
theorem bindFixed_apply (params : List Param) (args : List Value) (f : Fiber) (σ : Store) :
    bindFixed ev params args f σ =
      bindFixed ev (params.drop args.length) (args.drop params.length) f
        (σ.bindAll f.scope ((params.map (·.name)).zip args)) := by
  induction params generalizing args σ with
  | nil => rw [List.drop_nil, List.length_nil, List.drop_zero]; rfl
  | cons p params ih =>
    cases args with
    | nil => rfl
    | cons a args => exact ih args (σ.bind f.scope p.name a)

theorem bindFixed_without_default {p : Param} {params : List Param} (h : p.default = none)
    (f : Fiber) (σ : Store) :
    bindFixed ev (p :: params) [] f σ =
      bindFixed ev params [] f (σ.bind f.scope p.name .nothing) := by
  rw [bindFixed, h]
  rfl

theorem bindFixed_default {p : Param} {params : List Param} {e : Expr} (h : p.default = some e)
    (f : Fiber) (σ : Store) :
    bindFixed ev (p :: params) [] f σ = (ev.expr e f σ).andThen
      (follow fun v => bindName p.name v >>= fun _ => bindFixed ev params []) := by
  rw [bindFixed, h, ← bind_apply]

/-- What follows the fixed parameters. -/
def closing (lit : FunctionLit) (count : Nat) :
    Except Exit (List Value) → Fiber → Store → Step Unit
  | .ok rest, f, σ => .done (.ok ()) f (lit.complete count rest f.scope σ)
  | .error e, f, σ => .done (.error e) f σ

theorem bindParameters_apply (lit : FunctionLit) (args : List Value) (f : Fiber) (σ : Store) :
    bindParameters ev lit args f σ =
      (bindFixed ev (lit.fixedParams.drop args.length) (args.drop lit.fixedCount) f
        (σ.bindAll f.scope (lit.supplied args))).andThen (closing lit args.length) := by
  unfold bindParameters
  rw [bind_apply, bindFixed_apply, FunctionLit.length_fixedParams]
  congr 1
  funext r g τ
  cases r with
  | error e => rfl
  | ok rest =>
    simp only [follow, closing, FunctionLit.complete, FunctionLit.collector?]
    split
    · split
      · next p hp => rw [hp]; rfl
      · next hp => rw [hp]; rfl
    · rfl

/-- With an argument for each fixed parameter nothing is evaluated. -/
theorem bindParameters_of_le (h : lit.fixedCount ≤ args.length) :
    bindParameters ev lit args f σ = .done (.ok ()) f
      (lit.complete args.length (args.drop lit.fixedCount) f.scope
        (σ.bindAll f.scope (lit.supplied args))) := by
  rw [bindParameters_apply, List.drop_eq_nil_of_le (FunctionLit.length_fixedParams lit ▸ h)]
  rfl

theorem bound_complete (hnamed : lit.Named) (hs : s.index < σ.scopes.size)
    (hfresh : ∀ name, σ.getLocal? s name = none) :
    Bound lit args s σ (lit.complete args.length (args.drop lit.fixedCount) s
      (σ.bindAll s (lit.supplied args))) where
  names _ _ := hnamed.getLocal?_complete_iff hs hfresh
  collected hvariadic := by
    have hrest := @FunctionLit.Named.rest_complete lit args s σ hnamed
    rw [if_pos hvariadic] at hrest
    exact (congrArg (·.array ⟨σ.arrays.size⟩) hrest).trans (Store.array_newArray _)
  scopes t ht := (FunctionLit.scope_complete_of_ne ht).trans (Store.scope_bindAll_of_ne ht)
  rest := hnamed.rest_complete

/-! ## Parameters without an argument -/

namespace Ready

variable {earlier : List String} {name : String} {v : Value}

theorem bind (h : Ready s earlier f σ) : Ready s (earlier ++ [name]) f (σ.bind s name v) :=
  ⟨h.scope, h.bound.bind⟩

/-- A default that comes to a value leaves the task in the scope of the call, and what is
bound there bound. -/
theorem eval {e : Expr} (h : Ready s earlier f σ)
    (heval : ((evaluator n).expr e f σ).Leads .naming (.done (.ok v) g τ)) :
    Ready s earlier g τ where
  scope := by
    have hends : ((evaluator n).serve (.expr e) f σ).Ends (.ok v) g τ := heval.ends
    have hsite := (ends_serve hends).2 fun _ he => nomatch he
    exact (congrArg Site.scope hsite).trans h.scope
  bound := by
    have hkeeps := (Store.sturdy_bindsAll s earlier).lasting.serve n (.expr e) f σ h.bound
    exact heval.kept (fun _ _ _ _ hresume => hresume s earlier) hkeeps

end Ready

/-- The steps of a task that binds parameters without arguments are those of filling
them. -/
theorem leads_iff_fills {params : List Param} {earlier : List String} {count : Nat}
    {r : Except Exit Unit} (hrest : params = [] ∨ rest = []) (hready : Ready s earlier f σ) :
    ((bindFixed (evaluator n) params rest f σ).andThen (closing lit count)).Leads .naming
        (.done r g τ) ↔
      Fills (evaluator n) lit count rest s earlier params f σ r g τ := by
  induction params generalizing earlier f σ with
  | nil =>
    have hend : (bindFixed (evaluator n) [] rest f σ).andThen (closing lit count) =
        .done (.ok ()) f (lit.complete count rest s σ) := by
      rw [← hready.scope]
      rfl
    rw [hend, Step.leads_done_iff]
    constructor
    · rintro ⟨rfl, rfl, rfl⟩
      exact .finish hready
    · intro h
      cases h with
      | finish => exact ⟨rfl, rfl, rfl⟩
  | cons p params ih =>
    obtain rfl : rest = [] := hrest.resolve_left (List.cons_ne_nil p params)
    cases hp : p.default with
    | none =>
      rw [bindFixed_without_default hp, hready.scope, ih (.inr rfl) hready.bind]
      constructor
      · exact fun h => .none hready hp h
      · intro h
        cases h with
        | none _ _ h => exact h
        | default _ hdefault => exact absurd (hp.symm.trans hdefault) nofun
        | exit _ hdefault => exact absurd (hp.symm.trans hdefault) nofun
    | some e =>
      rw [bindFixed_default hp, Step.andThen_andThen, Step.leads_andThen_iff]
      constructor
      · rintro ⟨r', f', σ', heval, hnext⟩
        cases r' with
        | ok v =>
          have hready' := hready.eval heval
          refine .default hready hp heval ((ih (.inr rfl) hready'.bind).mp ?_)
          rw [← hready'.scope]
          exact hnext
        | error x =>
          obtain ⟨rfl, rfl, rfl⟩ := Step.leads_done_iff.mp hnext
          exact .exit hready hp heval
      · intro h
        cases h with
        | none _ hnone => exact absurd (hp.symm.trans hnone) nofun
        | @default _ _ _ _ _ _ v f' σ' _ _ _ _ hdefault heval h =>
          obtain rfl := Option.some.inj (hp.symm.trans hdefault)
          have hready' := hready.eval heval
          refine ⟨.ok v, f', σ', heval, ?_⟩
          have hnext := (ih (.inr rfl) hready'.bind).mpr h
          rw [← hready'.scope] at hnext
          exact hnext
        | exit _ hdefault heval =>
          obtain rfl := Option.some.inj (hp.symm.trans hdefault)
          exact ⟨_, _, _, heval, .refl⟩

/-- Binding goes the way of filling what is missing once the arguments are bound. -/
theorem bindParameters_leads_iff {r : Except Exit Unit} (hs : s.index < σ.scopes.size)
    (hscope : f.scope = s) :
    (bindParameters (evaluator n) lit args f σ).Leads .naming (.done r g τ) ↔
      Fills (evaluator n) lit args.length (args.drop lit.fixedCount) s
        ((lit.supplied args).map Prod.fst) (lit.fixedParams.drop args.length) f
        (σ.bindAll s (lit.supplied args)) r g τ := by
  have hrest : lit.fixedParams.drop args.length = [] ∨ args.drop lit.fixedCount = [] := by
    rw [List.drop_eq_nil_iff, List.drop_eq_nil_iff, FunctionLit.length_fixedParams]
    omega
  have hbound : σ.BindsAll s [] := ⟨hs, fun _ h => nomatch h⟩
  have hready : Ready s ((lit.supplied args).map Prod.fst) f (σ.bindAll s (lit.supplied args)) :=
    ⟨hscope, Store.bindsAll_bindAll hbound⟩
  rw [bindParameters_apply, hscope, leads_iff_fills hrest hready]

/-! ## Defaults that end in an error -/

/-- The way back from a call that has a result, once the calls that were put off have
run. -/
def leave (f : Fiber) (result : Except Exit Value) :
    Except Exit Unit → Fiber → Store → Step Value
  | .ok (), g, τ => .done result { g with scope := f.scope, stack := g.stack.pop } τ
  | .error e, g, τ => .done (.error e) { g with scope := f.scope } τ

theorem activate_leads {R : Resumption} {frame : FrameId} {e : Exit} (habort : e.isAbort = false)
    (h : (perform ev lit args f σ).Leads R (.done (.error e) g τ)) :
    (activate ev fuel lit args frame f σ).Leads R
      ((runDeferred ev fuel frame g τ).andThen
        (follow fun _ => pure (settle (Except.error e)))) := by
  have hattempt : (attempt (perform ev lit args) f σ).Leads R (.done (.ok (.error e)) g τ) := by
    refine h.andThen.trans ?_
    show (if e.isAbort = true then _ else Step.done (.ok (Except.error e)) g τ).Leads R _
    rw [habort, if_neg Bool.false_ne_true]
    exact .refl
  show ((attempt (perform ev lit args) >>= _) f σ).Leads R _
  rw [bind_apply]
  refine hattempt.andThen.trans ?_
  show ((runDeferred ev fuel frame >>= _) g τ).Leads R _
  rw [bind_apply]
  exact .refl

/-- A call whose parameters cannot be bound goes on with the calls put off on its frame,
and from there back. -/
theorem leads_leave {R : Resumption} {e : Exit} (haccepts : c.lit.accepts args.length = true)
    (hpush : f.stack.push? (frameOf c pos σ) = some stack) (habort : e.isAbort = false)
    (h : (bindParameters ev c.lit args (entered f stack σ) (entryStore c pos σ)).Leads R
      (.done (.error e) g τ)) :
    (invoke ev fuel c args pos f σ).Leads R
      ((runDeferred ev fuel (frameOf c pos σ).id g τ).andThen (leave f (settle (.error e)))) := by
  have hperform : (perform ev c.lit args (entered f stack σ) (entryStore c pos σ)).Leads R
      (.done (.error e) g τ) := by
    unfold perform
    rw [bind_apply]
    exact h.andThen
  rw [invoke_apply haccepts hpush]
  refine (activate_leads habort hperform).andThen.trans ?_
  rw [Step.andThen_andThen]
  have hleave : ∀ next, next = leave f (settle (.error e)) →
      ((runDeferred ev fuel (frameOf c pos σ).id g τ).andThen next).Leads R
        ((runDeferred ev fuel (frameOf c pos σ).id g τ).andThen (leave f (settle (.error e)))) :=
    fun _ hnext => hnext ▸ .refl
  refine hleave _ ?_
  funext r h υ
  cases r with
  | ok => rfl
  | error => rfl

/-- The calls put off on the frame of a call end, but for an abort, where they began: with
the frame of the call on top. -/
theorem pop_of_runDeferred {e : Exit} {h : Fiber} {υ : Store} {r : Except Exit Unit}
    (hpush : f.stack.push? (frameOf c pos σ) = some stack) (habort : e.isAbort = false)
    (hbind : (bindParameters (evaluator n) c.lit args (entered f stack σ)
      (entryStore c pos σ)).Ends (.error e) g τ)
    (hdeferred : (runDeferred (evaluator n) fuel (frameOf c pos σ).id g τ).Ends r h υ) :
    (∃ e, r = .error e ∧ e.isAbort = true) ∨ r = .ok () ∧ h.stack.pop = f.stack := by
  have hfree := sound_evaluator lawful_free n
  have binds : free.Runs true .all Any (entered f stack σ).site (entryStore c pos σ)
      (entryStore c pos σ) (bindParameters (evaluator n) c.lit args)
      (bindParameters (evaluator n) c.lit args) :=
    hfree.runs_bindParameters fun v _ => Value.within_of_forall (fun _ => trivial) v
  have hsite : g.site = (entered f stack σ).site :=
    ((binds trivial _ rfl).of_ends hbind).site_eq fun e' he => Except.error.inj he ▸ habort
  have hstack : g.stack = stack := congrArg Site.stack hsite
  have htop : g.site.stack.top?.map Frame.id = some (frameOf c pos σ).id := by
    show g.stack.top?.map Frame.id = _
    rw [hstack, CallStack.top?_of_push? hpush]
    rfl
  have runs : free.Runs true .none Any g.site σ τ
      (runDeferred (evaluator n) fuel (frameOf c pos σ).id)
      (runDeferred (evaluator n) fuel (frameOf c pos σ).id) :=
    hfree.runs_runDeferred (Nat.le_refl _) htop
  have hpost := (runs trivial g rfl).of_ends hdeferred
  cases r with
  | error e => exact .inl ⟨e, rfl, Ways.isAbort_of_none hpost.2.2.2.1⟩
  | ok =>
    have hback : h.stack = stack :=
      (congrArg Site.stack (hpost.site_eq fun _ he => nomatch he)).trans hstack
    exact .inr ⟨rfl, hback ▸ CallStack.pop_of_push? hpush⟩

/-- The parameters of a call are bound, in its scope and with its frame on the stack. -/
def binding (n : Nat) (c : Closure) (args : List Value) (pos : Position) (f : Fiber)
    (stack : CallStack) (σ : Store) : Step Unit :=
  bindParameters (evaluator n) c.lit args (entered f stack σ) (entryStore c pos σ)

theorem getLocal?_entryStore (c : Closure) (pos : Position) (σ : Store) (name : String) :
    (entryStore c pos σ).getLocal? ⟨σ.scopes.size⟩ name = none := by
  have hscope : (entryStore c pos σ).scope ⟨σ.scopes.size⟩ =
      { bindings := [], parent := some c.scope, frame := some (frameOf c pos σ) } :=
    Store.scope_addScope_new (σ := (σ.newFrame c.lit.displayName pos).2)
  unfold Store.getLocal?
  rw [hscope]
  rfl

/-- A call that takes its arguments loses none of them and makes none up.  No task takes
a name out of a scope, so what follows holds whatever others do meanwhile.  If there is an
argument for each fixed parameter, the scope of the call binds each to its own, the
parameter for the rest to a new array of the others, `$argc` to their number, and nothing
else.  If there are fewer, exactly the fixed parameters without one are filled, from left
to right, where those before them are bound.  If a default ends in an error, the calls put
off on the frame run next, without the body, the frame is taken off, and the call ends in
the error. -/
theorem arguments_bound (n fuel : Nat) (c : Closure) (args : List Value) (pos : Position)
    (f : Fiber) (σ : Store) (stack : CallStack) (hnamed : c.lit.Named)
    (haccepts : c.lit.accepts args.length = true)
    (hpush : f.stack.push? (frameOf c pos σ) = some stack) :
    (∀ s names, Lasting (·.BindsAll s names)) ∧
    (c.lit.fixedCount ≤ args.length → ∃ τ,
      binding n c args pos f stack σ = .done (.ok ()) (entered f stack σ) τ ∧
        Bound c.lit args ⟨σ.scopes.size⟩ (entryStore c pos σ) τ) ∧
    (∀ r g τ, (binding n c args pos f stack σ).Leads .naming (.done r g τ) ↔
      Fills (evaluator n) c.lit args.length (args.drop c.lit.fixedCount) ⟨σ.scopes.size⟩
        ((c.lit.supplied args).map Prod.fst) (c.lit.fixedParams.drop args.length)
        (entered f stack σ)
        ((entryStore c pos σ).bindAll ⟨σ.scopes.size⟩ (c.lit.supplied args)) r g τ) ∧
    (∀ e g τ, (binding n c args pos f stack σ).Leads .naming (.done (.error (.error e)) g τ) →
      (invoke (evaluator n) fuel c args pos f σ).Leads .naming
          ((runDeferred (evaluator n) fuel (frameOf c pos σ).id g τ).andThen
            (leave f (.error (.error e)))) ∧
        ∀ r h υ,
          (runDeferred (evaluator n) fuel (frameOf c pos σ).id g τ).Leads .naming (.done r h υ) →
          (∃ e, r = .error e ∧ e.isAbort = true) ∨
            (invoke (evaluator n) fuel c args pos f σ).Leads .naming
              (.done (.error (.error e)) { h with scope := f.scope, stack := f.stack } υ)) := by
  have hscope : σ.scopes.size < (entryStore c pos σ).scopes.size := by
    show _ < (σ.scopes.push _).size
    rw [Array.size_push]
    exact Nat.lt_succ_self _
  refine ⟨fun s names => (Store.sturdy_bindsAll s names).lasting, fun hle => ?_,
    fun r g τ => bindParameters_leads_iff hscope rfl, fun e g τ hbind => ?_⟩
  · exact ⟨_, bindParameters_of_le hle,
      bound_complete hnamed hscope (getLocal?_entryStore c pos σ)⟩
  · have hleave : (invoke (evaluator n) fuel c args pos f σ).Leads .naming
        ((runDeferred (evaluator n) fuel (frameOf c pos σ).id g τ).andThen
          (leave f (.error (.error e)))) := leads_leave haccepts hpush rfl hbind
    refine ⟨hleave, fun r h υ hdeferred => ?_⟩
    rcases pop_of_runDeferred hpush rfl hbind.ends hdeferred.ends with habort | ⟨rfl, hpop⟩
    · exact .inl habort
    · refine .inr (hleave.trans (hdeferred.andThen.trans ?_))
      rw [← hpop]
      exact .refl

/-- `fn(a, b = 1 / 0, rest...) { return a }` -/
def collectingFunction : FunctionLit :=
  ⟨none, [⟨"a", none⟩, ⟨"b", some (.bare (.infixed .div (.bare (.int 1)) (.bare (.int 0))))⟩,
    ⟨"rest", none⟩], true, [⟨.unknown, .ret [.bare (.ident "a")]⟩]⟩

theorem arguments_bound_collecting :
    (∃ τ, binding 5 ⟨⟨0⟩, collectingFunction, ⟨0⟩⟩ [.ofLength 7, .ofLength 8, .ofLength 9] .unknown
        (Session.ofSetup {}).fiber ⟨[⟨⟨0⟩, "fn", .unknown⟩], some 500⟩ (Session.ofSetup {}).store =
          .done (.ok ()) ⟨0, ⟨1⟩, ⟨[⟨⟨0⟩, "fn", .unknown⟩], some 500⟩, .unknown, .capture⟩ τ ∧
      τ.getLocal? ⟨1⟩ "b" = some (.ofLength 8) ∧ τ.getLocal? ⟨1⟩ "rest" = some (.array ⟨1⟩) ∧
      τ.array ⟨1⟩ = #[.ofLength 9]) ∧
    ∃ υ, (invoke (evaluator 5) 5 ⟨⟨0⟩, collectingFunction, ⟨0⟩⟩ [.ofLength 7] .unknown
        (Session.ofSetup {}).fiber (Session.ofSetup {}).store).Leads .naming
          (.done (.error (.error ⟨.divideByZero, .unknown⟩)) (Session.ofSetup {}).fiber υ) := by
  have hnamed : collectingFunction.Named := ⟨by decide, by decide, fun _ => List.cons_ne_nil _ _⟩
  have hcall := fun args haccepts => arguments_bound 5 5 ⟨⟨0⟩, collectingFunction, ⟨0⟩⟩ args .unknown
    (Session.ofSetup {}).fiber (Session.ofSetup {}).store ⟨[⟨⟨0⟩, "fn", .unknown⟩], some 500⟩ hnamed
    haccepts rfl
  refine ⟨?_, ?_⟩
  · obtain ⟨τ, hbinding, hbound⟩ :=
      (hcall [.ofLength 7, .ofLength 8, .ofLength 9] rfl).2.1 (by decide)
    have hb : collectingFunction.Assigns [.ofLength 7, .ofLength 8, .ofLength 9] (.array ⟨1⟩) "b"
        (.ofLength 8) := .argument (i := 1) (p := ⟨"b", _⟩) rfl rfl
    have hrest : collectingFunction.Assigns [.ofLength 7, .ofLength 8, .ofLength 9] (.array ⟨1⟩)
        "rest" (.array ⟨1⟩) := .rest (p := ⟨"rest", none⟩) rfl rfl
    exact ⟨τ, hbinding, (hbound.names _ _).mpr hb, (hbound.names _ _).mpr hrest, hbound.collected rfl⟩
  · rcases ((hcall [.ofLength 7] rfl).2.2.2 ⟨.divideByZero, .unknown⟩ _ _ .refl).2 _ _ _ .refl
      with habort | hleads
    · obtain ⟨e, he, _⟩ := habort
      cases he
    · exact ⟨_, hleads⟩

end Call
end TreeWalk
