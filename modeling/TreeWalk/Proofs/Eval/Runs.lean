/-
Computations that keep to a discipline.

`Runs` compares two computations, because evaluators are compared below: one as it
is, and one that watches what it evaluates.  Both must take the same turns, and
wherever they wait or end the store must fit, and must have come about from the one
that they went on with in a way that the discipline allows.  There is a rule for every way of
putting computations together, so what a construct of the language does is read
off its definition.
-/
import TreeWalk.Proofs.Eval.Discipline

namespace TreeWalk
namespace Fiber

/-- Back from another scope. -/
theorem site_back {f g : Fiber} {scope : ScopeId} (h : g.site = { f.site with scope := scope }) :
    ({ g with scope := f.scope } : Fiber).site = f.site := by
  have hstack : g.stack = f.stack := congrArg Site.stack h
  have hsink : g.sink = f.sink := congrArg Site.sink h
  simp only [Fiber.site, hstack, hsink]

end Fiber

/-- A failure may leave where errors may. -/
theorem Exit.IsFailure.allowed {e : Exit} {w : Ways} (h : e.IsFailure) (hw : w.fail) :
    w.allows e := by
  cases e with
  | error e => exact hw
  | fault message => trivial
  | _ => exact h.elim

namespace Discipline

open Eval

variable {α β γ : Type}

/-- A change that leads from one store to another one that fits. -/
structure Fitting (D : Discipline) (b : Bool) (here : Site) (σ₀ σ σ' : Store) : Prop where
  fit : D.fit b here σ₀ σ'
  later : D.Later σ σ'
  stretch : D.stretch here.sink σ σ'

/-- How a computation may end that began at `here` with the store `σ`, as part of
an evaluation that began with `σ₀`. -/
def Post (D : Discipline) (b : Bool) (w : Ways) (Φ : Store → α → Prop) (here : Site)
    (σ₀ σ : Store) (r : Except Exit α) (g : Fiber) (σ' : Store) : Prop :=
  D.fit b here σ₀ σ' ∧ D.Later σ σ' ∧
    match r with
    | .ok a => g.site = here ∧ Φ σ' a
    | .error e => (w.lost ∧ e.isAbort = true ∨ g.site = here) ∧ w.allows e ∧ e.Within (D.At σ')

/-- Both computations take the same turns from a store that fits, and end as
`Post` says, where the discipline admits what `w` lets be put off. -/
def Runs (D : Discipline) (b : Bool) (w : Ways) (Φ : Store → α → Prop) (here : Site)
    (σ₀ σ : Store) (x y : Eval α) : Prop :=
  D.fit b here σ₀ σ → ∀ f : Fiber, f.site = here →
    [D.Admits here.stack w] →
    (x f σ).Alike (D.terms here.sink) (D.fit b here σ₀) (D.Post b w Φ here σ₀ σ) σ (y f σ)

/-- The value leads to scopes that code may run in. -/
def Holds (D : Discipline) (σ : Store) (v : Value) : Prop := v.Within (D.At σ)

def HoldsAll (D : Discipline) (σ : Store) (vs : List Value) : Prop := Value.ListWithin (D.At σ) vs

/-- A hash that is being made. -/
def HoldsDict (D : Discipline) (σ : Store) (d : Dict) : Prop := d.Within (D.At σ) ∧ d.Consistent

/-- Nothing has to be known. -/
def Any : Store → α → Prop := fun _ _ => True

/-- A result that ended in one of the ways `w`, other than an abort. -/
def Settled (D : Discipline) (w : Ways) (Φ : Store → α → Prop) (σ : Store) :
    Except Exit α → Prop
  | .ok a => Φ σ a
  | .error e => e.isAbort = false ∧ w.allows e ∧ e.Within (D.At σ)

variable {D : Discipline} {b : Bool} {w w' : Ways} {Φ Φ' : Store → α → Prop} {Ψ : Store → β → Prop}
  {here : Site} {σ₀ σ σ' σ'' : Store} {x y : Eval α}

/-- But for an abort, the task is back where it began. -/
theorem Post.site_eq {r : Except Exit α} {g : Fiber} (h : D.Post b w Φ here σ₀ σ r g σ')
    (hkept : ∀ e, r = .error e → e.isAbort = false) : g.site = here := by
  obtain ⟨_, _, hpost⟩ := h
  cases r with
  | ok v => exact hpost.1
  | error e => exact hpost.1.resolve_left fun hlost => by simp [hkept e rfl] at hlost

theorem holdsAll_nil : D.HoldsAll σ [] := fun _ hv => nomatch hv

theorem holdsAll_cons {v : Value} {vs : List Value} (hv : D.Holds σ v) (hvs : D.HoldsAll σ vs) :
    D.HoldsAll σ (v :: vs) := by
  intro v' hv'
  rcases List.mem_cons.mp hv' with rfl | hv'
  · exact hv
  · exact hvs v' hv'

theorem holdsAll_concat {v : Value} {vs : List Value} (hvs : D.HoldsAll σ vs) (hv : D.Holds σ v) :
    D.HoldsAll σ (vs ++ [v]) := by
  intro v' hv'
  rcases List.mem_append.mp hv' with hv' | hv'
  · exact hvs v' hv'
  · exact List.mem_singleton.mp hv' ▸ hv

theorem holdsDict_empty : D.HoldsDict σ .empty := ⟨Dict.within_empty, .empty⟩

namespace HoldsDict

variable {d : Dict}

theorem later (h : D.HoldsDict σ d) (hlater : D.Later σ σ') : D.HoldsDict σ' d :=
  ⟨h.1.mono hlater, h.2⟩

/-- A value is filed under its own key. -/
theorem insert {hash : Key} {key v : Value} (h : D.HoldsDict σ d) (hhash : key.key? = some hash)
    (hkey : D.Holds σ key) (hv : D.Holds σ v) : D.HoldsDict σ (d.insert hash key v) :=
  ⟨h.1.insert hkey hv, h.2.insert hhash⟩

end HoldsDict

theorem Settled.later {r : Except Exit Value} (h : D.Settled w D.Holds σ r)
    (hlater : D.Later σ σ') : D.Settled w D.Holds σ' r := by
  cases r with
  | ok v => exact hlater.value h
  | error e => exact ⟨h.1, h.2.1, h.2.2.mono hlater⟩

namespace Runs

/-! ## Rules for all disciplines -/

/-- The store fits wherever a computation begins. -/
theorem intro (h : D.fit b here σ₀ σ → D.Runs b w Φ here σ₀ σ x y) : D.Runs b w Φ here σ₀ σ x y :=
  fun hfit => h hfit hfit

/-- What may be put off is admitted wherever a computation begins. -/
theorem admitted (h : D.Admits here.stack w → D.Runs b w Φ here σ₀ σ x y) :
    D.Runs b w Φ here σ₀ σ x y := fun hfit f hf hadmits => h hadmits hfit f hf

theorem mono (h : D.Runs b w Φ here σ₀ σ x y) (hw : w ≤ w')
    (hΦ : ∀ σ' a, D.Later σ σ' → Φ σ' a → Φ' σ' a) : D.Runs b w' Φ' here σ₀ σ x y := by
  intro hfit f hf hadmits
  have hparts : D.Admits here.stack w := ⟨fun call hcall => hadmits.puts call (hw.puts call hcall)⟩
  refine (h hfit f hf).mono (fun _ h => h) ?_
  rintro (e | a) g σ' ⟨hfit', hlater, hpost⟩
  · obtain ⟨hsite, hallows, hwithin⟩ := hpost
    exact ⟨hfit', hlater, hsite.imp_left (fun h => ⟨hw.lost h.1, h.2⟩),
      Ways.allows_of_le hw hallows, hwithin⟩
  · exact ⟨hfit', hlater, hpost.1, hΦ σ' a hlater hpost.2⟩

theorem weaken (h : D.Runs b w Φ here σ₀ σ x y) (hw : w ≤ w') : D.Runs b w' Φ here σ₀ σ x y :=
  h.mono hw fun _ _ _ h => h

theorem pure {a : α} (h : Φ σ a) : D.Runs b w Φ here σ₀ σ (Pure.pure a) (Pure.pure a) :=
  fun hfit _ hf => .ended ⟨hfit, .refl σ, hf, h⟩

/-- Ends with an exit that is allowed. -/
theorem exit {e : Exit} (hw : w.allows e) (he : e.Within (D.At σ)) :
    D.Runs b w Φ here σ₀ σ (Eval.exit e) (Eval.exit e) :=
  fun hfit _ hf => .ended ⟨hfit, .refl σ, .inr hf, hw, he⟩

/-- Nothing follows an exit. -/
theorem exit_then {e : Exit} {k l : α → Eval β} (hw : w.allows e) (he : e.Within (D.At σ)) :
    D.Runs b w Ψ here σ₀ σ (Eval.exit e >>= k) (Eval.exit e >>= l) :=
  fun hfit _ hf => .ended ⟨hfit, .refl σ, .inr hf, hw, he⟩

theorem fail {cause : Cause} {pos : Position} (hw : w.fail) :
    D.Runs b w Φ here σ₀ σ (Eval.fail cause pos) (Eval.fail cause pos) := exit hw trivial

/-- Ends with a fault or because the evaluation is too long. -/
theorem abort {e : Exit} (he : e.isAbort = true) :
    D.Runs b w Φ here σ₀ σ (Eval.exit e) (Eval.exit e) := by
  refine exit (Ways.allows_of_isAbort he) ?_
  cases e with
  | ret v => cases he
  | _ => trivial

theorem ofResult {r : Except Exit α} (h : D.Settled w Φ σ r) :
    D.Runs b w Φ here σ₀ σ (Eval.ofResult r) (Eval.ofResult r) := by
  cases r with
  | ok a => exact pure h
  | error e => exact exit h.2.1 h.2.2

theorem bind {k l : α → Eval β} (hx : D.Runs b w Φ here σ₀ σ x y)
    (hk : ∀ a σ', D.Later σ σ' → Φ σ' a → D.Runs b w Ψ here σ₀ σ' (k a) (l a)) :
    D.Runs b w Ψ here σ₀ σ (x >>= k) (y >>= l) := by
  intro hfit f hf hadmits
  rw [bind_apply, bind_apply]
  refine (hx hfit f hf).andThen (fun _ h => h) ?_
  rintro (e | a) g σ' ⟨hfit', hlater, hpost⟩
  · exact .ended ⟨hfit', hlater, hpost⟩
  · refine (hk a σ' hlater hpost.2 hfit' g hpost.1).mono (fun _ h => h) ?_
    rintro r g' σ'' ⟨hfit'', hlater', hpost'⟩
    exact ⟨hfit'', hlater.trans hlater', hpost'⟩

/-- Going on with an answer of which nothing has to be known. -/
theorem seq {k l : α → Eval β} (hx : D.Runs b w Any here σ₀ σ x y)
    (hk : ∀ a σ', D.Later σ σ' → D.Runs b w Ψ here σ₀ σ' (k a) (l a)) :
    D.Runs b w Ψ here σ₀ σ (x >>= k) (y >>= l) := hx.bind fun a σ' h _ => hk a σ' h

/-- Reading changes nothing, and what is read holds in the store as it is. -/
theorem read {g : Store → α} {k l : α → Eval β}
    (h : D.Runs b w Ψ here σ₀ σ (k (g σ)) (l (g σ))) :
    D.Runs b w Ψ here σ₀ σ (Eval.read g >>= k) (Eval.read g >>= l) := by
  intro hfit f hf hadmits
  exact h hfit f hf

theorem read' {g : Store → α} (h : Φ σ (g σ)) :
    D.Runs b w Φ here σ₀ σ (Eval.read g) (Eval.read g) :=
  fun hfit _ hf => .ended ⟨hfit, .refl σ, hf, h⟩

theorem fiber {k l : Fiber → Eval β}
    (h : ∀ f : Fiber, f.site = here → D.Runs b w Ψ here σ₀ σ (k f) (l f)) :
    D.Runs b w Ψ here σ₀ σ (Eval.fiber >>= k) (Eval.fiber >>= l) := by
  intro hfit f hf hadmits
  exact h f hf hfit f hf

theorem position {k l : Position → Eval β}
    (h : ∀ pos, D.Runs b w Ψ here σ₀ σ (k pos) (l pos)) :
    D.Runs b w Ψ here σ₀ σ (Eval.position >>= k) (Eval.position >>= l) := by
  intro hfit f hf hadmits
  exact h f.pos hfit f hf

theorem enter {pos : Position} {k l : Position → Eval β}
    (h : ∀ pos', D.Runs b w Ψ here σ₀ σ (k pos') (l pos')) :
    D.Runs b w Ψ here σ₀ σ (Eval.enter pos >>= k) (Eval.enter pos >>= l) := by
  intro hfit f hf hadmits
  exact h (pos.orElse f.pos) hfit { f with pos := pos.orElse f.pos } hf

/-- Changes the store to one that fits. -/
theorem change {g : Store → α × Store}
    (h : D.fit b here σ₀ σ → D.Fitting b here σ₀ σ (g σ).2 ∧ Φ (g σ).2 (g σ).1) :
    D.Runs b w Φ here σ₀ σ (Eval.change g) (Eval.change g) := by
  intro hfit f hf hadmits
  obtain ⟨hchange, hΦ⟩ := h hfit
  exact .done hchange.stretch ⟨hchange.fit, hchange.later, hf, hΦ⟩

theorem update {g : Store → Store} (h : D.fit b here σ₀ σ → D.Fitting b here σ₀ σ (g σ)) :
    D.Runs b w Any here σ₀ σ (Eval.update g) (Eval.update g) := by
  intro hfit f hf hadmits
  exact .done (h hfit).stretch ⟨(h hfit).fit, (h hfit).later, hf, trivial⟩

/-- What follows a change begins with the store that the change makes. -/
theorem change_then {g : Store → α × Store} {k l : α → Eval β}
    (hg : D.fit b here σ₀ σ → D.Fitting b here σ₀ σ (g σ).2)
    (hk : D.Runs b w Ψ here σ₀ (g σ).2 (k (g σ).1) (l (g σ).1)) :
    D.Runs b w Ψ here σ₀ σ (Eval.change g >>= k) (Eval.change g >>= l) := by
  intro hfit f hf hadmits
  have hchange := hg hfit
  refine ((hk hchange.fit f hf).mono (fun _ h => h) ?_).after hchange.stretch
  rintro r f' σ' ⟨hfit', hlater', hpost⟩
  exact ⟨hfit', hchange.later.trans hlater', hpost⟩

/-- Answers how a computation ended, unless by an abort. -/
theorem attempt (h : D.Runs b w' Φ here σ₀ σ x y) (hlost : w'.lost → w.lost)
    (hputs : D.Admits here.stack w → D.Admits here.stack w') :
    D.Runs b w (D.Settled w' Φ) here σ₀ σ (Eval.attempt x) (Eval.attempt y) := by
  intro hfit f hf hadmits
  have hinner := hputs hadmits
  refine (h hfit f hf).andThen (fun _ h => h) ?_
  rintro (e | a) g σ' ⟨hfit', hlater, hpost⟩
  · obtain ⟨hsite, hallows, hwithin⟩ := hpost
    dsimp only
    split
    · next habort =>
      exact .ended ⟨hfit', hlater, hsite.imp_left (fun h => ⟨hlost h.1, h.2⟩),
        Ways.allows_of_isAbort habort, hwithin⟩
    · next habort =>
      have habort : e.isAbort = false := by simpa using habort
      refine .ended ⟨hfit', hlater, ?_, habort, hallows, hwithin⟩
      exact hsite.resolve_left fun h => by simp [habort] at h
  · exact .ended ⟨hfit', hlater, hpost.1, hpost.2⟩

/-- Answers how a computation ended, if that is always where it began. -/
theorem protect (h : D.Runs b w' Φ here σ₀ σ x y) (hlost : ¬ w'.lost)
    (hputs : D.Admits here.stack w → D.Admits here.stack w') :
    D.Runs b w (fun σ r => match r with
      | .ok a => Φ σ a
      | .error e => w'.allows e ∧ e.Within (D.At σ)) here σ₀ σ
      (Eval.protect x) (Eval.protect y) := by
  intro hfit f hf hadmits
  have hinner := hputs hadmits
  refine (h hfit f hf).andThen (fun _ h => h) ?_
  rintro (e | a) g σ' ⟨hfit', hlater, hpost⟩
  · exact .ended ⟨hfit', hlater, hpost.1.resolve_left fun h => hlost h.1, hpost.2⟩
  · exact .ended ⟨hfit', hlater, hpost.1, hpost.2⟩

/-- Runs a computation in another scope, which it may leave the store fit for. -/
theorem withScope {scope : ScopeId} (hin : D.fit true { here with scope := scope } σ' σ)
    (hx : D.Runs true w Φ { here with scope := scope } σ' σ x y)
    (hout : ∀ τ, D.fit true { here with scope := scope } σ' τ → D.fit b here σ₀ τ) :
    D.Runs b w Φ here σ₀ σ (Eval.withScope scope x) (Eval.withScope scope y) := by
  intro hfit f hf hadmits
  obtain rfl : f.site = here := hf
  refine (hx hin { f with scope := scope } rfl).andThen hout ?_
  rintro (e | a) g τ ⟨hfit', hlater, hpost⟩
  · exact .ended ⟨hout τ hfit', hlater, hpost.1.imp_right Fiber.site_back, hpost.2⟩
  · exact .ended ⟨hout τ hfit', hlater, Fiber.site_back hpost.1, hpost.2⟩

/-- Runs a computation with another fiber, in silence if it is not heard where the own
text goes; the task is always back where it was. -/
theorem withFiber {g : Fiber} (hin : D.fit true g.site σ' σ)
    (hx : D.Runs true w Φ g.site σ' σ x y)
    (hputs : D.Admits here.stack w → D.Admits g.site.stack w)
    (hstretch : ∀ ρ τ, D.stretch g.sink ρ τ → D.stretch here.sink ρ τ)
    (hout : ∀ τ, D.fit true g.site σ' τ → D.fit b here σ₀ τ) :
    D.Runs b w.steady Φ here σ₀ σ (Eval.withFiber g x) (Eval.withFiber g y) := by
  intro hfit f hf hadmits
  have hinner := hputs ⟨hadmits.puts⟩
  have hrun : (x g σ).Alike (D.terms here.sink) (D.fit true g.site σ')
      (D.Post true w Φ g.site σ' σ) σ (y g σ) :=
    (hx hin g rfl).weaken (fun _ _ _ _ h => h) hstretch fun h => h
  refine hrun.andThen hout ?_
  rintro (e | a) g τ ⟨hfit', hlater, hpost⟩
  · refine .ended ⟨hout τ hfit', hlater, .inr hf, ?_, hpost.2.2⟩
    have hallows := hpost.2.1
    cases e <;> exact hallows
  · exact .ended ⟨hout τ hfit', hlater, hf, hpost.2⟩

/-! ## Loops -/

/-- What every step of a loop preserves holds as long as the loop runs. -/
theorem iterate {step step' : β → Eval (β ⊕ α)} (I : Store → β → Prop)
    (hstep : ∀ σ' s, D.Later σ σ' → I σ' s → D.Runs b w (fun τ r => match r with
      | .inl s => I τ s
      | .inr a => Φ τ a) here σ₀ σ' (step s) (step' s))
    (fuel : Nat) {s : β} (hs : I σ s) :
    D.Runs b w Φ here σ₀ σ (Eval.iterate step fuel s) (Eval.iterate step' fuel s) := by
  induction fuel generalizing σ s with
  | zero => exact abort rfl
  | succ fuel ih =>
    rw [iterate_succ, iterate_succ]
    refine (hstep σ s (.refl σ) hs).bind fun r σ' hlater hr => ?_
    cases r with
    | inl s' => exact ih (fun σ'' s'' h => hstep σ'' s'' (hlater.trans h)) hr
    | inr a => exact pure hr

/-- What every step over the elements of a list preserves holds to its end. -/
theorem foldList {step step' : β → α → Eval β} {items : List α} (I : Store → β → Prop)
    (hstep : ∀ σ' s, D.Later σ σ' → ∀ a ∈ items, I σ' s →
      D.Runs b w I here σ₀ σ' (step s a) (step' s a))
    {s : β} (hs : I σ s) :
    D.Runs b w I here σ₀ σ (Eval.foldList step items s) (Eval.foldList step' items s) := by
  induction items generalizing σ s with
  | nil => exact pure hs
  | cons a rest ih =>
    rw [foldList_cons, foldList_cons]
    refine (hstep σ s (.refl σ) a List.mem_cons_self hs).bind fun s' σ' hlater hs' => ?_
    exact ih (fun σ'' t h a' ha' => hstep σ'' t (hlater.trans h) a' (List.mem_cons_of_mem a ha')) hs'

/-- What a computation makes of the elements of a list. -/
theorem mapList {g g' : α → Eval β} {items : List α}
    (hmono : ∀ σ' σ'' c, D.Later σ' σ'' → Ψ σ' c → Ψ σ'' c)
    (hg : ∀ σ', D.Later σ σ' → ∀ a ∈ items, D.Runs b w Ψ here σ₀ σ' (g a) (g' a)) :
    D.Runs b w (fun τ results => ∀ c ∈ results, Ψ τ c) here σ₀ σ
      (Eval.mapList g items) (Eval.mapList g' items) := by
  refine bind (foldList (fun τ results => ∀ c ∈ results, Ψ τ c) ?_ ?_) fun results σ' _ h => ?_
  · intro σ' results hlater a ha hresults
    refine (hg σ' hlater a ha).bind fun c σ'' hlater' hc => pure fun c' hc' => ?_
    rcases List.mem_cons.mp hc' with rfl | hc'
    · exact hc
    · exact hmono σ' σ'' c' hlater' (hresults c' hc')
  · exact fun c hc => nomatch hc
  · exact pure fun c hc => h c (List.mem_reverse.mp hc)

end Runs

/-! ## Rules that rest on the laws -/

namespace Steady

variable (hD : D.Steady)
include hD

/-- Part of an evaluation can be looked at by itself. -/
theorem runs_restart (h : D.Runs b w Φ here σ σ x y) : D.Runs b w Φ here σ₀ σ x y := by
  intro hfit f hf hadmits
  have hbegin : D.fit b here σ σ := by
    cases b with
    | false => exact hD.restart hfit
    | true => exact hD.weaken (hD.restart hfit)
  refine (h hbegin f hf).mono (fun _ h => hD.trans hfit h) ?_
  rintro r g σ' ⟨hfit', hpost⟩
  exact ⟨hD.trans hfit hfit', hpost⟩

/-- What binds no names of its own is part of what may. -/
theorem runs_open (h : D.Runs false w Φ here σ σ x y) : D.Runs b w Φ here σ₀ σ x y := by
  cases b with
  | false => exact hD.runs_restart h
  | true =>
    refine hD.runs_restart fun hfit f hf => ?_
    refine (h (hD.restart hfit) f hf).mono (fun _ h => hD.weaken h) ?_
    rintro r g σ' ⟨hfit', hpost⟩
    exact ⟨hD.weaken hfit', hpost⟩

theorem fitting_quiet (hfit : D.fit b here σ₀ σ) (h : σ.Quiet (D.At σ) σ') :
    D.Fitting b here σ₀ σ σ' :=
  ⟨hD.quiet hfit h, .of_scopes_eq h.scopes, hD.still.same h.scopes h.outward⟩

theorem runs_change {g : Store → α × Store}
    (h : σ.Closed (D.At σ) → σ.Quiet (D.At σ) (g σ).2 ∧ Φ (g σ).2 (g σ).1) :
    D.Runs b w Φ here σ₀ σ (Eval.change g) (Eval.change g) :=
  .change fun hfit =>
    ⟨hD.fitting_quiet hfit (h (hD.closed hfit)).1, (h (hD.closed hfit)).2⟩

theorem runs_update {g : Store → Store} (h : σ.Quiet (D.At σ) (g σ)) :
    D.Runs b w Any here σ₀ σ (Eval.update g) (Eval.update g) :=
  .update fun hfit => hD.fitting_quiet hfit h

theorem runs_newArray {items : List Value} (h : D.HoldsAll σ items) :
    D.Runs b w D.Holds here σ₀ σ (Eval.change (·.newArray items.toArray))
      (Eval.change (·.newArray items.toArray)) :=
  hD.runs_change fun _ => ⟨Store.quiet_newArray h, trivial⟩

theorem runs_newDict {d : Dict} (h : D.HoldsDict σ d) :
    D.Runs b w D.Holds here σ₀ σ (Eval.change (·.newDict d)) (Eval.change (·.newDict d)) :=
  hD.runs_change fun _ => ⟨Store.quiet_newDict h.1 fun _ => h.2, trivial⟩

theorem fitting_bind {name : String} {v : Value} (hfit : D.fit true here σ₀ σ)
    (hv : D.Holds σ v) : D.Fitting true here σ₀ σ (σ.bind here.scope name v) :=
  ⟨hD.bind hfit hv, hD.later .bind, hD.still.bind (hD.inside hfit)⟩

theorem runs_bindName {name : String} {v : Value} (hv : D.Holds σ v) :
    D.Runs true w Any here σ₀ σ (Eval.bindName name v) (Eval.bindName name v) := by
  intro hfit f hf hadmits
  obtain rfl := hf
  obtain ⟨hfit', hlater, hstretch⟩ := hD.fitting_bind hfit hv
  exact .done hstretch ⟨hfit', hlater, rfl, trivial⟩

/-- A task that waits is told something within. -/
theorem runs_await {e : Event} :
    D.Runs b w (fun τ a => e.AnswerWithin (D.At τ) a) here σ₀ σ (Eval.await e) (Eval.await e) := by
  intro hfit f hf hadmits
  unfold Eval.await
  split
  · next answer σ' heq =>
    obtain ⟨hquiet, hanswer⟩ := Event.quiet_of_happen? e heq
    obtain ⟨hfit', hlater, hstretch⟩ := hD.fitting_quiet hfit hquiet
    refine .done hstretch ⟨hfit', hlater, hf, ?_⟩
    have hscopes : D.At σ' = D.At σ := by
      unfold At
      rw [hquiet.scopes]
    show e.AnswerWithin (D.At σ') answer
    rw [hscopes]
    exact hanswer (hD.closed hfit)
  · refine .wait ((D.stretch _).refl σ) hfit fun answer σ' hresume => ?_
    obtain ⟨hfit', hlater, hanswer⟩ := hD.resume hfit hresume
    exact .ended ⟨hfit', hlater, hf, hanswer⟩

/-- Waiting for something of which nothing has to be known. -/
theorem runs_wait {e : Event} : D.Runs b w Any here σ₀ σ (Eval.await e) (Eval.await e) :=
  hD.runs_await.mono (Ways.le_refl w) fun _ _ _ _ => trivial

theorem runs_yieldTurn : D.Runs b w Any here σ₀ σ Eval.yieldTurn Eval.yieldTurn := by
  intro hfit f hf hadmits
  unfold Eval.yieldTurn
  split
  · exact .ended ⟨hfit, .refl σ, hf, trivial⟩
  · refine .wait ((D.stretch _).refl σ) hfit fun answer σ' hresume => ?_
    obtain ⟨hfit', hlater, _⟩ := hD.resume hfit hresume
    exact .ended ⟨hfit', hlater, hf, trivial⟩

theorem later_newScope {parent : Option ScopeId} {frame : Option Frame} :
    D.Later σ (σ.newScope parent frame).2 := hD.later .addScope

/-- A scope for a block is made. -/
theorem fitting_childScope (hfit : D.fit b here σ₀ σ) :
    D.Fitting b here σ₀ σ (σ.childScope here.scope).2 :=
  ⟨hD.leave_child hfit (hD.enter_child hfit), hD.later_newScope, hD.still.scope⟩

/-- A computation in a new scope of its own binds no names in the scope around
it. -/
theorem runs_withChildScope {x y : Eval α}
    (hx : D.Runs true w Φ { here with scope := ⟨σ.scopes.size⟩ } σ (σ.childScope here.scope).2 x y) :
    D.Runs b w Φ here σ₀ σ (Eval.withChildScope x) (Eval.withChildScope y) := by
  intro hfit f hf hadmits
  obtain rfl := hf
  have hchild := hD.fitting_childScope hfit
  have hrun := Runs.withScope (hD.enter_child hfit) hx fun τ h => hD.leave_child hfit h
  refine ((hrun hchild.fit f rfl).mono (fun _ h => h) ?_).after hchild.stretch
  rintro r g τ ⟨hfit', hlater, hpost⟩
  exact ⟨hfit', hchild.later.trans hlater, hpost⟩

/-- A quiet change that follows a computation however it ends. -/
theorem runs_ensure {g : Store → Store} (hx : D.Runs b w Φ here σ₀ σ x y)
    (hg : ∀ τ : Store, τ.Quiet (D.At τ) (g τ))
    (hmono : ∀ τ τ' a, D.Later τ τ' → Φ τ a → Φ τ' a) :
    D.Runs b w Φ here σ₀ σ
      (Eval.protect x >>= fun r => Eval.update g >>= fun _ => Eval.ofResult r)
      (Eval.protect y >>= fun r => Eval.update g >>= fun _ => Eval.ofResult r) := by
  intro hfit f hf hadmits
  have run : ∀ z : Eval α, (Eval.protect z >>= fun r => Eval.update g >>= fun _ => Eval.ofResult r)
      f σ = (z f σ).andThen fun r f' τ => .done r f' (g τ) := by
    intro z
    rw [bind_apply]
    unfold Eval.protect
    rw [Step.andThen_andThen]
    rfl
  rw [run x, run y]
  refine (hx hfit f hf).andThen (fun _ h => h) ?_
  rintro (e | a) f' τ ⟨hfit', hlater, hpost⟩
  · obtain ⟨hfit'', hlater', hstretch⟩ := hD.fitting_quiet hfit' (hg τ)
    exact .done hstretch
      ⟨hfit'', hlater.trans hlater', hpost.1, hpost.2.1, hpost.2.2.mono hlater'⟩
  · obtain ⟨hfit'', hlater', hstretch⟩ := hD.fitting_quiet hfit' (hg τ)
    exact .done hstretch ⟨hfit'', hlater.trans hlater', hpost.1, hmono _ _ a hlater' hpost.2⟩

theorem runs_ensure_then {g : Store → Store} {k l : α → Eval β} (hx : D.Runs b w Φ here σ₀ σ x y)
    (hg : ∀ τ : Store, τ.Quiet (D.At τ) (g τ))
    (hmono : ∀ τ τ' a, D.Later τ τ' → Φ τ a → Φ τ' a)
    (hk : ∀ a σ', D.Later σ σ' → Φ σ' a → D.Runs b w Ψ here σ₀ σ' (k a) (l a)) :
    D.Runs b w Ψ here σ₀ σ
      (Eval.protect x >>= fun r => Eval.update g >>= fun _ => Eval.ofResult r >>= k)
      (Eval.protect y >>= fun r => Eval.update g >>= fun _ => Eval.ofResult r >>= l) := by
  have h := (hD.runs_ensure hx hg hmono).bind hk
  simp only [bind_assoc] at h
  exact h

end Steady

namespace Lawful

variable (hD : D.Lawful)
include hD

/-- What nothing is heard of may be done by everyone. -/
theorem runs_of_hushed (h : D.hushed.Runs b w Φ here σ₀ σ x y) : D.Runs b w Φ here σ₀ σ x y :=
  fun hfit f hf =>
    (h hfit f hf).weaken (fun _ _ _ _ h => h) (fun _ _ => hD.tells.silent) fun h => h

/-- A computation on the store that prints a text at the end. -/
theorem runs_speak {a : Atomic α} {Φ : α → Prop} (ha : Atomic.Speaks (D.At σ) here.sink Φ a)
    (hw : w.fail) : D.Runs b w (fun _ => Φ) here σ₀ σ (Eval.lift a) (Eval.lift a) := by
  intro hfit f hf hadmits
  have h := ha σ (hD.closed hfit)
  unfold Eval.lift
  split
  · next v σ' heq =>
    rw [heq] at h
    obtain ⟨⟨ρ, text, hcalm, rfl⟩, hanswer⟩ := h
    obtain ⟨hfit', hlater, hstretch⟩ := hD.fitting_quiet hfit hcalm.toQuiet
    have hprint : D.Later ρ (ρ.print here.sink text) := .of_scopes_eq Store.scopes_print
    exact .done ((D.stretch _).trans hstretch hD.tells.print)
      ⟨hD.print hfit', hlater.trans hprint, hf, hanswer⟩
  · next e heq =>
    rw [heq] at h
    exact .ended ⟨hfit, .refl σ, .inr hf, h.allowed hw, h.within⟩

theorem runs_print {text : String} :
    D.Runs b w Any here σ₀ σ (Eval.update (·.print here.sink text))
      (Eval.update (·.print here.sink text)) := by
  intro hfit f hf hadmits
  have hprint : D.Later σ (σ.print here.sink text) := .of_scopes_eq Store.scopes_print
  exact .done hD.tells.print ⟨hD.print hfit, hprint, hf, trivial⟩

/-- A sound computation on the store fails or makes a quiet change. -/
theorem runs_lift {a : Atomic α} {Φ : α → Prop} (ha : Atomic.Sound (D.At σ) Φ a) (hw : w.fail) :
    D.Runs b w (fun _ => Φ) here σ₀ σ (Eval.lift a) (Eval.lift a) := hD.runs_speak ha.speaks hw

theorem runs_liftValue {a : Atomic Value} (ha : Atomic.Sound (D.At σ) (Value.Within (D.At σ)) a)
    (hw : w.fail) : D.Runs b w D.Holds here σ₀ σ (Eval.lift a) (Eval.lift a) :=
  (hD.runs_lift ha hw).mono (Ways.le_refl w) fun _ _ hlater h => hlater.value h

end Lawful
end Discipline
end TreeWalk
