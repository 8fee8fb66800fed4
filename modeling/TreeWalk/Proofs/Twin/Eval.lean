/-
Evaluations that agree on twins.

From twin stores two evaluations take the same turns: they wait for the same events
and leave twin stores behind, go on alike when they are told twins, and end alike with
the same fiber.
-/
import TreeWalk.Eval.Evaluator
import TreeWalk.Proofs.Twin.Native

namespace TreeWalk

variable {α α' β β' : Type}

/-! ## Events -/

theorem rel_map_same {γ : Type} {R : α → β → Prop} {f : γ → α} {g : γ → β} {o o' : Option γ}
    (ho : o = o') (h : ∀ c, R (f c) (g c)) : Option.Rel R (o.map f) (o'.map g) := by
  subst ho
  cases o with
  | none => exact .none
  | some c => exact .some (h c)

namespace Event

/-- What a task is told of an event on both sides: the same, or twins received from a
channel. -/
def AnswerTwin : (e : Event) → e.Answer → e.Answer → Prop
  | received _ => Option.Rel Value.Twin
  | _ => Eq

variable {σ τ : Store} (h : σ.Twin τ)
include h

theorem rel_lock? (id : MutexId) : Option.Rel Store.Twin (lock? σ id) (lock? τ id) :=
  rel_map_same (congrArg Mutex.lock? (h.mutex_eq id)) fun _ => h.setMutex

theorem rel_include? (thread : Nat) :
    Option.Rel Store.Twin (include? σ thread) (include? τ thread) := by
  have hincluding : σ.including = τ.including := congrArg (fun s => s.including) h.bare_eq
  have enter : ∀ holder depth, Store.Twin { σ with including := some (holder, depth) }
      { τ with including := some (holder, depth) } := fun holder depth =>
    { h with bare_eq := congrArg (fun s => { s with including := some (holder, depth) }) h.bare_eq }
  unfold include?
  rw [hincluding]
  split
  · exact .some (enter thread 1)
  · next holder depth _ =>
    split
    · exact .some (enter holder (depth + 1))
    · exact .none

/-- An event comes about in twin stores alike. -/
theorem rel_happen? (e : Event) :
    Option.Rel (fun r s => e.AnswerTwin r.1 s.1 ∧ r.2.Twin s.2) (e.happen? σ) (e.happen? τ) := by
  cases e with
  | turn => exact .some ⟨rfl, h⟩
  | settled id ticket =>
    exact rel_map ((h.channel id).settle? ticket) fun r s hrs => ⟨hrs.1, h.setChannel hrs.2⟩
  | received id =>
    exact rel_map (h.channel id).receive? fun r s hrs => ⟨hrs.1, h.setChannel hrs.2⟩
  | locked id => exact rel_map (rel_lock? h id) fun _ _ hnext => ⟨rfl, hnext⟩
  | writeLocked id =>
    exact rel_map_same (congrArg RWMutex.lock? (h.rwMutex_eq id)) fun _ => ⟨rfl, h.setRWMutex⟩
  | readLocked id =>
    exact rel_map_same (congrArg RWMutex.readLock? (h.rwMutex_eq id)) fun _ => ⟨rfl, h.setRWMutex⟩
  | allDone id =>
    exact rel_map_same (congrArg WaitGroup.wait? (h.waitGroup_eq id)) fun _ => ⟨rfl, h.setWaitGroup⟩
  | woken id waiter =>
    exact rel_map_same (congrArg (·.leave? waiter) (h.cond_eq id)) fun _ => ⟨rfl, h.setCond⟩
  | entered id =>
    exact rel_map_same (congrArg Once.enter? (h.once_eq id)) fun _ => ⟨rfl, h.setOnce⟩
  | including thread => exact rel_map (rel_include? h thread) fun _ _ hnext => ⟨rfl, hnext⟩

end Event

/-! ## Steps -/

/-- Exits that carry twins. -/
inductive Exit.Twin : Exit → Exit → Prop
  | same (e : Exit) : Twin e e
  | ret {v w : Value} (h : v.Twin w) : Twin (.ret v) (.ret w)

theorem Exit.Twin.isAbort_eq {e e' : Exit} (h : e.Twin e') : e.isAbort = e'.isAbort := by
  cases h with
  | same e => rfl
  | ret h => rfl

/-- Related answers, or exits that carry twins. -/
inductive ResultTwin (R : α → α' → Prop) : Except Exit α → Except Exit α' → Prop
  | ok {a : α} {b : α'} (h : R a b) : ResultTwin R (.ok a) (.ok b)
  | error {e e' : Exit} (h : e.Twin e') : ResultTwin R (.error e) (.error e')

namespace Step

inductive Twin (R : α → α' → Prop) : Step α → Step α' → Prop
  | done {r : Except Exit α} {s : Except Exit α'} {f : Fiber} {σ τ : Store} (hr : ResultTwin R r s)
      (h : σ.Twin τ) : Twin R (.done r f σ) (.done s f τ)
  | wait {e : Event} {σ τ : Store} {k : e.Answer → Store → Step α} {l : e.Answer → Store → Step α'}
      (h : σ.Twin τ)
      (hkl : ∀ a b σ' τ', e.AnswerTwin a b → σ'.Twin τ' → Twin R (k a σ') (l b τ')) :
      Twin R (.wait e σ k) (.wait e τ l)

theorem Twin.andThen {R : α → α' → Prop} {S : β → β' → Prop} {s : Step α} {t : Step α'}
    {next : Except Exit α → Fiber → Store → Step β}
    {next' : Except Exit α' → Fiber → Store → Step β'} (h : Twin R s t)
    (hnext : ∀ r r' f σ τ, ResultTwin R r r' → σ.Twin τ → Twin S (next r f σ) (next' r' f τ)) :
    Twin S (s.andThen next) (t.andThen next') := by
  induction h with
  | done hr hστ => exact hnext _ _ _ _ _ hr hστ
  | wait hστ _ ih => exact .wait hστ ih

end Step

/-! ## Evaluations -/

namespace Eval

variable {R : α → α' → Prop} {S : β → β' → Prop}

def Agree (R : α → α' → Prop) (x : Eval α) (y : Eval α') : Prop :=
  ∀ (f : Fiber) (σ τ : Store), σ.Twin τ → Step.Twin R (x f σ) (y f τ)

namespace Agree

theorem pure {a : α} {b : α'} (h : R a b) : Agree R (Pure.pure a) (Pure.pure b) :=
  fun _ _ _ hστ => .done (.ok h) hστ

theorem same {v : Value} : Agree Value.Twin (Pure.pure v) (Pure.pure v) := pure (.same v)

theorem exit {e : Exit} : Agree R (Eval.exit e) (Eval.exit e) :=
  fun _ _ _ hστ => .done (.error (.same e)) hστ

theorem fail {cause : Cause} {pos : Position} :
    Agree R (Eval.fail cause pos) (Eval.fail cause pos) := exit

theorem ofResult {r : Except Exit α} {s : Except Exit α'} (h : ResultTwin R r s) :
    Agree R (Eval.ofResult r) (Eval.ofResult s) := fun _ _ _ hστ => .done h hστ

theorem bind {x : Eval α} {y : Eval α'} {k : α → Eval β} {l : α' → Eval β'} (hxy : Agree R x y)
    (hkl : ∀ a b, R a b → Agree S (k a) (l b)) : Agree S (x >>= k) (y >>= l) := by
  intro f σ τ hστ
  rw [bind_apply, bind_apply]
  refine (hxy f σ τ hστ).andThen fun r r' g σ' τ' hr hστ' => ?_
  cases hr with
  | ok hab => exact hkl _ _ hab g σ' τ' hστ'
  | error he => exact .done (.error he) hστ'

/-- Going on with the same answer. -/
theorem seq {x y : Eval α} {k : α → Eval β} {l : α → Eval β'} (hxy : Agree Eq x y)
    (hkl : ∀ a, Agree S (k a) (l a)) : Agree S (x >>= k) (y >>= l) :=
  bind hxy fun a _ hab => hab ▸ hkl a

theorem lift {x : Atomic α} {y : Atomic α'} (h : Atomic.Agree R x y) :
    Agree R (Eval.lift x) (Eval.lift y) := by
  intro f σ τ hστ
  have hend := h σ τ hστ
  unfold Eval.lift
  generalize x σ = r at hend
  generalize y τ = s at hend
  cases hend with
  | ok hab hnext => exact .done (.ok hab) hnext
  | error e => exact .done (.error (.same e)) hστ

theorem read {f : Store → α} {g : Store → α'} (h : ∀ σ τ : Store, σ.Twin τ → R (f σ) (g τ)) :
    Agree R (Eval.read f) (Eval.read g) := fun _ σ τ hστ => .done (.ok (h σ τ hστ)) hστ

theorem update {f g : Store → Store} (h : ∀ σ τ : Store, σ.Twin τ → (f σ).Twin (g τ)) :
    Agree Eq (Eval.update f) (Eval.update g) := fun _ σ τ hστ => .done (.ok rfl) (h σ τ hστ)

theorem change {f : Store → α × Store} {g : Store → α' × Store}
    (h : ∀ σ τ : Store, σ.Twin τ → R (f σ).1 (g τ).1 ∧ (f σ).2.Twin (g τ).2) :
    Agree R (Eval.change f) (Eval.change g) :=
  fun _ σ τ hστ => .done (.ok (h σ τ hστ).1) (h σ τ hστ).2

theorem position : Agree Eq Eval.position Eval.position := fun _ _ _ hστ => .done (.ok rfl) hστ

theorem fiber : Agree Eq Eval.fiber Eval.fiber := fun _ _ _ hστ => .done (.ok rfl) hστ

theorem enter {pos : Position} : Agree Eq (Eval.enter pos) (Eval.enter pos) :=
  fun _ _ _ hστ => .done (.ok rfl) hστ

theorem await {e : Event} : Agree e.AnswerTwin (Eval.await e) (Eval.await e) := by
  intro f σ τ hστ
  unfold Eval.await
  obtain ⟨hx, hy⟩ | ⟨r, s, hx, hy, hrs⟩ := rel_cases (Event.rel_happen? hστ e)
  · rw [hx, hy]
    exact .wait hστ fun a b σ' τ' hab hστ' => .done (.ok hab) hστ'
  · rw [hx, hy]
    exact .done (.ok hrs.1) hrs.2

theorem protect {x : Eval α} {y : Eval α'} (h : Agree R x y) :
    Agree (ResultTwin R) (Eval.protect x) (Eval.protect y) := fun f σ τ hστ =>
  (h f σ τ hστ).andThen fun _ _ _ _ _ hr hστ' => .done (.ok hr) hστ'

theorem attempt {x : Eval α} {y : Eval α'} (h : Agree R x y) :
    Agree (ResultTwin R) (Eval.attempt x) (Eval.attempt y) := by
  intro f σ τ hστ
  refine (h f σ τ hστ).andThen fun r r' g σ' τ' hr hστ' => ?_
  cases hr with
  | ok hab => exact .done (.ok (.ok hab)) hστ'
  | @error e e' he =>
    dsimp only
    rw [← he.isAbort_eq]
    split
    · exact .done (.error he) hστ'
    · exact .done (.ok (.error he)) hστ'

theorem foldList {step : β → α → Eval β} {step' : β' → α' → Eval β'} {xs : List α} {ys : List α'}
    (hxy : List.Forall₂ R xs ys)
    (hstep : ∀ b b' a a', S b b' → R a a' → Agree S (step b a) (step' b' a')) {b : β} {b' : β'}
    (hb : S b b') : Agree S (Eval.foldList step xs b) (Eval.foldList step' ys b') := by
  induction hxy generalizing b b' with
  | nil => exact pure hb
  | cons haa _ ih =>
    rw [foldList_cons, foldList_cons]
    exact (hstep _ _ _ _ hb haa).bind fun _ _ hnext => ih hnext

theorem mapList {g : α → Eval β} {g' : α' → Eval β'} {xs : List α} {ys : List α'}
    (hxy : List.Forall₂ R xs ys) (hg : ∀ a a', R a a' → Agree S (g a) (g' a')) :
    Agree (List.Forall₂ S) (Eval.mapList g xs) (Eval.mapList g' ys) := by
  refine bind (foldList (S := List.Forall₂ S) hxy (fun bs bs' a a' hbs haa => ?_) .nil)
    fun _ _ hresults => pure (List.rel_reverse hresults)
  exact (hg a a' haa).bind fun _ _ hc => pure (.cons hc hbs)

theorem newArray {xs ys : List Value} (h : Value.Twins xs ys) :
    Agree Value.Twin (Eval.change (·.newArray xs.toArray)) (Eval.change (·.newArray ys.toArray)) :=
  lift (Atomic.Agree.newArray h)

theorem newDict {d e : Dict} (h : d.Twin e) :
    Agree Value.Twin (Eval.change (·.newDict d)) (Eval.change (·.newDict e)) :=
  lift (Atomic.Agree.newDict h)

theorem truthy {v w : Value} (hvw : v.Twin w) :
    Agree Eq (Eval.read (·.truthy v)) (Eval.read (·.truthy w)) := read fun _ _ h => h.truthy_eq hvw

end Agree
end Eval

namespace Evaluator

variable {ev : Evaluator} {f : Value} {xs ys : List Value}

/-- Calls of a function with twins agree. -/
def Discreet (ev : Evaluator) (f : Value) : Prop :=
  ∀ (xs ys : List Value) (pos : Position), Value.Twins xs ys →
    Eval.Agree Value.Twin (ev.call f xs pos) (ev.call f ys pos)

theorem Discreet.callBack (hf : ev.Discreet f) (hxy : Value.Twins xs ys) :
    Eval.Agree Value.Twin (ev.callBack f xs) (ev.callBack f ys) :=
  .seq .position fun pos => hf xs ys pos hxy

end Evaluator
end TreeWalk
