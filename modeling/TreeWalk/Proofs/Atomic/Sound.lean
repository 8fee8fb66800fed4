/-
Atomic computations that are sound.

A sound computation is calm and answers something that has a property, or fails.
It never ends with `return`, `break` or `continue`, which belong to the evaluator.
One that speaks may print a text at its end as well.
-/
import TreeWalk.Proofs.Store.Closed
import TreeWalk.Store.Atomic

namespace TreeWalk

namespace Exit

/-- Failures are the exits that operations on values can end with. -/
def IsFailure : Exit → Prop
  | error _ => True
  | fault _ => True
  | _ => False

end Exit

namespace Store

variable {σ : Store}

theorem scopes_print {sink : Sink} {text : String} :
    (σ.print sink text).scopes = σ.scopes := by
  cases sink with
  | capture => rfl
  | discard => rfl

theorem print_empty {sink : Sink} : σ.print sink "" = σ := by
  cases sink with
  | capture => simp only [Store.print, String.append_empty]
  | discard => rfl

end Store

namespace Atomic

variable {α β : Type} {p : Reach} {sink : Sink} {Φ : α → Prop} {Ψ : β → Prop}

/-- Sequencing as one computation after the other. -/
theorem bind_apply (a : Atomic α) (k : α → Atomic β) (σ : Store) :
    (a >>= k) σ =
      match a σ with
      | .ok (v, σ') => k v σ'
      | .error e => .error e := by
  change Except.bind (a σ) (fun r => k r.1 r.2) = _
  cases a σ with
  | ok r => rfl
  | error e => rfl

theorem read_bind_apply (g : Store → α) (k : α → Atomic β) (σ : Store) :
    (Atomic.read g >>= k) σ = k (g σ) σ := rfl

/-- What is required is there, or the computation fails. -/
theorem require_cases (a? : Option α) (cause : Cause) (pos : Position) :
    (∃ a, a? = some a ∧ require a? cause pos = (pure a : Atomic α)) ∨
      require a? cause pos = (fail cause pos : Atomic α) := by
  cases a? with
  | some a => exact .inl ⟨a, rfl, rfl⟩
  | none => exact .inr rfl

/-- A result that is a failure, or a calm change with an answer of which `Φ`
holds. -/
def Result (p : Reach) (Φ : α → Prop) (σ : Store) : Except Exit (α × Store) → Prop
  | .ok (v, σ') => σ.Calm p σ' ∧ Φ v
  | .error e => e.IsFailure

/-- From a closed store the computation fails, or changes the store calmly and
answers something of which `Φ` holds. -/
def Sound (p : Reach) (Φ : α → Prop) (a : Atomic α) : Prop :=
  ∀ σ : Store, σ.Closed p → Result p Φ σ (a σ)

namespace Sound

theorem pure {v : α} (h : Φ v) : Sound p Φ (Pure.pure v : Atomic α) := fun σ _ => ⟨.refl σ, h⟩

theorem fail {cause : Cause} {pos : Position} : Sound p Φ (Atomic.fail cause pos) := fun _ _ => trivial

theorem fault {message : String} : Sound p Φ (Atomic.fault message) := fun _ _ => trivial

theorem read {g : Store → α} (h : ∀ σ : Store, σ.Closed p → Φ (g σ)) :
    Sound p Φ (Atomic.read g) := fun σ hc => ⟨.refl σ, h σ hc⟩

/-- Reading something of which nothing has to be known. -/
theorem look {g : Store → α} : Sound p (fun _ => True) (Atomic.read g) := read fun _ _ => trivial

theorem change {g : Store → α × Store}
    (h : ∀ σ : Store, σ.Closed p → σ.Calm p (g σ).2 ∧ Φ (g σ).1) :
    Sound p Φ (Atomic.change g) := h

theorem update {g : Store → Store} (h : ∀ σ : Store, σ.Closed p → σ.Calm p (g σ)) :
    Sound p (fun _ => True) (Atomic.update g) := fun σ hc => ⟨h σ hc, trivial⟩

theorem bind {a : Atomic α} {k : α → Atomic β} (ha : Sound p Φ a)
    (hk : ∀ v, Φ v → Sound p Ψ (k v)) : Sound p Ψ (a >>= k) := by
  intro σ hc
  have h := ha σ hc
  rw [bind_apply]
  cases heq : a σ with
  | error e =>
    rw [heq] at h
    exact h
  | ok r =>
    rw [heq] at h
    have h' := hk r.1 h.2 r.2 (h.1.closed hc)
    change Result p Ψ σ (k r.1 r.2)
    cases heq' : k r.1 r.2 with
    | error e =>
      rw [heq'] at h'
      exact h'
    | ok r' =>
      rw [heq'] at h'
      exact ⟨h.1.trans h'.1, h'.2⟩

/-- Going on with an answer of which nothing has to be known. -/
theorem seq {a : Atomic α} {k : α → Atomic β} (ha : Sound p (fun _ => True) a)
    (hk : ∀ v, Sound p Ψ (k v)) : Sound p Ψ (a >>= k) := bind ha fun v _ => hk v

theorem mono {Φ' : α → Prop} {a : Atomic α} (ha : Sound p Φ a) (h : ∀ v, Φ v → Φ' v) :
    Sound p Φ' a := by
  intro σ hc
  have hσ := ha σ hc
  cases heq : a σ with
  | error e =>
    rw [heq] at hσ
    exact hσ
  | ok r =>
    rw [heq] at hσ
    exact ⟨hσ.1, h r.1 hσ.2⟩

theorem map {a : Atomic α} {g : α → β} (ha : Sound p Φ a) (h : ∀ v, Φ v → Ψ (g v)) :
    Sound p Ψ (g <$> a) := bind ha fun v hv => pure (h v hv)

theorem require {a? : Option α} {cause : Cause} {pos : Position} (h : ∀ v, a? = some v → Φ v) :
    Sound p Φ (Atomic.require a? cause pos) := by
  unfold Atomic.require
  split
  · exact pure (h _ rfl)
  · exact fail

theorem reserve {bytes : Nat} : Sound p (fun _ => True) (Atomic.reserve bytes) := by
  unfold Atomic.reserve
  split
  · exact fault
  · exact pure trivial

theorem newArray {items : List Value} (h : Value.ListWithin p items) :
    Sound p (Value.Within p) (Atomic.newArray items) :=
  change fun _ _ => ⟨⟨Store.quiet_newArray h, rfl⟩, trivial⟩

end Sound

/-! ## Printing -/

/-- A result that is a failure, or a calm change, a text printed after it, and an answer
of which `Φ` holds. -/
def Spoken (p : Reach) (sink : Sink) (Φ : α → Prop) (σ : Store) : Except Exit (α × Store) → Prop
  | .ok (v, σ') => (∃ ρ text, σ.Calm p ρ ∧ σ' = ρ.print sink text) ∧ Φ v
  | .error e => e.IsFailure

/-- A computation that is sound but for a text that it prints at the end. -/
def Speaks (p : Reach) (sink : Sink) (Φ : α → Prop) (a : Atomic α) : Prop :=
  ∀ σ : Store, σ.Closed p → Spoken p sink Φ σ (a σ)

theorem Sound.speaks {a : Atomic α} (ha : Sound p Φ a) : Speaks p sink Φ a := by
  intro σ hc
  have h := ha σ hc
  cases heq : a σ with
  | error e =>
    rw [heq] at h
    exact h
  | ok r =>
    rw [heq] at h
    exact ⟨⟨r.2, "", h.1, Store.print_empty.symm⟩, h.2⟩

namespace Speaks

theorem print {text : String} {v : α} (h : Φ v) :
    Speaks p sink Φ (do Atomic.update (·.print sink text); return v) :=
  fun σ _ => ⟨⟨σ, text, .refl σ, rfl⟩, h⟩

/-- Nothing is printed before the end. -/
theorem seq {a : Atomic α} {k : α → Atomic β} (ha : Sound p (fun _ => True) a)
    (hk : ∀ v, Speaks p sink Ψ (k v)) : Speaks p sink Ψ (a >>= k) := by
  intro σ hc
  have h := ha σ hc
  rw [bind_apply]
  cases heq : a σ with
  | error e =>
    rw [heq] at h
    exact h
  | ok r =>
    rw [heq] at h
    have h' := hk r.1 r.2 (h.1.closed hc)
    change Spoken p sink Ψ σ (k r.1 r.2)
    cases heq' : k r.1 r.2 with
    | error e =>
      rw [heq'] at h'
      exact h'
    | ok r' =>
      rw [heq'] at h'
      obtain ⟨⟨ρ, text, hcalm, hprint⟩, hanswer⟩ := h'
      exact ⟨⟨ρ, text, h.1.trans hcalm, hprint⟩, hanswer⟩

end Speaks
end Atomic
end TreeWalk
