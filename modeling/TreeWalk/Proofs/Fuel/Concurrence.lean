/-
Computations that concur as far as they go.

Two computations concur if they wait for the same with the same store, and go on and end
alike, except where one of them has ended in a way that does not count: the first by an
exit in `left`, or the second by one in `right`.  Nothing has to be known of the store or
of the task to begin with.

The case that runs through the whole evaluator is `Cut`: the first goes as the second
does until it gets lost, by running out of fuel or by whatever else nothing catches.
-/
import TreeWalk.Eval.Evaluator

namespace TreeWalk

variable {α β : Type}

namespace Step

/-- Two steps that go alike but for the ends that do not count. -/
inductive Concur (left right : Except Exit α → Prop) : Step α → Step α → Prop
  | same {r f σ} : Concur left right (.done r f σ) (.done r f σ)
  | left {r f σ t} (h : left r) : Concur left right (.done r f σ) t
  | right {r f σ s} (h : right r) : Concur left right s (.done r f σ)
  | wait {e σ k k'} (h : ∀ a τ, Concur left right (k a τ) (k' a τ)) :
      Concur left right (.wait e σ k) (.wait e σ k')

namespace Concur

variable {left right : Except Exit α → Prop} {left' right' : Except Exit β → Prop} {s t : Step α}

theorem refl (s : Step α) : Concur left right s s := by
  induction s with
  | done r f σ => exact .same
  | wait e σ k ih => exact .wait ih

/-- What comes after an end that does not count must not count either. -/
theorem andThen {next next' : Except Exit α → Fiber → Store → Step β} (h : Concur left right s t)
    (hnext : ∀ r f σ, Concur left' right' (next r f σ) (next' r f σ))
    (hleft : ∀ r f σ u, left r → Concur left' right' (next r f σ) u)
    (hright : ∀ r f σ u, right r → Concur left' right' u (next' r f σ)) :
    Concur left' right' (s.andThen next) (t.andThen next') := by
  induction h with
  | same => exact hnext _ _ _
  | left h => exact hleft _ _ _ _ h
  | right h => exact hright _ _ _ _ h
  | wait _ ih => exact .wait ih

theorem mono {left' right' : Except Exit α → Prop} (h : Concur left right s t)
    (hleft : ∀ r, left r → left' r) (hright : ∀ r, right r → right' r) :
    Concur left' right' s t := by
  induction h with
  | same => exact .same
  | left h => exact .left (hleft _ h)
  | right h => exact .right (hright _ h)
  | wait _ ih => exact .wait ih

theorem symm (h : Concur left right s t) : Concur right left t s := by
  induction h with
  | same => exact .same
  | left h => exact .right h
  | right h => exact .left h
  | wait _ ih => exact .wait ih

end Concur
end Step

namespace Eval

/-- Ended by one of these exits. -/
def EndsBy (exits : Exit → Prop) : Except Exit α → Prop
  | .ok _ => False
  | .error e => exits e

/-- Two computations that go alike, but for the first ending by an exit in `left` and the
second by one in `right`. -/
def Concur (left right : Exit → Prop) (x y : Eval α) : Prop :=
  ∀ f σ, (x f σ).Concur (EndsBy left) (EndsBy right) (y f σ)

namespace Concur

variable {left right left' right' : Exit → Prop} {x y : Eval α} {k l : α → Eval β} {n m : Nat}

theorem refl (x : Eval α) : Concur left right x x := fun f σ => .refl (x f σ)

theorem mono (h : Concur left right x y) (hleft : ∀ e, left e → left' e)
    (hright : ∀ e, right e → right' e) : Concur left' right' x y := by
  refine fun f σ => (h f σ).mono ?_ ?_
  · rintro (e | a) hr
    · exact hleft e hr
    · exact hr
  · rintro (e | a) hr
    · exact hright e hr
    · exact hr

theorem symm (h : Concur left right x y) : Concur right left y x := fun f σ => (h f σ).symm

theorem exit_left {e : Exit} (h : left e) : Concur left right (exit e : Eval α) y :=
  fun _ _ => .left h

theorem exit_right {e : Exit} (h : right e) : Concur left right x (exit e : Eval α) :=
  fun _ _ => .right h

/-- Both are followed by something that leaves their exits alone. -/
theorem andThen {next next' : Except Exit α → Fiber → Store → Step β} {s t : Step α}
    (h : s.Concur (EndsBy left) (EndsBy right) t)
    (hok : ∀ a f σ, (next (.ok a) f σ).Concur (EndsBy left) (EndsBy right) (next' (.ok a) f σ))
    (herror : ∀ e f σ, ∃ g τ, next (.error e) f σ = .done (.error e) g τ ∧
      next' (.error e) f σ = .done (.error e) g τ) :
    (s.andThen next).Concur (EndsBy left) (EndsBy right) (t.andThen next') := by
  refine Step.Concur.andThen h ?_ ?_ ?_
  · rintro (e | a) f σ
    · obtain ⟨g, τ, hx, hy⟩ := herror e f σ
      rw [hx, hy]
      exact .same
    · exact hok a f σ
  · rintro (e | a) f σ u hr
    · obtain ⟨g, τ, hx, -⟩ := herror e f σ
      rw [hx]
      exact .left hr
    · exact hr.elim
  · rintro (e | a) f σ u hr
    · obtain ⟨g, τ, -, hy⟩ := herror e f σ
      rw [hy]
      exact .right hr
    · exact hr.elim

theorem bind (h : Concur left right x y) (hk : ∀ a, Concur left right (k a) (l a)) :
    Concur left right (x >>= k) (y >>= l) := by
  intro f σ
  rw [bind_apply, bind_apply]
  exact andThen (h f σ) hk fun e g τ => ⟨g, τ, rfl, rfl⟩

/-- What both begin with. -/
theorem after {z : Eval β} {k l : β → Eval α} (hk : ∀ b, Concur left right (k b) (l b)) :
    Concur left right (z >>= k) (z >>= l) := bind (refl z) hk

/-- What both end with. -/
theorem before (h : Concur left right x y) (k : α → Eval β) :
    Concur left right (x >>= k) (y >>= k) := bind h fun a => refl (k a)

theorem withScope {scope : ScopeId} (h : Concur left right x y) :
    Concur left right (Eval.withScope scope x) (Eval.withScope scope y) := fun _ σ =>
  andThen (h _ σ) (fun _ _ _ => .same) fun _ _ _ => ⟨_, _, rfl, rfl⟩

theorem withChildScope (h : Concur left right x y) :
    Concur left right (Eval.withChildScope x) (Eval.withChildScope y) := fun f σ =>
  h.withScope f (σ.childScope f.scope).2

theorem withFiber {g : Fiber} (h : Concur left right x y) :
    Concur left right (Eval.withFiber g x) (Eval.withFiber g y) := fun _ σ =>
  andThen (h g σ) (fun _ _ _ => .same) fun _ _ _ => ⟨_, _, rfl, rfl⟩

/-- That the one with less fuel runs out of it does not count. -/
structure Fuels (left right : Exit → Prop) (n m : Nat) : Prop where
  left : n < m → left .exhausted
  right : m < n → right .exhausted

theorem Fuels.refl : Fuels left right n n :=
  ⟨fun h => absurd h n.lt_irrefl, fun h => absurd h n.lt_irrefl⟩

theorem iterate {step step' : β → Eval (β ⊕ α)} (hfuel : Fuels left right n m)
    (hstep : ∀ b, Concur left right (step b) (step' b)) (b : β) :
    Concur left right (Eval.iterate step n b) (Eval.iterate step' m b) := by
  induction n generalizing m b with
  | zero =>
    cases m with
    | zero => exact refl _
    | succ m => exact exit_left (hfuel.left m.succ_pos)
  | succ n ih =>
    cases m with
    | zero => exact exit_right (hfuel.right n.succ_pos)
    | succ m =>
      have hrest : Fuels left right n m :=
        ⟨fun h => hfuel.left (Nat.succ_lt_succ h), fun h => hfuel.right (Nat.succ_lt_succ h)⟩
      rw [iterate_succ, iterate_succ]
      refine bind (hstep b) fun r => ?_
      cases r with
      | inl b => exact ih hrest b
      | inr a => exact refl _

theorem foldList {step step' : β → α → Eval β}
    (hstep : ∀ b a, Concur left right (step b a) (step' b a)) (items : List α) (b : β) :
    Concur left right (Eval.foldList step items b) (Eval.foldList step' items b) := by
  induction items generalizing b with
  | nil => exact refl _
  | cons a rest ih =>
    rw [foldList_cons, foldList_cons]
    exact bind (hstep b a) ih

theorem mapList {g g' : α → Eval β} (hg : ∀ a, Concur left right (g a) (g' a)) (items : List α) :
    Concur left right (Eval.mapList g items) (Eval.mapList g' items) :=
  (foldList (fun _ a => (hg a).before _) items []).before _

end Concur

/-! ## Getting lost -/

/-- The first computation goes as the second does until it gets lost: until it ends by an
exit in `lost`. -/
abbrev Cut (lost : Exit → Prop) (x y : Eval α) : Prop := Concur lost (fun _ => False) x y

theorem not_endsBy_false {r : Except Exit α} : ¬ EndsBy (fun _ => False) r := by
  cases r <;> exact id

/-- An end at which the first is not lost is the end of the second. -/
theorem Cut.eq_of_done {left : Except Exit α → Prop} {r : Except Exit α} {f : Fiber} {σ : Store}
    {t : Step α} (h : (Step.done r f σ).Concur left (EndsBy fun _ => False) t) (hr : ¬ left r) :
    t = .done r f σ := by
  cases h with
  | same => rfl
  | left hleft => exact absurd hleft hr
  | right hright => exact absurd hright not_endsBy_false

namespace Cut

variable {lost : Exit → Prop} {x y : Eval α}

/-- What the amounts of fuel must be where the first does not go on for longer. -/
abbrev Fuels (lost : Exit → Prop) (n m : Nat) : Prop := Concur.Fuels lost (fun _ => False) n m

theorem fuels {n m : Nat} (hle : n ≤ m) : Fuels (· = .exhausted) n m :=
  ⟨fun _ => rfl, fun h => Nat.not_lt_of_ge hle h⟩

theorem iterate {step step' : β → Eval (β ⊕ α)} {n m : Nat}
    (hstep : ∀ b, Cut lost (step b) (step' b)) (hfuel : Fuels lost n m) (b : β) :
    Cut lost (Eval.iterate step n b) (Eval.iterate step' m b) := Concur.iterate hfuel hstep b

/-- No code goes on after an abort. -/
theorem attempt (hlost : ∀ e, lost e → e.isAbort = true) (h : Cut lost x y) :
    Cut lost (Eval.attempt x) (Eval.attempt y) := by
  intro f σ
  refine Step.Concur.andThen (h f σ) (fun r f σ => .refl _) ?_ ?_
  · rintro (e | a) f σ u hr
    · show Step.Concur _ _ (if e.isAbort then _ else _) u
      rw [if_pos (hlost e hr)]
      exact .left hr
    · exact hr.elim
  · rintro (e | a) f σ u hr <;> exact hr.elim

end Cut

/-- Told of a computation that it ended by one of these exits. -/
def TellsOf (exits : Exit → Prop) : Except Exit (Except Exit α) → Prop
  | .ok (.error e) => exits e
  | _ => False

/-- The same for computations that answer how others ended: the first may answer that one
got lost. -/
def CutResult (lost : Exit → Prop) (x y : Eval (Except Exit α)) : Prop :=
  ∀ f σ, (x f σ).Concur (TellsOf lost) (fun _ => False) (y f σ)

namespace CutResult

variable {lost : Exit → Prop} {x y : Eval (Except Exit α)} {k l : Except Exit α → Eval β}

theorem refl (x : Eval (Except Exit α)) : CutResult lost x x := fun f σ => .refl (x f σ)

theorem protect {x y : Eval α} (h : Cut lost x y) :
    CutResult lost (Eval.protect x) (Eval.protect y) := by
  intro f σ
  refine Step.Concur.andThen (h f σ) (fun r f σ => .same) ?_ ?_
  · rintro (e | a) f σ u hr
    · exact .left hr
    · exact hr.elim
  · rintro (e | a) f σ u hr <;> exact hr.elim

/-- What both begin with. -/
theorem after {z : Eval β} {k l : β → Eval (Except Exit α)}
    (hk : ∀ b, CutResult lost (k b) (l b)) : CutResult lost (z >>= k) (z >>= l) := by
  intro f σ
  rw [bind_apply, bind_apply]
  have hz : (z f σ).Concur (fun _ => False) (fun _ => False) (z f σ) := .refl _
  refine hz.andThen ?_ (fun _ _ _ _ h => h.elim) fun _ _ _ _ h => h.elim
  rintro (e | b) f σ
  · exact .same
  · exact hk b f σ

/-- What follows must count as lost if it is told of that. -/
theorem andThen {left right : Except Exit β → Prop} (h : CutResult lost x y)
    (hk : ∀ r f σ, (k r f σ).Concur left right (l r f σ))
    (hlost : ∀ e f σ t, lost e → (k (.error e) f σ).Concur left right t) (f : Fiber) (σ : Store) :
    ((x >>= k) f σ).Concur left right ((y >>= l) f σ) := by
  rw [bind_apply, bind_apply]
  refine Step.Concur.andThen (h f σ) ?_ ?_ fun _ _ _ _ h => h.elim
  · rintro (e | r) f σ
    · exact .same
    · exact hk r f σ
  · rintro (e | e | a) f σ t hr
    · exact hr.elim
    · exact hlost e f σ t hr
    · exact hr.elim

/-- The result is passed on. -/
theorem pass {γ : Type} {k l : Except Exit α → Eval (Except Exit γ)} (h : CutResult lost x y)
    (hk : ∀ r, CutResult lost (k r) (l r))
    (hlost : ∀ e f σ, ∃ g τ, k (.error e) f σ = .done (.ok (.error e)) g τ) :
    CutResult lost (x >>= k) (y >>= l) := by
  refine h.andThen hk fun e f σ t he => ?_
  obtain ⟨g, τ, heq⟩ := hlost e f σ
  rw [heq]
  exact .left he

/-- The end comes after the result. -/
theorem settle (h : CutResult lost x y) (hk : ∀ r, Cut lost (k r) (l r))
    (hlost : ∀ e f σ, ∃ g τ, k (.error e) f σ = .done (.error e) g τ) :
    Cut lost (x >>= k) (y >>= l) := by
  refine h.andThen hk fun e f σ t he => ?_
  obtain ⟨g, τ, heq⟩ := hlost e f σ
  rw [heq]
  exact .left he

end CutResult
end Eval
end TreeWalk
