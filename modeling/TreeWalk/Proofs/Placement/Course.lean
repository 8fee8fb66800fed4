/-
Computations that follow a course.

Two computations are guided by a course at a position if they do the same wherever the
course is steady: the current position is the expected one whenever a part of the course
takes it for its own, and it is the expected one in the end if the course is still.
There is a rule for each way in which courses and computations are put together.
-/
import TreeWalk.Eval.Evaluator
import TreeWalk.Proofs.Eval.Alike
import TreeWalk.Proofs.Syntax.Placement

namespace TreeWalk

variable {α β γ : Type}

/-- A step does the same as itself. -/
theorem Step.alike_self (s : Step α) (τ : Store) :
    s.Alike .any (fun _ => True) (fun _ _ _ => True) τ s := by
  induction s generalizing τ with
  | done r f σ => exact .done trivial trivial
  | wait e σ k ih => exact .wait trivial trivial fun a υ _ => ih a υ υ

namespace Eval

/-- The computation leaves the current position alone. -/
def Quiet (x : Eval α) : Prop :=
  ∀ f σ, (x f σ).Alike .any (fun _ => True) (fun _ g _ => g.pos = f.pos) σ (x f σ)

namespace Quiet

theorem pure {a : α} : Quiet (Pure.pure a : Eval α) := fun _ _ => .done trivial rfl

theorem exit {e : Exit} : Quiet (Eval.exit e : Eval α) := fun _ _ => .done trivial rfl

theorem fail {cause : Cause} {pos : Position} : Quiet (Eval.fail cause pos : Eval α) := exit

theorem ofResult {r : Except Exit α} : Quiet (Eval.ofResult r) := fun _ _ => .done trivial rfl

theorem read {g : Store → α} : Quiet (Eval.read g) := fun _ _ => .done trivial rfl

theorem update {g : Store → Store} : Quiet (Eval.update g) := fun _ _ => .done trivial rfl

theorem change {g : Store → α × Store} : Quiet (Eval.change g) := fun _ _ => .done trivial rfl

theorem fiber : Quiet Eval.fiber := fun _ _ => .done trivial rfl

theorem position : Quiet Eval.position := fun _ _ => .done trivial rfl

theorem bindName {name : String} {v : Value} : Quiet (Eval.bindName name v) :=
  fun _ _ => .done trivial rfl

theorem lift {a : Atomic α} : Quiet (Eval.lift a) := by
  intro f σ
  unfold Eval.lift
  split
  · exact .done trivial rfl
  · exact .done trivial rfl

theorem await {e : Event} : Quiet (Eval.await e) := by
  intro f σ
  unfold Eval.await
  split
  · exact .done trivial rfl
  · exact .wait trivial trivial fun _ _ _ => .done trivial rfl

theorem yieldTurn : Quiet Eval.yieldTurn := by
  intro f σ
  unfold Eval.yieldTurn
  split
  · exact .done trivial rfl
  · exact .wait trivial trivial fun _ _ _ => .done trivial rfl

theorem bind {x : Eval α} {k : α → Eval β} (hx : Quiet x) (hk : ∀ a, Quiet (k a)) :
    Quiet (x >>= k) := by
  intro f σ
  rw [bind_apply]
  refine (hx f σ).andThen (fun _ h => h) ?_
  rintro (e | a) g τ hpos
  · exact .done trivial hpos
  · exact (hk a g τ).mono (fun _ h => h) fun _ _ _ h => h.trans hpos

/-- With a fiber of its own a computation may do anything. -/
theorem withFiber {g : Fiber} {x : Eval α} : Quiet (Eval.withFiber g x) := fun _ σ =>
  (Step.alike_self (x g σ) σ).andThen (fun _ h => h) fun _ _ _ _ => .done trivial rfl

theorem protect {x : Eval α} (hx : Quiet x) : Quiet (Eval.protect x) := fun f σ =>
  (hx f σ).andThen (fun _ h => h) fun _ _ _ hpos => .done trivial hpos

end Quiet

/-- The computations do the same, provided that the current position is `p` at first if
`before` asks for that; it is `p` in the end if `after` does. -/
def StayAt (p : Position) (before after : Prop) (x y : Eval α) : Prop :=
  ∀ f σ, (before → f.pos = p) →
    (x f σ).Alike .any (fun _ => True) (fun _ g _ => after → g.pos = p) σ (y f σ)

namespace StayAt

variable {p : Position} {before before' after after' : Prop} {x y : Eval α}

theorem mono (h : StayAt p before after x y) (hbefore : before → before')
    (hafter : after' → after) : StayAt p before' after' x y := fun f σ hpos =>
  (h f σ fun hb => hpos (hbefore hb)).mono (fun _ h => h) fun _ _ _ hg ha => hg (hafter ha)

theorem of_quiet (h : Quiet x) (hpos : after → before) : StayAt p before after x x :=
  fun f σ hf => (h f σ).mono (fun _ h => h) fun _ _ _ hg ha => hg.trans (hf (hpos ha))

theorem bind {middle : Prop} {k l : α → Eval β} (hx : StayAt p before middle x y)
    (hk : ∀ a, StayAt p middle after (k a) (l a)) (hmiddle : after → middle) :
    StayAt p before after (x >>= k) (y >>= l) := by
  intro f σ hf
  rw [bind_apply, bind_apply]
  refine (hx f σ hf).andThen (fun _ h => h) ?_
  rintro (e | a) g τ hpos
  · exact .done trivial fun ha => hpos (hmiddle ha)
  · exact hk a g τ hpos

theorem attempt (h : StayAt p before after x y) :
    StayAt p before after (Eval.attempt x) (Eval.attempt y) := by
  intro f σ hf
  refine (h f σ hf).andThen (fun _ h => h) ?_
  rintro (e | a) g τ hpos
  · dsimp only
    split
    · exact .done trivial hpos
    · exact .done trivial hpos
  · exact .done trivial hpos

theorem withScope {scope : ScopeId} (h : StayAt p before after x y) :
    StayAt p before after (Eval.withScope scope x) (Eval.withScope scope y) := fun f σ hf =>
  (h { f with scope := scope } σ hf).andThen (fun _ h => h) fun _ _ _ hpos => .done trivial hpos

theorem withChildScope (h : StayAt p before after x y) :
    StayAt p before after (Eval.withChildScope x) (Eval.withChildScope y) := fun f σ hf =>
  (h.withScope f (σ.childScope f.scope).2 hf).after trivial

theorem iterate {kept : Prop} {step step' : β → Eval (β ⊕ α)}
    (h : ∀ b, StayAt p kept kept (step b) (step' b)) (fuel : Nat) (b : β) :
    StayAt p kept kept (Eval.iterate step fuel b) (Eval.iterate step' fuel b) := by
  induction fuel generalizing b with
  | zero => exact of_quiet Quiet.exit fun h => h
  | succ fuel ih =>
    rw [iterate_succ, iterate_succ]
    refine (h b).bind (fun r => ?_) fun h => h
    cases r with
    | inl b => exact ih b
    | inr a => exact of_quiet Quiet.pure fun h => h

/-- Entering a node with its position written down, or left out where the current position
is the one around it. -/
theorem enter {place : Position} {k l : Position → Eval β} (hafter : after → place.orElse p = p)
    (h : StayAt (place.orElse p) True after (k (place.orElse p)) (l (place.orElse p))) :
    StayAt p (place.isKnown = false ∨ after) after (Eval.enter (place.orElse p) >>= k)
      (Eval.enter place >>= l) := by
  intro f σ hf
  have entered : (place.orElse p).orElse f.pos = place.orElse p ∧
      place.orElse f.pos = place.orElse p := by
    cases hknown : place.isKnown with
    | true => simp only [Position.orElse_of_isKnown hknown, and_self]
    | false =>
      rw [hf (.inl hknown)]
      exact ⟨by simp only [Position.orElse, hknown]; exact ite_self p, rfl⟩
  show (k ((place.orElse p).orElse f.pos) { f with pos := (place.orElse p).orElse f.pos } σ).Alike
    _ _ _ _ (l (place.orElse f.pos) { f with pos := place.orElse f.pos } σ)
  rw [entered.1, entered.2]
  exact (h _ σ fun _ => rfl).mono (fun _ h => h) fun _ _ _ hg ha => (hg ha).trans (hafter ha)

/-- Where the positions before and after do not matter, all that matters is that the
computations are the same. -/
theorem self (hafter : ¬ after) : StayAt p before after x x := fun f σ _ =>
  (Step.alike_self (x f σ) σ).mono (fun _ h => h) fun _ _ _ _ ha => (hafter ha).elim

end StayAt
end Eval

namespace Course

open Eval

variable {c d : Course} {p : Position} {x y : Eval α}

/-- Two computations that go through the course at `p` do the same, and are still at `p`
in the end if that is asked for and the course does not move away. -/
def Guides (c : Course) (p : Position) (x y : Eval α) : Prop :=
  c.Steady p → (∀ t ∈ c.parts, t.Settled p) →
    ∀ kept : Prop, (kept → c.StillAt p) → StayAt p (c.Awaits ∨ kept) kept x y

namespace Guides

/-- What leaves the current position alone may stop short on any course. -/
theorem quiet (h : Quiet x) : c.Guides p x x := fun _ _ _ _ => .of_quiet h .inr

theorem run : Course.run.Guides p x x := fun _ _ _ hstill =>
  .self fun hkept => nomatch (hstill hkept).1

theorem seq {k l : α → Eval β} (hx : c.Guides p x y) (hk : ∀ a, d.Guides p (k a) (l a)) :
    (Course.seq c d).Guides p (x >>= k) (y >>= l) := by
  intro hsteady hsettled kept hstill
  obtain ⟨hc, hd, hbefore⟩ := hsteady
  have first : StayAt p (c.Awaits ∨ d.Awaits ∨ kept) (d.Awaits ∨ kept) x y := by
    refine hx hc (fun t ht => hsettled t (List.mem_append_left _ ht)) _ ?_
    rintro (hawaits | hkept)
    · exact hbefore hawaits
    · exact (stillAt_seq.mp (hstill hkept)).1
  have second : ∀ a, StayAt p (d.Awaits ∨ kept) kept (k a) (l a) := fun a =>
    hk a hd (fun t ht => hsettled t (List.mem_append_right _ ht)) kept fun hkept =>
      (stillAt_seq.mp (hstill hkept)).2
  refine (first.bind second .inr).mono ?_ fun h => h
  rw [awaits_seq, or_assoc]
  exact fun h => h

/-- What goes before leaves the current position alone. -/
theorem after {x : Eval α} {k l : α → Eval β} (hx : Quiet x)
    (hk : ∀ a, c.Guides p (k a) (l a)) : c.Guides p (x >>= k) (x >>= l) :=
  fun hsteady hsettled kept hstill =>
    (StayAt.of_quiet hx fun h => h).bind (fun a => hk a hsteady hsettled kept hstill) .inr

/-- What comes behind leaves the current position alone. -/
theorem before {k : α → Eval β} (hx : c.Guides p x y) (hk : ∀ a, Quiet (k a)) :
    c.Guides p (x >>= k) (y >>= k) :=
  fun hsteady hsettled kept hstill =>
    (hx hsteady hsettled kept hstill).bind (fun a => .of_quiet (hk a) fun h => h) fun h => h

/-- A course that asks for no more and moves the position no further will do. -/
theorem replace (hx : d.Guides p x y) (h : Replaces p c d) : c.Guides p x y :=
  fun hsteady hsettled kept hstill =>
    (hx (h.steady hsteady) (h.settled hsettled) kept fun hkept => h.still (hstill hkept)).mono
      (fun hb => hb.imp_left h.awaits) fun h => h

theorem skip (h : d.Guides p x y) : (Course.seq c d).Guides p x y := h.replace .second

theorem one (h : c.Guides p x y) : (Course.either c d).Guides p x y := h.replace .one

theorem other (h : d.Guides p x y) : (Course.either c d).Guides p x y := h.replace .other

/-- Both read from the store, and go on alike with what they find. -/
theorem reads {g g' : Store → β} {k l : β → Eval α}
    (h : ∀ σ, c.Guides p (k (g σ)) (l (g' σ))) :
    c.Guides p (Eval.read g >>= k) (Eval.read g' >>= l) :=
  fun hsteady hsettled kept hstill f σ => h σ hsteady hsettled kept hstill f σ

theorem again {step step' : β → Eval (β ⊕ α)} (h : ∀ b, c.Guides p (step b) (step' b))
    (fuel : Nat) (b : β) :
    (Course.again c).Guides p (iterate step fuel b) (iterate step' fuel b) := by
  intro hsteady hsettled kept hstill
  have turn : ∀ b, StayAt p (c.Awaits ∨ kept) (c.Awaits ∨ kept) (step b) (step' b) := fun b =>
    (h b hsteady.1 hsettled (c.Awaits ∨ kept) fun hb => hb.elim hsteady.2 hstill).mono
      (fun hb => hb.elim .inl fun h => h) fun h => h
  exact (StayAt.iterate turn fuel b).mono (fun h => h) .inr

theorem attempt (h : c.Guides p x y) : c.Guides p (Eval.attempt x) (Eval.attempt y) :=
  fun hsteady hsettled kept hstill => (h hsteady hsettled kept hstill).attempt

theorem withScope {scope : ScopeId} (h : c.Guides p x y) :
    c.Guides p (Eval.withScope scope x) (Eval.withScope scope y) :=
  fun hsteady hsettled kept hstill => (h hsteady hsettled kept hstill).withScope

theorem withChildScope (h : c.Guides p x y) :
    c.Guides p (Eval.withChildScope x) (Eval.withChildScope y) :=
  fun hsteady hsettled kept hstill => (h hsteady hsettled kept hstill).withChildScope

theorem foldList {course : α → Course} {loc : α → α} {step step' : β → α → Eval β}
    (h : ∀ b a, (course a).Guides p (step b (loc a)) (step' b a)) (items : List α) (b : β) :
    (Course.each course items).Guides p (Eval.foldList step (items.map loc) b)
      (Eval.foldList step' items b) := by
  induction items generalizing b with
  | nil => exact quiet Quiet.pure
  | cons a rest ih =>
    rw [List.map_cons, foldList_cons, foldList_cons]
    exact (h b a).seq ih

theorem mapList {course : α → Course} {loc : α → α} {g g' : α → Eval β}
    (h : ∀ a, (course a).Guides p (g (loc a)) (g' a)) (items : List α) :
    (Course.each course items).Guides p (Eval.mapList g (items.map loc))
      (Eval.mapList g' items) :=
  (foldList (fun _ a => (h a).before fun _ => Quiet.pure) items []).before fun _ => Quiet.pure

/-- A node is entered, and then goes by its form. -/
theorem node {t : Tree} {k l : Position → Eval β}
    (h : t.Fits (t.pos.orElse p) →
      t.course.Guides (t.pos.orElse p) (k (t.pos.orElse p)) (l (t.pos.orElse p))) :
    (part t).Guides p (enter (t.pos.orElse p) >>= k) (enter t.pos >>= l) := by
  intro _ hsettled kept hstill
  obtain ⟨fits, steady, parts⟩ := hsettled t List.mem_cons_self
  have still : kept → t.pos.orElse p = p ∧ t.course.StillAt p := by
    intro hkept
    obtain ⟨here, calm, inner⟩ := (hstill hkept).2 t List.mem_cons_self
    exact ⟨here, calm, inner⟩
  have body : StayAt (t.pos.orElse p) (t.course.Awaits ∨ kept) kept (k (t.pos.orElse p))
      (l (t.pos.orElse p)) :=
    h fits steady parts kept fun hkept => (still hkept).1.symm ▸ (still hkept).2
  have entered := StayAt.enter (fun hkept => (still hkept).1)
    (body.mono (fun _ => trivial) fun h => h)
  refine entered.mono (fun hb => hb.imp_left fun hunknown => ?_) fun h => h
  exact ⟨t, List.mem_cons_self, hunknown⟩

end Guides
end Course
end TreeWalk
