/-
Computations that halt.

A computation is taken with every amount of fuel at once.  It halts if it comes to
one and the same end with every amount that is large enough.  No amount is named: a
loop may run as often as the values tell that it is given, so how much is needed
depends on all that was evaluated before.

An end must leave the task and the store in the setting, unless it is a fault.
Nothing in a setting catches a fault, so of what it leaves nothing has to be known.
-/
import Mathlib.Order.Filter.AtTopBot.Basic
import TreeWalk.Proofs.Halting.Setting

namespace TreeWalk

open Eval Filter

variable {α β : Type}

theorem tendsto_pred {fuel : Nat → Nat} (h : Tendsto fuel atTop atTop) :
    Tendsto (fun n => fuel n - 1) atTop atTop := (tendsto_sub_atTop_nat 1).comp h

/-- With enough fuel the computations come to one end, of which `post` holds. -/
def Comes (x : Nat → Eval α) (f : Fiber) (σ : Store)
    (post : Except Exit α → Fiber → Store → Prop) : Prop :=
  ∃ r g τ, (∀ᶠ n in atTop, x n f σ = .done r g τ) ∧ post r g τ

namespace Comes

variable {x y : Nat → Eval α} {f g : Fiber} {σ τ : Store} {r : Except Exit α}
  {post post' : Except Exit α → Fiber → Store → Prop}

theorem of_done (h : ∀ n, x n f σ = .done r g τ) (hpost : post r g τ) : Comes x f σ post :=
  ⟨r, g, τ, .of_forall h, hpost⟩

theorem mono (h : Comes x f σ post) (hpost : ∀ r g τ, post r g τ → post' r g τ) :
    Comes x f σ post' := by
  obtain ⟨r, g, τ, hx, hend⟩ := h
  exact ⟨r, g, τ, hx, hpost r g τ hend⟩

/-- Computations that are the same with enough fuel come to the same end. -/
theorem congr {f' : Fiber} {σ' : Store} (h : Comes x f' σ' post)
    (heq : ∀ᶠ n in atTop, y n f σ = x n f' σ') : Comes y f σ post := by
  obtain ⟨r, g, τ, hx, hend⟩ := h
  refine ⟨r, g, τ, ?_, hend⟩
  filter_upwards [hx, heq] with n hn hsame
  rw [hsame, hn]

theorem of_eq {f' : Fiber} {σ' : Store} (h : Comes x f' σ' post) (heq : ∀ n, y n f σ = x n f' σ') :
    Comes y f σ post := h.congr (.of_forall heq)

/-- The computations need some fuel to begin with. -/
theorem of_fuel {fuel : Nat → Nat} {f' : Fiber} {σ' : Store} (hfuel : Tendsto fuel atTop atTop)
    (h : Comes x f' σ' post) (heq : ∀ n k, fuel n = k + 1 → y n f σ = x n f' σ') :
    Comes y f σ post := by
  refine h.congr ?_
  filter_upwards [hfuel.eventually_gt_atTop 0] with n hn
  exact heq n _ (Nat.succ_pred_eq_of_pos hn).symm

/-- A little more fuel makes no difference. -/
theorem of_succ (h : Comes (fun n => x (n + 1)) f σ post) : Comes x f σ post := by
  obtain ⟨r, g, τ, hx, hend⟩ := h
  obtain ⟨N, hN⟩ := eventually_atTop.mp hx
  refine ⟨r, g, τ, eventually_atTop.mpr ⟨N + 1, fun n hn => ?_⟩, hend⟩
  obtain ⟨k, rfl⟩ := Nat.exists_eq_add_of_le hn
  rw [Nat.add_right_comm]
  exact hN (N + k) (Nat.le_add_right N k)

/-- Going on from the end. -/
theorem andThen {z : Nat → Eval β} {next : Nat → Except Exit α → Eval β}
    {post' : Except Exit β → Fiber → Store → Prop} {f' : Fiber} {σ' : Store} (h : Comes x f' σ' post)
    (hz : ∀ n, z n f σ = (x n f' σ').andThen (next n))
    (hnext : ∀ r g τ, post r g τ → Comes (fun n => next n r) g τ post') : Comes z f σ post' := by
  obtain ⟨r, g, τ, hx, hend⟩ := h
  obtain ⟨r', g', τ', hnext, hend'⟩ := hnext r g τ hend
  refine ⟨r', g', τ', ?_, hend'⟩
  filter_upwards [hx, hnext] with n hn hn'
  rw [hz, hn]
  exact hn'

end Comes

namespace Setting

/-- What holds where a computation ends: `R` of the store, and `Φ` of the answer or `E`
of the exit. -/
def Post (c : Setting) (R : Store → Prop) (E : Exit → Prop) (Φ : α → Prop) :
    Except Exit α → Fiber → Store → Prop
  | .ok a, g, τ => c.Fits g τ ∧ R τ ∧ Φ a
  | .error e, g, τ => e ≠ .exhausted ∧ (e.isAbort = false → c.Fits g τ ∧ R τ ∧ E e)

/-- The computation halts when it begins so. -/
def HaltsAt (c : Setting) (R : Store → Prop) (E : Exit → Prop) (Φ : α → Prop) (x : Nat → Eval α)
    (f : Fiber) (σ : Store) : Prop := Comes x f σ (c.Post R E Φ)

/-- Nothing but an abort. -/
def Never : Exit → Prop := fun _ => False

/-- The computation halts wherever the setting fits.  Calls that it puts off lie less
than `m` deep in each other. -/
def Halts (c : Setting) (m : Nat) (Φ : α → Prop) (x : Nat → Eval α) : Prop :=
  ∀ f σ, c.Fits f σ → c.HaltsAt (σ.Leads c.own m) (Exit.Within tame) Φ x f σ

/-- A result of which `Φ` holds, or an exit other than an abort. -/
def Settled (Φ : α → Prop) : Except Exit α → Prop
  | .ok a => Φ a
  | .error e => e.isAbort = false ∧ e.Within tame

/-- Nothing has to be known. -/
def Any : α → Prop := fun _ => True

variable {c : Setting} {R S : Store → Prop} {E : Exit → Prop} {Φ Φ' : α → Prop} {Ψ : β → Prop}
  {m k : Nat} {x y : Nat → Eval α} {f : Fiber} {σ τ : Store} {e : Exit}

theorem Settled.ne_exhausted (h : Settled Φ (.error e : Except Exit α)) : e ≠ .exhausted := by
  rintro rfl
  cases h.1

/-- Of what an abort leaves nothing has to be known. -/
theorem Post.of_abort (h : e ≠ .exhausted) (habort : e.isAbort = true) :
    c.Post R E Φ (.error e : Except Exit α) f σ := by
  refine ⟨h, fun he => ?_⟩
  rw [habort] at he
  cases he

/-- A computation on the store that fails leaves the store as it was. -/
theorem Post.of_failure (hf : c.Fits f σ) (h : e.IsFailure) :
    c.Post (σ.Leads c.own m) (Exit.Within tame) Φ (.error e : Except Exit α) f σ := by
  refine ⟨?_, fun _ => ⟨hf, .refl σ, h.within⟩⟩
  rintro rfl
  exact h

namespace HaltsAt

theorem mono (h : c.HaltsAt R E Φ x f σ) (hR : ∀ τ, R τ → S τ) (hΦ : ∀ a, Φ a → Φ' a) :
    c.HaltsAt S E Φ' x f σ := by
  refine Comes.mono h ?_
  rintro (e | a) g τ hpost
  · exact ⟨hpost.1, fun he => ⟨(hpost.2 he).1, hR τ (hpost.2 he).2.1, (hpost.2 he).2.2⟩⟩
  · exact ⟨hpost.1, hR τ hpost.2.1, hΦ a hpost.2.2⟩

theorem weaken {E' : Exit → Prop} (h : c.HaltsAt R E Φ x f σ) (hE : ∀ e, E e → E' e) :
    c.HaltsAt R E' Φ x f σ := by
  refine Comes.mono h ?_
  rintro (e | a) g τ hpost
  · exact ⟨hpost.1, fun he => ⟨(hpost.2 he).1, (hpost.2 he).2.1, hE e (hpost.2 he).2.2⟩⟩
  · exact hpost

theorem pure {a : α} (hf : c.Fits f σ) (hR : R σ) (h : Φ a) :
    c.HaltsAt R E Φ (fun _ => Pure.pure a) f σ := .of_done (fun _ => rfl) ⟨hf, hR, h⟩

theorem exit (hf : c.Fits f σ) (hR : R σ) (he : e ≠ .exhausted) (hE : E e) :
    c.HaltsAt R E Φ (fun _ => Eval.exit e) f σ :=
  .of_done (fun _ => rfl) ⟨he, fun _ => ⟨hf, hR, hE⟩⟩

theorem bind {l : Nat → α → Eval β} (hx : c.HaltsAt R E Φ x f σ)
    (hl : ∀ a g τ, c.Fits g τ → R τ → Φ a → c.HaltsAt S E Ψ (fun n => l n a) g τ)
    (hR : ∀ τ, R τ → S τ) : c.HaltsAt S E Ψ (fun n => x n >>= l n) f σ := by
  refine Comes.andThen hx (fun n => bind_apply _ _ _ _) ?_
  rintro (e | a) g τ hpost
  · exact .of_done (fun _ => rfl)
      ⟨hpost.1, fun he => ⟨(hpost.2 he).1, hR τ (hpost.2 he).2.1, (hpost.2 he).2.2⟩⟩
  · exact hl a g τ hpost.1 hpost.2.1 hpost.2.2

/-- Answers how a computation ended, unless by an abort. -/
theorem attempt (hx : c.HaltsAt R (Exit.Within tame) Φ x f σ) :
    c.HaltsAt R E (Settled Φ) (fun n => Eval.attempt (x n)) f σ := by
  refine Comes.andThen hx (fun _ => rfl) ?_
  rintro (e | a) g τ hpost
  · cases habort : e.isAbort with
    | true => exact .of_done (fun _ => if_pos habort) (.of_abort hpost.1 habort)
    | false =>
      obtain ⟨hg, hτ, hwithin⟩ := hpost.2 habort
      exact .of_done (fun _ => if_neg (by simp [habort])) ⟨hg, hτ, habort, hwithin⟩
  · exact .of_done (fun _ => rfl) hpost

/-- In another scope with the same frame. -/
theorem withScope {scope : ScopeId} (hf : c.Fits f σ) (hR : ∀ τ, R τ → σ.Extends τ)
    (hx : c.HaltsAt R E Φ x { f with scope := scope } σ) :
    c.HaltsAt R E Φ (fun n => Eval.withScope scope (x n)) f σ := by
  refine Comes.andThen hx (fun _ => rfl) ?_
  have back : ∀ g τ, c.Fits g τ → R τ → c.Fits { g with scope := f.scope } τ := fun g τ hg hτ =>
    hg.inScope (hf.owner.later (hR τ hτ))
  rintro (e | a) g τ hpost
  · refine .of_done (fun _ => rfl) ⟨hpost.1, fun he => ?_⟩
    obtain ⟨hg, hτ, hwithin⟩ := hpost.2 he
    exact ⟨back g τ hg hτ, hτ, hwithin⟩
  · exact .of_done (fun _ => rfl) ⟨back g τ hpost.1 hpost.2.1, hpost.2.1, hpost.2.2⟩

end HaltsAt

namespace Halts

/-- Part of a computation. -/
theorem part (h : c.Halts m Φ x) (hf : c.Fits f τ) (hτ : σ.Leads c.own m τ) :
    c.HaltsAt (σ.Leads c.own m) (Exit.Within tame) Φ x f τ :=
  (h f τ hf).mono (fun _ => hτ.trans) fun _ h => h

theorem weaken (h : c.Halts k Φ x) (hm : k ≤ m) : c.Halts m Φ x := fun f σ hf =>
  (h f σ hf).mono (fun _ h => h.mono hm) fun _ h => h

theorem mono (h : c.Halts m Φ x) (hΦ : ∀ a, Φ a → Φ' a) : c.Halts m Φ' x := fun f σ hf =>
  (h f σ hf).mono (fun _ h => h) hΦ

theorem of_succ (h : c.Halts m Φ fun n => x (n + 1)) : c.Halts m Φ x := fun f σ hf =>
  Comes.of_succ (h f σ hf)

theorem any (h : c.Halts m Φ x) : c.Halts m Any x := h.mono fun _ _ => trivial

theorem pure {a : α} (h : Φ a) : c.Halts m Φ fun _ => Pure.pure a := fun _ σ hf =>
  .pure hf (.refl σ) h

theorem exit (he : e ≠ .exhausted) (hwithin : e.Within tame) :
    c.Halts m Φ fun _ => Eval.exit e := fun _ σ hf => .exit hf (.refl σ) he hwithin

theorem fail {cause : Cause} {pos : Position} : c.Halts m Φ fun _ => Eval.fail cause pos :=
  exit (fun he => nomatch he) trivial

theorem ofResult {r : Except Exit α} (h : Settled Φ r) : c.Halts m Φ fun _ => Eval.ofResult r := by
  cases r with
  | ok a => exact pure h
  | error e => exact exit h.ne_exhausted h.2

theorem bind {l : Nat → α → Eval β} (hx : c.Halts m Φ x)
    (hl : ∀ a, Φ a → c.Halts m Ψ fun n => l n a) : c.Halts m Ψ fun n => x n >>= l n :=
  fun f σ hf => (hx f σ hf).bind (fun a _ _ hg hτ ha => (hl a ha).part hg hτ) fun _ h => h

/-- Going on with an answer of which nothing has to be known. -/
theorem seq {l : Nat → α → Eval β} (hx : c.Halts m Any x) (hl : ∀ a, c.Halts m Ψ fun n => l n a) :
    c.Halts m Ψ fun n => x n >>= l n := hx.bind fun a _ => hl a

theorem read {g : Store → α} (h : ∀ σ : Store, σ.Closed tame → Φ (g σ)) :
    c.Halts m Φ fun _ => Eval.read g := fun _ σ hf =>
  .of_done (fun _ => rfl) ⟨hf, .refl σ, h σ hf.closed⟩

/-- Reading something of which nothing has to be known. -/
theorem look {g : Store → α} : c.Halts m Any fun _ => Eval.read g := read fun _ _ => trivial

theorem fiber : c.Halts m (fun g => g.stack = c.stack ∧ g.thread = c.thread) fun _ => Eval.fiber :=
  fun _ _ hf => .of_done (fun _ => rfl) ⟨hf, .refl _, hf.stack, hf.thread⟩

theorem position : c.Halts m Any fun _ => Eval.position := fun _ _ hf =>
  .of_done (fun _ => rfl) ⟨hf, .refl _, trivial⟩

theorem enter {pos : Position} : c.Halts m Any fun _ => Eval.enter pos := fun _ _ hf =>
  .of_done (fun _ => rfl) ⟨{ hf with }, .refl _, trivial⟩

/-- A computation on the store that may print a text at its end. -/
theorem speak {sink : Sink} {a : Atomic α} (ha : Atomic.Speaks tame sink Φ a) :
    c.Halts m Φ fun _ => Eval.lift a := by
  intro f σ hf
  have hresult := ha σ hf.closed
  cases heq : a σ with
  | ok r =>
    rw [heq] at hresult
    obtain ⟨⟨ρ, text, hcalm, hprint⟩, hanswer⟩ := hresult
    have hleads : σ.Leads c.own m ρ := .of_quiet hcalm.toQuiet
    have hpost : c.Post (σ.Leads c.own m) (Exit.Within tame) Φ (.ok r.1) f r.2 := by
      rw [hprint]
      exact ⟨(hf.calm hcalm).print, hleads.trans .print, hanswer⟩
    refine .of_done (fun _ => ?_) hpost
    simp only [Eval.lift, heq]
  | error e =>
    rw [heq] at hresult
    refine .of_done (fun _ => ?_) (.of_failure hf hresult)
    simp only [Eval.lift, heq]

/-- A sound computation on the store fails or makes a calm change. -/
theorem lift {a : Atomic α} (ha : Atomic.Sound tame Φ a) : c.Halts m Φ fun _ => Eval.lift a :=
  speak (ha.speaks : Atomic.Speaks tame .discard Φ a)

theorem change {g : Store → α × Store}
    (h : ∀ σ : Store, σ.Closed tame → σ.Calm tame (g σ).2 ∧ Φ (g σ).1) :
    c.Halts m Φ fun _ => Eval.change g := by
  intro f σ hf
  obtain ⟨hcalm, hanswer⟩ := h σ hf.closed
  exact .of_done (fun _ => rfl) ⟨hf.calm hcalm, .of_quiet hcalm.toQuiet, hanswer⟩

theorem update {g : Store → Store} (h : ∀ σ : Store, σ.Calm tame (g σ)) :
    c.Halts m Any fun _ => Eval.update g := fun _ σ hf =>
  .of_done (fun _ => rfl) ⟨hf.calm (h σ), .of_quiet (h σ).toQuiet, trivial⟩

theorem print {sink : Sink} {text : String} :
    c.Halts m Any fun _ => Eval.update (·.print sink text) := fun _ _ hf =>
  .of_done (fun _ => rfl) ⟨hf.print, .print, trivial⟩

theorem newArray {items : List Value} (h : Value.AllTame items) :
    c.Halts m Value.Tame fun _ => Eval.change (·.newArray items.toArray) :=
  change fun _ _ => ⟨⟨Store.quiet_newArray h, rfl⟩, trivial⟩

theorem newDict {d : Dict} (h : d.Tame) : c.Halts m Value.Tame fun _ => Eval.change (·.newDict d) :=
  change fun _ _ => ⟨⟨Store.quiet_newDict h.1 fun _ => h.2, rfl⟩, trivial⟩

theorem newEnum {parent : ScopeId} {members : List (String × Value)}
    (h : ∀ member ∈ members, member.2.Tame) :
    c.Halts m Any fun _ => Eval.change (·.newEnum parent members) := fun _ _ hf =>
  .of_done (fun _ => rfl)
    ⟨hf.step .addScope (hf.closed.newEnum trivial h) rfl, .of_deferred_eq .addScope rfl, trivial⟩

theorem bindName {name : String} {v : Value} (hv : v.Tame) :
    c.Halts m Any fun _ => Eval.bindName name v := fun _ _ hf =>
  .of_done (fun _ => rfl) ⟨hf.bind hv, .bind, trivial⟩

/-- There is no other task that could have a turn. -/
theorem yieldTurn : c.Halts m Any fun _ => Eval.yieldTurn := fun _ _ hf =>
  .of_done (fun _ => if_pos hf.idle) ⟨hf, .refl _, trivial⟩

theorem attempt (hx : c.Halts m Φ x) : c.Halts m (Settled Φ) fun n => Eval.attempt (x n) :=
  fun f σ hf => (hx f σ hf).attempt

/-- A scope inside of the current one has the same frame. -/
theorem inChildScope (hx : c.Halts m Φ x) (hf : c.Fits f σ) :
    c.HaltsAt (σ.Leads c.own m) (Exit.Within tame) Φ
      (fun n => Eval.withScope ⟨σ.scopes.size⟩ (x n)) f (σ.childScope f.scope).2 := by
  have hrun := hx _ _ (hf.childScope.inScope hf.owner.childScope)
  exact (HaltsAt.withScope hf.childScope (fun _ h => h.toExtends) hrun).mono
    (fun _ => Store.Leads.childScope.trans) fun _ h => h

theorem withChildScope (hx : c.Halts m Φ x) : c.Halts m Φ fun n => Eval.withChildScope (x n) :=
  fun _ _ hf => hx.inChildScope hf

/-! ## Loops -/

/-- A loop whose state becomes smaller with every turn. -/
theorem iterate {step : Nat → β → Eval (β ⊕ α)} {fuel : Nat → Nat} (I : β → Prop) (size : β → Nat)
    (hstep : ∀ b, I b → c.Halts m (fun r => match r with
      | .inl b' => I b' ∧ size b' < size b
      | .inr a => Φ a) fun n => step n b)
    (hfuel : Tendsto fuel atTop atTop) {b : β} (hb : I b) :
    c.Halts m Φ fun n => Eval.iterate (step n) (fuel n) b := by
  generalize hsize : size b = s
  induction s using Nat.strongRecOn generalizing b fuel with
  | _ s ih =>
    subst hsize
    have hless := tendsto_pred hfuel
    have hturn : c.Halts m Φ fun n => step n b >>= fun
        | .inl b' => Eval.iterate (step n) (fuel n - 1) b'
        | .inr a => Pure.pure a := by
      refine (hstep b hb).bind fun r hr => ?_
      cases r with
      | inl b' => exact ih (size b') hr.2 hless hr.1 rfl
      | inr a => exact .pure hr
    refine fun f σ hf => .of_fuel hfuel (hturn f σ hf) fun n k hk => ?_
    rw [hk, iterate_succ]
    rfl

/-- A loop over the elements of a list. -/
theorem foldList {step : Nat → β → α → Eval β} {items : List α} (I : β → Prop)
    (hstep : ∀ b, I b → ∀ a ∈ items, c.Halts m I fun n => step n b a) {b : β} (hb : I b) :
    c.Halts m I fun n => Eval.foldList (step n) items b := by
  induction items generalizing b with
  | nil => exact .pure hb
  | cons a rest ih =>
    simp only [foldList_cons]
    refine (hstep b hb a List.mem_cons_self).bind fun b' hb' => ?_
    exact ih (fun s hs a' ha' => hstep s hs a' (List.mem_cons_of_mem a ha')) hb'

theorem mapList {g : Nat → α → Eval β} {items : List α}
    (hg : ∀ a ∈ items, c.Halts m Ψ fun n => g n a) :
    c.Halts m (fun results => ∀ b ∈ results, Ψ b) fun n => Eval.mapList (g n) items := by
  refine Halts.bind (foldList (fun results => ∀ b ∈ results, Ψ b) ?_ ?_) fun results h => ?_
  · intro results hresults a ha
    refine (hg a ha).bind fun b hb => .pure fun b' hb' => ?_
    rcases List.mem_cons.mp hb' with rfl | hb'
    · exact hb
    · exact hresults b' hb'
  · exact fun b hb => nomatch hb
  · exact .pure fun b hb => h b (List.mem_reverse.mp hb)

end Halts
end Setting
end TreeWalk
