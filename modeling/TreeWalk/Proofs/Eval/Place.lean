/-
Assignments keep to their place.

However a write comes out, it is known what it did: either the place holds the value
and all else is as it was, or nothing has changed.  Only a name that is bound where it was
not bound before needs a scope that is in the store, and tasks run in no others.  A compound
assignment writes what an operator makes of the value before, and a step the value one
further; both find the place, read it, and then amend it.  Where the operator or the write
fails, the store is left as it was just before.
-/
import TreeWalk.Proofs.Eval.Invariant
import TreeWalk.Proofs.Store.Place

namespace TreeWalk
namespace Assign

open Discipline Eval

variable {ev : Evaluator} {place : Place} {next : Atomic Value} {answer : Value → Value}
  {pos : Position} {f g : Fiber} {σ τ : Store}

/-- Reading takes place at once. -/
theorem readPlace_of_get {v : Value} (h : place.get f.scope pos σ = .ok (v, σ)) :
    readPlace place pos f σ = .done (.ok v) f σ := by
  show lift (place.get f.scope pos) f σ = _
  unfold lift
  rw [h]

theorem writePlace_cases (hlive : place.Live σ f.scope) (v : Value) (declare : Bool) :
    (∃ τ ℓ, writePlace place v declare pos f σ = .done (.ok ()) f τ ∧
      place.location? σ f.scope = some ℓ ∧ σ.SameBut ℓ τ ∧
      ∀ pos', readPlace place pos' f τ = .done (.ok v) f τ) ∨
    ∃ e, writePlace place v declare pos f σ = .done (.error (.error e)) f σ := by
  have wrote : Place.Wrote f.scope place v σ (place.write f.scope v declare pos σ) :=
    Place.wrote_write hlive
  rw [writePlace_apply]
  rcases wrote with ⟨g, hwrite, ⟨ℓ, hℓ, hsame⟩, hget⟩ | ⟨e, hwrite⟩
  · refine .inl ⟨g σ, ℓ, ?_, hℓ, hsame, fun pos' => readPlace_of_get (hget pos')⟩
    rw [hwrite]
  · refine .inr ⟨e, ?_⟩
    rw [hwrite]

/-! ## Scopes in the store -/

/-- Other tasks take no scope away. -/
def lasting : Resumption := fun _ σ _ σ' => σ.scopes.size ≤ σ'.scopes.size

theorem sturdy_inStore (s : ScopeId) : Sturdy fun σ => s.index < σ.scopes.size where
  quiet h hquiet := by rwa [hquiet.scopes]
  cells h hscopes _ _ := by rwa [hscopes]
  bind h := by simpa [Store.bind] using h
  newScope h := by
    rw [Store.newScope, Store.size_scopes_addScope]
    omega
  newEnum h := by
    rw [Store.newEnum, Store.size_scopes_addScope]
    omega

/-- The discipline of stores that have a scope. -/
abbrev having (s : ScopeId) : Discipline := keeping fun σ => s.index < σ.scopes.size

/-- A task that runs in a scope of the store is still there at its end. -/
theorem inStore_of_leads {α : Type} {x : Eval α} {w : Ways} {Φ : Store → α → Prop} {a : α}
    (hin : f.scope.index < σ.scopes.size)
    (runs : (having f.scope).Runs true w Φ f.site σ σ x x)
    (h : (x f σ).Leads lasting (.done (.ok a) g τ)) : g.scope.index < τ.scopes.size := by
  have hpost := h.of_alike (fun _ _ _ _ hσ hle => Nat.lt_of_lt_of_le hσ hle) id (runs hin f rfl)
  have hscope : g.scope = f.scope := congrArg Site.scope (hpost.site_eq nofun)
  rw [hscope]
  exact hpost.1

/-! ## Places that are found -/

/-- What a compound assignment finds before it computes: the place, the value there and
the operand. -/
def operands (ev : Evaluator) (target value : Expr) (pos : Position) :
    Eval (Place × Value × Value) := do
  let place ← resolve ev target pos
  let current ← readPlace place pos
  let operand ← ev.expr value
  return (place, current, operand)

/-- What a step up or down finds before it computes: the place and the value there. -/
def found (ev : Evaluator) (target : Expr) (pos : Position) : Eval (Place × Value) := do
  let place ← resolve ev target pos
  let old ← readPlace place pos
  return (place, old)

/-- Writes what `next` comes to. -/
def amend (place : Place) (next : Atomic Value) (pos : Position) (answer : Value → Value) :
    Eval Value := do
  let v ← lift next
  writePlace place v false pos
  return answer v

theorem assign_eq {op : AssignOp} {operator : InfixOp} (hop : op.operator? = some operator)
    (target value : Expr) : assign ev op target value pos =
      operands ev target value pos >>= fun (place, current, operand) =>
        amend place (Operator.binary operator current operand pos) pos id := by
  simp only [assign, operands, amend, hop, bind_assoc, pure_bind, Option.isNone_some, id_eq]

theorem step_eq (op : PostfixOp) (target : Expr) : step ev op target pos =
    found ev target pos >>= fun (place, old) =>
      amend place (stepped op old pos) pos fun _ => old := by
  simp only [step, found, amend, bind_assoc, pure_bind]

/-- Every place that an assignment finds is live, where it is found and where the operand
has been evaluated. -/
theorem live_of_leads {fuel : Nat} {target value : Expr} (hin : f.scope.index < σ.scopes.size) :
    (∀ place, (resolve (evaluator fuel) target pos f σ).Leads lasting (.done (.ok place) g τ) →
      place.Live τ g.scope) ∧
    (∀ r, (operands (evaluator fuel) target value pos f σ).Leads lasting (.done (.ok r) g τ) →
      r.1.Live τ g.scope) ∧
    (∀ r, (found (evaluator fuel) target pos f σ).Leads lasting (.done (.ok r) g τ) →
      r.1.Live τ g.scope) := by
  have hev := sound_evaluator (sturdy_inStore f.scope).lawful fuel
  have live : ∀ place : Place, g.scope.index < τ.scopes.size → place.Live τ g.scope := by
    intro place h
    cases place with
    | name n => exact h
    | _ => exact trivial
  have hresolve : (having f.scope).Runs true .all
      (fun τ place => place.Within ((having f.scope).At τ))
      f.site σ σ (resolve (evaluator fuel) target pos) (resolve (evaluator fuel) target pos) :=
    hev.runs_resolve (Ways.le_all _) (Ways.le_all _)
  have hfound : (having f.scope).Runs true .all Any f.site σ σ
      (found (evaluator fuel) target pos) (found (evaluator fuel) target pos) :=
    hresolve.bind fun place _ _ hplace =>
      (hev.lawful.runs_readPlace trivial hplace).bind fun _ _ _ _ => .pure trivial
  have hoperands : (having f.scope).Runs true .all Any f.site σ σ
      (operands (evaluator fuel) target value pos) (operands (evaluator fuel) target value pos) :=
    hresolve.bind fun place _ _ hplace =>
      (hev.lawful.runs_readPlace trivial hplace).bind fun _ _ _ _ =>
        (hev.runs_expr (Ways.le_all _)).bind fun _ _ _ _ => .pure trivial
  exact ⟨fun place h => live place (inStore_of_leads hin hresolve h),
    fun r h => live r.1 (inStore_of_leads hin hoperands h),
    fun r h => live r.1 (inStore_of_leads hin hfound h)⟩

/-! ## What is written -/

/-- A place was to be amended at a store and nothing was written: `next` failed, and
the store is still the same; or the write failed, and the store is the one at which it
was attempted. -/
def Refused (place : Place) (next : Atomic Value) (pos : Position) (f : Fiber) (σ : Store)
    (e : Exit) (τ : Store) : Prop :=
  (next σ = .error e ∧ τ = σ) ∨
    ∃ v, next σ = .ok (v, τ) ∧ writePlace place v false pos f τ = .done (.error e) f τ

theorem refused_of_amend {e : Exit} (h : (amend place next pos answer f σ).Ends (.error e) g τ) :
    g = f ∧ Refused place next pos f σ e τ := by
  have nextFirst : amend place next pos answer f σ = (lift next f σ).andThen (follow fun v =>
      writePlace place v false pos >>= fun _ => pure (answer v)) := bind_apply _ _ f σ
  rw [nextFirst] at h
  unfold lift at h
  unfold Refused
  cases hnext : next σ with
  | error e' =>
    rw [hnext] at h
    cases h
    exact ⟨rfl, .inl ⟨rfl, rfl⟩⟩
  | ok r =>
    obtain ⟨v, σ'⟩ := r
    rw [hnext] at h
    dsimp only [Step.andThen_done, follow] at h
    rw [bind_apply, writePlace_apply] at h
    cases hwrite : place.write f.scope v false pos σ' with
    | ok r' =>
      rw [hwrite] at h
      cases h
    | error e' =>
      rw [hwrite] at h
      cases h
      exact ⟨rfl, .inr ⟨v, rfl, by rw [writePlace_apply, hwrite]⟩⟩

/-- Where a place is amended in the end, a failure comes before, or nothing is
written. -/
theorem ends_amend {α : Type} {x : Eval α} {at_ : α → Place} {nexts : α → Atomic Value}
    {answers : α → Value → Value} {e : Exit}
    (h : ((x >>= fun a => amend (at_ a) (nexts a) pos (answers a)) f σ).Ends (.error e) g τ) :
    (x f σ).Ends (.error e) g τ ∨
      ∃ a σ', (x f σ).Ends (.ok a) g σ' ∧ Refused (at_ a) (nexts a) pos g σ' e τ := by
  obtain ⟨_, ⟨⟩, hx⟩ | ⟨a, f', σ', hx, hamend⟩ := ends_bind h
  · exact .inl hx
  · obtain ⟨rfl, hrefused⟩ := refused_of_amend hamend
    exact .inr ⟨a, σ', hx, hrefused⟩

/-- A write to a live place that succeeds gives it the value, and leaves all but its own
location as it was; one that fails leaves everything as it was.  All places that a task
finds are live, as long as its scope is in the store and the other tasks take no scope away.
A compound assignment that fails does so while it finds the place, what is there and the
operand; or its operator or its write fails, and the store, so the place too, is left as it
was just before.  The same goes for steps up and down. -/
theorem writes_keep_to_their_place :
    (∀ (place : Place) (v : Value) (declare : Bool) (pos : Position) (f : Fiber) (σ : Store),
      place.Live σ f.scope →
      (∃ τ ℓ, writePlace place v declare pos f σ = .done (.ok ()) f τ ∧
        place.location? σ f.scope = some ℓ ∧ σ.SameBut ℓ τ ∧
        ∀ pos', readPlace place pos' f τ = .done (.ok v) f τ) ∨
      ∃ e, writePlace place v declare pos f σ = .done (.error (.error e)) f σ) ∧
    (∀ (fuel : Nat) (target value : Expr) (pos : Position) (f g : Fiber) (σ τ : Store),
      f.scope.index < σ.scopes.size →
      (∀ place, (resolve (evaluator fuel) target pos f σ).Leads lasting (.done (.ok place) g τ) →
        place.Live τ g.scope) ∧
      (∀ r, (operands (evaluator fuel) target value pos f σ).Leads lasting (.done (.ok r) g τ) →
        r.1.Live τ g.scope) ∧
      (∀ r, (found (evaluator fuel) target pos f σ).Leads lasting (.done (.ok r) g τ) →
        r.1.Live τ g.scope)) ∧
    (∀ (ev : Evaluator) (op : AssignOp) (operator : InfixOp) (target value : Expr)
      (pos : Position) (f g : Fiber) (σ τ : Store) (e : Exit), op.operator? = some operator →
      (assign ev op target value pos f σ).Ends (.error e) g τ →
      (operands ev target value pos f σ).Ends (.error e) g τ ∨
      ∃ (found : Place × Value × Value) (σ' : Store),
        (operands ev target value pos f σ).Ends (.ok found) g σ' ∧
        Refused found.1 (Operator.binary operator found.2.1 found.2.2 pos) pos g σ' e τ) ∧
    (∀ (ev : Evaluator) (op : PostfixOp) (target : Expr) (pos : Position) (f g : Fiber)
      (σ τ : Store) (e : Exit), (step ev op target pos f σ).Ends (.error e) g τ →
      (found ev target pos f σ).Ends (.error e) g τ ∨
      ∃ (old : Place × Value) (σ' : Store), (found ev target pos f σ).Ends (.ok old) g σ' ∧
        Refused old.1 (stepped op old.2 pos) pos g σ' e τ) := by
  refine ⟨fun _ v declare _ _ _ hlive => writePlace_cases hlive v declare,
    fun _ _ _ _ _ _ _ _ hin => live_of_leads hin, ?_, ?_⟩
  · intro ev op operator target value pos f g σ τ e hop h
    rw [assign_eq hop] at h
    exact ends_amend h
  · intro ev op target pos f g σ τ e h
    rw [step_eq] at h
    exact ends_amend h

/-- A single scope, where `x` is true. -/
def flagStore : Store := (default : Store).rootScope.2.bind ⟨0⟩ "x" (.ofBool true)

/-- `x += 1` and `x++` fail there, and `x` stays what it is. -/
theorem writes_keep_to_their_place_flag :
    (∃ τ ℓ, writePlace (.name "x") (.ofInt 7) false .unknown default flagStore =
        .done (.ok ()) default τ ∧ (Place.name "x").location? flagStore ⟨0⟩ = some ℓ ∧
      flagStore.SameBut ℓ τ ∧
      ∀ pos, readPlace (.name "x") pos default τ = .done (.ok (.ofInt 7)) default τ) ∧
    (∃ e, (assign (evaluator 4) .add (.bare (.ident "x")) (.bare (.int 1)) .unknown default
        flagStore).Ends (.error e) default flagStore ∧
      Refused (.name "x") (Operator.binary .add (.ofBool true) (.ofInt 1) .unknown) .unknown default
        flagStore e flagStore) ∧
    ∃ e, (step (evaluator 4) .increment (.bare (.ident "x")) .unknown default flagStore).Ends
        (.error e) default flagStore ∧
      Refused (.name "x") (stepped .increment (.ofBool true) .unknown) .unknown default flagStore e
        flagStore := by
  obtain ⟨hwrite, hfound, hassign, hstep⟩ := writes_keep_to_their_place
  have hin : (default : Fiber).scope.index < flagStore.scopes.size := by decide
  have hlive : (Place.name "x").Live flagStore (default : Fiber).scope :=
    (hfound 4 (.bare (.ident "x")) (.bare (.int 1)) .unknown default default flagStore flagStore
      hin).1 _ .refl
  refine ⟨?_, ⟨_, .done, ?_⟩, ⟨_, .done, ?_⟩⟩
  · rcases hwrite (.name "x") (.ofInt 7) false .unknown default flagStore hlive with h | ⟨e, h⟩
    · exact h
    · cases h
  · rcases hassign (evaluator 4) .add .add (.bare (.ident "x")) (.bare (.int 1)) .unknown default
      default flagStore flagStore _ rfl .done with h | ⟨found, σ', h, hrefused⟩
    · cases h
    · cases h
      exact hrefused
  · rcases hstep (evaluator 4) .increment (.bare (.ident "x")) .unknown default default flagStore
      flagStore _ .done with h | ⟨old, σ', h, hrefused⟩
    · cases h
    · cases h
      exact hrefused

end Assign
end TreeWalk
