/-
Enums are read-only.

The scope of an enum lies in the store like any other, inside of the one where the
enum was made.  It is apart: nothing in the store leads into it, and no code runs in
it.  Names are bound only where code runs, or where something leads to, so what an
enum holds stays as it was made.
-/
import TreeWalk.Proofs.Eval.Hygiene
import TreeWalk.Proofs.Eval.Inspect
import TreeWalk.Proofs.Eval.Pact

namespace TreeWalk

open Discipline Eval

namespace Store

/-- A scope that code may run in. -/
def Open (σ : Store) (s : ScopeId) : Prop :=
  s.index < σ.scopes.size ∧ (σ.scope s).isEnum = false

/-- Nothing in the store leads into the scope of an enum: no function, struct or module,
no call that was put off, no task that was asked for, and no scope inside of it. -/
def Apart (σ : Store) : Prop := σ.Closed σ.Open

/-- The scopes of enums stay what they are. -/
structure KeepsEnums (σ τ : Store) : Prop extends σ.Widens τ where
  kept : ∀ s, (σ.scope s).isEnum = true → τ.scope s = σ.scope s

variable {σ τ υ : Store} {s : ScopeId} {name : String} {v : Value}

theorem Open.later (h : σ.Open s) (hw : σ.Widens τ) : τ.Open s :=
  ⟨Nat.lt_of_lt_of_le h.1 hw.scopes, (hw.kind s h.1).trans h.2⟩

theorem lt_of_isEnum (h : (σ.scope s).isEnum = true) : s.index < σ.scopes.size := by
  refine Nat.lt_of_not_le fun hge => ?_
  rw [scope_of_ge hge] at h
  cases h

namespace KeepsEnums

theorem of_scopes_eq (h : τ.scopes = σ.scopes) : σ.KeepsEnums τ :=
  ⟨.of_scopes_eq h, fun s _ => scope_eq_of_scopes_eq h s⟩

theorem refl (σ : Store) : σ.KeepsEnums σ := of_scopes_eq rfl

theorem trans (h : σ.KeepsEnums τ) (h' : τ.KeepsEnums υ) : σ.KeepsEnums υ where
  toWidens := h.toWidens.trans h'.toWidens
  kept s hs := by
    have hkept := h.kept s hs
    rw [h'.kept s (by rwa [hkept]), hkept]

/-- A name is bound where code may run. -/
theorem bind (h : σ.Open s) : σ.KeepsEnums (σ.bind s name v) where
  toWidens := .bind
  kept t ht := by
    refine scope_bind_of_ne fun hts => ?_
    rw [hts, h.2] at ht
    cases ht

theorem addScope {scope : Scope} : σ.KeepsEnums (σ.addScope scope).2 where
  toWidens := .addScope
  kept _ hs := scope_addScope_of_lt (lt_of_isEnum hs)

theorem requestTask {f : Fiber} {call : Expr} : σ.KeepsEnums (Control.requestTask f call σ) := by
  have hchild : σ.KeepsEnums (σ.childScope f.scope).2 := .addScope
  exact hchild.trans (.of_scopes_eq rfl)

end KeepsEnums

theorem open_newScope {p? : Option ScopeId} {frame : Option Frame} :
    (σ.newScope p? frame).2.Open ⟨σ.scopes.size⟩ := by
  refine ⟨?_, ?_⟩
  · show σ.scopes.size < (σ.addScope _).2.scopes.size
    rw [size_scopes_addScope]
    exact Nat.lt_succ_self _
  · show ((σ.addScope _).2.scope ⟨σ.scopes.size⟩).isEnum = false
    rw [scope_addScope_new]

namespace Apart

theorem later (h : τ.Closed σ.Open) (hw : σ.Widens τ) : τ.Apart := h.mono fun _ hs => hs.later hw

theorem quiet (h : σ.Apart) (hq : σ.Quiet σ.Open τ) : τ.Apart :=
  later (hq.closed h) (.of_scopes_eq hq.scopes)

theorem bind (h : σ.Apart) (hv : v.Within σ.Open) : (σ.bind s name v).Apart :=
  later (Closed.bind h hv) .bind

theorem newScope (h : σ.Apart) {p? : Option ScopeId} {frame : Option Frame}
    (hp : ∀ parent, p? = some parent → σ.Open parent) : (σ.newScope p? frame).2.Apart :=
  later (Closed.newScope h hp) .addScope

theorem print (h : σ.Apart) {sink : Sink} {text : String} : (σ.print sink text).Apart := by
  cases sink with
  | capture => exact later { Closed.mono (fun _ h => h) h with } (.of_scopes_eq rfl)
  | discard => exact h

/-- A task is asked for that begins in a new scope. -/
theorem requestTask (h : σ.Apart) {f : Fiber} {call : Expr} (hf : σ.Open f.scope) :
    (Control.requestTask f call σ).Apart := by
  have hchild : (σ.childScope f.scope).2.Apart :=
    h.newScope fun parent hparent => Option.some.inj hparent ▸ hf
  have hopen : (σ.childScope f.scope).2.Open ⟨σ.scopes.size⟩ := open_newScope
  refine { Closed.mono (fun _ h => h) hchild with spawned := fun s hs => ?_ }
  rcases List.mem_append.mp hs with hs | hs
  · exact Closed.spawned hchild s hs
  · obtain rfl := List.mem_singleton.mp hs
    exact hopen

end Apart
end Store

/-- What tasks agree on: enums stay apart, and stay what they are. -/
def apartPact : Pact where
  inv := Store.Apart
  stretch := ⟨Store.KeepsEnums, .refl, .trans⟩
  fits f σ := σ.Open f.scope

namespace Discipline

/-- What an evaluation at `here` that began with `σ₀` may have come to: enums are apart,
and it does not run in one of them. -/
structure Outside (here : Site) (σ₀ σ : Store) : Prop where
  widens : σ₀.Widens σ
  apart : σ.Apart
  inside : σ.Open here.scope

namespace Outside

variable {here there : Site} {σ₀ σ σ' : Store}

theorem begin (h : σ.Apart) (hs : σ.Open here.scope) : Outside here σ σ := ⟨.refl σ, h, hs⟩

theorem step (h : Outside here σ₀ σ) (hw : σ.Widens σ') (ha : σ'.Apart) : Outside here σ₀ σ' :=
  ⟨h.widens.trans hw, ha, h.inside.later hw⟩

/-- Back from another site. -/
theorem leave (h : Outside here σ₀ σ) (h' : Outside there σ σ') : Outside here σ₀ σ' :=
  h.step h'.widens h'.apart

theorem enter {p? : Option ScopeId} {frame : Option Frame} (hw : σ₀.Widens σ) (h : σ.Apart)
    (hp : ∀ parent, p? = some parent → σ.Open parent) (hs : here.scope = ⟨σ.scopes.size⟩) :
    Outside here σ₀ (σ.newScope p? frame).2 :=
  ⟨hw.trans .addScope, h.newScope hp, hs ▸ Store.open_newScope⟩

theorem quiet (h : Outside here σ₀ σ) (hq : σ.Quiet σ.Open σ') : Outside here σ₀ σ' :=
  h.step (.of_scopes_eq hq.scopes) (h.apart.quiet hq)

end Outside

/-- The discipline that keeps away from enums.  Other tasks keep away from them as
well. -/
def outside : Discipline where
  resumes := apartPact.resumes
  stretch _ := apartPact.stretch
  pauses := True
  home scopes s := s.index < scopes.size ∧ (scopes.getD s.index default).isEnum = false
  fit _ := Outside
  pending _ _ σ d := σ.Open d.scope

instance {stack : CallStack} {w : Ways} : outside.Admits stack w := ⟨fun _ _ => trivial⟩

theorem tells_outside : Tells outside.At outside.stretch where
  same hscopes _ := .of_scopes_eq hscopes
  bind hs := .bind hs
  scope := .addScope
  print := .of_scopes_eq Store.scopes_print
  spawn := .requestTask
  silent h := h

theorem lawful_outside : outside.Lawful where
  tells := tells_outside
  later hw _ hs := Store.Open.later hs hw
  home_new := Store.open_newScope
  weaken h := h
  restart h := .begin h.apart h.inside
  trans h h' := ⟨h.widens.trans h'.widens, h'.apart, h'.inside⟩
  closed h := h.apart
  inside h := h.inside
  quiet h hq := h.quiet hq
  resume {_ _ _ σ _ e _} h hresume := by
    obtain ⟨υ, hrest, hυ, hstep⟩ := hresume
    have hw : σ.Widens υ := hrest.toWidens
    obtain ⟨hquiet, hanswer⟩ := Event.quiet_of_happen? e hstep
    have hthen := (h.step hw hυ).quiet hquiet
    have hscopes : outside.At _ = outside.At υ := congrArg outside.home hquiet.scopes
    refine ⟨hthen, fun s hs => ?_, ?_⟩
    · rw [hscopes]
      exact Store.Open.later hs hw
    · rw [hscopes]
      exact hanswer hυ
  bind h hv := h.step .bind (h.apart.bind hv)
  rebind h _ _ hv := h.step .bind (h.apart.bind hv)
  print h := h.step (.of_scopes_eq Store.scopes_print) h.apart.print
  enum h hmembers :=
    h.step .addScope (.later (Store.Closed.newEnum h.apart h.inside hmembers) .addScope)
  enter_child h := .enter (.refl _) h.apart (fun _ hp => Option.some.inj hp ▸ h.inside) rfl
  leave_child h h' := h.leave h'
  enter_unit h := .enter (.refl _) h.apart nofun rfl
  leave_unit h h' := h.leave h'
  frame h := h.step (.of_scopes_eq rfl) (.later (Store.Closed.newFrame h.apart) (.of_scopes_eq rfl))
  enter_call {_ _ _ σ name pos _ _} h hparent _ := by
    have hframe : (σ.newFrame name pos).2.Apart :=
      .later (Store.Closed.newFrame h.apart) (.of_scopes_eq rfl)
    exact .enter (.of_scopes_eq rfl) hframe (fun _ hp => Option.some.inj hp ▸ hparent) rfl
  leave_call h _ h' := h.leave h'
  take h _ :=
    h.step (.of_scopes_eq rfl) (.later (Store.Closed.takeDeferred h.apart) (.of_scopes_eq rfl))
  pending_take h _ _ hd := h.apart.deferred _ _ hd
  pending_later hd h := hd.later h.widens
  enter_turn h hd := .begin h.apart hd
  leave_turn h _ h' := h.leave h'
  defer h _ _ :=
    h.step (.of_scopes_eq rfl) (.later (Store.Closed.defer h.apart h.inside) (.of_scopes_eq rfl))
  spawn h := h.step Store.KeepsEnums.requestTask.toWidens (h.apart.requestTask h.inside)

end Discipline

/-! ## Making an enum -/

namespace Control

variable {ev : Evaluator} {variants : List (String × Option Expr)} {f g : Fiber} {σ τ : Store}

/-- Each variant has a value, in the order of the variants. -/
theorem names_variantValues {n : Int64} {members : List (String × Value)}
    (h : (variantValues ev n variants f σ).Ends (.ok members) g τ) :
    members.map (·.1) = variants.map (·.1) := by
  induction variants generalizing n f σ g τ members with
  | nil =>
    cases h
    rfl
  | cons variant rest ih =>
    obtain ⟨name, explicit⟩ := variant
    have first : ∀ v following f₁ σ₁,
        ((do return (name, v) :: (← variantValues ev following rest)) f₁ σ₁).Ends
          (.ok members) g τ → members.map (·.1) = name :: rest.map (·.1) := by
      intro v following f₁ σ₁ h
      obtain ⟨_, ⟨⟩, _⟩ | ⟨others, f₂, σ₂, hrest, h⟩ := ends_bind h
      cases h
      exact congrArg (name :: ·) (ih hrest)
    cases explicit with
    | some e =>
      obtain ⟨_, ⟨⟩, _⟩ | ⟨v, f₁, σ₁, _, h⟩ := ends_bind h
      exact first v _ f₁ σ₁ h
    | none => exact first (.ofInt n) _ f σ h

/-- An enum has a scope of its own, which holds the values of its variants. -/
theorem enumOf_ok {v : Value} (h : (enumOf ev variants f σ).Ends (.ok v) g τ) :
    ∃ (s : ScopeId) (members : List (String × Value)),
      v = .enum s (variants.map (·.1)) ∧ (τ.scope s).isEnum = true ∧
      members.map (·.1) = variants.map (·.1) ∧
      ∀ name, τ.getLocal? s name = Assoc.get? members.reverse name := by
  obtain ⟨_, ⟨⟩, _⟩ | ⟨members, f₁, σ₁, hvalues, h⟩ := ends_bind h
  cases h
  have hscope : (σ₁.newEnum g.scope members).2.scope ⟨σ₁.scopes.size⟩ =
      ⟨.ofEntries members, some g.scope, none, true⟩ := Store.scope_addScope_new
  refine ⟨⟨σ₁.scopes.size⟩, members, rfl, ?_, names_variantValues hvalues, fun name => ?_⟩
  · show ((σ₁.newEnum g.scope members).2.scope ⟨σ₁.scopes.size⟩).isEnum = true
    rw [hscope]
  · show (Store.getLocal? (σ₁.newEnum g.scope members).2 ⟨σ₁.scopes.size⟩ name) = _
    unfold Store.getLocal?
    rw [hscope, Assoc.get?_ofEntries]

end Control

/-! ## Writing to an enum -/

/-- The place is an element or a member of an enum. -/
def Place.InEnum : Place → Prop
  | .element (.enum _ _) _ => True
  | .member (.enum _ _) _ => True
  | _ => False

/-- There is no change that writes to an enum. -/
theorem Place.InEnum.write_fails {place : Place} (h : place.InEnum) (scope : ScopeId) (v : Value)
    (declare : Bool) (pos : Position) (σ : Store) :
    ∃ e, place.write scope v declare pos σ = .error (.error e) := by
  cases place with
  | name n => exact h.elim
  | member object n =>
    cases object with
    | enum s l => exact ⟨_, rfl⟩
    | _ => exact h.elim
  | element container key =>
    cases container with
    | enum s l =>
      show ∃ e, Place.writeElement (.enum s l) key v pos σ = .error (.error e)
      unfold Place.writeElement
      dsimp only
      cases key.string? with
      | some n => exact ⟨_, rfl⟩
      | none => exact ⟨_, rfl⟩
    | _ => exact h.elim

namespace Assign

variable {ev : Evaluator} {place : Place} {pos : Position} {f : Fiber} {σ : Store}

/-- Writing to an enum fails, and changes nothing. -/
theorem writePlace_inEnum (h : place.InEnum) (v : Value) (declare : Bool) :
    ∃ e, writePlace place v declare pos f σ = .done (.error (.error e)) f σ := by
  obtain ⟨e, he⟩ := h.write_fails f.scope v declare pos σ
  exact ⟨e, by rw [writePlace_apply, he]⟩

/-- What an assignment to a place stores there. -/
def assigned (ev : Evaluator) (op : AssignOp) (value : Expr) (pos : Position) (place : Place) :
    Eval Value :=
  match op.operator? with
  | none => ev.expr value
  | some operator => do
    let current ← readPlace place pos
    let operand ← ev.expr value
    lift (Operator.binary operator current operand pos)

/-- What a place holds, and what a step up or down stores there. -/
def steppedAt (op : PostfixOp) (pos : Position) (place : Place) : Eval (Value × Value) := do
  let old ← readPlace place pos
  let new ← lift (stepped op old pos)
  return (old, new)

/-- If the target turns out to be in an enum, then nothing is written: the evaluation
fails, and leaves all as it was when it was known what to write. -/
def SparesEnums {α : Type} (target : Eval Place) (found : Place → Eval α) (whole : Eval Value) :
    Prop :=
  ∀ f σ r g τ, (whole f σ).Ends r g τ →
    (∃ e, r = .error e ∧ (target f σ).Ends (.error e) g τ) ∨
    ∃ place f' σ', (target f σ).Ends (.ok place) f' σ' ∧
      (place.InEnum → (∃ e, r = .error e) ∧ ∃ r', (found place f' σ').Ends r' g τ)

theorem sparesEnums {α : Type} {target : Eval Place} {found : Place → Eval α} {new : α → Value}
    {declare : Bool} {next : α → Unit → Eval Value} :
    SparesEnums target found
      (target >>= fun place => found place >>= fun a =>
        writePlace place (new a) declare pos >>= next a) := by
  intro f σ r g τ h
  obtain ⟨e, rfl, htarget⟩ | ⟨place, f', σ', htarget, h⟩ := ends_bind h
  · exact .inl ⟨e, rfl, htarget⟩
  · refine .inr ⟨place, f', σ', htarget, fun hplace => ?_⟩
    obtain ⟨e, rfl, hfound⟩ | ⟨a, f₁, σ₁, hfound, h⟩ := ends_bind h
    · exact ⟨⟨e, rfl⟩, _, hfound⟩
    · obtain ⟨e, he⟩ := writePlace_inEnum hplace (new a) declare
      rw [bind_apply, he] at h
      cases h
      exact ⟨⟨.error e, rfl⟩, _, hfound⟩

theorem sparesEnums_assign (op : AssignOp) (target value : Expr) :
    SparesEnums (resolve ev target pos) (assigned ev op value pos)
      (assign ev op target value pos) := by
  have unfolded : assign ev op target value pos = (resolve ev target pos >>= fun place =>
      assigned ev op value pos place >>= fun v =>
        writePlace place v op.operator?.isNone pos >>= fun _ => pure v) := by
    unfold assign assigned
    cases op.operator? with
    | none => rfl
    | some operator => simp only [bind_assoc]
  rw [unfolded]
  exact sparesEnums

theorem sparesEnums_step (op : PostfixOp) (target : Expr) :
    SparesEnums (resolve ev target pos) (steppedAt op pos) (step ev op target pos) := by
  have unfolded : step ev op target pos = (resolve ev target pos >>= fun place =>
      steppedAt op pos place >>= fun found =>
        writePlace place found.2 false pos >>= fun _ => pure found.1) := by
    simp only [step, steppedAt, bind_assoc, pure_bind]
  rw [unfolded]
  exact sparesEnums

end Assign

/-! ## Evaluations and sessions -/

/-- What is evaluated leads into no enum, and neither does anything else. -/
def Secluded : Watch := fun _ q f σ => σ.Apart ∧ σ.Open f.scope ∧ q.Within σ.Open

/-- What an evaluation may come to that began with a store where enums are apart. -/
def Secluded.Ended (r : Except Exit Value) (g : Fiber) (τ : Store) : Prop :=
  τ.Apart ∧ (∀ v, r = .ok v → v.Within τ.Open) ∧
    ((∀ e, r = .error e → e.isAbort = false) → τ.Open g.scope)

/-- Whatever is evaluated keeps away from enums, seen from each node to the next. -/
theorem alike_inspected (fuel : Nat) {q : Request} {f : Fiber} {σ : Store}
    (h : Secluded fuel q f σ) :
    ((inspected Secluded fuel).serve q f σ).Alike { apartPact.terms with pauses := True }
      Store.Apart Secluded.Ended σ ((evaluator fuel).serve q f σ) := by
  obtain ⟨hapart, hopen, hq⟩ := h
  have hsound : outside.Sound (inspected Secluded fuel) (evaluator fuel) :=
    sound_inspected lawful_outside trivial
      (fun _ _ _ _ hfit hq => ⟨hfit.apart, hfit.inside, hq⟩) fuel
  have runs : outside.Runs q.binds q.ways outside.Holds f.site σ σ
      ((inspected Secluded fuel).serve q) ((evaluator fuel).serve q) := hsound.runs_serve hq
  refine (runs (.begin hapart hopen) f rfl).mono (fun _ h => h.apart) ?_
  rintro r g τ hpost
  refine ⟨hpost.1.apart, fun v hv => ?_, fun hkept => ?_⟩
  · obtain rfl := hv
    exact hpost.2.2.2
  · rw [show g.scope = f.scope from congrArg Site.scope (hpost.site_eq hkept)]
    exact hpost.1.inside

theorem kept_serve (fuel : Nat) {q : Request} {f : Fiber} {σ : Store} (h : Secluded fuel q f σ) :
    apartPact.Kept σ ((evaluator fuel).serve q f σ) :=
  Pact.Kept.mono (alike_inspected fuel h).second fun _ _ _ h => h.1

theorem hosting_apartPact : apartPact.Hosting where
  expr fuel _ _ _ hσ hf := kept_serve fuel (q := .expr _) ⟨hσ, hf, trivial⟩
  later hs hf := Store.Open.later hf hs.toWidens
  requested hσ s hs := Store.Closed.spawned hσ s hs
  event e a σ τ hstep hσ := by
    have hquiet : σ.Quiet σ.Open τ := (Event.quiet_of_happen? e hstep).1
    exact ⟨Store.Apart.quiet hσ hquiet, .of_scopes_eq hquiet.scopes⟩
  running n hσ := ⟨{ Store.Closed.mono (fun _ h => h) hσ with }, .of_scopes_eq rfl⟩
  begun hσ := ⟨{ Store.Closed.mono (fun _ h => h) hσ with spawned := nofun }, .of_scopes_eq rfl⟩
  topLevel fuel program f σ hσ hf := by
    have runs : outside.Runs true .failing outside.Holds f.site σ σ
        (Control.topLevel (evaluator fuel) program) (Control.topLevel (evaluator fuel) program) :=
      (sound_evaluator lawful_outside fuel).runs_topLevel (Ways.le_refl _)
    exact (runs (.begin hσ hf) f rfl).second.mono (fun _ h => h.apart) fun _ _ _ h => h.1.apart
  scope {f g σ} hfg hf := by
    show σ.Open g.scope
    rw [← hfg]
    exact hf
  child {f σ} hσ hf := by
    refine ⟨Store.Apart.newScope hσ fun _ hp => Option.some.inj hp ▸ hf, .addScope, fun g hg => ?_⟩
    show (σ.childScope f.scope).2.Open g.scope
    rw [hg]
    exact Store.open_newScope

/-- No enum has been made yet when a session begins. -/
theorem governs_ofSetup (setup : Setup) : apartPact.Governs (Session.ofSetup setup) := by
  have hstart : (Session.startStore setup).Apart :=
    Store.closed_start fun _ _ => Session.within_registry
  have hroot : (Session.startStore setup).rootScope.2.Apart := hstart.newScope nofun
  have hargs : Value.ListWithin (Session.startStore setup).rootScope.2.Open
      (setup.args.map Value.ofString).toArray.toList := by
    intro v hv
    obtain ⟨text, _, rfl⟩ := List.mem_map.mp hv
    exact Value.within_ofString text
  have hopen : (Session.startStore setup).rootScope.2.Open ⟨0⟩ := Store.open_newScope
  have harray : (Session.startStore setup).rootScope.2.Widens
      ((Session.startStore setup).rootScope.2.newArray
        (setup.args.map Value.ofString).toArray).2 := .of_scopes_eq rfl
  exact ⟨(hroot.quiet (Store.quiet_newArray hargs)).bind trivial,
    hopen.later (harray.trans .bind), nofun⟩

/-- A session that serves a request stays in order, unless that ends with an abort. -/
theorem governs_serve {s : Session} (hs : apartPact.Governs s) {q : Request}
    (hq : q.Within s.store.Open)
    (hkept : ∀ e, (s.exec ((evaluator Session.fuel).serve q)).1 = .error e → e.isAbort = false) :
    apartPact.Governs (s.exec ((evaluator Session.fuel).serve q)).2 := by
  have served := (alike_inspected Session.fuel ⟨hs.inv, hs.fits, hq⟩).second
  obtain ⟨hturned, hfiber⟩ :=
    hosting_apartPact.drive Session.fuel served (fun _ _ _ h => h.1) hs.ready
  refine ⟨hturned.inv, ?_, hturned.ready⟩
  rcases hfiber with hstart | hended
  · exact hosting_apartPact.scope (congrArg Fiber.scope hstart.symm)
      (hosting_apartPact.later hturned.stretch hs.fits)
  · exact hended.2.2 hkept

/-- Enums are read-only.  Making an enum comes to a value whose scope is that of an enum
and holds just the variants.  Assignments and steps whose target turns out to be an
element or a member of an enum fail and write nothing.  Whatever is evaluated where
nothing leads into an enum, from each node to the next, leaves what every enum holds as
it is, and still nothing leads into an enum: no scope that code runs in, none that a
function, a struct, a module or a deferred call holds, and no parent of a scope.  New
sessions are such states, and so are all that programs and forks lead to, and requests
that do not abort, with all of their tasks and however these take turns. -/
theorem enums_are_read_only :
    (∀ (ev : Evaluator) (variants : List (String × Option Expr)) (f g : Fiber) (σ τ : Store)
      (v : Value), (Control.enumOf ev variants f σ).Ends (.ok v) g τ →
      ∃ (s : ScopeId) (members : List (String × Value)),
        v = .enum s (variants.map (·.1)) ∧ (τ.scope s).isEnum = true ∧
        members.map (·.1) = variants.map (·.1) ∧
        ∀ name, τ.getLocal? s name = Assoc.get? members.reverse name) ∧
    (∀ (ev : Evaluator) (op : AssignOp) (target value : Expr) (pos : Position),
      Assign.SparesEnums (Assign.resolve ev target pos) (Assign.assigned ev op value pos)
        (Assign.assign ev op target value pos)) ∧
    (∀ (ev : Evaluator) (op : PostfixOp) (target : Expr) (pos : Position),
      Assign.SparesEnums (Assign.resolve ev target pos) (Assign.steppedAt op pos)
        (Assign.step ev op target pos)) ∧
    (∀ (fuel : Nat) (q : Request) (f : Fiber) (σ : Store), Secluded fuel q f σ →
      ((inspected Secluded fuel).serve q f σ).Alike { apartPact.terms with pauses := True }
        Store.Apart Secluded.Ended σ ((evaluator fuel).serve q f σ)) ∧
    (∀ setup : Setup, apartPact.Governs (Session.ofSetup setup)) ∧
    ∀ s : Session, apartPact.Governs s →
      (∀ (scope : ScopeId) (program : Program), s.store.Open scope →
        apartPact.Governs (s.runIn scope program).2 ∧
          s.store.KeepsEnums (s.runIn scope program).2.store) ∧
      (∀ program : Program, apartPact.Governs (s.fork program).2 ∧
        s.store.KeepsEnums (s.fork program).2.store) ∧
      (∀ q : Request, q.Within s.store.Open →
        apartPact.Turned s.store (s.exec ((evaluator Session.fuel).serve q)).2.tasks
          (s.exec ((evaluator Session.fuel).serve q)).2.store ∧
        ((∀ e, (s.exec ((evaluator Session.fuel).serve q)).1 = .error e → e.isAbort = false) →
          apartPact.Governs (s.exec ((evaluator Session.fuel).serve q)).2)) := by
  refine ⟨fun _ _ _ _ _ _ _ => Control.enumOf_ok, fun _ _ _ _ _ => Assign.sparesEnums_assign _ _ _,
    fun _ _ _ _ => Assign.sparesEnums_step _ _, fun fuel _ _ _ => alike_inspected fuel,
    governs_ofSetup, fun s hs => ⟨?_, ?_, ?_⟩⟩
  · intro scope program hscope
    exact hosting_apartPact.runIn hs hscope program
  · intro program
    exact hosting_apartPact.fork hs program
  · intro q hq
    exact ⟨hosting_apartPact.exec hs.ready (kept_serve Session.fuel ⟨hs.inv, hs.fits, hq⟩),
      governs_serve hs hq⟩

/-- `let E = enum { A, B = 5 }` -/
def enumProgram : Program :=
  [⟨.unknown, .bind ["E"] [.bare (.enum [("A", none), ("B", some (.bare (.int 5)))])]⟩]

/-- `E.A = 9` -/
def memberProgram : Program :=
  [⟨.unknown, .expr (.bare (.assign .plain (.bare (.member (.bare (.ident "E")) "A"))
    (.bare (.int 9))))⟩]

/-- After `let E = enum { A, B = 5 }`. -/
def enumSession : Session := ((Session.ofSetup {}).run enumProgram).2

theorem enums_are_read_only_member :
    (enumSession.store.scope ⟨1⟩).isEnum = true ∧
    enumSession.store.getLocal? ⟨1⟩ "A" = some (.ofInt 0) ∧
    enumSession.store.getLocal? ⟨1⟩ "B" = some (.ofInt 5) ∧
    enumSession.store.Apart ∧
    (enumSession.run memberProgram).1 = .error (.error ⟨.enumAssign "A", .unknown⟩) ∧
    (enumSession.run memberProgram).2.store.scope ⟨1⟩ = enumSession.store.scope ⟨1⟩ ∧
    (enumSession.run memberProgram).2.store.Apart := by
  obtain ⟨_, _, _, _, hsetup, hgoverned⟩ := enums_are_read_only
  have hbegun : apartPact.Governs enumSession :=
    ((hgoverned _ (hsetup {})).1 _ enumProgram (hsetup {}).fits).1
  have hrun := (hgoverned _ hbegun).1 _ memberProgram hbegun.fits
  have hscope : (enumSession.store.scope ⟨1⟩).isEnum = true := rfl
  exact ⟨hscope, rfl, rfl, hbegun.inv, rfl, hrun.2.kept _ hscope, hrun.1.inv⟩

end TreeWalk
