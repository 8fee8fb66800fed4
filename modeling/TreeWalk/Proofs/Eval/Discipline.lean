/-
Disciplines.

A discipline says what evaluations may make of a store, and is kept by each
single change that the evaluator makes.  From the laws below follows, once for
all disciplines, that whole evaluations keep to it.

`fit binds here σ₀ σ` says that an evaluation at `here` that began with `σ₀` may
have come to `σ`; with `binds` it may have bound names in its own scope.  Stores
are compared with the one at the beginning, not with the one just before a
change: the calls that are put off on a frame may be taken from it only by the
call that made the frame, and names may be bound from outside only in scopes that
are new.  What becomes of the store in one stretch is told apart, because other
tasks have their turns between two stretches.

Which calls may be put off can depend on the calls under way.  The ways of a tree tell
what the tree puts off, so only trees whose ways are admitted are evaluated; most
disciplines admit everything.
-/
import TreeWalk.Eval.Control
import TreeWalk.Proofs.Atomic.Sound
import TreeWalk.Proofs.Eval.Alike
import TreeWalk.Proofs.Store.Growth
import TreeWalk.Proofs.Syntax.Escape

namespace TreeWalk

/-- Where a task is: its scope, the calls under way, and where its text goes. -/
structure Site where
  scope : ScopeId
  stack : CallStack
  sink : Sink

namespace Site

/-- Where the unit is evaluated whose scope is made next in a store: with no calls, and
in silence. -/
def unit (here : Site) (σ : Store) : Site := ⟨⟨σ.scopes.size⟩, .empty here.stack.limit, .discard⟩

end Site

namespace Fiber

def site (f : Fiber) : Site := ⟨f.scope, f.stack, f.sink⟩

end Fiber

namespace Exit

/-- A value on its way out of a function is within. -/
def Within (p : Reach) : Exit → Prop
  | ret v => v.Within p
  | _ => True

theorem Within.mono {p q : ScopeId → Prop} (h : ∀ s, p s → q s) {e : Exit} (he : e.Within p) :
    e.Within q := by
  cases e with
  | ret v => exact Value.Within.mono h v he
  | _ => trivial

theorem IsFailure.within {p : Reach} {e : Exit} (h : e.IsFailure) : e.Within p := by
  cases e with
  | ret v => exact h.elim
  | _ => trivial

end Exit

structure Discipline where
  /-- What tasks may find when they go on after waiting. -/
  resumes : Resumption
  /-- What tasks may make of the store in one stretch, by where their text goes. -/
  stretch : Sink → Stretch := fun _ => .free
  /-- The first of two evaluations may wait a turn where the second does not. -/
  pauses : Prop := False
  /-- The calls that may be put off by a task with these calls under way. -/
  puts : CallStack → Expr → Prop := fun _ _ => True
  /-- The scopes that code may run in, in a store with these scopes. -/
  home : Array Scope → ScopeId → Prop
  fit : Bool → Site → Store → Store → Prop
  /-- A call that was put off may be evaluated at a site, by an evaluation there
  that began with the first store and has come to the second. -/
  pending : Site → Store → Store → Deferred → Prop

namespace Discipline

/-- The scopes of a store that code may run in. -/
def At (D : Discipline) (σ : Store) : ScopeId → Prop := D.home σ.scopes

def terms (D : Discipline) (sink : Sink) : Terms := ⟨D.resumes, D.stretch sink, D.pauses⟩

/-- What the ways `w` let be put off may be put off with these calls under way. -/
class Admits (D : Discipline) (stack : CallStack) (w : Ways) : Prop where
  puts : ∀ call, w.puts call → D.puts stack call

instance {D : Discipline} {stack : CallStack} : D.Admits stack .failing := ⟨fun _ h => h.elim⟩

/-- Code may still run wherever it might. -/
def Later (D : Discipline) (σ σ' : Store) : Prop := ∀ s, D.At σ s → D.At σ' s

/-- A single change that nobody hears of is a stretch, whatever the task prints to and
where it is. -/
structure Still (At : Store → ScopeId → Prop) (stretch : Sink → Stretch) : Prop where
  same : ∀ {sink} {σ σ' : Store}, σ'.scopes = σ.scopes → σ'.outward = σ.outward →
    stretch sink σ σ'
  bind : ∀ {sink} {σ : Store} {s name v}, At σ s → stretch sink σ (σ.bind s name v)
  scope : ∀ {sink} {σ : Store} {scope}, stretch sink σ (σ.addScope scope).2

/-- Any single change is a stretch. -/
structure Tells (At : Store → ScopeId → Prop) (stretch : Sink → Stretch) : Prop
    extends Still At stretch where
  print : ∀ {sink} {σ : Store} {text}, stretch sink σ (σ.print sink text)
  spawn : ∀ {σ} {f : Fiber} {call}, stretch f.sink σ (Control.requestTask f call σ)
  /-- What may be done in silence may be done by everyone. -/
  silent : ∀ {sink σ σ'}, stretch .discard σ σ' → stretch sink σ σ'

theorem tells_free {At : Store → ScopeId → Prop} : Tells At fun _ => .free :=
  ⟨⟨fun _ _ => trivial, fun _ => trivial, trivial⟩, trivial, trivial, fun _ => trivial⟩

/-- Every change that the evaluator makes leads to a store that fits, and those that
nobody hears of are stretches. -/
structure Steady (D : Discipline) : Prop where
  still : Still D.At D.stretch
  later : ∀ {σ σ'}, σ.Widens σ' → D.Later σ σ'
  home_new : ∀ {σ : Store} {p? frame}, D.At (σ.newScope p? frame).2 ⟨σ.scopes.size⟩
  weaken : ∀ {here σ₀ σ}, D.fit false here σ₀ σ → D.fit true here σ₀ σ
  /-- Whatever has come about so far can be taken for the beginning. -/
  restart : ∀ {b here σ₀ σ}, D.fit b here σ₀ σ → D.fit false here σ σ
  trans : ∀ {b here σ₀ σ σ'}, D.fit b here σ₀ σ → D.fit b here σ σ' → D.fit b here σ₀ σ'
  closed : ∀ {b here σ₀ σ}, D.fit b here σ₀ σ → σ.Closed (D.At σ)
  inside : ∀ {b here σ₀ σ}, D.fit b here σ₀ σ → D.At σ here.scope
  quiet : ∀ {b here σ₀ σ σ'}, D.fit b here σ₀ σ → σ.Quiet (D.At σ) σ' → D.fit b here σ₀ σ'
  /-- A task goes on after waiting. -/
  resume : ∀ {b here σ₀ σ σ' e a}, D.fit b here σ₀ σ → D.resumes e σ a σ' →
    D.fit b here σ₀ σ' ∧ D.Later σ σ' ∧ e.AnswerWithin (D.At σ') a
  /-- A name is bound in the scope of the site. -/
  bind : ∀ {here σ₀ σ name v}, D.fit true here σ₀ σ → v.Within (D.At σ) →
    D.fit true here σ₀ (σ.bind here.scope name v)
  /-- A name that a scope binds is given another value. -/
  rebind : ∀ {b here σ₀ σ s name v}, D.fit b here σ₀ σ → D.At σ s →
    (σ.scope s).bindings.contains name = true → v.Within (D.At σ) →
    D.fit b here σ₀ (σ.bind s name v)
  /-- A text is printed where the text of the task goes. -/
  print : ∀ {b here σ₀ σ text}, D.fit b here σ₀ σ → D.fit b here σ₀ (σ.print here.sink text)
  /-- The scope of an enum is made inside of the one of the site. -/
  enum : ∀ {b here σ₀ σ members}, D.fit b here σ₀ σ →
    (∀ member ∈ members, member.2.Within (D.At σ)) →
    D.fit b here σ₀ (σ.newEnum here.scope members).2
  /-- Into a new scope inside of the one of the site, and back. -/
  enter_child : ∀ {b here σ₀ σ}, D.fit b here σ₀ σ →
    D.fit true { here with scope := ⟨σ.scopes.size⟩ } σ (σ.childScope here.scope).2
  leave_child : ∀ {b here σ₀ σ σ'}, D.fit b here σ₀ σ →
    D.fit true { here with scope := ⟨σ.scopes.size⟩ } σ σ' → D.fit b here σ₀ σ'
  /-- Into a unit, and back. -/
  enter_unit : ∀ {b here σ₀ σ}, D.fit b here σ₀ σ → D.fit true (here.unit σ) σ σ.rootScope.2
  leave_unit : ∀ {b here σ₀ σ σ'}, D.fit b here σ₀ σ → D.fit true (here.unit σ) σ σ' →
    D.fit b here σ₀ σ'
  /-- Any call may be put off where none is under way. -/
  puts_unit : ∀ {limit call}, D.puts (.empty limit) call := by exact trivial
  /-- A frame is made. -/
  frame : ∀ {b here σ₀ σ name pos}, D.fit b here σ₀ σ → D.fit b here σ₀ (σ.newFrame name pos).2
  /-- Into the body of a function made in the scope `parent`, and back. -/
  enter_call : ∀ {b here σ₀ σ name pos parent stack}, D.fit b here σ₀ σ → D.At σ parent →
    here.stack.push? (σ.newFrame name pos).1 = some stack →
    D.fit true { here with scope := ⟨σ.scopes.size⟩, stack := stack } σ
      ((σ.newFrame name pos).2.activation parent (σ.newFrame name pos).1).2
  leave_call : ∀ {b here σ₀ σ σ' name pos stack}, D.fit b here σ₀ σ →
    here.stack.push? (σ.newFrame name pos).1 = some stack →
    D.fit true { here with scope := ⟨σ.scopes.size⟩, stack := stack } σ σ' → D.fit b here σ₀ σ'
  /-- Any call may be put off by a call that has just been made. -/
  puts_call : ∀ {b here σ₀ σ name pos stack call}, D.fit b here σ₀ σ →
    here.stack.push? (σ.newFrame name pos).1 = some stack → D.puts stack call := by
      intros; exact trivial
  /-- The calls put off on a frame that was not there at the beginning are
  taken. -/
  take : ∀ {here σ₀ σ frame}, D.fit true here σ₀ σ → σ₀.deferred.size ≤ frame.index →
    D.fit true here σ₀ (σ.takeDeferred frame).2
  pending_take : ∀ {here σ₀ σ frame d}, D.fit true here σ₀ σ → σ₀.deferred.size ≤ frame.index →
    here.stack.top?.map Frame.id = some frame → d ∈ σ.deferredOf frame →
    D.pending here σ₀ (σ.takeDeferred frame).2 d
  pending_later : ∀ {here there σ₀ σ σ' d}, D.pending here σ₀ σ d → D.fit true there σ σ' →
    D.pending here σ₀ σ' d
  /-- Into the scope of a call that was put off, and back. -/
  enter_turn : ∀ {here σ₀ σ d}, D.fit true here σ₀ σ → D.pending here σ₀ σ d →
    D.fit true { here with scope := d.scope } σ σ
  leave_turn : ∀ {here σ₀ σ σ' d}, D.fit true here σ₀ σ → D.pending here σ₀ σ d →
    D.fit true { here with scope := d.scope } σ σ' → D.fit true here σ₀ σ'
  /-- A call is put off. -/
  defer : ∀ {b here σ₀ σ frame call}, D.fit b here σ₀ σ → σ.frame? here.scope = some frame →
    D.puts here.stack call → D.fit b here σ₀ (σ.defer frame.id ⟨call, here.scope⟩)
  /-- A task is asked for. -/
  spawn : ∀ {b σ₀ σ} {f : Fiber} {call}, D.fit b f.site σ₀ σ →
    D.fit b f.site σ₀ (Control.requestTask f call σ)

/-- Every change that the evaluator makes keeps to the discipline. -/
structure Lawful (D : Discipline) : Prop extends D.Steady where
  tells : Tells D.At D.stretch
  still := tells.toStill

/-- The discipline of a task that nothing is heard of, whatever it prints to. -/
def hushed (D : Discipline) : Discipline := { D with stretch := fun _ => D.stretch .discard }

variable {D : Discipline} {σ σ' σ'' : Store}

instance {stack : CallStack} {w : Ways} [h : D.Admits stack w] : D.hushed.Admits stack w := ⟨h.puts⟩

theorem Lawful.hushed (hD : D.Lawful) : D.hushed.Steady :=
  { hD.toSteady with still := ⟨hD.tells.same, hD.tells.bind, hD.tells.scope⟩ }

namespace Later

theorem refl (σ : Store) : D.Later σ σ := fun _ h => h

theorem trans (h : D.Later σ σ') (h' : D.Later σ' σ'') : D.Later σ σ'' := fun s hs => h' s (h s hs)

theorem of_scopes_eq (h : σ'.scopes = σ.scopes) : D.Later σ σ' := by
  intro s hs
  unfold At at hs ⊢
  rwa [h]

theorem value {v : Value} (h : D.Later σ σ') (hv : v.Within (D.At σ)) : v.Within (D.At σ') :=
  Value.Within.mono h v hv

theorem values {vs : List Value} (h : D.Later σ σ') (hvs : Value.ListWithin (D.At σ) vs) :
    Value.ListWithin (D.At σ') vs := hvs.mono h

end Later

/-- What a task finds that waits while no other task runs. -/
theorem quiet_of_alone {e : Event} {a : e.Answer} (hc : σ.Closed (D.At σ))
    (h : Resumption.alone e σ a σ') :
    σ.Quiet (D.At σ) σ' ∧ D.Later σ σ' ∧ e.AnswerWithin (D.At σ') a := by
  have hstep : e.happen? σ = some (a, σ') := h
  obtain ⟨hquiet, hanswer⟩ := Event.quiet_of_happen? e hstep
  refine ⟨hquiet, .of_scopes_eq hquiet.scopes, ?_⟩
  unfold At
  rw [hquiet.scopes]
  exact hanswer hc

end Discipline
end TreeWalk
