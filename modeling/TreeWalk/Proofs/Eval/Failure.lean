/-
Calls that fail and leave nothing behind.

A built-in operation is run in place, so a change that it makes before it fails would be
seen.  There is none: all checks come first.  Only a send can wait and fail afterwards.
It has made an offer by then, and takes the offer back in the turn in which it fails;
what others do to the store meanwhile stays.
-/
import TreeWalk.Eval.Node
import TreeWalk.Proofs.Atomic.InPlace
import TreeWalk.Proofs.Method.Table
import TreeWalk.Proofs.Sync.Closing

namespace TreeWalk

open Eval

/-! ## Turns -/

namespace Step

/-- What a task makes of the store turn by turn until it ends: each turn leads from one
store to another.  While the task waits, others may do anything to the store, so the
next turn starts with any store that allows what the task waits for. -/
inductive Turns {α : Type} : Store → Step α → List (Store × Store) → Except Exit α → Fiber → Prop
  | done {σ τ r f} : Turns σ (.done r f τ) [(σ, τ)] r f
  | wait {σ τ υ υ' e a k turns r f} (h : e.happen? υ = some (a, υ'))
      (rest : Turns υ (k a υ') turns r f) : Turns σ (.wait e τ k) ((σ, τ) :: turns) r f

variable {α : Type} {r r' : Except Exit α} {f g : Fiber} {σ τ : Store}
  {turns : List (Store × Store)}

theorem Turns.of_done (h : (Step.done r f τ).Turns σ turns r' g) :
    turns = [(σ, τ)] ∧ r' = r ∧ g = f := by
  cases h
  exact ⟨rfl, rfl, rfl⟩

theorem not_turns_ok {a : α} {e : Exit} :
    ¬ (Step.done (.ok a) f τ).Turns σ turns (.error e) g := by
  intro h
  cases h

end Step

/-- A task that fails in the turn in which it begins leaves the store as it was, if what
it does in place it does all or nothing. -/
theorem Eval.InPlace.turns {α : Type} {x : Eval α} {a : Atomic α} {f g : Fiber} {σ : Store}
    {turns : List (Store × Store)} {e : Exit} (h : InPlace x a)
    (hturns : (x f σ).Turns σ turns (.error e) g) : turns = [(σ, σ)] ∧ g = f := by
  rw [h, lift] at hturns
  split at hturns
  · exact absurd hturns Step.not_turns_ok
  · exact ⟨hturns.of_done.1, hturns.of_done.2.2⟩

/-- A task that checks first has failed at once, or goes on with the store as it was. -/
theorem Eval.Checks.turns {α β : Type} {x : Eval α} {a : Atomic α} {k : α → Eval β} {f g : Fiber}
    {σ : Store} {turns : List (Store × Store)} {e : Exit} (h : Checks x a)
    (hturns : ((lift a >>= k) f σ).Turns σ turns (.error e) g) :
    turns = [(σ, σ)] ∧ g = f ∨ ∃ v, (k v f σ).Turns σ turns (.error e) g := by
  rw [bind_apply, lift] at hturns
  split at hturns
  · next v τ heq =>
    obtain rfl := h.steady heq
    exact .inr ⟨v, hturns⟩
  · exact .inl ⟨hturns.of_done.1, hturns.of_done.2.2⟩

/-! ## Operations -/

/-- A method of a table that neither waits nor calls a script, with its receiver. -/
inductive Operation where
  | int (n : Nullable Int64) (m : IntMethod)
  | float (x : Nullable Double) (m : FloatMethod)
  | string (s : Nullable String) (m : StringMethod)
  | bool (b : Truth) (m : BoolMethod)
  | nil (reason : Option String) (m : NilMethod)
  | array (id : ArrayId) (m : ArrayAction)
  | tuple (items : List Value) (multi : Bool) (m : TupleMethod)
  | range (r : Range) (m : RangeMethod)
  | hash (id : HashId) (m : HashAction)

namespace Operation

/-- The operation that a name stands for. -/
def find? (v : Value) (name : String) : Option Operation :=
  match v with
  | .int n => (MethodTable.find? name).map (int n)
  | .float x => (MethodTable.find? name).map (float x)
  | .str s => (MethodTable.find? name).map (string s)
  | .bool b => (MethodTable.find? name).map (bool b)
  | .nil reason => (MethodTable.find? name).map (nil reason)
  | .array id =>
    match MethodTable.find? name with
    | some (ArrayMethod.act m) => some (array id m)
    | _ => none
  | .tuple items multi => (MethodTable.find? name).map (tuple items multi)
  | .range r => (MethodTable.find? name).map (range r)
  | .hash id =>
    match MethodTable.find? name with
    | some (HashMethod.act m) => some (hash id m)
    | _ => none
  | _ => none

def run {M : Type → Type} [Monad M] [Effects M] (o : Operation) (args : Args) : M Value :=
  match o with
  | int n m => IntMethod.run n m args
  | float x m => FloatMethod.run x m args
  | string s m => StringMethod.run s m args
  | bool b m => BoolMethod.run b m args
  | nil reason m => NilMethod.run reason m args
  | array id m => ArrayAction.run id m args
  | tuple items multi m => TupleMethod.run items multi m args
  | range r m => RangeMethod.run r m args
  | hash id m => HashAction.run id m args

theorem inPlace_run {o : Operation} {args : Args} : InPlace (o.run args) (o.run args) := by
  cases o with
  | int n m => exact IntMethod.checks_run.inPlace
  | float x m => exact FloatMethod.checks_run.inPlace
  | string s m => exact StringMethod.inPlace_run
  | bool b m => exact BoolMethod.checks_run.inPlace
  | nil reason m => exact NilMethod.checks_run.inPlace
  | array id m => exact ArrayAction.inPlace_run
  | tuple items multi m => exact TupleMethod.inPlace_run
  | range r m => exact RangeMethod.inPlace_run
  | hash id m => exact HashAction.inPlace_run

end Operation

/-! ## Methods -/

namespace Value

/-- Values whose methods are those of a table of the language.  They are not functions,
have no members, and are not made by the host. -/
def isPlain : Value → Bool
  | function _ => false
  | native _ => false
  | struct _ _ => false
  | enum _ _ => false
  | module _ => false
  | object _ => false
  | _ => true

end Value

namespace Method

/-- The names of the methods that call a function for every element. -/
def callbackNames : List String := ["map", "filter", "reduce", "each"]

variable {ev : Evaluator} {v : Value} {name : String} {values : List Value} {f g : Fiber}
  {σ : Store} {e : Exit} {turns : List (Store × Store)}

section Table

variable {μ : Type} [MethodTable μ] {m : μ} {kind : String} {pos : Position} {run : μ → Eval Value}

theorem dispatch_some (h : MethodTable.find? name = some m) :
    Object.dispatch kind ⟨name, values, pos⟩ run = run m := by
  rw [Object.dispatch, h]

theorem dispatch_none (h : (MethodTable.find? name : Option μ) = none) :
    Object.dispatch kind ⟨name, values, pos⟩ run =
      Object.failMethod (MethodTable.names μ) kind ⟨name, values, pos⟩ := by
  rw [Object.dispatch, h]

end Table

/-- A method that is an operation is that operation, run in place. -/
theorem call_eq_run {o : Operation} (h : Operation.find? v name = some o) :
    Method.call ev v name values f σ = (o.run ⟨name, values, f.pos⟩ : Eval Value) f σ := by
  rw [Operation.inPlace_run]
  cases v with
  | int n | float x | str s | bool b | nil reason | tuple items multi | range r =>
    obtain ⟨m, hm, rfl⟩ := Option.map_eq_some_iff.mp h
    exact congrFun (congrFun (dispatch_some hm) f) σ
  | array id | hash id =>
    simp only [Operation.find?] at h
    split at h
    · next m hm =>
      cases h
      exact congrFun (congrFun (dispatch_some hm) f) σ
    · cases h
  | _ => cases h

/-- A name that stands for no operation stands for nothing. -/
theorem call_eq_fail (hv : v.isPlain = true) (hchannel : ∀ id, v ≠ .channel id)
    (hname : name ∉ callbackNames) (h : Operation.find? v name = none) :
    ∃ cause, Method.call ev v name values f σ = .done (.error (.error ⟨cause, f.pos⟩)) f σ := by
  cases v with
  | int n | float x | str s | bool b | nil reason | tuple items multi | range r =>
    exact ⟨_, congrFun (congrFun (dispatch_none (Option.map_eq_none_iff.mp h)) f) σ⟩
  | array id =>
    cases hm : (MethodTable.find? name : Option ArrayMethod) with
    | none => exact ⟨_, congrFun (congrFun (dispatch_none hm) f) σ⟩
    | some m =>
      cases m with
      | act m => simp [Operation.find?, hm] at h
      | visit m => exact absurd (ArrayMethod.visit_names hm) hname
  | hash id =>
    cases hm : (MethodTable.find? name : Option HashMethod) with
    | none => exact ⟨_, congrFun (congrFun (dispatch_none hm) f) σ⟩
    | some m =>
      cases m with
      | act m => simp [Operation.find?, hm] at h
      | visit m => exact absurd (HashMethod.visit_names hm) hname
  | channel id => exact absurd rfl (hchannel id)
  | _ => cases hv

end Method

/-! ## Channels -/

/-- An offer taken back. -/
def Store.withdraw (σ : Store) (id : ChannelId) (ticket : Nat) : Store :=
  σ.setChannel id ((σ.channel id).dropOffer ticket)

/-- The turns of a task that makes an offer on a channel and takes it back, all at once or
after it has waited. -/
inductive TakenBack (id : ChannelId) (σ : Store) : List (Store × Store) → Prop
  | atOnce {v t c} (h : (σ.channel id).offer? v = some (t, c)) :
      TakenBack id σ [(σ, (σ.setChannel id c).withdraw id t)]
  | later {v t c υ} (h : (σ.channel id).offer? v = some (t, c)) :
      TakenBack id σ [(σ, σ.setChannel id c), (υ, υ.withdraw id t)]

namespace Channel

variable {c c' : Channel} {t : Nat} {v : Value}

theorem settle?_eq_false (h : c.settle? t = some (false, c')) : c' = c.dropOffer t := by
  unfold settle? at h
  split at h
  · cases h
  · split at h
    · cases h
    · obtain ⟨d, hd, heq⟩ := Option.map_eq_some_iff.mp h
      cases heq
      exact (withdraw?_eq_some hd).2

/-- An offer that nobody else has made is gone without a trace when it is taken back, but
for the ticket that the next one gets. -/
theorem dropOffer_of_offer? (hfresh : ∀ o ∈ c.offers, o.1 < c.nextTicket)
    (h : c.offer? v = some (t, c')) : c'.dropOffer t = { c with nextTicket := t + 1 } := by
  unfold offer? at h
  split at h
  · cases h
  · obtain ⟨rfl, rfl⟩ := Prod.mk.inj (Option.some.inj h)
    have hkept : c.offers.filter (·.1 ≠ c.nextTicket) = c.offers :=
      List.filter_eq_self.mpr fun o ho => decide_eq_true (Nat.ne_of_lt (hfresh o ho))
    simp only [dropOffer, List.filter_append, hkept]
    simp

/-- Pending offers have been made, so they have earlier tickets than the next one. -/
theorem Ledger.pending_fresh {capacity : Nat} {acts : List Act} (h : Ledger capacity acts c) :
    ∀ o ∈ c.offers, o.1 < c.nextTicket := by
  intro o ho
  apply h.fresh
  exact h.settled.mem_iff.mpr (List.mem_append_right _ ho)

end Channel

namespace Object

variable {id : ChannelId} {v : Value} {pos : Position} {f g : Fiber} {σ : Store} {e : Exit}
  {turns : List (Store × Store)}

/-- What a sender does once its offer is settled. -/
def conclude (pos : Position) (accepted : Bool) : Eval Value :=
  if accepted then return .nothing else fail .channelClosed pos

theorem conclude_apply {accepted : Bool} : conclude pos accepted f σ =
    .done (if accepted then .ok .nothing else .error (.error ⟨.channelClosed, pos⟩)) f σ := by
  cases accepted <;> rfl

theorem send_closed (h : (σ.channel id).offer? v = none) :
    (send id v >>= conclude pos) f σ = .done (.error (.error ⟨.channelClosed, pos⟩)) f σ := by
  rw [bind_apply, send, bind_apply, offer, change]
  simp only [h]
  rfl

theorem send_offered {t : Nat} {c : Channel} (h : (σ.channel id).offer? v = some (t, c)) :
    (send id v >>= conclude pos) f σ =
      (await (.settled id t) f (σ.setChannel id c)).andThen (follow (conclude pos)) := by
  rw [bind_apply, send, bind_apply, offer, change]
  simp only [h]
  rfl

/-- Once its offer is settled, a sender fails only if it has taken the offer back. -/
theorem conclude_turns {t : Nat} {accepted : Bool} {υ υ' : Store}
    (hsettled : (Event.settled id t).happen? υ = some (accepted, υ'))
    (h : (conclude pos accepted f υ').Turns σ turns (.error e) g) :
    turns = [(σ, υ.withdraw id t)] ∧ g = f := by
  obtain ⟨⟨b, c⟩, hc, heq⟩ := Option.map_eq_some_iff.mp hsettled
  obtain ⟨rfl, rfl⟩ := Prod.mk.inj heq
  rw [conclude_apply] at h
  obtain ⟨hturns, hend, hg⟩ := h.of_done
  cases b with
  | true => cases hend
  | false =>
    rw [Channel.settle?_eq_false hc] at hturns
    exact ⟨hturns, hg⟩

/-- A send that fails has changed nothing, or takes back what it has offered. -/
theorem send_turns (h : ((send id v >>= conclude pos) f σ).Turns σ turns (.error e) g) :
    g = f ∧ (turns = [(σ, σ)] ∨ TakenBack id σ turns) := by
  cases ho : (σ.channel id).offer? v with
  | none =>
    rw [send_closed ho] at h
    exact ⟨h.of_done.2.2, .inl h.of_done.1⟩
  | some r =>
    obtain ⟨t, c⟩ := r
    rw [send_offered ho, await] at h
    cases hsettled : (Event.settled id t).happen? (σ.setChannel id c) with
    | some r =>
      obtain ⟨accepted, υ'⟩ := r
      rw [hsettled] at h
      obtain ⟨rfl, hg⟩ := conclude_turns hsettled h
      exact ⟨hg, .inr (.atOnce ho)⟩
    | none =>
      rw [hsettled] at h
      cases h with
      | wait hlater rest =>
        obtain ⟨rfl, hg⟩ := conclude_turns hlater rest
        exact ⟨hg, .inr (.later ho)⟩

/-- Receiving cannot fail, however long it waits. -/
theorem receive_turns :
    ¬ ((do return (← await (.received id)).getD .nothing : Eval Value) f σ).Turns
      σ turns (.error e) g := by
  intro h
  rw [bind_apply, await] at h
  split at h
  · exact Step.not_turns_ok h
  · cases h with
    | wait _ rest => exact Step.not_turns_ok rest

/-- What a failing method of a channel has done. -/
theorem onChannel_turns {m : ChannelMethod} {args : Args}
    (h : ((onChannel id m args) f σ).Turns σ turns (.error e) g) :
    g = f ∧ (turns = [(σ, σ)] ∨ m = .send ∧ TakenBack id σ turns) := by
  cases m with
  | send =>
    obtain ⟨hturns, hg⟩ | ⟨v, hsend⟩ := Args.checks_one.turns h
    · exact ⟨hg, .inl hturns⟩
    · obtain ⟨hg, hturns⟩ := send_turns hsend
      exact ⟨hg, hturns.imp_right (.intro rfl)⟩
  | recv =>
    obtain ⟨hturns, hg⟩ | ⟨_, hrecv⟩ := Args.checks_empty.turns h
    · exact ⟨hg, .inl hturns⟩
    · exact absurd hrecv receive_turns
  | close =>
    obtain ⟨hturns, hg⟩ | ⟨_, hclose⟩ := Args.checks_empty.turns h
    · exact ⟨hg, .inl hturns⟩
    · exact absurd hclose Step.not_turns_ok

end Object

/-! ## Failing calls -/

namespace Operation

variable {ev : Evaluator} {v : Value} {name : String} {values : List Value} {f g : Fiber}
  {σ : Store} {e : Exit} {turns : List (Store × Store)}

/-- A method that fails on a value other than a channel has changed nothing. -/
theorem call_turns (hv : v.isPlain = true) (hchannel : ∀ id, v ≠ .channel id)
    (hname : name ∉ Method.callbackNames)
    (h : (Method.call ev v name values f σ).Turns σ turns (.error e) g) :
    turns = [(σ, σ)] ∧ g = f := by
  cases ho : find? v name with
  | some o =>
    rw [Method.call_eq_run ho] at h
    exact inPlace_run.turns h
  | none =>
    obtain ⟨cause, hfail⟩ : ∃ cause, Method.call ev v name values f σ =
        .done (.error (.error ⟨cause, f.pos⟩)) f σ := Method.call_eq_fail hv hchannel hname ho
    rw [hfail] at h
    exact ⟨h.of_done.1, h.of_done.2.2⟩

theorem call_channel_turns {id : ChannelId}
    (h : (Method.call ev (.channel id) name values f σ).Turns σ turns (.error e) g) :
    g = f ∧ (turns = [(σ, σ)] ∨ name = "send" ∧ TakenBack id σ turns) := by
  change (Object.dispatch (Value.channel id).kind ⟨name, values, f.pos⟩
    (Object.onChannel id · ⟨name, values, f.pos⟩) f σ).Turns σ turns (.error e) g at h
  cases hm : (MethodTable.find? name : Option ChannelMethod) with
  | none =>
    rw [Method.dispatch_none hm] at h
    exact ⟨h.of_done.2.2, .inl h.of_done.1⟩
  | some m =>
    rw [Method.dispatch_some hm] at h
    obtain ⟨hg, hturns⟩ := Object.onChannel_turns h
    exact ⟨hg, hturns.imp_right fun ⟨hsend, htaken⟩ =>
      ⟨ChannelMethod.eq_send (hsend ▸ hm), htaken⟩⟩

theorem callNative_apply {n : Native} {pos : Position} :
    Call.callNative n values pos f σ = (n.perform values (pos.orElse f.pos) f.sink : Eval Value)
      { f with pos := pos.orElse f.pos } σ := by
  rw [Native.inPlace_perform]
  rfl

/-- Methods of tables and functions of the language run in place, so what they have
changed when they fail stays.  They have changed nothing: a call that fails does so in the
turn in which it begins and leaves the store as it was.  Only a send can fail after it has
made an offer, and takes the offer back in the turn in which it fails.  That leaves nothing
of the offer but its ticket, which no other offer gets. -/
theorem failing_call_changes_nothing (ev : Evaluator) :
    (∀ v name values o f σ, find? v name = some o →
      Method.call ev v name values f σ = (o.run ⟨name, values, f.pos⟩ : Eval Value) f σ) ∧
    (∀ v name values f σ turns e g, v.isPlain = true → name ∉ Method.callbackNames →
      (Method.call ev v name values f σ).Turns σ turns (.error e) g →
      g = f ∧ (turns = [(σ, σ)] ∨
        ∃ id, v = .channel id ∧ name = "send" ∧ TakenBack id σ turns)) ∧
    (∀ capacity acts c v t c', Channel.Run (.ofCapacity capacity) acts c →
      c.offer? v = some (t, c') → c'.dropOffer t = { c with nextTicket := t + 1 }) ∧
    (∀ (n : Native) values pos f σ, Call.callNative n values pos f σ =
      (n.perform values (pos.orElse f.pos) f.sink : Eval Value)
        { f with pos := pos.orElse f.pos } σ) ∧
    ∀ n values pos f σ turns e g,
      (Call.callNative n values pos f σ).Turns σ turns (.error e) g →
      g = { f with pos := pos.orElse f.pos } ∧ turns = [(σ, σ)] := by
  refine ⟨fun v name values o f σ h => Method.call_eq_run h, ?_, ?_,
    fun n values pos f σ => callNative_apply, ?_⟩
  · intro v name values f σ turns e g hv hname h
    by_cases hchannel : ∃ id, v = .channel id
    · obtain ⟨id, rfl⟩ := hchannel
      obtain ⟨hg, hturns⟩ := call_channel_turns h
      exact ⟨hg, hturns.imp_right fun hsend => ⟨id, rfl, hsend⟩⟩
    · obtain ⟨hturns, hg⟩ := call_turns hv (fun id heq => hchannel ⟨id, heq⟩) hname h
      exact ⟨hg, .inl hturns⟩
  · intro capacity acts c v t c' hrun hoffer
    exact Channel.dropOffer_of_offer? hrun.ledger.pending_fresh hoffer
  · intro n values pos f σ turns e g h
    rw [callNative_apply] at h
    obtain ⟨hturns, hg⟩ := Native.inPlace_perform.turns h
    exact ⟨hg, hturns⟩

/-- A key that cannot be hashed, a format that is no text, and a send to a channel that is
closed while the sender waits. -/
theorem failing_call_changes_nothing_while_others_close :
    let σ : Store := ((default : Store).newChannel 0).2
    (∃ turns e, (Method.call (evaluator 1) (.hash ⟨0⟩) "set" [.array ⟨0⟩, .nothing] default
      σ).Turns σ turns (.error e) default ∧ turns = [(σ, σ)]) ∧
    (∃ turns e, (Call.callNative .printf [.nothing] default default σ).Turns σ turns (.error e)
      default ∧ turns = [(σ, σ)]) ∧
    ∃ turns e, (Method.call (evaluator 1) (.channel ⟨0⟩) "send" [.nothing] default σ).Turns σ
      turns (.error e) default ∧ turns.length = 2 ∧ TakenBack ⟨0⟩ σ turns := by
  intro σ
  let closed : Channel := ⟨0, [], [(0, .nothing)], true, true, 1⟩
  obtain ⟨-, hmethod, -, -, hnative⟩ := failing_call_changes_nothing (evaluator 1)
  have hset : (Method.call (evaluator 1) (.hash ⟨0⟩) "set" [.array ⟨0⟩, .nothing] default
      σ).Turns σ _ (.error _) default := .done
  have hprint : (Call.callNative .printf [.nothing] default default σ).Turns σ _ (.error _)
      default := .done
  have hsend : (Method.call (evaluator 1) (.channel ⟨0⟩) "send" [.nothing] default σ).Turns σ
      _ (.error _) default :=
    .wait (a := false) (show Event.happen? _ (σ.setChannel ⟨0⟩ closed) = _ from rfl) .done
  refine ⟨⟨_, _, hset, ?_⟩, ⟨_, _, hprint, (hnative _ _ _ _ _ _ _ _ hprint).2⟩,
    _, _, hsend, rfl, ?_⟩
  · obtain ⟨-, hturns | ⟨id, hid, -⟩⟩ := hmethod _ _ _ _ _ _ _ _ rfl (by decide) hset
    · exact hturns
    · cases hid
  · obtain ⟨-, hturns | ⟨id, hid, -, htaken⟩⟩ := hmethod _ _ _ _ _ _ _ _ rfl (by decide) hsend
    · exact absurd (congrArg List.length hturns) (by simp)
    · cases hid
      exact htaken

end Operation
end TreeWalk
