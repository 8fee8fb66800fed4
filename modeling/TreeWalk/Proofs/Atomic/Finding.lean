/-
Failures of methods that have been found.

A method of a table fails because of its receiver, its arguments or what it computes.
Only a table fails because a method is missing, before any method begins.
-/
import TreeWalk.Method.Object
import TreeWalk.Proofs.Atomic.Sound

namespace TreeWalk

/-- Whether a method has not been found. -/
def Cause.isNoMethod : Cause → Bool
  | noMethod _ _ _ => true
  | _ => false

def Exit.isNoMethod : Exit → Bool
  | error e => e.cause.isNoMethod
  | _ => false

namespace Atomic

variable {α β : Type}

/-- A computation that misses no method. -/
def Finds (a : Atomic α) : Prop := ∀ σ e, a σ = .error e → e.isNoMethod = false

namespace Finds

theorem pure {v : α} : Finds (Pure.pure v : Atomic α) := fun _ _ h => nomatch h

theorem change {g : Store → α × Store} : Finds (Atomic.change g : Atomic α) :=
  fun _ _ h => nomatch h

theorem update {g : Store → Store} : Finds (Atomic.update g : Atomic Unit) := change

theorem read {g : Store → α} : Finds (Atomic.read g : Atomic α) := change

theorem fail {cause : Cause} {pos : Position} (h : cause.isNoMethod = false) :
    Finds (Atomic.fail cause pos : Atomic α) := by
  intro σ e he
  cases he
  exact h

theorem fault {message : String} : Finds (Atomic.fault message : Atomic α) := by
  intro σ e he
  cases he
  rfl

theorem bind {a : Atomic α} {k : α → Atomic β} (ha : Finds a) (hk : ∀ v, Finds (k v)) :
    Finds (a >>= k) := by
  intro σ e he
  rw [bind_apply] at he
  split at he
  · next v τ _ => exact hk v τ e he
  · next heq => exact Except.error.inj he ▸ ha σ _ heq

theorem map {g : α → β} {a : Atomic α} (ha : Finds a) : Finds (g <$> a) := by
  rw [map_eq_pure_bind]
  exact ha.bind fun _ => pure

theorem require {a? : Option α} {cause : Cause} {pos : Position}
    (h : cause.isNoMethod = false) :
    Finds (Atomic.require a? cause pos : Atomic α) := by
  obtain ⟨a, -, ha⟩ | hfail := require_cases a? cause pos
  · rw [ha]
    exact pure
  · rw [hfail]
    exact fail h

theorem reserve {bytes : Nat} : Finds (Atomic.reserve bytes : Atomic Unit) := by
  unfold Atomic.reserve
  split
  · exact fault
  · exact pure

theorem newArray {items : List Value} : Finds (Atomic.newArray items : Atomic Value) := change

end Finds
end Atomic

open Atomic

variable {args : Args}

/-! ## Arguments -/

namespace Args

variable {α : Type} {i : Nat} {v : Value}

theorem finds_failCount {expected : String} : Finds (args.failCount expected : Atomic α) :=
  .fail rfl

theorem finds_failKind {expected : String} : Finds (args.failKind i expected v : Atomic α) :=
  .fail rfl

theorem finds_failInput {kind : String} : Finds (args.failInput kind : Atomic α) := .fail rfl

theorem finds_empty : Finds args.empty := by
  unfold Args.empty
  split
  · exact .pure
  · exact finds_failCount

theorem finds_one : Finds args.one := by
  unfold Args.one
  split
  · exact .pure
  · exact finds_failCount

theorem finds_two : Finds args.two := by
  unfold Args.two
  split
  · exact .pure
  · exact finds_failCount

theorem finds_upToOne : Finds args.upToOne := by
  unfold Args.upToOne
  split
  · exact .pure
  · exact .pure
  · exact finds_failCount

theorem finds_oneOrTwo : Finds args.oneOrTwo := by
  unfold Args.oneOrTwo
  split
  · exact .pure
  · exact .pure
  · exact finds_failCount

theorem finds_int : Finds (args.int i v) := by
  unfold Args.int
  split
  · exact .pure
  · exact finds_failKind

theorem finds_string : Finds (args.string i v) := by
  unfold Args.string
  split
  · exact .pure
  · exact finds_failKind

theorem finds_callable : Finds (args.callable i v) := by
  unfold Args.callable
  split
  · exact .pure
  · exact finds_failKind

theorem finds_flag : Finds args.flag := by
  unfold Args.flag
  refine finds_one.bind fun v => ?_
  split
  · exact .pure
  · exact finds_failKind

theorem finds_receiver {kind : String} {n : Nullable α} : Finds (args.receiver kind n) := by
  unfold Args.receiver
  split
  · exact .pure
  · exact finds_failInput

theorem finds_isValid {valid : Bool} : Finds (args.isValid valid) := finds_empty.bind fun _ => .pure

theorem finds_toString : Finds (args.toString v) :=
  finds_empty.bind fun _ => Finds.read.bind fun _ => .pure

end Args

open Args

/-! ## Scalars -/

namespace IntMethod

theorem finds_compute {m : IntMethod} {n : Int64} {pos : Position} : Finds (m.compute n pos) := by
  cases m with
  | abs =>
    simp only [compute]
    split
    · exact .pure
    · exact .fail rfl
  | _ => exact .pure

theorem finds_run {n : Nullable Int64} {m : IntMethod} : Finds (run n m args) := by
  unfold run
  split
  · exact finds_isValid
  · exact finds_flag.bind fun _ => .pure
  · exact finds_toString
  · exact finds_receiver.bind fun _ => finds_empty.bind fun _ => finds_compute

end IntMethod

namespace FloatMethod

theorem finds_compute {m : FloatMethod} {x : Double} {pos : Position} :
    Finds (m.compute x pos) := by
  cases m with
  | int =>
    simp only [compute]
    split
    · exact .pure
    · exact .fail rfl
  | _ => exact .pure

theorem finds_run {x : Nullable Double} {m : FloatMethod} : Finds (run x m args) := by
  unfold run
  split
  · exact finds_isValid
  · exact finds_flag.bind fun _ => .pure
  · exact finds_toString
  · exact finds_receiver.bind fun _ => finds_empty.bind fun _ => finds_compute

end FloatMethod

theorem BoolMethod.finds_run {b : Truth} {m : BoolMethod} : Finds (run b m args) := by
  cases m with
  | isValid => exact finds_isValid
  | message => exact finds_empty.bind fun _ => .pure
  | setValid => exact finds_flag.bind fun _ => .pure
  | toString => exact finds_toString

theorem NilMethod.finds_run {reason : Option String} {m : NilMethod} :
    Finds (run reason m args) := by
  cases m with
  | isValid => exact finds_isValid
  | message => exact finds_empty.bind fun _ => .pure
  | toString => exact finds_toString

/-! ## Strings -/

namespace StringMethod

theorem finds_texts {parts : List (List Char)} : Finds (texts parts) := .newArray

theorem finds_needle {i : Nat} {g : String → Value} :
    Finds (do return g (← args.string i (← args.one)) : Atomic Value) :=
  finds_one.bind fun _ => finds_string.bind fun _ => .pure

theorem finds_apply {s : String} {m : StringMethod} : Finds (apply s m args) := by
  cases m with
  | chars => exact finds_empty.bind fun _ => finds_texts
  | split =>
    refine finds_upToOne.bind fun v? => ?_
    cases v? with
    | none => exact finds_texts
    | some v => exact finds_string.bind fun _ => finds_texts
  | contains | hasPrefix | hasSuffix | index => exact finds_needle
  | replace =>
    exact finds_two.bind fun _ => finds_string.bind fun _ => finds_string.bind fun _ => .pure
  | int | float =>
    refine finds_empty.bind fun _ => ?_
    split
    · exact .pure
    · exact Finds.read.bind fun _ => .fail rfl
  | isValid => exact finds_isValid
  | setValid => exact finds_flag.bind fun _ => .pure
  | toString => exact finds_toString
  | len | upper | lower | trim | reverse => exact finds_empty.bind fun _ => .pure

theorem finds_run {s : Nullable String} {m : StringMethod} : Finds (run s m args) := by
  unfold run
  split
  · exact finds_isValid
  · exact finds_flag.bind fun _ => .pure
  · exact finds_toString
  · exact finds_receiver.bind fun _ => finds_apply

end StringMethod

/-! ## Arrays, tuples and ranges -/

theorem Sequence.finds_bounds {start : Int64} {stop : Option Int64} {length : Nat}
    {pos : Position} : Finds (bounds start stop length pos) := .require rfl

theorem ArrayAction.finds_run {id : ArrayId} {m : ArrayAction} : Finds (run id m args) := by
  refine Finds.read.bind fun items => ?_
  cases m with
  | len | empty | first | last => exact finds_empty.bind fun _ => .pure
  | toString => exact finds_toString
  | push => exact Finds.update.bind fun _ => .pure
  | pop => exact finds_empty.bind fun _ => Finds.update.bind fun _ => .pure
  | contains => exact finds_one.bind fun _ => Finds.read.bind fun _ => .pure
  | index =>
    refine finds_one.bind fun v => Finds.read.bind fun i? => ?_
    cases i? with
    | some i => exact .pure
    | none => exact .pure
  | join =>
    refine finds_upToOne.bind fun v? => ?_
    cases v? with
    | some v => exact finds_string.bind fun _ => Finds.read.bind fun _ => .pure
    | none => exact Finds.pure.bind fun _ => Finds.read.bind fun _ => .pure
  | reverse => exact finds_empty.bind fun _ => .newArray
  | sort =>
    refine finds_empty.bind fun _ => ?_
    split
    · split
      · exact .newArray
      · exact .fault
    · exact finds_failInput
  | slice =>
    refine finds_oneOrTwo.bind fun ab => finds_int.bind fun start => ?_
    have finds_rest : ∀ stop, Finds (do
        let bounds ← Sequence.bounds start stop items.size args.pos
        newArray (Sequence.slice items.toList bounds.1 bounds.2)) := fun stop =>
      Sequence.finds_bounds.bind fun _ => .newArray
    dsimp only
    split
    · exact finds_int.map.bind finds_rest
    · exact Finds.pure.bind finds_rest

theorem TupleMethod.finds_run {items : List Value} {multi : Bool} {m : TupleMethod} :
    Finds (run items multi m args) := by
  cases m with
  | len => exact finds_empty.bind fun _ => .pure
  | get => exact finds_one.bind fun _ => finds_int.bind fun _ => .require rfl
  | toArray => exact finds_empty.bind fun _ => .newArray
  | toString => exact finds_toString

theorem RangeMethod.finds_run {r : Range} {m : RangeMethod} : Finds (run r m args) := by
  cases m with
  | len => exact finds_empty.bind fun _ => .pure
  | toArray => exact finds_empty.bind fun _ => Finds.reserve.bind fun _ => .newArray
  | contains => exact finds_one.bind fun _ => finds_int.bind fun _ => .pure
  | toString => exact finds_toString

/-! ## Hashes -/

theorem Atomic.finds_keyOf {v : Value} {pos : Position} : Finds (keyOf v pos) := .require rfl

namespace HashAction

variable {id : HashId}

theorem finds_store : Finds (store id args) :=
  finds_two.bind fun _ => finds_keyOf.bind fun _ => Finds.update.bind fun _ => .pure

theorem finds_remove : Finds (remove id args) :=
  finds_one.bind fun _ => finds_keyOf.bind fun _ => Finds.read.bind fun _ =>
    Finds.update.bind fun _ => .pure

theorem finds_run {m : HashAction} : Finds (run id m args) := by
  cases m with
  | len | empty => exact finds_empty.bind fun _ => Finds.read.bind fun _ => .pure
  | keys | values => exact finds_empty.bind fun _ => Finds.read.bind fun _ => .newArray
  | toString => exact finds_toString
  | push | set => exact finds_store
  | pop | delete => exact finds_remove
  | get =>
    refine finds_oneOrTwo.bind fun _ => finds_keyOf.bind fun _ => Finds.read.bind fun _ => ?_
    split
    · exact .pure
    · exact .pure
  | has => exact finds_one.bind fun _ => finds_keyOf.bind fun _ => Finds.read.bind fun _ => .pure

end HashAction
end TreeWalk
