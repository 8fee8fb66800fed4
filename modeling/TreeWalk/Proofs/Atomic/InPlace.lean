/-
Operations that run in place.

An operation that runs as part of a task changes the store at once, and what it has
changed stays when it fails later.  Run all or nothing, it leaves the store as it was.
The two differ unless an operation makes all its checks before its first change.  Every
built-in operation does, so a task may run it either way.

The proofs go through an operation from its start.  As long as it only checks, nothing
is known to be done but to read; from its first change on, nothing may fail.
-/
import TreeWalk.Builtin
import TreeWalk.Eval.Step
import TreeWalk.Method.Object
import TreeWalk.Proofs.Atomic.Sound

namespace TreeWalk

namespace Eval

open Atomic

variable {α β : Type}

/-- The computation does in place what it does all or nothing. -/
def InPlace (x : Eval α) (a : Atomic α) : Prop := x = lift a

/-- The computation does so, and leaves the store as it is. -/
structure Checks (x : Eval α) (a : Atomic α) : Prop where
  inPlace : InPlace x a
  steady : ∀ {σ v τ}, a σ = .ok (v, τ) → τ = σ

namespace InPlace

variable {x : Eval α} {a : Atomic α}

theorem change {g : Store → α × Store} : InPlace (Atomic.change g) (Atomic.change g) := rfl

/-- The change comes last. -/
theorem update {g : Store → Store} {v : α} :
    InPlace (do Atomic.update g; return v) (do Atomic.update g; return v) := rfl

theorem newArray {items : List Value} : InPlace (Atomic.newArray items) (Atomic.newArray items) :=
  change

end InPlace

namespace Checks

variable {x : Eval α} {a : Atomic α} {k : α → Eval β} {l : α → Atomic β}

theorem pure {v : α} : Checks (Pure.pure v) (Pure.pure v) where
  inPlace := rfl
  steady h := by
    cases h
    rfl

theorem fail {cause : Cause} {pos : Position} :
    Checks (Atomic.fail cause pos : Eval α) (Atomic.fail cause pos) where
  inPlace := rfl
  steady h := nomatch h

theorem fault {message : String} :
    Checks (Atomic.fault message : Eval α) (Atomic.fault message) where
  inPlace := rfl
  steady h := nomatch h

theorem read {g : Store → α} : Checks (Atomic.read g) (Atomic.read g) where
  inPlace := rfl
  steady h := by
    cases h
    rfl

/-- After a check the store is still what it was, so it does not matter which of the two
what follows goes back to when it fails. -/
theorem andThen (h : Checks x a) (hk : ∀ v, InPlace (k v) (l v)) :
    InPlace (x >>= k) (a >>= l) := by
  funext f σ
  rw [h.inPlace, bind_apply]
  unfold lift
  rw [Atomic.bind_apply]
  cases ha : a σ with
  | error e => rfl
  | ok r =>
    obtain ⟨v, τ⟩ := r
    obtain rfl := h.steady ha
    change k v f τ = _
    rw [hk v]
    rfl

theorem bind (h : Checks x a) (hk : ∀ v, Checks (k v) (l v)) : Checks (x >>= k) (a >>= l) where
  inPlace := h.andThen fun v => (hk v).inPlace
  steady {σ v τ} heq := by
    rw [Atomic.bind_apply] at heq
    cases ha : a σ with
    | error e => simp [ha] at heq
    | ok r =>
      obtain ⟨u, υ⟩ := r
      obtain rfl := h.steady ha
      simp only [ha] at heq
      exact (hk u).steady heq

theorem map {g : α → β} (h : Checks x a) : Checks (g <$> x) (g <$> a) := by
  rw [map_eq_pure_bind, map_eq_pure_bind]
  exact h.bind fun _ => pure

theorem require {a? : Option α} {cause : Cause} {pos : Position} :
    Checks (Atomic.require a? cause pos) (Atomic.require a? cause pos) := by
  unfold Atomic.require
  split
  · exact pure
  · exact fail

theorem reserve {bytes : Nat} : Checks (Atomic.reserve bytes) (Atomic.reserve bytes) := by
  unfold Atomic.reserve
  split
  · exact fault
  · exact pure

end Checks
end Eval

open Eval Atomic

/-! ## Arguments -/

namespace Args

variable {α : Type} {args : Args} {i : Nat} {v : Value}

theorem checks_failCount {expected : String} :
    Checks (args.failCount expected : Eval α) (args.failCount expected) := .fail

theorem checks_failKind {expected : String} :
    Checks (args.failKind i expected v : Eval α) (args.failKind i expected v) := .fail

theorem checks_failInput {kind : String} :
    Checks (args.failInput kind : Eval α) (args.failInput kind) := .fail

theorem checks_empty : Checks args.empty args.empty := by
  unfold Args.empty
  split
  · exact .pure
  · exact checks_failCount

theorem checks_one : Checks args.one args.one := by
  unfold Args.one
  split
  · exact .pure
  · exact checks_failCount

theorem checks_two : Checks args.two args.two := by
  unfold Args.two
  split
  · exact .pure
  · exact checks_failCount

theorem checks_upToOne : Checks args.upToOne args.upToOne := by
  unfold Args.upToOne
  split
  · exact .pure
  · exact .pure
  · exact checks_failCount

theorem checks_oneOrTwo : Checks args.oneOrTwo args.oneOrTwo := by
  unfold Args.oneOrTwo
  split
  · exact .pure
  · exact .pure
  · exact checks_failCount

theorem checks_int : Checks (args.int i v) (args.int i v) := by
  unfold Args.int
  split
  · exact .pure
  · exact checks_failKind

theorem checks_string : Checks (args.string i v) (args.string i v) := by
  unfold Args.string
  split
  · exact .pure
  · exact checks_failKind

theorem checks_flag : Checks args.flag args.flag := by
  unfold Args.flag
  refine checks_one.bind fun v => ?_
  split
  · exact .pure
  · exact checks_failKind

theorem checks_receiver {kind : String} {n : Nullable α} :
    Checks (args.receiver kind n) (args.receiver kind n) := by
  unfold Args.receiver
  split
  · exact .pure
  · exact checks_failInput

theorem checks_isValid {valid : Bool} : Checks (args.isValid valid) (args.isValid valid) :=
  checks_empty.bind fun _ => .pure

theorem checks_toString : Checks (args.toString v) (args.toString v) :=
  checks_empty.bind fun _ => Checks.read.bind fun _ => .pure

end Args

open Args

/-! ## Scalars -/

variable {args : Args}

namespace IntMethod

theorem checks_compute {m : IntMethod} {n : Int64} {pos : Position} :
    Checks (m.compute n pos) (m.compute n pos) := by
  unfold compute
  split
  · split
    · exact .pure
    · exact .fail
  all_goals exact .pure

theorem checks_run {n : Nullable Int64} {m : IntMethod} :
    Checks (run n m args) (run n m args) := by
  unfold run
  split
  · exact checks_isValid
  · exact checks_flag.bind fun _ => .pure
  · exact checks_toString
  · exact checks_receiver.bind fun _ => checks_empty.bind fun _ => checks_compute

end IntMethod

namespace FloatMethod

theorem checks_compute {m : FloatMethod} {x : Double} {pos : Position} :
    Checks (m.compute x pos) (m.compute x pos) := by
  cases m with
  | int =>
    unfold compute
    dsimp only
    split
    · exact .pure
    · exact .fail
  | _ => exact .pure

theorem checks_run {x : Nullable Double} {m : FloatMethod} :
    Checks (run x m args) (run x m args) := by
  unfold run
  split
  · exact checks_isValid
  · exact checks_flag.bind fun _ => .pure
  · exact checks_toString
  · exact checks_receiver.bind fun _ => checks_empty.bind fun _ => checks_compute

end FloatMethod

theorem BoolMethod.checks_run {b : Truth} {m : BoolMethod} :
    Checks (run b m args) (run b m args) := by
  unfold run
  split
  · exact checks_isValid
  · exact checks_empty.bind fun _ => .pure
  · exact checks_flag.bind fun _ => .pure
  · exact checks_toString

theorem NilMethod.checks_run {reason : Option String} {m : NilMethod} :
    Checks (run reason m args) (run reason m args) := by
  unfold run
  split
  · exact checks_isValid
  · exact checks_empty.bind fun _ => .pure
  · exact checks_toString

/-! ## Strings -/

namespace StringMethod

theorem inPlace_texts {parts : List (List Char)} : InPlace (texts parts) (texts parts) := .newArray

theorem checks_needle {i : Nat} {g : String → Value} :
    Checks (do return g (← args.string i (← args.one)))
      (do return g (← args.string i (← args.one))) :=
  checks_one.bind fun _ => checks_string.bind fun _ => .pure

/-- Methods that make an array make it last. -/
theorem inPlace_apply {s : String} {m : StringMethod} :
    InPlace (apply s m args) (apply s m args) := by
  cases m with
  | chars => exact checks_empty.andThen fun _ => inPlace_texts
  | split =>
    refine checks_upToOne.andThen fun v? => ?_
    cases v? with
    | none => exact inPlace_texts
    | some v => exact checks_string.andThen fun _ => inPlace_texts
  | contains | hasPrefix | hasSuffix | index => exact checks_needle.inPlace
  | replace =>
    exact checks_two.andThen fun _ => checks_string.andThen fun _ =>
      checks_string.andThen fun _ => Checks.pure.inPlace
  | int | float =>
    refine checks_empty.andThen fun _ => ?_
    split
    · exact Checks.pure.inPlace
    · exact (Checks.read.bind fun _ => .fail).inPlace
  | isValid => exact checks_isValid.inPlace
  | setValid => exact (checks_flag.bind fun _ => .pure).inPlace
  | toString => exact checks_toString.inPlace
  | len | upper | lower | trim | reverse => exact (checks_empty.bind fun _ => .pure).inPlace

theorem inPlace_run {s : Nullable String} {m : StringMethod} :
    InPlace (run s m args) (run s m args) := by
  unfold run
  split
  · exact checks_isValid.inPlace
  · exact (checks_flag.bind fun _ => .pure).inPlace
  · exact checks_toString.inPlace
  · exact checks_receiver.andThen fun _ => inPlace_apply

end StringMethod

/-! ## Arrays, tuples and ranges -/

theorem Sequence.checks_bounds {start : Int64} {stop : Option Int64} {length : Nat}
    {pos : Position} :
    Checks (bounds start stop length pos) (bounds start stop length pos) := .require

namespace ArrayAction

theorem inPlace_run {id : ArrayId} {m : ArrayAction} :
    InPlace (run id m args) (run id m args) := by
  refine Checks.read.andThen fun items => ?_
  cases m with
  | len | empty | first | last => exact (checks_empty.bind fun _ => .pure).inPlace
  | toString => exact checks_toString.inPlace
  | push => exact .update
  | pop => exact checks_empty.andThen fun _ => .update
  | contains =>
    exact (checks_one.bind fun _ => Checks.read.bind fun _ => .pure).inPlace
  | index =>
    refine checks_one.andThen fun v => Checks.read.andThen fun i? => ?_
    cases i? with
    | some i => exact Checks.pure.inPlace
    | none => exact Checks.pure.inPlace
  | join =>
    refine checks_upToOne.andThen fun v? => ?_
    cases v? with
    | some v =>
      exact checks_string.andThen fun _ => Checks.read.andThen fun _ => Checks.pure.inPlace
    | none => exact Checks.pure.andThen fun _ => Checks.read.andThen fun _ => Checks.pure.inPlace
  | reverse => exact checks_empty.andThen fun _ => .newArray
  | sort =>
    refine checks_empty.andThen fun _ => ?_
    split
    · split
      · exact .newArray
      · exact Checks.fault.inPlace
    · exact checks_failInput.inPlace
  | slice =>
    refine checks_oneOrTwo.andThen fun ab => checks_int.andThen fun start => ?_
    dsimp only
    split
    · exact checks_int.map.andThen fun _ => Sequence.checks_bounds.andThen fun _ => .newArray
    · exact Sequence.checks_bounds.andThen fun _ => .newArray

end ArrayAction

theorem TupleMethod.inPlace_run {items : List Value} {multi : Bool} {m : TupleMethod} :
    InPlace (run items multi m args) (run items multi m args) := by
  cases m with
  | len => exact (checks_empty.bind fun _ => .pure).inPlace
  | get => exact (checks_one.bind fun _ => checks_int.bind fun _ => .require).inPlace
  | toArray => exact checks_empty.andThen fun _ => .newArray
  | toString => exact checks_toString.inPlace

theorem RangeMethod.inPlace_run {r : Range} {m : RangeMethod} :
    InPlace (run r m args) (run r m args) := by
  cases m with
  | len => exact (checks_empty.bind fun _ => .pure).inPlace
  | toArray => exact checks_empty.andThen fun _ => Checks.reserve.andThen fun _ => .newArray
  | contains => exact (checks_one.bind fun _ => checks_int.bind fun _ => .pure).inPlace
  | toString => exact checks_toString.inPlace

/-! ## Hashes -/

theorem Atomic.checks_keyOf {v : Value} {pos : Position} :
    Checks (keyOf v pos) (keyOf v pos) := .require

namespace HashAction

variable {id : HashId}

theorem inPlace_store : InPlace (store id args) (store id args) :=
  checks_two.andThen fun _ => checks_keyOf.andThen fun _ => .update

theorem inPlace_remove : InPlace (remove id args) (remove id args) :=
  checks_one.andThen fun _ => checks_keyOf.andThen fun _ => Checks.read.andThen fun _ => .update

theorem inPlace_run {m : HashAction} : InPlace (run id m args) (run id m args) := by
  cases m with
  | len | empty =>
    exact (checks_empty.bind fun _ => Checks.read.bind fun _ => .pure).inPlace
  | keys | values => exact checks_empty.andThen fun _ => Checks.read.andThen fun _ => .newArray
  | toString => exact checks_toString.inPlace
  | push | set => exact inPlace_store
  | pop | delete => exact inPlace_remove
  | get =>
    refine checks_oneOrTwo.andThen fun _ => checks_keyOf.andThen fun _ =>
      Checks.read.andThen fun _ => ?_
    split
    · exact Checks.pure.inPlace
    · exact Checks.pure.inPlace
  | has =>
    exact (checks_one.bind fun _ => checks_keyOf.bind fun _ =>
      Checks.read.bind fun _ => .pure).inPlace

end HashAction

/-! ## Functions of the language -/

theorem Format.checks_fillOut {format : String} {values : List Value} {pos : Position} :
    Checks (fillOut format values pos) (fillOut format values pos) := by
  refine Checks.read.bind fun text => ?_
  split
  · exact .pure
  · exact .fault
  · exact .fail

namespace Native

theorem checks_failConversion {v : Value} {target : String} {pos : Position} :
    Checks (failConversion v target pos) (failConversion v target pos) :=
  Checks.read.bind fun _ => .fail

theorem checks_displayAll {values : List Value} :
    Checks (displayAll values) (displayAll values) := Checks.read.bind fun _ => .pure

theorem inPlace_printFormatted {sink : Sink} :
    InPlace (printFormatted sink args) (printFormatted sink args) := by
  unfold printFormatted
  split
  · exact checks_failCount.inPlace
  · exact checks_string.andThen fun _ => Format.checks_fillOut.andThen fun _ => .update

/-- What the object does with the text is known before the text is written. -/
theorem inPlace_writeTo {writer : Value} {text : String} :
    InPlace (writeTo writer text args) (writeTo writer text args) := by
  unfold writeTo
  split
  · refine Checks.read.andThen fun o => ?_
    split
    · exact .update
    · exact Checks.fail.inPlace
    · exact checks_failInput.inPlace
  · exact checks_failInput.inPlace

theorem inPlace_writeFormatted : InPlace (writeFormatted args) (writeFormatted args) := by
  unfold writeFormatted
  split
  · exact checks_string.andThen fun _ => Format.checks_fillOut.andThen fun _ => inPlace_writeTo
  · exact checks_failCount.inPlace

theorem checks_length : Checks (length args) (length args) := by
  refine checks_one.bind fun v => ?_
  split
  · split
    · exact .pure
    · exact checks_failInput
  · exact Checks.read.bind fun _ => .pure
  · exact Checks.read.bind fun _ => .pure
  · exact .pure
  · exact .pure
  · exact Checks.read.bind fun _ => .pure
  · exact checks_failInput

theorem inPlace_toInt : InPlace (toInt args) (toInt args) := by
  refine checks_one.andThen fun v => ?_
  split
  · exact Checks.pure.inPlace
  · split
    · exact Checks.pure.inPlace
    · exact checks_failConversion.inPlace
  · exact FloatMethod.checks_run.inPlace
  · exact StringMethod.inPlace_run
  · exact checks_failConversion.inPlace

theorem inPlace_toFloat : InPlace (toFloat args) (toFloat args) := by
  refine checks_one.andThen fun v => ?_
  split
  · exact Checks.pure.inPlace
  · exact IntMethod.checks_run.inPlace
  · exact StringMethod.inPlace_run
  · exact checks_failConversion.inPlace

theorem checks_check : Checks (check args) (check args) := by
  refine checks_oneOrTwo.bind fun r => Checks.read.bind fun truth => ?_
  split
  · exact .pure
  · split
    · exact Checks.read.bind fun _ => .fail
    · exact Checks.read.bind fun _ => .fail

theorem inPlace_newChannel : InPlace (newChannel args) (newChannel args) := by
  refine checks_upToOne.andThen fun v? => ?_
  split
  · exact .change
  · split
    · split
      · exact .change
      · exact checks_failKind.inPlace
    · exact checks_failKind.inPlace

theorem checks_newRange : Checks (newRange args) (newRange args) := by
  refine checks_oneOrTwo.bind fun r => checks_int.bind fun m => ?_
  split
  · exact .pure
  · exact checks_int.bind fun _ => .pure

theorem inPlace_newCondition : InPlace (newCondition args) (newCondition args) := by
  refine checks_upToOne.andThen fun v? => ?_
  split
  · exact .change
  · exact .change
  · exact checks_failKind.inPlace

theorem inPlace_perform {f : Native} {values : List Value} {pos : Position} {sink : Sink} :
    InPlace (f.perform values pos sink) (f.perform values pos sink) := by
  cases f with
  | assert => exact checks_check.inPlace
  | chan => exact inPlace_newChannel
  | float => exact inPlace_toFloat
  | fprintf => exact inPlace_writeFormatted
  | int => exact inPlace_toInt
  | len => exact checks_length.inPlace
  | print | println => exact checks_displayAll.andThen fun _ => .update
  | printf => exact inPlace_printFormatted
  | range => exact checks_newRange.inPlace
  | str => exact (checks_one.bind fun _ => Checks.read.bind fun _ => .pure).inPlace
  | type => exact (checks_one.bind fun _ => .pure).inPlace
  | newCond => exact inPlace_newCondition
  | newWaitGroup | newMutex | newRWMutex | newOnce => exact .change

end Native
end TreeWalk
