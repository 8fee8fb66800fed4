/-
Tables of methods and the checks on arguments.

The methods of a kind of value are an enumeration.  The names that are shown and
suggested are listed apart from the names that a call compares its own with.
-/
import TreeWalk.Store.Atomic
import TreeWalk.Suggest

namespace TreeWalk

/-- An enumeration of methods. -/
class MethodTable (μ : Type) where
  /-- The names that are listed, in the order in which they are shown. -/
  names : List String
  /-- The method that a call of a name runs. -/
  find? : String → Option μ

/-- The arguments of a call of a built-in function or method. -/
structure Args where
  /-- The name under which the function was called. -/
  name : String
  values : List Value
  pos : Position

namespace Args

open Atomic

variable {M : Type → Type} [Monad M] [Effects M] {α : Type}

def count (args : Args) : Nat := args.values.length

/-- Fails because of the number of arguments. -/
def failCount (args : Args) (expected : String) : M α :=
  fail (.argumentCount args.name expected args.count) args.pos

/-- Refuses anything but no argument. -/
def empty (args : Args) : M Unit :=
  match args.values with
  | [] => pure ()
  | _ => args.failCount "0"

/-- The only argument. -/
def one (args : Args) : M Value :=
  match args.values with
  | [a] => pure a
  | _ => args.failCount "1"

/-- Two arguments. -/
def two (args : Args) : M (Value × Value) :=
  match args.values with
  | [a, b] => pure (a, b)
  | _ => args.failCount "2"

/-- The only argument, or none. -/
def upToOne (args : Args) : M (Option Value) :=
  match args.values with
  | [] => pure none
  | [a] => pure (some a)
  | _ => args.failCount "0 to 1"

/-- One argument that has to be there and one that may be. -/
def oneOrTwo (args : Args) : M (Value × Option Value) :=
  match args.values with
  | [a] => pure (a, none)
  | [a, b] => pure (a, some b)
  | _ => args.failCount "1 to 2"

/-- Refuses an argument for its kind. -/
def failKind (args : Args) (index : Nat) (expected : String) (v : Value) : M α :=
  fail (.paramType args.name (index + 1) expected v.kind) args.pos

/-- The integer that the argument at `index` has to be. -/
def int (args : Args) (index : Nat) (v : Value) : M Int64 :=
  match v.int? with
  | some n => pure n
  | none => args.failKind index "INTEGER" v

/-- The text that the argument at `index` has to be. -/
def string (args : Args) (index : Nat) (v : Value) : M String :=
  match v.string? with
  | some s => pure s
  | none => args.failKind index "STRING" v

/-- The function that the argument at `index` has to be. -/
def callable (args : Args) (index : Nat) (v : Value) : M Value :=
  if v.isCallable then pure v else args.failKind index "FUNCTION" v

/-- Refuses the receiver or the first argument for its kind. -/
def failInput (args : Args) (kind : String) : M α := fail (.inputType args.name kind) args.pos

end Args
end TreeWalk
