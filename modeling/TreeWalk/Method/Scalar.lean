/-
Methods of integers, floats, booleans and `nil`.

Every scalar can be asked whether it is valid and be shown.  All else refuses a
NULL receiver, and does so before it looks at the arguments.
-/
import TreeWalk.Method.Table
import TreeWalk.Number.Binary

namespace TreeWalk

open Atomic

variable {M : Type → Type} [Monad M] [Effects M]

namespace Args

variable {α : Type}

/-- The flag that `setValid` takes. -/
def flag (args : Args) : M Bool := do
  match ← args.one with
  | .bool b => return b.value
  | v => args.failKind 0 "BOOLEAN" v

/-- What a receiver that must not be NULL holds. -/
def receiver (args : Args) (kind : String) (n : Nullable α) : M α :=
  match n.get? with
  | some a => pure a
  | none => args.failInput ("invalid " ++ kind)

/-- `isValid` -/
def isValid (args : Args) (valid : Bool) : M Value := do
  args.empty
  return .ofBool valid

/-- `toString` -/
def toString (args : Args) (v : Value) : M Value := do
  args.empty
  return .ofString (← read (·.display v))

end Args

inductive IntMethod where
  | abs | float | int | isValid | setValid | sqrt | toString
  deriving DecidableEq, Repr, Inhabited

namespace IntMethod

def names : List String := ["abs", "float", "int", "isValid", "setValid", "sqrt", "toString"]

/-- Three names are looked for first.  Any other has to be listed, and the last of those
is what is left over. -/
def ofName? (method : String) : Option IntMethod :=
  match method with
  | "isValid" => some isValid
  | "setValid" => some setValid
  | "toString" => some toString
  | _ =>
    if names.contains method then
      match method with
      | "abs" => some abs
      | "float" => some float
      | "sqrt" => some sqrt
      | _ => some int
    else none

instance : MethodTable IntMethod := ⟨names, ofName?⟩

/-- What the methods without arguments make of a number. -/
def compute (m : IntMethod) (n : Int64) (pos : Position) : M Value :=
  match m with
  | abs =>
    match Word.abs? n with
    | some r => pure (.ofInt r)
    | none => fail (.integerOverflow "abs") pos
  | float => pure (.ofFloat (.ofInt n))
  | sqrt => pure (.ofFloat (Double.ofInt n |>.lift Float.sqrt))
  | _ => pure (.ofInt n)

def run (n : Nullable Int64) (m : IntMethod) (args : Args) : M Value := do
  match m with
  | isValid => args.isValid n.valid
  | setValid => return .int (n.withValid (← args.flag))
  | toString => args.toString (.int n)
  | m =>
    let k ← args.receiver "INTEGER" n
    args.empty
    m.compute k args.pos

end IntMethod

inductive FloatMethod where
  | abs | ceil | float | floor | int | isValid | round | setValid | sqrt | toString
  deriving DecidableEq, Repr, Inhabited

namespace FloatMethod

def names : List String :=
  ["abs", "ceil", "float", "floor", "int", "isValid", "round", "setValid", "sqrt", "toString"]

def ofName? (method : String) : Option FloatMethod :=
  match method with
  | "isValid" => some isValid
  | "setValid" => some setValid
  | "toString" => some toString
  | _ =>
    if names.contains method then
      match method with
      | "abs" => some abs
      | "ceil" => some ceil
      | "floor" => some floor
      | "round" => some round
      | "sqrt" => some sqrt
      | "int" => some int
      | _ => some float
    else none

instance : MethodTable FloatMethod := ⟨names, ofName?⟩

/-- What the methods without arguments make of a number. -/
def compute (m : FloatMethod) (x : Double) (pos : Position) : M Value :=
  match m with
  | abs => pure (.ofFloat x.abs)
  | ceil => pure (.ofFloat (x.lift Float.ceil))
  | floor => pure (.ofFloat (x.lift Float.floor))
  | round => pure (.ofFloat (x.lift Float.round))
  | sqrt => pure (.ofFloat (x.lift Float.sqrt))
  | int =>
    match Binary.toWord? x with
    | some n => pure (.ofInt n)
    | none => fail (.conversion (Decimal.text x) "INTEGER") pos
  | _ => pure (.ofFloat x)

def run (x : Nullable Double) (m : FloatMethod) (args : Args) : M Value := do
  match m with
  | isValid => args.isValid x.valid
  | setValid => return .float (x.withValid (← args.flag))
  | toString => args.toString (.float x)
  | m =>
    let y ← args.receiver "FLOAT" x
    args.empty
    m.compute y args.pos

end FloatMethod

inductive BoolMethod where
  | isValid | message | setValid | toString
  deriving DecidableEq, Repr, Inhabited

namespace BoolMethod

def names : List String := ["isValid", "message", "setValid", "toString"]

def ofName? : String → Option BoolMethod
  | "isValid" => some isValid
  | "setValid" => some setValid
  | "message" => some message
  | "toString" => some toString
  | _ => none

instance : MethodTable BoolMethod := ⟨names, ofName?⟩

def run (b : Truth) (m : BoolMethod) (args : Args) : M Value := do
  match m with
  | isValid => args.isValid b.valid
  | message =>
    args.empty
    return .ofString ((Value.bool b).failureMessage?.getD "")
  | setValid => return .bool { b with valid := ← args.flag }
  | toString => args.toString (.bool b)

end BoolMethod

inductive NilMethod where
  | isValid | message | toString
  deriving DecidableEq, Repr, Inhabited

namespace NilMethod

def names : List String := ["isValid", "message", "toString"]

def ofName? : String → Option NilMethod
  | "isValid" => some isValid
  | "message" => some message
  | "toString" => some toString
  | _ => none

instance : MethodTable NilMethod := ⟨names, ofName?⟩

def run (reason : Option String) (m : NilMethod) (args : Args) : M Value := do
  match m with
  | isValid => args.isValid true
  | message =>
    args.empty
    return .ofString ((Value.nil reason).failureMessage?.getD "")
  | toString => args.toString (.nil reason)

end NilMethod
end TreeWalk
