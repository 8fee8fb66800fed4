/-
Objects of the host.

A method of such an object is code of the host.  It sees the evaluator only through what it
may ask of it: to call a value back and to print a text where the output of the caller goes.
Besides it keeps a text of its own, and makes arrays.  What it asks for next may depend on
all that it is told, and it comes to an end by itself between one call back and the next.

It cannot make up a function, a struct or a channel.  A value that it calls back, passes on
or answers is one that it was handed, or a scalar.
-/
import TreeWalk.Error

namespace TreeWalk

/-- A value that code of the host can name. -/
inductive HostValue where
  /-- One of those that were handed to it, in the order in which they came. -/
  | given (index : Nat)
  | nothing
  | bool (b : Bool)
  | int (n : Int64)
  | float (x : Double)
  | string (s : String)
  deriving Inhabited

namespace HostValue

/-- The value that is named. -/
def value (known : List Value) : HostValue → Value
  | given i => known[i]?.getD .nothing
  | nothing => .nothing
  | bool b => .ofBool b
  | int n => .ofInt n
  | float x => .ofFloat x
  | string s => .ofString s

end HostValue

/-- What code of the host does next. -/
inductive HostCode where
  | answer (v : HostValue)
  | raise (e : Error)
  | panic (message : String)
  /-- Makes an array, which is handed to it. -/
  | array (items : List HostValue) (next : HostCode)
  /-- Calls a value back.  The answer is handed to it; it is told of an error, which it may
  raise again or keep to itself. -/
  | call (f : HostValue) (args : List HostValue) (next : Except Error Value → HostCode)
  | print (text : String) (next : HostCode)
  /-- Reads its own text. -/
  | fetch (next : String → HostCode)
  /-- Replaces its own text. -/
  | note (text : String) (next : HostCode)

/-- An object of the host. -/
structure HostObject where
  /-- What a call of a method does, which is handed the arguments. -/
  run : String → List Value → Position → HostCode
  /-- What becomes of its own text when another one is written to it, or why that fails;
  nothing at all if it does not take texts. -/
  write : String → String → Option (Except String String)
  /-- What a loop goes through. -/
  items : Option (List Value)
  text : String

/-- What a probe does with text written to it. -/
inductive ProbeWriter where
  | keeps
  | fails (message : String)
  deriving DecidableEq, Repr, Inhabited

/-- An object that records how scripts use it. -/
structure Probe where
  writer : Option ProbeWriter
  items : Option (List Value)
  written : String

namespace Probe

/-- The names of the methods of a probe. -/
def names : List String := ["apply", "echo", "explode", "fail", "written"]

/-- The arguments from a position on. -/
def givenFrom (start : Nat) (values : List Value) : List HostValue :=
  (List.range' start (values.length - start)).map .given

def refuse (name : String) (pos : Position) : HostCode :=
  .raise ⟨.host ("probe has no " ++ name), pos⟩

def apply (values : List Value) (pos : Position) : HostCode :=
  match values with
  | [] => refuse "apply" pos
  | _ :: _ =>
    .call (.given 0) (givenFrom 1 values) fun
      | .ok _ => .answer (.given values.length)
      | .error e => .raise e

def run (name : String) (values : List Value) (pos : Position) : HostCode :=
  match name with
  | "echo" => .array (givenFrom 0 values) (.answer (.given values.length))
  | "written" => .fetch fun text => .answer (.string text)
  | "fail" => .raise ⟨.host "probe failed", pos⟩
  | "explode" => .panic "probe exploded"
  | "apply" => apply values pos
  | _ => refuse name pos

def write (writer : Option ProbeWriter) (own text : String) : Option (Except String String) :=
  match writer with
  | some .keeps => some (.ok (own ++ text))
  | some (.fails message) => some (.error message)
  | none => none

def toHost (p : Probe) : HostObject := ⟨run, write p.writer, p.items, p.written⟩

end Probe

instance : Inhabited HostObject := ⟨Probe.toHost ⟨none, none, ""⟩⟩

end TreeWalk
