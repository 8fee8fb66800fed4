/-
Errors.

An error is a cause and the position that raised it.  The wording of every cause
is in one function, `Cause.message`, and `catch` clauses compare with exactly
that text; the line is put in front only when an error is shown.
-/
import TreeWalk.Value.Basic

namespace TreeWalk

/-- Why an evaluation failed. -/
inductive Cause where
  | prefixOp (op kind : String)
  | infixOp (left op right : String)
  | postfixOp (op kind : String)
  | integerOverflow (operation : String)
  | divideByZero
  | shiftRange (amount : Int64)
  | unknownIdentifier (name : String) (suggestion : Option String)
  | noMethod (method kind : String) (suggestion : Option String)
  | unknownMember (name kind : String) (suggestion : Option String)
  | notCallable (kind : String)
  | index (i : Int64) (length : Nat)
  | slice (start stop : Int64) (length : Nat)
  | key (name : String)
  | indexType (kind other : String)
  | notIterable (kind : String)
  | rangeType (start stop : String)
  | argumentCount (name expected : String) (got : Nat)
  | paramType (method : String) (position : Nat) (expected got : String)
  | inputType (name kind : String)
  | stackOverflow (depth : Nat)
  | throwType (kind : String)
  | thrown (message : String)
  | deferOutsideFunction
  | deferTarget
  | spawnTarget
  | pipeTarget
  | assertionFailed (message : String)
  | assignTarget (target : String)
  | letCount (names values : Nat)
  | enumAssign (name : String)
  | regex (pattern detail : String)
  | noModuleLoader (path : String)
  | includeFailed (path reason : String)
  | channelClosed
  | unlock (kind : String)
  | waitGroupNegative
  | format (reason : String)
  | conversion (value target : String)
  | host (message : String)
  | internal (message : String)
  deriving DecidableEq, Repr, Inhabited

namespace Cause

/-- The question put after a message when a similar name exists. -/
def hint : Option String → String
  | some name => ", did you mean '" ++ name ++ "'?"
  | none => ""

def message : Cause → String
  | prefixOp op kind => "unsupported operator for prefix expression: '" ++ op ++ "' on " ++ kind
  | infixOp left op right =>
    "unsupported operator for infix expression: " ++ left ++ " " ++ op ++ " " ++ right
  | postfixOp op kind => "unsupported operator for postfix expression: '" ++ op ++ "' on " ++ kind
  | integerOverflow operation => "integer overflow in " ++ operation
  | divideByZero => "divide by zero"
  | shiftRange amount => "shift amount " ++ toString amount.toInt ++ " out of range (0-63)"
  | unknownIdentifier name suggestion =>
    "unknown identifier: '" ++ name ++ "' is not defined" ++ hint suggestion
  | noMethod method kind suggestion =>
    "no method '" ++ method ++ "' for " ++ kind ++ hint suggestion
  | unknownMember name kind suggestion =>
    kind ++ " has no member '" ++ name ++ "'" ++ hint suggestion
  | notCallable kind => kind ++ " value is not callable"
  | index i length =>
    "index " ++ toString i.toInt ++ " out of range (length " ++ toString length ++ ")"
  | slice start stop length =>
    "slice [" ++ toString start.toInt ++ ":" ++ toString stop.toInt ++ "] out of range (length " ++
      toString length ++ ")"
  | key name => "key error: " ++ name
  | indexType kind other => kind ++ " cannot be indexed by " ++ other
  | notIterable kind => kind ++ " is not iterable"
  | rangeType start stop => "range bounds must be INTEGER, got " ++ start ++ " and " ++ stop
  | argumentCount name expected got =>
    "wrong number of arguments to '" ++ name ++ "': expected " ++ expected ++ ", got " ++
      toString got
  | paramType method position expected got =>
    "argument " ++ toString position ++ " to '" ++ method ++ "' must be " ++ expected ++
      ", got " ++ got
  | inputType name kind => "'" ++ name ++ "' does not accept " ++ kind ++ " input"
  | stackOverflow depth => "maximum recursion depth exceeded (limit: " ++ toString depth ++ ")"
  | throwType kind => "throw requires a STRING, got " ++ kind
  | thrown message => message
  | deferOutsideFunction => "defer is only allowed inside a function"
  | deferTarget => "defer requires a function or method call"
  | spawnTarget => "spawn requires a function or method call"
  | pipeTarget => "the right side of '|>' must be a function or method call"
  | assertionFailed message => "assertion failed: " ++ message
  | assignTarget target => "cannot assign to " ++ target
  | letCount names values =>
    "let binds " ++ toString names ++ " names but got " ++ toString values ++ " values"
  | enumAssign name => "enum member '" ++ name ++ "' cannot be reassigned"
  | regex pattern detail => "invalid regular expression '" ++ pattern ++ "': " ++ detail
  | noModuleLoader path => "no module loader configured for include '" ++ path ++ "'"
  | includeFailed path reason => "cannot include '" ++ path ++ "': " ++ reason
  | channelClosed => "send on closed channel"
  | unlock kind => kind ++ ": unlock of unlocked lock"
  | waitGroupNegative => "negative WaitGroup counter"
  | format reason => "format error: " ++ reason
  | conversion value target => "cannot convert " ++ value ++ " to " ++ target
  | host message => message
  | internal message => "internal error: " ++ message

/-- A key of a kind that no hash can file. -/
def unhashable (kind : String) : Cause := .key ("unusable as hash key: " ++ kind)

/-- What is said of a regular expression without the detail of what is wrong. -/
def summary : Cause → String
  | regex pattern _ => "invalid regular expression '" ++ pattern ++ "'"
  | cause => cause.message

end Cause

/-- A cause and the position that raised it. -/
structure Error where
  cause : Cause
  pos : Position
  deriving DecidableEq, Repr, Inhabited

namespace Error

def message (e : Error) : String := e.cause.message

/-- The message behind the line it was raised at. -/
def text (e : Error) : String := e.pos.errorPrefix ++ e.message

end Error

/-- How an evaluation ends other than with a value. -/
inductive Exit where
  | error (e : Error)
  /-- `return`, on its way to the function it leaves. -/
  | ret (value : Value)
  /-- `break`, on its way to the loop it ends. -/
  | brk
  /-- `continue`, on its way to the loop it goes on with. -/
  | next
  /-- A fault of the evaluator or of a host object.  No script can catch it. -/
  | fault (message : String)
  /-- The bound on the length of the evaluation was reached. -/
  | exhausted

namespace Exit

/-- Whether the exit passes through everything up to the start of the program. -/
def isAbort : Exit → Bool
  | fault _ => true
  | exhausted => true
  | _ => false

end Exit
end TreeWalk
