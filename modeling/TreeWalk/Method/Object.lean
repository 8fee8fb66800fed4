/-
The methods of channels, functions and objects by name, and the names of the methods
of any value.

What these methods do can wait for other tasks or call functions back, and is
therefore part of the evaluator.
-/
import TreeWalk.Method.Hash
import TreeWalk.Method.Sequence
import TreeWalk.Method.String

namespace TreeWalk

inductive ChannelMethod where
  | close | recv | send
  deriving DecidableEq, Repr, Inhabited

namespace ChannelMethod

def names : List String := ["close", "recv", "send"]

def ofName? : String → Option ChannelMethod
  | "send" => some send
  | "recv" => some recv
  | "close" => some close
  | _ => none

instance : MethodTable ChannelMethod := ⟨names, ofName?⟩

end ChannelMethod

/-- The names that functions list.  A call of one looks at the function as well. -/
def functionNames : List String := ["arity", "call", "name"]

inductive WaitGroupMethod where
  | add | done | wait
  deriving DecidableEq, Repr, Inhabited

namespace WaitGroupMethod

def names : List String := ["add", "done", "wait"]

def ofName? : String → Option WaitGroupMethod
  | "add" => some add
  | "done" => some done
  | "wait" => some wait
  | _ => none

instance : MethodTable WaitGroupMethod := ⟨names, ofName?⟩

end WaitGroupMethod

inductive MutexMethod where
  | lock | tryLock | unlock
  deriving DecidableEq, Repr, Inhabited

namespace MutexMethod

def names : List String := ["lock", "tryLock", "unlock"]

def ofName? : String → Option MutexMethod
  | "lock" => some lock
  | "tryLock" => some tryLock
  | "unlock" => some unlock
  | _ => none

instance : MethodTable MutexMethod := ⟨names, ofName?⟩

end MutexMethod

inductive RWMutexMethod where
  | lock | rlock | runlock | unlock
  deriving DecidableEq, Repr, Inhabited

namespace RWMutexMethod

def names : List String := ["lock", "rlock", "runlock", "unlock"]

def ofName? : String → Option RWMutexMethod
  | "lock" => some lock
  | "unlock" => some unlock
  | "rlock" => some rlock
  | "runlock" => some runlock
  | _ => none

instance : MethodTable RWMutexMethod := ⟨names, ofName?⟩

end RWMutexMethod

inductive CondMethod where
  | broadcast | signal | wait
  deriving DecidableEq, Repr, Inhabited

namespace CondMethod

def names : List String := ["broadcast", "signal", "wait"]

def ofName? : String → Option CondMethod
  | "wait" => some wait
  | "signal" => some signal
  | "broadcast" => some broadcast
  | _ => none

instance : MethodTable CondMethod := ⟨names, ofName?⟩

end CondMethod

inductive OnceMethod where
  | run
  deriving DecidableEq, Repr, Inhabited

namespace OnceMethod

def names : List String := ["do"]

def ofName? : String → Option OnceMethod
  | "do" => some run
  | _ => none

instance : MethodTable OnceMethod := ⟨names, ofName?⟩

end OnceMethod

namespace ObjectRef

/-- The names of the methods of an object. -/
def methodNames : ObjectRef → List String
  | waitGroup _ => MethodTable.names WaitGroupMethod
  | mutex _ => MethodTable.names MutexMethod
  | rwMutex _ => MethodTable.names RWMutexMethod
  | cond _ => MethodTable.names CondMethod
  | once _ => MethodTable.names OnceMethod
  | host _ _ _ methods => methods

end ObjectRef

namespace Value

/-- The names of the methods of a value.  Structs, enums and modules have members
instead. -/
def methodNames : Value → List String
  | int _ => MethodTable.names IntMethod
  | float _ => MethodTable.names FloatMethod
  | str _ => MethodTable.names StringMethod
  | bool _ => MethodTable.names BoolMethod
  | nil _ => MethodTable.names NilMethod
  | array _ => MethodTable.names ArrayMethod
  | tuple _ _ => MethodTable.names TupleMethod
  | range _ => MethodTable.names RangeMethod
  | hash _ => MethodTable.names HashMethod
  | channel _ => MethodTable.names ChannelMethod
  | function _ => functionNames
  | native _ => functionNames
  | object o => o.methodNames
  | struct _ _ => []
  | enum _ _ => []
  | module _ => []

end Value
end TreeWalk
