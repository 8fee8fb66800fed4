/-
Values.

Scalars are held directly and may be NULL.  A NULL scalar keeps the payload it
had, so that declaring it valid again restores it, but nothing else may look at
that payload.  Tuples cannot be changed and are held directly as well.
Everything that is shared and can change is a handle into the store, together
with what about it never changes.

`return`, `break`, `continue` and errors are no values.  They can therefore
never be stored.
-/
import TreeWalk.Number.Word
import TreeWalk.Syntax.Tree
import TreeWalk.Value.Handle
import TreeWalk.Value.Key

namespace TreeWalk

/-- A scalar that may be NULL. -/
structure Nullable (α : Type) where
  payload : α
  valid : Bool
  deriving Repr, Inhabited

namespace Nullable

variable {α : Type}

def some (a : α) : Nullable α := ⟨a, true⟩

/-- A NULL scalar with a payload to fall back to. -/
def null (payload : α) : Nullable α := ⟨payload, false⟩

/-- The payload of a scalar that is not NULL. -/
def get? (n : Nullable α) : Option α := if n.valid then Option.some n.payload else none

def withValid (n : Nullable α) (valid : Bool) : Nullable α := { n with valid := valid }

@[simp] theorem get?_some (a : α) : (some a).get? = Option.some a := rfl

@[simp] theorem get?_null (a : α) : (null a).get? = none := rfl

end Nullable

/-- A boolean that may be NULL and may carry a message; `false` with a message
reports a failure. -/
structure Truth where
  value : Bool
  valid : Bool := true
  message : Option String := none
  deriving DecidableEq, Repr, Inhabited

/-- The integers from `start` to `stop`, both included. -/
structure Range where
  start : Int64
  stop : Int64
  deriving DecidableEq, Repr, Inhabited

/-- Functions that are part of the language rather than written in it. -/
inductive Native where
  | assert | chan | float | fprintf | int | len | print | printf | println | range | str | type
  | newWaitGroup | newMutex | newRWMutex | newCond | newOnce
  deriving DecidableEq, Repr, Inhabited

namespace Native

def name : Native → String
  | assert => "assert"
  | chan => "chan"
  | float => "float"
  | fprintf => "fprintf"
  | int => "int"
  | len => "len"
  | print => "print"
  | printf => "printf"
  | println => "println"
  | range => "range"
  | str => "str"
  | type => "type"
  | newWaitGroup => "sync.WaitGroup"
  | newMutex => "sync.Mutex"
  | newRWMutex => "sync.RWMutex"
  | newCond => "sync.Cond"
  | newOnce => "sync.Once"

/-- The functions that every script can call by name. -/
def builtins : List Native :=
  [.assert, .chan, .float, .fprintf, .int, .len, .print, .printf, .println, .range, .str, .type]

/-- The functions that make synchronization objects. -/
def constructors : List Native := [.newWaitGroup, .newMutex, .newRWMutex, .newCond, .newOnce]

def ofName? (name : String) : Option Native := builtins.find? (·.name == name)

theorem ofName?_name {f : Native} (h : f ∈ builtins) : ofName? f.name = some f := by
  simp only [builtins, List.mem_cons, List.not_mem_nil, or_false] at h
  rcases h with rfl | rfl | rfl | rfl | rfl | rfl | rfl | rfl | rfl | rfl | rfl | rfl <;> decide

end Native

/-- A function literal with the scope it was made in. -/
structure Closure where
  id : FunctionId
  lit : FunctionLit
  scope : ScopeId

/-- An included unit: its bindings are the members of the module. -/
structure Module where
  name : String
  path : String
  scope : ScopeId
  deriving DecidableEq, Repr, Inhabited

/-- Objects with methods of their own: the synchronization objects, and those of the host.
What an object of the host tells about itself never changes: its kind, its key and the
names of its methods. -/
inductive ObjectRef where
  | waitGroup (id : WaitGroupId)
  | mutex (id : MutexId)
  | rwMutex (id : RWMutexId)
  | cond (id : CondId)
  | once (id : OnceId)
  | host (id : HostId) (kind : String) (key : Option Int64) (methods : List String)
  deriving DecidableEq, Repr, Inhabited

namespace ObjectRef

def kind : ObjectRef → String
  | waitGroup _ => "WAITGROUP"
  | mutex _ => "MUTEX"
  | rwMutex _ => "RWMUTEX"
  | cond _ => "COND"
  | once _ => "ONCE"
  | host _ kind _ _ => kind

def key? : ObjectRef → Option Key
  | host _ _ (some n) _ => some (.ofObject n)
  | _ => none

end ObjectRef

inductive Value where
  | int (n : Nullable Int64)
  | float (x : Nullable Double)
  | bool (b : Truth)
  /-- `nil`, possibly with a message that tells why. -/
  | nil (message : Option String)
  | str (s : Nullable String)
  | array (id : ArrayId)
  /-- `multi` marks the tuple that `return a, b` makes. -/
  | tuple (items : List Value) (multi : Bool)
  | hash (id : HashId)
  /-- The members live in a scope; `methods` are those that held functions at
  first. -/
  | struct (scope : ScopeId) (methods : List String)
  | enum (scope : ScopeId) (variants : List String)
  | function (f : Closure)
  | native (f : Native)
  | range (r : Range)
  | channel (id : ChannelId)
  | module (m : Module)
  | object (o : ObjectRef)

namespace Value

instance : Inhabited Value := ⟨.nil none⟩

def ofInt (n : Int64) : Value := .int (.some n)

def ofFloat (x : Double) : Value := .float (.some x)

def ofBool (b : Bool) : Value := .bool ⟨b, true, none⟩

def ofString (s : String) : Value := .str (.some s)

def ofLength (n : Nat) : Value := .ofInt (Word.ofLength n)

/-- `nil` without a message. -/
def nothing : Value := .nil none

/-- The name of the kind of a value, as `type` answers it. -/
def kind : Value → String
  | int _ => "INTEGER"
  | float _ => "FLOAT"
  | bool _ => "BOOLEAN"
  | nil _ => "NIL"
  | str _ => "STRING"
  | array _ => "ARRAY"
  | tuple _ _ => "TUPLE"
  | hash _ => "HASH"
  | struct _ _ => "STRUCT"
  | enum _ _ => "ENUM"
  | function _ => "FUNCTION"
  | native _ => "BUILTIN"
  | range _ => "RANGE"
  | channel _ => "CHANNEL"
  | module _ => "MODULE"
  | object o => o.kind

/-- False for NULL scalars only. -/
def isValid : Value → Bool
  | int n => n.valid
  | float x => x.valid
  | str s => s.valid
  | bool b => b.valid
  | _ => true

def isNil : Value → Bool
  | nil _ => true
  | _ => false

def isCallable : Value → Bool
  | function _ => true
  | native _ => true
  | _ => false

/-- The number held by a valid integer. -/
def int? : Value → Option Int64
  | int n => n.get?
  | _ => none

/-- The number held by a valid integer or float. -/
def number? : Value → Option Double
  | int n => n.get?.map Double.ofInt
  | float x => x.get?
  | _ => none

/-- The text held by a valid string. -/
def string? : Value → Option String
  | str s => s.get?
  | _ => none

/-- The message of a value that reports a failure: `nil` or `false` with a
message that is not empty. -/
def failureMessage? : Value → Option String
  | nil (some m) => if m = "" then none else some m
  | bool ⟨false, _, some m⟩ => if m = "" then none else some m
  | _ => none

/-- The key under which a hash files a value; composite values have none. -/
def key? : Value → Option Key
  | int n => n.get?.map Key.ofInt
  | float x => x.get?.map Key.ofFloat
  | bool b => if b.valid then some (.ofBool b.value) else none
  | str s => s.get?.map Key.ofString
  | object o => o.key?
  | _ => none

end Value
end TreeWalk
