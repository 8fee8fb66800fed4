/-
The store: everything that tasks share and can change.

Each kind of cell has a table, and a handle is a position in its table.  Cells
are only ever added, so a handle that was valid stays valid.  Reading a handle
that is not in the store gives an empty cell; writing to such a hash or channel
puts it there, so of these nothing has to be known to write to them.

A scope is a table of names with a parent.  The scope made for a call also
carries the frame of the call; calls put off by `defer` are kept per frame.
-/
import TreeWalk.Assoc
import TreeWalk.Host
import TreeWalk.Module.Cache
import TreeWalk.Sync.Channel
import TreeWalk.Sync.Lock
import TreeWalk.Value.Dict
import TreeWalk.Value.Sequence

namespace TreeWalk

/-- The record of a call. -/
structure Frame where
  id : FrameId
  name : String
  callSite : Position
  deriving DecidableEq, Repr, Inhabited

/-- A table of names, the table to look in next, and the frame of the call that
the scope was made for. -/
structure Scope where
  bindings : Assoc Value
  parent : Option ScopeId
  frame : Option Frame
  /-- The names are the variants of an enum: no code ever runs in the scope. -/
  isEnum : Bool := false

namespace Scope

instance : Inhabited Scope := ⟨{ bindings := [], parent := none, frame := none }⟩

end Scope

/-- A call put off by `defer`, and the scope to evaluate it in. -/
structure Deferred where
  call : Expr
  scope : ScopeId

/-- Where printed text goes. -/
inductive Sink where
  | capture
  | discard
  deriving DecidableEq, Repr, Inhabited

/-- The calls of a task that have not ended, the innermost first, and how many
there may be. -/
structure CallStack where
  frames : List Frame
  limit : Option Nat
  deriving DecidableEq, Repr, Inhabited

namespace CallStack

def empty (limit : Option Nat) : CallStack := ⟨[], limit⟩

def depth (s : CallStack) : Nat := s.frames.length

/-- Whether the limit allows no further frame. -/
def isFull (s : CallStack) : Bool :=
  match s.limit with
  | some limit => limit ≤ s.depth
  | none => false

/-- The stack with one more frame; `none` beyond the limit. -/
def push? (s : CallStack) (f : Frame) : Option CallStack :=
  if s.isFull then none else some { s with frames := f :: s.frames }

def pop (s : CallStack) : CallStack := { s with frames := s.frames.tail }

def top? (s : CallStack) : Option Frame := s.frames.head?

def clear (s : CallStack) : CallStack := { s with frames := [] }

/-- What was called from where, the innermost call first. -/
def backtrace (s : CallStack) : List String :=
  s.frames.map fun f => f.name ++ " (called at " ++ f.callSite.text ++ ")"

theorem pop_of_push? {s t : CallStack} {f : Frame} (h : s.push? f = some t) : t.pop = s := by
  unfold push? at h
  split at h
  · exact absurd h (by simp)
  · obtain rfl := Option.some.inj h
    simp [pop]

end CallStack

/-- What a task holds for itself: where it evaluates, what it is in the middle
of, and where its output goes. -/
structure Fiber where
  /-- The number of the thread of control; units evaluated for `include` share
  the number of the task that includes them. -/
  thread : Nat
  scope : ScopeId
  stack : CallStack
  /-- The position of the node being evaluated. -/
  pos : Position
  sink : Sink
  deriving Inhabited

/-- A task that has been asked for and has not begun. -/
structure Spawned where
  call : Expr
  fiber : Fiber

structure Store where
  arrays : Array (Array Value) := #[]
  hashes : Array Dict := #[]
  scopes : Array Scope := #[]
  /-- The deferred calls of each frame, in order of registration. -/
  deferred : Array (List Deferred) := #[]
  /-- The number of functions made so far. -/
  functions : Nat := 0
  channels : Array Channel := #[]
  waitGroups : Array WaitGroup := #[]
  mutexes : Array Mutex := #[]
  rwMutexes : Array RWMutex := #[]
  conds : Array Cond := #[]
  onces : Array Once := #[]
  hosts : Array HostObject := #[]
  /-- The text captured so far. -/
  output : String := ""
  /-- Values that the host publishes under a name. -/
  registry : Assoc Value := []
  modules : ModuleCache := .empty
  /-- The units that can be included; `none` without a loader. -/
  programs : Option (Assoc Program) := none
  /-- The thread that is evaluating a unit, and how deeply it has included. -/
  including : Option (Nat × Nat) := none
  spawned : List Spawned := []
  /-- The number of threads of control made so far. -/
  threads : Nat := 0
  /-- The number of spawned tasks that have not ended. -/
  running : Nat := 0

namespace Store

instance : Inhabited Store := ⟨{}⟩

/-- A table with room for a cell at a position. -/
def withCell {α : Type} (xs : Array α) (i : Nat) (empty : α) : Array α :=
  if i < xs.size then xs else xs ++ Array.replicate (i + 1 - xs.size) empty

/-! ## Arrays and hashes -/

def array (σ : Store) (id : ArrayId) : Array Value := σ.arrays.getD id.index #[]

def setArray (σ : Store) (id : ArrayId) (items : Array Value) : Store :=
  { σ with arrays := σ.arrays.setIfInBounds id.index items }

def modifyArray (σ : Store) (id : ArrayId) (f : Array Value → Array Value) : Store :=
  { σ with arrays := σ.arrays.modify id.index f }

def newArray (σ : Store) (items : Array Value) : Value × Store :=
  (.array ⟨σ.arrays.size⟩, { σ with arrays := σ.arrays.push items })

def dict (σ : Store) (id : HashId) : Dict := σ.hashes.getD id.index .empty

def modifyDict (σ : Store) (id : HashId) (f : Dict → Dict) : Store :=
  { σ with hashes := (withCell σ.hashes id.index .empty).modify id.index f }

def newDict (σ : Store) (d : Dict) : Value × Store :=
  (.hash ⟨σ.hashes.size⟩, { σ with hashes := σ.hashes.push d })

/-! ## Scopes -/

def scope (σ : Store) (id : ScopeId) : Scope := σ.scopes.getD id.index default

def addScope (σ : Store) (scope : Scope) : ScopeId × Store :=
  (⟨σ.scopes.size⟩, { σ with scopes := σ.scopes.push scope })

def newScope (σ : Store) (parent : Option ScopeId) (frame : Option Frame) : ScopeId × Store :=
  σ.addScope { bindings := [], parent, frame }

/-- A scope without a parent. -/
def rootScope (σ : Store) : ScopeId × Store := σ.newScope none none

/-- A scope for a block or an iteration inside of another. -/
def childScope (σ : Store) (parent : ScopeId) : ScopeId × Store := σ.newScope (some parent) none

/-- The scope of a call, inside of the scope that the function was made in. -/
def activation (σ : Store) (parent : ScopeId) (frame : Frame) : ScopeId × Store :=
  σ.newScope (some parent) (some frame)

/-- The scope of an enum, inside of another. -/
def newEnum (σ : Store) (parent : ScopeId) (members : List (String × Value)) : ScopeId × Store :=
  σ.addScope
    { bindings := .ofEntries members, parent := some parent, frame := none, isEnum := true }

/-- The scopes from `id` outwards, no more than `fuel` of them. -/
def chainFrom (σ : Store) : Nat → ScopeId → List ScopeId
  | 0, _ => []
  | fuel + 1, id =>
    id ::
      match (σ.scope id).parent with
      | some parent => chainFrom σ fuel parent
      | none => []

/-- The scopes from `id` outwards.  A parent is older than its children, so the
chain has no more members than there are scopes. -/
def chain (σ : Store) (id : ScopeId) : List ScopeId := σ.chainFrom (id.index + 1) id

/-- What a name stands for in one scope. -/
def getLocal? (σ : Store) (id : ScopeId) (name : String) : Option Value :=
  (σ.scope id).bindings.get? name

/-- The nearest scope outwards that binds a name. -/
def binder? (σ : Store) (id : ScopeId) (name : String) : Option ScopeId :=
  (σ.chain id).find? fun s => (σ.scope s).bindings.contains name

/-- What a name stands for, seen from a scope. -/
def get? (σ : Store) (id : ScopeId) (name : String) : Option Value :=
  (σ.binder? id name).bind fun s => σ.getLocal? s name

/-- Binds a name in a scope. -/
def bind (σ : Store) (id : ScopeId) (name : String) (v : Value) : Store :=
  { σ with scopes := σ.scopes.modify id.index fun s =>
      { s with bindings := s.bindings.set name v } }

/-- Gives a new value to the nearest binding of a name, and answers the old one;
`none` if the name is not bound. -/
def reset? (σ : Store) (id : ScopeId) (name : String) (v : Value) : Option (Value × Store) := do
  let s ← σ.binder? id name
  let old ← σ.getLocal? s name
  return (old, σ.bind s name v)

/-- The names that can be seen from a scope, each once, innermost first. -/
def names (σ : Store) (id : ScopeId) : List String :=
  (σ.chain id).foldl (fun seen s =>
    seen ++ (σ.scope s).bindings.names.filter (!seen.contains ·)) []

/-- The members of a scope by name. -/
def members (σ : Store) (id : ScopeId) : Assoc Value := (σ.scope id).bindings

/-- The frame of the nearest call outwards. -/
def frame? (σ : Store) (id : ScopeId) : Option Frame :=
  (σ.chain id).findSome? fun s => (σ.scope s).frame

/-! ## Frames -/

def newFrame (σ : Store) (name : String) (callSite : Position) : Frame × Store :=
  (⟨⟨σ.deferred.size⟩, name, callSite⟩, { σ with deferred := σ.deferred.push [] })

def deferredOf (σ : Store) (f : FrameId) : List Deferred := σ.deferred.getD f.index []

/-- Puts a call off to the end of the call that a frame belongs to. -/
def defer (σ : Store) (f : FrameId) (d : Deferred) : Store :=
  { σ with deferred := σ.deferred.modify f.index (· ++ [d]) }

/-- Takes the calls put off, in order of registration. -/
def takeDeferred (σ : Store) (f : FrameId) : List Deferred × Store :=
  (σ.deferredOf f, { σ with deferred := σ.deferred.setIfInBounds f.index [] })

/-! ## Functions, channels and objects -/

def newFunction (σ : Store) (lit : FunctionLit) (scope : ScopeId) : Value × Store :=
  (.function ⟨⟨σ.functions⟩, lit, scope⟩, { σ with functions := σ.functions + 1 })

def channel (σ : Store) (id : ChannelId) : Channel := σ.channels.getD id.index default

def setChannel (σ : Store) (id : ChannelId) (c : Channel) : Store :=
  { σ with channels := (withCell σ.channels id.index default).setIfInBounds id.index c }

def newChannel (σ : Store) (capacity : Nat) : Value × Store :=
  (.channel ⟨σ.channels.size⟩, { σ with channels := σ.channels.push (.ofCapacity capacity) })

def waitGroup (σ : Store) (id : WaitGroupId) : WaitGroup := σ.waitGroups.getD id.index .new

def setWaitGroup (σ : Store) (id : WaitGroupId) (w : WaitGroup) : Store :=
  { σ with waitGroups := σ.waitGroups.setIfInBounds id.index w }

def newWaitGroup (σ : Store) : Value × Store :=
  (.object (.waitGroup ⟨σ.waitGroups.size⟩), { σ with waitGroups := σ.waitGroups.push .new })

def mutex (σ : Store) (id : MutexId) : Mutex := σ.mutexes.getD id.index .new

def setMutex (σ : Store) (id : MutexId) (m : Mutex) : Store :=
  { σ with mutexes := σ.mutexes.setIfInBounds id.index m }

def newMutex (σ : Store) : Value × Store :=
  (.object (.mutex ⟨σ.mutexes.size⟩), { σ with mutexes := σ.mutexes.push .new })

def rwMutex (σ : Store) (id : RWMutexId) : RWMutex := σ.rwMutexes.getD id.index .new

def setRWMutex (σ : Store) (id : RWMutexId) (m : RWMutex) : Store :=
  { σ with rwMutexes := σ.rwMutexes.setIfInBounds id.index m }

def newRWMutex (σ : Store) : Value × Store :=
  (.object (.rwMutex ⟨σ.rwMutexes.size⟩), { σ with rwMutexes := σ.rwMutexes.push .new })

def cond (σ : Store) (id : CondId) : Cond := σ.conds.getD id.index (.new none)

def setCond (σ : Store) (id : CondId) (c : Cond) : Store :=
  { σ with conds := σ.conds.setIfInBounds id.index c }

def newCond (σ : Store) (mutex : Option MutexId) : Value × Store :=
  (.object (.cond ⟨σ.conds.size⟩), { σ with conds := σ.conds.push (.new mutex) })

def once (σ : Store) (id : OnceId) : Once := σ.onces.getD id.index .new

def setOnce (σ : Store) (id : OnceId) (o : Once) : Store :=
  { σ with onces := σ.onces.setIfInBounds id.index o }

def newOnce (σ : Store) : Value × Store :=
  (.object (.once ⟨σ.onces.size⟩), { σ with onces := σ.onces.push .new })

def host (σ : Store) (id : HostId) : HostObject := σ.hosts.getD id.index default

/-- Replaces the text that an object of the host keeps. -/
def setHostText (σ : Store) (id : HostId) (text : String) : Store :=
  { σ with hosts := σ.hosts.setIfInBounds id.index { σ.host id with text := text } }

def newHost (σ : Store) (kind : String) (key : Option Int64) (methods : List String)
    (o : HostObject) : Value × Store :=
  (.object (.host ⟨σ.hosts.size⟩ kind key methods), { σ with hosts := σ.hosts.push o })

def newProbe (σ : Store) (kind : String) (key : Option Int64) (p : Probe) : Value × Store :=
  σ.newHost kind key Probe.names p.toHost

/-! ## Output and modules -/

/-- Prints a text; nothing is kept of what a silent task prints. -/
def print (σ : Store) (sink : Sink) (text : String) : Store :=
  match sink with
  | .capture => { σ with output := σ.output ++ text }
  | .discard => σ

/-- What a name stands for among the included modules: a module by its own name,
or else a member of the first module that has one of that name. -/
def moduleMember? (σ : Store) (name : String) : Option Value :=
  match σ.modules.loaded.find? (·.name = name) with
  | some m => some (.module m)
  | none => σ.modules.loaded.findSome? fun m => σ.getLocal? m.scope name

/-- The names that `moduleMember?` finds. -/
def moduleNames (σ : Store) : List String :=
  σ.modules.loaded.flatMap fun m => m.name :: (σ.members m.scope).names

/-- A bound on how many references can follow each other from any value that
does not contain itself: on the way no cell occurs twice. -/
def depth (σ : Store) : Nat := σ.arrays.size + σ.hashes.size + σ.scopes.size + 1

end Store
end TreeWalk
