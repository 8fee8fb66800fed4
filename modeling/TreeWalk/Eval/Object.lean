/-
Methods of channels and of objects.

Each of them is a few steps on the object, and between two steps other tasks may
run only where the method waits.
-/
import TreeWalk.Eval.Evaluator
import TreeWalk.Method.Object

namespace TreeWalk
namespace Object

open Eval

variable (ev : Evaluator)

/-- Offers a value to a channel; `none` if the channel is closed. -/
def offer (id : ChannelId) (v : Value) : Eval (Option Nat) :=
  change fun σ =>
    match (σ.channel id).offer? v with
    | some (ticket, c) => (some ticket, σ.setChannel id c)
    | none => (none, σ)

/-- Sends a value, and answers whether the channel accepted it. -/
def send (id : ChannelId) (v : Value) : Eval Bool := do
  match ← offer id v with
  | some ticket => await (.settled id ticket)
  | none => return false

/-- Closes a channel, and answers whether it was open. -/
def close (id : ChannelId) : Eval Bool :=
  change fun σ =>
    let (wasOpen, c) := (σ.channel id).close
    (wasOpen, σ.setChannel id c)

def onChannel (id : ChannelId) (m : ChannelMethod) (args : Args) : Eval Value := do
  match m with
  | .send =>
    let v ← lift args.one
    if ← send id v then return .nothing else fail .channelClosed args.pos
  | .recv =>
    lift args.empty
    return (← await (.received id)).getD .nothing
  | .close =>
    lift args.empty
    let _ ← close id
    return .nothing

/-- Changes the counter of a group. -/
def addTo (id : WaitGroupId) (delta : Int64) (pos : Position) : Atomic Value := do
  match (← Atomic.read (·.waitGroup id)).add? delta with
  | some w =>
    Atomic.update (·.setWaitGroup id w)
    return .nothing
  | none => Atomic.fail .waitGroupNegative pos

def onWaitGroup (id : WaitGroupId) (m : WaitGroupMethod) (args : Args) : Eval Value := do
  match m with
  | .add =>
    lift do
      let delta ← match ← args.upToOne with
        | some v => args.int 0 v
        | none => pure 1
      addTo id delta args.pos
  | .done =>
    lift do
      args.empty
      addTo id (-1) args.pos
  | .wait =>
    lift args.empty
    await (.allDone id)
    return .nothing

/-- Releases a lock of a kind. -/
def release (released? : Store → Option Store) (kind : String) (pos : Position) : Atomic Value := do
  match ← Atomic.read released? with
  | some σ =>
    Atomic.update fun _ => σ
    return .nothing
  | none => Atomic.fail (.unlock kind) pos

def onMutex (id : MutexId) (m : MutexMethod) (args : Args) : Eval Value := do
  match m with
  | .lock =>
    await (.locked id)
    return .nothing
  | .tryLock =>
    let taken ← change fun σ =>
      let (taken, m) := (σ.mutex id).tryLock
      (taken, σ.setMutex id m)
    return .ofBool taken
  | .unlock =>
    lift (release (fun σ => (σ.mutex id).unlock?.map (σ.setMutex id)) "MUTEX" args.pos)

def onRWMutex (id : RWMutexId) (m : RWMutexMethod) (args : Args) : Eval Value := do
  match m with
  | .lock =>
    await (.writeLocked id)
    return .nothing
  | .rlock =>
    await (.readLocked id)
    return .nothing
  | .unlock =>
    lift (release (fun σ => (σ.rwMutex id).unlock?.map (σ.setRWMutex id)) "RWMUTEX" args.pos)
  | .runlock =>
    lift (release (fun σ => (σ.rwMutex id).readUnlock?.map (σ.setRWMutex id)) "RWMUTEX" args.pos)

/-- A task begins to wait for a condition and gives up the lock that belongs to
it, in one step.  Answers what the task found and the lock. -/
def beginWait (id : CondId) (σ : Store) : (Waiter × Option MutexId) × Store :=
  let (waiter, c) := (σ.cond id).enter
  let σ := σ.setCond id c
  match c.mutex with
  | some m =>
    match (σ.mutex m).unlock? with
    | some unlocked => ((waiter, some m), σ.setMutex m unlocked)
    | none => ((waiter, some m), σ)
  | none => ((waiter, none), σ)

def onCond (id : CondId) (m : CondMethod) : Eval Value := do
  match m with
  | .wait =>
    let (waiter, mutex?) ← change (beginWait id)
    await (.woken id waiter)
    match mutex? with
    | some mutex =>
      await (.locked mutex)
      return .nothing
    | none => return .nothing
  | .signal =>
    update fun σ => σ.setCond id (σ.cond id).signal
    return .nothing
  | .broadcast =>
    update fun σ => σ.setCond id (σ.cond id).broadcast
    return .nothing

/-- Calls the function of the first call only.  Other calls wait until that one
has ended, however it ends. -/
def onOnce (id : OnceId) (args : Args) : Eval Value := do
  let f ← lift (do args.callable 0 (← args.one))
  await (.entered id)
  if (← read (·.once id)).done then
    update fun σ => σ.setOnce id (σ.once id).leave
    return .nothing
  else
    update fun σ => σ.setOnce id { σ.once id with done := true }
    let result ← protect (ev.callBack f [])
    update fun σ => σ.setOnce id (σ.once id).leave
    let _ ← ofResult result
    return .nothing

/-- Runs code of an object of the host, to which some values have been handed. -/
def onHost (id : HostId) : HostCode → List Value → Eval Value
  | .answer v, known => return v.value known
  | .raise e, _ => exit (.error e)
  | .panic message, _ => exit (.fault message)
  | .array items next, known => do
    let v ← change (·.newArray (items.map (·.value known)).toArray)
    onHost id next (known ++ [v])
  | .call f args next, known => do
    match ← attempt (ev.callBack (f.value known) (args.map (·.value known))) with
    | .ok v => onHost id (next (.ok v)) (known ++ [v])
    | .error (.error e) => onHost id (next (.error e)) known
    | .error e => exit e
  | .print text next, known => do
    let f ← fiber
    update (·.print f.sink text)
    onHost id next known
  | .fetch next, known => do
    let text ← read fun σ => (σ.host id).text
    onHost id (next text) known
  | .note text next, known => do
    update (·.setHostText id text)
    onHost id next known

/-- Fails to find a method, and suggests the most similar of the names that are listed. -/
def failMethod {α : Type} (names : List String) (kind : String) (args : Args) : Eval α :=
  fail (.noMethod args.name kind (Suggest.similar args.name names)) args.pos

/-- Runs the method that a call of this name finds. -/
def dispatch {μ : Type} [MethodTable μ] (kind : String) (args : Args) (run : μ → Eval Value) :
    Eval Value :=
  match MethodTable.find? args.name with
  | some m => run m
  | none => failMethod (MethodTable.names μ) kind args

/-- Runs a method of an object. -/
def call (o : ObjectRef) (args : Args) : Eval Value := do
  match o with
  | .waitGroup id => dispatch o.kind args (onWaitGroup id · args)
  | .mutex id =>
    lift args.empty
    dispatch o.kind args (onMutex id · args)
  | .rwMutex id =>
    lift args.empty
    dispatch o.kind args (onRWMutex id · args)
  | .cond id =>
    lift args.empty
    dispatch o.kind args (onCond id)
  | .once id => dispatch o.kind args fun (_ : OnceMethod) => onOnce ev id args
  | .host id _ _ _ =>
    let o ← read (·.host id)
    onHost ev id (o.run args.name args.values args.pos) args.values

end Object
end TreeWalk
