/-
The functions that are part of the language.

None of them waits or calls a script; those that print are told where the output of the
caller goes.
-/
import TreeWalk.Format
import TreeWalk.Method.String

namespace TreeWalk
namespace Native

open Atomic

variable {M : Type → Type} [Monad M] [Effects M]

/-- What several values show, with a space between any two. -/
def displayAll (values : List Value) : M String := do
  return " ".intercalate (← read fun σ => values.map σ.display)

/-- Fails because a value has no counterpart of a kind. -/
def failConversion (v : Value) (target : String) (pos : Position) : M Value := do
  fail (.conversion (← read (·.inspect v)) target) pos

/-- `printf` -/
def printFormatted (sink : Sink) (args : Args) : M Value := do
  match args.values with
  | [] => args.failCount "at least 1"
  | format :: rest =>
    let text ← Format.fillOut (← args.string 0 format) rest args.pos
    update (·.print sink text)
    return .nothing

/-- Writes a text to an object, if it takes texts. -/
def writeTo (writer : Value) (text : String) (args : Args) : M Value := do
  match writer with
  | .object (.host id _ _ _) =>
    let o ← read (·.host id)
    match o.write o.text text with
    | some (.ok kept) =>
      update (·.setHostText id kept)
      return .nothing
    | some (.error message) => fail (.host message) args.pos
    | none => args.failInput writer.kind
  | _ => args.failInput writer.kind

/-- `fprintf` -/
def writeFormatted (args : Args) : M Value := do
  match args.values with
  | writer :: format :: rest =>
    let text ← Format.fillOut (← args.string 1 format) rest args.pos
    writeTo writer text args
  | _ => args.failCount "at least 2"

/-- `len` -/
def length (args : Args) : M Value := do
  let v ← args.one
  match v with
  | .str s =>
    match s.get? with
    | some s => return .ofLength s.length
    | none => args.failInput v.kind
  | .array id => return .ofLength (← read (·.array id)).size
  | .hash id => return .ofLength (← read (·.dict id)).size
  | .tuple items _ => return .ofLength items.length
  | .range r => return .ofLength r.length
  | .channel id => return .ofLength (← read (·.channel id)).length
  | _ => args.failInput v.kind

/-- `int` -/
def toInt (args : Args) : M Value := do
  let v ← args.one
  match v with
  | .int _ => return v
  | .bool b =>
    if b.valid then return .ofInt (if b.value then 1 else 0)
    else failConversion v "INTEGER" args.pos
  | .float x => FloatMethod.int.run x { args with values := [] }
  | .str s => StringMethod.int.run s { args with values := [] }
  | _ => failConversion v "INTEGER" args.pos

/-- `float` -/
def toFloat (args : Args) : M Value := do
  let v ← args.one
  match v with
  | .float _ => return v
  | .int n => IntMethod.float.run n { args with values := [] }
  | .str s => StringMethod.float.run s { args with values := [] }
  | _ => failConversion v "FLOAT" args.pos

/-- `assert` -/
def check (args : Args) : M Value := do
  let (v, message?) ← args.oneOrTwo
  if ← read (·.truthy v) then return .nothing
  else
    match message? with
    | some m => fail (.assertionFailed (← read (·.display m))) args.pos
    | none => fail (.assertionFailed ((← read (·.inspect v)) ++ " is not truthy")) args.pos

/-- `chan` -/
def newChannel (args : Args) : M Value := do
  match ← args.upToOne with
  | none => change (·.newChannel 0)
  | some v =>
    match v.int? with
    | some n =>
      if 0 ≤ n then change (·.newChannel n.toInt.toNat)
      else args.failKind 0 "non-negative INTEGER" v
    | none => args.failKind 0 "non-negative INTEGER" v

/-- `range(n)` counts from 0 up to `n - 1`, and `range(a, b)` from `a` to `b`. -/
def newRange (args : Args) : M Value := do
  let (a, b?) ← args.oneOrTwo
  let m ← args.int 0 a
  match b? with
  | none => return .range ⟨0, Word.saturate (m.toInt - 1)⟩
  | some b => return .range ⟨m, ← args.int 1 b⟩

/-- `sync.Cond`, possibly bound to a lock. -/
def newCondition (args : Args) : M Value := do
  match ← args.upToOne with
  | none => change (·.newCond none)
  | some (.object (.mutex id)) => change (·.newCond (some id))
  | some v => args.failKind 0 "MUTEX" v

/-- What a function of the language does. -/
def perform (f : Native) (values : List Value) (pos : Position) (sink : Sink) : M Value := do
  let args : Args := ⟨f.name, values, pos⟩
  match f with
  | .assert => check args
  | .chan => newChannel args
  | .float => toFloat args
  | .fprintf => writeFormatted args
  | .int => toInt args
  | .len => length args
  | .print =>
    let text ← displayAll values
    update (·.print sink text)
    return .nothing
  | .printf => printFormatted sink args
  | .println =>
    let text ← displayAll values
    update (·.print sink (text ++ "\n"))
    return .nothing
  | .range => newRange args
  | .str =>
    let v ← args.one
    return .ofString (← read (·.display v))
  | .type =>
    let v ← args.one
    return .ofString v.kind
  | .newWaitGroup => change (·.newWaitGroup)
  | .newMutex => change (·.newMutex)
  | .newRWMutex => change (·.newRWMutex)
  | .newCond => newCondition args
  | .newOnce => change (·.newOnce)

/-- Calls a function of the language, all or nothing. -/
def run (f : Native) (values : List Value) (pos : Position) (sink : Sink) : Atomic Value :=
  f.perform values pos sink

end Native
end TreeWalk
