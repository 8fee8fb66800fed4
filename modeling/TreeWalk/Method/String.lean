/-
Methods of strings.

Lengths and positions count characters.
-/
import TreeWalk.Method.Scalar
import TreeWalk.Number.Reader
import TreeWalk.Text.LetterCase
import TreeWalk.Text.Search

namespace TreeWalk

open Atomic

variable {M : Type → Type} [Monad M] [Effects M]

inductive StringMethod where
  | chars | contains | float | hasPrefix | hasSuffix | index | int | isValid | len | lower
  | replace | reverse | setValid | split | toString | trim | upper
  deriving DecidableEq, Repr, Inhabited

namespace StringMethod

def names : List String :=
  ["chars", "contains", "float", "hasPrefix", "hasSuffix", "index", "int", "isValid", "len",
   "lower", "replace", "reverse", "setValid", "split", "toString", "trim", "upper"]

def ofName? (method : String) : Option StringMethod :=
  match method with
  | "isValid" => some isValid
  | "setValid" => some setValid
  | "toString" => some toString
  | _ =>
    if names.contains method then
      match method with
      | "len" => some len
      | "upper" => some upper
      | "lower" => some lower
      | "trim" => some trim
      | "reverse" => some reverse
      | "chars" => some chars
      | "split" => some split
      | "contains" => some contains
      | "hasPrefix" => some hasPrefix
      | "hasSuffix" => some hasSuffix
      | "replace" => some replace
      | "index" => some index
      | "int" => some int
      | _ => some float
    else none

instance : MethodTable StringMethod := ⟨names, ofName?⟩

/-- An array of texts. -/
def texts (parts : List (List Char)) : M Value :=
  newArray (parts.map fun part => .ofString (String.ofList part))

/-- A text without the white space around it. -/
def trimmed (s : String) : String := String.ofList (Search.trim s.toList)

/-- The first position at which a text occurs, or -1. -/
def position (needle text : List Char) : Value :=
  match Search.position? needle text with
  | some i => .ofLength i
  | none => .ofInt (-1)

/-- The methods of a string that is not NULL. -/
def apply (s : String) (m : StringMethod) (args : Args) : M Value := do
  match m with
  | len =>
    args.empty
    return .ofLength s.length
  | upper =>
    args.empty
    return .ofString (LetterCase.upper s)
  | lower =>
    args.empty
    return .ofString (LetterCase.lower s)
  | trim =>
    args.empty
    return .ofString (trimmed s)
  | reverse =>
    args.empty
    return .ofString (String.ofList s.toList.reverse)
  | chars =>
    args.empty
    texts (Search.split [] s.toList)
  | split =>
    match ← args.upToOne with
    | none => texts (Search.words s.toList)
    | some v =>
      let separator ← args.string 0 v
      texts (Search.split separator.toList s.toList)
  | contains =>
    let t ← args.string 0 (← args.one)
    return .ofBool (Search.contains t.toList s.toList)
  | hasPrefix =>
    let t ← args.string 0 (← args.one)
    return .ofBool (t.toList.isPrefixOf s.toList)
  | hasSuffix =>
    let t ← args.string 0 (← args.one)
    return .ofBool (t.toList.isSuffixOf s.toList)
  | replace =>
    let (a, b) ← args.two
    let old ← args.string 0 a
    let new ← args.string 1 b
    return .ofString (String.ofList (Search.replace old.toList new.toList s.toList))
  | index =>
    let t ← args.string 0 (← args.one)
    return position t.toList s.toList
  | int =>
    args.empty
    match Reader.integer? (trimmed s) with
    | some n => return .ofInt n
    | none => fail (.conversion (← read (·.inspect (.ofString s))) "INTEGER") args.pos
  | float =>
    args.empty
    match Reader.float? (trimmed s) with
    | some x => return .ofFloat x
    | none => fail (.conversion (← read (·.inspect (.ofString s))) "FLOAT") args.pos
  | isValid => args.isValid true
  | setValid => return .str ((Nullable.some s).withValid (← args.flag))
  | toString => args.toString (.ofString s)

def run (s : Nullable String) (m : StringMethod) (args : Args) : M Value := do
  match m with
  | isValid => args.isValid s.valid
  | setValid => return .str (s.withValid (← args.flag))
  | toString => args.toString (.str s)
  | m => m.apply (← args.receiver "STRING" s) args

end StringMethod
end TreeWalk
