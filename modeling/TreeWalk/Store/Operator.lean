/-
The operators.

What an infix operator does depends on the kinds of both operands.  The cases are
tried in this order: NULL operands, which know only equality; membership;
integers; numbers; arrays; strings; a string with something else; hashes; and
equality of anything.  An operator that no case defines is an error.

Integers are exact or refused: a result outside of 64 bits is an error and never
wraps.
-/
import TreeWalk.Number.Binary
import TreeWalk.Regex
import TreeWalk.Store.Atomic
import TreeWalk.Text.Search

namespace TreeWalk
namespace Operator

open Atomic

def mismatch {α : Type} (op : InfixOp) (a b : Value) (pos : Position) : Atomic α :=
  fail (.infixOp a.kind op.symbol b.kind) pos

/-- The integer, or an overflow of the named operation. -/
def exact (n? : Option Int64) (operation : String) (pos : Position) : Atomic Value :=
  match n? with
  | some n => pure (.ofInt n)
  | none => fail (.integerOverflow operation) pos

/-- Operators between integers.  Division leaves the integers, and so does a
negative exponent. -/
def onInts (op : InfixOp) (a b : Int64) (pos : Position) : Atomic Value :=
  match op with
  | .add => exact (Word.add? a b) "addition" pos
  | .sub => exact (Word.sub? a b) "subtraction" pos
  | .mul => exact (Word.mul? a b) "multiplication" pos
  | .div => if b = 0 then fail .divideByZero pos else pure (.ofFloat (.ofInt a / .ofInt b))
  | .mod => if b = 0 then fail .divideByZero pos else exact (Word.rem? a b) "remainder" pos
  | .pow =>
    if b < 0 then pure (.ofFloat (Double.pow (.ofInt a) (.ofInt b)))
    else if b.toInt < Int.pow 2 32 then exact (Word.pow? a b.toInt.toNat) "exponentiation" pos
    else exact none "exponentiation" pos
  | .eq => pure (.ofBool (a == b))
  | .notEq => pure (.ofBool (a != b))
  | .lt => pure (.ofBool (a < b))
  | .ltEq => pure (.ofBool (a ≤ b))
  | .gt => pure (.ofBool (a > b))
  | .gtEq => pure (.ofBool (a ≥ b))
  | .bitAnd => pure (.ofInt (a &&& b))
  | .bitOr => pure (.ofInt (a ||| b))
  | .bitXor => pure (.ofInt (a ^^^ b))
  | .shl => if 0 ≤ b ∧ b < 64 then pure (.ofInt (a <<< b)) else fail (.shiftRange b) pos
  | .shr => if 0 ≤ b ∧ b < 64 then pure (.ofInt (a >>> b)) else fail (.shiftRange b) pos
  | .and | .or | .isMatch | .notMatch | .mem => mismatch op (.ofInt a) (.ofInt b) pos

/-- Operators between numbers of which at least one is a float. -/
def onFloats (op : InfixOp) (x y : Double) (a b : Value) (pos : Position) : Atomic Value :=
  match op with
  | .add => pure (.ofFloat (x + y))
  | .sub => pure (.ofFloat (x - y))
  | .mul => pure (.ofFloat (x * y))
  | .div => if y == .zero then fail .divideByZero pos else pure (.ofFloat (x / y))
  | .mod => if y == .zero then fail .divideByZero pos else pure (.ofFloat (Binary.remainder x y))
  | .pow => pure (.ofFloat (x.pow y))
  | .eq => pure (.ofBool (x == y))
  | .notEq => pure (.ofBool (x != y))
  | .lt => pure (.ofBool (x < y))
  | .ltEq => pure (.ofBool (x ≤ y))
  | .gt => pure (.ofBool (x > y))
  | .gtEq => pure (.ofBool (x ≥ y))
  | _ => mismatch op a b pos

/-- How often to repeat: an integer, where a negative one counts as zero. -/
def repeatCount? (v : Value) : Option Nat := v.int?.map (·.toInt.toNat)

/-- A list repeated `n` times. -/
def repeatList {α : Type} (items : List α) (n : Nat) : List α := (List.replicate n items).flatten

def repeatArray (id : ArrayId) (n : Nat) : Atomic Value := do
  let items := (← read (·.array id)).toList
  reserve (items.length * n * elementSize)
  if items.isEmpty then newArray []
  else newArray (repeatList items n)

def repeatString (s : String) (n : Nat) : Atomic Value := do
  reserve (s.utf8ByteSize * n)
  if s = "" then return .ofString ""
  else return .ofString (String.join (List.replicate n s))

/-- Operators of which one side is an array: concatenation, appending, prepending,
repetition and equality. -/
def onArrays (op : InfixOp) (a b : Value) (pos : Position) : Atomic Value := do
  match op, a, b with
  | .add, .array i, .array j =>
    newArray ((← read (·.array i)).toList ++ (← read (·.array j)).toList)
  | .add, .array i, _ => newArray ((← read (·.array i)).toList ++ [b])
  | .add, _, .array j => newArray (a :: (← read (·.array j)).toList)
  | .mul, .array i, _ =>
    match repeatCount? b with
    | some n => repeatArray i n
    | none => mismatch op a b pos
  | .mul, _, .array j =>
    match repeatCount? a with
    | some n => repeatArray j n
    | none => mismatch op a b pos
  | .eq, _, _ => return .ofBool (← read (·.equal a b))
  | .notEq, _, _ => return .ofBool (!(← read (·.equal a b)))
  | _, _, _ => mismatch op a b pos

/-- A pattern made ready, or a failure that names it. -/
def pattern (text : String) (pos : Position) : Atomic Regex :=
  match Regex.ofText text with
  | .ok r => pure r
  | .error detail => fail (.regex text detail) pos

/-- Operators between strings. -/
def onStrings (op : InfixOp) (s t : String) (a b : Value) (pos : Position) : Atomic Value := do
  match op with
  | .add => return .ofString (s ++ t)
  | .eq => return .ofBool (s == t)
  | .notEq => return .ofBool (s != t)
  | .lt => return .ofBool (s < t)
  | .ltEq => return .ofBool (!(t < s))
  | .gt => return .ofBool (t < s)
  | .gtEq => return .ofBool (!(s < t))
  | .isMatch => return .ofBool ((← pattern t pos).isMatch s)
  | .notMatch => return .ofBool (!(← pattern t pos).isMatch s)
  | _ => mismatch op a b pos

/-- Equality and inequality, and nothing else. -/
def onAny (op : InfixOp) (a b : Value) (pos : Position) : Atomic Value := do
  match op with
  | .eq =>
    match ← read (·.equal? a b) with
    | some e => return .ofBool e
    | none => mismatch op a b pos
  | .notEq =>
    match ← read (·.equal? a b) with
    | some e => return .ofBool (!e)
    | none => mismatch op a b pos
  | _ => mismatch op a b pos

/-- Operators between a string and something that is no string: `+` joins what
both show, and `*` repeats the string. -/
def onStringAnd (op : InfixOp) (a b : Value) (pos : Position) : Atomic Value := do
  match op with
  | .add => return .ofString ((← read (·.display a)) ++ (← read (·.display b)))
  | .mul =>
    match a.string?, b.string? with
    | some s, none =>
      match repeatCount? b with
      | some n => repeatString s n
      | none => mismatch op a b pos
    | none, some s =>
      match repeatCount? a with
      | some n => repeatString s n
      | none => mismatch op a b pos
    | _, _ => mismatch op a b pos
  | _ => onAny op a b pos

/-- `a in b`. -/
def membership (a b : Value) (pos : Position) : Atomic Value := do
  match b with
  | .array id => return .ofBool (← read fun σ => (σ.array id).any (σ.equal a))
  | .tuple items _ => return .ofBool (← read fun σ => items.any (σ.equal a))
  | .hash id => return .ofBool (← read fun σ => (a.key?.map (σ.dict id).contains).getD false)
  | .range r => return .ofBool ((a.int?.map r.contains).getD false)
  | .str t =>
    match a.string? with
    | some s => return .ofBool (Search.contains s.toList t.payload.toList)
    | none => mismatch .mem a b pos
  | _ => mismatch .mem a b pos

/-- Operators between hashes: `+` merges them, the right one winning. -/
def onDicts (op : InfixOp) (i j : HashId) (pos : Position) : Atomic Value := do
  match op with
  | .add => newDict ((← read (·.dict i)).merge (← read (·.dict j)))
  | _ => onAny op (.hash i) (.hash j) pos

/-- `a op b`. -/
def binary (op : InfixOp) (a b : Value) (pos : Position) : Atomic Value := do
  match op with
  | .and => return .ofBool (← read fun σ => σ.truthy a && σ.truthy b)
  | .or => return .ofBool (← read fun σ => σ.truthy a || σ.truthy b)
  | _ =>
    if !a.isValid || !b.isValid then onAny op a b pos
    else if op = .mem then membership a b pos
    else
      match a, b with
      | .int m, .int n => onInts op m.payload n.payload pos
      | .array _, _ => onArrays op a b pos
      | _, .array _ => onArrays op a b pos
      | .str s, .str t => onStrings op s.payload t.payload a b pos
      | .str _, _ => onStringAnd op a b pos
      | _, .str _ => onStringAnd op a b pos
      | .hash i, .hash j => onDicts op i j pos
      | _, _ =>
        match a.number?, b.number? with
        | some x, some y => onFloats op x y a b pos
        | _, _ => onAny op a b pos

/-- `op a`. -/
def unary (op : PrefixOp) (a : Value) (pos : Position) : Atomic Value := do
  let refused : Atomic Value := fail (.prefixOp op.symbol a.kind) pos
  match op with
  | .not => return .ofBool (!(← read (·.truthy a)))
  | .neg =>
    match a with
    | .int n =>
      match n.get? with
      | some n => exact (Word.neg? n) "negation" pos
      | none => refused
    | .float x =>
      match x.get? with
      | some x => return .ofFloat (-x)
      | none => refused
    | _ => refused
  | .plus => if a.isNumeric && a.isValid then return a else refused
  | .bitNot =>
    match a.int? with
    | some n => return .ofInt (~~~n)
    | none => refused

end Operator
end TreeWalk
