/-
Formatted texts.

A format is a text with directives `%[flags][width][.precision]verb`.  It is read
into pieces once, and then filled in from left to right; every directive takes
the next argument.  `%%` is a percent sign and takes none.
-/
import TreeWalk.Number.Decimal
import TreeWalk.Number.Reader
import TreeWalk.Store.Operator
import TreeWalk.Text.Quoted

namespace TreeWalk
namespace Format

/-- How a directive wants its text laid out. -/
structure Layout where
  /-- Fill up on the right. -/
  left : Bool := false
  /-- Fill numbers up with zeros, behind the sign. -/
  zero : Bool := false
  /-- Put a sign before numbers that are not negative, too. -/
  plus : Bool := false
  width : Nat := 0
  /-- The places of a float, or the length of a text.  From one version of the number
  formatter on, more than 65535 places are a fault; here they are written out, as by the
  versions before. -/
  precision : Option Nat := none
  deriving DecidableEq, Repr, Inhabited

namespace Layout

def isFlag (c : Char) : Bool := c = '-' || c = '0' || c = '+'

/-- The layout that a run of flags asks for. -/
def ofFlags (flags : List Char) : Layout :=
  { left := flags.contains '-', zero := flags.contains '0', plus := flags.contains '+' }

/-- The greatest number that a directive can name; greater ones count as this
one. -/
def numberLimit : Nat := Nat.pow 2 64 - 1

def number (digits : List Char) : Nat := min (Reader.digitsValue digits) numberLimit

/-- The precision at the start of a text, and what follows it. -/
def readPrecision : List Char → Option Nat × List Char
  | '.' :: cs => (some (number (cs.takeWhile Reader.isDigit)), cs.dropWhile Reader.isDigit)
  | cs => (none, cs)

/-- The layout at the start of a text, and what follows it. -/
def read (cs : List Char) : Layout × List Char :=
  let rest := cs.dropWhile isFlag
  let (precision, rest') := readPrecision (rest.dropWhile Reader.isDigit)
  ({ ofFlags (cs.takeWhile isFlag) with
      width := number (rest.takeWhile Reader.isDigit), precision := precision }, rest')

theorem length_dropWhile_le (p : Char → Bool) (cs : List Char) :
    (cs.dropWhile p).length ≤ cs.length := (List.dropWhile_suffix p).length_le

theorem length_readPrecision_le (cs : List Char) :
    (readPrecision cs).2.length ≤ cs.length := by
  unfold readPrecision
  split
  · exact Nat.le_succ_of_le (length_dropWhile_le _ _)
  · exact Nat.le_refl _

/-- Reading a layout never makes a text longer. -/
theorem length_read_le (cs : List Char) : (read cs).2.length ≤ cs.length :=
  Nat.le_trans (length_readPrecision_le _)
    (Nat.le_trans (length_dropWhile_le _ _) (length_dropWhile_le _ _))

end Layout

/-- A part of a format. -/
inductive Piece where
  | literal (c : Char)
  | directive (layout : Layout) (verb : Char)
  /-- The format ends before the verb of its last directive. -/
  | unfinished
  deriving DecidableEq, Repr, Inhabited

/-- The pieces of a format. -/
def pieces : List Char → List Piece
  | [] => []
  | '%' :: '%' :: cs => .literal '%' :: pieces cs
  | '%' :: cs =>
    match _hread : Layout.read cs with
    | (_, []) => [.unfinished]
    | (layout, verb :: rest) => .directive layout verb :: pieces rest
  | c :: cs => .literal c :: pieces cs
termination_by cs => cs.length
decreasing_by
  · simp only [List.length_cons]
    omega
  · have hle := Layout.length_read_le cs
    rw [_hread] at hle
    simp only [List.length_cons] at hle ⊢
    omega
  · simp only [List.length_cons]
    omega

/-- Why a format cannot be filled in. -/
inductive Problem where
  | unfinished
  | missing (verb : Char)
  | surplus (count : Nat)
  | mismatch (verb : Char) (expected kind : String)
  | unknownVerb (verb : Char)
  /-- The text asked for is greater than any text can be. -/
  | tooWide
  deriving DecidableEq, Repr, Inhabited

namespace Problem

def message : Problem → String
  | unfinished => "format string ends in the middle of a directive"
  | missing verb => "missing argument for %" ++ verb.toString
  | surplus count => toString count ++ " argument(s) not consumed by the format string"
  | mismatch verb expected kind =>
    "%" ++ verb.toString ++ " expects " ++ expected ++ ", got " ++ kind
  | unknownVerb verb => "unknown verb %" ++ verb.toString
  | tooWide => "capacity overflow"

end Problem

/-- The text of an argument, and whether it is filled up like a number. -/
structure Body where
  text : List Char
  numeric : Bool
  deriving DecidableEq, Repr, Inhabited

namespace Body

def plain (text : String) : Body := ⟨text.toList, false⟩

/-- A number, with a sign before it if the layout asks for one. -/
def number (layout : Layout) (text : String) (nonNegative : Bool) : Body :=
  ⟨if layout.plus && nonNegative then '+' :: text.toList else text.toList, true⟩

/-- The sign of a number, if it has one, and the rest. -/
def splitSign : List Char → List Char × List Char
  | '-' :: rest => (['-'], rest)
  | '+' :: rest => (['+'], rest)
  | rest => ([], rest)

/-- The text filled up to the width of the layout. -/
def fill (layout : Layout) (body : Body) : List Char :=
  let missing := layout.width - body.text.length
  if layout.left then body.text ++ List.replicate missing ' '
  else if layout.zero && body.numeric then
    let (sign, digits) := splitSign body.text
    sign ++ List.replicate missing '0' ++ digits
  else List.replicate missing ' ' ++ body.text

theorem length_splitSign (text : List Char) :
    (splitSign text).1.length + (splitSign text).2.length = text.length := by
  unfold splitSign
  split <;> simp [Nat.add_comm]

/-- A filled text is as long as its width, or longer only if it was before. -/
theorem length_fill (layout : Layout) (body : Body) :
    (body.fill layout).length = max layout.width body.text.length := by
  have h := length_splitSign body.text
  unfold fill
  split
  · simp
    omega
  · split
    · simp
      omega
    · simp
      omega

end Body

/-- The text of a float, with a fixed number of places if a precision is given. -/
def floatText (x : Double) (precision : Option Nat) : String :=
  match precision with
  | some places => Decimal.fixedText x places
  | none => Decimal.text x

/-- The text of an integer in hexadecimal, a negative one by its 64 bits. -/
def hexText (n : Int64) : String := Quoted.hex (Word.bits n).toNat

/-- What a directive makes of its argument, before it is filled up. -/
def body (display : Value → String) (layout : Layout) (verb : Char) (arg : Value) :
    Except Problem Body :=
  match verb with
  | 'v' =>
    match arg.int?, arg.number? with
    | some n, _ => .ok (.number layout (toString n.toInt) (0 ≤ n))
    | none, some x => .ok (.number layout (floatText x layout.precision) (.zero ≤ x))
    | none, none => .ok (.plain (display arg))
  | 's' =>
    let text := (display arg).toList
    .ok ⟨(layout.precision.map text.take).getD text, false⟩
  | 'd' =>
    match arg.int? with
    | some n => .ok (.number layout (toString n.toInt) (0 ≤ n))
    | none => .error (.mismatch verb "INTEGER" arg.kind)
  | 'x' =>
    match arg.int? with
    | some n => .ok ⟨(hexText n).toList, true⟩
    | none => .error (.mismatch verb "INTEGER" arg.kind)
  | 'f' =>
    match arg.number? with
    | some x => .ok (.number layout (Decimal.fixedText x (layout.precision.getD 6)) (.zero ≤ x))
    | none => .error (.mismatch verb "a number" arg.kind)
  | 't' =>
    match arg with
    | .bool ⟨b, true, _⟩ => .ok (.plain (if b then "true" else "false"))
    | _ => .error (.mismatch verb "BOOLEAN" arg.kind)
  | 'q' => .ok (.plain (Quoted.quote (display arg)))
  | _ => .error (.unknownVerb verb)

/-- What a directive makes of its argument. -/
def directiveText (display : Value → String) (layout : Layout) (verb : Char) (arg : Value) :
    Except Problem (List Char) := do
  let b ← body display layout verb arg
  if Atomic.sizeLimit < layout.width - b.text.length then .error .tooWide
  else .ok (b.fill layout)

/-- Pieces filled in with arguments, from left to right. -/
def fillIn (display : Value → String) : List Piece → List Value → Except Problem (List Char)
  | [], [] => .ok []
  | [], args => .error (.surplus args.length)
  | .literal c :: rest, args => do return c :: (← fillIn display rest args)
  | .unfinished :: _, _ => .error .unfinished
  | .directive _ verb :: _, [] => .error (.missing verb)
  | .directive layout verb :: rest, arg :: args => do
    let text ← directiveText display layout verb arg
    return text ++ (← fillIn display rest args)

/-- A format filled in with arguments. -/
def text (display : Value → String) (format : String) (args : List Value) :
    Except Problem String := do
  return String.ofList (← fillIn display (pieces format.toList) args)

/-- A format filled in with arguments, or a failure. -/
def fillOut {M : Type → Type} [Monad M] [Effects M] (format : String) (args : List Value)
    (pos : Position) : M String := do
  match ← Atomic.read fun σ => text σ.display format args with
  | .ok s => return s
  | .error .tooWide => Atomic.fault Problem.tooWide.message
  | .error problem => Atomic.fail (.format problem.message) pos

/-- The same, all or nothing. -/
def render (format : String) (args : List Value) (pos : Position) : Atomic String :=
  fillOut format args pos

end Format
end TreeWalk
