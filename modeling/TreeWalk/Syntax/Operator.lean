/-
The operators of the language and the symbols they are written with.

Each family lists its members in `all`, in the order in which the language
presents them; reading a symbol searches that list.
-/

namespace TreeWalk

/-- Operators between two operands. -/
inductive InfixOp where
  | add | sub | mul | div | mod | pow
  | eq | notEq | lt | ltEq | gt | gtEq
  | and | or
  | bitAnd | bitOr | bitXor | shl | shr
  | isMatch | notMatch | mem
  deriving DecidableEq, Repr, Inhabited

namespace InfixOp

def all : List InfixOp :=
  [.add, .sub, .mul, .div, .mod, .pow, .eq, .notEq, .lt, .ltEq, .gt, .gtEq, .and, .or,
    .bitAnd, .bitOr, .bitXor, .shl, .shr, .isMatch, .notMatch, .mem]

def symbol : InfixOp → String
  | add => "+"
  | sub => "-"
  | mul => "*"
  | div => "/"
  | mod => "%"
  | pow => "**"
  | eq => "=="
  | notEq => "!="
  | lt => "<"
  | ltEq => "<="
  | gt => ">"
  | gtEq => ">="
  | and => "&&"
  | or => "||"
  | bitAnd => "&"
  | bitOr => "|"
  | bitXor => "^"
  | shl => "<<"
  | shr => ">>"
  | isMatch => "=~"
  | notMatch => "!~"
  | mem => "in"

def ofSymbol? (s : String) : Option InfixOp := all.find? (·.symbol == s)

/-- Whether the operator answers a question of order or equality. -/
def isComparison : InfixOp → Bool
  | eq | notEq | lt | ltEq | gt | gtEq => true
  | _ => false

theorem ofSymbol?_symbol (op : InfixOp) : ofSymbol? op.symbol = some op := by
  cases op <;> decide

end InfixOp

/-- Operators before one operand. -/
inductive PrefixOp where
  | neg | plus | not | bitNot
  deriving DecidableEq, Repr, Inhabited

namespace PrefixOp

def all : List PrefixOp := [.neg, .plus, .not, .bitNot]

def symbol : PrefixOp → String
  | neg => "-"
  | plus => "+"
  | not => "!"
  | bitNot => "~"

def ofSymbol? (s : String) : Option PrefixOp := all.find? (·.symbol == s)

theorem ofSymbol?_symbol (op : PrefixOp) : ofSymbol? op.symbol = some op := by
  cases op <;> decide

end PrefixOp

/-- Operators after a place: `x++` and `x--`. -/
inductive PostfixOp where
  | increment | decrement
  deriving DecidableEq, Repr, Inhabited

namespace PostfixOp

def all : List PostfixOp := [.increment, .decrement]

def symbol : PostfixOp → String
  | increment => "++"
  | decrement => "--"

def ofSymbol? (s : String) : Option PostfixOp := all.find? (·.symbol == s)

theorem ofSymbol?_symbol (op : PostfixOp) : ofSymbol? op.symbol = some op := by
  cases op <;> decide

end PostfixOp

/-- Plain and compound assignment. -/
inductive AssignOp where
  | plain | add | sub | mul | div | mod
  deriving DecidableEq, Repr, Inhabited

namespace AssignOp

def all : List AssignOp := [.plain, .add, .sub, .mul, .div, .mod]

def symbol : AssignOp → String
  | plain => "="
  | add => "+="
  | sub => "-="
  | mul => "*="
  | div => "/="
  | mod => "%="

def ofSymbol? (s : String) : Option AssignOp := all.find? (·.symbol == s)

/-- The operator that a compound assignment applies to the old value. -/
def operator? : AssignOp → Option InfixOp
  | plain => none
  | add => some .add
  | sub => some .sub
  | mul => some .mul
  | div => some .div
  | mod => some .mod

theorem ofSymbol?_symbol (op : AssignOp) : ofSymbol? op.symbol = some op := by
  cases op <;> decide

end AssignOp

end TreeWalk
