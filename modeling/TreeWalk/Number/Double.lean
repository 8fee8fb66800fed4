/-
Floating-point numbers.

A number is kept as its 64 bits, because two numbers that no comparison tells
apart can still be different keys of a hash: zero and minus zero, and the NaNs
of either sign.  `Float` computes the results; the sign of a NaN, which `Float`
does not show, is settled here.
-/

namespace TreeWalk

/-- A number of double precision, by its bits. -/
structure Double where
  bits : UInt64
  deriving Repr, Inhabited

namespace Double

def toFloat (x : Double) : Float := Float.ofBits x.bits

def isNaN (x : Double) : Bool := x.toFloat.isNaN

def signBit : UInt64 := 0x8000000000000000

/-- The NaN that is written as `nan`. -/
def nan : Double := ⟨0x7FF8000000000000⟩

/-- The NaN that an operation without a result makes, whose sign bit is set. -/
def indefinite : Double := ⟨0xFFF8000000000000⟩

/-- The number that an operation on numbers other than NaN computed. -/
def ofFloat (x : Float) : Double := if x.isNaN then indefinite else ⟨x.toBits⟩

/-- The number nearest to an integer. -/
def ofInt (n : Int64) : Double :=
  let magnitude := n.toInt.natAbs.toUInt64.toFloat
  ofFloat (if n < 0 then -magnitude else magnitude)

def zero : Double := ⟨0⟩

def one : Double := ofFloat 1.0

/-- An operation of one operand.  A NaN goes through unchanged. -/
def lift (f : Float → Float) (x : Double) : Double :=
  if x.isNaN then x else ofFloat (f x.toFloat)

/-- An operation of two operands.  Where its result is a NaN, it is the first
operand that is one, if either is. -/
def liftTwo (f : Float → Float → Float) (x y : Double) : Double :=
  let r := f x.toFloat y.toFloat
  if !r.isNaN then ⟨r.toBits⟩
  else if x.isNaN then x
  else if y.isNaN then y
  else indefinite

/-- Negation changes the sign bit and nothing else, also that of a NaN. -/
def neg (x : Double) : Double := ⟨x.bits ^^^ signBit⟩

/-- The absolute value clears the sign bit, also that of a NaN. -/
def abs (x : Double) : Double := ⟨x.bits &&& ~~~signBit⟩

instance : Neg Double := ⟨neg⟩

instance : Add Double := ⟨liftTwo (· + ·)⟩

instance : Sub Double := ⟨liftTwo (· - ·)⟩

instance : Mul Double := ⟨liftTwo (· * ·)⟩

instance : Div Double := ⟨liftTwo (· / ·)⟩

def pow (x y : Double) : Double := liftTwo Float.pow x y

/-- Numbers are compared by value: zero equals minus zero, and a NaN equals
nothing. -/
instance : BEq Double := ⟨fun x y => x.toFloat == y.toFloat⟩

instance : LT Double := ⟨fun x y => x.toFloat < y.toFloat⟩

instance : LE Double := ⟨fun x y => x.toFloat ≤ y.toFloat⟩

instance (x y : Double) : Decidable (x < y) := inferInstanceAs (Decidable (x.toFloat < y.toFloat))

instance (x y : Double) : Decidable (x ≤ y) := inferInstanceAs (Decidable (x.toFloat ≤ y.toFloat))

end Double
end TreeWalk
