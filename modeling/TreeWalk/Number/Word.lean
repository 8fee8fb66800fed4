/-
64-bit signed integers, exact or refused.

Arithmetic is done in `Int`, where it cannot overflow, and `ofInt?` brings the
result back into 64 bits when it fits.  So every operation here either is the
exact result or is `none`.
-/

namespace TreeWalk
namespace Word

/-- The least integer of 64 bits. -/
def least : Int := -Int.pow 2 63

/-- The greatest integer of 64 bits. -/
def greatest : Int := Int.pow 2 63 - 1

/-- The word that holds `n`, if 64 bits hold it. -/
def ofInt? (n : Int) : Option Int64 :=
  if least ≤ n ∧ n ≤ greatest then some (Int64.ofInt n) else none

/-- The word closest to `n`. -/
def saturate (n : Int) : Int64 :=
  if n < least then Int64.ofInt least
  else if greatest < n then Int64.ofInt greatest
  else Int64.ofInt n

/-- A length or a count as a word. -/
def ofLength (n : Nat) : Int64 := saturate n

def add? (a b : Int64) : Option Int64 := ofInt? (a.toInt + b.toInt)

def sub? (a b : Int64) : Option Int64 := ofInt? (a.toInt - b.toInt)

def mul? (a b : Int64) : Option Int64 := ofInt? (a.toInt * b.toInt)

def neg? (a : Int64) : Option Int64 := ofInt? (-a.toInt)

def abs? (a : Int64) : Option Int64 := ofInt? a.toInt.natAbs

/-- The remainder with the sign of `a`.  It is refused together with the
quotient it belongs to, so the least word has no remainder by `-1`. -/
def rem? (a b : Int64) : Option Int64 :=
  if (ofInt? (a.toInt.tdiv b.toInt)).isNone then none else ofInt? (a.toInt.tmod b.toInt)

/-- `a` to the power `e`.  A base other than 0, 1 and -1 leaves 64 bits at the
64th power at the latest, which keeps the exact power small. -/
def pow? (a : Int64) (e : Nat) : Option Int64 :=
  if a = 0 then some (if e = 0 then 1 else 0)
  else if a = 1 then some 1
  else if a = -1 then some (if e % 2 = 0 then 1 else -1)
  else if 64 ≤ e then none
  else ofInt? (Int.pow a.toInt e)

/-- The bits of `a` as an unsigned number. -/
def bits (a : Int64) : UInt64 := a.toUInt64

theorem least_eq : least = -9223372036854775808 := rfl

theorem greatest_eq : greatest = 9223372036854775807 := rfl

theorem toInt_of_ofInt? {n : Int} {a : Int64} (h : ofInt? n = some a) : a.toInt = n := by
  rw [ofInt?, least_eq, greatest_eq] at h
  split at h
  · rename_i hn
    obtain rfl := Option.some.inj h
    exact Int64.toInt_ofInt_of_le (by omega) (by omega)
  · exact absurd h (by simp)

theorem ofInt?_toInt (a : Int64) : ofInt? a.toInt = some a := by
  have h₁ := a.le_toInt
  have h₂ := a.toInt_lt
  rw [ofInt?, least_eq, greatest_eq, if_pos (by omega), Int64.ofInt_toInt]

end Word
end TreeWalk
