/-
Word arithmetic against the integers.

`Exact n r?` says that an optional word is the integer `n` if 64 bits hold it, and is
missing otherwise.  Sums, differences, products, negations and absolute values are
exact.  Powers are computed without the power itself wherever that would be large, and
come to the same.  A remainder is exact but for one pair of words: the least word by
-1, whose quotient has no word although its remainder is 0.
-/
import Mathlib.Algebra.Ring.Int.Parity
import TreeWalk.Number.Word

namespace TreeWalk
namespace Word

/-- The word that is `n`, and nothing if there is none. -/
def Exact (n : Int) (r? : Option Int64) : Prop := ∀ r, r? = some r ↔ r.toInt = n

variable {n : Int} {r? : Option Int64}

theorem ofInt?_eq_some_iff {r : Int64} : ofInt? n = some r ↔ r.toInt = n := by
  refine ⟨toInt_of_ofInt?, fun h => ?_⟩
  rw [← h]
  exact ofInt?_toInt r

theorem exact_ofInt? (n : Int) : Exact n (ofInt? n) := fun _ => ofInt?_eq_some_iff

theorem Exact.eq_some (h : Exact n r?) {r : Int64} (hr : r.toInt = n) : r? = some r := (h r).mpr hr

theorem Exact.eq_none (h : Exact n r?) (hn : ∀ r : Int64, r.toInt ≠ n) : r? = none := by
  cases hr : r? with
  | none => rfl
  | some r => exact absurd ((h r).mp hr) (hn r)

theorem toInt_injective {a b : Int64} (h : a.toInt = b.toInt) : a = b := Int64.toInt_inj.mp h

/-- What is found in place of an exact result is exact if it is that integer. -/
theorem exact_some {r : Int64} (h : r.toInt = n) : Exact n (some r) := by
  intro s
  rw [Option.some.injEq]
  refine ⟨fun hs => hs ▸ h, fun hs => toInt_injective (h.trans hs.symm)⟩

theorem toInt_ofLength (n : Nat) : (ofLength n).toInt = min (n : Int) greatest := by
  have hgreatest : (Int64.ofInt greatest).toInt = greatest := by decide
  unfold ofLength saturate
  rw [least_eq]
  split
  · omega
  · split
    · rw [hgreatest]
      omega
    · next hn =>
      have hin : ofInt? n = some (Int64.ofInt n) := if_pos ⟨by rw [least_eq]; omega, by omega⟩
      rw [toInt_of_ofInt? hin]
      omega

/-- An integer outside of 64 bits has no word. -/
theorem exact_none (h : n < least ∨ greatest < n) : Exact n none := by
  intro r
  refine ⟨(fun hr => nomatch hr), fun hr => ?_⟩
  rw [least_eq, greatest_eq] at h
  have hle := r.le_toInt
  have hlt := r.toInt_lt
  omega

/-- A power leaves 64 bits if its exponent is 64 or more and its base is not 0, 1 or -1. -/
theorem pow_outside {m : Int} {e : Nat} (hm : 2 ≤ m.natAbs) (he : 64 ≤ e) :
    m ^ e < least ∨ greatest < m ^ e := by
  have hpow : 2 ^ 64 ≤ (m ^ e).natAbs := by
    rw [Int.natAbs_pow]
    calc 2 ^ 64 ≤ 2 ^ e := Nat.pow_le_pow_right (by decide) he
      _ ≤ m.natAbs ^ e := Nat.pow_le_pow_left hm e
  rw [least_eq, greatest_eq]
  omega

theorem exact_pow? (a : Int64) (e : Nat) : Exact (a.toInt ^ e) (pow? a e) := by
  have zero : (0 : Int64).toInt = 0 := rfl
  have one : (1 : Int64).toInt = 1 := rfl
  have minusOne : (-1 : Int64).toInt = -1 := rfl
  unfold pow?
  split
  · next h =>
    rw [h, zero]
    refine exact_some ?_
    split
    · next he => rw [he, one, Int.pow_zero]
    · next he => rw [zero, Int.zero_pow he]
  · next h0 =>
    split
    · next h =>
      rw [h, one]
      exact exact_some (by rw [one, Int.one_pow])
    · next h1 =>
      split
      · next h =>
        rw [h, minusOne]
        refine exact_some ?_
        split
        · next he => rw [one, (Nat.even_iff.mpr he).neg_one_pow]
        · next he => rw [minusOne, (Nat.not_even_iff_odd.mp (mt Nat.even_iff.mp he)).neg_one_pow]
      · next h2 =>
        split
        · next he =>
          refine exact_none (pow_outside ?_ he)
          have ha0 : a.toInt ≠ 0 := fun ha => h0 (toInt_injective ha)
          have ha1 : a.toInt ≠ 1 := fun ha => h1 (toInt_injective ha)
          have ha2 : a.toInt ≠ -1 := fun ha => h2 (toInt_injective ha)
          omega
        · exact exact_ofInt? _

/-- Only the least word by -1 has a quotient outside of 64 bits. -/
theorem quotient_inside {a b : Int64} (hb : b ≠ 0) (h : ¬ (a.toInt = least ∧ b.toInt = -1)) :
    least ≤ a.toInt.tdiv b.toInt ∧ a.toInt.tdiv b.toInt ≤ greatest := by
  have hle := a.le_toInt
  have hlt := a.toInt_lt
  have hb0 : b.toInt ≠ 0 := fun hz => hb (toInt_injective hz)
  have habs : (a.toInt.tdiv b.toInt).natAbs = a.toInt.natAbs / b.toInt.natAbs :=
    Int.natAbs_tdiv a.toInt b.toInt
  rw [least_eq] at h
  rw [least_eq, greatest_eq]
  by_cases hone : b.toInt.natAbs = 1
  · rw [hone, Nat.div_one] at habs
    have hsign : b.toInt = 1 ∨ b.toInt = -1 := by omega
    rcases hsign with hsign | hsign
    · rw [hsign, Int.tdiv_one]
      omega
    · omega
  · have hhalf : a.toInt.natAbs / b.toInt.natAbs ≤ a.toInt.natAbs / 2 :=
      Nat.div_le_div_left (by omega) (by decide)
    omega

/-- A remainder is exact if its quotient is a word. -/
theorem exact_rem? {a b : Int64} (hb : b ≠ 0) (h : ¬ (a.toInt = least ∧ b.toInt = -1)) :
    Exact (a.toInt.tmod b.toInt) (rem? a b) := by
  unfold rem?
  have hquotient : (ofInt? (a.toInt.tdiv b.toInt)).isNone = false := by
    rw [ofInt?, if_pos (quotient_inside hb h)]
    rfl
  rw [hquotient, if_neg Bool.false_ne_true]
  exact exact_ofInt? _

theorem rem?_least {a b : Int64} (ha : a.toInt = least) (hb : b.toInt = -1) : rem? a b = none := by
  unfold rem?
  rw [ha, hb]
  rfl

end Word
end TreeWalk
