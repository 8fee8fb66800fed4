/-
The integers of a range.

A range holds the integers from its start to its stop in increasing order, each of them
once.  There can be more of them than a word can count: the range of all words holds
2 ^ 64 integers.
-/
import TreeWalk.Proofs.Value.Sequence

namespace TreeWalk
namespace Range

theorem length_countFrom (start : Int) (n : Nat) : (countFrom start n).length = n := by
  induction n generalizing start with
  | zero => rfl
  | succ n ih => simp only [countFrom, List.length_cons, ih]

theorem getElem_countFrom {start : Int} {n k : Nat} (hk : k < (countFrom start n).length) :
    (countFrom start n)[k] = start + k := by
  induction n generalizing start k with
  | zero => exact absurd hk (Nat.not_lt_zero k)
  | succ n ih =>
    cases k with
    | zero => simp [countFrom]
    | succ k =>
      have hk' : k < (countFrom (start + 1) n).length := by
        rw [length_countFrom] at hk ⊢
        omega
      show (countFrom (start + 1) n)[k] = start + (k + 1 : Nat)
      rw [ih hk']
      omega

variable {r : Range} {n : Int64} {k : Nat}

theorem length_toList (r : Range) :
    r.toList.length = (r.stop.toInt - r.start.toInt + 1).toNat := by
  rw [toList, List.length_map, length_countFrom]

/-- Every integer of a range is a word. -/
theorem toInt_ofInt_of_le (hk : k < r.toList.length) :
    (Int64.ofInt (r.start.toInt + k)).toInt = r.start.toInt + k := by
  rw [length_toList] at hk
  have hstart := r.start.le_toInt
  have hstop := r.stop.toInt_lt
  exact Int64.toInt_ofInt_of_le (by omega) (by omega)

theorem getElem_toList (hk : k < r.toList.length) :
    r.toList[k] = Int64.ofInt (r.start.toInt + k) := by
  simp only [toList, List.getElem_map, getElem_countFrom]

theorem toInt_getElem_toList (hk : k < r.toList.length) :
    r.toList[k].toInt = r.start.toInt + k := by
  rw [getElem_toList hk, toInt_ofInt_of_le hk]

theorem mem_toList_iff :
    n ∈ r.toList ↔ r.start.toInt ≤ n.toInt ∧ n.toInt ≤ r.stop.toInt := by
  constructor
  · intro h
    obtain ⟨k, hk, rfl⟩ := List.getElem_of_mem h
    have hitem := toInt_getElem_toList hk
    rw [length_toList] at hk
    omega
  · rintro ⟨hlow, hhigh⟩
    have hk : (n.toInt - r.start.toInt).toNat < r.toList.length := by
      rw [length_toList]
      omega
    have hitem : r.toList[(n.toInt - r.start.toInt).toNat] = n := by
      apply Word.toInt_injective
      rw [toInt_getElem_toList hk]
      omega
    exact hitem ▸ List.getElem_mem hk

theorem contains_eq (r : Range) (n : Int64) : r.contains n = decide (n ∈ r.toList) := by
  rw [contains, ← Bool.decide_and, decide_eq_decide, mem_toList_iff]
  rw [Int64.le_iff_toInt_le, Int64.le_iff_toInt_le]

theorem lengthLimit_eq : lengthLimit = 18446744073709551615 := rfl

/-- Only the range of all words has more integers than its length says. -/
theorem length_eq (r : Range) : r.length = min r.toList.length lengthLimit := by
  rw [length, length_toList]
  split
  · omega
  · congr 1
    omega

theorem length_eq_of_le (h : (r.toList.length : Int) ≤ Word.greatest) :
    r.length = r.toList.length := by
  rw [Word.greatest_eq] at h
  rw [length_eq, lengthLimit_eq]
  omega

theorem greatest_lt_length (h : Word.greatest < (r.toList.length : Int)) :
    Word.greatest < (r.length : Int) := by
  rw [Word.greatest_eq] at h ⊢
  rw [length_eq, lengthLimit_eq]
  omega

theorem get_eq (hk : k < r.toList.length) : r.get k = r.toList[k] := by
  have hword := toInt_ofInt_of_le hk
  have hlow := (Int64.ofInt (r.start.toInt + k)).le_toInt
  have hhigh := (Int64.ofInt (r.start.toInt + k)).toInt_lt
  rw [getElem_toList hk, get, Word.saturate, Word.least_eq, Word.greatest_eq]
  rw [if_neg (by omega), if_neg (by omega)]

end Range
end TreeWalk
