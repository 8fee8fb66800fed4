/-
Halving finds the place of a number.

Each round keeps the place between two ends: the entries before the lower end do not
exceed the number, and those from the upper end on do.  So what is found is the count of
all entries that do not exceed it.  A search that meets the number itself on its way stops
there, just before that place.
-/
import TreeWalk.Sorted

namespace TreeWalk
namespace Sorted

variable {table : Array Nat} {x lo width : Nat}

/-- The entries stand in strictly increasing order. -/
def Increasing (table : Array Nat) : Prop := table.toList.Pairwise (· < ·)

theorem Increasing.getD_lt (h : Increasing table) {i j : Nat} (hij : i < j) (hj : j < table.size) :
    table.getD i 0 < table.getD j 0 := by
  have hi : i < table.size := by omega
  rw [← Array.getElem_eq_getD (h := hi) 0, ← Array.getElem_eq_getD (h := hj) 0]
  exact List.pairwise_iff_getElem.mp h i j hi hj hij

theorem Increasing.getD_le (h : Increasing table) {i j : Nat} (hij : i ≤ j) (hj : j < table.size) :
    table.getD i 0 ≤ table.getD j 0 := by
  rcases Nat.lt_or_eq_of_le hij with hlt | rfl
  · exact Nat.le_of_lt (h.getD_lt hlt hj)
  · exact Nat.le_refl _

/-- The entries before `lo` do not exceed `x`, and those from `hi` on do. -/
structure Between (table : Array Nat) (x lo hi : Nat) : Prop where
  le_size : hi ≤ table.size
  below : ∀ i < lo, table.getD i 0 ≤ x
  above : ∀ i, hi ≤ i → i < table.size → x < table.getD i 0

/-- A round that goes on behind the middle. -/
theorem Between.raise (hmono : Increasing table) {hi mid : Nat} (h : Between table x lo hi)
    (hmid : mid < hi) (hle : table.getD mid 0 ≤ x) : Between table x (mid + 1) hi := by
  refine ⟨h.le_size, fun i hi => ?_, h.above⟩
  have hsize := h.le_size
  have hstep : table.getD i 0 ≤ table.getD mid 0 := hmono.getD_le (by omega) (by omega)
  omega

/-- A round that goes on before the middle. -/
theorem Between.lower (hmono : Increasing table) {hi mid : Nat} (h : Between table x lo hi)
    (hmid : mid < hi) (hlt : x < table.getD mid 0) : Between table x lo mid := by
  have hsize := h.le_size
  refine ⟨by omega, h.below, fun i hi hsize' => ?_⟩
  have hstep : table.getD mid 0 ≤ table.getD i 0 := hmono.getD_le hi hsize'
  omega

theorem between_countFrom (hmono : Increasing table) (h : Between table x lo (lo + width)) :
    Between table x (countFrom table x lo width) (countFrom table x lo width) := by
  fun_induction countFrom table x lo width with
  | case1 lo => simpa using h
  | case2 lo width hne half hle ih =>
    have hmid : lo + half < lo + width := by omega
    have hround := h.raise hmono hmid hle
    rw [show lo + width = lo + half + 1 + (width - half - 1) by omega] at hround
    exact ih hround
  | case3 lo width hne half hlt ih =>
    have hmid : lo + half < lo + width := by omega
    exact ih (h.lower hmono hmid (by omega))

theorem between_countUpTo (hmono : Increasing table) :
    Between table x (countUpTo table x) (countUpTo table x) := by
  refine between_countFrom hmono ⟨by omega, fun i hi => ?_, fun i hi hsize => ?_⟩
  · omega
  · omega

/-- Where a search ends: just behind the number if it has been met, and where the number
would have to go if it is missing. -/
def Found (table : Array Nat) (x : Nat) : Except Nat Nat → Prop
  | .ok i => i < table.size ∧ Between table x (i + 1) (i + 1)
  | .error i => Between table x i i

theorem found_searchFrom (hmono : Increasing table) (h : Between table x lo (lo + width)) :
    Found table x (searchFrom table x lo width) := by
  fun_induction searchFrom table x lo width with
  | case1 lo =>
    rw [Nat.add_zero] at h
    exact h
  | case2 lo width hne half middle heq =>
    have hmid : lo + half < lo + width := by omega
    have hround := h.raise hmono hmid (Nat.le_of_eq heq)
    have hsize := h.le_size
    refine ⟨by omega, by omega, hround.below, fun i hi hsize' => ?_⟩
    have hlater : middle < table.getD i 0 := hmono.getD_lt hi hsize'
    omega
  | case3 lo width hne half middle hmiss hlt ih =>
    have hmid : lo + half < lo + width := by omega
    have hround := h.raise hmono hmid (Nat.le_of_lt hlt)
    rw [show lo + width = lo + half + 1 + (width - half - 1) by omega] at hround
    exact ih hround
  | case4 lo width hne half middle hmiss hge ih =>
    have hmid : lo + half < lo + width := by omega
    exact ih (h.lower hmono hmid (by omega))

theorem found_search (hmono : Increasing table) : Found table x (search table x) := by
  refine found_searchFrom hmono ⟨by omega, fun i hi => ?_, fun i hi hsize => ?_⟩
  · omega
  · omega

/-- Where the two ends meet is the number of entries that do not exceed `x`. -/
theorem Between.countP_eq (h : Between table x lo lo) : table.toList.countP (· ≤ x) = lo := by
  have hsize := h.le_size
  have hfront : (table.toList.take lo).countP (· ≤ x) = lo := by
    rw [List.countP_eq_length.mpr, List.length_take, Array.length_toList, Nat.min_eq_left hsize]
    intro a ha
    obtain ⟨i, hi, rfl⟩ := List.mem_take_iff_getElem.mp ha
    have hin : i < table.size := by omega
    have hle := h.below i (by omega)
    rw [← Array.getElem_eq_getD (h := hin) 0] at hle
    simpa using hle
  have hback : (table.toList.drop lo).countP (· ≤ x) = 0 := by
    rw [List.countP_eq_zero]
    intro a ha
    obtain ⟨i, hi, rfl⟩ := List.mem_drop_iff_getElem.mp ha
    have hin : i + lo < table.size := by simpa using hi
    have hlt := h.above (i + lo) (by omega) hin
    rw [← Array.getElem_eq_getD (h := hin) 0] at hlt
    simpa [Nat.add_comm lo i] using hlt
  calc table.toList.countP (· ≤ x)
      = (table.toList.take lo ++ table.toList.drop lo).countP (· ≤ x) := by
        rw [List.take_append_drop]
    _ = lo := by rw [List.countP_append, hfront, hback, Nat.add_zero]

/-- What halving finds is how many entries do not exceed `x`. -/
theorem countUpTo_eq_countP (hmono : Increasing table) :
    countUpTo table x = table.toList.countP (· ≤ x) := (between_countUpTo hmono).countP_eq.symm

end Sorted
end TreeWalk
