/-
The positions that indices and the bounds of slices name.

A sequence of `n` items is indexed from `-n` to `n - 1`.  An index and the one that is `n`
less name the same position.  The bounds of a slice are counted in the same way, but may
also stand behind the last item; a missing one stands at its end of the sequence.  Counting
from the front never leaves 64 bits.
-/
import TreeWalk.Proofs.Number.Word
import TreeWalk.Value.Sequence

namespace TreeWalk
namespace Sequence

variable {i : Int64} {n k low high : Nat} {start stop : Option Int64}

theorem length?_eq_some (hn : (n : Int) ≤ Word.greatest) : length? n = some (n : Int) := if_pos hn

theorem toInt_ofLength_of_le (hn : (n : Int) ≤ Word.greatest) : (Word.ofLength n).toInt = n := by
  rw [Word.toInt_ofLength]
  omega

/-! ## Indices -/

/-- An index that is resolved names a position in the sequence. -/
theorem lt_of_resolveIndex? (h : resolveIndex? i n = some k) : k < n := by
  unfold resolveIndex? length? at h
  split at h
  · simp only [Option.bind_eq_bind, Option.bind_some] at h
    split at h
    · next hin =>
      obtain rfl := Option.some.inj h
      omega
    · cases h
  · cases h

/-- A position has two indices: one counts from the front and the other from the end. -/
theorem resolveIndex?_eq_some (hn : (n : Int) ≤ Word.greatest) (hk : k < n)
    (hi : i.toInt = k ∨ i.toInt = k - n) : resolveIndex? i n = some k := by
  have hfront : fromFront i n = k := by
    unfold fromFront
    split <;> omega
  rw [resolveIndex?, length?_eq_some hn]
  show (if 0 ≤ fromFront i n ∧ fromFront i n < n then some (fromFront i n).toNat else none) = _
  rw [hfront, if_pos (by omega), Int.toNat_natCast]

/-- No other index names a position. -/
theorem resolveIndex?_eq_none (hn : (n : Int) ≤ Word.greatest)
    (hi : ¬ (-(n : Int) ≤ i.toInt ∧ i.toInt < n)) : resolveIndex? i n = none := by
  rw [resolveIndex?, length?_eq_some hn]
  refine if_neg ?_
  unfold fromFront
  split <;> omega

/-! ## Bounds -/

/-- The lower bound of a slice, counted from the front. -/
def lower (start : Option Int64) (n : Nat) : Int := (start.map (fromFront · n)).getD 0

/-- The upper bound of a slice, counted from the front. -/
def upper (stop : Option Int64) (n : Nat) : Int := (stop.map (fromFront · n)).getD n

/-- The bounds of a slice are in order and in the sequence. -/
def InBounds (start stop : Option Int64) (n : Nat) : Prop :=
  0 ≤ lower start n ∧ lower start n ≤ upper stop n ∧ upper stop n ≤ n

/-- A missing lower bound is 0. -/
theorem fromFront_start (start : Option Int64) (n : Nat) :
    fromFront (start.getD 0) n = lower start n := by
  cases start with
  | none => rfl
  | some i => rfl

/-- A missing upper bound is the length. -/
theorem fromFront_stop (hn : (n : Int) ≤ Word.greatest) (stop : Option Int64) :
    fromFront (stop.getD (Word.ofLength n)) n = upper stop n := by
  cases stop with
  | none =>
    have hlength := toInt_ofLength_of_le hn
    show fromFront (Word.ofLength n) n = (n : Int)
    rw [fromFront, hlength, if_neg (by omega)]
  | some i => rfl

theorem sliceBounds?_eq (hn : (n : Int) ≤ Word.greatest) (start stop : Option Int64) :
    sliceBounds? (start.getD 0) (stop.getD (Word.ofLength n)) n =
      if 0 ≤ lower start n ∧ lower start n ≤ upper stop n ∧ upper stop n ≤ n then
        some ((lower start n).toNat, (upper stop n).toNat)
      else none := by
  rw [sliceBounds?, length?_eq_some hn]
  simp only [Option.bind_eq_bind, Option.bind_some, fromFront_start, fromFront_stop hn]

theorem sliceBounds?_eq_some (hn : (n : Int) ≤ Word.greatest) (h : InBounds start stop n) :
    sliceBounds? (start.getD 0) (stop.getD (Word.ofLength n)) n =
      some ((lower start n).toNat, (upper stop n).toNat) := by
  rw [sliceBounds?_eq hn]
  exact if_pos h

theorem sliceBounds?_eq_none (hn : (n : Int) ≤ Word.greatest) (h : ¬ InBounds start stop n) :
    sliceBounds? (start.getD 0) (stop.getD (Word.ofLength n)) n = none := by
  rw [sliceBounds?_eq hn]
  exact if_neg h

/-- Bounds that are not negative are positions. -/
theorem sliceBounds?_of_nonneg {a b : Int64} (hn : (n : Int) ≤ Word.greatest) (ha : 0 ≤ a.toInt)
    (hb : 0 ≤ b.toInt) : sliceBounds? a b n =
      if a.toInt ≤ b.toInt ∧ b.toInt ≤ n then some (a.toInt.toNat, b.toInt.toNat) else none := by
  have hlow : fromFront a n = a.toInt := if_neg (by omega)
  have hhigh : fromFront b n = b.toInt := if_neg (by omega)
  rw [sliceBounds?, length?_eq_some hn]
  simp only [Option.bind_eq_bind, Option.bind_some, hlow, hhigh, ha, true_and]

/-- Whatever the bounds are, a slice lies in the sequence. -/
theorem le_of_sliceBounds? {a b : Int64} (h : sliceBounds? a b n = some (low, high)) :
    low ≤ high ∧ high ≤ n := by
  unfold sliceBounds? length? at h
  split at h
  · simp only [Option.bind_eq_bind, Option.bind_some] at h
    split at h
    · next hin =>
      obtain ⟨rfl, rfl⟩ := Prod.mk.inj (Option.some.inj h)
      omega
    · cases h
  · cases h

/-- Where the length is added to an index, the sum is a word. -/
theorem add?_ofLength (hn : (n : Int) ≤ Word.greatest) (hi : i < 0) :
    ∃ r, Word.add? i (Word.ofLength n) = some r ∧ r.toInt = fromFront i n := by
  have hnegative : i.toInt < 0 := Int64.lt_iff_toInt_lt.mp hi
  have hle := i.le_toInt
  have hsum : fromFront i n = i.toInt + n := if_pos hnegative
  rw [Word.greatest_eq] at hn
  have hfits : Word.ofInt? (i.toInt + n) = some (Int64.ofInt (i.toInt + n)) := by
    rw [Word.ofInt?, Word.least_eq, Word.greatest_eq]
    exact if_pos ⟨by omega, by omega⟩
  refine ⟨_, ?_, (Word.toInt_of_ofInt? hfits).trans hsum.symm⟩
  rw [Word.add?, toInt_ofLength_of_le (by rw [Word.greatest_eq]; exact hn)]
  exact hfits

/-! ## Parts -/

section

variable {α : Type} {items : List α}

theorem length_slice (hle : high ≤ items.length) :
    (slice items low high).length = high - low := by
  rw [slice, List.length_drop, List.length_take, Nat.min_eq_left hle]

theorem getElem_slice {j : Nat} (hj : j < (slice items low high).length) :
    ∃ h : low + j < items.length, (slice items low high)[j] = items[low + j] := by
  have hlength : low + j < (items.take high).length := by
    rw [slice, List.length_drop] at hj
    omega
  rw [List.length_take] at hlength
  refine ⟨by omega, ?_⟩
  simp only [slice, List.getElem_drop, List.getElem_take]

theorem map_slice {β : Type} (g : α → β) :
    (slice items low high).map g = slice (items.map g) low high := by
  rw [slice, slice, List.map_drop, List.map_take]

/-- What is before a position and what is behind it make up the sequence. -/
theorem slice_append_slice (k : Nat) : slice items 0 k ++ slice items k items.length = items := by
  rw [slice, slice, List.drop_zero, List.take_length, List.take_append_drop]

end

end Sequence
end TreeWalk
