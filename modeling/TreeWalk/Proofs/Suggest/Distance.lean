/-
What the table of distances holds.

The distance is worked out row by row, and only one row is kept.  `edits` says by
recursion on both texts what an entry should be.  The texts grow at their ends while
the table is filled, so the entries are the distances of the beginnings of the texts
read backwards.
-/
import Mathlib.Data.Nat.Basic
import TreeWalk.Suggest

namespace TreeWalk
namespace Suggest

/-- The least number of insertions, deletions and substitutions that turn one text into
the other, looking at the first character of each. -/
def edits : List Char → List Char → Nat
  | [], b => b.length
  | a, [] => a.length
  | x :: a, y :: b =>
    min (min (edits a (y :: b) + 1) (edits (x :: a) b + 1)) (edits a b + if x = y then 0 else 1)

@[simp] theorem edits_nil_left (b : List Char) : edits [] b = b.length := by
  rw [edits]

@[simp] theorem edits_nil_right (a : List Char) : edits a [] = a.length := by
  cases a with
  | nil => rw [edits]
  | cons x a => simp [edits]

/-- As many edits are needed as one text is longer than the other. -/
theorem length_sub_le_edits (a b : List Char) :
    a.length - b.length ≤ edits a b ∧ b.length - a.length ≤ edits a b := by
  fun_induction edits a b with
  | case1 b => simp
  | case2 a => simp
  | case3 x a y b left right both =>
    simp only [List.length_cons] at left right ⊢
    omega

/-! ## Rows -/

/-- The distances from the text `p` to `q` and to what comes of `q` when the characters
of a list are put before it one by one. -/
def row (p : List Char) : List Char → List Char → List Nat
  | q, [] => [edits p q]
  | q, b :: bs => edits p q :: row p (b :: q) bs

theorem row_eq_cons (p q bs : List Char) : ∃ rest, row p q bs = edits p q :: rest := by
  cases bs with
  | nil => exact ⟨_, rfl⟩
  | cons b bs => exact ⟨_, rfl⟩

/-- One more character makes the next row of a row. -/
theorem rowFrom_row (c : Char) (p q bs : List Char) :
    edits (c :: p) q :: rowFrom c bs (row p q bs) (edits (c :: p) q) = row (c :: p) q bs := by
  induction bs generalizing q with
  | nil => rfl
  | cons b bs ih =>
    obtain ⟨rest, hrest⟩ := row_eq_cons p (b :: q) bs
    have hentry : min (min (edits p (b :: q) + 1) (edits (c :: p) q + 1))
        (edits p q + if c = b then 0 else 1) = edits (c :: p) (b :: q) := by rw [edits]
    rw [row, row, hrest, rowFrom, hentry, ← hrest, ih]

theorem nextRow_row (c : Char) (p bs : List Char) : nextRow bs (row p [] bs) c = row (c :: p) [] bs := by
  have hfirst : (row p [] bs).headD 0 + 1 = edits (c :: p) [] := by
    obtain ⟨rest, hrest⟩ := row_eq_cons p [] bs
    simp [hrest]
  unfold nextRow
  rw [hfirst, rowFrom_row]

theorem foldl_nextRow (a p bs : List Char) :
    a.foldl (nextRow bs) (row p [] bs) = row (a.reverse ++ p) [] bs := by
  induction a generalizing p with
  | nil => rfl
  | cons c a ih =>
    rw [List.foldl_cons, nextRow_row, ih, List.reverse_cons, List.append_assoc, List.singleton_append]

theorem row_nil (q bs : List Char) : row [] q bs = List.range' q.length (bs.length + 1) := by
  induction bs generalizing q with
  | nil => simp [row]
  | cons b bs ih => rw [row, ih, edits_nil_left, List.length_cons, List.length_cons, ← List.range'_succ]

theorem getLastD_row (p q bs : List Char) (d : Nat) :
    (row p q bs).getLastD d = edits p (bs.reverse ++ q) := by
  induction bs generalizing q d with
  | nil => rfl
  | cons b bs ih =>
    rw [row, List.getLastD_cons, ih, List.reverse_cons, List.append_assoc, List.singleton_append]

/-- The last entry of the last row is the distance of the texts read backwards. -/
theorem distance_eq_edits (a b : List Char) : distance a b = edits a.reverse b.reverse := by
  have hstart : List.range (b.length + 1) = row [] [] b := by
    rw [row_nil, List.range_eq_range']
    rfl
  unfold distance
  rw [hstart, foldl_nextRow, getLastD_row, List.append_nil, List.append_nil]

/-- The distance of two texts is no less than the difference of their lengths. -/
theorem length_sub_le_editDistance (a b : String) :
    a.length - b.length ≤ editDistance a b ∧ b.length - a.length ≤ editDistance a b := by
  have h := length_sub_le_edits a.toList.reverse b.toList.reverse
  rw [List.length_reverse, List.length_reverse, String.length_toList, String.length_toList] at h
  unfold editDistance
  rw [distance_eq_edits]
  exact h

end Suggest
end TreeWalk
