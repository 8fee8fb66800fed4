/-
How many edits turn one text into another.

An edit puts a character in, takes one out or replaces one, anywhere in the text.  A
single edit changes the distances to all other texts by one at most, so no sequence of
edits is shorter than the distance; and following the recursion of `edits` gives one
that is no longer.  What holds of sequences of edits then holds of distances: they can
be put one behind the other, gone through backwards, and read from the other end of the
texts.
-/
import Mathlib.Order.Bounds.Basic
import TreeWalk.Proofs.Suggest.Distance

namespace TreeWalk
namespace Suggest

variable {a b c : List Char} {m n : Nat} {x y : Char}

/-- One character is put in, taken out or replaced. -/
inductive CharEdit : List Char → List Char → Prop
  | insert (p q : List Char) (x : Char) : CharEdit (p ++ q) (p ++ x :: q)
  | erase (p q : List Char) (x : Char) : CharEdit (p ++ x :: q) (p ++ q)
  | replace (p q : List Char) (x y : Char) : CharEdit (p ++ x :: q) (p ++ y :: q)

/-- So many edits, one after the other, turn one text into another. -/
inductive Turns : Nat → List Char → List Char → Prop
  | refl (a : List Char) : Turns 0 a a
  | head {n : Nat} {a b c : List Char} : CharEdit a b → Turns n b c → Turns (n + 1) a c

namespace CharEdit

theorem symm (h : CharEdit a b) : CharEdit b a := by
  cases h with
  | insert p q x => exact .erase p q x
  | erase p q x => exact .insert p q x
  | replace p q x y => exact .replace p q y x

theorem cons (x : Char) (h : CharEdit a b) : CharEdit (x :: a) (x :: b) := by
  cases h with
  | insert p q y => exact .insert (x :: p) q y
  | erase p q y => exact .erase (x :: p) q y
  | replace p q y z => exact .replace (x :: p) q y z

theorem reverse (h : CharEdit a b) : CharEdit a.reverse b.reverse := by
  cases h with
  | insert p q x =>
    simpa using CharEdit.insert q.reverse p.reverse x
  | erase p q x =>
    simpa using CharEdit.erase q.reverse p.reverse x
  | replace p q x y =>
    simpa using CharEdit.replace q.reverse p.reverse x y

end CharEdit

namespace Turns

theorem trans (h : Turns m a b) (h' : Turns n b c) : Turns (m + n) a c := by
  induction h with
  | refl a =>
    rw [Nat.zero_add]
    exact h'
  | head hedit _ ih =>
    rw [Nat.add_right_comm]
    exact .head hedit (ih h')

theorem symm (h : Turns n a b) : Turns n b a := by
  induction h with
  | refl a => exact .refl a
  | head hedit _ ih => exact ih.trans (.head hedit.symm (.refl _))

theorem map {g : List Char → List Char} (hg : ∀ a b, CharEdit a b → CharEdit (g a) (g b))
    (h : Turns n a b) : Turns n (g a) (g b) := by
  induction h with
  | refl a => exact .refl (g a)
  | head hedit _ ih => exact .head (hg _ _ hedit) ih

end Turns

/-! ## No fewer edits -/

theorem edits_comm (a b : List Char) : edits a b = edits b a := by
  fun_induction edits a b with
  | case1 b => rw [edits_nil_right]
  | case2 a => rw [edits_nil_left]
  | case3 x a y b left right both =>
    rw [edits, left, right, both, Nat.min_comm (edits (y :: b) a + 1)]
    simp only [eq_comm]

theorem edits_self (a : List Char) : edits a a = 0 := by
  induction a with
  | nil => rw [edits_nil_left, List.length_nil]
  | cons x a ih => rw [edits, ih, if_pos rfl, Nat.add_zero, Nat.min_zero]

/-- Of two texts the first is at most one edit further from any other than the second. -/
def Near (a b : List Char) : Prop := ∀ c, edits a c ≤ edits b c + 1

theorem edits_cons_cons_le (x y : Char) (a b : List Char) :
    edits (x :: a) (y :: b) ≤ edits a (y :: b) + 1 ∧ edits (x :: a) (y :: b) ≤ edits (x :: a) b + 1 ∧
      edits (x :: a) (y :: b) ≤ edits a b + if x = y then 0 else 1 := by
  rw [edits]
  omega

theorem near_cons_left (x : Char) (a : List Char) : Near (x :: a) a := by
  intro c
  cases c with
  | nil => rw [edits_nil_right, edits_nil_right, List.length_cons]
  | cons y c => exact (edits_cons_cons_le x y a c).1

theorem near_cons_right (x : Char) (a : List Char) : Near a (x :: a) := by
  intro c
  induction c with
  | nil =>
    rw [edits_nil_right, edits_nil_right, List.length_cons]
    omega
  | cons y c ih =>
    have hlonger : edits a (y :: c) ≤ edits a c + 1 := by
      rw [edits_comm a, edits_comm a]
      exact near_cons_left y c a
    rw [edits.eq_3]
    omega

theorem near_replace (x y : Char) (a : List Char) : Near (x :: a) (y :: a) := by
  intro c
  induction c with
  | nil =>
    rw [edits_nil_right, edits_nil_right, List.length_cons, List.length_cons]
    omega
  | cons z c ih =>
    obtain ⟨hleft, hright, hboth⟩ := edits_cons_cons_le x z a c
    have hcost : (if x = z then 0 else 1) ≤ 1 := by split <;> omega
    rw [edits.eq_3 y]
    omega

theorem Near.cons (x : Char) (h : Near a b) : Near (x :: a) (x :: b) := by
  intro c
  induction c with
  | nil =>
    have hlength := h []
    rw [edits_nil_right, edits_nil_right] at hlength ⊢
    exact Nat.succ_le_succ hlength
  | cons y c ih =>
    obtain ⟨hleft, hright, hboth⟩ := edits_cons_cons_le x y a c
    have hshort := h c
    have hlong := h (y :: c)
    rw [edits.eq_3 x b]
    omega

theorem CharEdit.near (h : CharEdit a b) : Near a b := by
  have behind : ∀ {a b : List Char} (p : List Char), Near a b → Near (p ++ a) (p ++ b) := by
    intro a b p hab
    induction p with
    | nil => exact hab
    | cons x p ih => exact ih.cons x
  cases h with
  | insert p q x => exact behind p (near_cons_right x q)
  | erase p q x => exact behind p (near_cons_left x q)
  | replace p q x y => exact behind p (near_replace x y q)

theorem Turns.edits_le (h : Turns n a b) : edits a b ≤ n := by
  induction h with
  | refl a => exact Nat.le_of_eq (edits_self a)
  | head hedit _ ih => exact Nat.le_trans (hedit.near _) (Nat.succ_le_succ ih)

/-! ## No more edits -/

theorem turns_nil (b : List Char) : Turns b.length [] b := by
  induction b with
  | nil => exact .refl []
  | cons y b ih => exact ih.trans (.head (.insert [] b y) (.refl _))

/-- Of the ways to treat the first characters each leads from one text to the other, so
the shortest of them does. -/
theorem turns_edits (a b : List Char) : Turns (edits a b) a b := by
  fun_induction edits a b with
  | case1 b => exact turns_nil b
  | case2 a => exact (turns_nil a).symm
  | case3 x a y b left right both =>
    have byErase : Turns (edits a (y :: b) + 1) (x :: a) (y :: b) := .head (.erase [] a x) left
    have byInsert : Turns (edits (x :: a) b + 1) (x :: a) (y :: b) :=
      right.trans (.head (.insert [] b y) (.refl _))
    have kept : Turns (edits a b) (x :: a) (x :: b) := both.map fun _ _ => .cons x
    have byReplace : Turns (edits a b + if x = y then 0 else 1) (x :: a) (y :: b) := by
      split
      · next hxy => exact hxy ▸ kept
      · exact kept.trans (.head (.replace [] b x y) (.refl _))
    rcases Nat.le_total (min (edits a (y :: b) + 1) (edits (x :: a) b + 1))
      (edits a b + if x = y then 0 else 1) with hle | hle
    · rw [Nat.min_eq_left hle]
      rcases Nat.le_total (edits a (y :: b) + 1) (edits (x :: a) b + 1) with hle' | hle'
      · rw [Nat.min_eq_left hle']
        exact byErase
      · rw [Nat.min_eq_right hle']
        exact byInsert
    · rw [Nat.min_eq_right hle]
      exact byReplace

theorem isLeast_edits (a b : List Char) : IsLeast {n | Turns n a b} (edits a b) :=
  ⟨turns_edits a b, fun _ h => h.edits_le⟩

/-! ## What follows for distances -/

theorem edits_reverse (a b : List Char) : edits a.reverse b.reverse = edits a b := by
  have reversed : ∀ {a b : List Char} {n : Nat}, Turns n a b → Turns n a.reverse b.reverse :=
    fun h => h.map fun _ _ => .reverse
  refine (isLeast_edits _ _).unique ⟨reversed (turns_edits a b), fun n h => ?_⟩
  have hback := reversed h
  rw [List.reverse_reverse, List.reverse_reverse] at hback
  exact hback.edits_le

theorem edits_eq_zero_iff : edits a b = 0 ↔ a = b := by
  refine ⟨fun h => ?_, fun h => h ▸ edits_self a⟩
  have hturns := turns_edits a b
  rw [h] at hturns
  cases hturns
  rfl

theorem edits_triangle (a b c : List Char) : edits a c ≤ edits a b + edits b c :=
  ((turns_edits a b).trans (turns_edits b c)).edits_le

theorem editDistance_eq_edits (a b : String) : editDistance a b = edits a.toList b.toList := by
  unfold editDistance
  rw [distance_eq_edits, edits_reverse]

/-- The distance that is worked out row by row is the least number of edits that turn one
text into the other, which is what the recursion on both texts says.  It is a metric, and
no less than the difference of the lengths. -/
theorem editDistance_counts_edits :
    (∀ a b : String, IsLeast {n | Turns n a.toList b.toList} (editDistance a b)) ∧
    (∀ a b : String, editDistance a b = edits a.toList b.toList) ∧
    (∀ a b : String, editDistance a b = editDistance b a) ∧
    (∀ a b : String, editDistance a b = 0 ↔ a = b) ∧
    (∀ a b c : String, editDistance a c ≤ editDistance a b + editDistance b c) ∧
    ∀ a b : String, a.length - b.length ≤ editDistance a b ∧ b.length - a.length ≤ editDistance a b := by
  refine ⟨fun a b => ?_, editDistance_eq_edits, fun a b => ?_, fun a b => ?_, fun a b c => ?_,
    length_sub_le_editDistance⟩
  · rw [editDistance_eq_edits]
    exact isLeast_edits _ _
  · rw [editDistance_eq_edits, editDistance_eq_edits, edits_comm]
  · rw [editDistance_eq_edits, edits_eq_zero_iff, String.toList_inj]
  · rw [editDistance_eq_edits, editDistance_eq_edits, editDistance_eq_edits]
    exact edits_triangle _ _ _

end Suggest
end TreeWalk
