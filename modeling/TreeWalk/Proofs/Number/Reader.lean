/-
Integers read back from texts.

`Denotes` says how an integer is written: as one or more digits, with a sign before them
or without one.  Such a text is read as the integer if a word can hold it, however many
zeros the digits begin with.  The decimal text of an integer is one.
-/
import TreeWalk.Number.Reader
import TreeWalk.Proofs.Number.Word

namespace TreeWalk
namespace Reader

variable {cs digits : List Char} {m : Nat} {z : Int} {n : Int64}

/-! ## Digits -/

theorem isDigit_eq (c : Char) : isDigit c = c.isDigit := by
  rw [Bool.eq_iff_iff, isDigit, decide_eq_true_iff, Char.isDigit_iff_toNat]
  exact Iff.rfl

theorem digitsValue_eq (digits : List Char) : digitsValue digits = Nat.ofDigitChars 10 digits 0 := rfl

/-- Zeros at the start leave the number as it is. -/
theorem digitsValue_zeros_append (k : Nat) (digits : List Char) :
    digitsValue (List.replicate k '0' ++ digits) = digitsValue digits := by
  rw [digitsValue_eq, digitsValue_eq, Nat.ofDigitChars_append, Nat.ofDigitChars_replicate_zero,
    Nat.mul_zero]

theorem natural?_eq_some_iff : natural? digits = some m ↔
    digits ≠ [] ∧ (∀ c ∈ digits, isDigit c = true) ∧ digitsValue digits = m := by
  rw [natural?, Option.ite_none_right_eq_some, Option.some.injEq, List.all_eq_true, and_assoc]

theorem natural?_zeros_append (h : natural? digits = some m) (k : Nat) :
    natural? (List.replicate k '0' ++ digits) = some m := by
  obtain ⟨hne, hdigit, hvalue⟩ := natural?_eq_some_iff.mp h
  refine natural?_eq_some_iff.mpr ⟨?_, ?_, ?_⟩
  · exact List.append_ne_nil_of_right_ne_nil _ hne
  · intro c hc
    rcases List.mem_append.mp hc with hc | hc
    · obtain rfl := List.eq_of_mem_replicate hc
      rfl
    · exact hdigit c hc
  · rw [digitsValue_zeros_append, hvalue]

theorem natural?_toDigits (m : Nat) : natural? (Nat.toDigits 10 m) = some m := by
  refine natural?_eq_some_iff.mpr ⟨Nat.toDigits_ne_nil, fun c hc => ?_, ?_⟩
  · rw [isDigit_eq]
    exact Nat.isDigit_of_mem_toDigits (by decide) (by decide) hc
  · exact Nat.ofDigitChars_ten_toDigits

/-! ## Integers -/

/-- A text that an integer is written as. -/
inductive Denotes : List Char → Int → Prop
  | unsigned {digits : List Char} {m : Nat} (h : natural? digits = some m) : Denotes digits m
  | plus {digits : List Char} {m : Nat} (h : natural? digits = some m) : Denotes ('+' :: digits) m
  | minus {digits : List Char} {m : Nat} (h : natural? digits = some m) :
      Denotes ('-' :: digits) (-m)

theorem toList_toString_natCast (m : Nat) : (toString (m : Int)).toList = Nat.toDigits 10 m := by
  rw [Int.toString_eq_repr, Int.repr_eq_if, if_pos (Int.natCast_nonneg m), Int.toNat_natCast,
    Nat.toList_repr]

/-- The decimal text of an integer. -/
theorem denotes_toString (z : Int) : Denotes (toString z).toList z := by
  rcases Int.lt_or_le z 0 with hz | hz
  · obtain ⟨m, hm⟩ := Int.eq_ofNat_of_zero_le (show 0 ≤ -z by omega)
    have htext : (toString z).toList = '-' :: Nat.toDigits 10 m := by
      rw [Int.toString_eq_repr, Int.repr_eq_if, if_neg (by omega), hm, Int.toNat_natCast,
        String.toList_append, Nat.toList_repr]
      rfl
    rw [htext, show z = -(m : Int) by omega]
    exact .minus (natural?_toDigits m)
  · obtain ⟨m, rfl⟩ := Int.eq_ofNat_of_zero_le hz
    rw [toList_toString_natCast]
    exact .unsigned (natural?_toDigits m)

theorem Denotes.ne_nil (h : Denotes cs z) : cs ≠ [] := by
  cases h with
  | unsigned h => exact (natural?_eq_some_iff.mp h).1
  | plus => exact List.cons_ne_nil _ _
  | minus => exact List.cons_ne_nil _ _

/-- A digit is no sign. -/
theorem ne_sign_of_natural? (h : natural? digits = some m) (rest : List Char) :
    digits ≠ '-' :: rest ∧ digits ≠ '+' :: rest := by
  have hdigit := (natural?_eq_some_iff.mp h).2.1
  refine ⟨?_, ?_⟩ <;>
  · rintro rfl
    exact absurd (hdigit _ List.mem_cons_self) (by decide)

theorem splitSign_of_natural? (h : natural? digits = some m) : splitSign digits = (false, digits) := by
  unfold splitSign
  split
  · exact absurd rfl (ne_sign_of_natural? h _).1
  · exact absurd rfl (ne_sign_of_natural? h _).2
  · rfl

theorem integer?_of_splitSign {negative : Bool} (hsplit : splitSign cs = (negative, digits))
    (h : natural? digits = some m) :
    integer? (String.ofList cs) = Word.ofInt? (if negative then -(m : Int) else m) := by
  rw [integer?, String.toList_ofList, hsplit]
  show (natural? digits >>= fun n => Word.ofInt? (if negative then -(n : Int) else n)) = _
  rw [h]
  rfl

/-- What an integer is written as is read as the integer. -/
theorem Denotes.integer?_eq (h : Denotes cs n.toInt) : integer? (String.ofList cs) = some n := by
  generalize hz : n.toInt = z at h
  rw [← Word.ofInt?_toInt n, hz]
  cases h with
  | unsigned h => exact integer?_of_splitSign (splitSign_of_natural? h) h
  | plus h => exact integer?_of_splitSign rfl h
  | minus h => exact integer?_of_splitSign rfl h

end Reader
end TreeWalk
