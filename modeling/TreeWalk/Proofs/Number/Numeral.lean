/-
How integers are written.

A numeral is an optional sign and one or more decimal digits, each of which counts ten
times as much as the one behind it.  The reader accepts a text for an integer of 64 bits
exactly if it is a numeral of that integer.
-/
import Mathlib.Data.List.Induction
import Mathlib.Data.Nat.Digits.Defs
import TreeWalk.Proofs.Number.Reader
import TreeWalk.Proofs.Text.Trim

namespace TreeWalk
namespace Reader

variable {text digits : List Char} {c : Char} {m : Nat} {z : Int} {n : Int64} {s : String}

/-- The decimal digits, each at the position that is its value. -/
def decimals : List Char := ['0', '1', '2', '3', '4', '5', '6', '7', '8', '9']

/-- One or more digits, and the number that they stand for. -/
structure Decimal (digits : List Char) (m : Nat) : Prop where
  ne_nil : digits ≠ []
  digit : ∀ c ∈ digits, c ∈ decimals
  value : Nat.ofDigits 10 (digits.reverse.map decimals.idxOf) = m

/-- An optional sign and digits, and the integer that they stand for. -/
def Numeral (text : List Char) (z : Int) : Prop :=
  ∃ sign digits m, text = sign ++ digits ∧ Decimal digits m ∧
    ((sign = [] ∨ sign = ['+']) ∧ z = m ∨ sign = ['-'] ∧ z = -m)

theorem isDigit_iff : isDigit c = true ↔ c ∈ decimals := by
  constructor
  · intro h
    obtain ⟨hlow, hhigh⟩ := of_decide_eq_true h
    have hlow' : 48 ≤ c.toNat := hlow
    have hhigh' : c.toNat ≤ 57 := hhigh
    have hpoints : ∀ k < 58, 48 ≤ k → Char.ofNat k ∈ decimals := by decide
    rw [← Char.ofNat_toNat c]
    exact hpoints c.toNat (by omega) hlow'
  · have hall : decimals.all isDigit = true := by decide
    exact List.all_eq_true.mp hall c

/-- Neither a sign nor a digit is white space. -/
theorem isBlank_of_mem (h : c ∈ '+' :: '-' :: decimals) : CharClass.isBlank c = false := by
  have hall : ('+' :: '-' :: decimals).all (fun c => CharClass.whiteRuns.all fun run =>
      !(run.1 ≤ c.toNat && c.toNat < run.2)) = true := by decide
  rw [CharClass.isBlank_eq_false_iff]
  rintro ⟨run, hrun, hle, hlt⟩
  simpa [hle, hlt] using List.all_eq_true.mp (List.all_eq_true.mp hall c h) run hrun

theorem Denotes.isBlank_of_mem (h : Denotes text z) : ∀ c ∈ text, CharClass.isBlank c = false := by
  have hdigits : ∀ {digits m}, natural? digits = some m →
      ∀ c ∈ digits, CharClass.isBlank c = false := by
    intro digits m h c hc
    have hdigit : isDigit c = true := (natural?_eq_some_iff.mp h).2.1 c hc
    exact Reader.isBlank_of_mem (by simp [isDigit_iff.mp hdigit])
  cases h with
  | unsigned h => exact hdigits h
  | plus h => exact List.forall_mem_cons.mpr ⟨Reader.isBlank_of_mem (by decide), hdigits h⟩
  | minus h => exact List.forall_mem_cons.mpr ⟨Reader.isBlank_of_mem (by decide), hdigits h⟩

theorem digitValue_eq_idxOf (h : c ∈ decimals) : digitValue c = decimals.idxOf c := by
  have hall : decimals.all (fun c => digitValue c == decimals.idxOf c) = true := by decide
  exact eq_of_beq (List.all_eq_true.mp hall c h)

theorem digitsValue_eq_ofDigits (h : ∀ c ∈ digits, c ∈ decimals) :
    digitsValue digits = Nat.ofDigits 10 (digits.reverse.map decimals.idxOf) := by
  induction digits using List.reverseRecOn with
  | nil => rfl
  | append_singleton digits c ih =>
    have hc : c ∈ decimals := h c (by simp)
    have hdigits : digitsValue digits = Nat.ofDigits 10 (digits.reverse.map decimals.idxOf) :=
      ih fun d hd => h d (by simp [hd])
    rw [digitsValue, List.foldl_append]
    simp only [List.foldl_cons, List.foldl_nil, List.reverse_append, List.reverse_singleton,
      List.singleton_append, List.map_cons, Nat.ofDigits_cons, ← hdigits, digitsValue,
      digitValue_eq_idxOf hc]
    omega

theorem natural?_iff_decimal : natural? digits = some m ↔ Decimal digits m := by
  rw [natural?_eq_some_iff]
  constructor
  · rintro ⟨hne, hdigit, hvalue⟩
    have hmem : ∀ c ∈ digits, c ∈ decimals := fun c hc => isDigit_iff.mp (hdigit c hc)
    exact ⟨hne, hmem, digitsValue_eq_ofDigits hmem ▸ hvalue⟩
  · intro h
    exact ⟨h.ne_nil, fun c hc => isDigit_iff.mpr (h.digit c hc),
      (digitsValue_eq_ofDigits h.digit).trans h.value⟩

theorem denotes_iff_numeral : Denotes text z ↔ Numeral text z := by
  constructor
  · intro h
    cases h with
    | unsigned h => exact ⟨[], _, _, rfl, natural?_iff_decimal.mp h, .inl ⟨.inl rfl, rfl⟩⟩
    | plus h => exact ⟨['+'], _, _, rfl, natural?_iff_decimal.mp h, .inl ⟨.inr rfl, rfl⟩⟩
    | minus h => exact ⟨['-'], _, _, rfl, natural?_iff_decimal.mp h, .inr ⟨rfl, rfl⟩⟩
  · rintro ⟨sign, digits, m, rfl, hdecimal, ⟨rfl | rfl, rfl⟩ | ⟨rfl, rfl⟩⟩
    · exact .unsigned (natural?_iff_decimal.mpr hdecimal)
    · exact .plus (natural?_iff_decimal.mpr hdecimal)
    · exact .minus (natural?_iff_decimal.mpr hdecimal)

/-- What is read as an integer is a numeral of it. -/
theorem denotes_of_integer? (h : integer? s = some n) : Denotes s.toList n.toInt := by
  obtain ⟨⟨negative, digits⟩, hsplit, h⟩ :
      ∃ split, splitSign s.toList = split ∧ (do
        let m ← natural? split.2
        Word.ofInt? (if split.1 then -(m : Int) else m)) = some n := ⟨_, rfl, h⟩
  obtain ⟨m, hm, hword⟩ := Option.bind_eq_some_iff.mp h
  have hvalue : n.toInt = if negative then -(m : Int) else m := Word.ofInt?_eq_some_iff.mp hword
  rw [hvalue]
  unfold splitSign at hsplit
  split at hsplit
  · next rest htext =>
    cases hsplit
    rw [htext]
    exact .minus hm
  · next rest htext =>
    cases hsplit
    rw [htext]
    exact .plus hm
  · cases hsplit
    exact .unsigned hm

theorem integer?_eq_some_iff : integer? s = some n ↔ Numeral s.toList n.toInt := by
  rw [← denotes_iff_numeral]
  refine ⟨denotes_of_integer?, fun h => ?_⟩
  rw [← String.ofList_toList (s := s)]
  exact h.integer?_eq

end Reader
end TreeWalk
