/-
Integers in formatted texts.

Whatever its flags, its width and its precision are, a directive for integers writes a
text that denotes the integer, with blanks around it or with zeros behind its sign.  So
`int` reads the integer back, and the text is as long as the width unless the integer needs
more.
-/
import TreeWalk.Proofs.Format.Filling
import TreeWalk.Proofs.Method.String
import TreeWalk.Proofs.Number.Numeral

namespace TreeWalk

namespace Format

open Reader

variable {flags text : List Char} {width : Nat} {precision : Option (List Char)} {verb : Char}
  {layout : Layout} {display : Value → String} {z : Int} {n : Int64} {ev : Evaluator}
  {f : Fiber} {σ : Store}

/-! ## Filling up -/

/-- Zeros between the sign and the digits leave the integer as it is. -/
theorem denotes_zeros (h : Denotes text z) (k : Nat) :
    Denotes ((Body.splitSign text).1 ++ List.replicate k '0' ++ (Body.splitSign text).2) z := by
  cases h with
  | unsigned h =>
    have hsplit : Body.splitSign text = ([], text) := by
      unfold Body.splitSign
      split
      · exact absurd rfl (ne_sign_of_natural? h _).1
      · exact absurd rfl (ne_sign_of_natural? h _).2
      · rfl
    rw [hsplit]
    exact .unsigned (natural?_zeros_append h k)
  | plus h => exact .plus (natural?_zeros_append h k)
  | minus h => exact .minus (natural?_zeros_append h k)

theorem denotes_trim_padded (h : Denotes text z) (a b : Nat) :
    Denotes (Search.trim (List.replicate a ' ' ++ (text ++ List.replicate b ' '))) z := by
  have hblank : ∀ k, ∀ c ∈ List.replicate k ' ', CharClass.isBlank c = true := by
    intro k c hc
    rw [List.eq_of_mem_replicate hc, CharClass.isBlank_iff]
    decide
  rw [Search.trim_surrounded (hblank a) (hblank b) h.isBlank_of_mem h.ne_nil]
  exact h

/-- Up to blanks around it, an integer that is filled up is written as it was, or with
zeros. -/
theorem denotes_trim_fill (layout : Layout) (h : Denotes text z) :
    Denotes (Search.trim (Body.fill layout ⟨text, true⟩)) z := by
  unfold Body.fill
  split
  · exact denotes_trim_padded h 0 (layout.width - text.length)
  · split
    · have hzeros := denotes_trim_padded (denotes_zeros h (layout.width - text.length)) 0 0
      rw [List.replicate_zero, List.nil_append, List.append_nil] at hzeros
      exact hzeros
    · have hright := denotes_trim_padded h (layout.width - text.length) 0
      rw [List.replicate_zero, List.append_nil] at hright
      exact hright

/-! ## Directives -/

/-- The text of an integer before it is filled up: its decimal text, with a plus sign if that
is asked for and the integer has no minus sign. -/
def numeral (flags : List Char) (n : Int64) : List Char :=
  if '+' ∈ flags ∧ 0 ≤ n then '+' :: (toString n.toInt).toList else (toString n.toInt).toList

theorem denotes_numeral (flags : List Char) (n : Int64) : Denotes (numeral flags n) n.toInt := by
  unfold numeral
  split
  · next hplus =>
    obtain ⟨m, hm⟩ := Int.eq_ofNat_of_zero_le (Int64.le_iff_toInt_le.mp hplus.2)
    rw [hm, toList_toString_natCast]
    exact .plus (natural?_toDigits m)
  · exact denotes_toString n.toInt

/-- A width as it is written: zero without any digit, since a zero would be a flag. -/
def widthDigits (width : Nat) : List Char := if width = 0 then [] else Nat.toDigits 10 width

/-- A number other than zero does not begin with the digit zero. -/
theorem head?_toDigits (h : width ≠ 0) : ∀ c ∈ (Nat.toDigits 10 width).head?, c ≠ '0' := by
  induction width using Nat.strong_induction_on with
  | h width ih =>
    rw [Nat.toDigits_eq_if (by decide)]
    split
    · rintro c ⟨⟩
      exact mt Nat.digitChar_eq_zero.mp h
    · rw [List.head?_append_of_ne_nil _ Nat.toDigits_ne_nil]
      exact ih (width / 10) (by omega) (by omega)

/-- A digit other than zero is no flag. -/
theorem isFlag_eq_false {c : Char} (hdigit : isDigit c = true) (hne : c ≠ '0') :
    Layout.isFlag c = false := by
  have hminus : c ≠ '-' := by
    rintro rfl
    exact absurd hdigit (by decide)
  have hplus : c ≠ '+' := by
    rintro rfl
    exact absurd hdigit (by decide)
  simp only [Layout.isFlag, hminus, hne, hplus, decide_false, Bool.or_self]

theorem natural?_widthDigits (width : Nat) :
    (∀ c ∈ widthDigits width, isDigit c = true) ∧ digitsValue (widthDigits width) = width := by
  unfold widthDigits
  split
  · next h => exact ⟨List.forall_mem_nil _, h.symm⟩
  · exact (natural?_eq_some_iff.mp (natural?_toDigits width)).2

theorem head?_widthDigits (width : Nat) :
    ∀ c ∈ (widthDigits width).head?, Layout.isFlag c = false := by
  intro c hc
  refine isFlag_eq_false ((natural?_widthDigits width).1 c (List.mem_of_mem_head? hc)) ?_
  unfold widthDigits at hc
  split at hc
  · cases hc
  · next h => exact head?_toDigits h c hc

/-- What stands before the verb of a directive. -/
def spec (flags : List Char) (width : Nat) (precision : Option (List Char))
    (hflags : ∀ c ∈ flags, Layout.isFlag c = true)
    (hprecision : ∀ digits ∈ precision, ∀ c ∈ digits, isDigit c = true) : Spec where
  flags := flags
  width := widthDigits width
  precision := precision
  isFlag_of_mem := hflags
  isDigit_of_mem := (natural?_widthDigits width).1
  width_starts := head?_widthDigits width
  isDigit_of_precision := hprecision

/-- `%[flags][width][.precision]verb` -/
def directive (flags : List Char) (width : Nat) (precision : Option (List Char)) (verb : Char) :
    String :=
  String.ofList ('%' :: (flags ++ (widthDigits width ++ (dotted precision ++ [verb]))))

theorem reads_directive (hflags : ∀ c ∈ flags, Layout.isFlag c = true)
    (hprecision : ∀ digits ∈ precision, ∀ c ∈ digits, isDigit c = true) (hverb : verb ∈ verbs) :
    Reads (directive flags width precision verb).toList
      [.directive (spec flags width precision hflags hprecision).layout verb] := by
  have h := Reads.directive (s := spec flags width precision hflags hprecision) hverb .nil
  rw [Spec.chars, List.append_assoc, List.append_assoc] at h
  rw [directive, String.toList_ofList]
  exact h

theorem number_eq (hplus : layout.plus = flags.contains '+') :
    Body.number layout (toString n.toInt) (0 ≤ n) = ⟨numeral flags n, true⟩ := by
  rw [Body.number, numeral, hplus]
  simp only [Bool.and_eq_true, List.contains_iff_mem, decide_eq_true_eq]

/-- Both verbs make the same of an integer, and ask for no precision. -/
theorem directiveText_int (hverb : verb = 'd' ∨ verb = 'v') (hplus : layout.plus = flags.contains '+')
    (hwidth : layout.width ≤ Atomic.sizeLimit) :
    directiveText display layout verb (.ofInt n) =
      .ok (Body.fill layout ⟨numeral flags n, true⟩) := by
  have hbody : body display layout verb (.ofInt n) = .ok ⟨numeral flags n, true⟩ := by
    rw [← number_eq hplus]
    rcases hverb with rfl | rfl
    · rfl
    · rfl
  rw [directiveText, hbody]
  exact if_neg (by omega)

theorem width_spec (hwidth : width ≤ Atomic.sizeLimit)
    (hflags : ∀ c ∈ flags, Layout.isFlag c = true)
    (hprecision : ∀ digits ∈ precision, ∀ c ∈ digits, isDigit c = true) :
    (spec flags width precision hflags hprecision).layout.width = width := by
  show min (digitsValue (widthDigits width)) Layout.numberLimit = width
  rw [(natural?_widthDigits width).2]
  refine Nat.min_eq_left (hwidth.trans ?_)
  decide

/-- Whatever the flags, the width and the precision are, an integer is written with as many
characters as the width says, or as many as it needs with its sign, and `int` reads it
back. -/
theorem integers_read_back (flags : List Char) (width : Nat) (precision : Option (List Char))
    (verb : Char) (n : Int64) (hflags : ∀ c ∈ flags, Layout.isFlag c = true)
    (hwidth : width ≤ Atomic.sizeLimit)
    (hprecision : ∀ digits ∈ precision, ∀ c ∈ digits, isDigit c = true)
    (hverb : verb = 'd' ∨ verb = 'v') : ∃ t : String,
      (∀ pos σ, render (directive flags width precision verb) [.ofInt n] pos σ = .ok (t, σ)) ∧
      t.length = max width (numeral flags n).length ∧
      ∀ ev f σ, Method.call ev (.ofString t) "int" [] f σ = .done (.ok (.ofInt n)) f σ := by
  have hmem : verb ∈ verbs := by rcases hverb with rfl | rfl <;> decide
  let layout := (spec flags width precision hflags hprecision).layout
  have hlayout : layout.width = width := width_spec hwidth hflags hprecision
  let t := Body.fill layout ⟨numeral flags n, true⟩
  refine ⟨String.ofList t, fun pos σ => ?_, ?_, fun ev f σ => StringMethod.call_int ?_⟩
  · refine render_eq_ok_iff.mpr ⟨rfl, _, reads_directive hflags hprecision hmem, ?_⟩
    have htext : directiveText σ.display layout verb (.ofInt n) = .ok t :=
      directiveText_int hverb rfl (hlayout.le.trans hwidth)
    rw [String.toList_ofList, ← List.append_nil t]
    exact .directive htext .nil
  · rw [String.length_ofList, Body.length_fill, hlayout]
  · rw [StringMethod.trimmed, String.toList_ofList]
    exact (denotes_trim_fill layout (denotes_numeral flags n)).integer?_eq

/-- The least integer, with zeros behind its sign; the plus sign has no effect. -/
theorem integers_read_back_least : ∃ t : String,
    (∀ pos σ, render (directive ['0', '+', '0'] 24 (some ['3']) 'd')
      [.ofInt (-9223372036854775808)] pos σ = .ok (t, σ)) ∧ t.length = 24 ∧
    ∀ ev f σ, Method.call ev (.ofString t) "int" [] f σ =
      .done (.ok (.ofInt (-9223372036854775808))) f σ := by
  have hflags : ∀ c ∈ ['0', '+', '0'], Layout.isFlag c = true := List.all_eq_true.mp rfl
  have hprecision : ∀ digits ∈ some ['3'], ∀ c ∈ digits, isDigit c = true := by
    rintro digits ⟨⟩
    exact List.all_eq_true.mp rfl
  obtain ⟨t, htext, hlength, hint⟩ := integers_read_back ['0', '+', '0'] 24 (some ['3']) 'd'
    (-9223372036854775808) hflags (by decide) hprecision (.inl rfl)
  refine ⟨t, htext, hlength.trans ?_, hint⟩
  decide +kernel

end Format
end TreeWalk
