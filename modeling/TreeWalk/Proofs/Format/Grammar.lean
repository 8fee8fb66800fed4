/-
The grammar of formats.

`Reads` says how a format is put together, without saying how it is read: literal
characters, doubled percent signs, and directives with a known verb.  A format has
one reading at most, and the scanner finds it; a format that can be filled in has
one.  Nothing in a reading looks beyond its end, so the reading of a format followed
by another one is the one reading followed by the other.
-/
import Mathlib.Data.List.TakeWhile
import TreeWalk.Format

namespace TreeWalk
namespace Format

/-! ## What stands before a verb -/

/-- The verbs that a directive can have. -/
def verbs : List Char := ['v', 's', 'd', 'x', 'f', 't', 'q']

/-- A precision as it is written. -/
def dotted : Option (List Char) → List Char
  | some digits => '.' :: digits
  | none => []

/-- What stands between the percent sign and the verb of a directive. -/
structure Spec where
  flags : List Char
  width : List Char
  precision : Option (List Char)
  isFlag_of_mem : ∀ c ∈ flags, Layout.isFlag c = true
  isDigit_of_mem : ∀ c ∈ width, Reader.isDigit c = true
  /-- Zeros at the start of a width are flags. -/
  width_starts : ∀ c ∈ width.head?, Layout.isFlag c = false
  isDigit_of_precision : ∀ digits ∈ precision, ∀ c ∈ digits, Reader.isDigit c = true

namespace Spec

def chars (s : Spec) : List Char := s.flags ++ (s.width ++ dotted s.precision)

/-- The layout that is asked for. -/
def layout (s : Spec) : Layout :=
  { Layout.ofFlags s.flags with
    width := Layout.number s.width, precision := s.precision.map Layout.number }

theorem ne_percent_of_mem (s : Spec) {c : Char} (h : c ∈ s.chars) : c ≠ '%' := by
  have hflag : ∀ d ∈ s.flags, d ≠ '%' := by
    rintro d hd rfl
    exact absurd (s.isFlag_of_mem _ hd) (by decide)
  have hdigit : ∀ d, Reader.isDigit d = true → d ≠ '%' := by
    rintro d hd rfl
    exact absurd hd (by decide)
  rcases List.mem_append.mp h with h | h
  · exact hflag c h
  · rcases List.mem_append.mp h with h | h
    · exact hdigit c (s.isDigit_of_mem c h)
    · cases hprecision : s.precision with
      | none =>
        rw [hprecision] at h
        cases h
      | some digits =>
        rw [hprecision] at h
        rcases List.mem_cons.mp h with rfl | h
        · decide
        · exact hdigit c (s.isDigit_of_precision digits hprecision c h)

end Spec

/-- A verb is nothing that could stand before it. -/
theorem of_mem_verbs : ∀ verb ∈ verbs, Layout.isFlag verb = false ∧
    Reader.isDigit verb = false ∧ verb ≠ '.' ∧ verb ≠ '%' := by
  intro verb h
  simp only [verbs, List.mem_cons, List.not_mem_nil, or_false] at h
  rcases h with rfl | rfl | rfl | rfl | rfl | rfl | rfl <;> decide

/-- A run of characters ends where the first other one stands. -/
theorem takeWhile_append_stop {p : Char → Bool} {run : List Char} (rest : List Char)
    (hrun : ∀ c ∈ run, p c = true) (hstop : ∀ c ∈ rest.head?, p c = false) :
    (run ++ rest).takeWhile p = run ∧ (run ++ rest).dropWhile p = rest := by
  rw [List.takeWhile_append_of_pos hrun, List.dropWhile_append_of_pos hrun]
  cases rest with
  | nil => exact ⟨List.append_nil run, rfl⟩
  | cons c rest =>
    have hc : p c = false := hstop c rfl
    rw [List.takeWhile_cons_of_neg (by simp [hc]), List.dropWhile_cons_of_neg (by simp [hc])]
    exact ⟨List.append_nil run, rfl⟩

namespace Layout

theorem readPrecision_dotted {precision : Option (List Char)} {verb : Char} {cs : List Char}
    (hdigits : ∀ digits ∈ precision, ∀ c ∈ digits, Reader.isDigit c = true)
    (hverb : verb ∈ verbs) :
    readPrecision (dotted precision ++ verb :: cs) = (precision.map number, verb :: cs) := by
  obtain ⟨-, hdigit, hdot, -⟩ := of_mem_verbs verb hverb
  cases precision with
  | none => simp [dotted, readPrecision, hdot]
  | some digits =>
    have hrun := takeWhile_append_stop (verb :: cs) (hdigits digits rfl) fun c hc => by
      obtain rfl := Option.some.inj hc
      exact hdigit
    simp only [dotted, List.cons_append, readPrecision, hrun.1, hrun.2, Option.map_some]

/-- What stands before a verb is read as it is meant. -/
theorem read_chars (s : Spec) {verb : Char} {cs : List Char} (hverb : verb ∈ verbs) :
    read (s.chars ++ verb :: cs) = (s.layout, verb :: cs) := by
  obtain ⟨hflag, hdigit, hdot, -⟩ := of_mem_verbs verb hverb
  have hflags := takeWhile_append_stop (s.width ++ (dotted s.precision ++ verb :: cs))
    s.isFlag_of_mem fun c hc => by
      cases hwidth : s.width with
      | cons d width =>
        rw [hwidth] at hc
        refine s.width_starts c ?_
        rw [hwidth]
        exact hc
      | nil =>
        rw [hwidth] at hc
        cases hprecision : s.precision <;> rw [hprecision] at hc <;>
          obtain rfl := Option.some.inj hc
        · exact hflag
        · rfl
  have hwidth := takeWhile_append_stop (dotted s.precision ++ verb :: cs)
    s.isDigit_of_mem fun c hc => by
      cases hprecision : s.precision <;> rw [hprecision] at hc <;> obtain rfl := Option.some.inj hc
      · exact hdigit
      · rfl
  have happend : s.chars ++ verb :: cs =
      s.flags ++ (s.width ++ (dotted s.precision ++ verb :: cs)) := by
    simp only [Spec.chars, List.append_assoc]
  rw [happend]
  simp only [read, hflags.1, hflags.2, hwidth.1, hwidth.2,
    readPrecision_dotted s.isDigit_of_precision hverb]
  rfl

theorem exists_precision (cs : List Char) : ∃ precision : Option (List Char),
    (∀ digits ∈ precision, ∀ c ∈ digits, Reader.isDigit c = true) ∧
      cs = dotted precision ++ (readPrecision cs).2 ∧
      (readPrecision cs).1 = precision.map number := by
  unfold readPrecision
  split
  · next cs =>
    refine ⟨some (cs.takeWhile Reader.isDigit), fun digits hdigits c hc => ?_, ?_, rfl⟩
    · obtain rfl := Option.some.inj hdigits
      exact List.mem_takeWhile_imp hc
    · simp [dotted]
  · exact ⟨none, (fun _ h => nomatch h), rfl, rfl⟩

/-- Whatever a layout is read from is written as one. -/
theorem exists_spec (cs : List Char) :
    ∃ s : Spec, cs = s.chars ++ (read cs).2 ∧ (read cs).1 = s.layout := by
  obtain ⟨precision, hdigits, hchars, hnumber⟩ :=
    exists_precision ((cs.dropWhile isFlag).dropWhile Reader.isDigit)
  refine ⟨⟨cs.takeWhile isFlag, (cs.dropWhile isFlag).takeWhile Reader.isDigit, precision,
    fun c hc => List.mem_takeWhile_imp hc, fun c hc => List.mem_takeWhile_imp hc, ?_, hdigits⟩,
    ?_, ?_⟩
  · intro c hc
    have hhead := List.head?_dropWhile_not isFlag cs
    cases hrest : cs.dropWhile isFlag with
    | nil =>
      rw [hrest] at hc
      cases hc
    | cons d rest =>
      rw [hrest] at hc hhead
      rw [List.takeWhile_cons] at hc
      split at hc
      · obtain rfl := Option.some.inj hc
        exact hhead
      · cases hc
  · simp only [Spec.chars, List.append_assoc, read]
    rw [← hchars, List.takeWhile_append_dropWhile, List.takeWhile_append_dropWhile]
  · simp only [read, Spec.layout, hnumber]

end Layout

/-! ## Formats -/

/-- A format and the pieces that it is put together from. -/
inductive Reads : List Char → List Piece → Prop
  | nil : Reads [] []
  | literal {c : Char} {cs : List Char} {ps : List Piece} (hc : c ≠ '%') (h : Reads cs ps) :
      Reads (c :: cs) (.literal c :: ps)
  | percent {cs : List Char} {ps : List Piece} (h : Reads cs ps) :
      Reads ('%' :: '%' :: cs) (.literal '%' :: ps)
  | directive {s : Spec} {verb : Char} {cs : List Char} {ps : List Piece} (hverb : verb ∈ verbs)
      (h : Reads cs ps) : Reads ('%' :: (s.chars ++ verb :: cs)) (.directive s.layout verb :: ps)

theorem pieces_directive {cs rest : List Char} {layout : Layout} {verb : Char}
    (hne : ∀ cs', cs ≠ '%' :: cs') (hread : Layout.read cs = (layout, verb :: rest)) :
    pieces ('%' :: cs) = .directive layout verb :: pieces rest := by
  rw [pieces]
  case x_1 => exact hne
  split
  · next h => simp [hread] at h
  · next h =>
    rw [hread] at h
    cases h
    rfl

theorem pieces_unfinished {cs : List Char} {layout : Layout} (hne : ∀ cs', cs ≠ '%' :: cs')
    (hread : Layout.read cs = (layout, [])) : pieces ('%' :: cs) = [.unfinished] := by
  rw [pieces]
  case x_1 => exact hne
  split
  · rfl
  · next h =>
    rw [hread] at h
    cases h

theorem pieces_literal {c : Char} {cs : List Char} (hc : c ≠ '%') :
    pieces (c :: cs) = .literal c :: pieces cs := by
  rw [pieces]
  all_goals simp [hc]

namespace Reads

variable {cs cs' : List Char} {ps ps' : List Piece}

/-- The scanner finds the pieces that a format is put together from. -/
theorem pieces_eq (h : Reads cs ps) : pieces cs = ps := by
  induction h with
  | nil => rw [pieces]
  | literal hc _ ih => rw [pieces_literal hc, ih]
  | percent _ ih => rw [pieces, ih]
  | @directive s verb cs ps hverb _ ih =>
    have hne : ∀ cs', s.chars ++ verb :: cs ≠ '%' :: cs' := by
      intro cs' heq
      cases hchars : s.chars with
      | nil =>
        rw [hchars] at heq
        exact (of_mem_verbs verb hverb).2.2.2 (List.cons.inj heq).1
      | cons c rest =>
        rw [hchars] at heq
        exact s.ne_percent_of_mem (hchars ▸ List.mem_cons_self) (List.cons.inj heq).1
    rw [pieces_directive hne (Layout.read_chars s hverb), ih]

theorem unique (h : Reads cs ps) (h' : Reads cs ps') : ps = ps' :=
  h.pieces_eq.symm.trans h'.pieces_eq

/-- No piece reaches beyond the end of its format. -/
theorem append (h : Reads cs ps) (h' : Reads cs' ps') : Reads (cs ++ cs') (ps ++ ps') := by
  induction h with
  | nil => exact h'
  | literal hc _ ih => exact .literal hc ih
  | percent _ ih => exact .percent ih
  | directive hverb _ ih =>
    rw [List.cons_append, List.append_assoc]
    exact .directive hverb ih

end Reads
end Format
end TreeWalk
