/-
Converting strings to integers, and back.

`int` takes exactly the numerals of integers of 64 bits, with any white space around them,
and refuses all other strings.  What `str` shows of an integer is one of its numerals.
-/
import TreeWalk.Eval.Node
import TreeWalk.Proofs.Method.String
import TreeWalk.Proofs.Number.Numeral

namespace TreeWalk
namespace Conversion

open CharClass Reader Search

open StringMethod (trimmed call_int call_int_eq call_int_of_none)

variable {ev : Evaluator} {s : String} {n : Int64} {pos : Position} {f : Fiber} {σ : Store}

/-- A numeral of an integer, with white space around it or none. -/
def Spells (s : String) (n : Int64) : Prop :=
  ∃ before text after, s.toList = before ++ (text ++ after) ∧ Numeral text n.toInt ∧
    ∀ c ∈ before ++ after, ∃ run ∈ whiteRuns, run.1 ≤ c.toNat ∧ c.toNat < run.2

/-- What is left after trimming is read as an integer where the string spells it. -/
theorem integer?_trimmed : integer? (trimmed s) = some n ↔ Spells s n := by
  rw [integer?_eq_some_iff, trimmed, String.toList_ofList]
  constructor
  · intro h
    obtain ⟨before, after, htext, hbefore, hafter⟩ := exists_surrounded s.toList
    refine ⟨before, trim s.toList, after, htext, h, fun c hc => isBlank_iff.mp ?_⟩
    rcases List.mem_append.mp hc with hc | hc
    · exact hbefore c hc
    · exact hafter c hc
  · rintro ⟨before, text, after, htext, h, hblank⟩
    have hbefore : ∀ c ∈ before, isBlank c = true := fun c hc =>
      isBlank_iff.mpr (hblank c (List.mem_append_left _ hc))
    have hafter : ∀ c ∈ after, isBlank c = true := fun c hc =>
      isBlank_iff.mpr (hblank c (List.mem_append_right _ hc))
    have hdenotes : Denotes text n.toInt := denotes_iff_numeral.mpr h
    rwa [htext, trim_surrounded hbefore hafter hdenotes.isBlank_of_mem hdenotes.ne_nil]

/-- There is nothing to trim where only signs and digits stand. -/
theorem trimmed_of_unpadded (hall : s.toList.all (('+' :: '-' :: decimals).contains ·) = true)
    (hne : s.toList ≠ []) : trimmed s = s := by
  have hcore : ∀ c ∈ s.toList, isBlank c = false := fun c hc =>
    Reader.isBlank_of_mem (List.contains_iff_mem.mp (List.all_eq_true.mp hall c hc))
  have htrim : trim s.toList = s.toList := by
    have hnone : ∀ c ∈ ([] : List Char), isBlank c = true := fun c hc => nomatch hc
    simpa using trim_surrounded hnone hnone hcore hne
  rw [trimmed, htrim, String.ofList_toList]

theorem spells_toString (n : Int64) : Spells (toString n.toInt) n := by
  refine ⟨[], (toString n.toInt).toList, [], ?_, denotes_iff_numeral.mp (denotes_toString _), ?_⟩
  · simp
  · simp

theorem call_int_iff : Method.call ev (.ofString s) "int" [] f σ = .done (.ok (.ofInt n)) f σ ↔
    Spells s n := by
  rw [← integer?_trimmed]
  refine ⟨fun h => ?_, call_int⟩
  cases hread : integer? (trimmed s) with
  | none =>
    rw [call_int_of_none hread] at h
    cases h
  | some n' =>
    rw [call_int hread] at h
    cases h
    rfl

theorem run_int_native {sink : Sink} : Native.int.run [.ofString s] pos sink =
    StringMethod.run (.some s) .int ⟨"int", [], pos⟩ := by
  have hone : (Args.one ⟨Native.int.name, [.ofString s], pos⟩ : Atomic Value) =
      pure (.ofString s) := rfl
  unfold Native.run Native.perform Native.toInt
  dsimp only
  rw [hone, pure_bind]
  rfl

/-- A function of the language is told where the caller is, and where it prints. -/
theorem callNative_eq {m : Native} {values : List Value} : Call.callNative m values pos f σ =
    Eval.lift (m.run values (pos.orElse f.pos) f.sink) { f with pos := pos.orElse f.pos } σ := rfl

theorem callNative_str : Call.callNative .str [.ofInt n] pos f σ =
    .done (.ok (.ofString (toString n.toInt))) { f with pos := pos.orElse f.pos } σ := by
  have hdisplay : σ.display (.ofInt n) = toString n.toInt := by
    unfold Store.display
    cases σ.depth with
    | zero => rfl
    | succ n => rfl
  rw [callNative_eq, ← hdisplay]
  rfl

/-- The function `int` does with a string what the method does. -/
theorem callNative_int (ev : Evaluator) : Call.callNative .int [.ofString s] pos f σ =
    Method.call ev (.ofString s) "int" [] { f with pos := pos.orElse f.pos } σ := by
  rw [callNative_eq, run_int_native, call_int_eq]

/-- `int` answers an integer for the strings that spell it, and for no others: white space,
an optional sign, one or more digits, white space, where the integer has to be one of 64
bits.  It refuses every other string, and changes nothing.  What `str` makes of an integer is
turned back into the integer. -/
theorem integers_converted (ev : Evaluator) :
    (∀ s n f σ, Method.call ev (.ofString s) "int" [] f σ = .done (.ok (.ofInt n)) f σ ↔
      Spells s n) ∧
    (∀ s f σ, (∀ n, ¬ Spells s n) → Method.call ev (.ofString s) "int" [] f σ =
      .done (.error (.error ⟨.conversion (σ.inspect (.ofString s)) "INTEGER", f.pos⟩)) f σ) ∧
    ∀ n pos f σ, ∃ t, Call.callNative .str [.ofInt n] pos f σ =
        .done (.ok (.ofString t)) { f with pos := pos.orElse f.pos } σ ∧
      ∀ pos' g τ, Call.callNative .int [.ofString t] pos' g τ =
        .done (.ok (.ofInt n)) { g with pos := pos'.orElse g.pos } τ := by
  refine ⟨fun s n f σ => call_int_iff, fun s f σ h => call_int_of_none ?_, fun n pos f σ =>
    ⟨toString n.toInt, callNative_str, fun pos' g τ => ?_⟩⟩
  · refine Option.eq_none_iff_forall_ne_some.mpr fun n hn => ?_
    exact h n (integer?_trimmed.mp hn)
  · rw [callNative_int ev]
    exact call_int_iff.mpr (spells_toString n)

theorem spells_least : Spells "\u3000 -009223372036854775808\n" (-9223372036854775808) := by
  have hdigits : natural? "009223372036854775808".toList = some 9223372036854775808 := rfl
  have hdenotes : Denotes ('-' :: "009223372036854775808".toList) (-9223372036854775808) :=
    .minus hdigits
  have hleast : (-9223372036854775808 : Int64).toInt = -9223372036854775808 := by decide
  refine ⟨['\u3000', ' '], '-' :: "009223372036854775808".toList, ['\n'], ?_, ?_, ?_⟩
  · simp
  · rw [hleast]
    exact denotes_iff_numeral.mp hdenotes
  · intro c hc
    simp only [List.cons_append, List.nil_append, List.mem_cons, List.not_mem_nil, or_false] at hc
    rcases hc with rfl | rfl | rfl <;> decide

/-- Spaces of two kinds and leading zeros around the least integer are read, and the number
that is too great by one is refused. -/
theorem integers_converted_bounds :
    Method.call (evaluator 1) (.ofString "\u3000 -009223372036854775808\n") "int" [] default
      default = .done (.ok (.ofInt (-9223372036854775808))) default default ∧
    Method.call (evaluator 1) (.ofString "9223372036854775808") "int" [] default default =
      .done (.error (.error ⟨.conversion (Store.inspect default
        (.ofString "9223372036854775808")) "INTEGER", (default : Fiber).pos⟩)) default default := by
  obtain ⟨hread, hrefused, -⟩ := integers_converted (evaluator 1)
  refine ⟨(hread _ _ _ _).mpr spells_least, hrefused _ _ _ fun n hn => ?_⟩
  have hnone : integer? (trimmed "9223372036854775808") = none := by
    rw [trimmed_of_unpadded (by decide) (by decide)]
    rfl
  rw [integer?_trimmed.mpr hn] at hnone
  cases hnone

end Conversion
end TreeWalk
