/-
Ranges as sequences.

A loop over a range goes through the integers of the range.  Length, indices and
membership of a range are computed from its two ends alone, in words, and without going
through it; they say of the range what going through it would show.
-/
import TreeWalk.Builtin
import TreeWalk.Eval.Loop
import TreeWalk.Eval.Method
import TreeWalk.Proofs.Atomic.Sound
import TreeWalk.Proofs.Value.Range
import TreeWalk.Store.Operator

namespace TreeWalk

namespace Elements

/-- Going through elements from position `index` on gives these values one after the
other, each with its position as its key, and nothing after them. -/
inductive Gives : Nat → Elements → List Value → Prop
  | finish {index es} (h : next index es = pure none) : Gives index es []
  | turn {index es v rest vs} (h : next index es = pure (some (⟨.ofLength index, v⟩, rest)))
      (hrest : Gives (index + 1) rest vs) : Gives index es (v :: vs)

theorem gives_counted (index n : Nat) (i stop : Int) (hn : n = (stop - i + 1).toNat) :
    Gives index (.counted i stop)
      ((Range.countFrom i n).map fun m => .ofInt (Int64.ofInt m)) := by
  induction n generalizing index i with
  | zero =>
    apply Gives.finish
    show (if stop < i then _ else _) = _
    rw [if_pos (by omega)]
  | succ n ih =>
    have hrest := ih (index + 1) (i + 1) (by omega)
    refine .turn ?_ hrest
    show (if stop < i then _ else _) = _
    rw [if_neg (by omega)]

end Elements

namespace Range

open Atomic

variable {r : Range} {i : Int64} {k : Nat} {pos : Position} {σ : Store}

theorem gives_toList (r : Range) :
    Elements.Gives 0 (.counted r.start.toInt r.stop.toInt) (r.toList.map .ofInt) := by
  rw [toList, List.map_map]
  exact Elements.gives_counted 0 _ _ _ rfl

/-! ## Lengths -/

/-- The length of a range as a word: the number of its integers, or the greatest word if
there are more. -/
theorem toInt_ofLength_length (r : Range) :
    (Word.ofLength r.length).toInt = min (r.toList.length : Int) Word.greatest := by
  rw [Word.toInt_ofLength, length_eq, lengthLimit_eq, Word.greatest_eq]
  omega

theorem call_len {ev : Evaluator} {f : Fiber} : Method.call ev (.range r) "len" [] f σ =
    .done (.ok (.ofInt (Word.ofLength r.length))) f σ := rfl

theorem run_len {sink : Sink} : Native.len.run [.range r] pos sink σ =
    .ok (.ofInt (Word.ofLength r.length), σ) := rfl

/-! ## Membership -/

theorem call_contains {ev : Evaluator} {f : Fiber} :
    Method.call ev (.range r) "contains" [.ofInt i] f σ =
      .done (.ok (.ofBool (r.contains i))) f σ := rfl

theorem binary_mem : Operator.binary .mem (.ofInt i) (.range r) pos σ =
    .ok (.ofBool (r.contains i), σ) := rfl

/-! ## Indices -/

theorem index_eq : Access.index (.range r) (.ofInt i) pos =
    require (Sequence.resolveIndex? i r.length) (.index i r.length) pos >>= fun k =>
      pure (.ofInt (r.get k)) := rfl

/-- Both indices of a position give the integer there. -/
theorem index_of_lt (hlength : (r.toList.length : Int) ≤ Word.greatest)
    (hk : k < r.toList.length) (hi : i.toInt = k ∨ i.toInt = k - r.toList.length) :
    Access.index (.range r) (.ofInt i) pos σ = .ok (.ofInt r.toList[k], σ) := by
  rw [index_eq, length_eq_of_le hlength, Sequence.resolveIndex?_eq_some hlength hk hi, ← get_eq hk]
  rfl

/-- Any other index is refused, and every index of a range with more integers than a word
can count. -/
theorem index_of_outside (h : ¬ (-(r.toList.length : Int) ≤ i.toInt ∧ i.toInt < r.toList.length) ∨
      Word.greatest < r.toList.length) :
    Access.index (.range r) (.ofInt i) pos σ = .error (.error ⟨.index i r.length, pos⟩) := by
  have hnone : Sequence.resolveIndex? i r.length = none := by
    by_cases hlength : (r.toList.length : Int) ≤ Word.greatest
    · rw [length_eq_of_le hlength]
      exact Sequence.resolveIndex?_eq_none hlength (h.resolve_right (by omega))
    · have huge := greatest_lt_length (by omega : Word.greatest < (r.toList.length : Int))
      rw [Sequence.resolveIndex?, Sequence.length?, if_neg (by omega)]
      rfl
  rw [index_eq, hnone]
  rfl

/-- The operations of a range and going through it agree on these integers. -/
structure Iterates (r : Range) (items : List Int64) : Prop where
  /-- A loop over the range goes through the integers. -/
  source : ∀ pos, ∃ es, Source.ofValue (.range r) pos = pure ⟨es, false⟩ ∧
    Elements.Gives 0 es (items.map .ofInt)
  /-- They are those from the start to the stop, in order, each once. -/
  length : (items.length : Int) = max 0 (r.stop.toInt - r.start.toInt + 1)
  item : ∀ k (hk : k < items.length), items[k].toInt = r.start.toInt + k
  contains : ∀ ev n f σ, Method.call ev (.range r) "contains" [.ofInt n] f σ =
    .done (.ok (.ofBool (decide (n ∈ items)))) f σ
  mem : ∀ n pos σ, Operator.binary .mem (.ofInt n) (.range r) pos σ =
    .ok (.ofBool (decide (n ∈ items)), σ)
  len : ∃ n : Int64, n.toInt = min (items.length : Int) Word.greatest ∧
    (∀ ev f σ, Method.call ev (.range r) "len" [] f σ = .done (.ok (.ofInt n)) f σ) ∧
    ∀ pos sink σ, Native.len.run [.range r] pos sink σ = .ok (.ofInt n, σ)
  index : (items.length : Int) ≤ Word.greatest → ∀ k (hk : k < items.length) (i : Int64),
    i.toInt = k ∨ i.toInt = k - items.length →
    ∀ pos σ, Access.index (.range r) (.ofInt i) pos σ = .ok (.ofInt items[k], σ)
  index_fails : ∀ i : Int64, ¬ (-(items.length : Int) ≤ i.toInt ∧ i.toInt < items.length) ∨
      Word.greatest < items.length →
    ∀ pos σ, Access.index (.range r) (.ofInt i) pos σ =
      .error (.error ⟨.index i r.length, pos⟩)

/-- A range is the sequence of the integers from its start to its stop, whatever the two
are.  Going through it gives them in order, each once, and an integer is in the range if it
is one of them.  As long as a word can count them, the length is their number, an index
from either end gives the integer at its position, and any other index fails.  Of a range
with more integers the length is the greatest word, and every index fails. -/
theorem operations_agree_with_iteration (r : Range) : Iterates r r.toList where
  source _ := ⟨_, rfl, gives_toList r⟩
  length := by
    rw [length_toList]
    omega
  item _ := toInt_getElem_toList
  contains ev n f σ := by rw [call_contains, contains_eq]
  mem n pos σ := by rw [binary_mem, contains_eq]
  len := ⟨_, toInt_ofLength_length r, fun _ _ _ => call_len, fun _ _ _ => run_len⟩
  index hlength _ hk _ hi _ _ := index_of_lt hlength hk hi
  index_fails _ h _ _ := index_of_outside h

/-- The length of the range of all words is one short of the number of its integers. -/
example : Range.length ⟨Int64.ofInt Word.least, Int64.ofInt Word.greatest⟩ = 2 ^ 64 - 1 := by
  decide

end Range
end TreeWalk
