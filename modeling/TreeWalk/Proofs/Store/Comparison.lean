/-
How the operators compare.

Two integers, two numbers and two strings have an order, and every comparison operator
reads its answer off it.  Numbers of which one is a NaN have none and answer no to all but
`!=`.  What else there is can be compared by `==` and `!=` alone, which are always each
other's opposite and are refused together.
-/
import Mathlib.Data.String.Basic
import TreeWalk.Proofs.Store.Equality
import TreeWalk.Store.Operator

namespace TreeWalk

/-- What a comparison operator says of two values that are in an order. -/
def InfixOp.verdict? : InfixOp → Option (Ordering → Bool)
  | .eq => some Ordering.isEq
  | .notEq => some Ordering.isNe
  | .lt => some Ordering.isLT
  | .ltEq => some Ordering.isLE
  | .gt => some Ordering.isGT
  | .gtEq => some Ordering.isGE
  | _ => none

/-- The operators that have a verdict are the six comparison operators. -/
@[elab_as_elim]
theorem InfixOp.verdict_cases {motive : InfixOp → (Ordering → Bool) → Prop} {op : InfixOp}
    {p : Ordering → Bool} (hp : op.verdict? = some p) (eq : motive .eq Ordering.isEq)
    (notEq : motive .notEq Ordering.isNe) (lt : motive .lt Ordering.isLT)
    (ltEq : motive .ltEq Ordering.isLE) (gt : motive .gt Ordering.isGT)
    (gtEq : motive .gtEq Ordering.isGE) : motive op p := by
  cases op with
  | eq | notEq | lt | ltEq | gt | gtEq =>
    cases hp
    assumption
  | _ => cases hp

namespace Value

variable {v : Value}

theorem int?_eq_some_iff {n : Int64} : v.int? = some n ↔ v = .ofInt n := by
  cases v with
  | int m =>
    obtain ⟨payload, valid⟩ := m
    cases valid <;> simp [int?, Nullable.get?, ofInt, Nullable.some]
  | _ =>
    constructor
    · intro h
      cases h
    · intro h
      cases h

theorem string?_eq_some_iff {s : String} : v.string? = some s ↔ v = .ofString s := by
  cases v with
  | str t =>
    obtain ⟨payload, valid⟩ := t
    cases valid <;> simp [string?, Nullable.get?, ofString, Nullable.some]
  | _ =>
    constructor
    · intro h
      cases h
    · intro h
      cases h

theorem number?_cases {x : Double} (h : v.number? = some x) :
    (∃ n, v = .ofInt n ∧ x = .ofInt n) ∨ v = .ofFloat x := by
  cases v with
  | int m =>
    obtain ⟨payload, valid⟩ := m
    cases valid with
    | false => cases h
    | true =>
      cases h
      exact .inl ⟨payload, rfl, rfl⟩
  | float y =>
    obtain ⟨payload, valid⟩ := y
    cases valid with
    | false => cases h
    | true =>
      cases h
      exact .inr rfl
  | _ => cases h

/-- A valid value of a numeric kind holds a number. -/
theorem exists_number? {m : Nullable Int64} (h : (int m).isValid = true) :
    ∃ x, (int m).number? = some x := by
  obtain ⟨payload, valid⟩ := m
  obtain rfl : valid = true := h
  exact ⟨_, rfl⟩

theorem exists_string? {s : Nullable String} (h : (str s).isValid = true) :
    ∃ t, (str s).string? = some t := by
  obtain ⟨payload, valid⟩ := s
  obtain rfl : valid = true := h
  exact ⟨_, rfl⟩

theorem isString_eq (h : v.isValid = true) : v.isString = v.string?.isSome := by
  cases v with
  | str s =>
    obtain ⟨payload, valid⟩ := s
    obtain rfl : valid = true := h
    rfl
  | _ => rfl

theorem isValid_of_number? (h : v.number?.isSome = true) : v.isValid = true := by
  obtain ⟨x, hx⟩ := Option.isSome_iff_exists.mp h
  rcases number?_cases hx with ⟨n, rfl, _⟩ | rfl
  · rfl
  · rfl

theorem isValid_of_string? (h : v.string?.isSome = true) : v.isValid = true := by
  obtain ⟨s, hs⟩ := Option.isSome_iff_exists.mp h
  rw [string?_eq_some_iff.mp hs]
  rfl

theorem string?_of_number? {x : Double} (h : v.number? = some x) : v.string? = none := by
  rcases number?_cases h with ⟨n, rfl, _⟩ | rfl
  · rfl
  · rfl

end Value

/-- Equality is defined but between a number and a string. -/
theorem Store.equal?_eq_none_iff {σ : Store} {a b : Value} : σ.equal? a b = none ↔
    (a.number?.isSome ∧ b.string?.isSome) ∨ (a.string?.isSome ∧ b.number?.isSome) := by
  obtain ⟨inner, hinner⟩ := σ.exists_equalWith? a b
  rw [hinner]
  by_cases hvalid : (!a.isValid || !b.isValid) = true
  · rw [equalWith?_of_not_valid hvalid]
    refine ⟨nofun, fun h => ?_⟩
    rcases h with ⟨ha, hb⟩ | ⟨ha, hb⟩
    · rw [Value.isValid_of_number? ha, Value.isValid_of_string? hb] at hvalid
      cases hvalid
    · rw [Value.isValid_of_string? ha, Value.isValid_of_number? hb] at hvalid
      cases hvalid
  · rw [Bool.not_eq_true, Bool.or_eq_false_iff, Bool.not_eq_false', Bool.not_eq_false'] at hvalid
    rw [equalWith?_of_valid hvalid.1 hvalid.2, Value.isString_eq hvalid.1, Value.isString_eq hvalid.2]
    cases ha : a.number? with
    | some x =>
      have hstring := Value.string?_of_number? ha
      cases hb : b.number? with
      | some y =>
        have hstring' := Value.string?_of_number? hb
        simp [hstring, hstring']
      | none => simp [hstring, Option.isSome_iff_ne_none]
    | none =>
      cases hb : b.number? with
      | some y => simp [Option.isSome_iff_ne_none]
      | none => simp

namespace Operator

open Atomic Store

variable {op : InfixOp} {p : Ordering → Bool} {a b : Value} {pos : Position} {σ : Store}

/-! ## Operands -/

section

variable {α β : Type} {x? : Option α} {y? : Option β}

theorem both_or_not (x? : Option α) (y? : Option β) :
    (∃ x y, x? = some x ∧ y? = some y) ∨ x? = none ∨ y? = none := by
  cases x? <;> cases y? <;> simp

theorem not_both {x : α} {y : β} (h : x? = none ∨ y? = none) (hx : x? = some x) :
    y? ≠ some y := by
  rintro rfl
  rcases h with h | h
  · cases hx.symm.trans h
  · cases h

end

/-- The pairs of values, by what makes them comparable. -/
inductive Operands : Value → Value → Prop
  | ints (m n : Int64) : Operands (.ofInt m) (.ofInt n)
  | numbers {a b : Value} {x y : Double} (hints : a.int? = none ∨ b.int? = none)
    (ha : a.number? = some x) (hb : b.number? = some y) : Operands a b
  | strings (s t : String) : Operands (.ofString s) (.ofString t)
  | others {a b : Value} (hnumbers : a.number? = none ∨ b.number? = none)
    (hstrings : a.string? = none ∨ b.string? = none) : Operands a b

theorem operands (a b : Value) : Operands a b := by
  rcases both_or_not a.int? b.int? with ⟨m, n, ha, hb⟩ | hints
  · rw [Value.int?_eq_some_iff.mp ha, Value.int?_eq_some_iff.mp hb]
    exact .ints m n
  · rcases both_or_not a.number? b.number? with ⟨x, y, ha, hb⟩ | hnumbers
    · exact .numbers hints ha hb
    · rcases both_or_not a.string? b.string? with ⟨s, t, ha, hb⟩ | hstrings
      · rw [Value.string?_eq_some_iff.mp ha, Value.string?_eq_some_iff.mp hb]
        exact .strings s t
      · exact .others hnumbers hstrings

/-- The failure of an operator that is not defined on its operands. -/
def refusal (op : InfixOp) (a b : Value) (pos : Position) : Exit :=
  .error ⟨.infixOp a.kind op.symbol b.kind, pos⟩

/-- Between integers an operator is one of integers, but for `&&`, `||` and `in`. -/
theorem binary_ints {m n : Int64} (h : op ≠ .and ∧ op ≠ .or ∧ op ≠ .mem) :
    binary op (.ofInt m) (.ofInt n) pos = onInts op m n pos := by
  cases op <;> first | rfl | simp at h

theorem binary_strings {s t : String} (h : op ≠ .and ∧ op ≠ .or ∧ op ≠ .mem) :
    binary op (.ofString s) (.ofString t) pos =
      onStrings op s t (.ofString s) (.ofString t) pos := by
  cases op <;> first | rfl | simp at h

theorem binary_numbers {x y : Double} (h : op ≠ .and ∧ op ≠ .or ∧ op ≠ .mem)
    (hints : a.int? = none ∨ b.int? = none) (ha : a.number? = some x) (hb : b.number? = some y) :
    binary op a b pos = onFloats op x y a b pos := by
  rcases Value.number?_cases ha with ⟨m, rfl, rfl⟩ | rfl
  · rcases Value.number?_cases hb with ⟨n, rfl, rfl⟩ | rfl
    · exact absurd rfl (not_both hints rfl)
    · cases op <;> first | rfl | simp at h
  · rcases Value.number?_cases hb with ⟨n, rfl, rfl⟩ | rfl
    · cases op <;> first | rfl | simp at h
    · cases op <;> first | rfl | simp at h

theorem onAny_eq (a b : Value) (pos : Position) (σ : Store) : onAny .eq a b pos σ =
    match σ.equal? a b with
    | some e => .ok (.ofBool e, σ)
    | none => .error (refusal .eq a b pos) := by
  show (match σ.equal? a b with
    | some e => pure (.ofBool e)
    | none => mismatch .eq a b pos : Atomic Value) σ = _
  cases σ.equal? a b <;> rfl

theorem onAny_notEq (a b : Value) (pos : Position) (σ : Store) : onAny .notEq a b pos σ =
    match σ.equal? a b with
    | some e => .ok (.ofBool (!e), σ)
    | none => .error (refusal .notEq a b pos) := by
  show (match σ.equal? a b with
    | some e => pure (.ofBool !e)
    | none => mismatch .notEq a b pos : Atomic Value) σ = _
  cases σ.equal? a b <;> rfl

theorem onArrays_eq (h : op ≠ .add ∧ op ≠ .mul) (hequal : σ.equal? a b ≠ none) :
    onArrays op a b pos σ = onAny op a b pos σ := by
  obtain ⟨e, he⟩ := Option.ne_none_iff_exists'.mp hequal
  cases op with
  | eq =>
    show Except.ok (Value.ofBool ((σ.equal? a b).getD false), σ) = _
    rw [onAny_eq, he]
    rfl
  | notEq =>
    show Except.ok (Value.ofBool (!(σ.equal? a b).getD false), σ) = _
    rw [onAny_notEq, he]
    rfl
  | add => exact absurd rfl h.1
  | mul => exact absurd rfl h.2
  | _ => rfl

/-- Where nothing else applies, an operator is one of any two values. -/
theorem binary_others (h : op ≠ .and ∧ op ≠ .or ∧ op ≠ .mem) (h' : op ≠ .add ∧ op ≠ .mul)
    (hnumbers : a.number? = none ∨ b.number? = none)
    (hstrings : a.string? = none ∨ b.string? = none) :
    binary op a b pos σ = onAny op a b pos σ := by
  unfold binary
  split
  · exact absurd rfl h.1
  · exact absurd rfl h.2.1
  · split
    · rfl
    · next hvalid =>
      rw [Bool.not_eq_true, Bool.or_eq_false_iff, Bool.not_eq_false', Bool.not_eq_false'] at hvalid
      rw [if_neg h.2.2]
      -- The cases are tried in the order of the definition; two numbers and two strings are
      -- ruled out, and all others leave equality to `onAny`.
      split
      case h_1 m n =>
        obtain ⟨x, hx⟩ := Value.exists_number? hvalid.1
        obtain ⟨y, hy⟩ := Value.exists_number? hvalid.2
        exact absurd hy (not_both hnumbers hx)
      case h_2 i =>
        refine onArrays_eq h' fun hnone => ?_
        rcases equal?_eq_none_iff.mp hnone with ⟨hi, _⟩ | ⟨hi, _⟩
        · cases hi
        · cases hi
      case h_3 j _ =>
        refine onArrays_eq h' fun hnone => ?_
        rcases equal?_eq_none_iff.mp hnone with ⟨_, hj⟩ | ⟨_, hj⟩
        · cases hj
        · cases hj
      case h_4 s t =>
        obtain ⟨x, hx⟩ := Value.exists_string? hvalid.1
        obtain ⟨y, hy⟩ := Value.exists_string? hvalid.2
        exact absurd hy (not_both hstrings hx)
      case h_5 => cases op <;> first | rfl | simp at h'
      case h_6 => cases op <;> first | rfl | simp at h'
      case h_7 => cases op <;> first | rfl | simp at h'
      case h_8 =>
        rcases hnumbers with ha | hb
        · rw [ha]
        · rw [hb]
          cases a.number? <;> rfl

/-! ## Verdicts -/

theorem answer {r r' : Bool} (h : r = r') :
    (pure (.ofBool r) : Atomic Value) = pure (.ofBool r') := by
  rw [h]

theorem onInts_verdict (hp : op.verdict? = some p) (m n : Int64) (pos : Position) :
    onInts op m n pos = pure (.ofBool (p (compare m n))) := by
  have heq : (m == n) = (compare m n).isEq := by
    rw [Bool.eq_iff_iff, beq_iff_eq, Ordering.isEq_iff_eq_eq, Std.compare_eq_iff_eq]
  have hne : (m != n) = (compare m n).isNe := by
    rw [bne, heq]
    cases compare m n <;> rfl
  have hlt : decide (m < n) = (compare m n).isLT := by
    rw [Bool.eq_iff_iff, decide_eq_true_iff, Ordering.isLT_iff_eq_lt, Std.compare_eq_lt]
  have hle : decide (m ≤ n) = (compare m n).isLE := by
    rw [Bool.eq_iff_iff, decide_eq_true_iff, Std.isLE_compare]
  have hgt : decide (n < m) = (compare m n).isGT := by
    rw [Bool.eq_iff_iff, decide_eq_true_iff, Ordering.isGT_iff_eq_gt, Std.compare_eq_gt]
  have hge : decide (n ≤ m) = (compare m n).isGE := by
    rw [Bool.eq_iff_iff, decide_eq_true_iff, Std.isGE_compare]
  exact InfixOp.verdict_cases hp (answer heq) (answer hne) (answer hlt) (answer hle) (answer hgt)
    (answer hge)

theorem onStrings_verdict (hp : op.verdict? = some p) (s t : String) (a b : Value) (pos : Position) :
    onStrings op s t a b pos = pure (.ofBool (p (compare s t))) := by
  have heq : (s == t) = (compare s t).isEq := by
    rw [Bool.eq_iff_iff, beq_iff_eq, Ordering.isEq_iff_eq_eq, compare_eq_iff_eq]
  have hne : (s != t) = (compare s t).isNe := by
    rw [bne, heq]
    cases compare s t <;> rfl
  have hlt : decide (s < t) = (compare s t).isLT := by
    rw [Bool.eq_iff_iff, decide_eq_true_iff, Ordering.isLT_iff_eq_lt, compare_lt_iff_lt]
  have hgt : decide (t < s) = (compare s t).isGT := by
    rw [Bool.eq_iff_iff, decide_eq_true_iff, Ordering.isGT_iff_eq_gt, compare_gt_iff_gt]
  have hle : (!decide (t < s)) = (compare s t).isLE := by
    rw [hgt]
    cases compare s t <;> rfl
  have hge : (!decide (s < t)) = (compare s t).isGE := by
    rw [hlt]
    cases compare s t <;> rfl
  exact InfixOp.verdict_cases hp (answer heq) (answer hne) (answer hlt) (answer hle) (answer hgt)
    (answer hge)

theorem onFloats_verdict (hp : op.verdict? = some p) {x y : Double} {o : Ordering}
    (ho : x.compare? y = some o) (a b : Value) (pos : Position) :
    onFloats op x y a b pos = pure (.ofBool (p o)) := by
  have ho' : y.compare? x = some o.swap := by rw [Double.compare?_swap, ho]; rfl
  have heq : (x == y) = o.isEq := by
    rw [Bool.eq_iff_iff, Double.beq_iff, ho, Option.some.injEq, Ordering.isEq_iff_eq_eq]
  have hne : (x != y) = o.isNe := by
    rw [bne, heq]
    cases o <;> rfl
  have hlt : decide (x < y) = o.isLT := by
    rw [Bool.eq_iff_iff, decide_eq_true_iff, Double.lt_iff, ho, Option.some.injEq,
      Ordering.isLT_iff_eq_lt]
  have hle : decide (x ≤ y) = o.isLE := by
    rw [Bool.eq_iff_iff, decide_eq_true_iff, Double.le_iff, ho]
    simp
  have hgt : decide (y < x) = o.isGT := by
    rw [Bool.eq_iff_iff, decide_eq_true_iff, Double.lt_iff, ho']
    cases o <;> decide
  have hge : decide (y ≤ x) = o.isGE := by
    rw [Bool.eq_iff_iff, decide_eq_true_iff, Double.le_iff, ho']
    cases o <;> simp
  exact InfixOp.verdict_cases hp (answer heq) (answer hne) (answer hlt) (answer hle) (answer hgt)
    (answer hge)

/-- A NaN is in no order with any number. -/
theorem onFloats_unordered (hop : op ∈ [.lt, .ltEq, .gt, .gtEq]) {x y : Double}
    (ho : x.compare? y = none) (a b : Value) (pos : Position) :
    onFloats op x y a b pos = pure (.ofBool false) := by
  have ho' : y.compare? x = none := by rw [Double.compare?_swap, ho]; rfl
  have hlt : ∀ {z w : Double}, z.compare? w = none → decide (z < w) = false := by
    intro z w h
    rw [decide_eq_false_iff_not, Double.lt_iff, h]
    exact nofun
  have hle : ∀ {z w : Double}, z.compare? w = none → decide (z ≤ w) = false := by
    intro z w h
    rw [decide_eq_false_iff_not, Double.le_iff, h]
    rintro ⟨o, hnone, _⟩
    cases hnone
  cases op with
  | lt => exact answer (hlt ho)
  | ltEq => exact answer (hle ho)
  | gt => exact answer (hlt ho')
  | gtEq => exact answer (hle ho')
  | _ => simp at hop

/-! ## Equality -/

theorem equal?_numbers {x y : Double} (hints : a.int? = none ∨ b.int? = none)
    (ha : a.number? = some x) (hb : b.number? = some y) : σ.equal? a b = some (x == y) := by
  obtain ⟨inner, hinner⟩ := σ.exists_equalWith? a b
  have hnumbers : equalNumbers a b x y = (x == y) := by
    unfold equalNumbers
    rcases hints with hm | hn
    · rw [hm]
    · rw [hn]
      cases a.int? <;> rfl
  rw [hinner, equalWith?_of_valid (Value.isValid_of_number? (ha ▸ rfl))
    (Value.isValid_of_number? (hb ▸ rfl)), ha, hb]
  exact congrArg some hnumbers

/-- Equality does not depend on how the operands are told apart. -/
theorem binary_eq_onAny (hop : op = .eq ∨ op = .notEq) (a b : Value) (pos : Position) (σ : Store) :
    binary op a b pos σ = onAny op a b pos σ := by
  cases operands a b with
  | ints m n => rcases hop with rfl | rfl <;> rfl
  | numbers hints ha hb =>
    rcases hop with rfl | rfl
    · rw [binary_numbers (by decide) hints ha hb, onAny_eq, equal?_numbers hints ha hb]
      rfl
    · rw [binary_numbers (by decide) hints ha hb, onAny_notEq, equal?_numbers hints ha hb]
      rfl
  | strings s t => rcases hop with rfl | rfl <;> rfl
  | others hnumbers hstrings =>
    rcases hop with rfl | rfl
    · exact binary_others (by decide) (by decide) hnumbers hstrings
    · exact binary_others (by decide) (by decide) hnumbers hstrings

theorem binary_eq (a b : Value) (pos : Position) (σ : Store) : binary .eq a b pos σ =
    match σ.equal? a b with
    | some e => .ok (.ofBool e, σ)
    | none => .error (refusal .eq a b pos) :=
  (binary_eq_onAny (.inl rfl) a b pos σ).trans (onAny_eq a b pos σ)

theorem binary_notEq (a b : Value) (pos : Position) (σ : Store) : binary .notEq a b pos σ =
    match σ.equal? a b with
    | some e => .ok (.ofBool (!e), σ)
    | none => .error (refusal .notEq a b pos) :=
  (binary_eq_onAny (.inr rfl) a b pos σ).trans (onAny_notEq a b pos σ)

/-- Two values count as equal if `==` says so, and also if it says no where it is not defined. -/
theorem binary_eq_true_iff : binary .eq a b pos σ = .ok (.ofBool true, σ) ↔ σ.equal a b = true := by
  rw [binary_eq, Store.equal]
  cases σ.equal? a b with
  | none => simp
  | some e => cases e <;> simp [Value.ofBool]

/-! ## Order -/

theorem compare?_numbers {x y : Double} (hints : a.int? = none ∨ b.int? = none)
    (ha : a.number? = some x) (hb : b.number? = some y) : compare? a b = x.compare? y := by
  rw [compare?_eq_held, ha, hb]
  rcases hints with hm | hn
  · rw [hm]
  · rw [hn]
    cases a.int? <;> rfl

theorem compare?_others (hnumbers : a.number? = none ∨ b.number? = none)
    (hstrings : a.string? = none ∨ b.string? = none) : compare? a b = none := by
  rw [compare?_eq_held]
  split
  · next m n ha hb =>
    rw [Value.int?_eq_some_iff.mp ha, Value.int?_eq_some_iff.mp hb] at hnumbers
    exact absurd rfl (not_both hnumbers rfl)
  · split
    · next x y ha hb => exact absurd hb (not_both hnumbers ha)
    · split
      · next s t ha hb => exact absurd hb (not_both hstrings ha)
      · rfl

/-! ## Coherence -/

/-- Two operators that say opposite things of the same operands, and refuse the same ones. -/
def Opposite (op op' : InfixOp) (a b : Value) (pos : Position) (σ : Store) : Prop :=
  (∃ r, binary op a b pos σ = .ok (.ofBool r, σ) ∧ binary op' a b pos σ = .ok (.ofBool (!r), σ)) ∨
    ∃ x y, binary op a b pos σ = .error x ∧ binary op' a b pos σ = .error y

theorem opposite_equality (a b : Value) (pos : Position) (σ : Store) :
    Opposite .eq .notEq a b pos σ := by
  unfold Opposite
  rw [binary_eq, binary_notEq]
  cases σ.equal? a b with
  | some e => exact .inl ⟨e, rfl, rfl⟩
  | none => exact .inr ⟨_, _, rfl, rfl⟩

theorem opposite_match (a b : Value) (pos : Position) (σ : Store) :
    Opposite .isMatch .notMatch a b pos σ := by
  unfold Opposite
  cases operands a b with
  | ints m n => exact .inr ⟨_, _, rfl, rfl⟩
  | numbers hints ha hb =>
    rw [binary_numbers (by decide) hints ha hb, binary_numbers (by decide) hints ha hb]
    exact .inr ⟨_, _, rfl, rfl⟩
  | strings s t =>
    rw [binary_strings (by decide), binary_strings (by decide)]
    unfold onStrings pattern
    cases Regex.ofText t with
    | ok r => exact .inl ⟨r.isMatch s, rfl, rfl⟩
    | error detail => exact .inr ⟨_, _, rfl, rfl⟩
  | others hnumbers hstrings =>
    rw [binary_others (by decide) (by decide) hnumbers hstrings,
      binary_others (by decide) (by decide) hnumbers hstrings]
    exact .inr ⟨_, _, rfl, rfl⟩

/-- The comparison operators agree on two values with each other and with their order. -/
structure Coherent (a b : Value) (pos : Position) (σ : Store) : Prop where
  notEq : Opposite .eq .notEq a b pos σ
  ordered : ∀ o, compare? a b = some o → ∀ op p, op.verdict? = some p →
    binary op a b pos σ = .ok (.ofBool (p o), σ)
  /-- Only numbers of which one is a NaN can be compared without being in an order. -/
  unordered : compare? a b = none → ∀ op ∈ [.lt, .ltEq, .gt, .gtEq],
    (∃ x y, a.number? = some x ∧ b.number? = some y ∧ (x.isNaN = true ∨ y.isNaN = true) ∧
      binary op a b pos σ = .ok (.ofBool false, σ)) ∨
    (a.number? = none ∨ b.number? = none) ∧ binary op a b pos σ = .error (refusal op a b pos)
  notMatch : Opposite .isMatch .notMatch a b pos σ

theorem ordered_verdict {o : Ordering} (ho : compare? a b = some o) (hp : op.verdict? = some p)
    (pos : Position) (σ : Store) : binary op a b pos σ = .ok (.ofBool (p o), σ) := by
  have hop : op ≠ .and ∧ op ≠ .or ∧ op ≠ .mem := by
    cases op <;> simp [InfixOp.verdict?] at hp ⊢
  cases operands a b with
  | ints m n =>
    cases ho
    rw [binary_ints hop, onInts_verdict hp]
    rfl
  | numbers hints ha hb =>
    rw [compare?_numbers hints ha hb] at ho
    rw [binary_numbers hop hints ha hb, onFloats_verdict hp ho]
    rfl
  | strings s t =>
    cases ho
    rw [binary_strings hop, onStrings_verdict hp]
    rfl
  | others hnumbers hstrings =>
    rw [compare?_others hnumbers hstrings] at ho
    cases ho

theorem unordered_verdict (ho : compare? a b = none) (hop : op ∈ [.lt, .ltEq, .gt, .gtEq])
    (pos : Position) (σ : Store) :
    (∃ x y, a.number? = some x ∧ b.number? = some y ∧ (x.isNaN = true ∨ y.isNaN = true) ∧
      binary op a b pos σ = .ok (.ofBool false, σ)) ∨
    (a.number? = none ∨ b.number? = none) ∧ binary op a b pos σ = .error (refusal op a b pos) := by
  have hlogic : op ≠ .and ∧ op ≠ .or ∧ op ≠ .mem := by cases op <;> simp at hop ⊢
  have hjoin : op ≠ .add ∧ op ≠ .mul := by cases op <;> simp at hop ⊢
  cases operands a b with
  | ints m n => cases ho
  | @numbers _ _ x y hints ha hb =>
    rw [compare?_numbers hints ha hb] at ho
    refine .inl ⟨x, y, ha, hb, Double.compare?_eq_none_iff.mp ho, ?_⟩
    rw [binary_numbers hlogic hints ha hb, onFloats_unordered hop ho]
    rfl
  | strings s t => cases ho
  | others hnumbers hstrings =>
    refine .inr ⟨hnumbers, ?_⟩
    rw [binary_others hlogic hjoin hnumbers hstrings]
    cases op <;> first | rfl | simp at hop

/-- No two values make the comparison operators contradict each other or the order. -/
theorem comparisons_coherent (a b : Value) (pos : Position) (σ : Store) : Coherent a b pos σ where
  notEq := opposite_equality a b pos σ
  ordered _ ho _ _ hp := ordered_verdict ho hp pos σ
  unordered ho _ hop := unordered_verdict ho hop pos σ
  notMatch := opposite_match a b pos σ

/-- 1 is less than 2, and in no order with a string. -/
theorem comparisons_coherent_one :
    binary .gtEq (.ofInt 1) (.ofInt 2) (.ofLine 3) default = .ok (.ofBool false, default) ∧
    binary .gtEq (.ofInt 1) (.ofString "2") (.ofLine 3) default =
      .error (refusal .gtEq (.ofInt 1) (.ofString "2") (.ofLine 3)) := by
  constructor
  · exact (comparisons_coherent (.ofInt 1) (.ofInt 2) (.ofLine 3) default).ordered .lt (by decide)
      .gtEq Ordering.isGE rfl
  · rcases (comparisons_coherent (.ofInt 1) (.ofString "2") (.ofLine 3) default).unordered
      rfl .gtEq (by simp) with ⟨x, y, _, hy, _⟩ | ⟨_, hrefused⟩
    · cases hy
    · exact hrefused

end Operator
end TreeWalk
