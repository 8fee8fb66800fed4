/-
Slices and indices of arrays, tuples and strings.

Both name places of one sequence of elements, which for a string are its characters.  A
slice is a sequence of the same kind that has the elements between its bounds, and each
of them is also what an index gives.  Whether a slice or an index is accepted depends on
the bounds and the length alone.
-/
import TreeWalk.Eval.Method
import TreeWalk.Eval.Node
import TreeWalk.Proofs.Atomic.Sound
import TreeWalk.Proofs.Value.Sequence

namespace TreeWalk
namespace Access

open Atomic Sequence

variable {ev : Evaluator} {id : ArrayId} {x y z : Value} {a i : Int64} {start stop : Option Int64}
  {items part : List Value} {n k low high : Nat} {pos : Position} {f : Fiber} {σ τ υ : Store}

/-- An element of a string: one character of it. -/
def character (c : Char) : Value := .ofString c.toString

/-- The elements of an array, a tuple or a valid string. -/
def elements? (σ : Store) : Value → Option (List Value)
  | .array id => some (σ.array id).toList
  | .tuple items _ => some items
  | .str s => s.get?.map fun text => text.toList.map character
  | _ => none

/-- `x[start:stop]`, where either bound may be missing. -/
def sliced (x : Value) (start stop : Option Int64) (pos : Position) : Atomic Value :=
  slice x (start.getD 0) stop pos

/-- `y` is a sequence of the kind of `x` with some elements, and making it changed nothing
else. -/
structure Part (σ τ : Store) (x y : Value) (part : List Value) : Prop where
  elements : elements? τ y = some part
  kind : y.kind = x.kind
  store : τ = σ ∨ τ = (σ.newArray part.toArray).2

/-! ## The three kinds of sequences -/

theorem elements?_cases (h : elements? σ x = some items) :
    (∃ id, x = .array id ∧ items = (σ.array id).toList) ∨ (∃ multi, x = .tuple items multi) ∨
      ∃ s text, x = .str s ∧ s.get? = some text ∧ items = text.toList.map character := by
  cases x with
  | array id => exact .inl ⟨id, rfl, (Option.some.inj h).symm⟩
  | tuple items' multi =>
    obtain rfl : items' = items := Option.some.inj h
    exact .inr (.inl ⟨multi, rfl⟩)
  | str s =>
    obtain ⟨text, hs, hitems⟩ := Option.map_eq_some_iff.mp h
    exact .inr (.inr ⟨s, text, rfl, hs, hitems.symm⟩)
  | _ => cases h

theorem slice_array : slice (.array id) a stop pos σ =
    (Sequence.bounds a stop (σ.array id).toList.length pos >>= fun (low, high) =>
      newArray (Sequence.slice (σ.array id).toList low high) : Atomic Value) σ := rfl

theorem slice_tuple {multi : Bool} : slice (.tuple items multi) a stop pos σ =
    (Sequence.bounds a stop items.length pos >>= fun (low, high) =>
      pure (.tuple (Sequence.slice items low high) false) : Atomic Value) σ := rfl

theorem slice_str {s : Nullable String} {text : String} (hs : s.get? = some text) :
    slice (.str s) a stop pos σ =
      (Sequence.bounds a stop text.toList.length pos >>= fun (low, high) =>
        pure (.ofString (String.ofList (Sequence.slice text.toList low high))) : Atomic Value) σ := by
  unfold slice
  dsimp only
  rw [hs, String.length_toList]

theorem index_array : index (.array id) (.ofInt i) pos σ =
    itemOf (.array id) (.ofInt i) (σ.array id).toList pos σ := rfl

theorem index_tuple {multi : Bool} : index (.tuple items multi) (.ofInt i) pos σ =
    itemOf (.tuple items multi) (.ofInt i) items pos σ := rfl

theorem index_str {s : Nullable String} {text : String} (hs : s.get? = some text) :
    index (.str s) (.ofInt i) pos σ =
      (itemOf (.str s) (.ofInt i) text.toList pos >>= fun c => pure (character c)) σ := by
  unfold index
  dsimp only
  rw [hs]
  rfl

theorem itemOf_eq {α : Type} {items : List α} : itemOf x (.ofInt i) items pos =
    require (resolveIndex? i items.length) (.index i items.length) pos >>= fun k =>
      require items[k]? (.index (Word.ofLength k) items.length) pos := rfl

theorem itemOf_of_some {α : Type} {items : List α} (hk : k < items.length)
    (h : resolveIndex? i items.length = some k) :
    itemOf x (.ofInt i) items pos σ = .ok (items[k], σ) := by
  rw [itemOf_eq, h, bind_apply]
  show (require items[k]? _ pos : Atomic α) σ = _
  rw [List.getElem?_eq_getElem hk]
  rfl

theorem itemOf_of_none {α : Type} {items : List α} (h : resolveIndex? i items.length = none) :
    itemOf x (.ofInt i) items pos σ = .error (.error ⟨.index i items.length, pos⟩) := by
  rw [itemOf_eq, h]
  rfl

/-! ## Slices -/

theorem bounds_of_some (h : sliceBounds? a (stop.getD (Word.ofLength n)) n = some (low, high)) :
    Sequence.bounds a stop n pos = (pure (low, high) : Atomic (Nat × Nat)) := by
  unfold Sequence.bounds
  dsimp only
  rw [h]
  rfl

theorem bounds_of_none (h : sliceBounds? a (stop.getD (Word.ofLength n)) n = none) :
    Sequence.bounds a stop n pos =
      (fail (.slice a (stop.getD (Word.ofLength n)) n) pos : Atomic (Nat × Nat)) := by
  unfold Sequence.bounds
  dsimp only
  rw [h]
  rfl

/-- Bounds that are accepted give the elements between them. -/
theorem slice_of_some (hx : elements? σ x = some items)
    (h : sliceBounds? a (stop.getD (Word.ofLength items.length)) items.length = some (low, high)) :
    ∃ y τ, slice x a stop pos σ = .ok (y, τ) ∧ Part σ τ x y (Sequence.slice items low high) := by
  obtain ⟨id, rfl, rfl⟩ | ⟨multi, rfl⟩ | ⟨s, text, rfl, hs, rfl⟩ := elements?_cases hx
  · rw [slice_array, bounds_of_some h]
    refine ⟨.array ⟨σ.arrays.size⟩, (σ.newArray _).2, rfl, ?_, rfl, .inr rfl⟩
    rw [elements?, Store.array_newArray]
  · rw [slice_tuple, bounds_of_some h]
    exact ⟨_, σ, rfl, rfl, rfl, .inl rfl⟩
  · rw [List.length_map] at h
    rw [slice_str hs, bounds_of_some h]
    refine ⟨_, σ, rfl, ?_, rfl, .inl rfl⟩
    show some ((String.ofList _).toList.map character) = _
    rw [String.toList_ofList, map_slice]

theorem slice_of_none (hx : elements? σ x = some items)
    (h : sliceBounds? a (stop.getD (Word.ofLength items.length)) items.length = none) :
    slice x a stop pos σ =
      .error (.error ⟨.slice a (stop.getD (Word.ofLength items.length)) items.length, pos⟩) := by
  obtain ⟨id, rfl, rfl⟩ | ⟨multi, rfl⟩ | ⟨s, text, rfl, hs, rfl⟩ := elements?_cases hx
  · rw [slice_array, bounds_of_none h]
    rfl
  · rw [slice_tuple, bounds_of_none h]
    rfl
  · rw [List.length_map] at h ⊢
    rw [slice_str hs, bounds_of_none h]
    rfl

/-! ## Indices -/

theorem index_of_some (hx : elements? σ x = some items) (hk : k < items.length)
    (h : resolveIndex? i items.length = some k) :
    index x (.ofInt i) pos σ = .ok (items[k], σ) := by
  obtain ⟨id, rfl, rfl⟩ | ⟨multi, rfl⟩ | ⟨s, text, rfl, hs, rfl⟩ := elements?_cases hx
  · rw [index_array, itemOf_of_some hk h]
  · rw [index_tuple, itemOf_of_some hk h]
  · rw [List.length_map] at h hk
    rw [index_str hs, bind_apply, itemOf_of_some hk h, List.getElem_map]
    rfl

theorem index_of_none (hx : elements? σ x = some items)
    (h : resolveIndex? i items.length = none) :
    index x (.ofInt i) pos σ = .error (.error ⟨.index i items.length, pos⟩) := by
  obtain ⟨id, rfl, rfl⟩ | ⟨multi, rfl⟩ | ⟨s, text, rfl, hs, rfl⟩ := elements?_cases hx
  · rw [index_array, itemOf_of_none h]
  · rw [index_tuple, itemOf_of_none h]
  · rw [List.length_map] at h ⊢
    rw [index_str hs, bind_apply, itemOf_of_none h]

theorem index_iff (hn : (items.length : Int) ≤ Word.greatest) (hx : elements? σ x = some items) :
    (∃ r, index x (.ofInt i) pos σ = .ok r) ↔
      -(items.length : Int) ≤ i.toInt ∧ i.toInt < items.length := by
  constructor
  · rintro ⟨r, hr⟩
    refine of_not_not fun hout => ?_
    rw [index_of_none hx (resolveIndex?_eq_none hn hout)] at hr
    cases hr
  · rintro ⟨hlow, hhigh⟩
    rcases Int.lt_or_le i.toInt 0 with hneg | hneg
    · have hk : (i.toInt + items.length).toNat < items.length := by omega
      exact ⟨_, index_of_some hx hk (resolveIndex?_eq_some hn hk (.inr (by omega)))⟩
    · have hk : i.toInt.toNat < items.length := by omega
      exact ⟨_, index_of_some hx hk (resolveIndex?_eq_some hn hk (.inl (by omega)))⟩

/-! ## Slices and indices together -/

theorem sliced_of_inBounds (hn : (items.length : Int) ≤ Word.greatest)
    (hx : elements? σ x = some items) (h : InBounds start stop items.length) :
    ∃ y τ, sliced x start stop pos σ = .ok (y, τ) ∧
      Part σ τ x y (Sequence.slice items (lower start items.length).toNat
        (upper stop items.length).toNat) :=
  slice_of_some hx (sliceBounds?_eq_some hn h)

/-- An element of a slice has an index that gives it. -/
theorem index_of_mem_slice (hn : (items.length : Int) ≤ Word.greatest)
    (hx : elements? σ x = some items) {j : Nat} (hj : j < (Sequence.slice items low high).length) :
    ∃ i : Int64, i.toInt = low + j ∧
      ∀ pos, index x (.ofInt i) pos σ = .ok ((Sequence.slice items low high)[j], σ) := by
  obtain ⟨hlt, heq⟩ := getElem_slice hj
  have hi : (Word.ofLength (low + j)).toInt = ((low + j : Nat) : Int) :=
    toInt_ofLength_of_le (by omega)
  refine ⟨Word.ofLength (low + j), by omega, fun pos => ?_⟩
  rw [heq]
  exact index_of_some hx hlt (resolveIndex?_eq_some hn hlt (.inl hi))

/-- Taking a part of a sequence leaves the sequence as it is. -/
theorem Part.elements_kept (h : Part σ τ x y (Sequence.slice items low high))
    (hx : elements? σ x = some items) : elements? τ x = some items := by
  rcases h.store with rfl | rfl
  · exact hx
  · obtain ⟨id, rfl, rfl⟩ | ⟨multi, rfl⟩ | ⟨s, text, rfl, hs, rfl⟩ := elements?_cases hx
    · by_cases hid : id = ⟨σ.arrays.size⟩
      -- An array that was not there yet had no elements.
      · have hempty : σ.array id = #[] := Store.array_of_ge (by rw [hid])
        rw [elements?, hid, Store.array_newArray, ← hid, hempty]
        simp only [Sequence.slice, List.take_nil, List.drop_nil]
      · rw [elements?, Store.array_newArray_of_ne hid]
    · rfl
    · exact hx

theorem inBounds_of_sliced {r : Value × Store} (hn : (items.length : Int) ≤ Word.greatest)
    (hx : elements? σ x = some items) (h : sliced x start stop pos σ = .ok r) :
    InBounds start stop items.length := by
  refine of_not_not fun hout => ?_
  rw [sliced, slice_of_none hx (sliceBounds?_eq_none hn hout)] at h
  cases h

/-- A bound that either end of a slice accepts where the other end is missing. -/
def Accepts (σ : Store) (x : Value) (a : Int64) (pos : Position) : Prop :=
  (∃ r, sliced x none (some a) pos σ = .ok r) ∨ ∃ r, sliced x (some a) none pos σ = .ok r

/-- Both ends accept the same bounds: those that are in the sequence or behind its last
element. -/
theorem Accepts.fromFront_mem (hn : (items.length : Int) ≤ Word.greatest)
    (hx : elements? σ x = some items) (h : Accepts σ x a pos) :
    0 ≤ fromFront a items.length ∧ fromFront a items.length ≤ items.length := by
  obtain ⟨r, hr⟩ | ⟨r, hr⟩ := h
  · obtain ⟨_, hlow, hhigh⟩ := inBounds_of_sliced hn hx hr
    exact ⟨hlow, hhigh⟩
  · obtain ⟨hlow, hhigh, _⟩ := inBounds_of_sliced hn hx hr
    exact ⟨hlow, hhigh⟩

/-- The part before an accepted bound and the one from it on make up the sequence. -/
theorem halves (hn : (items.length : Int) ≤ Word.greatest) (hx : elements? σ x = some items)
    (h : Accepts σ x a pos) (pos₁ pos₂ : Position) :
    ∃ y τ z υ front back, sliced x none (some a) pos₁ σ = .ok (y, τ) ∧ Part σ τ x y front ∧
      sliced x (some a) none pos₂ τ = .ok (z, υ) ∧ Part τ υ x z back ∧ front ++ back = items := by
  obtain ⟨hlow, hhigh⟩ := h.fromFront_mem hn hx
  have hfront : InBounds none (some a) items.length := ⟨Int.le_refl 0, hlow, hhigh⟩
  have hback : InBounds (some a) none items.length := ⟨hlow, hhigh, Int.le_refl _⟩
  obtain ⟨y, τ, hy, hpart⟩ := sliced_of_inBounds hn hx hfront
  obtain ⟨z, υ, hz, hpart'⟩ := sliced_of_inBounds hn (hpart.elements_kept hx) hback
  refine ⟨y, τ, z, υ, _, _, hy, hpart, hz, hpart', ?_⟩
  exact slice_append_slice (fromFront a items.length).toNat

/-- The method of arrays is the slice of an expression. -/
theorem call_slice : Method.call ev (.array id) "slice" (.ofInt a :: stop.toList.map .ofInt) f σ =
    Eval.lift (sliced (.array id) (some a) stop f.pos) f σ := by
  cases stop with
  | none => rfl
  | some b => rfl

/-- Slices and indices of `x` describe one sequence of elements. -/
structure Describes (σ : Store) (x : Value) (items : List Value) : Prop where
  slice : ∀ start stop pos, InBounds start stop items.length → ∃ y τ part,
    sliced x start stop pos σ = .ok (y, τ) ∧ Part σ τ x y part ∧
    (part.length : Int) = upper stop items.length - lower start items.length ∧
    ∀ j (hj : j < part.length), ∃ i : Int64, i.toInt = lower start items.length + j ∧
      ∀ pos', index x (.ofInt i) pos' σ = .ok (part[j], σ)
  slice_fails : ∀ start stop pos, ¬ InBounds start stop items.length →
    sliced x start stop pos σ = .error (.error
      ⟨.slice (start.getD 0) (stop.getD (Word.ofLength items.length)) items.length, pos⟩)
  index : ∀ k (hk : k < items.length) (i : Int64), i.toInt = k ∨ i.toInt = k - items.length →
    ∀ pos, Access.index x (.ofInt i) pos σ = .ok (items[k], σ)
  index_fails : ∀ i : Int64, ¬ (-(items.length : Int) ≤ i.toInt ∧ i.toInt < items.length) →
    ∀ pos, Access.index x (.ofInt i) pos σ = .error (.error ⟨.index i items.length, pos⟩)
  index_iff : ∀ i pos, (∃ r, Access.index x (.ofInt i) pos σ = .ok r) ↔
    -(items.length : Int) ≤ i.toInt ∧ i.toInt < items.length
  method : ∀ id, x = .array id → ∀ ev a stop f,
    Method.call ev x "slice" (.ofInt a :: stop.toList.map .ofInt) f σ =
      Eval.lift (sliced x (some a) stop f.pos) f σ
  halves : ∀ m pos, Accepts σ x m pos → ∀ pos₁ pos₂, ∃ y τ z υ front back,
    sliced x none (some m) pos₁ σ = .ok (y, τ) ∧ Part σ τ x y front ∧
    sliced x (some m) none pos₂ τ = .ok (z, υ) ∧ Part τ υ x z back ∧ front ++ back = items
  /-- The length is only added to negative integers, and the sum is always a word. -/
  fits : ∀ i : Int64, i < 0 → ∃ r, Word.add? i (Word.ofLength items.length) = some r ∧
    r.toInt = fromFront i items.length
  slice_within : ∀ a b low high, sliceBounds? a b items.length = some (low, high) →
    low ≤ high ∧ high ≤ items.length
  index_within : ∀ i k, resolveIndex? i items.length = some k → k < items.length

theorem describes (hn : (items.length : Int) ≤ Word.greatest) (hx : elements? σ x = some items) :
    Describes σ x items where
  slice start stop pos h := by
    obtain ⟨y, τ, hy, hpart⟩ := sliced_of_inBounds hn hx h
    obtain ⟨hlow, hle, hhigh⟩ := h
    refine ⟨y, τ, _, hy, hpart, ?_, fun j hj => ?_⟩
    · rw [length_slice (by omega)]
      omega
    · obtain ⟨i, hi, hindex⟩ := index_of_mem_slice hn hx hj
      exact ⟨i, by omega, hindex⟩
  slice_fails start stop pos h := slice_of_none hx (sliceBounds?_eq_none hn h)
  index k hk i hi pos := index_of_some hx hk (resolveIndex?_eq_some hn hk hi)
  index_fails i hi pos := index_of_none hx (resolveIndex?_eq_none hn hi)
  index_iff i pos := index_iff hn hx
  method id hid ev a stop f := hid ▸ call_slice
  halves m pos h := halves hn hx h
  fits i := add?_ofLength hn
  slice_within a b low high := le_of_sliceBounds?
  index_within i k := lt_of_resolveIndex?

end Access

namespace Node

open Eval

/-- What a slice expression finds before it slices: the sequence and the bounds. -/
def sliceOperands (ev : Evaluator) (object : Expr) (start stop : Option Expr) (pos : Position) :
    Eval (Value × Option Int64 × Option Int64) := do
  let v ← ev.expr object
  let low ← bound ev v start pos
  let high ← bound ev v stop pos
  return (v, low, high)

theorem slice_eq (ev : Evaluator) (object : Expr) (start stop : Option Expr) (pos : Position) :
    slice ev object start stop pos = sliceOperands ev object start stop pos >>=
      fun (v, low, high) => lift (Access.sliced v low high pos) := by
  simp only [slice, sliceOperands, Access.sliced, bind_assoc, pure_bind]

end Node

namespace Access

/-- A slice expression finds a sequence and bounds, and then the slice depends on them
alone.  With the length added to negative bounds and missing ones at the ends, the slice
exists exactly when they are in order and in the sequence, and consists of what the indices
from one to the other give.  A sequence of `n` elements has the indices from `-n` to
`n - 1`, of which two that are `n` apart name the same element.  The method of arrays gives
the same slices, and a sequence that is cut in two is the one half followed by the other.
No sum exceeds a word, and no position is outside the sequence. -/
theorem slices_and_indices_describe_one_sequence :
    (∀ ev object start stop pos, Node.slice ev object start stop pos =
      Node.sliceOperands ev object start stop pos >>=
        fun (v, low, high) => Eval.lift (sliced v low high pos)) ∧
    ∀ (σ : Store) (x : Value) (items : List Value), elements? σ x = some items →
      (items.length : Int) ≤ Word.greatest → Describes σ x items :=
  ⟨Node.slice_eq, fun _ _ _ hx hn => describes hn hx⟩

/-- The characters of a text from both ends, its first half, and bounds that cross. -/
theorem slices_and_indices_describe_one_sequence_text :
    index (.ofString "déjà") (.ofInt 3) .unknown default = .ok (.ofString "à", default) ∧
    index (.ofString "déjà") (.ofInt (-1)) .unknown default = .ok (.ofString "à", default) ∧
    (∃ y τ part, sliced (.ofString "déjà") none (some (-2)) .unknown default = .ok (y, τ) ∧
      Part default τ (.ofString "déjà") y part ∧ (part.length : Int) = 2) ∧
    sliced (.ofString "déjà") (some 3) (some 1) .unknown default =
      .error (.error ⟨.slice 3 1 4, .unknown⟩) := by
  have h : Describes default (.ofString "déjà")
      [.ofString "d", .ofString "é", .ofString "j", .ofString "à"] :=
    slices_and_indices_describe_one_sequence.2 _ _ _ rfl (by decide)
  obtain ⟨y, τ, part, hy, hpart, hlength, -⟩ :=
    h.slice none (some (-2)) .unknown ⟨by decide, by decide, by decide⟩
  exact ⟨h.index 3 (by decide) 3 (.inl rfl) _, h.index 3 (by decide) (-1) (.inr rfl) _,
    ⟨y, τ, part, hy, hpart, hlength⟩,
    h.slice_fails (some 3) (some 1) _ fun hbounds => absurd hbounds.2.1 (by decide)⟩

end Access
end TreeWalk
