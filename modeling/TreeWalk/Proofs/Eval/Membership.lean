/-
What is in an array.

`in`, `contains` and `index` look for an item that is equal to a value.  The operator has
the value on the left and the methods have it on the right, which makes no difference
because equality is symmetric.
-/
import TreeWalk.Eval.Method
import TreeWalk.Proofs.Number.Word
import TreeWalk.Proofs.Store.Comparison

namespace TreeWalk
namespace Membership

open Eval

variable {ev : Evaluator} {id : ArrayId} {x : Value} {pos : Position} {f : Fiber} {σ : Store}
  {found : Option Nat}

/-- What `index` answers: where the item was found, or -1. -/
def place : Option Nat → Int64
  | some i => Word.ofLength i
  | none => -1

theorem nonneg_place : 0 ≤ place found ↔ found.isSome = true := by
  cases found with
  | none => decide
  | some i =>
    refine iff_of_true ?_ rfl
    rw [Int64.le_iff_toInt_le, place, Word.toInt_ofLength, Word.greatest_eq]
    show (0 : Int) ≤ _
    omega

/-- The item in this place equals the value, whichever side it is on, and none before it does
on either. -/
def FirstEqual (σ : Store) (items : Array Value) (x : Value) (i : Nat) : Prop :=
  ∃ h : i < items.size, (σ.equal items[i] x = true ∧ σ.equal x items[i] = true) ∧
    ∀ j (hj : j < i), σ.equal items[j] x = false ∧ σ.equal x items[j] = false

/-- All ways to ask whether a value is in an array come to the same. -/
structure Finds (σ : Store) (id : ArrayId) (x : Value) (found : Option Nat) : Prop where
  mem : ∀ pos, Operator.binary .mem x (.array id) pos σ = .ok (.ofBool found.isSome, σ)
  contains : ∀ ev f, Method.call ev (.array id) "contains" [x] f σ =
    .done (.ok (.ofBool found.isSome)) f σ
  index : ∀ ev f, Method.call ev (.array id) "index" [x] f σ =
    .done (.ok (.ofInt (place found))) f σ
  nonneg : 0 ≤ place found ↔ found.isSome = true
  first : ∀ i, found = some i ↔ FirstEqual σ (σ.array id) x i

theorem binary_mem (hx : x.isValid = true) : Operator.binary .mem x (.array id) pos σ =
    .ok (.ofBool ((σ.array id).any (σ.equal x)), σ) := by
  have hvalid : (!x.isValid || !(Value.array id).isValid) = false := by
    rw [hx]
    rfl
  unfold Operator.binary
  dsimp only
  rw [hvalid]
  rfl

theorem call_contains : Method.call ev (.array id) "contains" [x] f σ =
    .done (.ok (.ofBool ((σ.array id).any (σ.equal · x)))) f σ := rfl

theorem call_index : Method.call ev (.array id) "index" [x] f σ =
    .done (.ok (.ofInt (place ((σ.array id).findIdx? (σ.equal · x))))) f σ := by
  have hrun : (ArrayAction.run id .index ⟨"index", [x], f.pos⟩ : Atomic Value) σ =
      .ok (.ofInt (place ((σ.array id).findIdx? (σ.equal · x))), σ) := by
    show (match (σ.array id).findIdx? (σ.equal · x) with
      | some i => pure (.ofLength i)
      | none => pure (.ofInt (-1)) : Atomic Value) σ = _
    cases (σ.array id).findIdx? (σ.equal · x) <;> rfl
  change lift (ArrayAction.run id .index ⟨"index", [x], f.pos⟩) f σ = _
  unfold lift
  rw [hrun]

theorem firstEqual_iff (hσ : σ.Consistent) (items : Array Value) (i : Nat) :
    items.findIdx? (σ.equal · x) = some i ↔ FirstEqual σ items x i := by
  rw [Array.findIdx?_eq_some_iff_getElem]
  unfold FirstEqual
  simp only [Store.equal_comm hσ x, and_self, Bool.not_eq_true]

theorem finds (hσ : σ.Consistent) (hx : x.isValid = true) :
    Finds σ id x ((σ.array id).findIdx? (σ.equal · x)) where
  mem pos := by
    rw [binary_mem hx, Array.findIdx?_isSome, funext (Store.equal_comm hσ x)]
  contains ev f := by rw [call_contains, Array.findIdx?_isSome]
  index ev f := call_index
  nonneg := nonneg_place
  first i := firstEqual_iff hσ _ i

/-- Equality is symmetric, so that all tests of membership agree. -/
theorem equality_and_membership_symmetric (hσ : σ.Consistent) :
    (∀ a b pos, Operator.binary .eq a b pos σ = .ok (.ofBool true, σ) ↔ σ.equal a b = true) ∧
    (∀ a b, σ.equal a b = σ.equal b a) ∧
    ∀ id x, x.isValid = true → ∃ found, Finds σ id x found :=
  ⟨fun _ _ _ => Operator.binary_eq_true_iff, Store.equal_comm hσ, fun _ _ hx => ⟨_, finds hσ hx⟩⟩

/-- An array of a hash and a string. -/
def shelf : Store where
  arrays := #[#[.hash ⟨0⟩, .ofString "a"]]
  hashes := #[Dict.empty.insert (.ofString "k") (.ofString "k") (.ofInt 1)]

theorem consistent_shelf : shelf.Consistent := by
  intro id
  match id with
  | ⟨0⟩ => exact Dict.Consistent.empty.insert rfl
  | ⟨i + 1⟩ => exact .empty

theorem equality_and_membership_symmetric_shelf :
    shelf.equal (.array ⟨0⟩) (.hash ⟨0⟩) = shelf.equal (.hash ⟨0⟩) (.array ⟨0⟩) ∧
    Finds shelf ⟨0⟩ (.ofString "a") (some 1) := by
  obtain ⟨_, hcomm, hfinds⟩ := equality_and_membership_symmetric consistent_shelf
  obtain ⟨found, h⟩ := hfinds ⟨0⟩ (.ofString "a") rfl
  have hfirst : FirstEqual shelf (shelf.array ⟨0⟩) (.ofString "a") 1 := by
    refine ⟨by decide, ⟨rfl, rfl⟩, fun j hj => ?_⟩
    obtain rfl : j = 0 := Nat.lt_one_iff.mp hj
    exact ⟨rfl, rfl⟩
  exact ⟨hcomm _ _, (h.first 1).mpr hfirst ▸ h⟩

end Membership
end TreeWalk
