/-
Plain data.

Numbers without a fraction, strings, booleans and `nil`, and arrays and tuples of these,
however deeply they are nested.  The language and the host agree on which of them are
equal; they differ on other values, such as floats, hashes, NULLs and messages.
-/
import TreeWalk.Proofs.Store.Comparison
import TreeWalk.Proofs.Store.Recursion

namespace TreeWalk
namespace Store

variable {σ : Store} {v w : Value}

/-- Values that are built from valid scalars without messages, arrays and tuples. -/
inductive Data (σ : Store) : Value → Prop
  | int (n : Int64) : Data σ (.ofInt n)
  | str (s : String) : Data σ (.ofString s)
  | bool (b : Bool) : Data σ (.ofBool b)
  | nothing : Data σ .nothing
  | array (id : ArrayId) (h : ∀ x ∈ (σ.array id).toList, Data σ x) : Data σ (.array id)
  | tuple (items : List Value) (h : ∀ x ∈ items, Data σ x) : Data σ (.tuple items false)

/-- Data is built from the bottom up, so that none of it contains itself. -/
theorem Data.selfFree (hv : σ.Data v) : σ.SelfFree v := by
  induction hv with
  | array id _ ih =>
    refine .of_contains fun w hw => ?_
    cases hw with
    | held hheld => exact ih w hheld
  | tuple items _ ih =>
    refine .of_contains fun w hw => ?_
    cases hw with
    | held hheld => cases hheld
    | item hitem => exact ih w hitem
  | _ =>
    refine .of_contains fun w hw => ?_
    cases hw with
    | held hheld => cases hheld

theorem Data.equal_eq_same (hv : σ.Data v) (hw : σ.Data w) : σ.equal v w = σ.same v w := by
  -- Values of different kinds are unequal in both senses, a number and a string because `==`
  -- refuses them.
  induction hv generalizing w with
  | array id hitems ih =>
    rw [equal_eq (Data.array id hitems).selfFree, same_eq (Data.array id hitems).selfFree]
    cases hw with
    | array id' hitems' =>
      have hlists : equalLists σ.equal (σ.array id).toList (σ.array id').toList =
          equalLists σ.same (σ.array id).toList (σ.array id').toList :=
        equalLists_congr fun x hx y hy => ih x hx (hitems' y hy)
      exact congrArg (decide (id = id') || ·) hlists
    | _ => rfl
  | tuple items hitems ih =>
    rw [equal_eq (Data.tuple items hitems).selfFree, same_eq (Data.tuple items hitems).selfFree]
    cases hw with
    | tuple items' hitems' =>
      have hlists : σ.equalItems σ.equal items items' = σ.sameItems σ.same items items' := by
        rw [equalItems_eq_lists, sameItems_eq_lists]
        refine equalLists_congr fun x hx y hy => ?_
        rw [← equal_eq (hitems x hx).selfFree, ← same_eq (hitems x hx).selfFree]
        exact ih x hx (hitems' y hy)
      show σ.equalItems σ.equal items items' = (σ.sameItems σ.same items items' && true)
      rw [hlists, Bool.and_true]
    | _ => rfl
  | int n =>
    cases hw with
    | int n' => exact (Bool.and_true (n == n')).symm
    | _ => rfl
  | str s =>
    cases hw with
    | str s' => exact (Bool.and_true (s == s')).symm
    | _ => rfl
  | bool b =>
    cases hw with
    | bool b' => cases b <;> cases b' <;> rfl
    | _ => rfl
  | nothing => cases hw <;> rfl

/-- On plain data, `==` holds just where the host finds the values equal. -/
theorem equalities_agree (hv : σ.Data v) (hw : σ.Data w) (pos : Position) :
    (Operator.binary .eq v w pos σ = .ok (.ofBool true, σ) ↔ σ.same v w = true) ∧
    (σ.equal v w = true ↔ σ.same v w = true) := by
  rw [Operator.binary_eq_true_iff, hv.equal_eq_same hw]
  exact ⟨.rfl, .rfl⟩

/-- Two arrays of a number and of an array, which are built alike. -/
def pages : Store where
  arrays := #[#[.ofInt 1, .array ⟨1⟩], #[.ofString "a", .tuple [.nothing] false],
    #[.ofInt 1, .array ⟨3⟩], #[.ofString "a", .tuple [.nothing] false]]

theorem data_pages : pages.Data (.array ⟨0⟩) ∧ pages.Data (.array ⟨2⟩) := by
  have both : ∀ {x y : Value}, pages.Data x → pages.Data y → ∀ z ∈ [x, y], pages.Data z := by
    intro x y hx hy
    simp [hx, hy]
  have hinner := both (.str "a") (.tuple _ (List.forall_mem_singleton.mpr .nothing))
  exact ⟨.array _ (both (.int 1) (.array _ hinner)), .array _ (both (.int 1) (.array _ hinner))⟩

theorem equalities_agree_pages :
    Operator.binary .eq (.array ⟨0⟩) (.array ⟨2⟩) (.ofLine 3) pages = .ok (.ofBool true, pages) :=
  (equalities_agree data_pages.1 data_pages.2 (.ofLine 3)).1.mpr rfl

end Store
end TreeWalk
