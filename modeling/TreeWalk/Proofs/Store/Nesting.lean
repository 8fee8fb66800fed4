/-
How deeply values are nested.

An array holds its items, and a hash its keys and values.  On a way from holder to held
that never comes back to where it was, each container is met once, so that no such way is
longer than there are containers.  The bound that limits every walk through a value is
therefore never met by a walk through a value that does not contain itself.
-/
import Mathlib.Data.Finset.Sum
import Mathlib.Logic.Relation
import TreeWalk.Proofs.Store.Closed

namespace TreeWalk
namespace Store

variable {σ : Store} {u v w : Value} {c : Nat ⊕ Nat}

/-- What an array or a hash holds. -/
def held (σ : Store) : Value → List Value
  | .array id => (σ.array id).toList
  | .hash id => (σ.dict id).toList.flatMap fun e => [e.key, e.value]
  | _ => []

def Holds (σ : Store) (v w : Value) : Prop := w ∈ σ.held v

/-- A value that neither contains itself nor anything that does. -/
def Grounded (σ : Store) (v : Value) : Prop :=
  ∀ w, Relation.ReflTransGen σ.Holds v w → ¬ Relation.TransGen σ.Holds w w

/-- Nothing contains itself where what is held always ranks lower than its holder. -/
theorem grounded_of_rank (rank : Value → Nat) (h : ∀ v w, σ.Holds v w → rank w < rank v) (v : Value) :
    σ.Grounded v := by
  have lower : ∀ u w, Relation.TransGen σ.Holds u w → rank w < rank u := by
    intro u w hway
    induction hway with
    | single hw => exact h u _ hw
    | tail _ hw ih => exact Nat.lt_trans (h _ _ hw) ih
  exact fun w _ hway => Nat.lt_irrefl _ (lower w w hway)

/-- A value that lies behind no more than `n` others on any way through it. -/
def Nested (σ : Store) : Nat → Value → Prop
  | 0, v => ∀ w, ¬ σ.Holds v w
  | n + 1, v => ∀ w, σ.Holds v w → Nested σ n w

/-! ## Containers -/

/-- The number of an array, or that of a hash. -/
def cell? : Value → Option (Nat ⊕ Nat)
  | .array id => some (.inl id.index)
  | .hash id => some (.inr id.index)
  | _ => none

/-- The arrays and hashes in a store. -/
def cells (σ : Store) : Finset (Nat ⊕ Nat) :=
  (Finset.range σ.arrays.size).disjSum (Finset.range σ.hashes.size)

theorem card_cells : σ.cells.card = σ.arrays.size + σ.hashes.size := by
  rw [cells, Finset.card_disjSum, Finset.card_range, Finset.card_range]

theorem cell?_injective (hu : cell? u = some c) (hv : cell? v = some c) : u = v := by
  unfold cell? at hu hv
  split at hu
  · next i =>
    split at hv
    · next j =>
      have hindex : i.index = j.index := Sum.inl.inj (Option.some.inj (hu.trans hv.symm))
      rw [show i = j from congrArg ArrayId.mk hindex]
    · cases hu.trans hv.symm
    · cases hv
  · next i =>
    split at hv
    · cases hu.trans hv.symm
    · next j =>
      have hindex : i.index = j.index := Sum.inr.inj (Option.some.inj (hu.trans hv.symm))
      rw [show i = j from congrArg HashId.mk hindex]
    · cases hv
  · cases hu

/-- Only a container that is in the store holds anything. -/
theorem exists_cell (h : σ.Holds v w) : ∃ c ∈ σ.cells, cell? v = some c := by
  cases v with
  | array id =>
    refine ⟨.inl id.index, Finset.inl_mem_disjSum.mpr (Finset.mem_range.mpr ?_), rfl⟩
    by_contra hout
    simp [Holds, Store.held, array_of_ge (Nat.le_of_not_lt hout)] at h
  | hash id =>
    refine ⟨.inr id.index, Finset.inr_mem_disjSum.mpr (Finset.mem_range.mpr ?_), rfl⟩
    by_contra hout
    simp [Holds, Store.held, dict_of_ge (Nat.le_of_not_lt hout), Dict.empty, Dict.toList] at h
  | _ => cases h

/-! ## The bound -/

section Unmet

variable {R : Value → Value → Prop} {n : Nat}

/-- A value that does not contain itself, where `R` leads to what is contained, and that all
but `n` of the containers at most have been met on the way to. -/
structure Unmet (σ : Store) (R : Value → Value → Prop) (n : Nat) (v : Value) : Prop where
  free : ∀ w, Relation.ReflTransGen R v w → ¬ Relation.TransGen R w w
  met : ∃ above ⊆ σ.cells, σ.cells.card ≤ above.card + n ∧
    ∀ c ∈ above, ∃ u, cell? u = some c ∧ Relation.TransGen R u v

theorem Unmet.of_free (hv : ∀ w, Relation.ReflTransGen R v w → ¬ Relation.TransGen R w w)
    (hn : σ.arrays.size + σ.hashes.size ≤ n) : σ.Unmet R n v where
  free := hv
  met := by
    refine ⟨∅, Finset.empty_subset _, ?_, fun c hc => absurd hc (Finset.notMem_empty c)⟩
    rw [card_cells, Finset.card_empty]
    omega

theorem Unmet.step (h : σ.Unmet R n v) (hw : R v w) : σ.Unmet R n w where
  free := fun u hu => h.free u (.head hw hu)
  met := by
    obtain ⟨above, hcells, hn, habove⟩ := h.met
    refine ⟨above, hcells, hn, fun c hc => ?_⟩
    obtain ⟨u, hu, hway⟩ := habove c hc
    exact ⟨u, hu, hway.tail hw⟩

/-- A container that holds something is none of those that lead to it, so that one more has
been met where what it holds is. -/
theorem Unmet.enter (h : σ.Unmet R n v) (hheld : σ.Holds v w) (hw : R v w) :
    ∃ m, n = m + 1 ∧ σ.Unmet R m w := by
  obtain ⟨above, hcells, hn, habove⟩ := h.met
  obtain ⟨c, hc, hcell⟩ := exists_cell hheld
  have hnew : c ∉ above := by
    intro hin
    obtain ⟨u, hu, hway⟩ := habove c hin
    exact h.free v .refl (cell?_injective hu hcell ▸ hway)
  have hsub : insert c above ⊆ σ.cells := Finset.insert_subset hc hcells
  have hcard := Finset.card_le_card hsub
  rw [Finset.card_insert_of_notMem hnew] at hcard
  refine ⟨n - 1, by omega, (h.step hw).free, insert c above, hsub, ?_, fun d hd => ?_⟩
  · rw [Finset.card_insert_of_notMem hnew]
    omega
  · rcases Finset.mem_insert.mp hd with rfl | hd
    · exact ⟨v, hcell, .single hw⟩
    · obtain ⟨u, hu, hway⟩ := habove d hd
      exact ⟨u, hu, hway.tail hw⟩

/-- A value is nested no more deeply than there are containers left that have not been
met above it. -/
theorem Unmet.nested (h : σ.Unmet σ.Holds n v) : σ.Nested n v := by
  induction n generalizing v with
  | zero =>
    intro w hw
    obtain ⟨m, hm, _⟩ := h.enter hw hw
    cases hm
  | succ n ih =>
    intro w hw
    obtain ⟨m, hm, hunmet⟩ := h.enter hw hw
    cases hm
    exact ih hunmet

end Unmet

/-- A value that does not contain itself is not nested more deeply than any walk goes. -/
theorem Grounded.nested (hv : σ.Grounded v) : σ.Nested σ.depth v := by
  refine (Unmet.of_free hv ?_).nested
  unfold depth
  omega

end Store
end TreeWalk
