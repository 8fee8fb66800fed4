/-
Equality without its bound.

A value may contain itself, so that both equalities stop at some depth.  For a value that
does not they never get that far: what they answer is what they answer of what is behind
the references in it, and the bound is not to be seen.  The other operand may be anything,
because both are walked through side by side.
-/
import Mathlib.Logic.Function.Iterate
import TreeWalk.Proofs.Store.Equality
import TreeWalk.Proofs.Store.Nesting

namespace TreeWalk
namespace Store

variable {σ : Store} {v w : Value} {n : Nat} {inner inner' : Value → Value → Bool}

/-! ## Containment -/

/-- What a value consists of: what it holds, or the items of a tuple. -/
inductive Contains (σ : Store) : Value → Value → Prop
  | held {v w : Value} (h : σ.Holds v w) : Contains σ v w
  | item {items : List Value} {multi : Bool} {w : Value} (h : w ∈ items) :
    Contains σ (.tuple items multi) w

/-- A value that neither contains itself nor anything that does, where a way through the items
of a tuple counts as well. -/
def SelfFree (σ : Store) (v : Value) : Prop :=
  ∀ w, Relation.ReflTransGen σ.Contains v w → ¬ Relation.TransGen σ.Contains w w

theorem SelfFree.of_contains (h : ∀ w, σ.Contains v w → σ.SelfFree w) : σ.SelfFree v := by
  intro w hway hloop
  rcases Relation.ReflTransGen.cases_head hway with rfl | ⟨u, hu, hrest⟩
  · obtain ⟨u, hu, hback⟩ := Relation.TransGen.head'_iff.mp hloop
    exact h u hu _ hback hloop
  · exact h u hu w hrest hloop

/-- What is behind one reference: what a value holds, or what an item of a tuple does. -/
inductive Behind (σ : Store) : Value → Value → Prop
  | held {v w : Value} (h : σ.Holds v w) : Behind σ v w
  | item {items : List Value} {multi : Bool} {x w : Value} (hx : x ∈ items) (h : Behind σ x w) :
    Behind σ (.tuple items multi) w

theorem SelfFree.unmet (hv : σ.SelfFree v) : σ.Unmet σ.Contains σ.depth v := by
  refine .of_free hv ?_
  unfold depth
  omega

theorem Unmet.behind (h : σ.Unmet σ.Contains n v) (hw : σ.Behind v w) :
    ∃ m, n = m + 1 ∧ σ.Unmet σ.Contains m w := by
  induction hw with
  | held hheld => exact h.enter hheld (.held hheld)
  | item hx _ ih => exact ih (h.step (.item hx))

/-! ## Walks -/

section Walk

variable {β : Type} {F : (Value → β) → Value → β}

/-- A step of a walk that asks only of what is behind one reference how the walk goes on. -/
def Local (σ : Store) (F : (Value → β) → Value → β) : Prop :=
  ∀ f g v, (∀ x, σ.Behind v x → f x = g x) → F f v = F g v

/-- A walk that may go beyond all that has not been met does not depend on what it would
have answered there. -/
theorem iterate_eq (hF : σ.Local F) (h : σ.Unmet σ.Contains n v) (f g : Value → β) :
    F^[n + 1] f v = F^[n + 1] g v := by
  -- Each round goes behind one reference, where one more container has been met.
  induction n generalizing v with
  | zero =>
    refine hF _ _ v fun x hx => ?_
    obtain ⟨m, hm, _⟩ := h.behind hx
    cases hm
  | succ n ih =>
    rw [Function.iterate_succ_apply' F _ f, Function.iterate_succ_apply' F _ g]
    refine hF _ _ v fun x hx => ?_
    obtain ⟨m, hm, hunmet⟩ := h.behind hx
    cases hm
    exact ih hunmet

theorem iterate_fixed (hF : σ.Local F) (h : σ.Unmet σ.Contains n v) (f : Value → β) :
    F (F^[n + 1] f) v = F^[n + 1] f v := by
  rw [← Function.iterate_succ_apply' F, Function.iterate_succ_apply F]
  exact iterate_eq hF h (F f) f

end Walk

/-! ## Lists -/

theorem all_zip_congr {α : Type} {xs ys : List α} {p q : α × α → Bool}
    (h : ∀ x ∈ xs, ∀ y ∈ ys, p (x, y) = q (x, y)) : (xs.zip ys).all p = (xs.zip ys).all q := by
  rw [Bool.eq_iff_iff, List.all_eq_true, List.all_eq_true]
  refine forall₂_congr fun pair hpair => ?_
  obtain ⟨hx, hy⟩ := List.of_mem_zip hpair
  rw [← h pair.1 hx pair.2 hy]

theorem equalLists_congr {xs ys : List Value} (h : ∀ x ∈ xs, ∀ y ∈ ys, inner x y = inner' x y) :
    equalLists inner xs ys = equalLists inner' xs ys :=
  congrArg (decide (xs.length = ys.length) && ·) (all_zip_congr h)

theorem equalItems_eq_lists (xs ys : List Value) : σ.equalItems inner xs ys =
    equalLists (fun x y => (σ.equalWith? inner x y).getD false) xs ys := by
  rw [Bool.eq_iff_iff, equalItems_iff, equalLists_iff]

theorem sameItems_eq_lists (xs ys : List Value) :
    σ.sameItems inner xs ys = equalLists (σ.sameWith inner) xs ys := by
  induction xs generalizing ys with
  | nil => cases ys <;> rfl
  | cons x xs ih =>
    cases ys with
    | nil => rfl
    | cons y ys =>
      rw [sameItems, ih, Bool.eq_iff_iff, Bool.and_eq_true, equalLists_iff, equalLists_iff,
        List.forall₂_cons]

/-! ## The host's equality -/

theorem sameWith_congr (w : Value) (h : ∀ x, σ.Behind v x → inner x = inner' x) :
    σ.sameWith inner v w = σ.sameWith inner' v w := by
  induction v using Value.tuple_induction generalizing w with
  | step v ih =>
    cases v with
    | array i =>
      cases w with
      | array j =>
        have hlists : equalLists inner (σ.array i).toList (σ.array j).toList =
            equalLists inner' (σ.array i).toList (σ.array j).toList :=
          equalLists_congr fun x hx y _ => by rw [h x (.held hx)]
        exact congrArg (decide (i = j) || ·) hlists
      | _ => rfl
    | tuple xs m =>
      cases w with
      | tuple ys n =>
        have hitems : σ.sameItems inner xs ys = σ.sameItems inner' xs ys := by
          rw [sameItems_eq_lists, sameItems_eq_lists]
          exact equalLists_congr fun x hx y _ => ih xs m rfl x hx y fun z hz => h z (.item hx hz)
        exact congrArg (· && m == n) hitems
      | _ => rfl
    | hash i =>
      cases w with
      | hash j =>
        have hentries : ∀ d ∈ (σ.dict i).toList, inner d.key = inner' d.key ∧
            inner d.value = inner' d.value := by
          intro d hd
          refine ⟨h _ (.held ?_), h _ (.held ?_)⟩
          · exact List.mem_flatMap.mpr ⟨d, hd, .head _⟩
          · exact List.mem_flatMap.mpr ⟨d, hd, .tail _ (.head _)⟩
        refine congrArg (decide (i = j) || decide (_ = _) && ·) (all_zip_congr fun d hd e _ => ?_)
        show (inner d.key e.key && inner d.value e.value) = _
        rw [(hentries d hd).1, (hentries d hd).2]
      | _ => rfl
    | _ => cases w <;> rfl

theorem local_sameWith : σ.Local σ.sameWith :=
  fun _ _ _ h => funext fun w => sameWith_congr w h

theorem sameWithin_eq_iterate (n : Nat) :
    σ.sameWithin n = σ.sameWith^[n + 1] fun _ _ => false := by
  induction n with
  | zero => rfl
  | succ n ih =>
    rw [Function.iterate_succ_apply', ← ih]
    rfl

/-- The host's equality is its own recursion. -/
theorem same_eq (hv : σ.SelfFree v) (w : Value) : σ.same v w = σ.sameWith σ.same v w := by
  have hsame : σ.same = σ.sameWith^[σ.depth + 1] fun _ _ => false := sameWithin_eq_iterate _
  rw [hsame, iterate_fixed local_sameWith hv.unmet]

/-! ## The language's equality -/

theorem equalWith?_congr (w : Value) (h : ∀ x, σ.Behind v x → inner x = inner' x) :
    σ.equalWith? inner v w = σ.equalWith? inner' v w := by
  induction v using Value.tuple_induction generalizing w with
  | step v ih =>
    have halike : σ.alike inner v w = σ.alike inner' v w := by
      cases v with
      | array i =>
        cases w with
        | array j =>
          exact congrArg (decide (i = j) || ·) (equalLists_congr fun x hx y _ => by rw [h x (.held hx)])
        | _ => rfl
      | tuple xs m =>
        cases w with
        | tuple ys n =>
          show σ.equalItems inner xs ys = σ.equalItems inner' xs ys
          rw [equalItems_eq_lists, equalItems_eq_lists]
          exact equalLists_congr fun x hx y _ => by
            rw [ih xs m rfl x hx y fun z hz => h z (.item hx hz)]
        | _ => rfl
      | _ => cases w <;> rfl
    by_cases hvalid : (!v.isValid || !w.isValid) = true
    · rw [equalWith?_of_not_valid hvalid, equalWith?_of_not_valid hvalid]
    · rw [Bool.not_eq_true, Bool.or_eq_false_iff, Bool.not_eq_false', Bool.not_eq_false'] at hvalid
      rw [equalWith?_of_valid hvalid.1 hvalid.2, equalWith?_of_valid hvalid.1 hvalid.2, halike]

/-- One step of equality, where what is not defined counts as unequal. -/
def equalStep (σ : Store) (inner : Value → Value → Bool) (v w : Value) : Bool :=
  (σ.equalWith? inner v w).getD false

theorem local_equalStep : σ.Local σ.equalStep :=
  fun _ _ _ h => funext fun w => congrArg (·.getD false) (equalWith?_congr w h)

theorem equalWithin?_eq_iterate (n : Nat) :
    σ.equalWithin? n = σ.equalWith? (σ.equalStep^[n] fun _ _ => false) := by
  induction n with
  | zero => rfl
  | succ n ih =>
    rw [Function.iterate_succ_apply', equalWithin?, ih]
    rfl

/-- Equality is its own recursion. -/
theorem equal?_eq (hv : σ.SelfFree v) (w : Value) :
    σ.equal? v w = σ.equalWith? σ.equal v w := by
  have hequal : σ.equal = σ.equalStep^[σ.depth + 1] fun _ _ => false := by
    rw [Function.iterate_succ_apply']
    unfold equal equal?
    rw [equalWithin?_eq_iterate]
    rfl
  rw [equal?, equalWithin?_eq_iterate]
  refine equalWith?_congr w fun x hx => ?_
  obtain ⟨m, hm, hunmet⟩ := hv.unmet.behind hx
  rw [hequal, hm, Function.iterate_succ_apply' _ (m + 1), iterate_fixed local_equalStep hunmet]

theorem equal_eq (hv : σ.SelfFree v) (w : Value) :
    σ.equal v w = (σ.equalWith? σ.equal v w).getD false :=
  congrArg (·.getD false) (equal?_eq hv w)

end Store
end TreeWalk
