/-
Sorting.

Before it sorts, `sort` compares each element with its neighbour only.  That is enough:
two values can be compared if and only if both are numbers other than NaNs or both are
strings, so if all neighbours can be compared, any two elements can.

Short arrays are sorted by insertion and long ones by merging.  Where the elements have
ranks that they are compared by, both come to the same: a permutation in which ranks do
not decrease and elements of one rank follow each other as before.  Integers have ranks
and strings have, but not integers and floats together: integers that differ may be equal
to one float.  Merging gives up then.
-/
import Mathlib.Data.String.Basic
import TreeWalk.Eval.Node
import TreeWalk.Proofs.Number.Double
import TreeWalk.Proofs.Store.Closed
import TreeWalk.Proofs.Store.Comparison

namespace TreeWalk

/-! ## What can be compared -/

namespace Store

variable {a b c : Value}

/-- Two numbers other than NaNs, or two strings. -/
inductive Comparable : Value → Value → Prop
  | numbers {a b : Value} {x y : Double} (ha : a.number? = some x) (hx : x.isNaN = false)
      (hb : b.number? = some y) (hy : y.isNaN = false) : Comparable a b
  | strings {a b : Value} {s t : String} (ha : a.string? = some s) (hb : b.string? = some t) :
      Comparable a b

namespace Comparable

theorem not_number_and_string {x : Double} {s : String} (hx : a.number? = some x)
    (hs : a.string? = some s) : False := by
  rw [Value.string?_eq_some_iff] at hs
  subst hs
  cases hx

theorem symm (h : Comparable a b) : Comparable b a := by
  cases h with
  | numbers ha hx hb hy => exact .numbers hb hy ha hx
  | strings ha hb => exact .strings hb ha

theorem trans (h : Comparable a b) (h' : Comparable b c) : Comparable a c := by
  cases h with
  | numbers ha hx hb hy =>
    cases h' with
    | numbers hb' hy' hc hz => exact .numbers ha hx hc hz
    | strings hb' hc => exact (not_number_and_string hb hb').elim
  | strings ha hb =>
    cases h' with
    | numbers hb' hy' hc hz => exact (not_number_and_string hb' hb).elim
    | strings hb' hc => exact .strings ha hc

instance : Trans Comparable Comparable Comparable := ⟨trans⟩

end Comparable

theorem isSome_compare?_iff : (compare? a b).isSome = true ↔ Comparable a b := by
  cases Operator.operands a b with
  | ints m n =>
    have hcompare : compare? (.ofInt m) (.ofInt n) = some (compare m n) := rfl
    rw [hcompare]
    exact iff_of_true rfl (.numbers rfl (Double.isNaN_ofInt m) rfl (Double.isNaN_ofInt n))
  | @numbers _ _ x y hints ha hb =>
    rw [Operator.compare?_numbers hints ha hb, ← Option.ne_none_iff_isSome, Ne,
      Double.compare?_eq_none_iff, not_or, Bool.not_eq_true, Bool.not_eq_true]
    constructor
    · exact fun ⟨hx, hy⟩ => .numbers ha hx hb hy
    · intro h
      cases h with
      | numbers ha' hx hb' hy =>
        obtain rfl := Option.some.inj (ha.symm.trans ha')
        obtain rfl := Option.some.inj (hb.symm.trans hb')
        exact ⟨hx, hy⟩
      | strings ha' _ => exact (Comparable.not_number_and_string ha ha').elim
  | strings s t =>
    have hcompare : compare? (.ofString s) (.ofString t) = some (compare s t) := rfl
    rw [hcompare]
    exact iff_of_true rfl (.strings rfl rfl)
  | others hnumbers hstrings =>
    rw [Operator.compare?_others hnumbers hstrings]
    refine iff_of_false Bool.false_ne_true fun h => ?_
    cases h with
    | numbers ha _ hb _ => rcases hnumbers with h | h <;> simp_all
    | strings ha hb => rcases hstrings with h | h <;> simp_all

end Store

namespace Sequence

open Store

variable {items before : List Value} {v : Value}

theorem isOrdered_iff_isChain : isOrdered items = true ↔ items.IsChain Comparable := by
  induction items using isOrdered.induct with
  | case1 a b rest ih =>
    rw [isOrdered, Bool.and_eq_true, isSome_compare?_iff, ih, List.isChain_cons_cons]
  | case2 items h =>
    match items with
    | [] => simp [isOrdered]
    | [a] => simp [isOrdered]
    | a :: b :: rest => exact (h a b rest rfl).elim

/-- If neighbours can be compared, any two elements can. -/
theorem isOrdered_iff_pairwise : isOrdered items = true ↔ items.Pairwise Comparable :=
  isOrdered_iff_isChain.trans List.isChain_iff_pairwise

theorem isOrdered_iff : isOrdered items = true ↔
    ∀ i j : Fin items.length, i ≠ j → (compare? items[i] items[j]).isSome = true := by
  rw [isOrdered_iff_pairwise, List.pairwise_iff_getElem]
  constructor
  · intro h i j hne
    rw [isSome_compare?_iff]
    rcases Nat.lt_or_gt_of_ne (Fin.val_ne_of_ne hne) with hlt | hgt
    · exact h i j i.isLt j.isLt hlt
    · exact (h j i j.isLt i.isLt hgt).symm
  · intro h i j hi hj hlt
    exact isSome_compare?_iff.mp (h ⟨i, hi⟩ ⟨j, hj⟩ fun heq => Nat.ne_of_lt hlt (Fin.mk.inj heq))

/-! ## Sorting by insertion -/

theorem insertBehind_perm (v : Value) (before : List Value) :
    (insertBehind v before).Perm (v :: before) := by
  induction before with
  | nil => exact .refl _
  | cons w before ih =>
    rw [insertBehind]
    split
    · exact (ih.cons w).trans (.swap v w before)
    · exact .refl _

/-- Going through the items, the sorted ones are those gone through. -/
theorem foldl_insertBehind_perm (items sorted : List Value) :
    (items.foldl (fun sorted v => insertBehind v sorted) sorted).Perm
      (items.reverse ++ sorted) := by
  induction items generalizing sorted with
  | nil => exact .refl _
  | cons v rest ih =>
    rw [List.foldl_cons, List.reverse_cons, List.append_assoc]
    exact (ih _).trans (.append_left _ (insertBehind_perm v sorted))

theorem insertionSort_perm (items : List Value) : (insertionSort items).Perm items := by
  have h := foldl_insertBehind_perm items []
  rw [List.append_nil] at h
  exact (List.reverse_perm _).trans (h.trans (List.reverse_perm items))

theorem sort?_perm {sorted : List Value} (h : sort? items = some sorted) : sorted.Perm items := by
  unfold sort? at h
  split at h
  · exact Option.some.inj h ▸ insertionSort_perm items
  · split at h
    · exact Option.some.inj h ▸ List.mergeSort_perm _ _
    · cases h

theorem countP_lt_countP {α : Type} {xs : List α} {p q : α → Bool} {a : α} (ha : a ∈ xs)
    (hpq : ∀ x ∈ xs, p x = true → q x = true) (hp : p a = false) (hq : q a = true) :
    xs.countP p < xs.countP q := by
  induction xs with
  | nil => cases ha
  | cons x xs ih =>
    have hrest : ∀ x ∈ xs, p x = true → q x = true :=
      fun y hy => hpq y (List.mem_cons_of_mem x hy)
    rw [List.countP_cons, List.countP_cons]
    rcases List.mem_cons.mp ha with rfl | ha
    · have hle := List.countP_mono_left hrest
      simp only [hp, hq, if_true, Bool.false_eq_true, if_false]
      omega
    · have hlt := ih ha hrest
      have hx := hpq x List.mem_cons_self
      by_cases h : p x = true
      · simp only [h, hx h, if_true]
        omega
      · simp only [h, Bool.false_eq_true, if_false]
        omega

section Ranked

variable {β : Type} [LinearOrder β] {rank : Value → β} {k : β}

/-- Items are compared by their ranks. -/
def Ranked (rank : Value → β) (items : List Value) : Prop :=
  ∀ a ∈ items, ∀ b ∈ items, compare? a b = some (compare (rank a) (rank b))

namespace Ranked

theorem subset {part : List Value} (h : Ranked rank items) (hsub : part ⊆ items) :
    Ranked rank part := fun a ha b hb => h a (hsub ha) b (hsub hb)

theorem perm {other : List Value} (h : Ranked rank items) (hperm : other.Perm items) :
    Ranked rank other := h.subset hperm.subset

theorem compare?_eq_lt_iff {a b : Value} (h : Ranked rank items) (ha : a ∈ items) (hb : b ∈ items) :
    compare? a b = some .lt ↔ rank a < rank b := by
  rw [h a ha b hb, Option.some.injEq, compare_lt_iff_lt]

theorem standing_lt {a b : Value} (h : Ranked rank items) (ha : a ∈ items) (hb : b ∈ items)
    (hlt : rank a < rank b) : standing items a < standing items b := by
  have hless : ∀ {v w}, v ∈ items → w ∈ items →
      ((compare? v w == some .lt) = true ↔ rank v < rank w) := fun hv hw => by
    rw [beq_iff_eq, h.compare?_eq_lt_iff hv hw]
  refine countP_lt_countP ha (fun v hv hva => ?_) ?_ ((hless ha hb).mpr hlt)
  · exact (hless hv hb).mpr (lt_trans ((hless hv ha).mp hva) hlt)
  · rw [← Bool.not_eq_true, hless ha ha]
    exact lt_irrefl _

/-- Items that have ranks at all are ranked by how many are less than they are. -/
theorem standing (h : Ranked rank items) : Ranked (standing items) items := by
  intro a ha b hb
  rw [h a ha b hb, Option.some.injEq]
  rcases lt_trichotomy (rank a) (rank b) with hlt | heq | hgt
  · rw [compare_lt_iff_lt.mpr hlt, compare_lt_iff_lt.mpr (h.standing_lt ha hb hlt)]
  · have hsame : Sequence.standing items a = Sequence.standing items b :=
      List.countP_congr fun v hv => by
        rw [beq_iff_eq, beq_iff_eq, h.compare?_eq_lt_iff hv ha, h.compare?_eq_lt_iff hv hb, heq]
    rw [compare_eq_iff_eq.mpr heq, compare_eq_iff_eq.mpr hsame]
  · rw [compare_gt_iff_gt.mpr hgt, compare_gt_iff_gt.mpr (h.standing_lt hb ha hgt)]

/-- The last item comes first, and none has a greater rank than the ones before it. -/
theorem pairwise_insertBehind (h : Ranked rank (v :: before))
    (hbefore : before.Pairwise fun a b => rank b ≤ rank a) :
    (insertBehind v before).Pairwise fun a b => rank b ≤ rank a := by
  induction before with
  | nil => exact List.pairwise_singleton _ v
  | cons w before ih =>
    have hlt := h.compare?_eq_lt_iff List.mem_cons_self (List.mem_cons_of_mem v List.mem_cons_self)
    obtain ⟨hw, hrest⟩ := List.pairwise_cons.mp hbefore
    rw [insertBehind]
    split
    · next hless =>
      have hpart : v :: before ⊆ v :: w :: before :=
        List.cons_subset_cons v (List.subset_cons_self w before)
      refine List.pairwise_cons.mpr ⟨fun a ha => ?_, ih (h.subset hpart) hrest⟩
      rcases List.mem_cons.mp ((insertBehind_perm v before).subset ha) with rfl | ha
      · exact le_of_lt (hlt.mp hless)
      · exact hw a ha
    · next hnot =>
      have hle : rank w ≤ rank v := not_lt.mp fun hless => hnot (hlt.mpr hless)
      refine List.pairwise_cons.mpr ⟨fun a ha => ?_, hbefore⟩
      rcases List.mem_cons.mp ha with rfl | ha
      · exact hle
      · exact le_trans (hw a ha) hle

/-- An item is put behind those of its own rank. -/
theorem filter_insertBehind (h : Ranked rank (v :: before)) (k : β) :
    (insertBehind v before).filter (fun a => rank a = k) =
      (v :: before).filter fun a => rank a = k := by
  induction before with
  | nil => rfl
  | cons w before ih =>
    rw [insertBehind]
    split
    · next hless =>
      have hpart : v :: before ⊆ v :: w :: before :=
        List.cons_subset_cons v (List.subset_cons_self w before)
      have hlt := (h.compare?_eq_lt_iff List.mem_cons_self
        (List.mem_cons_of_mem v List.mem_cons_self)).mp hless
      rw [List.filter_cons, ih (h.subset hpart)]
      by_cases hw : rank w = k
      · have hv : rank v ≠ k := fun heq => lt_irrefl k (by rwa [heq, hw] at hlt)
        simp [hw, hv]
      · simp [List.filter_cons, hw]
    · rfl

theorem pairwise_foldl (h : Ranked rank (items.reverse ++ before))
    (hbefore : before.Pairwise fun a b => rank b ≤ rank a) :
    (items.foldl (fun sorted v => insertBehind v sorted) before).Pairwise
      fun a b => rank b ≤ rank a := by
  induction items generalizing before with
  | nil => exact hbefore
  | cons v rest ih =>
    rw [List.reverse_cons, List.append_assoc] at h
    have hv : Ranked rank (v :: before) := h.subset (List.subset_append_right _ _)
    exact ih (h.perm ((insertBehind_perm v before).append_left _))
      (hv.pairwise_insertBehind hbefore)

theorem filter_foldl (h : Ranked rank (items.reverse ++ before)) (k : β) :
    (items.foldl (fun sorted v => insertBehind v sorted) before).filter (fun a => rank a = k) =
      (items.reverse ++ before).filter fun a => rank a = k := by
  induction items generalizing before with
  | nil => rfl
  | cons v rest ih =>
    rw [List.reverse_cons, List.append_assoc] at h ⊢
    have hv : Ranked rank (v :: before) := h.subset (List.subset_append_right _ _)
    rw [List.foldl_cons, ih (h.perm ((insertBehind_perm v before).append_left _)),
      List.filter_append, hv.filter_insertBehind, List.filter_append]
    rfl

/-! ## Both ways to sort -/

/-- The items have been put in the order of their ranks, those of one rank in the order
that they were in. -/
structure Sorts (rank : Value → β) (items sorted : List Value) : Prop where
  pairwise : sorted.Pairwise fun a b => rank a ≤ rank b
  filter : ∀ k, sorted.filter (fun a => rank a = k) = items.filter fun a => rank a = k

theorem sorts_insertionSort (h : Ranked rank items) : Sorts rank items (insertionSort items) := by
  have hitems : Ranked rank (items.reverse ++ []) := by
    rw [List.append_nil]
    exact h.perm (List.reverse_perm items)
  constructor
  · exact List.pairwise_reverse.mpr (hitems.pairwise_foldl .nil)
  · intro k
    rw [insertionSort, List.filter_reverse, hitems.filter_foldl, List.append_nil,
      List.filter_reverse, List.reverse_reverse]

theorem mergeSort_eq (h : Ranked rank items) :
    (items.mergeSort fun a b => compare? a b != some .gt) =
      items.mergeSort fun a b => rank a ≤ rank b := by
  have hmap := List.map_mergeSort (f := id) (r := fun a b => compare? a b != some .gt)
    (s := fun a b => decide (rank a ≤ rank b)) (l := items) fun a ha b hb => by
      rw [h a ha b hb, Bool.eq_iff_iff, bne_iff_ne, Ne, Option.some.injEq, compare_gt_iff_gt,
        not_lt, decide_eq_true_iff]
      rfl
  rwa [List.map_id, List.map_id] at hmap

theorem sorts_mergeSort (h : Ranked rank items) :
    Sorts rank items (items.mergeSort fun a b => compare? a b != some .gt) := by
  have htrans : ∀ a b c, decide (rank a ≤ rank b) = true → decide (rank b ≤ rank c) = true →
      decide (rank a ≤ rank c) = true := by
    simp only [decide_eq_true_iff]
    exact fun a b c => le_trans
  have htotal : ∀ a b, (decide (rank a ≤ rank b) || decide (rank b ≤ rank a)) = true := by
    simp only [Bool.or_eq_true, decide_eq_true_iff]
    exact fun a b => le_total _ _
  rw [h.mergeSort_eq]
  constructor
  · refine (List.pairwise_mergeSort htrans htotal items).imp fun hle => ?_
    exact of_decide_eq_true hle
  · intro k
    -- the items of one rank are in order, so merging keeps them as they are
    have hpart : (items.filter fun a => rank a = k).Pairwise
        fun a b => decide (rank a ≤ rank b) = true := by
      refine List.pairwise_of_forall_mem_list fun a ha b hb => ?_
      have hrank : rank a = rank b :=
        (of_decide_eq_true (List.mem_filter.mp ha).2).trans
          (of_decide_eq_true (List.mem_filter.mp hb).2).symm
      exact decide_eq_true hrank.le
    have hsub := (List.sublist_mergeSort htrans htotal hpart List.filter_sublist).filter
      fun a => decide (rank a = k)
    rw [List.filter_filter] at hsub
    simp only [Bool.and_self] at hsub
    refine (hsub.eq_of_length ?_).symm
    exact ((List.mergeSort_perm items _).filter _).length_eq.symm

end Ranked

theorem isRanked_iff_standing : isRanked items = true ↔ Ranked (standing items) items := by
  simp only [isRanked, List.all_map, List.all_eq_true, Function.comp_apply, beq_iff_eq]
  rfl

namespace Ranked

theorem isRanked (h : Ranked rank items) : isRanked items = true :=
  isRanked_iff_standing.mpr h.standing

theorem sorts_sort? (h : Ranked rank items) :
    ∃ sorted, sort? items = some sorted ∧ Sorts rank items sorted := by
  unfold sort?
  rw [if_pos h.isRanked]
  split
  · exact ⟨_, rfl, h.sorts_insertionSort⟩
  · exact ⟨_, rfl, h.sorts_mergeSort⟩

end Ranked
end Ranked

/-- Sorting gives up on many items that are in no total order. -/
theorem sort?_eq_none_iff : sort? items = none ↔
    insertionLimit < items.length ∧ ¬ ∃ rank : Value → Nat, Ranked rank items := by
  have hranked : isRanked items = true ↔ ∃ rank : Value → Nat, Ranked rank items :=
    ⟨fun h => ⟨_, isRanked_iff_standing.mp h⟩, fun ⟨_, h⟩ => h.isRanked⟩
  rw [← hranked, sort?, ← not_le]
  split
  · simp [*]
  · split <;> simp [*]

/-! ## Sorting by what the items hold -/

/-- A permutation in which keys do not decrease and items of one key stay in order. -/
structure StablySorted {κ : Type} [LE κ] [DecidableEq κ] (key : Value → Option κ)
    (items sorted : List Value) : Prop where
  perm : sorted.Perm items
  ordered : sorted.Pairwise fun a b => ∀ x y, key a = some x → key b = some y → x ≤ y
  stable : ∀ x, sorted.filter (fun a => key a = some x) = items.filter fun a => key a = some x

/-- The items can be sorted, and end up in the order of their keys. -/
def SortsBy {κ : Type} [LE κ] [DecidableEq κ] (key : Value → Option κ) (items : List Value) :
    Prop :=
  ∃ sorted, sort? items = some sorted ∧ StablySorted key items sorted

/-- Keys may be ranked in another order that agrees with their own. -/
theorem sortsBy_of_ranks {κ β : Type} [LE κ] [DecidableEq κ] [LinearOrder β] [Inhabited β]
    {key : Value → Option κ} {f : κ → β} (hle : ∀ x y, f x ≤ f y → x ≤ y)
    (hinj : ∀ x y, f x = f y → x = y)
    (hcompare : ∀ a b x y, key a = some x → key b = some y →
      compare? a b = some (compare (f x) (f y)))
    (hitems : ∀ v ∈ items, ∃ x, key v = some x) : SortsBy key items := by
  let rank (v : Value) : β := ((key v).map f).getD default
  have hrank : ∀ v x, key v = some x → rank v = f x := by
    intro v x hx
    simp only [rank, hx, Option.map_some, Option.getD_some]
  have hranked : Ranked rank items := by
    intro a ha b hb
    obtain ⟨x, hx⟩ := hitems a ha
    obtain ⟨y, hy⟩ := hitems b hb
    rw [hcompare a b x y hx hy, hrank a x hx, hrank b y hy]
  have hsame : ∀ v ∈ items, ∀ x, key v = some x ↔ rank v = f x := by
    intro v hv x
    refine ⟨hrank v x, fun heq => ?_⟩
    obtain ⟨y, hy⟩ := hitems v hv
    rw [hy, hinj y x ((hrank v y hy).symm.trans heq)]
  obtain ⟨sorted, hsort, hsorts⟩ := hranked.sorts_sort?
  have hperm := sort?_perm hsort
  refine ⟨sorted, hsort, hperm, ?_, fun x => ?_⟩
  · refine hsorts.pairwise.imp fun hab x y hx hy => hle x y ?_
    rwa [← hrank _ x hx, ← hrank _ y hy]
  · have hfilter : ∀ part : List Value, part ⊆ items →
        part.filter (fun a => key a = some x) = part.filter fun a => rank a = f x :=
      fun part hsub => List.filter_congr fun v hv => decide_eq_decide.mpr (hsame v (hsub hv) x)
    rw [hfilter _ hperm.subset, hfilter _ (List.Subset.refl _), hsorts.filter]

theorem compare_toInt (m n : Int64) : compare m n = compare m.toInt n.toInt := by
  have hlt := Int64.lt_iff_toInt_lt (x := m) (y := n)
  have heq := Int64.toInt_inj (x := m) (y := n)
  show compareOfLessAndEq m n = compareOfLessAndEq m.toInt n.toInt
  simp only [compareOfLessAndEq, hlt, heq]

theorem isOrdered_of_ints (h : ∀ v ∈ items, ∃ n, v.int? = some n) : isOrdered items = true := by
  refine isOrdered_iff_pairwise.mpr (List.pairwise_of_forall_mem_list fun a ha b hb => ?_)
  obtain ⟨m, hm⟩ := h a ha
  obtain ⟨n, hn⟩ := h b hb
  rw [Value.int?_eq_some_iff.mp hm, Value.int?_eq_some_iff.mp hn]
  exact .numbers rfl (Double.isNaN_ofInt m) rfl (Double.isNaN_ofInt n)

theorem isOrdered_of_strings (h : ∀ v ∈ items, ∃ s, v.string? = some s) :
    isOrdered items = true := by
  refine isOrdered_iff_pairwise.mpr (List.pairwise_of_forall_mem_list fun a ha b hb => ?_)
  obtain ⟨s, hs⟩ := h a ha
  obtain ⟨t, ht⟩ := h b hb
  exact .strings hs ht

theorem sortsBy_ints (h : ∀ v ∈ items, ∃ n, v.int? = some n) : SortsBy Value.int? items := by
  refine sortsBy_of_ranks (f := Int64.toInt) (fun x y => Int64.le_iff_toInt_le.mpr)
    (fun x y => Int64.toInt_inj.mp) (fun a b m n ha hb => ?_) h
  rw [Value.int?_eq_some_iff.mp ha, Value.int?_eq_some_iff.mp hb, ← compare_toInt]
  rfl

theorem sortsBy_strings (h : ∀ v ∈ items, ∃ s, v.string? = some s) :
    SortsBy Value.string? items := by
  refine sortsBy_of_ranks (f := id) (fun x y => id) (fun x y => id) (fun a b s t ha hb => ?_) h
  rw [Value.string?_eq_some_iff.mp ha, Value.string?_eq_some_iff.mp hb]
  rfl

end Sequence

/-! ## The method -/

/-- `sort` makes a new array of these items, and leaves the receiver as it is. -/
structure SortsTo (ev : Evaluator) (id : ArrayId) (f : Fiber) (σ τ : Store)
    (sorted : List Value) : Prop where
  call : Method.call ev (.array id) "sort" [] f σ = .done (.ok (.array ⟨σ.arrays.size⟩)) f τ
  store : τ = (σ.newArray sorted.toArray).2
  answer : (τ.array ⟨σ.arrays.size⟩).toList = sorted
  receiver : τ.array id = σ.array id

section

variable (ev : Evaluator) (id : ArrayId) (f : Fiber) (σ : Store)

theorem Method.call_sort : Method.call ev (.array id) "sort" [] f σ =
    if Sequence.isOrdered (σ.array id).toList then
      match Sequence.sort? (σ.array id).toList with
      | some sorted => .done (.ok (.array ⟨σ.arrays.size⟩)) f (σ.newArray sorted.toArray).2
      | none => .done (.error (.fault Sequence.disorder)) f σ
    else .done (.error (.error ⟨.inputType "sort" "mixed or unordered ARRAY", f.pos⟩)) f σ := by
  show Eval.lift (ArrayAction.run id .sort ⟨"sort", [], f.pos⟩) f σ = _
  have hrun : (ArrayAction.run id .sort ⟨"sort", [], f.pos⟩ : Atomic Value) σ =
      (if Sequence.isOrdered (σ.array id).toList then
        match Sequence.sort? (σ.array id).toList with
        | some sorted => Atomic.newArray sorted
        | none => Atomic.fault Sequence.disorder
      else Args.failInput ⟨"sort", [], f.pos⟩ "mixed or unordered ARRAY" : Atomic Value) σ := rfl
  rw [Eval.lift, hrun]
  cases Sequence.isOrdered (σ.array id).toList with
  | false => rfl
  | true => cases Sequence.sort? (σ.array id).toList <;> rfl

theorem Method.call_sort_of_none (h : Sequence.isOrdered (σ.array id).toList = true)
    (hsort : Sequence.sort? (σ.array id).toList = none) :
    Method.call ev (.array id) "sort" [] f σ = .done (.error (.fault Sequence.disorder)) f σ := by
  rw [Method.call_sort, if_pos h, hsort]

theorem sortsTo_of_sort? {sorted : List Value}
    (h : Sequence.isOrdered (σ.array id).toList = true)
    (hsort : Sequence.sort? (σ.array id).toList = some sorted) :
    ∃ τ, SortsTo ev id f σ τ sorted := by
  refine ⟨(σ.newArray sorted.toArray).2, ?_, rfl, ?_, ?_⟩
  · rw [Method.call_sort, if_pos h, hsort]
  · rw [Store.array_newArray]
  · by_cases hid : id = ⟨σ.arrays.size⟩
    · -- there is no such array yet, so there is nothing to sort
      have hempty : σ.array id = #[] :=
        Store.array_of_ge (Nat.le_of_eq (congrArg ArrayId.index hid).symm)
      rw [hempty] at hsort ⊢
      rw [hid, Store.array_newArray, (Sequence.sort?_perm hsort).eq_nil]
    · rw [Store.array_newArray_of_ne hid]

/-- `sort` fails if and only if two of the elements cannot be compared, and never changes
the receiver.  Where all can be compared, and are few or in a total order, it makes a
permutation of the elements in that order.  Integers and strings, which are always in
one, are put in their order, and equal ones stay in theirs. -/
theorem sort_correct :
    (Method.call ev (.array id) "sort" [] f σ =
        .done (.error (.error ⟨.inputType "sort" "mixed or unordered ARRAY", f.pos⟩)) f σ ↔
      ∃ i j : Fin (σ.array id).toList.length, i ≠ j ∧
        Store.compare? (σ.array id).toList[i] (σ.array id).toList[j] = none) ∧
    (∃ r τ, Method.call ev (.array id) "sort" [] f σ = .done r f τ ∧
      τ.array id = σ.array id) ∧
    ((∀ i j : Fin (σ.array id).toList.length, i ≠ j →
        (Store.compare? (σ.array id).toList[i] (σ.array id).toList[j]).isSome = true) →
      ((σ.array id).size ≤ Sequence.insertionLimit ∨
        ∃ rank : Value → Nat, Sequence.Ranked rank (σ.array id).toList) →
      ∃ τ sorted, SortsTo ev id f σ τ sorted ∧ sorted.Perm (σ.array id).toList ∧
        ∀ rank : Value → Nat, Sequence.Ranked rank (σ.array id).toList →
          Sequence.Ranked.Sorts rank (σ.array id).toList sorted) ∧
    ((∀ v ∈ (σ.array id).toList, ∃ n, v.int? = some n) →
      ∃ τ sorted, SortsTo ev id f σ τ sorted ∧
        Sequence.StablySorted Value.int? (σ.array id).toList sorted) ∧
    ((∀ v ∈ (σ.array id).toList, ∃ s, v.string? = some s) →
      ∃ τ sorted, SortsTo ev id f σ τ sorted ∧
        Sequence.StablySorted Value.string? (σ.array id).toList sorted) := by
  refine ⟨?_, ?_, fun h htotal => ?_, fun h => ?_, fun h => ?_⟩
  · constructor
    · intro h
      by_contra hall
      have hordered : Sequence.isOrdered (σ.array id).toList = true :=
        Sequence.isOrdered_iff.mpr fun i j hne =>
          Option.isSome_iff_ne_none.mpr fun hnone => hall ⟨i, j, hne, hnone⟩
      rw [Method.call_sort, if_pos hordered] at h
      split at h <;> cases h
    · rintro ⟨i, j, hne, hnone⟩
      rw [Method.call_sort]
      refine if_neg fun hordered => ?_
      have hsome := Sequence.isOrdered_iff.mp hordered i j hne
      rw [hnone] at hsome
      cases hsome
  · by_cases hordered : Sequence.isOrdered (σ.array id).toList = true
    · cases hsort : Sequence.sort? (σ.array id).toList with
      | none => exact ⟨_, σ, Method.call_sort_of_none ev id f σ hordered hsort, rfl⟩
      | some sorted =>
        obtain ⟨τ, hτ⟩ := sortsTo_of_sort? ev id f σ hordered hsort
        exact ⟨_, τ, hτ.call, hτ.receiver⟩
    · rw [Method.call_sort, if_neg hordered]
      exact ⟨_, _, rfl, rfl⟩
  · cases hsort : Sequence.sort? (σ.array id).toList with
    | none =>
      obtain ⟨hmany, hrank⟩ := Sequence.sort?_eq_none_iff.mp hsort
      rw [Array.length_toList] at hmany
      exact (htotal.elim (not_le.mpr hmany) hrank).elim
    | some sorted =>
      obtain ⟨τ, hτ⟩ := sortsTo_of_sort? ev id f σ (Sequence.isOrdered_iff.mpr h) hsort
      refine ⟨τ, sorted, hτ, Sequence.sort?_perm hsort, fun rank hrank => ?_⟩
      obtain ⟨other, hother, hsorts⟩ := hrank.sorts_sort?
      exact Option.some.inj (hsort.symm.trans hother) ▸ hsorts
  · obtain ⟨sorted, hsort, hsorted⟩ := Sequence.sortsBy_ints h
    obtain ⟨τ, hτ⟩ := sortsTo_of_sort? ev id f σ (Sequence.isOrdered_of_ints h) hsort
    exact ⟨τ, sorted, hτ, hsorted⟩
  · obtain ⟨sorted, hsort, hsorted⟩ := Sequence.sortsBy_strings h
    obtain ⟨τ, hτ⟩ := sortsTo_of_sort? ev id f σ (Sequence.isOrdered_of_strings h) hsort
    exact ⟨τ, sorted, hτ, hsorted⟩

end

/-- An array of integers out of order, one of an integer and a float, and one that cannot
be sorted. -/
def unsorted : Store :=
  { arrays := #[#[.ofInt 3, .ofInt 1, .ofInt 3, .ofInt 2], #[.ofInt 2, .ofFloat (.ofInt 1)],
      #[.ofInt 1, .ofString "one"]] }

theorem sort_unsorted :
    (∃ τ sorted, SortsTo (evaluator 1) ⟨0⟩ default unsorted τ sorted ∧
      Sequence.StablySorted Value.int? [.ofInt 3, .ofInt 1, .ofInt 3, .ofInt 2] sorted) ∧
    (∃ τ sorted, SortsTo (evaluator 1) ⟨1⟩ default unsorted τ sorted ∧
      sorted.Perm [.ofInt 2, .ofFloat (.ofInt 1)]) ∧
    Method.call (evaluator 1) (.array ⟨2⟩) "sort" [] default unsorted =
      .done (.error (.error ⟨.inputType "sort" "mixed or unordered ARRAY", .unknown⟩)) default
        unsorted := by
  refine ⟨?_, ?_, ?_⟩
  · refine (sort_correct (evaluator 1) ⟨0⟩ default unsorted).2.2.2.1 fun v hv => ?_
    have hitems : v ∈ [Value.ofInt 3, .ofInt 1, .ofInt 3, .ofInt 2] := hv
    simp only [List.mem_cons, List.not_mem_nil, or_false] at hitems
    rcases hitems with rfl | rfl | rfl | rfl <;> exact ⟨_, rfl⟩
  · obtain ⟨τ, sorted, hτ, hperm, -⟩ :=
      (sort_correct (evaluator 1) ⟨1⟩ default unsorted).2.2.1
        (Sequence.isOrdered_iff.mp (by decide)) (.inl (by decide))
    exact ⟨τ, sorted, hτ, hperm⟩
  · refine (sort_correct (evaluator 1) ⟨2⟩ default unsorted).1.mpr ⟨⟨0, ?_⟩, ⟨1, ?_⟩, ?_, rfl⟩
    · decide
    · decide
    · simp

/-- Numbers in no total order: the integers are in one among themselves, but as a float
each of them is the second item. -/
def tangled : List Value :=
  let low : Int64 := 4611686018427387904
  .ofInt (low + 21) :: .ofFloat (.ofInt low) ::
    (List.range 20).map fun i => .ofInt (low + 20 - .ofNat i)

/-- Any two of these numbers can be compared, but they cannot be sorted. -/
theorem sort_tangled :
    (∀ i j : Fin tangled.length, i ≠ j →
      (Store.compare? tangled[i] tangled[j]).isSome = true) ∧
    Method.call (evaluator 1) (.array ⟨0⟩) "sort" [] default { arrays := #[tangled.toArray] } =
      .done (.error (.fault Sequence.disorder)) default { arrays := #[tangled.toArray] } := by
  have hordered : Sequence.isOrdered tangled = true := by decide
  have hnone : Sequence.sort? tangled = none := by
    refine Sequence.sort?_eq_none_iff.mpr ⟨by decide, fun ⟨rank, h⟩ => ?_⟩
    -- the first and the third item have the rank of the second, but are not equal
    have hmem : ∀ i (hi : i < tangled.length), tangled[i] ∈ tangled := fun i hi =>
      List.getElem_mem hi
    have h01 := h _ (hmem 0 (by decide)) _ (hmem 1 (by decide))
    have h12 := h _ (hmem 1 (by decide)) _ (hmem 2 (by decide))
    have h02 := h _ (hmem 0 (by decide)) _ (hmem 2 (by decide))
    have e01 : Store.compare? tangled[0] tangled[1] = some .eq := by decide
    have e12 : Store.compare? tangled[1] tangled[2] = some .eq := by decide
    have e02 : Store.compare? tangled[0] tangled[2] = some .gt := by decide
    rw [e01, Option.some.injEq, eq_comm, compare_eq_iff_eq] at h01
    rw [e12, Option.some.injEq, eq_comm, compare_eq_iff_eq] at h12
    rw [e02, h01, h12] at h02
    simp at h02
  exact ⟨Sequence.isOrdered_iff.mp hordered,
    Method.call_sort_of_none (evaluator 1) ⟨0⟩ default { arrays := #[tangled.toArray] } hordered
      hnone⟩

end TreeWalk
