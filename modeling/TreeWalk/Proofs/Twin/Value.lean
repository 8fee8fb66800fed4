/-
Values that differ only in what NULL scalars hide.

A NULL scalar keeps a payload that nothing may look at.  Two values are twins if
they are alike but for such payloads: they are the same value, NULL scalars of one
kind, or tuples of twins.  What is asked of a value before its payload is used, its
kind, whether it is valid and what it holds if it is, is the same for twins.  A valid
value has no twin but itself, unless it is a tuple.
-/
import Mathlib.Data.List.Forall2
import TreeWalk.Proofs.Store.Equality
import TreeWalk.Proofs.Value.Dict
import TreeWalk.Proofs.Value.Within
import TreeWalk.Method.Object
import TreeWalk.Store.Access

namespace TreeWalk

namespace Value

inductive Twin : Value → Value → Prop
  | same (v : Value) : Twin v v
  | int (m n : Int64) : Twin (.int (.null m)) (.int (.null n))
  | float (x y : Double) : Twin (.float (.null x)) (.float (.null y))
  | str (s t : String) : Twin (.str (.null s)) (.str (.null t))
  | bool (p q : Bool) (message : Option String) :
    Twin (.bool ⟨p, false, message⟩) (.bool ⟨q, false, message⟩)
  | tuple {xs ys : List Value} (multi : Bool) (h : List.Forall₂ Twin xs ys) :
    Twin (.tuple xs multi) (.tuple ys multi)

/-- Whether a value is a boolean that hides its truth. -/
def hidesTruth : Value → Bool
  | .bool b => !b.valid
  | _ => false

/-- Lists of twins. -/
abbrev Twins (xs ys : List Value) : Prop := List.Forall₂ Twin xs ys

theorem Twins.refl (xs : List Value) : Twins xs xs := List.forall₂_same.mpr fun v _ => .same v

namespace Twin

variable {v w : Value}

theorem kind_eq (h : Twin v w) : v.kind = w.kind := by
  cases h <;> rfl

theorem isValid_eq (h : Twin v w) : v.isValid = w.isValid := by
  cases h <;> rfl

theorem isNil_eq (h : Twin v w) : v.isNil = w.isNil := by
  cases h <;> rfl

theorem isCallable_eq (h : Twin v w) : v.isCallable = w.isCallable := by
  cases h <;> rfl

theorem int?_eq (h : Twin v w) : v.int? = w.int? := by
  cases h <;> rfl

theorem number?_eq (h : Twin v w) : v.number? = w.number? := by
  cases h <;> rfl

theorem string?_eq (h : Twin v w) : v.string? = w.string? := by
  cases h <;> rfl

theorem key?_eq (h : Twin v w) : v.key? = w.key? := by
  cases h <;> rfl

/-- A valid value is a tuple of twins, or it has no twin but itself. -/
theorem eq_or_tuple (h : Twin v w) (hv : v.isValid = true) :
    (v = w ∧ ∀ xs multi, v ≠ .tuple xs multi) ∨
      ∃ xs ys multi, v = .tuple xs multi ∧ w = .tuple ys multi ∧ Twins xs ys := by
  cases h with
  | same v =>
    cases v with
    | tuple xs multi => exact .inr ⟨xs, xs, multi, rfl, rfl, .refl xs⟩
    | _ => exact .inl ⟨rfl, fun _ _ h => nomatch h⟩
  | tuple multi h => exact .inr ⟨_, _, multi, rfl, rfl, h⟩
  | int m n => cases hv
  | float x y => cases hv
  | str s t => cases hv
  | bool p q message => cases hv

/-- A valid value that is no tuple has no twin but itself. -/
theorem eq_of_valid (h : Twin v w) (hv : v.isValid = true) (hne : ∀ xs multi, v ≠ .tuple xs multi) :
    v = w := by
  obtain ⟨heq, -⟩ | ⟨xs, ys, multi, rfl, -⟩ := h.eq_or_tuple hv
  · exact heq
  · exact absurd rfl (hne xs multi)

/-- The message of a failure is the same for twins, unless they are booleans that hide
what tells a failure from a success. -/
theorem failureMessage?_eq (h : Twin v w) (hv : v.hidesTruth = false) :
    v.failureMessage? = w.failureMessage? := by
  cases h with
  | bool p q message => cases hv
  | _ => rfl

theorem compare?_eq {v' w' : Value} (h : Twin v w) (h' : Twin v' w') :
    Store.compare? v v' = Store.compare? w w' := by
  rw [Store.compare?_eq_held, Store.compare?_eq_held, h.int?_eq, h'.int?_eq, h.number?_eq, h'.number?_eq,
    h.string?_eq, h'.string?_eq]

end Twin
end Value

/-! ## Lists of twins -/

section Lists

variable {α β : Type} {R : α → β → Prop} {xs : List α} {ys : List β}

theorem rel_cases {a : Option α} {b : Option β} (h : Option.Rel R a b) :
    (a = none ∧ b = none) ∨ ∃ x y, a = some x ∧ b = some y ∧ R x y := by
  cases h with
  | none => exact .inl ⟨rfl, rfl⟩
  | some h => exact .inr ⟨_, _, rfl, rfl, h⟩

theorem rel_isSome {a : Option α} {b : Option β} (h : Option.Rel R a b) :
    a.isSome = b.isSome := by
  cases h with
  | none => rfl
  | some _ => rfl

theorem rel_map {γ γ' : Type} {S : γ → γ' → Prop} {f : γ → α} {g : γ' → β} {o : Option γ}
    {o' : Option γ'} (ho : Option.Rel S o o') (h : ∀ c d, S c d → R (f c) (g d)) :
    Option.Rel R (o.map f) (o'.map g) := by
  cases ho with
  | none => exact .none
  | some hcd => exact .some (h _ _ hcd)

theorem rel_refl {S : α → α → Prop} (hS : ∀ a, S a a) (a? : Option α) : Option.Rel S a? a? := by
  cases a? with
  | none => exact .none
  | some a => exact .some (hS a)

theorem rel_getElem? (h : List.Forall₂ R xs ys) (i : Nat) : Option.Rel R xs[i]? ys[i]? := by
  induction h generalizing i with
  | nil => exact .none
  | cons hxy _ ih =>
    cases i with
    | zero => exact .some hxy
    | succ i => exact ih i

theorem rel_getLast? (h : List.Forall₂ R xs ys) : Option.Rel R xs.getLast? ys.getLast? := by
  rw [List.getLast?_eq_getElem?, List.getLast?_eq_getElem?, h.length_eq]
  exact rel_getElem? h _

theorem rel_filter_of {p : α → Bool} {q : β → Bool} (h : List.Forall₂ R xs ys)
    (hpq : ∀ a b, R a b → p a = q b) : List.Forall₂ R (xs.filter p) (ys.filter q) := by
  induction h with
  | nil => exact .nil
  | @cons a b _ _ hab _ ih =>
    rw [List.filter_cons, List.filter_cons, hpq a b hab]
    split
    · exact .cons hab ih
    · exact ih

theorem rel_find? {p : α → Bool} {q : β → Bool} (h : List.Forall₂ R xs ys)
    (hpq : ∀ a b, R a b → p a = q b) : Option.Rel R (xs.find? p) (ys.find? q) := by
  induction h with
  | nil => exact .none
  | @cons a b _ _ hab _ ih =>
    rw [List.find?_cons, List.find?_cons, hpq a b hab]
    split
    · exact .some hab
    · exact ih

theorem map_eq_of_rel {γ : Type} {f : α → γ} {g : β → γ} (h : List.Forall₂ R xs ys)
    (hfg : ∀ a b, R a b → f a = g b) : xs.map f = ys.map g := by
  induction h with
  | nil => rfl
  | cons hab _ ih => rw [List.map_cons, List.map_cons, hfg _ _ hab, ih]

theorem any_eq_of_rel {p : α → Bool} {q : β → Bool} (h : List.Forall₂ R xs ys)
    (hpq : ∀ a b, R a b → p a = q b) : xs.any p = ys.any q := by
  induction h with
  | nil => rfl
  | cons hab _ ih => rw [List.any_cons, List.any_cons, hpq _ _ hab, ih]

theorem all_eq_of_rel {p : α → Bool} {q : β → Bool} (h : List.Forall₂ R xs ys)
    (hpq : ∀ a b, R a b → p a = q b) : xs.all p = ys.all q := by
  induction h with
  | nil => rfl
  | cons hab _ ih => rw [List.all_cons, List.all_cons, hpq _ _ hab, ih]

theorem countP_eq_of_rel {p : α → Bool} {q : β → Bool} (h : List.Forall₂ R xs ys)
    (hpq : ∀ a b, R a b → p a = q b) : xs.countP p = ys.countP q := by
  induction h with
  | nil => rfl
  | cons hab _ ih => rw [List.countP_cons, List.countP_cons, hpq _ _ hab, ih]

theorem findIdx?_eq_of_rel {p : α → Bool} {q : β → Bool} (h : List.Forall₂ R xs ys)
    (hpq : ∀ a b, R a b → p a = q b) : xs.findIdx? p = ys.findIdx? q := by
  induction h with
  | nil => rfl
  | cons hab _ ih => rw [List.findIdx?_cons, List.findIdx?_cons, hpq _ _ hab, ih]

theorem rel_zip {α' β' : Type} {S : α' → β' → Prop} {xs' : List α'} {ys' : List β'}
    (h : List.Forall₂ R xs ys) (h' : List.Forall₂ S xs' ys') :
    List.Forall₂ (fun a b => R a.1 b.1 ∧ S a.2 b.2) (xs.zip xs') (ys.zip ys') := by
  induction h generalizing xs' ys' with
  | nil => exact .nil
  | cons hab _ ih =>
    cases h' with
    | nil => exact .nil
    | cons hab' hrest => exact .cons ⟨hab, hab'⟩ (ih hrest)

/-- Related lists are the two sides of a list of related pairs. -/
theorem exists_pairs (h : List.Forall₂ R xs ys) :
    ∃ zs : List (α × β), zs.map Prod.fst = xs ∧ zs.map Prod.snd = ys ∧ ∀ z ∈ zs, R z.1 z.2 := by
  induction h with
  | nil => exact ⟨[], rfl, rfl, fun z hz => nomatch hz⟩
  | @cons a b _ _ hab _ ih =>
    obtain ⟨zs, rfl, rfl, hzs⟩ := ih
    refine ⟨(a, b) :: zs, rfl, rfl, fun z hz => ?_⟩
    rcases List.mem_cons.mp hz with rfl | hz
    · exact hab
    · exact hzs z hz

theorem rel_of_pairs {zs : List (α × β)} (h : ∀ z ∈ zs, R z.1 z.2) :
    List.Forall₂ R (zs.map Prod.fst) (zs.map Prod.snd) := by
  rw [List.forall₂_map_left_iff, List.forall₂_map_right_iff, List.forall₂_same]
  exact h

/-- Sorting by what related items have in common. -/
theorem rel_mergeSort {r : α → α → Bool} {s : β → β → Bool} (h : List.Forall₂ R xs ys)
    (hrs : ∀ a b a' b', R a b → R a' b' → r a a' = s b b') :
    List.Forall₂ R (xs.mergeSort r) (ys.mergeSort s) := by
  obtain ⟨zs, rfl, rfl, hzs⟩ := exists_pairs h
  rw [← List.map_mergeSort (r := fun y z => r y.1 z.1) (fun _ _ _ _ => rfl),
    ← List.map_mergeSort (r := fun y z => r y.1 z.1)
      fun y hy z hz => hrs _ _ _ _ (hzs y hy) (hzs z hz)]
  exact rel_of_pairs fun z hz => hzs z (List.mem_mergeSort.mp hz)

end Lists

/-! ## Hashes -/

/-- Entries whose keys and values are twins. -/
def Entry.Twin (a b : Entry) : Prop := a.key.Twin b.key ∧ a.value.Twin b.value

namespace Dict

/-- Hashes with the same keys in the same order, which hold twins. -/
structure Twin (d e : Dict) : Prop where
  order_eq : d.order = e.order
  get? : ∀ key, Option.Rel Entry.Twin (d.get? key) (e.get? key)

namespace Twin

variable {d e d' e' : Dict} {hash : Key} {k k' v v' : Value}

theorem refl (d : Dict) : Twin d d := by
  refine ⟨rfl, fun key => ?_⟩
  exact rel_refl (fun _ => ⟨.same _, .same _⟩) (d.get? key)

theorem contains_eq (h : Twin d e) (key : Key) : d.contains key = e.contains key := by
  rw [Bool.eq_iff_iff, contains_iff, contains_iff]
  obtain ⟨hd, he⟩ | ⟨a, b, hd, he, _⟩ := rel_cases (h.get? key)
  · simp [hd, he]
  · simp [hd, he]

theorem size_eq (h : Twin d e) : d.size = e.size := congrArg List.length h.order_eq

theorem isEmpty_eq (h : Twin d e) : d.isEmpty = e.isEmpty := congrArg List.isEmpty h.order_eq

theorem insert (h : Twin d e) (hk : k.Twin k') (hv : v.Twin v') :
    Twin (d.insert hash k v) (e.insert hash k' v') := by
  refine ⟨?_, fun key => ?_⟩
  · rw [order_insert, order_insert, h.contains_eq, h.order_eq]
  · rw [get?_insert, get?_insert]
    split
    · refine .some ⟨?_, hv⟩
      obtain ⟨hd, he⟩ | ⟨a, b, hd, he, hab⟩ := rel_cases (h.get? hash)
      · rw [hd, he]
        exact hk
      · rw [hd, he]
        exact hab.1
    · exact h.get? key

theorem erase (h : Twin d e) : Twin (d.erase hash) (e.erase hash) := by
  refine ⟨?_, fun key => ?_⟩
  · unfold Dict.erase
    rw [h.contains_eq, h.order_eq]
    split
    · rfl
    · exact h.order_eq
  · rw [get?_erase, get?_erase]
    split
    · exact .none
    · exact h.get? key

theorem toList (h : Twin d e) : List.Forall₂ Entry.Twin d.toList e.toList := by
  unfold Dict.toList
  rw [h.order_eq]
  exact List.rel_filterMap (R := Eq) (fun key _ hkey => hkey ▸ h.get? key)
    (List.forall₂_same.mpr fun _ _ => rfl)

theorem keys (h : Twin d e) : Value.Twins d.keys e.keys := by
  unfold Dict.keys
  rw [Value.Twins, List.forall₂_map_left_iff, List.forall₂_map_right_iff]
  exact h.toList.imp fun _ _ hab => hab.1

theorem values (h : Twin d e) : Value.Twins d.values e.values := by
  unfold Dict.values
  rw [Value.Twins, List.forall₂_map_left_iff, List.forall₂_map_right_iff]
  exact h.toList.imp fun _ _ hab => hab.2

theorem file {a b : Entry} (h : Twin d e) (hab : a.Twin b) : Twin (d.file a) (e.file b) := by
  unfold Dict.file
  rw [hab.1.key?_eq]
  split
  · exact h.insert hab.1 hab.2
  · exact h

theorem merge (h : Twin d e) (h' : Twin d' e') : Twin (d.merge d') (e.merge e') := by
  rw [merge_eq, merge_eq]
  exact List.rel_foldl (fun _ _ h _ _ hab => h.file hab) h h'.toList

end Twin
end Dict
end TreeWalk
