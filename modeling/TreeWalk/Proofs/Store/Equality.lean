/-
What the language's `==` compares.

Of values that are not NULL, numbers are equal by what they amount to, a number and a
string cannot be compared, and all else is equal to values of its own kind alone: by
content where it holds other values, and by identity where it is an object.  Neither
side has a say of its own in that, so the answer does not depend on the order of the
operands.  The hashes of the store have to be consistent for this, because only one of
two is walked through.
-/
import Mathlib.Data.List.Forall2
import TreeWalk.Proofs.Number.Double
import TreeWalk.Proofs.Store.Closed
import TreeWalk.Store.Equality

namespace TreeWalk

theorem ObjectRef.same_comm (a b : ObjectRef) : a.same b = b.same a := by
  cases a <;> cases b <;> simp only [ObjectRef.same, eq_comm]

namespace Store

variable {σ : Store} {inner inner' : Value → Value → Bool} {a b : Value} {xs ys : List Value}

/-! ## Hashes -/

/-- Entries that show alike. -/
def ShowAlike (σ : Store) (a b : Entry) : Prop :=
  σ.display a.key = σ.display b.key ∧ σ.display a.value = σ.display b.value

theorem equalDicts_iff_of_mem {a b : Dict} (ha : a.Consistent) :
    σ.equalDicts a b = true ↔ a.size = b.size ∧
      ∀ key e, a.get? key = some e → ∃ e', b.get? key = some e' ∧ σ.ShowAlike e e' := by
  unfold equalDicts
  rw [Bool.and_eq_true, decide_eq_true_iff, List.all_eq_true]
  refine and_congr_right fun _ => ⟨fun h key e he => ?_, fun h e hmem => ?_⟩
  · have hall := h e (ha.mem_toList_iff.mpr ⟨key, he⟩)
    rw [ha.filed key e he, Option.bind_some] at hall
    cases hb : b.get? key with
    | none =>
      rw [hb] at hall
      cases hall
    | some e' =>
      rw [hb, Bool.and_eq_true, beq_iff_eq, beq_iff_eq] at hall
      exact ⟨e', rfl, hall.1.symm, hall.2.symm⟩
  · obtain ⟨key, hkey, he⟩ := ha.get?_of_mem_toList hmem
    obtain ⟨e', hb, hshow⟩ := h key e he
    rw [hkey, Option.bind_some, hb, Bool.and_eq_true, beq_iff_eq, beq_iff_eq]
    exact ⟨hshow.1.symm, hshow.2.symm⟩

/-- Hashes are equal if under each key both hold entries that show alike, or
neither holds any. -/
theorem equalDicts_iff {a b : Dict} (ha : a.Consistent) (hb : b.Consistent) :
    σ.equalDicts a b = true ↔ ∀ key, Option.Rel σ.ShowAlike (a.get? key) (b.get? key) := by
  rw [equalDicts_iff_of_mem ha]
  constructor
  · rintro ⟨hsize, hsub⟩ key
    cases hkey : a.get? key with
    | some e =>
      obtain ⟨e', he', hshow⟩ := hsub key e hkey
      rw [he']
      exact .some hshow
    | none =>
      have hkeys : ∀ key, a.contains key = true → b.contains key = true := by
        intro key hin
        obtain ⟨e, he⟩ := Dict.contains_iff.mp hin
        obtain ⟨e', he', _⟩ := hsub key e he
        exact Dict.contains_iff.mpr ⟨e', he'⟩
      have hout : b.contains key = false := by
        refine Bool.eq_false_iff.mpr fun hin => ?_
        have hin' := ha.contains_of_size_le hb hkeys (Nat.le_of_eq hsize.symm) hin
        rw [Dict.contains_eq_false_iff.mpr hkey] at hin'
        cases hin'
      rw [Dict.contains_eq_false_iff.mp hout]
      exact .none
  · intro h
    have hkeys : ∀ key, a.contains key = true ↔ b.contains key = true := by
      intro key
      rw [Dict.contains_iff, Dict.contains_iff]
      have hkey := h key
      generalize a.get? key = x at hkey ⊢
      generalize b.get? key = y at hkey ⊢
      cases hkey with
      | some _ => simp
      | none => simp
    refine ⟨(ha.perm_order hb hkeys).length_eq, fun key e he => ?_⟩
    have hkey := h key
    rw [he] at hkey
    generalize b.get? key = y at hkey ⊢
    cases hkey with
    | some hshow => exact ⟨_, rfl, hshow⟩

theorem equalDicts_comm {d e : Dict} (hd : d.Consistent) (he : e.Consistent) :
    σ.equalDicts d e = σ.equalDicts e d := by
  have turned : ∀ {x y : Option Entry}, Option.Rel σ.ShowAlike x y → Option.Rel σ.ShowAlike y x := by
    intro x y h
    cases h with
    | some hshow => exact .some ⟨hshow.1.symm, hshow.2.symm⟩
    | none => exact .none
  rw [Bool.eq_iff_iff, equalDicts_iff hd he, equalDicts_iff he hd]
  exact ⟨fun h key => turned (h key), fun h key => turned (h key)⟩

theorem equal?_hashes (i j : HashId) :
    σ.equal? (.hash i) (.hash j) = some (σ.equalDicts (σ.dict i) (σ.dict j)) := rfl

/-! ## Lists -/

/-- Lists of one length whose items are equal one by one. -/
def equalLists (inner : Value → Value → Bool) (xs ys : List Value) : Bool :=
  xs.length = ys.length && (xs.zip ys).all fun (x, y) => inner x y

theorem equalLists_iff : equalLists inner xs ys = true ↔ List.Forall₂ (inner · · = true) xs ys := by
  unfold equalLists
  rw [Bool.and_eq_true, decide_eq_true_iff, List.all_eq_true, List.forall₂_iff_zip]
  exact and_congr_right fun _ => ⟨fun h _ _ hmem => h _ hmem, fun h p hmem => h hmem⟩

theorem equalItems_iff : σ.equalItems inner xs ys = true ↔
    List.Forall₂ (fun x y => (σ.equalWith? inner x y).getD false = true) xs ys := by
  induction xs generalizing ys with
  | nil =>
    cases ys with
    | nil => exact ⟨fun _ => .nil, fun _ => rfl⟩
    | cons y ys => exact ⟨nofun, nofun⟩
  | cons x xs ih =>
    cases ys with
    | nil => exact ⟨nofun, nofun⟩
    | cons y ys => rw [equalItems, Bool.and_eq_true, ih, List.forall₂_cons]

/-! ## Kinds -/

theorem equalInvalid_comm (a b : Value) : equalInvalid a b = equalInvalid b a := by
  unfold equalInvalid
  rw [Bool.or_comm a.isNil, Bool.and_comm (!a.isValid), Bool.beq_comm]

theorem equalWith?_of_not_valid (h : (!a.isValid || !b.isValid) = true) :
    σ.equalWith? inner a b = some (equalInvalid a b) := by
  rw [equalWith?.eq_def]
  exact if_pos h

/-- Equality looks at its operands before it looks behind any reference. -/
theorem exists_equalWith? (σ : Store) (a b : Value) :
    ∃ inner, σ.equal? a b = σ.equalWith? inner a b := ⟨_, rfl⟩

/-- Equality of numbers, which is exact between integers. -/
def equalNumbers (a b : Value) (x y : Double) : Bool :=
  match a.int?, b.int? with
  | some m, some n => m == n
  | _, _ => x == y

/-- Equality of values that are no numbers: by content if both are of a kind that holds
values or is one, and otherwise by identity. -/
def alike (σ : Store) (inner : Value → Value → Bool) : Value → Value → Bool
  | .array i, .array j => i = j || equalLists inner (σ.array i).toList (σ.array j).toList
  | .str s, .str t => s.payload == t.payload
  | .hash i, .hash j => σ.equalDicts (σ.dict i) (σ.dict j)
  | .bool p, .bool q => p.value == q.value
  | .nil _, .nil _ => true
  | .tuple xs _, .tuple ys _ => σ.equalItems inner xs ys
  | .range r, .range s => r = s
  | a, b => a.identical b

/-- What `==` says of values that are not NULL. -/
theorem equalWith?_of_valid (ha : a.isValid = true) (hb : b.isValid = true) :
    σ.equalWith? inner a b =
      match a.number?, b.number? with
      | some x, some y => some (equalNumbers a b x y)
      | some _, none => if b.isString then none else some false
      | none, some _ => if a.isString then none else some false
      | none, none => some (σ.alike inner a b) := by
  rw [equalWith?.eq_def]
  dsimp only
  rw [if_neg (by rw [ha, hb]; decide)]
  split
  case h_1 m n =>
    obtain ⟨p, valid⟩ := m
    obtain ⟨q, valid'⟩ := n
    obtain rfl : valid = true := ha
    obtain rfl : valid' = true := hb
    rfl
  case h_3 i hnot =>
    cases hy : b.number? with
    | some y => rfl
    | none =>
      cases b with
      | array j => exact absurd rfl (hnot j)
      | _ => rfl
  case h_4 j hnot =>
    cases hx : a.number? with
    | some x => rfl
    | none =>
      cases a with
      | array i => exact absurd rfl (hnot i)
      | _ => rfl
  case h_11 _ _ _ _ hints harrays hstrings hhashes hbools hnils htuples hranges =>
    cases hx : a.number? with
    | some x =>
      cases hy : b.number? with
      | none => rfl
      | some y =>
        have hnumbers : equalNumbers a b x y = (x == y) := by
          unfold equalNumbers
          split
          · next hm hn =>
            cases a with
            | int m =>
              cases b with
              | int n => exact (hints m n rfl rfl).elim
              | _ => cases hn
            | _ => cases hm
          · rfl
        exact congrArg some hnumbers.symm
    | none =>
      cases hy : b.number? with
      | some y => rfl
      | none =>
        have halike : σ.alike inner a b = a.identical b := by
          unfold alike
          split
          · exact (harrays _ _ rfl rfl).elim
          · exact (hstrings _ _ rfl rfl).elim
          · exact (hhashes _ _ rfl rfl).elim
          · exact (hbools _ _ rfl rfl).elim
          · exact (hnils _ _ rfl rfl).elim
          · exact (htuples _ _ _ _ rfl rfl).elim
          · exact (hranges _ _ rfl rfl).elim
          · rfl
        exact congrArg some halike.symm
  all_goals rfl

/-! ## Both orders -/

theorem equalNumbers_comm (a b : Value) (x y : Double) :
    equalNumbers a b x y = equalNumbers b a y x := by
  unfold equalNumbers
  cases a.int? <;> cases b.int? <;> first | exact Bool.beq_comm | exact Double.beq_comm x y

theorem forall₂_swap {r s : Value → Value → Prop} (h : ∀ x ∈ xs, ∀ y, r x y ↔ s y x) :
    List.Forall₂ r xs ys ↔ List.Forall₂ s ys xs := by
  induction xs generalizing ys with
  | nil => cases ys <;> simp
  | cons x xs ih =>
    cases ys with
    | nil => simp
    | cons y ys =>
      rw [List.forall₂_cons, List.forall₂_cons, h x List.mem_cons_self,
        ih fun x hx => h x (List.mem_cons_of_mem _ hx)]

theorem alike_swap (hσ : σ.Consistent) (hinner : ∀ a b, inner a b = inner' b a)
    (hitems : ∀ xs m, a = .tuple xs m → ∀ x ∈ xs, ∀ y,
      σ.equalWith? inner x y = σ.equalWith? inner' y x) :
    σ.alike inner a b = σ.alike inner' b a := by
  cases a with
  | array i =>
    cases b with
    | array j =>
      have hids : decide (i = j) = decide (j = i) := decide_eq_decide.mpr eq_comm
      have hlists : equalLists inner (σ.array i).toList (σ.array j).toList =
          equalLists inner' (σ.array j).toList (σ.array i).toList := by
        rw [Bool.eq_iff_iff, equalLists_iff, equalLists_iff]
        exact forall₂_swap fun x _ y => by rw [hinner]
      show (decide (i = j) || _) = (decide (j = i) || _)
      rw [hids, hlists]
    | _ => rfl
  | str s =>
    cases b with
    | str t => exact Bool.beq_comm
    | _ => rfl
  | hash i =>
    cases b with
    | hash j => exact equalDicts_comm (hσ i) (hσ j)
    | _ => rfl
  | bool p =>
    cases b with
    | bool q => exact Bool.beq_comm
    | _ => rfl
  | tuple xs m =>
    cases b with
    | tuple ys n =>
      show σ.equalItems inner xs ys = σ.equalItems inner' ys xs
      rw [Bool.eq_iff_iff, equalItems_iff, equalItems_iff]
      exact forall₂_swap fun x hx y => by rw [hitems xs m rfl x hx]
    | _ => rfl
  | range r =>
    cases b with
    | range s => exact decide_eq_decide.mpr eq_comm
    | _ => rfl
  | object o =>
    cases b with
    | object o' => exact ObjectRef.same_comm o o'
    | _ => rfl
  | _ => cases b <;> first | rfl | exact decide_eq_decide.mpr eq_comm

theorem equalWith?_swap (hσ : σ.Consistent) (hinner : ∀ a b, inner a b = inner' b a) (a b : Value) :
    σ.equalWith? inner a b = σ.equalWith? inner' b a := by
  -- On how deeply tuples are nested; what lies behind references is left to `inner`.
  induction a using Value.tuple_induction generalizing b with
  | step a ih =>
    by_cases hvalid : (!a.isValid || !b.isValid) = true
    · have hvalid' := hvalid
      rw [Bool.or_comm] at hvalid'
      rw [equalWith?_of_not_valid hvalid, equalWith?_of_not_valid hvalid', equalInvalid_comm]
    · rw [Bool.not_eq_true, Bool.or_eq_false_iff, Bool.not_eq_false', Bool.not_eq_false'] at hvalid
      rw [equalWith?_of_valid hvalid.1 hvalid.2, equalWith?_of_valid hvalid.2 hvalid.1]
      cases a.number? with
      | some x =>
        cases b.number? with
        | some y => exact congrArg some (equalNumbers_comm a b x y)
        | none => rfl
      | none =>
        cases b.number? with
        | some y => rfl
        | none => exact congrArg some (alike_swap hσ hinner ih)

theorem equalWithin?_comm (hσ : σ.Consistent) (fuel : Nat) (a b : Value) :
    σ.equalWithin? fuel a b = σ.equalWithin? fuel b a := by
  induction fuel generalizing a b with
  | zero => exact equalWith?_swap hσ (fun _ _ => rfl) a b
  | succ fuel ih => exact equalWith?_swap hσ (fun x y => by rw [ih]) a b

theorem equal?_comm (hσ : σ.Consistent) (a b : Value) : σ.equal? a b = σ.equal? b a :=
  equalWithin?_comm hσ _ a b

theorem equal_comm (hσ : σ.Consistent) (a b : Value) : σ.equal a b = σ.equal b a := by
  unfold equal
  rw [equal?_comm hσ]

/-! ## Order -/

/-- The order is decided by what values hold. -/
theorem compare?_eq_held (a b : Value) :
    compare? a b =
      match a.int?, b.int? with
      | some x, some y => some (compare x y)
      | _, _ =>
        match a.number?, b.number? with
        | some x, some y => x.compare? y
        | _, _ =>
          match a.string?, b.string? with
          | some s, some t => some (compare s t)
          | _, _ => none := by
  unfold compare?
  simp only [← Double.compare?_eq_ite]
  split
  · next m n =>
    simp only [Value.int?, Value.number?, Value.string?]
    cases m.get? with
    | none => rfl
    | some x =>
      cases n.get? with
      | none => rfl
      | some y => rfl
  · next hint =>
    have hnone : a.int? = none ∨ b.int? = none := by
      cases a with
      | int m =>
        cases b with
        | int n => exact absurd rfl (hint m n rfl)
        | _ => exact .inr rfl
      | _ => exact .inl rfl
    rcases hnone with ha | hb
    · rewrite [ha]
      cases b.int? with
      | none => rfl
      | some y => rfl
    · rewrite [hb]
      cases a.int? with
      | none => rfl
      | some x => rfl

end Store
end TreeWalk
