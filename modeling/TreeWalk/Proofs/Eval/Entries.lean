/-
What goes through the entries of a consistent hash.

Merging, filtering and making a literal all walk through the order of a hash, and
find each entry again by the key of the value it was given for.  In a consistent
hash each of them meets every entry, and fails on none of them.
-/
import TreeWalk.Proofs.Eval.Evaluator
import TreeWalk.Proofs.Eval.Node
import TreeWalk.Proofs.Store.Closed

namespace TreeWalk

open Eval

/-! ## Merging -/

/-- `+` answers a hash with what the right one holds, or else the left. -/
theorem Operator.binary_add_hashes {σ : Store} (hσ : σ.Consistent) (i j : HashId) (pos : Position) :
    ∃ id τ, Operator.binary .add (.hash i) (.hash j) pos σ = .ok (.hash id, τ) ∧
      ∀ key, ((τ.dict id).get? key).map (·.value) =
        (((σ.dict j).get? key).or ((σ.dict i).get? key)).map (·.value) := by
  refine ⟨⟨σ.hashes.size⟩, (σ.newDict ((σ.dict i).merge (σ.dict j))).2, rfl, fun key => ?_⟩
  rw [Store.dict_newDict, (hσ j).value_merge]

/-! ## Filtering -/

namespace Visit

variable {ev : Evaluator} {f : Value} {entries : List Entry}

/-- Keeps an entry if a function answers something true for it. -/
def choose (ev : Evaluator) (f : Value) (kept : List Entry) (e : Entry) : Eval (List Entry) := do
  let v ← ev.callBack f [e.key, e.value]
  if ← read (·.truthy v) then return kept ++ [e] else return kept

/-- The entries for which a function answers something true. -/
def chosen (ev : Evaluator) (f : Value) (entries : List Entry) : Eval (List Entry) :=
  foldList (choose ev f) entries []

theorem keepEntries_step {pos : Position} {e : Entry} {key : Key} {kept : List Entry}
    (he : e.key.key? = some key) :
    (do
      let v ← ev.callBack f [e.key, e.value]
      if ← read (·.truthy v) then
        let hash ← lift (Atomic.keyOf e.key pos)
        return (kept.foldl Dict.file .empty).insert hash e.key e.value
      else return kept.foldl Dict.file .empty) =
      (do
        let kept ← choose ev f kept e
        return kept.foldl Dict.file .empty) := by
  have hkey : lift (Atomic.keyOf e.key pos) = (pure key : Eval Key) := by
    unfold Atomic.keyOf
    rw [he]
    rfl
  rw [hkey]
  unfold choose
  simp only [bind_assoc, pure_bind]
  refine bind_congr fun v => bind_congr fun b => ?_
  cases b with
  | false => rfl
  | true =>
    simp only [if_true, pure_bind, List.foldl_append, List.foldl_cons, List.foldl_nil,
      Dict.file_of_key? he]

theorem keepEntries_eq_of_kept {pos : Position} (kept : List Entry)
    (h : ∀ e ∈ entries, ∃ key, e.key.key? = some key) :
    foldList (fun d e => do
      let v ← ev.callBack f [e.key, e.value]
      if ← read (·.truthy v) then
        let hash ← lift (Atomic.keyOf e.key pos)
        return d.insert hash e.key e.value
      else return d) entries (kept.foldl Dict.file .empty) =
      (do
        let kept ← foldList (choose ev f) entries kept
        return kept.foldl Dict.file .empty) := by
  induction entries generalizing kept with
  | nil => rfl
  | cons e rest ih =>
    obtain ⟨key, he⟩ := h e List.mem_cons_self
    have hrest : ∀ e ∈ rest, ∃ key, e.key.key? = some key :=
      fun e he => h e (List.mem_cons_of_mem _ he)
    rw [foldList_cons, foldList_cons, keepEntries_step he, bind_assoc, bind_assoc]
    refine bind_congr fun kept => ?_
    rw [pure_bind]
    exact ih kept hrest

/-- Filing the entries that are kept fails for none of them. -/
theorem keepEntries_eq {pos : Position} (h : ∀ e ∈ entries, ∃ key, e.key.key? = some key) :
    keepEntries ev f entries pos =
      (do
        let kept ← chosen ev f entries
        return kept.foldl Dict.file .empty) :=
  keepEntries_eq_of_kept [] h

theorem ends_chosen_from {kept chosen : List Entry} {g g' : Fiber} {σ τ : Store}
    (h : (foldList (choose ev f) entries kept g σ).Ends (.ok chosen) g' τ) :
    ∃ more, chosen = kept ++ more ∧ more.Sublist entries := by
  induction entries generalizing kept g σ with
  | nil =>
    cases h with
    | done => exact ⟨[], (List.append_nil _).symm, .slnil⟩
  | cons e rest ih =>
    rw [foldList_cons] at h
    obtain ⟨_, hno, _⟩ | ⟨kept', g₁, σ₁, hstep, hrest⟩ := ends_bind h
    · cases hno
    obtain ⟨more, rfl, hmore⟩ := ih hrest
    obtain ⟨_, hno, _⟩ | ⟨v, g₂, σ₂, _, htest⟩ := ends_bind hstep
    · cases hno
    have htest' : (if σ₂.truthy v = true then (pure (kept ++ [e]) : Eval _) else pure kept) g₂ σ₂ |>.Ends
        (.ok kept') g₁ σ₁ := htest
    split at htest'
    · cases htest' with
      | done => exact ⟨e :: more, by rw [List.append_assoc]; rfl, hmore.cons_cons e⟩
    · cases htest' with
      | done => exact ⟨more, rfl, hmore.cons e⟩

/-- What is chosen comes from the entries, in their order. -/
theorem sublist_of_ends_chosen {kept : List Entry} {g g' : Fiber} {σ τ : Store}
    (h : (chosen ev f entries g σ).Ends (.ok kept) g' τ) : kept.Sublist entries := by
  obtain ⟨more, rfl, hmore⟩ := ends_chosen_from h
  exact hmore

end Visit

/-! ## Literals -/

theorem mapM_eq_some_iff {α β : Type} {f : α → Option β} {xs : List α} {ys : List β} :
    xs.mapM f = some ys ↔ List.Forall₂ (fun x y => f x = some y) xs ys := by
  induction xs generalizing ys with
  | nil => simp [eq_comm]
  | cons x rest ih =>
    simp only [List.mapM_cons, Option.bind_eq_bind, Option.bind_eq_some_iff, ih,
      List.forall₂_cons_left_iff]
    constructor
    · rintro ⟨y, hy, ys', hrest, hys⟩
      exact ⟨y, ys', hy, hrest, (Option.some.inj hys).symm⟩
    · rintro ⟨y, ys', hy, hrest, rfl⟩
      exact ⟨y, hy, ys', hrest, rfl⟩

theorem mapM_eq_none_iff {α β : Type} {f : α → Option β} {xs : List α} :
    xs.mapM f = none ↔ ∃ x ∈ xs, f x = none := by
  induction xs with
  | nil => simp
  | cons x rest ih =>
    rw [List.mapM_cons, List.exists_mem_cons_iff, ← ih]
    cases f x with
    | none => simp
    | some y =>
      cases rest.mapM f with
      | none => simp
      | some ys => simp

namespace Eval

variable {α β : Type} {Φ : Store → α → Prop} {Ψ : Store → β → Prop}

/-- The computation ends with an answer of which `Φ` holds, unless it is nested too
deeply. -/
def Gives (Φ : Store → α → Prop) (x : Eval α) : Prop :=
  ∀ f g σ τ r, (x f σ).Ends r g τ → r = .error .exhausted ∨ ∃ a, r = .ok a ∧ Φ τ a

namespace Gives

theorem pure {a : α} (h : ∀ σ, Φ σ a) : Gives Φ (pure a) := by
  intro f g σ τ r hend
  cases hend with
  | done => exact .inr ⟨a, rfl, h σ⟩

theorem change {c : Store → α × Store} (h : ∀ σ, Φ (c σ).2 (c σ).1) : Gives Φ (Eval.change c) := by
  intro f g σ τ r hend
  have hend' : (Step.done (.ok (c σ).1) f (c σ).2).Ends r g τ := hend
  cases hend' with
  | done => exact .inr ⟨_, rfl, h σ⟩

theorem bind {x : Eval α} {k : α → Eval β} (hx : Gives Φ x) (hk : ∀ σ a, Φ σ a → Gives Ψ (k a)) :
    Gives Ψ (x >>= k) := by
  intro f g σ τ r hend
  obtain ⟨e, rfl, hexit⟩ | ⟨a, f', σ', ha, hrest⟩ := ends_bind hend
  · rcases hx f g σ τ _ hexit with he | ⟨_, hno, _⟩
    · cases he
      exact .inl rfl
    · cases hno
  · rcases hx f f' σ σ' _ ha with hno | ⟨a', ha', hΦ⟩
    · cases hno
    · obtain rfl := Except.ok.inj ha'
      exact hk σ' a hΦ f' g σ' τ r hrest

theorem position {k : Position → Eval β} (hk : ∀ pos, Gives Ψ (k pos)) :
    Gives Ψ (Eval.position >>= k) := fun f g σ τ r hend => hk f.pos f g σ τ r hend

theorem enter {pos : Position} {k : Position → Eval β} (hk : ∀ pos, Gives Ψ (k pos)) :
    Gives Ψ (Eval.enter pos >>= k) :=
  fun f g σ τ r hend => hk (pos.orElse f.pos) { f with pos := pos.orElse f.pos } g σ τ r hend

theorem foldList {step : β → α → Eval β} {items : List α} {b : β}
    (h : ∀ b, ∀ a ∈ items, Gives (fun _ _ => True) (step b a)) :
    Gives (fun _ _ => True) (foldList step items b) := by
  induction items generalizing b with
  | nil => exact .pure fun _ => trivial
  | cons a rest ih =>
    rw [foldList_cons]
    exact (h b a List.mem_cons_self).bind fun _ b' _ =>
      ih fun b a ha => h b a (List.mem_cons_of_mem _ ha)

theorem mapList {g : α → Eval β} {items : List α} (h : ∀ a ∈ items, ∃ Ψ, Gives Ψ (g a)) :
    Gives (fun _ _ => True) (mapList g items) := by
  refine .bind (.foldList fun results a ha => ?_) fun _ _ _ => .pure fun _ => trivial
  obtain ⟨Ψ, hg⟩ := h a ha
  exact hg.bind fun _ _ _ => .pure fun _ => trivial

end Gives
end Eval

namespace Store

variable {σ : Store} {inner : Value → Option Expr}

/-- The literals of the parts of an entry. -/
def entryLiteral? (inner : Value → Option Expr) (e : Entry) : Option (Expr × Expr) := do
  return (← inner e.key, ← inner e.value)

theorem entryLiteral?_eq_some_iff {e : Entry} {pair : Expr × Expr} :
    entryLiteral? inner e = some pair ↔ inner e.key = some pair.1 ∧ inner e.value = some pair.2 := by
  obtain ⟨k, v⟩ := pair
  unfold entryLiteral?
  cases inner e.key with
  | none => simp
  | some k' =>
    cases inner e.value with
    | none => simp
    | some v' => simp

theorem entryLiteral?_eq_none_iff {e : Entry} :
    entryLiteral? inner e = none ↔ inner e.key = none ∨ inner e.value = none := by
  unfold entryLiteral?
  cases inner e.key with
  | none => simp
  | some k =>
    cases inner e.value with
    | none => simp
    | some v => simp

/-- A hash has a literal unless something that it holds has none. -/
theorem literalForm?_hash_eq_none_iff (hσ : σ.Consistent) {id : HashId} :
    σ.literalForm? inner (.hash id) = none ↔
      ∃ key e, (σ.dict id).get? key = some e ∧ (inner e.key = none ∨ inner e.value = none) := by
  change ((σ.dict id).toList.mapM (entryLiteral? inner)).map Form.hash = none ↔ _
  rw [Option.map_eq_none_iff, mapM_eq_none_iff]
  constructor
  · rintro ⟨e, hmem, hnone⟩
    obtain ⟨key, he⟩ := (hσ id).mem_toList_iff.mp hmem
    exact ⟨key, e, he, entryLiteral?_eq_none_iff.mp hnone⟩
  · rintro ⟨key, e, he, hnone⟩
    exact ⟨e, (hσ id).mem_toList_iff.mpr ⟨key, he⟩, entryLiteral?_eq_none_iff.mpr hnone⟩

/-- What the literal of `v` evaluates to has the key of `v`, and for a hash it is a
hash with the same keys in the same order. -/
structure Restores (σ : Store) (v : Value) (τ : Store) (w : Value) : Prop where
  key?_eq : w.key? = v.key?
  hash : ∀ id, v = .hash id → ∃ new, w = .hash new ∧ (τ.dict new).order = (σ.dict id).order

variable {ev : Evaluator} (hread : ∀ v e, inner v = some e → Gives (σ.Restores v) (ev.expr e))
include hread

/-- One entry of a literal is filed under the key of the entry it was made from. -/
theorem gives_hashEntry {e : Entry} {pair : Expr × Expr} {key : Key}
    (hpair : entryLiteral? inner e = some pair) (hkey : e.key.key? = some key) {d : Dict} :
    Gives (fun _ d' => ∃ k v, k.key? = some key ∧ d' = d.insert key k v)
      (Node.hashEntry ev d pair) := by
  obtain ⟨hkeyExpr, hvalueExpr⟩ := entryLiteral?_eq_some_iff.mp hpair
  refine (hread _ _ hkeyExpr).bind fun _ k hk => .position fun pos => ?_
  have hkey' : k.key? = some key := hk.key?_eq.trans hkey
  have hkeyOf : lift (Atomic.keyOf k pos) = (pure key : Eval Key) := by
    unfold Atomic.keyOf
    rw [hkey']
    rfl
  rw [hkeyOf, pure_bind]
  exact (hread _ _ hvalueExpr).bind fun _ v _ => .pure fun _ => ⟨k, v, hkey', rfl⟩

/-- The entries of a literal are filed one behind the other, under the keys of the
entries that they were made from. -/
theorem gives_hashEntries {stored : List Entry} {pairs : List (Expr × Expr)} {keys : List Key}
    (hpairs : List.Forall₂ (fun e pair => entryLiteral? inner e = some pair) stored pairs)
    (hkeys : stored.map (fun e => e.key.key?) = keys.map some) {d : Dict} (hd : d.Consistent)
    (hnew : (d.order ++ keys).Nodup) :
    Gives (fun _ d' => d'.order = d.order ++ keys) (foldList (Node.hashEntry ev) pairs d) := by
  induction hpairs generalizing keys d with
  | nil =>
    obtain rfl : keys = [] := by simpa using hkeys.symm
    exact .pure fun _ => (List.append_nil _).symm
  | @cons e pair stored pairs hpair _ ih =>
    obtain _ | ⟨key, keys⟩ := keys
    · cases hkeys
    obtain ⟨hkey, hkeys⟩ := List.cons.inj hkeys
    rw [foldList_cons]
    refine (gives_hashEntry hread hpair hkey).bind fun _ d' hd' => ?_
    obtain ⟨k, v, hk, rfl⟩ := hd'
    have hout : ¬ d.contains key = true := by
      rw [← hd.mem_order]
      exact fun hin => List.disjoint_of_nodup_append hnew hin List.mem_cons_self
    have happend : (d.insert key k v).order ++ keys = d.order ++ key :: keys := by
      rw [Dict.order_insert, if_neg hout, List.append_assoc, List.singleton_append]
    rw [← happend] at hnew ⊢
    exact ih hkeys (hd.insert hk) hnew

theorem gives_hashLiteral (hσ : σ.Consistent) {id : HashId} {pairs : List (Expr × Expr)}
    (hpairs : List.Forall₂ (fun e pair => entryLiteral? inner e = some pair)
      (σ.dict id).toList pairs) :
    Gives (σ.Restores (.hash id)) (Node.hashLiteral ev pairs) := by
  have entries : Gives (fun _ d => d.order = (σ.dict id).order)
      (foldList (Node.hashEntry ev) pairs .empty) :=
    gives_hashEntries hread hpairs (hσ id).map_key?_toList .empty (hσ id).nodup
  refine entries.bind fun _ d hd => .change fun τ => ⟨rfl, fun id' hid => ⟨_, rfl, ?_⟩⟩
  obtain rfl := Value.hash.inj hid
  rw [dict_newDict]
  exact hd

/-- The literal of a value restores it if the literals of what it holds do. -/
theorem gives_literalForm (hσ : σ.Consistent) {fuel : Nat} {v : Value} {form : Form}
    {pos : Position} (h : σ.literalForm? inner v = some form) :
    Gives (σ.Restores v) (Node.expr ev fuel ⟨pos, form⟩) := by
  unfold literalForm? at h
  refine .enter fun pos => ?_
  split at h
  case h_1 n =>
    obtain ⟨m, hm, rfl⟩ := Option.map_eq_some_iff.mp h
    refine .pure fun τ => ⟨?_, fun id h => nomatch h⟩
    simp [Value.ofInt, Value.key?, hm]
  case h_2 x =>
    obtain ⟨m, hm, rfl⟩ := Option.map_eq_some_iff.mp h
    refine .pure fun τ => ⟨?_, fun id h => nomatch h⟩
    simp [Value.ofFloat, Value.key?, hm]
  case h_3 s =>
    obtain ⟨m, hm, rfl⟩ := Option.map_eq_some_iff.mp h
    refine .pure fun τ => ⟨?_, fun id h => nomatch h⟩
    simp [Value.ofString, Value.key?, hm]
  case h_4 b =>
    split at h
    · next hvalid =>
      obtain rfl := Option.some.inj h
      refine .pure fun τ => ⟨?_, fun id h => nomatch h⟩
      simp [Value.ofBool, Value.key?, hvalid]
    · cases h
  case h_5 message =>
    obtain rfl := Option.some.inj h
    exact .pure fun τ => ⟨rfl, fun id h => nomatch h⟩
  case h_6 id =>
    obtain ⟨items, hitems, rfl⟩ := Option.map_eq_some_iff.mp h
    have hvalues : Gives (fun _ _ => True) (ev.exprs items) := by
      refine .mapList fun e he => ?_
      obtain ⟨v, _, hv⟩ := exists_of_mem_mapM hitems he
      exact ⟨_, hread v e hv⟩
    exact hvalues.bind fun _ ws _ => .change fun τ => ⟨rfl, fun id h => nomatch h⟩
  case h_7 id =>
    obtain ⟨pairs, hpairs, rfl⟩ := Option.map_eq_some_iff.mp h
    exact gives_hashLiteral hread hσ (mapM_eq_some_iff.mp hpairs)
  case h_8 => cases h

omit hread in
/-- The literal of a value evaluates to a value like it. -/
theorem gives_literal (hσ : σ.Consistent) (fuel : Nat) {pos : Position} {n : Nat} {v : Value}
    {e : Expr} (h : σ.literalWithin? pos n v = some e) :
    Gives (σ.Restores v) ((evaluator fuel).expr e) := by
  induction fuel generalizing n v e with
  | zero =>
    intro f g τ τ' r hend
    cases hend with
    | done => exact .inl rfl
  | succ fuel ih =>
    cases n with
    | zero =>
      obtain ⟨form, hform, rfl⟩ := Option.map_eq_some_iff.mp h
      rw [evaluator_expr]
      exact gives_literalForm (fun _ _ hno => absurd hno (Option.some_ne_none _).symm) hσ hform
    | succ n =>
      obtain ⟨form, hform, rfl⟩ := Option.map_eq_some_iff.mp h
      rw [evaluator_expr]
      exact gives_literalForm (fun _ _ hinner => ih hinner) hσ hform

end Store
end TreeWalk
