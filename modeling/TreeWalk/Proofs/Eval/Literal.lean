/-
Values written out and evaluated again.

A pipe writes the value on its left out as a literal and evaluates that as the first
argument of the call on its right.  A value has a literal unless there is something in it
that has none, and what its literal evaluates to is a copy: it is the same value, made of
arrays and hashes that were not there before.  Only messages are lost, for which literals
have no place.
-/
import Mathlib.Data.List.Forall2
import TreeWalk.Proofs.Eval.Entries
import TreeWalk.Proofs.Store.Nesting
import TreeWalk.Proofs.Syntax.Placement

namespace TreeWalk

open Eval

namespace Value

/-- A value of a kind that has literals, and not NULL. -/
def IsPlain : Value → Prop
  | int n => n.valid = true
  | float x => x.valid = true
  | str s => s.valid = true
  | bool b => b.valid = true
  | nil _ | array _ | hash _ => True
  | _ => False

end Value

theorem Nullable.get?_eq_none_iff {α : Type} {n : Nullable α} : n.get? = none ↔ ¬ n.valid = true := by
  unfold get?
  split <;> simp_all

namespace Store

variable {σ base τ τ' : Store} {v w : Value} {pos : Position} {inner : Value → Option Expr}

/-! ## Which values have a literal -/

theorem literalForm?_eq_none_iff :
    σ.literalForm? inner v = none ↔ ¬ v.IsPlain ∨ ∃ w, σ.Holds v w ∧ inner w = none := by
  cases v with
  | int n => simp [literalForm?, Value.IsPlain, Holds, held, Nullable.get?_eq_none_iff]
  | float x => simp [literalForm?, Value.IsPlain, Holds, held, Nullable.get?_eq_none_iff]
  | str s => simp [literalForm?, Value.IsPlain, Holds, held, Nullable.get?_eq_none_iff]
  | bool b => simp [literalForm?, Value.IsPlain, Holds, held]
  | nil message => simp [literalForm?, Value.IsPlain, Holds, held]
  | array id =>
    simp only [literalForm?, Option.map_eq_none_iff, mapM_eq_none_iff, Value.IsPlain, not_true, false_or]
    rfl
  | hash id =>
    change ((σ.dict id).toList.mapM (entryLiteral? inner)).map Form.hash = none ↔ _
    simp only [Option.map_eq_none_iff, mapM_eq_none_iff, entryLiteral?_eq_none_iff, Value.IsPlain,
      not_true, false_or, Holds, held, List.mem_flatMap]
    constructor
    · rintro ⟨e, he, h | h⟩
      · exact ⟨e.key, ⟨e, he, by simp⟩, h⟩
      · exact ⟨e.value, ⟨e, he, by simp⟩, h⟩
    · rintro ⟨w, ⟨e, he, hw⟩, h⟩
      rcases List.mem_cons.mp hw with rfl | hw
      · exact ⟨e, he, .inl h⟩
      · exact ⟨e, he, .inr (List.mem_singleton.mp hw ▸ h)⟩
  | _ => simp [literalForm?, Value.IsPlain]

/-- A value has no literal just if there is something in it that is not plain. -/
theorem literalWithin?_eq_none_iff {n : Nat} (h : σ.Nested n v) : σ.literalWithin? pos n v = none ↔
    ∃ w, Relation.ReflTransGen σ.Holds v w ∧ ¬ w.IsPlain := by
  induction n generalizing v with
  | zero =>
    rw [literalWithin?, Option.map_eq_none_iff, literalForm?_eq_none_iff]
    constructor
    · rintro (hv | ⟨w, hw, _⟩)
      · exact ⟨v, .refl, hv⟩
      · exact absurd hw (h w)
    · rintro ⟨w, hway, hw⟩
      rcases Relation.ReflTransGen.cases_head hway with rfl | ⟨u, hu, _⟩
      · exact .inl hw
      · exact absurd hu (h u)
  | succ n ih =>
    rw [literalWithin?, Option.map_eq_none_iff, literalForm?_eq_none_iff]
    constructor
    · rintro (hv | ⟨u, hu, hnone⟩)
      · exact ⟨v, .refl, hv⟩
      · obtain ⟨w, hway, hw⟩ := (ih (h u hu)).mp hnone
        exact ⟨w, .head hu hway, hw⟩
    · rintro ⟨w, hway, hw⟩
      rcases Relation.ReflTransGen.cases_head hway with rfl | ⟨u, hu, hrest⟩
      · exact .inl hw
      · exact .inr ⟨u, hu, (ih (h u hu)).mpr ⟨w, hrest, hw⟩⟩

/-! ## Copies -/

/-- A store to which only arrays and hashes have been added. -/
def Adds (σ τ : Store) : Prop := ∃ arrays hashes,
  τ = { σ with arrays := σ.arrays ++ arrays, hashes := σ.hashes ++ hashes }

namespace Adds

theorem refl (σ : Store) : σ.Adds σ := ⟨#[], #[], by simp⟩

theorem trans {υ : Store} (h : σ.Adds τ) (h' : τ.Adds υ) : σ.Adds υ := by
  obtain ⟨arrays, hashes, rfl⟩ := h
  obtain ⟨arrays', hashes', rfl⟩ := h'
  exact ⟨arrays ++ arrays', hashes ++ hashes', by simp⟩

theorem newArray (items : Array Value) : σ.Adds (σ.newArray items).2 :=
  ⟨#[items], #[], by simp [Store.newArray]⟩

theorem newDict (d : Dict) : σ.Adds (σ.newDict d).2 := ⟨#[], #[d], by simp [Store.newDict]⟩

theorem size_arrays_le (h : σ.Adds τ) : σ.arrays.size ≤ τ.arrays.size := by
  obtain ⟨arrays, hashes, rfl⟩ := h
  simp

theorem size_hashes_le (h : σ.Adds τ) : σ.hashes.size ≤ τ.hashes.size := by
  obtain ⟨arrays, hashes, rfl⟩ := h
  simp

theorem array_eq (h : σ.Adds τ) {id : ArrayId} (hid : id.index < σ.arrays.size) :
    τ.array id = σ.array id := by
  obtain ⟨arrays, hashes, rfl⟩ := h
  simp [array, Array.getD_eq_getD_getElem?, Array.getElem?_append_left hid]

theorem dict_eq (h : σ.Adds τ) {id : HashId} (hid : id.index < σ.hashes.size) :
    τ.dict id = σ.dict id := by
  obtain ⟨arrays, hashes, rfl⟩ := h
  simp [dict, Array.getD_eq_getD_getElem?, Array.getElem?_append_left hid]

end Adds

/-- A value in the store `τ` that is the same as one in the store `σ`, but for messages, and
is made of arrays and hashes that are not in the store `base`. -/
inductive Copy (σ base τ : Store) : Value → Value → Prop
  | int {n : Nullable Int64} {k : Int64} (h : n.get? = some k) : Copy σ base τ (.int n) (.ofInt k)
  | float {x : Nullable Double} {y : Double} (h : x.get? = some y) :
    Copy σ base τ (.float x) (.ofFloat y)
  | str {s : Nullable String} {t : String} (h : s.get? = some t) : Copy σ base τ (.str s) (.ofString t)
  | bool {b : Truth} (h : b.valid = true) : Copy σ base τ (.bool b) (.ofBool b.value)
  | nil (message : Option String) : Copy σ base τ (.nil message) .nothing
  | array {i j : ArrayId} (hnew : base.arrays.size ≤ j.index) (hin : j.index < τ.arrays.size)
    (hlength : (σ.array i).toList.length = (τ.array j).toList.length)
    (hitems : ∀ {a b}, (a, b) ∈ (σ.array i).toList.zip (τ.array j).toList → Copy σ base τ a b) :
    Copy σ base τ (.array i) (.array j)
  | hash {i j : HashId} (hnew : base.hashes.size ≤ j.index) (hin : j.index < τ.hashes.size)
    (hconsistent : (τ.dict j).Consistent) (horder : (τ.dict j).order = (σ.dict i).order)
    (hlength : (σ.dict i).toList.length = (τ.dict j).toList.length)
    (hkeys : ∀ {a b}, (a, b) ∈ (σ.dict i).toList.zip (τ.dict j).toList → Copy σ base τ a.key b.key)
    (hvalues : ∀ {a b}, (a, b) ∈ (σ.dict i).toList.zip (τ.dict j).toList →
      Copy σ base τ a.value b.value) :
    Copy σ base τ (.hash i) (.hash j)

namespace Copy

/-- A copy stays one when there is more in the store, and is new beside any earlier one. -/
theorem mono {old : Store} (h : Copy σ base τ v w) (hbase : old.Adds base) (hτ : τ.Adds τ') :
    Copy σ old τ' v w := by
  induction h with
  | int h => exact .int h
  | float h => exact .float h
  | str h => exact .str h
  | bool h => exact .bool h
  | nil message => exact .nil message
  | array hnew hin hlength _ ih =>
    rw [← hτ.array_eq hin] at hlength ih
    exact .array (Nat.le_trans hbase.size_arrays_le hnew) (Nat.lt_of_lt_of_le hin hτ.size_arrays_le)
      hlength ih
  | hash hnew hin hconsistent horder hlength _ _ ihkeys ihvalues =>
    rw [← hτ.dict_eq hin] at hconsistent horder hlength ihkeys ihvalues
    exact .hash (Nat.le_trans hbase.size_hashes_le hnew) (Nat.lt_of_lt_of_le hin hτ.size_hashes_le)
      hconsistent horder hlength ihkeys ihvalues

/-- A copy is filed under the same key. -/
theorem key?_eq (h : Copy σ base τ v w) : w.key? = v.key? := by
  cases h with
  | int h => simp [Value.ofInt, Value.key?, h]
  | float h => simp [Value.ofFloat, Value.key?, h]
  | str h => simp [Value.ofString, Value.key?, h]
  | bool h => simp [Value.ofBool, Value.key?, h]
  | nil | array | hash => rfl

end Copy

/-- Copies of the key and of the value of an entry. -/
def CopyEntry (σ base τ : Store) (a b : Entry) : Prop :=
  Copy σ base τ a.key b.key ∧ Copy σ base τ a.value b.value

theorem CopyEntry.later {a b : Entry} (h : CopyEntry σ base τ a b) (hτ : τ.Adds τ') :
    CopyEntry σ base τ' a b := ⟨h.1.mono (.refl base) hτ, h.2.mono (.refl base) hτ⟩

/-! ## Evaluating literals -/

/-- A computation that ends with an answer and only adds to the store, and moves nothing
of a task that is at `pos`. -/
def Builds {α : Type} (pos : Position) (Φ : Store → Store → α → Prop) (x : Eval α) : Prop :=
  ∀ f τ, pos.orElse f.pos = f.pos → ∃ a τ', x f τ = .done (.ok a) f τ' ∧ τ.Adds τ' ∧ Φ τ τ' a

/-- A computation that answers a copy of `v`. -/
def Rebuilds (σ : Store) (pos : Position) (v : Value) (x : Eval Value) : Prop :=
  Builds pos (fun base τ w => Copy σ base τ v w) x

variable {ev : Evaluator}

theorem copies_items {vs : List Value} {es : List Expr}
    (h : List.Forall₂ (fun v e => σ.Rebuilds pos v (ev.expr e)) vs es) {f : Fiber}
    (hf : pos.orElse f.pos = f.pos) (hbase : base.Adds τ) {done results : List Value}
    (hdone : List.Forall₂ (Copy σ base τ) done results.reverse) :
    ∃ results' τ', foldList (fun results e => do return (← ev.expr e) :: results) es results f τ =
      .done (.ok results') f τ' ∧ τ.Adds τ' ∧
      List.Forall₂ (Copy σ base τ') (done ++ vs) results'.reverse := by
  induction h generalizing τ done results with
  | nil => exact ⟨results, τ, rfl, .refl τ, by simpa using hdone⟩
  | @cons v e vs es hv _ ih =>
    obtain ⟨w, τ₁, hrun, hadds, hw⟩ := hv f τ hf
    have hdone' : List.Forall₂ (Copy σ base τ₁) (done ++ [v]) (w :: results).reverse := by
      rw [List.reverse_cons]
      exact List.rel_append (hdone.imp fun _ _ h => h.mono (.refl base) hadds)
        (.cons (hw.mono hbase (.refl τ₁)) .nil)
    obtain ⟨results', τ₂, hrest, hadds', hall⟩ := ih (hbase.trans hadds) hdone'
    refine ⟨results', τ₂, ?_, hadds.trans hadds', by simpa using hall⟩
    rw [foldList_cons, bind_apply, bind_apply, hrun]
    exact hrest

theorem builds_exprs {vs : List Value} {es : List Expr}
    (h : List.Forall₂ (fun v e => σ.Rebuilds pos v (ev.expr e)) vs es) :
    Builds pos (fun base τ ws => List.Forall₂ (Copy σ base τ) vs ws) (ev.exprs es) := by
  intro f τ hf
  have hnil : List.Forall₂ (Copy σ τ τ) [] ([] : List Value).reverse := .nil
  obtain ⟨results, τ', hrun, hadds, hall⟩ := copies_items h hf (.refl τ) hnil
  refine ⟨results.reverse, τ', ?_, hadds, hall⟩
  unfold Evaluator.exprs mapList
  rw [bind_apply, hrun]
  rfl

theorem builds_arrayLiteral {id : ArrayId} {es : List Expr}
    (h : List.Forall₂ (fun v e => σ.Rebuilds pos v (ev.expr e)) (σ.array id).toList es) :
    σ.Rebuilds pos (.array id) (Node.arrayLiteral ev es) := by
  intro f τ hf
  obtain ⟨ws, τ', hrun, hadds, hall⟩ := builds_exprs h f τ hf
  have hnew : τ'.Adds (τ'.newArray ws.toArray).2 := .newArray _
  have harray : (τ'.newArray ws.toArray).2.array ⟨τ'.arrays.size⟩ = ws.toArray := by
    simp [array, newArray]
  have hall' := hall.imp fun _ _ hcopy => hcopy.mono (.refl τ) hnew
  have hcopy : Copy σ τ (τ'.newArray ws.toArray).2 (.array id) (.array ⟨τ'.arrays.size⟩) := by
    refine .array hadds.size_arrays_le (by simp [newArray]) ?_ ?_
    · rw [harray]
      exact hall'.length_eq
    · rw [harray]
      exact List.forall₂_zip hall'
  refine ⟨_, _, ?_, hadds.trans hnew, hcopy⟩
  unfold Node.arrayLiteral
  rw [bind_apply, hrun]
  rfl

theorem builds_hashEntry {e : Entry} {pair : Expr × Expr} {key : Key} (hkey : e.key.key? = some key)
    (hk : σ.Rebuilds pos e.key (ev.expr pair.1)) (hv : σ.Rebuilds pos e.value (ev.expr pair.2))
    (d : Dict) :
    Builds pos (fun base τ d' => ∃ k v, CopyEntry σ base τ e ⟨k, v⟩ ∧ d' = d.insert key k v)
      (Node.hashEntry ev d pair) := by
  intro f τ hf
  obtain ⟨k, τ₁, hrun, hadds, hcopy⟩ := hk f τ hf
  obtain ⟨v, τ₂, hrun', hadds', hcopy'⟩ := hv f τ₁ hf
  refine ⟨_, τ₂, ?_, hadds.trans hadds', k, v,
    ⟨hcopy.mono (.refl τ) hadds', hcopy'.mono hadds (.refl τ₂)⟩, rfl⟩
  have hkeyOf : lift (Atomic.keyOf k f.pos) = (pure key : Eval Key) := by
    unfold Atomic.keyOf
    rw [hcopy.key?_eq, hkey]
    rfl
  unfold Node.hashEntry
  rw [bind_apply, hrun]
  show (lift (Atomic.keyOf k f.pos) >>= _) f τ₁ = _
  rw [hkeyOf, pure_bind, bind_apply, hrun']
  rfl

/-- The entries of a literal are filed as they were, one behind the other. -/
theorem copies_entries {stored : List Entry} {pairs : List (Expr × Expr)} {keys : List Key}
    (h : List.Forall₂ (fun e pair => σ.Rebuilds pos e.key (ev.expr pair.1) ∧
      σ.Rebuilds pos e.value (ev.expr pair.2)) stored pairs)
    (hkeys : stored.map (fun e => e.key.key?) = keys.map some) {f : Fiber}
    (hf : pos.orElse f.pos = f.pos) (hbase : base.Adds τ) {d : Dict} (hd : d.Consistent)
    (hnew : (d.order ++ keys).Nodup) {done : List Entry}
    (hdone : List.Forall₂ (CopyEntry σ base τ) done d.toList) :
    ∃ d' τ', foldList (Node.hashEntry ev) pairs d f τ = .done (.ok d') f τ' ∧ τ.Adds τ' ∧
      d'.Consistent ∧ d'.order = d.order ++ keys ∧
      List.Forall₂ (CopyEntry σ base τ') (done ++ stored) d'.toList := by
  induction h generalizing keys τ d done with
  | nil =>
    obtain rfl : keys = [] := by simpa using hkeys.symm
    exact ⟨d, τ, rfl, .refl τ, hd, by simp, by simpa using hdone⟩
  | @cons e pair stored pairs hpair _ ih =>
    obtain _ | ⟨key, keys⟩ := keys
    · cases hkeys
    obtain ⟨hkey, hkeys⟩ := List.cons.inj hkeys
    obtain ⟨_, τ₁, hrun, hadds, k, v, hentry, rfl⟩ := builds_hashEntry hkey hpair.1 hpair.2 d f τ hf
    have hk : k.key? = some key := hentry.1.key?_eq.trans hkey
    have hout : d.contains key = false := by
      rw [Bool.eq_false_iff, Ne, ← hd.mem_order]
      exact fun hin => List.disjoint_of_nodup_append hnew hin List.mem_cons_self
    have horder : (d.insert key k v).order = d.order ++ [key] := by
      rw [Dict.order_insert, hout]
      rfl
    have hdone' : List.Forall₂ (CopyEntry σ base τ₁) (done ++ [e]) (d.insert key k v).toList := by
      rw [hd.toList_insert_new hout]
      exact List.rel_append (hdone.imp fun _ _ h => h.later hadds)
        (.cons ⟨hentry.1.mono hbase (.refl τ₁), hentry.2.mono hbase (.refl τ₁)⟩ .nil)
    have hnew' : ((d.insert key k v).order ++ keys).Nodup := by simpa [horder] using hnew
    obtain ⟨d', τ₂, hrest, hadds', hd', horder', hall⟩ :=
      ih hkeys (hbase.trans hadds) (hd.insert hk) hnew' hdone'
    refine ⟨d', τ₂, ?_, hadds.trans hadds', hd', by simpa [horder] using horder', by simpa using hall⟩
    rw [foldList_cons, bind_apply, hrun]
    exact hrest

theorem builds_hashLiteral (hσ : σ.Consistent) {id : HashId} {pairs : List (Expr × Expr)}
    (h : List.Forall₂ (fun e pair => σ.Rebuilds pos e.key (ev.expr pair.1) ∧
      σ.Rebuilds pos e.value (ev.expr pair.2)) (σ.dict id).toList pairs) :
    σ.Rebuilds pos (.hash id) (Node.hashLiteral ev pairs) := by
  intro f τ hf
  have hnil : List.Forall₂ (CopyEntry σ τ τ) [] Dict.empty.toList := .nil
  obtain ⟨d, τ', hrun, hadds, hd, horder, hall⟩ :=
    copies_entries h (hσ id).map_key?_toList hf (.refl τ) .empty (hσ id).nodup hnil
  have hnew : τ'.Adds (τ'.newDict d).2 := .newDict d
  have hdict : (τ'.newDict d).2.dict ⟨τ'.hashes.size⟩ = d := dict_newDict d
  have hall' : List.Forall₂ (CopyEntry σ τ (τ'.newDict d).2) (σ.dict id).toList d.toList :=
    hall.imp fun _ _ hcopy => hcopy.later hnew
  have hcopy : Copy σ τ (τ'.newDict d).2 (.hash id) (.hash ⟨τ'.hashes.size⟩) := by
    refine .hash hadds.size_hashes_le (by simp [newDict]) ?_ ?_ ?_ ?_ ?_
    · rwa [hdict]
    · rw [hdict]
      exact horder
    · rw [hdict]
      exact hall'.length_eq
    · rw [hdict]
      exact fun hmem => (List.forall₂_zip hall' hmem).1
    · rw [hdict]
      exact fun hmem => (List.forall₂_zip hall' hmem).2
  refine ⟨_, _, ?_, hadds.trans hnew, hcopy⟩
  unfold Node.hashLiteral
  rw [bind_apply, hrun]
  rfl

/-- An expression that evaluates to a copy of `v` from any state. -/
def Restates (σ : Store) (pos : Position) (v : Value) (x : Eval Value) : Prop :=
  ∀ f τ, ∃ w τ', x f τ = .done (.ok w) { f with pos := pos.orElse f.pos } τ' ∧ τ.Adds τ' ∧
    Copy σ τ τ' v w

theorem Restates.rebuilds {x : Eval Value} (h : σ.Restates pos v x) : σ.Rebuilds pos v x := by
  intro f τ hf
  obtain ⟨w, τ', hrun, hadds, hcopy⟩ := h f τ
  rw [hf] at hrun
  exact ⟨w, τ', hrun, hadds, hcopy⟩

theorem Rebuilds.restates {x : Eval Value} (h : σ.Rebuilds pos v x) (f : Fiber) (τ : Store) :
    ∃ w τ', x { f with pos := pos.orElse f.pos } τ =
      .done (.ok w) { f with pos := pos.orElse f.pos } τ' ∧ τ.Adds τ' ∧ Copy σ τ τ' v w :=
  h _ τ (Position.orElse_orElse pos f.pos)

theorem restates_form (hσ : σ.Consistent) (hread : ∀ v e, inner v = some e → σ.Restates pos v (ev.expr e))
    {fuel : Nat} {form : Form} (h : σ.literalForm? inner v = some form) :
    σ.Restates pos v (Node.expr ev fuel ⟨pos, form⟩) := by
  intro f τ
  unfold literalForm? at h
  split at h
  case h_1 n =>
    obtain ⟨k, hk, rfl⟩ := Option.map_eq_some_iff.mp h
    exact ⟨_, τ, rfl, .refl τ, .int hk⟩
  case h_2 x =>
    obtain ⟨y, hy, rfl⟩ := Option.map_eq_some_iff.mp h
    exact ⟨_, τ, rfl, .refl τ, .float hy⟩
  case h_3 s =>
    obtain ⟨t, ht, rfl⟩ := Option.map_eq_some_iff.mp h
    exact ⟨_, τ, rfl, .refl τ, .str ht⟩
  case h_4 b =>
    split at h
    · next hvalid =>
      obtain rfl := Option.some.inj h
      exact ⟨_, τ, rfl, .refl τ, .bool hvalid⟩
    · cases h
  case h_5 message =>
    obtain rfl := Option.some.inj h
    exact ⟨_, τ, rfl, .refl τ, .nil message⟩
  case h_6 id =>
    obtain ⟨items, hitems, rfl⟩ := Option.map_eq_some_iff.mp h
    have hitems' := (mapM_eq_some_iff.mp hitems).imp fun v e h => (hread v e h).rebuilds
    exact (builds_arrayLiteral hitems').restates f τ
  case h_7 id =>
    obtain ⟨pairs, hpairs, rfl⟩ := Option.map_eq_some_iff.mp h
    have hpairs' := (mapM_eq_some_iff.mp hpairs).imp fun e pair h =>
      have hparts := entryLiteral?_eq_some_iff.mp h
      And.intro (hread _ _ hparts.1).rebuilds (hread _ _ hparts.2).rebuilds
    exact (builds_hashLiteral hσ hpairs').restates f τ
  case h_8 => cases h

theorem restates_literal (hσ : σ.Consistent) {n : Nat} {e : Expr}
    (h : σ.literalWithin? pos n v = some e) {fuel : Nat} (hfuel : n < fuel) :
    σ.Restates pos v ((evaluator fuel).expr e) := by
  induction n generalizing v e fuel with
  | zero =>
    obtain _ | fuel := fuel
    · cases hfuel
    obtain ⟨form, hform, rfl⟩ := Option.map_eq_some_iff.mp h
    rw [evaluator_expr]
    exact restates_form hσ (fun _ _ hno => absurd hno (Option.some_ne_none _).symm) hform
  | succ n ih =>
    obtain _ | fuel := fuel
    · cases hfuel
    obtain ⟨form, hform, rfl⟩ := Option.map_eq_some_iff.mp h
    rw [evaluator_expr]
    exact restates_form hσ (fun _ _ hinner => ih hinner (Nat.lt_of_succ_lt_succ hfuel)) hform

/-- A value that does not contain itself has a literal unless something in it is NULL or of
a kind that has none.  From any state, its literal evaluates to a copy of it, and nothing
changes but the current position. -/
theorem literals_restate_values (hσ : σ.Consistent) (hv : σ.Grounded v) (pos : Position) :
    (σ.literal? pos v = none ↔ ∃ w, Relation.ReflTransGen σ.Holds v w ∧ ¬ w.IsPlain) ∧
    ∀ e, σ.literal? pos v = some e → ∀ fuel, σ.depth < fuel → ∀ f τ, ∃ w τ',
      (evaluator fuel).expr e f τ = .done (.ok w) { f with pos := pos.orElse f.pos } τ' ∧
      τ.Adds τ' ∧ Copy σ τ τ' v w :=
  ⟨literalWithin?_eq_none_iff hv.nested, fun _ he _ hfuel => restates_literal hσ he hfuel⟩

/-- An array of `nil` with a message and a hash of a boolean with a message. -/
def listed : Store where
  arrays := #[#[.nil (some "why"), .hash ⟨0⟩]]
  hashes := #[Dict.empty.insert (.ofString "k") (.ofString "k") (.bool ⟨true, true, some "how"⟩)]

theorem consistent_listed : listed.Consistent := by
  intro id
  match id with
  | ⟨0⟩ => exact Dict.Consistent.empty.insert rfl
  | ⟨i + 1⟩ => exact .empty

theorem holds_listed (h : listed.Holds v w) :
    v = .array ⟨0⟩ ∧ (w = .nil (some "why") ∨ w = .hash ⟨0⟩) ∨
    v = .hash ⟨0⟩ ∧ (w = .ofString "k" ∨ w = .bool ⟨true, true, some "how"⟩) := by
  unfold Holds at h
  match v with
  | .array ⟨0⟩ => exact .inl ⟨rfl, by simpa [held, array, listed] using h⟩
  | .array ⟨i + 1⟩ => cases h
  | .hash ⟨0⟩ =>
    have hlist : (listed.dict ⟨0⟩).toList = [⟨.ofString "k", .bool ⟨true, true, some "how"⟩⟩] :=
      Dict.Consistent.empty.toList_insert_new (Dict.contains_eq_false_iff.mpr Dict.get?_empty)
    rw [held, hlist] at h
    exact .inr ⟨rfl, by simpa using h⟩
  | .hash ⟨i + 1⟩ => cases h

/-- How deep the values of `listed` go. -/
def depthListed : Value → Nat
  | .array _ => 2
  | .hash _ => 1
  | _ => 0

theorem grounded_listed : listed.Grounded (.array ⟨0⟩) := by
  refine grounded_of_rank depthListed (fun v w h => ?_) _
  rcases holds_listed h with ⟨rfl, rfl | rfl⟩ | ⟨rfl, rfl | rfl⟩
  all_goals decide

/-- Both messages are dropped on the way through a literal. -/
theorem literals_restate_values_listed : ∃ e, listed.literal? (.ofLine 3) (.array ⟨0⟩) = some e ∧
    ∀ f τ, ∃ w τ', (evaluator 4).expr e f τ = .done (.ok w) { f with pos := .ofLine 3 } τ' ∧
      τ.Adds τ' ∧ Copy listed τ τ' (.array ⟨0⟩) w := by
  obtain ⟨hnone, hsome⟩ := literals_restate_values consistent_listed grounded_listed (.ofLine 3)
  have hplain : ∀ w, Relation.ReflTransGen listed.Holds (.array ⟨0⟩) w → w.IsPlain := by
    intro w hway
    rcases Relation.ReflTransGen.cases_tail hway with rfl | ⟨u, _, hw⟩
    · trivial
    · rcases holds_listed hw with ⟨_, rfl | rfl⟩ | ⟨_, rfl | rfl⟩
      all_goals trivial
  cases he : listed.literal? (.ofLine 3) (.array ⟨0⟩) with
  | none =>
    obtain ⟨w, hway, hw⟩ := hnone.mp he
    exact absurd (hplain w hway) hw
  | some e => exact ⟨e, rfl, fun f τ => hsome e he 4 (by decide) f τ⟩

end Store
end TreeWalk
