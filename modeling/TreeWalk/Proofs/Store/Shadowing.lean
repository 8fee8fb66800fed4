/-
Scopes inside of scopes.

A name stands for what the nearest scope outwards binds it to.  Scopes share their
parents, so that a new value given through one scope is seen through others: through
those with the same nearest scope that binds the name, and no others.  Binding a name in
a scope hides it from the scopes inside that have met no nearer one.

A scope is made inside of one that exists, so that parents are older than their children
and any scopes without a cycle can be made, in some order.
-/
import Mathlib.Data.Fintype.Sort
import Mathlib.Order.Extension.Linear
import TreeWalk.Proofs.Store.Names
import TreeWalk.Proofs.Store.Place

namespace TreeWalk
namespace Store

variable {σ : Store} {s t u b parent : ScopeId} {n m : String} {v old : Value}

/-- Scopes without cycles: parents are older than their children. -/
structure Forest (σ : Store) : Prop where
  parents : ∀ s parent, (σ.scope s).parent = some parent → parent.index < s.index
  distinct : σ.Distinct

/-- The nearest scope outwards from a scope that binds a name. -/
inductive Nearest (σ : Store) (n : String) : ScopeId → ScopeId → Prop
  | here {s : ScopeId} (h : σ.Binds s n) : Nearest σ n s s
  | outer {s parent b : ScopeId} (h : ¬ σ.Binds s n) (hparent : (σ.scope s).parent = some parent)
      (hb : Nearest σ n parent b) : Nearest σ n s b

namespace Nearest

theorem binds (h : σ.Nearest n s b) : σ.Binds b n := by
  induction h with
  | here h => exact h
  | outer _ _ _ ih => exact ih

theorem iff_of_binds (h : σ.Binds s n) : σ.Nearest n s b ↔ s = b := by
  constructor
  · intro hb
    cases hb with
    | here _ => rfl
    | outer hno _ _ => exact absurd h hno
  · rintro rfl
    exact .here h

theorem iff_of_parent (h : ¬ σ.Binds s n) (hparent : (σ.scope s).parent = some parent) :
    σ.Nearest n s b ↔ σ.Nearest n parent b := by
  constructor
  · intro hb
    cases hb with
    | here hbinds => exact absurd hbinds h
    | outer _ hsome hb => exact Option.some.inj (hparent.symm.trans hsome) ▸ hb
  · exact .outer h hparent

theorem not_of_parent (h : ¬ σ.Binds s n) (hparent : (σ.scope s).parent = none) : ¬ σ.Nearest n s b := by
  intro hb
  cases hb with
  | here hbinds => exact h hbinds
  | outer _ hsome _ => cases hparent.symm.trans hsome

/-- A binding leaves the nearest scope as it is, or takes its place. -/
theorem bind (h : σ.Nearest m t u) :
    (σ.bind s n v).Nearest m t u ∨ m = n ∧ (σ.bind s n v).Nearest n t s := by
  induction h with
  | here h => exact .inl (.here h.bind)
  | @outer t parent u h hparent _ ih =>
    by_cases hnew : (σ.bind s n v).Binds t m
    · rcases hnew.of_bind with hb | ⟨rfl, rfl⟩
      · exact absurd hb h
      · exact .inr ⟨rfl, .here hnew⟩
    · have hparent' : ((σ.bind s n v).scope t).parent = some parent := parent_bind.trans hparent
      rcases ih with ih | ⟨rfl, ih⟩
      · exact .inl (.outer hnew hparent' ih)
      · exact .inr ⟨rfl, .outer hnew hparent' ih⟩

/-- What is nearest after a binding was so before, unless it did not bind the name. -/
theorem of_bind (h : (σ.bind s n v).Nearest m t u) (hu : σ.Binds u m) : σ.Nearest m t u := by
  induction h with
  | here _ => exact .here hu
  | outer h hparent _ ih => exact .outer (fun hb => h hb.bind) (parent_bind ▸ hparent) (ih hu)

end Nearest

namespace Forest

variable (hf : σ.Forest)
include hf

theorem bind : (σ.bind s n v).Forest where
  parents t parent h := hf.parents t parent (parent_bind ▸ h)
  distinct := hf.distinct.bind

/-- The scope found by going outwards is the nearest. -/
theorem binder?_eq_some_iff : σ.binder? s n = some b ↔ σ.Nearest n s b := by
  have found : ∀ fuel s, s.index < fuel →
      ((σ.chainFrom fuel s).find? (fun s => (σ.scope s).bindings.contains n) = some b ↔ σ.Nearest n s b) := by
    intro fuel
    induction fuel with
    | zero => exact fun s hs => absurd hs (Nat.not_lt_zero _)
    | succ fuel ih =>
      intro s hs
      rw [chainFrom, List.find?_cons]
      by_cases hbinds : σ.Binds s n
      · rw [show (σ.scope s).bindings.contains n = true from hbinds, Nearest.iff_of_binds hbinds]
        exact Option.some_inj
      · rw [show (σ.scope s).bindings.contains n = false from Bool.not_eq_true _ ▸ hbinds]
        cases hparent : (σ.scope s).parent with
        | none => exact iff_of_false (by simp) (Nearest.not_of_parent hbinds hparent)
        | some parent =>
          have hlt := hf.parents s parent hparent
          rw [Nearest.iff_of_parent hbinds hparent]
          exact ih parent (by omega)
  exact found _ s (Nat.lt_succ_self _)

theorem get?_of_nearest (h : σ.Nearest n s b) : σ.get? s n = σ.getLocal? b n := by
  rw [get?, hf.binder?_eq_some_iff.mpr h]
  rfl

theorem get?_eq_none (h : ∀ b, ¬ σ.Nearest n s b) : σ.get? s n = none := by
  cases hb : σ.binder? s n with
  | none => rw [get?, hb]; rfl
  | some b => exact absurd (hf.binder?_eq_some_iff.mp hb) (h b)

/-- A binding is seen through the scopes that are nearest to it, and through no others. -/
theorem get?_bind_of_not (h : ¬ (m = n ∧ (σ.bind s n v).Nearest n t s)) :
    (σ.bind s n v).get? t m = σ.get? t m := by
  cases hb : (σ.bind s n v).binder? t m with
  | none =>
    have hfar : ∀ u, ¬ σ.Nearest m t u := by
      intro u hu
      rcases hu.bind with hu | hu
      · cases hb.symm.trans (hf.bind.binder?_eq_some_iff.mpr hu)
      · exact h hu
    rw [hf.get?_eq_none hfar, get?, hb]
    rfl
  | some u =>
    have hu := hf.bind.binder?_eq_some_iff.mp hb
    have hne : ¬ (s = u ∧ n = m) := by
      rintro ⟨rfl, rfl⟩
      exact h ⟨rfl, hu⟩
    have hbinds : σ.Binds u m := by
      rcases hu.binds.of_bind with hbinds | ⟨rfl, rfl⟩
      · exact hbinds
      · exact absurd ⟨rfl, rfl⟩ hne
    rw [hf.bind.get?_of_nearest hu, hf.get?_of_nearest (hu.of_bind hbinds), getLocal?_bind_of_ne hne]

theorem get?_bind_of_nearest (hs : s.index < σ.scopes.size) (h : (σ.bind s n v).Nearest n t s) :
    (σ.bind s n v).get? t n = some v := by
  rw [hf.bind.get?_of_nearest h, getLocal?_bind_self hs]

/-- A new value for a name is seen through the scopes that share the nearest binding. -/
theorem reset?_of_get? (h : σ.get? s n = some old) : ∃ b, σ.Nearest n s b ∧
    σ.reset? s n v = some (old, σ.bind b n v) ∧
    (∀ t, σ.Nearest n t b → (σ.bind b n v).get? t n = some v) ∧
    ∀ t m, ¬ (m = n ∧ σ.Nearest n t b) → (σ.bind b n v).get? t m = σ.get? t m := by
  obtain ⟨b, hb, hold⟩ := Option.bind_eq_some_iff.mp h
  have hnear : σ.Nearest n s b := hf.binder?_eq_some_iff.mp hb
  refine ⟨b, hnear, ?_, fun t ht => ?_, fun t m hm => ?_⟩
  · simp only [reset?, hb, hold, Option.bind_eq_bind, Option.bind_some]
    rfl
  · have ht' : (σ.bind b n v).Nearest n t b := ht.bind.elim id And.right
    exact hf.get?_bind_of_nearest (lt_of_getLocal? hold) ht'
  · refine hf.get?_bind_of_not ?_
    rintro ⟨rfl, ht⟩
    exact hm ⟨rfl, ht.of_bind hnear.binds⟩

end Forest

theorem reset?_of_get?_eq_none (h : σ.get? s n = none) : σ.reset? s n v = none := by
  cases hb : σ.binder? s n with
  | none => simp [reset?, hb]
  | some b =>
    have hlocal : σ.getLocal? b n = none := by
      rw [← h, get?, hb]
      rfl
    simp [reset?, hb, hlocal]

/-! ## Graphs -/

/-- Tables with parent links that never lead back. -/
structure Graph (N : Type) where
  parent : N → Option N
  table : N → Assoc Value
  acyclic : ∀ x, ¬ Relation.TransGen (fun x y => parent x = some y) x x
  distinct : ∀ x, (table x).names.Nodup

namespace Graph

variable {N : Type}

/-- Outer nodes come before inner ones. -/
@[reducible] def order (G : Graph N) : PartialOrder N where
  le x y := Relation.ReflTransGen (fun x y => G.parent x = some y) y x
  le_refl _ := .refl
  le_trans _ _ _ hxy hyz := hyz.trans hxy
  le_antisymm x y hxy hyx := by
    rcases Relation.reflTransGen_iff_eq_or_transGen.mp hxy with rfl | hxy
    · rfl
    · exact absurd (Relation.TransGen.trans_left hxy hyx) (G.acyclic y)

/-- The nodes of a graph can be numbered so that parents come first. -/
theorem exists_numbering (G : Graph N) [Fintype N] :
    ∃ e : N ≃ Fin (Fintype.card N), ∀ x y, G.parent x = some y → e y < e x := by
  let _ := G.order
  let _ : Fintype (LinearExtension N) := inferInstanceAs (Fintype N)
  let number : Fin (Fintype.card N) ≃o LinearExtension N := monoEquivOfFin (LinearExtension N) rfl
  refine ⟨number.symm.toEquiv, fun x y h => ?_⟩
  have hle : toLinearExtension y ≤ toLinearExtension x :=
    toLinearExtension.monotone (show Relation.ReflTransGen _ x y from .single h)
  have hne : y ≠ x := fun heq => G.acyclic x (.single (heq ▸ h))
  exact number.symm.lt_iff_lt.mpr (lt_of_le_of_ne hle hne)

/-- A store with a scope for each node of a graph. -/
def store (G : Graph N) {k : Nat} (e : N ≃ Fin k) : Store where
  scopes := Array.ofFn fun i =>
    { bindings := G.table (e.symm i), parent := (G.parent (e.symm i)).map fun y => ⟨e y⟩, frame := none }

theorem scope_store (G : Graph N) {k : Nat} (e : N ≃ Fin k) (x : N) : (G.store e).scope ⟨e x⟩ =
    { bindings := G.table x, parent := (G.parent x).map fun y => ⟨e y⟩, frame := none } := by
  simp [scope, store, Array.getD_eq_getD_getElem?]

/-- Any tables with acyclic parent links are those of a store. -/
theorem exists_forest (G : Graph N) [Finite N] : ∃ (σ : Store) (f : N → ScopeId), σ.Forest ∧
    Function.Injective f ∧ (∀ s : ScopeId, s.index < σ.scopes.size ↔ ∃ x, f x = s) ∧
    ∀ x, (σ.scope (f x)).parent = (G.parent x).map f ∧ σ.members (f x) = G.table x := by
  obtain ⟨_⟩ := nonempty_fintype N
  obtain ⟨e, he⟩ := G.exists_numbering
  have hsize : (G.store e).scopes.size = Fintype.card N := Array.size_ofFn
  have hnode : ∀ s : ScopeId, s.index < (G.store e).scopes.size ↔ ∃ x, (⟨e x⟩ : ScopeId) = s := by
    refine fun s => ⟨fun hs => ⟨e.symm ⟨s.index, hsize ▸ hs⟩, ?_⟩, ?_⟩
    · rw [Equiv.apply_symm_apply]
    · rintro ⟨x, rfl⟩
      rw [hsize]
      exact (e x).isLt
  have hscope := G.scope_store e
  have hout : ∀ s : ScopeId, (∀ x, (⟨e x⟩ : ScopeId) ≠ s) → (G.store e).scope s = default := fun s hs =>
    scope_of_ge (Nat.le_of_not_lt fun h => (hnode s).mp h |>.elim hs)
  refine ⟨G.store e, fun x => ⟨e x⟩, ⟨fun s parent hparent => ?_, fun s => ?_⟩, ?_, hnode, ?_⟩
  · by_cases hs : ∃ x, (⟨e x⟩ : ScopeId) = s
    · obtain ⟨x, rfl⟩ := hs
      rw [hscope] at hparent
      obtain ⟨y, hy, rfl⟩ := Option.map_eq_some_iff.mp hparent
      exact he x y hy
    · rw [hout s (not_exists.mp hs)] at hparent
      cases hparent
  · by_cases hs : ∃ x, (⟨e x⟩ : ScopeId) = s
    · obtain ⟨x, rfl⟩ := hs
      rw [members, hscope]
      exact G.distinct x
    · rw [members, hout s (not_exists.mp hs)]
      exact List.nodup_nil
  · exact fun x y h => e.injective (Fin.ext (congrArg ScopeId.index h))
  · exact fun x => ⟨congrArg Scope.parent (hscope x), congrArg Scope.bindings (hscope x)⟩

end Graph

/-! ## The laws -/

/-- How scopes shadow each other, for any tables with acyclic links.  A name stands for what
the nearest scope that binds it binds it to.  Giving it a new value answers the old one, and
is seen exactly from where the same scope is the nearest; nothing is done to a name that is
not bound.  Binding it in a scope is seen exactly from where that scope is the nearest
afterwards.  The names listed for a scope are those that stand for something. -/
theorem scopes_shadow {σ : Store} (hf : σ.Forest) (s : ScopeId) (n : String) (v : Value) :
    (∀ t m, (∀ b, σ.Nearest m t b → σ.get? t m = σ.getLocal? b m) ∧
      ((∀ b, ¬ σ.Nearest m t b) → σ.get? t m = none)) ∧
    (∀ old, σ.get? s n = some old → ∃ b τ, σ.Nearest n s b ∧ σ.reset? s n v = some (old, τ) ∧
      τ.Forest ∧ (∀ t, σ.Nearest n t b → τ.get? t n = some v) ∧
      ∀ t m, ¬ (m = n ∧ σ.Nearest n t b) → τ.get? t m = σ.get? t m) ∧
    (σ.get? s n = none → σ.reset? s n v = none) ∧
    ((σ.bind s n v).Forest ∧
      (∀ t m, (σ.bind s n v).get? t m ≠ σ.get? t m → m = n ∧ (σ.bind s n v).Nearest n t s) ∧
      (s.index < σ.scopes.size → ∀ t, (σ.bind s n v).Nearest n t s →
        (σ.bind s n v).get? t n = some v)) ∧
    ((σ.names s).Nodup ∧ ∀ m, m ∈ σ.names s ↔ (σ.get? s m).isSome = true) ∧
    ∀ {N : Type} [Finite N] (G : Graph N), ∃ (τ : Store) (f : N → ScopeId), τ.Forest ∧
      Function.Injective f ∧ (∀ t : ScopeId, t.index < τ.scopes.size ↔ ∃ x, f x = t) ∧
      ∀ x, (τ.scope (f x)).parent = (G.parent x).map f ∧ τ.members (f x) = G.table x := by
  refine ⟨fun t m => ⟨fun b => hf.get?_of_nearest, hf.get?_eq_none⟩, fun old hold => ?_,
    reset?_of_get?_eq_none, ⟨hf.bind, fun t m hne => ?_, fun hs t => hf.get?_bind_of_nearest hs⟩,
    ⟨nodup_names hf.distinct, fun m => mem_names_iff⟩, fun G => G.exists_forest⟩
  · obtain ⟨b, hb, hreset, hseen, hunseen⟩ := hf.reset?_of_get? hold
    exact ⟨b, _, hb, hreset, hf.bind, hseen, hunseen⟩
  · exact Classical.byContradiction fun h => hne (hf.get?_bind_of_not h)

/-- Globals, a function's scope, a block in it, and another function's scope with a name
of its own. -/
def nested : Store where
  scopes := #[
    { bindings := [("x", .ofInt 1)], parent := none, frame := none },
    { bindings := [("y", .ofInt 2)], parent := some ⟨0⟩, frame := none },
    { bindings := [], parent := some ⟨1⟩, frame := none },
    { bindings := [("x", .ofInt 3)], parent := some ⟨0⟩, frame := none }]

theorem forest_nested : nested.Forest where
  parents s parent h := by
    match s with
    | ⟨0⟩ => cases h
    | ⟨1⟩ | ⟨2⟩ | ⟨3⟩ =>
      cases h
      decide
    | ⟨i + 4⟩ => cases h
  distinct s := by
    match s with
    | ⟨0⟩ | ⟨1⟩ | ⟨2⟩ | ⟨3⟩ => decide
    | ⟨i + 4⟩ => exact List.nodup_nil

/-- What the block assigns to the global is seen from the function around it, but not from
the function that has a name of its own. -/
theorem scopes_shadow_nested : ∃ τ, nested.reset? ⟨2⟩ "x" (.ofInt 7) = some (.ofInt 1, τ) ∧
    τ.get? ⟨1⟩ "x" = some (.ofInt 7) ∧ τ.get? ⟨3⟩ "x" = some (.ofInt 3) := by
  obtain ⟨_, hreset, _⟩ := scopes_shadow forest_nested ⟨2⟩ "x" (.ofInt 7)
  obtain ⟨b, τ, hb, hτ, _, hseen, hunseen⟩ := hreset (.ofInt 1) rfl
  obtain rfl : b = ⟨0⟩ := Option.some.inj (forest_nested.binder?_eq_some_iff.mpr hb).symm
  refine ⟨τ, hτ, hseen ⟨1⟩ (.outer (by decide) rfl (.here (by decide))), ?_⟩
  rw [hunseen ⟨3⟩ "x" fun h => absurd (forest_nested.binder?_eq_some_iff.mpr h.2) (by decide)]
  rfl

end Store
end TreeWalk
