/-
Stores that list the same names in another order.

Nothing tells in which order a scope lists the names that it binds.  Two stores that differ
in these orders alone have the same values under the same names; what goes through the
names of a scope meets the same ones in both, and what sorts them comes to the same list.
The text of a value is therefore the same in both.
-/
import TreeWalk.Proofs.Store.Names
import TreeWalk.Store.Render

namespace TreeWalk
namespace Store

/-- Two stores that are the same but for the order in which scopes list their names. -/
structure Reordered (σ τ : Store) : Prop where
  size_eq : τ.scopes.size = σ.scopes.size
  members : ∀ s, (σ.members s).Perm (τ.members s)
  parent_eq : ∀ s, (τ.scope s).parent = (σ.scope s).parent
  distinct : σ.Distinct
  rest : { τ with scopes := σ.scopes } = σ

/-- The names may be listed in any order. -/
theorem exists_reordered {σ : Store} (hσ : σ.Distinct) {table : ScopeId → Assoc Value}
    (htable : ∀ s, (σ.members s).Perm (table s)) :
    ∃ τ, σ.Reordered τ ∧ ∀ s, τ.members s = table s := by
  let τ : Store := { σ with scopes := σ.scopes.mapIdx fun i scope => { scope with bindings := table ⟨i⟩ } }
  have hscope : ∀ s, τ.scope s = { σ.scope s with bindings := table s } := by
    intro s
    by_cases hs : s.index < σ.scopes.size
    · simp [τ, scope, Array.getD_eq_getD_getElem?, hs]
    · have hout : σ.scope s = default := scope_of_ge (Nat.le_of_not_lt hs)
      have hperm : (default : Scope).bindings.Perm (table s) := by
        rw [← hout]
        exact htable s
      have hnil : table s = [] := List.nil_perm.mp hperm
      rw [scope_of_ge (by simpa [τ] using hs), hout, hnil]
      rfl
  have hmembers : ∀ s, τ.members s = table s := fun s => congrArg Scope.bindings (hscope s)
  refine ⟨τ, ⟨by simp [τ], fun s => ?_, fun s => ?_, hσ, rfl⟩, hmembers⟩
  · rw [hmembers]
    exact htable s
  · rw [hscope]

namespace Reordered

variable {σ τ : Store} {s : ScopeId} {n : String} (h : σ.Reordered τ)
include h

theorem array_eq (id : ArrayId) : τ.array id = σ.array id := congrArg (·.array id) h.rest

theorem dict_eq (id : HashId) : τ.dict id = σ.dict id := congrArg (·.dict id) h.rest

theorem registry_eq : τ.registry = σ.registry := (congrArg Store.registry h.rest :)

theorem modules_eq : τ.modules = σ.modules := (congrArg Store.modules h.rest :)

theorem depth_eq : τ.depth = σ.depth := by
  have harrays : τ.arrays = σ.arrays := (congrArg Store.arrays h.rest :)
  have hhashes : τ.hashes = σ.hashes := (congrArg Store.hashes h.rest :)
  unfold depth
  rw [harrays, hhashes, h.size_eq]

/-! ## Names -/

theorem getLocal?_eq : τ.getLocal? s n = σ.getLocal? s n :=
  Assoc.get?_perm (h.distinct s) (h.members s) n

theorem binds_iff : τ.Binds s n ↔ σ.Binds s n := by
  rw [binds_iff_mem_names, binds_iff_mem_names]
  exact ((h.members s).map Prod.fst).mem_iff.symm

theorem chain_eq : τ.chain s = σ.chain s := by
  have same : ∀ fuel s, τ.chainFrom fuel s = σ.chainFrom fuel s := by
    intro fuel
    induction fuel with
    | zero => exact fun _ => rfl
    | succ fuel ih =>
      intro s
      rw [chainFrom, chainFrom, h.parent_eq]
      cases (σ.scope s).parent with
      | none => rfl
      | some parent => exact congrArg (s :: ·) (ih parent)
  exact same _ s

theorem get?_eq : τ.get? s n = σ.get? s n := by
  have hbinder : τ.binder? s n = σ.binder? s n := by
    unfold binder?
    rw [h.chain_eq]
    congr 1
    funext t
    exact Bool.eq_iff_iff.mpr h.binds_iff
  unfold get?
  rw [hbinder]
  congr 1
  funext t
  exact h.getLocal?_eq

theorem moduleMember?_eq : τ.moduleMember? n = σ.moduleMember? n := by
  unfold moduleMember?
  rw [h.modules_eq]
  simp only [h.getLocal?_eq]

theorem mem_names_iff : n ∈ τ.names s ↔ n ∈ σ.names s := by
  rw [Store.mem_names_iff, Store.mem_names_iff, h.get?_eq]

theorem mem_members_names_iff : n ∈ (τ.members s).names ↔ n ∈ (σ.members s).names :=
  ((h.members s).map Prod.fst).mem_iff.symm

theorem mem_moduleNames_iff : n ∈ τ.moduleNames ↔ n ∈ σ.moduleNames := by
  unfold moduleNames
  rw [h.modules_eq]
  simp only [List.mem_flatMap, List.mem_cons, h.mem_members_names_iff]

/-! ## Texts -/

/-- The fields of a struct are told by its members and by which of them are methods. -/
theorem structFields_eq {methods methods' : List String} (hmethods : ∀ n, n ∈ methods' ↔ n ∈ methods) :
    τ.structFields s methods' = σ.structFields s methods := by
  have hcontains : (fun member : String × Value => !methods'.contains member.1) =
      fun member => !methods.contains member.1 := by
    funext member
    simp [hmethods]
  unfold structFields
  rw [hcontains]
  refine (Assoc.sorted_perm ?_ ((h.members s).filter _)).symm
  exact (h.distinct s).sublist (List.filter_sublist.map Prod.fst)

end Reordered

section Text

variable {σ τ : Store} {inner : Value → String}

mutual

theorem showWith_reordered (h : σ.Reordered τ) : ∀ v : Value, τ.showWith inner v = σ.showWith inner v
  | .tuple items _ => by rw [showWith, showWith, showItems_reordered h items]
  | .array id => by rw [showWith, showWith, h.array_eq]
  | .hash id => by rw [showWith, showWith, h.dict_eq]
  | .struct scope methods => by rw [showWith, showWith, h.structFields_eq fun _ => Iff.rfl]
  | .enum scope variants => by
    rw [showWith, showWith]
    simp only [h.getLocal?_eq]
  | .int _ | .float _ | .str _ | .bool _ | .nil _ | .function _ | .native _ | .range _ | .channel _
  | .module _ | .object _ => by rw [showWith, showWith]

theorem showItems_reordered (h : σ.Reordered τ) :
    ∀ items : List Value, τ.showItems inner items = σ.showItems inner items
  | [] => by rw [showItems, showItems]
  | v :: rest => by rw [showItems, showItems, showItems_reordered h rest, showWith_reordered h v]

end

theorem Reordered.display_eq (h : σ.Reordered τ) (v : Value) : τ.display v = σ.display v := by
  have within : ∀ fuel v, τ.displayWithin fuel v = σ.displayWithin fuel v := by
    intro fuel
    induction fuel with
    | zero => exact fun v => showWith_reordered h v
    | succ fuel ih =>
      intro v
      rw [displayWithin, displayWithin, funext ih]
      exact showWith_reordered h v
  unfold display
  rw [h.depth_eq, within]

end Text
end Store
end TreeWalk
