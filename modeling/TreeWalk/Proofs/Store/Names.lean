/-
The names in tables and the names seen from scopes.

A table lists each of its names once: writing a name that is there keeps the list as it
is, and writing a new one puts it at the end.  What a name stands for then does not
depend on the order of the list.  Gathering the names outwards along a chain drops those
that have been met, so that each name seen from a scope is listed once as well.
-/
import Mathlib.Data.List.Nodup
import Mathlib.Data.String.Basic
import TreeWalk.Proofs.Store.Growth

namespace TreeWalk

namespace Assoc

variable {α : Type} {m m' : Assoc α} {name : String} {a : α}

theorem names_set (m : Assoc α) (name : String) (a : α) :
    (m.set name a).names = if name ∈ m.names then m.names else m.names ++ [name] := by
  induction m with
  | nil => rfl
  | cons entry rest ih =>
    obtain ⟨key, old⟩ := entry
    by_cases hkey : key = name
    · simp [set, names, hkey]
    · have hnames : names ((key, old) :: rest) = key :: names rest := rfl
      have hset : names (set ((key, old) :: rest) name a) = key :: names (set rest name a) := by
        rw [set, if_neg hkey]
        rfl
      rw [hset, ih, hnames]
      by_cases hmem : name ∈ names rest
      · rw [if_pos hmem, if_pos (List.mem_cons_of_mem key hmem)]
      · rw [if_neg hmem, if_neg fun h => (List.mem_cons.mp h).elim (Ne.symm hkey) hmem]
        rfl

theorem nodup_names_set (h : m.names.Nodup) : (m.set name a).names.Nodup := by
  rw [names_set]
  split
  · exact h
  · next hnew =>
    refine List.nodup_append.mpr ⟨h, List.nodup_singleton name, fun b hb c hc => ?_⟩
    rintro rfl
    exact hnew (List.mem_singleton.mp hc ▸ hb)

theorem nodup_names_ofEntries (entries : List (String × α)) : (ofEntries entries).names.Nodup := by
  have written : ∀ m : Assoc α, m.names.Nodup →
      (entries.foldl (fun m entry => m.set entry.1 entry.2) m).names.Nodup := by
    induction entries with
    | nil => exact fun m h => h
    | cons entry rest ih => exact fun m h => ih _ (nodup_names_set h)
  exact written [] List.nodup_nil

/-- In a table without repetitions a name stands for whatever it is listed with. -/
theorem get?_eq_some_iff (h : m.names.Nodup) : m.get? name = some a ↔ (name, a) ∈ m := by
  refine ⟨mem_of_get?, fun hmem => ?_⟩
  induction m with
  | nil => cases hmem
  | cons entry rest ih =>
    obtain ⟨key, value⟩ := entry
    obtain ⟨hnew, hrest⟩ := List.nodup_cons.mp (show (key :: names rest).Nodup from h)
    rcases List.mem_cons.mp hmem with heq | hmem
    · obtain ⟨rfl, rfl⟩ := Prod.mk.inj heq
      exact if_pos rfl
    · have hkey : key ≠ name := fun heq => hnew (heq ▸ List.mem_map_of_mem hmem)
      rw [get?, if_neg hkey]
      exact ih hrest hmem

theorem get?_perm (hnodup : m.names.Nodup) (h : m.Perm m') (name : String) : m'.get? name = m.get? name := by
  have hnodup' : m'.names.Nodup := (h.map Prod.fst).nodup_iff.mp hnodup
  refine Option.ext fun a => ?_
  rw [get?_eq_some_iff hnodup, get?_eq_some_iff hnodup', h.mem_iff]

/-- Sorting forgets the order of a list, as no two entries have the same name. -/
theorem sorted_perm (hnodup : m.names.Nodup) (h : m.Perm m') : m.sorted = m'.sorted := by
  have htrans : ∀ a b c : String × α, decide (a.1 ≤ b.1) = true → decide (b.1 ≤ c.1) = true →
      decide (a.1 ≤ c.1) = true := fun a b c hab hbc =>
    decide_eq_true (le_trans (of_decide_eq_true hab) (of_decide_eq_true hbc))
  have htotal : ∀ a b : String × α, (decide (a.1 ≤ b.1) || decide (b.1 ≤ a.1)) = true := by
    intro a b
    simpa using le_total a.1 b.1
  have hsorted : ∀ m : Assoc α, m.sorted.Pairwise fun a b => a.1 ≤ b.1 := fun m =>
    (List.pairwise_mergeSort htrans htotal m).imp fun hab => of_decide_eq_true hab
  have hperm : m.sorted.Perm m'.sorted :=
    (List.mergeSort_perm m _).trans (h.trans (List.mergeSort_perm m' _).symm)
  refine List.Perm.eq_of_pairwise (fun a b ha hb hab hba => ?_) (hsorted m) (hsorted m') hperm
  have hb' : b ∈ m.sorted := hperm.mem_iff.mpr hb
  exact List.inj_on_of_nodup_map hnodup ((List.mergeSort_perm m _).mem_iff.mp ha)
    ((List.mergeSort_perm m _).mem_iff.mp hb') (le_antisymm hab hba)

end Assoc

namespace Store

variable {σ : Store} {s t : ScopeId} {n : String} {v : Value}

/-- No scope lists a name twice. -/
def Distinct (σ : Store) : Prop := ∀ s, (σ.members s).names.Nodup

theorem Distinct.bind (h : σ.Distinct) : (σ.bind s n v).Distinct := by
  intro t
  unfold members
  rcases @scope_bind_cases σ s t n v with heq | heq
  · rw [heq]
    exact Assoc.nodup_names_set (h t)
  · rw [heq]
    exact h t

theorem Distinct.of_scopes_eq {τ : Store} (h : σ.Distinct) (hscopes : τ.scopes = σ.scopes) : τ.Distinct := by
  intro s
  rw [members, scope_eq_of_scopes_eq hscopes]
  exact h s

theorem Distinct.addScope {scope : Scope} (h : σ.Distinct) (hscope : scope.bindings.names.Nodup) :
    (σ.addScope scope).2.Distinct := by
  intro s
  rcases getD_push_cases σ.scopes s.index scope default with heq | heq
  · rw [members, show (σ.addScope scope).2.scope s = scope from heq]
    exact hscope
  · rw [members, show (σ.addScope scope).2.scope s = σ.scope s from heq]
    exact h s

theorem binds_iff_mem_names : σ.Binds s n ↔ n ∈ (σ.members s).names :=
  (Assoc.mem_names_iff_get?_isSome _ n).symm

/-- Adds the names of a scope to those met before. -/
def gather (σ : Store) (seen : List String) (s : ScopeId) : List String :=
  seen ++ (σ.members s).names.filter (!seen.contains ·)

theorem mem_gather {seen : List String} : n ∈ σ.gather seen s ↔ n ∈ seen ∨ σ.Binds s n := by
  by_cases hn : n ∈ seen
  · simp [gather, hn]
  · simp [gather, hn, binds_iff_mem_names]

theorem nodup_gather {seen : List String} (h : σ.Distinct) (hseen : seen.Nodup) : (σ.gather seen s).Nodup := by
  refine List.nodup_append.mpr ⟨hseen, (h s).filter _, fun a ha b hb hab => ?_⟩
  have hnew := (List.mem_filter.mp hb).2
  simp [hab ▸ ha] at hnew

theorem mem_foldl_gather (scopes : List ScopeId) (seen : List String) :
    n ∈ scopes.foldl σ.gather seen ↔ n ∈ seen ∨ ∃ s ∈ scopes, σ.Binds s n := by
  induction scopes generalizing seen with
  | nil => simp
  | cons s scopes ih => rw [List.foldl_cons, ih, mem_gather, List.exists_mem_cons_iff, or_assoc]

theorem nodup_foldl_gather (h : σ.Distinct) (scopes : List ScopeId) {seen : List String}
    (hseen : seen.Nodup) : (scopes.foldl σ.gather seen).Nodup := by
  induction scopes generalizing seen with
  | nil => exact hseen
  | cons s scopes ih => exact ih (nodup_gather h hseen)

theorem names_eq : σ.names s = (σ.chain s).foldl σ.gather [] := rfl

theorem nodup_names (h : σ.Distinct) : (σ.names s).Nodup := nodup_foldl_gather h _ List.nodup_nil

theorem isSome_get?_iff : (σ.get? s n).isSome = true ↔ ∃ t ∈ σ.chain s, σ.Binds t n := by
  have hfind : (σ.binder? s n).isSome = true ↔ ∃ t ∈ σ.chain s, σ.Binds t n := List.find?_isSome
  rw [← hfind, get?]
  cases h : σ.binder? s n with
  | none => rfl
  | some t => exact iff_of_true (List.find?_some h :) rfl

theorem mem_names_iff : n ∈ σ.names s ↔ (σ.get? s n).isSome = true := by
  rw [isSome_get?_iff, names_eq, mem_foldl_gather]
  exact or_iff_right List.not_mem_nil

end Store
end TreeWalk
