/-
Hashes stay consistent.

Every way of making or changing a hash files values under their own keys, so all
hashes of a store are consistent for good if they are at first: whatever is
evaluated, however it ends, and whatever other tasks do meanwhile.  What goes
through the entries of a hash therefore meets each of them once, and finds it
again.
-/
import TreeWalk.Proofs.Eval.Entries
import TreeWalk.Proofs.Eval.Invariant
import TreeWalk.Proofs.Store.Equality

namespace TreeWalk

open Discipline Eval

theorem robust_consistent : Robust Store.Consistent where
  quiet h hq := hq.consistent h
  cells h hhashes _ := by simpa only [Store.Consistent, Store.dict, hhashes] using h

/-- Hashes stay consistent in whatever is evaluated. -/
theorem lasting_consistent : Lasting Store.Consistent := robust_consistent.lasting

theorem Session.consistent_ofSetup (setup : Setup) :
    (ofSetup setup).Keeps Store.Consistent := by
  refine ⟨fun id => ?_, fun t ht => nomatch ht⟩
  rw [show (ofSetup setup).store.dict id = .empty by simp [ofSetup, Store.dict, Store.bind,
    Store.newArray, Store.rootScope, Store.newScope, Store.addScope]]
  exact .empty

/-! ## What follows -/

/-- What goes through the entries of hashes meets every one of them, and fails on
none. -/
structure Store.Complete (σ : Store) : Prop where
  listed : ∀ id e, e ∈ (σ.dict id).toList ↔ ∃ key, (σ.dict id).get? key = some e
  /-- `+` answers a hash with what either side holds, the right one winning. -/
  merge : ∀ i j pos, ∃ id τ, Operator.binary .add (.hash i) (.hash j) pos σ = .ok (.hash id, τ) ∧
    ∀ key, ((τ.dict id).get? key).map (·.value) =
      (((σ.dict j).get? key).or ((σ.dict i).get? key)).map (·.value)
  /-- `filter` fails where its function does, and nowhere else. -/
  filter : ∀ ev id args f, Visit.onHash ev id .filter args f σ =
    (do
      let g ← lift (do args.callable 0 (← args.one))
      let kept ← Visit.chosen ev g (σ.dict id).toList
      change (·.newDict (kept.foldl Dict.file .empty))) f σ
  /-- The entries that `filter` chooses are all in the hash that it makes. -/
  kept : ∀ ev g id f f' τ τ' entries,
    (Visit.chosen ev g (σ.dict id).toList f τ).Ends (.ok entries) f' τ' →
    entries.Sublist (σ.dict id).toList ∧ (entries.foldl Dict.file .empty).toList = entries
  /-- `==` compares what both sides hold under each key. -/
  equal : ∀ i j, ∃ b, σ.equal? (.hash i) (.hash j) = some b ∧
    (b = true ↔ ∀ key, Option.Rel σ.ShowAlike ((σ.dict i).get? key) ((σ.dict j).get? key))
  /-- A hash has a literal unless something that it holds has none. -/
  literal : ∀ pos n id, σ.literalWithin? pos (n + 1) (.hash id) = none ↔
    ∃ key e, (σ.dict id).get? key = some e ∧
      (σ.literalWithin? pos n e.key = none ∨ σ.literalWithin? pos n e.value = none)
  /-- Evaluating the literal files an entry under each key again. -/
  restored : ∀ fuel pos n id e, σ.literalWithin? pos n (.hash id) = some e →
    Gives (fun τ w => ∃ new, w = .hash new ∧ (τ.dict new).order = (σ.dict id).order)
      ((evaluator fuel).expr e)

theorem Store.Consistent.complete {σ : Store} (hσ : σ.Consistent) : σ.Complete where
  listed id _ := (hσ id).mem_toList_iff
  merge := Operator.binary_add_hashes hσ
  filter ev id args f := by
    have keyed : ∀ e ∈ (σ.dict id).toList, ∃ key, e.key.key? = some key := by
      intro e he
      obtain ⟨key, hkey, _⟩ := (hσ id).get?_of_mem_toList he
      exact ⟨key, hkey⟩
    change (do
      let g ← lift (do args.callable 0 (← args.one))
      let d ← Visit.keepEntries ev g (σ.dict id).toList args.pos
      change (·.newDict d)) f σ = _
    refine congrFun (congrFun (bind_congr fun g => ?_) f) σ
    rw [Visit.keepEntries_eq keyed, bind_assoc]
    rfl
  kept ev g id f f' τ τ' entries hend :=
    have hsub := Visit.sublist_of_ends_chosen hend
    ⟨hsub, (hσ id).toList_refiled hsub⟩
  equal i j := ⟨_, Store.equal?_hashes i j, Store.equalDicts_iff (hσ i) (hσ j)⟩
  literal pos n id := by
    rw [← Store.literalForm?_hash_eq_none_iff hσ]
    exact Option.map_eq_none_iff
  restored fuel pos n id e h f g τ τ' r hend :=
    (Store.gives_literal hσ fuel h f g τ τ' r hend).imp_right fun ⟨w, hw, hrestores⟩ =>
      ⟨w, hw, hrestores.hash id rfl⟩

/-- In a store whose hashes are consistent they stay so, whatever is evaluated there
and however it ends: in each store that an evaluation leaves, while it waits for
other tasks or at its end.  The same holds of whole sessions with all of their tasks,
and the hashes of a new session are consistent.  No entry of a consistent hash gets
lost when hashes are merged, filtered, compared or made into literals, and none of
these fails on it. -/
theorem hashes_stay_consistent :
    (∀ (fuel : Nat) (q : Request) (f : Fiber) (σ : Store), σ.Consistent →
      ((evaluator fuel).serve q f σ).Keeps Store.Consistent) ∧
    (∀ (fuel : Nat) (v : Value) (name : String) (values : List Value) (f : Fiber) (σ : Store),
      σ.Consistent →
      (Method.call (evaluator fuel) v name values f σ).Keeps Store.Consistent) ∧
    (∀ (s : Session) (scope : ScopeId) (program : Program), s.Keeps Store.Consistent →
      (s.runIn scope program).2.Keeps Store.Consistent) ∧
    (∀ (s : Session) (program : Program), s.Keeps Store.Consistent →
      (s.fork program).2.Keeps Store.Consistent) ∧
    (∀ (s : Session) (q : Request), s.Keeps Store.Consistent →
      (s.exec ((evaluator Session.fuel).serve q)).2.Keeps Store.Consistent) ∧
    (∀ setup : Setup, (Session.ofSetup setup).Keeps Store.Consistent) ∧
    (∀ σ : Store, σ.Consistent → σ.Complete) := by
  refine ⟨lasting_consistent.serve, fun _ _ _ _ _ _ hσ => robust_consistent.keeps_method hσ, ?_, ?_, ?_,
    Session.consistent_ofSetup, fun _ hσ => hσ.complete⟩
  · intro s scope program hs
    exact lasting_consistent.runIn hs scope program
  · intro s program hs
    exact lasting_consistent.fork (fun _ _ h => h) hs program
  · intro s q hs
    exact lasting_consistent.exec hs (lasting_consistent.serve _ q _ _ hs.store)

/-- `{1: 2}` -/
def hashExpr : Expr := .bare (.hash [(.bare (.int 1), .bare (.int 2))])

theorem hashes_stay_consistent_program :
    (((Session.ofSetup {}).run [⟨.unknown, .expr hashExpr⟩]).2.store.dict ⟨0⟩).order = [.ofInt 1] ∧
    ((Session.ofSetup {}).run [⟨.unknown, .expr hashExpr⟩]).2.Keeps Store.Consistent ∧
    ((Session.ofSetup {}).run [⟨.unknown, .expr hashExpr⟩]).2.store.Complete := by
  obtain ⟨_, _, hrun, _, _, hsetup, hcomplete⟩ := hashes_stay_consistent
  have hkeeps : ((Session.ofSetup {}).run [⟨.unknown, .expr hashExpr⟩]).2.Keeps Store.Consistent :=
    hrun (Session.ofSetup {}) _ _ (hsetup {})
  refine ⟨?_, hkeeps, hcomplete _ hkeeps.store⟩
  change (Dict.empty.insert (.ofInt 1) (.ofInt 1) (.ofInt 2)).order = [.ofInt 1]
  rw [Dict.order_insert, Dict.contains_eq_false_iff.mpr Dict.get?_empty]
  rfl

end TreeWalk
