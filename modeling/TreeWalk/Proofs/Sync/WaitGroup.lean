/-
The counter of a wait group, whatever tasks change it and in whatever order.

A tally is a store together with the changes made by the calls of `add` and
`done` that succeeded, in their order.  Its turns are those of any tasks: calls
of the methods of the group, a task that had to wait going on, and whatever else
leaves the group alone.

An addition that passes the greatest word stops there, so what it counts beyond
is lost for good (`counter_falls_short`).  In a run in which no addition does,
the counter is the sum of the changes.
-/
import TreeWalk.Eval.Node
import TreeWalk.Proofs.Sync.Call
import Mathlib.Data.List.Infix

namespace TreeWalk

namespace Word

theorem toInt_saturate (n : Int) : (saturate n).toInt = max least (min n greatest) := by
  unfold saturate
  rw [least_eq, greatest_eq]
  split
  · rw [Int64.toInt_ofInt_of_le (by omega) (by omega)]
    omega
  · split
    · rw [Int64.toInt_ofInt_of_le (by omega) (by omega)]
      omega
    · rw [Int64.toInt_ofInt_of_le (by omega) (by omega)]
      omega

end Word

namespace WaitGroup

variable {id : WaitGroupId} {delta : Int64}

/-! ## One call -/

/-- An addition is refused if it ends below zero, and stops at the greatest word. -/
theorem add?_cases (w : WaitGroup) (delta : Int64) :
    (w.count.toInt + delta.toInt < 0 ∧ w.add? delta = none) ∨
    (0 ≤ w.count.toInt + delta.toInt ∧ ∃ w', w.add? delta = some w' ∧
      w'.count.toInt = min (w.count.toInt + delta.toInt) Word.greatest) := by
  have hsum := Word.toInt_saturate (w.count.toInt + delta.toInt)
  rw [Word.least_eq, Word.greatest_eq] at hsum
  have hzero : (0 : Int64).toInt = 0 := rfl
  by_cases hneg : Word.saturate (w.count.toInt + delta.toInt) < 0
  · refine .inl ⟨?_, if_pos hneg⟩
    rw [Int64.lt_iff_toInt_lt, hsum] at hneg
    omega
  · refine .inr ⟨?_, _, if_neg hneg, ?_⟩
    · rw [Int64.lt_iff_toInt_lt, hsum] at hneg
      omega
    · rw [Int64.lt_iff_toInt_lt, hsum] at hneg
      rw [hsum, Word.greatest_eq]
      omega

/-- By how much a call changes the counter if it succeeds; `none` for a call that
changes nothing. -/
def delta? (args : Args) : Option Int64 :=
  match MethodTable.find? args.name, args.values with
  | some WaitGroupMethod.add, [] => some 1
  | some WaitGroupMethod.add, [v] => v.int?
  | some WaitGroupMethod.done, [] => some (-1)
  | _, _ => none

/-- A call changes the counter, waits until it is zero, or is refused for its name
or its arguments. -/
theorem call_cases (ev : Evaluator) (id : WaitGroupId) (args : Args) (f : Fiber) (σ : Store) :
    (∃ delta, delta? args = some delta ∧
      Object.call ev (.waitGroup id) args f σ = .ifCan
        (((σ.waitGroup id).add? delta).map (σ.setWaitGroup id)) .waitGroupNegative args.pos f σ) ∨
    (delta? args = none ∧ Object.call ev (.waitGroup id) args f σ = .after (.allDone id) f σ) ∨
    (delta? args = none ∧ ∃ e, Object.call ev (.waitGroup id) args f σ = .done (.error e) f σ) := by
  obtain ⟨name, values, pos⟩ := args
  unfold Object.call Object.dispatch delta?
  dsimp only
  cases MethodTable.find? (μ := WaitGroupMethod) name with
  | none => exact .inr (.inr ⟨rfl, _, rfl⟩)
  | some m =>
    cases m with
    | add =>
      cases values with
      | nil => exact .inl ⟨1, rfl, Object.addTo_apply id 1 pos⟩
      | cons v rest =>
        cases rest with
        | nil =>
          cases hv : v.int? with
          | some n =>
            refine .inl ⟨n, hv, ?_⟩
            simp only [Object.onWaitGroup, Args.upToOne, Args.int, pure_bind, hv]
            exact Object.addTo_apply id n pos
          | none =>
            refine .inr (.inr ⟨hv, .error ⟨.paramType name 1 "INTEGER" v.kind, pos⟩, ?_⟩)
            simp only [Object.onWaitGroup, Args.upToOne, Args.int, pure_bind, hv]
            rfl
        | cons => exact .inr (.inr ⟨rfl, _, rfl⟩)
    | done =>
      cases values with
      | nil => exact .inl ⟨-1, rfl, Object.addTo_apply id (-1) pos⟩
      | cons => exact .inr (.inr ⟨rfl, _, rfl⟩)
    | wait =>
      cases values with
      | nil => exact .inr (.inl ⟨rfl, await_apply (.allDone id)⟩)
      | cons => exact .inr (.inr ⟨rfl, _, rfl⟩)

/-- A call that fails changes nothing. -/
theorem eq_of_call_error {ev : Evaluator} {args : Args} {f f' : Fiber} {σ σ' : Store} {e : Exit}
    (h : Object.call ev (.waitGroup id) args f σ = .done (.error e) f' σ') : σ' = σ := by
  rcases call_cases ev id args f σ with ⟨delta, -, hcan⟩ | ⟨-, hwait⟩ | ⟨-, e, herror⟩
  · rw [hcan] at h
    exact Step.of_ifCan_error h
  · rw [hwait] at h
    exact absurd h Step.after_ne_error
  · rw [herror] at h
    exact (Step.done.inj h).2.2.symm

/-! ## Any number of calls -/

/-- A store, and the changes of the calls that have succeeded, in their order. -/
structure Tally where
  store : Store
  changes : List Int64

/-- What the changes add up to. -/
def total (changes : List Int64) : Int := changes.foldl (fun sum delta => sum + delta.toInt) 0

/-- What they add up to if every addition stops at the greatest word. -/
def capped (changes : List Int64) : Int :=
  changes.foldl (fun count delta => min (count + delta.toInt) Word.greatest) 0

theorem total_concat (changes : List Int64) :
    total (changes ++ [delta]) = total changes + delta.toInt := by
  rw [total, List.foldl_append]
  rfl

theorem capped_concat (changes : List Int64) :
    capped (changes ++ [delta]) = min (capped changes + delta.toInt) Word.greatest := by
  rw [capped, List.foldl_append]
  rfl

theorem capped_le_total (changes : List Int64) : capped changes ≤ total changes := by
  induction changes using List.reverseRecOn with
  | nil => exact Int.le_refl 0
  | append_singleton changes delta ih =>
    rw [capped_concat, total_concat]
    omega

/-- Nothing is lost as long as no addition passes the greatest word. -/
theorem capped_eq_total {changes : List Int64}
    (h : ∀ first, first <+: changes → total first ≤ Word.greatest) :
    capped changes = total changes := by
  induction changes using List.reverseRecOn with
  | nil => rfl
  | append_singleton changes delta ih =>
    have hbefore := ih fun first hfirst => h first (hfirst.trans (List.prefix_append _ _))
    have hnow := h _ (List.prefix_refl _)
    rw [capped_concat, hbefore]
    rw [total_concat] at hnow ⊢
    omega

namespace Tally

/-- One turn of some task. -/
inductive Turn (id : WaitGroupId) (s : Tally) : Tally → Prop
  | succeeds (ev : Evaluator) (args : Args) {f f' : Fiber} {v : Value} {σ : Store}
      (h : Object.call ev (.waitGroup id) args f s.store = .done (.ok v) f' σ) :
      Turn id s ⟨σ, s.changes ++ (delta? args).toList⟩
  | fails (ev : Evaluator) (args : Args) {f f' : Fiber} {e : Exit} {σ : Store}
      (h : Object.call ev (.waitGroup id) args f s.store = .done (.error e) f' σ) :
      Turn id s ⟨σ, s.changes⟩
  /-- A task that waited for the group goes on. -/
  | passes {a : Unit} {σ : Store} (h : (Event.allDone id).happen? s.store = some (a, σ)) :
      Turn id s ⟨σ, s.changes⟩
  /-- Something else happens, which leaves the group alone. -/
  | other {σ : Store} (h : σ.waitGroups[id.index]? = s.store.waitGroups[id.index]?) :
      Turn id s ⟨σ, s.changes⟩

/-- Reached by turns of any tasks after the group was made. -/
inductive Reached (id : WaitGroupId) : Tally → Prop
  | made {σ : Store} (h : σ.waitGroups.size = id.index) : Reached id ⟨σ.newWaitGroup.2, []⟩
  | turn {s s' : Tally} (h : Reached id s) (ht : Turn id s s') : Reached id s'

/-! ## What the turns keep -/

/-- A task goes on at zero only, and changes nothing. -/
theorem of_happen? {σ σ' : Store} {w : WaitGroup} {a : Unit}
    (h : σ.waitGroups[id.index]? = some w)
    (hstep : (Event.allDone id).happen? σ = some (a, σ')) :
    ¬ 0 < w.count ∧ σ'.waitGroups[id.index]? = some w := by
  obtain ⟨w', hw', heq⟩ := Option.map_eq_some_iff.mp hstep
  have hw : σ.waitGroup id = w := getD_of_cell h _
  rw [hw] at hw'
  unfold wait? at hw'
  split at hw'
  · cases hw'
  · next hzero =>
    obtain rfl := Option.some.inj hw'
    obtain rfl := (Prod.mk.inj heq).2
    exact ⟨hzero, cell_of_set h w⟩

/-- The counter is what the changes come to. -/
structure Kept (id : WaitGroupId) (s : Tally) (w : WaitGroup) : Prop where
  cell : s.store.waitGroups[id.index]? = some w
  count_eq : w.count.toInt = capped s.changes
  nonneg : 0 ≤ w.count.toInt

namespace Kept

variable {s s' : Tally} {w : WaitGroup}

theorem of_cell {σ : Store} (h : Kept id s w) (hcell : σ.waitGroups[id.index]? = some w) :
    Kept id ⟨σ, s.changes⟩ w := ⟨hcell, h.count_eq, h.nonneg⟩

/-- A call that succeeds adds its change to the counter, or has waited. -/
theorem succeeds {ev : Evaluator} {args : Args} {f f' : Fiber} {v : Value} {σ : Store}
    (h : Kept id s w) (hcall : Object.call ev (.waitGroup id) args f s.store = .done (.ok v) f' σ) :
    ∃ w', Kept id ⟨σ, s.changes ++ (delta? args).toList⟩ w' := by
  rcases call_cases ev id args f s.store with ⟨delta, hdelta, hcan⟩ | ⟨hdelta, hwait⟩ | ⟨-, e, herror⟩
  · have hw : s.store.waitGroup id = w := getD_of_cell h.cell _
    rw [hcan, hw] at hcall
    obtain ⟨w', hadd, rfl⟩ := Option.map_eq_some_iff.mp (Step.of_ifCan_ok hcall)
    rcases add?_cases w delta with ⟨-, hnone⟩ | ⟨hnonneg, w'', hsome, hcount⟩
    · rw [hnone] at hadd
      cases hadd
    · obtain rfl := Option.some.inj (hsome.symm.trans hadd)
      rw [hdelta]
      refine ⟨w'', cell_of_set h.cell w'', ?_, ?_⟩
      · rw [Option.toList_some, capped_concat, ← h.count_eq]
        exact hcount
      · rw [hcount, Word.greatest_eq]
        omega
  · rw [hwait] at hcall
    obtain ⟨a, hstep⟩ := Step.happens_of_after hcall
    rw [hdelta, Option.toList_none, List.append_nil]
    exact ⟨w, h.of_cell (of_happen? h.cell hstep).2⟩
  · rw [herror] at hcall
    cases (Step.done.inj hcall).1

/-- What every turn preserves. -/
theorem turn (h : Kept id s w) (ht : Turn id s s') : ∃ w', Kept id s' w' := by
  cases ht with
  | succeeds ev args hcall => exact h.succeeds hcall
  | fails ev args hcall =>
    obtain rfl := eq_of_call_error hcall
    exact ⟨w, h⟩
  | passes hstep => exact ⟨w, h.of_cell (of_happen? h.cell hstep).2⟩
  | other hcell => exact ⟨w, h.of_cell (hcell.trans h.cell)⟩

end Kept

theorem kept_of_reached {s : Tally} (h : Reached id s) : ∃ w, Kept id s w := by
  induction h with
  | @made σ hsize =>
    refine ⟨.new, ?_, rfl, Int.le_refl 0⟩
    show (σ.waitGroups.push .new)[id.index]? = some .new
    rw [← hsize, Array.getElem?_push_size]
  | turn _ ht ih =>
    obtain ⟨w, hw⟩ := ih
    exact hw.turn ht

/-- Whatever tasks do, the counter is never negative, and it is what the changes of
the calls that succeeded come to, added up to the greatest word: their sum, if that
is never passed.  A call that fails changes nothing, and a call that waits returns
at zero only. -/
theorem counter_of_reached {s : Tally} (h : Reached id s) :
    ∃ w, s.store.waitGroups[id.index]? = some w ∧ 0 ≤ w.count ∧ w.count.toInt = capped s.changes ∧
      w.count.toInt ≤ total s.changes ∧
      ((∀ first, first <+: s.changes → total first ≤ Word.greatest) →
        w.count.toInt = total s.changes) ∧
      (∀ ev args f e f' σ', Object.call ev (.waitGroup id) args f s.store = .done (.error e) f' σ' →
        σ' = s.store) ∧
      (∀ ev args f, delta? args = none →
        (∃ e, Object.call ev (.waitGroup id) args f s.store = .done (.error e) f s.store) ∨
        Object.call ev (.waitGroup id) args f s.store = .after (.allDone id) f s.store) ∧
      ∀ a σ', (Event.allDone id).happen? s.store = some (a, σ') →
        w.count = 0 ∧ σ'.waitGroups[id.index]? = some w := by
  obtain ⟨w, hw⟩ := kept_of_reached h
  have hzero : (0 : Int64).toInt = 0 := rfl
  refine ⟨w, hw.cell, ?_, hw.count_eq, hw.count_eq ▸ capped_le_total _, fun hfirst => ?_,
    fun _ _ _ _ _ _ => eq_of_call_error, fun ev args f hnone => ?_, fun a σ' hstep => ?_⟩
  · rw [Int64.le_iff_toInt_le]
    exact hw.nonneg
  · rw [hw.count_eq, capped_eq_total hfirst]
  · rcases call_cases ev id args f s.store with ⟨delta, hdelta, -⟩ | ⟨-, hwait⟩ | ⟨-, herror⟩
    · rw [hnone] at hdelta
      cases hdelta
    · exact .inr hwait
    · exact .inl herror
  · obtain ⟨hle, hcell⟩ := of_happen? hw.cell hstep
    have hnonneg := hw.nonneg
    rw [Int64.lt_iff_toInt_lt] at hle
    refine ⟨Int64.toInt_inj.mp ?_, hcell⟩
    omega

/-- A unit added to the greatest word is lost: the counter is not the sum. -/
theorem counter_falls_short :
    ∃ s : Tally, Reached ⟨0⟩ s ∧ (s.store.waitGroup ⟨0⟩).count.toInt ≠ total s.changes := by
  have h₀ : Reached ⟨0⟩ ⟨(Store.newWaitGroup {}).2, []⟩ := .made rfl
  have h₁ : Reached ⟨0⟩ ⟨{ waitGroups := #[⟨9223372036854775807⟩] }, [9223372036854775807]⟩ :=
    .turn h₀ (.succeeds (evaluator 0) ⟨"add", [.ofInt 9223372036854775807], .unknown⟩ (f := default) rfl)
  have h₂ : Reached ⟨0⟩ ⟨{ waitGroups := #[⟨9223372036854775807⟩] }, [9223372036854775807, 1]⟩ :=
    .turn h₁ (.succeeds (evaluator 0) ⟨"add", [], .unknown⟩ (f := default) rfl)
  exact ⟨_, h₂, by decide⟩

/-- Two tasks are added and one is done. -/
theorem counter_of_reached_two :
    let s : Tally := ⟨{ waitGroups := #[⟨1⟩] }, [2, -1]⟩
    s.changes.length = 2 ∧ (s.store.waitGroup ⟨0⟩).count.toInt = total s.changes := by
  have h₀ : Reached ⟨0⟩ ⟨(Store.newWaitGroup {}).2, []⟩ := .made rfl
  have h₁ : Reached ⟨0⟩ ⟨{ waitGroups := #[⟨2⟩] }, [2]⟩ :=
    .turn h₀ (.succeeds (evaluator 0) ⟨"add", [.ofInt 2], .unknown⟩ (f := default) rfl)
  have h₂ : Reached ⟨0⟩ ⟨{ waitGroups := #[⟨1⟩] }, [2, -1]⟩ :=
    .turn h₁ (.succeeds (evaluator 0) ⟨"done", [], .unknown⟩ (f := default) rfl)
  obtain ⟨w, hcell, -, -, -, hsum, -⟩ := counter_of_reached h₂
  obtain rfl := Option.some.inj hcell
  refine ⟨rfl, hsum fun first hfirst => ?_⟩
  have hall : ∀ l ∈ [2, -1].inits, total l ≤ Word.greatest := by decide
  exact hall first ((List.mem_inits first _).mpr hfirst)

end Tally
end WaitGroup
end TreeWalk
