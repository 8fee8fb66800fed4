/-
Numbers of arguments.

A call is looked at before anything of it happens.  The fewest arguments that it may
come with are counted as the fixed parameters before the first one with a default, so
the count is right as long as no parameter without a default stands behind one with a
default.
-/
import TreeWalk.Eval.Call
import TreeWalk.Session

namespace TreeWalk

open Eval

namespace FunctionLit

/-- More arguments than there are parameters to take them. -/
def Overfull (lit : FunctionLit) (count : Nat) : Prop :=
  lit.variadic = false ∧ lit.fixedCount < count

/-- Some fixed parameter gets no argument and has no default. -/
def Lacks (lit : FunctionLit) (count : Nat) : Prop :=
  ∃ p ∈ lit.fixedParams.drop count, p.default = none

/-- Behind a fixed parameter with a default, all have one. -/
def DefaultsLast (lit : FunctionLit) : Prop :=
  lit.fixedParams.Pairwise fun p q => p.default.isSome = true → q.default.isSome = true

variable {lit : FunctionLit} {count : Nat}

theorem accepts_eq_false_iff :
    lit.accepts count = false ↔ lit.Overfull count ∨ count < lit.requiredCount := by
  unfold accepts Overfull
  rw [Bool.and_eq_false_iff, Bool.or_eq_false_iff, decide_eq_false_iff_not,
    decide_eq_false_iff_not, Nat.not_le, Nat.not_le, or_comm]

theorem exists_of_lt_takeWhile {params : List Param} {n : Nat}
    (h : n < (params.takeWhile (·.default.isNone)).length) :
    ∃ p ∈ params.drop n, p.default = none := by
  induction params generalizing n with
  | nil => cases h
  | cons p params ih =>
    rw [List.takeWhile_cons] at h
    split at h
    · next hnone =>
      cases n with
      | zero => exact ⟨p, List.mem_cons_self, Option.isNone_iff_eq_none.mp hnone⟩
      | succ n => exact ih (Nat.lt_of_succ_lt_succ h)
    · cases h

/-- The converse needs the defaults to be last: what follows the first default has
defaults then. -/
theorem lt_takeWhile_of_exists {params : List Param} {n : Nat}
    (hlast : params.Pairwise fun p q => p.default.isSome = true → q.default.isSome = true)
    (h : ∃ p ∈ params.drop n, p.default = none) :
    n < (params.takeWhile (·.default.isNone)).length := by
  obtain ⟨q, hq, hnone⟩ := h
  induction params generalizing n with
  | nil =>
    rw [List.drop_nil] at hq
    cases hq
  | cons p params ih =>
    obtain ⟨hp, hlast⟩ := List.pairwise_cons.mp hlast
    by_cases hdefault : p.default.isSome = true
    · have hall : ∀ q ∈ p :: params, q.default.isSome = true := by
        intro q hq
        rcases List.mem_cons.mp hq with rfl | hq
        · exact hdefault
        · exact hp q hq hdefault
      have hsome := hall q (List.mem_of_mem_drop hq)
      rw [hnone] at hsome
      cases hsome
    · have hfirst : p.default.isNone = true := by
        rw [Option.isNone_iff_eq_none, ← Option.not_isSome_iff_eq_none]
        exact hdefault
      rw [List.takeWhile_cons, if_pos hfirst]
      cases n with
      | zero => exact Nat.succ_pos _
      | succ n => exact Nat.succ_lt_succ (ih hlast hq)

theorem lacks_of_lt_requiredCount (h : count < lit.requiredCount) : lit.Lacks count :=
  exists_of_lt_takeWhile h

theorem DefaultsLast.lacks_iff (h : lit.DefaultsLast) :
    lit.Lacks count ↔ count < lit.requiredCount :=
  ⟨lt_takeWhile_of_exists h, lacks_of_lt_requiredCount⟩

end FunctionLit

namespace Call

variable {ev : Evaluator} {fuel : Nat} {c : Closure} {args : List Value} {pos : Position}

/-- The call ends with an error on the number of arguments before anything of it
happens. -/
def Refused (ev : Evaluator) (fuel : Nat) (c : Closure) (args : List Value) (pos : Position) :
    Prop :=
  invoke ev fuel c args pos =
    fail (.argumentCount c.lit.displayName c.lit.countText args.length) pos

/-- A call after its arguments have been counted: its frame and its scope are made, and
its parameters and its body are evaluated there. -/
def proceed (ev : Evaluator) (fuel : Nat) (c : Closure) (args : List Value) (pos : Position) :
    Eval Value := do
  let frame ← change (·.newFrame c.lit.displayName pos)
  pushFrame frame
  let scope ← change (·.activation c.scope frame)
  let result ← withScope scope (activate ev fuel c.lit args frame.id)
  popFrame
  ofResult result

theorem invoke_of_accepts (h : c.lit.accepts args.length = true) :
    invoke ev fuel c args pos = proceed ev fuel c args pos := by
  unfold invoke
  rw [if_pos h]
  rfl

theorem refused_of_not_accepts (h : c.lit.accepts args.length = false) :
    Refused ev fuel c args pos := by
  unfold Refused invoke
  rw [h, if_neg Bool.false_ne_true]

/-- A fiber whose stack has no room tells the two apart: a call that goes on fails there
for another cause. -/
theorem proceed_ne_fail {cause : Cause} (h : cause ≠ .stackOverflow 0) :
    proceed ev fuel c args pos ≠ fail cause pos := by
  intro heq
  have happly := congrFun (congrFun heq ⟨0, ⟨0⟩, .empty (some 0), .unknown, .capture⟩)
    (Session.ofSetup {}).store
  have hfull : proceed ev fuel c args pos ⟨0, ⟨0⟩, .empty (some 0), .unknown, .capture⟩
      (Session.ofSetup {}).store = .done (.error (.error ⟨.stackOverflow 0, pos⟩))
        ⟨0, ⟨0⟩, .empty (some 0), .unknown, .capture⟩
        ((Session.ofSetup {}).store.newFrame c.lit.displayName pos).2 := rfl
  rw [hfull] at happly
  injection happly with hresult
  injection hresult with hexit
  injection hexit with herror
  injection herror with hcause
  exact h hcause.symm

theorem refused_iff : Refused ev fuel c args pos ↔ c.lit.accepts args.length = false := by
  refine ⟨fun h => ?_, refused_of_not_accepts⟩
  cases haccepts : c.lit.accepts args.length with
  | false => rfl
  | true =>
    unfold Refused at h
    rw [invoke_of_accepts haccepts] at h
    exact absurd h (proceed_ne_fail fun hcause => nomatch hcause)

/-- If the defaults are last, a call is refused exactly if there is no parameter for
some argument, or neither an argument nor a default for some fixed parameter.  Every
other call goes on, and each of its fixed parameters has one of them. -/
theorem refused_iff_overfull_or_lacks (ev : Evaluator) (fuel : Nat) (c : Closure)
    (args : List Value) (pos : Position) (hlast : c.lit.DefaultsLast) :
    (Refused ev fuel c args pos ↔ c.lit.Overfull args.length ∨ c.lit.Lacks args.length) ∧
    (¬ Refused ev fuel c args pos →
      invoke ev fuel c args pos = proceed ev fuel c args pos ∧
        ∀ p ∈ c.lit.fixedParams.drop args.length, p.default.isSome = true) := by
  have hiff : Refused ev fuel c args pos ↔
      c.lit.Overfull args.length ∨ c.lit.Lacks args.length := by
    rw [refused_iff, FunctionLit.accepts_eq_false_iff, hlast.lacks_iff]
  refine ⟨hiff, fun hgoes => ⟨?_, fun p hp => ?_⟩⟩
  · rw [refused_iff, Bool.not_eq_false] at hgoes
    exact invoke_of_accepts hgoes
  · cases hdefault : p.default with
    | some e => rfl
    | none => exact absurd (hiff.mpr (.inr ⟨p, hp, hdefault⟩)) hgoes

/-- `fn(a, b = 1) { return a }` -/
def trailingDefault : FunctionLit :=
  ⟨none, [⟨"a", none⟩, ⟨"b", some (.bare (.int 1))⟩], false, [⟨.unknown, .ret [.bare (.ident "a")]⟩]⟩

theorem refused_iff_overfull_or_lacks_trailing :
    trailingDefault.DefaultsLast ∧
    Refused (evaluator 5) 5 ⟨⟨0⟩, trailingDefault, ⟨0⟩⟩ [] .unknown ∧
    ¬ Refused (evaluator 5) 5 ⟨⟨0⟩, trailingDefault, ⟨0⟩⟩ [.ofLength 7] .unknown ∧
    Refused (evaluator 5) 5 ⟨⟨0⟩, trailingDefault, ⟨0⟩⟩
      [.ofLength 7, .ofLength 8, .ofLength 9] .unknown := by
  have hlast : trailingDefault.DefaultsLast := by
    show [_, _].Pairwise _
    simp
  have hiff := fun args => (refused_iff_overfull_or_lacks (evaluator 5) 5
    ⟨⟨0⟩, trailingDefault, ⟨0⟩⟩ args .unknown hlast).1
  refine ⟨hlast, (hiff _).mpr (.inr ⟨_, List.mem_cons_self, rfl⟩), fun h => ?_,
    (hiff _).mpr (.inl ⟨rfl, by decide⟩)⟩
  rcases (hiff _).mp h with hover | ⟨p, hp, hnone⟩
  · exact absurd hover.2 (by decide)
  · obtain rfl := List.mem_singleton.mp hp
    cases hnone

/-- `fn(a = 1, b) { return b }` -/
def leadingDefault : FunctionLit :=
  ⟨none, [⟨"a", some (.bare (.int 1))⟩, ⟨"b", none⟩], false, [⟨.unknown, .ret [.bare (.ident "b")]⟩]⟩

/-- A parameter without a default behind one with a default is not counted: a call
without arguments is not refused, and the parameter is `nil` in it. -/
theorem lacking_call_not_refused :
    leadingDefault.Lacks 0 ∧
    ¬ Refused (evaluator 5) 5 ⟨⟨0⟩, leadingDefault, ⟨0⟩⟩ [] .unknown ∧
    ∃ g τ, invoke (evaluator 5) 5 ⟨⟨0⟩, leadingDefault, ⟨0⟩⟩ [] .unknown
      (Session.ofSetup {}).fiber (Session.ofSetup {}).store = .done (.ok .nothing) g τ := by
  refine ⟨⟨_, List.mem_cons_of_mem _ List.mem_cons_self, rfl⟩, fun h => ?_, ?_⟩
  · exact Bool.noConfusion (refused_iff.mp h)
  · exact ⟨_, _, rfl⟩

end Call
end TreeWalk
