/-
Conditionals, errors, calls put off, pipes, structs and enums halt if their parts
do.

A pipe evaluates a tree that is not one of its parts.  The new tree is a call made of
the parts of the one on the right and of a literal, whose parts are literals again.
-/
import TreeWalk.Proofs.Eval.Control
import TreeWalk.Proofs.Halting.Expression

namespace TreeWalk

open Eval Value

namespace Setting

variable {c : Setting} {ev : Nat → Evaluator} {m : Nat} {pos : Position}

theorem halts_conditional {otherwise : Option Block} {branches : List (Expr × Block)}
    (hotherwise : ∀ s ∈ otherwise.getD [], c.Handles ev m (.stmt s))
    (hcond : ∀ branch ∈ branches, c.Handles ev m (.expr branch.1))
    (hbody : ∀ branch ∈ branches, ∀ s ∈ branch.2, c.Handles ev m (.stmt s)) :
    c.Halts m Value.Tame fun n => Control.conditional (ev n) otherwise branches := by
  induction branches with
  | nil => exact halts_innerBlockOr hotherwise trivial
  | cons branch rest ih =>
    refine (halts_test (hcond branch List.mem_cons_self)).seq fun truth => ?_
    split
    · exact halts_innerBlock (hbody branch List.mem_cons_self)
    · exact ih (fun branch h => hcond branch (List.mem_cons_of_mem _ h))
        fun branch h => hbody branch (List.mem_cons_of_mem _ h)

theorem halts_unlessThen {cond : Expr} {body : Block} {otherwise : Option Block}
    (hcond : c.Handles ev m (.expr cond)) (hbody : ∀ s ∈ body, c.Handles ev m (.stmt s))
    (hotherwise : ∀ s ∈ otherwise.getD [], c.Handles ev m (.stmt s)) :
    c.Halts m Value.Tame fun n => Control.unlessThen (ev n) cond body otherwise := by
  refine (halts_test hcond).seq fun truth => ?_
  split
  · exact halts_innerBlockOr hotherwise trivial
  · exact halts_innerBlock hbody

theorem halts_ternary {cond yes no : Expr} (hcond : c.Handles ev m (.expr cond))
    (hyes : c.Handles ev m (.expr yes)) (hno : c.Handles ev m (.expr no)) :
    c.Halts m Value.Tame fun n => (do
      if ← (ev n).test cond then (ev n).expr yes else (ev n).expr no) := by
  refine (halts_test hcond).seq fun truth => ?_
  split
  · exact hyes.tame
  · exact hno.tame

/-! ## Case -/

theorem halts_anyAgrees {mode : CaseMode} {subject : Value} {patterns : List Expr}
    (hpatterns : ∀ e ∈ patterns, c.Handles ev m (.expr e)) :
    c.Halts m Any fun n => Control.anyAgrees (ev n) mode subject pos patterns := by
  induction patterns with
  | nil => exact .pure trivial
  | cons pattern rest ih =>
    refine Halts.bind (hpatterns pattern List.mem_cons_self) fun candidate _ => ?_
    refine (Halts.lift Control.sound_agrees).bind fun truth _ => ?_
    split
    · exact .pure trivial
    · exact ih fun e h => hpatterns e (List.mem_cons_of_mem _ h)

theorem halts_caseArms {mode : CaseMode} {subject : Value} {otherwise : Option Block}
    {arms : List (List Expr × Block)} (hsubject : subject.Tame)
    (hotherwise : ∀ s ∈ otherwise.getD [], c.Handles ev m (.stmt s))
    (hpatterns : ∀ arm ∈ arms, ∀ e ∈ arm.1, c.Handles ev m (.expr e))
    (hbody : ∀ arm ∈ arms, ∀ s ∈ arm.2, c.Handles ev m (.stmt s)) :
    c.Halts m Value.Tame fun n => Control.caseArms (ev n) mode subject otherwise pos arms := by
  induction arms with
  | nil => exact halts_innerBlockOr hotherwise hsubject
  | cons arm rest ih =>
    refine (halts_anyAgrees (hpatterns arm List.mem_cons_self)).seq fun truth => ?_
    split
    · exact halts_innerBlock (hbody arm List.mem_cons_self)
    · exact ih (fun arm h => hpatterns arm (List.mem_cons_of_mem _ h))
        fun arm h => hbody arm (List.mem_cons_of_mem _ h)

theorem halts_caseOf {subject : Expr} {mode : CaseMode} {otherwise : Option Block}
    {arms : List (List Expr × Block)} (hsubject : c.Handles ev m (.expr subject))
    (hotherwise : ∀ s ∈ otherwise.getD [], c.Handles ev m (.stmt s))
    (hpatterns : ∀ arm ∈ arms, ∀ e ∈ arm.1, c.Handles ev m (.expr e))
    (hbody : ∀ arm ∈ arms, ∀ s ∈ arm.2, c.Handles ev m (.stmt s)) :
    c.Halts m Value.Tame fun n => Control.caseOf (ev n) subject mode arms otherwise pos :=
  hsubject.tame.bind fun _ hv => halts_caseArms hv hotherwise hpatterns hbody

/-! ## Errors -/

theorem halts_handle {message : String} {name? : Option String} {body : Block}
    (hbody : ∀ s ∈ body, c.Handles ev m (.stmt s)) :
    c.Halts m Value.Tame fun n => Control.handle (ev n) message name? body := by
  refine Halts.withChildScope ?_
  refine (Halts.bindName (within_ofString message)).seq fun _ => ?_
  cases name? with
  | none => exact halts_block hbody
  | some name =>
    exact (Halts.bindName (within_ofString message)).seq fun _ => halts_block hbody

theorem halts_catchClauses {message : String} {result : Except Exit Value}
    {clauses : List (CatchPattern × Block)} (hresult : Settled Value.Tame result)
    (hbody : ∀ clause ∈ clauses, ∀ s ∈ clause.2, c.Handles ev m (.stmt s)) :
    c.Halts m (Settled Value.Tame)
      fun n => Control.catchClauses (ev n) message result clauses := by
  induction clauses with
  | nil => exact .pure hresult
  | cons clause rest ih =>
    refine Halts.fiber.bind fun f _ => Halts.look.seq fun name?? => ?_
    cases name?? with
    | some name? => exact (halts_handle (hbody clause List.mem_cons_self)).attempt
    | none => exact ih fun clause h => hbody clause (List.mem_cons_of_mem _ h)

theorem halts_cleanup {result : Except Exit Value} {block : Block}
    (hresult : Settled Value.Tame result) (hblock : ∀ s ∈ block, c.Handles ev m (.stmt s)) :
    c.Halts m Value.Tame fun n => (do
      match ← attempt ((ev n).innerBlock block) with
      | .error (.error e) => exit (.error e)
      | _ => ofResult result) := by
  refine (halts_innerBlock hblock).attempt.bind fun r _ => ?_
  split
  · exact .exit (fun he => nomatch he) trivial
  · exact .ofResult hresult

theorem halts_tryCatch {body : Block} {catches : List (CatchPattern × Block)}
    {cleanup : Option Block} (hbody : ∀ s ∈ body, c.Handles ev m (.stmt s))
    (hcatches : ∀ clause ∈ catches, ∀ s ∈ clause.2, c.Handles ev m (.stmt s))
    (hcleanup : ∀ s ∈ cleanup.getD [], c.Handles ev m (.stmt s)) :
    c.Halts m Value.Tame fun n => Control.tryCatch (ev n) body catches cleanup := by
  refine (halts_innerBlock hbody).attempt.bind fun tried htried => ?_
  cases cleanup with
  | none =>
    cases Control.caughtMessage? tried with
    | none => exact .ofResult htried
    | some message =>
      exact (halts_catchClauses htried hcatches).bind fun _ hresult => .ofResult hresult
  | some block =>
    cases Control.caughtMessage? tried with
    | none => exact halts_cleanup htried hcleanup
    | some message =>
      exact (halts_catchClauses htried hcatches).bind fun _ hresult =>
        halts_cleanup hresult hcleanup

theorem halts_throwValue {value : Expr} (hvalue : c.Handles ev m (.expr value)) :
    c.Halts m Value.Tame fun n => Control.throwValue (ev n) value pos := by
  refine Halts.bind hvalue fun v _ => ?_
  split
  · exact .fail
  · exact .fail

/-! ## Calls put off and pipes -/

/-- The call is put off on the frame of the setting, or refused. -/
theorem halts_deferCall {call : Expr} {k : Nat} (hk : k < m) (hcall : (Tree.expr call).Shallow k) :
    c.Halts m Value.Tame fun _ => Control.deferCall call pos := by
  unfold Control.deferCall
  split
  · intro f σ hf
    cases hframe : σ.frame? f.scope with
    | none =>
      refine Comes.congr (x := fun _ => fail .deferOutsideFunction pos)
        (Halts.fail f σ hf) (.of_forall fun _ => ?_)
      simp only [bind_apply, fiber, Eval.read, Step.andThen, follow, hframe]
    | some frame =>
      have hown : c.own = some frame.id := hf.owner.eq_of_frame? hframe
      have hdue : σ.Due m frame.id ⟨call, f.scope⟩ := ⟨hown ▸ hf.owner, k, hk, hcall⟩
      have hleads : σ.Leads c.own m (σ.defer frame.id ⟨call, f.scope⟩) := hown ▸ .defer hdue
      have hfits : c.Fits f (σ.defer frame.id ⟨call, f.scope⟩) :=
        hf.step hleads.toExtends (hf.closed.defer trivial) rfl
      refine .of_done (fun _ => ?_) (show c.Post _ _ Value.Tame (.ok .nothing) f _ from
        ⟨hfits, hleads, trivial⟩)
      simp only [bind_apply, fiber, Eval.read, Eval.update, Step.andThen, follow, hframe]
      rfl
  · exact .fail

/-- What a pipe evaluates halts if the call does with any literal put before its
arguments. -/
theorem halts_pipe {left right : Expr} (hleft : c.Handles ev m (.expr left))
    (hcall : ∀ (σ : Store) (v : Value) (literal call : Expr), σ.literal? left.pos v = some literal →
      right.withFirstArgument? literal = some call → c.Handles ev m (.expr call)) :
    c.Halts m Value.Tame fun n => Control.pipe (ev n) left right pos := by
  unfold Control.pipe
  split
  · refine Halts.bind hleft fun v _ => ?_
    have read : c.Halts m (fun literal? => ∀ literal, literal? = some literal →
        ∃ σ : Store, σ.literal? left.pos v = some literal)
        fun _ => Eval.read (·.literal? left.pos v) := .read fun σ _ _ h => ⟨σ, h⟩
    refine read.bind fun literal? hliteral => ?_
    cases literal? with
    | none => exact .pure trivial
    | some literal =>
      obtain ⟨σ, hmade⟩ := hliteral literal rfl
      dsimp only
      split
      · next call hright => exact (hcall σ v literal call hmade hright).tame
      · exact .fail
  · exact .fail

/-! ## Programs -/

/-- A program ends with a value or an error, or with a fault. -/
theorem haltsAt_topLevel {program : Program} {f : Fiber} {σ : Store}
    (h : ∀ s ∈ program, c.Handles ev m (.stmt s)) (hf : c.Fits f σ) :
    c.HaltsAt (σ.Leads c.own m) (fun e => ∃ error, e = .error error) Value.Tame
      (fun n => Control.topLevel (ev n) program) f σ := by
  refine (halts_block h f σ hf).attempt.bind (fun r g τ hg hτ hr => ?_) fun _ h => h
  split
  · exact .pure hg hτ hr.2
  · exact .pure hg hτ trivial
  · exact .pure hg hτ trivial
  · next hret hbrk hnext =>
    cases r with
    | ok v => exact .of_done (fun _ => rfl) ⟨hg, hτ, hr⟩
    | error e =>
      cases e with
      | error e => exact .exit hg hτ nofun ⟨e, rfl⟩
      | ret v => exact absurd rfl (hret v)
      | brk => exact absurd rfl hbrk
      | next => exact absurd rfl hnext
      | fault message => cases hr.1
      | exhausted => cases hr.1

theorem halts_topLevel {program : Program} (h : ∀ s ∈ program, c.Handles ev m (.stmt s)) :
    c.Halts m Value.Tame fun n => Control.topLevel (ev n) program := by
  intro f σ hf
  refine (haltsAt_topLevel h hf).weaken ?_
  rintro e ⟨error, rfl⟩
  exact trivial

/-! ## Structs and enums -/

theorem halts_structOf {body : Block} (hbody : ∀ s ∈ body, c.Handles ev m (.stmt s)) :
    c.Halts m Value.Tame fun n => Control.structOf (ev n) body := by
  intro f σ hf
  have answer : c.Halts m Value.Tame fun _ => (do
      return .struct ⟨σ.scopes.size⟩ (← Eval.read (Control.functionNames · ⟨σ.scopes.size⟩))) :=
    Halts.look.seq fun _ => .pure trivial
  have run := ((halts_block hbody).inChildScope hf).bind
    (fun _ _ _ hg hτ _ => answer.part hg hτ) fun _ h => h
  exact run.of_eq fun _ => rfl

theorem halts_variantValues {k : Int64} {variants : List (String × Option Expr)}
    (h : ∀ variant ∈ variants, ∀ e ∈ variant.2, c.Handles ev m (.expr e)) :
    c.Halts m (fun members => ∀ member ∈ members, member.2.Tame)
      fun n => Control.variantValues (ev n) k variants := by
  induction variants generalizing k with
  | nil => exact .pure fun member hm => nomatch hm
  | cons variant rest ih =>
    obtain ⟨name, explicit⟩ := variant
    have go : ∀ v following, v.Tame → c.Halts m (fun members => ∀ member ∈ members, member.2.Tame)
        fun n => do return (name, v) :: (← Control.variantValues (ev n) following rest) := by
      intro v following hv
      refine Halts.bind (ih fun variant hv => h variant (List.mem_cons_of_mem _ hv))
        fun members hmembers => .pure fun member hm => ?_
      rcases List.mem_cons.mp hm with rfl | hm
      · exact hv
      · exact hmembers member hm
    cases explicit with
    | some e => exact (h _ List.mem_cons_self e rfl).tame.bind fun v hv => go v _ hv
    | none => exact go (.ofInt k) _ trivial

theorem halts_enumOf {variants : List (String × Option Expr)}
    (h : ∀ variant ∈ variants, ∀ e ∈ variant.2, c.Handles ev m (.expr e)) :
    c.Halts m Value.Tame fun n => Control.enumOf (ev n) variants :=
  Halts.bind (halts_variantValues h) fun _ hmembers => Halts.fiber.bind fun _ _ =>
    (Halts.newEnum hmembers).seq fun _ => .pure trivial

end Setting
end TreeWalk
