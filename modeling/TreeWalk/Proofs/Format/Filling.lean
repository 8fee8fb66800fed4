/-
Formats filled in with arguments.

Filling in goes through the pieces of a format and takes one argument for each
directive.  So formats can be filled in side by side: what the first one makes of
its arguments stands before what the second one makes of its own.
-/
import TreeWalk.Proofs.Atomic.Sound
import TreeWalk.Proofs.Format.Grammar

namespace TreeWalk
namespace Format

variable {display : Value → String} {cs : List Char} {ps ps' : List Piece}
  {args args' : List Value} {t t' : List Char}

/-! ## Pieces and their arguments -/

/-- How pieces are filled in if nothing goes wrong. -/
inductive Fills (display : Value → String) : List Piece → List Value → List Char → Prop
  | nil : Fills display [] [] []
  | literal {c : Char} {ps : List Piece} {args : List Value} {t : List Char}
      (h : Fills display ps args t) : Fills display (.literal c :: ps) args (c :: t)
  | directive {layout : Layout} {verb : Char} {arg : Value} {text : List Char} {ps : List Piece}
      {args : List Value} {t : List Char} (htext : directiveText display layout verb arg = .ok text)
      (h : Fills display ps args t) :
      Fills display (.directive layout verb :: ps) (arg :: args) (text ++ t)

theorem fills_of_fillIn (h : fillIn display ps args = .ok t) : Fills display ps args t := by
  induction ps, args using fillIn.induct generalizing t with
  | case1 =>
    cases h
    exact .nil
  | case2 args hargs =>
    cases args with
    | nil => exact absurd rfl hargs
    | cons => cases h
  | case3 c ps args ih =>
    rw [fillIn] at h
    cases hrest : fillIn display ps args with
    | error problem =>
      rw [hrest] at h
      cases h
    | ok text =>
      rw [hrest] at h
      cases h
      exact .literal (ih hrest)
  | case4 => cases h
  | case5 => cases h
  | case6 layout verb ps arg args ih =>
    rw [fillIn] at h
    cases htext : directiveText display layout verb arg with
    | error problem =>
      rw [htext] at h
      cases h
    | ok text =>
      cases hrest : fillIn display ps args with
      | error problem =>
        rw [htext, hrest] at h
        cases h
      | ok text' =>
        rw [htext, hrest] at h
        cases h
        exact .directive htext (ih hrest)

namespace Fills

theorem fillIn_eq (h : Fills display ps args t) : fillIn display ps args = .ok t := by
  induction h with
  | nil => rfl
  | literal _ ih =>
    rw [fillIn, ih]
    rfl
  | directive htext _ ih =>
    rw [fillIn, htext, ih]
    rfl

theorem append (h : Fills display ps args t) (h' : Fills display ps' args' t') :
    Fills display (ps ++ ps') (args ++ args') (t ++ t') := by
  induction h with
  | nil => exact h'
  | literal _ ih => exact .literal ih
  | directive htext _ ih =>
    rw [List.append_assoc]
    exact .directive htext ih

end Fills

/-- A piece takes an argument. -/
def Piece.takes : Piece → Bool
  | directive _ _ => true
  | _ => false

/-- How many arguments pieces take. -/
def arity (ps : List Piece) : Nat := ps.countP Piece.takes

theorem Fills.length_args (h : Fills display ps args t) : args.length = arity ps := by
  induction h with
  | nil => rfl
  | literal _ ih =>
    rw [ih]
    exact (List.countP_cons_of_neg Bool.false_ne_true).symm
  | directive _ _ ih =>
    rw [List.length_cons, ih]
    exact (List.countP_cons_of_pos rfl).symm

theorem fills_literals (cs : List Char) : Fills display (cs.map .literal) [] cs := by
  induction cs with
  | nil => exact .nil
  | cons c cs ih => exact .literal ih

/-! ## What can be filled in has a reading -/

theorem verb_of_directiveText {layout : Layout} {verb : Char} {arg : Value} {text : List Char}
    (h : directiveText display layout verb arg = .ok text) : verb ∈ verbs := by
  cases hbody : body display layout verb arg with
  | error problem =>
    unfold directiveText at h
    rw [hbody] at h
    cases h
  | ok b =>
    unfold body at hbody
    split at hbody
    all_goals first
      | decide
      | cases hbody

theorem Fills.reads (h : Fills display (pieces cs) args t) : Reads cs (pieces cs) := by
  induction cs using pieces.induct generalizing args t with
  | case1 =>
    rw [pieces]
    exact .nil
  | case2 cs ih =>
    rw [pieces] at h ⊢
    cases h with
    | literal h => exact .percent (ih h)
  | case3 cs hne layout hread =>
    rw [pieces_unfinished hne hread] at h
    cases h
  | case4 cs hne layout verb rest hread ih =>
    rw [pieces_directive hne hread] at h ⊢
    obtain ⟨s, hchars, hlayout⟩ := Layout.exists_spec cs
    rw [hread] at hchars hlayout
    obtain rfl : layout = s.layout := hlayout
    cases h with
    | directive htext h =>
      rw [hchars]
      exact .directive (verb_of_directiveText htext) (ih h)
  | case5 c cs _ hc ih =>
    rw [pieces_literal hc] at h ⊢
    cases h with
    | literal h => exact .literal hc (ih h)

/-! ## Texts -/

/-- A text with every percent sign doubled. -/
def doubled (s : String) : String :=
  String.ofList (s.toList.flatMap fun c => if c = '%' then ['%', '%'] else [c])

theorem reads_doubled (cs : List Char) :
    Reads (cs.flatMap fun c => if c = '%' then ['%', '%'] else [c]) (cs.map .literal) := by
  induction cs with
  | nil => exact .nil
  | cons c cs ih =>
    rw [List.flatMap_cons, List.map_cons]
    split
    · next hc =>
      subst hc
      exact .percent ih
    · next hc => exact .literal hc ih

theorem render_of_fillIn {format : String} {pos : Position} {σ : Store}
    (h : fillIn σ.display (pieces format.toList) args = .ok t) :
    render format args pos σ = .ok (String.ofList t, σ) := by
  have htext : text σ.display format args = .ok (String.ofList t) := by
    rw [text, h]
    rfl
  rw [render, fillOut, Atomic.read_bind_apply, htext]
  rfl

theorem render_of_problem {format : String} {σ : Store} {problem : Problem} (pos : Position)
    (h : fillIn σ.display (pieces format.toList) args = .error problem) :
    ∃ e, render format args pos σ = .error e := by
  have htext : text σ.display format args = .error problem := by
    rw [text, h]
    rfl
  rw [render, fillOut, Atomic.read_bind_apply, htext]
  cases problem <;> exact ⟨_, rfl⟩

/-- A format can be filled in if it has a reading whose pieces can be. -/
theorem render_eq_ok_iff {format answer : String} {pos : Position} {σ τ : Store} :
    render format args pos σ = .ok (answer, τ) ↔
      τ = σ ∧ ∃ ps, Reads format.toList ps ∧ Fills σ.display ps args answer.toList := by
  constructor
  · intro h
    cases hfill : fillIn σ.display (pieces format.toList) args with
    | error problem =>
      obtain ⟨e, he⟩ := render_of_problem pos hfill
      rw [he] at h
      cases h
    | ok t =>
      rw [render_of_fillIn hfill] at h
      cases h
      have hfills := fills_of_fillIn hfill
      refine ⟨rfl, _, hfills.reads, ?_⟩
      rw [String.toList_ofList]
      exact hfills
  · rintro ⟨rfl, ps, hreads, hfills⟩
    rw [← hreads.pieces_eq] at hfills
    rw [render_of_fillIn hfills.fillIn_eq, String.ofList_toList]

/-- Formats can be filled in side by side, doubled percent signs stand for themselves,
and a format takes as many arguments as it has directives. -/
theorem render_compositional (pos : Position) (σ : Store) :
    (∀ f g args args' s t, render f args pos σ = .ok (s, σ) → render g args' pos σ = .ok (t, σ) →
      render (f ++ g) (args ++ args') pos σ = .ok (s ++ t, σ)) ∧
    (∀ s, render (doubled s) [] pos σ = .ok (s, σ)) ∧
    ∀ f args t τ, render f args pos σ = .ok (t, τ) →
      τ = σ ∧ ∃ ps, Reads f.toList ps ∧ (∀ ps', Reads f.toList ps' → ps' = ps) ∧
        args.length = arity ps := by
  refine ⟨fun f g args args' s t hf hg => ?_, fun s => ?_, fun f args t τ h => ?_⟩
  · obtain ⟨-, ps, hreads, hfills⟩ := render_eq_ok_iff.mp hf
    obtain ⟨-, ps', hreads', hfills'⟩ := render_eq_ok_iff.mp hg
    refine render_eq_ok_iff.mpr ⟨rfl, ps ++ ps', ?_, ?_⟩
    · rw [String.toList_append]
      exact hreads.append hreads'
    · rw [String.toList_append]
      exact hfills.append hfills'
  · refine render_eq_ok_iff.mpr ⟨rfl, s.toList.map .literal, ?_, fills_literals _⟩
    rw [doubled, String.toList_ofList]
    exact reads_doubled _
  · obtain ⟨hstore, ps, hreads, hfills⟩ := render_eq_ok_iff.mp h
    exact ⟨hstore, ps, hreads, fun ps' h' => h'.unique hreads, hfills.length_args⟩

/-- Nothing between the percent sign and the verb. -/
def Spec.plain : Spec := ⟨[], [], none, nofun, nofun, nofun, nofun⟩

theorem render_compositional_truth :
    render "%t%%" [.ofBool true] default default = .ok ("true%", default) ∧
    render ("%t%%" ++ "<%t>") ([.ofBool true] ++ [.ofBool false]) default default =
      .ok ("true%" ++ "<false>", default) := by
  have verb : 't' ∈ verbs := by decide
  have first : render "%t%%" [.ofBool true] default default = .ok ("true%", default) := by
    refine render_eq_ok_iff.mpr ⟨rfl, [.directive Spec.plain.layout 't', .literal '%'], ?_, ?_⟩
    · exact Reads.directive (s := .plain) verb (.percent .nil)
    · exact Fills.directive (show _ = Except.ok ['t', 'r', 'u', 'e'] from rfl) (.literal .nil)
  have second : render "<%t>" [.ofBool false] default default = .ok ("<false>", default) := by
    refine render_eq_ok_iff.mpr
      ⟨rfl, [.literal '<', .directive Spec.plain.layout 't', .literal '>'], ?_, ?_⟩
    · exact Reads.literal (c := '<') (by decide)
        (.directive (s := .plain) verb (.literal (c := '>') (by decide) .nil))
    · exact .literal (Fills.directive (show _ = Except.ok ['f', 'a', 'l', 's', 'e'] from rfl)
        (.literal .nil))
  exact ⟨first, (render_compositional default default).1 _ _ _ _ _ _ first second⟩

end Format
end TreeWalk
