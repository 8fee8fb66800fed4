/-
Formatted texts and the functions of the language agree on twins.

A format asks its arguments for numbers, strings and truth that are not NULL, and for
the text that they show.
-/
import TreeWalk.Builtin
import TreeWalk.Proofs.Twin.Method

namespace TreeWalk

open Atomic Value

variable {v w : Value}

/-! ## Formatted texts -/

namespace Format

variable {display display' : Value → String}

theorem body_eq {layout : Layout} {verb : Char} (hvw : v.Twin w) (hshown : display v = display' w) :
    body display layout verb v = body display' layout verb w := by
  unfold body
  rw [hshown]
  cases hvw with
  | _ => rfl

theorem directiveText_eq {layout : Layout} {verb : Char} (hvw : v.Twin w)
    (hshown : display v = display' w) :
    directiveText display layout verb v = directiveText display' layout verb w := by
  unfold directiveText
  rw [body_eq hvw hshown]

theorem fillIn_eq (hdisplay : ∀ v w : Value, v.Twin w → display v = display' w) (ps : List Piece)
    {xs ys : List Value} (hxy : Twins xs ys) : fillIn display ps xs = fillIn display' ps ys := by
  induction ps generalizing xs ys with
  | nil =>
    cases hxy with
    | nil => rfl
    | cons _ hrest =>
      unfold fillIn
      rw [List.length_cons, List.length_cons, hrest.length_eq]
  | cons piece rest ih =>
    cases piece with
    | literal c =>
      unfold fillIn
      rw [ih hxy]
    | unfinished => rfl
    | directive layout verb =>
      cases hxy with
      | nil => rfl
      | cons hvw hrest =>
        unfold fillIn
        rw [directiveText_eq hvw (hdisplay _ _ hvw), ih hrest]

theorem text_eq (hdisplay : ∀ v w : Value, v.Twin w → display v = display' w) {format : String}
    {xs ys : List Value} (hxy : Twins xs ys) : text display format xs = text display' format ys := by
  unfold text
  rw [fillIn_eq hdisplay _ hxy]

theorem agree_render {format : String} {xs ys : List Value} {pos : Position} (hxy : Twins xs ys) :
    Agree Eq (render format xs pos) (render format ys pos) := by
  refine .seq (.read fun σ τ h => text_eq (fun _ _ => h.display_eq) hxy) fun result => ?_
  split
  · exact .pure rfl
  · exact .fault
  · exact .fail

end Format

/-! ## Functions of the language -/

namespace Native

variable {args args' : Args} {sink : Sink} {pos : Position}

theorem agree_print {text : String} :
    Agree Value.Twin (do Atomic.update (·.print sink text); return .nothing)
      (do Atomic.update (·.print sink text); return .nothing) :=
  .seq (.update fun _ _ h => h.print) fun _ => .same

theorem agree_displayAll {xs ys : List Value} (hxy : Twins xs ys) :
    Agree Eq (displayAll xs) (displayAll ys) :=
  .seq (.read fun _ _ h => map_eq_of_rel hxy fun _ _ => h.display_eq) fun _ => .pure rfl

theorem agree_failConversion {target : String} (h : args.Twin args') (hvw : v.Twin w) :
    Agree Value.Twin (failConversion v target args.pos) (failConversion w target args'.pos) :=
  .seq (agree_inspect hvw) fun _ => h.fail

theorem agree_printFormatted (h : args.Twin args') :
    Agree Value.Twin (printFormatted sink args) (printFormatted sink args') := by
  have hvalues := h.values
  unfold printFormatted
  generalize args.values = xs at hvalues
  generalize args'.values = ys at hvalues
  cases hvalues with
  | nil => exact h.failCount
  | cons hformat hrest =>
    dsimp only
    rw [h.pos_eq]
    exact .seq (h.string hformat) fun _ => .seq (Format.agree_render hrest) fun _ => agree_print

theorem agree_writeTo {text : String} (h : args.Twin args') (hvw : v.Twin w) :
    Agree Value.Twin (writeTo v text args) (writeTo w text args') := by
  cases hvw with
  | same v =>
    unfold writeTo
    split
    · next id _ _ _ =>
      refine .bind (R := HostObject.Twin) (.read fun _ _ hστ => hστ.host id) fun o p hop => ?_
      rw [hop.write_eq, hop.text_eq, h.pos_eq]
      split
      · exact .seq (.update fun _ _ hστ => hστ.setHostText) fun _ => .same
      · exact .fail
      · exact h.failInput
    · exact h.failInput
  | _ => exact h.failInput

theorem agree_writeFormatted (h : args.Twin args') :
    Agree Value.Twin (writeFormatted args) (writeFormatted args') := by
  have hvalues := h.values
  unfold writeFormatted
  generalize args.values = xs at hvalues
  generalize args'.values = ys at hvalues
  cases hvalues with
  | nil => exact h.failCount
  | cons hwriter hrest =>
    cases hrest with
    | nil => exact h.failCount
    | cons hformat hrest =>
      dsimp only
      rw [h.pos_eq]
      exact .seq (h.string hformat) fun _ => .seq (Format.agree_render hrest) fun _ =>
        agree_writeTo h hwriter

theorem agree_length (h : args.Twin args') : Agree Value.Twin (length args) (length args') := by
  refine .bind h.one fun v w hvw => ?_
  cases hvw with
  | same v =>
    split
    · split
      · exact .same
      · exact h.failInput
    · refine .bind agree_items fun xs ys hxy => ?_
      rw [← Array.length_toList, ← Array.length_toList, hxy.length_eq]
      exact .same
    · refine .bind agree_dict fun d e hde => ?_
      rw [hde.size_eq]
      exact .same
    · exact .same
    · exact .same
    · next id =>
      refine .bind (R := Channel.Twin) (.read fun _ _ hστ => hστ.channel id) fun c d hcd => ?_
      rw [hcd.length_eq]
      exact .same
    · exact h.failInput
  | tuple multi hxy =>
    dsimp only
    rw [hxy.length_eq]
    exact .same
  | _ => exact h.failInput

/-- The receiver becomes the only argument of a conversion. -/
theorem twin_alone (h : args.Twin args') :
    Args.Twin { args with values := [] } { args' with values := [] } := { h with values := .nil }

theorem agree_toInt (h : args.Twin args') : Agree Value.Twin (toInt args) (toInt args') := by
  refine .bind h.one fun v w hvw => ?_
  have hfail : Agree Value.Twin (failConversion v "INTEGER" args.pos)
      (failConversion w "INTEGER" args'.pos) := agree_failConversion h hvw
  cases hvw with
  | same v =>
    split
    · exact .same
    · split
      · exact .same
      · exact hfail
    · exact FloatMethod.agree_run (.same _) (twin_alone h) nofun
    · exact StringMethod.agree_run (.same _) (twin_alone h) nofun
    · exact hfail
  | int m n => exact .pure (.int m n)
  | float x y => exact FloatMethod.agree_run (.float x y) (twin_alone h) nofun
  | str s t => exact StringMethod.agree_run (.str s t) (twin_alone h) nofun
  | bool p q message => exact hfail
  | tuple multi hxy => exact hfail

theorem agree_toFloat (h : args.Twin args') : Agree Value.Twin (toFloat args) (toFloat args') := by
  refine .bind h.one fun v w hvw => ?_
  have hfail : Agree Value.Twin (failConversion v "FLOAT" args.pos)
      (failConversion w "FLOAT" args'.pos) := agree_failConversion h hvw
  cases hvw with
  | same v =>
    split
    · exact .same
    · exact IntMethod.agree_run (.same _) (twin_alone h) nofun
    · exact StringMethod.agree_run (.same _) (twin_alone h) nofun
    · exact hfail
  | int m n => exact IntMethod.agree_run (.int m n) (twin_alone h) nofun
  | float x y => exact .pure (.float x y)
  | str s t => exact StringMethod.agree_run (.str s t) (twin_alone h) nofun
  | bool p q message => exact hfail
  | tuple multi hxy => exact hfail

theorem agree_check (h : args.Twin args') : Agree Value.Twin (check args) (check args') := by
  refine .bind h.oneOrTwo fun r s hrs => .seq (agree_truthy hrs.1) fun truth => ?_
  obtain ⟨a, m?⟩ := r
  obtain ⟨b, n?⟩ := s
  dsimp only at hrs ⊢
  rw [h.pos_eq]
  split
  · exact .same
  · cases hrs.2 with
    | none => exact .seq (agree_inspect hrs.1) fun _ => .fail
    | some hmn => exact .seq (agree_display hmn) fun _ => .fail

/-- A new object is numbered by how many there are. -/
theorem agree_newObject {make : Store → Value × Store}
    (h : ∀ σ τ : Store, σ.Twin τ → (make σ).1 = (make τ).1 ∧ (make σ).2.Twin (make τ).2) :
    Agree Value.Twin (Atomic.change make) (Atomic.change make) :=
  .change fun σ τ hστ => ⟨(h σ τ hστ).1 ▸ .same _, (h σ τ hστ).2⟩

theorem agree_newChannel (h : args.Twin args') :
    Agree Value.Twin (newChannel args) (newChannel args') := by
  refine .bind h.upToOne fun v? w? hvw => ?_
  have fresh : ∀ capacity, Agree Value.Twin (Atomic.change (·.newChannel capacity))
      (Atomic.change (·.newChannel capacity)) := fun _ => agree_newObject fun _ _ hστ => hστ.newChannel
  cases hvw with
  | none => exact fresh 0
  | some hvw =>
    dsimp only
    rw [hvw.int?_eq]
    split
    · split
      · exact fresh _
      · exact h.failKind hvw
    · exact h.failKind hvw

theorem agree_newRange (h : args.Twin args') : Agree Value.Twin (newRange args) (newRange args') := by
  refine .bind h.oneOrTwo fun r s hrs => .seq (h.int hrs.1) fun m => ?_
  obtain ⟨a, b?⟩ := r
  obtain ⟨a', b?'⟩ := s
  cases hrs.2 with
  | none => exact .same
  | some hbb => exact .seq (h.int hbb) fun _ => .same

theorem agree_newCond {mutex : Option MutexId} :
    Agree Value.Twin (Atomic.change (·.newCond mutex)) (Atomic.change (·.newCond mutex)) :=
  agree_newObject fun _ _ h => ⟨congrArg (fun s => (s.newCond mutex).1) h.bare_eq,
    { h with bare_eq := congrArg (fun s => (s.newCond mutex).2) h.bare_eq }⟩

theorem agree_newCondition (h : args.Twin args') :
    Agree Value.Twin (newCondition args) (newCondition args') := by
  refine .bind h.upToOne fun v? w? hvw => ?_
  cases hvw with
  | none => exact agree_newCond
  | @some v w hvw =>
    have hfail : Agree Value.Twin (args.failKind 0 "MUTEX" v) (args'.failKind 0 "MUTEX" w) :=
      h.failKind hvw
    cases hvw with
    | same v =>
      split
      · exact agree_newCond
      · exact agree_newCond
      · next heq => exact Option.some.inj heq ▸ hfail
    | _ => exact hfail

/-- A function of the language agrees on twins. -/
theorem agree_run {f : Native} {xs ys : List Value} (hxy : Twins xs ys) :
    Agree Value.Twin (run f xs pos sink) (run f ys pos sink) := by
  have h : Args.Twin ⟨f.name, xs, pos⟩ ⟨f.name, ys, pos⟩ := ⟨rfl, rfl, hxy⟩
  cases f with
  | assert => exact agree_check h
  | chan => exact agree_newChannel h
  | float => exact agree_toFloat h
  | fprintf => exact agree_writeFormatted h
  | int => exact agree_toInt h
  | len => exact agree_length h
  | print => exact .seq (agree_displayAll hxy) fun _ => agree_print
  | printf => exact agree_printFormatted h
  | println => exact .seq (agree_displayAll hxy) fun _ => agree_print
  | range => exact agree_newRange h
  | str => exact .bind h.one fun v w hvw => .seq (agree_display hvw) fun _ => .same
  | type =>
    refine .bind h.one fun v w hvw => ?_
    rw [hvw.kind_eq]
    exact .same
  | newWaitGroup =>
    exact agree_newObject fun _ _ h => ⟨congrArg (fun s => s.newWaitGroup.1) h.bare_eq,
      { h with bare_eq := congrArg (fun s => s.newWaitGroup.2) h.bare_eq }⟩
  | newMutex =>
    exact agree_newObject fun _ _ h => ⟨congrArg (fun s => s.newMutex.1) h.bare_eq,
      { h with bare_eq := congrArg (fun s => s.newMutex.2) h.bare_eq }⟩
  | newRWMutex =>
    exact agree_newObject fun _ _ h => ⟨congrArg (fun s => s.newRWMutex.1) h.bare_eq,
      { h with bare_eq := congrArg (fun s => s.newRWMutex.2) h.bare_eq }⟩
  | newCond => exact agree_newCondition h
  | newOnce =>
    exact agree_newObject fun _ _ h => ⟨congrArg (fun s => s.newOnce.1) h.bare_eq,
      { h with bare_eq := congrArg (fun s => s.newOnce.2) h.bare_eq }⟩

end Native
end TreeWalk
