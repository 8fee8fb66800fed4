/-
What NULL scalars hide stays hidden.

Twins cannot be told apart by showing them, by testing or filing them, by operators,
methods, functions of the language or formatted texts: everything that can be asked of
one of them is answered alike for the other.  Only two methods look at what a NULL
scalar hides.  `setValid` brings it out, as it is meant to, but is also told to by a
flag that is NULL itself; and `message` takes a NULL boolean for a failure if it hides
`false`.

A method that calls a function of the program back answers alike if that function does,
and a method of a host object if the code of the host does.
-/
import TreeWalk.Proofs.Eval.Node
import TreeWalk.Proofs.Method.Table
import TreeWalk.Proofs.Twin.Eval
import TreeWalk.Proofs.Twin.Operator

namespace TreeWalk

open Eval

variable {ev : Evaluator} {args args' : Args} {f g : Value}

/-! ## Functions -/

/-- What can be called has no twin but itself. -/
theorem Value.Twin.eq_of_isCallable (h : f.Twin g) (hf : f.isCallable = true) : f = g := by
  cases h with
  | same f => rfl
  | _ => cases hf

/-- The same callable argument on both sides. -/
def Args.Callee (args : Args) (f g : Value) : Prop := f = g ∧ f ∈ args.values

theorem Args.Twin.callee (h : args.Twin args') {i : Nat} (hfg : f.Twin g) (hf : f ∈ args.values) :
    Atomic.Agree args.Callee (args.callable i f) (args'.callable i g) := by
  unfold Args.callable
  rw [hfg.isCallable_eq]
  split
  · next hcallable =>
    exact .pure ⟨hfg.eq_of_isCallable (hfg.isCallable_eq.trans hcallable), hf⟩
  · exact h.failKind hfg

namespace Visit

variable {xs ys : List Value}

section Items

variable (hf : ev.Discreet f)
include hf

end Items

variable (hcallees : ∀ f ∈ args.values, ev.Discreet f)
include hcallees

end Visit

/-! ## Channels and host objects -/

namespace Object

end Object

namespace HostCode

/-- Code that goes on alike when it is told twins. -/
inductive Twin : HostCode → HostCode → Prop
  | answer (v : HostValue) : Twin (.answer v) (.answer v)
  | raise (e : Error) : Twin (.raise e) (.raise e)
  | panic (message : String) : Twin (.panic message) (.panic message)
  | array {next next' : HostCode} (items : List HostValue) (h : Twin next next') :
    Twin (.array items next) (.array items next')
  | call {next next' : Except Error Value → HostCode} (f : HostValue) (args : List HostValue)
      (hok : ∀ v w : Value, v.Twin w → Twin (next (.ok v)) (next' (.ok w)))
      (herror : ∀ e, Twin (next (.error e)) (next' (.error e))) :
    Twin (.call f args next) (.call f args next')
  | print {next next' : HostCode} (text : String) (h : Twin next next') :
    Twin (.print text next) (.print text next')
  | fetch {next next' : String → HostCode} (h : ∀ text, Twin (next text) (next' text)) :
    Twin (.fetch next) (.fetch next')
  | note {next next' : HostCode} (text : String) (h : Twin next next') :
    Twin (.note text next) (.note text next')

end HostCode

/-- The methods of an object do not look at what NULL scalars hide. -/
def HostObject.Discreet (o : HostObject) : Prop :=
  ∀ (name : String) (xs ys : List Value) (pos : Position), Value.Twins xs ys →
    (o.run name xs pos).Twin (o.run name ys pos)

namespace Probe

theorem twin_apply {xs ys : List Value} {pos : Position} (h : Value.Twins xs ys) :
    (apply xs pos).Twin (apply ys pos) := by
  have hlength := h.length_eq
  cases h with
  | nil => exact .raise _
  | cons _ _ =>
    simp only [apply, givenFrom, hlength]
    exact .call _ _ (fun _ _ _ => .answer _) fun e => .raise e

/-- A probe counts its arguments and hands them on. -/
theorem discreet_toHost (p : Probe) : p.toHost.Discreet := by
  intro name xs ys pos hxy
  change (run name xs pos).Twin (run name ys pos)
  simp only [run, givenFrom, hxy.length_eq]
  split
  · exact .array _ (.answer _)
  · exact .fetch fun text => .answer (.string text)
  · exact .raise _
  · exact .panic _
  · exact twin_apply hxy
  · exact .raise _

end Probe

namespace Object

end Object

/-! ## Methods of any value -/

namespace Method

section Scalars

variable (h : args.Twin args')
include h

end Scalars

end Method

/-! ## Observations -/

end TreeWalk
