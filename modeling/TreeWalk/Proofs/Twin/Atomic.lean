/-
Atomic computations that agree on twins.

Two computations agree if from twin stores they fail alike, or answer what a
relation relates and leave twin stores.  Agreement is kept by sequencing, so a
computation agrees with its twin if each of its parts does.
-/
import TreeWalk.Proofs.Atomic.Sound
import TreeWalk.Proofs.Twin.Store

namespace TreeWalk

namespace Atomic

variable {α α' β β' : Type} {R : α → α' → Prop} {S : β → β' → Prop}

/-- The same exit, or related answers and twin stores. -/
inductive Alike (R : α → α' → Prop) :
    Except Exit (α × Store) → Except Exit (α' × Store) → Prop
  | ok {a : α} {b : α'} {σ τ : Store} (hab : R a b) (h : σ.Twin τ) : Alike R (.ok (a, σ)) (.ok (b, τ))
  | error (e : Exit) : Alike R (.error e) (.error e)

def Agree (R : α → α' → Prop) (x : Atomic α) (y : Atomic α') : Prop :=
  ∀ σ τ : Store, σ.Twin τ → Alike R (x σ) (y τ)

namespace Agree

theorem pure {a : α} {b : α'} (h : R a b) : Agree R (Pure.pure a) (Pure.pure b) :=
  fun _ _ hστ => .ok h hστ

/-- An answer that hides nothing from its twin: it is the same on both sides. -/
theorem same {v : Value} : Agree Value.Twin (Pure.pure v) (Pure.pure v) := pure (.same v)

theorem fail {cause : Cause} {pos : Position} :
    Agree R (Atomic.fail cause pos) (Atomic.fail cause pos) := fun _ _ _ => .error _

theorem fault {message : String} : Agree R (Atomic.fault message) (Atomic.fault message) :=
  fun _ _ _ => .error _

theorem read {f : Store → α} {g : Store → α'} (h : ∀ σ τ : Store, σ.Twin τ → R (f σ) (g τ)) :
    Agree R (Atomic.read f) (Atomic.read g) := fun σ τ hστ => .ok (h σ τ hστ) hστ

theorem update {f g : Store → Store} (h : ∀ σ τ : Store, σ.Twin τ → (f σ).Twin (g τ)) :
    Agree Eq (Atomic.update f) (Atomic.update g) := fun σ τ hστ => .ok rfl (h σ τ hστ)

theorem change {f : Store → α × Store} {g : Store → α' × Store}
    (h : ∀ σ τ : Store, σ.Twin τ → R (f σ).1 (g τ).1 ∧ (f σ).2.Twin (g τ).2) :
    Agree R (Atomic.change f) (Atomic.change g) :=
  fun σ τ hστ => .ok (h σ τ hστ).1 (h σ τ hστ).2

theorem bind {x : Atomic α} {y : Atomic α'} {k : α → Atomic β} {l : α' → Atomic β'}
    (hxy : Agree R x y) (hkl : ∀ a b, R a b → Agree S (k a) (l b)) :
    Agree S (x >>= k) (y >>= l) := by
  intro σ τ hστ
  have hend := hxy σ τ hστ
  rw [bind_apply, bind_apply]
  generalize x σ = r at hend
  generalize y τ = s at hend
  cases hend with
  | ok hab hnext => exact hkl _ _ hab _ _ hnext
  | error e => exact .error e

/-- Going on with the same answer. -/
theorem seq {x y : Atomic α} {k : α → Atomic β} {l : α → Atomic β'} (hxy : Agree Eq x y)
    (hkl : ∀ a, Agree S (k a) (l a)) : Agree S (x >>= k) (y >>= l) :=
  bind hxy fun a _ hab => hab ▸ hkl a

theorem imp {R' : α → α' → Prop} {x : Atomic α} {y : Atomic α'} (hxy : Agree R x y)
    (h : ∀ a b, R a b → R' a b) : Agree R' x y := by
  intro σ τ hστ
  have hend := hxy σ τ hστ
  generalize x σ = r at hend ⊢
  generalize y τ = s at hend ⊢
  cases hend with
  | ok hab hnext => exact .ok (h _ _ hab) hnext
  | error e => exact .error e

theorem map {x : Atomic α} {y : Atomic α'} {f : α → β} {g : α' → β'} (hxy : Agree R x y)
    (hfg : ∀ a b, R a b → S (f a) (g b)) : Agree S (f <$> x) (g <$> y) :=
  bind hxy fun a b hab => pure (hfg a b hab)

theorem require {a? : Option α} {b? : Option α'} {cause : Cause} {pos : Position}
    (h : Option.Rel R a? b?) : Agree R (Atomic.require a? cause pos) (Atomic.require b? cause pos) := by
  cases h with
  | none => exact fail
  | some hab => exact pure hab

/-- What is required is the same on both sides. -/
theorem require_same {a? : Option α} {cause : Cause} {pos : Position} :
    Agree Eq (Atomic.require a? cause pos) (Atomic.require a? cause pos) :=
  require (rel_refl (fun _ => rfl) a?)

theorem reserve {bytes : Nat} : Agree Eq (Atomic.reserve bytes) (Atomic.reserve bytes) := by
  unfold Atomic.reserve
  split
  · exact fault
  · exact pure rfl

theorem newArray {xs ys : List Value} (h : Value.Twins xs ys) :
    Agree Value.Twin (Atomic.newArray xs) (Atomic.newArray ys) :=
  change fun _ _ hστ =>
    have hnew := hστ.newArray xs.toArray ys.toArray h
    ⟨hnew.1 ▸ .same _, hnew.2⟩

theorem newDict {d e : Dict} (h : d.Twin e) :
    Agree Value.Twin (Atomic.newDict d) (Atomic.newDict e) :=
  change fun _ _ hστ => ⟨(hστ.newDict h).1 ▸ .same _, (hστ.newDict h).2⟩

end Agree

/-! ## What the store is asked for -/

variable {v v' w w' : Value}

theorem agree_items {id : ArrayId} :
    Agree (fun xs ys => Value.Twins xs.toList ys.toList) (read (·.array id)) (read (·.array id)) :=
  .read fun _ _ h => h.array id

theorem agree_dict {id : HashId} : Agree Dict.Twin (read (·.dict id)) (read (·.dict id)) :=
  .read fun _ _ h => h.dict id

theorem agree_display (hv : v.Twin v') : Agree Eq (read (·.display v)) (read (·.display v')) :=
  .read fun _ _ h => h.display_eq hv

theorem agree_inspect (hv : v.Twin v') : Agree Eq (read (·.inspect v)) (read (·.inspect v')) :=
  .read fun _ _ h => h.inspect_eq hv

theorem agree_truthy (hv : v.Twin v') : Agree Eq (read (·.truthy v)) (read (·.truthy v')) :=
  .read fun _ _ h => h.truthy_eq hv

theorem agree_keyOf {pos : Position} (hv : v.Twin v') : Agree Eq (keyOf v pos) (keyOf v' pos) := by
  unfold keyOf
  rw [hv.key?_eq, hv.kind_eq]
  exact .require_same

end Atomic

/-! ## Arguments -/

namespace Args

open Atomic

/-- Calls of one function with twins. -/
structure Twin (args args' : Args) : Prop where
  name_eq : args.name = args'.name
  pos_eq : args.pos = args'.pos
  values : Value.Twins args.values args'.values

/-- No argument hides the truth of a boolean. -/
def Open (args : Args) : Prop := ∀ b : Truth, .bool b ∈ args.values → b.valid = true

namespace Twin

variable {α α' : Type} {R : α → α' → Prop} {args args' : Args} {i : Nat} {v w : Value}
  (h : args.Twin args')
include h

theorem failCount {expected : String} :
    Agree R (args.failCount expected) (args'.failCount expected) := by
  unfold Args.failCount Args.count
  rw [h.name_eq, h.pos_eq, h.values.length_eq]
  exact .fail

theorem failKind {expected : String} (hvw : v.Twin w) :
    Agree R (args.failKind i expected v) (args'.failKind i expected w) := by
  unfold Args.failKind
  rw [h.name_eq, h.pos_eq, hvw.kind_eq]
  exact .fail

theorem failInput {kind : String} :
    Agree R (args.failInput kind) (args'.failInput kind) := by
  unfold Args.failInput
  rw [h.name_eq, h.pos_eq]
  exact .fail

theorem fail {cause : Cause} : Agree R (Atomic.fail cause args.pos) (Atomic.fail cause args'.pos) := by
  rw [h.pos_eq]
  exact .fail

theorem empty : Agree Eq args.empty args'.empty := by
  have hvalues := h.values
  unfold Args.empty
  generalize args.values = xs at hvalues
  generalize args'.values = ys at hvalues
  cases hvalues with
  | nil => exact .pure rfl
  | cons _ _ => exact h.failCount

/-- The only argument, and where it comes from. -/
theorem one_mem : Agree (fun a b => a.Twin b ∧ a ∈ args.values) args.one args'.one := by
  have hvalues := h.values
  unfold Args.one
  generalize args.values = xs at hvalues
  generalize args'.values = ys at hvalues
  cases hvalues with
  | nil => exact h.failCount
  | cons hab hrest =>
    cases hrest with
    | nil => exact .pure ⟨hab, List.mem_singleton_self _⟩
    | cons _ _ => exact h.failCount

theorem one : Agree Value.Twin args.one args'.one := h.one_mem.imp fun _ _ hab => hab.1

theorem two : Agree (fun r s => r.1.Twin s.1 ∧ r.2.Twin s.2) args.two args'.two := by
  have hvalues := h.values
  unfold Args.two
  generalize args.values = xs at hvalues
  generalize args'.values = ys at hvalues
  cases hvalues with
  | nil => exact h.failCount
  | cons hab hrest =>
    cases hrest with
    | nil => exact h.failCount
    | cons hab' hrest =>
      cases hrest with
      | nil => exact .pure ⟨hab, hab'⟩
      | cons _ _ => exact h.failCount

theorem upToOne : Agree (Option.Rel Value.Twin) args.upToOne args'.upToOne := by
  have hvalues := h.values
  unfold Args.upToOne
  generalize args.values = xs at hvalues
  generalize args'.values = ys at hvalues
  cases hvalues with
  | nil => exact .pure .none
  | cons hab hrest =>
    cases hrest with
    | nil => exact .pure (.some hab)
    | cons _ _ => exact h.failCount

/-- One argument or two, and where the first one comes from. -/
theorem oneOrTwo_mem :
    Agree (fun r s => (r.1.Twin s.1 ∧ r.1 ∈ args.values) ∧ Option.Rel Value.Twin r.2 s.2)
      args.oneOrTwo args'.oneOrTwo := by
  have hvalues := h.values
  unfold Args.oneOrTwo
  generalize args.values = xs at hvalues
  generalize args'.values = ys at hvalues
  cases hvalues with
  | nil => exact h.failCount
  | cons hab hrest =>
    cases hrest with
    | nil => exact .pure ⟨⟨hab, List.mem_cons_self⟩, .none⟩
    | cons hab' hrest =>
      cases hrest with
      | nil => exact .pure ⟨⟨hab, List.mem_cons_self⟩, .some hab'⟩
      | cons _ _ => exact h.failCount

theorem oneOrTwo :
    Agree (fun r s => r.1.Twin s.1 ∧ Option.Rel Value.Twin r.2 s.2) args.oneOrTwo args'.oneOrTwo :=
  h.oneOrTwo_mem.imp fun _ _ hab => ⟨hab.1.1, hab.2⟩

theorem int (hvw : v.Twin w) : Agree Eq (args.int i v) (args'.int i w) := by
  unfold Args.int
  rw [hvw.int?_eq]
  split
  · exact .pure rfl
  · exact h.failKind hvw

theorem string (hvw : v.Twin w) : Agree Eq (args.string i v) (args'.string i w) := by
  unfold Args.string
  rw [hvw.string?_eq]
  split
  · exact .pure rfl
  · exact h.failKind hvw

theorem callable (hvw : v.Twin w) :
    Agree Value.Twin (args.callable i v) (args'.callable i w) := by
  unfold Args.callable
  rw [hvw.isCallable_eq]
  split
  · exact .pure hvw
  · exact h.failKind hvw

theorem receiver {kind : String} {m n : Nullable α} (hmn : m.get? = n.get?) :
    Agree Eq (args.receiver kind m) (args'.receiver kind n) := by
  unfold Args.receiver
  rw [hmn]
  split
  · exact .pure rfl
  · exact h.failInput

theorem isValid {valid : Bool} : Agree Value.Twin (args.isValid valid) (args'.isValid valid) :=
  .seq h.empty fun _ => .same

theorem isValid_of (hvw : v.Twin w) :
    Agree Value.Twin (args.isValid v.isValid) (args'.isValid w.isValid) := by
  rw [hvw.isValid_eq]
  exact h.isValid

theorem toString (hvw : v.Twin w) :
    Agree Value.Twin (args.toString v) (args'.toString w) :=
  .seq h.empty fun _ => .seq (agree_display hvw) fun _ => .same

/-- A flag that is not NULL is the same on both sides. -/
theorem flag (hopen : args.Open) : Agree Eq args.flag args'.flag := by
  refine .bind h.one_mem fun a b hab => ?_
  cases hab.1 with
  | bool p q message => cases hopen _ hab.2
  | same v =>
    split
    · exact .pure rfl
    · exact h.failKind (.same _)
  | _ => exact h.failKind hab.1

end Twin
end Args
end TreeWalk
