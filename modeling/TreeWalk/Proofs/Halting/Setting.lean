/-
Settings in which evaluations come to an end.

A setting is what stays the same from the beginning of an evaluation to its end and
what bounds it: the calls under way, the frame that takes the calls put off, the
units that are being evaluated and those that there are.  Beside it the store must
be tame: no value in it leads to a loop that nothing bounds.  There may be channels and
other things that tasks wait for, as long as no expression has one of them as its value.

An evaluation adds calls to the frame of its setting and to no other that was there,
and only calls that lie in what it evaluates.  `Leads` says so.
-/
import TreeWalk.Proofs.Eval.Discipline
import TreeWalk.Proofs.Store.Growth
import TreeWalk.Proofs.Syntax.LoopFree

namespace TreeWalk

/-- Values that lead to loop-free functions only. -/
def tame : Reach := ⟨fun _ => True, FunctionLit.LoopFree⟩

namespace Value

abbrev Tame (v : Value) : Prop := v.Within tame

abbrev AllTame (vs : List Value) : Prop := ListWithin tame vs

/-- Whether tasks wait for each other with the value: a channel, or an object other than
those of the host. -/
def isShared : Value → Bool
  | .channel _ => true
  | .object (.host _ _ _ _) => false
  | .object _ => true
  | _ => false

/-- A tame value that tasks do not share. -/
structure Unshared (v : Value) : Prop where
  tame : v.Tame
  isShared_eq : v.isShared = false

theorem allTame_nil : AllTame [] := fun _ h => nomatch h

theorem allTame_cons {v : Value} {vs : List Value} (hv : v.Tame) (hvs : AllTame vs) :
    AllTame (v :: vs) := List.forall_mem_cons.mpr ⟨hv, hvs⟩

theorem allTame_append {vs ws : List Value} (hvs : AllTame vs) (hws : AllTame ws) :
    AllTame (vs ++ ws) := List.forall_mem_append.mpr ⟨hvs, hws⟩

end Value

namespace Dict

/-- The entries are tame, and each is filed under the key of its own. -/
def Tame (d : Dict) : Prop := d.Within tame ∧ d.Consistent

theorem tame_empty : empty.Tame := ⟨within_empty, .empty⟩

theorem Tame.insert {d : Dict} {hash : Key} {key v : Value} (h : d.Tame)
    (hhash : key.key? = some hash) (hkey : key.Tame) (hv : v.Tame) : (d.insert hash key v).Tame :=
  ⟨h.1.insert hkey hv, h.2.insert hhash⟩

end Dict

namespace Store

variable {σ τ υ : Store} {s parent : ScopeId} {own : Option FrameId} {frame : FrameId} {m k : Nat}
  {d : Deferred} {name : String} {v : Value}

/-! ## The frame of a scope -/

/-- The nearest frame outwards from a scope, if there is one.  Nothing is said of the
scopes beyond it. -/
inductive Owner (σ : Store) : ScopeId → Option FrameId → Prop
  | own {s : ScopeId} {frame : Frame} (hs : s.index < σ.scopes.size)
      (hframe : (σ.scope s).frame = some frame) : Owner σ s (some frame.id)
  | outer {s parent : ScopeId} {own : Option FrameId} (hs : s.index < σ.scopes.size)
      (hframe : (σ.scope s).frame = none) (hparent : (σ.scope s).parent = some parent)
      (hlt : parent.index < s.index) (h : Owner σ parent own) : Owner σ s own
  | root {s : ScopeId} (hs : s.index < σ.scopes.size) (hframe : (σ.scope s).frame = none)
      (hparent : (σ.scope s).parent = none) : Owner σ s none

namespace Owner

theorem lt (h : σ.Owner s own) : s.index < σ.scopes.size := by
  cases h with
  | own hs _ => exact hs
  | outer hs _ _ _ _ => exact hs
  | root hs _ _ => exact hs

/-- The frame that calls are put off on is the one of the scope. -/
theorem eq_of_frame? {found : Frame} (h : σ.Owner s own) (hfound : σ.frame? s = some found) :
    own = some found.id := by
  have chain : ∀ fuel, s.index < fuel →
      (σ.chainFrom fuel s).findSome? (fun t => (σ.scope t).frame) = some found →
      own = some found.id := by
    clear hfound
    induction h with
    | own hs hframe =>
      intro fuel hfuel hfound
      obtain ⟨fuel, rfl⟩ := Nat.exists_eq_add_of_lt hfuel
      rw [chainFrom, List.findSome?_cons, hframe] at hfound
      rw [Option.some.inj hfound]
    | outer hs hframe hparent hlt _ ih =>
      intro fuel hfuel hfound
      obtain ⟨fuel, rfl⟩ := Nat.exists_eq_add_of_lt hfuel
      rw [chainFrom, List.findSome?_cons, hframe, hparent] at hfound
      exact ih _ (by omega) hfound
    | root hs hframe hparent =>
      intro fuel hfuel hfound
      obtain ⟨fuel, rfl⟩ := Nat.exists_eq_add_of_lt hfuel
      rw [chainFrom, List.findSome?_cons, hframe, hparent] at hfound
      cases hfound
  exact chain _ (Nat.lt_succ_self _) hfound

end Owner

/-- Scopes that are in order have a nearest frame, or none. -/
theorem Ordered.exists_owner (ho : σ.Ordered) (hs : s.index < σ.scopes.size) :
    ∃ own, σ.Owner s own ∧ ∀ frame, own = some frame → frame.index < σ.deferred.size := by
  generalize hn : s.index = n
  induction n using Nat.strongRecOn generalizing s with
  | _ n ih =>
    subst hn
    cases hframe : (σ.scope s).frame with
    | some frame =>
      refine ⟨some frame.id, .own hs hframe, fun other hother => ?_⟩
      obtain rfl := Option.some.inj hother
      exact ho.frames s frame hframe
    | none =>
      cases hparent : (σ.scope s).parent with
      | none => exact ⟨none, .root hs hframe hparent, fun other hother => nomatch hother⟩
      | some parent =>
        have hlt := ho.parents s parent hparent
        obtain ⟨own, howner, hmade⟩ := ih parent.index hlt (Nat.lt_trans hlt hs) rfl
        exact ⟨own, .outer hs hframe hparent hlt howner, hmade⟩

theorem deferredOf_newFrame (name : String) (pos : Position) (h : frame.index < σ.deferred.size) :
    (σ.newFrame name pos).2.deferredOf frame = σ.deferredOf frame := by
  simp only [deferredOf, newFrame, Array.getD_eq_getD_getElem?]
  rw [Array.getElem?_push_lt h, Array.getElem?_eq_getElem h]

/-! ## What an evaluation makes of scopes and frames -/

/-- Scopes and frames are only added, and scopes keep their place. -/
structure Extends (σ τ : Store) : Prop where
  scopes : σ.scopes.size ≤ τ.scopes.size
  frames : σ.deferred.size ≤ τ.deferred.size
  parent : ∀ s : ScopeId, s.index < σ.scopes.size → (τ.scope s).parent = (σ.scope s).parent
  frame : ∀ s : ScopeId, s.index < σ.scopes.size → (τ.scope s).frame = (σ.scope s).frame

theorem Grows.toExtends {opened : ScopeId → Prop} (h : σ.Grows opened τ) : σ.Extends τ :=
  ⟨h.scopes, h.frames, h.parent, h.frame⟩

namespace Extends

theorem refl (σ : Store) : σ.Extends σ := ⟨Nat.le_refl _, Nat.le_refl _, fun _ _ => rfl, fun _ _ => rfl⟩

theorem trans (h : σ.Extends τ) (h' : τ.Extends υ) : σ.Extends υ where
  scopes := Nat.le_trans h.scopes h'.scopes
  frames := Nat.le_trans h.frames h'.frames
  parent s hs := (h'.parent s (Nat.lt_of_lt_of_le hs h.scopes)).trans (h.parent s hs)
  frame s hs := (h'.frame s (Nat.lt_of_lt_of_le hs h.scopes)).trans (h.frame s hs)

theorem of_scopes_eq (hscopes : τ.scopes = σ.scopes)
    (hframes : σ.deferred.size ≤ τ.deferred.size) : σ.Extends τ where
  scopes := Nat.le_of_eq (congrArg Array.size hscopes).symm
  frames := hframes
  parent s _ := by rw [scope_eq_of_scopes_eq hscopes]
  frame s _ := by rw [scope_eq_of_scopes_eq hscopes]

theorem of_quiet {p : Reach} (h : σ.Quiet p τ) : σ.Extends τ :=
  of_scopes_eq h.scopes (Nat.le_of_eq (congrArg Array.size h.deferred).symm)

theorem bind : σ.Extends (σ.bind s name v) := by
  have h : σ.Grows (fun _ => True) (σ.bind s name v) := .bind trivial
  exact h.toExtends

theorem addScope {scope : Scope} : σ.Extends (σ.addScope scope).2 := by
  have h : σ.Grows (fun _ => True) (σ.addScope scope).2 := .addScope
  exact h.toExtends

theorem newFrame {pos : Position} : σ.Extends (σ.newFrame name pos).2 := by
  have h : σ.Grows (fun _ => True) (σ.newFrame name pos).2 := .newFrame
  exact h.toExtends

end Extends

theorem Owner.later (h : σ.Owner s own) (he : σ.Extends τ) : τ.Owner s own := by
  induction h with
  | own hs hframe =>
    exact .own (Nat.lt_of_lt_of_le hs he.scopes) ((he.frame _ hs).trans hframe)
  | outer hs hframe hparent hlt _ ih =>
    exact .outer (Nat.lt_of_lt_of_le hs he.scopes) ((he.frame _ hs).trans hframe)
      ((he.parent _ hs).trans hparent) hlt ih
  | root hs hframe hparent =>
    exact .root (Nat.lt_of_lt_of_le hs he.scopes) ((he.frame _ hs).trans hframe)
      ((he.parent _ hs).trans hparent)

/-- A scope for a block has the frame of the scope around it. -/
theorem Owner.childScope (h : σ.Owner s own) : (σ.childScope s).2.Owner ⟨σ.scopes.size⟩ own := by
  have hscope : (σ.childScope s).2.scope ⟨σ.scopes.size⟩ = ⟨[], some s, none, false⟩ :=
    scope_addScope_new
  refine .outer ?_ (by rw [hscope]) (by rw [hscope]) h.lt (h.later .addScope)
  show σ.scopes.size < (σ.scopes.push _).size
  rw [Array.size_push]
  exact Nat.lt_succ_self _

theorem Owner.rootScope : σ.rootScope.2.Owner ⟨σ.scopes.size⟩ none := by
  have hscope : σ.rootScope.2.scope ⟨σ.scopes.size⟩ = ⟨[], none, none, false⟩ := scope_addScope_new
  refine .root ?_ (by rw [hscope]) (by rw [hscope])
  show σ.scopes.size < (σ.scopes.push _).size
  rw [Array.size_push]
  exact Nat.lt_succ_self _

theorem Owner.activation {frame : Frame} :
    (σ.activation parent frame).2.Owner ⟨σ.scopes.size⟩ (some frame.id) := by
  have hscope : (σ.activation parent frame).2.scope ⟨σ.scopes.size⟩ =
      ⟨[], some parent, some frame, false⟩ :=
    scope_addScope_new
  refine .own ?_ (by rw [hscope])
  show σ.scopes.size < (σ.scopes.push _).size
  rw [Array.size_push]
  exact Nat.lt_succ_self _

/-! ## Calls put off -/

/-- A call that may be put off on a frame while a tree is evaluated in which such
calls lie less than `m` deep in each other. -/
structure Due (σ : Store) (m : Nat) (frame : FrameId) (d : Deferred) : Prop where
  owner : σ.Owner d.scope (some frame)
  shallow : ∃ k, k < m ∧ (Tree.expr d.call).Shallow k

namespace Due

theorem later (h : σ.Due m frame d) (he : σ.Extends τ) : τ.Due m frame d :=
  ⟨h.owner.later he, h.shallow⟩

theorem mono (h : σ.Due k frame d) (hm : k ≤ m) : σ.Due m frame d := by
  obtain ⟨depth, hlt, hshallow⟩ := h.shallow
  exact ⟨h.owner, depth, Nat.lt_of_lt_of_le hlt hm, hshallow⟩

end Due

/-- Scopes and frames are added, and of the frames that were there only `own` may have
other calls put off on it. -/
structure Keeps (own : Option FrameId) (σ τ : Store) : Prop extends σ.Extends τ where
  kept : ∀ frame : FrameId, frame.index < σ.deferred.size → some frame ≠ own →
    τ.deferredOf frame = σ.deferredOf frame

namespace Keeps

theorem trans (h : σ.Keeps own τ) (h' : τ.Keeps own υ) : σ.Keeps own υ where
  toExtends := h.toExtends.trans h'.toExtends
  kept frame hframe hne :=
    (h'.kept frame (Nat.lt_of_lt_of_le hframe h.frames) hne).trans (h.kept frame hframe hne)

theorem takeDeferred : σ.Keeps (some frame) (σ.takeDeferred frame).2 where
  toExtends := .of_scopes_eq rfl (Nat.le_of_eq Array.size_setIfInBounds.symm)
  kept other _ hne := by
    have hindex : frame.index ≠ other.index := fun heq =>
      hne (congrArg some (congrArg FrameId.mk heq.symm))
    simp only [deferredOf, Store.takeDeferred, Array.getD_eq_getD_getElem?,
      Array.getElem?_setIfInBounds, if_neg hindex]

end Keeps

/-- An evaluation with the frame `own` may lead from one store to the other. -/
structure Leads (own : Option FrameId) (m : Nat) (σ τ : Store) : Prop extends σ.Keeps own τ where
  added : ∀ frame, own = some frame → ∃ new, τ.deferredOf frame = σ.deferredOf frame ++ new ∧
    ∀ d ∈ new, τ.Due m frame d

namespace Leads

/-- Nothing is put off. -/
theorem of_deferredOf (he : σ.Extends τ) (h : ∀ frame : FrameId, frame.index < σ.deferred.size →
      τ.deferredOf frame = σ.deferredOf frame)
    (hmade : ∀ frame, own = some frame → frame.index < σ.deferred.size) : σ.Leads own m τ where
  toExtends := he
  kept frame hframe _ := h frame hframe
  added frame hown := ⟨[], by rw [List.append_nil, h frame (hmade frame hown)], fun d hd => nomatch hd⟩

theorem of_deferred_eq (he : σ.Extends τ) (h : τ.deferred = σ.deferred) : σ.Leads own m τ := by
  have hsame : ∀ frame, τ.deferredOf frame = σ.deferredOf frame := by
    intro frame
    unfold deferredOf
    rw [h]
  exact ⟨⟨he, fun frame _ _ => hsame frame⟩, fun frame _ =>
    ⟨[], by rw [List.append_nil, hsame frame], fun d hd => nomatch hd⟩⟩

theorem refl (σ : Store) : σ.Leads own m σ := of_deferred_eq (.refl σ) rfl

theorem of_quiet {p : Reach} (h : σ.Quiet p τ) : σ.Leads own m τ :=
  of_deferred_eq (.of_quiet h) h.deferred

theorem bind : σ.Leads own m (σ.bind s name v) := of_deferred_eq .bind rfl

theorem print {sink : Sink} {text : String} : σ.Leads own m (σ.print sink text) := by
  cases sink with
  | capture => exact of_deferred_eq (.of_scopes_eq rfl (Nat.le_refl _)) rfl
  | discard => exact .refl σ

theorem childScope : σ.Leads own m (σ.childScope s).2 := of_deferred_eq .addScope rfl

theorem mono (h : σ.Leads own k τ) (hm : k ≤ m) : σ.Leads own m τ where
  toKeeps := h.toKeeps
  added frame hown := by
    obtain ⟨new, heq, hnew⟩ := h.added frame hown
    exact ⟨new, heq, fun d hd => (hnew d hd).mono hm⟩

theorem trans (h : σ.Leads own m τ) (h' : τ.Leads own m υ) : σ.Leads own m υ where
  toKeeps := h.toKeeps.trans h'.toKeeps
  added frame hown := by
    obtain ⟨new, heq, hnew⟩ := h.added frame hown
    obtain ⟨new', heq', hnew'⟩ := h'.added frame hown
    refine ⟨new ++ new', by rw [heq', heq, List.append_assoc], fun d hd => ?_⟩
    rcases List.mem_append.mp hd with hd | hd
    · exact (hnew d hd).later h'.toExtends
    · exact hnew' d hd

/-- A call is put off. -/
theorem defer (hdue : σ.Due m frame d) : σ.Leads (some frame) m (σ.defer frame d) where
  toExtends := .of_scopes_eq rfl (Nat.le_of_eq Array.size_modify.symm)
  kept other _ hne := deferredOf_defer_of_ne fun heq => hne (congrArg some heq)
  added other hown := by
    obtain rfl := Option.some.inj hown
    have he : σ.Extends (σ.defer frame d) := .of_scopes_eq rfl (Nat.le_of_eq Array.size_modify.symm)
    rcases getD_modify_cases σ.deferred frame.index frame.index [] (· ++ [d]) with heq | heq
    · refine ⟨[d], heq, fun other hother => ?_⟩
      obtain rfl := List.mem_singleton.mp hother
      exact hdue.later he
    · exact ⟨[], by rw [List.append_nil]; exact heq, fun other hother => nomatch hother⟩

end Leads
end Store

/-! ## Settings -/

/-- What stays the same while something is evaluated. -/
structure Setting where
  /-- The calls under way. -/
  stack : CallStack
  thread : Nat
  /-- The frame that takes the calls put off. -/
  own : Option FrameId
  /-- The units being evaluated. -/
  loading : List String
  /-- The units that can be. -/
  programs : Option (Assoc Program)

namespace Setting

/-- A task and a store are in the setting. -/
structure Fits (c : Setting) (f : Fiber) (σ : Store) : Prop where
  stack : f.stack = c.stack
  thread : f.thread = c.thread
  owner : σ.Owner f.scope c.own
  made : ∀ frame, c.own = some frame → frame.index < σ.deferred.size
  closed : σ.Closed tame
  loading : σ.modules.loading = c.loading
  programs : σ.programs = c.programs
  /-- No other thread evaluates units. -/
  free : ∀ holder depth, σ.including = some (holder, depth) → holder = c.thread
  /-- No other task is under way. -/
  idle : σ.running = 0

namespace Fits

variable {c : Setting} {f : Fiber} {σ τ : Store} {m : Nat}

/-- A change that keeps the store tame and that evaluations may make. -/
theorem step (h : c.Fits f σ) (he : σ.Extends τ) (hclosed : τ.Closed tame)
    (hcontrol : τ.control = σ.control) : c.Fits f τ where
  stack := h.stack
  thread := h.thread
  owner := h.owner.later he
  made frame hown := Nat.lt_of_lt_of_le (h.made frame hown) he.frames
  closed := hclosed
  loading := (congrArg (·.modules.loading) hcontrol).trans h.loading
  programs := (congrArg Store.Control.programs hcontrol).trans h.programs
  free holder depth hincluding :=
    h.free holder depth ((congrArg Store.Control.including hcontrol).symm.trans hincluding)
  idle := (congrArg Store.Control.running hcontrol).trans h.idle

theorem calm (h : c.Fits f σ) (hcalm : σ.Calm tame τ) : c.Fits f τ :=
  h.step (.of_quiet hcalm.toQuiet) (hcalm.closed h.closed) hcalm.control

theorem bind {s : ScopeId} {name : String} {v : Value} (h : c.Fits f σ) (hv : v.Tame) :
    c.Fits f (σ.bind s name v) :=
  h.step .bind (h.closed.bind hv) rfl

theorem print {sink : Sink} {text : String} (h : c.Fits f σ) : c.Fits f (σ.print sink text) := by
  cases sink with
  | capture => exact h.step (.of_scopes_eq rfl (Nat.le_refl _)) { h.closed with } rfl
  | discard => exact h

/-- A scope is made. -/
theorem childScope {parent : ScopeId} (h : c.Fits f σ) : c.Fits f (σ.childScope parent).2 :=
  h.step .addScope (h.closed.newScope fun _ _ => trivial) rfl

/-- Another scope with the same frame. -/
theorem inScope {scope : ScopeId} (h : c.Fits f σ) (hscope : σ.Owner scope c.own) :
    c.Fits { f with scope := scope } σ :=
  { h with owner := hscope }

end Fits
end Setting
end TreeWalk
