/-
The lexical discipline.

A task that runs by itself binds names in its own scope and in new ones only, and
what is known of scopes so far stays true: parents are older than their children,
and code runs in scopes that are in the store.
-/
import TreeWalk.Proofs.Eval.Discipline
import TreeWalk.Proofs.Store.Growth

namespace TreeWalk

/-- Everything in the store leads to scopes that are in it. -/
abbrev Store.Sealed (σ : Store) : Prop := σ.Closed (fun s : ScopeId => s.index < σ.scopes.size)

/-- What an evaluation at `here` that began with `σ₀` may have come to. -/
structure Lexical (b : Bool) (here : Site) (σ₀ σ : Store) : Prop where
  grows : σ₀.Grows (fun s => b = true ∧ s = here.scope) σ
  started : σ₀.Ordered
  ordered : σ.Ordered
  closed : σ.Sealed
  inside : here.scope.index < σ.scopes.size

namespace Lexical

variable {b : Bool} {here there : Site} {σ₀ σ σ' : Store} {s : ScopeId} {name : String} {v : Value}
  {sink : Sink}

/-- A state in which an evaluation may begin. -/
theorem begin (ho : σ.Ordered) (hc : σ.Sealed) (hs : here.scope.index < σ.scopes.size) :
    Lexical b here σ σ := ⟨.refl σ, ho, ho, hc, hs⟩

/-- A further change fits if it adds names to no scope that was there at the
beginning, other than the one of the site. -/
theorem step (h : Lexical b here σ₀ σ) {opened : ScopeId → Prop} (hgrows : σ.Grows opened σ')
    (hopened : ∀ s : ScopeId, s.index < σ₀.scopes.size → opened s → b = true ∧ s = here.scope)
    (ho : σ'.Ordered) (hc : σ'.Sealed) : Lexical b here σ₀ σ' where
  grows := h.grows.trans h.ordered hgrows hopened
  started := h.started
  ordered := ho
  closed := hc
  inside := Nat.lt_of_lt_of_le h.inside hgrows.scopes

/-- The same for a change that adds no names at all. -/
theorem step_none (h : Lexical b here σ₀ σ) (hgrows : σ.Grows (fun _ => False) σ')
    (ho : σ'.Ordered) (hc : σ'.Sealed) : Lexical b here σ₀ σ' :=
  h.step hgrows (fun _ _ hfalse => hfalse.elim) ho hc

theorem trans (h : Lexical b here σ₀ σ) (h' : Lexical b here σ σ') : Lexical b here σ₀ σ' :=
  h.step h'.grows (fun _ _ ho => ho) h'.ordered h'.closed

theorem quiet (h : Lexical b here σ₀ σ) (hq : σ.Quiet (fun s : ScopeId => s.index < σ.scopes.size) σ') :
    Lexical b here σ₀ σ' := by
  have hsize : σ'.scopes.size = σ.scopes.size := congrArg Array.size hq.scopes
  refine h.step_none (.of_same hq.scopes hq.deferred) ?_ ?_
  · refine h.ordered.of_same (fun s => ?_) (fun s => ?_) ?_
    · rw [Store.scope_eq_of_scopes_eq hq.scopes]
    · rw [Store.scope_eq_of_scopes_eq hq.scopes]
    · exact Nat.le_of_eq (congrArg Array.size hq.deferred).symm
  · unfold Store.Sealed
    rw [hsize]
    exact hq.closed h.closed

theorem ordered_bind (h : σ.Ordered) : (σ.bind s name v).Ordered :=
  h.of_same (fun _ => Store.parent_bind) (fun _ => Store.frame_bind) (Nat.le_refl _)

theorem sealed_bind (h : σ.Sealed) (hv : v.Within (fun s : ScopeId => s.index < σ.scopes.size)) :
    (σ.bind s name v).Sealed := by
  unfold Store.Sealed
  rw [Store.size_scopes_bind]
  exact Store.Closed.bind h hv

/-- A name may be bound in the scope of the site, and in a new one. -/
theorem bind (h : Lexical b here σ₀ σ) (hv : v.Within (fun s : ScopeId => s.index < σ.scopes.size))
    (hopen : s.index < σ₀.scopes.size → b = true ∧ s = here.scope) :
    Lexical b here σ₀ (σ.bind s name v) := by
  have hgrows : σ.Grows (· = s) (σ.bind s name v) := .bind rfl
  refine h.step hgrows (fun t ht hts => ?_) (ordered_bind h.ordered) (sealed_bind h.closed hv)
  obtain rfl : t = s := hts
  exact hopen ht

theorem rebind (h : Lexical b here σ₀ σ) (hv : v.Within (fun s : ScopeId => s.index < σ.scopes.size))
    (hbound : σ.Binds s name) : Lexical b here σ₀ (σ.bind s name v) :=
  h.step_none (.rebind hbound) (ordered_bind h.ordered) (sealed_bind h.closed hv)

theorem sealed_addScope {scope : Scope}
    (h : (σ.addScope scope).2.Closed (fun s : ScopeId => s.index < σ.scopes.size)) :
    (σ.addScope scope).2.Sealed := by
  refine h.mono fun s hs => ?_
  rw [Store.size_scopes_addScope]
  omega

/-- A new scope is a site where an evaluation may begin. -/
theorem enter {p? : Option ScopeId} {frame : Option Frame} {stack : CallStack}
    (ho : σ.Ordered) (hc : σ.Sealed)
    (hparent : ∀ parent, p? = some parent → parent.index < σ.scopes.size)
    (hframe : ∀ f, frame = some f → f.id.index < σ.deferred.size) :
    Lexical true ⟨⟨σ.scopes.size⟩, stack, sink⟩ σ (σ.newScope p? frame).2 where
  grows := .addScope
  started := ho
  ordered := ho.addScope hparent hframe
  closed := sealed_addScope (Store.Closed.newScope hc hparent)
  inside := by
    show σ.scopes.size < (σ.addScope _).2.scopes.size
    rw [Store.size_scopes_addScope]
    exact Nat.lt_succ_self _

/-- A new scope without a parent is one, too. -/
theorem enter_root {stack : CallStack} (ho : σ.Ordered) (hc : σ.Sealed) :
    Lexical true ⟨⟨σ.scopes.size⟩, stack, sink⟩ σ σ.rootScope.2 := by
  refine enter ho hc (fun parent hparent => ?_) fun f hf => ?_
  · cases hparent
  · cases hf

/-- Back from a site whose scope was new. -/
theorem leave (h : Lexical b here σ₀ σ) (h' : Lexical true there σ σ')
    (hnew : σ.scopes.size ≤ there.scope.index) : Lexical b here σ₀ σ' := by
  refine h.step h'.grows (fun s hs hopened => ?_) h'.ordered h'.closed
  obtain ⟨_, rfl⟩ := hopened
  have hle := h.grows.scopes
  omega

theorem frame (h : Lexical b here σ₀ σ) {pos : Position} :
    Lexical b here σ₀ (σ.newFrame name pos).2 := by
  have hgrows : σ.Grows (fun _ => False) (σ.newFrame name pos).2 := .newFrame
  exact h.step_none hgrows (h.ordered.of_same (fun _ => rfl) (fun _ => rfl) hgrows.frames)
    h.closed.newFrame

/-- Into a new scope inside of the one of the site. -/
theorem enter_child (h : Lexical b here σ₀ σ) :
    Lexical true { here with scope := ⟨σ.scopes.size⟩ } σ (σ.childScope here.scope).2 := by
  refine enter h.ordered h.closed (fun parent hparent => ?_) (fun f hf => nomatch hf)
  exact Option.some.inj hparent ▸ h.inside

theorem enter_call (h : Lexical b here σ₀ σ) {pos : Position} {parent : ScopeId} {stack : CallStack}
    (hparent : parent.index < σ.scopes.size) :
    Lexical true { here with scope := ⟨σ.scopes.size⟩, stack := stack } σ
      ((σ.newFrame name pos).2.activation parent (σ.newFrame name pos).1).2 := by
  have hframe : Lexical b here σ (σ.newFrame name pos).2 :=
    (begin h.ordered h.closed h.inside).frame
  have hin : Lexical true { here with scope := ⟨σ.scopes.size⟩, stack := stack }
      (σ.newFrame name pos).2 ((σ.newFrame name pos).2.activation parent (σ.newFrame name pos).1).2 := by
    refine enter hframe.ordered hframe.closed (fun s hs => ?_) (fun f hf => ?_)
    · exact Option.some.inj hs ▸ hparent
    · obtain rfl := Option.some.inj hf
      show σ.deferred.size < (σ.deferred.push []).size
      rw [Array.size_push]
      exact Nat.lt_succ_self _
  exact ⟨Store.Grows.newFrame.trans hframe.ordered hin.grows (fun _ _ h => h), h.ordered,
    hin.ordered, hin.closed, hin.inside⟩

/-- The scope of a task that is asked for is new. -/
theorem grows_requestTask {opened : ScopeId → Prop} {f : Fiber} {call : Expr} :
    σ.Grows opened (Control.requestTask f call σ) := by
  have hchild : σ.Grows opened (σ.childScope f.scope).2 := .addScope
  exact ⟨hchild.scopes, hchild.frames, hchild.parent, hchild.frame, hchild.kept, hchild.added,
    fun _ _ hd => .inl hd⟩

theorem spawn (h : Lexical b here σ₀ σ) {f : Fiber} (hf : f.site = here) {call : Expr} :
    Lexical b here σ₀ (Control.requestTask f call σ) := by
  obtain rfl := hf
  have hchild := h.enter_child
  refine h.step_none grows_requestTask
    (hchild.ordered.of_same (fun _ => rfl) (fun _ => rfl) (Nat.le_refl _)) ?_
  refine { hchild.closed with spawned := fun s hs => ?_ }
  rcases List.mem_append.mp hs with hs | hs
  · exact hchild.closed.spawned s hs
  · obtain rfl := List.mem_singleton.mp hs
    exact hchild.inside

theorem print (h : Lexical b here σ₀ σ) {text : String} : Lexical b here σ₀ (σ.print sink text) := by
  cases sink with
  | capture =>
    exact h.step_none (.of_same rfl rfl)
      (h.ordered.of_same (fun _ => rfl) (fun _ => rfl) (Nat.le_refl _)) { h.closed with }
  | discard => exact h

/-- The scope of an enum is new as well. -/
theorem enum (h : Lexical b here σ₀ σ) {members : List (String × Value)}
    (hmembers : ∀ member ∈ members, member.2.Within (fun s : ScopeId => s.index < σ.scopes.size)) :
    Lexical b here σ₀ (σ.newEnum here.scope members).2 := by
  refine h.step_none .addScope (h.ordered.addScope (fun s hs => ?_) fun f hf => nomatch hf) ?_
  · exact Option.some.inj hs ▸ h.inside
  · exact sealed_addScope (Store.Closed.newEnum h.closed h.inside hmembers)

theorem take (h : Lexical b here σ₀ σ) {frame : FrameId} :
    Lexical b here σ₀ (σ.takeDeferred frame).2 := by
  have hgrows : σ.Grows (fun _ => False) (σ.takeDeferred frame).2 := .takeDeferred
  exact h.step_none hgrows (h.ordered.of_same (fun _ => rfl) (fun _ => rfl) hgrows.frames)
    h.closed.takeDeferred

theorem defer (h : Lexical b here σ₀ σ) {frame : Frame} {call : Expr}
    (hframe : σ.frame? here.scope = some frame) :
    Lexical b here σ₀ (σ.defer frame.id ⟨call, here.scope⟩) := by
  have howned : σ.Owned frame.id ⟨call, here.scope⟩ := by
    unfold Store.Owned
    rw [hframe]
    rfl
  have hgrows : σ.Grows (fun _ => False) (σ.defer frame.id ⟨call, here.scope⟩) := .defer howned
  exact h.step_none hgrows (h.ordered.of_same (fun _ => rfl) (fun _ => rfl) hgrows.frames)
    (h.closed.defer h.inside)

/-- A call that was put off on a new frame was put off from a new scope, of the call
that the frame was made for. -/
theorem put_off (h : Lexical b here σ₀ σ) {frame : FrameId} (hnew : σ₀.deferred.size ≤ frame.index)
    {d : Deferred} (hd : d ∈ σ.deferredOf frame) :
    σ₀.scopes.size ≤ d.scope.index ∧ σ.Owned frame d := by
  have howned : σ.Owned frame d := by
    refine (h.grows.deferred frame d hd).resolve_left fun hold => ?_
    unfold Store.deferredOf at hold
    rw [Store.getD_of_size_le [] hnew] at hold
    cases hold
  refine ⟨Nat.le_of_not_lt fun hold => ?_, howned⟩
  obtain ⟨fr, hframe, rfl⟩ := Option.map_eq_some_iff.mp howned
  rw [h.grows.frame?_eq h.started hold] at hframe
  have hlt := h.started.lt_of_frame? hframe
  omega

/-- Into the scope of a call that was put off, and back. -/
theorem enter_turn (h : Lexical b here σ₀ σ) {s : ScopeId} (hs : s.index < σ.scopes.size) :
    Lexical true { here with scope := s } σ σ := begin h.ordered h.closed hs

theorem leave_turn (h : Lexical b here σ₀ σ) (h' : Lexical true there σ σ')
    (hnew : σ₀.scopes.size ≤ there.scope.index) : Lexical b here σ₀ σ' := by
  refine h.step h'.grows (fun s hs hopened => ?_) h'.ordered h'.closed
  obtain ⟨_, rfl⟩ := hopened
  omega

end Lexical

namespace Discipline

/-- The discipline of tasks that run by themselves: names are bound in the scope of
the site and in new ones only. -/
def lexical : Discipline where
  resumes := .alone
  home scopes s := s.index < scopes.size
  fit := Lexical
  pending _ σ₀ σ d := σ₀.scopes.size ≤ d.scope.index ∧ d.scope.index < σ.scopes.size

instance {stack : CallStack} {w : Ways} : lexical.Admits stack w := ⟨fun _ _ => trivial⟩

theorem lawful_lexical : lexical.Lawful where
  tells := tells_free
  later hwidens _ hs := Nat.lt_of_lt_of_le hs hwidens.scopes
  home_new {σ p? frame} := by
    show σ.scopes.size < (σ.addScope _).2.scopes.size
    rw [Store.size_scopes_addScope]
    exact Nat.lt_succ_self _
  weaken h := { h with grows := h.grows.mono fun _ _ hs => ⟨rfl, hs.2⟩ }
  restart h := .begin h.ordered h.closed h.inside
  trans h h' := h.trans h'
  closed h := h.closed
  inside h := h.inside
  quiet h hq := h.quiet hq
  resume {b here σ₀ σ _ _ _} h hresume := by
    have hclosed : σ.Closed (lexical.At σ) := h.closed
    obtain ⟨hquiet, hknown⟩ := quiet_of_alone hclosed hresume
    exact ⟨h.quiet hquiet, hknown⟩
  bind h hv := h.bind hv fun _ => ⟨rfl, rfl⟩
  rebind h _ hbound hv := h.rebind hv hbound
  print h := h.print
  enum h hmembers := h.enum hmembers
  enter_child h := h.enter_child
  leave_child h h' := h.leave h' (Nat.le_refl _)
  enter_unit h := .enter_root h.ordered h.closed
  leave_unit h h' := h.leave h' (Nat.le_refl _)
  frame h := h.frame
  enter_call h hparent _ := h.enter_call hparent
  leave_call h _ h' := h.leave h' (Nat.le_refl _)
  take h _ := h.take
  pending_take h hnew _ hd := ⟨(h.put_off hnew hd).1, h.closed.deferred _ _ hd⟩
  pending_later hd h := ⟨hd.1, Nat.lt_of_lt_of_le hd.2 h.grows.scopes⟩
  enter_turn h hd := h.enter_turn hd.2
  leave_turn h hd h' := h.leave_turn h' hd.1
  defer h hframe _ := h.defer hframe
  spawn h := h.spawn rfl

end Discipline
end TreeWalk
