/-
The frame of the scope is the frame on top.

The frame of a call is found from a scope, outwards, and lies on the call stack.
Both ways lead to the same frame wherever something is evaluated by itself: blocks
have the frame of the scope around them, calls push the frame that they give to
their scope, units start with neither, and calls that were put off run in scopes of
the call on top.  So only the frame on top is ever given calls to put off.
-/
import TreeWalk.Proofs.Eval.Call
import TreeWalk.Proofs.Eval.Lexical

namespace TreeWalk

namespace Store

variable {σ σ' σ'' : Store} {top : Option FrameId}

/-- The calls put off stay, in order, and only the frame `top` is given further
ones.  Nothing is said of frames that are new. -/
structure Registers (top : Option FrameId) (σ σ' : Store) : Prop where
  kept : ∀ frame : FrameId, frame.index < σ.deferred.size → some frame ≠ top →
    σ'.deferredOf frame = σ.deferredOf frame
  added : ∀ frame : FrameId, frame.index < σ.deferred.size →
    σ.deferredOf frame <+: σ'.deferredOf frame

namespace Registers

theorem of_kept (h : ∀ frame : FrameId, frame.index < σ.deferred.size →
    σ'.deferredOf frame = σ.deferredOf frame) : Registers top σ σ' where
  kept frame hold _ := h frame hold
  added frame hold := ⟨[], by rw [List.append_nil, h frame hold]⟩

theorem of_same (h : σ'.deferred = σ.deferred) : Registers top σ σ' := by
  refine of_kept fun frame _ => ?_
  unfold deferredOf
  rw [h]

theorem refl (σ : Store) : Registers top σ σ := of_same rfl

theorem trans (h : Registers top σ σ') (hsize : σ.deferred.size ≤ σ'.deferred.size)
    (h' : Registers top σ' σ'') : Registers top σ σ'' where
  kept frame hold hne :=
    (h'.kept frame (Nat.lt_of_lt_of_le hold hsize) hne).trans (h.kept frame hold hne)
  added frame hold :=
    (h.added frame hold).trans (h'.added frame (Nat.lt_of_lt_of_le hold hsize))

/-- What happens while a new frame is on top leaves the others alone. -/
theorem of_new {inner : Option FrameId} (h : Registers inner σ σ')
    (hnew : ∀ frame, inner = some frame → σ.deferred.size ≤ frame.index) : Registers top σ σ' := by
  refine of_kept fun frame hold => h.kept frame hold fun heq => ?_
  have hge := hnew frame heq.symm
  omega

theorem newFrame {name : String} {pos : Position} : Registers top σ (σ.newFrame name pos).2 := by
  refine of_kept fun frame hold => ?_
  simp only [deferredOf, Store.newFrame, Array.getD_eq_getD_getElem?]
  rw [Array.getElem?_push_lt hold, Array.getElem?_eq_getElem hold]

theorem takeDeferred {frame : FrameId} (hnew : σ.deferred.size ≤ frame.index)
    (h : Registers top σ σ') : Registers top σ (σ'.takeDeferred frame).2 := by
  have hsame : ∀ other : FrameId, other.index < σ.deferred.size →
      (σ'.takeDeferred frame).2.deferredOf other = σ'.deferredOf other := by
    intro other hold
    have hne : frame.index ≠ other.index := by omega
    simp only [deferredOf, Store.takeDeferred, Array.getD_eq_getD_getElem?,
      Array.getElem?_setIfInBounds, if_neg hne]
  constructor
  · intro other hold hne
    rw [hsame other hold]
    exact h.kept other hold hne
  · intro other hold
    rw [hsame other hold]
    exact h.added other hold

theorem defer {frame : FrameId} {d : Deferred} : Registers (some frame) σ (σ.defer frame d) where
  kept other _ hne := deferredOf_defer_of_ne fun heq => hne (congrArg some heq)
  added other _ := by
    rcases getD_modify_cases σ.deferred frame.index other.index [] (· ++ [d]) with heq | heq
    · rw [show (σ.defer frame d).deferredOf other = σ.deferredOf other ++ [d] from heq]
      exact List.prefix_append _ _
    · exact ⟨[], by rw [List.append_nil]; exact heq.symm⟩

end Registers
end Store

/-- The frame of the innermost call under way. -/
def CallStack.topId? (stack : CallStack) : Option FrameId := stack.top?.map Frame.id

theorem CallStack.topId?_of_push? {s t : CallStack} {frame : Frame}
    (h : s.push? frame = some t) : t.topId? = some frame.id := by
  unfold topId?
  rw [top?_of_push? h]
  rfl

/-- The frame of the call that a scope belongs to. -/
def Store.frameId? (σ : Store) (s : ScopeId) : Option FrameId := (σ.frame? s).map Frame.id

namespace Store

variable {σ σ' : Store} {s : ScopeId}

theorem frameId?_of_scopes_eq (h : σ'.scopes = σ.scopes) : σ'.frameId? s = σ.frameId? s := by
  unfold frameId?
  rw [frame?_of_scopes_eq h]

theorem Grows.frameId?_eq {opened : ScopeId → Prop} (h : σ.Grows opened σ') (ho : σ.Ordered)
    (hs : s.index < σ.scopes.size) : σ'.frameId? s = σ.frameId? s := by
  unfold frameId?
  rw [h.frame?_eq ho hs]

end Store

/-- What an evaluation at `here` that began with `σ₀` may have come to: as before,
and the frame on top is that of the scope. -/
structure Aligned (b : Bool) (here : Site) (σ₀ σ : Store) : Prop where
  lexical : Lexical b here σ₀ σ
  top : σ.frameId? here.scope = here.stack.topId?
  registers : σ₀.Registers here.stack.topId? σ

namespace Aligned

variable {b : Bool} {here there : Site} {σ₀ σ σ' : Store}

theorem begin (h : Lexical b here σ₀ σ) (htop : σ.frameId? here.scope = here.stack.topId?) :
    Aligned false here σ σ :=
  ⟨.begin h.ordered h.closed h.inside, htop, .refl σ⟩

/-- Scopes keep their frame, so a change that fits needs to be followed only in the
calls put off. -/
theorem step (h : Aligned b here σ₀ σ) (hlex : Lexical b here σ₀ σ')
    (hgrows : σ.Grows (fun _ => True) σ') (hregisters : σ₀.Registers here.stack.topId? σ') :
    Aligned b here σ₀ σ' where
  lexical := hlex
  top := by
    rw [hgrows.frameId?_eq h.lexical.ordered h.lexical.inside]
    exact h.top
  registers := hregisters

/-- The same for a change that leaves the calls put off alone. -/
theorem step_same (h : Aligned b here σ₀ σ) (hlex : Lexical b here σ₀ σ')
    (hgrows : σ.Grows (fun _ => True) σ') (hdeferred : σ'.deferred = σ.deferred) : Aligned b here σ₀ σ' :=
  h.step hlex hgrows (h.registers.trans h.lexical.grows.frames (.of_same hdeferred))

/-- Back from another site. -/
theorem leave (h : Aligned b here σ₀ σ) (h' : Aligned true there σ σ')
    (hlex : Lexical b here σ₀ σ') (hregisters : σ.Registers here.stack.topId? σ') :
    Aligned b here σ₀ σ' :=
  h.step hlex (h'.lexical.grows.mono fun _ _ _ => trivial) (h.registers.trans h.lexical.grows.frames hregisters)

/-- The frame on top is one of the store. -/
theorem lt_of_top (h : Aligned b here σ₀ σ) {frame : FrameId}
    (htop : here.stack.topId? = some frame) : frame.index < σ.deferred.size := by
  rw [← h.top] at htop
  obtain ⟨fr, hframe, rfl⟩ := Option.map_eq_some_iff.mp htop
  exact h.lexical.ordered.lt_of_frame? hframe

/-- A block has the frame of the scope around it. -/
theorem enter_child (h : Aligned b here σ₀ σ) :
    Aligned true { here with scope := ⟨σ.scopes.size⟩ } σ (σ.childScope here.scope).2 where
  lexical := h.lexical.enter_child
  top := by
    have hchild := h.lexical.enter_child
    have hscope : (σ.childScope here.scope).2.scope ⟨σ.scopes.size⟩ =
        ⟨[], some here.scope, none, false⟩ := Store.scope_addScope_new
    have hparent : ((σ.childScope here.scope).2.scope ⟨σ.scopes.size⟩).parent = some here.scope := by
      rw [hscope]
    have hframe : ((σ.childScope here.scope).2.scope ⟨σ.scopes.size⟩).frame = none := by
      rw [hscope]
    unfold Store.frameId?
    rw [hchild.ordered.frame?_of_parent hparent hframe,
      hchild.grows.frame?_eq h.lexical.ordered h.lexical.inside]
    exact h.top
  registers := .of_same rfl

/-- A unit starts without a frame and without calls. -/
theorem enter_unit (h : Aligned b here σ₀ σ) : Aligned true (here.unit σ) σ σ.rootScope.2 where
  lexical := .enter_root h.lexical.ordered h.lexical.closed
  top := by
    have hscope : σ.rootScope.2.scope ⟨σ.scopes.size⟩ = ⟨[], none, none, false⟩ :=
      Store.scope_addScope_new
    have hchain : σ.rootScope.2.chain ⟨σ.scopes.size⟩ = [⟨σ.scopes.size⟩] := by
      unfold Store.chain
      rw [Store.chainFrom, hscope]
    show (σ.rootScope.2.frame? ⟨σ.scopes.size⟩).map Frame.id = none
    unfold Store.frame?
    rw [hchain, List.findSome?_singleton, hscope]
    rfl
  registers := .of_same rfl

/-- A call pushes the frame that it gives to its scope. -/
theorem enter_call (h : Aligned b here σ₀ σ) {name : String} {pos : Position} {parent : ScopeId}
    {stack : CallStack} (hparent : parent.index < σ.scopes.size)
    (hpush : here.stack.push? (σ.newFrame name pos).1 = some stack) :
    Aligned true { here with scope := ⟨σ.scopes.size⟩, stack := stack } σ
      ((σ.newFrame name pos).2.activation parent (σ.newFrame name pos).1).2 where
  lexical := h.lexical.enter_call hparent
  top := by
    have hscope : ((σ.newFrame name pos).2.activation parent (σ.newFrame name pos).1).2.scope
        ⟨σ.scopes.size⟩ = ⟨[], some parent, some (σ.newFrame name pos).1, false⟩ :=
      Store.scope_addScope_new
    have hframe : (((σ.newFrame name pos).2.activation parent (σ.newFrame name pos).1).2.scope
        ⟨σ.scopes.size⟩).frame = some (σ.newFrame name pos).1 := by rw [hscope]
    unfold Store.frameId? CallStack.topId?
    rw [Store.frame?_of_frame hframe, CallStack.top?_of_push? hpush]
  registers := by
    have hgrows : σ.Grows (fun _ => False) (σ.newFrame name pos).2 := .newFrame
    exact Store.Registers.newFrame.trans hgrows.frames (.of_same rfl)

theorem quiet (h : Aligned b here σ₀ σ) (hq : σ.Quiet (fun s : ScopeId => s.index < σ.scopes.size) σ') :
    Aligned b here σ₀ σ' :=
  h.step_same (h.lexical.quiet hq) (.of_same hq.scopes hq.deferred) hq.deferred

/-- Back from a call: its frame is new. -/
theorem leave_call (h : Aligned b here σ₀ σ) {name : String} {pos : Position} {stack : CallStack}
    (hpush : here.stack.push? (σ.newFrame name pos).1 = some stack)
    (h' : Aligned true { here with scope := ⟨σ.scopes.size⟩, stack := stack } σ σ') :
    Aligned b here σ₀ σ' := by
  refine h.leave h' (h.lexical.leave h'.lexical (Nat.le_refl _)) ?_
  refine h'.registers.of_new fun frame hframe => ?_
  obtain rfl := Option.some.inj ((CallStack.topId?_of_push? hpush).symm.trans hframe)
  exact Nat.le_refl _

theorem print (h : Aligned b here σ₀ σ) {sink : Sink} {text : String} :
    Aligned b here σ₀ (σ.print sink text) := by
  cases sink with
  | capture => exact h.step_same h.lexical.print (.of_same rfl rfl) rfl
  | discard => exact h

/-- A call is put off on the frame on top. -/
theorem defer (h : Aligned b here σ₀ σ) {frame : Frame} {call : Expr}
    (hframe : σ.frame? here.scope = some frame) :
    Aligned b here σ₀ (σ.defer frame.id ⟨call, here.scope⟩) := by
  have htop : here.stack.topId? = some frame.id := by
    rw [← h.top]
    unfold Store.frameId?
    rw [hframe]
    rfl
  refine ⟨h.lexical.defer hframe, ?_, ?_⟩
  · have hsame : (σ.defer frame.id ⟨call, here.scope⟩).frameId? here.scope = σ.frameId? here.scope :=
      Store.frameId?_of_scopes_eq rfl
    exact hsame.trans h.top
  · rw [htop]
    exact (htop ▸ h.registers).trans h.lexical.grows.frames .defer

end Aligned

namespace Discipline

/-- The discipline of tasks that run by themselves, with frames. -/
def aligned : Discipline where
  resumes := .alone
  home scopes s := s.index < scopes.size
  fit := Aligned
  pending here σ₀ σ d := lexical.pending here σ₀ σ d ∧ σ.frameId? d.scope = here.stack.topId?

instance {stack : CallStack} {w : Ways} : aligned.Admits stack w := ⟨fun _ _ => trivial⟩

theorem lawful_aligned : aligned.Lawful where
  tells := tells_free
  later := lawful_lexical.later
  home_new := lawful_lexical.home_new
  weaken h := ⟨lawful_lexical.weaken h.lexical, h.top, h.registers⟩
  restart h := .begin h.lexical h.top
  trans h h' := ⟨h.lexical.trans h'.lexical, h'.top,
    h.registers.trans h.lexical.grows.frames h'.registers⟩
  closed h := h.lexical.closed
  inside h := h.lexical.inside
  quiet h hq := h.quiet hq
  resume {_ _ _ σ _ _ _} h hresume := by
    have hclosed : σ.Closed (aligned.At σ) := h.lexical.closed
    obtain ⟨hquiet, hknown⟩ := quiet_of_alone hclosed hresume
    exact ⟨h.quiet hquiet, hknown⟩
  bind h hv := h.step_same (lawful_lexical.bind h.lexical hv) (.bind trivial) rfl
  rebind h hs hbound hv :=
    h.step_same (lawful_lexical.rebind h.lexical hs hbound hv) (.rebind hbound) rfl
  print h := h.print
  enum h hmembers := h.step_same (h.lexical.enum hmembers) .addScope rfl
  enter_child h := h.enter_child
  leave_child h h' := h.leave h' (lawful_lexical.leave_child h.lexical h'.lexical) h'.registers
  enter_unit h := h.enter_unit
  leave_unit h h' := h.leave h' (lawful_lexical.leave_unit h.lexical h'.lexical)
    (h'.registers.of_new fun _ hframe => nomatch hframe)
  frame h := h.step h.lexical.frame .newFrame (h.registers.trans h.lexical.grows.frames .newFrame)
  enter_call h hparent hpush := h.enter_call hparent hpush
  leave_call h hpush h' := h.leave_call hpush h'
  take h hnew := h.step h.lexical.take .takeDeferred (h.registers.takeDeferred hnew)
  pending_take {_ _ σ frame d} h hnew htop hd := by
    refine ⟨lawful_lexical.pending_take h.lexical hnew htop hd, ?_⟩
    have howned : σ.frameId? d.scope = some frame := (h.lexical.put_off hnew hd).2
    have hsame : (σ.takeDeferred frame).2.frameId? d.scope = σ.frameId? d.scope :=
      Store.frameId?_of_scopes_eq rfl
    exact hsame.trans (howned.trans htop.symm)
  pending_later hd h := by
    refine ⟨lawful_lexical.pending_later hd.1 h.lexical, ?_⟩
    rw [h.lexical.grows.frameId?_eq h.lexical.started hd.1.2]
    exact hd.2
  enter_turn h hd := ⟨h.lexical.enter_turn hd.1.2, hd.2, .refl _⟩
  leave_turn h hd h' := h.leave h' (h.lexical.leave_turn h'.lexical hd.1.1) h'.registers
  defer h hframe _ := h.defer hframe
  spawn h := h.step_same (h.lexical.spawn rfl) Lexical.grows_requestTask rfl

end Discipline
end TreeWalk
