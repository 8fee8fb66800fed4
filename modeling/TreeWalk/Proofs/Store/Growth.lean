/-
How scopes and frames come about.

Scopes are only ever added, each inside of an older one, and keep their parent and
their frame.  They keep the names they bind, too; which of them bind further names
is what `Grows` tells.
-/
import TreeWalk.Proofs.Store.Closed

namespace TreeWalk
namespace Store

variable {σ σ' σ'' : Store} {s t parent : ScopeId} {name other : String} {v : Value}

/-- A scope binds a name itself. -/
def Binds (σ : Store) (s : ScopeId) (name : String) : Prop :=
  (σ.scope s).bindings.contains name = true

instance : Decidable (σ.Binds s name) := inferInstanceAs (Decidable (_ = true))

/-- Parents are older than their children, and the frames of scopes have been
made. -/
structure Ordered (σ : Store) : Prop where
  parents : ∀ s parent, (σ.scope s).parent = some parent → parent.index < s.index
  frames : ∀ s frame, (σ.scope s).frame = some frame → frame.id.index < σ.deferred.size

/-! ## Single changes -/

theorem scope_bind_self (h : s.index < σ.scopes.size) : (σ.bind s name v).scope s =
    { σ.scope s with bindings := (σ.scope s).bindings.set name v } :=
  getD_modify_self default h

theorem scope_bind_of_ne (h : t ≠ s) : (σ.bind s name v).scope t = σ.scope t :=
  getD_modify_of_ne σ.scopes default _ fun heq => h (congrArg ScopeId.mk heq.symm)

theorem scope_bind_cases : (σ.bind s name v).scope t =
    { σ.scope t with bindings := (σ.scope t).bindings.set name v } ∨
      (σ.bind s name v).scope t = σ.scope t :=
  getD_modify_cases σ.scopes s.index t.index default _

@[simp] theorem parent_bind : ((σ.bind s name v).scope t).parent = (σ.scope t).parent := by
  rcases @scope_bind_cases σ s t name v with h | h <;> rw [h]

@[simp] theorem frame_bind : ((σ.bind s name v).scope t).frame = (σ.scope t).frame := by
  rcases @scope_bind_cases σ s t name v with h | h <;> rw [h]

@[simp] theorem size_scopes_bind : (σ.bind s name v).scopes.size = σ.scopes.size := by
  simp only [bind, Array.size_modify]

/-- A binding adds no other name than its own, and to no other scope. -/
theorem Binds.of_bind (h : (σ.bind s name v).Binds t other) :
    σ.Binds t other ∨ t = s ∧ other = name := by
  by_cases hts : t = s
  · unfold Binds at h
    rcases @scope_bind_cases σ s t name v with hscope | hscope
    · rw [hscope] at h
      by_cases hname : name = other
      · exact .inr ⟨hts, hname.symm⟩
      · simp only [Assoc.contains, Assoc.get?_set, if_neg hname] at h
        exact .inl h
    · rw [hscope] at h
      exact .inl h
  · unfold Binds at h
    rw [scope_bind_of_ne hts] at h
    exact .inl h

theorem Binds.bind (h : σ.Binds t other) : (σ.bind s name v).Binds t other := by
  unfold Binds at h ⊢
  rcases @scope_bind_cases σ s t name v with hscope | hscope
  · rw [hscope]
    by_cases hname : name = other
    · simp only [Assoc.contains, Assoc.get?_set, if_pos hname, Option.isSome_some]
    · simp only [Assoc.contains, Assoc.get?_set, if_neg hname]
      exact h
  · rw [hscope]
    exact h

@[simp] theorem isEnum_bind : ((σ.bind s name v).scope t).isEnum = (σ.scope t).isEnum := by
  rcases @scope_bind_cases σ s t name v with h | h <;> rw [h]

@[simp] theorem size_scopes_addScope {scope : Scope} :
    (σ.addScope scope).2.scopes.size = σ.scopes.size + 1 := Array.size_push _

theorem scope_addScope_of_lt {scope : Scope} (h : s.index < σ.scopes.size) :
    (σ.addScope scope).2.scope s = σ.scope s := by
  simp only [Store.scope, addScope, Array.getD_eq_getD_getElem?]
  rw [Array.getElem?_push_lt h, Array.getElem?_eq_getElem h]

theorem scope_addScope_new {scope : Scope} :
    (σ.addScope scope).2.scope ⟨σ.scopes.size⟩ = scope := by
  simp only [Store.scope, addScope, Array.getD_eq_getD_getElem?, Array.getElem?_push_size,
    Option.getD_some]

theorem scope_of_ge (h : σ.scopes.size ≤ s.index) : σ.scope s = default := getD_of_size_le default h

theorem lt_of_getLocal? (h : σ.getLocal? s name = some v) : s.index < σ.scopes.size := by
  by_contra hge
  unfold getLocal? at h
  rw [scope_of_ge (Nat.le_of_not_lt hge)] at h
  cases h

theorem getLocal?_bind_self (h : s.index < σ.scopes.size) :
    (σ.bind s name v).getLocal? s name = some v := by
  unfold getLocal?
  rw [scope_bind_self h]
  exact Assoc.get?_set_self _ name v

theorem deferredOf_defer_of_ne {frame other : FrameId} {d : Deferred} (h : other ≠ frame) :
    (σ.defer frame d).deferredOf other = σ.deferredOf other :=
  getD_modify_of_ne σ.deferred [] _ fun heq => h (congrArg FrameId.mk heq.symm)

theorem scope_eq_of_scopes_eq (h : σ'.scopes = σ.scopes) (s : ScopeId) : σ'.scope s = σ.scope s := by
  unfold scope
  rw [h]

/-! ## Frames of scopes -/

theorem frame?_of_scopes_eq (h : σ'.scopes = σ.scopes) : σ'.frame? s = σ.frame? s := by
  have hchain : ∀ fuel s, σ'.chainFrom fuel s = σ.chainFrom fuel s := by
    intro fuel
    induction fuel with
    | zero => exact fun _ => rfl
    | succ fuel ih =>
      intro s
      rw [chainFrom, chainFrom, scope_eq_of_scopes_eq h]
      simp only [ih]
  unfold frame? chain
  simp only [hchain, scope_eq_of_scopes_eq h]

namespace Ordered

variable (ho : σ.Ordered)
include ho

theorem le_of_mem_chainFrom {fuel : Nat} (h : t ∈ σ.chainFrom fuel s) : t.index ≤ s.index := by
  induction fuel generalizing s with
  | zero => cases h
  | succ fuel ih =>
    rw [chainFrom] at h
    rcases List.mem_cons.mp h with rfl | h
    · exact Nat.le_refl _
    · split at h
      · next parent hparent =>
        have hle := ih h
        have hlt := ho.parents s parent hparent
        omega
      · cases h

/-- A chain ends before its fuel does, so more fuel changes nothing. -/
theorem chainFrom_eq_chainFrom {m n : Nat} (hm : s.index < m) (hn : s.index < n) :
    σ.chainFrom m s = σ.chainFrom n s := by
  induction m generalizing s n with
  | zero => exact absurd hm (Nat.not_lt_zero _)
  | succ m ih =>
    cases n with
    | zero => exact absurd hn (Nat.not_lt_zero _)
    | succ n =>
      rw [chainFrom, chainFrom]
      cases hparent : (σ.scope s).parent with
      | none => rfl
      | some parent =>
        have hlt := ho.parents s parent hparent
        have hrest : σ.chainFrom m parent = σ.chainFrom n parent := ih (by omega) (by omega)
        simp only [hrest]

theorem chain_eq_cons (h : (σ.scope s).parent = some parent) : σ.chain s = s :: σ.chain parent := by
  have hlt := ho.parents s parent h
  have hrest : σ.chainFrom s.index parent = σ.chain parent :=
    ho.chainFrom_eq_chainFrom hlt (Nat.lt_succ_self _)
  unfold chain at hrest ⊢
  rw [chainFrom, h]
  simp only [hrest]

/-- The frame of a scope without one of its own is that of its parent. -/
theorem frame?_of_parent (h : (σ.scope s).parent = some parent) (hframe : (σ.scope s).frame = none) :
    σ.frame? s = σ.frame? parent := by
  unfold frame?
  rw [ho.chain_eq_cons h, List.findSome?_cons, hframe]

/-- The frame of a scope lies on a scope that is no newer. -/
theorem exists_of_frame? {frame : Frame} (h : σ.frame? s = some frame) :
    ∃ t : ScopeId, t.index ≤ s.index ∧ (σ.scope t).frame = some frame := by
  obtain ⟨t, ht, hframe⟩ := List.exists_of_findSome?_eq_some h
  exact ⟨t, ho.le_of_mem_chainFrom ht, hframe⟩

theorem lt_of_frame? {frame : Frame} (h : σ.frame? s = some frame) : frame.id.index < σ.deferred.size := by
  obtain ⟨t, _, hframe⟩ := ho.exists_of_frame? h
  exact ho.frames t frame hframe

end Ordered

theorem frame?_of_frame {frame : Frame} (h : (σ.scope s).frame = some frame) :
    σ.frame? s = some frame := by
  unfold frame? chain
  rw [chainFrom, List.findSome?_cons, h]

/-- Only a scope that is in the store has a frame around it. -/
theorem lt_size_of_frame? {frame : Frame} (h : σ.frame? s = some frame) :
    s.index < σ.scopes.size := by
  refine Nat.lt_of_not_le fun hge => ?_
  simp only [frame?, chain, chainFrom, List.findSome?_cons, scope_of_ge hge] at h
  cases h

/-! ## Growth -/

/-- A call put off on a frame belongs to the frame: it was put off from a scope of
the call that the frame was made for. -/
def Owned (σ : Store) (frame : FrameId) (d : Deferred) : Prop :=
  (σ.frame? d.scope).map Frame.id = some frame

/-- What evaluations make of a store: it has further scopes and frames, and the
scopes that `opened` tells may bind further names. -/
structure Grows (opened : ScopeId → Prop) (σ σ' : Store) : Prop where
  scopes : σ.scopes.size ≤ σ'.scopes.size
  frames : σ.deferred.size ≤ σ'.deferred.size
  parent : ∀ s : ScopeId, s.index < σ.scopes.size → (σ'.scope s).parent = (σ.scope s).parent
  frame : ∀ s : ScopeId, s.index < σ.scopes.size → (σ'.scope s).frame = (σ.scope s).frame
  kept : ∀ s name, σ.Binds s name → σ'.Binds s name
  added : ∀ (s : ScopeId) name, s.index < σ.scopes.size → σ'.Binds s name →
    σ.Binds s name ∨ opened s
  deferred : ∀ frame, ∀ d ∈ σ'.deferredOf frame, d ∈ σ.deferredOf frame ∨ σ'.Owned frame d

namespace Grows

variable {opened opened' opened'' : ScopeId → Prop}

theorem refl (σ : Store) : Grows opened σ σ where
  scopes := Nat.le_refl _
  frames := Nat.le_refl _
  parent _ _ := rfl
  frame _ _ := rfl
  kept _ _ h := h
  added _ _ _ h := .inl h
  deferred _ _ h := .inl h

theorem mono (h : Grows opened σ σ') (hopened : ∀ s : ScopeId, s.index < σ.scopes.size → opened s →
    opened' s) : Grows opened' σ σ' :=
  { h with added := fun s name hs hb => (h.added s name hs hb).imp_right (hopened s hs) }

/-- Scopes that are there keep the frame around them. -/
theorem frame?_eq (h : Grows opened σ σ') (ho : σ.Ordered) (hs : s.index < σ.scopes.size) :
    σ'.frame? s = σ.frame? s := by
  unfold frame? chain
  generalize s.index + 1 = fuel
  induction fuel generalizing s with
  | zero => rfl
  | succ fuel ih =>
    rw [chainFrom, chainFrom, List.findSome?_cons, List.findSome?_cons, h.frame s hs, h.parent s hs]
    cases (σ.scope s).frame with
    | some frame => rfl
    | none =>
      cases hparent : (σ.scope s).parent with
      | none => rfl
      | some parent => exact ih (Nat.lt_trans (ho.parents s parent hparent) hs)

theorem owned {frame : FrameId} {d : Deferred} (h : Grows opened σ σ') (ho : σ.Ordered)
    (hd : σ.Owned frame d) : σ'.Owned frame d := by
  obtain ⟨fr, hframe, rfl⟩ := Option.map_eq_some_iff.mp hd
  unfold Owned
  rw [h.frame?_eq ho (lt_size_of_frame? hframe), hframe]
  rfl

theorem trans (h : Grows opened σ σ') (ho : σ'.Ordered) (h' : Grows opened' σ' σ'')
    (hopened : ∀ s : ScopeId, s.index < σ.scopes.size → opened' s → opened s) :
    Grows opened σ σ'' where
  scopes := Nat.le_trans h.scopes h'.scopes
  frames := Nat.le_trans h.frames h'.frames
  parent s hs := (h'.parent s (Nat.lt_of_lt_of_le hs h.scopes)).trans (h.parent s hs)
  frame s hs := (h'.frame s (Nat.lt_of_lt_of_le hs h.scopes)).trans (h.frame s hs)
  kept s name hb := h'.kept s name (h.kept s name hb)
  added s name hs hb := by
    rcases h'.added s name (Nat.lt_of_lt_of_le hs h.scopes) hb with hb | hopen
    · exact h.added s name hs hb
    · exact .inr (hopened s hs hopen)
  deferred frame d hd := by
    rcases h'.deferred frame d hd with hd | hd
    · rcases h.deferred frame d hd with hd | hd
      · exact .inl hd
      · exact .inr (h'.owned ho hd)
    · exact .inr hd

/-! ## Single changes -/

theorem of_same (hscopes : σ'.scopes = σ.scopes) (hdeferred : σ'.deferred = σ.deferred) :
    Grows opened σ σ' where
  scopes := Nat.le_of_eq (congrArg Array.size hscopes).symm
  frames := Nat.le_of_eq (congrArg Array.size hdeferred).symm
  parent s _ := by rw [scope_eq_of_scopes_eq hscopes]
  frame s _ := by rw [scope_eq_of_scopes_eq hscopes]
  kept s name hb := by
    unfold Binds
    rw [scope_eq_of_scopes_eq hscopes]
    exact hb
  added s name _ hb := by
    unfold Binds at hb
    rw [scope_eq_of_scopes_eq hscopes] at hb
    exact .inl hb
  deferred frame d hd := by
    unfold deferredOf at hd
    rw [hdeferred] at hd
    exact .inl hd

theorem bind (hopened : opened s) : Grows opened σ (σ.bind s name v) where
  scopes := Nat.le_of_eq size_scopes_bind.symm
  frames := Nat.le_refl _
  parent _ _ := parent_bind
  frame _ _ := frame_bind
  kept _ _ hb := hb.bind
  added t other _ hb := by
    rcases hb.of_bind with hb | ⟨rfl, _⟩
    · exact .inl hb
    · exact .inr hopened
  deferred _ _ hd := .inl hd

/-- Another value for a name that is bound adds no name. -/
theorem rebind (hbound : σ.Binds s name) : Grows opened σ (σ.bind s name v) where
  scopes := Nat.le_of_eq size_scopes_bind.symm
  frames := Nat.le_refl _
  parent _ _ := parent_bind
  frame _ _ := frame_bind
  kept _ _ hb := hb.bind
  added t other _ hb := by
    rcases hb.of_bind with hb | ⟨rfl, rfl⟩
    · exact .inl hb
    · exact .inl hbound
  deferred _ _ hd := .inl hd

theorem addScope {scope : Scope} : Grows opened σ (σ.addScope scope).2 where
  scopes := by
    rw [size_scopes_addScope]
    omega
  frames := Nat.le_refl _
  parent s hs := by rw [scope_addScope_of_lt hs]
  frame s hs := by rw [scope_addScope_of_lt hs]
  kept s name hb := by
    by_cases hs : s.index < σ.scopes.size
    · unfold Binds
      rw [scope_addScope_of_lt hs]
      exact hb
    · unfold Binds at hb
      rw [scope_of_ge (Nat.le_of_not_lt hs)] at hb
      cases hb
  added s name hs hb := by
    unfold Binds at hb
    rw [scope_addScope_of_lt hs] at hb
    exact .inl hb
  deferred _ _ hd := .inl hd

theorem newFrame {pos : Position} : Grows opened σ (σ.newFrame name pos).2 where
  scopes := Nat.le_refl _
  frames := by
    show σ.deferred.size ≤ (σ.deferred.push _).size
    rw [Array.size_push]
    omega
  parent _ _ := rfl
  frame _ _ := rfl
  kept _ _ hb := hb
  added _ _ _ hb := .inl hb
  deferred frame d hd := by
    rcases getD_push_cases σ.deferred frame.index [] [] with he | he
    · rw [show (σ.newFrame name pos).2.deferredOf frame = [] from he] at hd
      cases hd
    · rw [show (σ.newFrame name pos).2.deferredOf frame = σ.deferredOf frame from he] at hd
      exact .inl hd

theorem defer {frame : FrameId} {d : Deferred} (hd : σ.Owned frame d) :
    Grows opened σ (σ.defer frame d) where
  scopes := Nat.le_refl _
  frames := Nat.le_of_eq Array.size_modify.symm
  parent _ _ := rfl
  frame _ _ := rfl
  kept _ _ hb := hb
  added _ _ _ hb := .inl hb
  deferred other e he := by
    by_cases hframe : other = frame
    · obtain rfl := hframe
      rcases getD_modify_cases σ.deferred other.index other.index [] (· ++ [d]) with heq | heq
      · rw [show (σ.defer other d).deferredOf other = σ.deferredOf other ++ [d] from heq] at he
        rcases List.mem_append.mp he with he | he
        · exact .inl he
        · obtain rfl := List.mem_singleton.mp he
          refine .inr ?_
          have hframe : (σ.defer other e).frame? e.scope = σ.frame? e.scope :=
            frame?_of_scopes_eq rfl
          unfold Owned
          rw [hframe]
          exact hd
      · rw [show (σ.defer other d).deferredOf other = σ.deferredOf other from heq] at he
        exact .inl he
    · rw [deferredOf_defer_of_ne hframe] at he
      exact .inl he

theorem takeDeferred {frame : FrameId} : Grows opened σ (σ.takeDeferred frame).2 where
  scopes := Nat.le_refl _
  frames := Nat.le_of_eq Array.size_setIfInBounds.symm
  parent _ _ := rfl
  frame _ _ := rfl
  kept _ _ hb := hb
  added _ _ _ hb := .inl hb
  deferred other d hd := by
    rcases getD_setIfInBounds_cases σ.deferred frame.index other.index [] [] with heq | heq
    · rw [show (σ.takeDeferred frame).2.deferredOf other = [] from heq] at hd
      cases hd
    · rw [show (σ.takeDeferred frame).2.deferredOf other = σ.deferredOf other from heq] at hd
      exact .inl hd

end Grows

namespace Ordered

/-- Scopes that keep parent and frame stay in order. -/
theorem of_same (ho : σ.Ordered) (hparent : ∀ s, (σ'.scope s).parent = (σ.scope s).parent)
    (hframe : ∀ s, (σ'.scope s).frame = (σ.scope s).frame)
    (hframes : σ.deferred.size ≤ σ'.deferred.size) : σ'.Ordered where
  parents s parent h := ho.parents s parent (hparent s ▸ h)
  frames s frame h := Nat.lt_of_lt_of_le (ho.frames s frame (hframe s ▸ h)) hframes

theorem addScope {scope : Scope} (ho : σ.Ordered)
    (hparent : ∀ parent, scope.parent = some parent → parent.index < σ.scopes.size)
    (hframe : ∀ f, scope.frame = some f → f.id.index < σ.deferred.size) :
    (σ.addScope scope).2.Ordered := by
  have hcases : ∀ s, (σ.addScope scope).2.scope s = σ.scope s ∨
      s = ⟨σ.scopes.size⟩ ∧ (σ.addScope scope).2.scope s = scope := by
    intro s
    by_cases hs : s.index < σ.scopes.size
    · exact .inl (scope_addScope_of_lt hs)
    · by_cases hnew : s = ⟨σ.scopes.size⟩
      · exact .inr ⟨hnew, hnew ▸ scope_addScope_new⟩
      · left
        have hne : s.index ≠ σ.scopes.size := fun h => hnew (congrArg ScopeId.mk h)
        rw [scope_of_ge (Nat.le_of_not_lt hs)]
        refine scope_of_ge ?_
        rw [size_scopes_addScope]
        omega
  constructor
  · intro s parent h
    rcases hcases s with heq | ⟨rfl, heq⟩
    · rw [heq] at h
      exact ho.parents s parent h
    · rw [heq] at h
      exact hparent parent h
  · intro s f h
    rcases hcases s with heq | ⟨rfl, heq⟩
    · rw [heq] at h
      exact ho.frames s f h
    · rw [heq] at h
      exact hframe f h

end Ordered

/-! ## Kinds of scopes -/

/-- Scopes are only added, and none becomes the scope of an enum or stops being
one. -/
structure Widens (σ σ' : Store) : Prop where
  scopes : σ.scopes.size ≤ σ'.scopes.size
  kind : ∀ s : ScopeId, s.index < σ.scopes.size → (σ'.scope s).isEnum = (σ.scope s).isEnum

namespace Widens

theorem of_scopes_eq (h : σ'.scopes = σ.scopes) : σ.Widens σ' where
  scopes := Nat.le_of_eq (congrArg Array.size h).symm
  kind s _ := by rw [scope_eq_of_scopes_eq h]

theorem refl (σ : Store) : σ.Widens σ := of_scopes_eq rfl

theorem trans (h : σ.Widens σ') (h' : σ'.Widens σ'') : σ.Widens σ'' where
  scopes := Nat.le_trans h.scopes h'.scopes
  kind s hs := (h'.kind s (Nat.lt_of_lt_of_le hs h.scopes)).trans (h.kind s hs)

theorem bind : σ.Widens (σ.bind s name v) :=
  ⟨Nat.le_of_eq size_scopes_bind.symm, fun _ _ => isEnum_bind⟩

theorem addScope {scope : Scope} : σ.Widens (σ.addScope scope).2 where
  scopes := by
    rw [size_scopes_addScope]
    omega
  kind s hs := by rw [scope_addScope_of_lt hs]

end Widens
end Store
end TreeWalk
