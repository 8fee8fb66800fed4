/-
Names, members, elements and places are sound.

What is found under a name is in the store, so it is within if the store is
closed.  A write amounts to one of three changes: a calm one, a new value for a
name that a scope binds, or a new name in the scope of the write.
-/
import TreeWalk.Proofs.Atomic.Method
import TreeWalk.Store.Place

namespace TreeWalk

open Atomic Value

variable {p : Reach} {v key : Value} {pos : Position} {name : String} {scope : ScopeId}

namespace Access

theorem sound_failName {α : Type} {Φ : α → Prop} :
    Sound p Φ (failName scope name pos : Atomic α) := .seq .look fun _ => .fail

theorem within_resolve? {σ : Store} (hc : σ.Closed p) (h : resolve? σ scope name = some v) :
    v.Within p := by
  unfold resolve? at h
  rcases Option.or_eq_some_iff.mp h with h | ⟨_, h⟩
  · exact hc.registry name v h
  · rcases Option.or_eq_some_iff.mp h with h | ⟨_, h⟩
    · exact hc.get? h
    · rcases Option.or_eq_some_iff.mp h with h | ⟨_, h⟩
      · exact hc.moduleMember? h
      · obtain ⟨f, _, rfl⟩ := Option.map_eq_some_iff.mp h
        exact within_native f

/-- Something found in the store, if there is anything. -/
theorem sound_find {g : Store → Option Value}
    (h : ∀ σ : Store, σ.Closed p → ∀ v, g σ = some v → v.Within p) :
    Sound p (fun v? => ∀ v, v? = some v → v.Within p) (read g) := .read h

theorem sound_lookup : Sound p (Value.Within p) (lookup scope name pos) := by
  refine .bind (sound_find fun _ hc _ hv => within_resolve? hc hv) fun v? hv => ?_
  split
  · exact .pure (hv _ rfl)
  · exact sound_failName

theorem sound_failMember {α : Type} {Φ : α → Prop} :
    Sound p Φ (failMember v scope name pos : Atomic α) := .seq .look fun _ => .fail

theorem sound_member : Sound p (Value.Within p) (member v name pos) := by
  unfold member
  split
  · next scope _ =>
    refine .bind (sound_find fun _ hc w hw => hc.bindings scope name w hw) fun v? hv => ?_
    split
    · exact .pure (hv _ rfl)
    · exact sound_failMember
  · split
    · next id _ =>
      have dict : Sound p (Dict.Within p) (read (·.dict id)) := .read fun _ hc => hc.hashes id
      refine .bind dict fun d hd => ?_
      split
      · next entry hentry => exact .pure (hd _ entry hentry).2
      · exact .fail
    · exact .fail

theorem sound_failIndexType {α : Type} {Φ : α → Prop} :
    Sound p Φ (failIndexType v key pos : Atomic α) := .fail

theorem sound_positionIn {length : Nat} :
    Sound p (fun _ => True) (positionIn v key length pos) := by
  unfold positionIn
  split
  · exact .require fun _ _ => trivial
  · exact sound_failIndexType

theorem sound_itemOf {α : Type} {items : List α} :
    Sound p (· ∈ items) (itemOf v key items pos) :=
  .seq sound_positionIn fun _ => .require fun _ hv => List.mem_of_getElem? hv

theorem sound_index (hv : v.Within p) : Sound p (Value.Within p) (index v key pos) := by
  unfold index
  split
  · next id =>
    have array : Sound p (fun items => ListWithin p items.toList) (read (·.array id)) :=
      .read fun _ hc => hc.arrays id
    exact .bind array fun items hitems => sound_itemOf.mono hitems
  · exact sound_itemOf.mono ((within_tuple _ _).mp hv)
  · split
    · exact .seq (sound_itemOf.mono fun _ _ => trivial) fun _ => .pure trivial
    · exact sound_failIndexType
  · exact .seq sound_positionIn fun _ => .pure trivial
  · next id =>
    have dict : Sound p (Dict.Within p) (read (·.dict id)) := .read fun _ hc => hc.hashes id
    exact .bind sound_keyOf fun hash _ => .bind dict fun d hd => .pure (HashAction.within_found hd)
  · split
    · exact sound_member
    · exact sound_failIndexType

theorem sound_bound {given : Value} : Sound p (fun _ => True) (bound v given pos) := by
  unfold bound
  split
  · exact .pure trivial
  · exact sound_failIndexType

theorem sound_slice {start : Int64} {stop : Option Int64} (hv : v.Within p) :
    Sound p (Value.Within p) (slice v start stop pos) := by
  unfold slice
  split
  · next id =>
    have array : Sound p (fun items => ListWithin p items.toList) (read (·.array id)) :=
      .read fun _ hc => hc.arrays id
    refine .bind array fun items hitems => .seq Sequence.sound_bounds fun _ => ?_
    exact .newArray fun w hw => hitems w (Sequence.mem_slice hw)
  · refine .seq Sequence.sound_bounds fun _ => .pure ((within_tuple _ _).mpr fun w hw => ?_)
    exact (within_tuple _ _).mp hv w (Sequence.mem_slice hw)
  · split
    · exact .seq Sequence.sound_bounds fun _ => .pure trivial
    · exact .fail
  · exact .fail

end Access

namespace Place

/-- What a place is made of is within. -/
def Within (p : Reach) : Place → Prop
  | .name _ => True
  | .element c key => c.Within p ∧ key.Within p
  | .member o _ => o.Within p

theorem Within.mono {p q : ScopeId → Prop} {place : Place} (h : ∀ s, p s → q s)
    (hp : place.Within p) : place.Within q := by
  cases place with
  | name n => trivial
  | element c key => exact ⟨hp.1.mono h, hp.2.mono h⟩
  | member o n => exact Value.Within.mono h o hp

theorem sound_get {place : Place} (h : place.Within p) :
    Sound p (Value.Within p) (get scope place pos) := by
  unfold get
  split
  · refine .bind (Access.sound_find fun _ hc _ hv => hc.get? hv) fun v? hv => ?_
    split
    · exact .pure (hv _ rfl)
    · exact Access.sound_failName
  · exact Access.sound_index h.1
  · exact Access.sound_member

/-- The changes of a store that a write of `v` seen from a scope amounts to. -/
inductive Change (p : Reach) (scope : ScopeId) (v : Value) (σ : Store) : Store → Prop
  | calm {σ'} (h : σ.Calm p σ') : Change p scope v σ σ'
  /-- A name that a scope binds has a new value. -/
  | rebind {s n} (hs : p s) (h : (σ.scope s).bindings.contains n = true) :
      Change p scope v σ (σ.bind s n v)
  /-- A new name is bound in the scope of the write. -/
  | declare {n} : Change p scope v σ (σ.bind scope n v)

/-- A result that leaves the store alone and answers a change of that kind, or is a
failure. -/
def Written (p : Reach) (scope : ScopeId) (v : Value) (σ : Store)
    (result : Except Exit ((Store → Store) × Store)) : Prop :=
  (∃ g, result = .ok (g, σ) ∧ Change p scope v σ (g σ)) ∨ ∃ e, result = .error e ∧ e.IsFailure

variable {o c : Value} {n : String} {declare : Bool} {σ : Store}

theorem written_pure {g : Store → Store} (h : Change p scope v σ (g σ)) :
    Written p scope v σ ((Pure.pure g : Atomic (Store → Store)) σ) := .inl ⟨g, rfl, h⟩

theorem written_fail {cause : Cause} :
    Written p scope v σ ((Atomic.fail cause pos : Atomic (Store → Store)) σ) :=
  .inr ⟨_, rfl, trivial⟩

theorem written_member (ho : o.Within p) (hv : v.Within p) :
    Written p scope v σ (writeMember o n v pos σ) := by
  unfold writeMember
  split
  · next s l =>
    rw [read_bind_apply]
    cases hold : σ.getLocal? s n with
    | some old => exact written_pure (.rebind ho (Option.isSome_iff_exists.mpr ⟨old, hold⟩))
    | none => exact written_fail
  · exact written_fail
  · refine written_pure (.calm ⟨Store.quiet_modifyDict (fun d hd => ?_) fun d hd => ?_, rfl⟩)
    · exact hd.insert (within_ofString n) hv
    · exact hd.insert rfl
  · exact written_fail

theorem written_element (hc : c.Within p) (hk : key.Within p) (hv : v.Within p) :
    Written p scope v σ (writeElement c key v pos σ) := by
  unfold writeElement
  split
  · next id =>
    rw [read_bind_apply]
    unfold Access.positionIn
    split
    · next i _ =>
      rcases require_cases (Sequence.resolveIndex? i (σ.array id).size)
        (.index i (σ.array id).size) pos with ⟨k, _, h⟩ | h
      · rw [h]
        refine written_pure (.calm ⟨Store.quiet_modifyArray fun items hitems w hw => ?_, rfl⟩)
        rw [Array.toList_setIfInBounds] at hw
        rcases List.mem_or_eq_of_mem_set hw with hw | rfl
        · exact hitems w hw
        · exact hv
      · rw [h]
        exact written_fail
    · exact written_fail
  · rcases require_cases key.key? (.unhashable key.kind) pos with ⟨hash, hhash, h⟩ | h
    · rw [show keyOf key pos = Pure.pure hash from h]
      exact written_pure (.calm ⟨Store.quiet_modifyDict (fun d hd => hd.insert hk hv)
        fun d hd => hd.insert hhash, rfl⟩)
    · rw [show keyOf key pos = Atomic.fail _ pos from h]
      exact written_fail
  · cases key.string? with
    | some n => exact written_member hc hv
    | none => exact written_fail
  · cases key.string? with
    | some n => exact written_member hc hv
    | none => exact written_fail
  · exact written_fail

theorem written_name (hs : p scope) (hclosed : σ.Closed p) :
    Written p scope v σ (writeName scope n v declare pos σ) := by
  unfold writeName
  rw [read_bind_apply]
  cases hbinder : σ.binder? scope n with
  | some s =>
    have hcontains := List.find?_some hbinder
    exact written_pure (.rebind (hclosed.binder? hs hbinder) hcontains)
  | none =>
    cases declare with
    | true => exact written_pure .declare
    | false => exact written_fail

/-- A write amounts to one of the changes, or fails. -/
theorem written_write {place : Place} (hp : place.Within p) (hv : v.Within p) (hs : p scope)
    (hclosed : σ.Closed p) : Written p scope v σ (write scope place v declare pos σ) := by
  cases place with
  | name n => exact written_name hs hclosed
  | element c key => exact written_element hp.1 hp.2 hv
  | member o n => exact written_member hp hv

end Place
end TreeWalk
