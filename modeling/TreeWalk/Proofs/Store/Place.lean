/-
What a write to a place changes.

The store is made of locations: what a scope binds a name to, the slots of arrays,
and the entries of hashes.  Reading a place and writing it are two case analyses,
over the kinds of places and of containers; here they are brought together.  A
write that succeeds gives the one location that is read afterwards its value, and
touches no other; a write that fails changes nothing.
-/
import TreeWalk.Proofs.Atomic.Access
import TreeWalk.Proofs.Store.Growth
import TreeWalk.Proofs.Value.Sequence

namespace TreeWalk

open Value

/-- What can change in the store by itself. -/
inductive Location where
  | binding (scope : ScopeId) (name : String)
  | slot (array : ArrayId) (i : Nat)
  | entry (hash : HashId) (key : Key)

namespace Store

variable {σ : Store} {s t : ScopeId} {n m : String} {v : Value}

/-- Two stores that are the same but for what is at one location.  An entry that is
new goes behind all others. -/
structure SameBut (ℓ : Location) (σ τ : Store) : Prop where
  bindings : ∀ s n, ℓ ≠ .binding s n → τ.getLocal? s n = σ.getLocal? s n
  scopes : ∀ s, (τ.scope s).parent = (σ.scope s).parent ∧ (τ.scope s).frame = (σ.scope s).frame ∧
    (τ.scope s).isEnum = (σ.scope s).isEnum
  slots : ∀ id i, ℓ ≠ .slot id i → (τ.array id)[i]? = (σ.array id)[i]?
  sizes : ∀ id, (τ.array id).size = (σ.array id).size
  entries : ∀ id key, ℓ ≠ .entry id key → (τ.dict id).get? key = (σ.dict id).get? key
  orders : ∀ id, (τ.dict id).order = (σ.dict id).order ∨ ∃ key, ℓ = .entry id key ∧
    (σ.dict id).contains key = false ∧ (τ.dict id).order = (σ.dict id).order ++ [key]
  /-- Everything that is neither in a scope nor in a container. -/
  rest : { τ with scopes := σ.scopes, arrays := σ.arrays, hashes := σ.hashes } = σ

/-! ## Bindings -/

theorem getLocal?_bind_of_ne (h : ¬ (s = t ∧ n = m)) :
    (σ.bind s n v).getLocal? t m = σ.getLocal? t m := by
  unfold getLocal?
  by_cases hst : t = s
  · rcases @scope_bind_cases σ s t n v with hscope | hscope
    · rw [hscope, Assoc.get?_set, if_neg fun hnm => h ⟨hst.symm, hnm⟩]
    · rw [hscope]
  · rw [scope_bind_of_ne hst]

theorem sameBut_bind : SameBut (.binding s n) σ (σ.bind s n v) where
  bindings _ _ h := getLocal?_bind_of_ne fun ⟨hs, hn⟩ => h (hs ▸ hn ▸ rfl)
  scopes _ := ⟨parent_bind, frame_bind, isEnum_bind⟩
  slots _ _ _ := rfl
  sizes _ := rfl
  entries _ _ _ := rfl
  orders _ := .inl rfl
  rest := rfl

/-- A binding leaves the ways outwards as they are. -/
theorem chain_bind : (σ.bind s n v).chain t = σ.chain t := by
  have same : ∀ fuel t, (σ.bind s n v).chainFrom fuel t = σ.chainFrom fuel t := by
    intro fuel
    induction fuel with
    | zero => exact fun _ => rfl
    | succ fuel ih =>
      intro t
      rw [chainFrom, chainFrom, parent_bind]
      cases (σ.scope t).parent with
      | none => rfl
      | some parent => exact congrArg (t :: ·) (ih parent)
  exact same _ t

/-- A name that is found in a scope is found there with the value it is given. -/
theorem get?_bind_binder (h : σ.binder? t n = some s) : (σ.bind s n v).get? t n = some v := by
  have hcontains := List.find?_some h
  have hbinds : σ.Binds s n := hcontains
  have hbinder : (σ.bind s n v).binder? t n = some s := by
    rw [← h]
    unfold binder?
    rw [chain_bind]
    congr 1
    funext u
    refine Bool.eq_iff_iff.mpr ⟨fun hu => ?_, fun hu => Binds.bind (show σ.Binds u n from hu)⟩
    rcases Binds.of_bind (show (σ.bind s n v).Binds u n from hu) with hu | ⟨rfl, _⟩
    · exact hu
    · exact hbinds
  obtain ⟨old, hold⟩ := Option.isSome_iff_exists.mp hbinds
  unfold get?
  rw [hbinder]
  exact getLocal?_bind_self (lt_of_getLocal? hold)

/-- A name that is bound in a scope is found from there. -/
theorem get?_bind_self (hin : s.index < σ.scopes.size) : (σ.bind s n v).get? s n = some v := by
  have hlocal : (σ.bind s n v).getLocal? s n = some v := getLocal?_bind_self hin
  have hbinder : (σ.bind s n v).binder? s n = some s := by
    unfold binder? chain
    rw [chainFrom]
    exact List.find?_cons_of_pos (Option.isSome_iff_exists.mpr ⟨v, hlocal⟩)
  unfold get?
  rw [hbinder]
  exact hlocal

/-! ## Slots and entries -/

theorem lt_of_lt_size_array {id : ArrayId} {k : Nat} (h : k < (σ.array id).size) :
    id.index < σ.arrays.size := by
  by_contra hge
  rw [array_of_ge (Nat.le_of_not_lt hge)] at h
  exact Nat.not_lt_zero k h

theorem sameBut_setSlot {id : ArrayId} {i : Nat} :
    SameBut (.slot id i) σ (σ.modifyArray id (·.setIfInBounds i v)) where
  bindings _ _ _ := rfl
  scopes _ := ⟨rfl, rfl, rfl⟩
  slots other j h := by
    rcases getD_modify_cases σ.arrays id.index other.index #[] (·.setIfInBounds i v) with he | he
    · by_cases hid : id = other
      · have hij : i ≠ j := fun hij => h (hid ▸ hij ▸ rfl)
        rw [show (σ.modifyArray id (·.setIfInBounds i v)).array other =
          (σ.array other).setIfInBounds i v from he, Array.getElem?_setIfInBounds_ne hij]
      · rw [array_modifyArray_of_ne hid]
    · exact congrArg (·[j]?) he
  sizes other := by
    rcases getD_modify_cases σ.arrays id.index other.index #[] (·.setIfInBounds i v) with he | he
    · rw [show (σ.modifyArray id (·.setIfInBounds i v)).array other =
        (σ.array other).setIfInBounds i v from he, Array.size_setIfInBounds]
    · exact congrArg Array.size he
  entries _ _ _ := rfl
  orders _ := .inl rfl
  rest := rfl

theorem sameBut_insert {id : HashId} {hash : Key} {key : Value} :
    SameBut (.entry id hash) σ (σ.modifyDict id (·.insert hash key v)) where
  bindings _ _ _ := rfl
  scopes _ := ⟨rfl, rfl, rfl⟩
  slots _ _ _ := rfl
  sizes _ := rfl
  entries other k h := by
    by_cases hid : id = other
    · have hk : hash ≠ k := fun hk => h (hid ▸ hk ▸ rfl)
      rcases dict_modifyDict_cases id other (·.insert hash key v) with he | he
      · rw [he, Dict.get?_insert, if_neg hk]
      · rw [he]
    · rw [dict_modifyDict_of_ne hid]
  orders other := by
    by_cases hid : id = other
    · subst hid
      rcases dict_modifyDict_cases id id (·.insert hash key v) with he | he
      · rw [he, Dict.order_insert]
        cases hcontains : (σ.dict id).contains hash with
        | true => exact .inl rfl
        | false => exact .inr ⟨hash, rfl, hcontains, rfl⟩
      · exact .inl (congrArg Dict.order he)
    · exact .inl (congrArg Dict.order (dict_modifyDict_of_ne hid))
  rest := rfl

end Store

/-! ## Reading what was written -/

namespace Access

variable {σ : Store} {key v : Value} {pos : Position}

/-- A value is found in the slot that it was put in. -/
theorem index_setSlot {id : ArrayId} {i : Int64} {k : Nat} (hkey : key.int? = some i)
    (hk : Sequence.resolveIndex? i (σ.array id).size = some k) :
    index (.array id) key pos (σ.modifyArray id (·.setIfInBounds k v)) =
      .ok (v, σ.modifyArray id (·.setIfInBounds k v)) := by
  have hlt : k < (σ.array id).size := Sequence.lt_of_resolveIndex? hk
  unfold index
  dsimp only
  rw [Atomic.read_bind_apply, Store.array_modifyArray (Store.lt_of_lt_size_array hlt)]
  unfold itemOf positionIn
  rw [hkey]
  dsimp only
  rw [Array.length_toList, Array.size_setIfInBounds, hk]
  show (Atomic.require ((σ.array id).setIfInBounds k v).toList[k]? _ pos : Atomic Value) _ = _
  rw [Array.getElem?_toList, Array.getElem?_setIfInBounds_self_of_lt hlt]
  rfl

/-- A value is found under the key that it was filed under. -/
theorem index_insert {id : HashId} {hash : Key} (hhash : key.key? = some hash) :
    index (.hash id) key pos (σ.modifyDict id (·.insert hash key v)) =
      .ok (v, σ.modifyDict id (·.insert hash key v)) := by
  unfold index Atomic.keyOf
  rw [hhash]
  show Except.ok ((((σ.modifyDict id (·.insert hash key v)).dict id).get? hash |>.map
    (·.value)).getD .nothing, _) = _
  rw [Store.dict_modifyDict, Dict.get?_insert, if_pos rfl]
  rfl

end Access

namespace Place

variable {scope : ScopeId} {σ : Store} {o c key v : Value} {n : String} {declare : Bool}
  {pos : Position}

/-- A name is seen from a scope that is in the store. -/
def Live (σ : Store) (scope : ScopeId) : Place → Prop
  | .name _ => scope.index < σ.scopes.size
  | _ => True

/-- The location that a place stands for, seen from a scope, if it can be written at
all. -/
def location? (σ : Store) (scope : ScopeId) : Place → Option Location
  | .name n => some (.binding ((σ.binder? scope n).getD scope) n)
  | .element (.array id) key =>
    (key.int?.bind (Sequence.resolveIndex? · (σ.array id).size)).map (.slot id)
  | .element (.hash id) key => key.key?.map (.entry id)
  | .element (.struct s _) key => key.string?.map (.binding s)
  | .member (.struct s _) n => some (.binding s n)
  | .member (.hash id) n => some (.entry id (.ofString n))
  | _ => none

/-- A write came out well or not at all: it is a failure, or a change of just the
location of the place, which holds the value afterwards. -/
def Wrote (scope : ScopeId) (place : Place) (v : Value) (σ : Store)
    (result : Except Exit ((Store → Store) × Store)) : Prop :=
  (∃ g, result = .ok (g, σ) ∧ (∃ ℓ, place.location? σ scope = some ℓ ∧ σ.SameBut ℓ (g σ)) ∧
    ∀ pos, place.get scope pos (g σ) = .ok (v, g σ)) ∨
  ∃ e, result = .error (.error e)

theorem wrote_pure {place : Place} {g : Store → Store} {ℓ : Location}
    (hℓ : place.location? σ scope = some ℓ) (hsame : σ.SameBut ℓ (g σ))
    (hget : ∀ pos, place.get scope pos (g σ) = .ok (v, g σ)) :
    Wrote scope place v σ ((Pure.pure g : Atomic (Store → Store)) σ) :=
  .inl ⟨g, rfl, ⟨ℓ, hℓ, hsame⟩, hget⟩

theorem wrote_fail {place : Place} {cause : Cause} :
    Wrote scope place v σ ((Atomic.fail cause pos : Atomic (Store → Store)) σ) := .inr ⟨_, rfl⟩

theorem index_eq_member (hscope : c.memberScope?.isSome = true) (hkey : key.string? = some n) :
    Access.index c key pos = Access.member c n pos := by
  cases c with
  | struct | enum | module => simp only [Access.index, memberScope?, hkey]
  | _ => cases hscope

/-- An element of a struct or an enum that is named by a text is a member. -/
theorem Wrote.element {result : Except Exit ((Store → Store) × Store)}
    (h : Wrote scope (.member c n) v σ result) (hscope : c.memberScope?.isSome = true)
    (hkey : key.string? = some n) : Wrote scope (.element c key) v σ result := by
  have hlocation : location? σ scope (.element c key) = location? σ scope (.member c n) := by
    cases c with
    | struct | enum | module => simp only [location?, hkey, Option.map_some]
    | _ => cases hscope
  rcases h with ⟨g, hresult, hsame, hget⟩ | h
  · refine .inl ⟨g, hresult, hlocation ▸ hsame, fun pos => ?_⟩
    show Access.index c key pos _ = _
    rw [index_eq_member hscope hkey]
    exact hget pos
  · exact .inr h

theorem wrote_member :
    Wrote scope (member o n) v σ (writeMember o n v pos σ) := by
  unfold writeMember
  split
  · next s l =>
    rw [Atomic.read_bind_apply]
    cases hold : σ.getLocal? s n with
    | none => exact wrote_fail
    | some old =>
      refine wrote_pure rfl Store.sameBut_bind fun pos => ?_
      show Access.member (.struct s l) n pos _ = _
      unfold Access.member
      dsimp only [memberScope?]
      rw [Atomic.read_bind_apply, Store.getLocal?_bind_self (Store.lt_of_getLocal? hold)]
      rfl
  · exact wrote_fail
  · next id =>
    refine wrote_pure rfl Store.sameBut_insert fun pos => ?_
    show Access.member (.hash id) n pos _ = _
    unfold Access.member
    dsimp only [memberScope?]
    rw [Atomic.read_bind_apply, Store.dict_modifyDict, Dict.get?_insert, if_pos rfl]
    rfl
  · exact wrote_fail

theorem wrote_slot {id : ArrayId} :
    Wrote scope (element (.array id) key) v σ (writeElement (.array id) key v pos σ) := by
  unfold writeElement
  dsimp only
  rw [Atomic.read_bind_apply]
  unfold Access.positionIn
  cases hkey : key.int? with
  | none => exact wrote_fail
  | some i =>
    dsimp only
    rcases Atomic.require_cases (Sequence.resolveIndex? i (σ.array id).size)
      (.index i (σ.array id).size) pos with ⟨k, hk, h⟩ | h
    · rw [h]
      have hlocation : location? σ scope (.element (.array id) key) = some (.slot id k) := by
        simp only [location?, hkey, Option.bind_some, hk, Option.map_some]
      exact wrote_pure hlocation Store.sameBut_setSlot fun pos => Access.index_setSlot hkey hk
    · rw [h]
      exact wrote_fail

theorem wrote_entry {id : HashId} :
    Wrote scope (element (.hash id) key) v σ (writeElement (.hash id) key v pos σ) := by
  unfold writeElement
  rcases Atomic.require_cases key.key? (.unhashable key.kind) pos with ⟨hash, hhash, h⟩ | h
  · rw [show Atomic.keyOf key pos = Pure.pure hash from h]
    have hlocation : location? σ scope (.element (.hash id) key) = some (.entry id hash) := by
      simp only [location?, hhash, Option.map_some]
    exact wrote_pure hlocation Store.sameBut_insert fun pos => Access.index_insert hhash
  · rw [show Atomic.keyOf key pos = Atomic.fail _ pos from h]
    exact wrote_fail

theorem wrote_element :
    Wrote scope (element c key) v σ (writeElement c key v pos σ) := by
  unfold writeElement
  split
  · exact wrote_slot
  · exact wrote_entry
  · cases hkey : key.string? with
    | some n => exact wrote_member.element rfl hkey
    | none => exact wrote_fail
  · cases hkey : key.string? with
    | some n => exact wrote_member.element rfl hkey
    | none => exact wrote_fail
  · exact wrote_fail

theorem wrote_name (hlive : scope.index < σ.scopes.size) :
    Wrote scope (name n) v σ (writeName scope n v declare pos σ) := by
  have found : ∀ s, (σ.bind s n v).get? scope n = some v → ∀ pos,
      Place.get scope (name n) pos (σ.bind s n v) = .ok (v, σ.bind s n v) := by
    intro s hget pos
    unfold Place.get
    dsimp only
    rw [Atomic.read_bind_apply, hget]
    rfl
  unfold writeName
  rw [Atomic.read_bind_apply]
  have hlocation : location? σ scope (.name n) =
      some (.binding ((σ.binder? scope n).getD scope) n) := rfl
  cases hbinder : σ.binder? scope n with
  | some s =>
    rw [hbinder] at hlocation
    exact wrote_pure hlocation Store.sameBut_bind (found s (Store.get?_bind_binder hbinder))
  | none =>
    rw [hbinder] at hlocation
    cases declare with
    | true =>
      exact wrote_pure hlocation Store.sameBut_bind (found scope (Store.get?_bind_self hlive))
    | false => exact wrote_fail

theorem wrote_write {place : Place} (hlive : place.Live σ scope) :
    Wrote scope place v σ (write scope place v declare pos σ) := by
  cases place with
  | name n => exact wrote_name hlive
  | element c key => exact wrote_element
  | member o n => exact wrote_member

end Place
end TreeWalk
