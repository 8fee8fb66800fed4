/-
Stores that lead to nothing but what is allowed.

`Closed` says of everything a store keeps that it is within what may be reached.
With the scopes that are in the store it says that no handle dangles.

A change of the store is `Quiet` if it leaves the scopes and the calls put off
alone, brings in nothing that is not within, keeps hashes consistent, and changes
channels only by moves of tasks.  Most operations of the language are quiet: they
make and change arrays, hashes and objects.
-/
import TreeWalk.Eval.Event
import TreeWalk.Proofs.Sync.Traffic
import TreeWalk.Proofs.Value.Dict
import TreeWalk.Proofs.Value.Within

namespace TreeWalk

namespace Channel

def Within (p : Reach) (c : Channel) : Prop :=
  Value.ListWithin p c.buffer ∧ ∀ offer ∈ c.offers, offer.2.Within p

variable {p : Reach} {c c' : Channel}

theorem within_default : (default : Channel).Within p := by
  constructor
  · intro v hv
    cases hv
  · intro offer ho
    cases ho

theorem Within.offer? {v : Value} {ticket : Nat} (hc : c.Within p) (hv : v.Within p)
    (h : c.offer? v = some (ticket, c')) : c'.Within p := by
  unfold Channel.offer? at h
  split at h
  · cases h
  · obtain ⟨rfl, rfl⟩ := Prod.mk.inj (Option.some.inj h)
    refine ⟨hc.1, fun offer ho => ?_⟩
    rcases List.mem_append.mp ho with ho | ho
    · exact hc.2 offer ho
    · obtain rfl := List.mem_singleton.mp ho
      exact hv

theorem Within.offered? {v : Value} {ticket : Nat} (hc : c.Within p)
    (h : c.offered? ticket = some v) : v.Within p := by
  obtain ⟨offer, hfind, rfl⟩ := Option.map_eq_some_iff.mp h
  exact hc.2 offer (List.mem_of_find?_eq_some hfind)

theorem Within.dropOffer {ticket : Nat} (hc : c.Within p) : (c.dropOffer ticket).Within p :=
  ⟨hc.1, fun offer ho => hc.2 offer (List.mem_filter.mp ho).1⟩

theorem Within.accept? {ticket : Nat} (hc : c.Within p) (h : c.accept? ticket = some c') :
    c'.Within p := by
  unfold Channel.accept? at h
  split at h
  · next v hv =>
    split at h
    · obtain rfl := Option.some.inj h
      refine ⟨fun w hw => ?_, hc.dropOffer.2⟩
      rcases List.mem_append.mp hw with hw | hw
      · exact hc.1 w hw
      · obtain rfl := List.mem_singleton.mp hw
        exact hc.offered? hv
    · cases h
  · cases h

theorem Within.withdraw? {ticket : Nat} (hc : c.Within p) (h : c.withdraw? ticket = some c') :
    c'.Within p := by
  unfold Channel.withdraw? at h
  split at h
  · obtain rfl := Option.some.inj h
    exact hc.dropOffer
  · cases h

theorem Within.settle? {ticket : Nat} {accepted : Bool} (hc : c.Within p)
    (h : c.settle? ticket = some (accepted, c')) : c'.Within p := by
  unfold Channel.settle? at h
  split at h
  · obtain ⟨_, rfl⟩ := Prod.mk.inj (Option.some.inj h)
    exact hc
  · split at h
    · next haccept =>
      obtain ⟨_, rfl⟩ := Prod.mk.inj (Option.some.inj h)
      exact hc.accept? haccept
    · obtain ⟨d, hwithdraw, heq⟩ := Option.map_eq_some_iff.mp h
      obtain ⟨_, rfl⟩ := Prod.mk.inj heq
      exact hc.withdraw? hwithdraw

theorem Within.refill (hc : c.Within p) : c.refill.Within p := by
  unfold Channel.refill
  split
  · next ticket v rest hoffers =>
    split
    · exact hc
    · cases haccept : c.accept? ticket with
      | some d => exact hc.accept? haccept
      | none => exact hc
  · exact hc

theorem Within.take? {v : Value} (hc : c.Within p) (h : c.take? = some (v, c')) :
    c'.Within p ∧ v.Within p := by
  unfold Channel.take? at h
  split at h
  · next w rest hbuffer =>
    have hmem : Value.ListWithin p (w :: rest) := hbuffer ▸ hc.1
    obtain ⟨rfl, rfl⟩ := Prod.mk.inj (Option.some.inj h)
    exact ⟨⟨fun u hu => hmem u (List.mem_cons_of_mem _ hu), hc.2⟩, hmem _ List.mem_cons_self⟩
  · cases h

theorem Within.meet? {v : Value} {ticket : Nat} (hc : c.Within p)
    (h : c.meet? ticket = some (v, c')) : c'.Within p ∧ v.Within p := by
  unfold Channel.meet? at h
  split at h
  · obtain ⟨w, hw, heq⟩ := Option.map_eq_some_iff.mp h
    obtain ⟨rfl, rfl⟩ := Prod.mk.inj heq
    exact ⟨hc.dropOffer, hc.offered? hw⟩
  · cases h

theorem Within.receive? {v? : Option Value} (hc : c.Within p)
    (h : c.receive? = some (v?, c')) : c'.Within p ∧ ∀ v, v? = some v → v.Within p := by
  unfold Channel.receive? at h
  split at h
  · next w d htake =>
    obtain ⟨rfl, rfl⟩ := Prod.mk.inj (Option.some.inj h)
    obtain ⟨hd, hw⟩ := hc.take? htake
    exact ⟨hd.refill, fun v hv => Option.some.inj hv ▸ hw⟩
  · split at h
    · obtain ⟨rfl, rfl⟩ := Prod.mk.inj (Option.some.inj h)
      exact ⟨hc, fun v hv => nomatch hv⟩
    · split at h
      · cases h
      · split at h
        · obtain ⟨⟨w, d⟩, hmeet, heq⟩ := Option.map_eq_some_iff.mp h
          obtain ⟨rfl, rfl⟩ := Prod.mk.inj heq
          obtain ⟨hd, hw⟩ := hc.meet? hmeet
          exact ⟨hd, fun v hv => Option.some.inj hv ▸ hw⟩
        · cases h

end Channel

namespace Store

/-- Everything in the store is within what may be reached. -/
structure Closed (p : Reach) (σ : Store) : Prop where
  arrays : ∀ id, Value.ListWithin p (σ.array id).toList
  hashes : ∀ id, (σ.dict id).Within p
  bindings : ∀ id name v, σ.getLocal? id name = some v → v.Within p
  parents : ∀ id parent, (σ.scope id).parent = some parent → p parent
  registry : ∀ name v, σ.registry.get? name = some v → v.Within p
  channels : ∀ id, (σ.channel id).Within p
  hosts : ∀ id items, (σ.host id).items = some items → Value.ListWithin p items
  modules : ∀ path m, σ.modules.get? path = some m → p m.scope
  deferred : ∀ frame, ∀ d ∈ σ.deferredOf frame, p d.scope
  spawned : ∀ s ∈ σ.spawned, p s.fiber.scope

/-- Every hash in the store is consistent. -/
def Consistent (σ : Store) : Prop := ∀ id, (σ.dict id).Consistent

/-- Every channel in the store has come about by moves of tasks. -/
def Traced (σ : Store) : Prop := ∀ id, (σ.channel id).Traced

/-- What is heard of tasks outside: the text that they print, and the tasks that they
ask for. -/
structure Outward where
  output : String
  spawned : List Spawned

def outward (σ : Store) : Outward := ⟨σ.output, σ.spawned⟩

/-- What can lead to a scope, and what is heard outside.  The rest of a store is numbers,
units and what becomes of locks. -/
structure Content where
  scopes : Array Scope
  deferred : Array (List Deferred)
  arrays : Array (Array Value)
  hashes : Array Dict
  registry : Assoc Value
  channels : Array Channel
  hosts : Array HostObject
  modules : ModuleCache
  outward : Outward

def content (σ : Store) : Content :=
  ⟨σ.scopes, σ.deferred, σ.arrays, σ.hashes, σ.registry, σ.channels, σ.hosts, σ.modules, σ.outward⟩

/-- A change that is not heard outside, leaves scopes and deferred calls alone, and
keeps a store closed and consistent. -/
structure Quiet (p : Reach) (σ σ' : Store) : Prop where
  scopes : σ'.scopes = σ.scopes
  deferred : σ'.deferred = σ.deferred
  outward : σ'.outward = σ.outward
  closed : σ.Closed p → σ'.Closed p
  consistent : σ.Consistent → σ'.Consistent
  traced : σ.Traced → σ'.Traced

/-- What decides how evaluations go on, beside values: the modules and the units,
the thread that evaluates them, and the tasks under way. -/
structure Control where
  modules : ModuleCache
  programs : Option (Assoc Program)
  including : Option (Nat × Nat)
  running : Nat

def control (σ : Store) : Control := ⟨σ.modules, σ.programs, σ.including, σ.running⟩

/-- A quiet change that is no concern of other evaluations than those that look at
the values in the store. -/
structure Calm (p : Reach) (σ σ' : Store) : Prop extends Quiet p σ σ' where
  control : σ'.control = σ.control

variable {p : Reach} {σ σ' σ'' : Store}

namespace Quiet

theorem refl (σ : Store) : σ.Quiet p σ := ⟨rfl, rfl, rfl, id, id, id⟩

theorem trans (h : σ.Quiet p σ') (h' : σ'.Quiet p σ'') : σ.Quiet p σ'' :=
  ⟨h'.scopes.trans h.scopes, h'.deferred.trans h.deferred, h'.outward.trans h.outward,
    fun hc => h'.closed (h.closed hc), fun hc => h'.consistent (h.consistent hc),
    fun ht => h'.traced (h.traced ht)⟩

end Quiet

namespace Calm

theorem refl (σ : Store) : σ.Calm p σ := ⟨.refl σ, rfl⟩

theorem trans (h : σ.Calm p σ') (h' : σ'.Calm p σ'') : σ.Calm p σ'' :=
  ⟨h.toQuiet.trans h'.toQuiet, h'.control.trans h.control⟩

end Calm

/-! ## Cells -/

section Cells

variable {α : Type} (xs : Array α) (i j : Nat) (a d : α) (g : α → α)

theorem getD_push_cases : (xs.push a).getD j d = a ∨ (xs.push a).getD j d = xs.getD j d := by
  simp only [Array.getD_eq_getD_getElem?, Array.getElem?_push]
  by_cases h : j = xs.size
  · left
    simp [h]
  · right
    simp [h]

theorem getD_setIfInBounds_cases :
    (xs.setIfInBounds i a).getD j d = a ∨ (xs.setIfInBounds i a).getD j d = xs.getD j d := by
  simp only [Array.getD_eq_getD_getElem?, Array.getElem?_setIfInBounds]
  by_cases h : i = j
  · by_cases hj : i < xs.size
    · left
      simp [h ▸ hj, h]
    · right
      simp [h ▸ hj, h]
  · right
    simp [h]

theorem getD_modify_cases :
    (xs.modify i g).getD j d = g (xs.getD j d) ∨ (xs.modify i g).getD j d = xs.getD j d := by
  simp only [Array.getD_eq_getD_getElem?, Array.getElem?_modify]
  by_cases h : i = j
  · by_cases hj : j < xs.size
    · left
      simp [h, hj]
    · right
      simp [h, hj]
  · right
    simp [h]

variable {xs i j g} in
theorem getD_modify_self (h : i < xs.size) : (xs.modify i g).getD i d = g (xs.getD i d) := by
  simp only [Array.getD_eq_getD_getElem?, Array.getElem?_modify, if_true,
    Array.getElem?_eq_getElem h, Option.map_some, Option.getD_some]

variable {xs i} in
theorem getD_of_size_le (h : xs.size ≤ i) : xs.getD i d = d := by
  rw [Array.getD_eq_getD_getElem?, Array.getElem?_eq_none h, Option.getD_none]

variable {i j} in
theorem getD_modify_of_ne (h : i ≠ j) : (xs.modify i g).getD j d = xs.getD j d := by
  simp only [Array.getD_eq_getD_getElem?, Array.getElem?_modify, if_neg h]

/-- Room for a cell shows only in that the cell can be written. -/
theorem getD_withCell : (withCell xs i d).getD j d = xs.getD j d := by
  unfold withCell
  split
  · rfl
  · simp only [Array.getD_eq_getD_getElem?, Array.getElem?_append, Array.getElem?_replicate]
    by_cases hj : j < xs.size
    · rw [if_pos hj]
    · rw [if_neg hj, Array.getElem?_eq_none (Nat.le_of_not_lt hj)]
      split <;> rfl

theorem lt_size_withCell : i < (withCell xs i d).size := by
  unfold withCell
  split
  · next h => exact h
  · simp only [Array.size_append, Array.size_replicate]
    omega

end Cells

/-! ## Changes of arrays and hashes -/

theorem quiet_newArray {items : Array Value} (h : Value.ListWithin p items.toList) :
    σ.Quiet p (σ.newArray items).2 := by
  refine ⟨rfl, rfl, rfl, fun hc => { hc with arrays := fun id => ?_ }, fun h => h, fun h => h⟩
  rcases getD_push_cases σ.arrays id.index items #[] with he | he
  · rw [show (σ.newArray items).2.array id = items from he]
    exact h
  · rw [show (σ.newArray items).2.array id = σ.array id from he]
    exact hc.arrays id

theorem quiet_setArray {id : ArrayId} {items : Array Value} (h : Value.ListWithin p items.toList) :
    σ.Quiet p (σ.setArray id items) := by
  refine ⟨rfl, rfl, rfl, fun hc => { hc with arrays := fun other => ?_ }, fun h => h, fun h => h⟩
  rcases getD_setIfInBounds_cases σ.arrays id.index other.index items #[] with he | he
  · rw [show (σ.setArray id items).array other = items from he]
    exact h
  · rw [show (σ.setArray id items).array other = σ.array other from he]
    exact hc.arrays other

theorem quiet_modifyArray {id : ArrayId} {g : Array Value → Array Value}
    (h : ∀ items, Value.ListWithin p items.toList → Value.ListWithin p (g items).toList) :
    σ.Quiet p (σ.modifyArray id g) := by
  refine ⟨rfl, rfl, rfl, fun hc => { hc with arrays := fun other => ?_ }, fun h => h, fun h => h⟩
  rcases getD_modify_cases σ.arrays id.index other.index #[] g with he | he
  · rw [show (σ.modifyArray id g).array other = g (σ.array other) from he]
    exact h _ (hc.arrays other)
  · rw [show (σ.modifyArray id g).array other = σ.array other from he]
    exact hc.arrays other

theorem array_of_ge {id : ArrayId} (h : σ.arrays.size ≤ id.index) : σ.array id = #[] :=
  getD_of_size_le #[] h

theorem dict_of_ge {id : HashId} (h : σ.hashes.size ≤ id.index) : σ.dict id = .empty :=
  getD_of_size_le Dict.empty h

theorem array_modifyArray {id : ArrayId} {g : Array Value → Array Value}
    (h : id.index < σ.arrays.size) : (σ.modifyArray id g).array id = g (σ.array id) :=
  getD_modify_self #[] h

theorem array_modifyArray_of_ne {id other : ArrayId} {g : Array Value → Array Value}
    (h : id ≠ other) : (σ.modifyArray id g).array other = σ.array other :=
  getD_modify_of_ne σ.arrays #[] g fun heq => h (congrArg ArrayId.mk heq)

theorem array_newArray (items : Array Value) :
    (σ.newArray items).2.array ⟨σ.arrays.size⟩ = items := by
  simp [array, newArray]

theorem array_newArray_of_ne {id : ArrayId} (h : id ≠ ⟨σ.arrays.size⟩) (items : Array Value) :
    (σ.newArray items).2.array id = σ.array id := by
  have hne : σ.arrays.size ≠ id.index := fun heq => h (congrArg ArrayId.mk heq.symm)
  simp only [array, newArray, Array.getD_eq_getD_getElem?, Array.getElem?_push, if_neg hne.symm]

theorem dict_newDict (d : Dict) : (σ.newDict d).2.dict ⟨σ.hashes.size⟩ = d := by
  simp [dict, newDict]

theorem dict_newDict_of_lt {id : HashId} (h : id.index < σ.hashes.size) (d : Dict) :
    (σ.newDict d).2.dict id = σ.dict id := by
  simp only [dict, newDict, Array.getD_eq_getD_getElem?]
  rw [Array.getElem?_push_lt h, Array.getElem?_eq_getElem h]

theorem dict_newDict_cases (d : Dict) (id : HashId) :
    (σ.newDict d).2.dict id = d ∨ (σ.newDict d).2.dict id = σ.dict id :=
  getD_push_cases σ.hashes id.index d .empty

theorem dict_modifyDict {id : HashId} {g : Dict → Dict} :
    (σ.modifyDict id g).dict id = g (σ.dict id) :=
  (getD_modify_self Dict.empty (lt_size_withCell _ _ _)).trans (congrArg g (getD_withCell _ _ _ _))

theorem dict_modifyDict_of_ne {id other : HashId} {g : Dict → Dict} (h : id ≠ other) :
    (σ.modifyDict id g).dict other = σ.dict other :=
  (getD_modify_of_ne _ Dict.empty g fun heq => h (congrArg HashId.mk heq)).trans
    (getD_withCell _ _ _ _)

theorem dict_modifyDict_cases (id other : HashId) (g : Dict → Dict) :
    (σ.modifyDict id g).dict other = g (σ.dict other) ∨
      (σ.modifyDict id g).dict other = σ.dict other := by
  by_cases h : id = other
  · exact .inl (h ▸ dict_modifyDict)
  · exact .inr (dict_modifyDict_of_ne h)

theorem quiet_newDict {d : Dict} (h : d.Within p) (hd : σ.Consistent → d.Consistent) :
    σ.Quiet p (σ.newDict d).2 := by
  refine ⟨rfl, rfl, rfl, fun hc => { hc with hashes := fun id => ?_ }, fun hc id => ?_, fun h => h⟩
  · rcases dict_newDict_cases d id with he | he
    · rw [he]
      exact h
    · rw [he]
      exact hc.hashes id
  · rcases dict_newDict_cases d id with he | he
    · rw [he]
      exact hd hc
    · rw [he]
      exact hc id

theorem quiet_modifyDict {id : HashId} {g : Dict → Dict}
    (h : ∀ d : Dict, d.Within p → (g d).Within p)
    (hd : ∀ d : Dict, d.Consistent → (g d).Consistent) : σ.Quiet p (σ.modifyDict id g) := by
  refine ⟨rfl, rfl, rfl, fun hc => { hc with hashes := fun other => ?_ }, fun hc other => ?_,
    fun h => h⟩
  · rcases dict_modifyDict_cases id other g with he | he
    · rw [he]
      exact h _ (hc.hashes other)
    · rw [he]
      exact hc.hashes other
  · rcases dict_modifyDict_cases id other g with he | he
    · rw [he]
      exact hd _ (hc other)
    · rw [he]
      exact hc other

/-! ## Changes of objects -/

theorem channel_setChannel {id : ChannelId} {c : Channel} : (σ.setChannel id c).channel id = c := by
  simp only [channel, setChannel, Array.getD_eq_getD_getElem?]
  rw [Array.getElem?_setIfInBounds_self_of_lt (lt_size_withCell _ _ _), Option.getD_some]

theorem channel_setChannel_of_ne {id other : ChannelId} {c : Channel} (h : id ≠ other) :
    (σ.setChannel id c).channel other = σ.channel other := by
  have hne : id.index ≠ other.index := fun heq => h (congrArg ChannelId.mk heq)
  have hroom := getD_withCell σ.channels id.index other.index default
  simp only [channel, setChannel, Array.getD_eq_getD_getElem?] at hroom ⊢
  rw [Array.getElem?_setIfInBounds_ne hne, hroom]

theorem quiet_setChannel {id : ChannelId} {c : Channel} (h : σ.Closed p → c.Within p)
    (htraced : (σ.channel id).Traced → c.Traced) : σ.Quiet p (σ.setChannel id c) := by
  have hcases : ∀ other, (σ.setChannel id c).channel other = c ∨
      (σ.setChannel id c).channel other = σ.channel other := by
    intro other
    by_cases hid : id = other
    · exact .inl (hid ▸ channel_setChannel)
    · exact .inr (channel_setChannel_of_ne hid)
  refine ⟨rfl, rfl, rfl, fun hc => { hc with channels := fun other => ?_ }, fun h => h,
    fun ht other => ?_⟩
  · rcases hcases other with he | he
    · rw [he]
      exact h hc
    · rw [he]
      exact hc.channels other
  · rcases hcases other with he | he
    · rw [he]
      exact htraced (ht id)
    · rw [he]
      exact ht other

theorem quiet_newChannel {capacity : Nat} : σ.Quiet p (σ.newChannel capacity).2 := by
  have hcases : ∀ id, (σ.newChannel capacity).2.channel id = .ofCapacity capacity ∨
      (σ.newChannel capacity).2.channel id = σ.channel id := fun id =>
    getD_push_cases σ.channels id.index (.ofCapacity capacity) default
  refine ⟨rfl, rfl, rfl, fun hc => { hc with channels := fun id => ?_ }, fun h => h, fun ht id => ?_⟩
  · rcases hcases id with he | he
    · rw [he]
      exact Channel.within_default
    · rw [he]
      exact hc.channels id
  · rcases hcases id with he | he
    · rw [he]
      exact Channel.traced_ofCapacity capacity
    · rw [he]
      exact ht id

/-- Writing to an object of the host leaves its items alone. -/
theorem quiet_setHostText {id : HostId} {text : String} : σ.Quiet p (σ.setHostText id text) := by
  refine ⟨rfl, rfl, rfl, fun hc => { hc with hosts := fun other items hitems => ?_ }, fun h => h,
    fun h => h⟩
  rcases getD_setIfInBounds_cases σ.hosts id.index other.index { σ.host id with text := text }
    default with he | he
  · rw [show (σ.setHostText id text).host other = { σ.host id with text := text } from he] at hitems
    exact hc.hosts id items hitems
  · rw [show (σ.setHostText id text).host other = σ.host other from he] at hitems
    exact hc.hosts other items hitems

/-- A change of what leads to no scope at all. -/
theorem quiet_of_content (h : σ'.content = σ.content) : σ.Quiet p σ' := by
  obtain ⟨hscopes, hdeferred, harrays, hhashes, hregistry, hchannels, hhosts, hmodules, houtward⟩ :=
    Content.mk.inj h
  have hspawned : σ'.spawned = σ.spawned := congrArg Outward.spawned houtward
  refine ⟨hscopes, hdeferred, houtward, fun hc => ?_, fun hc => ?_, fun ht => ?_⟩
  rotate_left
  · simpa only [Consistent, dict, hhashes] using hc
  · simpa only [Traced, channel, hchannels] using ht
  constructor
  · simpa only [array, harrays] using hc.arrays
  · simpa only [dict, hhashes] using hc.hashes
  · simpa only [getLocal?, scope, hscopes] using hc.bindings
  · simpa only [scope, hscopes] using hc.parents
  · simpa only [hregistry] using hc.registry
  · simpa only [channel, hchannels] using hc.channels
  · simpa only [host, hhosts] using hc.hosts
  · simpa only [hmodules] using hc.modules
  · simpa only [deferredOf, hdeferred] using hc.deferred
  · simpa only [hspawned] using hc.spawned

/-- The modules of a cache may take the place of those included so far. -/
theorem quiet_setModules {cache : ModuleCache}
    (h : σ.Closed p → ∀ path m, cache.get? path = some m → p m.scope) :
    σ.Quiet p { σ with modules := cache } :=
  ⟨rfl, rfl, rfl, fun hc => { hc with modules := h hc }, id, id⟩

theorem quiet_finishModule {path : String} {m : Module} (hm : p m.scope) :
    σ.Quiet p { σ with modules := σ.modules.finish path m } := by
  refine quiet_setModules fun hc other m' hm' => ?_
  unfold ModuleCache.finish ModuleCache.get? at hm'
  rw [Std.HashMap.getElem?_insert] at hm'
  split at hm'
  · exact Option.some.inj hm' ▸ hm
  · exact hc.modules other m' hm'

/-! ## Changes of scopes -/

namespace Closed

section

variable {p q : ScopeId → Prop}

theorem of_forall (h : ∀ s, p s) (σ : Store) : σ.Closed p where
  arrays _ v _ := Value.within_of_forall h v
  hashes _ _ e _ := ⟨Value.within_of_forall h e.key, Value.within_of_forall h e.value⟩
  bindings _ _ v _ := Value.within_of_forall h v
  parents _ _ _ := h _
  registry _ v _ := Value.within_of_forall h v
  channels _ := ⟨fun v _ => Value.within_of_forall h v, fun o _ => Value.within_of_forall h o.2⟩
  hosts _ _ _ v _ := Value.within_of_forall h v
  modules _ _ _ := h _
  deferred _ _ _ := h _
  spawned _ _ := h _

theorem mono (h : ∀ s, p s → q s) (hc : σ.Closed p) : σ.Closed q where
  arrays id := (hc.arrays id).mono h
  hashes id := (hc.hashes id).mono h
  bindings id name v hv := (hc.bindings id name v hv).mono h
  parents id parent hp := h _ (hc.parents id parent hp)
  registry name v hv := (hc.registry name v hv).mono h
  channels id := ⟨(hc.channels id).1.mono h, fun o ho => ((hc.channels id).2 o ho).mono h⟩
  hosts id items hi := (hc.hosts id items hi).mono h
  modules path m hm := h _ (hc.modules path m hm)
  deferred frame d hd := h _ (hc.deferred frame d hd)
  spawned s hs := h _ (hc.spawned s hs)

end

theorem bind {id : ScopeId} {name : String} {v : Value} (hc : σ.Closed p) (hv : v.Within p) :
    (σ.bind id name v).Closed p := by
  have hcases : ∀ other, (σ.bind id name v).scope other =
      { σ.scope other with bindings := (σ.scope other).bindings.set name v } ∨
        (σ.bind id name v).scope other = σ.scope other := fun other =>
    getD_modify_cases σ.scopes id.index other.index default _
  refine { hc with bindings := fun other key w hw => ?_, parents := fun other parent hp => ?_ }
  · unfold getLocal? at hw
    rcases hcases other with he | he
    · rw [he, Assoc.get?_set] at hw
      split at hw
      · obtain rfl := Option.some.inj hw
        exact hv
      · exact hc.bindings other key w hw
    · rw [he] at hw
      exact hc.bindings other key w hw
  · rcases hcases other with he | he
    · rw [he] at hp
      exact hc.parents other parent hp
    · rw [he] at hp
      exact hc.parents other parent hp

theorem addScope {scope : Scope} (hc : σ.Closed p)
    (hb : ∀ name v, scope.bindings.get? name = some v → v.Within p)
    (hp : ∀ s, scope.parent = some s → p s) : (σ.addScope scope).2.Closed p := by
  have hcases : ∀ other, (σ.addScope scope).2.scope other = scope ∨
      (σ.addScope scope).2.scope other = σ.scope other := fun other =>
    getD_push_cases σ.scopes other.index _ default
  refine { hc with bindings := fun other key w hw => ?_, parents := fun other s hs => ?_ }
  · unfold getLocal? at hw
    rcases hcases other with he | he
    · rw [he] at hw
      exact hb key w hw
    · rw [he] at hw
      exact hc.bindings other key w hw
  · rcases hcases other with he | he
    · rw [he] at hs
      exact hp s hs
    · rw [he] at hs
      exact hc.parents other s hs

theorem newScope {parent : Option ScopeId} {frame : Option Frame} (hc : σ.Closed p)
    (hp : ∀ s, parent = some s → p s) : (σ.newScope parent frame).2.Closed p :=
  hc.addScope (fun _ _ h => nomatch h) hp

/-- The scope of an enum holds the values that it is made with. -/
theorem newEnum {parent : ScopeId} {members : List (String × Value)} (hc : σ.Closed p)
    (hp : p parent) (hm : ∀ member ∈ members, member.2.Within p) :
    (σ.newEnum parent members).2.Closed p := by
  refine hc.addScope (fun name v hv => ?_) fun s hs => Option.some.inj hs ▸ hp
  rw [Assoc.get?_ofEntries] at hv
  exact hm (name, v) (List.mem_reverse.mp (Assoc.mem_of_get? hv))

theorem newFrame {name : String} {pos : Position} (hc : σ.Closed p) :
    (σ.newFrame name pos).2.Closed p := by
  refine { hc with deferred := fun frame d hd => ?_ }
  rcases getD_push_cases σ.deferred frame.index [] [] with he | he
  · rw [show (σ.newFrame name pos).2.deferredOf frame = [] from he] at hd
    cases hd
  · rw [show (σ.newFrame name pos).2.deferredOf frame = σ.deferredOf frame from he] at hd
    exact hc.deferred frame d hd

theorem defer {frame : FrameId} {d : Deferred} (hc : σ.Closed p) (hd : p d.scope) :
    (σ.defer frame d).Closed p := by
  refine { hc with deferred := fun other e he => ?_ }
  rcases getD_modify_cases σ.deferred frame.index other.index [] (· ++ [d]) with heq | heq
  · rw [show (σ.defer frame d).deferredOf other = σ.deferredOf other ++ [d] from heq] at he
    rcases List.mem_append.mp he with he | he
    · exact hc.deferred other e he
    · obtain rfl := List.mem_singleton.mp he
      exact hd
  · rw [show (σ.defer frame d).deferredOf other = σ.deferredOf other from heq] at he
    exact hc.deferred other e he

theorem takeDeferred {frame : FrameId} (hc : σ.Closed p) : (σ.takeDeferred frame).2.Closed p := by
  refine { hc with deferred := fun other e he => ?_ }
  rcases getD_setIfInBounds_cases σ.deferred frame.index other.index [] [] with heq | heq
  · rw [show (σ.takeDeferred frame).2.deferredOf other = [] from heq] at he
    cases he
  · rw [show (σ.takeDeferred frame).2.deferredOf other = σ.deferredOf other from heq] at he
    exact hc.deferred other e he

/-! ## What names stand for -/

theorem mem_chainFrom {fuel : Nat} {id s : ScopeId} (hc : σ.Closed p) (hid : p id)
    (hs : s ∈ σ.chainFrom fuel id) : p s := by
  induction fuel generalizing id with
  | zero => cases hs
  | succ fuel ih =>
    rw [chainFrom] at hs
    rcases List.mem_cons.mp hs with rfl | hs
    · exact hid
    · split at hs
      · next parent hparent => exact ih (hc.parents id parent hparent) hs
      · cases hs

/-- The scope that binds a name is one of those outwards. -/
theorem binder? {id s : ScopeId} {name : String} (hc : σ.Closed p) (hid : p id)
    (hs : σ.binder? id name = some s) : p s :=
  hc.mem_chainFrom hid (List.mem_of_find?_eq_some hs)

theorem get? {id : ScopeId} {name : String} {v : Value} (hc : σ.Closed p)
    (hv : σ.get? id name = some v) : v.Within p := by
  obtain ⟨s, _, hs⟩ := Option.bind_eq_some_iff.mp hv
  exact hc.bindings s name v hs

theorem mem_loaded {m : Module} (hc : σ.Closed p) (hm : m ∈ σ.modules.loaded) : p m.scope := by
  obtain ⟨path, _, hpath⟩ := List.mem_filterMap.mp hm
  exact hc.modules path m hpath

theorem moduleMember? {name : String} {v : Value} (hc : σ.Closed p)
    (hv : σ.moduleMember? name = some v) : v.Within p := by
  unfold Store.moduleMember? at hv
  split at hv
  · next m hm =>
    obtain rfl := Option.some.inj hv
    exact hc.mem_loaded (List.mem_of_find?_eq_some hm)
  · obtain ⟨m, _, hm⟩ := List.exists_of_findSome?_eq_some hv
    exact hc.bindings m.scope name v hm

end Closed

/-! ## Events -/

theorem quiet_include? {thread : Nat} (h : Event.include? σ thread = some σ') :
    σ.Quiet p σ' := by
  unfold Event.include? at h
  split at h
  · obtain rfl := Option.some.inj h
    exact quiet_of_content rfl
  · split at h
    · obtain rfl := Option.some.inj h
      exact quiet_of_content rfl
    · cases h

end Store

namespace Event

/-- What a task is told is within. -/
def AnswerWithin (p : Reach) : (e : Event) → e.Answer → Prop
  | .received _, answer => ∀ v, answer = some v → v.Within p
  | _, _ => True

variable {p : Reach} {σ σ' : Store}

theorem answerWithin_of_forall {p : ScopeId → Prop} (h : ∀ s, p s) (e : Event) (a : e.Answer) :
    e.AnswerWithin p a := by
  cases e with
  | received channel => exact fun v _ => Value.within_of_forall h v
  | _ => trivial

/-- An event changes objects only, and tells what they held. -/
theorem quiet_of_happen? (e : Event) {a : e.Answer} (h : e.happen? σ = some (a, σ')) :
    σ.Quiet p σ' ∧ (σ.Closed p → e.AnswerWithin p a) := by
  cases e with
  | turn =>
    obtain ⟨_, rfl⟩ := Prod.mk.inj (Option.some.inj h)
    exact ⟨.refl σ, fun _ => trivial⟩
  | settled id ticket =>
    obtain ⟨⟨accepted, c⟩, hc, heq⟩ := Option.map_eq_some_iff.mp h
    obtain ⟨_, rfl⟩ := Prod.mk.inj heq
    exact ⟨Store.quiet_setChannel (fun hclosed => (hclosed.channels id).settle? hc)
      fun ht => ht.settle? hc, fun _ => trivial⟩
  | received id =>
    obtain ⟨⟨v?, c⟩, hc, heq⟩ := Option.map_eq_some_iff.mp h
    obtain ⟨rfl, rfl⟩ := Prod.mk.inj heq
    exact ⟨Store.quiet_setChannel (fun hclosed => ((hclosed.channels id).receive? hc).1)
      fun ht => ht.receive? hc,
      fun hclosed => ((hclosed.channels id).receive? hc).2⟩
  | locked id =>
    obtain ⟨τ, hτ, heq⟩ := Option.map_eq_some_iff.mp h
    obtain ⟨m, _, rfl⟩ := Option.map_eq_some_iff.mp hτ
    obtain ⟨_, rfl⟩ := Prod.mk.inj heq
    exact ⟨Store.quiet_of_content rfl, fun _ => trivial⟩
  | writeLocked id =>
    obtain ⟨m, _, heq⟩ := Option.map_eq_some_iff.mp h
    obtain ⟨_, rfl⟩ := Prod.mk.inj heq
    exact ⟨Store.quiet_of_content rfl, fun _ => trivial⟩
  | readLocked id =>
    obtain ⟨m, _, heq⟩ := Option.map_eq_some_iff.mp h
    obtain ⟨_, rfl⟩ := Prod.mk.inj heq
    exact ⟨Store.quiet_of_content rfl, fun _ => trivial⟩
  | allDone id =>
    obtain ⟨w, _, heq⟩ := Option.map_eq_some_iff.mp h
    obtain ⟨_, rfl⟩ := Prod.mk.inj heq
    exact ⟨Store.quiet_of_content rfl, fun _ => trivial⟩
  | woken id waiter =>
    obtain ⟨c, _, heq⟩ := Option.map_eq_some_iff.mp h
    obtain ⟨_, rfl⟩ := Prod.mk.inj heq
    exact ⟨Store.quiet_of_content rfl, fun _ => trivial⟩
  | entered id =>
    obtain ⟨o, _, heq⟩ := Option.map_eq_some_iff.mp h
    obtain ⟨_, rfl⟩ := Prod.mk.inj heq
    exact ⟨Store.quiet_of_content rfl, fun _ => trivial⟩
  | including thread =>
    obtain ⟨τ, hτ, heq⟩ := Option.map_eq_some_iff.mp h
    obtain ⟨_, rfl⟩ := Prod.mk.inj heq
    exact ⟨Store.quiet_include? hτ, fun _ => trivial⟩

end Event
end TreeWalk
