/-
What values lead to.

Functions, structs and modules hold a scope, and so does every value that holds
one of them; functions hold code as well.  `Within` says that all of these scopes
and all of this code have a property.  Where only scopes matter, a property of scopes
stands for what allows all code.

The scope of an enum is left out: it is read by name, but no code ever runs in it
and no scope lies inside of it.
-/
import TreeWalk.Value.Dict

namespace TreeWalk

/-- What values may lead to. -/
structure Reach where
  /-- The scopes that code may run in. -/
  scope : ScopeId → Prop
  /-- The functions that may be called. -/
  code : FunctionLit → Prop

namespace Reach

instance : CoeFun Reach fun _ => ScopeId → Prop := ⟨Reach.scope⟩

instance : Coe (ScopeId → Prop) Reach := ⟨fun p => ⟨p, fun _ => True⟩⟩

/-- Everything may be reached. -/
def everything : Reach := ⟨fun _ => True, fun _ => True⟩

end Reach

namespace Value

/-- Values by how deeply their tuples are nested. -/
theorem tuple_induction {motive : Value → Prop}
    (step : ∀ v, (∀ xs multi, v = .tuple xs multi → ∀ x ∈ xs, motive x) → motive v) (v : Value) :
    motive v := by
  refine step v fun xs multi hv x hx => ?_
  have hlt : sizeOf x < sizeOf v := by
    have hmem := List.sizeOf_lt_of_mem hx
    rw [hv]
    simp only [tuple.sizeOf_spec]
    omega
  exact tuple_induction step x
termination_by sizeOf v

mutual

/-- What is reached through a value is allowed. -/
def Within (p : Reach) : Value → Prop
  | .tuple items _ => AllWithin p items
  | .struct scope _ => p scope
  | .function c => p c.scope ∧ p.code c.lit
  | .module m => p m.scope
  | _ => True

def AllWithin (p : Reach) : List Value → Prop
  | [] => True
  | v :: rest => v.Within p ∧ AllWithin p rest

end

section

variable {p : Reach}

theorem allWithin_iff (items : List Value) : AllWithin p items ↔ ∀ v ∈ items, v.Within p := by
  induction items with
  | nil => simp [AllWithin]
  | cons v rest ih => simp [AllWithin, ih]

@[simp] theorem within_tuple (items : List Value) (multi : Bool) :
    (Value.tuple items multi).Within p ↔ ∀ v ∈ items, v.Within p := by
  rw [Within, allWithin_iff]

@[simp] theorem within_int (n : Nullable Int64) : (Value.int n).Within p := trivial
@[simp] theorem within_float (x : Nullable Double) : (Value.float x).Within p := trivial
@[simp] theorem within_bool (b : Truth) : (Value.bool b).Within p := trivial
@[simp] theorem within_nil (m : Option String) : (Value.nil m).Within p := trivial
@[simp] theorem within_str (s : Nullable String) : (Value.str s).Within p := trivial
@[simp] theorem within_array (id : ArrayId) : (Value.array id).Within p := trivial
@[simp] theorem within_hash (id : HashId) : (Value.hash id).Within p := trivial
@[simp] theorem within_enum (s : ScopeId) (l : List String) : (Value.enum s l).Within p := trivial
@[simp] theorem within_native (f : Native) : (Value.native f).Within p := trivial
@[simp] theorem within_channel (id : ChannelId) : (Value.channel id).Within p := trivial
@[simp] theorem within_object (o : ObjectRef) : (Value.object o).Within p := trivial
@[simp] theorem within_range (r : Range) : (Value.range r).Within p := trivial
@[simp] theorem within_ofInt (n : Int64) : (Value.ofInt n).Within p := trivial
@[simp] theorem within_ofFloat (x : Double) : (Value.ofFloat x).Within p := trivial
@[simp] theorem within_ofBool (b : Bool) : (Value.ofBool b).Within p := trivial
@[simp] theorem within_ofString (s : String) : (Value.ofString s).Within p := trivial
@[simp] theorem within_ofLength (n : Nat) : (Value.ofLength n).Within p := trivial
@[simp] theorem within_nothing : Value.nothing.Within p := trivial

end

variable {p q : ScopeId → Prop}

mutual

theorem Within.mono (h : ∀ s, p s → q s) : ∀ v : Value, v.Within p → v.Within q
  | .tuple items _, hv => AllWithin.mono h items hv
  | .struct _ _, hv => h _ hv
  | .function _, hv => ⟨h _ hv.1, trivial⟩
  | .module _, hv => h _ hv
  | .int _, _ | .float _, _ | .bool _, _ | .nil _, _ | .str _, _ | .array _, _ | .hash _, _
  | .enum _ _, _ | .native _, _ | .range _, _ | .channel _, _ | .object _, _ => trivial

theorem AllWithin.mono (h : ∀ s, p s → q s) : ∀ vs : List Value, AllWithin p vs → AllWithin q vs
  | [], _ => trivial
  | v :: rest, hv => ⟨Within.mono h v hv.1, AllWithin.mono h rest hv.2⟩

end

mutual

/-- Every value is within a property that all scopes have. -/
theorem within_of_forall (h : ∀ s, p s) : ∀ v : Value, v.Within p
  | .tuple items _ => allWithin_of_forall h items
  | .struct _ _ | .module _ => h _
  | .function _ => ⟨h _, trivial⟩
  | .int _ | .float _ | .bool _ | .nil _ | .str _ | .array _ | .hash _ | .enum _ _ | .native _
  | .range _ | .channel _ | .object _ => trivial

theorem allWithin_of_forall (h : ∀ s, p s) : ∀ vs : List Value, AllWithin p vs
  | [] => trivial
  | v :: rest => ⟨within_of_forall h v, allWithin_of_forall h rest⟩

end

/-- The values of a list are all within. -/
abbrev ListWithin (p : Reach) (items : List Value) : Prop := ∀ v ∈ items, v.Within p

theorem ListWithin.mono {items : List Value} (h : ∀ s, p s → q s) (hv : ListWithin p items) :
    ListWithin q items := fun v hm => Within.mono h v (hv v hm)

end Value

namespace Dict

def Within (p : Reach) (d : Dict) : Prop :=
  ∀ key e, d.get? key = some e → e.key.Within p ∧ e.value.Within p

theorem Within.mono {p q : ScopeId → Prop} {d : Dict} (h : ∀ s, p s → q s) (hd : d.Within p) :
    d.Within q := fun key e he =>
  ⟨Value.Within.mono h _ (hd key e he).1, Value.Within.mono h _ (hd key e he).2⟩

variable {p : Reach} {d : Dict}

theorem within_empty : Dict.empty.Within p := by
  intro key e he
  simp [get?, empty] at he

theorem Within.of_mem_toList {e : Entry} (hd : d.Within p) (he : e ∈ d.toList) :
    e.key.Within p ∧ e.value.Within p := by
  obtain ⟨key, _, hkey⟩ := List.mem_filterMap.mp he
  exact hd key e hkey

theorem Within.keys (hd : d.Within p) : Value.ListWithin p d.keys := by
  intro v hv
  obtain ⟨e, he, rfl⟩ := List.mem_map.mp hv
  exact (hd.of_mem_toList he).1

theorem Within.values (hd : d.Within p) : Value.ListWithin p d.values := by
  intro v hv
  obtain ⟨e, he, rfl⟩ := List.mem_map.mp hv
  exact (hd.of_mem_toList he).2

theorem Within.insert {hash : Key} {key value : Value} (hd : d.Within p) (hk : key.Within p)
    (hv : value.Within p) : (d.insert hash key value).Within p := by
  intro other e he
  unfold Dict.insert at he
  split at he
  · next entry hentry =>
    simp only [get?, Std.HashMap.getElem?_insert] at he
    split at he
    · obtain rfl := Option.some.inj he
      exact ⟨(hd hash entry hentry).1, hv⟩
    · exact hd other e he
  · simp only [get?, Std.HashMap.getElem?_insert] at he
    split at he
    · obtain rfl := Option.some.inj he
      exact ⟨hk, hv⟩
    · exact hd other e he

theorem Within.erase {hash : Key} (hd : d.Within p) : (d.erase hash).Within p := by
  intro other e he
  unfold Dict.erase at he
  split at he
  · simp only [get?, Std.HashMap.getElem?_erase] at he
    split at he
    · exact absurd he (by simp)
    · exact hd other e he
  · exact hd other e he

theorem Within.merge {other : Dict} (hd : d.Within p) (ho : other.Within p) :
    (d.merge other).Within p := by
  unfold Dict.merge
  have hall : ∀ e ∈ other.toList, e.key.Within p ∧ e.value.Within p := fun e he =>
    ho.of_mem_toList he
  generalize other.toList = entries at hall
  induction entries generalizing d with
  | nil => exact hd
  | cons e rest ih =>
    have hrest : ∀ e' ∈ rest, e'.key.Within p ∧ e'.value.Within p := fun e' he' =>
      hall e' (List.mem_cons_of_mem e he')
    have he := hall e List.mem_cons_self
    simp only [List.foldl_cons]
    split
    · exact ih (hd.insert he.1 he.2) hrest
    · exact ih hd hrest

end Dict
end TreeWalk
