/-
The methods that call nothing back are sound.

They answer scalars, their receiver, or what the receiver or an argument holds.
-/
import TreeWalk.Method.Object
import TreeWalk.Proofs.Atomic.Sound

namespace TreeWalk

open Atomic Value

variable {p : Reach}

namespace Args

variable {α : Type} {Φ : α → Prop} {args : Args} {i : Nat} {v : Value}

/-- All arguments are within. -/
abbrev Within (p : Reach) (args : Args) : Prop := ListWithin p args.values

theorem sound_failCount {expected : String} :
    Sound p Φ (args.failCount expected : Atomic α) := Sound.fail

theorem sound_failKind {expected : String} :
    Sound p Φ (args.failKind i expected v : Atomic α) := Sound.fail

theorem sound_failInput {kind : String} : Sound p Φ (args.failInput kind : Atomic α) := Sound.fail

theorem sound_empty : Sound p (fun _ => True) args.empty := by
  unfold Args.empty
  split
  · exact .pure trivial
  · exact sound_failCount

theorem sound_one (h : args.Within p) : Sound p (Value.Within p) args.one := by
  unfold Args.one
  split
  · next a heq => exact .pure (h a (by simp [heq]))
  · exact sound_failCount

theorem sound_two (h : args.Within p) :
    Sound p (fun r => r.1.Within p ∧ r.2.Within p) args.two := by
  unfold Args.two
  split
  · next a b heq => exact .pure ⟨h a (by simp [heq]), h b (by simp [heq])⟩
  · exact sound_failCount

theorem sound_upToOne (h : args.Within p) :
    Sound p (fun r => ∀ v, r = some v → v.Within p) args.upToOne := by
  unfold Args.upToOne
  split
  · exact .pure fun v hv => nomatch hv
  · next a heq => exact .pure fun v hv => Option.some.inj hv ▸ h a (by simp [heq])
  · exact sound_failCount

/-- At most one argument, of which nothing has to be known. -/
theorem sound_upToAny : Sound p (fun _ => True) args.upToOne := by
  unfold Args.upToOne
  split
  · exact .pure trivial
  · exact .pure trivial
  · exact sound_failCount

theorem sound_oneOrTwo (h : args.Within p) :
    Sound p (fun r => r.1.Within p ∧ ∀ v, r.2 = some v → v.Within p) args.oneOrTwo := by
  unfold Args.oneOrTwo
  split
  · next a heq => exact .pure ⟨h a (by simp [heq]), fun v hv => nomatch hv⟩
  · next a b heq =>
    exact .pure ⟨h a (by simp [heq]), fun v hv => Option.some.inj hv ▸ h b (by simp [heq])⟩
  · exact sound_failCount

theorem sound_int : Sound p (fun _ => True) (args.int i v) := by
  unfold Args.int
  split
  · exact .pure trivial
  · exact sound_failKind

theorem sound_string : Sound p (fun _ => True) (args.string i v) := by
  unfold Args.string
  split
  · exact .pure trivial
  · exact sound_failKind

theorem sound_callable (h : v.Within p) : Sound p (Value.Within p) (args.callable i v) := by
  unfold Args.callable
  split
  · exact .pure h
  · exact sound_failKind

/-- The only argument, of which nothing has to be known. -/
theorem sound_any : Sound p (fun _ => True) args.one := by
  unfold Args.one
  split
  · exact .pure trivial
  · exact sound_failCount

theorem sound_flag : Sound p (fun _ => True) args.flag := by
  unfold Args.flag
  refine .seq sound_any fun v => ?_
  split
  · exact .pure trivial
  · exact sound_failKind

theorem sound_receiver {kind : String} {n : Nullable α} :
    Sound p (fun _ => True) (args.receiver kind n) := by
  unfold Args.receiver
  split
  · exact .pure trivial
  · exact sound_failInput

theorem sound_isValid {valid : Bool} : Sound p (Value.Within p) (args.isValid valid) :=
  .seq sound_empty fun _ => .pure trivial

theorem sound_toString : Sound p (Value.Within p) (args.toString v) :=
  .seq sound_empty fun _ => .seq .look fun _ => .pure trivial

end Args

open Args

/-! ## Scalars -/

namespace IntMethod

theorem sound_compute {m : IntMethod} {n : Int64} {pos : Position} :
    Sound p (Value.Within p) (m.compute n pos) := by
  unfold compute
  split
  · split
    · exact .pure trivial
    · exact .fail
  all_goals exact .pure trivial

theorem sound_run {n : Nullable Int64} {m : IntMethod} {args : Args} :
    Sound p (Value.Within p) (run n m args) := by
  unfold run
  split
  · exact sound_isValid
  · exact .seq sound_flag fun _ => .pure trivial
  · exact sound_toString
  · exact .seq sound_receiver fun _ => .seq sound_empty fun _ => sound_compute

end IntMethod

namespace FloatMethod

theorem sound_compute {m : FloatMethod} {x : Double} {pos : Position} :
    Sound p (Value.Within p) (m.compute x pos) := by
  cases m with
  | int =>
    unfold compute
    dsimp only
    split
    · exact .pure trivial
    · exact .fail
  | _ => exact .pure trivial

theorem sound_run {x : Nullable Double} {m : FloatMethod} {args : Args} :
    Sound p (Value.Within p) (run x m args) := by
  unfold run
  split
  · exact sound_isValid
  · exact .seq sound_flag fun _ => .pure trivial
  · exact sound_toString
  · exact .seq sound_receiver fun _ => .seq sound_empty fun _ => sound_compute

end FloatMethod

namespace BoolMethod

theorem sound_run {b : Truth} {m : BoolMethod} {args : Args} :
    Sound p (Value.Within p) (run b m args) := by
  unfold run
  split
  · exact sound_isValid
  · exact .seq sound_empty fun _ => .pure trivial
  · exact .seq sound_flag fun _ => .pure trivial
  · exact sound_toString

end BoolMethod

namespace NilMethod

theorem sound_run {reason : Option String} {m : NilMethod} {args : Args} :
    Sound p (Value.Within p) (run reason m args) := by
  unfold run
  split
  · exact sound_isValid
  · exact .seq sound_empty fun _ => .pure trivial
  · exact sound_toString

end NilMethod

namespace StringMethod

theorem sound_texts {parts : List (List Char)} : Sound p (Value.Within p) (texts parts) := by
  refine .newArray fun v hv => ?_
  obtain ⟨part, _, rfl⟩ := List.mem_map.mp hv
  exact within_ofString _

theorem within_position {needle text : List Char} : (position needle text).Within p := by
  unfold position
  split
  · exact within_ofLength _
  · exact within_ofInt _

theorem sound_apply {s : String} {m : StringMethod} {args : Args} (h : args.Within p) :
    Sound p (Value.Within p) (apply s m args) := by
  unfold apply
  split
  · exact .seq sound_empty fun _ => .pure trivial
  · exact .seq sound_empty fun _ => .pure trivial
  · exact .seq sound_empty fun _ => .pure trivial
  · exact .seq sound_empty fun _ => .pure trivial
  · exact .seq sound_empty fun _ => .pure trivial
  · exact .seq sound_empty fun _ => sound_texts
  · refine .bind (sound_upToOne h) fun v? _ => ?_
    split
    · exact sound_texts
    · exact .seq sound_string fun _ => sound_texts
  · exact .seq sound_any fun _ => .seq sound_string fun _ => .pure trivial
  · exact .seq sound_any fun _ => .seq sound_string fun _ => .pure trivial
  · exact .seq sound_any fun _ => .seq sound_string fun _ => .pure trivial
  · exact .bind (sound_two h) fun _ _ =>
      .seq sound_string fun _ => .seq sound_string fun _ => .pure trivial
  · exact .seq sound_any fun _ => .seq sound_string fun _ => .pure within_position
  · refine .seq sound_empty fun _ => ?_
    split
    · exact .pure trivial
    · exact .seq .look fun _ => .fail
  · refine .seq sound_empty fun _ => ?_
    split
    · exact .pure trivial
    · exact .seq .look fun _ => .fail
  · exact sound_isValid
  · exact .seq sound_flag fun _ => .pure trivial
  · exact sound_toString

theorem sound_run {s : Nullable String} {m : StringMethod} {args : Args} (h : args.Within p) :
    Sound p (Value.Within p) (run s m args) := by
  unfold run
  split
  · exact sound_isValid
  · exact .seq sound_flag fun _ => .pure trivial
  · exact sound_toString
  · exact .seq sound_receiver fun _ => sound_apply h

end StringMethod

/-! ## Arrays, tuples and ranges -/

namespace Sequence

theorem mem_insertBehind {v w : Value} {items : List Value} (h : w ∈ insertBehind v items) :
    w = v ∨ w ∈ items := by
  induction items with
  | nil => exact .inl (List.mem_singleton.mp h)
  | cons u before ih =>
    unfold insertBehind at h
    split at h
    · rcases List.mem_cons.mp h with rfl | h
      · exact .inr List.mem_cons_self
      · exact (ih h).imp_right (List.mem_cons_of_mem u)
    · exact List.mem_cons.mp h

theorem mem_insertionSort {v : Value} {items : List Value} (h : v ∈ insertionSort items) :
    v ∈ items := by
  have key : ∀ (rest sorted : List Value),
      v ∈ rest.foldl (fun sorted v => insertBehind v sorted) sorted → v ∈ rest ∨ v ∈ sorted := by
    intro rest
    induction rest with
    | nil => exact fun sorted hv => .inr hv
    | cons w rest ih =>
      intro sorted hv
      rcases ih _ hv with hv | hv
      · exact .inl (List.mem_cons_of_mem w hv)
      · rcases mem_insertBehind hv with rfl | hv
        · exact .inl List.mem_cons_self
        · exact .inr hv
  rcases key items [] (List.mem_reverse.mp h) with hv | hv
  · exact hv
  · cases hv

/-- Sorting brings in nothing new. -/
theorem mem_sort? {v : Value} {items sorted : List Value} (hs : sort? items = some sorted)
    (h : v ∈ sorted) : v ∈ items := by
  unfold sort? at hs
  split at hs
  · exact mem_insertionSort (Option.some.inj hs ▸ h)
  · split at hs
    · exact List.mem_mergeSort.mp (Option.some.inj hs ▸ h)
    · cases hs

theorem mem_slice {α : Type} {a : α} {items : List α} {low high : Nat}
    (h : a ∈ slice items low high) : a ∈ items := List.mem_of_mem_take (List.mem_of_mem_drop h)

theorem sound_bounds {start : Int64} {stop : Option Int64} {length : Nat} {pos : Position} :
    Sound p (fun _ => True) (bounds start stop length pos) := .require fun _ _ => trivial

end Sequence

/-- What a list may have at a position is within if the list is. -/
theorem Value.ListWithin.getD {items : List Value} {v? : Option Value} (h : ListWithin p items)
    (hv : ∀ v, v? = some v → v ∈ items) : (v?.getD .nothing).Within p := by
  cases v? with
  | none => exact within_nothing
  | some v => exact h v (hv v rfl)

namespace ArrayAction

theorem mem_of_back? {items : Array Value} {v : Value} (h : items.back? = some v) :
    v ∈ items.toList := by
  rw [Array.back?_eq_getElem?] at h
  exact Array.mem_toList_iff.mpr (Array.mem_of_getElem? h)

theorem sound_run {id : ArrayId} {m : ArrayAction} {args : Args} (h : args.Within p) :
    Sound p (Value.Within p) (run id m args) := by
  unfold run
  have array : Sound p (fun items => ListWithin p items.toList) (read (·.array id)) :=
    .read fun _ hc => hc.arrays id
  refine .bind array fun items hitems => ?_
  split
  · exact .seq sound_empty fun _ => .pure trivial
  · exact .seq sound_empty fun _ => .pure trivial
  · exact sound_toString
  · refine .seq (.update fun σ _ => ⟨Store.quiet_setArray fun v hv => ?_, rfl⟩) fun _ => .pure trivial
    rw [Array.toList_append] at hv
    rcases List.mem_append.mp hv with hv | hv
    · exact hitems v hv
    · exact h v hv
  · refine .seq sound_empty fun _ => .seq (.update fun σ _ => ⟨Store.quiet_setArray ?_, rfl⟩) fun _ => ?_
    · intro v hv
      rw [Array.toList_pop] at hv
      exact hitems v ((List.dropLast_sublist _).subset hv)
    · exact .pure (hitems.getD fun v hv => mem_of_back? hv)
  · refine .seq sound_empty fun _ => .pure (hitems.getD fun v hv => ?_)
    exact Array.mem_toList_iff.mpr (Array.mem_of_getElem? hv)
  · exact .seq sound_empty fun _ => .pure (hitems.getD fun v hv => mem_of_back? hv)
  · exact .seq sound_any fun _ => .seq .look fun _ => .pure trivial
  · refine .seq sound_any fun _ => .seq .look fun _ => ?_
    split
    · exact .pure trivial
    · exact .pure trivial
  · refine .bind (sound_upToOne h) fun v? _ => ?_
    split
    · exact .seq sound_string fun _ => .seq .look fun _ => .pure trivial
    · exact .seq (.pure trivial) fun _ => .seq .look fun _ => .pure trivial
  · exact .seq sound_empty fun _ => .newArray fun v hv => hitems v (List.mem_reverse.mp hv)
  · refine .seq sound_empty fun _ => ?_
    split
    · split
      · next heq => exact .newArray fun v hv => hitems v (Sequence.mem_sort? heq hv)
      · exact .fault
    · exact sound_failInput
  · refine .bind (sound_oneOrTwo h) fun ab _ => .seq sound_int fun _ => ?_
    have slice : ∀ start stop, Sound p (Value.Within p) (do
        let bounds ← Sequence.bounds start stop items.size args.pos
        newArray (Sequence.slice items.toList bounds.1 bounds.2)) := fun start stop =>
      .seq Sequence.sound_bounds fun _ => .newArray fun v hv => hitems v (Sequence.mem_slice hv)
    split
    · exact .seq (.map sound_int fun _ h => h) fun stop => slice _ _
    · exact slice _ _

end ArrayAction

namespace TupleMethod

theorem sound_run {items : List Value} {multi : Bool} {m : TupleMethod} {args : Args}
    (h : ListWithin p items) : Sound p (Value.Within p) (run items multi m args) := by
  unfold run
  split
  · exact .seq sound_empty fun _ => .pure trivial
  · refine .seq sound_any fun _ => .seq sound_int fun i => .require fun v hv => ?_
    obtain ⟨k, _, hk⟩ := Option.bind_eq_some_iff.mp hv
    exact h v (List.mem_of_getElem? hk)
  · exact .seq sound_empty fun _ => .newArray h
  · exact sound_toString

end TupleMethod

namespace RangeMethod

theorem sound_run {r : Range} {m : RangeMethod} {args : Args} :
    Sound p (Value.Within p) (run r m args) := by
  unfold run
  split
  · exact .seq sound_empty fun _ => .pure trivial
  · refine .seq sound_empty fun _ => .seq .reserve fun _ => .newArray fun v hv => ?_
    obtain ⟨n, _, rfl⟩ := List.mem_map.mp hv
    exact within_ofInt n
  · exact .seq sound_any fun _ => .seq sound_int fun _ => .pure trivial
  · exact sound_toString

end RangeMethod

/-! ## Hashes -/

namespace Atomic

theorem sound_keyOf {v : Value} {pos : Position} :
    Sound p (fun hash => v.key? = some hash) (keyOf v pos) := .require fun _ h => h

end Atomic

namespace HashAction

theorem sound_store {id : HashId} {args : Args} (h : args.Within p) :
    Sound p (Value.Within p) (store id args) := by
  refine .bind (sound_two h) fun kv hkv => .bind sound_keyOf fun hash hkey =>
    .seq (.update ?_) fun _ => ?_
  · exact fun σ _ => ⟨Store.quiet_modifyDict (fun d hd => hd.insert hkv.1 hkv.2)
      fun d hd => hd.insert hkey, rfl⟩
  · exact .pure trivial

/-- What an entry holds, if there is one. -/
theorem within_found {d : Dict} {hash : Key} (h : d.Within p) :
    Value.Within p (((d.get? hash).map Entry.value).getD nothing) := by
  cases he : d.get? hash with
  | none => exact within_nothing
  | some e => exact (h hash e he).2

theorem sound_remove {id : HashId} {args : Args} : Sound p (Value.Within p) (remove id args) := by
  refine .seq sound_any fun _ => .bind sound_keyOf fun hash _ => ?_
  have found : Sound p (fun found => Value.Within p ((found.map Entry.value).getD nothing))
      (read fun σ => (σ.dict id).get? hash) := .read fun _ hc => within_found (hc.hashes id)
  refine .bind found fun found hfound => ?_
  refine .seq (.update fun σ _ => ⟨Store.quiet_modifyDict (fun d hd => hd.erase)
    fun d hd => hd.erase, rfl⟩) fun _ => ?_
  exact .pure hfound

theorem sound_run {id : HashId} {m : HashAction} {args : Args} (h : args.Within p) :
    Sound p (Value.Within p) (run id m args) := by
  have dict : Sound p (Dict.Within p) (read (·.dict id)) := .read fun _ hc => hc.hashes id
  unfold run
  split
  · exact .seq sound_empty fun _ => .seq .look fun _ => .pure trivial
  · exact .seq sound_empty fun _ => .seq .look fun _ => .pure trivial
  · exact .seq sound_empty fun _ => .bind dict fun d hd => .newArray hd.keys
  · exact .seq sound_empty fun _ => .bind dict fun d hd => .newArray hd.values
  · exact sound_toString
  · exact sound_store h
  · exact sound_store h
  · exact sound_remove
  · exact sound_remove
  · refine .bind (sound_oneOrTwo h) fun kf hkf => .bind sound_keyOf fun hash _ => ?_
    refine .bind dict fun d hd => ?_
    split
    · next entry hentry => exact .pure (hd hash entry hentry).2
    · refine .pure ?_
      cases hf : kf.2 with
      | none => exact within_nothing
      | some v => exact hkf.2 v hf
  · exact .seq sound_any fun _ => .bind sound_keyOf fun _ _ => .seq .look fun _ => .pure trivial

end HashAction
end TreeWalk
