/-
The methods that call nothing back agree on twins.

Every method of a scalar but `isValid`, `toString`, `setValid` and `message` refuses a
NULL receiver before it looks at what the receiver holds.  `setValid` brings out what
the receiver hides and is told to by what its flag holds, and `message` tells a failure
from a success by what the receiver holds; these two agree where nothing is hidden.
-/
import TreeWalk.Method.Object
import TreeWalk.Proofs.Twin.Atomic

namespace TreeWalk

open Atomic Value

variable {args args' : Args}

/-! ## Scalars -/

/-- The flag decides whether the receiver, which is the same on both sides, is valid. -/
theorem Args.Twin.setValid {make : Bool → Value} (h : args.Twin args') (hopen : args.Open) :
    Agree Value.Twin (do return make (← args.flag)) (do return make (← args'.flag)) :=
  .seq (h.flag hopen) fun _ => .same

namespace IntMethod

variable {m : IntMethod}

theorem agree_compute {n : Int64} {pos : Position} :
    Agree Value.Twin (m.compute n pos) (m.compute n pos) := by
  unfold compute
  split
  · split
    · exact .same
    · exact .fail
  all_goals exact .same

theorem agree_run {n n' : Nullable Int64} (hn : (Value.int n).Twin (.int n')) (h : args.Twin args')
    (hm : m = .setValid → n.valid = true ∧ args.Open) :
    Agree Value.Twin (run n m args) (run n' m args') := by
  cases m with
  | isValid => exact h.isValid_of hn
  | setValid =>
    obtain ⟨hvalid, hopen⟩ := hm rfl
    obtain rfl := Value.int.inj (hn.eq_of_valid hvalid nofun)
    exact h.setValid hopen
  | toString => exact h.toString hn
  | _ =>
    refine .seq (h.receiver hn.int?_eq) fun k => .seq h.empty fun _ => ?_
    rw [h.pos_eq]
    exact agree_compute

end IntMethod

namespace FloatMethod

variable {m : FloatMethod}

theorem agree_compute {x : Double} {pos : Position} :
    Agree Value.Twin (m.compute x pos) (m.compute x pos) := by
  cases m with
  | int =>
    unfold compute
    dsimp only
    split
    · exact .same
    · exact .fail
  | _ => exact .same

theorem agree_run {x x' : Nullable Double} (hx : (Value.float x).Twin (.float x'))
    (h : args.Twin args') (hm : m = .setValid → x.valid = true ∧ args.Open) :
    Agree Value.Twin (run x m args) (run x' m args') := by
  cases m with
  | isValid => exact h.isValid_of hx
  | setValid =>
    obtain ⟨hvalid, hopen⟩ := hm rfl
    obtain rfl := Value.float.inj (hx.eq_of_valid hvalid nofun)
    exact h.setValid hopen
  | toString => exact h.toString hx
  | _ =>
    refine .seq (h.receiver hx.number?_eq) fun k => .seq h.empty fun _ => ?_
    rw [h.pos_eq]
    exact agree_compute

end FloatMethod

namespace BoolMethod

variable {m : BoolMethod}

theorem agree_run {b b' : Truth} (hb : (Value.bool b).Twin (.bool b')) (h : args.Twin args')
    (hm : m = .setValid → b.valid = true ∧ args.Open)
    (hm' : m = .message → (Value.bool b).hidesTruth = false) :
    Agree Value.Twin (run b m args) (run b' m args') := by
  cases m with
  | isValid => exact h.isValid_of hb
  | message =>
    unfold run
    dsimp only
    rw [hb.failureMessage?_eq (hm' rfl)]
    exact .seq h.empty fun _ => .same
  | setValid =>
    obtain ⟨hvalid, hopen⟩ := hm rfl
    obtain rfl := Value.bool.inj (hb.eq_of_valid hvalid nofun)
    exact h.setValid hopen
  | toString => exact h.toString hb

end BoolMethod

namespace NilMethod

theorem agree_run {reason : Option String} {m : NilMethod} (h : args.Twin args') :
    Agree Value.Twin (run reason m args) (run reason m args') := by
  cases m with
  | isValid => exact h.isValid
  | message => exact .seq h.empty fun _ => .same
  | toString => exact h.toString (.same _)

end NilMethod

namespace StringMethod

variable {m : StringMethod}

theorem agree_texts {parts : List (List Char)} : Agree Value.Twin (texts parts) (texts parts) :=
  .newArray (.refl _)

theorem agree_text {make : String → Value} (h : args.Twin args') :
    Agree Value.Twin (do return make (← args.string 0 (← args.one)))
      (do return make (← args'.string 0 (← args'.one))) :=
  .bind h.one fun _ _ hvw => .seq (h.string hvw) fun _ => .same

theorem agree_apply {s : String} (h : args.Twin args') (hm : m = .setValid → args.Open) :
    Agree Value.Twin (apply s m args) (apply s m args') := by
  cases m with
  | len | upper | lower | trim | reverse => exact .seq h.empty fun _ => .same
  | chars => exact .seq h.empty fun _ => agree_texts
  | split =>
    refine .bind h.upToOne fun v? w? hvw => ?_
    cases hvw with
    | none => exact agree_texts
    | some hvw => exact .seq (h.string hvw) fun _ => agree_texts
  | contains | hasPrefix | hasSuffix | index => exact agree_text h
  | replace =>
    exact .bind h.two fun r s hrs => .seq (h.string hrs.1) fun _ => .seq (h.string hrs.2) fun _ =>
      .same
  | int | float =>
    unfold apply
    refine .seq h.empty fun _ => ?_
    split
    · exact .same
    · exact .seq (agree_inspect (.same _)) fun _ => h.fail
  | isValid => exact h.isValid
  | setValid => exact h.setValid (hm rfl)
  | toString => exact h.toString (.same _)

theorem agree_run {s s' : Nullable String} (hs : (Value.str s).Twin (.str s')) (h : args.Twin args')
    (hm : m = .setValid → s.valid = true ∧ args.Open) :
    Agree Value.Twin (run s m args) (run s' m args') := by
  cases m with
  | isValid => exact h.isValid_of hs
  | setValid =>
    obtain ⟨hvalid, hopen⟩ := hm rfl
    obtain rfl := Value.str.inj (hs.eq_of_valid hvalid nofun)
    exact h.setValid hopen
  | toString => exact h.toString hs
  | _ => exact .seq (h.receiver hs.string?_eq) fun _ => agree_apply h nofun

end StringMethod

/-! ## Arrays, tuples and ranges -/

namespace Sequence

variable {xs ys : List Value}

theorem isOrdered_eq (h : Twins xs ys) : isOrdered xs = isOrdered ys := by
  induction h with
  | nil => rfl
  | cons hab hrest ih =>
    cases hrest with
    | nil => rfl
    | cons hab' _ =>
      unfold isOrdered
      rw [hab.compare?_eq hab', ih]

theorem twins_insertBehind {v w : Value} (hvw : v.Twin w) (h : Twins xs ys) :
    Twins (insertBehind v xs) (insertBehind w ys) := by
  induction h with
  | nil => exact .cons hvw .nil
  | cons hab hrest ih =>
    unfold insertBehind
    rw [hvw.compare?_eq hab]
    split
    · exact .cons hab ih
    · exact .cons hvw (.cons hab hrest)

theorem twins_insertionSort (h : Twins xs ys) : Twins (insertionSort xs) (insertionSort ys) := by
  unfold insertionSort
  refine List.rel_reverse (List.rel_foldl (P := Twins) (R := Value.Twin) ?_ .nil h)
  exact fun _ _ hsorted _ _ hvw => twins_insertBehind hvw hsorted

theorem standing_eq {v w : Value} (h : Twins xs ys) (hvw : v.Twin w) :
    standing xs v = standing ys w :=
  countP_eq_of_rel h fun a b hab => by rw [hab.compare?_eq hvw]

theorem isRanked_eq (h : Twins xs ys) : isRanked xs = isRanked ys := by
  simp only [isRanked, List.all_map]
  refine all_eq_of_rel h fun a b hab => all_eq_of_rel h fun a' b' hab' => ?_
  simp only [Function.comp_apply]
  rw [hab.compare?_eq hab', standing_eq h hab, standing_eq h hab']

/-- Sorting compares what the items hold, so twins end up in the same order. -/
theorem twins_sort? (h : Twins xs ys) : Option.Rel Twins (sort? xs) (sort? ys) := by
  simp only [sort?, h.length_eq, isRanked_eq h]
  split
  · exact .some (twins_insertionSort h)
  · split
    · exact .some (rel_mergeSort h fun a b a' b' hab hab' => by rw [hab.compare?_eq hab'])
    · exact .none

theorem twins_slice (h : Twins xs ys) (low high : Nat) :
    Twins (slice xs low high) (slice ys low high) :=
  List.forall₂_drop low (List.forall₂_take high h)

theorem agree_bounds {start : Int64} {stop : Option Int64} {length : Nat} {pos : Position} :
    Agree Eq (bounds start stop length pos) (bounds start stop length pos) := .require_same

end Sequence

/-- What may be there, or `nil`. -/
theorem Value.Twin.getD_nothing {v? w? : Option Value} (h : Option.Rel Value.Twin v? w?) :
    (v?.getD .nothing).Twin (w?.getD .nothing) := by
  cases h with
  | none => exact .same _
  | some hvw => exact hvw

namespace ArrayAction

variable {id : ArrayId}

theorem rel_back? {xs ys : Array Value} (h : Twins xs.toList ys.toList) :
    Option.Rel Value.Twin xs.back? ys.back? := by
  rw [← Array.getLast?_toList, ← Array.getLast?_toList]
  exact rel_getLast? h

theorem agree_run {m : ArrayAction} (h : args.Twin args') :
    Agree Value.Twin (run id m args) (run id m args') := by
  unfold run
  refine .bind agree_items fun xs ys hxy => ?_
  have hsize : xs.size = ys.size := by
    rw [← Array.length_toList, ← Array.length_toList, hxy.length_eq]
  cases m with
  | len =>
    dsimp only
    rw [hsize]
    exact .seq h.empty fun _ => .same
  | empty =>
    dsimp only
    rw [Array.isEmpty, Array.isEmpty, hsize]
    exact .seq h.empty fun _ => .same
  | toString => exact h.toString (.same _)
  | push =>
    refine .seq (.update fun σ τ hστ => hστ.setArray ?_) fun _ => .same
    rw [Array.toList_append, Array.toList_append]
    exact List.rel_append hxy h.values
  | pop =>
    refine .seq h.empty fun _ => .seq (.update fun σ τ hστ => hστ.setArray ?_) fun _ => ?_
    · rw [Array.toList_pop, Array.toList_pop, List.dropLast_eq_take, List.dropLast_eq_take,
        hxy.length_eq]
      exact List.forall₂_take _ hxy
    · exact .pure (Value.Twin.getD_nothing (rel_back? hxy))
  | first =>
    refine .seq h.empty fun _ => .pure (Value.Twin.getD_nothing ?_)
    rw [← Array.getElem?_toList, ← Array.getElem?_toList]
    exact rel_getElem? hxy 0
  | last => exact .seq h.empty fun _ => .pure (Value.Twin.getD_nothing (rel_back? hxy))
  | contains =>
    refine .bind h.one fun v w hvw => .seq (.read fun σ τ hστ => ?_) fun _ => .same
    rw [← Array.any_toList, ← Array.any_toList]
    exact any_eq_of_rel hxy fun a b hab => hστ.equal_eq hab hvw
  | index =>
    refine .bind h.one fun v w hvw => .seq (.read fun σ τ hστ => ?_) fun i? => ?_
    · have hfound := findIdx?_eq_of_rel hxy fun a b hab => hστ.equal_eq hab hvw
      rw [← List.findIdx?_toArray, ← List.findIdx?_toArray] at hfound
      exact hfound
    · cases i? with
      | none => exact .same
      | some i => exact .same
  | join =>
    have joined : ∀ separator : String, Agree Value.Twin
        (do return .ofString (separator.intercalate (← read fun σ => xs.toList.map σ.display)))
        (do return .ofString (separator.intercalate (← read fun σ => ys.toList.map σ.display))) :=
      fun separator => .seq (.read fun σ τ hστ => map_eq_of_rel hxy fun _ _ => hστ.display_eq)
        fun _ => .same
    refine .bind h.upToOne fun v? w? hvw => ?_
    cases hvw with
    | none => exact joined ""
    | some hvw => exact .seq (h.string hvw) joined
  | reverse => exact .seq h.empty fun _ => .newArray (List.rel_reverse hxy)
  | sort =>
    refine .seq h.empty fun _ => ?_
    rw [Sequence.isOrdered_eq hxy]
    split
    · have hsort := Sequence.twins_sort? hxy
      generalize Sequence.sort? xs.toList = a? at hsort ⊢
      generalize Sequence.sort? ys.toList = b? at hsort ⊢
      cases hsort with
      | some hsorted => exact .newArray hsorted
      | none => exact .fault
    · exact h.failInput
  | slice =>
    have sliced : ∀ start stop, Agree Value.Twin
        (do
          let bounds ← Sequence.bounds start stop xs.size args.pos
          newArray (Sequence.slice xs.toList bounds.1 bounds.2))
        (do
          let bounds ← Sequence.bounds start stop ys.size args'.pos
          newArray (Sequence.slice ys.toList bounds.1 bounds.2)) := by
      intro start stop
      rw [hsize, h.pos_eq]
      exact .seq Sequence.agree_bounds fun _ => .newArray (Sequence.twins_slice hxy _ _)
    refine .bind h.oneOrTwo fun r s hrs => .seq (h.int hrs.1) fun start => ?_
    obtain ⟨a, b?⟩ := r
    obtain ⟨a', b?'⟩ := s
    cases hrs.2 with
    | none => exact sliced start none
    | some hbb => exact .seq (.map (h.int hbb) fun _ _ hij => congrArg some hij) (sliced start)

end ArrayAction

namespace TupleMethod

theorem agree_run {xs ys : List Value} {multi : Bool} {m : TupleMethod} (hxy : Twins xs ys)
    (h : args.Twin args') : Agree Value.Twin (run xs multi m args) (run ys multi m args') := by
  cases m with
  | len =>
    unfold run
    dsimp only
    rw [hxy.length_eq]
    exact .seq h.empty fun _ => .same
  | get =>
    refine .bind h.one fun v w hvw => .seq (h.int hvw) fun i => ?_
    rw [hxy.length_eq, h.pos_eq]
    refine .require ?_
    cases Sequence.resolveIndex? i ys.length with
    | none => exact .none
    | some k => exact rel_getElem? hxy k
  | toArray => exact .seq h.empty fun _ => .newArray hxy
  | toString => exact h.toString (.tuple multi hxy)

end TupleMethod

namespace RangeMethod

theorem agree_run {r : Range} {m : RangeMethod} (h : args.Twin args') :
    Agree Value.Twin (run r m args) (run r m args') := by
  cases m with
  | len => exact .seq h.empty fun _ => .same
  | toArray => exact .seq h.empty fun _ => .seq .reserve fun _ => .newArray (.refl _)
  | contains => exact .bind h.one fun v w hvw => .seq (h.int hvw) fun _ => .same
  | toString => exact h.toString (.same _)

end RangeMethod

/-! ## Hashes -/

namespace HashAction

variable {id : HashId}

theorem agree_store (h : args.Twin args') : Agree Value.Twin (store id args) (store id args') := by
  unfold store
  rw [h.pos_eq]
  exact .bind h.two fun r s hrs => .seq (agree_keyOf hrs.1) fun hash =>
    .seq (.update fun σ τ hστ => hστ.modifyDict fun d e hde => hde.insert hrs.1 hrs.2) fun _ => .same

/-- What an entry holds, if there is one. -/
theorem twin_found {d e : Dict} (h : d.Twin e) (hash : Key) :
    Value.Twin (((d.get? hash).map Entry.value).getD .nothing)
      (((e.get? hash).map Entry.value).getD .nothing) := by
  obtain ⟨hd, he⟩ | ⟨a, b, hd, he, hab⟩ := rel_cases (h.get? hash)
  · rw [hd, he]
    exact .same _
  · rw [hd, he]
    exact hab.2

theorem agree_remove (h : args.Twin args') :
    Agree Value.Twin (remove id args) (remove id args') := by
  unfold remove
  rw [h.pos_eq]
  refine .bind h.one fun v w hvw => .seq (agree_keyOf hvw) fun hash => ?_
  have found : Agree (fun a? b? => Value.Twin ((a?.map Entry.value).getD .nothing)
      ((b?.map Entry.value).getD .nothing)) (read fun σ => (σ.dict id).get? hash)
      (read fun σ => (σ.dict id).get? hash) := .read fun σ τ hστ => twin_found (hστ.dict id) hash
  exact .bind found fun a? b? hab =>
    .seq (.update fun σ τ hστ => hστ.modifyDict fun d e hde => hde.erase) fun _ => .pure hab

theorem agree_run {m : HashAction} (h : args.Twin args') :
    Agree Value.Twin (run id m args) (run id m args') := by
  cases m with
  | len =>
    refine .seq h.empty fun _ => .bind agree_dict fun d e hde => ?_
    rw [hde.size_eq]
    exact .same
  | empty =>
    refine .seq h.empty fun _ => .bind agree_dict fun d e hde => ?_
    rw [hde.isEmpty_eq]
    exact .same
  | keys => exact .seq h.empty fun _ => .bind agree_dict fun d e hde => .newArray hde.keys
  | values => exact .seq h.empty fun _ => .bind agree_dict fun d e hde => .newArray hde.values
  | toString => exact h.toString (.same _)
  | push => exact agree_store h
  | set => exact agree_store h
  | pop => exact agree_remove h
  | delete => exact agree_remove h
  | get =>
    unfold run
    dsimp only
    rw [h.pos_eq]
    refine .bind h.oneOrTwo fun r s hrs => .seq (agree_keyOf hrs.1) fun hash =>
      .bind agree_dict fun d e hde => ?_
    obtain ⟨hd, he⟩ | ⟨a, b, hd, he, hab⟩ := rel_cases (hde.get? hash)
    · rw [hd, he]
      exact .pure (Value.Twin.getD_nothing hrs.2)
    · rw [hd, he]
      exact .pure hab.2
  | has =>
    unfold run
    dsimp only
    rw [h.pos_eq]
    refine .bind h.one fun v w hvw => .seq (agree_keyOf hvw) fun hash =>
      .bind agree_dict fun d e hde => ?_
    rw [hde.contains_eq]
    exact .same

end HashAction
end TreeWalk
