/-
The operators are sound.

`+` and `*` on arrays and `+` on hashes make a new container of what the operands
hold; all else answers scalars.
-/
import TreeWalk.Proofs.Atomic.Sound
import TreeWalk.Store.Operator

namespace TreeWalk
namespace Operator

open Atomic Value

variable {p : Reach} {op : InfixOp} {a b : Value} {pos : Position}

theorem sound_mismatch {α : Type} {Φ : α → Prop} : Sound p Φ (mismatch op a b pos : Atomic α) :=
  Sound.fail

theorem sound_exact {n? : Option Int64} {operation : String} :
    Sound p (Value.Within p) (exact n? operation pos) := by
  unfold Operator.exact
  split
  · exact .pure trivial
  · exact .fail

theorem sound_onInts {m n : Int64} : Sound p (Value.Within p) (onInts op m n pos) := by
  cases op with
  | add | sub | mul => exact sound_exact
  | div =>
    unfold onInts
    dsimp only
    split
    · exact .fail
    · exact .pure trivial
  | mod =>
    unfold onInts
    dsimp only
    split
    · exact .fail
    · exact sound_exact
  | pow =>
    unfold onInts
    dsimp only
    split
    · exact .pure trivial
    · split
      · exact sound_exact
      · exact sound_exact
  | shl | shr =>
    unfold onInts
    dsimp only
    split
    · exact .pure trivial
    · exact .fail
  | and | or | isMatch | notMatch | mem => exact sound_mismatch
  | _ => exact .pure trivial

theorem sound_onFloats {x y : Double} : Sound p (Value.Within p) (onFloats op x y a b pos) := by
  unfold onFloats
  split
  case h_4 =>
    split
    · exact .fail
    · exact .pure trivial
  case h_5 =>
    split
    · exact .fail
    · exact .pure trivial
  case h_13 => exact sound_mismatch
  all_goals exact .pure trivial

theorem sound_items {id : ArrayId} :
    Sound p (fun items => ListWithin p items.toList) (read (·.array id)) :=
  .read fun _ hc => hc.arrays id

theorem mem_repeatList {α : Type} {x : α} {items : List α} {n : Nat}
    (h : x ∈ repeatList items n) : x ∈ items := by
  obtain ⟨l, hl, hx⟩ := List.mem_flatten.mp h
  obtain rfl := (List.mem_replicate.mp hl).2
  exact hx

theorem sound_repeatArray {id : ArrayId} {n : Nat} :
    Sound p (Value.Within p) (repeatArray id n) := by
  refine .bind sound_items fun items hitems => .seq .reserve fun _ => ?_
  split
  · exact .newArray fun v hv => nomatch hv
  · exact .newArray fun v hv => hitems v (mem_repeatList hv)

theorem sound_repeatString {s : String} {n : Nat} :
    Sound p (Value.Within p) (repeatString s n) := by
  refine .seq .reserve fun _ => ?_
  split
  · exact .pure trivial
  · exact .pure trivial

theorem sound_onArrays (ha : a.Within p) (hb : b.Within p) :
    Sound p (Value.Within p) (onArrays op a b pos) := by
  unfold onArrays
  split
  · refine .bind sound_items fun xs hxs => .bind sound_items fun ys hys => .newArray fun v hv => ?_
    rcases List.mem_append.mp hv with hv | hv
    · exact hxs v hv
    · exact hys v hv
  · refine .bind sound_items fun xs hxs => .newArray fun v hv => ?_
    rcases List.mem_append.mp hv with hv | hv
    · exact hxs v hv
    · exact List.mem_singleton.mp hv ▸ hb
  · refine .bind sound_items fun ys hys => .newArray fun v hv => ?_
    rcases List.mem_cons.mp hv with rfl | hv
    · exact ha
    · exact hys v hv
  · split
    · exact sound_repeatArray
    · exact sound_mismatch
  · split
    · exact sound_repeatArray
    · exact sound_mismatch
  · exact .seq .look fun _ => .pure trivial
  · exact .seq .look fun _ => .pure trivial
  · exact sound_mismatch

theorem sound_pattern {text : String} : Sound p (fun _ => True) (pattern text pos) := by
  unfold pattern
  split
  · exact .pure trivial
  · exact .fail

theorem sound_onStrings {s t : String} : Sound p (Value.Within p) (onStrings op s t a b pos) := by
  unfold onStrings
  split
  case h_8 => exact .seq sound_pattern fun _ => .pure trivial
  case h_9 => exact .seq sound_pattern fun _ => .pure trivial
  case h_10 => exact sound_mismatch
  all_goals exact .pure trivial

theorem sound_onAny : Sound p (Value.Within p) (onAny op a b pos) := by
  unfold onAny
  split
  · refine .seq .look fun e? => ?_
    split
    · exact .pure trivial
    · exact sound_mismatch
  · refine .seq .look fun e? => ?_
    split
    · exact .pure trivial
    · exact sound_mismatch
  · exact sound_mismatch

theorem sound_onStringAnd : Sound p (Value.Within p) (onStringAnd op a b pos) := by
  unfold onStringAnd
  split
  · exact .seq .look fun _ => .seq .look fun _ => .pure trivial
  · split
    · split
      · exact sound_repeatString
      · exact sound_mismatch
    · split
      · exact sound_repeatString
      · exact sound_mismatch
    · exact sound_mismatch
  · exact sound_onAny

theorem sound_membership : Sound p (Value.Within p) (membership a b pos) := by
  unfold membership
  split
  · exact .seq .look fun _ => .pure trivial
  · exact .seq .look fun _ => .pure trivial
  · exact .seq .look fun _ => .pure trivial
  · exact .pure trivial
  · split
    · exact .pure trivial
    · exact sound_mismatch
  · exact sound_mismatch

/-- What is merged is consistent if the hashes in the store are. -/
theorem sound_merge {i j : HashId} :
    Sound p (Value.Within p) (do newDict ((← read (·.dict i)).merge (← read (·.dict j)))) := by
  intro σ hc
  have hwithin : ((σ.dict i).merge (σ.dict j)).Within p := (hc.hashes i).merge (hc.hashes j)
  exact ⟨⟨Store.quiet_newDict hwithin fun hd => (hd i).merge, rfl⟩, trivial⟩

theorem sound_onDicts {i j : HashId} : Sound p (Value.Within p) (onDicts op i j pos) := by
  unfold onDicts
  split
  · exact sound_merge
  · exact sound_onAny

/-- The operator between two values is sound. -/
theorem sound_binary (ha : a.Within p) (hb : b.Within p) :
    Sound p (Value.Within p) (binary op a b pos) := by
  unfold binary
  split
  · exact .seq .look fun _ => .pure trivial
  · exact .seq .look fun _ => .pure trivial
  · split
    · exact sound_onAny
    · split
      · exact sound_membership
      · split
        · exact sound_onInts
        · exact sound_onArrays ha hb
        · exact sound_onArrays ha hb
        · exact sound_onStrings
        · exact sound_onStringAnd
        · exact sound_onStringAnd
        · exact sound_onDicts
        · split
          · exact sound_onFloats
          · exact sound_onAny

theorem sound_unary {op : PrefixOp} (ha : a.Within p) :
    Sound p (Value.Within p) (unary op a pos) := by
  unfold unary
  dsimp only
  split
  · exact .seq .look fun _ => .pure trivial
  · split
    · split
      · exact sound_exact
      · exact .fail
    · split
      · exact .pure trivial
      · exact .fail
    · exact .fail
  · split
    · exact .pure ha
    · exact .fail
  · split
    · exact .pure trivial
    · exact .fail

end Operator
end TreeWalk
