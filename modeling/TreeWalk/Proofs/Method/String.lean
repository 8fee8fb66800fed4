/-
Searching, splitting and joining strings, and reading integers from them.

Positions count characters.  What `index` answers is the first position at which a slice
is the text that was searched for, and the other ways to ask for a text agree with it.

`split` cuts a string at the places of a separator, and `join` puts the parts together
again.  With another text in the place of the separator, that is `replace`.

`int` reads what is left of a string when the white space around it is taken away.
-/
import TreeWalk.Proofs.Eval.Membership
import TreeWalk.Proofs.Eval.Slice
import TreeWalk.Proofs.Text.Split

namespace TreeWalk

namespace Search

open Sequence

/-- A text is in a place where the slice of its length is that text. -/
theorem occursAt_iff_slice {α : Type} {needle text : List α} {i : Nat} :
    OccursAt needle text i ↔ i ≤ text.length ∧ slice text i (i + needle.length) = needle := by
  rw [OccursAt, slice, List.drop_take, Nat.add_sub_cancel_left, List.prefix_iff_eq_take,
    eq_comm (a := needle)]

end Search

namespace Store

/-- A string is shown as it is. -/
theorem display_ofString (σ : Store) (t : String) : σ.display (.ofString t) = t := by
  unfold Store.display
  cases σ.depth with
  | zero => rfl
  | succ n => rfl

end Store

namespace StringMethod

open Access Search Sequence

variable {ev : Evaluator} {s t p q : String} {ts : List String} {v : Value} {j k e : Int64} {i : Nat}
  {pos : Position} {f : Fiber} {σ τ : Store}

/-! ## Searching -/

/-- What `index` answers: the first position, or -1. -/
def found (s t : String) : Int64 := Membership.place (find? t.toList s.toList)

theorem call_index : Method.call ev (.ofString s) "index" [.ofString t] f σ =
    .done (.ok (.ofInt (found s t))) f σ := by
  have hposition : position t.toList s.toList = .ofInt (found s t) := by
    rw [position, position?_eq_find?, found]
    cases find? t.toList s.toList with
    | none => rfl
    | some i => rfl
  rw [← hposition]
  rfl

theorem call_contains : Method.call ev (.ofString s) "contains" [.ofString t] f σ =
    .done (.ok (.ofBool (Search.contains t.toList s.toList))) f σ := rfl

theorem binary_mem : Operator.binary .mem (.ofString t) (.ofString s) pos σ =
    .ok (.ofBool (Search.contains t.toList s.toList), σ) := rfl

theorem call_len : Method.call ev (.ofString t) "len" [] f σ =
    .done (.ok (.ofLength t.length)) f σ := rfl

theorem call_hasPrefix : Method.call ev (.ofString s) "hasPrefix" [.ofString t] f σ =
    .done (.ok (.ofBool (t.toList.isPrefixOf s.toList))) f σ := rfl

theorem call_hasSuffix : Method.call ev (.ofString s) "hasSuffix" [.ofString t] f σ =
    .done (.ok (.ofBool (t.toList.isSuffixOf s.toList))) f σ := rfl

theorem call_reverse : Method.call ev (.ofString s) "reverse" [] f σ =
    .done (.ok (.ofString (String.ofList s.toList.reverse))) f σ := rfl

/-- Either the text is nowhere, or `index` answers its first place. -/
theorem found_cases (hs : (s.length : Int) ≤ Word.greatest) :
    (¬ t.toList <:+: s.toList ∧ found s t = -1) ∨
      ∃ i : Nat, FirstAt t.toList s.toList i ∧ (found s t).toInt = i := by
  unfold found
  cases hfind : find? t.toList s.toList with
  | none => exact .inl ⟨find?_eq_none_iff.mp hfind, rfl⟩
  | some i =>
    have hfirst := find?_eq_some_iff.mp hfind
    refine .inr ⟨i, hfirst, toInt_ofLength_of_le ?_⟩
    have hle := hfirst.1.1
    rw [String.length_toList] at hle
    omega

theorem contains_eq (s t : String) :
    Search.contains t.toList s.toList = decide (found s t ≠ -1) := by
  rw [Search.contains, found]
  cases hfind : find? t.toList s.toList with
  | none => rfl
  | some i =>
    have hnonneg : 0 ≤ Membership.place (some i) := Membership.nonneg_place.mpr rfl
    have hne : Membership.place (some i) ≠ -1 := by
      intro heq
      rw [heq] at hnonneg
      exact absurd hnonneg (by decide)
    exact (decide_eq_true hne).symm

theorem isPrefixOf_eq (hs : (s.length : Int) ≤ Word.greatest) :
    t.toList.isPrefixOf s.toList = decide (found s t = 0) := by
  rw [Bool.eq_iff_iff, List.isPrefixOf_iff_prefix, decide_eq_true_iff]
  obtain ⟨hnone, hfound⟩ | ⟨i, hfirst, hfound⟩ := found_cases (t := t) hs
  · refine iff_of_false (fun h => hnone h.isInfix) ?_
    rw [hfound]
    decide
  · rw [← firstAt_zero, ← Int64.toInt_inj, hfound, Int64.toInt_zero, Int.natCast_eq_zero]
    exact ⟨hfirst.unique, fun h => h ▸ hfirst⟩

/-- A text ends with another one where it begins with it from behind. -/
theorem isSuffixOf_eq (s t : List Char) : t.isSuffixOf s = t.reverse.isPrefixOf s.reverse := by
  rw [Bool.eq_iff_iff, List.isSuffixOf_iff_suffix, List.isPrefixOf_iff_prefix, List.reverse_prefix]

/-- The slices that are the text are those in its places. -/
theorem sliced_eq_iff (hs : (s.length : Int) ≤ Word.greatest) (hj : 0 ≤ j.toInt)
    (he : e.toInt = j.toInt + t.length) :
    sliced (.ofString s) (some j) (some e) pos σ = .ok (.ofString t, σ) ↔
      OccursAt t.toList s.toList j.toInt.toNat := by
  rw [← String.length_toList] at hs he
  have hbounds := sliceBounds?_of_nonneg hs hj (b := e) (by omega)
  rw [sliced, Value.ofString, slice_str (Nullable.get?_some s)]
  by_cases hin : j.toInt ≤ e.toInt ∧ e.toInt ≤ s.toList.length
  · have hstop : e.toInt.toNat = j.toInt.toNat + t.toList.length := by omega
    rw [if_pos hin, hstop] at hbounds
    have hplace : Sequence.bounds j (some e) s.toList.length pos =
        pure (j.toInt.toNat, j.toInt.toNat + t.toList.length) := bounds_of_some hbounds
    rw [Option.getD_some, hplace, pure_bind, occursAt_iff_slice, and_iff_right (by omega)]
    constructor
    · intro h
      have hvalue := (Prod.mk.inj (Except.ok.inj h)).1
      have htext := Option.some.inj (congrArg Value.string? hvalue)
      exact String.toList_ofList.symm.trans (congrArg String.toList htext)
    · intro h
      dsimp only
      rw [h, String.ofList_toList]
      rfl
  · rw [if_neg hin] at hbounds
    have hrefused : Sequence.bounds j (some e) s.toList.length pos =
        Atomic.fail (.slice j e s.toList.length) pos := bounds_of_none hbounds
    rw [Option.getD_some, hrefused]
    constructor
    · intro h
      cases h
    · intro h
      have hle := h.add_length_le
      omega

/-- All questions for a text in another one are answered alike: `k` is what `index` answers
and `m` the length of the text. -/
structure Searched (s t : String) (k m : Int64) : Prop where
  index : ∀ ev f σ, Method.call ev (.ofString s) "index" [.ofString t] f σ =
    .done (.ok (.ofInt k)) f σ
  len : ∀ ev f σ, Method.call ev (.ofString t) "len" [] f σ = .done (.ok (.ofInt m)) f σ
  contains : ∀ ev f σ, Method.call ev (.ofString s) "contains" [.ofString t] f σ =
    .done (.ok (.ofBool (decide (k ≠ -1)))) f σ
  mem : ∀ pos σ, Operator.binary .mem (.ofString t) (.ofString s) pos σ =
    .ok (.ofBool (decide (k ≠ -1)), σ)
  slice : k ≠ -1 → 0 ≤ k ∧ ∃ e, Word.add? k m = some e ∧
    ∀ pos σ, sliced (.ofString s) (some k) (some e) pos σ = .ok (.ofString t, σ)
  first : ∀ j e, 0 ≤ j → (k = -1 ∨ j < k) → Word.add? j m = some e →
    ∀ pos σ, sliced (.ofString s) (some j) (some e) pos σ ≠ .ok (.ofString t, σ)
  hasPrefix : ∀ ev f σ, Method.call ev (.ofString s) "hasPrefix" [.ofString t] f σ =
    .done (.ok (.ofBool (decide (k = 0)))) f σ
  hasSuffix : ∀ ev f σ, ∃ s' t' b,
    Method.call ev (.ofString s) "reverse" [] f σ = .done (.ok (.ofString s')) f σ ∧
    Method.call ev (.ofString t) "reverse" [] f σ = .done (.ok (.ofString t')) f σ ∧
    Method.call ev (.ofString s') "hasPrefix" [.ofString t'] f σ = .done (.ok (.ofBool b)) f σ ∧
    Method.call ev (.ofString s) "hasSuffix" [.ofString t] f σ = .done (.ok (.ofBool b)) f σ

/-- The text is the slice of its length at the first place. -/
theorem exists_slice (hs : (s.length : Int) ≤ Word.greatest) (ht : (t.length : Int) ≤ Word.greatest)
    (hfound : found s t ≠ -1) : 0 ≤ found s t ∧
      ∃ e, Word.add? (found s t) (Word.ofLength t.length) = some e ∧
        ∀ pos σ, sliced (.ofString s) (some (found s t)) (some e) pos σ = .ok (.ofString t, σ) := by
  obtain ⟨-, hnone⟩ | ⟨i, hfirst, hi⟩ := found_cases (t := t) hs
  · exact absurd hnone hfound
  · have hle := hfirst.1.add_length_le
    rw [String.length_toList, String.length_toList] at hle
    have he : (Word.ofLength (i + t.length)).toInt = (found s t).toInt + t.length := by
      rw [toInt_ofLength_of_le (by omega), hi, Int.natCast_add]
    refine ⟨Int64.le_iff_toInt_le.mpr (by rw [hi]; exact Int.natCast_nonneg i),
      Word.ofLength (i + t.length), ?_, ?_⟩
    · exact Word.ofInt?_eq_some_iff.mpr (he.trans (by rw [toInt_ofLength_of_le ht]))
    · intro pos σ
      refine (sliced_eq_iff hs (by omega) he).mpr ?_
      rw [hi, Int.toNat_natCast]
      exact hfirst.1

/-- No slice before the first place is the text, and none at all if there is no place. -/
theorem sliced_ne (hs : (s.length : Int) ≤ Word.greatest) (ht : (t.length : Int) ≤ Word.greatest)
    (hj : 0 ≤ j) (hbefore : found s t = -1 ∨ j < found s t)
    (he : Word.add? j (Word.ofLength t.length) = some e) :
    sliced (.ofString s) (some j) (some e) pos σ ≠ .ok (.ofString t, σ) := by
  have hnonneg : 0 ≤ j.toInt := Int64.le_iff_toInt_le.mp hj
  have hsum := Word.ofInt?_eq_some_iff.mp he
  rw [toInt_ofLength_of_le ht] at hsum
  rw [ne_eq, sliced_eq_iff hs hnonneg hsum]
  intro hplace
  obtain ⟨hnone, -⟩ | ⟨i, hfirst, hi⟩ := found_cases (t := t) hs
  · exact hnone (isInfix_iff_occursAt.mpr ⟨_, hplace⟩)
  · refine hfirst.2 _ ?_ hplace
    obtain hminus | hlt := hbefore
    · have hi' : (-1 : Int64).toInt = i := hminus ▸ hi
      exact absurd hi' (by rw [show (-1 : Int64).toInt = -1 from rfl]; omega)
    · have hlt' := Int64.lt_iff_toInt_lt.mp hlt
      omega

theorem searched (hs : (s.length : Int) ≤ Word.greatest) (ht : (t.length : Int) ≤ Word.greatest) :
    Searched s t (found s t) (Word.ofLength t.length) where
  index ev f σ := call_index
  len ev f σ := call_len
  contains ev f σ := by rw [call_contains, contains_eq]
  mem pos σ := by rw [binary_mem, contains_eq]
  slice := exists_slice hs ht
  first j e hj hbefore he pos σ := sliced_ne hs ht hj hbefore he
  hasPrefix ev f σ := by rw [call_hasPrefix, isPrefixOf_eq hs]
  hasSuffix ev f σ := by
    refine ⟨_, _, _, call_reverse, call_reverse, call_hasPrefix, ?_⟩
    rw [call_hasSuffix, isSuffixOf_eq, String.toList_ofList, String.toList_ofList]

/-- Whatever characters two texts are made of, `index` answers -1 if and only if `contains`
and `in` deny that one is in the other.  Otherwise the slice that begins where `index` says,
with as many characters as the text has, is the text, and none that begins earlier is.  A
text begins with another one if `index` answers 0, and ends with it if it begins with it
when both are reversed. -/
theorem search_counts_characters (s t : String) (hs : (s.length : Int) ≤ Word.greatest)
    (ht : (t.length : Int) ≤ Word.greatest) : ∃ k m, Searched s t k m :=
  ⟨_, _, searched hs ht⟩

/-- Part of the text comes before its place, where the characters have one, two and four
bytes. -/
theorem search_counts_characters_mixed : ∃ k m, Searched "é𝄞éa𝄞éab" "𝄞éab" k m ∧ k = 4 := by
  obtain ⟨k, m, h⟩ := search_counts_characters "é𝄞éa𝄞éab" "𝄞éab" (by decide) (by decide)
  refine ⟨k, m, h, ?_⟩
  have hfound : found "é𝄞éa𝄞éab" "𝄞éab" = 4 := by decide +kernel
  have hindex := (h.index (evaluator 0) default default).symm.trans call_index
  rw [hfound] at hindex
  cases hindex
  rfl

/-! ## Splitting -/

/-- The value is an array of these texts. -/
def Texts (σ : Store) (v : Value) (ts : List String) : Prop :=
  ∃ id, v = .array id ∧ (σ.array id).toList = ts.map .ofString

/-- The parts that `split` answers. -/
def parts (s p : String) : List String := (Search.split p.toList s.toList).map String.ofList

theorem toList_parts (s p : String) :
    (parts s p).map String.toList = Search.split p.toList s.toList := by
  rw [parts, List.map_map, funext (f := String.toList ∘ String.ofList) fun _ => String.toList_ofList]
  exact List.map_id' _

theorem call_split : Method.call ev (.ofString s) "split" [.ofString p] f σ =
    .done (.ok (.array ⟨σ.arrays.size⟩)) f
      (σ.newArray ((Search.split p.toList s.toList).map fun part =>
        .ofString (String.ofList part)).toArray).2 := rfl

/-- `split` makes an array of the parts. -/
theorem exists_split (s p : String) (f : Fiber) (σ : Store) : ∃ v τ,
    (∀ ev, Method.call ev (.ofString s) "split" [.ofString p] f σ = .done (.ok v) f τ) ∧
      Texts τ v (parts s p) := by
  refine ⟨_, _, fun ev => call_split, _, rfl, ?_⟩
  rw [Store.array_newArray, parts, List.map_map]
  rfl

/-- `join` writes the texts one after the other, with the separator between them. -/
theorem call_join (h : Texts σ v ts) : Method.call ev v "join" [.ofString q] f σ =
    .done (.ok (.ofString (q.intercalate ts))) f σ := by
  obtain ⟨id, rfl, hitems⟩ := h
  have hshown : (σ.array id).toList.map σ.display = ts := by
    rw [hitems, List.map_map, funext (f := σ.display ∘ Value.ofString) σ.display_ofString]
    exact List.map_id' ts
  rw [← hshown]
  rfl

theorem call_replace : Method.call ev (.ofString s) "replace" [.ofString p, .ofString q] f σ =
    .done (.ok (.ofString (String.ofList (Search.replace p.toList q.toList s.toList)))) f σ := rfl

theorem intercalate_parts (s p : String) : p.intercalate (parts s p) = s := by
  rw [← String.toList_inj, String.toList_intercalate, toList_parts, intercalate_split]

theorem toList_ne_nil (hp : p ≠ "") : p.toList ≠ [] := mt String.toList_eq_nil_iff.mp hp

theorem cut_parts (hp : p ≠ "") (s : String) :
    Cut p.toList s.toList ((parts s p).map String.toList) := by
  rw [toList_parts]
  exact cut_split (toList_ne_nil hp) s.toList

/-- To replace is to split and to join with the other text. -/
theorem replace_eq (hp : p ≠ "") (s q : String) :
    String.ofList (Search.replace p.toList q.toList s.toList) = q.intercalate (parts s p) := by
  rw [Search.replace, if_neg (toList_ne_nil hp), (cut_parts hp s).replaceFrom_eq (toList_ne_nil hp),
    ← String.toList_intercalate, String.ofList_toList]

/-- What `split` makes of a string is undone by `join`.  If the separator is not empty, no
part has it, there is one part more than the string has places of it, taken from the left
without overlaps, and to join the parts with another text is to replace the separator by
it. -/
theorem join_undoes_split (s p : String) (f : Fiber) (σ : Store) : ∃ v τ ts,
    (∀ ev, Method.call ev (.ofString s) "split" [.ofString p] f σ = .done (.ok v) f τ) ∧
    Texts τ v ts ∧
    (∀ ev g, Method.call ev v "join" [.ofString p] g τ = .done (.ok (.ofString s)) g τ) ∧
    (p ≠ "" →
      (∀ t ∈ ts, ¬ p.toList <:+: t.toList ∧ ∀ ev g υ,
        Method.call ev (.ofString t) "contains" [.ofString p] g υ =
          .done (.ok (.ofBool false)) g υ) ∧
      (∃ places, Leftmost p.toList s.toList places ∧
        (∀ others, Leftmost p.toList s.toList others → others = places) ∧
        ts.length = places.length + 1) ∧
      ∀ q, ∃ r,
        (∀ ev g, Method.call ev v "join" [.ofString q] g τ = .done (.ok (.ofString r)) g τ) ∧
        ∀ ev g υ, Method.call ev (.ofString s) "replace" [.ofString p, .ofString q] g υ =
          .done (.ok (.ofString r)) g υ) := by
  obtain ⟨v, τ, hsplit, htexts⟩ := exists_split s p f σ
  refine ⟨v, τ, parts s p, hsplit, htexts, fun ev g => ?_, fun hp => ⟨?_, ?_, fun q => ?_⟩⟩
  · rw [call_join htexts, intercalate_parts]
  · intro t ht
    have hfree := (cut_parts hp s).free_of_separator (toList_ne_nil hp) _ (List.mem_map_of_mem ht)
    refine ⟨hfree, fun ev g υ => ?_⟩
    rw [call_contains, Bool.eq_false_iff.mpr (mt contains_iff.mp hfree)]
  · obtain ⟨places, hplaces, hlength⟩ := (cut_parts hp s).exists_leftmost (toList_ne_nil hp)
    rw [List.length_map] at hlength
    exact ⟨places, hplaces, fun others h => h.unique hplaces, hlength⟩
  · refine ⟨q.intercalate (parts s p), fun ev g => call_join htexts, fun ev g υ => ?_⟩
    rw [call_replace, replace_eq hp]

/-- The places of `aa` in `aaabaa` overlap, and they touch the end. -/
theorem join_undoes_split_overlaps : "aa" ≠ "" ∧ ∃ v τ ts,
    (∀ ev, Method.call ev (.ofString "aaabaa") "split" [.ofString "aa"] default default =
      .done (.ok v) default τ) ∧
    Texts τ v ts ∧ (∀ t ∈ ts, ¬ "aa".toList <:+: t.toList) ∧
    ∀ ev g, Method.call ev v "join" [.ofString "aa"] g τ = .done (.ok (.ofString "aaabaa")) g τ := by
  have hne : "aa" ≠ "" := by decide
  obtain ⟨v, τ, ts, hsplit, htexts, hjoin, hrest⟩ :=
    join_undoes_split "aaabaa" "aa" default default
  exact ⟨hne, v, τ, ts, hsplit, htexts, fun t ht => ((hrest hne).1 t ht).1, hjoin⟩

/-! ## Reading numbers -/

theorem call_ofString (name : String) (values : List Value) :
    Method.call ev (.ofString s) name values f σ =
      Object.dispatch "STRING" ⟨name, values, f.pos⟩
        (fun m => Eval.lift (run (.some s) m ⟨name, values, f.pos⟩)) f σ := rfl

/-- `int` answers the integer that is read, or fails and tells what it has been given. -/
theorem run_int : (run (.some s) .int ⟨"int", [], pos⟩ : Atomic Value) σ =
    match Reader.integer? (trimmed s) with
    | some n => .ok (.ofInt n, σ)
    | none => .error (.error ⟨.conversion (σ.inspect (.ofString s)) "INTEGER", pos⟩) := by
  have hrun : run (.some s) .int ⟨"int", [], pos⟩ =
      (apply s .int ⟨"int", [], pos⟩ : Atomic Value) := by
    unfold run
    exact pure_bind s fun s => (apply s .int ⟨"int", [], pos⟩ : Atomic Value)
  rw [hrun, apply]
  cases Reader.integer? (trimmed s) with
  | none => rfl
  | some n => rfl

theorem call_int_eq : Method.call ev (.ofString s) "int" [] f σ =
    Eval.lift (run (.some s) .int ⟨"int", [], f.pos⟩) f σ := by
  have hmethod : MethodTable.find? "int" = some StringMethod.int := by decide
  rw [call_ofString, Object.dispatch, hmethod]

theorem call_int {n : Int64} (h : Reader.integer? (trimmed s) = some n) :
    Method.call ev (.ofString s) "int" [] f σ = .done (.ok (.ofInt n)) f σ := by
  rw [call_int_eq, Eval.lift, run_int, h]

/-- A string that cannot be read as an integer is refused. -/
theorem call_int_of_none (h : Reader.integer? (trimmed s) = none) :
    Method.call ev (.ofString s) "int" [] f σ =
      .done (.error (.error ⟨.conversion (σ.inspect (.ofString s)) "INTEGER", f.pos⟩)) f σ := by
  rw [call_int_eq, Eval.lift, run_int, h]

end StringMethod
end TreeWalk
