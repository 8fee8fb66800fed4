/-
Texts as keys of a hash.

A hash knows a text only by its key, which is a digest of 64 bits.  What a text
stands for after some calls of `set` and `delete` is therefore what was done last
under its digest: the value set, or nothing if it was deleted.  As long as no two of
the texts share a digest this is what was done last under the text itself, and the
hash is as long as there are texts that stand for something.  Texts that do share a
digest are one key to the hash.
-/
import Mathlib.Data.List.Dedup
import Mathlib.Data.List.Induction
import Mathlib.Data.Set.Function
import TreeWalk.Eval.Node
import TreeWalk.Proofs.Atomic.Sound
import TreeWalk.Proofs.Value.Dict
import TreeWalk.Proofs.Store.Closed

namespace TreeWalk

open Eval

/-- A change of a hash under a text. -/
inductive Edit where
  | set (text : String) (value : Value)
  | delete (text : String)

namespace Edit

def text : Edit → String
  | set text _ => text
  | delete text => text

/-- What the text stands for afterwards. -/
def value? : Edit → Option Value
  | set _ value => some value
  | delete _ => none

/-- The method call that makes the change. -/
def call (ev : Evaluator) (id : HashId) : Edit → Eval Value
  | set text value => Method.call ev (.hash id) "set" [.ofString text, value]
  | delete text => Method.call ev (.hash id) "delete" [.ofString text]

/-- The calls for changes in turn. -/
def callAll (ev : Evaluator) (id : HashId) (edits : List Edit) : Eval Unit :=
  foldList (fun _ e => do let _ ← e.call ev id) edits ()

section Standing

variable {κ : Type} [DecidableEq κ] (name : String → κ)

/-- What a name stands for after changes, where each change is one to the name of its
text: the value set last, unless it was deleted since. -/
def standing (edits : List Edit) (k : κ) : Option Value :=
  edits.foldl (fun held e => if name e.text = k then e.value? else held) none

/-- The names that stand for something after changes. -/
def standingNames (edits : List Edit) : List κ :=
  (edits.map fun e => name e.text).dedup.filter fun k => (standing name edits k).isSome

variable {name} {edits : List Edit}

theorem standing_append (e : Edit) (k : κ) :
    standing name (edits ++ [e]) k = if name e.text = k then e.value? else standing name edits k := by
  unfold standing
  rw [List.foldl_append]
  rfl

theorem mem_of_standing {k : κ} {v : Value} (h : standing name edits k = some v) :
    ∃ e ∈ edits, name e.text = k := by
  induction edits using List.reverseRecOn with
  | nil => cases h
  | append_singleton edits e ih =>
    rw [standing_append] at h
    by_cases hk : name e.text = k
    · exact ⟨e, List.mem_append_right _ (List.mem_singleton.mpr rfl), hk⟩
    · rw [if_neg hk] at h
      obtain ⟨e', he', hk'⟩ := ih h
      exact ⟨e', List.mem_append_left _ he', hk'⟩

theorem mem_standingNames {k : κ} :
    k ∈ standingNames name edits ↔ (standing name edits k).isSome = true := by
  unfold standingNames
  rw [List.mem_filter, List.mem_dedup, List.mem_map]
  refine ⟨And.right, fun h => ⟨?_, h⟩⟩
  obtain ⟨v, hv⟩ := Option.isSome_iff_exists.mp h
  exact mem_of_standing hv

theorem nodup_standingNames : (standingNames name edits).Nodup :=
  (List.nodup_dedup _).filter _

/-- The texts of the changes, and one more. -/
def texts (edits : List Edit) (k : String) : Set String := {t | t = k ∨ ∃ e ∈ edits, e.text = t}

/-- If no two texts share a name, what the name of a text stands for is what the text
stands for. -/
theorem standing_of_injOn {k : String} (h : Set.InjOn name (texts edits k)) :
    standing name edits (name k) = standing id edits k := by
  induction edits using List.reverseRecOn with
  | nil => rfl
  | append_singleton edits e ih =>
    have hsub : texts edits k ⊆ texts (edits ++ [e]) k := by
      rintro t (ht | ⟨e', he', ht⟩)
      · exact .inl ht
      · exact .inr ⟨e', List.mem_append_left _ he', ht⟩
    have he : e.text ∈ texts (edits ++ [e]) k :=
      .inr ⟨e, List.mem_append_right _ (List.mem_singleton.mpr rfl), rfl⟩
    have hiff : name e.text = name k ↔ e.text = k := h.eq_iff he (.inl rfl)
    rw [standing_append, standing_append, ih (h.mono hsub)]
    simp only [hiff, id]

theorem length_standingNames_of_injOn (h : Set.InjOn name {t | ∃ e ∈ edits, e.text = t}) :
    (standingNames name edits).length = (standingNames id edits).length := by
  have hname : ∀ e ∈ edits, standing name edits (name e.text) = standing id edits e.text := by
    intro e he
    refine standing_of_injOn (h.mono ?_)
    rintro t (rfl | ht)
    · exact ⟨e, he, rfl⟩
    · exact ht
  have hinj : ∀ s ∈ standingNames id edits, ∀ t ∈ standingNames id edits, name s = name t → s = t := by
    intro s hs t ht heq
    obtain ⟨v, hv⟩ := Option.isSome_iff_exists.mp (mem_standingNames.mp hs)
    obtain ⟨w, hw⟩ := Option.isSome_iff_exists.mp (mem_standingNames.mp ht)
    exact h (mem_of_standing hv) (mem_of_standing hw) heq
  have hnodup : ((standingNames id edits).map name).Nodup :=
    List.Nodup.map_on hinj nodup_standingNames
  have hperm : (standingNames name edits).Perm ((standingNames id edits).map name) := by
    refine (List.perm_ext_iff_of_nodup nodup_standingNames hnodup).mpr fun k => ?_
    rw [mem_standingNames, List.mem_map]
    constructor
    · intro hk
      obtain ⟨v, hv⟩ := Option.isSome_iff_exists.mp hk
      obtain ⟨e, he, rfl⟩ := mem_of_standing hv
      rw [hname e he] at hk
      exact ⟨e.text, mem_standingNames.mpr hk, rfl⟩
    · rintro ⟨t, ht, rfl⟩
      obtain ⟨v, hv⟩ := Option.isSome_iff_exists.mp (mem_standingNames.mp ht)
      obtain ⟨e, he, (rfl : e.text = t)⟩ := mem_of_standing hv
      rw [hname e he]
      exact mem_standingNames.mp ht
  rw [hperm.length_eq, List.length_map]

end Standing

/-! ## The hash -/

/-- The change of the hash itself. -/
def apply (d : Dict) : Edit → Dict
  | set text value => d.insert (.ofString text) (.ofString text) value
  | delete text => d.erase (.ofString text)

variable {d : Dict} {edits : List Edit}

theorem value_apply (e : Edit) (key : Key) :
    ((e.apply d).get? key).map (·.value) =
      if Key.ofString e.text = key then e.value? else (d.get? key).map (·.value) := by
  cases e with
  | set text value =>
    change ((d.insert (.ofString text) (.ofString text) value).get? key).map (·.value) = _
    rw [Dict.get?_insert]
    by_cases h : Key.ofString text = key
    · rw [if_pos h]
      exact (if_pos h).symm
    · rw [if_neg h]
      exact (if_neg h).symm
  | delete text =>
    change ((d.erase (.ofString text)).get? key).map (·.value) = _
    rw [Dict.get?_erase]
    by_cases h : Key.ofString text = key
    · rw [if_pos h]
      exact (if_pos h).symm
    · rw [if_neg h]
      exact (if_neg h).symm

theorem consistent_apply (e : Edit) (hd : d.Consistent) : (e.apply d).Consistent := by
  cases e with
  | set text value => exact hd.insert rfl
  | delete text => exact hd.erase

/-- What the changes of an empty hash leave in it. -/
def made (edits : List Edit) : Dict := edits.foldl apply .empty

theorem made_append (e : Edit) : made (edits ++ [e]) = e.apply (made edits) := by
  unfold made
  rw [List.foldl_append]
  rfl

theorem consistent_made (edits : List Edit) : (made edits).Consistent := by
  induction edits using List.reverseRecOn with
  | nil => exact .empty
  | append_singleton edits e ih =>
    rw [made_append]
    exact consistent_apply e ih

theorem value_made (edits : List Edit) (key : Key) :
    ((made edits).get? key).map (·.value) = standing Key.ofString edits key := by
  induction edits using List.reverseRecOn with
  | nil =>
    change (Dict.empty.get? key).map (·.value) = none
    rw [Dict.get?_empty]
    rfl
  | append_singleton edits e ih => rw [made_append, value_apply, ih, standing_append]

theorem size_made (edits : List Edit) :
    (made edits).size = (standingNames Key.ofString edits).length := by
  refine List.Perm.length_eq ((List.perm_ext_iff_of_nodup (consistent_made edits).nodup
    nodup_standingNames).mpr fun key => ?_)
  rw [(consistent_made edits).mem_order, Dict.contains_iff, mem_standingNames, ← value_made,
    Option.isSome_map, Option.isSome_iff_exists]

/-! ## The calls -/

variable {ev : Evaluator} {hash : HashId} {f : Fiber} {σ : Store}

/-- A change ends at once, and changes the hash and nothing else. -/
theorem call_eq (e : Edit) :
    ∃ v, e.call ev hash f σ = .done (.ok v) f (σ.modifyDict hash e.apply) := by
  cases e with
  | set text value => exact ⟨.hash hash, rfl⟩
  | delete text => exact ⟨_, rfl⟩

theorem callAll_eq : callAll ev hash edits f σ =
    .done (.ok ()) f (edits.foldl (fun σ e => σ.modifyDict hash e.apply) σ) := by
  induction edits generalizing σ with
  | nil => rfl
  | cons e rest ih =>
    obtain ⟨v, hv⟩ := @call_eq ev hash f σ e
    unfold callAll at ih ⊢
    rw [foldList_cons, bind_apply, bind_apply, hv]
    exact ih

theorem dict_foldl : (edits.foldl (fun σ e => σ.modifyDict hash e.apply) σ).dict hash =
    edits.foldl apply (σ.dict hash) := by
  induction edits generalizing σ with
  | nil => rfl
  | cons e rest ih => rw [List.foldl_cons, List.foldl_cons, ih, Store.dict_modifyDict]

theorem get_eq (k : String) :
    Method.call ev (.hash hash) "get" [.ofString k] f σ =
      .done (.ok ((((σ.dict hash).get? (.ofString k)).map (·.value)).getD .nothing)) f σ := by
  have hrun : (HashAction.run hash .get ⟨"get", [.ofString k], f.pos⟩ : Atomic Value) σ =
      .ok ((((σ.dict hash).get? (.ofString k)).map (·.value)).getD .nothing, σ) := by
    have hargs : Args.oneOrTwo ⟨"get", [.ofString k], f.pos⟩ =
        (pure (.ofString k, none) : Atomic (Value × Option Value)) := rfl
    have hkey : Atomic.keyOf (.ofString k) f.pos = (pure (.ofString k) : Atomic Key) := rfl
    unfold HashAction.run
    simp only [hargs, hkey, pure_bind]
    rw [Atomic.read_bind_apply]
    cases (σ.dict hash).get? (.ofString k) with
    | none => rfl
    | some e => rfl
  change lift (HashAction.run hash .get ⟨"get", [.ofString k], f.pos⟩) f σ = _
  unfold lift
  rw [hrun]

theorem len_eq :
    Method.call ev (.hash hash) "len" [] f σ = .done (.ok (.ofLength (σ.dict hash).size)) f σ := rfl

/-- Calls of `set` and `delete` with texts on an empty hash all come to an end.  `get`
then answers what was done last under the digest of its text, and `len` the number of
digests that stand for something; a change under another digest does not change what
`get` answers.  If the texts have digests of their own, both answer what the texts
themselves stand for. -/
theorem texts_known_by_digest (ev : Evaluator) (f : Fiber) (σ : Store) (hash : HashId)
    (hempty : σ.dict hash = .empty) (edits : List Edit) :
    ∃ τ, callAll ev hash edits f σ = .done (.ok ()) f τ ∧
      (∀ k, Method.call ev (.hash hash) "get" [.ofString k] f τ =
        .done (.ok ((standing Key.ofString edits (.ofString k)).getD .nothing)) f τ) ∧
      Method.call ev (.hash hash) "len" [] f τ =
        .done (.ok (.ofLength (standingNames Key.ofString edits).length)) f τ ∧
      (∀ e k, Key.ofString (text e) ≠ Key.ofString k →
        ∃ v τ', e.call ev hash f τ = .done (.ok v) f τ' ∧
          Method.call ev (.hash hash) "get" [.ofString k] f τ' =
            .done (.ok ((standing Key.ofString edits (.ofString k)).getD .nothing)) f τ') ∧
      (∀ k, Set.InjOn Key.ofString (texts edits k) →
        standing Key.ofString edits (.ofString k) = standing id edits k) ∧
      (Set.InjOn Key.ofString {t | ∃ e ∈ edits, e.text = t} →
        (standingNames Key.ofString edits).length = (standingNames id edits).length) := by
  let τ := edits.foldl (fun σ e => σ.modifyDict hash e.apply) σ
  have hτ : τ.dict hash = made edits := by
    rw [dict_foldl, hempty]
    rfl
  have hget : ∀ k, Method.call ev (.hash hash) "get" [.ofString k] f τ =
      .done (.ok ((standing Key.ofString edits (.ofString k)).getD .nothing)) f τ := by
    intro k
    rw [get_eq, hτ, value_made]
  refine ⟨τ, callAll_eq, hget, ?_, fun e k hne => ?_, fun k => standing_of_injOn,
    length_standingNames_of_injOn⟩
  · rw [len_eq, hτ, size_made]
  · obtain ⟨v, hv⟩ := @call_eq ev hash f τ e
    refine ⟨v, _, hv, ?_⟩
    rw [get_eq, Store.dict_modifyDict, hτ, value_apply, if_neg hne, value_made]

/-- `set("a", 1)`, `set("b", 2)`, `delete("a")` -/
def separateEdits : List Edit := [.set "a" (.ofInt 1), .set "b" (.ofInt 2), .delete "a"]

theorem texts_known_by_digest_separate :
    ∃ τ, callAll (evaluator 1) ⟨0⟩ separateEdits default ((default : Store).newDict .empty).2 =
        .done (.ok ()) default τ ∧
      Method.call (evaluator 1) (.hash ⟨0⟩) "get" [.ofString "a"] default τ =
        .done (.ok .nothing) default τ ∧
      Method.call (evaluator 1) (.hash ⟨0⟩) "get" [.ofString "b"] default τ =
        .done (.ok (.ofInt 2)) default τ ∧
      Method.call (evaluator 1) (.hash ⟨0⟩) "len" [] default τ =
        .done (.ok (.ofLength 1)) default τ := by
  have hne : Key.ofString "a" ≠ Key.ofString "b" := by decide +kernel
  have hinj : Set.InjOn Key.ofString {"a", "b"} := by
    rintro s (rfl | rfl) t (rfl | rfl) h
    · rfl
    · exact absurd h hne
    · exact absurd h.symm hne
    · rfl
  have hedits : ∀ t, (∃ e ∈ separateEdits, e.text = t) → t ∈ ({"a", "b"} : Set String) := by
    rintro t ⟨e, he, rfl⟩
    simp only [separateEdits, List.mem_cons, List.not_mem_nil, or_false] at he
    rcases he with rfl | rfl | rfl
    · exact .inl rfl
    · exact .inr rfl
    · exact .inl rfl
  have htexts : ∀ k ∈ ({"a", "b"} : Set String), texts separateEdits k ⊆ {"a", "b"} := by
    rintro k hk t (rfl | ht)
    · exact hk
    · exact hedits t ht
  obtain ⟨τ, hcalls, hget, hlen, -, hstanding, hnames⟩ := texts_known_by_digest (evaluator 1)
    default ((default : Store).newDict .empty).2 ⟨0⟩ rfl separateEdits
  refine ⟨τ, hcalls, ?_, ?_, ?_⟩
  · rw [hget, hstanding "a" (hinj.mono (htexts "a" (.inl rfl)))]
    rfl
  · rw [hget, hstanding "b" (hinj.mono (htexts "b" (.inr rfl)))]
    rfl
  · rw [hlen, hnames (hinj.mono hedits)]
    rfl

/-- Two texts with one digest. -/
theorem ofString_collision : Key.ofString "77kepQFQ8Kl" = Key.ofString "!0IC=VloaY" := by
  decide +kernel

def collidingEdits : List Edit :=
  [.set "77kepQFQ8Kl" (.ofInt 1), .set "!0IC=VloaY" (.ofInt 2)]

/-- The first text was set to 1 and never touched again, but now it stands for 2; two
texts are set, but the length is 1. -/
theorem texts_conflated :
    ∃ τ, callAll (evaluator 1) ⟨0⟩ collidingEdits default ((default : Store).newDict .empty).2 =
        .done (.ok ()) default τ ∧
      Method.call (evaluator 1) (.hash ⟨0⟩) "get" [.ofString "77kepQFQ8Kl"] default τ =
        .done (.ok (.ofInt 2)) default τ ∧
      standing id collidingEdits "77kepQFQ8Kl" = some (.ofInt 1) ∧
      Method.call (evaluator 1) (.hash ⟨0⟩) "len" [] default τ =
        .done (.ok (.ofLength 1)) default τ ∧
      (standingNames id collidingEdits).length = 2 := by
  let σ : Store := ((default : Store).newDict .empty).2
  have hdict : (collidingEdits.foldl (fun σ e => σ.modifyDict ⟨0⟩ e.apply) σ).dict ⟨0⟩ =
      made collidingEdits := dict_foldl
  have hstanding : standing Key.ofString collidingEdits (.ofString "77kepQFQ8Kl") =
      some (.ofInt 2) := by
    change (if Key.ofString "!0IC=VloaY" = Key.ofString "77kepQFQ8Kl" then some (Value.ofInt 2)
      else _) = _
    rw [if_pos ofString_collision.symm]
  have hnames : (standingNames Key.ofString collidingEdits).length = 1 := by
    have hkeys : (collidingEdits.map fun e => Key.ofString e.text) =
        [.ofString "77kepQFQ8Kl", .ofString "77kepQFQ8Kl"] := by
      change [Key.ofString "77kepQFQ8Kl", Key.ofString "!0IC=VloaY"] = _
      rw [ofString_collision]
    unfold standingNames
    rw [hkeys, List.dedup_cons_of_mem List.mem_cons_self, (List.nodup_singleton _).dedup,
      List.filter_singleton, hstanding]
    rfl
  refine ⟨_, callAll_eq, ?_, rfl, ?_, rfl⟩
  · rw [get_eq, hdict, value_made, hstanding]
    rfl
  · rw [len_eq, hdict, size_made, hnames]

end Edit
end TreeWalk
