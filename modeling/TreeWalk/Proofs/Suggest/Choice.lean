/-
Which candidate is chosen.

The candidates are gone through twice, and each time the best one seen so far is kept.
Both passes are minima: `closest` is the least candidate by distance and then by the
alphabet, `firstExtension` by the alphabet alone.  No two texts are equal in these orders,
so a minimum depends on nothing but which texts there are.

Only candidates that differ little from the name in bytes are measured, while the limit
on the distance comes from the characters of the name.  For ASCII the two agree; in other
scripts a candidate that is near enough may not be measured at all.
-/
import Mathlib.Data.List.MinMax
import Mathlib.Data.Prod.Lex
import Mathlib.Data.String.Basic
import TreeWalk.Proofs.Suggest.Distance

namespace TreeWalk
namespace Suggest

variable {name text c : String} {limit : Nat} {candidates : List String}

/-! ## Minima -/

section Least

variable {α β : Type}

/-- An entry with a property that comes before all others with it; none if nothing has the
property. -/
def Least (before : α → α → Prop) (p : α → Prop) : Option α → Prop
  | none => ∀ a, ¬ p a
  | some a => p a ∧ ∀ b, p b → before a b

variable [LinearOrder β] {f : α → β}

theorem least_argmin (f : α → β) (l : List α) :
    Least (fun a b => f a ≤ f b) (· ∈ l) (l.argmin f) := by
  cases h : l.argmin f with
  | none =>
    rw [List.argmin_eq_none.mp h]
    exact fun _ => List.not_mem_nil
  | some a => exact ⟨List.argmin_mem h, fun b hb => List.le_of_mem_argmin hb h⟩

/-- Where no two entries are equal in the order, there is one least entry. -/
theorem Least.unique (hf : Function.Injective f) {p : α → Prop} {o o' : Option α}
    (h : Least (fun a b => f a ≤ f b) p o) (h' : Least (fun a b => f a ≤ f b) p o') : o = o' := by
  cases o with
  | none =>
    cases o' with
    | none => rfl
    | some a => exact absurd h'.1 (h a)
  | some a =>
    cases o' with
    | none => exact absurd h.1 (h' a)
    | some b => rw [hf (le_antisymm (h.2 b h'.1) (h'.2 a h.1))]

/-- The least entry of a list is told by its members. -/
theorem argmin_congr (hf : Function.Injective f) {l l' : List α} (h : ∀ a, a ∈ l ↔ a ∈ l') :
    l.argmin f = l'.argmin f := by
  have hmem : (· ∈ l) = (· ∈ l') := funext fun a => propext (h a)
  exact Least.unique hf (hmem ▸ least_argmin f l) (least_argmin f l')

end Least

/-- How far a candidate is from a name, and then where it stands in the alphabet. -/
def rank (name c : String) : Nat ×ₗ String := toLex (editDistance name c, c)

theorem rank_injective (name : String) : Function.Injective (rank name) := fun _ _ h =>
  congrArg Prod.snd (toLex.injective h)

theorem rank_le_iff : rank name text ≤ rank name c ↔ editDistance name text < editDistance name c ∨
    editDistance name text = editDistance name c ∧ text ≤ c := Prod.Lex.le_iff

/-- A candidate that is measured, and found near enough. -/
def Measured (name : String) (limit : Nat) (c : String) : Prop :=
  sizeGap name c ≤ limit ∧ editDistance name c ≤ limit

instance : DecidablePred (Measured name limit) := fun _ => inferInstanceAs (Decidable (_ ∧ _))

/-- A candidate with its distance. -/
def scored (name c : String) : String × Nat := (c, editDistance name c)

theorem improves_iff :
    improves (some (scored name text)) c (editDistance name c) = true ↔ rank name c < rank name text := by
  rw [rank, rank, Prod.Lex.lt_iff]
  exact decide_eq_true_iff

/-- What the search for the closest candidate does with one more. -/
def weigh (name : String) (limit : Nat) (best : Option (String × Nat)) (c : String) :
    Option (String × Nat) :=
  if sizeGap name c ≤ limit then
    let d := editDistance name c
    if d ≤ limit ∧ improves best c d then some (c, d) else best
  else best

theorem weigh_scored (best : Option String) : weigh name limit (best.map (scored name)) c =
    (if Measured name limit c then List.argAux (fun a b => rank name a < rank name b) best c
      else best).map (scored name) := by
  by_cases h : Measured name limit c
  · rw [if_pos h, weigh, if_pos h.1]
    cases best with
    | none => exact if_pos ⟨h.2, rfl⟩
    | some text =>
      show (if editDistance name c ≤ limit ∧
        improves (some (scored name text)) c (editDistance name c) = true
        then some (scored name c) else some (scored name text)) = Option.map (scored name)
          (if rank name c < rank name text then some c else some text)
      simp only [h.2, true_and, improves_iff, apply_ite (Option.map (scored name)), Option.map_some]
  · rw [if_neg h]
    by_cases hgap : sizeGap name c ≤ limit
    · rw [weigh, if_pos hgap]
      exact if_neg fun hnear => h ⟨hgap, hnear.1⟩
    · rw [weigh, if_neg hgap]

/-- The closest candidate is the least of those that are measured. -/
theorem closest_eq : closest name limit candidates =
    ((candidates.filter (Measured name limit ·)).argmin (rank name)).map (scored name) := by
  have hpass : closest name limit candidates =
      candidates.foldl (weigh name limit) ((none : Option String).map (scored name)) := rfl
  rw [hpass, List.argmin, List.foldl_filter]
  refine List.foldl_hom _ fun best c => ?_
  rw [weigh_scored]
  simp only [decide_eq_true_eq]

theorem firstExtension_eq :
    firstExtension name candidates = (candidates.filter (beginsAlike name)).argmin id := by
  unfold firstExtension List.argmin
  congr 1
  funext best c
  cases best <;> rfl

/-- The texts that may be suggested. -/
def others (name : String) (candidates : List String) : List String :=
  candidates.filter fun c => c ≠ name ∧ c ≠ ""

theorem mem_others : c ∈ others name candidates ↔ c ∈ candidates ∧ c ≠ name ∧ c ≠ "" := by
  simp only [others, List.mem_filter, decide_eq_true_eq]

theorem similar_eq (hname : name ≠ "") : similar name candidates =
    (((others name candidates).filter (Measured name (threshold name.length) ·)).argmin (rank name)).or
      (if 2 ≤ name.utf8ByteSize then ((others name candidates).filter (beginsAlike name)).argmin id
        else none) := by
  have hsimilar : similar name candidates =
      ((closest name (threshold name.length) (others name candidates)).map Prod.fst).or
        (if 2 ≤ name.utf8ByteSize then firstExtension name (others name candidates) else none) := by
    rw [similar, if_neg hname, others]
    dsimp only
    cases closest name (threshold name.length) (candidates.filter fun c => c ≠ name ∧ c ≠ "") with
    | none => rfl
    | some best => rfl
  rw [hsimilar, closest_eq, firstExtension_eq, Option.map_map]
  exact congrArg (Option.or · _) Option.map_id'

/-! ## The order of the candidates -/

/-- A suggestion is told by which candidates there are, whatever their order and however
often each of them comes. -/
theorem similar_congr {candidates' : List String} (h : ∀ c, c ∈ candidates ↔ c ∈ candidates') :
    similar name candidates = similar name candidates' := by
  by_cases hname : name = ""
  · rw [similar, similar, if_pos hname, if_pos hname]
  · have hothers : ∀ c, c ∈ others name candidates ↔ c ∈ others name candidates' := fun c => by
      rw [mem_others, mem_others, h]
    have hfilter : ∀ (p : String → Bool) c, c ∈ (others name candidates).filter p ↔
        c ∈ (others name candidates').filter p := fun p c => by
      rw [List.mem_filter, List.mem_filter, hothers]
    rw [similar_eq hname, similar_eq hname, argmin_congr (rank_injective name) (hfilter _),
      argmin_congr Function.injective_id (hfilter _)]

theorem mem_others_of_similar (h : similar name candidates = some text) : text ∈ others name candidates := by
  have hname : name ≠ "" := fun hname => by
    rw [similar, if_pos hname] at h
    cases h
  rw [similar_eq hname] at h
  rcases Option.or_eq_some_iff.mp h with h | ⟨_, h⟩
  · exact (List.mem_filter.mp (List.argmin_mem h)).1
  · split at h
    · exact (List.mem_filter.mp (List.argmin_mem h)).1
    · cases h

/-! ## The choice -/

/-- Whether one candidate is closer to a name than another, or as close and not later in
the alphabet. -/
def Closer (name a b : String) : Prop :=
  editDistance name a < editDistance name b ∨ editDistance name a = editDistance name b ∧ a ≤ b

/-- What is to be suggested for a name, if `near` tells which texts are near enough to it:
the closest candidate that is near enough; if there is none, the first of those that begin
with the name or that the name begins with, unless the name is a single byte. -/
structure Chosen (name : String) (candidates : List String) (near : String → Prop)
    (suggestion : Option String) : Prop where
  closest : (∃ c ∈ others name candidates, near c) →
    Least (Closer name) (fun c => c ∈ others name candidates ∧ near c) suggestion
  extension : (∀ c ∈ others name candidates, ¬ near c) → 2 ≤ name.utf8ByteSize →
    Least (· ≤ ·) (fun c => c ∈ others name candidates ∧
      (c.toList <+: name.toList ∨ name.toList <+: c.toList)) suggestion
  neither : (∀ c ∈ others name candidates, ¬ near c) → ¬ 2 ≤ name.utf8ByteSize → suggestion = none

theorem beginsAlike_iff : beginsAlike name c = true ↔ c.toList <+: name.toList ∨ name.toList <+: c.toList := by
  rw [beginsAlike, Bool.or_eq_true, List.isPrefixOf_iff_prefix, List.isPrefixOf_iff_prefix]

/-- The choice is right among the candidates that are measured. -/
theorem chosen_measured (hname : name ≠ "") :
    Chosen name candidates (Measured name (threshold name.length)) (similar name candidates) := by
  have hclosest := least_argmin (rank name)
    ((others name candidates).filter (Measured name (threshold name.length) ·))
  have hextension := least_argmin id ((others name candidates).filter (beginsAlike name))
  simp only [List.mem_filter, decide_eq_true_eq, rank_le_iff] at hclosest
  simp only [List.mem_filter, beginsAlike_iff, id] at hextension
  have hsimilar : similar name candidates = _ := similar_eq hname
  have hnone : (∀ c ∈ others name candidates, ¬ Measured name (threshold name.length) c) →
      similar name candidates = if 2 ≤ name.utf8ByteSize
        then ((others name candidates).filter (beginsAlike name)).argmin id else none := by
    intro hfar
    rw [hsimilar, List.filter_eq_nil_iff.mpr fun c hc => by simpa using hfar c hc, List.argmin_nil]
    rfl
  constructor
  · rintro ⟨c, hc, hnear⟩
    cases h : ((others name candidates).filter
        (Measured name (threshold name.length) ·)).argmin (rank name) with
    | none =>
      rw [h] at hclosest
      exact absurd ⟨hc, hnear⟩ (hclosest c)
    | some text =>
      rw [h] at hclosest hsimilar
      rw [hsimilar]
      exact hclosest
  · intro hfar htwo
    rw [hnone hfar, if_pos htwo]
    exact hextension
  · intro hfar hone
    rw [hnone hfar, if_neg hone]

/-! ## Candidates that are not measured -/

/-- A text of ASCII characters only. -/
def Ascii (s : String) : Prop := ∀ c ∈ s.toList, c.val ≤ 127

instance : DecidablePred Ascii := fun s => List.decidableBAll _ s.toList

theorem utf8ByteSize_of_ascii {s : String} (h : Ascii s) : s.utf8ByteSize = s.length := by
  induction s using String.push_induction with
  | empty => rfl
  | push s c ih =>
    unfold Ascii at h ih
    rw [String.toList_push] at h
    have hs : s.utf8ByteSize = s.length := ih fun d hd => h d (List.mem_append_left _ hd)
    have hc : c.utf8Size = 1 := Char.utf8Size_eq_one_iff.mpr (h c (List.mem_append_right _ List.mem_cons_self))
    rw [String.utf8ByteSize_push, String.length_push, hs, hc]

/-- ASCII candidates that are near enough are measured. -/
theorem sizeGap_le_editDistance (hname : Ascii name) (hc : Ascii c) : sizeGap name c ≤ editDistance name c := by
  have h := length_sub_le_editDistance name c
  unfold sizeGap
  rw [utf8ByteSize_of_ascii hname, utf8ByteSize_of_ascii hc]
  omega

/-- The choice is right if every candidate that is near enough is near enough in bytes as
well, as it always is in ASCII. -/
theorem similar_is_closest (hname : name ≠ "") (hbytes : ∀ c ∈ others name candidates,
      Ascii name ∧ Ascii c ∨ (editDistance name c ≤ threshold name.length →
        sizeGap name c ≤ threshold name.length)) :
    Chosen name candidates (fun c => editDistance name c ≤ threshold name.length)
      (similar name candidates) := by
  have hmeasured : ∀ c ∈ others name candidates,
      (Measured name (threshold name.length) c ↔ editDistance name c ≤ threshold name.length) := by
    refine fun c hc => ⟨fun h => h.2, fun hnear => ⟨?_, hnear⟩⟩
    rcases hbytes c hc with ⟨hascii, hascii'⟩ | h
    · exact Nat.le_trans (sizeGap_le_editDistance hascii hascii') hnear
    · exact h hnear
  obtain ⟨hclosest, hextension, hneither⟩ := @chosen_measured name candidates hname
  constructor
  · rintro ⟨c, hc, hnear⟩
    have hleast := hclosest ⟨c, hc, (hmeasured c hc).mpr hnear⟩
    simpa only [and_congr_right (hmeasured _)] using hleast
  · exact fun hfar => hextension fun c hc h => hfar c hc ((hmeasured c hc).mp h)
  · exact fun hfar => hneither fun c hc h => hfar c hc ((hmeasured c hc).mp h)

/-- Of the texts that are near enough the closest is chosen; one in another script is too
far away to matter. -/
theorem similar_is_closest_println : Chosen "prinln" ["print", "日本", "println"]
    (fun c => editDistance "prinln" c ≤ threshold "prinln".length) (some "println") :=
  similar_is_closest (by decide) (by decide)

/-- The candidate is one edit away, and the name of two characters allows one; but it is
three bytes shorter. -/
theorem near_candidate_missed : ¬ Chosen "日本" ["本"]
    (fun c => editDistance "日本" c ≤ threshold "日本".length) (similar "日本" ["本"]) := by
  intro h
  have hleast := h.closest ⟨"本", by decide⟩
  exact hleast "本" (by decide)

end Suggest
end TreeWalk
