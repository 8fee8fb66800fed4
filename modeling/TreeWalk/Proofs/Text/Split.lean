/-
Splitting, joining and replacing.

A text is cut at a separator where the separator occurs first, and what follows that
occurrence is cut in the same way.  `Cut` says so, and `split` cuts a text like this.
That joining undoes splitting, that no part contains the separator, that replacing is
splitting and joining, and how many parts there are is read off the way a text is cut.
-/
import Mathlib.Data.List.Sort
import TreeWalk.Proofs.Text.Search

namespace TreeWalk
namespace Search

variable {separator text part rest cs old new needle : List Char} {parts : List (List Char)}
  {c : Char}

/-! ## Cutting -/

/-- A text and its parts between the occurrences of a separator, each the first one in what
is left of the text. -/
inductive Cut (separator : List Char) : List Char → List (List Char) → Prop
  | last {part : List Char} (h : ¬ separator <:+: part) : Cut separator part [part]
  | next {part rest : List Char} {parts : List (List Char)}
      (hfirst : FirstAt separator (part ++ (separator ++ rest)) part.length)
      (h : Cut separator rest parts) : Cut separator (part ++ (separator ++ rest)) (part :: parts)

theorem splitFrom_skip (part : List Char) (skip : Nat) (cs : List Char) :
    splitFrom separator part skip cs = splitFrom separator part 0 (cs.drop skip) := by
  induction skip generalizing cs with
  | zero => rfl
  | succ skip ih =>
    cases cs with
    | nil => rfl
    | cons c cs =>
      rw [splitFrom, List.drop_succ_cons]
      exact ih cs

theorem splitFrom_separator (hne : separator ≠ []) : splitFrom separator part 0 (separator ++ rest) =
    part.reverse :: splitFrom separator [] 0 rest := by
  obtain ⟨c, more, rfl⟩ := List.exists_cons_of_ne_nil hne
  have hstarts : (c :: more).isPrefixOf (c :: (more ++ rest)) = true :=
    List.isPrefixOf_iff_prefix.mpr (List.prefix_append (c :: more) rest)
  rw [List.cons_append, splitFrom, if_pos hstarts, splitFrom_skip, List.length_cons,
    Nat.add_sub_cancel, List.drop_left]

theorem splitFrom_other (h : ¬ separator <+: c :: cs) :
    splitFrom separator part 0 (c :: cs) = splitFrom separator (c :: part) 0 cs := by
  rw [splitFrom, if_neg (mt List.isPrefixOf_iff_prefix.mp h)]

/-- Where no part has been read, nothing stands in it. -/
theorem not_occursAt_before : ∀ i < ([] : List Char).length,
    ¬ OccursAt separator (([] : List Char).reverse ++ cs) i := nofun

/-- The induction is on what is left; the part read so far holds no place of the separator. -/
theorem cut_splitFrom (hne : separator ≠ [])
    (h : ∀ i < part.length, ¬ OccursAt separator (part.reverse ++ cs) i) :
    Cut separator (part.reverse ++ cs) (splitFrom separator part 0 cs) := by
  induction hn : cs.length using Nat.strong_induction_on generalizing part cs with
  | h n ih =>
    cases cs with
    | nil =>
      rw [List.append_nil] at h ⊢
      refine .last fun hin => ?_
      obtain ⟨i, hi⟩ := isInfix_iff_occursAt.mp hin
      have hle := hi.add_length_le
      have hpos := List.length_pos_iff.mpr hne
      rw [List.length_reverse] at hle
      exact h i (by omega) hi
    | cons c cs =>
      by_cases hp : separator <+: c :: cs
      · obtain ⟨rest, hrest⟩ := hp
        have hpos := List.length_pos_iff.mpr hne
        have hlength := congrArg List.length hrest
        rw [List.length_append] at hlength
        rw [← hrest] at h ⊢
        rw [splitFrom_separator hne]
        refine .next ⟨occursAt_length.mpr (List.prefix_append _ _), ?_⟩
          (ih rest.length (by omega) not_occursAt_before rfl)
        rw [List.length_reverse]
        exact h
      · have happend : part.reverse ++ c :: cs = (c :: part).reverse ++ cs := by
          rw [List.reverse_cons, List.append_assoc]
          rfl
        have hplace : ¬ OccursAt separator (part.reverse ++ c :: cs) part.length := by
          rw [← List.length_reverse, occursAt_length]
          exact hp
        rw [splitFrom_other hp]
        rw [happend] at h hplace ⊢
        refine ih cs.length (by rw [← hn]; exact Nat.lt_succ_self _) (fun i hi => ?_) rfl
        rcases Nat.lt_succ_iff_lt_or_eq.mp hi with hlt | rfl
        · exact h i hlt
        · exact hplace

/-- Splitting cuts a text. -/
theorem cut_split (hne : separator ≠ []) (text : List Char) :
    Cut separator text (split separator text) := by
  rw [split, if_neg hne]
  exact cut_splitFrom hne not_occursAt_before

namespace Cut

theorem ne_nil (h : Cut separator text parts) : parts ≠ [] := by
  cases h with
  | last => exact List.cons_ne_nil _ _
  | next => exact List.cons_ne_nil _ _

/-- Joining the parts gives the text back. -/
theorem intercalate (h : Cut separator text parts) : separator.intercalate parts = text := by
  induction h with
  | last => exact List.intercalate_singleton
  | next _ h ih => rw [List.intercalate_cons_of_ne_nil h.ne_nil, ih, List.append_assoc]

/-- No part contains the separator: it would occur before its first place. -/
theorem free_of_separator (hne : separator ≠ []) (h : Cut separator text parts) :
    ∀ part ∈ parts, ¬ separator <:+: part := by
  induction h with
  | last h =>
    intro part hpart
    rwa [List.mem_singleton.mp hpart]
  | @next first rest parts hfirst _ ih =>
    intro part hpart hin
    rcases List.mem_cons.mp hpart with rfl | hpart
    · obtain ⟨i, hi⟩ := isInfix_iff_occursAt.mp hin
      have hle := hi.add_length_le
      have hpos := List.length_pos_iff.mpr hne
      refine hfirst.2 i (by omega) ⟨?_, ?_⟩
      · rw [List.length_append]
        exact Nat.le_add_right_of_le hi.1
      · rw [List.drop_append_of_le_length hi.1]
        exact hi.2.trans (List.prefix_append _ _)
    · exact ih part hpart hin

end Cut

/-- The characters of a text, with nothing between them. -/
theorem intercalate_singletons (text : List Char) :
    ([] : List Char).intercalate (text.map ([·])) = text := by
  induction text with
  | nil => rfl
  | cons c text ih =>
    cases text with
    | nil => rfl
    | cons d text =>
      have hmore : (d :: text).map ([·]) ≠ [] := List.cons_ne_nil _ _
      rw [List.map_cons, List.intercalate_cons_of_ne_nil hmore, ih]
      rfl

/-- What is split is joined again, whatever the separator is. -/
theorem intercalate_split (separator text : List Char) :
    separator.intercalate (split separator text) = text := by
  by_cases hne : separator = []
  · rw [split, if_pos hne, hne, intercalate_singletons]
  · exact (cut_split hne text).intercalate

/-! ## Replacing -/

theorem replaceFrom_skip (skip : Nat) (cs : List Char) :
    replaceFrom old new skip cs = replaceFrom old new 0 (cs.drop skip) := by
  induction skip generalizing cs with
  | zero => rfl
  | succ skip ih =>
    cases cs with
    | nil => rfl
    | cons c cs =>
      rw [replaceFrom, List.drop_succ_cons]
      exact ih cs

theorem replaceFrom_old (hne : old ≠ []) :
    replaceFrom old new 0 (old ++ rest) = new ++ replaceFrom old new 0 rest := by
  obtain ⟨c, more, rfl⟩ := List.exists_cons_of_ne_nil hne
  have hstarts : (c :: more).isPrefixOf (c :: (more ++ rest)) = true :=
    List.isPrefixOf_iff_prefix.mpr (List.prefix_append (c :: more) rest)
  rw [List.cons_append, replaceFrom, if_pos hstarts, replaceFrom_skip, List.length_cons,
    Nat.add_sub_cancel, List.drop_left]

theorem replaceFrom_other (h : ¬ old <+: c :: cs) :
    replaceFrom old new 0 (c :: cs) = c :: replaceFrom old new 0 cs := by
  rw [replaceFrom, if_neg (mt List.isPrefixOf_iff_prefix.mp h)]

/-- Nothing is replaced where nothing is found. -/
theorem replaceFrom_of_absent (h : ¬ old <:+: text) : replaceFrom old new 0 text = text := by
  induction text with
  | nil => rfl
  | cons c cs ih =>
    rw [List.infix_cons_iff, not_or] at h
    rw [replaceFrom_other h.1, ih h.2]

/-- The first occurrence is replaced, and then what follows it is gone through. -/
theorem replaceFrom_of_firstAt (hne : old ≠ [])
    (h : FirstAt old (part ++ (old ++ rest)) part.length) :
    replaceFrom old new 0 (part ++ (old ++ rest)) =
      part ++ (new ++ replaceFrom old new 0 rest) := by
  induction part with
  | nil => exact replaceFrom_old hne
  | cons c part ih =>
    rw [List.cons_append] at h ⊢
    obtain ⟨hstarts, hfirst⟩ := firstAt_succ.mp h
    rw [replaceFrom_other hstarts, ih hfirst, List.cons_append]

/-- Replacing is joining the parts with something else. -/
theorem Cut.replaceFrom_eq (hne : old ≠ []) (h : Cut old text parts) :
    replaceFrom old new 0 text = new.intercalate parts := by
  induction h with
  | last h => rw [replaceFrom_of_absent h, List.intercalate_singleton]
  | next hfirst h ih =>
    rw [replaceFrom_of_firstAt hne hfirst, ih, List.intercalate_cons_of_ne_nil h.ne_nil,
      List.append_assoc]

/-! ## Counting -/

/-- The places of the occurrences taken leftmost first, none of which overlap: every other
occurrence begins inside of one of them. -/
structure Leftmost (needle text : List Char) (places : List Nat) : Prop where
  sorted : places.Pairwise (· < ·)
  occurs : ∀ i ∈ places, OccursAt needle text i
  apart : ∀ i ∈ places, ∀ j ∈ places, i < j → i + needle.length ≤ j
  covered : ∀ j, OccursAt needle text j → ∃ i ∈ places, i ≤ j ∧ j < i + needle.length

namespace Leftmost

variable {places places' : List Nat}

/-- Whether an occurrence is taken is decided by those taken before it. -/
theorem mem_iff (h : Leftmost needle text places) {j : Nat} :
    j ∈ places ↔ OccursAt needle text j ∧ ∀ i ∈ places, i < j → i + needle.length ≤ j := by
  constructor
  · intro hj
    exact ⟨h.occurs j hj, fun i hi => h.apart i hi j hj⟩
  · rintro ⟨hj, hclear⟩
    obtain ⟨i, hi, hle, hlt⟩ := h.covered j hj
    rcases Nat.lt_or_eq_of_le hle with hless | rfl
    · exact absurd (hclear i hi hless) (Nat.not_le.mpr hlt)
    · exact hi

theorem unique (h : Leftmost needle text places) (h' : Leftmost needle text places') :
    places = places' := by
  refine h.sorted.eq_of_mem_iff h'.sorted fun j => ?_
  induction j using Nat.strong_induction_on with
  | h j ih =>
    rw [h.mem_iff, h'.mem_iff]
    refine and_congr_right fun _ => ⟨fun hclear i hi hlt => ?_, fun hclear i hi hlt => ?_⟩
    · exact hclear i ((ih i hlt).mpr hi) hlt
    · exact hclear i ((ih i hlt).mp hi) hlt

theorem nil (h : ¬ needle <:+: text) : Leftmost needle text [] where
  sorted := .nil
  occurs := nofun
  apart := nofun
  covered j hj := absurd (isInfix_iff_occursAt.mpr ⟨j, hj⟩) h

/-- The first occurrence is taken, and then those behind it. -/
theorem cons (hne : needle ≠ []) (hfirst : FirstAt needle (part ++ (needle ++ rest)) part.length)
    (h : Leftmost needle rest places) :
    Leftmost needle (part ++ (needle ++ rest))
      (part.length :: places.map (part.length + needle.length + ·)) := by
  have hpos := List.length_pos_iff.mpr hne
  have hbehind : ∀ i, OccursAt needle (part ++ (needle ++ rest))
      (part.length + needle.length + i) ↔ OccursAt needle rest i := by
    intro i
    rw [← List.append_assoc, ← List.length_append]
    exact occursAt_length_add
  have hmem : ∀ j, j ∈ part.length :: places.map (part.length + needle.length + ·) ↔
      j = part.length ∨ ∃ i ∈ places, j = part.length + needle.length + i := by
    intro j
    simp [eq_comm]
  constructor
  case sorted =>
    refine List.pairwise_cons.mpr ⟨fun j hj => ?_, ?_⟩
    · obtain ⟨i, -, rfl⟩ := List.mem_map.mp hj
      omega
    · exact h.sorted.map _ fun i j hij => Nat.add_lt_add_left hij _
  case occurs =>
    intro j hj
    rcases (hmem j).mp hj with rfl | ⟨i, hi, rfl⟩
    · exact hfirst.1
    · exact (hbehind i).mpr (h.occurs i hi)
  case apart =>
    intro i hi j hj hlt
    rcases (hmem i).mp hi with rfl | ⟨k, hk, rfl⟩ <;> rcases (hmem j).mp hj with rfl | ⟨l, hl, rfl⟩
    · omega
    · omega
    · omega
    · have hle := h.apart k hk l hl (by omega)
      omega
  case covered =>
    intro j hj
    rcases Nat.lt_or_ge j part.length with hlt | hge
    · exact absurd hj (hfirst.2 j hlt)
    rcases Nat.lt_or_ge j (part.length + needle.length) with hlt | hge'
    · exact ⟨part.length, (hmem _).mpr (.inl rfl), hge, hlt⟩
    · obtain ⟨i, rfl⟩ := Nat.exists_eq_add_of_le hge'
      obtain ⟨k, hk, hle, hlt⟩ := h.covered i ((hbehind i).mp hj)
      exact ⟨_, (hmem _).mpr (.inr ⟨k, hk, rfl⟩), by omega, by omega⟩

end Leftmost

/-- There is one part more than there are occurrences. -/
theorem Cut.exists_leftmost (hne : separator ≠ []) (h : Cut separator text parts) :
    ∃ places, Leftmost separator text places ∧ parts.length = places.length + 1 := by
  induction h with
  | last h => exact ⟨[], .nil h, rfl⟩
  | next hfirst _ ih =>
    obtain ⟨places, hplaces, hlength⟩ := ih
    refine ⟨_, .cons hne hfirst hplaces, ?_⟩
    rw [List.length_cons, List.length_cons, List.length_map, hlength]

end Search
end TreeWalk
