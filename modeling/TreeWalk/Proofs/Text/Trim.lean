/-
White space around a text.

A set of characters is kept as the points at which membership changes, so its members
stand in runs: from one change up to the next.  For white space these are the runs that
Unicode lists.  Trimming takes white space away at both ends up to the first and the last
other character.
-/
import TreeWalk.Proofs.Sorted
import TreeWalk.Text.Search

namespace TreeWalk

namespace CharSet

/-- The runs between the changes of a set: where each begins, and where it has ended. -/
def runs : List Nat → List (Nat × Nat)
  | first :: stop :: changes => (first, stop) :: runs changes
  | _ => []

/-- A point has an odd number of changes up to it where it lies in a run. -/
theorem odd_countP_iff {changes : List Nat} (hmono : changes.Pairwise (· < ·))
    (heven : changes.length % 2 = 0) (n : Nat) :
    changes.countP (· ≤ n) % 2 = 1 ↔ ∃ run ∈ runs changes, run.1 ≤ n ∧ n < run.2 := by
  fun_induction runs changes with
  | case1 first stop changes ih =>
    obtain ⟨hfirst, hmono⟩ := List.pairwise_cons.mp hmono
    obtain ⟨hstop, hmono⟩ := List.pairwise_cons.mp hmono
    have hlt : first < stop := hfirst stop List.mem_cons_self
    have hlength : changes.length % 2 = 0 := by
      simp only [List.length_cons] at heven
      omega
    simp only [List.countP_cons, List.mem_cons, exists_eq_or_imp, ← ih hmono hlength,
      decide_eq_true_eq]
    by_cases hn : stop ≤ n
    · simp only [hn, if_true, show first ≤ n by omega]
      omega
    · have hnone : changes.countP (· ≤ n) = 0 := by
        rw [List.countP_eq_zero]
        intro a ha
        have hgt := hstop a ha
        simp only [decide_eq_true_eq]
        omega
      by_cases hn' : first ≤ n
      · simp [hnone, hn, hn', Nat.lt_of_not_le hn]
      · simp [hnone, hn, hn']
  | case2 changes hshort =>
    cases changes with
    | nil => simp
    | cons first rest =>
      cases rest with
      | nil => simp at heven
      | cons stop rest => exact absurd rfl (hshort first stop rest)

theorem hasPoint_iff {s : CharSet} (hmono : Sorted.Increasing s.changes)
    (heven : s.changes.size % 2 = 0) (n : Nat) :
    s.hasPoint n = true ↔ ∃ run ∈ runs s.changes.toList, run.1 ≤ n ∧ n < run.2 := by
  rw [hasPoint, decide_eq_true_eq, Sorted.countUpTo_eq_countP hmono]
  exact odd_countP_iff hmono heven n

end CharSet

namespace CharClass

/-- The runs of white space that Unicode lists, with where each has ended. -/
def whiteRuns : List (Nat × Nat) :=
  [(0x9, 0xE), (0x20, 0x21), (0x85, 0x86), (0xA0, 0xA1), (0x1680, 0x1681), (0x2000, 0x200B),
    (0x2028, 0x202A), (0x202F, 0x2030), (0x205F, 0x2060), (0x3000, 0x3001)]

theorem isBlank_iff {c : Char} :
    isBlank c = true ↔ ∃ run ∈ whiteRuns, run.1 ≤ c.toNat ∧ c.toNat < run.2 := by
  have hchanges : whiteSpace.changes = (whiteRuns.flatMap fun run => [run.1, run.2]).toArray := rfl
  have hmono : Sorted.Increasing whiteSpace.changes := by
    rw [hchanges]
    exact (by decide : List.Pairwise (· < ·) (whiteRuns.flatMap fun run => [run.1, run.2]))
  have hruns : CharSet.runs whiteSpace.changes.toList = whiteRuns := by
    rw [hchanges]
    rfl
  rw [← hruns]
  exact CharSet.hasPoint_iff hmono (by rw [hchanges]; rfl) c.toNat

theorem isBlank_eq_false_iff {c : Char} :
    isBlank c = false ↔ ¬ ∃ run ∈ whiteRuns, run.1 ≤ c.toNat ∧ c.toNat < run.2 := by
  rw [← isBlank_iff, Bool.not_eq_true]

end CharClass

namespace Search

open CharClass

variable {before core after text : List Char}

/-- Trimming takes white space away up to the first and the last other character. -/
theorem trim_surrounded (hbefore : ∀ c ∈ before, isBlank c = true)
    (hafter : ∀ c ∈ after, isBlank c = true) (hcore : ∀ c ∈ core, isBlank c = false)
    (hne : core ≠ []) : trim (before ++ (core ++ after)) = core := by
  have keeps : ∀ {cs rest : List Char}, cs ≠ [] → (∀ c ∈ cs, isBlank c = false) →
      (cs ++ rest).dropWhile isBlank = cs ++ rest := by
    intro cs rest hne hcs
    cases cs with
    | nil => exact absurd rfl hne
    | cons c cs =>
      rw [List.cons_append, List.dropWhile_cons_of_neg]
      simp [hcs c List.mem_cons_self]
  have hfront : (before ++ (core ++ after)).dropWhile isBlank = core ++ after := by
    rw [List.dropWhile_append_of_pos hbefore, keeps hne hcore]
  have hback : (after.reverse ++ core.reverse).dropWhile isBlank = core.reverse := by
    rw [List.dropWhile_append_of_pos (by simpa using hafter), ← List.append_nil core.reverse,
      keeps (by simpa using hne) (by simpa using hcore)]
  rw [trim, hfront, List.reverse_append, hback, List.reverse_reverse]

/-- What is trimmed off is white space. -/
theorem exists_surrounded (text : List Char) :
    ∃ before after, text = before ++ (trim text ++ after) ∧
    (∀ c ∈ before, isBlank c = true) ∧ ∀ c ∈ after, isBlank c = true := by
  have blank : ∀ {cs : List Char}, ∀ c ∈ cs.takeWhile isBlank, isBlank c = true := by
    intro cs c hc
    exact List.all_eq_true.mp List.all_takeWhile c hc
  let inner := text.dropWhile isBlank
  refine ⟨text.takeWhile isBlank, (inner.reverse.takeWhile isBlank).reverse, ?_, blank, ?_⟩
  · have hinner : trim text ++ (inner.reverse.takeWhile isBlank).reverse = inner := by
      show (inner.reverse.dropWhile isBlank).reverse ++ _ = inner
      rw [← List.reverse_append, List.takeWhile_append_dropWhile, List.reverse_reverse]
    rw [hinner, List.takeWhile_append_dropWhile]
  · intro c hc
    exact blank c (List.mem_reverse.mp hc)

end Search
end TreeWalk
