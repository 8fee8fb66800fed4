/-
Positions of byte offsets.

The table of a text lists where its lines begin: at its start, and one past each newline
byte.  The entries that do not exceed an offset are therefore one more than the newlines
before the offset, and the last of them is where the line of the offset begins, also for
an offset on a newline or past the end of the text.
-/
import Mathlib.Algebra.Group.Nat.Defs
import TreeWalk.Position
import TreeWalk.Proofs.Sorted

namespace TreeWalk

namespace Position

/-- An earlier line, or an earlier column of the same line. -/
def Before (p q : Position) : Prop := p.line < q.line ∨ p.line = q.line ∧ p.column < q.column

instance : DecidableRel Before := fun _ _ => inferInstanceAs (Decidable (_ ∨ _))

theorem Before.asymm {p q : Position} (h : p.Before q) : ¬ q.Before p := by
  unfold Before at h ⊢
  omega

theorem Before.irrefl (p : Position) : ¬ p.Before p := fun h => h.asymm h

end Position

namespace LineIndex

variable {bytes : List UInt8} {offset offset' start k : Nat}

/-! ## The table -/

/-- How many newline bytes stand at positions before an offset. -/
def newlinesBefore (bytes : List UInt8) (offset : Nat) : Nat := (bytes.take offset).count 10

/-- Where the line begins that an offset lies in: at the start of the text or just after a
newline, with no newline from there up to the offset. -/
structure BeginsAt (bytes : List UInt8) (offset start : Nat) : Prop where
  le : start ≤ offset
  after : start = 0 ∨ ∃ i, start = i + 1 ∧ bytes[i]? = some 10
  unbroken : ∀ i, start ≤ i → i < offset → bytes[i]? ≠ some 10

theorem mem_startsFrom :
    start ∈ startsFrom k bytes ↔ ∃ i, start = k + i + 1 ∧ bytes[i]? = some 10 := by
  induction bytes generalizing k with
  | nil => simp [startsFrom]
  | cons b bytes ih =>
    have hrest : start ∈ startsFrom (k + 1) bytes ↔
        ∃ i, start = k + (i + 1) + 1 ∧ (b :: bytes)[i + 1]? = some 10 := by
      simp only [ih, List.getElem?_cons_succ, Nat.add_right_comm k 1, Nat.add_assoc]
    constructor
    · intro h
      by_cases hb : b = 10
      · simp only [startsFrom, hb, if_true, List.mem_cons] at h
        rcases h with rfl | h
        · exact ⟨0, rfl, by simp [hb]⟩
        · obtain ⟨i, hi⟩ := hrest.mp h
          exact ⟨i + 1, hi⟩
      · simp only [startsFrom, hb, if_false] at h
        obtain ⟨i, hi⟩ := hrest.mp h
        exact ⟨i + 1, hi⟩
    · rintro ⟨i, rfl, hi⟩
      cases i with
      | zero =>
        have hb : b = 10 := by simpa using hi
        simp [startsFrom, hb]
      | succ i =>
        have hmem : k + (i + 1) + 1 ∈ startsFrom (k + 1) bytes := hrest.mpr ⟨i, rfl, hi⟩
        by_cases hb : b = 10
        · simp [startsFrom, hb, hmem]
        · simp [startsFrom, hb, hmem]

theorem lt_of_mem_startsFrom (h : start ∈ startsFrom k bytes) : k < start := by
  obtain ⟨i, rfl, -⟩ := mem_startsFrom.mp h
  omega

theorem pairwise_startsFrom : (startsFrom k bytes).Pairwise (· < ·) := by
  induction bytes generalizing k with
  | nil => exact List.Pairwise.nil
  | cons b bytes ih =>
    by_cases hb : b = 10
    · simp only [startsFrom, hb, if_true]
      exact List.Pairwise.cons (fun a ha => lt_of_mem_startsFrom ha) ih
    · simp only [startsFrom, hb, if_false]
      exact ih

theorem increasing_starts : Sorted.Increasing (ofBytes bytes).starts :=
  List.Pairwise.cons (fun _ ha => lt_of_mem_startsFrom ha) pairwise_startsFrom

theorem mem_starts : start ∈ (ofBytes bytes).starts.toList ↔
    start = 0 ∨ ∃ i, start = i + 1 ∧ bytes[i]? = some 10 := by
  show start ∈ 0 :: startsFrom 0 bytes ↔ _
  simp only [List.mem_cons, mem_startsFrom, Nat.zero_add]

theorem countP_startsFrom :
    (startsFrom k bytes).countP (· ≤ offset) = (bytes.take (offset - k)).count 10 := by
  induction bytes generalizing k with
  | nil => simp [startsFrom]
  | cons b bytes ih =>
    by_cases hk : k < offset
    · have htake : (b :: bytes).take (offset - k) = b :: bytes.take (offset - (k + 1)) := by
        rw [show offset - k = offset - (k + 1) + 1 by omega, List.take_succ_cons]
      rw [htake]
      by_cases hb : b = 10
      · simp [startsFrom, hb, ih, show k + 1 ≤ offset by omega]
      · simp [startsFrom, hb, ih]
    · rw [show offset - k = 0 by omega, List.take_zero, List.count_nil, List.countP_eq_zero]
      intro a ha
      have hlt : k < a := lt_of_mem_startsFrom ha
      simp only [decide_eq_true_eq]
      omega

theorem length_startsFrom : (startsFrom k bytes).length = bytes.count 10 := by
  induction bytes generalizing k with
  | nil => rfl
  | cons b bytes ih =>
    by_cases hb : b = 10
    · simp [startsFrom, hb, ih]
    · simp [startsFrom, hb, ih]

/-! ## Positions -/

/-- Without a table all offsets lie in one line. -/
theorem position_default (offset : Nat) :
    (default : LineIndex).position offset = ⟨1, offset + 1⟩ := by
  have hsearch : Sorted.search #[] offset = .error 0 := by
    simp [Sorted.search, Sorted.searchFrom]
  have hline : (⟨#[]⟩ : LineIndex).lineOf offset = 0 := by simp only [lineOf, hsearch]
  show (⟨#[]⟩ : LineIndex).position offset = _
  simp [position, hline]

theorem countP_starts :
    (ofBytes bytes).starts.toList.countP (· ≤ offset) = newlinesBefore bytes offset + 1 := by
  show (0 :: startsFrom 0 bytes).countP (· ≤ offset) = _
  rw [List.countP_cons_of_pos (by simp), countP_startsFrom, Nat.sub_zero]
  rfl

/-- A search for an offset ends at its line or just behind, and the lines from there on
start later. -/
theorem between_lineOf : Sorted.Between (ofBytes bytes).starts offset
    ((ofBytes bytes).lineOf offset + 1) ((ofBytes bytes).lineOf offset + 1) := by
  have hfound : Sorted.Found (ofBytes bytes).starts offset _ := Sorted.found_search increasing_starts
  unfold lineOf
  split
  · next line heq =>
    rw [heq] at hfound
    exact hfound.2
  · next line heq =>
    rw [heq] at hfound
    have hline := hfound.countP_eq
    rw [countP_starts] at hline
    rwa [show line - 1 + 1 = line by omega]

theorem lineOf_eq : (ofBytes bytes).lineOf offset = newlinesBefore bytes offset := by
  have hcount := (between_lineOf : Sorted.Between (ofBytes bytes).starts offset _ _).countP_eq
  rw [countP_starts] at hcount
  omega

theorem line_position :
    ((ofBytes bytes).position offset).line = newlinesBefore bytes offset + 1 :=
  congrArg (· + 1) lineOf_eq

theorem newlinesBefore_mono (h : offset ≤ offset') :
    newlinesBefore bytes offset ≤ newlinesBefore bytes offset' :=
  (List.take_sublist_take_left h).count_le 10

/-- The entry that the line of an offset has in the table. -/
def startOf (bytes : List UInt8) (offset : Nat) : Nat :=
  (ofBytes bytes).starts.getD (newlinesBefore bytes offset) 0

theorem column_position :
    ((ofBytes bytes).position offset).column = offset - startOf bytes offset + 1 := by
  show offset - (ofBytes bytes).starts.getD ((ofBytes bytes).lineOf offset) 0 + 1 = _
  rw [lineOf_eq]
  rfl

theorem beginsAt_startOf : BeginsAt bytes offset (startOf bytes offset) := by
  have hmono : Sorted.Increasing (ofBytes bytes).starts := increasing_starts
  have hbetween : Sorted.Between (ofBytes bytes).starts offset _ _ := between_lineOf
  rw [lineOf_eq] at hbetween
  have hin : newlinesBefore bytes offset < (ofBytes bytes).starts.size := hbetween.le_size
  refine ⟨hbetween.below _ (Nat.lt_succ_self _), ?_, ?_⟩
  · apply mem_starts.mp
    rw [startOf, ← Array.getElem_eq_getD (h := hin)]
    exact Array.getElem_mem_toList hin
  · -- a newline in between would begin a later line that does not exceed the offset either
    intro i hstart hi hnewline
    have hmem : i + 1 ∈ (ofBytes bytes).starts.toList := mem_starts.mpr (.inr ⟨i, rfl, hnewline⟩)
    obtain ⟨j, hj, hvalue⟩ := List.mem_iff_getElem.mp hmem
    have hsize : j < (ofBytes bytes).starts.size := hj
    have hentry : (ofBytes bytes).starts.getD j 0 = i + 1 := by
      rw [← Array.getElem_eq_getD (h := hsize)]
      exact hvalue
    have hbefore : j ≤ newlinesBefore bytes offset := by
      refine Nat.le_of_not_lt fun hlater => ?_
      have hexceeds := hbetween.above j (by omega) hsize
      omega
    have hle := hmono.getD_le hbefore hin
    rw [hentry] at hle
    unfold startOf at hstart
    omega

theorem BeginsAt.unique {start' : Nat} (h : BeginsAt bytes offset start)
    (h' : BeginsAt bytes offset start') : start = start' := by
  have not_lt : ∀ {s s'}, BeginsAt bytes offset s → BeginsAt bytes offset s' → ¬ s < s' := by
    intro s s' hs hs' hlt
    rcases hs'.after with rfl | ⟨i, rfl, hi⟩
    · omega
    · exact hs.unbroken i (by omega) hs'.le hi
  have hle := not_lt h h'
  have hge := not_lt h' h
  omega

/-- A later offset has a later position. -/
theorem before_of_lt (h : offset < offset') :
    ((ofBytes bytes).position offset).Before ((ofBytes bytes).position offset') := by
  unfold Position.Before
  rw [line_position, line_position, column_position, column_position]
  have hmono : newlinesBefore bytes offset ≤ newlinesBefore bytes offset' :=
    newlinesBefore_mono (Nat.le_of_lt h)
  by_cases hsame : newlinesBefore bytes offset = newlinesBefore bytes offset'
  · have hstart : startOf bytes offset = startOf bytes offset' := by rw [startOf, startOf, hsame]
    have hle : startOf bytes offset ≤ offset := beginsAt_startOf.le
    omega
  · omega

theorem lt_iff_before : offset < offset' ↔
    ((ofBytes bytes).position offset).Before ((ofBytes bytes).position offset') := by
  refine ⟨before_of_lt, fun h => ?_⟩
  rcases Nat.lt_trichotomy offset offset' with hlt | rfl | hgt
  · exact hlt
  · exact absurd h (Position.Before.irrefl _)
  · exact absurd h (before_of_lt hgt).asymm

theorem position_injective : Function.Injective (ofBytes bytes).position := by
  intro offset offset' h
  rcases Nat.lt_trichotomy offset offset' with hlt | heq | hgt
  · exact absurd (h ▸ before_of_lt hlt) (Position.Before.irrefl _)
  · exact heq
  · exact absurd (h ▸ before_of_lt hgt) (Position.Before.irrefl _)

theorem start_le_length (h : start ∈ (ofBytes bytes).starts.toList) : start ≤ bytes.length := by
  rcases mem_starts.mp h with rfl | ⟨i, rfl, hi⟩
  · exact Nat.zero_le _
  · exact (List.getElem?_eq_some_iff.mp hi).1

theorem newlinesBefore_le_length : newlinesBefore bytes offset ≤ bytes.length :=
  Nat.le_trans List.count_le_length (List.take_sublist _ _).length_le

/-- Every offset into a text, or past its end, is resolved exactly.  The line is one more
than the newlines before the offset, and the column counts from where that line begins;
an offset has the position of no other one, and positions stand in the order of the
offsets.  As long as the text and the offset stay below the greatest 32-bit number, so
does every number that comes up on the way. -/
theorem offsets_resolved (source : String) :
    let bytes := source.toUTF8.toList
    let index := ofText source
    index.lineCount = bytes.count 10 + 1 ∧
    (∀ offset, (index.position offset).line = newlinesBefore bytes offset + 1 ∧
      ∃ start, (∀ s, BeginsAt bytes offset s ↔ s = start) ∧
        (index.position offset).column = offset - start + 1) ∧
    (∀ offset offset', offset < offset' ↔
      (index.position offset).Before (index.position offset')) ∧
    Function.Injective index.position ∧
    (bytes.length < 2 ^ 32 - 1 → (∀ start ∈ index.starts.toList, start < 2 ^ 32 - 1) ∧
      ∀ offset < 2 ^ 32 - 1,
        (index.position offset).line < 2 ^ 32 ∧ (index.position offset).column < 2 ^ 32) := by
  intro bytes index
  refine ⟨?_, fun offset => ⟨line_position, startOf bytes offset, fun s => ?_, column_position⟩,
    fun offset offset' => lt_iff_before, position_injective, fun hlength => ⟨?_, ?_⟩⟩
  · show (0 :: startsFrom 0 bytes).length = _
    rw [List.length_cons, length_startsFrom]
  · exact ⟨fun h => h.unique beginsAt_startOf, fun h => h ▸ beginsAt_startOf⟩
  · intro start hstart
    have hle : start ≤ bytes.length := start_le_length hstart
    omega
  · intro offset hoffset
    have hline : (index.position offset).line = newlinesBefore bytes offset + 1 := line_position
    have hcolumn : (index.position offset).column = offset - startOf bytes offset + 1 :=
      column_position
    have hle : newlinesBefore bytes offset ≤ bytes.length := newlinesBefore_le_length
    omega

/-- The end of an empty line, and the greatest offset, far past the end of the text. -/
theorem offsets_resolved_past_end :
    "a\n\nb".toUTF8.toList.length < 2 ^ 32 - 1 ∧
    ((ofText "a\n\nb").position 2).Before ((ofText "a\n\nb").position (2 ^ 32 - 2)) ∧
    ((ofText "a\n\nb").position (2 ^ 32 - 2)).column < 2 ^ 32 := by
  have hlength : "a\n\nb".toUTF8.toList.length < 2 ^ 32 - 1 := by decide +kernel
  obtain ⟨-, -, horder, -, hwords⟩ := offsets_resolved "a\n\nb"
  exact ⟨hlength, (horder _ _).mp (by decide), ((hwords hlength).2 _ (by decide)).2⟩

end LineIndex
end TreeWalk
