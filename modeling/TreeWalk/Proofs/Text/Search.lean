/-
Where a text occurs in another one.

`find?` answers the first place at which one list occurs in another, whatever the lists
are made of.  Among the bytes of a text it finds the bytes of another text only where a
character begins: no byte that begins a character stands anywhere else in an encoding.
So a search among bytes and a search among characters find the same place, once the
characters before it are counted.
-/
import Mathlib.Data.List.Basic
import TreeWalk.Text.Search

namespace TreeWalk
namespace Search

/-! ## Places -/

section

variable {α : Type} {needle text before rest : List α} {a : α} {i : Nat}

/-- The items of `needle` stand in `text` from position `i` on. -/
def OccursAt (needle text : List α) (i : Nat) : Prop := i ≤ text.length ∧ needle <+: text.drop i

/-- The first of all places. -/
def FirstAt (needle text : List α) (i : Nat) : Prop :=
  OccursAt needle text i ∧ ∀ j < i, ¬ OccursAt needle text j

@[simp] theorem occursAt_zero : OccursAt needle text 0 ↔ needle <+: text :=
  and_iff_right (Nat.zero_le _)

@[simp] theorem occursAt_succ : OccursAt needle (a :: text) (i + 1) ↔ OccursAt needle text i := by
  simp [OccursAt]

@[simp] theorem occursAt_length_add :
    OccursAt needle (before ++ rest) (before.length + i) ↔ OccursAt needle rest i := by
  simp [OccursAt]

@[simp] theorem occursAt_length : OccursAt needle (before ++ rest) before.length ↔ needle <+: rest := by
  have h : OccursAt needle (before ++ rest) (before.length + 0) ↔ OccursAt needle rest 0 :=
    occursAt_length_add
  rwa [Nat.add_zero, occursAt_zero] at h

theorem OccursAt.add_length_le (h : OccursAt needle text i) : i + needle.length ≤ text.length := by
  have hle := h.2.length_le
  rw [List.length_drop] at hle
  have hi := h.1
  omega

theorem not_occursAt_nil (hne : needle ≠ []) : ¬ OccursAt needle [] i := by
  intro h
  have hle := h.add_length_le
  have hpos := List.length_pos_iff.mpr hne
  rw [List.length_nil] at hle
  omega

theorem isInfix_iff_occursAt : needle <:+: text ↔ ∃ i, OccursAt needle text i := by
  constructor
  · rintro ⟨before, after, rfl⟩
    refine ⟨before.length, ?_⟩
    rw [List.append_assoc, occursAt_length]
    exact List.prefix_append _ _
  · rintro ⟨i, -, h⟩
    exact h.isInfix.trans (List.drop_suffix i text).isInfix

/-- Nothing stands before the first place of all. -/
theorem firstAt_zero : FirstAt needle text 0 ↔ needle <+: text := by
  rw [FirstAt, occursAt_zero]
  exact and_iff_left (fun j hj => absurd hj (Nat.not_lt_zero j))

theorem firstAt_succ : FirstAt needle (a :: text) (i + 1) ↔
    ¬ needle <+: a :: text ∧ FirstAt needle text i := by
  constructor
  · intro h
    exact ⟨fun hp => h.2 0 (Nat.succ_pos i) (occursAt_zero.mpr hp), occursAt_succ.mp h.1,
      fun j hj ho => h.2 (j + 1) (Nat.succ_lt_succ hj) (occursAt_succ.mpr ho)⟩
  · rintro ⟨hp, h⟩
    refine ⟨occursAt_succ.mpr h.1, fun j hj ho => ?_⟩
    cases j with
    | zero => exact hp (occursAt_zero.mp ho)
    | succ j => exact h.2 j (Nat.lt_of_succ_lt_succ hj) (occursAt_succ.mp ho)

theorem FirstAt.unique {j : Nat} (h : FirstAt needle text i) (h' : FirstAt needle text j) :
    i = j := by
  rcases Nat.lt_trichotomy i j with hlt | heq | hgt
  · exact absurd h.1 (h'.2 i hlt)
  · exact heq
  · exact absurd h'.1 (h.2 j hgt)

end

/-! ## The search -/

section

variable {α : Type} [BEq α] [LawfulBEq α] {needle text : List α} {i : Nat}

/-- The search answers the first place. -/
theorem find?_eq_some_iff : find? needle text = some i ↔ FirstAt needle text i := by
  induction text generalizing i with
  | nil =>
    cases needle with
    | nil =>
      rw [show find? ([] : List α) [] = some 0 from rfl, Option.some.injEq]
      refine ⟨fun h => h ▸ firstAt_zero.mpr List.nil_prefix, fun h => Eq.symm ?_⟩
      exact Nat.le_zero.mp h.1.1
    | cons a needle =>
      exact iff_of_false nofun fun h => not_occursAt_nil (List.cons_ne_nil _ _) h.1
  | cons a rest ih =>
    rw [find?]
    split
    · next hp =>
      have hfirst := firstAt_zero.mpr (List.isPrefixOf_iff_prefix.mp hp)
      rw [Option.some.injEq]
      exact ⟨fun h => h ▸ hfirst, hfirst.unique⟩
    · next hp =>
      have hstarts : ¬ needle <+: a :: rest := mt List.isPrefixOf_iff_prefix.mpr hp
      cases i with
      | zero =>
        rw [firstAt_zero]
        refine iff_of_false (fun h => ?_) hstarts
        obtain ⟨j, -, hj⟩ := Option.map_eq_some_iff.mp h
        exact Nat.succ_ne_zero j hj
      | succ i =>
        rw [firstAt_succ, and_iff_right hstarts, ← ih, Option.map_eq_some_iff]
        refine ⟨fun ⟨j, hj, heq⟩ => Nat.succ.inj heq ▸ hj, fun h => ⟨i, h, rfl⟩⟩

theorem find?_eq_none_iff : find? needle text = none ↔ ¬ needle <:+: text := by
  induction text with
  | nil =>
    cases needle with
    | nil => exact iff_of_false nofun fun h => h List.nil_infix
    | cons a needle => exact iff_of_true rfl fun h => nomatch List.infix_nil.mp h
  | cons a rest ih =>
    rw [find?, List.infix_cons_iff, not_or, ← ih, ← List.isPrefixOf_iff_prefix]
    split
    · next hp => exact iff_of_false nofun fun h => h.1 hp
    · next hp => rw [Option.map_eq_none_iff, and_iff_right hp]

end

theorem contains_iff {needle text : List Char} : contains needle text = true ↔ needle <:+: text := by
  rw [contains, Option.isSome_iff_ne_none, ne_eq, find?_eq_none_iff, not_not]

/-! ## Bytes -/

variable {needle text : List Char} {c : Char} {i k : Nat}

@[simp] theorem bytes_nil : bytes [] = [] := rfl

@[simp] theorem bytes_cons : bytes (c :: text) = String.utf8EncodeChar c ++ bytes text :=
  List.flatMap_cons

@[simp] theorem bytes_append {rest : List Char} : bytes (text ++ rest) = bytes text ++ bytes rest :=
  List.flatMap_append

theorem bytes_parts (text : List Char) (i : Nat) :
    bytes text = bytes (text.take i) ++ bytes (text.drop i) := by
  rw [← bytes_append, List.take_append_drop]

/-- The encoding of a text tells where each character ends. -/
theorem bytes_prefix_iff : bytes needle <+: bytes text ↔ needle <+: text := by
  constructor
  · rintro ⟨rest, h⟩
    refine List.isPrefix_of_utf8Encode_append_eq_utf8Encode rest.toByteArray ?_
    rw [List.utf8Encode, List.utf8Encode, ← List.toByteArray_append]
    exact congrArg List.toByteArray h
  · rintro ⟨rest, rfl⟩
    rw [bytes_append]
    exact List.prefix_append _ _

/-- One byte of a character begins it. -/
theorem charCount_utf8EncodeChar (c : Char) : charCount (String.utf8EncodeChar c) = 1 := by
  obtain ⟨b, rest, h⟩ := List.exists_cons_of_ne_nil (String.utf8EncodeChar_ne_nil (c := c))
  have begins : ∀ j (hj : j < (b :: rest).length), (b :: rest)[j].IsUTF8FirstByte ↔ j = 0 := by
    rw [← h]
    exact fun j hj => UInt8.isUTF8FirstByte_getElem_utf8EncodeChar
  have hrest : rest.countP (·.IsUTF8FirstByte) = 0 := by
    refine List.countP_eq_zero.mpr fun x hx => ?_
    obtain ⟨j, hj, rfl⟩ := List.getElem_of_mem hx
    have hstep := begins (j + 1) (Nat.succ_lt_succ hj)
    simpa using hstep
  rw [charCount, h, List.countP_cons_of_pos (by simpa using begins 0 (Nat.succ_pos _)), hrest]

/-- The characters of a text are counted by their first bytes. -/
theorem charCount_bytes (text : List Char) : charCount (bytes text) = text.length := by
  induction text with
  | nil => rfl
  | cons c text ih =>
    have hsum : charCount (String.utf8EncodeChar c ++ bytes text) =
        charCount (String.utf8EncodeChar c) + charCount (bytes text) := List.countP_append
    rw [bytes_cons, hsum, charCount_utf8EncodeChar, ih, List.length_cons, Nat.add_comm]

/-- A character has at least one byte. -/
theorem length_le_length_bytes (text : List Char) : text.length ≤ (bytes text).length := by
  rw [← charCount_bytes text]
  exact List.countP_le_length

/-- Where characters are found, their bytes are found. -/
theorem OccursAt.bytes (h : OccursAt needle text i) :
    OccursAt (bytes needle) (bytes text) (bytes (text.take i)).length := by
  rw [bytes_parts text i, occursAt_length]
  exact bytes_prefix_iff.mpr h.2

/-- Bytes that begin with a character are found only where one begins. -/
theorem exists_boundary (hne : needle ≠ []) (h : OccursAt (bytes needle) (bytes text) i) :
    ∃ before rest, text = before ++ rest ∧ i = (bytes before).length := by
  induction text generalizing i with
  | nil => exact ⟨[], [], rfl, Nat.le_zero.mp h.1⟩
  | cons c text ih =>
    rcases Nat.lt_or_ge i (String.utf8EncodeChar c).length with hlt | hge
    · -- The byte found is one of `c`, and it begins a character.
      obtain ⟨d, needle, rfl⟩ := List.exists_cons_of_ne_nil hne
      obtain ⟨b, more, hb⟩ := List.exists_cons_of_ne_nil (String.utf8EncodeChar_ne_nil (c := d))
      have hbegins : b.IsUTF8FirstByte := by
        have hzero : (String.utf8EncodeChar d)[0]?.any (·.IsUTF8FirstByte) := by
          rw [List.getElem?_eq_getElem (by rw [hb]; exact Nat.succ_pos _)]
          simp
        simpa [hb] using hzero
      have hfound : (String.utf8EncodeChar c)[i] = b := by
        obtain ⟨rest, hrest⟩ := h.2
        rw [bytes_cons, bytes_cons, hb, List.drop_append_of_le_length (Nat.le_of_lt hlt),
          List.drop_eq_getElem_cons hlt] at hrest
        exact (List.cons.inj hrest).1.symm
      have hi : i = 0 := by
        rw [← hfound] at hbegins
        exact UInt8.isUTF8FirstByte_getElem_utf8EncodeChar.mp hbegins
      exact ⟨[], c :: text, rfl, hi⟩
    · obtain ⟨j, rfl⟩ := Nat.exists_eq_add_of_le hge
      rw [bytes_cons, occursAt_length_add] at h
      obtain ⟨before, rest, rfl, rfl⟩ := ih h
      exact ⟨c :: before, rest, rfl, by rw [bytes_cons, List.length_append]⟩

/-- Searching bytes and counting characters is searching characters. -/
theorem position?_eq_find? (needle text : List Char) : position? needle text = find? needle text := by
  unfold position?
  by_cases hne : needle = []
  · subst hne
    have hzero {α : Type} [BEq α] [LawfulBEq α] (text : List α) : find? [] text = some 0 :=
      find?_eq_some_iff.mpr (firstAt_zero.mpr List.nil_prefix)
    rw [bytes_nil, hzero, hzero]
    rfl
  · cases hfound : find? (bytes needle) (bytes text) with
    | none =>
      rw [find?_eq_none_iff] at hfound
      refine (find?_eq_none_iff.mpr fun h => hfound ?_).symm
      obtain ⟨before, after, rfl⟩ := h
      rw [bytes_append, bytes_append]
      exact ⟨_, _, rfl⟩
    | some i =>
      have hfirst := find?_eq_some_iff.mp hfound
      obtain ⟨before, rest, rfl, rfl⟩ := exists_boundary hne hfirst.1
      have hcount : charCount ((bytes (before ++ rest)).take (bytes before).length) =
          before.length := by
        rw [bytes_append, List.take_left, charCount_bytes]
      rw [Option.map_some, hcount]
      refine (find?_eq_some_iff.mpr ⟨?_, fun j hj ho => hfirst.2 _ ?_ ho.bytes⟩).symm
      · have hplace := hfirst.1
        rw [bytes_append, occursAt_length] at hplace
        exact occursAt_length.mpr (bytes_prefix_iff.mp hplace)
      · -- An earlier character has its bytes earlier.
        have hdrop := length_le_length_bytes (before.drop j)
        rw [List.length_drop] at hdrop
        rw [List.take_append_of_le_length (Nat.le_of_lt hj), bytes_parts before j,
          List.length_append]
        omega

end Search
end TreeWalk
