/-
Finite maps from names, kept as lists in the order in which names first came in.

Scopes, the registry of host names and the loader all look names up in such a
list.  Writing a name that is there replaces its value in place; writing a new
one appends it.
-/

namespace TreeWalk

/-- A list of names with what they stand for; the first entry of a name counts. -/
abbrev Assoc (α : Type) := List (String × α)

namespace Assoc

variable {α : Type}

def get? : Assoc α → String → Option α
  | [], _ => none
  | (key, value) :: rest, name => if key = name then some value else get? rest name

def contains (m : Assoc α) (name : String) : Bool := (m.get? name).isSome

def set : Assoc α → String → α → Assoc α
  | [], name, value => [(name, value)]
  | (key, old) :: rest, name, value =>
    if key = name then (key, value) :: rest else (key, old) :: set rest name value

def erase (m : Assoc α) (name : String) : Assoc α := m.filter (·.1 ≠ name)

/-- The entries written one after the other. -/
def ofEntries (entries : List (String × α)) : Assoc α :=
  entries.foldl (fun m entry => m.set entry.1 entry.2) []

def names (m : Assoc α) : List String := m.map (·.1)

/-- The entries in alphabetical order of their names. -/
def sorted (m : Assoc α) : List (String × α) := m.mergeSort (fun a b => a.1 ≤ b.1)

theorem get?_set (m : Assoc α) (name other : String) (value : α) :
    (m.set name value).get? other = if name = other then some value else m.get? other := by
  induction m with
  | nil => simp [set, get?]
  | cons entry rest ih =>
    obtain ⟨key, old⟩ := entry
    by_cases hk : key = name
    · subst hk
      by_cases ho : key = other <;> simp [set, get?, ho]
    · by_cases ho : key = other
      · subst ho
        simp [set, get?, hk, Ne.symm hk]
      · simp [set, get?, hk, ho, ih]

theorem get?_set_self (m : Assoc α) (name : String) (value : α) :
    (m.set name value).get? name = some value := by simp [get?_set]

theorem mem_names_iff_get?_isSome (m : Assoc α) (name : String) :
    name ∈ m.names ↔ (m.get? name).isSome := by
  induction m with
  | nil => simp [names, get?]
  | cons entry rest ih =>
    obtain ⟨key, old⟩ := entry
    by_cases hk : key = name
    · simp [names, get?, hk]
    · simpa [names, get?, hk, Ne.symm hk] using ih

theorem mem_of_get? {m : Assoc α} {name : String} {a : α} (h : m.get? name = some a) :
    (name, a) ∈ m := by
  induction m with
  | nil => cases h
  | cons entry rest ih =>
    obtain ⟨key, value⟩ := entry
    by_cases hkey : key = name
    · rw [get?, if_pos hkey] at h
      rw [hkey, Option.some.inj h]
      exact List.mem_cons_self
    · rw [get?, if_neg hkey] at h
      exact List.mem_cons_of_mem _ (ih h)

theorem get?_append (m m' : Assoc α) (name : String) :
    get? (m ++ m') name = (m.get? name).or (m'.get? name) := by
  induction m with
  | nil => rfl
  | cons entry rest ih =>
    obtain ⟨key, value⟩ := entry
    by_cases hkey : key = name
    · simp [get?, hkey]
    · simpa [get?, hkey] using ih

/-- Of several entries of a name the last one counts. -/
theorem get?_ofEntries (entries : List (String × α)) (name : String) :
    (ofEntries entries).get? name = get? entries.reverse name := by
  have written : ∀ m : Assoc α, (entries.foldl (fun m entry => m.set entry.1 entry.2) m).get? name =
      (get? entries.reverse name).or (m.get? name) := by
    induction entries with
    | nil => exact fun m => rfl
    | cons entry rest ih =>
      intro m
      obtain ⟨key, value⟩ := entry
      rw [List.foldl_cons, ih, List.reverse_cons, get?_append, Option.or_assoc, get?_set]
      by_cases hkey : key = name
      · simp [get?, hkey]
      · simp [get?, hkey]
  rw [ofEntries, written, show get? ([] : Assoc α) name = none from rfl, Option.or_none]

end Assoc
end TreeWalk
