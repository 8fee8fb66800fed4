/-
Names that are listed and names that are called.

A kind of value lists the names of its methods in one place, and compares the name of a
call with names of its own in another.  For every table the two say the same: a call finds
a method if and only if its name is listed.  Functions have no table, and differ.
-/
import TreeWalk.Method.Object

namespace TreeWalk

variable {name : String}

/-- What is listed is what can be called. -/
class LawfulTable (μ : Type) [MethodTable μ] : Prop where
  isSome_find?_iff (name : String) :
    (MethodTable.find? name : Option μ).isSome = true ↔ name ∈ MethodTable.names μ

namespace MethodTable

variable {μ : Type} [MethodTable μ] [LawfulTable μ]

theorem exists_of_mem_names (h : name ∈ names μ) : ∃ m : μ, find? name = some m :=
  Option.isSome_iff_exists.mp ((LawfulTable.isSome_find?_iff name).mpr h)

theorem find?_eq_none (h : name ∉ names μ) : (find? name : Option μ) = none := by
  rw [← LawfulTable.isSome_find?_iff] at h
  simpa using h

end MethodTable

/-! ## Names that are looked for one by one -/

instance : LawfulTable BoolMethod where
  isSome_find?_iff name := by
    show (BoolMethod.ofName? name).isSome = true ↔ name ∈ BoolMethod.names
    unfold BoolMethod.ofName?
    split <;> simp_all [BoolMethod.names]

instance : LawfulTable NilMethod where
  isSome_find?_iff name := by
    show (NilMethod.ofName? name).isSome = true ↔ name ∈ NilMethod.names
    unfold NilMethod.ofName?
    split <;> simp_all [NilMethod.names]

instance : LawfulTable ArrayMethod where
  isSome_find?_iff name := by
    show (ArrayMethod.ofName? name).isSome = true ↔ name ∈ ArrayMethod.names
    unfold ArrayMethod.ofName?
    split <;> simp_all [ArrayMethod.names]

instance : LawfulTable TupleMethod where
  isSome_find?_iff name := by
    show (TupleMethod.ofName? name).isSome = true ↔ name ∈ TupleMethod.names
    unfold TupleMethod.ofName?
    split <;> simp_all [TupleMethod.names]

instance : LawfulTable RangeMethod where
  isSome_find?_iff name := by
    show (RangeMethod.ofName? name).isSome = true ↔ name ∈ RangeMethod.names
    unfold RangeMethod.ofName?
    split <;> simp_all [RangeMethod.names]

instance : LawfulTable HashMethod where
  isSome_find?_iff name := by
    show (HashMethod.ofName? name).isSome = true ↔ name ∈ HashMethod.names
    unfold HashMethod.ofName?
    split <;> simp_all [HashMethod.names]

instance : LawfulTable ChannelMethod where
  isSome_find?_iff name := by
    show (ChannelMethod.ofName? name).isSome = true ↔ name ∈ ChannelMethod.names
    unfold ChannelMethod.ofName?
    split <;> simp_all [ChannelMethod.names]

instance : LawfulTable WaitGroupMethod where
  isSome_find?_iff name := by
    show (WaitGroupMethod.ofName? name).isSome = true ↔ name ∈ WaitGroupMethod.names
    unfold WaitGroupMethod.ofName?
    split <;> simp_all [WaitGroupMethod.names]

instance : LawfulTable MutexMethod where
  isSome_find?_iff name := by
    show (MutexMethod.ofName? name).isSome = true ↔ name ∈ MutexMethod.names
    unfold MutexMethod.ofName?
    split <;> simp_all [MutexMethod.names]

instance : LawfulTable RWMutexMethod where
  isSome_find?_iff name := by
    show (RWMutexMethod.ofName? name).isSome = true ↔ name ∈ RWMutexMethod.names
    unfold RWMutexMethod.ofName?
    split <;> simp_all [RWMutexMethod.names]

instance : LawfulTable CondMethod where
  isSome_find?_iff name := by
    show (CondMethod.ofName? name).isSome = true ↔ name ∈ CondMethod.names
    unfold CondMethod.ofName?
    split <;> simp_all [CondMethod.names]

instance : LawfulTable OnceMethod where
  isSome_find?_iff name := by
    show (OnceMethod.ofName? name).isSome = true ↔ name ∈ OnceMethod.names
    unfold OnceMethod.ofName?
    split <;> simp_all [OnceMethod.names]

/-! ## Names that have to be listed

Here a listed name that is none of those looked for is one more method, and no failure. -/

instance : LawfulTable IntMethod where
  isSome_find?_iff name := by
    show (IntMethod.ofName? name).isSome = true ↔ name ∈ IntMethod.names
    unfold IntMethod.ofName?
    rw [← List.contains_iff_mem]
    split
    · decide
    · decide
    · decide
    · split
      · next h =>
        rw [h]
        split <;> rfl
      · simp_all

instance : LawfulTable FloatMethod where
  isSome_find?_iff name := by
    show (FloatMethod.ofName? name).isSome = true ↔ name ∈ FloatMethod.names
    unfold FloatMethod.ofName?
    rw [← List.contains_iff_mem]
    split
    · decide
    · decide
    · decide
    · split
      · next h =>
        rw [h]
        split <;> rfl
      · simp_all

instance : LawfulTable StringMethod where
  isSome_find?_iff name := by
    show (StringMethod.ofName? name).isSome = true ↔ name ∈ StringMethod.names
    unfold StringMethod.ofName?
    rw [← List.contains_iff_mem]
    split
    · decide
    · decide
    · decide
    · split
      · next h =>
        rw [h]
        split <;> rfl
      · simp_all

/-! ## Methods that one name stands for -/

theorem ChannelMethod.eq_send (h : ofName? name = some send) : name = "send" := by
  unfold ofName? at h
  split at h <;> simp_all

theorem ArrayMethod.visit_names {m : ArrayVisit} (h : ofName? name = some (visit m)) :
    name ∈ ["map", "filter", "reduce", "each"] := by
  unfold ofName? at h
  split at h <;> simp_all

theorem HashMethod.visit_names {m : HashVisit} (h : ofName? name = some (visit m)) :
    name ∈ ["map", "filter", "reduce", "each"] := by
  unfold ofName? at h
  split at h <;> simp_all

end TreeWalk
