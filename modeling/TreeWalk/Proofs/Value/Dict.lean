/-
Hashes that are consistent.

The order of insertion and the table of entries are kept side by side, and both
are found through the key of a value.  `Consistent` says that they agree: each
key of the table stands in the order once, nothing else does, and each entry is
filed under the key of the value it was given for.  What walks through the order
then meets every entry, and what files an entry again finds it where it was.
-/
import Mathlib.Data.List.Nodup
import Mathlib.Data.List.Perm.Subperm
import TreeWalk.Value.Dict

namespace TreeWalk

namespace Entry

/-- The entry that results where there may be one already, whose key stays. -/
def onto (e : Entry) (old : Option Entry) : Entry := ⟨(old.map (·.key)).getD e.key, e.value⟩

@[simp] theorem onto_none (e : Entry) : e.onto none = e := rfl

@[simp] theorem onto_some (e old : Entry) : e.onto (some old) = ⟨old.key, e.value⟩ := rfl

end Entry

namespace Dict

structure Consistent (d : Dict) : Prop where
  nodup : d.order.Nodup
  mem_order : ∀ key, key ∈ d.order ↔ d.contains key = true
  filed : ∀ key e, d.get? key = some e → e.key.key? = some key

variable {d : Dict} {hash key : Key} {k v : Value}

theorem contains_iff : d.contains key = true ↔ ∃ e, d.get? key = some e := by
  unfold contains get?
  rw [Std.HashMap.contains_eq_isSome_getElem?, Option.isSome_iff_exists]

theorem contains_eq_false_iff : d.contains key = false ↔ d.get? key = none := by
  unfold contains get?
  rw [Std.HashMap.contains_eq_isSome_getElem?, Option.isSome_eq_false_iff, Option.isNone_iff_eq_none]

theorem get?_empty : empty.get? key = none := by
  simp [get?, empty]

/-- An entry that is there keeps the form of its key. -/
theorem get?_insert :
    (d.insert hash k v).get? key =
      if hash = key then some ⟨((d.get? hash).map (·.key)).getD k, v⟩ else d.get? key := by
  unfold insert
  split
  · next entry hentry =>
    simp only [get?, Std.HashMap.getElem?_insert, beq_iff_eq] at hentry ⊢
    rw [hentry]
    rfl
  · next hnone =>
    simp only [get?, Std.HashMap.getElem?_insert, beq_iff_eq] at hnone ⊢
    rw [hnone]
    rfl

theorem contains_insert :
    (d.insert hash k v).contains key = true ↔ hash = key ∨ d.contains key = true := by
  rw [contains_iff, get?_insert]
  by_cases h : hash = key
  · simp [h]
  · simp [h, contains_iff]

theorem order_insert :
    (d.insert hash k v).order = if d.contains hash then d.order else d.order ++ [hash] := by
  unfold insert
  split
  · next entry hentry =>
    rw [if_pos (contains_iff.mpr ⟨entry, hentry⟩)]
  · next hnone =>
    have hout := contains_eq_false_iff.mpr hnone
    simp [hout]

theorem get?_erase : (d.erase hash).get? key = if hash = key then none else d.get? key := by
  unfold erase
  split
  · simp only [get?, Std.HashMap.getElem?_erase, beq_iff_eq]
  · next hout =>
    by_cases h : hash = key
    · subst h
      rw [if_pos rfl]
      exact contains_eq_false_iff.mp (Bool.eq_false_iff.mpr hout)
    · rw [if_neg h]

theorem contains_erase :
    (d.erase hash).contains key = true ↔ hash ≠ key ∧ d.contains key = true := by
  rw [contains_iff, get?_erase]
  by_cases h : hash = key
  · simp [h]
  · simp [h, contains_iff]

/-- Files an entry under its own key, if it has one. -/
def file (d : Dict) (e : Entry) : Dict :=
  match e.key.key? with
  | some hash => d.insert hash e.key e.value
  | none => d

theorem file_of_key? {e : Entry} (h : e.key.key? = some hash) :
    d.file e = d.insert hash e.key e.value := by
  simp only [file, h]

theorem merge_eq (a b : Dict) : a.merge b = b.toList.foldl file a := rfl

namespace Consistent

theorem empty : Dict.empty.Consistent := by
  refine ⟨List.nodup_nil, fun key => ?_, fun key e he => ?_⟩
  · rw [contains_iff, get?_empty]
    simp [Dict.empty]
  · rw [get?_empty] at he
    cases he

/-- Filing a value under its own key. -/
theorem insert (hd : d.Consistent) (hk : k.key? = some hash) : (d.insert hash k v).Consistent := by
  refine ⟨?_, fun key => ?_, fun key e he => ?_⟩
  · rw [order_insert]
    split
    · exact hd.nodup
    · next hout =>
      refine hd.nodup.append (List.nodup_singleton hash) fun x hx hx' => ?_
      obtain rfl := List.mem_singleton.mp hx'
      exact hout ((hd.mem_order x).mp hx)
  · rw [contains_insert, order_insert, ← hd.mem_order key]
    split
    · next hin =>
      refine ⟨.inr, fun h => h.elim (fun heq => ?_) id⟩
      exact heq ▸ (hd.mem_order hash).mpr hin
    · rw [List.mem_append, List.mem_singleton, eq_comm, or_comm]
  · rw [get?_insert] at he
    split at he
    · next heq =>
      obtain rfl := Option.some.inj he
      subst heq
      cases hold : d.get? hash with
      | none => exact hk
      | some old => exact hd.filed hash old hold
    · exact hd.filed key e he

theorem erase (hd : d.Consistent) : (d.erase hash).Consistent := by
  refine ⟨?_, fun key => ?_, fun key e he => ?_⟩
  · unfold Dict.erase
    split
    · exact hd.nodup.erase hash
    · exact hd.nodup
  · rw [contains_erase, ← hd.mem_order key]
    unfold Dict.erase
    split
    · rw [hd.nodup.mem_erase_iff, ne_comm]
    · next hout =>
      refine ⟨fun hmem => ⟨fun heq => ?_, hmem⟩, And.right⟩
      exact hout ((hd.mem_order hash).mp (heq ▸ hmem))
  · rw [get?_erase] at he
    split at he
    · cases he
    · exact hd.filed key e he

theorem file {e : Entry} (hd : d.Consistent) : (d.file e).Consistent := by
  unfold Dict.file
  split
  · next hash hkey => exact hd.insert hkey
  · exact hd

theorem foldl_file {entries : List Entry} (hd : d.Consistent) :
    (entries.foldl Dict.file d).Consistent := by
  induction entries generalizing d with
  | nil => exact hd
  | cons e rest ih => exact ih hd.file

theorem merge {other : Dict} (hd : d.Consistent) : (d.merge other).Consistent := hd.foldl_file

/-! ## Walking through a hash -/

theorem exists_of_mem_order (hd : d.Consistent) (h : key ∈ d.order) : ∃ e, d.get? key = some e :=
  contains_iff.mp ((hd.mem_order key).mp h)

/-- The entries come in the order of their keys, and none is left out. -/
theorem map_key?_toList (hd : d.Consistent) :
    d.toList.map (fun e => e.key.key?) = d.order.map some := by
  unfold toList
  rw [List.map_filterMap, ← List.filterMap_eq_map]
  refine List.filterMap_congr fun key hkey => ?_
  obtain ⟨e, he⟩ := hd.exists_of_mem_order hkey
  simp [he, hd.filed key e he]

theorem mem_toList_iff (hd : d.Consistent) {e : Entry} :
    e ∈ d.toList ↔ ∃ key, d.get? key = some e := by
  refine ⟨fun he => ?_, fun ⟨key, he⟩ => ?_⟩
  · obtain ⟨key, _, hkey⟩ := List.mem_filterMap.mp he
    exact ⟨key, hkey⟩
  · exact List.mem_filterMap.mpr ⟨key, (hd.mem_order key).mpr (contains_iff.mpr ⟨e, he⟩), he⟩

/-- An entry met on the way is found again under its own key. -/
theorem get?_of_mem_toList (hd : d.Consistent) {e : Entry} (he : e ∈ d.toList) :
    ∃ key, e.key.key? = some key ∧ d.get? key = some e := by
  obtain ⟨key, hkey⟩ := hd.mem_toList_iff.mp he
  exact ⟨key, hd.filed key e hkey, hkey⟩

theorem find?_toList (hd : d.Consistent) :
    d.toList.find? (fun e => e.key.key? = some key) = d.get? key := by
  cases hfind : d.toList.find? (fun e => e.key.key? = some key) with
  | some e =>
    have hkey : e.key.key? = some key := by simpa using List.find?_some hfind
    obtain ⟨other, hother, he⟩ := hd.get?_of_mem_toList (List.mem_of_find?_eq_some hfind)
    rw [hkey] at hother
    rw [Option.some.inj hother, he]
  | none =>
    cases hget : d.get? key with
    | none => rfl
    | some e =>
      have hmem := hd.mem_toList_iff.mpr ⟨key, hget⟩
      have hne := List.find?_eq_none.mp hfind e hmem
      exact absurd (hd.filed key e hget) (by simpa using hne)

theorem distinct_toList (hd : d.Consistent) : (d.toList.map fun e => e.key.key?).Nodup := by
  rw [hd.map_key?_toList]
  exact hd.nodup.map fun _ _ h => Option.some.inj h

theorem perm_order {other : Dict} (hd : d.Consistent) (ho : other.Consistent)
    (h : ∀ key, d.contains key = true ↔ other.contains key = true) : d.order.Perm other.order := by
  refine (List.perm_ext_iff_of_nodup hd.nodup ho.nodup).mpr fun key => ?_
  rw [hd.mem_order, ho.mem_order]
  exact h key

/-- A hash with all the keys of another one that is no smaller has no other keys. -/
theorem contains_of_size_le {other : Dict} (hd : d.Consistent) (ho : other.Consistent)
    (h : ∀ key, d.contains key = true → other.contains key = true) (hsize : other.size ≤ d.size)
    (hkey : other.contains key = true) : d.contains key = true := by
  have hsub : d.order ⊆ other.order := fun key hmem =>
    (ho.mem_order key).mpr (h key ((hd.mem_order key).mp hmem))
  have hperm := (hd.nodup.subperm hsub).perm_of_length_le hsize
  exact (hd.mem_order key).mp (hperm.mem_iff.mpr ((ho.mem_order key).mpr hkey))

theorem toList_insert_new (hd : d.Consistent) (hout : d.contains hash = false) :
    (d.insert hash k v).toList = d.toList ++ [⟨k, v⟩] := by
  have hnone := contains_eq_false_iff.mp hout
  have hnot : hash ∉ d.order := by
    rw [hd.mem_order, hout]
    exact Bool.false_ne_true
  unfold toList
  rw [order_insert, hout, if_neg Bool.false_ne_true, List.filterMap_append]
  congr 1
  · refine List.filterMap_congr fun key hkey => ?_
    have hne : hash ≠ key := fun h => hnot (h ▸ hkey)
    rw [get?_insert, if_neg hne]
  · simp [get?_insert, hnone]

end Consistent

/-! ## Filing entries in turn -/

/-- Of entries with keys of their own, each is found over what was there. -/
theorem get?_foldl_file {entries : List Entry} (h : (entries.map fun e => e.key.key?).Nodup) :
    (entries.foldl file d).get? key =
      ((entries.find? fun e => e.key.key? = some key).map (·.onto (d.get? key))).or
        (d.get? key) := by
  induction entries generalizing d with
  | nil => rfl
  | cons e rest ih =>
    rw [List.map_cons, List.nodup_cons] at h
    rw [List.foldl_cons, ih h.2, List.find?_cons]
    by_cases hkey : e.key.key? = some key
    · have hrest : (rest.find? fun e => e.key.key? = some key) = none := by
        refine List.find?_eq_none.mpr fun e' he' => ?_
        have hne : e'.key.key? ≠ e.key.key? := fun heq => h.1 (List.mem_map.mpr ⟨e', he', heq⟩)
        rw [hkey] at hne
        simpa using hne
      rw [hrest, file_of_key? hkey, get?_insert]
      simp [hkey, Entry.onto]
    · cases hother : e.key.key? with
      | none => simp [file, hother]
      | some hash =>
        have hne : hash ≠ key := fun heq => hkey (heq ▸ hother)
        rw [file_of_key? hother, get?_insert, if_neg hne]
        simp [hne]

/-- Entries with new keys of their own are put behind those that are there. -/
theorem Consistent.toList_foldl_file (hd : d.Consistent) {entries : List Entry}
    (h : (entries.map fun e => e.key.key?).Nodup)
    (hnew : ∀ e ∈ entries, ∃ key, e.key.key? = some key ∧ d.contains key = false) :
    (entries.foldl Dict.file d).toList = d.toList ++ entries := by
  induction entries generalizing d with
  | nil => exact (List.append_nil _).symm
  | cons e rest ih =>
    rw [List.map_cons, List.nodup_cons] at h
    obtain ⟨hash, hhash, hout⟩ := hnew e List.mem_cons_self
    have hlater : ∀ e' ∈ rest, ∃ key, e'.key.key? = some key ∧ (d.file e).contains key = false := by
      intro e' he'
      obtain ⟨key, hkey, hfree⟩ := hnew e' (List.mem_cons_of_mem e he')
      have hne : hash ≠ key := fun heq =>
        h.1 (List.mem_map.mpr ⟨e', he', by rw [hkey, hhash, heq]⟩)
      refine ⟨key, hkey, contains_eq_false_iff.mpr ?_⟩
      rw [file_of_key? hhash, get?_insert, if_neg hne]
      exact contains_eq_false_iff.mp hfree
    rw [List.foldl_cons, ih hd.file h.2 hlater, file_of_key? hhash, hd.toList_insert_new hout,
      List.append_assoc, List.singleton_append]

/-- What the second hash holds is found over what the first one holds. -/
theorem Consistent.get?_merge {other : Dict} (ho : other.Consistent) :
    (d.merge other).get? key =
      ((other.get? key).map (·.onto (d.get? key))).or (d.get? key) := by
  rw [merge_eq, get?_foldl_file ho.distinct_toList, ho.find?_toList]

/-- A merged hash answers what the second one holds, or else the first. -/
theorem Consistent.value_merge {other : Dict} (ho : other.Consistent) :
    ((d.merge other).get? key).map (·.value) =
      ((other.get? key).or (d.get? key)).map (·.value) := by
  rw [ho.get?_merge]
  cases other.get? key <;> rfl

/-- Part of the entries of a hash, filed again, is that part. -/
theorem Consistent.toList_refiled (hd : d.Consistent) {entries : List Entry}
    (h : entries.Sublist d.toList) :
    (entries.foldl Dict.file Dict.empty).toList = entries := by
  have hdistinct := hd.distinct_toList.sublist (h.map fun e => e.key.key?)
  rw [Consistent.empty.toList_foldl_file hdistinct fun e he => ?_]
  · rfl
  · obtain ⟨key, hkey, _⟩ := hd.get?_of_mem_toList (h.subset he)
    exact ⟨key, hkey, contains_eq_false_iff.mpr get?_empty⟩

end Dict
end TreeWalk
