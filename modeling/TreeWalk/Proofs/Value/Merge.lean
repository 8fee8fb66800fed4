/-
Hashes added to each other.

`+` files the entries of the right hash into the left one.  Values come from the
right, places and the form of the keys from the left: a key of both stays where the
left has it and as the left was given it, and the keys that are new follow in the
order of the right.  So consistent hashes with `+` are a monoid, but for the table
that the entries are kept in, of which nothing can be seen.
-/
import TreeWalk.Proofs.Store.Closed
import TreeWalk.Store.Operator

namespace TreeWalk

namespace Dict

variable {a b c d : Dict} {key : Key}

theorem contains_eq_isSome : d.contains key = (d.get? key).isSome :=
  Std.HashMap.contains_eq_isSome_getElem?

/-! ## What can be seen of a hash -/

/-- Two hashes of which the same can be seen: the same entries in the same order. -/
structure Same (a b : Dict) : Prop where
  order : a.order = b.order
  get? : ∀ key, a.get? key = b.get? key

/-- The entry of a hash under the key that another entry has. -/
def match? (d : Dict) (e : Entry) : Option Entry := e.key.key?.bind d.get?

theorem Consistent.match?_of_get? (hd : d.Consistent) {e : Entry} (he : d.get? key = some e) :
    b.match? e = b.get? key := by
  rw [match?, hd.filed key e he, Option.bind_some]

/-! ## Entries filed in turn -/

/-- The keys that are new go behind those that are there. -/
theorem order_foldl_file {entries : List Entry} {keys : List Key} (hkeys : keys.Nodup)
    (h : (entries.map fun e => e.key.key?) = keys.map some) :
    (entries.foldl file d).order = d.order ++ keys.filter fun key => !d.contains key := by
  induction entries generalizing d keys with
  | nil =>
    obtain rfl : keys = [] := List.map_eq_nil_iff.mp h.symm
    exact (List.append_nil _).symm
  | cons e rest ih =>
    obtain ⟨hash, keys, rfl⟩ : ∃ hash later, keys = hash :: later := by
      cases keys with
      | nil => cases h
      | cons hash later => exact ⟨hash, later, rfl⟩
    obtain ⟨hhash, hrest⟩ := List.cons.inj h
    obtain ⟨hnot, hnodup⟩ := List.nodup_cons.mp hkeys
    -- filing the first entry changes nothing for the keys that follow it
    have hlater : (keys.filter fun key => !(d.insert hash e.key e.value).contains key) =
        keys.filter fun key => !d.contains key := by
      refine List.filter_congr fun key hkey => ?_
      have hne : hash ≠ key := fun heq => hnot (heq ▸ hkey)
      rw [contains_eq_isSome, contains_eq_isSome, get?_insert, if_neg hne]
    rw [List.foldl_cons, file_of_key? hhash, ih hnodup hrest, hlater, order_insert,
      List.filter_cons]
    cases d.contains hash with
    | true => rfl
    | false => simp

/-! ## Merging -/

theorem order_merge (hb : b.Consistent) :
    (a.merge b).order = a.order ++ b.order.filter fun key => !a.contains key :=
  order_foldl_file hb.nodup hb.map_key?_toList

theorem contains_merge (hb : b.Consistent) :
    (a.merge b).contains key = (a.contains key || b.contains key) := by
  simp only [contains_eq_isSome, hb.get?_merge]
  cases a.get? key <;> cases b.get? key <;> rfl

/-- The entries of the left one, with values of the right one if it has the key, and
then the other entries of the right one. -/
theorem toList_merge (ha : a.Consistent) (hb : b.Consistent) :
    (a.merge b).toList =
      (a.toList.map fun e => { e with value := ((b.match? e).map (·.value)).getD e.value }) ++
        b.toList.filter fun e => (a.match? e).isNone := by
  unfold toList
  rw [order_merge hb, List.filterMap_append, List.map_filterMap, List.filter_filterMap,
    List.filterMap_filter]
  congr 1
  · refine List.filterMap_congr fun key hkey => ?_
    obtain ⟨e, he⟩ := ha.exists_of_mem_order hkey
    rw [hb.get?_merge, he, Option.map_some, ha.match?_of_get? he]
    cases b.get? key <;> rfl
  · refine List.filterMap_congr fun key hkey => ?_
    obtain ⟨e, he⟩ := hb.exists_of_mem_order hkey
    rw [hb.get?_merge, he, contains_eq_isSome, Option.filter_some, hb.match?_of_get? he]
    cases a.get? key <;> rfl

/-- What a hash has to be to be the sum of two others. -/
structure IsSum (a b sum : Dict) : Prop where
  consistent : sum.Consistent
  /-- Each key stands for what it stands for on the right, or else on the left. -/
  value : ∀ key, (sum.get? key).map (·.value) = ((b.get? key).or (a.get? key)).map (·.value)
  /-- Each key has the form that it has on the left, or else on the right. -/
  key : ∀ key, (sum.get? key).map (·.key) = ((a.get? key).or (b.get? key)).map (·.key)
  keys : sum.keys = a.keys ++ (b.toList.filter fun e => (a.match? e).isNone).map (·.key)
  entries : sum.toList =
    (a.toList.map fun e => { e with value := ((b.match? e).map (·.value)).getD e.value }) ++
      b.toList.filter fun e => (a.match? e).isNone

theorem isSum_merge (ha : a.Consistent) (hb : b.Consistent) : a.IsSum b (a.merge b) where
  consistent := ha.merge
  value key := by
    rw [hb.get?_merge]
    cases a.get? key <;> cases b.get? key <;> rfl
  key key := by
    rw [hb.get?_merge]
    cases a.get? key <;> cases b.get? key <;> rfl
  keys := by
    unfold keys
    rw [toList_merge ha hb, List.map_append, List.map_map]
    rfl
  entries := toList_merge ha hb

/-! ## The monoid -/

theorem Consistent.get?_of_isEmpty (hd : d.Consistent) (h : d.isEmpty = true) :
    d.get? key = none := by
  have horder : d.order = [] := List.isEmpty_iff.mp h
  refine contains_eq_false_iff.mp (Bool.eq_false_iff.mpr fun hkey => ?_)
  have hmem := (hd.mem_order key).mpr hkey
  rw [horder] at hmem
  cases hmem

theorem same_merge_empty (hb : b.Consistent) (h : b.isEmpty = true) : (a.merge b).Same a where
  order := by
    have horder : b.order = [] := List.isEmpty_iff.mp h
    rw [order_merge hb, horder, List.filter_nil, List.append_nil]
  get? key := by
    rw [hb.get?_merge, hb.get?_of_isEmpty h]
    rfl

theorem same_empty_merge (ha : a.Consistent) (hb : b.Consistent) (h : a.isEmpty = true) :
    (a.merge b).Same b where
  order := by
    have horder : a.order = [] := List.isEmpty_iff.mp h
    rw [order_merge hb, horder, List.nil_append]
    refine List.filter_eq_self.mpr fun key _ => ?_
    rw [contains_eq_isSome, ha.get?_of_isEmpty h]
    rfl
  get? key := by
    rw [hb.get?_merge, ha.get?_of_isEmpty h]
    cases b.get? key <;> rfl

theorem same_merge_assoc (hb : b.Consistent) (hc : c.Consistent) :
    ((a.merge b).merge c).Same (a.merge (b.merge c)) where
  order := by
    have hnew : (fun key => !(a.merge b).contains key) =
        fun key => !a.contains key && !b.contains key := by
      funext key
      rw [contains_merge hb, Bool.not_or]
    rw [order_merge hc, order_merge hb, order_merge hb.merge, order_merge hc, hnew,
      List.filter_append, List.filter_filter, List.append_assoc]
  get? key := by
    rw [hc.get?_merge, hb.get?_merge, hb.merge.get?_merge, hc.get?_merge]
    cases a.get? key <;> cases b.get? key <;> cases c.get? key <;> rfl

end Dict

/-! ## The operator -/

namespace Operator

variable {σ : Store} {i j k : HashId} {pos : Position}

/-- `a + b` makes a new hash, and does nothing else. -/
theorem binary_add_hash : binary .add (.hash i) (.hash j) pos σ =
    .ok (.hash ⟨σ.hashes.size⟩, (σ.newDict ((σ.dict i).merge (σ.dict j))).2) := rfl

/-- What comes after `a + b` goes on with the new hash. -/
theorem binary_add_hash_bind {α : Type} (next : Value → Atomic α) :
    (binary .add (.hash i) (.hash j) pos >>= next) σ =
      next (.hash ⟨σ.hashes.size⟩) (σ.newDict ((σ.dict i).merge (σ.dict j))).2 := rfl

/-- Consistent hashes with `+` are a monoid.  Values come from the right, places and the
form of keys from the left. -/
theorem add_hashes_monoid (pos : Position) (hi : i.index < σ.hashes.size)
    (hj : j.index < σ.hashes.size) (hk : k.index < σ.hashes.size) (ha : (σ.dict i).Consistent)
    (hb : (σ.dict j).Consistent) (hc : (σ.dict k).Consistent) :
    (∃ sum τ, binary .add (.hash i) (.hash j) pos σ = .ok (.hash sum, τ) ∧
      τ = (σ.newDict (τ.dict sum)).2 ∧ τ.dict i = σ.dict i ∧ τ.dict j = σ.dict j ∧
      (σ.dict i).IsSum (σ.dict j) (τ.dict sum) ∧
      ((σ.dict j).isEmpty = true → (τ.dict sum).Same (σ.dict i)) ∧
      ((σ.dict i).isEmpty = true → (τ.dict sum).Same (σ.dict j))) ∧
    ∃ left right τ τ',
      (binary .add (.hash i) (.hash j) pos >>= fun ab => binary .add ab (.hash k) pos) σ =
        .ok (.hash left, τ) ∧
      (binary .add (.hash j) (.hash k) pos >>= fun bc => binary .add (.hash i) bc pos) σ =
        .ok (.hash right, τ') ∧
      (τ.dict left).Same (τ'.dict right) := by
  constructor
  · refine ⟨_, _, binary_add_hash, ?_, Store.dict_newDict_of_lt hi _, Store.dict_newDict_of_lt hj _,
      ?_, ?_, ?_⟩
    all_goals rw [Store.dict_newDict]
    · exact Dict.isSum_merge ha hb
    · exact Dict.same_merge_empty hb
    · exact Dict.same_empty_merge ha hb
  · refine ⟨_, _, _, _, (binary_add_hash_bind _).trans binary_add_hash,
      (binary_add_hash_bind _).trans binary_add_hash, ?_⟩
    simp only [Store.dict_newDict, Store.dict_newDict_of_lt hk, Store.dict_newDict_of_lt hi]
    exact Dict.same_merge_assoc hb hc

/-- A hash with integers for keys. -/
def counts (keys : List Int64) (v : Value) : Dict :=
  (keys.map fun k => ⟨.ofInt k, v⟩).foldl Dict.file .empty

theorem consistent_counts (keys : List Int64) (v : Value) : (counts keys v).Consistent :=
  Dict.Consistent.empty.foldl_file

/-- Three hashes with keys in common. -/
def overlapping : Store :=
  { hashes := #[counts [1, 2] (.ofInt 0), counts [3, 2] (.ofBool true), counts [1, 3] .nothing] }

theorem add_overlapping_hashes :
    ∃ sum τ, binary .add (.hash ⟨0⟩) (.hash ⟨1⟩) default overlapping = .ok (.hash sum, τ) ∧
      τ.dict ⟨0⟩ = counts [1, 2] (.ofInt 0) ∧ τ.dict ⟨1⟩ = counts [3, 2] (.ofBool true) ∧
      ((τ.dict sum).get? (.ofInt 1)).map (·.value) = some (.ofInt 0) ∧
      ((τ.dict sum).get? (.ofInt 2)).map (·.value) = some (.ofBool true) := by
  have hmonoid := add_hashes_monoid (σ := overlapping) (i := ⟨0⟩) (j := ⟨1⟩) (k := ⟨2⟩) default
    (by decide) (by decide) (by decide) (consistent_counts _ _) (consistent_counts _ _)
    (consistent_counts _ _)
  obtain ⟨⟨sum, τ, hrun, -, hleft, hright, hsum, -, -⟩, -⟩ := hmonoid
  have left : ∀ key, (overlapping.dict ⟨0⟩).get? key =
      (counts [1, 2] (.ofInt 0)).get? key := fun _ => rfl
  have right : ∀ key, (overlapping.dict ⟨1⟩).get? key =
      (counts [3, 2] (.ofBool true)).get? key := fun _ => rfl
  refine ⟨sum, τ, hrun, hleft, hright, ?_, ?_⟩
  all_goals
    rw [hsum.value, left, right]
    simp +decide [counts, Dict.file, Value.key?, Value.ofInt, Dict.get?_insert, Dict.get?_empty,
      Key.ofInt]

end Operator
end TreeWalk
