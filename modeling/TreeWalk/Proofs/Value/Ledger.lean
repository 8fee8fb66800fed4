/-
Hashes as lists of entries.

A hash keeps its entries in a table, and beside it the order in which their keys came
in.  A ledger keeps the entries in one list and searches it from the front.  It says
what a hash does without any table: a key that is there gets a new value where it
stands, a new key goes last, and a key that is taken out leaves its place, so that it
goes last when it comes back.

`Shows` relates a hash to the ledger it amounts to.  One change keeps the two related
and answers the same on both, so a run of changes from nothing does, too.
-/
import TreeWalk.Proofs.Value.Dict

namespace TreeWalk

/-- Entries under their keys, in order of insertion. -/
abbrev Ledger := List (Key × Entry)

namespace Ledger

def find? : Ledger → Key → Option Entry
  | [], _ => none
  | (held, e) :: rest, hash => if held = hash then some e else find? rest hash

/-- Gives a key another value where it stands, or puts it last; answers the value that
it had. -/
def put : Ledger → Key → Value → Value → Option Value × Ledger
  | [], hash, key, value => (none, [(hash, ⟨key, value⟩)])
  | (held, e) :: rest, hash, key, value =>
    if held = hash then (some e.value, (held, { e with value := value }) :: rest)
    else ((put rest hash key value).1, (held, e) :: (put rest hash key value).2)

/-- Takes the entry of a key out of the list, and answers it. -/
def take : Ledger → Key → Option Entry × Ledger
  | [], _ => (none, [])
  | (held, e) :: rest, hash =>
    if held = hash then (some e, rest) else ((take rest hash).1, (held, e) :: (take rest hash).2)

def order (l : Ledger) : List Key := l.map (·.1)

def entries (l : Ledger) : List Entry := l.map (·.2)

variable {l rest : Ledger} {hash other held : Key} {key value : Value} {e : Entry}

theorem order_cons : order ((held, e) :: rest) = held :: rest.order := rfl

theorem find?_cons_self : find? ((hash, e) :: rest) hash = some e := if_pos rfl

theorem find?_cons_of_ne (h : held ≠ hash) : find? ((held, e) :: rest) hash = rest.find? hash :=
  if_neg h

theorem isSome_find?_iff : (l.find? hash).isSome = true ↔ hash ∈ l.order := by
  induction l with
  | nil => simp [find?, order]
  | cons first rest ih =>
    obtain ⟨held, e⟩ := first
    by_cases h : held = hash
    · simp [find?, order, h]
    · simpa [find?, order, h, Ne.symm h] using ih

theorem isSome_find?_eq_any : (l.find? hash).isSome = l.any (·.1 = hash) := by
  rw [Bool.eq_iff_iff, isSome_find?_iff]
  simp [order]

/-! ## What a change does to the list -/

theorem fst_put : (l.put hash key value).1 = (l.find? hash).map (·.value) := by
  induction l with
  | nil => rfl
  | cons first rest ih =>
    obtain ⟨held, e⟩ := first
    by_cases h : held = hash
    · simp [put, find?, h]
    · simpa [put, find?, h] using ih

/-- A key that is there keeps the form in which it was first given. -/
theorem find?_put : (l.put hash key value).2.find? other =
    if hash = other then some ⟨((l.find? hash).map (·.key)).getD key, value⟩ else l.find? other := by
  induction l with
  | nil => rfl
  | cons first rest ih =>
    obtain ⟨held, e⟩ := first
    by_cases h : held = hash
    · subst h
      by_cases ho : held = other <;> simp [put, find?, ho]
    · by_cases ho : held = other
      · subst ho
        simp [put, find?, h, Ne.symm h]
      · simpa [put, find?, h, ho] using ih

/-- A key that is there keeps its place, and a new one goes last. -/
theorem order_put : (l.put hash key value).2.order =
    if (l.find? hash).isSome then l.order else l.order ++ [hash] := by
  induction l with
  | nil => rfl
  | cons first rest ih =>
    obtain ⟨held, e⟩ := first
    by_cases h : held = hash
    · simp [put, find?, order, h]
    · have hrest : (put ((held, e) :: rest) hash key value).2.order =
          held :: (put rest hash key value).2.order := by simp [put, order, h]
      rw [hrest, find?_cons_of_ne h, ih]
      split
      · rfl
      · rfl

theorem fst_take : (l.take hash).1 = l.find? hash := by
  induction l with
  | nil => rfl
  | cons first rest ih =>
    obtain ⟨held, e⟩ := first
    by_cases h : held = hash
    · simp [take, find?, h]
    · simpa [take, find?, h] using ih

theorem order_take : (l.take hash).2.order = l.order.erase hash := by
  induction l with
  | nil => rfl
  | cons first rest ih =>
    obtain ⟨held, e⟩ := first
    by_cases h : held = hash
    · simp [take, order, h]
    · have hrest : (take ((held, e) :: rest) hash).2.order = held :: (take rest hash).2.order := by
        simp [take, order, h]
      rw [hrest, ih, order_cons, List.erase_cons_tail (by simpa using h)]

/-- What was taken out is gone, as each key stands in the list once. -/
theorem find?_take (hdistinct : l.order.Nodup) :
    (l.take hash).2.find? other = if hash = other then none else l.find? other := by
  induction l with
  | nil =>
    split
    · rfl
    · rfl
  | cons first rest ih =>
    obtain ⟨held, e⟩ := first
    rw [order_cons, List.nodup_cons] at hdistinct
    by_cases h : held = hash
    · subst h
      by_cases ho : held = other
      · subst ho
        have hout : (find? rest held).isSome = false := by
          rw [Bool.eq_false_iff, Ne, isSome_find?_iff]
          exact hdistinct.1
        simpa [take] using hout
      · simp [take, find?, ho]
    · by_cases ho : held = other
      · subst ho
        simp [take, find?, h, Ne.symm h]
      · simpa [take, find?, h, ho] using ih hdistinct.2

/-- Looking up the keys in order walks through the entries. -/
theorem filterMap_order (hdistinct : l.order.Nodup) : l.order.filterMap l.find? = l.entries := by
  induction l with
  | nil => rfl
  | cons first rest ih =>
    obtain ⟨held, e⟩ := first
    rw [order_cons, List.nodup_cons] at hdistinct
    have hlater : ∀ k ∈ order rest, find? ((held, e) :: rest) k = find? rest k := fun k hk =>
      find?_cons_of_ne fun heq => hdistinct.1 (heq ▸ hk)
    rw [order_cons, List.filterMap_cons_some find?_cons_self, List.filterMap_congr hlater,
      ih hdistinct.2]
    rfl

end Ledger

namespace Dict

/-- The hash holds the entries of the ledger, under their keys and in their order. -/
structure Shows (d : Dict) (l : Ledger) : Prop where
  distinct : l.order.Nodup
  order : d.order = l.order
  get? : ∀ hash, d.get? hash = l.find? hash

namespace Shows

variable {d : Dict} {l : Ledger} {hash : Key} {key value : Value}

theorem empty : Dict.empty.Shows [] := ⟨List.nodup_nil, rfl, fun _ => get?_empty⟩

theorem contains (h : d.Shows l) : d.contains hash = (l.find? hash).isSome := by
  rw [← h.get?]
  exact Std.HashMap.contains_eq_isSome_getElem?

theorem insert (h : d.Shows l) : (d.insert hash key value).Shows (l.put hash key value).2 := by
  refine ⟨?_, ?_, fun other => ?_⟩
  · rw [Ledger.order_put]
    split
    · exact h.distinct
    · next hout =>
      rw [Ledger.isSome_find?_iff] at hout
      refine h.distinct.append (List.nodup_singleton hash) fun k hk hk' => ?_
      exact hout (List.mem_singleton.mp hk' ▸ hk)
  · rw [order_insert, Ledger.order_put, h.contains, h.order]
  · rw [get?_insert, Ledger.find?_put, h.get?, h.get?]

theorem erase (h : d.Shows l) : (d.erase hash).Shows (l.take hash).2 := by
  refine ⟨?_, ?_, fun other => ?_⟩
  · rw [Ledger.order_take]
    exact h.distinct.erase hash
  · rw [Ledger.order_take]
    unfold Dict.erase
    split
    · exact congrArg (·.erase hash) h.order
    · next hout =>
      rw [h.contains, Ledger.isSome_find?_iff] at hout
      rw [List.erase_of_not_mem hout]
      exact h.order
  · rw [get?_erase, Ledger.find?_take h.distinct, h.get?]

/-- Walking through the hash is walking through the ledger. -/
theorem toList (h : d.Shows l) : d.toList = l.entries := by
  unfold Dict.toList
  rw [h.order, funext h.get?]
  exact Ledger.filterMap_order h.distinct

end Shows

/-! ## Runs of changes -/

/-- A change of a hash: a value filed under a key, or a key taken out. -/
inductive Change where
  | put (hash : Key) (key value : Value)
  | take (hash : Key)

/-- What a change answers: the value that was replaced, or the entry taken out. -/
inductive Answer where
  | replaced (old : Option Value)
  | taken (entry : Option Entry)

namespace Change

def onDict : Change → Dict → Answer × Dict
  | put hash key value, d => (d.put hash key value).map .replaced id
  | take hash, d => (d.take hash).map .taken id

def onLedger : Change → Ledger → Answer × Ledger
  | put hash key value, l => (l.put hash key value).map .replaced id
  | take hash, l => (l.take hash).map .taken id

/-- Makes changes in turn, and collects what they answer. -/
def perform {α : Type} (step : Change → α → Answer × α) : List Change → α → List Answer × α
  | [], a => ([], a)
  | c :: rest, a =>
    ((step c a).1 :: (perform step rest (step c a).2).1, (perform step rest (step c a).2).2)

variable {d : Dict} {l : Ledger}

theorem shows_step (h : d.Shows l) (c : Change) :
    (c.onDict d).1 = (c.onLedger l).1 ∧ (c.onDict d).2.Shows (c.onLedger l).2 := by
  cases c with
  | put hash key value =>
    refine ⟨congrArg Answer.replaced ?_, h.insert⟩
    rw [Ledger.fst_put, ← h.get?]
  | take hash =>
    refine ⟨congrArg Answer.taken ?_, h.erase⟩
    rw [Ledger.fst_take, ← h.get?]

theorem shows_perform (h : d.Shows l) (changes : List Change) :
    (perform onDict changes d).1 = (perform onLedger changes l).1 ∧
      (perform onDict changes d).2.Shows (perform onLedger changes l).2 := by
  induction changes generalizing d l with
  | nil => exact ⟨rfl, h⟩
  | cons c rest ih =>
    obtain ⟨hanswer, hshows⟩ := shows_step h c
    obtain ⟨hanswers, hend⟩ := ih hshows
    exact ⟨List.cons_eq_cons.mpr ⟨hanswer, hanswers⟩, hend⟩

end Change

/-- After any changes of an empty hash, in which keys are filed, replaced, taken out and
filed again, the hash has answered each change as the ledger did, and answers every
question as the ledger does. -/
theorem refines_ledger (changes : List Change) :
    let run := Change.perform Change.onDict changes .empty
    let reference := Change.perform Change.onLedger changes []
    run.1 = reference.1 ∧
      (∀ hash, run.2.get? hash = reference.2.find? hash) ∧
      (∀ hash, run.2.contains hash = reference.2.any (·.1 = hash)) ∧
      run.2.size = reference.2.length ∧
      run.2.isEmpty = reference.2.isEmpty ∧
      run.2.order = reference.2.map (·.1) ∧
      run.2.toList = reference.2.map (·.2) ∧
      run.2.keys = reference.2.map (·.2.key) ∧
      run.2.values = reference.2.map (·.2.value) := by
  intro run reference
  obtain ⟨hanswers, hshows⟩ := Change.shows_perform .empty changes
  have hlist := hshows.toList
  refine ⟨hanswers, hshows.get?, fun hash => ?_, ?_, ?_, hshows.order, hlist, ?_, ?_⟩
  · exact hshows.contains.trans Ledger.isSome_find?_eq_any
  · exact (congrArg List.length hshows.order).trans (List.length_map _)
  · exact (congrArg List.isEmpty hshows.order).trans List.isEmpty_map
  · unfold keys
    rw [hlist]
    exact List.map_map
  · unfold values
    rw [hlist]
    exact List.map_map

end Dict
end TreeWalk
