/-
Suggestions that can be followed.

What is suggested for a name that is not found is taken from lists: of the names seen from
a scope, those of the host, of the modules and of the language, or of the members of a
value.  A name is on such a list if and only if it can be found, so whoever follows the
suggestion finds something.
-/
import TreeWalk.Proofs.Eval.Diagnosis

namespace TreeWalk

open Eval

variable {σ : Store} {scope : ScopeId} {name n s : String} {pos : Position} {v : Value} {e : Exit}

/-- The name that is suggested when one is not found. -/
def Cause.suggestion? : Cause → Option String
  | unknownIdentifier _ s => s
  | noMethod _ _ s => s
  | unknownMember _ _ s => s
  | _ => none

def Exit.suggestion? : Exit → Option String
  | error e => e.cause.suggestion?
  | _ => none

theorem Suggest.mem_of_similar {candidates : List String} (h : similar name candidates = some s) :
    s ∈ candidates := (mem_others.mp (mem_others_of_similar h)).1

/-! ## The functions of the language -/

namespace Native

/-- The function of a name among the entries of a table from `lo` up to `hi`.  Each round
looks at the middle one of those in doubt. -/
def halve (table : List Native) (name : String) (lo hi : Nat) (hhi : hi ≤ table.length) :
    Option Native :=
  if h : lo < hi then
    let mid := lo + (hi - lo) / 2
    have hmid : mid < table.length := by omega
    if table[mid].name = name then some table[mid]
    else if table[mid].name < name then halve table name (mid + 1) hi hhi
    else halve table name lo mid (by omega)
  else none
termination_by hi - lo

/-- The function of a name, found by halving the table. -/
def search (name : String) : Option Native := halve builtins name 0 builtins.length (Nat.le_refl _)

/-- The names of the table are in alphabetical order. -/
def Alphabetical (table : List Native) : Prop := table.Pairwise fun f g => f.name < g.name

theorem alphabetical_builtins : Alphabetical builtins := by
  unfold Alphabetical
  decide

theorem Alphabetical.le {table : List Native} (h : Alphabetical table) {i j : Nat} (hij : i ≤ j)
    (hj : j < table.length) : table[i].name ≤ table[j].name := by
  rcases Nat.lt_or_eq_of_le hij with hlt | rfl
  · exact le_of_lt (List.pairwise_iff_getElem.mp h i j (by omega) hj hlt)
  · exact le_refl _

variable {table : List Native} {lo hi k : Nat} {hhi : hi ≤ table.length} {f : Native}

theorem found_of_halve (h : halve table name lo hi hhi = some f) : f ∈ table ∧ f.name = name := by
  fun_induction halve table name lo hi hhi with
  | case1 lo hi hhi hlt mid hmid hname =>
    cases h
    exact ⟨List.getElem_mem hmid, hname⟩
  | case2 lo hi hhi hlt mid hmid hname hbefore ih => exact ih h
  | case3 lo hi hhi hlt mid hmid hname hbefore ih => exact ih h
  | case4 => cases h

/-- An entry of the name that stands among those in doubt stays among them. -/
theorem isSome_halve (hsorted : Alphabetical table) (hlo : lo ≤ k) (hk : k < hi)
    (hname : table[k].name = name) : (halve table name lo hi hhi).isSome = true := by
  fun_induction halve table name lo hi hhi with
  | case1 => rfl
  | case2 lo hi hhi hlt mid hmid hother hbefore ih =>
    have hbehind : mid < k := by
      by_contra hle
      have hle' : table[k].name ≤ table[mid].name := hsorted.le (by omega) hmid
      exact absurd hbefore (not_lt_of_ge (hname ▸ hle'))
    exact ih (by omega) hk hname
  | case3 lo hi hhi hlt mid hmid hother hnot ih =>
    have hbefore : k < mid := by
      by_contra hle
      have hle' : table[mid].name ≤ table[k].name := hsorted.le (by omega) (by omega)
      exact hnot (lt_of_le_of_ne (hname ▸ hle') hother)
    exact ih hlo hbefore hname
  | case4 lo hi hhi hge => omega

/-- Halving finds the function that stands in the table under the name, if there is one. -/
theorem search_eq (name : String) : search name = ofName? name := by
  cases hsearch : search name with
  | some f =>
    obtain ⟨hmem, rfl⟩ := found_of_halve hsearch
    exact (ofName?_name hmem).symm
  | none =>
    refine (List.find?_eq_none.mpr fun f hf hname => ?_).symm
    obtain ⟨k, hk, rfl⟩ := List.getElem_of_mem hf
    have hfound : (search name).isSome = true :=
      isSome_halve alphabetical_builtins (Nat.zero_le k) hk (by simpa using hname)
    rw [hsearch] at hfound
    cases hfound

theorem mem_names_iff : n ∈ builtins.map Native.name ↔ (ofName? n).isSome = true := by
  simp [ofName?, List.find?_isSome]

end Native

/-! ## Names -/

/-- The modules list the names that are found among them. -/
theorem Store.mem_moduleNames_iff : n ∈ σ.moduleNames ↔ (σ.moduleMember? n).isSome = true := by
  unfold moduleNames moduleMember?
  constructor
  · intro h
    obtain ⟨m, hm, hn⟩ := List.mem_flatMap.mp h
    split
    · rfl
    · next hnone =>
      have hother : n ≠ m.name := by
        rintro rfl
        simpa using List.find?_eq_none.mp hnone m hm
      have hmember : (σ.getLocal? m.scope n).isSome = true :=
        (Assoc.mem_names_iff_get?_isSome _ n).mp ((List.mem_cons.mp hn).resolve_left hother)
      rw [List.isSome_findSome?, List.any_eq_true]
      exact ⟨m, hm, hmember⟩
  · intro h
    refine List.mem_flatMap.mpr ?_
    split at h
    · next m hm =>
      refine ⟨m, List.mem_of_find?_eq_some hm, ?_⟩
      have hname : m.name = n := by simpa using List.find?_some hm
      exact hname ▸ List.mem_cons_self
    · rw [List.isSome_findSome?, List.any_eq_true] at h
      obtain ⟨m, hm, hmember⟩ := h
      exact ⟨m, hm, List.mem_cons_of_mem _ ((Assoc.mem_names_iff_get?_isSome _ n).mpr hmember)⟩

namespace Access

open Atomic

/-- The names that are searched for a similar one are those that stand for something. -/
theorem mem_known_iff_resolves :
    n ∈ σ.names scope ++ σ.registry.names ++ σ.moduleNames ++ Native.builtins.map Native.name ↔
      (resolve? σ scope n).isSome = true := by
  unfold resolve?
  simp only [List.mem_append, Option.isSome_or, Option.isSome_map, Bool.or_eq_true,
    Store.mem_names_iff, Store.mem_moduleNames_iff, Native.mem_names_iff,
    Assoc.mem_names_iff_get?_isSome]
  tauto

/-- A name that stands for something, seen from a scope. -/
def Known (σ : Store) (scope : ScopeId) (n : String) : Prop :=
  ∃ v, ∀ pos, lookup scope n pos σ = .ok (v, σ)

/-- A name of a member of a value. -/
def HasMember (σ : Store) (v : Value) (n : String) : Prop :=
  ∃ w, ∀ pos, member v n pos σ = .ok (w, σ)

theorem known_of_resolves (h : (resolve? σ scope n).isSome = true) : Known σ scope n := by
  obtain ⟨v, hv⟩ := Option.isSome_iff_exists.mp h
  refine ⟨v, fun pos => ?_⟩
  rw [lookup, read_bind_apply, hv]
  rfl

theorem suggested_known (h : lookup scope name pos σ = .error e) (hs : e.suggestion? = some s) :
    Known σ scope s := by
  rw [lookup, read_bind_apply] at h
  cases hresolve : resolve? σ scope name with
  | some v =>
    rw [hresolve] at h
    cases h
  | none =>
    rw [hresolve] at h
    cases h
    exact known_of_resolves (mem_known_iff_resolves.mp (Suggest.mem_of_similar hs))

variable (hv : v.memberScope? = some scope)
include hv

theorem hasMember_of_mem (h : n ∈ (σ.members scope).names) : HasMember σ v n := by
  obtain ⟨w, hw⟩ := Option.isSome_iff_exists.mp ((Assoc.mem_names_iff_get?_isSome _ n).mp h)
  refine ⟨w, fun pos => ?_⟩
  have hlocal : σ.getLocal? scope n = some w := hw
  simp only [member, hv, read_bind_apply, hlocal]
  rfl

theorem suggested_of_failMember {α : Type}
    (h : (failMember v scope name pos : Atomic α) σ = .error e) (hs : e.suggestion? = some s) :
    HasMember σ v s := by
  cases h
  exact hasMember_of_mem hv (Suggest.mem_of_similar hs)

theorem suggested_hasMember (h : member v name pos σ = .error e) (hs : e.suggestion? = some s) :
    HasMember σ v s := by
  simp only [member, hv, read_bind_apply] at h
  cases hlocal : σ.getLocal? scope name with
  | some w =>
    rw [hlocal] at h
    cases h
  | none =>
    rw [hlocal] at h
    exact suggested_of_failMember hv h hs

end Access

namespace Method

open Access

variable {ev : Evaluator} {f : Fiber} {values : List Value}

/-- Calling a member calls a function, or ends at once; if it fails then, members are all
that is suggested. -/
theorem call_member_cases (hv : v.memberScope? = some scope) :
    (∃ w, σ.getLocal? scope name = some w ∧ w.isCallable = true ∧
      call ev v name values f σ = ev.callBack w values f σ) ∨
    ∃ r, call ev v name values f σ = .done r f σ ∧
      ∀ e s, r = .error e → e.suggestion? = some s → HasMember σ v s := by
  have hfails : ∃ r, lift (failMember v scope name f.pos : Atomic Value) f σ = .done r f σ ∧
      ∀ e s, r = .error e → e.suggestion? = some s → HasMember σ v s := by
    refine ⟨_, rfl, fun e s he hs => ?_⟩
    have hfailed : (failMember v scope name f.pos : Atomic Value) σ = .error e := by
      rw [← Except.error.inj he]
      rfl
    exact suggested_of_failMember hv hfailed hs
  have hanswers : ∀ w : Value, ∃ r, (pure w : Eval Value) f σ = .done r f σ ∧
      ∀ e s, r = .error e → e.suggestion? = some s → HasMember σ v s := fun w =>
    ⟨.ok w, rfl, fun e s he => nomatch he⟩
  have hread : ∀ k : Option Value → Eval Value,
      (Eval.read (·.getLocal? scope name) >>= k) f σ = k (σ.getLocal? scope name) f σ :=
    fun _ => rfl
  rw [call_of_memberScope? hv]
  unfold onMembers
  rw [hread]
  cases hlocal : σ.getLocal? scope name with
  | some w =>
    dsimp only
    split
    · next hcallable => exact .inl ⟨w, rfl, hcallable, rfl⟩
    · split
      · exact .inr (hanswers w)
      · exact .inr hfails
  | none =>
    dsimp only
    split
    · exact .inr (hanswers _)
    · exact .inr hfails

end Method

/-- In every state, a name that is suggested for one that is not found can be looked up
there, and one that is suggested for a member that is missing, or for a method of a struct,
an enum or a module, is a member of that value.  Calling such a method ends at once unless a
function is found under the name.  The functions of the language are found by halving their
table, which comes to the same as going through it. -/
theorem suggestions_resolve :
    (∀ σ scope name pos e s, Access.lookup scope name pos σ = .error e → e.suggestion? = some s →
      Access.Known σ scope s) ∧
    (∀ σ v scope name pos e s, v.memberScope? = some scope →
      Access.member v name pos σ = .error e → e.suggestion? = some s → Access.HasMember σ v s) ∧
    (∀ ev v scope name values f σ, v.memberScope? = some scope →
      (∃ w, σ.getLocal? scope name = some w ∧ w.isCallable = true ∧
        Method.call ev v name values f σ = ev.callBack w values f σ) ∨
      ∃ r, Method.call ev v name values f σ = .done r f σ ∧
        ∀ e s, r = .error e → e.suggestion? = some s → Access.HasMember σ v s) ∧
    ∀ name, Native.search name = Native.ofName? name :=
  ⟨fun _ _ _ _ _ _ h hs => Access.suggested_known h hs,
    fun _ _ _ _ _ _ _ hv h hs => Access.suggested_hasMember hv h hs,
    fun _ _ _ _ _ _ _ hv => Method.call_member_cases hv, Native.search_eq⟩

/-- A variable, a function of the language and a member that are misspelt. -/
theorem suggestions_resolve_misspelt :
    let σ : Store := single [("alpha", .ofInt 1), ("beta", .ofInt 2)]
    Access.Known σ ⟨0⟩ "alpha" ∧ Access.Known σ ⟨0⟩ "println" ∧
      Access.HasMember σ (.struct ⟨0⟩ []) "beta" := by
  intro σ
  obtain ⟨hlookup, hmember, -, -⟩ := suggestions_resolve
  have halpha : Access.lookup ⟨0⟩ "alphc" .unknown σ =
      .error (.error ⟨.unknownIdentifier "alphc" (some "alpha"), .unknown⟩) := rfl
  have hprintln : Access.lookup ⟨0⟩ "prinln" .unknown σ =
      .error (.error ⟨.unknownIdentifier "prinln" (some "println"), .unknown⟩) := rfl
  have hbeta : Access.member (.struct ⟨0⟩ []) "bet" .unknown σ =
      .error (.error ⟨.unknownMember "bet" "STRUCT" (some "beta"), .unknown⟩) := rfl
  exact ⟨hlookup _ _ _ _ _ _ halpha rfl, hlookup _ _ _ _ _ _ hprintln rfl,
    hmember _ _ _ _ _ _ _ rfl hbeta rfl⟩

end TreeWalk
