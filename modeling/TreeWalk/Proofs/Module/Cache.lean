/-
Includes nested in any way.

The evaluation of a unit may include further units, catch that such an include
fails, and end in any way itself.  `Script` is whatever a task can do with the cache
so, and `run` carries it out with `includeWith`, keeping a journal of the includes
that have ended.

However includes are nested and end, the chain of paths being evaluated is back to
what it was when an include ends; the table and its order agree; a path is evaluated
with success at most once, and every include that succeeds answers the module made
then.  The argument is that a path being evaluated is never in the table, so nothing
inside its evaluation can put it there.
-/
import Mathlib.Data.List.Nodup
import TreeWalk.Module.Cache

namespace TreeWalk

namespace ModuleCache

/-- The order lists the paths in the table, each of them once, and no path being
evaluated is in the table. -/
structure Coherent (cache : ModuleCache) : Prop where
  nodup : cache.order.Nodup
  mem_order : ∀ path, path ∈ cache.order ↔ (cache.get? path).isSome = true
  fresh : ∀ path ∈ cache.loading, cache.get? path = none

variable {cache : ModuleCache} {path other : String} {made : Module}

theorem coherent_empty : empty.Coherent := by
  refine ⟨List.nodup_nil, fun path => ?_, fun path h => nomatch h⟩
  simp [empty, get?]

theorem get?_finish :
    (cache.finish path made).get? other = if path = other then some made else cache.get? other := by
  unfold finish get?
  simp only [Std.HashMap.getElem?_insert, beq_iff_eq]

theorem Coherent.begin (h : cache.Coherent) (hnew : cache.get? path = none) :
    (cache.begin path).Coherent := by
  refine ⟨h.nodup, h.mem_order, fun other hother => ?_⟩
  rcases List.mem_cons.mp hother with rfl | hother
  · exact hnew
  · exact h.fresh other hother

theorem Coherent.leave (h : cache.Coherent) : (cache.leave path).Coherent :=
  ⟨h.nodup, h.mem_order, fun other hother => h.fresh other (List.mem_of_mem_erase hother)⟩

theorem Coherent.finish (h : cache.Coherent) (hnew : cache.get? path = none)
    (hout : path ∉ cache.loading) : (cache.finish path made).Coherent := by
  have hnot : path ∉ cache.order := by
    rw [h.mem_order, hnew]
    exact Bool.false_ne_true
  refine ⟨?_, fun other => ?_, fun other hother => ?_⟩
  · refine h.nodup.append (List.nodup_singleton path) fun other hother hsame => ?_
    obtain rfl := List.mem_singleton.mp hsame
    exact hnot hother
  · rw [get?_finish]
    change other ∈ cache.order ++ [path] ↔ _
    rw [List.mem_append, List.mem_singleton, h.mem_order]
    by_cases heq : path = other
    · simp [heq]
    · rw [if_neg heq]
      exact or_iff_left fun h => heq h.symm
  · have hne : path ≠ other := fun heq => hout (heq ▸ hother)
    rw [get?_finish, if_neg hne]
    exact h.fresh other hother

end ModuleCache

open ModuleCache

/-! ## Scripts and journals -/

/-- The failure of an include of a path that is being evaluated. -/
def cyclicInclude (path : String) (pos : Position) : Exit :=
  .error ⟨.includeFailed path "cyclic include", pos⟩

/-- An include that has ended. -/
structure Inclusion where
  path : String
  pos : Position
  before : ModuleCache
  after : ModuleCache
  /-- How the evaluation of the unit ended, if this include evaluated it. -/
  evaluation : Option (Except Exit Module)
  result : Except Exit Module

namespace Inclusion

/-- The include evaluated its unit, and made a module. -/
def succeeds (i : Inclusion) : Bool :=
  match i.evaluation with
  | some (.ok _) => true
  | _ => false

/-- What holds of an include, however it ended. -/
structure Sound (i : Inclusion) : Prop where
  chain : i.after.loading = i.before.loading
  coherent : i.after.Coherent
  present : (i.after.get? i.path).isSome = true ↔
    (i.before.get? i.path).isSome = true ∨ i.succeeds = true
  made : ∀ m, i.evaluation = some (.ok m) → i.result = .ok m
  cyclic : i.path ∈ i.before.loading →
    i.result = .error (cyclicInclude i.path i.pos) ∧ i.after = i.before ∧ i.evaluation = none

end Inclusion

/-- A cache, the includes that have ended, and how the last evaluation ended. -/
structure Journal where
  cache : ModuleCache
  ended : List Inclusion
  evaluation : Option (Except Exit Module)

namespace Journal

def start (cache : ModuleCache) : Journal := ⟨cache, [], none⟩

instance : MonadStateOf ModuleCache (StateM Journal) where
  get := fun j => (j.cache, j)
  set cache := fun j => ((), { j with cache := cache })
  modifyGet g := fun j =>
    let (a, cache) := g j.cache
    (a, { j with cache := cache })

/-- Evaluates a unit and notes how that ended. -/
def noted (evaluate : StateM Journal (Except Exit Module)) : StateM Journal (Except Exit Module) :=
  fun j =>
    let (result, j) := evaluate j
    (result, { j with evaluation := some result })

/-- Includes a path and enters that in the journal. -/
def including (path : String) (pos : Position) (evaluate : StateM Journal (Except Exit Module)) :
    StateM Journal (Except Exit Module) := fun j =>
  let (result, j') :=
    includeWith path (cyclicInclude path pos) (noted evaluate) { j with evaluation := none }
  (result, { j' with
    ended := j'.ended ++ [⟨path, pos, j.cache, j'.cache, j'.evaluation, result⟩] })

/-- How many includes have made a module for the path. -/
def successes (j : Journal) (path : String) : Nat :=
  j.ended.countP fun i => i.path = path && i.succeeds

end Journal

/-- What a task does with the cache: it looks at it, and includes paths, whose units
are evaluated by scripts as well, and goes on however that ends. -/
inductive Script where
  | done (result : Except Exit Module)
  | look (next : ModuleCache → Script)
  | load (path : String) (pos : Position) (unit : Script) (next : Except Exit Module → Script)

def Script.run : Script → StateM Journal (Except Exit Module)
  | done result => pure result
  | look next => fun j => (next j.cache).run j
  | load path pos unit next => do
    let result ← Journal.including path pos unit.run
    (next result).run

/-! ## One include -/

namespace Journal

variable {j j' j'' : Journal} {path : String} {pos : Position}
  {evaluate : StateM Journal (Except Exit Module)}

/-- The cache when the evaluation of a unit has ended. -/
def closed (cache : ModuleCache) (path : String) : Except Exit Module → ModuleCache
  | .ok made => (cache.leave path).finish path made
  | .error _ => cache.leave path

theorem bind_eq {α β : Type} (x : StateM Journal α) (next : α → StateM Journal β) (j : Journal) :
    (x >>= next) j = next (x j).1 (x j).2 := rfl

theorem get_eq (j : Journal) : (get : StateM Journal ModuleCache) j = (j.cache, j) := rfl

theorem including_found {m : Module} (h : j.cache.get? path = some m) :
    including path pos evaluate j =
      (.ok m, ⟨j.cache, j.ended ++ [⟨path, pos, j.cache, j.cache, none, .ok m⟩], none⟩) := by
  have hend : includeWith path (cyclicInclude path pos) (noted evaluate)
      { j with evaluation := none } = (.ok m, { j with evaluation := none }) := by
    unfold includeWith
    rw [bind_eq, get_eq]
    simp only [h]
    rfl
  unfold including
  rw [hend]

theorem including_cyclic (h : j.cache.get? path = none) (hin : path ∈ j.cache.loading) :
    including path pos evaluate j =
      (.error (cyclicInclude path pos),
        ⟨j.cache, j.ended ++ [⟨path, pos, j.cache, j.cache, none,
          .error (cyclicInclude path pos)⟩], none⟩) := by
  have hend : includeWith path (cyclicInclude path pos) (noted evaluate)
      { j with evaluation := none } =
        (.error (cyclicInclude path pos), { j with evaluation := none }) := by
    unfold includeWith
    rw [bind_eq, get_eq]
    simp only [h]
    rw [if_pos (List.contains_iff_mem.mpr hin)]
    rfl
  unfold including
  rw [hend]

theorem including_evaluated (h : j.cache.get? path = none) (hout : path ∉ j.cache.loading)
    {result : Except Exit Module}
    (he : evaluate { j with cache := j.cache.begin path, evaluation := none } = (result, j')) :
    including path pos evaluate j =
      (result, ⟨closed j'.cache path result, j'.ended ++ [⟨path, pos, j.cache,
        closed j'.cache path result, some result, result⟩], some result⟩) := by
  have hend : includeWith path (cyclicInclude path pos) (noted evaluate)
      { j with evaluation := none } =
        (result, { j' with cache := closed j'.cache path result, evaluation := some result }) := by
    unfold includeWith
    rw [bind_eq, get_eq]
    simp only [h]
    rw [if_neg (fun hin => hout (List.contains_iff_mem.mp hin))]
    have hnoted : noted evaluate { j with cache := j.cache.begin path, evaluation := none } =
        (result, { j' with evaluation := some result }) := by
      unfold noted
      rw [he]
    have hset : (set (j.cache.begin path) : StateM Journal Unit) { j with evaluation := none } =
        ((), { j with cache := j.cache.begin path, evaluation := none }) := rfl
    rw [bind_eq, bind_eq, hset, hnoted]
    cases result with
    | ok made => rfl
    | error e => rfl
  unfold including
  rw [hend]

/-- The includes in the journal were sound, what they answered is in the table, and
no path was evaluated with success twice. -/
structure Faithful (j : Journal) : Prop where
  coherent : j.cache.Coherent
  sound : ∀ i ∈ j.ended, i.Sound
  found : ∀ i ∈ j.ended, ∀ m, i.result = .ok m → j.cache.get? i.path = some m
  once : ∀ path, j.successes path ≤ 1

theorem faithful_start {cache : ModuleCache} (h : cache.Coherent) : (start cache).Faithful :=
  ⟨h, fun _ hi => (nomatch hi), fun _ hi => (nomatch hi), fun _ => Nat.zero_le 1⟩

/-- A path without a module was not evaluated with success. -/
theorem Faithful.successes_eq_zero (h : j.Faithful) (hnew : j.cache.get? path = none) :
    j.successes path = 0 := by
  refine List.countP_eq_zero.mpr fun i hi hsuccess => ?_
  rw [Bool.and_eq_true, decide_eq_true_iff] at hsuccess
  obtain ⟨rfl, hsuccess⟩ := hsuccess
  unfold Inclusion.succeeds at hsuccess
  split at hsuccess
  · next m hm =>
    have hfound := h.found i hi m ((h.sound i hi).made m hm)
    rw [hnew] at hfound
    cases hfound
  · cases hsuccess

/-- From one journal to a later one the chain is the same, and modules stay. -/
structure Later (j j' : Journal) : Prop where
  faithful : j'.Faithful
  chain : j'.cache.loading = j.cache.loading
  kept : ∀ path m, j.cache.get? path = some m → j'.cache.get? path = some m

theorem Later.refl (h : j.Faithful) : Later j j := ⟨h, rfl, fun _ _ h => h⟩

theorem Later.trans (h : Later j j') (h' : Later j' j'') : Later j j'' :=
  ⟨h'.faithful, h'.chain.trans h.chain, fun path m hm => h'.kept path m (h.kept path m hm)⟩

/-- One more include in a journal. -/
theorem Faithful.enter (h : j.Faithful) {cache : ModuleCache} {i : Inclusion}
    {last : Option (Except Exit Module)} (hcache : cache.Coherent)
    (hkept : ∀ path m, j.cache.get? path = some m → cache.get? path = some m)
    (hi : i.Sound) (hfound : ∀ m, i.result = .ok m → cache.get? i.path = some m)
    (hnew : i.succeeds = true → j.cache.get? i.path = none) :
    Faithful ⟨cache, j.ended ++ [i], last⟩ := by
  refine ⟨hcache, fun k hk => ?_, fun k hk m hm => ?_, fun path => ?_⟩
  · rcases List.mem_append.mp hk with hk | hk
    · exact h.sound k hk
    · rwa [List.mem_singleton.mp hk]
  · rcases List.mem_append.mp hk with hk | hk
    · exact hkept k.path m (h.found k hk m hm)
    · rw [List.mem_singleton.mp hk] at hm ⊢
      exact hfound m hm
  · have hcount : successes ⟨cache, j.ended ++ [i], last⟩ path =
        j.successes path + if i.path = path && i.succeeds then 1 else 0 := by
      unfold successes
      rw [List.countP_append, List.countP_singleton]
    rw [hcount]
    by_cases hthis : (i.path = path && i.succeeds) = true
    · rw [Bool.and_eq_true, decide_eq_true_iff] at hthis
      obtain ⟨rfl, hsuccess⟩ := hthis
      rw [h.successes_eq_zero (hnew hsuccess)]
      split
      · exact Nat.le_refl 1
      · exact Nat.zero_le 1
    · rw [if_neg hthis]
      exact h.once path

/-- A journal in which the evaluation of a unit has begun. -/
def opened (j : Journal) (path : String) : Journal :=
  { j with cache := j.cache.begin path, evaluation := none }

theorem Faithful.opened (h : j.Faithful) (hnew : j.cache.get? path = none) :
    (j.opened path).Faithful :=
  ⟨h.coherent.begin hnew, h.sound, h.found, h.once⟩

/-- The evaluation of a unit leaves its path on the chain and out of the table. -/
theorem Later.of_opened (h : Later (j.opened path) j') (hout : path ∉ j.cache.loading) :
    j'.cache.get? path = none ∧ (j'.cache.leave path).loading = j.cache.loading ∧
      path ∉ (j'.cache.leave path).loading := by
  have hchain : j'.cache.loading = path :: j.cache.loading := h.chain
  have hleft : (j'.cache.leave path).loading = j.cache.loading := by
    change j'.cache.loading.erase path = _
    rw [hchain, List.erase_cons_head]
  refine ⟨h.faithful.coherent.fresh path ?_, hleft, ?_⟩
  · rw [hchain]
    exact List.mem_cons_self
  · rwa [hleft]

theorem later_evaluated (hout : path ∉ j.cache.loading)
    (h : Later (j.opened path) j') (result : Except Exit Module) :
    Later j ⟨closed j'.cache path result, j'.ended ++ [⟨path, pos, j.cache,
      closed j'.cache path result, some result, result⟩], some result⟩ := by
  obtain ⟨hnew', hchain, hout'⟩ := h.of_opened hout
  have hnew : j.cache.get? path = none := by
    cases hget : j.cache.get? path with
    | none => rfl
    | some m =>
      have hkept := h.kept path m hget
      rw [hnew'] at hkept
      cases hkept
  have hleave : (j'.cache.leave path).Coherent := h.faithful.coherent.leave
  cases result with
  | error e =>
    have hsound : Inclusion.Sound ⟨path, pos, j.cache, j'.cache.leave path, some (.error e),
        .error e⟩ := by
      refine ⟨hchain, hleave, ?_, fun _ hno => (nomatch hno), fun hin => absurd hin hout⟩
      change (j'.cache.get? path).isSome = true ↔ (j.cache.get? path).isSome = true ∨ false = true
      rw [hnew', hnew]
      simp
    refine ⟨h.faithful.enter hleave (fun _ _ hm => hm) hsound (fun _ hno => (nomatch hno))
      (fun hno => (nomatch hno)), hchain, fun other m hm => ?_⟩
    exact h.kept other m hm
  | ok made =>
    have hkept : ∀ other m, j'.cache.get? other = some m →
        ((j'.cache.leave path).finish path made).get? other = some m := by
      intro other m hm
      have hne : path ≠ other := by
        rintro rfl
        rw [hnew'] at hm
        cases hm
      rw [get?_finish, if_neg hne]
      exact hm
    have hmade : ((j'.cache.leave path).finish path made).get? path = some made := by
      rw [get?_finish, if_pos rfl]
    have hcoherent : ((j'.cache.leave path).finish path made).Coherent :=
      hleave.finish hnew' hout'
    have hsound : Inclusion.Sound ⟨path, pos, j.cache, (j'.cache.leave path).finish path made,
        some (.ok made), .ok made⟩ := by
      refine ⟨hchain, hcoherent, ?_, fun m hm => ?_, fun hin => absurd hin hout⟩
      · change (((j'.cache.leave path).finish path made).get? path).isSome = true ↔ _ ∨ true = true
        rw [hmade]
        simp
      · rw [Except.ok.inj (Option.some.inj hm)]
    refine ⟨h.faithful.enter hcoherent hkept hsound (fun m hm => ?_) (fun _ => hnew'), hchain,
      fun other m hm => hkept other m (h.kept other m hm)⟩
    rw [← Except.ok.inj hm]
    exact hmade

/-- An include leads from a journal to a later one if the evaluation of the unit
does. -/
theorem later_including (h : j.Faithful)
    (hevaluate : ∀ j, j.Faithful → Later j (evaluate j).2) :
    Later j (including path pos evaluate j).2 := by
  cases hget : j.cache.get? path with
  | some m =>
    rw [including_found hget]
    have hsound : Inclusion.Sound ⟨path, pos, j.cache, j.cache, none, .ok m⟩ := by
      refine ⟨rfl, h.coherent, by simp [Inclusion.succeeds], fun _ hno => (nomatch hno),
        fun hin => ?_⟩
      have hfresh := h.coherent.fresh path hin
      rw [hget] at hfresh
      cases hfresh
    refine ⟨h.enter h.coherent (fun _ _ hm => hm) hsound (fun m' hm' => ?_)
      (fun hno => (nomatch hno)), rfl, fun _ _ hm => hm⟩
    rw [← Except.ok.inj hm']
    exact hget
  | none =>
    by_cases hin : path ∈ j.cache.loading
    · rw [including_cyclic hget hin]
      have hsound : Inclusion.Sound ⟨path, pos, j.cache, j.cache, none,
          .error (cyclicInclude path pos)⟩ :=
        ⟨rfl, h.coherent, by simp [Inclusion.succeeds], fun _ hno => (nomatch hno),
          fun _ => ⟨rfl, rfl, rfl⟩⟩
      exact ⟨h.enter h.coherent (fun _ _ hm => hm) hsound (fun _ hno => (nomatch hno))
        (fun hno => (nomatch hno)), rfl, fun _ _ hm => hm⟩
    · have hlater := hevaluate (j.opened path) (h.opened hget)
      rcases heval : evaluate (j.opened path) with ⟨result, j'⟩
      rw [heval] at hlater
      rw [including_evaluated hget hin heval]
      exact later_evaluated hin hlater result

end Journal

/-! ## Scripts -/

/-- Whatever a script does, it leads from a journal to a later one. -/
theorem Script.later_run (script : Script) {j : Journal} (h : j.Faithful) :
    Journal.Later j (script.run j).2 := by
  induction script generalizing j with
  | done result => exact .refl h
  | look next ih => exact ih j.cache h
  | load path pos unit next ihUnit ihNext =>
    have hincluded : Journal.Later j (Journal.including path pos unit.run j).2 :=
      Journal.later_including h fun _ => ihUnit
    exact hincluded.trans (ihNext _ hincluded.faithful)

/-- However includes are nested and end, each of them leaves the chain of paths being
evaluated as it was, and a table whose order lists its paths once; its path is in the
table afterwards if it was there before or the include evaluated its unit with
success, and if its path is on the chain it fails and changes nothing.  All includes of
a path that succeed answer one module, and at most one of them evaluates it with
success. -/
theorem includes_nest (script : Script) (cache : ModuleCache) (hcache : cache.Coherent)
    (result : Except Exit Module) (j : Journal) (hrun : script.run (.start cache) = (result, j)) :
    (∀ i ∈ j.ended, i.Sound) ∧
    (∀ i ∈ j.ended, ∀ k ∈ j.ended, i.path = k.path →
      ∀ m n, i.result = .ok m → k.result = .ok n → m = n) ∧
    (∀ path, j.successes path ≤ 1) ∧
    (∀ path m, cache.get? path = some m → j.cache.get? path = some m) ∧
    j.cache.loading = cache.loading ∧ j.cache.Coherent := by
  have hlater := script.later_run (Journal.faithful_start hcache)
  rw [hrun] at hlater
  refine ⟨hlater.faithful.sound, fun i hi k hk hpath m n hm hn => ?_, hlater.faithful.once,
    hlater.kept, hlater.chain, hlater.faithful.coherent⟩
  have hfound := hlater.faithful.found i hi m hm
  rw [hpath, hlater.faithful.found k hk n hn] at hfound
  exact (Option.some.inj hfound).symm

/-- A unit that includes itself, and does not mind that this fails. -/
def selfIncluding : Script :=
  .load "a" .unknown (.done (.error .exhausted)) fun _ => .done (.ok default)

theorem includes_nest_self :
    ∃ j, (Script.load "a" .unknown selfIncluding .done).run (.start .empty) = (.ok default, j) ∧
      j.ended.length = 2 ∧ j.cache.get? "a" = some default ∧
      (∀ i ∈ j.ended, i.Sound) ∧ j.cache.loading = [] := by
  have hnew : ModuleCache.empty.get? "a" = none := by
    simp [ModuleCache.empty, get?]
  let opened := (Journal.start .empty).opened "a"
  let inner : Inclusion := ⟨"a", .unknown, opened.cache, opened.cache, none,
    .error (cyclicInclude "a" .unknown)⟩
  have hself : selfIncluding.run opened = (.ok default, ⟨opened.cache, [inner], none⟩) := by
    unfold selfIncluding Script.run
    rw [Journal.bind_eq, Journal.including_cyclic hnew List.mem_cons_self]
    rfl
  let after := ((opened.cache.leave "a").finish "a" default)
  let outer : Inclusion := ⟨"a", .unknown, .empty, after, some (.ok default), .ok default⟩
  have hrun : (Script.load "a" .unknown selfIncluding .done).run (.start .empty) =
      (.ok default, ⟨after, [inner, outer], some (.ok default)⟩) := by
    unfold Script.run
    rw [Journal.bind_eq, Journal.including_evaluated hnew List.not_mem_nil hself]
    rfl
  obtain ⟨hsound, _, _, _, hchain, _⟩ := includes_nest _ .empty coherent_empty _ _ hrun
  refine ⟨_, hrun, rfl, ?_, hsound, hchain⟩
  change ((opened.cache.leave "a").finish "a" default).get? "a" = some default
  rw [get?_finish, if_pos rfl]

end TreeWalk
