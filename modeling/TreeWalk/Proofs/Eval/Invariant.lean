/-
Properties of stores that hold for good.

Tasks share the store, so what a task leaves there counts wherever it waits, and
not only where it ends.  A step keeps a property of stores if every store that it
leaves has it, as long as those that it goes on with have it.  If whatever can be
evaluated keeps a property, then so does a session, with all of its tasks and
however they take turns.
-/
import TreeWalk.Proofs.Eval.Watch
import TreeWalk.Session

namespace TreeWalk

open Discipline Eval

variable {α β : Type} {P : Store → Prop}

namespace Step

/-- Every store that the step leaves has the property, as long as those that it
goes on with have it. -/
inductive Keeps (P : Store → Prop) : Step α → Prop
  | done {r f σ} (h : P σ) : Keeps P (.done r f σ)
  | wait {e σ k} (h : P σ) (hk : ∀ a σ', P σ' → Keeps P (k a σ')) : Keeps P (.wait e σ k)

namespace Keeps

theorem andThen {s : Step α} {next : Except Exit α → Fiber → Store → Step β} (h : s.Keeps P)
    (hnext : ∀ r f σ, P σ → (next r f σ).Keeps P) : (s.andThen next).Keeps P := by
  induction h with
  | done h => exact hnext _ _ _ h
  | wait h _ ih => exact .wait h ih

theorem of_alike {post : Except Exit α → Fiber → Store → Prop} {τ : Store} {s t : Step α}
    (h : s.Alike ⟨fun _ _ _ σ => P σ, .free, False⟩ P post τ t) (hpost : ∀ r f σ, post r f σ → P σ) :
    s.Keeps P := by
  induction h with
  | done _ h => exact .done (hpost _ _ _ h)
  | wait _ h _ ih => exact .wait h fun a σ' hσ' => ih a σ' hσ'
  | pause hp => exact hp.elim

end Keeps
end Step

/-! ## The way of a task -/

namespace Step

/-- A task comes from one step to another one when it goes on as allowed each time it
waits. -/
inductive Leads {α : Type} (R : Resumption) : Step α → Step α → Prop
  | refl {s} : Leads R s s
  | resume {e σ k a σ' t} (h : R e σ a σ') (rest : Leads R (k a σ') t) : Leads R (.wait e σ k) t

variable {α β : Type} {R : Resumption} {s t : Step α} {r : Except Exit α} {f g : Fiber} {σ τ : Store}

namespace Leads

theorem trans {u : Step α} (h : s.Leads R t) (h' : t.Leads R u) : s.Leads R u := by
  induction h with
  | refl => exact h'
  | resume hr _ ih => exact .resume hr (ih h')

theorem andThen {next : Except Exit α → Fiber → Store → Step β} (h : s.Leads R t) :
    (s.andThen next).Leads R (t.andThen next) := by
  induction h with
  | refl => exact .refl
  | resume hr _ ih => exact .resume hr ih

theorem ends (h : s.Leads R (.done r g τ)) : s.Ends r g τ := by
  generalize hend : Step.done r g τ = t at h
  induction h with
  | refl => exact hend ▸ .done
  | resume _ _ ih => exact .wait (ih hend)

/-- A property that is kept on the way holds at the end. -/
theorem kept {P : Store → Prop} (hR : ∀ e σ a σ', R e σ a σ' → P σ → P σ') (hs : s.Keeps P)
    (h : s.Leads R (.done r g τ)) : P τ := by
  generalize hend : Step.done r g τ = t at h
  induction h with
  | refl =>
    subst hend
    cases hs with
    | done hτ => exact hτ
  | resume hr _ ih =>
    cases hs with
    | wait hσ hk => exact ih (hk _ _ (hR _ _ _ _ hr hσ)) hend

/-- What holds at the end of steps that are alike holds where the task comes to. -/
theorem of_alike {terms : Terms} {mid : Store → Prop} {post : Except Exit α → Fiber → Store → Prop}
    {ρ : Store} (hR : ∀ e σ a σ', mid σ → R e σ a σ' → terms.resumes e σ a σ')
    (hpauses : ¬ terms.pauses) (hs : s.Alike terms mid post ρ t) (h : s.Leads R (.done r g τ)) :
    post r g τ := by
  generalize hend : Step.done r g τ = u at h
  induction h generalizing ρ t with
  | refl =>
    subst hend
    cases hs with
    | done _ hpost => exact hpost
  | resume hr _ ih =>
    cases hs with
    | wait _ hmid hk => exact ih (hk _ _ (hR _ _ _ _ hmid hr)) hend
    | pause hp => exact absurd hp hpauses

end Leads

/-- To the end of two steps in a row is to the end of the first, and on from there. -/
theorem leads_andThen_iff {next : Except Exit α → Fiber → Store → Step β} {r : Except Exit β} :
    (s.andThen next).Leads R (.done r g τ) ↔
      ∃ r' f σ, s.Leads R (.done r' f σ) ∧ (next r' f σ).Leads R (.done r g τ) := by
  refine ⟨fun h => ?_, fun ⟨r', f, σ, hs, hnext⟩ => hs.andThen.trans hnext⟩
  induction s with
  | done r' f σ => exact ⟨r', f, σ, .refl, h⟩
  | wait e σ k ih =>
    cases h with
    | resume hr rest =>
      obtain ⟨r', f, σ', hs, hnext⟩ := ih _ _ rest
      exact ⟨r', f, σ', .resume hr hs, hnext⟩

theorem leads_done_iff {r' : Except Exit α} :
    (Step.done r f σ).Leads R (.done r' g τ) ↔ r' = r ∧ g = f ∧ τ = σ := by
  refine ⟨fun h => ?_, fun ⟨hr, hg, hτ⟩ => hr ▸ hg ▸ hτ ▸ .refl⟩
  cases h with
  | refl => exact ⟨rfl, rfl, rfl⟩

end Step

/-- The task keeps the property when it goes on. -/
def Parked.Keeps (P : Store → Prop) (t : Parked) : Prop := ∀ a σ, P σ → (t.resume a σ).Keeps P

/-- The store has the property, and the tasks under way keep it. -/
structure Session.Keeps (P : Store → Prop) (s : Session) : Prop where
  store : P s.store
  tasks : ∀ t ∈ s.tasks, t.Keeps P

/-- A property that holds for good: whatever is evaluated keeps it, and so do the
events that tasks wait for and the schedule. -/
structure Lasting (P : Store → Prop) : Prop where
  serve : ∀ fuel q f σ, P σ → ((evaluator fuel).serve q f σ).Keeps P
  event : ∀ (e : Event) a σ σ', e.happen? σ = some (a, σ') → P σ → P σ'
  running : ∀ σ n, P σ → P { σ with running := n }
  spawned : ∀ σ list, P σ → P { σ with spawned := list }

namespace Lasting

variable {fuel : Nat} {swallow : Bool}

theorem keeps_guarded {x : Eval Value} {f : Fiber} {σ : Store} (h : (x f σ).Keeps P) :
    (guarded swallow x f σ).Keeps P := by
  unfold guarded
  refine h.andThen fun r g τ hτ => ?_
  split
  · exact .done hτ
  · exact .done hτ

variable (hP : Lasting P)
include hP

/-! ## Schedules -/

theorem park {s : Step Value} (h : s.Keeps P) :
    P (Schedule.park s).2 ∧ ∀ t ∈ (Schedule.park s).1.toList, t.Keeps P := by
  cases h with
  | done h => exact ⟨hP.running _ _ h, fun t ht => nomatch ht⟩
  | wait h hk =>
    refine ⟨h, fun t ht => ?_⟩
    obtain rfl := List.mem_singleton.mp ht
    exact hk

theorem resumeAll {tasks : List Parked} {σ : Store} (h : ∀ t ∈ tasks, t.Keeps P) (hσ : P σ) :
    P (Schedule.resumeAll tasks σ).2.1 ∧ ∀ t ∈ (Schedule.resumeAll tasks σ).1, t.Keeps P := by
  induction tasks generalizing σ with
  | nil => exact ⟨hσ, h⟩
  | cons task rest ih =>
    have hrest : ∀ t ∈ rest, t.Keeps P := fun t ht => h t (List.mem_cons_of_mem task ht)
    have htask := h task List.mem_cons_self
    unfold Schedule.resumeAll
    split
    · next s hs =>
      obtain ⟨⟨a, τ⟩, hstep, rfl⟩ := Option.map_eq_some_iff.mp hs
      have hparked := hP.park (htask a τ (hP.event _ a σ τ hstep hσ))
      have hlater := ih hrest hparked.1
      exact ⟨hlater.1, fun t ht => (List.mem_append.mp ht).elim (hparked.2 t) (hlater.2 t)⟩
    · have hlater := ih hrest hσ
      refine ⟨hlater.1, fun t ht => ?_⟩
      rcases List.mem_cons.mp ht with rfl | ht
      · exact htask
      · exact hlater.2 t ht

theorem beginAll (fuel : Nat) (swallow : Bool) (list : List Spawned) {σ : Store} (hσ : P σ) :
    P (Schedule.beginAll fuel swallow list σ).2 ∧
      ∀ t ∈ (Schedule.beginAll fuel swallow list σ).1, t.Keeps P := by
  induction list generalizing σ with
  | nil => exact ⟨hσ, fun t ht => nomatch ht⟩
  | cons task rest ih =>
    have hbegun : (Schedule.begin fuel swallow task σ).Keeps P :=
      keeps_guarded (hP.serve fuel (.expr task.call) task.fiber σ hσ)
    have hparked := hP.park hbegun
    have hlater := ih hparked.1
    exact ⟨hlater.1, fun t ht => (List.mem_append.mp ht).elim (hparked.2 t) (hlater.2 t)⟩

theorem turn (fuel : Nat) (swallow : Bool) {tasks : List Parked} {σ : Store}
    (h : ∀ t ∈ tasks, t.Keeps P) (hσ : P σ) :
    P (Schedule.turn fuel swallow tasks σ).2.1 ∧
      ∀ t ∈ (Schedule.turn fuel swallow tasks σ).1, t.Keeps P := by
  have hresumed := hP.resumeAll h hσ
  have hbegun := hP.beginAll fuel swallow (Schedule.resumeAll tasks σ).2.1.spawned
    (hP.spawned _ [] hresumed.1)
  exact ⟨hbegun.1, fun t ht => (List.mem_append.mp ht).elim (hresumed.2 t) (hbegun.2 t)⟩

theorem drive {start : Fiber} (rounds : Nat) {s : Step Value} {tasks : List Parked}
    (hs : s.Keeps P) (h : ∀ t ∈ tasks, t.Keeps P) :
    P (Schedule.drive fuel swallow start rounds s tasks).store ∧
      ∀ t ∈ (Schedule.drive fuel swallow start rounds s tasks).tasks, t.Keeps P := by
  induction rounds generalizing s tasks with
  | zero =>
    cases hs with
    | done hσ => exact ⟨hσ, h⟩
    | wait hσ _ => exact ⟨hσ, h⟩
  | succ rounds ih =>
    cases hs with
    | done hσ => exact ⟨hσ, h⟩
    | @wait e σ k hσ hk =>
      have hturn := hP.turn fuel swallow h hσ
      simp only [Schedule.drive]
      split
      · next a τ hstep => exact ih (hk a τ (hP.event e a _ τ hstep hturn.1)) hturn.2
      · split
        · exact ih (.wait hturn.1 hk) hturn.2
        · exact hturn

/-! ## Sessions -/

theorem exec {s : Session} {x : Eval Value} (hs : s.Keeps P)
    (hx : (x s.fiber s.store).Keeps P) : (s.exec x).2.Keeps P :=
  have h := hP.drive Session.fuel hx hs.tasks
  ⟨h.1, h.2⟩

theorem keeps_topLevel {program : Program} {f : Fiber} {σ : Store} (hσ : P σ) :
    (Control.topLevel (evaluator fuel) program f σ).Keeps P := by
  unfold Control.topLevel
  rw [bind_apply]
  refine Step.Keeps.andThen ?_ fun r g τ hτ => ?_
  · refine (hP.serve fuel (.block program) f σ hσ).andThen fun r g τ hτ => ?_
    cases r with
    | ok v => exact .done hτ
    | error e =>
      dsimp only
      split
      · exact .done hτ
      · exact .done hτ
  · cases r with
    | error e => exact .done hτ
    | ok r =>
      dsimp only [follow]
      split
      · exact .done hτ
      · exact .done hτ
      · exact .done hτ
      · exact .done hτ

theorem keeps_programIn {scope : ScopeId} {program : Program} {f : Fiber} {σ : Store}
    (hσ : P σ) : (Session.programIn swallow scope program f σ).Keeps P :=
  keeps_guarded ((hP.keeps_topLevel hσ).andThen fun _ _ _ hτ => .done hτ)

/-- A session keeps the property, whatever program it runs and however it ends. -/
theorem runIn {s : Session} (hs : s.Keeps P) (scope : ScopeId) (program : Program) :
    (s.runIn scope program).2.Keeps P := hP.exec hs (hP.keeps_programIn hs.store)

theorem fork {s : Session} (hscope : ∀ σ parent, P σ → P (σ.childScope parent).2) (hs : s.Keeps P)
    (program : Program) : (s.fork program).2.Keeps P := by
  have hstore := hscope s.store s.fiber.scope hs.store
  have hsession : Session.Keeps P { s with store := (s.store.childScope s.fiber.scope).2 } :=
    ⟨hstore, hs.tasks⟩
  exact hP.exec hsession ((hP.keeps_programIn hstore).andThen fun _ _ _ hτ => .done hτ)

end Lasting

/-! ## Properties of scopes, hashes and channels -/

/-- A property that quiet changes, bindings and new scopes keep, and that depends on
scopes, hashes and channels only. -/
structure Sturdy (P : Store → Prop) : Prop where
  quiet : ∀ {p σ σ'}, P σ → σ.Quiet p σ' → P σ'
  cells : ∀ {σ σ' : Store}, P σ → σ'.scopes = σ.scopes → σ'.hashes = σ.hashes →
    σ'.channels = σ.channels → P σ'
  bind : ∀ {σ : Store} {s name v}, P σ → P (σ.bind s name v)
  newScope : ∀ {σ : Store} {parent frame}, P σ → P (σ.newScope parent frame).2
  newEnum : ∀ {σ : Store} {parent members}, P σ → P (σ.newEnum parent members).2

/-- A property that quiet changes keep, and that depends on hashes and channels
only. -/
structure Robust (P : Store → Prop) : Prop where
  quiet : ∀ {p σ σ'}, P σ → σ.Quiet p σ' → P σ'
  cells : ∀ {σ σ' : Store}, P σ → σ'.hashes = σ.hashes → σ'.channels = σ.channels → P σ'

theorem Robust.sturdy (hP : Robust P) : Sturdy P where
  quiet := hP.quiet
  cells h _ := hP.cells h
  bind h := hP.cells h rfl rfl
  newScope h := hP.cells h rfl rfl
  newEnum h := hP.cells h rfl rfl

/-- The discipline of stores with the property.  Other tasks may do anything that
keeps it. -/
def Discipline.keeping (P : Store → Prop) : Discipline where
  resumes _ _ _ σ' := P σ'
  home _ _ := True
  fit _ _ _ σ := P σ
  pending _ _ _ _ := True

instance {stack : CallStack} {w : Ways} : (Discipline.keeping P).Admits stack w :=
  ⟨fun _ _ => trivial⟩

namespace Sturdy

variable {fuel : Nat} {f : Fiber} {σ : Store} (hP : Sturdy P)
include hP

theorem lawful : (Discipline.keeping P).Lawful where
  tells := tells_free
  later _ _ _ := trivial
  home_new := trivial
  weaken h := h
  restart h := h
  trans _ h := h
  closed _ := .of_forall (fun _ => trivial) _
  inside _ := trivial
  quiet h hq := hP.quiet h hq
  resume _ h := ⟨h, fun _ _ => trivial, Event.answerWithin_of_forall (fun _ => trivial) _ _⟩
  bind h _ := hP.bind h
  rebind h _ _ _ := hP.bind h
  print {_ here _ _ _} h :=
    hP.cells h (by cases here.sink <;> rfl) (by cases here.sink <;> rfl) (by cases here.sink <;> rfl)
  enum h _ := hP.newEnum h
  enter_child h := hP.newScope h
  leave_child _ h := h
  enter_unit h := hP.newScope h
  leave_unit _ h := h
  frame h := hP.cells h rfl rfl rfl
  enter_call h _ _ := hP.newScope (hP.cells h rfl rfl rfl)
  leave_call _ _ h := h
  take h _ := hP.cells h rfl rfl rfl
  pending_take _ _ _ _ := trivial
  pending_later _ _ := trivial
  enter_turn h _ := h
  leave_turn _ _ h := h
  defer h _ _ := hP.cells h rfl rfl rfl
  spawn h := hP.cells (hP.newScope h) rfl rfl rfl

theorem lasting : Lasting P where
  serve fuel q f σ hσ := by
    have hwithin : q.Within ((Discipline.keeping P).At σ) := q.within_of_forall fun _ => trivial
    have runs : (keeping P).Runs q.binds q.ways (keeping P).Holds f.site σ σ
        ((evaluator fuel).serve q) ((evaluator fuel).serve q) :=
      (sound_evaluator hP.lawful fuel).runs_serve hwithin
    exact .of_alike (runs hσ f rfl) fun _ _ _ h => h.1
  event e _ _ _ hstep hσ :=
    hP.quiet hσ (Event.quiet_of_happen? (p := .everything) e hstep).1
  running _ _ h := hP.cells h rfl rfl rfl
  spawned _ _ h := hP.cells h rfl rfl rfl

/-- Method calls keep the property as well. -/
theorem keeps_method {v : Value} {name : String} {values : List Value} (hσ : P σ) :
    (Method.call (evaluator fuel) v name values f σ).Keeps P := by
  have within : ∀ v : Value, v.Within ((keeping P).At σ) := fun v =>
    Value.within_of_forall (fun _ => trivial) v
  have runs : (keeping P).Runs false .failing (keeping P).Holds f.site σ σ
      (Method.call (evaluator fuel) v name values) (Method.call (evaluator fuel) v name values) :=
    (sound_evaluator hP.lawful fuel).runs_method (Ways.le_refl _) (within v) fun v _ => within v
  exact .of_alike (runs hσ f rfl) fun _ _ _ h => h.1

end Sturdy

namespace Robust

variable {fuel : Nat} {f : Fiber} {σ : Store} (hP : Robust P)
include hP

theorem lasting : Lasting P := hP.sturdy.lasting

theorem keeps_method {v : Value} {name : String} {values : List Value} (hσ : P σ) :
    (Method.call (evaluator fuel) v name values f σ).Keeps P := hP.sturdy.keeps_method hσ

end Robust
end TreeWalk
