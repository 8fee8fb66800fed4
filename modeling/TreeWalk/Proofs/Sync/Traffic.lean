/-
What passes through a channel, whatever tasks send, receive and close, and in
whatever order they act.

A move is one step of a task on a channel together with what comes of it.  An
offer is settled in whichever way the channel allows, so a run also covers those
orders that the evaluator never takes: a sender that has been told of the close
may still find room, and a receiver may meet any of the senders.

The ledger of a run keeps account of its offers.  Each one is accepted, withdrawn
or still pending, and what has been accepted has been received in the same order,
but for what is in the buffer.
-/
import TreeWalk.Sync.Channel
import Mathlib.Data.List.Induction
import Mathlib.Data.List.Nodup
import Mathlib.Data.List.Perm.Basic

namespace TreeWalk
namespace Channel

open scoped List

/-- What a task does to a channel. -/
inductive Act where
  | offered (ticket : Nat) (v : Value)
  | refused (v : Value)
  | accepted (ticket : Nat) (v : Value)
  | withdrawn (ticket : Nat) (v : Value)
  | received (v : Value)
  /-- A receiver took the value of an offer. -/
  | met (ticket : Nat) (v : Value)
  /-- A receiver was told that nothing comes any more. -/
  | ended
  /-- The first step of a call that closes, and what the call will answer. -/
  | shut (wasOpen : Bool)
  /-- The last step of a call that closes. -/
  | signalled

inductive Move : Channel → Act → Channel → Prop
  | offer {c c' : Channel} {t : Nat} {v : Value} (h : c.offer? v = some (t, c')) :
      Move c (.offered t v) c'
  | refuse {c : Channel} {v : Value} (h : c.offer? v = none) : Move c (.refused v) c
  | accept {c c' : Channel} {t : Nat} {v : Value} (hv : c.offered? t = some v)
      (h : c.accept? t = some c') : Move c (.accepted t v) c'
  | withdraw {c c' : Channel} {t : Nat} {v : Value} (hv : c.offered? t = some v)
      (h : c.withdraw? t = some c') : Move c (.withdrawn t v) c'
  | take {c c' : Channel} {v : Value} (h : c.take? = some (v, c')) : Move c (.received v) c'
  | meet {c c' : Channel} {t : Nat} {v : Value} (h : c.meet? t = some (v, c')) :
      Move c (.met t v) c'
  | finish {c c' : Channel} (h : c.receive? = some (none, c')) : Move c .ended c'
  | shut {c : Channel} : Move c (.shut c.shut.1) c.shut.2
  | signal {c : Channel} (h : c.closed = true) : Move c .signalled c.signal

/-- Moves of any tasks, one after the other. -/
inductive Run (start : Channel) : List Act → Channel → Prop
  | nil : Run start [] start
  | snoc {acts : List Act} {a : Act} {c c' : Channel} (h : Run start acts c) (hmove : Move c a c') :
      Run start (acts ++ [a]) c'

variable {c c' d : Channel} {a : Act} {acts : List Act} {t : Nat} {v : Value}

namespace Run

theorem single (h : Move c a c') : Run c [a] c' := .snoc .nil h

theorem trans {acts' : List Act} (h : Run c acts c') (h' : Run c' acts' d) :
    Run c (acts ++ acts') d := by
  induction h' with
  | nil =>
    rw [List.append_nil]
    exact h
  | snoc _ hmove ih =>
    rw [← List.append_assoc]
    exact ih.snoc hmove

/-- A run can be interrupted anywhere. -/
theorem split {before after : List Act} (h : Run c (before ++ after) d) :
    ∃ m, Run c before m ∧ Run m after d := by
  induction after using List.reverseRecOn generalizing d with
  | nil =>
    rw [List.append_nil] at h
    exact ⟨d, h, .nil⟩
  | append_singleton after a ih =>
    rw [← List.append_assoc] at h
    generalize hacts : before ++ after ++ [a] = acts at h
    cases h with
    | nil => simp at hacts
    | snoc hrun hmove =>
      obtain ⟨rfl, rfl⟩ := List.append_singleton_inj.mp hacts
      obtain ⟨m, hbefore, hafter⟩ := ih hrun
      exact ⟨m, hbefore, hafter.snoc hmove⟩

end Run

/-! ## What a move changes -/

theorem mem_offers_of_offered? (h : c.offered? t = some v) : (t, v) ∈ c.offers := by
  obtain ⟨⟨t', v'⟩, hfind, rfl⟩ := Option.map_eq_some_iff.mp h
  obtain rfl : t' = t := by simpa using List.find?_some hfind
  exact List.mem_of_find?_eq_some hfind

theorem accept?_eq_some (hv : c.offered? t = some v) (h : c.accept? t = some c') :
    c.hasRoom = true ∧ c' = { c.dropOffer t with buffer := c.buffer ++ [v] } := by
  unfold accept? at h
  rw [hv] at h
  dsimp only at h
  split at h
  · next hroom => exact ⟨hroom, (Option.some.inj h).symm⟩
  · cases h

theorem withdraw?_eq_some (h : c.withdraw? t = some c') :
    c.signalled = true ∧ c' = c.dropOffer t := by
  unfold withdraw? at h
  split at h
  · next hboth => exact ⟨(Bool.and_eq_true_iff.mp hboth).2, (Option.some.inj h).symm⟩
  · cases h

theorem take?_eq_some (h : c.take? = some (v, c')) :
    c.buffer = v :: c'.buffer ∧ c' = { c with buffer := c'.buffer } := by
  unfold take? at h
  split at h
  · next w rest hbuffer =>
    obtain ⟨rfl, rfl⟩ := Prod.mk.inj (Option.some.inj h)
    exact ⟨hbuffer, rfl⟩
  · cases h

theorem meet?_eq_some (h : c.meet? t = some (v, c')) :
    c.buffer = [] ∧ c.offered? t = some v ∧ c' = c.dropOffer t := by
  unfold meet? at h
  split at h
  · next hempty =>
    obtain ⟨w, hw, heq⟩ := Option.map_eq_some_iff.mp h
    obtain ⟨rfl, rfl⟩ := Prod.mk.inj heq
    exact ⟨List.isEmpty_iff.mp hempty, hw, rfl⟩
  · cases h

/-- A receiver is told of the end only when nothing is left and nobody sends. -/
theorem receive?_eq_none (h : c.receive? = some (none, c')) :
    c.closed = true ∧ c.buffer = [] ∧ c.offers = [] ∧ c' = c := by
  unfold receive? at h
  split at h
  · cases h
  · split at h
    · next hended =>
      simp only [ended, Bool.and_eq_true, List.isEmpty_iff] at hended
      exact ⟨hended.1.1, hended.1.2, hended.2, (Prod.mk.inj (Option.some.inj h)).2.symm⟩
    · split at h
      · cases h
      · split at h
        · obtain ⟨w, _, heq⟩ := Option.map_eq_some_iff.mp h
          cases heq
        · cases h

/-! ## Histories -/

namespace Act

def offering? : Act → Option (Nat × Value)
  | offered t v => some (t, v)
  | _ => none

def acceptance? : Act → Option (Nat × Value)
  | accepted t v => some (t, v)
  | met t v => some (t, v)
  | _ => none

def withdrawal? : Act → Option (Nat × Value)
  | withdrawn t v => some (t, v)
  | _ => none

def delivery? : Act → Option Value
  | received v => some v
  | met _ v => some v
  | _ => none

def closing? : Act → Option Bool
  | shut wasOpen => some wasOpen
  | _ => none

end Act

/-- What acts of one kind say, in the order of the acts. -/
def select {β : Type} (part : Act → Option β) (acts : List Act) : List β := acts.filterMap part

/-- The sends that went past their first step, each with its ticket. -/
abbrev offerings (acts : List Act) : List (Nat × Value) := select Act.offering? acts

/-- The sends that succeeded. -/
abbrev acceptances (acts : List Act) : List (Nat × Value) := select Act.acceptance? acts

/-- The sends that failed after their first step. -/
abbrev withdrawals (acts : List Act) : List (Nat × Value) := select Act.withdrawal? acts

/-- The values handed out to receivers. -/
abbrev deliveries (acts : List Act) : List Value := select Act.delivery? acts

/-- What the calls that closed answer, in the order of their first steps. -/
abbrev closings (acts : List Act) : List Bool := select Act.closing? acts

theorem select_append {β : Type} (part : Act → Option β) (acts acts' : List Act) :
    select part (acts ++ acts') = select part acts ++ select part acts' := List.filterMap_append

theorem select_snoc {β : Type} (part : Act → Option β) (acts : List Act) (a : Act) :
    select part (acts ++ [a]) = select part acts ++ (part a).toList := by
  rw [select_append]
  cases h : part a <;> simp [select, h]

/-- An offer is taken off the list once. -/
theorem perm_dropOffer {offers : List (Nat × Value)} (hnodup : (offers.map Prod.fst).Nodup)
    (hmem : (t, v) ∈ offers) : offers.Perm ((t, v) :: offers.filter (·.1 ≠ t)) := by
  induction offers with
  | nil => cases hmem
  | cons o rest ih =>
    obtain ⟨hnew, hrest⟩ := List.nodup_cons.mp hnodup
    by_cases ho : o.1 = t
    · have hother : ∀ o' ∈ rest, o'.1 ≠ t := fun o' ho' heq =>
        hnew (List.mem_map.mpr ⟨o', ho', heq.trans ho.symm⟩)
      have hkept : rest.filter (·.1 ≠ t) = rest :=
        List.filter_eq_self.mpr fun o' ho' => decide_eq_true (hother o' ho')
      rcases List.mem_cons.mp hmem with rfl | hmem
      · rw [List.filter_cons_of_neg (by simp), hkept]
      · exact absurd rfl (hother _ hmem)
    · rcases List.mem_cons.mp hmem with rfl | hmem
      · exact absurd rfl ho
      · rw [List.filter_cons_of_pos (by simpa using ho)]
        exact ((ih hrest hmem).cons o).trans (.swap _ _ _)

/-! ## Moves -/

/-- What a move does: to the buffer, to the offers, and to the channel as a whole. -/
structure Effect (c : Channel) (a : Act) (c' : Channel) : Prop where
  capacity_eq : c'.capacity = c.capacity
  buffer_eq : c.buffer ++ a.acceptance?.toList.map Prod.snd = a.delivery?.toList ++ c'.buffer
  length_le : c.buffer.length ≤ c.capacity → c'.buffer.length ≤ c.capacity
  room : ∀ t v, a = .accepted t v → 0 < c.capacity
  settled : (c.offers.map Prod.fst).Nodup → (c.offers ++ a.offering?.toList).Perm
    (a.acceptance?.toList ++ a.withdrawal?.toList ++ c'.offers)
  ticket : ∀ o ∈ a.offering?, o.1 = c.nextTicket ∧ c.closed = false
  nextTicket_eq : c'.nextTicket = c.nextTicket + a.offering?.toList.length
  closing : a.closing? = none ∧ c'.closed = c.closed ∨
    a.closing? = some (!c.closed) ∧ c'.closed = true

namespace Effect

/-- An offer is taken off the list. -/
theorem settled_of_offered? (hv : c.offered? t = some v) (hnodup : (c.offers.map Prod.fst).Nodup) :
    (c.offers ++ []).Perm ((t, v) :: (c.dropOffer t).offers) := by
  rw [List.append_nil]
  exact perm_dropOffer hnodup (mem_offers_of_offered? hv)

theorem accept (hv : c.offered? t = some v) (h : c.accept? t = some c') :
    Effect c (.accepted t v) c' := by
  obtain ⟨hroom, rfl⟩ := accept?_eq_some hv h
  have hlt : c.buffer.length < c.capacity := of_decide_eq_true hroom
  refine ⟨rfl, rfl, fun _ => ?_, fun _ _ _ => by omega, settled_of_offered? hv, fun _ => nofun, rfl,
    .inl ⟨rfl, rfl⟩⟩
  show (c.buffer ++ [v]).length ≤ c.capacity
  rw [List.length_append, List.length_singleton]
  omega

theorem withdraw (hv : c.offered? t = some v) (h : c.withdraw? t = some c') :
    Effect c (.withdrawn t v) c' := by
  obtain ⟨_, rfl⟩ := withdraw?_eq_some h
  exact ⟨rfl, List.append_nil _, id, fun _ _ => nofun, settled_of_offered? hv, fun _ => nofun, rfl,
    .inl ⟨rfl, rfl⟩⟩

theorem take (h : c.take? = some (v, c')) : Effect c (.received v) c' := by
  obtain ⟨hbuffer, hrest⟩ := take?_eq_some h
  rw [hrest]
  refine ⟨rfl, by simpa [Act.acceptance?, Act.delivery?] using hbuffer, fun hle => ?_, fun _ _ => nofun,
    fun _ => .of_eq (List.append_nil _), fun _ => nofun, rfl, .inl ⟨rfl, rfl⟩⟩
  rw [hbuffer, List.length_cons] at hle
  show c'.buffer.length ≤ c.capacity
  omega

theorem meet (h : c.meet? t = some (v, c')) : Effect c (.met t v) c' := by
  obtain ⟨hbuffer, hv, rfl⟩ := meet?_eq_some h
  refine ⟨rfl, ?_, id, fun _ _ => nofun, settled_of_offered? hv, fun _ => nofun, rfl, .inl ⟨rfl, rfl⟩⟩
  show c.buffer ++ [v] = [v] ++ c.buffer
  rw [hbuffer]
  rfl

theorem offer (h : c.offer? v = some (t, c')) : Effect c (.offered t v) c' := by
  unfold offer? at h
  split at h
  · cases h
  · next hopen =>
    obtain ⟨rfl, rfl⟩ := Prod.mk.inj (Option.some.inj h)
    exact ⟨rfl, List.append_nil _, id, fun _ _ => nofun, fun _ => .refl _,
      by simpa [Act.offering?] using hopen, rfl, .inl ⟨rfl, rfl⟩⟩

/-- A move that leaves buffer, offers and tickets alone. -/
theorem still (hacceptance : a.acceptance? = none) (hwithdrawal : a.withdrawal? = none)
    (hoffering : a.offering? = none) (hdelivery : a.delivery? = none)
    (hcapacity : c'.capacity = c.capacity) (hbuffer : c'.buffer = c.buffer)
    (hoffers : c'.offers = c.offers) (hticket : c'.nextTicket = c.nextTicket)
    (hclosing : a.closing? = none ∧ c'.closed = c.closed ∨
      a.closing? = some (!c.closed) ∧ c'.closed = true) : Effect c a c' where
  capacity_eq := hcapacity
  buffer_eq := by simp [hacceptance, hdelivery, hbuffer]
  length_le h := by rwa [hbuffer]
  room t v ha := by
    rw [ha] at hacceptance
    cases hacceptance
  settled _ := by simp [hacceptance, hwithdrawal, hoffering, hoffers]
  ticket := by simp [hoffering]
  nextTicket_eq := by simp [hoffering, hticket]
  closing := hclosing

end Effect

theorem Move.effect (h : Move c a c') : Effect c a c' := by
  cases h with
  | offer h => exact .offer h
  | refuse _ => exact .still rfl rfl rfl rfl rfl rfl rfl rfl (.inl ⟨rfl, rfl⟩)
  | accept hv h => exact .accept hv h
  | withdraw hv h => exact .withdraw hv h
  | take h => exact .take h
  | meet h => exact .meet h
  | finish h =>
    obtain ⟨_, _, _, rfl⟩ := receive?_eq_none h
    exact .still rfl rfl rfl rfl rfl rfl rfl rfl (.inl ⟨rfl, rfl⟩)
  | shut => exact .still rfl rfl rfl rfl rfl rfl rfl rfl (.inr ⟨rfl, rfl⟩)
  | signal _ => exact .still rfl rfl rfl rfl rfl rfl rfl rfl (.inl ⟨rfl, rfl⟩)

/-! ## Runs -/

/-- What the history of a channel says about its state. -/
structure Ledger (capacity : Nat) (acts : List Act) (c : Channel) : Prop where
  capacity_eq : c.capacity = capacity
  delivered : deliveries acts ++ c.buffer = (acceptances acts).map Prod.snd
  length_le : c.buffer.length ≤ capacity
  /-- Without room a value is accepted only by a receiver. -/
  rendezvous : capacity = 0 → ∀ t v, Act.accepted t v ∉ acts
  settled : (offerings acts).Perm (acceptances acts ++ withdrawals acts ++ c.offers)
  nodup : ((offerings acts).map Prod.fst).Nodup
  fresh : ∀ o ∈ offerings acts, o.1 < c.nextTicket
  of_open : c.closed = false → closings acts = []
  of_closed : c.closed = true → ∃ n, closings acts = true :: List.replicate n false

theorem ledger_nil (capacity : Nat) : Ledger capacity [] (ofCapacity capacity) where
  capacity_eq := rfl
  delivered := rfl
  length_le := Nat.zero_le capacity
  rendezvous _ _ _ h := nomatch h
  settled := .nil
  nodup := .nil
  fresh _ h := nomatch h
  of_open _ := rfl
  of_closed h := nomatch h

namespace Ledger

variable {capacity : Nat}

theorem nodup_offers (h : Ledger capacity acts c) : (c.offers.map Prod.fst).Nodup := by
  have hnodup := (h.settled.map Prod.fst).nodup_iff.mp h.nodup
  rw [List.map_append] at hnodup
  exact hnodup.of_append_right

/-- Offers are accounted for together with what became of them. -/
theorem settled_snoc {α : Type} {made made' accepted accepted' withdrawn withdrawn' pending
      pending' : List α} (h : made.Perm (accepted ++ withdrawn ++ pending))
    (h' : (pending ++ made').Perm (accepted' ++ withdrawn' ++ pending')) :
    (made ++ made').Perm (accepted ++ accepted' ++ (withdrawn ++ withdrawn') ++ pending') := by
  have hmoved : (withdrawn ++ accepted').Perm (accepted' ++ withdrawn) := List.perm_append_comm
  calc made ++ made'
    _ ~ accepted ++ withdrawn ++ pending ++ made' := h.append_right made'
    _ ~ accepted ++ withdrawn ++ (accepted' ++ withdrawn' ++ pending') := by
      rw [List.append_assoc (accepted ++ withdrawn)]
      exact h'.append_left _
    _ ~ accepted ++ (withdrawn ++ accepted') ++ (withdrawn' ++ pending') := by
      simp only [List.append_assoc, List.Perm.refl]
    _ ~ accepted ++ (accepted' ++ withdrawn) ++ (withdrawn' ++ pending') :=
      (hmoved.append_left accepted).append_right _
    _ ~ accepted ++ accepted' ++ (withdrawn ++ withdrawn') ++ pending' := by
      simp only [List.append_assoc, List.Perm.refl]

theorem move (h : Ledger capacity acts c) (hmove : Move c a c') :
    Ledger capacity (acts ++ [a]) c' := by
  have he := hmove.effect
  have hcapacity := h.capacity_eq
  refine ⟨he.capacity_eq.trans hcapacity, ?_, ?_, ?_, ?_, ?_, ?_, ?_, ?_⟩
  · simp only [select_snoc, List.map_append]
    rw [← h.delivered, List.append_assoc, List.append_assoc, he.buffer_eq]
  · exact hcapacity ▸ he.length_le (hcapacity ▸ h.length_le)
  · intro hzero t v hmem
    rcases List.mem_append.mp hmem with hmem | hmem
    · exact h.rendezvous hzero t v hmem
    · have := he.room t v (List.mem_singleton.mp hmem).symm
      omega
  · simp only [select_snoc]
    exact settled_snoc h.settled (he.settled h.nodup_offers)
  · simp only [select_snoc, List.map_append]
    refine List.nodup_append.mpr ⟨h.nodup, ?_, ?_⟩
    · cases a.offering? with
      | none => exact .nil
      | some o => exact List.nodup_singleton o.1
    · intro x hx y hy heq
      obtain ⟨o, ho, rfl⟩ := List.mem_map.mp hx
      obtain ⟨o', ho', rfl⟩ := List.mem_map.mp hy
      have hold := h.fresh o ho
      have hnew := (he.ticket o' (Option.mem_toList.mp ho')).1
      omega
  · intro o ho
    have hnext := he.nextTicket_eq
    simp only [select_snoc] at ho
    rcases List.mem_append.mp ho with ho | ho
    · have hold := h.fresh o ho
      omega
    · have hnew := (he.ticket o (Option.mem_toList.mp ho)).1
      have hone := List.length_pos_of_mem ho
      omega
  · intro hopen
    rcases he.closing with ⟨hclosing, hclosed⟩ | ⟨_, hclosed⟩
    · simp only [select_snoc, hclosing, h.of_open (hclosed ▸ hopen)]
      rfl
    · rw [hclosed] at hopen
      cases hopen
  · intro hclosed
    simp only [select_snoc]
    rcases he.closing with ⟨hclosing, hsame⟩ | ⟨hclosing, _⟩
    · rw [hclosing, Option.toList_none, List.append_nil]
      exact h.of_closed (hsame ▸ hclosed)
    · rw [hclosing]
      cases hwas : c.closed with
      | false =>
        have hnone : select Act.closing? acts = [] := h.of_open hwas
        exact ⟨0, by rw [hnone]; rfl⟩
      | true =>
        obtain ⟨n, hn⟩ := h.of_closed hwas
        have hfirst : select Act.closing? acts = true :: List.replicate n false := hn
        refine ⟨n + 1, ?_⟩
        rw [hfirst, List.replicate_succ']
        rfl

end Ledger

/-- What a whole run preserves. -/
theorem Run.ledger {capacity : Nat} (h : Run (ofCapacity capacity) acts c) :
    Ledger capacity acts c := by
  induction h with
  | nil => exact ledger_nil capacity
  | snoc _ hmove ih => exact ih.move hmove

/-! ## The operations of the evaluator -/

theorem move_of_accept? (h : c.accept? t = some c') : ∃ v, Move c (.accepted t v) c' := by
  cases hv : c.offered? t with
  | some v => exact ⟨v, .accept hv h⟩
  | none =>
    unfold accept? at h
    rw [hv] at h
    cases h

/-- An offer that is settled is accepted or withdrawn now, as its sender is told, or
it has been accepted before. -/
theorem move_of_settle? {accepted : Bool} (h : c.settle? t = some (accepted, c')) :
    (∃ v, Move c (if accepted then .accepted t v else .withdrawn t v) c') ∨
      c.offered? t = none ∧ accepted = true ∧ c' = c := by
  unfold settle? at h
  split at h
  · next hsettled =>
    obtain ⟨rfl, rfl⟩ := Prod.mk.inj (Option.some.inj h)
    exact .inr ⟨Option.isNone_iff_eq_none.mp hsettled, rfl, rfl⟩
  · next hpending =>
    split at h
    · next haccept =>
      obtain ⟨rfl, rfl⟩ := Prod.mk.inj (Option.some.inj h)
      exact .inl (move_of_accept? haccept)
    · obtain ⟨d, hwithdraw, heq⟩ := Option.map_eq_some_iff.mp h
      obtain ⟨rfl, rfl⟩ := Prod.mk.inj heq
      cases hv : c.offered? t with
      | some v => exact .inl ⟨v, .withdraw hv hwithdraw⟩
      | none => simp [hv] at hpending

theorem run_refill (c : Channel) : ∃ acts, Run c acts c.refill ∧ deliveries acts = [] := by
  unfold refill
  split
  · next ticket v rest _ =>
    split
    · exact ⟨[], .nil, rfl⟩
    · cases haccept : c.accept? ticket with
      | none => exact ⟨[], .nil, rfl⟩
      | some d =>
        obtain ⟨w, hmove⟩ := move_of_accept? haccept
        exact ⟨[.accepted ticket w], .single hmove, rfl⟩
  · exact ⟨[], .nil, rfl⟩

/-- A receiver is handed the one value that it is told, and no other. -/
theorem run_of_receive? (h : c.receive? = some (some v, c')) :
    ∃ acts, Run c acts c' ∧ deliveries acts = [v] := by
  unfold receive? at h
  split at h
  · next w d htake =>
    obtain ⟨hv, rfl⟩ := Prod.mk.inj (Option.some.inj h)
    obtain rfl := Option.some.inj hv
    obtain ⟨acts, hrun, hnone⟩ := run_refill d
    refine ⟨[.received w] ++ acts, (Run.single (.take htake)).trans hrun, ?_⟩
    simp only [select_append, hnone]
    rfl
  · split at h
    · cases h
    · split at h
      · cases h
      · split at h
        · next ticket _ _ _ =>
          obtain ⟨⟨w, d⟩, hmeet, heq⟩ := Option.map_eq_some_iff.mp h
          obtain ⟨hv, rfl⟩ := Prod.mk.inj heq
          obtain rfl := Option.some.inj hv
          exact ⟨[.met ticket w], .single (.meet hmeet), rfl⟩
        · cases h

theorem run_close (c : Channel) : Run c [.shut c.close.1, .signalled] c.close.2 :=
  (Run.single .shut).snoc (.signal rfl)

/-- The channel has come from a new one by moves of tasks. -/
def Traced (c : Channel) : Prop := ∃ acts, Run (ofCapacity c.capacity) acts c

theorem traced_ofCapacity (capacity : Nat) : (ofCapacity capacity).Traced := ⟨[], .nil⟩

namespace Traced

theorem run (h : c.Traced) (hrun : Run c acts c') : c'.Traced := by
  induction hrun with
  | nil => exact h
  | @snoc _ a _ _ _ hmove ih =>
    obtain ⟨before, hbefore⟩ := ih
    refine ⟨before ++ [a], ?_⟩
    rw [hmove.effect.capacity_eq]
    exact hbefore.snoc hmove

theorem offer? (h : c.Traced) (hoffer : c.offer? v = some (t, c')) : c'.Traced :=
  h.run (.single (.offer hoffer))

theorem settle? {accepted : Bool} (h : c.Traced) (hsettle : c.settle? t = some (accepted, c')) :
    c'.Traced := by
  rcases move_of_settle? hsettle with ⟨v, hmove⟩ | ⟨_, _, rfl⟩
  · exact h.run (.single hmove)
  · exact h

theorem receive? {v? : Option Value} (h : c.Traced) (hreceive : c.receive? = some (v?, c')) :
    c'.Traced := by
  cases v? with
  | none => exact h.run (.single (.finish hreceive))
  | some v =>
    obtain ⟨acts, hrun, _⟩ := run_of_receive? hreceive
    exact h.run hrun

theorem close (h : c.Traced) : c.close.2.Traced := h.run (run_close c)

end Traced
end Channel
end TreeWalk
