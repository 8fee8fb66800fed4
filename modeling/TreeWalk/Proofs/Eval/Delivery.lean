/-
Channels neither lose, duplicate nor reorder values.

What a channel has handed out and what it holds is, in this order, what it has
accepted.  This is a matter of the channel alone: it holds after every run of
moves, and the evaluator changes channels by such moves only, so it holds of every
channel in every session.
-/
import TreeWalk.Proofs.Eval.Invariant

namespace TreeWalk

open Channel
open scoped List

/-- What has passed through a channel of some capacity, and what is there now. -/
structure Channel.Orderly (capacity : Nat) (acts : List Act) (c : Channel) : Prop where
  /-- What receivers were handed is what was accepted, in order, up to what is still
  in the buffer. -/
  order : deliveries acts ++ c.buffer = (acceptances acts).map Prod.snd
  room : c.buffer.length ≤ capacity
  /-- A send on a channel without room succeeds only together with a receiver. -/
  rendezvous : capacity = 0 → ∀ t v, Act.accepted t v ∉ acts
  /-- Each send succeeds once at most, with the value that it offered. -/
  offered : ∀ o ∈ acceptances acts, o ∈ offerings acts
  once : ((acceptances acts).map Prod.fst).Nodup
  /-- A send that failed contributes nothing. -/
  failed : ∀ o ∈ withdrawals acts, o.1 ∉ (acceptances acts).map Prod.fst
  /-- Where a task is told that nothing comes any more, the channel is closed, every
  send has ended, and everything accepted has been received. -/
  ends : ∀ (σ σ' : Store) (id : ChannelId), σ.channel id = c →
    (Event.received id).happen? σ = some (none, σ') →
    true ∈ closings acts ∧ offerings acts ~ acceptances acts ++ withdrawals acts ∧
      deliveries acts = (acceptances acts).map Prod.snd
  /-- The first call that closes answers `true`, all others `false`. -/
  closes : closings acts = [] ∨ ∃ n, closings acts = true :: List.replicate n false

namespace Channel.Ledger

variable {capacity : Nat} {acts : List Act} {c : Channel}

/-- No two sends have the same ticket, whatever became of them. -/
theorem nodup_settled (h : Ledger capacity acts c) :
    ((acceptances acts ++ withdrawals acts).map Prod.fst).Nodup := by
  have hnodup := (h.settled.map Prod.fst).nodup_iff.mp h.nodup
  rw [List.map_append] at hnodup
  exact hnodup.of_append_left

theorem of_received_none {σ σ' : Store} {id : ChannelId} (h : Ledger capacity acts (σ.channel id))
    (hend : (Event.received id).happen? σ = some (none, σ')) :
    true ∈ closings acts ∧ offerings acts ~ acceptances acts ++ withdrawals acts ∧
      deliveries acts = (acceptances acts).map Prod.snd := by
  obtain ⟨⟨v?, d⟩, hreceive, heq⟩ := Option.map_eq_some_iff.mp hend
  obtain ⟨rfl, _⟩ := Prod.mk.inj heq
  obtain ⟨hclosed, hbuffer, hoffers, _⟩ := receive?_eq_none hreceive
  have hdelivered := h.delivered
  have hsettled := h.settled
  rw [hbuffer, List.append_nil] at hdelivered
  rw [hoffers, List.append_nil] at hsettled
  obtain ⟨n, hn⟩ := h.of_closed hclosed
  exact ⟨hn ▸ List.mem_cons_self, hsettled, hdelivered⟩

theorem orderly (h : Ledger capacity acts c) : Orderly capacity acts c where
  order := h.delivered
  room := h.length_le
  rendezvous := h.rendezvous
  offered o ho := h.settled.mem_iff.mpr (List.mem_append_left _ (List.mem_append_left _ ho))
  once := by
    have hnodup := h.nodup_settled
    rw [List.map_append] at hnodup
    exact hnodup.of_append_left
  failed o ho hmem := by
    have hnodup := h.nodup_settled
    rw [List.map_append, List.nodup_append] at hnodup
    exact hnodup.2.2 o.1 hmem o.1 (List.mem_map_of_mem ho) rfl
  ends σ σ' id hid hend := by
    subst hid
    exact h.of_received_none hend
  closes := by
    cases hclosed : c.closed with
    | false => exact .inl (h.of_open hclosed)
    | true => exact .inr (h.of_closed hclosed)

end Channel.Ledger

/-! ## What tasks are told -/

/-- What tasks are told by a channel is what they did to it. -/
structure Channel.Told (σ : Store) (id : ChannelId) : Prop where
  /-- A sender goes past its first step with a ticket, or is refused. -/
  offered : ∀ v f, ∃ ticket? σ', Object.offer id v f σ = .done (.ok ticket?) f σ' ∧
    Run (σ.channel id) [ticket?.elim (.refused v) (.offered · v)] (σ'.channel id)
  /-- A sender that has not been turned away is told whether its value has been accepted. -/
  settled : ∀ capacity acts t v accepted σ', Run (ofCapacity capacity) acts (σ.channel id) →
    (t, v) ∈ offerings acts → (t, v) ∉ withdrawals acts →
    (Event.settled id t).happen? σ = some (accepted, σ') →
    ∃ acts', Run (σ.channel id) acts' (σ'.channel id) ∧ deliveries acts' = [] ∧
      (if accepted then (t, v) ∈ acceptances (acts ++ acts') else (t, v) ∈ withdrawals acts')
  /-- A receiver is told the one value that it was handed, or of the end. -/
  received : ∀ v? σ', (Event.received id).happen? σ = some (v?, σ') →
    ∃ acts, Run (σ.channel id) acts (σ'.channel id) ∧ deliveries acts = v?.toList ∧
      (v? = none → acts = [.ended])
  closed : ∀ f, ∃ wasOpen σ', Object.close id f σ = .done (.ok wasOpen) f σ' ∧
    Run (σ.channel id) [.shut wasOpen, .signalled] (σ'.channel id)

namespace Channel.Ledger

variable {capacity t : Nat} {acts : List Act} {c c' : Channel} {v w : Value}

/-- A ticket stands for one value. -/
theorem eq_of_offered? (h : Ledger capacity acts c) (hv : (t, v) ∈ offerings acts)
    (hw : c.offered? t = some w) : w = v := by
  have hpending : (t, w) ∈ offerings acts :=
    h.settled.mem_iff.mpr (List.mem_append_right _ (mem_offers_of_offered? hw))
  exact congrArg Prod.snd (List.inj_on_of_nodup_map h.nodup hpending hv rfl)

/-- An offer that is not pending has been accepted, unless it has been withdrawn. -/
theorem accepted_of_offered?_none (h : Ledger capacity acts c) (hv : (t, v) ∈ offerings acts)
    (hwithdrawn : (t, v) ∉ withdrawals acts) (hnone : c.offered? t = none) :
    (t, v) ∈ acceptances acts := by
  have hpending : (t, v) ∉ c.offers := by
    intro hmem
    simp only [offered?, Option.map_eq_none_iff, List.find?_eq_none] at hnone
    exact hnone _ hmem (decide_eq_true rfl)
  rcases List.mem_append.mp (h.settled.mem_iff.mp hv) with hmem | hmem
  · exact (List.mem_append.mp hmem).resolve_right hwithdrawn
  · exact absurd hmem hpending

theorem told_settled {accepted : Bool} (h : Ledger capacity acts c) (hv : (t, v) ∈ offerings acts)
    (hwithdrawn : (t, v) ∉ withdrawals acts) (hsettle : c.settle? t = some (accepted, c')) :
    ∃ acts', Run c acts' c' ∧ deliveries acts' = [] ∧
      (if accepted then (t, v) ∈ acceptances (acts ++ acts') else (t, v) ∈ withdrawals acts') := by
  rcases move_of_settle? hsettle with ⟨w, hmove⟩ | ⟨hnone, rfl, rfl⟩
  · cases accepted with
    | true =>
      refine ⟨[.accepted t w], .single hmove, rfl, ?_⟩
      cases hmove with
      | accept hw _ =>
        obtain rfl := h.eq_of_offered? hv hw
        show (t, w) ∈ acceptances (acts ++ [.accepted t w])
        simp [select_append, select, Act.acceptance?]
    | false =>
      refine ⟨[.withdrawn t w], .single hmove, rfl, ?_⟩
      cases hmove with
      | withdraw hw _ =>
        obtain rfl := h.eq_of_offered? hv hw
        exact List.mem_singleton_self _
  · refine ⟨[], .nil, rfl, ?_⟩
    rw [if_pos rfl, List.append_nil]
    exact h.accepted_of_offered?_none hv hwithdrawn hnone

end Channel.Ledger

theorem Channel.told (σ : Store) (id : ChannelId) : Told σ id where
  offered v f := by
    cases hoffer : (σ.channel id).offer? v with
    | none =>
      exact ⟨none, σ, by simp only [Object.offer, Eval.change, hoffer], .single (.refuse hoffer)⟩
    | some r =>
      refine ⟨some r.1, σ.setChannel id r.2, by simp only [Object.offer, Eval.change, hoffer], ?_⟩
      rw [Store.channel_setChannel]
      exact .single (.offer hoffer)
  settled capacity acts t v accepted σ' hrun hv hwithdrawn hstep := by
    obtain ⟨⟨b, c⟩, hsettle, heq⟩ := Option.map_eq_some_iff.mp hstep
    obtain ⟨rfl, rfl⟩ := Prod.mk.inj heq
    rw [Store.channel_setChannel]
    exact hrun.ledger.told_settled hv hwithdrawn hsettle
  received v? σ' hstep := by
    obtain ⟨⟨w?, c⟩, hreceive, heq⟩ := Option.map_eq_some_iff.mp hstep
    obtain ⟨rfl, rfl⟩ := Prod.mk.inj heq
    rw [Store.channel_setChannel]
    cases w? with
    | none => exact ⟨[.ended], .single (.finish hreceive), rfl, fun _ => rfl⟩
    | some w =>
      obtain ⟨acts, hrun, hone⟩ := run_of_receive? hreceive
      exact ⟨acts, hrun, hone, nofun⟩
  closed f := by
    refine ⟨(σ.channel id).close.1, _, rfl, ?_⟩
    rw [Store.channel_setChannel]
    exact run_close (σ.channel id)

/-! ## Sessions -/

theorem robust_traced : Robust Store.Traced where
  quiet h hq := hq.traced h
  cells h _ hchannels := by simpa only [Store.Traced, Store.channel, hchannels] using h

theorem Session.traced_ofSetup (setup : Setup) : (ofSetup setup).Keeps Store.Traced := by
  refine ⟨fun id => ?_, fun t ht => nomatch ht⟩
  rw [show (ofSetup setup).store.channel id = .ofCapacity 0 by simp [ofSetup, Store.channel,
    Store.bind, Store.newArray, Store.rootScope, Store.newScope, Store.addScope, default]]
  exact traced_ofCapacity 0

/-- Whatever tasks do to a channel and in whatever order, values pass through it
orderly, and each task is told what it did.  The channels of a session come about in such a
way, whatever programs it runs, with all of their tasks. -/
theorem channels_deliver_in_order :
    (∀ capacity acts c, Run (ofCapacity capacity) acts c → Orderly capacity acts c) ∧
    (∀ σ id, Told σ id) ∧
    (∀ (s : Session) (scope : ScopeId) (program : Program), s.Keeps Store.Traced →
      (s.runIn scope program).2.Keeps Store.Traced) ∧
    (∀ setup : Setup, (Session.ofSetup setup).Keeps Store.Traced) := by
  refine ⟨fun capacity acts c h => h.ledger.orderly, told, fun s scope program hs => ?_,
    Session.traced_ofSetup⟩
  exact robust_traced.lasting.runIn hs scope program

/-- A sender and a receiver that meet, and a second sender that the close turns away. -/
theorem channels_deliver_in_order_rendezvous :
    let acts : List Act := [.offered 0 (.ofInt 1), .offered 1 (.ofInt 2), .met 0 (.ofInt 1),
      .shut true, .signalled, .withdrawn 1 (.ofInt 2)]
    deliveries acts ++ [] = (acceptances acts).map Prod.snd ∧
    ((Session.ofSetup {}).run []).2.Keeps Store.Traced := by
  have hoffered : Run (ofCapacity 0) [.offered 0 (.ofInt 1), .offered 1 (.ofInt 2)]
      ⟨0, [], [(0, .ofInt 1), (1, .ofInt 2)], false, false, 2⟩ :=
    (Run.single (.offer rfl)).snoc (.offer rfl)
  have hmet : Run (ofCapacity 0) [.offered 0 (.ofInt 1), .offered 1 (.ofInt 2), .met 0 (.ofInt 1)]
      ⟨0, [], [(1, .ofInt 2)], false, false, 2⟩ := hoffered.snoc (.meet rfl)
  have hended : Run (ofCapacity 0) [.offered 0 (.ofInt 1), .offered 1 (.ofInt 2),
      .met 0 (.ofInt 1), .shut true, .signalled, .withdrawn 1 (.ofInt 2)]
      ⟨0, [], [], true, true, 2⟩ :=
    ((hmet.snoc .shut).snoc (.signal rfl)).snoc (.withdraw rfl rfl)
  obtain ⟨horder, _, hrun, hsetup⟩ := channels_deliver_in_order
  exact ⟨(horder 0 _ _ hended).order, hrun _ _ _ (hsetup {})⟩

end TreeWalk
