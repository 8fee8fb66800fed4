/-
What a close of a channel stops.

From the first step of a close on, every new offer is refused.  Offers made before
are another matter: a sender that has been told of the close and finds room has two
ways to go on, and one of them is to have its value accepted.  So a value can be
accepted after the close has returned (`accepted_after_close`), but only one that
had been offered before, and none at all if no send was in progress.
-/
import TreeWalk.Proofs.Sync.Traffic

namespace TreeWalk
namespace Channel

open scoped List

variable {c d : Channel} {acts before after : List Act}

/-- A channel never opens again, and takes no more offers. -/
theorem Run.of_closed (h : Run c acts d) (hclosed : c.closed = true) :
    d.closed = true ∧ offerings acts = [] := by
  induction h with
  | nil => exact ⟨hclosed, rfl⟩
  | @snoc acts a m m' _ hmove ih =>
    have he := hmove.effect
    have hnone : a.offering? = none := by
      cases ho : a.offering? with
      | none => rfl
      | some o =>
        have hopen := (he.ticket o ho).2
        simp [ih.1] at hopen
    refine ⟨?_, by simp only [select_snoc, ih.2, hnone]; rfl⟩
    rcases he.closing with ⟨_, hsame⟩ | ⟨_, hshut⟩
    · rw [hsame]
      exact ih.1
    · exact hshut

/-- After its first step a close leaves nobody but those who have offered. -/
theorem Run.offerings_after {capacity : Nat} {b : Bool}
    (h : Run (ofCapacity capacity) (before ++ .shut b :: after) c) : offerings after = [] := by
  rw [List.append_cons] at h
  obtain ⟨m, hbefore, hafter⟩ := h.split
  refine (hafter.of_closed ?_).2
  generalize hacts : before ++ [Act.shut b] = acts at hbefore
  cases hbefore with
  | nil => simp at hacts
  | snoc _ hmove =>
    obtain ⟨_, rfl⟩ := List.append_singleton_inj.mp hacts
    cases hmove
    rfl

/-- A value that is accepted, and then received, after a close has returned: its
sender had offered it before, and found room when it was told of the close. -/
theorem accepted_after_close :
    ∃ before after c, Run (ofCapacity 1) (before ++ .signalled :: after) c ∧
      acceptances before = [] ∧ acceptances after = [(0, .nothing)] ∧
      deliveries after = [.nothing] := by
  have hoffered : Run (ofCapacity 1) [.offered 0 .nothing] _ := .single (.offer rfl)
  have hclosed : Run (ofCapacity 1) [.offered 0 .nothing, .shut true, .signalled] _ :=
    (hoffered.snoc .shut).snoc (.signal rfl)
  have haccepted : Run (ofCapacity 1)
      [.offered 0 .nothing, .shut true, .signalled, .accepted 0 .nothing]
      ⟨1, [.nothing], [], true, true, 1⟩ := hclosed.snoc (.accept rfl rfl)
  have hreceived : Run (ofCapacity 1)
      [.offered 0 .nothing, .shut true, .signalled, .accepted 0 .nothing, .received .nothing]
      ⟨1, [], [], true, true, 1⟩ := haccepted.snoc (.take rfl)
  exact ⟨[.offered 0 .nothing, .shut true], [.accepted 0 .nothing, .received .nothing], _,
    hreceived, rfl, rfl, rfl⟩

/-- What is accepted after the first step of a close had been offered before it.  If
no send was in progress then, nothing is accepted any more, and what is handed out in
all had been accepted before. -/
theorem close_stops_new_sends {capacity : Nat} {b : Bool}
    (h : Run (ofCapacity capacity) (before ++ .shut b :: after) c) :
    (∀ o ∈ acceptances after, o ∈ offerings before) ∧
    (offerings before ~ acceptances before ++ withdrawals before →
      acceptances after = [] ∧
      deliveries (before ++ .shut b :: after) ++ c.buffer = (acceptances before).map Prod.snd) := by
  have hledger := h.ledger
  have hsettled : offerings before ~ (acceptances before ++ acceptances after) ++
      (withdrawals before ++ withdrawals after) ++ c.offers := by
    have hall := hledger.settled
    have hnew : offerings (.shut b :: after) = [] := h.offerings_after
    simp only [select_append, hnew, List.append_nil] at hall
    exact hall
  refine ⟨fun o ho => ?_, fun hidle => ?_⟩
  · refine hsettled.mem_iff.mpr ?_
    simp only [List.mem_append]
    exact .inl (.inl (.inr ho))
  · have hlength := (hidle.symm.trans hsettled).length_eq
    simp only [List.length_append] at hlength
    have hnone : acceptances after = [] := List.eq_nil_of_length_eq_zero (by omega)
    refine ⟨hnone, ?_⟩
    have hsame : acceptances (before ++ .shut b :: after) = acceptances before := by
      have hlater : acceptances (.shut b :: after) = [] := hnone
      simp only [select_append, hlater, List.append_nil]
    rw [hledger.delivered, hsame]

/-- A value sent before the close is all that is received after it. -/
theorem close_stops_new_sends_drained :
    acceptances [.signalled, .received .nothing] = [] ∧
    deliveries [.offered 0 .nothing, .accepted 0 .nothing, .shut true, .signalled,
      .received .nothing] ++ [] = [.nothing] := by
  have hsent : Run (ofCapacity 1) [.offered 0 .nothing, .accepted 0 .nothing]
      ⟨1, [.nothing], [], false, false, 1⟩ := (Run.single (.offer rfl)).snoc (.accept rfl rfl)
  have hreceived : Run (ofCapacity 1) ([.offered 0 .nothing, .accepted 0 .nothing] ++ .shut true ::
      [.signalled, .received .nothing]) ⟨1, [], [], true, true, 1⟩ :=
    ((hsent.snoc .shut).snoc (.signal rfl)).snoc (.take rfl)
  exact (close_stops_new_sends hreceived).2 (.refl _)

end Channel
end TreeWalk
