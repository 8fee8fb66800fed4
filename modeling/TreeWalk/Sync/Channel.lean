/-
Channels.

A channel holds up to `capacity` values that have been sent and not yet been
received.  Sending has two steps.  The sender first offers its value, which a
closed channel refuses.  The offer is then settled in one of three ways: it is
accepted into the buffer when there is room for it, a receiver takes it when
nothing is in the buffer, or it is withdrawn when the close has been signalled.
A channel without room for any value thus passes a value on only when a sender
and a receiver meet.

Closing has two steps as well: new offers are refused from the first one on, and
the second one tells those who wait with an offer.  An offer made before may
still be accepted after both, as long as there is room.
-/
import TreeWalk.Value.Basic

namespace TreeWalk

structure Channel where
  capacity : Nat
  /-- Values accepted and not yet received, the oldest first. -/
  buffer : List Value
  /-- Values offered and not yet accepted, each with the ticket of its sender. -/
  offers : List (Nat × Value)
  /-- New offers are refused. -/
  closed : Bool
  /-- Those who wait with an offer have been told that the channel is closed. -/
  signalled : Bool
  nextTicket : Nat

namespace Channel

def ofCapacity (capacity : Nat) : Channel := ⟨capacity, [], [], false, false, 0⟩

instance : Inhabited Channel := ⟨ofCapacity 0⟩

/-- The number of values that can be received without a sender. -/
def length (c : Channel) : Nat := c.buffer.length

def hasRoom (c : Channel) : Bool := c.buffer.length < c.capacity

/-! ## Offers -/

/-- Offers a value and answers the ticket of the offer; `none` on a closed
channel. -/
def offer? (c : Channel) (v : Value) : Option (Nat × Channel) :=
  if c.closed then none
  else some (c.nextTicket,
    { c with offers := c.offers ++ [(c.nextTicket, v)], nextTicket := c.nextTicket + 1 })

/-- The value of an offer that has not been settled. -/
def offered? (c : Channel) (ticket : Nat) : Option Value :=
  (c.offers.find? (·.1 = ticket)).map (·.2)

/-- An offer taken off the list. -/
def dropOffer (c : Channel) (ticket : Nat) : Channel :=
  { c with offers := c.offers.filter (·.1 ≠ ticket) }

/-- Accepts an offer into the buffer, if there is room. -/
def accept? (c : Channel) (ticket : Nat) : Option Channel :=
  match c.offered? ticket with
  | some v =>
    if c.hasRoom then some { c.dropOffer ticket with buffer := c.buffer ++ [v] } else none
  | none => none

/-- Withdraws an offer, once the close has been signalled. -/
def withdraw? (c : Channel) (ticket : Nat) : Option Channel :=
  if (c.offered? ticket).isSome && c.signalled then some (c.dropOffer ticket) else none

/-- What has become of an offer: `true` once it is accepted, `false` if the
channel was closed and had no room for it, `none` as long as the sender has to
wait. -/
def settle? (c : Channel) (ticket : Nat) : Option (Bool × Channel) :=
  if (c.offered? ticket).isNone then some (true, c)
  else
    match c.accept? ticket with
    | some c => some (true, c)
    | none => (c.withdraw? ticket).map (false, ·)

/-- Accepts the oldest offer to an open channel if there is room for it. -/
def refill (c : Channel) : Channel :=
  match c.offers with
  | (ticket, _) :: _ => if c.closed then c else (c.accept? ticket).getD c
  | [] => c

/-! ## Receiving -/

/-- The oldest value of the buffer. -/
def take? (c : Channel) : Option (Value × Channel) :=
  match c.buffer with
  | v :: rest => some (v, { c with buffer := rest })
  | [] => none

/-- Takes the value of an offer, if nothing is in the buffer. -/
def meet? (c : Channel) (ticket : Nat) : Option (Value × Channel) :=
  if c.buffer.isEmpty then (c.offered? ticket).map (·, c.dropOffer ticket) else none

/-- Nothing is left to receive, and nothing can come any more. -/
def ended (c : Channel) : Bool := c.closed && c.buffer.isEmpty && c.offers.isEmpty

/-- The next value; `some none` at the end of a closed channel, `none` as long
as the receiver has to wait. -/
def receive? (c : Channel) : Option (Option Value × Channel) :=
  match c.take? with
  | some (v, c) => some (some v, c.refill)
  | none =>
    if c.ended then some (none, c)
    else if c.closed then none
    else
      match c.offers with
      | (ticket, _) :: _ => (c.meet? ticket).map fun (v, c) => (some v, c)
      | [] => none

/-! ## Closing -/

/-- Refuses offers from now on, and answers whether the channel was open. -/
def shut (c : Channel) : Bool × Channel := (!c.closed, { c with closed := true })

/-- Tells those who wait with an offer that the channel is closed. -/
def signal (c : Channel) : Channel := { c with signalled := true }

/-- Closes the channel and answers whether it was open. -/
def close (c : Channel) : Bool × Channel :=
  let (wasOpen, c) := c.shut
  (wasOpen, c.signal)

end Channel
end TreeWalk
