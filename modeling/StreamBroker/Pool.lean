import StreamBroker.Failure
set_option autoImplicit false

/-!
# Dedicated channels

A pool hands out a fixed number of channels to those who ask, first come first served.  A channel
that comes free while somebody waits is granted at once to whoever has waited longest, who finds it
when looking again; nobody can overtake.  One who looks in vain when time is up leaves the queue,
and one who gives up while a channel is granted passes it on.
-/

namespace StreamBroker

/-- The number of a place in the queue; it becomes the number of the lease. -/
abbrev TicketId := Nat

/-- The channels of a pool and who has or wants them. -/
structure Pool where
  /-- Channels that nobody has or was granted. -/
  free : Nat
  /-- Who waits, the longest first. -/
  queue : List TicketId
  /-- Who was granted a channel and has not looked again. -/
  granted : List TicketId
  /-- Who has a channel. -/
  leased : List TicketId
  /-- How many leases there were so far. -/
  acquired : Nat
  /-- The number of the next ticket. -/
  nextTicket : TicketId
  deriving DecidableEq, Repr

namespace Pool

/-- A pool of `size` channels. -/
def ofSize (size : Nat) : Pool := ⟨size, [], [], [], 0, 0⟩

/-- How many channels are leased. -/
def inUse (p : Pool) : Nat := p.leased.length

/-- Asks for a channel. -/
def request (p : Pool) : TicketId × Pool :=
  let ticket := p.nextTicket
  let p := { p with nextTicket := ticket + 1 }
  if p.free = 0 then (ticket, { p with queue := p.queue ++ [ticket] })
  else (ticket, { p with free := p.free - 1, granted := p.granted ++ [ticket] })

/-- Passes a channel on to whoever has waited longest. -/
def passOn (p : Pool) : Pool :=
  match p.queue with
  | [] => { p with free := p.free + 1 }
  | ticket :: queue => { p with queue, granted := p.granted ++ [ticket] }

/-- What one who asked finds. -/
inductive Found where
  | leased
  | tooLate
  | nothing
  deriving DecidableEq, Repr

/-- Looks for a channel; `isDue` tells whether time is up. -/
def collect (p : Pool) (ticket : TicketId) (isDue : Bool) : Found × Pool :=
  if ticket ∈ p.granted then
    (.leased,
      { p with
        granted := p.granted.erase ticket
        leased := p.leased ++ [ticket]
        acquired := p.acquired + 1 })
  else if isDue then (.tooLate, { p with queue := p.queue.erase ticket })
  else (.nothing, p)

/-- Leaves the queue, passing on what was granted. -/
def withdraw (p : Pool) (ticket : TicketId) : Pool :=
  if ticket ∈ p.granted then { p with granted := p.granted.erase ticket }.passOn
  else { p with queue := p.queue.erase ticket }

/-- Gives a channel back. -/
def release (p : Pool) (lease : TicketId) : Pool :=
  if lease ∈ p.leased then { p with leased := p.leased.erase lease }.passOn else p

end Pool

end StreamBroker
