import StreamBroker.Command.Plan
set_option autoImplicit false

/-!
# What the front end meets

The front end meets a world of state `σ`: it pulls commands, makes calls on the shared channel,
asks for dedicated channels and gives them back, and pulls messages from the feeds that queries
open.  A `Provider` says how the world takes each of these.  Everything in `Front` is written
against it, so what holds there holds over any engine, transport or recording.
-/

namespace StreamBroker

/-- What comes of asking for something that may not be there yet. -/
inductive Poll (α : Type) where
  | ready (a : α)
  | waiting
  deriving Repr

/-- What comes of pulling from a sequence. -/
inductive Pull (α : Type) where
  /-- Its next element, or the failure that stands in its place. -/
  | item (a : Except Failure α)
  /-- Nothing yet. -/
  | waiting
  /-- Nothing ever again. -/
  | finished
  deriving Repr

/-- How a world of state `σ` takes what the front end does. -/
structure Provider (σ : Type) where
  /-- A place in the queue for a dedicated channel. -/
  Ticket : Type
  /-- A dedicated channel that has to be given back. -/
  Lease : Type
  /-- The messages that answer a query. -/
  Feed : Type
  /-- The time. -/
  now : StateM σ Nat
  /-- Lets time pass. -/
  elapse (millis : Nat) : StateM σ Unit
  /-- Is told that the command at a position is pulled. -/
  onPull (position : Nat) : StateM σ Unit
  /-- Makes a call on the shared channel: when its reply will be there, and what it will be. -/
  dispatch {k : ReplyKind} (call : Call k) : StateM σ (Nat × Except Failure k.Value)
  /-- Asks for a dedicated channel. -/
  request : StateM σ Ticket
  /-- Looks whether a dedicated channel is there, or was refused. -/
  collect (ticket : Ticket) : StateM σ (Poll (Except Failure Lease))
  /-- Gives up a place in the queue. -/
  withdraw (ticket : Ticket) : StateM σ Unit
  /-- Gives a dedicated channel back. -/
  release (lease : Lease) : StateM σ Unit
  /-- Makes a query on a channel. -/
  submit (route : Route) (query : Query) : StateM σ Feed
  /-- Pulls the next message. -/
  pull (feed : Feed) : StateM σ (Pull Message × Feed)
  /-- Gives up a feed. -/
  close (feed : Feed) : StateM σ Unit

namespace Provider

variable {σ : Type}

/-- Makes a call and waits for its reply. -/
def call (p : Provider σ) {k : ReplyKind} (c : Call k) : StateM σ (Except Failure k.Value) := do
  let (delay, reply) ← p.dispatch c
  p.elapse delay
  return reply

end Provider

/-- The answer to one command. -/
structure Response (C R : Type) where
  command : C
  outcome : Except Failure R
  deriving Repr

end StreamBroker
