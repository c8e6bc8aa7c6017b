import StreamBroker.Front.Provider
set_option autoImplicit false

/-!
# Record streams

The answer to a scan or a read is a stream of records that does nothing until it is pulled.  The
first pull makes the query, for a read that may wait only once a dedicated channel is there, and the
channel is kept until the stream has told its end or is given up.  An error is the last element: the
pull behind it tells the end.
-/

namespace StreamBroker

/-- A stream of records over a provider. -/
inductive RecordStream {σ : Type} (p : Provider σ) where
  /-- Not pulled yet. -/
  | fresh (route : Route) (query : Query)
  /-- Waiting for a dedicated channel. -/
  | acquiring (ticket : p.Ticket) (query : Query)
  /-- Giving records, on a dedicated channel if there is a lease. -/
  | running (lease : Option p.Lease) (feed : p.Feed)
  /-- Past its error, with what is still to be given back. -/
  | failed (lease : Option p.Lease) (feed : Option p.Feed)
  /-- Past its end. -/
  | ended

namespace RecordStream

variable {σ : Type}

/-- Gives back a channel, if there is one. -/
def giveBack (p : Provider σ) : Option p.Lease → StateM σ Unit
  | some lease => p.release lease
  | none => return ()

/-- Gives up a feed, if there is one. -/
def closeFeed (p : Provider σ) : Option p.Feed → StateM σ Unit
  | some feed => p.close feed
  | none => return ()

/-- Pulls a message and makes a record of it. -/
def pullFeed (p : Provider σ) (lease : Option p.Lease) (feed : p.Feed) :
    StateM σ (Pull Record × RecordStream p) := do
  match ← p.pull feed with
  | (.waiting, feed) => return (.waiting, .running lease feed)
  | (.finished, _) =>
    giveBack p lease
    return (.finished, .ended)
  | (.item (.error failure), feed) => return (.item (.error failure), .failed lease (some feed))
  | (.item (.ok m), feed) =>
    match m.record with
    | .ok record => return (.item (.ok record), .running lease feed)
    | .error failure => return (.item (.error failure), .failed lease (some feed))

/-- Looks for the dedicated channel and goes on if it is there. -/
def pullTicket (p : Provider σ) (ticket : p.Ticket) (query : Query) :
    StateM σ (Pull Record × RecordStream p) := do
  match ← p.collect ticket with
  | .waiting => return (.waiting, .acquiring ticket query)
  | .ready (.error failure) => return (.item (.error failure), .failed none none)
  | .ready (.ok lease) =>
    let feed ← p.submit .dedicated query
    pullFeed p (some lease) feed

/-- Pulls the next record. -/
def pull (p : Provider σ) : RecordStream p → StateM σ (Pull Record × RecordStream p)
  | .fresh .shared query => do
    let feed ← p.submit .shared query
    pullFeed p none feed
  | .fresh .dedicated query => do
    let ticket ← p.request
    pullTicket p ticket query
  | .acquiring ticket query => pullTicket p ticket query
  | .running lease feed => pullFeed p lease feed
  | .failed lease feed => do
    closeFeed p feed
    giveBack p lease
    return (.finished, .ended)
  | .ended => return (.finished, .ended)

/-- Gives a stream up. -/
def drop (p : Provider σ) : RecordStream p → StateM σ Unit
  | .acquiring ticket _ => p.withdraw ticket
  | .running lease feed => do
    p.close feed
    giveBack p lease
  | .failed lease feed => do
    closeFeed p feed
    giveBack p lease
  | .fresh .. | .ended => return ()

/-- Pulls records until the stream waits or is over, at most `limit` times. -/
def drain (p : Provider σ) :
    Nat → RecordStream p → StateM σ (List (Except Failure Record) × RecordStream p)
  | 0, stream => return ([], stream)
  | limit + 1, stream => do
    match ← pull p stream with
    | (.item record, stream) =>
      let (records, stream) ← drain p limit stream
      return (record :: records, stream)
    | (_, stream) => return ([], stream)

/-- Whether a stream is past its end. -/
def isOver {p : Provider σ} : RecordStream p → Bool
  | .ended => true
  | _ => false

end RecordStream

/-! ## Responses with record streams -/

namespace Lazily

variable {σ C : Type}

/-- Plans a command and gives its record stream, which has not been pulled. -/
def respond (p : Provider σ) (query : C → Except Failure (Route × Query)) (c : C) :
    Response C (RecordStream p) :=
  ⟨c, (query c).map fun q => .fresh q.1 q.2⟩

/-- The next response, if there is one, and how many commands were pulled by then. -/
def next (p : Provider σ) (source : Nat → Option C) (query : C → Except Failure (Route × Query))
    (pulled : Nat) : StateM σ (Option (Response C (RecordStream p)) × Nat) :=
  match source pulled with
  | none => return (none, pulled)
  | some c => do
    p.onPull pulled
    return (some (respond p query c), pulled + 1)

end Lazily

/-- The channel and the query of a scan: it never waits. -/
def RangeCommand.routed (direction : Direction) (c : RangeCommand) :
    Except Failure (Route × Query) :=
  (c.query direction).map (Route.shared, ·)

end StreamBroker
