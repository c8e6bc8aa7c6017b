import StreamBroker.ClockNames
import StreamBroker.Front.Lengths
import StreamBroker.Front.Ordered
import StreamBroker.Front.Records
import StreamBroker.Pool
import StreamBroker.Settings
set_option autoImplicit false

/-!
# The hub

A hub is an engine with its channels: one shared channel, a pool of dedicated ones, and the count of
the calls on each.  It is the provider behind the front end when everything is kept in memory.

A hub has two clocks.  `now` is the time by which reads and places in the queue wait; `wallClock`
is the time of day from which identifiers are taken.
-/

namespace StreamBroker

/-- An engine and its channels. -/
structure Hub where
  engine : Engine
  pool : Pool
  settings : Settings
  sharedCalls : Nat
  dedicatedCalls : Nat
  now : Nat
  wallClock : UInt64
  /-- The time of day when the hub was made. -/
  opened : UInt64
  names : ClockNames

namespace Hub

/-- A hub that has done nothing. -/
def start (settings : Settings) (wallClock : UInt64) : Hub :=
  { engine := ∅
    pool := .ofSize settings.dedicatedChannels.toNat
    settings
    sharedCalls := 0
    dedicatedCalls := 0
    now := 0
    wallClock
    opened := wallClock
    names := .none }

/-- A place in the queue for a dedicated channel, with the time at which it is given up. -/
structure Ticket where
  id : TicketId
  deadline : Nat
  deriving DecidableEq, Repr

/-- The messages that answer a query. -/
inductive Feed where
  /-- A scan, page by page. -/
  | scanning (scan : Scan)
  /-- A read that has not begun. -/
  | reading (request : ReadRequest)
  /-- A read that waits. -/
  | waiting (wait : Wait)
  /-- Messages that were read and not yet given. -/
  | delivering (messages : List Message)
  /-- A refusal that is not yet told. -/
  | refused (refusal : Refusal)
  /-- Nothing more. -/
  | ended
  deriving Repr

/-! ## Calls -/

/-- Counts a call on a channel. -/
def count (h : Hub) : Route → Hub
  | .shared => { h with sharedCalls := h.sharedCalls + 1 }
  | .dedicated => { h with dedicatedCalls := h.dedicatedCalls + 1 }

/-- Whether the request for an identifier leaves it to the clock. -/
def asksClock : Option String → Bool
  | none => true
  | some text => text == "*"

/-- Names the identifier just given away under a key, if it was taken from the clock. -/
def nameLast (h : Hub) (key : Bytes) (request : Option String) : Hub :=
  let id := h.engine.store.lastId key
  if asksClock request ∧ h.opened ≤ id.millis ∧ id.millis ≤ h.wallClock then
    { h with names := h.names.add key id }
  else h

/-- Carries out a call on the engine. -/
def perform {k : ReplyKind} (call : Call k) : StateM Hub (Except Failure k.Value) :=
  modifyGet fun h =>
    let (outcome, engine) := h.engine.perform h.wallClock call
    let h := { h with engine }
    match call, outcome with
    | .add key request _, .ok id => (.ok id, h.nameLast key request)
    | _, outcome => (outcome, h)

/-- Carries out a call on a channel. -/
def callOn {k : ReplyKind} (route : Route) (call : Call k) :
    StateM Hub (Except Failure k.Value) := do
  modify (·.count route)
  perform call

/-! ## Feeds -/

/-- The feed of a query that was just made. -/
def Feed.ofQuery : Query → Feed
  | .scan key range window direction =>
    match Scan.start key range window direction with
    | .ok scan => .scanning scan
    | .error refusal => .refused refusal
  | .read request => .reading request

/-- What a read gives after a step. -/
def Feed.ofProgress : Progress → Pull Message × Feed
  | .waiting wait => (.waiting, .waiting wait)
  | .returned (.error refusal) => (.item (.error (.server refusal)), .ended)
  | .returned (.ok []) => (.finished, .ended)
  | .returned (.ok (m :: rest)) => (.item (.ok m), .delivering rest)

/-- Pulls the next message. -/
def pull : Feed → StateM Hub (Pull Message × Feed)
  | .scanning scan => do
    let h ← get
    match scan.next h.engine.store with
    | (some m, scan) => return (.item (.ok m), .scanning scan)
    | (none, _) => return (.finished, .ended)
  | .reading request => modifyGet fun h =>
    let (progress, engine) := h.engine.beginRead h.now request
    (Feed.ofProgress progress, { h with engine })
  | .waiting wait => modifyGet fun h =>
    let (progress, engine) := h.engine.resume h.now wait
    (Feed.ofProgress progress, { h with engine })
  | .delivering [] => return (.finished, .ended)
  | .delivering (m :: rest) => return (.item (.ok m), .delivering rest)
  | .refused refusal => return (.item (.error (.server refusal)), .ended)
  | .ended => return (.finished, .ended)

/-- Pulling a scan gives its next message, from the store as it is. -/
theorem run_pull_scanning (scan : Scan) (h : Hub) :
    (pull (.scanning scan)).run h =
      (match scan.next h.engine.store with
        | (some m, scan) => (.item (.ok m), .scanning scan)
        | (none, _) => (.finished, .ended), h) := by
  have hrun : (pull (.scanning scan)).run h =
      StateT.run (match scan.next h.engine.store with
        | (some m, scan) => return (.item (.ok m), .scanning scan)
        | (none, _) => return (.finished, .ended)) h := rfl
  rw [hrun]
  rcases scan.next h.engine.store with ⟨_ | m, scan⟩ <;> rfl

/-- Gives up a feed. -/
def close : Feed → StateM Hub Unit
  | .waiting wait => modify fun h => { h with engine := h.engine.abandon wait }
  | _ => return ()

/-- Whether pulling a feed that waits would get anywhere. -/
def Feed.isReady (h : Hub) : Feed → Bool
  | .waiting wait => h.engine.isReady h.now wait
  | _ => true

/-! ## Dedicated channels -/

/-- Asks for a dedicated channel. -/
def request : StateM Hub Ticket :=
  modifyGet fun h =>
    let (id, pool) := h.pool.request
    (⟨id, h.now + h.settings.acquireTimeout.toNat⟩, { h with pool })

/-- Looks whether a dedicated channel is there. -/
def collect (ticket : Ticket) : StateM Hub (Poll (Except Failure TicketId)) :=
  modifyGet fun h =>
    let (found, pool) := h.pool.collect ticket.id (ticket.deadline ≤ h.now)
    let h := { h with pool }
    match found with
    | .leased => (.ready (.ok ticket.id), h)
    | .tooLate => (.ready (.error (.exhausted (.noneWithin h.settings.acquireTimeout))), h)
    | .nothing => (.waiting, h)

/-- Gives up a place in the queue. -/
def withdraw (ticket : Ticket) : StateM Hub Unit :=
  modify fun h => { h with pool := h.pool.withdraw ticket.id }

/-- Gives a dedicated channel back. -/
def release (lease : TicketId) : StateM Hub Unit :=
  modify fun h => { h with pool := h.pool.release lease }

/-- Whether looking for a dedicated channel would get anywhere. -/
def Ticket.isReady (h : Hub) (t : Ticket) : Bool :=
  t.id ∈ h.pool.granted || t.deadline ≤ h.now

/-! ## The provider -/

/-- The provider that keeps everything in memory; its replies take no time. -/
def provider : Provider Hub where
  Ticket := Ticket
  Lease := TicketId
  Feed := Feed
  now := return (← get).now
  elapse _ := return ()
  onPull _ := return ()
  dispatch call := return (0, ← callOn .shared call)
  request := request
  collect := collect
  withdraw := withdraw
  release := release
  submit route query := do
    modify (·.count route)
    return .ofQuery query
  pull := pull
  close := close

/-- More pulls than any stream of records over `cursors` cursors can take. -/
def patience (h : Hub) (cursors : Nat) : Nat := (h.engine.store.weight + 1) * (cursors + 1) + 2

end Hub

end StreamBroker
