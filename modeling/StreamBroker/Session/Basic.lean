import StreamBroker.Session.Job
set_option autoImplicit false

/-!
# Sessions

A session is a hub on which steps are carried out one after the other while reads wait in the
background and cursors are kept to be pulled from.  This module says what the steps of a session
are, what comes of them, and what a session holds.
-/

namespace StreamBroker

/-- Where a call is made. -/
inductive Via where
  /-- On the engine itself. -/
  | engine
  /-- On the shared channel. -/
  | shared
  /-- On the dedicated channel that is leased under a name. -/
  | lease (name : String)
  deriving DecidableEq, Repr

/-- A step of a session. -/
inductive Step where
  /-- Lets time pass. -/
  | advance (millis : Nat)
  /-- Gives up a task. -/
  | cancel (name : String)
  /-- Acquires a dedicated channel, in the background. -/
  | lease (name : String)
  /-- Gives a dedicated channel back. -/
  | release (name : String)
  /-- Pulls from a cursor. -/
  | next (name : String) (count : Nat)
  /-- Gives up a cursor. -/
  | drop (name : String)
  /-- Runs an operation of the front end to its end. -/
  | operate (operation : Operation)
  /-- Reads through the front end, in the background. -/
  | read (name : String) (commands : List ReadCommand)
  /-- Keeps the record stream of a scan as a cursor. -/
  | openRange (name : String) (direction : Direction) (command : RangeCommand)
  /-- Keeps the record stream of a read as a cursor. -/
  | openRead (name : String) (command : ReadCommand)
  /-- Makes a call. -/
  | call (via : Via) (call : AnyCall)
  /-- Asks the engine for the number of pending entries of a group. -/
  | pending (key group : Bytes)
  /-- Scans to the end. -/
  | scan (via : Via) (query : Query)
  /-- Reads on a channel, in the background. -/
  | readOn (via : Via) (name : String) (request : ReadRequest)
  /-- Keeps a scan of the engine as a cursor. -/
  | openScan (name : String) (query : Query)

/-- What is pulled from a cursor. -/
inductive Item where
  | message (item : Except Failure Message)
  | ended
  | waiting
  deriving Repr

/-- A task that ended. -/
structure Finished where
  /-- The number of the task; tasks are numbered as they are started. -/
  id : Nat
  name : String
  outcome : Outcome
  deriving Repr

/-- What comes of a step. -/
inductive Result where
  | started
  | opened
  | failed (input : Command) (failure : Failure)
  | flag (value : Bool)
  | finished (tasks : List Finished)
  | items (items : List Item)
  | answers (answers : List Answer)
  | records (answers : List RecordsAnswer)
  | reply (kind : ReplyKind) (reply : Except Failure kind.Value)
  | pending (count : Option Nat)
  | messages (items : List (Except Failure Message))

/-- The calls and leases of a session so far. -/
structure Tally where
  sharedCalls : Nat
  dedicatedCalls : Nat
  acquired : Nat
  inUse : Nat
  deriving DecidableEq, Repr

/-- What is told of a step. -/
structure Report where
  result : Result
  tally : Tally
  finished : List Finished

/-- A task in the background. -/
structure Background where
  id : Nat
  name : String
  job : Job
  /-- When it began to wait, counted in waits. -/
  since : Nat

/-- A cursor. -/
inductive Handle where
  | records (stream : RecordStream Hub.provider)
  | messages (feed : Hub.Feed)

/-- A hub with background tasks, cursors and leases. -/
structure Session where
  hub : Hub
  tasks : List Background
  nextTask : Nat
  /-- Tasks that can go on, in the order in which they will. -/
  ready : List Nat
  /-- How many waits there were. -/
  waits : Nat
  cursors : List (String × Handle)
  leases : List (String × TicketId)

namespace Session

/-- A session at its beginning. -/
def start (settings : Settings) (wallClock : UInt64) : Session :=
  ⟨.start settings wallClock, [], 0, [], 0, [], []⟩

/-- Sets the time of day. -/
def atTime (s : Session) (wallClock : UInt64) : Session :=
  { s with hub := { s.hub with wallClock } }

/-- The calls and leases so far. -/
def tally (s : Session) : Tally :=
  ⟨s.hub.sharedCalls, s.hub.dedicatedCalls, s.hub.pool.acquired, s.hub.pool.inUse⟩

/-- Works on the hub. -/
def onHub {α : Type} (work : StateM Hub α) : StateM Session α :=
  modifyGet fun s =>
    let (a, hub) := work.run s.hub
    (a, { s with hub })

end Session

end StreamBroker
