import StreamBroker.Registry
import StreamBroker.Store.Read
import StreamBroker.Store.Scan
set_option autoImplicit false

/-!
# The engine

The engine is a store together with the registry of readers that wait for it to change.  Every
function of this module is one step that nothing can interrupt; a read that waits is suspended
between two of them (`beginRead`, then `resume` until it returns, or `abandon`).

Time is counted in milliseconds.  The deadline of a read is fixed when it begins and does not move,
however often the read is woken in vain.
-/

namespace StreamBroker

/-- A store and the readers that wait for it to change. -/
structure Engine where
  store : Store
  registry : Registry
  deriving DecidableEq, Repr

/-- What a read asks for. -/
structure ReadRequest where
  /-- Keys, each with the token of its cursor. -/
  offsets : List (Bytes × String)
  /-- How long to wait for a first message; zero means for ever, none not at all. -/
  block : Option UInt64
  /-- How many messages to take from each stream. -/
  count : Option UInt64
  /-- Whether delivered entries count as acknowledged. -/
  noAck : Bool
  /-- For whom to read; without one it is a plain read. -/
  consumer : Option Consumer
  deriving DecidableEq, Repr

/-- A read whose cursors are resolved. -/
structure Reading where
  cursors : List (Bytes × Cursor)
  count : Option UInt64
  noAck : Bool
  consumer : Option Consumer
  mayWait : Bool
  deadline : Option Nat
  deriving DecidableEq, Repr

/-- A read that waits for its signal. -/
structure Wait where
  reading : Reading
  signal : SignalId
  deriving DecidableEq, Repr

/-- Where a read stands after a step. -/
inductive Progress where
  | returned (outcome : Except Refusal (List Message))
  | waiting (wait : Wait)
  deriving Repr

/-- The keys of a read, in the order they were named. -/
def Reading.keys (r : Reading) : List Bytes := r.cursors.map (·.1)

/-- Whether the time of a read is up. -/
def Reading.isDue (r : Reading) (now : Nat) : Bool :=
  match r.deadline with
  | some deadline => deadline ≤ now
  | none => false

/-- When a wait that begins now is over, if it ever is. -/
def ReadRequest.deadline (request : ReadRequest) (now : Nat) : Option Nat :=
  match request.block with
  | some millis => if millis = 0 then none else some (now + millis.toNat)
  | none => none

/-- The read of a request at resolved cursors.  It may wait if a block is given and no cursor asks
for what a consumer already holds. -/
def ReadRequest.reading (request : ReadRequest) (now : Nat) (cursors : List (Bytes × Cursor)) :
    Reading :=
  { cursors
    count := request.count
    noAck := request.noAck
    consumer := request.consumer
    mayWait := request.block.isSome &&
      (request.consumer.isNone || cursors.all fun p => p.2 == .undelivered)
    deadline := request.deadline now }

namespace Engine

/-- The engine without streams and readers. -/
def empty : Engine := ⟨∅, ∅⟩

instance : EmptyCollection Engine := ⟨empty⟩
instance : Inhabited Engine := ⟨empty⟩

/-! ## Commands -/

/-- Adds an entry and wakes the readers that wait for its key. -/
def add (e : Engine) (key : Bytes) (request : Option String) (body : Body)
    (clock : Option UInt64) :
    Except Refusal EntryId × Engine :=
  match e.store.add key request body clock with
  | (.error refusal, store) => (.error refusal, { e with store })
  | (.ok id, store) => (.ok id, { store, registry := e.registry.notify key })

/-- Takes over the store that an operation leaves behind. -/
def settle {α : Type} (e : Engine) (done : Except Refusal α × Store) : Except Refusal α × Engine :=
  (done.1, { e with store := done.2 })

/-- Removes entries. -/
def delete (e : Engine) (key : Bytes) (ids : List String) : Except Refusal Nat × Engine :=
  e.settle (e.store.delete key ids)

/-- Keeps the newest entries. -/
def trim (e : Engine) (key : Bytes) (count : UInt64) : Nat × Engine :=
  let (removed, store) := e.store.trim key count
  (removed, { e with store })

/-- Acknowledges entries. -/
def acknowledge (e : Engine) (key group : Bytes) (ids : List String) :
    Except Refusal Nat × Engine :=
  e.settle (e.store.acknowledge key group ids)

/-- Creates a group. -/
def createGroup (e : Engine) (key : Bytes) (token : String) (group : Bytes) :
    Except Refusal Unit × Engine :=
  e.settle (e.store.createGroup key token group)

/-- Deletes a consumer. -/
def deleteConsumer (e : Engine) (key group consumer : Bytes) : Except Refusal Bool × Engine :=
  e.settle (e.store.deleteConsumer key group consumer)

/-- Destroys a group. -/
def destroyGroup (e : Engine) (key group : Bytes) : Except Refusal Bool × Engine :=
  e.settle (e.store.destroyGroup key group)

/-! ## Reads that may wait -/

/-- Registers a read under each of its keys with a signal of its own. -/
def enroll (e : Engine) (r : Reading) : Wait × Engine :=
  let (signal, registry) := e.registry.fresh
  (⟨r, signal⟩, { e with registry := r.keys.foldl (fun g key => g.register key signal) registry })

/-- Drops the registrations of a read and its signal. -/
def dismiss (e : Engine) (w : Wait) : Engine :=
  { e with registry := (e.registry.withdraw w.reading.keys w.signal).close w.signal }

/-- Attempts a read, and lets it wait if there is nothing and it may. -/
def attempt (e : Engine) (r : Reading) : Progress × Engine :=
  let (outcome, store) := e.store.attempt r.consumer r.count r.noAck r.cursors
  let e := { e with store }
  match outcome with
  | .ok [] =>
    if r.mayWait then
      let (w, e) := e.enroll r
      (.waiting w, e)
    else (.returned (.ok []), e)
  | outcome => (.returned outcome, e)

/-- Attempts a read; one that would have to wait though its time is up ends without messages. -/
def tryRead (e : Engine) (now : Nat) (r : Reading) : Progress × Engine :=
  match e.attempt r with
  | (.waiting w, e) => if r.isDue now then (.returned (.ok []), e.dismiss w) else (.waiting w, e)
  | settled => settled

/-- Begins a read: resolves its cursors and attempts it. -/
def beginRead (e : Engine) (now : Nat) (request : ReadRequest) : Progress × Engine :=
  match e.store.resolve request.consumer.isSome request.offsets with
  | .error refusal => (.returned (.error refusal), e)
  | .ok cursors => e.tryRead now (request.reading now cursors)

/-- Whether a waiting read has something to do. -/
def isReady (e : Engine) (now : Nat) (w : Wait) : Bool :=
  e.registry.isRaised w.signal || w.reading.isDue now

/-- Goes on with a waiting read: attempts it again if it was woken, though its time may be up, and
ends it without messages if it was not and its time is up. -/
def resume (e : Engine) (now : Nat) (w : Wait) : Progress × Engine :=
  if e.registry.isRaised w.signal then (e.dismiss w).tryRead now w.reading
  else if w.reading.isDue now then (.returned (.ok []), e.dismiss w)
  else (.waiting w, e)

/-- Leaves a waiting read; its registrations stay until they are pruned. -/
def abandon (e : Engine) (w : Wait) : Engine :=
  { e with registry := e.registry.close w.signal }

end Engine

end StreamBroker
