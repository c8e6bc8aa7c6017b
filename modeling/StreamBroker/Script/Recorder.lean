import StreamBroker.Front.Operation
set_option autoImplicit false

/-!
# A recording provider

A world that keeps a log of everything the front end does, with the time of each, and answers from
prepared lists: one reply for each call or query, one outcome for each dedicated channel asked for.
-/

namespace StreamBroker

/-- A prepared reply. -/
inductive Prepared where
  | text (value : String)
  | count (value : Nat)
  | flag (value : Bool)
  | messages (items : List (Except Failure Message))
  | failure (cause : Failure)
  deriving Repr

/-- A prepared reply and how long it takes. -/
structure PreparedReply where
  reply : Prepared
  delay : Nat
  deriving Repr

/-- What the front end did, or what came of it. -/
inductive Event where
  | pulled (position : Nat)
  | called (call : AnyCall)
  | queried (route : Route) (query : Query)
  | acquiring
  | released
  | responded (answer : Answer)
  | record (response : Nat) (item : Except Failure Record)
  | recordsEnd (response : Nat)
  | recordsDropped (response : Nat)
  | ended

/-- A recording, with what is still to be answered. -/
structure Recorder where
  clock : Nat
  replies : List PreparedReply
  /-- For each dedicated channel to be asked for, the failure if there is to be one. -/
  leases : List (Option Failure)
  /-- What happened so far and when, the latest first. -/
  log : List (Nat × Event)

namespace Prepared

/-- What a prepared reply stands for, unless it is a failure. -/
def orFailure {α : Type} (reply : Prepared) (value : α) : Except Failure α :=
  match reply with
  | failure cause => .error cause
  | _ => .ok value

/-- A prepared reply as text; what is no text is the empty one. -/
def asText : Prepared → String
  | text value => value
  | _ => ""

/-- A prepared reply as a count, which may be written out; what is no count is zero. -/
def asCount : Prepared → Nat
  | count value => value
  | text value => ((Decimal.read? value.toList).map UInt64.toNat).getD 0
  | _ => 0

/-- A prepared reply as a truth value; what is none is false. -/
def asFlag : Prepared → Bool
  | flag value => value
  | _ => false

/-- A prepared reply as one of a kind. -/
def value (reply : Prepared) : (k : ReplyKind) → Except Failure k.Value
  | .text => reply.orFailure reply.asText
  | .count => reply.orFailure reply.asCount
  | .flag => reply.orFailure reply.asFlag

/-- A prepared reply as messages; what holds no messages is none. -/
def items : Prepared → List (Except Failure Message)
  | messages items => items
  | failure cause => [.error cause]
  | _ => []

end Prepared

namespace Recorder

/-- A recording in which nothing has happened. -/
def start (replies : List PreparedReply) (leases : List (Option Failure)) : Recorder :=
  ⟨0, replies, leases, []⟩

/-- What happened, the earliest first. -/
def events (r : Recorder) : List (Nat × Event) := r.log.reverse

/-- Logs an event. -/
def note (event : Event) : StateM Recorder Unit :=
  modify fun r => { r with log := (r.clock, event) :: r.log }

/-- The next prepared reply; when there is none left, nobody answers. -/
def nextReply : StateM Recorder PreparedReply :=
  modifyGet fun r =>
    match r.replies with
    | [] => (⟨.failure (.transport .noReply), 0⟩, r)
    | reply :: rest => (reply, { r with replies := rest })

/-- What comes of the next dedicated channel asked for; when nothing is prepared, it is there. -/
def nextLease : StateM Recorder (Option Failure) :=
  modifyGet fun r =>
    match r.leases with
    | [] => (none, r)
    | outcome :: rest => (outcome, { r with leases := rest })

/-- The provider that records. -/
def provider : Provider Recorder where
  Ticket := Option Failure
  Lease := Unit
  Feed := List (Except Failure Message)
  now := return (← get).clock
  elapse millis := modify fun r => { r with clock := r.clock + millis }
  onPull position := note (.pulled position)
  dispatch {k} call := do
    note (.called ⟨k, call⟩)
    let reply ← nextReply
    return (reply.delay, reply.reply.value k)
  request := do
    note .acquiring
    nextLease
  collect
    | some failure => return .ready (.error failure)
    | none => return .ready (.ok ())
  withdraw _ := return ()
  release _ := note .released
  submit route query := do
    note (.queried route query)
    return (← nextReply).reply.items
  pull
    | [] => return (.finished, [])
    | item :: rest => return (.item item, rest)
  close _ := return ()

end Recorder

end StreamBroker
