import StreamBroker.Engine
set_option autoImplicit false

/-!
# Calls on a channel

What can be asked of an engine over a channel.  A `Call` has one reply, whose kind is part of its
type; a `Query` is answered by a sequence of messages.  Identifiers and cursors travel as text.
-/

namespace StreamBroker

/-- The kinds of single replies. -/
inductive ReplyKind where
  | text
  | count
  | flag
  deriving DecidableEq, Repr

/-- The values of a kind of reply. -/
abbrev ReplyKind.Value : ReplyKind → Type
  | text => String
  | count => Nat
  | flag => Bool

/-- A call with a single reply. -/
inductive Call : ReplyKind → Type where
  /-- Adds an entry and replies with its identifier. -/
  | add (key : Bytes) (id : Option String) (body : Body) : Call .text
  /-- Acknowledges entries and replies with their number. -/
  | acknowledge (key group : Bytes) (ids : List String) : Call .count
  /-- Removes entries and replies with their number. -/
  | delete (key : Bytes) (ids : List String) : Call .count
  /-- Replies with the number of entries. -/
  | length (key : Bytes) : Call .count
  /-- Keeps the newest entries and replies with the number removed. -/
  | trim (key : Bytes) (approximate : Bool) (count : UInt64) : Call .count
  /-- Creates a group and replies with a status. -/
  | createGroup (key : Bytes) (token : String) (group : Bytes) : Call .text
  /-- Deletes a consumer and replies whether there was one. -/
  | deleteConsumer (key : Bytes) (consumer : Consumer) : Call .flag
  /-- Destroys a group and replies whether there was one. -/
  | destroyGroup (key group : Bytes) : Call .flag

/-- A call of any kind. -/
abbrev AnyCall := (k : ReplyKind) × Call k

/-- A call that is answered by messages. -/
inductive Query where
  | scan (key : Bytes) (range : Range) (window : Option Window) (direction : Direction)
  | read (request : ReadRequest)
  deriving DecidableEq, Repr

/-- The channel a call is made on. -/
inductive Route where
  /-- The one channel that all calls which never wait have in common. -/
  | shared
  /-- A channel leased for one call that may wait. -/
  | dedicated
  deriving DecidableEq, Repr

namespace Engine

/-- The status of a group that was created. -/
def created : String := "OK"

/-- Wraps the refusals of an engine. -/
def refusing {α : Type} : Except Refusal α → Except Failure α
  | .ok a => .ok a
  | .error refusal => .error (.server refusal)

/-- Carries out a call.  Trimming is always exact, which an approximate request allows. -/
def perform {k : ReplyKind} (e : Engine) (clock : Option UInt64) :
    Call k → Except Failure k.Value × Engine
  | .add key id body =>
    let (outcome, e) := e.add key id body clock
    (refusing (outcome.map EntryId.text), e)
  | .acknowledge key group ids =>
    let (outcome, e) := e.acknowledge key group ids
    (refusing outcome, e)
  | .delete key ids =>
    let (outcome, e) := e.delete key ids
    (refusing outcome, e)
  | .length key => (.ok (e.store.length key), e)
  | .trim key _ count =>
    let (removed, e) := e.trim key count
    (.ok removed, e)
  | .createGroup key token group =>
    let (outcome, e) := e.createGroup key token group
    (refusing (outcome.map fun _ => created), e)
  | .deleteConsumer key consumer =>
    let (outcome, e) := e.deleteConsumer key consumer.group consumer.name
    (refusing outcome, e)
  | .destroyGroup key group =>
    let (outcome, e) := e.destroyGroup key group
    (refusing outcome, e)

end Engine

end StreamBroker
