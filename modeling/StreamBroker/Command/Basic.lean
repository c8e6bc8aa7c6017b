import StreamBroker.Call
set_option autoImplicit false

/-!
# Commands

What clients ask for.  A field that a client may leave out is optional here even where the command
cannot do without it: what is missing is told when the command is planned.
-/

namespace StreamBroker

/-- A consumer as its client names it. -/
structure ConsumerName where
  group : String
  name : String
  deriving DecidableEq, Repr

/-- Where a read starts, or a group. -/
inductive Offset where
  /-- Behind what is last when the command is carried out. -/
  | latest
  /-- Behind what the group has delivered. -/
  | lastConsumed
  /-- Behind an identifier. -/
  | after (id : RecordId)
  deriving DecidableEq, Repr

/-- The token of an offset on a channel. -/
def Offset.token : Offset → String
  | .latest => "$"
  | .lastConsumed => ">"
  | .after id => id.text

/-- Adds a record. -/
structure AddCommand where
  key : Option Bytes
  id : RecordId
  body : Option Body
  deriving DecidableEq, Repr

/-- Acknowledges records. -/
structure AcknowledgeCommand where
  key : Option Bytes
  group : Option String
  ids : List RecordId
  deriving DecidableEq, Repr

/-- Deletes records. -/
structure DeleteCommand where
  key : Option Bytes
  ids : List RecordId
  deriving DecidableEq, Repr

/-- What to do with a group. -/
inductive GroupAction where
  | create (offset : Offset)
  | deleteConsumer (consumer : String)
  | destroy
  deriving DecidableEq, Repr

/-- Manages a group. -/
structure GroupCommand where
  key : Option Bytes
  group : Option String
  action : GroupAction
  deriving DecidableEq, Repr

/-- Asks for the length of a stream. -/
structure LengthCommand where
  key : Option Bytes
  deriving DecidableEq, Repr

/-- How many records of a range to pass over and, if any number is set, how many to give. -/
structure Limit where
  offset : UInt64
  count : Option UInt64
  deriving DecidableEq, Repr

/-- Whether no number is set. -/
def Limit.isUnlimited (l : Limit) : Bool := l.count.isNone

/-- Scans a range of a stream, in either direction. -/
structure RangeCommand where
  key : Option Bytes
  range : Option Range
  limit : Option Limit
  deriving DecidableEq, Repr

/-- Trims a stream to its newest records. -/
structure TrimCommand where
  key : Option Bytes
  count : Option UInt64
  approximate : Bool
  deriving DecidableEq, Repr

/-- How to read. -/
structure ReadOptions where
  /-- Milliseconds to wait for a first record: zero for ever, below zero not at all. -/
  block : Option Int64
  count : Option UInt64
  noAck : Bool
  deriving DecidableEq, Repr

/-- Options that leave everything open. -/
def ReadOptions.none : ReadOptions := ⟨.none, .none, false⟩

/-- The whole milliseconds in a time of seconds and nanoseconds, as far as they can be counted. -/
def millisOf (seconds nanos : Nat) : Int64 :=
  let millis := seconds * 1000 + nanos / 1000000
  if (millis : Int) ≤ Int64.maxValue.toInt then .ofNat millis else Int64.maxValue

/-- Options with a time to wait, given in seconds and nanoseconds. -/
def ReadOptions.blockFor (options : ReadOptions) (seconds nanos : Nat) : ReadOptions :=
  { options with block := some (millisOf seconds nanos) }

/-- Reads streams. -/
structure ReadCommand where
  offsets : List (Bytes × Offset)
  options : Option ReadOptions
  consumer : Option ConsumerName
  deriving DecidableEq, Repr

/-- A command of any kind. -/
inductive Command where
  | add (command : AddCommand)
  | acknowledge (command : AcknowledgeCommand)
  | delete (command : DeleteCommand)
  | group (command : GroupCommand)
  | length (command : LengthCommand)
  | range (command : RangeCommand)
  | trim (command : TrimCommand)
  | read (command : ReadCommand)
  deriving DecidableEq, Repr

/-- What the commands with a single result give. -/
inductive Output where
  | recordId (r : RecordId)
  | count (n : Nat)
  | status (text : String)
  deriving DecidableEq, Repr

/-- An output as text. -/
def Output.text : Output → String
  | .recordId r => r.text
  | .count n => toString n
  | .status text => text

end StreamBroker
