import StreamBroker.Command.Basic
set_option autoImplicit false

/-!
# Planning commands

Planning checks that a command carries what it needs and turns it into the one call it stands for.
A command that fails here never reaches a channel.  Of several missing fields the first in the
order of the checks is told.
-/

namespace StreamBroker

/-- The call that a command stands for, and how its reply becomes the result. -/
structure Plan (R : Type) where
  kind : ReplyKind
  call : Call kind
  conclude : kind.Value → Except Failure R

/-- A field that must be there. -/
def require {α : Type} (field : Field) : Option α → Except Failure α
  | some a => .ok a
  | none => .error (.contract (.absent field))

/-- A list that must name something. -/
def requireSome {α : Type} (field : Field) (l : List α) : Except Failure Unit :=
  if l.isEmpty then .error (.contract (.empty field)) else .ok ()

theorem requireSome_of_ne_nil {α : Type} {l : List α} (h : l ≠ []) (field : Field) :
    requireSome field l = .ok () :=
  if_neg fun hempty => h (List.isEmpty_iff.1 hempty)

/-- Identifiers as they travel, in their order; one alone is no list to go through. -/
def RecordId.texts : List RecordId → List String
  | [r] => [r.text]
  | ids => ids.map RecordId.text

/-- One identifier alone travels as it does among others. -/
theorem RecordId.texts_eq_map (ids : List RecordId) : RecordId.texts ids = ids.map RecordId.text := by
  unfold RecordId.texts
  split <;> rfl

/-- A name as it travels. -/
def ConsumerName.consumer (c : ConsumerName) : Consumer :=
  ⟨.ofText c.group, .ofText c.name⟩

/-- The window of a limit; without a number there is none, whatever the offset. -/
def Limit.window (l : Limit) : Option Window := l.count.map fun count => ⟨l.offset, count⟩

/-- What success is called. -/
def statusOf (success : Bool) : String := if success then "OK" else "Error"

/-- Reads the reply to an addition. -/
def AddCommand.conclude (reply : String) : Except Failure RecordId :=
  match RecordId.parse reply with
  | .ok id => .ok id
  | .error _ => .error (.server (.unexpectedReply reply))

/-- Plans an addition; an identifier that may be any is not sent. -/
def AddCommand.plan (c : AddCommand) : Except Failure (Plan RecordId) := do
  let key ← require .key c.key
  let body ← require .body c.body
  let id := if c.id.isAutoGenerate then none else some c.id.text
  return ⟨.text, .add key id body, AddCommand.conclude⟩

/-- Plans an acknowledgement. -/
def AcknowledgeCommand.plan (c : AcknowledgeCommand) : Except Failure (Plan Nat) := do
  let key ← require .key c.key
  let group ← require .group c.group
  requireSome .recordIds c.ids
  return ⟨.count, .acknowledge key (.ofText group) (RecordId.texts c.ids), .ok⟩

/-- Plans a deletion. -/
def DeleteCommand.plan (c : DeleteCommand) : Except Failure (Plan Nat) := do
  let key ← require .key c.key
  requireSome .recordIds c.ids
  return ⟨.count, .delete key (RecordId.texts c.ids), .ok⟩

/-- Plans the management of a group; the status of a creation is passed on as it is. -/
def GroupCommand.plan (c : GroupCommand) : Except Failure (Plan String) := do
  let key ← require .key c.key
  let group ← require .groupName c.group
  match c.action with
  | .create offset => return ⟨.text, .createGroup key offset.token (.ofText group), .ok⟩
  | .deleteConsumer name =>
    return ⟨.flag, .deleteConsumer key (ConsumerName.consumer ⟨group, name⟩),
      fun success => .ok (statusOf success)⟩
  | .destroy =>
    return ⟨.flag, .destroyGroup key (.ofText group), fun success => .ok (statusOf success)⟩

/-- Plans the question for a length. -/
def LengthCommand.plan (c : LengthCommand) : Except Failure (Plan Nat) := do
  let key ← require .key c.key
  return ⟨.count, .length key, .ok⟩

/-- Plans a trimming. -/
def TrimCommand.plan (c : TrimCommand) : Except Failure (Plan Nat) := do
  let key ← require .key c.key
  let count ← require .count c.count
  return ⟨.count, .trim key c.approximate count, .ok⟩

/-- Plans a scan in a direction. -/
def RangeCommand.query (direction : Direction) (c : RangeCommand) : Except Failure Query := do
  let key ← require .key c.key
  let range ← require .range c.range
  let limit ← require .limit c.limit
  return .scan key range limit.window direction

/-- The time to wait that is sent: none unless it is zero or more. -/
def ReadOptions.sentBlock (o : ReadOptions) : Option UInt64 :=
  match o.block with
  | some millis => if 0 ≤ millis then some millis.toUInt64 else .none
  | .none => .none

/-- The channel for a read: one of its own if it may wait. -/
def ReadOptions.route (o : ReadOptions) : Route :=
  match o.block with
  | some millis => if 0 ≤ millis then .dedicated else .shared
  | .none => .shared

/-- The offsets of a read as they travel. -/
def Offset.tokens (offsets : List (Bytes × Offset)) : List (Bytes × String) :=
  offsets.map fun p => (p.1, p.2.token)

/-- Plans a read: its channel and its query. -/
def ReadCommand.query (c : ReadCommand) : Except Failure (Route × Query) := do
  requireSome .streamOffsets c.offsets
  let options ← require .readOptions c.options
  return (options.route, .read
    { offsets := Offset.tokens c.offsets
      block := options.sentBlock
      count := options.count
      noAck := options.noAck
      consumer := c.consumer.map ConsumerName.consumer })

end StreamBroker
