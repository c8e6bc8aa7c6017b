import StreamBroker.Failure
import StreamBroker.SortedMap
set_option autoImplicit false

/-!
# Messages and records

A channel hands out messages, whose identifier is text; a client is given records, whose identifier
has been read.  A message whose identifier does not read is no record.
-/

namespace StreamBroker

/-- The fields of an entry, in byte order. -/
abbrev Body := SortedMap Bytes Bytes

/-- What a channel hands out. -/
structure Message where
  stream : Bytes
  id : String
  body : Body
  deriving DecidableEq, Repr

/-- What a client is given. -/
structure Record where
  stream : Bytes
  id : RecordId
  body : Body
  deriving DecidableEq, Repr

/-- The record of a message. -/
def Message.record (m : Message) : Except Failure Record :=
  match RecordId.parse m.id with
  | .ok id => .ok ⟨m.stream, id, m.body⟩
  | .error fault => .error (.recordId fault)

/-- The message of an entry. -/
def Message.ofEntry (stream : Bytes) (id : EntryId) (body : Body) : Message :=
  ⟨stream, id.text, body⟩

/-- The message of an entry is the record of that entry. -/
@[simp] theorem Message.record_ofEntry (stream : Bytes) (id : EntryId) (body : Body) :
    (Message.ofEntry stream id body).record = .ok ⟨stream, .concrete id, body⟩ := by
  have : RecordId.parse id.text = .ok (.concrete id) := RecordId.parse_text (.concrete id)
  simp [Message.record, Message.ofEntry, this]

end StreamBroker
