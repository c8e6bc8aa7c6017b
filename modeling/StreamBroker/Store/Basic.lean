import StreamBroker.Message
set_option autoImplicit false

/-!
# The store

A store binds keys to streams.  A stream has its entries in id order, the last identifier it ever
gave away, and its consumer groups.  A group remembers up to where it has delivered, which entries
are delivered and not yet acknowledged, and which consumers it knows.

Deleting entries never lowers `lastId`, so no identifier is given away twice.
-/

namespace StreamBroker

/-- A consumer group of a stream. -/
structure Group where
  /-- Entries up to here have been delivered or passed over. -/
  lastDelivered : EntryId
  /-- Delivered and not acknowledged: which consumer holds which entry. -/
  pending : SortedMap EntryId Bytes
  /-- The consumers that ever read from the group and were not deleted. -/
  consumers : SortedMap Bytes Unit
  deriving DecidableEq, Repr

/-- A group that has delivered nothing above `start`. -/
def Group.startingAt (start : EntryId) : Group := ⟨start, ∅, ∅⟩

/-- An append-only stream of entries. -/
structure Stream where
  entries : SortedMap EntryId Body
  /-- The last identifier given away. -/
  lastId : EntryId
  groups : SortedMap Bytes Group
  deriving DecidableEq, Repr

/-- A stream that never had an entry. -/
def Stream.fresh : Stream := ⟨∅, .least, ∅⟩

/-- Streams by key. -/
abbrev Store := SortedMap Bytes Stream

namespace Store

/-- The last identifier given away under a key. -/
def lastId (s : Store) (key : Bytes) : EntryId :=
  match s.get? key with
  | some stream => stream.lastId
  | none => .least

/-- A group by its key and name. -/
def group? (s : Store) (key group : Bytes) : Option Group :=
  (s.get? key).bind fun stream => stream.groups.get? group

/-- Replaces a group of a stream. -/
def putGroup (s : Store) (key : Bytes) (stream : Stream) (name : Bytes) (group : Group) : Store :=
  s.insert key { stream with groups := stream.groups.insert name group }

/-- The number of entries and pending entries of a stream. -/
def streamWeight (stream : Stream) : Nat :=
  stream.groups.toList.foldl (fun n g => n + g.2.pending.size) stream.entries.size

/-- The number of entries and pending entries under all keys. -/
def weight (s : Store) : Nat := s.toList.foldl (fun n p => n + streamWeight p.2) 0

end Store

end StreamBroker
