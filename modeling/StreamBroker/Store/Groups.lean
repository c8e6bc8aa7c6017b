import StreamBroker.Store.Entries
set_option autoImplicit false

/-!
# Consumer groups

Creating and destroying groups, deleting consumers, and acknowledging what was delivered.
-/

namespace StreamBroker.Store

/-- Where a new group starts: `$` behind the last entry, else an identifier. -/
def groupStart (stream : Stream) (token : String) : Except Refusal EntryId :=
  if token = "$" then .ok stream.lastId
  else match EntryId.ofText? 0 token with
    | some id => .ok id
    | none => .error .invalidId

/-- Creates a group on an existing stream. -/
def createGroup (s : Store) (key : Bytes) (token : String) (group : Bytes) :
    Except Refusal Unit × Store :=
  match s.get? key with
  | none => (.error .keyRequired, s)
  | some stream =>
    if stream.groups.contains group then (.error .groupExists, s)
    else match groupStart stream token with
      | .error refusal => (.error refusal, s)
      | .ok start => (.ok (), s.putGroup key stream group (.startingAt start))

/-- Removes a group and tells whether there was one. -/
def destroyGroup (s : Store) (key group : Bytes) : Except Refusal Bool × Store :=
  match s.get? key with
  | none => (.error .keyRequired, s)
  | some stream =>
    (.ok (stream.groups.contains group),
      s.insert key { stream with groups := stream.groups.erase group })

/-- A group without one consumer and without what that consumer held. -/
def forget (g : Group) (consumer : Bytes) : Group :=
  { g with
    consumers := g.consumers.erase consumer
    pending := g.pending.filter fun _ holder => holder != consumer }

/-- Removes a consumer with what it held and tells whether there was one. -/
def deleteConsumer (s : Store) (key group consumer : Bytes) : Except Refusal Bool × Store :=
  match s.get? key with
  | none => (.error .keyRequired, s)
  | some stream =>
    match stream.groups.get? group with
    | none => (.error (.noGroup key group), s)
    | some g =>
      if g.consumers.contains consumer then
        (.ok true, s.putGroup key stream group (forget g consumer))
      else (.ok false, s)

/-- Acknowledges entries and tells how many of them were pending. -/
def acknowledge (s : Store) (key group : Bytes) (ids : List String) :
    Except Refusal Nat × Store :=
  match EntryId.readAll ids with
  | .error refusal => (.error refusal, s)
  | .ok ids =>
    match s.get? key with
    | none => (.ok 0, s)
    | some stream =>
      match stream.groups.get? group with
      | none => (.ok 0, s)
      | some g =>
        let (acknowledged, pending) := g.pending.eraseAll ids
        (.ok acknowledged, s.putGroup key stream group { g with pending })

/-- The number of pending entries of a group, if the group exists. -/
def pendingCount (s : Store) (key group : Bytes) : Option Nat :=
  (s.group? key group).map fun g => g.pending.size

end StreamBroker.Store
