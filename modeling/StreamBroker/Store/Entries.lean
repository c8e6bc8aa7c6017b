import StreamBroker.Store.Identify
set_option autoImplicit false

/-!
# Adding and removing entries

The operations on a store that concern entries only.  An operation gives its outcome beside the
store that it leaves behind, also where it is refused.
-/

namespace StreamBroker

/-- Reads identifiers as a store takes them, a bare millisecond standing for its first; one that
does not read refuses them all. -/
def EntryId.readAll : List String → Except Refusal (List EntryId)
  | [] => .ok []
  | s :: rest =>
    match EntryId.ofText? 0 s with
    | none => .error .invalidId
    | some id => (readAll rest).map (id :: ·)

/-- A stream with one more entry, whose identifier is the last one given away from then on. -/
def Stream.push (stream : Stream) (id : EntryId) (body : Body) : Stream :=
  { stream with entries := stream.entries.insert id body, lastId := id }

namespace Store

/-- Adds an entry and tells its identifier; the stream is made if there is none.  The clock shows no
time if it stands before the epoch. -/
def add (s : Store) (key : Bytes) (request : Option String) (body : Body)
    (clock : Option UInt64) : Except Refusal EntryId × Store :=
  if body.isEmpty then (.error .emptyBody, s)
  else match clock with
  | none => (.error .beforeEpoch, s)
  | some now =>
    match (s.lastId key).next now request with
    | .error refusal => (.error refusal, s)
    | .ok id => (.ok id, s.insert key (((s.get? key).getD .fresh).push id body))

/-- The number of entries under a key. -/
def length (s : Store) (key : Bytes) : Nat :=
  match s.get? key with
  | some stream => stream.entries.size
  | none => 0

/-- Removes entries and tells how many there were to remove. -/
def delete (s : Store) (key : Bytes) (ids : List String) : Except Refusal Nat × Store :=
  match EntryId.readAll ids with
  | .error refusal => (.error refusal, s)
  | .ok ids =>
    match s.get? key with
    | none => (.ok 0, s)
    | some stream =>
      let (removed, entries) := stream.entries.eraseAll ids
      (.ok removed, s.insert key { stream with entries })

/-- Keeps the newest `count` entries and tells how many had to go. -/
def trim (s : Store) (key : Bytes) (count : UInt64) : Nat × Store :=
  match s.get? key with
  | none => (0, s)
  | some stream =>
    let excess := stream.entries.size - count.toNat
    (excess, s.insert key { stream with entries := stream.entries.drop excess })

/-- A stream that is missing counts as one that never had an entry. -/
theorem lastId_eq (s : Store) (key : Bytes) : s.lastId key = ((s.get? key).getD .fresh).lastId := by
  unfold lastId
  cases s.get? key <;> rfl

/-- An addition that succeeds gives an identifier above the last one and binds it to the body. -/
theorem add_eq_ok {s t : Store} {key : Bytes} {request : Option String} {body : Body}
    {clock : Option UInt64} {id : EntryId} (h : s.add key request body clock = (.ok id, t)) :
    s.lastId key < id ∧ t = s.insert key (((s.get? key).getD .fresh).push id body) := by
  unfold add at h
  split at h
  · cases h
  · split at h
    case h_1 => cases h
    case h_2 now =>
      split at h
      case h_1 => cases h
      case h_2 id' hnext =>
        cases h
        refine ⟨?_, rfl⟩
        unfold EntryId.next at hnext
        split at hnext
        · exact EntryId.lt_of_choose hnext
        · simp at hnext

end Store

end StreamBroker
