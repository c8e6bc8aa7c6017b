import StreamBroker.Store.Groups
set_option autoImplicit false

/-!
# Reading from cursors

A read names streams with a cursor each.  A plain read takes the entries behind each cursor and
changes nothing.  A read by a consumer of a group takes what its group has not delivered yet, or
goes through what the consumer still holds.

Cursors are resolved once, when a read starts: `$` means what was last when it started.
-/

namespace StreamBroker

/-- A resolved position in a stream. -/
inductive Cursor where
  /-- Behind an identifier. -/
  | after (id : EntryId)
  /-- Behind what the group has delivered. -/
  | undelivered
  deriving DecidableEq, Repr

/-- A consumer of a group. -/
structure Consumer where
  group : Bytes
  name : Bytes
  deriving DecidableEq, Repr

/-- The first `count` of a list; no count and a count of zero mean all of it. -/
def takeCount {α : Type} (count : Option UInt64) (l : List α) : List α :=
  match count with
  | none => l
  | some n => if n = 0 then l else l.take n.toNat

/-- What one cursor of a group read got. -/
structure Serving where
  key : Bytes
  cursor : Cursor
  entries : List (EntryId × Body)
  deriving DecidableEq, Repr

/-- The messages of a serving. -/
def Serving.messages (v : Serving) : List Message := v.entries.map fun p => .ofEntry v.key p.1 p.2

namespace Store

/-! ## Cursors -/

/-- Resolves the cursor of one stream. -/
def resolveCursor (s : Store) (inGroup : Bool) (key : Bytes) (token : String) :
    Except Refusal Cursor :=
  if token = "$" then
    if inGroup then .error .latestInGroupRead else .ok (.after (s.lastId key))
  else if token = ">" then
    if inGroup then .ok .undelivered else .error .undeliveredOutsideGroup
  else match EntryId.ofText? 0 token with
    | some id => .ok (.after id)
    | none => .error .invalidId

/-- Resolves the cursors of a read in turn; the first that fails decides. -/
def resolve (s : Store) (inGroup : Bool) :
    List (Bytes × String) → Except Refusal (List (Bytes × Cursor))
  | [] => .ok []
  | (key, token) :: rest =>
    match s.resolveCursor inGroup key token with
    | .error refusal => .error refusal
    | .ok cursor => (s.resolve inGroup rest).map ((key, cursor) :: ·)

theorem resolve_cons_eq_ok {s : Store} {inGroup : Bool} {key : Bytes} {token : String}
    {rest : List (Bytes × String)} {cursors : List (Bytes × Cursor)}
    (h : s.resolve inGroup ((key, token) :: rest) = .ok cursors) :
    ∃ cursor later, cursors = (key, cursor) :: later ∧
      s.resolveCursor inGroup key token = .ok cursor ∧ s.resolve inGroup rest = .ok later := by
  unfold resolve at h
  split at h
  case h_1 => cases h
  case h_2 cursor hcursor =>
    cases hrest : s.resolve inGroup rest with
    | error refusal => rw [hrest] at h; cases h
    | ok later =>
        rw [hrest] at h
        exact ⟨cursor, later, (Except.ok.inj h).symm, hcursor, rfl⟩

/-- Cursors stand under the keys that were named, in their order. -/
theorem keys_of_resolve {s : Store} {inGroup : Bool} {offsets : List (Bytes × String)}
    {cursors : List (Bytes × Cursor)} (h : s.resolve inGroup offsets = .ok cursors) :
    cursors.map (·.1) = offsets.map (·.1) := by
  induction offsets generalizing cursors with
  | nil =>
      obtain rfl := Except.ok.inj h
      rfl
  | cons offset rest ih =>
      obtain ⟨cursor, later, rfl, -, hlater⟩ := resolve_cons_eq_ok h
      rw [List.map_cons, List.map_cons, ih hlater]

/-- In a group, `>` is the one token that asks for undelivered entries. -/
theorem resolveCursor_eq_undelivered {s : Store} {key : Bytes} {token : String} {cursor : Cursor}
    (h : s.resolveCursor true key token = .ok cursor) : cursor = .undelivered ↔ token = ">" := by
  unfold resolveCursor at h
  by_cases hlatest : token = "$"
  · rw [if_pos hlatest] at h
    cases h
  · rw [if_neg hlatest] at h
    by_cases htoken : token = ">"
    · rw [if_pos htoken] at h
      cases h
      exact ⟨fun _ => htoken, fun _ => rfl⟩
    · rw [if_neg htoken] at h
      split at h
      case h_1 => cases h; exact ⟨nofun, fun heq => absurd heq htoken⟩
      case h_2 => cases h

theorem undelivered_of_resolve {s : Store} {offsets : List (Bytes × String)}
    {cursors : List (Bytes × Cursor)} (h : s.resolve true offsets = .ok cursors) :
    (∀ p ∈ cursors, p.2 = .undelivered) ↔ ∀ p ∈ offsets, p.2 = ">" := by
  induction offsets generalizing cursors with
  | nil =>
      obtain rfl := Except.ok.inj h
      exact ⟨fun _ => nofun, fun _ => nofun⟩
  | cons offset rest ih =>
      obtain ⟨cursor, later, rfl, hcursor, hlater⟩ := resolve_cons_eq_ok h
      rw [List.forall_mem_cons, List.forall_mem_cons, ih hlater]
      exact and_congr_left' (resolveCursor_eq_undelivered hcursor)

/-! ## Plain reads -/

/-- What a plain read takes from one stream. -/
def readFrom (s : Store) (count : Option UInt64) (key : Bytes) : Cursor → List Message
  | .undelivered => []
  | .after id =>
    match s.get? key with
    | none => []
    | some stream =>
      (takeCount count (stream.entries.above id)).map fun p => .ofEntry key p.1 p.2

/-- What a plain read takes, stream by stream in the order they were named. -/
def readPlain (s : Store) (count : Option UInt64) (cursors : List (Bytes × Cursor)) :
    List Message :=
  cursors.flatMap fun p => s.readFrom count p.1 p.2

/-! ## Group reads -/

/-- Hands entries to a consumer: the group moves up to the last of them, and each is pending unless
acknowledgements were waived. -/
def deliver (g : Group) (consumer : Bytes) (noAck : Bool) (entries : List (EntryId × Body)) :
    Group :=
  entries.foldl (fun g p =>
    { g with
      lastDelivered := p.1
      pending := if noAck then g.pending else g.pending.insert p.1 consumer }) g

/-- Serves one cursor of a group read: the entries, and the group afterwards, which knows the
consumer. -/
def serve (stream : Stream) (g : Group) (consumer : Bytes) (count : Option UInt64) (noAck : Bool)
    (cursor : Cursor) : List (EntryId × Body) × Group :=
  let known := { g with consumers := g.consumers.insert consumer () }
  match cursor with
  | .undelivered =>
    let entries := takeCount count (stream.entries.above g.lastDelivered)
    (entries, deliver known consumer noAck entries)
  | .after id =>
    let held := (g.pending.above id).filter fun p => p.2 == consumer
    ((takeCount count held).map fun p => (p.1, (stream.entries.get? p.1).getD ∅), known)

/-- Serves the cursors of a group read in turn, up to the first whose key has no such group. -/
def serveAll (consumer : Consumer) (count : Option UInt64) (noAck : Bool) :
    List (Bytes × Cursor) → Store → List Serving × Store
  | [], s => ([], s)
  | (key, cursor) :: rest, s =>
    match s.get? key with
    | none => ([], s)
    | some stream =>
      match stream.groups.get? consumer.group with
      | none => ([], s)
      | some g =>
        let (entries, g') := serve stream g consumer.name count noAck cursor
        let (servings, s') :=
          serveAll consumer count noAck rest (s.putGroup key stream consumer.group g')
        (⟨key, cursor, entries⟩ :: servings, s')

/-- A group read.  A key without stream or group ends it with a refusal; what the cursors before
that one did to the store stays. -/
def readGroup (consumer : Consumer) (count : Option UInt64) (noAck : Bool)
    (cursors : List (Bytes × Cursor)) (s : Store) : Except Refusal (List Message) × Store :=
  let (servings, s') := serveAll consumer count noAck cursors s
  match cursors.drop servings.length with
  | [] => (.ok (servings.flatMap Serving.messages), s')
  | (key, _) :: _ => (.error (.noGroup key consumer.group), s')

/-- One attempt of a read at its resolved cursors. -/
def attempt (s : Store) (consumer? : Option Consumer) (count : Option UInt64) (noAck : Bool)
    (cursors : List (Bytes × Cursor)) : Except Refusal (List Message) × Store :=
  match consumer? with
  | none => (.ok (s.readPlain count cursors), s)
  | some consumer => readGroup consumer count noAck cursors s

end Store

end StreamBroker
