import StreamBroker.Proofs.Scan.Plain
import StreamBroker.Proofs.Store.Footprint
import StreamBroker.Proofs.World.Basic
set_option autoImplicit false

/-!
# The operations of an engine

Everything that can be done with an engine in one go, as data: the operation with its arguments
(`EngineOperation`) and what it gives and leaves behind (`EngineOperation.run`).  One that never
waits does to the store what it does whoever is registered (`EngineOperation.onStore`), and its
footprint there is known (`EngineOperation.footprint`).
-/

namespace StreamBroker

/-! ## Scans that are gone through at once -/

namespace Scan

/-- The messages of a scan of a store that does not change, up to its end but no more than a
number. -/
def drain (store : Store) : Nat → Scan → List Message
  | 0, _ => []
  | limit + 1, sc =>
    match sc.next store with
    | (some m, rest) => m :: drain store limit rest
    | (none, _) => []

/-- What a scan has to give is given, if the limit is high enough. -/
theorem drain_eq {sc : Scan} {key : Bytes} {range : Range} {d : Direction}
    (h : sc.Over key range d) (store : Store) {limit : Nat}
    (hlimit : (sc.rest range store).length < limit) :
    sc.drain store limit = (sc.rest range store).map fun p => .ofEntry key p.1 p.2 := by
  induction limit generalizing sc with
  | zero => cases hlimit
  | succ limit ih =>
      obtain ⟨sc', hnext, hover, htail⟩ := next_eq h store
      unfold drain
      rw [hnext]
      cases hrest : sc.rest range store with
      | nil => rfl
      | cons p rest =>
          rw [hrest] at htail hlimit
          have hlater := ih hover (by rw [htail]; exact Nat.lt_of_succ_lt_succ hlimit)
          rw [htail] at hlater
          exact congrArg (_ :: ·) hlater

end Scan

namespace Store

/-- All messages of a scan.  There are no more than entries, so it has come to its end when another
one is asked for. -/
def scanThrough (s : Store) (key : Bytes) (range : Range) (window : Option Window)
    (d : Direction) : Except Refusal (List Message) :=
  (Scan.start key range window d).map (Scan.drain s (s.length key + 1))

/-- Going through a scan gives the entries in its range, cut to its window. -/
theorem scanThrough_eq (s : Store) (key : Bytes) (range : Range) (window : Option Window)
    (d : Direction) :
    s.scanThrough key range window d =
      if range.reads then
        .ok ((Window.cut window (s.within key range d)).map fun p => .ofEntry key p.1 p.2)
      else .error .invalidId := by
  unfold scanThrough
  split
  case isTrue hreads =>
    obtain ⟨sc, hstart⟩ := Scan.start_of_reads key hreads window d
    have hrest : sc.rest range s = Window.cut window (s.within key range d) :=
      Scan.rest_of_start hstart
    have hcut := Window.length_cut_le window (s.within key range d)
    have hwithin := s.length_within_le key range d
    have hfew : (sc.rest range s).length < s.length key + 1 := by
      rw [hrest]
      omega
    have hdrain := Scan.drain_eq (Scan.start_eq_ok hstart).1 s hfew
    rw [hrest] at hdrain
    rw [hstart]
    exact congrArg Except.ok hdrain
  case isFalse hreads =>
    rw [Scan.start_of_not_reads hreads]
    rfl

theorem footprint_scanThrough (key : Bytes) (range : Range) (window : Option Window)
    (d : Direction) :
    Footprint (Place.EntriesOf [key]) (fun _ => False) fun s =>
      (s.scanThrough key range window d, s) := by
  refine footprint_look fun s t h => ?_
  have hwithin : s.within key range d = t.within key range d := by
    unfold within
    obtain ⟨hs, ht⟩ | ⟨a, b, hs, ht, hentries, -⟩ := get?_of_alike (h _ (entriesOf_self key))
    · rw [hs, ht]
    · simp only [hs, ht, hentries]
  rw [scanThrough_eq, scanThrough_eq, hwithin]

end Store

/-! ## Operations -/

/-- An operation of an engine. -/
inductive EngineOperation where
  /-- Adds an entry when the clock shows a time. -/
  | add (key : Bytes) (request : Option String) (body : Body) (clock : Option UInt64)
  | delete (key : Bytes) (ids : List String)
  | trim (key : Bytes) (count : UInt64)
  | length (key : Bytes)
  | acknowledge (key group : Bytes) (ids : List String)
  | createGroup (key : Bytes) (token : String) (group : Bytes)
  | deleteConsumer (key group consumer : Bytes)
  | destroyGroup (key group : Bytes)
  | pendingCount (key group : Bytes)
  /-- Goes through a scan. -/
  | scan (key : Bytes) (range : Range) (window : Option Window) (direction : Direction)
  /-- Begins a read at a time. -/
  | read (now : Nat) (request : ReadRequest)

namespace EngineOperation

/-- What an operation gives. -/
abbrev Value : EngineOperation → Type
  | add .. => Except Refusal EntryId
  | delete .. | acknowledge .. => Except Refusal Nat
  | trim .. | length .. => Nat
  | createGroup .. => Except Refusal Unit
  | deleteConsumer .. | destroyGroup .. => Except Refusal Bool
  | pendingCount .. => Option Nat
  | scan .. => Except Refusal (List Message)
  | read .. => Progress

/-- Carries out an operation. -/
def run : (op : EngineOperation) → Engine → op.Value × Engine
  | add key request body clock, e => e.add key request body clock
  | delete key ids, e => e.delete key ids
  | trim key count, e => e.trim key count
  | length key, e => (e.store.length key, e)
  | acknowledge key group ids, e => e.acknowledge key group ids
  | createGroup key token group, e => e.createGroup key token group
  | deleteConsumer key group consumer, e => e.deleteConsumer key group consumer
  | destroyGroup key group, e => e.destroyGroup key group
  | pendingCount key group, e => (e.store.pendingCount key group, e)
  | scan key range window direction, e => (e.store.scanThrough key range window direction, e)
  | read now request, e => e.beginRead now request

/-- Only a read with a block may have to wait. -/
def NeverWaits : EngineOperation → Prop
  | read _ request => request.block = none
  | _ => True

/-- The keys that an operation names. -/
def keys : EngineOperation → List Bytes
  | add key .. | delete key .. | trim key _ | length key | acknowledge key .. | createGroup key ..
  | deleteConsumer key .. | destroyGroup key _ | pendingCount key _ | scan key .. => [key]
  | read _ request => request.offsets.map (·.1)

/-- The group that an operation names, if it is one on a group. -/
def group? : EngineOperation → Option Bytes
  | acknowledge _ group _ | createGroup _ _ group | deleteConsumer _ group _
  | destroyGroup _ group | pendingCount _ group => some group
  | read _ request => request.consumer.map (·.group)
  | _ => none

/-! ## What an operation does to the store -/

/-- What an operation that never waits gives and leaves behind, whoever is registered. -/
def onStore : (op : EngineOperation) → Store → op.Value × Store
  | add key request body clock, s => s.add key request body clock
  | delete key ids, s => s.delete key ids
  | trim key count, s => s.trim key count
  | length key, s => (s.length key, s)
  | acknowledge key group ids, s => s.acknowledge key group ids
  | createGroup key token group, s => s.createGroup key token group
  | deleteConsumer key group consumer, s => s.deleteConsumer key group consumer
  | destroyGroup key group, s => s.destroyGroup key group
  | pendingCount key group, s => (s.pendingCount key group, s)
  | scan key range window direction, s => (s.scanThrough key range window direction, s)
  | read _ request, s =>
    ((.returned (s.readAtOnce request.offsets request.count request.noAck request.consumer).1),
      (s.readAtOnce request.offsets request.count request.noAck request.consumer).2)

end EngineOperation

/-- An engine adds what its store adds. -/
theorem Engine.add_store (e : Engine) (key : Bytes) (request : Option String) (body : Body)
    (clock : Option UInt64) :
    (e.add key request body clock).1 = (e.store.add key request body clock).1 ∧
      (e.add key request body clock).2.store = (e.store.add key request body clock).2 := by
  unfold Engine.add
  rcases e.store.add key request body clock with ⟨refusal | id, s⟩
  · exact ⟨rfl, rfl⟩
  · exact ⟨rfl, rfl⟩

/-- A read without a block is over when it has begun. -/
theorem Engine.beginRead_of_block_none (e : Engine) (now : Nat) {request : ReadRequest}
    (h : request.block = none) :
    e.beginRead now request =
      (.returned
          (e.store.readAtOnce request.offsets request.count request.noAck request.consumer).1,
        { e with store :=
            (e.store.readAtOnce request.offsets request.count request.noAck request.consumer).2 }) := by
  unfold beginRead Store.readAtOnce
  cases e.store.resolve request.consumer.isSome request.offsets with
  | error refusal => rfl
  | ok cursors =>
      have hnever : (request.reading now cursors).mayWait = false := by
        unfold ReadRequest.reading
        rw [h]
        rfl
      rcases e.attempt_cases (request.reading now cursors) with hover | ⟨-, hwait, -⟩
      · simp only [tryRead, hover]
        rfl
      · rw [hnever] at hwait
        cases hwait

namespace EngineOperation

theorem run_onStore {op : EngineOperation} (h : op.NeverWaits) (e : Engine) :
    (op.run e).1 = (op.onStore e.store).1 ∧ (op.run e).2.store = (op.onStore e.store).2 := by
  cases op with
  | add key request body clock => exact e.add_store key request body clock
  | delete | acknowledge | createGroup | deleteConsumer | destroyGroup | trim | length
  | pendingCount | scan => exact ⟨rfl, rfl⟩
  | read now request =>
      have hread := e.beginRead_of_block_none now h
      exact ⟨congrArg Prod.fst hread, congrArg (fun r => r.2.store) hread⟩

/-- Where an operation looks. -/
def Reads (op : EngineOperation) : Place → Prop :=
  match op.group? with
  | some name => Place.AroundGroups op.keys name
  | none => Place.EntriesOf op.keys

/-- Where an operation may change something. -/
def Writes : EngineOperation → Place → Prop
  | add key .. | delete key _ | trim key _ => Place.EntriesOf [key]
  | acknowledge key group _ | createGroup key _ group | deleteConsumer key group _
  | destroyGroup key group => Place.GroupsOf [key] group
  | read _ request =>
    match request.consumer with
    | some consumer => Place.GroupsOf (request.offsets.map (·.1)) consumer.group
    | none => fun _ => False
  | _ => fun _ => False

theorem footprint (op : EngineOperation) : Store.Footprint op.Reads op.Writes op.onStore := by
  cases op with
  | add key request body clock => exact Store.footprint_add key request body clock
  | delete key ids => exact Store.footprint_delete key ids
  | trim key count => exact Store.footprint_trim key count
  | length key => exact Store.footprint_length key
  | acknowledge key group ids => exact Store.footprint_acknowledge key group ids
  | createGroup key token group => exact Store.footprint_createGroup key token group
  | deleteConsumer key group consumer => exact Store.footprint_deleteConsumer key group consumer
  | destroyGroup key group => exact Store.footprint_destroyGroup key group
  | pendingCount key group => exact Store.footprint_pendingCount key group
  | scan key range window direction => exact Store.footprint_scanThrough key range window direction
  | read now request =>
      obtain ⟨offsets, block, count, noAck, consumer⟩ := request
      cases consumer with
      | none => exact (Store.footprint_readPlain offsets count noAck).map Progress.returned
      | some consumer =>
          exact (Store.footprint_readGroup offsets count noAck consumer).map Progress.returned

end EngineOperation

end StreamBroker
