import StreamBroker.Proofs.Front.Answers
import StreamBroker.Proofs.World.Caught
set_option autoImplicit false

/-!
# Following a stream

A client follows a stream by plain reads, one after the other, each behind the last record it has
received of that stream, or from the beginning.  It pulls the records of a read one at a time, may
give a read up before its end, and may ask for other streams in the same read.  Between any two of
its turns others do what they like with the engine and with the pool of channels.

What the client has received is at all times everything that the stream has up to the client's
position, once and in order, and a read without a count that comes to its end brings the position
to the end of the stream as the read found it (`received_is_all_up_to_position`).  The invariant is
`Following.Kept`: what the client received, followed by what its read holds and has not given yet,
keeps up with the stream.
-/

namespace StreamBroker

/-- The records of a pull, of which there is at most one. -/
def Pull.records : Pull Record → List Record
  | item (.ok record) => [record]
  | item (.error _) | waiting | finished => []

/-- Whether a sequence has told a failure. -/
def Pull.isFailure {α : Type} : Pull α → Bool
  | item (.error _) => true
  | item (.ok _) | waiting | finished => false

/-- What a client knows of its latest read. -/
structure Look where
  /-- The position behind which it was made. -/
  since : RecordId
  count : Option UInt64
  /-- The store into which the engine looked for it last. -/
  moment : Store
  /-- It has told a failure. -/
  failed : Bool
  /-- It has told its end. -/
  isOver : Bool

/-- A client that follows a stream on a hub, and the readers of others on the hub's engine. -/
structure Following where
  hub : Hub
  others : List (Option Reader)
  /-- The records of the latest read, unless it was given up. -/
  stream : Option (RecordStream Hub.provider)
  received : List Record
  look : Look

/-- What the client does, or somebody else. -/
inductive FollowingMove where
  /-- Others do something with the engine. -/
  | other (move : Move)
  /-- Others do something with the dedicated channels. -/
  | channels (pool : Pool)
  /-- The client reads on, and asks for other streams in the same read. -/
  | read (front back : List (Bytes × Offset)) (options : ReadOptions)
  /-- The client pulls a record. -/
  | pull
  /-- The client gives its read up. -/
  | giveUp

namespace Following

/-- A client that has received nothing yet. -/
def start (settings : Settings) (wallClock : UInt64) : Following where
  hub := .start settings wallClock
  others := []
  stream := none
  received := []
  look := ⟨.least, none, ∅, false, false⟩

/-- The records that were received under a key. -/
def under (f : Following) (key : Bytes) : List Record := f.received.filter (·.stream = key)

/-- The last record received under a key, or the beginning. -/
def position (f : Following) (key : Bytes) : RecordId :=
  ((f.under key).getLast?.map (·.id)).getD .least

/-- A plain read behind the position under a key, which asks for that key once. -/
def command (f : Following) (key : Bytes) (front back : List (Bytes × Offset))
    (options : ReadOptions) : ReadCommand where
  offsets := front.filter (·.1 ≠ key) ++ (key, .after (f.position key)) :: back.filter (·.1 ≠ key)
  options := some options
  consumer := none

/-- Gives the latest read up. -/
def leave (f : Following) : Following :=
  match f.stream with
  | none => f
  | some stream => { f with hub := ((stream.drop Hub.provider).run f.hub).2, stream := none }

/-- Makes a read, which is not pulled yet. -/
def ask (f : Following) (key : Bytes) (front back : List (Bytes × Offset))
    (options : ReadOptions) : Following :=
  let command := f.command key front back options
  { f with
    stream := (Lazily.respond Hub.provider ReadCommand.query command).outcome.toOption
    look := ⟨f.position key, options.count, f.hub.engine.store, false, false⟩ }

/-- Notes the store into which the engine is about to look. -/
def atNow (f : Following) : Following :=
  { f with look := { f.look with moment := f.hub.engine.store } }

/-- Takes what a pull gave. -/
def heard (f : Following) (result : (Pull Record × RecordStream Hub.provider) × Hub) :
    Following :=
  { f with
    hub := result.2
    stream := some result.1.2
    received := f.received ++ result.1.1.records
    look := { f.look with
      failed := f.look.failed || result.1.1.isFailure
      isOver := f.look.isOver || result.1.1.isFinished } }

/-- Pulls the next record of the latest read. -/
def pull (f : Following) : Following :=
  match f.stream with
  | none => f
  | some stream =>
    (if stream.isOpen then f.atNow else f).heard ((stream.pull Hub.provider).run f.hub)

/-- Makes a move of a client that follows a key. -/
def step (key : Bytes) (f : Following) : FollowingMove → Following
  | .other move =>
    let w := ((⟨f.hub.engine, f.hub.now, f.others⟩ : World).step move).2
    { f with hub := { f.hub with engine := w.engine, now := w.now }, others := w.readers }
  | .channels pool => { f with hub := { f.hub with pool } }
  | .read front back options => f.leave.ask key front back options
  | .pull => f.pull
  | .giveUp => f.leave

/-- The client behind a list of moves. -/
def run (key : Bytes) (f : Following) (moves : List FollowingMove) : Following :=
  moves.foldl (step key) f

end Following

/-! ## The invariant -/

/-- What the engine found for an unlimited read was received last or is still to be given. -/
def Look.Covers (look : Look) (key : Bytes) (entries buffered : List (EntryId × Body)) : Prop :=
  Unlimited look.count → ∀ since, look.since = .concrete since →
    ∃ earlier delivered, entries = earlier ++ delivered ∧
      look.moment.behind key since = delivered ++ buffered

/-- How the stream of the latest read stands, where the entries `buffered` were found under the key
and are still to be given. -/
inductive Look.Stands (look : Look) (key : Bytes) (entries : List (EntryId × Body)) :
    Option (RecordStream Hub.provider) → List (EntryId × Body) → Prop where
  | asking {stream : RecordStream Hub.provider}
      (hasks : stream.Asks key (lastOf entries) look.count)
      (hsince : look.since = .concrete (lastOf entries)) (hopen : look.isOver = false) :
      Stands look key entries (some stream) []
  | giving (lease : Option TicketId) {messages : List Message} {buffered : List (EntryId × Body)}
      (hcarries : Carries messages key buffered) (hopen : look.isOver = false)
      (hcovers : look.Covers key entries buffered) :
      Stands look key entries (some (.running lease (Hub.Feed.delivering messages))) buffered
  | failed (lease : Option TicketId) {feed : Option Hub.Feed}
      (hfeed : ∀ feed', feed = some feed' → feed' = .ended) (hfailed : look.failed = true) :
      Stands look key entries (some (.failed lease feed)) []
  | ended (hover : look.isOver = true) : Stands look key entries (some .ended) []
  | gone : Stands look key entries none []

/-- A read that gives its messages holds what is under the key among them. -/
theorem Look.Stands.of_giving {look : Look} {key : Bytes} {entries buffered : List (EntryId × Body)}
    {lease : Option TicketId} {messages : List Message}
    (h : look.Stands key entries (some (.running lease (Hub.Feed.delivering messages))) buffered) :
    Carries messages key buffered ∧ look.isOver = false ∧ look.Covers key entries buffered := by
  cases h with
  | asking hasks => cases hasks
  | giving _ hcarries hopen hcovers => exact ⟨hcarries, hopen, hcovers⟩

namespace Following

/-- The reader of the latest read, if it waits for a message. -/
def reader? (f : Following) : Option Reader := f.stream.bind RecordStream.reader?

/-- The engine and all its readers. -/
def world (f : Following) : World := f.hub.world f.others f.reader?

/-- What the client received under the key, and what its read holds, is all of the stream up to the
last of it. -/
structure Kept (f : Following) (key : Bytes) (entries buffered : List (EntryId × Body)) :
    Prop where
  under : f.under key = entries.map (.ofEntry key)
  attended : f.world.Attended
  heeds : ∀ wait, f.reader? = some ⟨.suspended, wait⟩ →
    ∀ p ∈ wait.reading.cursors, f.world.Heeds 0 wait p
  caught : f.hub.engine.store.Caught key (entries ++ buffered)
  stands : f.look.Stands key entries f.stream buffered
  settled : f.look.isOver → f.look.failed = false → f.look.Covers key entries []

variable {f : Following} {key : Bytes} {entries buffered : List (EntryId × Body)}

theorem kept_start (settings : Settings) (wallClock : UInt64) (key : Bytes) :
    (start settings wallClock).Kept key [] [] where
  under := rfl
  attended := World.Attended.start.of_waits fun i y hy => by
    cases i <;> cases hy
  heeds := nofun
  caught := .empty key
  stands := .gone
  settled := nofun

/-- The position is the last entry received. -/
theorem Kept.position (h : f.Kept key entries buffered) :
    f.position key = .concrete (lastOf entries) := by
  unfold Following.position lastOf
  rw [h.under, List.getLast?_map]
  cases entries.getLast? <;> rfl

/-- The client's reader waits for a plain read. -/
theorem Kept.plain (h : f.Kept key entries buffered) {wait : Wait}
    (hreader : f.reader? = some ⟨.suspended, wait⟩) : wait.reading.consumer = none := by
  have hstands := h.stands
  unfold reader? at hreader
  generalize f.stream = stream at hstands hreader
  cases hstands with
  | asking hasks => exact hasks.plain hreader
  | giving | failed | ended | gone => cases hreader

/-! ## What others do -/

/-- Whatever others do with the engine, the client keeps up with the stream. -/
theorem Kept.other (h : f.Kept key entries buffered) (m : Move) :
    (f.step key (.other m)).Kept key entries buffered := by
  obtain ⟨t, ht⟩ : ∃ t : Turn, t = ⟨f.world, m.shift⟩ := ⟨_, rfl⟩
  have hbefore : t.before = f.world := by rw [ht]
  have hafter : t.after = (f.step key (.other m)).world := by
    rw [ht]
    exact World.step_join ⟨f.hub.engine, f.hub.now, f.others⟩ f.reader? m
  have hatt : t.before.Attended := hbefore ▸ h.attended
  refine ⟨h.under, ?_, fun wait hreader p hp => ?_, ?_, h.stands, h.settled⟩
  · rw [← hafter]
    exact hatt.step
  · rw [← hafter]
    refine Turn.heeds hatt hp (hbefore ▸ h.heeds wait hreader p hp) fun consumer hconsumer => ?_
    rw [h.plain hreader] at hconsumer
    cases hconsumer
  · have hcaught : t.before.store.Caught key (entries ++ buffered) := hbefore ▸ h.caught
    have hstore : (f.step key (.other m)).hub.engine.store = t.after.store := by rw [hafter]; rfl
    rw [hstore]
    exact Turn.caught hcaught

theorem Kept.channels (h : f.Kept key entries buffered) (pool : Pool) :
    (f.step key (.channels pool)).Kept key entries buffered :=
  ⟨h.under, h.attended, h.heeds, h.caught, h.stands, h.settled⟩

/-! ## What the client does -/

/-- A client that gives a read up has received all up to its position, whatever it has not been
given. -/
theorem Kept.leave (h : f.Kept key entries buffered) : f.leave.Kept key entries [] := by
  have hcaught : f.hub.engine.store.Caught key (entries ++ []) := by
    rw [List.append_nil]
    exact h.caught.front
  have hatt := h.attended
  have hstands := h.stands
  unfold world reader? at hatt
  unfold Following.leave
  cases hstream : f.stream with
  | none =>
      rw [hstream] at hatt hstands
      have hnone : f.reader? = none := by rw [reader?, hstream]; rfl
      refine ⟨h.under, h.attended, fun wait hreader => ?_, hcaught, ?_, h.settled⟩
      · rw [hnone] at hreader
        cases hreader
      · rw [hstream]
        exact .gone
  | some stream =>
      rw [hstream] at hatt hstands
      have hfailed : ∀ (lease : Option TicketId) (feed : Option Hub.Feed),
          stream = .failed lease feed → feed.bind Hub.Feed.reader? = none := by
        rintro lease feed rfl
        cases hstands with
        | failed _ hfeed =>
            cases feed with
            | none => rfl
            | some feed =>
                rw [hfeed feed rfl]
                rfl
        | asking hasks => cases hasks
      obtain ⟨h', hdrop, hstore, hattended⟩ := RecordStream.drop_attended hatt hfailed
      refine ⟨h.under, ?_, nofun, ?_, .gone, h.settled⟩
      · simp only [hdrop]
        exact hattended
      · simp only [hdrop, hstore]
        exact hcaught

/-- The client's command is never at fault, and asks behind the last entry received. -/
theorem Kept.query (h : f.Kept key entries buffered) (front back : List (Bytes × Offset))
    (options : ReadOptions) :
    ∃ request, (f.command key front back options).query = .ok (options.route, .read request) ∧
      request.AsksFor key (lastOf entries) ∧ request.count = options.count := by
  have hsome : (f.command key front back options).offsets ≠ [] :=
    List.append_ne_nil_of_right_ne_nil _ (List.cons_ne_nil _ _)
  have hoffsets : Offset.tokens (f.command key front back options).offsets =
      Offset.tokens (front.filter (·.1 ≠ key)) ++
        (key, (lastOf entries).text) :: Offset.tokens (back.filter (·.1 ≠ key)) := by
    rw [command, h.position, Offset.tokens, List.map_append]
    rfl
  have hothers : ∀ l : List (Bytes × Offset), ∀ o ∈ Offset.tokens (l.filter (·.1 ≠ key)),
      o.1 ≠ key := by
    intro l
    refine List.forall_mem_map.2 fun o ho => ?_
    exact of_decide_eq_true (List.mem_filter.1 ho).2
  refine ⟨⟨Offset.tokens (f.command key front back options).offsets, options.sentBlock,
    options.count, options.noAck, none⟩, ?_, ⟨rfl, _, _, hoffsets, hothers front, hothers back⟩, rfl⟩
  rw [ReadCommand.query, requireSome_of_ne_nil hsome]
  rfl

theorem stream_leave (f : Following) : f.leave.stream = none := by
  unfold leave
  split
  case h_1 hnone => exact hnone
  case h_2 => rfl

/-- A read that is made asks behind the last entry received. -/
theorem Kept.ask (h : f.Kept key entries buffered) (hgone : f.stream = none)
    (front back : List (Bytes × Offset)) (options : ReadOptions) :
    (f.ask key front back options).Kept key entries [] := by
  have hnone : f.reader? = none := by rw [reader?, hgone]; rfl
  have hatt : (f.hub.world f.others none).Attended := by
    have hattended := h.attended
    rwa [world, hnone] at hattended
  have hcaught : f.hub.engine.store.Caught key (entries ++ []) := by
    rw [List.append_nil]
    exact h.caught.front
  obtain ⟨request, hquery, hasks, hcount⟩ := h.query front back options
  have hrespond : (f.ask key front back options).stream =
      some (.fresh options.route (.read request)) := by
    rw [Following.ask, Lazily.respond, hquery]
    rfl
  refine ⟨h.under, ?_, fun wait hreader => ?_, hcaught, ?_, nofun⟩
  · rw [world, reader?, hrespond]
    exact hatt
  · rw [reader?, hrespond] at hreader
    cases hreader
  · rw [hrespond]
    exact .asking (.fresh options.route hasks hcount) h.position rfl

theorem under_heard_entry (f : Following) (key k : Bytes) (p : EntryId × Body)
    (stream : RecordStream Hub.provider) (h : Hub) :
    (f.heard ((.item (.ok (.ofEntry k p)), stream), h)).under key =
      f.under key ++ if k = key then [.ofEntry k p] else [] := by
  rw [under, heard, Pull.records, List.filter_append, List.filter_cons]
  by_cases hk : k = key
  · rw [if_pos hk]
    exact congrArg _ (if_pos (decide_eq_true hk))
  · rw [if_neg hk]
    exact congrArg _ (if_neg fun h => hk (of_decide_eq_true h))

theorem under_heard_nothing (f : Following) (key : Bytes)
    {result : (Pull Record × RecordStream Hub.provider) × Hub} (h : result.1.1.records = []) :
    (f.heard result).under key = f.under key := by
  unfold under heard
  rw [h, List.append_nil]

/-- A read that tells its end has given all it found. -/
theorem Kept.finished (h : f.Kept key entries []) (hnone : f.reader? = none)
    (hcovers : f.look.failed = false → f.look.Covers key entries []) (pool : Pool) :
    (f.heard ((.finished, .ended), { f.hub with pool })).Kept key entries [] := by
  have hatt := h.attended
  rw [world, hnone] at hatt
  refine ⟨?_, hatt, nofun, h.caught, .ended (Bool.or_true _), fun _ hfailed => ?_⟩
  · exact (under_heard_nothing f key rfl).trans h.under
  · exact hcovers (Bool.or_eq_false_iff.1 hfailed).1

/-- A read that found its messages gives them one by one. -/
theorem Kept.giving (h : f.Kept key entries buffered) {lease : Option TicketId}
    {messages : List Message}
    (hstream : f.stream = some (.running lease (Hub.Feed.delivering messages))) :
    ∃ entries' buffered', (f.heard ((RecordStream.pullFeed Hub.provider lease
      (Hub.Feed.delivering messages)).run f.hub)).Kept key entries' buffered' := by
  have hnone : f.reader? = none := by rw [reader?, hstream]; rfl
  have hstands := h.stands
  rw [hstream] at hstands
  obtain ⟨hcarries, hopen, hcovers⟩ := hstands.of_giving
  cases messages with
  | nil =>
      obtain rfl := hcarries.nil
      obtain ⟨pool, hpool⟩ := RecordStream.run_giveBack_pool lease f.hub
      have hrun : (RecordStream.pullFeed Hub.provider lease (Hub.Feed.delivering [])).run f.hub =
          ((.finished, .ended), { f.hub with pool }) := Prod.ext rfl hpool
      rw [hrun]
      exact ⟨entries, [], h.finished hnone (fun _ => hcovers) pool⟩
  | cons m rest =>
      have hatt := h.attended
      rw [world, hnone] at hatt
      have hstill : (f.look.isOver || false) = false := by rw [hopen, Bool.false_or]
      rcases hcarries.cons with ⟨p, later, rfl, rfl, hlater⟩ | ⟨k, p, hk, rfl, hlater⟩
      · rw [RecordStream.run_pullFeed_entry]
        refine ⟨entries ++ [p], later, ?_, hatt, nofun, ?_, ?_, fun hover => ?_⟩
        · rw [under_heard_entry, if_pos rfl, h.under, List.map_append]
          rfl
        · rw [List.append_assoc]
          exact h.caught
        · refine .giving lease hlater hstill fun hcount since hsince => ?_
          obtain ⟨earlier, delivered, rfl, hbehind⟩ := hcovers hcount since hsince
          refine ⟨earlier, delivered ++ [p], List.append_assoc .., ?_⟩
          rw [List.append_assoc]
          exact hbehind
        · exact absurd (hstill.symm.trans hover) Bool.false_ne_true
      · rw [RecordStream.run_pullFeed_entry]
        refine ⟨entries, buffered, ?_, hatt, nofun, h.caught, .giving lease hlater hstill hcovers,
          fun hover => ?_⟩
        · rw [under_heard_entry, if_neg hk, List.append_nil, h.under]
        · exact absurd (hstill.symm.trans hover) Bool.false_ne_true

/-- A read whose messages are there holds what it found behind the position. -/
theorem Kept.found (h : f.Kept key entries [])
    (hsince : f.look.since = .concrete (lastOf entries)) (hopen : f.look.isOver = false)
    {hub : Hub} (hstore : hub.engine.store = f.hub.engine.store)
    (hattended : (hub.world f.others none).Attended) (lease : Option TicketId)
    {messages : List Message}
    (hcarries : Carries messages key
      (takeCount f.look.count (f.hub.engine.store.behind key (lastOf entries)))) :
    ({ f.atNow with
      hub, stream := some (.running lease (Hub.Feed.delivering messages)) } : Following).Kept key
      entries (takeCount f.look.count (f.hub.engine.store.behind key (lastOf entries))) := by
  have hcaught := h.caught
  rw [List.append_nil] at hcaught
  refine ⟨h.under, hattended, nofun, ?_, .giving lease hcarries hopen ?_, fun hover => ?_⟩
  · rw [← hstore] at hcaught ⊢
    exact hcaught.extend _
  · intro (hcount : Unlimited f.look.count) since hsince'
    obtain rfl : lastOf entries = since := RecordId.concrete.inj (hsince.symm.trans hsince')
    refine ⟨entries, [], (List.append_nil _).symm, ?_⟩
    rw [List.nil_append, takeCount_of_unlimited hcount]
    rfl
  · exact absurd (hopen.symm.trans hover) Bool.false_ne_true

/-- A read without an answer asks on, or fails, or finds its messages and gives the first. -/
theorem Kept.asking (h : f.Kept key entries []) {stream : RecordStream Hub.provider}
    (hstream : f.stream = some stream) (hasks : stream.Asks key (lastOf entries) f.look.count)
    (hsince : f.look.since = .concrete (lastOf entries)) (hopen : f.look.isOver = false) :
    ∃ entries' buffered',
      (f.atNow.heard ((stream.pull Hub.provider).run f.hub)).Kept key entries' buffered' := by
  have hatt := h.attended
  have hheeds := h.heeds
  unfold world reader? at hatt hheeds
  rw [hstream] at hatt hheeds
  have hcaught := h.caught
  have hstill : (f.look.isOver || false) = false := by rw [hopen, Bool.false_or]
  obtain ⟨h', r', houtcome, hstore, hattended⟩ := RecordStream.outcome_pull hasks hatt hheeds
  generalize (stream.pull Hub.provider).run f.hub = result at houtcome
  cases houtcome with
  | @asks stream' hasks' hnothing =>
      refine ⟨entries, [], ?_, hattended, fun wait hreader p hp _ => .inr ?_, ?_,
        .asking hasks' hsince hstill, fun hover => ?_⟩
      · exact (under_heard_nothing f.atNow key rfl).trans h.under
      · have hthere := hnothing wait hreader p hp
        rwa [← hstore] at hthere
      · rwa [← hstore] at hcaught
      · exact absurd (hstill.symm.trans hover) Bool.false_ne_true
  | fails failure lease feed hfeed =>
      refine ⟨entries, [], ?_, hattended, nofun, ?_, .failed lease hfeed (Bool.or_true _),
        fun hover => ?_⟩
      · exact (under_heard_nothing f.atNow key rfl).trans h.under
      · rwa [← hstore] at hcaught
      · exact absurd (hstill.symm.trans hover) Bool.false_ne_true
  | @answered lease messages hcarries =>
      exact (h.found hsince hopen hstore hattended lease hcarries).giving rfl

theorem Kept.pull (h : f.Kept key entries buffered) :
    ∃ entries' buffered', f.pull.Kept key entries' buffered' := by
  have hstands := h.stands
  cases hstream : f.stream with
  | none =>
      have hpull : f.pull = f := by rw [Following.pull, hstream]
      rw [hpull]
      exact ⟨entries, buffered, h⟩
  | some stream =>
      rw [hstream] at hstands
      have hnone : stream.reader? = none → f.reader? = none := fun hnone => by
        rw [reader?, hstream]
        exact hnone
      have hpull : f.pull =
          (if stream.isOpen then f.atNow else f).heard ((stream.pull Hub.provider).run f.hub) := by
        rw [Following.pull, hstream]
      rw [hpull]
      cases hstands with
      | asking hasks hsince hopen =>
          rw [if_pos hasks.isOpen]
          exact h.asking hstream hasks hsince hopen
      | giving => exact h.giving hstream
      | @failed lease feed hfeed hfailed =>
          obtain ⟨pool, hrun⟩ := RecordStream.run_pull_failed lease hfeed f.hub
          have hcovers : f.look.failed = false → f.look.Covers key entries [] :=
            fun hnot => absurd (hfailed.symm.trans hnot) nofun
          have hkept := h.finished (hnone rfl) hcovers pool
          rw [← hrun] at hkept
          exact ⟨entries, [], hkept⟩
      | ended hover =>
          exact ⟨entries, [], h.finished (hnone rfl) (h.settled hover) f.hub.pool⟩

/-- The invariant is kept by every move, whoever makes it. -/
theorem Kept.step (h : f.Kept key entries buffered) (move : FollowingMove) :
    ∃ entries' buffered', (f.step key move).Kept key entries' buffered' := by
  cases move with
  | other m => exact ⟨entries, buffered, h.other m⟩
  | channels pool => exact ⟨entries, buffered, h.channels pool⟩
  | read front back options =>
      exact ⟨entries, [], h.leave.ask f.stream_leave front back options⟩
  | pull => exact h.pull
  | giveUp => exact ⟨entries, [], h.leave⟩

theorem Kept.run (h : f.Kept key entries buffered) (moves : List FollowingMove) :
    ∃ entries' buffered', (f.run key moves).Kept key entries' buffered' := by
  induction moves generalizing f entries buffered with
  | nil => exact ⟨entries, buffered, h⟩
  | cons move rest ih =>
      obtain ⟨entries', buffered', hstep⟩ := h.step move
      exact ih hstep

/-! ## What was received -/

/-- A client has received these entries of the stream that it follows. -/
structure KeepsUp (f : Following) (key : Bytes) (entries : List (EntryId × Body)) : Prop where
  received : f.under key = entries.map (.ofEntry key)
  increasing : entries.Pairwise fun p q => p.1 < q.1
  position : f.position key = .concrete (lastOf entries)
  /-- Nothing that is there up to the position was missed. -/
  complete : ∀ p ∈ f.hub.engine.store.listed key, p.1 ≤ lastOf entries → p ∈ entries
  /-- A read without a count that succeeds comes to the end of the stream as it found it. -/
  reaches : f.look.isOver → f.look.failed = false → Unlimited f.look.count →
    ∀ since, f.look.since = .concrete since →
      (∃ p ∈ f.look.moment.listed key, since < p.1) →
      ∃ last ∈ f.look.moment.listed key,
        (∀ p ∈ f.look.moment.listed key, p.1 ≤ last.1) ∧ lastOf entries = last.1

theorem Kept.keepsUp (h : f.Kept key entries buffered) : f.KeepsUp key entries where
  received := h.under
  increasing := h.caught.front.sorted
  position := h.position
  complete := h.caught.front.gapless
  reaches hover hfine hcount since hsince hbehind := by
    obtain ⟨p, hp, hlt⟩ := hbehind
    obtain ⟨earlier, delivered, rfl, hfound⟩ := h.settled hover hfine hcount since hsince
    obtain ⟨last, hlast, hlast'⟩ := Store.getLast?_of_behind hp hlt
    rw [hfound, List.append_nil] at hlast'
    exact ⟨last, List.mem_of_getLast? hlast,
      fun q hq => le_getLast_of_pairwise (f.look.moment.pairwise_listed key) hq hlast,
      lastOf_append hlast'⟩

end Following

/-- What a client has received of a stream is at all times all that the stream has up to the
client's position, once and in order, and a read without a count brings it to the end. -/
theorem received_is_all_up_to_position (settings : Settings) (wallClock : UInt64) (key : Bytes)
    (moves : List FollowingMove) :
    ∃ entries, ((Following.start settings wallClock).run key moves).KeepsUp key entries := by
  obtain ⟨entries, buffered, hkept⟩ := (Following.kept_start settings wallClock key).run moves
  exact ⟨entries, hkept.keepsUp⟩

/-- A read that waits, is given one record of several and is given up, and a read of all that is
left, while entries come and go. -/
def followedTwice : List FollowingMove :=
  [.read [([98], .latest)] [] ⟨some 0, some 2, false⟩, .pull,
    .other (.add [97] (some "1-1") (.ofList [([102], [118])]) (some 0)),
    .other (.add [97] (some "1-2") (.ofList [([102], [118])]) (some 0)), .pull,
    .other (.delete [97] ["1-1"]),
    .other (.add [97] (some "1-3") (.ofList [([102], [118])]) (some 0)),
    .read [] [] .none, .pull,
    .other (.add [97] (some "1-4") (.ofList [([102], [118])]) (some 0)), .pull, .pull]

example : ((Following.start .standard 0).run [97] followedTwice).under [97] =
      [.ofEntry [97] (⟨1, 1⟩, .ofList [([102], [118])]),
        .ofEntry [97] (⟨1, 2⟩, .ofList [([102], [118])]),
        .ofEntry [97] (⟨1, 3⟩, .ofList [([102], [118])])] ∧
    ((Following.start .standard 0).run [97] followedTwice).look.isOver = true := by
  decide +kernel

end StreamBroker
