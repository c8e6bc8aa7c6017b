import StreamBroker.Proofs.Lending.Deals
import StreamBroker.Proofs.Scan.Records
import StreamBroker.Proofs.World.Rounds
import StreamBroker.Proofs.World.Wakeups
set_option autoImplicit false

/-!
# The answer to a plain read

A plain read that asks behind an identifier of a stream has no answer (`RecordStream.Asks`) until
the engine finds something for it or refuses it.  One pull of its record stream leaves it without an
answer, or tells a failure, or gives it the messages that the engine finds at that moment
(`RecordStream.Outcome`).  The engine may be read by others as well: their readers stand behind the
reader of the stream, if it has one (`Hub.world`).
-/

namespace StreamBroker

/-! ## Messages of entries -/

/-- Messages of entries, which under one key are the given ones. -/
structure Carries (messages : List Message) (key : Bytes) (entries : List (EntryId × Body)) :
    Prop where
  readable : ∀ m ∈ messages, ∃ (k : Bytes) (p : EntryId × Body), m = .ofEntry k p.1 p.2
  there : messages.filter (·.stream = key) = entries.map fun p => .ofEntry key p.1 p.2

namespace Carries

variable {messages : List Message} {m : Message} {key : Bytes} {entries : List (EntryId × Body)}

theorem nil (h : Carries [] key entries) : entries = [] := List.map_eq_nil_iff.1 h.there.symm

/-- The first message is that of the first entry, or stands under another key. -/
theorem cons (h : Carries (m :: messages) key entries) :
    (∃ p later, entries = p :: later ∧ m = .ofEntry key p.1 p.2 ∧ Carries messages key later) ∨
      ∃ (k : Bytes) (p : EntryId × Body), k ≠ key ∧ m = .ofEntry k p.1 p.2 ∧
        Carries messages key entries := by
  have hlater : ∀ m ∈ messages, ∃ (k : Bytes) (p : EntryId × Body), m = .ofEntry k p.1 p.2 :=
    fun m hm => h.readable m (List.mem_cons_of_mem _ hm)
  have hthere := h.there
  by_cases hkey : m.stream = key
  · rw [List.filter_cons, if_pos (decide_eq_true hkey)] at hthere
    obtain ⟨p, later, hentries, hm, hmap⟩ := List.map_eq_cons_iff.1 hthere.symm
    exact .inl ⟨p, later, hentries, hm.symm, hlater, hmap.symm⟩
  · rw [List.filter_cons, if_neg (by simpa using hkey)] at hthere
    obtain ⟨k, p, rfl⟩ := h.readable m List.mem_cons_self
    exact .inr ⟨k, p, hkey, rfl, hlater, hthere⟩

/-- What a plain read finds. -/
theorem readPlain {r : Reading} {id : EntryId} (h : r.AsksFor key id) (s : Store) :
    Carries (s.readPlain r.count r.cursors) key (takeCount r.count (s.behind key id)) := by
  refine ⟨fun m hm => ?_, h.filter_readPlain s⟩
  obtain ⟨⟨k, cursor⟩, -, hfrom⟩ := List.mem_flatMap.1 hm
  cases cursor with
  | undelivered => cases hfrom
  | after id =>
      rw [Store.readFrom_after] at hfrom
      obtain ⟨p, -, rfl⟩ := List.mem_map.1 hfrom
      exact ⟨k, p, rfl⟩

end Carries

/-! ## What the engine answers -/

/-- A plain request that asks once for a key, behind an identifier. -/
structure ReadRequest.AsksFor (request : ReadRequest) (key : Bytes) (id : EntryId) : Prop where
  plain : request.consumer = none
  once : ∃ front back, request.offsets = front ++ (key, id.text) :: back ∧
    (∀ o ∈ front, o.1 ≠ key) ∧ ∀ o ∈ back, o.1 ≠ key

/-- The text of an identifier stands for that identifier. -/
theorem Store.mark_text (s : Store) (key : Bytes) (id : EntryId) : s.mark key id.text = id := by
  have hlatest : id.text ≠ "$" := fun h => by
    have hchars := congrArg String.toList h
    rw [EntryId.text, String.toList_ofList] at hchars
    exact id.toChars_ne_singleton '$' hchars
  rw [mark, if_neg hlatest, EntryId.ofText?_text]
  rfl

/-- A request asks for the same when its cursors are resolved. -/
theorem ReadRequest.AsksFor.reading {request : ReadRequest} {key : Bytes} {id : EntryId}
    (h : request.AsksFor key id) {s : Store} {cursors : List (Bytes × Cursor)}
    (hresolve : s.resolve false request.offsets = .ok cursors) (now : Nat) :
    (request.reading now cursors).AsksFor key id := by
  obtain ⟨front, back, hoffsets, hfront, hback⟩ := h.once
  refine ⟨h.plain, front.map fun o => (o.1, .after (s.mark o.1 o.2)),
    back.map fun o => (o.1, .after (s.mark o.1 o.2)), ?_, ?_, ?_⟩
  · have hcursors := Store.resolve_plain hresolve
    rw [hoffsets, List.map_append, List.map_cons, Store.mark_text] at hcursors
    exact hcursors
  · exact List.forall_mem_map.2 hfront
  · exact List.forall_mem_map.2 hback

/-- What an engine may answer to a plain read that asks behind an identifier of a key. -/
inductive Answered (s : Store) (key : Bytes) (id : EntryId) (count : Option UInt64) :
    Progress → Prop where
  | refused (refusal : Refusal) : Answered s key id count (.returned (.error refusal))
  | found {messages : List Message}
      (hcarries : Carries messages key (takeCount count (s.behind key id))) :
      Answered s key id count (.returned (.ok messages))
  | waits {wait : Wait} (hasks : wait.reading.AsksFor key id) (hcount : wait.reading.count = count)
      (hnothing : ∀ p ∈ wait.reading.cursors, s.HasNothing wait.reading.consumer p) :
      Answered s key id count (.waiting wait)

theorem Answered.of_plainStep {e : Engine} {r : Reading} {p : Progress × Engine} {key : Bytes}
    {id : EntryId} (hasks : r.AsksFor key id) (h : PlainStep e r p) :
    Answered e.store key id r.count p.1 := by
  rcases h.progress with hfound | ⟨wait, hwaits, hreading, hempty⟩
  · rw [hfound]
    exact .found (.readPlain hasks e.store)
  · rw [hwaits]
    refine .waits ?_ ?_ ?_
    · rwa [hreading]
    · rw [hreading]
    · rw [hreading, hasks.plain]
      exact Store.readPlain_eq_nil_iff.1 hempty

/-- A step of a plain read in a world: it answers, leaves the store alone, and everybody is attended
to behind it. -/
structure World.Answers (w : World) (i : Nat) (key : Bytes) (id : EntryId) (count : Option UInt64)
    (p : Progress × Engine) : Prop where
  progress : Answered w.store key id count p.1
  store : p.2.store = w.store
  attended : (w.carriedOn i p).Attended

namespace World

variable {w : World} {i : Nat} {key : Bytes} {id : EntryId}

/-- A reader that leaves without a trace in the registry troubles nobody. -/
theorem Attended.setReader_none (h : w.Attended) (i : Nat) : (w.setReader i none).Attended := by
  apply h.of_waits
  intro j y hy
  rcases reader?_setReader hy with ⟨-, hnone⟩ | ⟨-, hbefore⟩
  · cases hnone
  · exact ⟨y, hbefore, rfl, h.held hbefore⟩

theorem answers_beginRead (hatt : w.Attended) (hi : i < w.readers.length) {request : ReadRequest}
    (h : request.AsksFor key id) :
    w.Answers i key id request.count (w.engine.beginRead w.now request) := by
  have hplain : request.consumer.isSome = false := by rw [h.plain]; rfl
  cases hresolve : w.store.resolve request.consumer.isSome request.offsets with
  | error refusal =>
      have hbegin : w.engine.beginRead w.now request = (.returned (.error refusal), w.engine) := by
        rw [Engine.beginRead, hresolve]
      rw [hbegin]
      exact ⟨.refused refusal, rfl, hatt.setReader_none i⟩
  | ok cursors =>
      have hbegin : w.engine.beginRead w.now request =
          w.engine.tryRead w.now (request.reading w.now cursors) := by
        rw [Engine.beginRead, hresolve]
      have hasks := h.reading (hplain ▸ hresolve) w.now
      have hstep := Engine.tryRead_plain (e := w.engine) hasks.plain w.now
      rw [hbegin]
      exact ⟨.of_plainStep hasks hstep, hstep.store,
        hatt.tryRead hi fun hmay => ReadRequest.asksAhead_reading hmay⟩

theorem answers_resume (hatt : w.Attended) {wait : Wait}
    (hreader : w.reader? i = some ⟨.suspended, wait⟩)
    (hheeds : ∀ p ∈ wait.reading.cursors, w.Heeds i wait p) (h : wait.reading.AsksFor key id) :
    w.Answers i key id wait.reading.count (w.engine.resume w.now wait) := by
  have hquiet : ¬ w.registry.isRaised wait.signal →
      w.store.readPlain wait.reading.count wait.reading.cursors = [] := by
    intro hquiet
    refine Store.readPlain_eq_nil_iff.2 fun p hp => ?_
    have hnothing := (hheeds p hp hreader).resolve_left hquiet
    rwa [h.plain] at hnothing
  have hstep := Engine.resume_plain (e := w.engine) h.plain hquiet w.now
  exact ⟨.of_plainStep h hstep, hstep.store, hatt.resume hreader⟩

end World

/-! ## What the record stream makes of it -/

/-- The reader of a feed that waits. -/
def Hub.Feed.reader? : Hub.Feed → Option Reader
  | .waiting wait => some ⟨.suspended, wait⟩
  | _ => none

/-- The engine of a hub and its time, with the readers of others behind one reader. -/
def Hub.world (h : Hub) (others : List (Option Reader)) (r : Option Reader) : World :=
  World.join ⟨h.engine, h.now, others⟩ r

namespace RecordStream

/-- The reader of a stream that waits for a message. -/
def reader? : RecordStream Hub.provider → Option Reader
  | .running _ (feed : Hub.Feed) => feed.reader?
  | _ => none

/-- Whether pulling a stream may still ask the engine for its messages. -/
def isOpen : RecordStream Hub.provider → Bool
  | .fresh .. | .acquiring .. => true
  | .running _ (feed : Hub.Feed) => feed.reader?.isSome
  | .failed .. | .ended => false

/-- A record stream that asks behind an identifier of a key and has no answer. -/
inductive Asks (key : Bytes) (id : EntryId) (count : Option UInt64) :
    RecordStream Hub.provider → Prop where
  | fresh (route : Route) {request : ReadRequest} (hasks : request.AsksFor key id)
      (hcount : request.count = count) : Asks key id count (.fresh route (.read request))
  | acquiring (ticket : Hub.Ticket) {request : ReadRequest} (hasks : request.AsksFor key id)
      (hcount : request.count = count) : Asks key id count (.acquiring ticket (.read request))
  | waiting (lease : Option TicketId) {wait : Wait} (hasks : wait.reading.AsksFor key id)
      (hcount : wait.reading.count = count) :
      Asks key id count (.running lease (Hub.Feed.waiting wait))

/-- What one pull of such a stream comes to, on a hub `h'` behind it. -/
inductive Outcome (s : Store) (key : Bytes) (id : EntryId) (count : Option UInt64) (h' : Hub) :
    Option Reader → (Pull Record × RecordStream Hub.provider) × Hub → Prop where
  /-- There is no answer yet. -/
  | asks {stream : RecordStream Hub.provider} (hasks : stream.Asks key id count)
      (hnothing : ∀ wait, stream.reader? = some ⟨.suspended, wait⟩ →
        ∀ p ∈ wait.reading.cursors, s.HasNothing wait.reading.consumer p) :
      Outcome s key id count h' stream.reader? ((.waiting, stream), h')
  | fails (failure : Failure) (lease : Option TicketId) (feed : Option Hub.Feed)
      (hfeed : ∀ feed', feed = some feed' → feed' = .ended) :
      Outcome s key id count h' none ((.item (.error failure), .failed lease feed), h')
  /-- The messages are there, and the first of them is pulled. -/
  | answered (lease : Option TicketId) {messages : List Message}
      (hcarries : Carries messages key (takeCount count (s.behind key id))) :
      Outcome s key id count h' none
        ((pullFeed Hub.provider lease (Hub.Feed.delivering messages)).run h')

/-- Pulling a feed for which the engine makes a step. -/
theorem run_pullFeed_of_progress {h : Hub} {feed : Hub.Feed} {p : Progress × Engine}
    (hpull : (Hub.pull feed).run h = (Hub.Feed.ofProgress p.1, { h with engine := p.2 }))
    (lease : Option TicketId) :
    (pullFeed Hub.provider lease feed).run h =
      match p.1 with
      | .waiting wait =>
        ((.waiting, .running lease (Hub.Feed.waiting wait)), { h with engine := p.2 })
      | .returned (.error refusal) =>
        ((.item (.error (.server refusal)), .failed lease (some Hub.Feed.ended)),
          { h with engine := p.2 })
      | .returned (.ok messages) =>
        (pullFeed Hub.provider lease (Hub.Feed.delivering messages)).run { h with engine := p.2 } := by
  change (Hub.provider.pull feed).run h = _ at hpull
  obtain ⟨progress, engine⟩ := p
  rcases progress with (refusal | messages) | wait
  · simp only [pullFeed, StateT.run_bind, hpull]
    rfl
  · simp only [pullFeed, StateT.run_bind, hpull]
    cases messages <;> rfl
  · simp only [pullFeed, StateT.run_bind, hpull]
    rfl

/-- Pulling a message that stands ready. -/
theorem run_pullFeed_entry (lease : Option TicketId) (key : Bytes) (p : EntryId × Body)
    (rest : List Message) (h : Hub) :
    (pullFeed Hub.provider lease (Hub.Feed.delivering (.ofEntry key p.1 p.2 :: rest))).run h =
      ((.item (.ok (.ofEntry key p)), .running lease (Hub.Feed.delivering rest)), h) := by
  have hpull : (Hub.provider.pull (Hub.Feed.delivering (.ofEntry key p.1 p.2 :: rest))).run h =
      ((.item (.ok (.ofEntry key p.1 p.2)), Hub.Feed.delivering rest), h) := rfl
  simp only [pullFeed, StateT.run_bind, hpull]
  simp only [bind, Message.record_ofEntry]
  rfl

theorem outcome_pullFeed {h : Hub} {others : List (Option Reader)} {r : Option Reader}
    {feed : Hub.Feed} {p : Progress × Engine} {key : Bytes} {id : EntryId} {count : Option UInt64}
    (hpull : (Hub.pull feed).run h = (Hub.Feed.ofProgress p.1, { h with engine := p.2 }))
    (hanswers : (h.world others r).Answers 0 key id count p) (lease : Option TicketId) :
    ∃ h' r', Outcome h.engine.store key id count h' r' ((pullFeed Hub.provider lease feed).run h) ∧
      h'.engine.store = h.engine.store ∧ (h'.world others r').Attended := by
  obtain ⟨progress, engine⟩ := p
  have hstore : engine.store = h.engine.store := hanswers.store
  have hattended : (Hub.world { h with engine } others progress.reader?).Attended :=
    hanswers.attended
  have hprogress : Answered h.engine.store key id count progress := hanswers.progress
  have hrun := run_pullFeed_of_progress hpull lease
  cases hprogress with
  | refused refusal =>
      refine ⟨_, none, ?_, hstore, hattended⟩
      rw [hrun]
      exact .fails _ lease _ fun feed' hfeed => (Option.some.inj hfeed).symm
  | found hcarries =>
      refine ⟨_, none, ?_, hstore, hattended⟩
      rw [hrun]
      exact .answered lease hcarries
  | @waits wait hasks hcount hnothing =>
      refine ⟨_, _, ?_, hstore, hattended⟩
      rw [hrun]
      refine .asks (.waiting lease hasks hcount) fun wait' hwait => ?_
      obtain rfl : wait = wait' := congrArg Reader.wait (Option.some.inj hwait)
      exact hnothing

/-- A read that begins on a channel. -/
theorem outcome_begin {request : ReadRequest} {key : Bytes} {id : EntryId}
    (hasks : request.AsksFor key id) {h : Hub} {others : List (Option Reader)}
    (hatt : (h.world others none).Attended) (lease : Option TicketId) :
    ∃ h' r', Outcome h.engine.store key id request.count h' r'
        ((pullFeed Hub.provider lease (Hub.Feed.reading request)).run h) ∧
      h'.engine.store = h.engine.store ∧ (h'.world others r').Attended :=
  outcome_pullFeed rfl (World.answers_beginRead hatt (Nat.succ_pos _) hasks) lease

/-- A read that looks for its channel; only the pool changes as long as it has none. -/
theorem outcome_pullTicket {request : ReadRequest} {key : Bytes} {id : EntryId}
    (hasks : request.AsksFor key id) {h : Hub} {others : List (Option Reader)}
    (hatt : (h.world others none).Attended) (ticket : Hub.Ticket) :
    ∃ h' r', Outcome h.engine.store key id request.count h' r'
        ((pullTicket Hub.provider ticket (.read request)).run h) ∧
      h'.engine.store = h.engine.store ∧ (h'.world others r').Attended := by
  obtain ⟨found, pool, hcollect⟩ := Hub.run_collect_pool ticket h
  change (Hub.provider.collect ticket).run h = _ at hcollect
  rw [run_pullTicket Hub.provider ticket (.read request) h, hcollect]
  rcases found with (failure | lease) | _
  · exact ⟨_, none, .fails failure none none nofun, rfl, hatt⟩
  · exact outcome_begin hasks (h := { h with pool }.count .dedicated) hatt (some lease)
  · exact ⟨_, none, .asks (.acquiring ticket hasks rfl) nofun, rfl, hatt⟩

/-- One pull of a stream without an answer. -/
theorem outcome_pull {stream : RecordStream Hub.provider} {key : Bytes} {id : EntryId}
    {count : Option UInt64} (hasks : stream.Asks key id count) {h : Hub}
    {others : List (Option Reader)} (hatt : (h.world others stream.reader?).Attended)
    (hheeds : ∀ wait, stream.reader? = some ⟨.suspended, wait⟩ →
      ∀ p ∈ wait.reading.cursors, (h.world others stream.reader?).Heeds 0 wait p) :
    ∃ h' r', Outcome h.engine.store key id count h' r' ((pull Hub.provider stream).run h) ∧
      h'.engine.store = h.engine.store ∧ (h'.world others r').Attended := by
  cases hasks with
  | fresh route hasks hcount =>
      subst hcount
      cases route with
      | shared => exact outcome_begin hasks (h := h.count .shared) hatt none
      | dedicated =>
          exact outcome_pullTicket hasks (h := (Hub.request.run h).2) hatt (Hub.request.run h).1
  | acquiring ticket hasks hcount =>
      subst hcount
      exact outcome_pullTicket hasks hatt ticket
  | waiting lease hasks hcount =>
      subst hcount
      exact outcome_pullFeed rfl (World.answers_resume hatt rfl (hheeds _ rfl) hasks) lease

theorem Asks.isOpen {stream : RecordStream Hub.provider} {key : Bytes} {id : EntryId}
    {count : Option UInt64} (h : stream.Asks key id count) : stream.isOpen = true := by
  cases h <;> rfl

theorem Asks.plain {stream : RecordStream Hub.provider} {key : Bytes} {id : EntryId}
    {count : Option UInt64} (h : stream.Asks key id count) {wait : Wait}
    (hreader : stream.reader? = some ⟨.suspended, wait⟩) : wait.reading.consumer = none := by
  cases h with
  | fresh | acquiring => cases hreader
  | waiting lease hasks =>
      cases hreader
      exact hasks.plain

/-! ## The end of a stream -/

theorem run_giveBack_pool (lease : Option TicketId) (h : Hub) :
    ∃ pool, ((giveBack Hub.provider lease).run h).2 = { h with pool } := by
  cases lease with
  | none => exact ⟨h.pool, rfl⟩
  | some lease => exact ⟨h.pool.release lease, rfl⟩

/-- A stream that told a failure of the engine tells its end. -/
theorem run_pull_failed (lease : Option TicketId) {feed : Option Hub.Feed}
    (hfeed : ∀ feed', feed = some feed' → feed' = .ended) (h : Hub) :
    ∃ pool, (pull Hub.provider (.failed lease feed)).run h =
      ((.finished, .ended), { h with pool }) := by
  obtain ⟨pool, hpool⟩ := run_giveBack_pool lease h
  refine ⟨pool, ?_⟩
  cases feed with
  | none => exact Prod.ext rfl hpool
  | some feed =>
      rw [hfeed feed rfl]
      exact Prod.ext rfl hpool

/-- Closing what a stream reads from and giving back its channel. -/
theorem closeFeed_attended {h : Hub} {others : List (Option Reader)} (lease : Option TicketId)
    (feed : Option Hub.Feed) (hatt : (h.world others (feed.bind Hub.Feed.reader?)).Attended) :
    ∃ h', ((giveBack Hub.provider lease).run ((closeFeed Hub.provider feed).run h).2).2 = h' ∧
      h'.engine.store = h.engine.store ∧ (h'.world others none).Attended := by
  obtain ⟨pool, hpool⟩ := run_giveBack_pool lease ((closeFeed Hub.provider feed).run h).2
  refine ⟨_, hpool, ?_⟩
  cases feed with
  | none => exact ⟨rfl, hatt⟩
  | some feed =>
      cases feed with
      | waiting wait => exact ⟨rfl, hatt.step (t := ⟨_, .cancel 0⟩)⟩
      | _ => exact ⟨rfl, hatt⟩

/-- A stream that is given up leaves the store alone, and its reader leaves the others as they
were. -/
theorem drop_attended {stream : RecordStream Hub.provider} {h : Hub}
    {others : List (Option Reader)} (hatt : (h.world others stream.reader?).Attended)
    (hfailed : ∀ (lease : Option TicketId) (feed : Option Hub.Feed),
      stream = .failed lease feed → feed.bind Hub.Feed.reader? = none) :
    ∃ h', ((drop Hub.provider stream).run h).2 = h' ∧ h'.engine.store = h.engine.store ∧
      (h'.world others none).Attended := by
  cases stream with
  | fresh route query => exact ⟨h, rfl, rfl, hatt⟩
  | acquiring ticket query => exact ⟨_, rfl, rfl, hatt⟩
  | running lease feed => exact closeFeed_attended lease (some feed) hatt
  | failed lease feed =>
      refine closeFeed_attended lease feed ?_
      rw [hfailed lease feed rfl]
      exact hatt
  | ended => exact ⟨h, rfl, rfl, hatt⟩

end RecordStream

end StreamBroker
