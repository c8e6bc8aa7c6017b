import StreamBroker.Front.Operation
import StreamBroker.Hub
set_option autoImplicit false

/-!
# Jobs

A job is work on a hub that may have to wait: reads through the front end, one read on a channel, or
the acquisition of a dedicated channel.  `Job.run` goes on with a job until it waits or is done;
`Job.isReady` tells whether there is a point in that, and `Job.drop` gives up what a job holds.
-/

namespace StreamBroker

/-- What comes of a job. -/
inductive Outcome where
  /-- The answers to the commands of reads. -/
  | answers (answers : List RecordsAnswer)
  /-- The messages of one read, a failure last if there was one. -/
  | messages (items : List (Except Failure Message))
  /-- A read that was refused as a whole. -/
  | refused (failure : Failure)
  /-- A dedicated channel. -/
  | leased (lease : TicketId)
  /-- No dedicated channel. -/
  | unavailable (failure : Failure)
  /-- Nothing: it was given up. -/
  | cancelled
  deriving Repr

/-- Work that may have to wait. -/
inductive Job where
  /-- Reads through the front end that are still to be answered. -/
  | answering (pending : List ReadCommand) (answers : List RecordsAnswer)
  /-- Reads of which one has a record stream under way. -/
  | reading (command : ReadCommand) (records : List (Except Failure Record))
      (stream : RecordStream Hub.provider) (pending : List ReadCommand)
      (answers : List RecordsAnswer)
  /-- A read on a channel; a `direct` one goes past the channels and is refused as a whole. -/
  | feeding (direct : Bool) (items : List (Except Failure Message)) (feed : Hub.Feed)
  /-- An acquisition that has not asked yet. -/
  | acquiring
  /-- An acquisition that has a place in the queue. -/
  | queued (ticket : Hub.Ticket)

namespace Job

/-- How many cursors a feed has. -/
def cursorsOf : Hub.Feed → Nat
  | .reading request => request.offsets.length
  | .waiting wait => wait.reading.cursors.length
  | _ => 0

/-- Pulls messages until the feed waits or is over, at most `limit` times. -/
def drainFeed : Nat → Hub.Feed → StateM Hub (List (Except Failure Message) × Bool × Hub.Feed)
  | 0, feed => return ([], true, feed)
  | limit + 1, feed => do
    match ← Hub.pull feed with
    | (.item item, feed) =>
      let (items, isOver, feed) ← drainFeed limit feed
      return (item :: items, isOver, feed)
    | (.waiting, feed) => return ([], false, feed)
    | (.finished, feed) => return ([], true, feed)

/-- The outcome of one read. -/
def concludeFeed (direct : Bool) (items : List (Except Failure Message)) : Outcome :=
  match direct, items with
  | true, [.error failure] => .refused failure
  | _, items => .messages items

/-- Pulls the records of a read until its stream waits or is over. -/
def drainRecords (c : ReadCommand) (stream : RecordStream Hub.provider) :
    StateM Hub (List (Except Failure Record) × RecordStream Hub.provider) := do
  let patience := (← get).patience c.offsets.length
  stream.drain Hub.provider patience

/-- Answers reads one after the other until one waits or all are answered. -/
def answerAll : List ReadCommand → List RecordsAnswer → StateM Hub (Job ⊕ Outcome)
  | [], answers => return .inr (.answers answers)
  | c :: pending, answers => do
    match c.query with
    | .error failure => answerAll pending (answers ++ [⟨.read c, .error failure⟩])
    | .ok (route, query) =>
      let (records, stream) ← drainRecords c (.fresh route query)
      if stream.isOver then answerAll pending (answers ++ [⟨.read c, .ok records⟩])
      else return .inl (.reading c records stream pending answers)

/-- Looks for a dedicated channel. -/
def lookUp (ticket : Hub.Ticket) : StateM Hub (Job ⊕ Outcome) := do
  match ← Hub.collect ticket with
  | .waiting => return .inl (.queued ticket)
  | .ready (.ok lease) => return .inr (.leased lease)
  | .ready (.error failure) => return .inr (.unavailable failure)

/-- Goes on with a job until it waits or is done. -/
def run : Job → StateM Hub (Job ⊕ Outcome)
  | answering pending answers => answerAll pending answers
  | reading c records stream pending answers => do
    let (more, stream) ← drainRecords c stream
    let records := records ++ more
    if stream.isOver then answerAll pending (answers ++ [⟨.read c, .ok records⟩])
    else return .inl (reading c records stream pending answers)
  | feeding direct items feed => do
    let patience := (← get).patience (cursorsOf feed)
    let (more, isOver, feed) ← drainFeed patience feed
    let items := items ++ more
    if isOver then return .inr (concludeFeed direct items)
    else return .inl (feeding direct items feed)
  | acquiring => do
    let ticket ← Hub.request
    lookUp ticket
  | queued ticket => lookUp ticket

/-- Whether a record stream would get anywhere. -/
def streamIsReady (h : Hub) : RecordStream Hub.provider → Bool
  | .acquiring (ticket : Hub.Ticket) _ => ticket.isReady h
  | .running _ (feed : Hub.Feed) => feed.isReady h
  | _ => true

/-- Whether a job would get anywhere. -/
def isReady (h : Hub) : Job → Bool
  | answering .. | acquiring => true
  | reading _ _ stream _ _ => streamIsReady h stream
  | feeding _ _ feed => feed.isReady h
  | queued ticket => ticket.isReady h

/-- The signal of a feed that waits. -/
def signalOf : Hub.Feed → Option SignalId
  | .waiting wait => some wait.signal
  | _ => none

/-- The signal that would wake a job, if it waits for one. -/
def signal? : Job → Option SignalId
  | reading _ _ (.running _ (feed : Hub.Feed)) _ _ => signalOf feed
  | feeding _ _ feed => signalOf feed
  | _ => none

/-- Gives up what a job holds. -/
def drop : Job → StateM Hub Unit
  | reading _ _ stream _ _ => stream.drop
  | feeding _ _ feed => Hub.close feed
  | queued ticket => Hub.withdraw ticket
  | answering .. | acquiring => return ()

/-- How often a job can be gone on with before it has to be woken by something new. -/
def turns : Job → Nat
  | answering pending _ => 2 * pending.length + 1
  | reading _ _ _ pending _ => 2 * pending.length + 3
  | feeding .. => 2
  | acquiring | queued _ => 2

end Job

end StreamBroker
