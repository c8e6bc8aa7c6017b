import StreamBroker.Session.Cursors
import StreamBroker.Session.Tasks
set_option autoImplicit false

/-!
# Running a session

`Session.step` carries out one step, which nothing interrupts, and then lets the background tasks go
on.
-/

namespace StreamBroker.Session

/-- Runs an operation of the front end to its end. -/
def operate : Operation → StateM Hub Result
  | .add commands => do
    let l ← Ordered.responses Hub.provider (commands[·]?) AddCommand.plan
      (commands.length + 1) .start
    return .answers (l.map (·.answer .add .recordId))
  | .acknowledge commands => do
    let l ← Ordered.responses Hub.provider (commands[·]?) AcknowledgeCommand.plan
      (commands.length + 1) .start
    return .answers (l.map (·.answer .acknowledge .count))
  | .delete commands => do
    let l ← Ordered.responses Hub.provider (commands[·]?) DeleteCommand.plan
      (commands.length + 1) .start
    return .answers (l.map (·.answer .delete .count))
  | .group commands => do
    let l ← Ordered.responses Hub.provider (commands[·]?) GroupCommand.plan
      (commands.length + 1) .start
    return .answers (l.map (·.answer .group .status))
  | .trim commands => do
    let l ← Ordered.responses Hub.provider (commands[·]?) TrimCommand.plan
      (commands.length + 1) .start
    return .answers (l.map (·.answer .trim .count))
  | .length commands => do
    let window := (← get).settings.concurrentLengths.toNat
    let l ← Lengths.responses Hub.provider window (commands[·]?) (commands.length + 1) .start
    return .answers (l.map (·.answer .length .count))
  | .range direction commands => do
    let answers ← commands.mapM fun c => do
      match (Lazily.respond Hub.provider (RangeCommand.routed direction) c).outcome with
      | .error failure => return ⟨.range c, .error failure⟩
      | .ok stream =>
        let (records, _) ← stream.drain Hub.provider ((← get).patience 0)
        return ⟨.range c, .ok records⟩
    return .records answers

/-- The channel of a call. -/
def Via.route? : Via → Option Route
  | .engine => none
  | .shared => some .shared
  | .lease _ => some .dedicated

/-- Counts a call, unless it goes to the engine itself. -/
def countVia (via : Via) : StateM Hub Unit :=
  match Via.route? via with
  | none => return ()
  | some route => modify (·.count route)

/-- Keeps the record stream of a response as a cursor, if there is one. -/
def openResponse {C : Type} (name : String) (input : C → Command)
    (response : Response C (RecordStream Hub.provider)) : StateM Session Result := do
  match response.outcome with
  | .error failure => return .failed (input response.command) failure
  | .ok stream =>
    keep name (.records stream)
    return .opened

/-- Carries out a step, but for what it sets going in the background, and gives a task that was
cancelled by it. -/
def carryOut : Step → StateM Session (Result × Option Finished)
  | .advance millis => return (.finished (← advance millis), none)
  | .cancel name => do
    let cancelled ← cancel name
    return (.flag cancelled.isSome, cancelled)
  | .lease name => do
    spawn name .acquiring
    return (.started, none)
  | .release name => return (.flag (← releaseLease name), none)
  | .next name count => do
    match (← get).cursors.lookup name with
    | none => return (.items [], none)
    | some handle =>
      let (items, handle) ← onHub (pullItems count handle)
      putCursor name handle
      return (.items items, none)
  | .drop name => return (.flag (← dropCursor name), none)
  | .operate operation => return (← onHub (operate operation), none)
  | .read name commands => do
    spawn name (.answering commands [])
    return (.started, none)
  | .openRange name direction c => do
    let response := Lazily.respond Hub.provider (RangeCommand.routed direction) c
    return (← openResponse name .range response, none)
  | .openRead name c => do
    let response := Lazily.respond Hub.provider ReadCommand.query c
    return (← openResponse name .read response, none)
  | .call via ⟨kind, call⟩ => do
    onHub (countVia via)
    let reply ← onHub (Hub.perform call)
    return (.reply kind reply, none)
  | .pending key group => return (.pending ((← get).hub.engine.store.pendingCount key group), none)
  | .scan via query => do
    onHub (countVia via)
    let patience := (← get).hub.patience 0
    let (items, _) ← onHub (Job.drainFeed patience (.ofQuery query))
    return (.messages items, none)
  | .readOn via name request => do
    onHub (countVia via)
    spawn name (.feeding (via == .engine) [] (.ofQuery (.read request)))
    return (.started, none)
  | .openScan name query => do
    keep name (.messages (.ofQuery query))
    return (.opened, none)

/-- Carries out a step and lets the background tasks go on. -/
def step (step : Step) : StateM Session Report := do
  let (result, cancelled) ← carryOut step
  let finished ← settle
  let finished := (cancelled.toList ++ finished).mergeSort fun a b => a.id ≤ b.id
  return ⟨result, (← get).tally, finished⟩

end StreamBroker.Session
