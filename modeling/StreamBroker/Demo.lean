import StreamBroker.Front.Operation
import StreamBroker.Hub
set_option autoImplicit false

/-!
# The demonstration

A short tour over a hub of its own: three orders are added and listed, a group is created, one of
its workers is handed two of them and acknowledges them, and the calls are counted at the end.
-/

namespace StreamBroker

/-- What a run of the program leaves behind. -/
structure Exit where
  code : Nat
  log : List String
  complaint : String
  deriving DecidableEq, Repr

namespace Demo

/-- Why the tour breaks off: what failed, and the reason for it if there is one of its own. -/
structure Complaint where
  what : String
  reason : Option String
  deriving DecidableEq, Repr

/-- A complaint as it is shown. -/
def Complaint.text (c : Complaint) : String :=
  match c.reason with
  | none => "Error: " ++ c.what ++ "\n"
  | some reason => "Error: " ++ c.what ++ "\n\nCaused by:\n    " ++ reason ++ "\n"

/-- A part of the tour: it may break off, it writes a log, and it works on a hub. -/
abbrev Tour := ExceptT Complaint (StateT (List String) (StateM Hub))

/-- Writes a line. -/
def say (line : String) : Tour Unit := modify (line :: ·)

/-- Works on the hub. -/
def onHub {α : Type} (work : StateM Hub α) : Tour α := ExceptT.lift (StateT.lift work)

/-! ## Lines -/

/-- A list in brackets. -/
def listed (l : List String) : String := "[" ++ ", ".intercalate l ++ "]"

/-- A text in quotes; the texts of the tour need no escapes. -/
def quoted (s : String) : String := "\"" ++ s ++ "\""

/-- An identifier with its parts spelled out. -/
def spelledOut : RecordId → String
  | .concrete id =>
    "Concrete \x7b millis: " ++ Decimal.text id.millis ++ ", sequence: "
      ++ Decimal.text id.sequence ++ " \x7d"
  | .autoSequence millis => "AutoSequence(" ++ Decimal.text millis ++ ")"
  | .autoGenerate => "AutoGenerate"

/-- The fields of a body. -/
def fields (body : Body) : String :=
  let field := fun (p : Bytes × Bytes) => "b" ++ quoted p.1.text ++ ": b" ++ quoted p.2.text
  "\x7b" ++ ", ".intercalate (body.toList.map field) ++ "\x7d"

/-- The settings of a run. -/
def settingsLine (s : Settings) : String :=
  "starting stream adapter demo config=AdapterConfig \x7b dedicated_channels: "
    ++ Decimal.text s.dedicatedChannels ++ ", dedicated_acquire_timeout: "
    ++ Timespan.text s.acquireTimeout ++ ", max_concurrent_lengths: "
    ++ Decimal.text s.concurrentLengths ++ " \x7d"

/-! ## The tour -/

/-- The stream of the tour. -/
def orders : Bytes := .ofText "orders"

/-- The body of an order. -/
def order (item : String) (quantity : Nat) : Body :=
  .ofList [(.ofText "item", .ofText item), (.ofText "quantity", .ofText (toString quantity))]

/-- The results of some responses, unless one of them failed. -/
def results {C R : Type} : List (Response C R) → Tour (List R)
  | [] => return []
  | response :: rest =>
    match response.outcome with
    | .ok r => return r :: (← results rest)
    | .error cause =>
      throw ⟨FailedCommand.message ⟨response.command, cause⟩, some cause.message⟩

/-- Answers commands in strict order. -/
def answer {C R : Type} (commands : List C) (plan : C → Except Failure (Plan R)) :
    Tour (List R) := do
  results (← onHub (Ordered.responses Hub.provider (commands[·]?) plan
    (commands.length + 1) .start))

/-- The records of the answer to one command. -/
def records {C : Type} (c : C) (query : C → Except Failure (Route × Query)) :
    Tour (List Record) := do
  match ← results [Lazily.respond Hub.provider query c] with
  | [stream] =>
    let (items, _) ← onHub do
      stream.drain Hub.provider ((← get).patience 1)
    items.mapM fun item =>
      match item with
      | .ok record => return record
      | .error cause => throw ⟨cause.message, none⟩
  | _ => return []

/-- The whole tour. -/
def tour : Tour Unit := do
  let added ← answer
    [⟨some orders, .autoGenerate, some (order "apples" 3)⟩,
      ⟨some orders, .autoGenerate, some (order "pears" 1)⟩,
      ⟨some orders, .autoGenerate, some (order "plums" 12)⟩] AddCommand.plan
  say ("records added ids=" ++ listed (added.map spelledOut))
  let whole : RangeCommand := ⟨some orders, some ⟨.unbounded, .unbounded⟩, some ⟨0, none⟩⟩
  for record in ← records whole (RangeCommand.routed .ascending) do
    say ("range id=" ++ record.id.text ++ " body=" ++ fields record.body)
  let created ← answer
    [⟨some orders, some "billing", .create (.after .least)⟩] GroupCommand.plan
  say ("consumer group created status=" ++ listed (created.map quoted))
  let read : ReadCommand :=
    ⟨[(orders, .lastConsumed)], some ⟨some 100, some 2, false⟩, some ⟨"billing", "worker-1"⟩⟩
  let delivered ← records read ReadCommand.query
  for record in delivered do
    say ("delivered to worker-1 id=" ++ record.id.text)
  let acknowledged ← answer
    [⟨some orders, some "billing", delivered.map (·.id)⟩] AcknowledgeCommand.plan
  say ("records acknowledged count=" ++ listed (acknowledged.map toString))
  let window := (← onHub get).settings.concurrentLengths.toNat
  let asked : List LengthCommand := [⟨some orders⟩]
  let lengths ← results (← onHub (Lengths.responses Hub.provider window (asked[·]?) 2 .start))
  say ("stream length length=" ++ listed (lengths.map toString))
  let hub ← onHub get
  say ("done shared_calls=" ++ toString hub.sharedCalls ++ " dedicated_calls="
    ++ toString hub.dedicatedCalls ++ " dedicated_acquired=" ++ toString hub.pool.acquired)

/-- Runs the program: reads its arguments, without its name, and makes the tour. -/
def run (arguments : List String) (wallClock : UInt64) : Exit :=
  match Settings.ofArguments ("" :: arguments) with
  | .error mistake => ⟨1, [], Complaint.text ⟨"invalid command line", some mistake.message⟩⟩
  | .ok settings =>
    let ((outcome, log), _) :=
      (tour.run.run [settingsLine settings]).run (.start settings wallClock)
    match outcome with
    | .ok () => ⟨0, log.reverse, ""⟩
    | .error complaint => ⟨1, log.reverse, complaint.text⟩

end Demo

end StreamBroker
