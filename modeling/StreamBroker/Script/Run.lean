import StreamBroker.Script.Recorder
set_option autoImplicit false

/-!
# Running a script

A script is one operation of the front end over a recording provider: the commands, the prepared
replies, how many responses to take, and when and how far to read the record streams among them.
-/

namespace StreamBroker

/-- When record streams are read. -/
inductive Consumption where
  /-- Each before the next response is taken. -/
  | each
  /-- All behind the last response, in order. -/
  | after
  /-- All behind the last response, the last one first. -/
  | reverse
  /-- Never. -/
  | never
  deriving DecidableEq, Repr

/-- What a script is about. -/
inductive Subject where
  | operate (operation : Operation)
  | read (commands : List ReadCommand)
  deriving Repr

/-- An operation or reads, with all that decides how they go. -/
structure Script where
  subject : Subject
  replies : List PreparedReply
  leases : List (Option Failure)
  /-- How many length lookups may be under way. -/
  window : Nat
  /-- How many responses are taken; all of them by default. -/
  stopAfter : Option Nat
  consumption : Consumption
  /-- How many records of each stream are taken; all of them by default. -/
  take : Option Nat
  deriving Repr

namespace Script

open Recorder

/-- Takes responses, at most `limit`, and logs each, and the end if it is reached. -/
def takeResponses {S C R : Type} (next : S → StateM Recorder (Option (Response C R) × S))
    (log : Response C R → StateM Recorder Unit) : Nat → S → StateM Recorder Unit
  | 0, _ => return ()
  | limit + 1, state => do
    match ← next state with
    | (none, _) => note .ended
    | (some response, state) => do
      log response
      takeResponses next log limit state

/-- How many responses are asked for of an operation on `n` commands.  Every command has at most one
response, so one more than there are commands is enough to reach the end. -/
def limit (s : Script) (n : Nat) : Nat := s.stopAfter.getD (n + 1)

/-- Runs an operation that answers its commands in strict order. -/
def runOrdered {C R : Type} (s : Script) (commands : List C)
    (plan : C → Except Failure (Plan R)) (input : C → Command) (output : R → Output) :
    StateM Recorder Unit :=
  takeResponses (Ordered.next provider (commands[·]?) plan)
    (fun response => note (.responded (response.answer input output)))
    (s.limit commands.length) .start

/-- Reads a record stream: as many records as are taken, and the end if there are fewer. -/
def consume (response : Nat) : Nat → Option Nat → RecordStream provider → StateM Recorder Unit
  | 0, _, _ => return ()
  | _ + 1, some 0, stream => do
    stream.drop
    note (.recordsDropped response)
  | patience + 1, left, stream => do
    match ← stream.pull with
    | (.item item, stream) => do
      note (.record response item)
      consume response patience (left.map (· - 1)) stream
    | (.finished, _) => note (.recordsEnd response)
    | (.waiting, _) => return ()

/-- More pulls than any stream of prepared messages can take. -/
def patience (s : Script) : Nat :=
  (s.replies.flatMap fun reply => reply.reply.items).length + 3

/-- Takes responses with record streams, at most `limit`, and gives back those whose streams are
still to be read. -/
def takeStreams {C : Type} (s : Script) (commands : List C)
    (query : C → Except Failure (Route × Query)) (input : C → Command) :
    Nat → Nat → Nat → StateM Recorder (List (Nat × RecordStream provider))
  | 0, _, _ => return []
  | limit + 1, position, pulled => do
    match ← Lazily.next provider (commands[·]?) query pulled with
    | (none, _) =>
      note .ended
      return []
    | (some response, pulled) => do
      note (.responded ⟨input response.command, response.outcome.map fun _ => none⟩)
      match response.outcome, s.consumption with
      | .ok stream, .each => do
        consume position s.patience s.take stream
        takeStreams s commands query input limit (position + 1) pulled
      | .ok stream, _ =>
        return (position, stream) ::
          (← takeStreams s commands query input limit (position + 1) pulled)
      | .error _, _ => takeStreams s commands query input limit (position + 1) pulled

/-- Runs an operation that answers with record streams. -/
def runStreams {C : Type} (s : Script) (commands : List C)
    (query : C → Except Failure (Route × Query)) (input : C → Command) :
    StateM Recorder Unit := do
  let left ← takeStreams s commands query input (s.limit commands.length) 0 0
  match s.consumption with
  | .each | .never => return ()
  | .after => left.forM fun p => consume p.1 s.patience s.take p.2
  | .reverse => left.reverse.forM fun p => consume p.1 s.patience s.take p.2

/-- Runs an operation. -/
def runOperation (s : Script) : Operation → StateM Recorder Unit
  | .add commands => s.runOrdered commands AddCommand.plan .add .recordId
  | .acknowledge commands => s.runOrdered commands AcknowledgeCommand.plan .acknowledge .count
  | .delete commands => s.runOrdered commands DeleteCommand.plan .delete .count
  | .group commands => s.runOrdered commands GroupCommand.plan .group .status
  | .trim commands => s.runOrdered commands TrimCommand.plan .trim .count
  | .length commands =>
    takeResponses (Lengths.next provider s.window (commands[·]?))
      (fun response => note (.responded (response.answer .length .count)))
      (s.limit commands.length) .start
  | .range direction commands => s.runStreams commands (RangeCommand.routed direction) .range

/-- Runs what a script is about. -/
def runSubject (s : Script) : StateM Recorder Unit :=
  match s.subject with
  | .operate operation => s.runOperation operation
  | .read commands => s.runStreams commands ReadCommand.query .read

/-- What happens when a script is run. -/
def run (s : Script) : List (Nat × Event) :=
  (s.runSubject.run (.start s.replies s.leases)).2.events

end Script

end StreamBroker
