import StreamBroker.Front.Lengths
import StreamBroker.Front.Ordered
import StreamBroker.Front.Records
set_option autoImplicit false

/-!
# Operations of the front end

The operations of the front end that never wait, each with its commands, and their answers in a form
that is the same for all of them.
-/

namespace StreamBroker

/-- An operation that never waits, and its commands. -/
inductive Operation where
  | add (commands : List AddCommand)
  | acknowledge (commands : List AcknowledgeCommand)
  | delete (commands : List DeleteCommand)
  | group (commands : List GroupCommand)
  | trim (commands : List TrimCommand)
  | length (commands : List LengthCommand)
  | range (direction : Direction) (commands : List RangeCommand)
  deriving Repr

/-- The answer to a command; scans and reads have no output of their own. -/
structure Answer where
  input : Command
  outcome : Except Failure (Option Output)
  deriving Repr

/-- The answer to a scan or a read with all its records. -/
structure RecordsAnswer where
  input : Command
  outcome : Except Failure (List (Except Failure Record))
  deriving Repr

/-- A response with one output as an answer. -/
def Response.answer {C R : Type} (r : Response C R) (input : C → Command) (output : R → Output) :
    Answer :=
  ⟨input r.command, r.outcome.map fun value => some (output value)⟩

end StreamBroker
