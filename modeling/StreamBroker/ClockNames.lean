import StreamBroker.EntryId
import StreamBroker.Text.Utf8
set_option autoImplicit false

/-!
# Names for identifiers that the clock chose

An identifier taken from the clock differs from run to run.  So that the transcript of a session
does not, such identifiers are called `@1`, `@2` and so on, counted under each key in the order in
which they were given away.  A name stands for its identifier wherever that key is concerned.
-/

namespace StreamBroker

/-- The identifiers that the clock chose, with their keys, in order. -/
structure ClockNames where
  given : List (Bytes × EntryId)
  deriving DecidableEq, Repr

namespace ClockNames

/-- No names yet. -/
def none : ClockNames := ⟨[]⟩

/-- Names one more identifier under a key. -/
def add (names : ClockNames) (key : Bytes) (id : EntryId) : ClockNames :=
  ⟨names.given ++ [(key, id)]⟩

/-- The named identifiers under a key, in order. -/
def under (names : ClockNames) (key : Bytes) : List String :=
  (names.given.filter fun p => p.1 == key).map fun p => p.2.text

/-- The name at a position. -/
def nameAt (position : Nat) : String := "@" ++ toString (position + 1)

/-- The name of an identifier under a key; without one it stays as it is. -/
def nameOf (names : ClockNames) (key : Bytes) (id : String) : String :=
  match (names.under key).idxOf? id with
  | some position => nameAt position
  | Option.none => id

/-- What a text stands for under a key; what is no name stands for itself. -/
def resolve (names : ClockNames) (key : Bytes) (text : String) : String :=
  let ids := names.under key
  match (List.range ids.length).find? fun position => nameAt position == text with
  | some position => ids.getD position text
  | Option.none => text

end ClockNames

end StreamBroker
