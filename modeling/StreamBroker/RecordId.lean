import StreamBroker.EntryId
set_option autoImplicit false

/-!
# Record identifiers as clients write them

A client names a record by its full identifier, or leaves the choice open: `millis-*` asks for the
next sequence number of a millisecond and `*` for any new identifier.  Full identifiers come first
in the order of clients' identifiers, then the open ones by millisecond, and `*` comes last.

Main statement: `parse_text`, what is printed parses back.
-/

namespace StreamBroker

/-- An identifier in a client's hands. -/
inductive RecordId where
  /-- The identifier of one entry. -/
  | concrete (id : EntryId)
  /-- The next sequence number of a millisecond. -/
  | autoSequence (millis : UInt64)
  /-- Any new identifier. -/
  | autoGenerate
  deriving DecidableEq, Repr

/-- Why a text is no record identifier. -/
inductive IdFault where
  /-- It does not have exactly two parts. -/
  | format
  /-- The part before the separator is no number. -/
  | timestamp
  /-- The part behind the separator is neither a number nor `*`. -/
  | sequence
  /-- A fault that a channel reported in words of its own. -/
  | reported (text : String)
  deriving DecidableEq, Repr

/-- The wording of a fault. -/
def IdFault.message : IdFault → String
  | .format => "Invalid stream ID format"
  | .timestamp => "Timestamp specified must be greater than 0"
  | .sequence => "Sequence specified must be greater than 0"
  | .reported text => text

namespace RecordId

/-- The identifier of a record whose client leaves the choice open. -/
instance : Inhabited RecordId := ⟨autoGenerate⟩

/-- The identifier below every entry. -/
def least : RecordId := concrete .least

/-- The identifier that no entry is above. -/
def greatest : RecordId := concrete .greatest

/-- The millisecond, where the client fixed it. -/
def timestamp? : RecordId → Option UInt64
  | concrete id => some id.millis
  | autoSequence millis => some millis
  | autoGenerate => none

/-- The sequence number, where the client fixed it. -/
def sequence? : RecordId → Option UInt64
  | concrete id => some id.sequence
  | _ => none

/-- Whether the client fixed the whole identifier. -/
def isConcrete : RecordId → Bool
  | concrete _ => true
  | _ => false

/-- Whether any new identifier will do. -/
def isAutoGenerate (r : RecordId) : Bool := r == autoGenerate

/-- Full identifiers, then those open within a millisecond, then `*`. -/
instance : Ord RecordId where
  compare
    | concrete a, concrete b => compare a b
    | concrete _, _ => .lt
    | autoSequence _, concrete _ => .gt
    | autoSequence m, autoSequence n => compare m n
    | autoSequence _, autoGenerate => .lt
    | autoGenerate, autoGenerate => .eq
    | autoGenerate, _ => .gt

/-- A list of identifiers in their order; equal ones stay as they were. -/
def sort (ids : List RecordId) : List RecordId := ids.mergeSort fun a b => (compare a b).isLE

/-! ## Text -/

/-- The one spelling that is printed. -/
def toChars : RecordId → List Char
  | concrete id => id.toChars
  | autoSequence millis => Decimal.write millis ++ ['-', '*']
  | autoGenerate => ['*']

/-- The printed form of an identifier. -/
def text (r : RecordId) : String := String.ofList r.toChars

/-- Reads what stands behind the separator. -/
def ofParts (millis : UInt64) (behind : List Char) : Except IdFault RecordId :=
  if behind = ['*'] then .ok (autoSequence millis)
  else match Decimal.read? behind with
    | some sequence => .ok (concrete ⟨millis, sequence⟩)
    | none => .error .sequence

/-- Reads a client's identifier; of two faults the one that stands first is told. -/
def ofChars (cs : List Char) : Except IdFault RecordId :=
  if cs = ['*'] then .ok autoGenerate
  else match Text.cut '-' cs with
    | none => .error .format
    | some (before, behind) =>
      if '-' ∈ behind then .error .format
      else match Decimal.read? before with
        | some millis => ofParts millis behind
        | none => .error .timestamp

/-- Reads a client's identifier from its text. -/
def parse (s : String) : Except IdFault RecordId := ofChars s.toList

theorem ofParts_write (millis sequence : UInt64) :
    ofParts millis (Decimal.write sequence) = .ok (concrete ⟨millis, sequence⟩) := by
  have hstar : Decimal.write sequence ≠ ['*'] := fun h =>
    absurd (h ▸ List.mem_singleton.2 rfl) (Decimal.not_mem_write (by decide : '*'.isDigit = false))
  simp [ofParts, hstar]

/-- What is printed parses back. -/
@[simp] theorem ofChars_toChars (r : RecordId) : ofChars r.toChars = .ok r := by
  cases r with
  | concrete id =>
    have hdash : '-' ∉ Decimal.write id.sequence := Decimal.not_mem_write (by decide)
    simp [toChars, ofChars, id.toChars_ne_singleton, id.cut_toChars, hdash, ofParts_write]
  | autoSequence millis =>
    have hcut : Text.cut '-' (Decimal.write millis ++ ['-', '*'])
        = some (Decimal.write millis, ['*']) :=
      Text.cut_append _ (Decimal.not_mem_write (by decide))
    have hne : Decimal.write millis ++ ['-', '*'] ≠ ['*'] := fun h => by
      have := congrArg List.length h
      simp at this
    simp [toChars, ofChars, hcut, hne, ofParts]
  | autoGenerate => rfl

@[simp] theorem parse_text (r : RecordId) : parse r.text = .ok r := by
  simp [parse, text]

/-- Different identifiers print differently. -/
theorem text_injective {a b : RecordId} (h : a.text = b.text) : a = b := by
  have := congrArg parse h
  simpa using this

end RecordId

end StreamBroker
