set_option autoImplicit false

/-!
# Bytes and text

Keys, fields, values and names are byte strings.  Where one has to be shown inside a message it is
decoded as UTF-8 with one replacement character for each maximal part that is no character: a lead
byte together with the continuation bytes that fit it, cut where the next byte does not.
-/

namespace StreamBroker

/-- A string of bytes; two are ordered by their first differing byte. -/
abbrev Bytes := List UInt8

namespace Bytes

/-- The UTF-8 bytes of a text. -/
def ofText (s : String) : Bytes := s.toUTF8.toList

/-- A character begun and not finished: continuation bytes still owed, the range in which the next
one has to lie, and the bits collected so far. -/
structure Partial where
  owed : Nat
  least : UInt8
  greatest : UInt8
  bits : Nat
  deriving DecidableEq, Repr

/-- Stands for a part that is no character. -/
def replacement : Char := '\uFFFD'

/-- Takes a byte between characters: what is complete, and what is begun. -/
def lead (b : UInt8) : List Char × Option Partial :=
  let n := b.toNat
  if n < 0x80 then ([Char.ofNat n], none)
  else if n < 0xC2 then ([replacement], none)
  else if n < 0xE0 then ([], some ⟨1, 0x80, 0xBF, n - 0xC0⟩)
  else if n = 0xE0 then ([], some ⟨2, 0xA0, 0xBF, 0⟩)
  else if n = 0xED then ([], some ⟨2, 0x80, 0x9F, n - 0xE0⟩)
  else if n < 0xF0 then ([], some ⟨2, 0x80, 0xBF, n - 0xE0⟩)
  else if n = 0xF0 then ([], some ⟨3, 0x90, 0xBF, 0⟩)
  else if n < 0xF4 then ([], some ⟨3, 0x80, 0xBF, n - 0xF0⟩)
  else if n = 0xF4 then ([], some ⟨3, 0x80, 0x8F, n - 0xF0⟩)
  else ([replacement], none)

/-- Takes a byte inside a character; one that does not fit ends the part and is taken anew. -/
def follow (p : Partial) (b : UInt8) : List Char × Option Partial :=
  if p.least ≤ b ∧ b ≤ p.greatest then
    let bits := p.bits * 64 + (b.toNat - 0x80)
    if p.owed ≤ 1 then ([Char.ofNat bits], none)
    else ([], some ⟨p.owed - 1, 0x80, 0xBF, bits⟩)
  else
    let (cs, next) := lead b
    (replacement :: cs, next)

/-- Decodes the rest of a byte string behind a possibly unfinished character. -/
def decodeFrom : Option Partial → Bytes → List Char
  | none, [] => []
  | some _, [] => [replacement]
  | none, b :: rest => (lead b).1 ++ decodeFrom (lead b).2 rest
  | some p, b :: rest => (follow p b).1 ++ decodeFrom (follow p b).2 rest

/-- A byte string as text, each maximal part that is no character replaced. -/
def text (b : Bytes) : String := String.ofList (decodeFrom none b)

end Bytes

end StreamBroker
