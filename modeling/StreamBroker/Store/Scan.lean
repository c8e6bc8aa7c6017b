import StreamBroker.Store.Entries
set_option autoImplicit false

/-!
# Paged range scans

A scan goes through the entries of a stream between two bounds, upwards or downwards, a page at a
time.  A page is taken from the store when the one before it is used up; between two pages the store
may change.  `Scan.load` is the only step that looks at the store, `Scan.advance` works on the page
at hand, and `Scan.next` alternates them until there is a message or the end.
-/

namespace StreamBroker

/-- One side of a range. -/
inductive Bound (α : Type) where
  | unbounded
  | including (value : α)
  | excluding (value : α)
  deriving DecidableEq, Repr

namespace Bound

/-- Whether an identifier is inside a lower bound. -/
def admitsFrom (lower : Bound EntryId) (id : EntryId) : Bool :=
  match lower with
  | unbounded => true
  | including least => least ≤ id
  | excluding least => least < id

/-- Whether an identifier is inside an upper bound. -/
def admitsUpTo (upper : Bound EntryId) (id : EntryId) : Bool :=
  match upper with
  | unbounded => true
  | including greatest => id ≤ greatest
  | excluding greatest => id < greatest

/-- Reads a bound; a bare millisecond gets the sequence number `missing`. -/
def read (missing : UInt64) : Bound String → Except Refusal (Bound EntryId)
  | unbounded => .ok unbounded
  | including s =>
    match EntryId.ofText? missing s with
    | some id => .ok (including id)
    | none => .error .invalidId
  | excluding s =>
    match EntryId.ofText? missing s with
    | some id => .ok (excluding id)
    | none => .error .invalidId

end Bound

/-- A range of identifiers, as text. -/
structure Range where
  lower : Bound String
  upper : Bound String
  deriving DecidableEq, Repr

/-- How many entries of a range to pass over and how many to give. -/
structure Window where
  offset : UInt64
  count : UInt64
  deriving DecidableEq, Repr

/-- The direction of a scan. -/
inductive Direction where
  | ascending
  | descending
  deriving DecidableEq, Repr

/-- A scan under way. -/
structure Scan where
  key : Bytes
  lower : Bound EntryId
  upper : Bound EntryId
  direction : Direction
  /-- How many entries are still to be passed over. -/
  skip : Nat
  /-- How many entries may still be given; none means any number. -/
  remaining : Option Nat
  /-- The last entry of the last page. -/
  cursor : Option EntryId
  /-- What is left of the page at hand. -/
  page : List (EntryId × Body)
  /-- Whether another page may follow. -/
  more : Bool
  deriving DecidableEq, Repr

namespace Scan

/-- Entries in a full page. -/
def pageSize : Nat := 64

/-- Starts a scan, if its bounds read. -/
def start (key : Bytes) (range : Range) (window : Option Window) (direction : Direction) :
    Except Refusal Scan :=
  match range.lower.read 0 with
  | .error refusal => .error refusal
  | .ok lower =>
    match range.upper.read (UInt64.ofNat (UInt64.size - 1)) with
    | .error refusal => .error refusal
    | .ok upper => .ok
      { key, lower, upper, direction
        skip := (window.map fun w => w.offset.toNat).getD 0
        remaining := window.map fun w => w.count.toNat
        cursor := none
        page := []
        more := true }

/-- The entries of a stream beyond a cursor, in the direction of a scan. -/
def beyond (entries : SortedMap EntryId Body) (direction : Direction) (cursor : Option EntryId) :
    List (EntryId × Body) :=
  match direction, cursor with
  | .ascending, none => entries.toList
  | .ascending, some id => entries.above id
  | .descending, none => entries.toList.reverse
  | .descending, some id => (entries.below id).reverse

/-- Whether an identifier is inside the bound at which a scan begins. -/
def admitsNear (sc : Scan) (id : EntryId) : Bool :=
  match sc.direction with
  | .ascending => sc.lower.admitsFrom id
  | .descending => sc.upper.admitsUpTo id

/-- Whether an identifier is inside the bound at which a scan ends. -/
def admitsFar (sc : Scan) (id : EntryId) : Bool :=
  match sc.direction with
  | .ascending => sc.upper.admitsUpTo id
  | .descending => sc.lower.admitsFrom id

/-- The next page of a scan: the entries beyond its cursor from the first that is inside the near
bound to the last that is inside the far one, as many as a page holds. -/
def pageOf (sc : Scan) (store : Store) : List (EntryId × Body) :=
  match store.get? sc.key with
  | none => []
  | some stream =>
    let entries := (beyond stream.entries sc.direction sc.cursor).dropWhile fun p =>
      !sc.admitsNear p.1
    (entries.takeWhile fun p => sc.admitsFar p.1).take pageSize

/-- Takes the next page from the store. -/
def load (sc : Scan) (store : Store) : Scan :=
  let page := sc.pageOf store
  { sc with
    page
    more := page.length == pageSize
    cursor := (page.getLast?.map (·.1)).or sc.cursor }

/-- What a scan does next without looking at the store. -/
inductive Advance where
  /-- It gives a message. -/
  | message (m : Message) (rest : Scan)
  /-- It needs another page. -/
  | needsPage (rest : Scan)
  /-- It is over. -/
  | finished
  deriving DecidableEq, Repr

/-- Passes over entries of the page at hand, then gives the first that is left. -/
def advance (sc : Scan) : Advance :=
  if sc.remaining = some 0 then .finished
  else
    let skip := sc.skip - sc.page.length
    match sc.page.drop sc.skip with
    | (id, body) :: page =>
      .message (.ofEntry sc.key id body)
        { sc with page, skip, remaining := sc.remaining.map (· - 1) }
    | [] => if sc.more then .needsPage { sc with page := [], skip } else .finished

/-- The scan that is over. -/
def ended (sc : Scan) : Scan := { sc with page := [], more := false }

/-- Advances over at most `pages` further pages. -/
def nextWithin (store : Store) : Nat → Scan → Option Message × Scan
  | 0, sc => (none, sc.ended)
  | pages + 1, sc =>
    match sc.advance with
    | .message m rest => (some m, rest)
    | .needsPage rest => nextWithin store pages (rest.load store)
    | .finished => (none, sc.ended)

/-- The next message of a scan, if it is not over.  Every page but the last is full, so there are
fewer pages than entries and one. -/
def next (sc : Scan) (store : Store) : Option Message × Scan :=
  nextWithin store (store.length sc.key + 2) sc

end Scan

end StreamBroker
