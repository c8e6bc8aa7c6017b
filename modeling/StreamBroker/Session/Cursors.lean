import StreamBroker.Session.Basic
set_option autoImplicit false

/-!
# The cursors of a session

A cursor is a record stream or a scan that is kept under a name.  It gets on only while it is
pulled.
-/

namespace StreamBroker.Session

/-- The message of a record. -/
def messageOf (r : Record) : Message := ⟨r.stream, r.id.text, r.body⟩

/-- Pulls from a cursor. -/
def pullHandle : Handle → StateM Hub (Pull Message × Handle)
  | .records stream => do
    match ← stream.pull with
    | (.item item, stream) => return (.item (item.map messageOf), .records stream)
    | (.waiting, stream) => return (.waiting, .records stream)
    | (.finished, stream) => return (.finished, .records stream)
  | .messages feed => do
    let (pulled, feed) ← Hub.pull feed
    return (pulled, .messages feed)

/-- Pulls from a cursor until it waits or is over, at most `count` times. -/
def pullItems : Nat → Handle → StateM Hub (List Item × Handle)
  | 0, handle => return ([], handle)
  | count + 1, handle => do
    match ← pullHandle handle with
    | (.item item, handle) =>
      let (items, handle) ← pullItems count handle
      return (.message item :: items, handle)
    | (.waiting, handle) => return ([.waiting], handle)
    | (.finished, handle) => return ([.ended], handle)

/-- Gives up a cursor. -/
def dropHandle : Handle → StateM Hub Unit
  | .records stream => stream.drop
  | .messages feed => Hub.close feed

/-- Puts a cursor back under its name. -/
def putCursor (name : String) (handle : Handle) : StateM Session Unit :=
  modify fun s => { s with cursors := (name, handle) :: s.cursors.filter (·.1 != name) }

/-- Gives up the cursor of a name, if there is one, and tells whether there was. -/
def dropCursor (name : String) : StateM Session Bool := do
  let s ← get
  match s.cursors.lookup name with
  | none => return false
  | some handle =>
    set { s with cursors := s.cursors.filter (·.1 != name) }
    onHub (dropHandle handle)
    return true

/-- Keeps a cursor under a name, giving up the one that had it. -/
def keep (name : String) (handle : Handle) : StateM Session Unit := do
  let _ ← dropCursor name
  putCursor name handle

end StreamBroker.Session
