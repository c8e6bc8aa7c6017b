import StreamBroker.SortedMap
import StreamBroker.Text.Utf8
set_option autoImplicit false

/-!
# The registry of waiting readers

A reader that waits has a signal, registers it under every key it waits for, and listens.  Raising
a signal that is raised already changes nothing: one is enough to wake the reader, and readers are
woken in the order in which their signals were raised.  A reader that gave up no longer listens; its
registrations stay until the next registration or until the next notification under their key.

Signals are numbered in the order in which they were made, so the registrations under one key, which
are kept in registration order, are ones of readers in the order in which they began to wait.
-/

namespace StreamBroker

/-- The number of a signal. -/
abbrev SignalId := Nat

/-- The signals ever made, and which are registered under which key. -/
structure Registry where
  /-- For each signal, whether its reader still listens. -/
  listening : List Bool
  /-- The signals that were raised and not heard yet, in the order in which they were raised. -/
  raised : List SignalId
  waiting : SortedMap Bytes (List SignalId)
  deriving DecidableEq, Repr

/-- What a reader finds when it looks at its signal. -/
inductive Heard where
  | woken
  | nothing
  | closed
  deriving DecidableEq, Repr

namespace Registry

/-- The registry without signals. -/
def empty : Registry := ⟨[], [], ∅⟩

instance : EmptyCollection Registry := ⟨empty⟩

/-- Makes a signal that is listened to. -/
def fresh (r : Registry) : SignalId × Registry :=
  (r.listening.length, { r with listening := r.listening ++ [true] })

/-- Whether somebody listens to a signal. -/
def isListening (r : Registry) (id : SignalId) : Bool := r.listening.getD id false

/-- Whether a signal is raised. -/
def isRaised (r : Registry) (id : SignalId) : Bool := r.raised.contains id

/-- Raises a signal. -/
def raise (r : Registry) (id : SignalId) : Registry :=
  if r.isRaised id then r else { r with raised := r.raised ++ [id] }

/-- Lowers a signal. -/
def lower (r : Registry) (id : SignalId) : Registry :=
  { r with raised := r.raised.filter (· != id) }

/-- Stops listening to a signal. -/
def close (r : Registry) (id : SignalId) : Registry :=
  { r.lower id with listening := r.listening.set id false }

/-- Looks at a signal and lowers it. -/
def listen (r : Registry) (id : SignalId) : Heard × Registry :=
  if r.isListening id then
    if r.isRaised id then (.woken, r.lower id) else (.nothing, r)
  else (.closed, r)

/-- Replaces the registrations under a key; a key without registrations is not kept. -/
def setWaiting (r : Registry) (key : Bytes) (ids : List SignalId) : Registry :=
  { r with waiting := if ids.isEmpty then r.waiting.erase key else r.waiting.insert key ids }

/-- The registrations under a key, in registration order. -/
def registered (r : Registry) (key : Bytes) : List SignalId := (r.waiting.get? key).getD []

/-- Drops the registrations nobody listens to any more, under every key. -/
def prune (r : Registry) : Registry :=
  { r with
    waiting := (r.waiting.mapValues fun ids => ids.filter r.isListening).filter
      fun _ ids => !ids.isEmpty }

/-- Registers a signal under a key, pruning first. -/
def register (r : Registry) (key : Bytes) (id : SignalId) : Registry :=
  let r := r.prune
  r.setWaiting key (r.registered key ++ [id])

/-- Drops the registrations of a signal under one key. -/
def withdrawFrom (r : Registry) (id : SignalId) (key : Bytes) : Registry :=
  match r.waiting.get? key with
  | none => r
  | some ids => r.setWaiting key (ids.filter (· != id))

/-- Drops the registrations of a signal under some keys, in turn. -/
def withdraw (r : Registry) (keys : List Bytes) (id : SignalId) : Registry :=
  keys.foldl (fun r key => r.withdrawFrom id key) r

/-- Raises every signal registered under a key that somebody listens to, and drops the others. -/
def notify (r : Registry) (key : Bytes) : Registry :=
  match r.waiting.get? key with
  | none => r
  | some ids =>
    let live := ids.filter r.isListening
    (live.foldl raise r).setWaiting key live

/-- The number of registrations under a key that somebody listens to. -/
def count (r : Registry) (key : Bytes) : Nat := (r.registered key).countP r.isListening

/-- The number of registrations under every key that has some. -/
def totals (r : Registry) : List (Bytes × Nat) := r.waiting.toList.map fun p => (p.1, p.2.length)

end Registry

end StreamBroker
