import StreamBroker.Front.Provider
set_option autoImplicit false

/-!
# Length lookups in a window

Lengths may be looked up several at a time.  When a response is asked for, commands are pulled until
the window is full; then the first of them is started, and the others behind it too unless the
first has its reply at once.  Responses are given in the order of the commands, whenever their
replies arrive, and no failure ends the operation.
-/

namespace StreamBroker

/-- A command in the window. -/
inductive Slot where
  /-- Pulled and not yet started. -/
  | queued (command : LengthCommand)
  /-- Started; its outcome is there from `arrival` on. -/
  | started (command : LengthCommand) (arrival : Nat) (outcome : Except Failure Nat)
  deriving Repr

/-- How far the lookups have come. -/
structure Lengths where
  /-- How many commands were pulled. -/
  pulled : Nat
  /-- Whether the source had no command left. -/
  isDry : Bool
  /-- The commands pulled and not answered, in order. -/
  slots : List Slot
  deriving Repr

/-- A started command. -/
structure Flight where
  command : LengthCommand
  arrival : Nat
  outcome : Except Failure Nat
  deriving Repr

namespace Lengths

variable {σ : Type}

/-- Before the first command. -/
def start : Lengths := ⟨0, false, []⟩

/-- Pulls commands, at most `n`, until the source is dry. -/
def fill (p : Provider σ) (source : Nat → Option LengthCommand) :
    Nat → Lengths → StateM σ Lengths
  | 0, w => return w
  | n + 1, w =>
    if w.isDry then return w
    else match source w.pulled with
      | none => return { w with isDry := true }
      | some c => do
        p.onPull w.pulled
        fill p source n { w with pulled := w.pulled + 1, slots := w.slots ++ [.queued c] }

/-- Starts a command that is not started. -/
def launch (p : Provider σ) : Slot → StateM σ Flight
  | .started c arrival outcome => return ⟨c, arrival, outcome⟩
  | .queued c => do
    let now ← p.now
    match c.plan with
    | .error failure => return ⟨c, now, .error failure⟩
    | .ok plan =>
      let (delay, reply) ← p.dispatch plan.call
      return ⟨c, now + delay, reply >>= plan.conclude⟩

/-- Starts the commands that are not started, in order. -/
def launchAll (p : Provider σ) : List Slot → StateM σ (List Slot)
  | [] => return []
  | slot :: rest => do
    let flight ← launch p slot
    return .started flight.command flight.arrival flight.outcome :: (← launchAll p rest)

/-- The next response, if there is one, with at most `window` commands pulled and not answered. -/
def next (p : Provider σ) (window : Nat) (source : Nat → Option LengthCommand) (w : Lengths) :
    StateM σ (Option (Response LengthCommand Nat) × Lengths) := do
  let w ← fill p source (max 1 window - w.slots.length) w
  match w.slots with
  | [] => return (none, w)
  | slot :: rest =>
    let flight ← launch p slot
    let now ← p.now
    let response := ⟨flight.command, flight.outcome⟩
    if flight.arrival ≤ now then return (some response, { w with slots := rest })
    else
      let rest ← launchAll p rest
      p.elapse (flight.arrival - now)
      return (some response, { w with slots := rest })

/-- The responses, at most `limit` of them. -/
def responses (p : Provider σ) (window : Nat) (source : Nat → Option LengthCommand) :
    Nat → Lengths → StateM σ (List (Response LengthCommand Nat))
  | 0, _ => return []
  | limit + 1, w => do
    match ← next p window source w with
    | (none, _) => return []
    | (some response, w) => return response :: (← responses p window source limit w)

end Lengths

end StreamBroker
