import StreamBroker.Front.Provider
set_option autoImplicit false

/-!
# Commands in strict order

Commands that change a stream are answered one after the other.  The next command is pulled only
when the next response is asked for, so nothing runs ahead of its reader.  A command that is itself
at fault is answered with its failure and the next one is tried; any other failure is the last
response.
-/

namespace StreamBroker

/-- How far an ordered operation has come. -/
structure Ordered where
  /-- How many commands were pulled. -/
  pulled : Nat
  /-- Whether the last response was given. -/
  isOver : Bool
  deriving DecidableEq, Repr

namespace Ordered

variable {σ C R : Type}

/-- Before the first command. -/
def start : Ordered := ⟨0, false⟩

/-- Plans a command and carries it out. -/
def execute (p : Provider σ) (plan : C → Except Failure (Plan R)) (c : C) :
    StateM σ (Except Failure R) :=
  match plan c with
  | .error failure => return .error failure
  | .ok plan => do
    let reply ← p.call plan.call
    return reply >>= plan.conclude

/-- Whether the operation goes on behind an outcome. -/
def goesOn : Except Failure R → Bool
  | .ok _ => true
  | .error failure => failure.blamesCommand

/-- The next response, if there is one. -/
def next (p : Provider σ) (source : Nat → Option C) (plan : C → Except Failure (Plan R))
    (o : Ordered) : StateM σ (Option (Response C R) × Ordered) :=
  if o.isOver then return (none, o)
  else match source o.pulled with
    | none => return (none, { o with isOver := true })
    | some c => do
      p.onPull o.pulled
      let outcome ← execute p plan c
      return (some ⟨c, outcome⟩, ⟨o.pulled + 1, !goesOn outcome⟩)

/-- The responses, at most `limit` of them. -/
def responses (p : Provider σ) (source : Nat → Option C) (plan : C → Except Failure (Plan R)) :
    Nat → Ordered → StateM σ (List (Response C R))
  | 0, _ => return []
  | limit + 1, o => do
    match ← next p source plan o with
    | (none, _) => return []
    | (some response, o) => return response :: (← responses p source plan limit o)

end Ordered

end StreamBroker
