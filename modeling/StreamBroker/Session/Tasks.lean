import StreamBroker.Session.Basic
set_option autoImplicit false

/-!
# The background tasks of a session

Behind each step the tasks that can go on do so until every one of them waits again: readers that
were woken in the order in which they were woken, others in the order in which they began to wait.
Time stands still but for `Session.advance`, which moves it one millisecond at a time and lets the
tasks run after each.
-/

namespace StreamBroker.Session

/-- Starts a task. -/
def spawn (name : String) (job : Job) : StateM Session Unit :=
  modify fun s =>
    { s with
      tasks := s.tasks ++ [⟨s.nextTask, name, job, s.waits⟩]
      nextTask := s.nextTask + 1
      waits := s.waits + 1 }

/-- Finds the tasks that can go on: those whose signals were raised, in the order of that, then the
others, the one that has waited longest first. -/
def noteReady : StateM Session Unit :=
  modify fun s =>
    let found := s.tasks.filter fun t => !s.ready.contains t.id && t.job.isReady s.hub
    let raised := s.hub.engine.registry.raised
    let (woken, others) := found.partition fun t => t.job.signal?.any raised.contains
    let woken := raised.flatMap fun signal => woken.filter (·.job.signal? == some signal)
    let others := others.mergeSort fun t u => t.since ≤ u.since
    { s with ready := s.ready ++ (woken ++ others).map (·.id) }

/-- Puts a task back that has to wait. -/
def putBack (t : Background) (job : Job) : StateM Session Unit :=
  modify fun s =>
    { s with
      tasks := s.tasks.map fun u => if u.id = t.id then { u with job, since := s.waits } else u
      waits := s.waits + 1 }

/-- Removes a task. -/
def remove (id : Nat) : StateM Session Unit :=
  modify fun s =>
    { s with tasks := s.tasks.filter (·.id != id), ready := s.ready.filter (· != id) }

/-- Gives back the dedicated channel of a name, if there is one, and tells whether there was. -/
def releaseLease (name : String) : StateM Session Bool := do
  let s ← get
  match s.leases.lookup name with
  | none => return false
  | some lease =>
    set { s with leases := s.leases.filter (·.1 != name) }
    onHub (Hub.release lease)
    return true

/-- Ends a task; a channel it acquired is kept under its name, instead of one that had it. -/
def finish (t : Background) (outcome : Outcome) : StateM Session Finished := do
  remove t.id
  match outcome with
  | .leased lease =>
    let _ ← releaseLease t.name
    modify fun s => { s with leases := (t.name, lease) :: s.leases }
  | _ => pure ()
  return ⟨t.id, t.name, outcome⟩

/-- The task that goes on next. -/
def takeReady : StateM Session (Option Background) :=
  modifyGet fun s =>
    match s.ready with
    | [] => (none, s)
    | id :: ready => (s.tasks.find? (·.id = id), { s with ready })

/-- Lets tasks go on, at most `turns` times, and gives those that ended. -/
def settleWithin : Nat → StateM Session (List Finished)
  | 0 => return []
  | turns + 1 => do
    noteReady
    match ← takeReady with
    | none => return []
    | some t =>
      match ← onHub t.job.run with
      | .inl job =>
        putBack t job
        settleWithin turns
      | .inr outcome =>
        let finished ← finish t outcome
        return finished :: (← settleWithin turns)

/-- Lets the tasks go on until every one of them waits, and gives those that ended in the order in
which they were started. -/
def settle : StateM Session (List Finished) := do
  let s ← get
  let turns := s.tasks.foldl (fun n t => n + t.job.turns + 1) 1
  let finished ← settleWithin turns
  return finished.mergeSort fun a b => a.id ≤ b.id

/-- Lets one millisecond pass after the other. -/
def advance : Nat → StateM Session (List Finished)
  | 0 => return []
  | millis + 1 => do
    modify fun s => { s with hub := { s.hub with now := s.hub.now + 1 } }
    let finished ← settle
    return finished ++ (← advance millis)

/-- Gives up a task and what it holds. -/
def cancel (name : String) : StateM Session (Option Finished) := do
  match (← get).tasks.find? (·.name = name) with
  | none => return none
  | some t =>
    remove t.id
    onHub t.job.drop
    return some ⟨t.id, t.name, .cancelled⟩

end StreamBroker.Session
