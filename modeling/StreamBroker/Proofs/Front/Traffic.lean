import StreamBroker.Proofs.Front.Askings
set_option autoImplicit false

/-!
# Traffic on the channels of a hub

Any number of operations of the front end are under way on one hub.  A run is any list of moves: an
operation begins, the next response of one is asked for, the record stream of a response is pulled
or given up, and meanwhile others use the engine and time passes.  Each command that is answered
keeps a record of what was done for it (`Errand`).

Every call is counted on its channel, and every dedicated channel that is leased is held by the one
read that leased it and has not given it back (`Traffic.Sound`); what each command asks, and when, is
its course (`Keeps`).
-/

namespace StreamBroker

/-! ## Counting what is asked -/

theorem asksOn_append {σ : Type} {p : Provider σ} (route : Route) (deeds more : List (Deed p)) :
    asksOn route (deeds ++ more) = asksOn route deeds + asksOn route more := by
  unfold asksOn
  rw [marks_append, List.countP_append]

/-- What is noted as asked is what the hub counts. -/
structure Tallies {α : Type} (act : StateM (Watched Hub.provider) α) : Prop where
  run : ∀ w route, (act.run w).2.world.calls route + asksOn route w.deeds =
    w.world.calls route + asksOn route (act.run w).2.deeds

namespace Tallies

variable {α β : Type}

theorem pure (a : α) : Tallies (pure a) := ⟨fun _ _ => rfl⟩

theorem bind {x : StateM (Watched Hub.provider) α} {f : α → StateM (Watched Hub.provider) β}
    (hx : Tallies x) (hf : ∀ a, Tallies (f a)) : Tallies (x >>= f) := by
  refine ⟨fun w route => ?_⟩
  have hfirst := hx.run w route
  have hthen := (hf (x.run w).1).run (x.run w).2 route
  have hrun : (x >>= f).run w = (f (x.run w).1).run (x.run w).2 := StateT.run_bind ..
  rw [hrun]
  omega

/-- A deed counts as it is noted. -/
theorem watch (act : StateM Hub α) (deed : α → Deed Hub.provider)
    (h : ∀ (h : Hub) route,
      (act.run h).2.calls route = h.calls route + asksOn route [deed (act.run h).1]) :
    Tallies (Hub.provider.watch act deed) := by
  refine ⟨fun w route => ?_⟩
  have hrun : (Hub.provider.watch act deed).run w =
      ((act.run w.world).1, ⟨(act.run w.world).2, w.deeds ++ [deed (act.run w.world).1]⟩) := rfl
  have hcalls := h w.world route
  rw [hrun, asksOn_append]
  dsimp only
  omega

end Tallies

namespace RecordStream

theorem tallies_request : Tallies Hub.provider.watched.request :=
  .watch Hub.provider.request .requested fun _ route => by cases route <;> rfl

theorem tallies_collect (ticket : Hub.Ticket) : Tallies (Hub.provider.watched.collect ticket) := by
  refine .watch (Hub.provider.collect ticket) (.collected ticket) fun h route => ?_
  obtain ⟨found, pool, hrun⟩ := Hub.run_collect_pool ticket h
  change (Hub.provider.collect ticket).run h = _ at hrun
  rw [hrun]
  rcases found with (failure | lease) | _ <;> cases route <;> rfl

theorem tallies_withdraw (ticket : Hub.Ticket) : Tallies (Hub.provider.watched.withdraw ticket) :=
  .watch (Hub.withdraw ticket) (fun _ => .withdrawn ticket) fun _ route => by cases route <;> rfl

theorem tallies_release (lease : TicketId) : Tallies (Hub.provider.watched.release lease) :=
  .watch (Hub.release lease) (fun _ => .released lease) fun _ route => by cases route <;> rfl

/-- A query counts on the channel on which it is made. -/
theorem tallies_submit (route : Route) (query : Query) :
    Tallies (Hub.provider.watched.submit route query) := by
  refine .watch (Hub.provider.submit route query) (.queried route query) fun h route' => ?_
  have hcalls := h.calls_count route route'
  cases route <;> cases route' <;> exact hcalls

theorem tallies_pullMessage (feed : Hub.Feed) : Tallies (Hub.provider.watched.pull feed) := by
  refine .watch (Hub.pull feed) (fun r => .received feed r.1 r.2) fun h route => ?_
  cases feed with
  | scanning scan =>
      rw [Hub.run_pull_scanning]
      cases route <;> rfl
  | delivering messages => cases messages <;> cases route <;> rfl
  | _ => cases route <;> rfl

theorem tallies_close (feed : Hub.Feed) : Tallies (Hub.provider.watched.close feed) := by
  refine .watch (Hub.close feed) (fun _ => .closed feed) fun h route => ?_
  cases feed <;> cases route <;> rfl

theorem tallies_giveBack (lease : Option TicketId) :
    Tallies (giveBack Hub.provider.watched lease) := by
  cases lease with
  | none => exact .pure ()
  | some lease => exact tallies_release lease

theorem tallies_closeFeed (feed : Option Hub.Feed) :
    Tallies (closeFeed Hub.provider.watched feed) := by
  cases feed with
  | none => exact .pure ()
  | some feed => exact tallies_close feed

theorem tallies_pullFeed (lease : Option TicketId) (feed : Hub.Feed) :
    Tallies (pullFeed Hub.provider.watched lease feed) := by
  refine .bind (tallies_pullMessage feed) fun ⟨item, feed⟩ => ?_
  cases item with
  | waiting => exact .pure _
  | finished => exact .bind (tallies_giveBack lease) fun _ => .pure _
  | item outcome =>
      cases outcome with
      | error failure => exact .pure _
      | ok m =>
          dsimp only
          cases m.record <;> exact .pure _

theorem tallies_pullTicket (ticket : Hub.Ticket) (query : Query) :
    Tallies (pullTicket Hub.provider.watched ticket query) := by
  refine .bind (tallies_collect ticket) fun found => ?_
  rcases found with (failure | lease) | _
  · exact .pure _
  · exact .bind (tallies_submit .dedicated query) fun feed => tallies_pullFeed (some lease) feed
  · exact .pure _

theorem tallies_pull (stream : RecordStream Hub.provider.watched) :
    Tallies (pull Hub.provider.watched stream) := by
  cases stream with
  | fresh route query =>
      cases route with
      | shared => exact .bind (tallies_submit .shared query) fun feed => tallies_pullFeed none feed
      | dedicated => exact .bind tallies_request fun ticket => tallies_pullTicket ticket query
  | acquiring ticket query => exact tallies_pullTicket ticket query
  | running lease feed => exact tallies_pullFeed lease feed
  | failed lease feed =>
      exact .bind (tallies_closeFeed feed) fun _ => .bind (tallies_giveBack lease) fun _ => .pure _
  | ended => exact .pure _

theorem tallies_drop (stream : RecordStream Hub.provider.watched) :
    Tallies (drop Hub.provider.watched stream) := by
  cases stream with
  | fresh | ended => exact .pure ()
  | acquiring ticket query => exact tallies_withdraw ticket
  | running lease feed => exact .bind (tallies_close feed) fun _ => tallies_giveBack lease
  | failed lease feed => exact .bind (tallies_closeFeed feed) fun _ => tallies_giveBack lease

end RecordStream

/-! ## Errands -/

/-- A command that was answered, with what was done for it. -/
structure Errand where
  demand : Demand
  /-- Its record stream, until it is given up. -/
  stream : Option (RecordStream Hub.provider.watched)
  deeds : List (Deed Hub.provider)
  /-- What its record stream has told. -/
  told : List (Pull Record)

/-- The channel that a mark shows as leased. -/
def Mark.leased? : Mark Hub.provider → Option TicketId
  | leased lease => some lease
  | asked .. | released _ => none

/-- The channel that a mark shows as given back. -/
def Mark.released? : Mark Hub.provider → Option TicketId
  | released lease => some lease
  | asked .. | leased _ => none

/-- The channels that some marks show as leased and not as given back. -/
def openLeases (l : List (Mark Hub.provider)) : List TicketId :=
  (l.filterMap Mark.leased?).filter (· ∉ l.filterMap Mark.released?)

namespace Errand

/-- The channels that were leased for a command and not given back. -/
def leases (e : Errand) : List TicketId := openLeases (marks e.deeds)

/-- What its record stream has of the pool. -/
def hold (e : Errand) : Hold :=
  match e.stream with
  | some stream => stream.unwatched.hold
  | none => .nothing

/-- Pulls its record stream, if it is there. -/
def pull (e : Errand) : StateM Hub Errand := fun h =>
  match e.stream with
  | some stream =>
    let ((item, stream), w) := (stream.pull Hub.provider.watched).run ⟨h, e.deeds⟩
    ({ e with stream := some stream, deeds := w.deeds, told := e.told ++ [item] }, w.world)
  | none => (e, h)

/-- Gives its record stream up, if it is there. -/
def drop (e : Errand) : StateM Hub Errand := fun h =>
  match e.stream with
  | some stream =>
    let (_, w) := (stream.drop Hub.provider.watched).run ⟨h, e.deeds⟩
    ({ e with stream := none, deeds := w.deeds }, w.world)
  | none => (e, h)

/-- A command that is rejected has done nothing but being pulled; one with a single call has made
it; and a scan or a read has come as far as its record stream. -/
inductive Sound (e : Errand) : Prop where
  | rejected {failure : Failure} (hplan : e.demand.plan = .error failure) (hstream : e.stream = none)
      (hpulls : ∀ deed ∈ e.deeds, ∃ k, deed = .pulled k)
  | called {call : AnyCall} (hplan : e.demand.plan = .ok (.shared, .inl call))
      (hstream : e.stream = none) (hmarks : marks e.deeds = [.asked .shared (.inl call)])
  | going {route : Route} {query : Query} {stream : RecordStream Hub.provider.watched}
      (hplan : e.demand.plan = .ok (route, .inr query)) (hstream : e.stream = some stream)
      (hmarked : stream.Marked route query e.deeds e.told)
  | left {route : Route} {query : Query} (hplan : e.demand.plan = .ok (route, .inr query))
      (hstream : e.stream = none) (hleft : RecordStream.Left route query e.deeds e.told)

variable {e : Errand}

theorem Sound.of_error (h : e.Sound) {failure : Failure} (hplan : e.demand.plan = .error failure) :
    e.stream = none ∧ ∀ deed ∈ e.deeds, ∃ k, deed = .pulled k := by
  cases h with
  | rejected _ hstream hpulls => exact ⟨hstream, hpulls⟩
  | called hplan' | going hplan' | left hplan' =>
      rw [hplan] at hplan'
      cases hplan'

/-- A command that is not rejected keeps to its course. -/
theorem Sound.keeps (h : e.Sound) {route : Route} {what : Asked}
    (hplan : e.demand.plan = .ok (route, what)) : Keeps route what e.deeds e.told := by
  cases h with
  | rejected hplan' =>
      rw [hplan] at hplan'
      cases hplan'
  | called hplan' _ hmarks =>
      rw [hplan] at hplan'
      cases hplan'
      exact keeps_of_call hmarks e.told
  | going hplan' _ hmarked =>
      rw [hplan] at hplan'
      cases hplan'
      exact hmarked.keeps
  | left hplan' _ hleft =>
      rw [hplan] at hplan'
      cases hplan'
      exact hleft.keeps

end Errand

/-! ## Channels in hand -/

namespace RecordStream

variable {route : Route} {query : Query} {deeds : List (Deed Hub.provider)}
  {told : List (Pull Record)} {lease : Option TicketId}

theorem openLeases_begun (query : Query) (lease : Option TicketId) :
    openLeases (begun (p := Hub.provider) query lease) = (Hold.ofLease lease).channels := by
  cases lease with
  | none => rfl
  | some lease =>
      have hopen : openLeases (begun (p := Hub.provider) query (some lease)) =
          [lease].filter (· ∉ ([] : List TicketId)) := rfl
      exact hopen.trans (List.filter_eq_self.2 fun _ _ => decide_eq_true List.not_mem_nil)

theorem openLeases_returning (query : Query) (lease : Option TicketId) :
    openLeases (begun (p := Hub.provider) query lease ++ returning (p := Hub.provider) lease) =
      [] := by
  cases lease with
  | none => rfl
  | some lease =>
      have hopen : openLeases (begun (p := Hub.provider) query (some lease) ++
          returning (p := Hub.provider) (some lease)) = [lease].filter (· ∉ [lease]) := rfl
      refine hopen.trans (List.filter_eq_nil_iff.2 fun l hl => ?_)
      simpa using hl

theorem HasAsked.openLeases (h : HasAsked (p := Hub.provider) route query deeds told lease []) :
    openLeases (StreamBroker.marks deeds) = (Hold.ofLease lease).channels := by
  rw [h.marks, List.append_nil, openLeases_begun]

/-- A stream has the channel that it leased and did not give back. -/
theorem Marked.openLeases {stream : RecordStream Hub.provider.watched}
    (h : stream.Marked route query deeds told) :
    openLeases (StreamBroker.marks deeds) = stream.unwatched.hold.channels := by
  cases stream with
  | fresh route' query' =>
      obtain ⟨-, -, hmarks, -⟩ := h
      rw [hmarks]
      rfl
  | acquiring ticket query' =>
      obtain ⟨-, -, hmarks⟩ := h
      rw [hmarks]
      rfl
  | running lease feed =>
      have hasked : HasAsked (p := Hub.provider) route query deeds told lease [] := h
      exact hasked.openLeases
  | failed lease feed =>
      rcases h with hasked | ⟨rfl, -, -, hmarks⟩
      · exact HasAsked.openLeases hasked
      · rw [hmarks]
        rfl
  | ended =>
      rcases h with ⟨-, hmarks⟩ | ⟨lease, hasked⟩
      · rw [hmarks]
        rfl
      · rw [hasked.marks]
        exact openLeases_returning query lease

/-- A stream that was given up has no channel. -/
theorem Left.openLeases (h : Left (p := Hub.provider) route query deeds told) :
    openLeases (StreamBroker.marks deeds) = [] := by
  rcases h with ⟨hmarks, -⟩ | ⟨lease, hasked⟩
  · rw [hmarks]
    rfl
  · rw [hasked.marks]
    exact openLeases_returning query lease

end RecordStream

namespace Errand

variable {e : Errand}

theorem hold_of_none (h : e.stream = none) : e.hold = .nothing := by rw [hold, h]

theorem hold_of_some {stream : RecordStream Hub.provider.watched} (h : e.stream = some stream) :
    e.hold = stream.unwatched.hold := by
  rw [hold, h]

/-- The channels that were leased for a command and not given back are those that its record stream
has. -/
theorem Sound.leases (h : e.Sound) : e.leases = e.hold.channels := by
  unfold Errand.leases
  cases h with
  | rejected hplan hstream hpulls =>
      rw [marks_of_pulls hpulls, hold_of_none hstream]
      rfl
  | called hplan hstream hmarks =>
      rw [hmarks, hold_of_none hstream]
      rfl
  | going hplan hstream hmarked => rw [hmarked.openLeases, hold_of_some hstream]
  | left hplan hstream hleft =>
      rw [hleft.openLeases, hold_of_none hstream]
      rfl

/-- What one turn of a record stream does for its command and to the hub. -/
structure Turns (e : Errand) (h : Hub) (e' : Errand) (h' : Hub) : Prop where
  sound : e'.Sound
  calls : ∀ route, h'.calls route + asksOn route e.deeds = h.calls route + asksOn route e'.deeds
  pool : ∃ got back, h.pool.Passes h'.pool e.hold e'.hold got back

theorem Turns.refl (h : e.Sound) (hub : Hub) : e.Turns hub e hub :=
  ⟨h, fun _ => rfl, 0, 0, .refl ..⟩

/-- A command whose record stream is there has come as far as that stream. -/
theorem Sound.going_of_some (h : e.Sound) {stream : RecordStream Hub.provider.watched}
    (hstream : e.stream = some stream) :
    ∃ route query, e.demand.plan = .ok (route, .inr query) ∧
      stream.Marked route query e.deeds e.told := by
  cases h with
  | rejected _ hnone | called _ hnone | left _ hnone =>
      rw [hstream] at hnone
      cases hnone
  | going hplan hthere hmarked =>
      obtain rfl := Option.some.inj (hthere.symm.trans hstream)
      exact ⟨_, _, hplan, hmarked⟩

theorem pull_of_none (h : e.stream = none) (hub : Hub) : e.pull.run hub = (e, hub) := by
  change e.pull hub = (e, hub)
  rw [pull, h]

theorem drop_of_none (h : e.stream = none) (hub : Hub) : e.drop.run hub = (e, hub) := by
  change e.drop hub = (e, hub)
  rw [drop, h]

/-- Pulling a record stream that is there notes what was done and what it told. -/
theorem pull_of_some {stream : RecordStream Hub.provider.watched} (h : e.stream = some stream)
    (hub : Hub) : ∃ item stream' w,
      (stream.pull Hub.provider.watched).run ⟨hub, e.deeds⟩ = ((item, stream'), w) ∧
      e.pull.run hub = ({ e with
        stream := some stream', deeds := w.deeds, told := e.told ++ [item] }, w.world) := by
  obtain ⟨item, stream', w, hrun⟩ : ∃ item stream' w,
      (stream.pull Hub.provider.watched).run ⟨hub, e.deeds⟩ = ((item, stream'), w) :=
    ⟨_, _, _, rfl⟩
  refine ⟨item, stream', w, hrun, ?_⟩
  change e.pull hub = _
  simp only [pull, h, hrun]

/-- Giving up a record stream that is there notes what was done. -/
theorem drop_of_some {stream : RecordStream Hub.provider.watched} (h : e.stream = some stream)
    (hub : Hub) : ∃ w,
      (stream.drop Hub.provider.watched).run ⟨hub, e.deeds⟩ = ((), w) ∧
      e.drop.run hub = ({ e with stream := none, deeds := w.deeds }, w.world) := by
  obtain ⟨w, hrun⟩ : ∃ w, (stream.drop Hub.provider.watched).run ⟨hub, e.deeds⟩ = ((), w) :=
    ⟨_, rfl⟩
  refine ⟨w, hrun, ?_⟩
  change e.drop hub = _
  simp only [drop, h, hrun]

theorem Sound.turns_pull (h : e.Sound) (hub : Hub) :
    e.Turns hub (e.pull.run hub).1 (e.pull.run hub).2 := by
  cases hstream : e.stream with
  | none =>
      rw [pull_of_none hstream]
      exact .refl h hub
  | some stream =>
      obtain ⟨item, stream', w, hrun, hpull⟩ := pull_of_some hstream hub
      obtain ⟨route, query, hplan, hmarked⟩ := h.going_of_some hstream
      have hmarked' := RecordStream.marked_pull (w := ⟨hub, e.deeds⟩) hmarked
      have htallies := (RecordStream.tallies_pull stream).run ⟨hub, e.deeds⟩
      have hunwatched := RecordStream.run_pull_unwatched ⟨hub, e.deeds⟩ stream
      obtain ⟨got, back, hdeal⟩ := RecordStream.deal_pull stream.unwatched hub
      rw [hrun] at hmarked' htallies hunwatched
      change (stream.unwatched.pull Hub.provider).run hub = _ at hunwatched
      rw [hunwatched] at hdeal
      rw [hpull]
      refine ⟨.going hplan rfl hmarked', htallies, got, back, ?_⟩
      rw [hold_of_some hstream]
      exact hdeal.toPasses

theorem Sound.turns_drop (h : e.Sound) (hub : Hub) :
    e.Turns hub (e.drop.run hub).1 (e.drop.run hub).2 := by
  cases hstream : e.stream with
  | none =>
      rw [drop_of_none hstream]
      exact .refl h hub
  | some stream =>
      obtain ⟨w, hrun, hdrop⟩ := drop_of_some hstream hub
      obtain ⟨route, query, hplan, hmarked⟩ := h.going_of_some hstream
      have hleft := RecordStream.left_drop (w := ⟨hub, e.deeds⟩) hmarked
      have htallies := (RecordStream.tallies_drop stream).run ⟨hub, e.deeds⟩
      have hunwatched := RecordStream.run_drop_unwatched ⟨hub, e.deeds⟩ stream
      obtain ⟨back, hdeal⟩ := RecordStream.deal_drop stream.unwatched hub
      rw [hrun] at hleft htallies hunwatched
      change (stream.unwatched.drop Hub.provider).run hub = _ at hunwatched
      rw [hunwatched] at hdeal
      rw [hdrop]
      refine ⟨.left hplan rfl hleft, htallies, 0, back, ?_⟩
      rw [hold_of_some hstream]
      exact hdeal.toPasses

end Errand

/-! ## Runs -/

/-- A hub, the operations under way on it, and the commands that were answered. -/
structure Traffic where
  hub : Hub
  operations : List Operating
  errands : List Errand

/-- What happens on a hub. -/
inductive TrafficMove where
  | change (op : Change) (source : Nat → Option op.Input)
  | measure (window : Nat) (source : Nat → Option LengthCommand)
  | retrieve (op : Retrieval) (source : Nat → Option op.Input)
  /-- The next response of an operation is asked for. -/
  | ask (operation : Nat)
  /-- The record stream of a command is pulled. -/
  | pull (errand : Nat)
  /-- The record stream of a command is given up. -/
  | drop (errand : Nat)
  /-- Others use the engine, and time passes. -/
  | meanwhile (engine : Engine) (now : Nat) (wallClock : UInt64)

namespace Traffic

/-- A hub on which nothing has happened. -/
def start (settings : Settings) (wallClock : UInt64) : Traffic :=
  ⟨.start settings wallClock, [], []⟩

/-- Begins an operation. -/
def begin (t : Traffic) (o : Operating) : Traffic := { t with operations := t.operations ++ [o] }

/-- Takes what an asking gave. -/
def answer (t : Traffic) (i : Nat)
    (result : (Option (Demand × Option (RecordStream Hub.provider.watched)) × Operating) ×
      Watched Hub.provider) : Traffic where
  hub := result.2.world
  operations := t.operations.set i result.1.2
  errands := t.errands ++ (result.1.1.map fun a => ⟨a.1, a.2, result.2.deeds, []⟩).toList

/-- Does something with the record stream of a command. -/
def tend (act : Errand → StateM Hub Errand) (j : Nat) (t : Traffic) : Traffic :=
  match t.errands[j]? with
  | none => t
  | some e =>
    let (e, hub) := (act e).run t.hub
    { t with hub, errands := t.errands.set j e }

/-- Makes a move. -/
def step (t : Traffic) : TrafficMove → Traffic
  | .change op source => t.begin (.changing op source .start)
  | .measure window source => t.begin (.measuring window source .start)
  | .retrieve op source => t.begin (.retrieving op source 0)
  | .ask i =>
    match t.operations[i]? with
    | none => t
    | some o => t.answer i ((o.ask Hub.provider.watched).run ⟨t.hub, []⟩)
  | .pull j => t.tend Errand.pull j
  | .drop j => t.tend Errand.drop j
  | .meanwhile engine now wallClock => { t with hub := { t.hub with engine, now, wallClock } }

/-- What is behind a list of moves. -/
def run (t : Traffic) (moves : List TrafficMove) : Traffic := moves.foldl step t

/-- Nobody is asked at a number that no operation has. -/
theorem step_ask_of_none {t : Traffic} {i : Nat} (h : t.operations[i]? = none) :
    t.step (.ask i) = t := by
  simp only [step, h]

theorem step_ask_of_some {t : Traffic} {i : Nat} {o : Operating} (h : t.operations[i]? = some o) :
    t.step (.ask i) = t.answer i ((o.ask Hub.provider.watched).run ⟨t.hub, []⟩) := by
  simp only [step, h]

/-! ## The invariant -/

/-- The hub has counted what was asked, its pool agrees with what the commands have of it, and each
command has come as far as what was done for it. -/
structure Sound (t : Traffic) (size : Nat) : Prop where
  calls : ∀ route, t.hub.calls route = asksOn route (t.errands.flatMap (·.deeds))
  accounts : t.hub.pool.Accounts size (t.errands.flatMap (·.hold.places))
    (t.errands.flatMap (·.hold.channels))
  idle : ∀ o ∈ t.operations, o.Idle
  sound : ∀ e ∈ t.errands, e.Sound

namespace Sound

variable {t : Traffic} {size : Nat}

theorem start (settings : Settings) (wallClock : UInt64) :
    (Traffic.start settings wallClock).Sound settings.dedicatedChannels.toNat where
  calls route := by cases route <;> rfl
  accounts := .ofSize settings.dedicatedChannels.toNat
  idle _ ho := absurd ho List.not_mem_nil
  sound _ he := absurd he List.not_mem_nil

theorem begin (h : t.Sound size) {o : Operating} (ho : o.Idle) : (t.begin o).Sound size := by
  refine ⟨h.calls, h.accounts, fun o' ho' => ?_, h.sound⟩
  rcases List.mem_append.1 ho' with hbefore | hlast
  · exact h.idle o' hbefore
  · rw [List.mem_singleton.1 hlast]
    exact ho

/-- A command that is answered adds what was asked for it, and has nothing of the pool. -/
theorem arrive (h : t.Sound size) {e : Errand} (he : e.Sound) (hhold : e.hold = .nothing)
    {hub : Hub} (hpool : hub.pool = t.hub.pool)
    (hcalls : ∀ route, hub.calls route = t.hub.calls route + asksOn route e.deeds)
    {operations : List Operating} (hidle : ∀ o ∈ operations, o.Idle) :
    Traffic.Sound ⟨hub, operations, t.errands ++ [e]⟩ size := by
  refine ⟨fun route => ?_, ?_, hidle, fun e' he' => ?_⟩
  · rw [List.flatMap_append, List.flatMap_singleton, asksOn_append, ← h.calls, hcalls]
  · have hsame : ∀ f : Hold → List TicketId, f .nothing = [] →
        (t.errands ++ [e]).flatMap (fun e => f e.hold) = t.errands.flatMap fun e => f e.hold := by
      intro f hf
      rw [List.flatMap_append, List.flatMap_singleton, hhold, hf, List.append_nil]
    rw [hsame Hold.places rfl, hsame Hold.channels rfl]
    exact hpool ▸ h.accounts
  · rcases List.mem_append.1 he' with hbefore | hlast
    · exact h.sound e' hbefore
    · rw [List.mem_singleton.1 hlast]
      exact he

/-- One turn of one record stream. -/
theorem turn (h : t.Sound size) {j : Nat} {e e' : Errand} {hub : Hub}
    (he : t.errands[j]? = some e) (hturn : e.Turns t.hub e' hub) :
    Traffic.Sound { t with hub, errands := t.errands.set j e' } size := by
  obtain ⟨front, back, hsplit, hset⟩ := exists_split_of_getElem? he
  obtain ⟨got, returned, hpasses⟩ := hturn.pool
  have hperm : ∀ (f : Errand → List TicketId) (e' : Errand),
      ((front ++ e' :: back).flatMap f).Perm (f e' ++ (front ++ back).flatMap f) := by
    intro f e'
    rw [List.flatMap_append, List.flatMap_cons, List.flatMap_append]
    exact List.perm_append_comm_assoc ..
  have hbefore := h.accounts
  rw [hsplit] at hbefore
  have hafter := hpasses.keeps
    (hbefore.perm (hperm (·.hold.places) e).symm (hperm (·.hold.channels) e).symm)
  refine ⟨fun route => ?_, ?_, h.idle, fun e'' he'' => ?_⟩
  · have hcalls := h.calls route
    have hmore := hturn.calls route
    rw [hsplit] at hcalls
    rw [hset]
    simp only [List.flatMap_append, List.flatMap_cons, asksOn_append] at hcalls ⊢
    omega
  · rw [hset]
    exact hafter.perm (hperm _ _) (hperm _ _)
  · rcases List.mem_or_eq_of_mem_set he'' with hold | rfl
    · exact h.sound e'' hold
    · exact hturn.sound

/-- Whatever an asking comes to, it fits. -/
theorem answer (h : t.Sound size) (i : Nat) {o : Operating} (ho : o.Idle)
    {answer : Option (Demand × Option (RecordStream Hub.provider.watched))}
    {w : Watched Hub.provider} (hanswered : t.hub.Answered answer w) :
    (t.answer i ((answer, o), w)).Sound size := by
  have hidle : ∀ o' ∈ t.operations.set i o, o'.Idle := by
    intro o' ho'
    rcases List.mem_or_eq_of_mem_set ho' with hold | rfl
    · exact h.idle o' hold
    · exact ho
  cases hanswered with
  | nobody deeds =>
      have hsame : (t.answer i ((none, o), ⟨t.hub, deeds⟩)).errands = t.errands :=
        List.append_nil t.errands
      refine ⟨?_, ?_, hidle, ?_⟩
      · rw [hsame]
        exact h.calls
      · rw [hsame]
        exact h.accounts
      · rw [hsame]
        exact h.sound
  | rejected hplan hpulls =>
      refine h.arrive (.rejected hplan rfl hpulls) rfl rfl (fun route => ?_) hidle
      rw [asksOn, marks_of_pulls hpulls]
      rfl
  | called hplan hmarks =>
      refine h.arrive (.called hplan rfl hmarks) rfl (Hub.pool_callOn ..) (fun route => ?_) hidle
      rw [Hub.calls_callOn, asksOn, hmarks]
      cases route <;> rfl
  | @opened demand route query hplan deeds hpulls =>
      have hnone := marks_of_pulls hpulls
      have hmarked : RecordStream.Marked (p := Hub.provider) route query deeds []
          (.fresh route query) := ⟨rfl, rfl, hnone, rfl⟩
      refine h.arrive (.going hplan rfl hmarked) rfl rfl (fun route => ?_) hidle
      rw [asksOn, hnone]
      rfl

theorem tend (h : t.Sound size) {act : Errand → StateM Hub Errand}
    (hact : ∀ (e : Errand) hub, e.Sound → e.Turns hub ((act e).run hub).1 ((act e).run hub).2) (j : Nat) :
    (t.tend act j).Sound size := by
  unfold Traffic.tend
  cases he : t.errands[j]? with
  | none => exact h
  | some e => exact h.turn he (hact e t.hub (h.sound e (List.mem_of_getElem? he)))

/-- The accounts are kept by every move. -/
theorem step (h : t.Sound size) (move : TrafficMove) : (t.step move).Sound size := by
  cases move with
  | change op source => exact h.begin trivial
  | measure window source => exact h.begin Lengths.unstarted_start
  | retrieve op source => exact h.begin trivial
  | ask i =>
      cases ho : t.operations[i]? with
      | none =>
          rw [step_ask_of_none ho]
          exact h
      | some o =>
          obtain ⟨answer, o', w, hrun, ho', hanswered⟩ :=
            Operating.run_ask_hub (h.idle o (List.mem_of_getElem? ho)) t.hub
          rw [step_ask_of_some ho, hrun]
          exact h.answer i ho' hanswered
  | pull j => exact h.tend (fun e hub he => he.turns_pull hub) j
  | drop j => exact h.tend (fun e hub he => he.turns_drop hub) j
  | meanwhile engine now wallClock =>
      have hcalls : ∀ route, (t.step (.meanwhile engine now wallClock)).hub.calls route =
          t.hub.calls route := by
        intro route
        cases route <;> rfl
      exact ⟨fun route => (hcalls route).trans (h.calls route), h.accounts, h.idle, h.sound⟩

theorem run (h : t.Sound size) (moves : List TrafficMove) : (t.run moves).Sound size := by
  induction moves generalizing t with
  | nil => exact h
  | cons move rest ih => exact ih (h.step move)

end Sound

/-! ## What a rejected command does -/

variable {t : Traffic} {size : Nat}

/-- The answer to a command that is rejected leaves the hub as it was. -/
theorem Sound.hub_of_rejected (h : t.Sound size) {i : Nat} {e : Errand} {failure : Failure}
    (he : (t.step (.ask i)).errands = t.errands ++ [e])
    (hplan : e.demand.plan = .error failure) : (t.step (.ask i)).hub = t.hub := by
  cases ho : t.operations[i]? with
  | none => rw [step_ask_of_none ho]
  | some o =>
      obtain ⟨answer, o', w, hrun, -, hanswered⟩ :=
        Operating.run_ask_hub (h.idle o (List.mem_of_getElem? ho)) t.hub
      rw [step_ask_of_some ho, hrun] at he ⊢
      cases hanswered with
      | nobody | rejected | opened => rfl
      | called hcalled hmarks =>
          obtain rfl := List.singleton_inj.1 (List.append_cancel_left he)
          cases hcalled.symm.trans hplan

/-- The response to a command that is rejected has nothing to pull or to give up. -/
theorem Sound.tend_rejected (h : t.Sound size) {j : Nat} {e : Errand} {failure : Failure}
    (he : t.errands[j]? = some e) (hplan : e.demand.plan = .error failure) :
    t.step (.pull j) = t ∧ t.step (.drop j) = t := by
  obtain ⟨hnone, -⟩ := (h.sound e (List.mem_of_getElem? he)).of_error hplan
  obtain ⟨front, back, hsplit, hset⟩ := exists_split_of_getElem? he
  have hself : { t with errands := t.errands.set j e } = t := by rw [hset, ← hsplit]
  constructor
  · simp only [Traffic.step, Traffic.tend, he, Errand.pull_of_none hnone]
    exact hself
  · simp only [Traffic.step, Traffic.tend, he, Errand.drop_of_none hnone]
    exact hself

end Traffic

/-- In every run each channel has counted just the calls that were asked on it, for one command or
another.  A command that is not rejected asks at most once, on the channel of its own course: on a
dedicated one just if it carries a time to wait, after it has leased that channel and before it
gives it back, and on the shared one otherwise.  It has asked as soon as it is time: a single call
when it is answered, a scan or a read when its record stream was pulled and has the channel that it
needs.  The channels that are leased are those that the commands leased and did not give back, no
two the same.  A command that is rejected asks nothing, takes no place in the queue and leaves the
hub as it was, and so does its response. -/
theorem calls_keep_to_their_channels (settings : Settings) (wallClock : UInt64)
    (moves : List TrafficMove) :
    let t := (Traffic.start settings wallClock).run moves
    (∀ route, t.hub.calls route = asksOn route (t.errands.flatMap (·.deeds))) ∧
    (∀ e ∈ t.errands, ∀ route what, e.demand.plan = .ok (route, what) →
      (route = .dedicated ↔ what.carriesBlock = true) ∧ Course route what (marks e.deeds) ∧
      (Due route what e.deeds e.told →
        ∀ route', asksOn route' e.deeds = if route = route' then 1 else 0) ∧
      (¬ Due route what e.deeds e.told → ∀ route', asksOn route' e.deeds = 0)) ∧
    ((t.errands.flatMap (·.leases)).Perm t.hub.pool.leased ∧ t.hub.pool.leased.Nodup) ∧
    (∀ e ∈ t.errands, ∀ failure, e.demand.plan = .error failure →
      e.stream = none ∧ ∀ deed ∈ e.deeds, ∃ k, deed = .pulled k) ∧
    (∀ i e failure, (t.step (.ask i)).errands = t.errands ++ [e] →
      e.demand.plan = .error failure → (t.step (.ask i)).hub = t.hub) ∧
    (∀ j e failure, t.errands[j]? = some e → e.demand.plan = .error failure →
      t.step (.pull j) = t ∧ t.step (.drop j) = t) ∧
    (∀ options : ReadOptions, options.route = .dedicated ↔ options.sentBlock.isSome = true) ∧
    (∀ (o : Operating) (w : Watched Hub.provider), (o.ask Hub.provider).run w.world =
      let ((answer, o), w) := (o.ask Hub.provider.watched).run w
      ((answer.map fun a => (a.1, a.2.map RecordStream.unwatched), o), w.world)) ∧
    (∀ (stream : RecordStream Hub.provider.watched) (w : Watched Hub.provider),
      (stream.unwatched.pull Hub.provider).run w.world =
        let ((item, stream), w) := (stream.pull Hub.provider.watched).run w
        ((item, stream.unwatched), w.world)) ∧
    ∀ (stream : RecordStream Hub.provider.watched) (w : Watched Hub.provider),
      (stream.unwatched.drop Hub.provider).run w.world =
        ((), ((stream.drop Hub.provider.watched).run w).2.world) := by
  intro t
  have hsound : t.Sound settings.dedicatedChannels.toNat :=
    (Traffic.Sound.start settings wallClock).run moves
  refine ⟨hsound.calls, ?_, ?_, ?_, ?_, ?_, ReadOptions.route_eq_dedicated_iff, ?_, ?_, ?_⟩
  · intro e he route what hplan
    have hkeeps := (hsound.sound e he).keeps hplan
    exact ⟨Demand.route_of_plan hplan, hkeeps.course,
      fun hdue route' => (hkeeps.asksOn route').1 hdue,
      fun hlater route' => (hkeeps.asksOn route').2 hlater⟩
  · have hleases : t.errands.flatMap (·.leases) = t.errands.flatMap (·.hold.channels) := by
      rw [List.flatMap_def, List.flatMap_def,
        List.map_congr_left fun e he => (hsound.sound e he).leases]
    rw [hleases]
    refine ⟨hsound.accounts.leases, ?_⟩
    exact hsound.accounts.leases.nodup (List.nodup_append.1 hsound.accounts.distinct).2.1
  · exact fun e he failure => (hsound.sound e he).of_error
  · exact fun i e failure => hsound.hub_of_rejected
  · exact fun j e failure => hsound.tend_rejected
  · exact fun o w => o.run_ask_unwatched w
  · exact fun stream w => RecordStream.run_pull_unwatched w stream
  · exact fun stream w => RecordStream.run_drop_unwatched w stream

/-- Two additions, the first without a key, and two reads that may wait, over one channel. -/
def oneChannel : List TrafficMove :=
  [.change .add ([⟨none, .autoGenerate, some ∅⟩,
      ⟨some [97], .autoGenerate, some (.ofList [([102], [118])])⟩][·]?),
    .retrieve .read ([waitingRead, waitingRead][·]?),
    .ask 0, .ask 0, .ask 1, .ask 1, .pull 2, .pull 3]

example : let t := (Traffic.start ⟨1, 5000, 16⟩ 1).run oneChannel
    t.hub.calls .shared = 1 ∧ t.hub.calls .dedicated = 1 ∧
      t.errands.map (·.leases) = [[], [], [0], []] ∧ t.hub.pool.queue = [1] := by
  decide +kernel

end StreamBroker
