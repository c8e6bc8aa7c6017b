import StreamBroker.Proofs.Pool
import StreamBroker.Hub
set_option autoImplicit false

/-!
# Dealing with a pool

Whoever uses a pool has nothing of it, a place in its queue or a channel (`Hold`).  Each operation
takes one hold for another and keeps the accounts whatever else is held (`Pool.Passes`), and a turn
of a record stream is at most three of them: to ask, to get a channel, to give it back.  `Deal` says
what every turn has in common: a channel is only got by one who had not begun or was waiting, it is
only given back at the end, and at the end nothing is left.
-/

namespace StreamBroker

/-- What somebody has of a pool. -/
inductive Hold where
  | nothing
  | place (ticket : TicketId)
  | channel (lease : TicketId)
  deriving DecidableEq, Repr

namespace Hold

/-- The places in it. -/
def places : Hold → List TicketId
  | place ticket => [ticket]
  | _ => []

/-- The channels in it. -/
def channels : Hold → List TicketId
  | channel lease => [lease]
  | _ => []

/-- A channel, if there is a lease. -/
def ofLease : Option TicketId → Hold
  | some lease => channel lease
  | none => nothing

end Hold

/-- A pool comes from another by exchanging one hold for another, where `got` channels were leased
and `back` were given back. -/
structure Pool.Passes (p p' : Pool) (a a' : Hold) (got back : Nat) : Prop where
  keeps : ∀ {size waiting hands}, p.Accounts size (a.places ++ waiting) (a.channels ++ hands) →
    p'.Accounts size (a'.places ++ waiting) (a'.channels ++ hands)
  acquired : p'.acquired = p.acquired + got
  balance : a.channels.length + got = a'.channels.length + back

namespace Pool.Passes

variable {p q r : Pool} {a b c : Hold} {got got' back back' : Nat} {t : TicketId}

theorem refl (p : Pool) (a : Hold) : p.Passes p a a 0 0 := ⟨id, rfl, rfl⟩

theorem trans (h : p.Passes q a b got back) (h' : q.Passes r b c got' back') :
    p.Passes r a c (got + got') (back + back') := by
  have hbalance := h.balance
  have hbalance' := h'.balance
  refine ⟨fun hp => h'.keeps (h.keeps hp), ?_, by omega⟩
  rw [h'.acquired, h.acquired, Nat.add_assoc]

/-- A channel that is leased comes into use, and one that is given back goes out of it. -/
theorem inUse (h : p.Passes q a b got back) {size : Nat} {waiting hands : List TicketId}
    (hp : p.Accounts size (a.places ++ waiting) (a.channels ++ hands)) :
    p.inUse + got = q.inUse + back := by
  have hleases := hp.leases.length_eq
  have hleases' := (h.keeps hp).leases.length_eq
  have hbalance := h.balance
  rw [List.length_append] at hleases hleases'
  unfold Pool.inUse
  omega

theorem request (p : Pool) : p.Passes p.request.2 .nothing (.place p.request.1) 0 0 := by
  refine ⟨fun hp => hp.request, ?_, rfl⟩
  by_cases hfree : p.free = 0
  · rw [request_of_none hfree]
    rfl
  · rw [request_of_free hfree]
    rfl

theorem lease (ht : t ∈ p.granted) : p.Passes (p.lend t) (.place t) (.channel t) 1 0 :=
  ⟨fun hp => hp.lease ht, rfl, rfl⟩

theorem unqueue (ht : t ∉ p.granted) : p.Passes (p.unqueue t) (.place t) .nothing 0 0 :=
  ⟨fun hp => hp.unqueue ht, rfl, rfl⟩

theorem withdraw (p : Pool) (t : TicketId) : p.Passes (p.withdraw t) (.place t) .nothing 0 0 := by
  refine ⟨fun hp => hp.withdraw, ?_, rfl⟩
  unfold Pool.withdraw
  split
  · exact acquired_passOn _
  · rfl

theorem release (p : Pool) (t : TicketId) : p.Passes (p.release t) (.channel t) .nothing 0 1 := by
  refine ⟨fun hp => hp.release, ?_, rfl⟩
  unfold Pool.release
  split
  · exact acquired_passOn _
  · rfl

end Pool.Passes

/-- What one turn does to a pool and to a hold.  `asks` and `asks'` tell whether a channel may still
be asked for before and after it, and `ends` whether the turn is the end. -/
structure Deal (p p' : Pool) (a a' : Hold) (asks asks' ends : Bool) (got back : Nat) : Prop
    extends p.Passes p' a a' got back where
  first : got = 0 ∨ got = 1 ∧ asks
  early : asks' → asks ∧ got = 0 ∧ ends = false
  last : ends → a' = .nothing
  kept : back = 0 ∨ ends

namespace Deal

variable {p q r : Pool} {a b c : Hold} {asks ends : Bool} {got back : Nat} {t : TicketId}

/-- A turn that deals with nothing. -/
theorem idle (p : Pool) (a : Hold) (asks : Bool) : Deal p p a a asks asks false 0 0 :=
  ⟨.refl p a, .inl rfl, fun h => ⟨h, rfl, rfl⟩, nofun, .inl rfl⟩

/-- A turn that is the end. -/
theorem ending (h : p.Passes q a .nothing 0 back) (asks : Bool) :
    Deal p q a .nothing asks false true 0 back :=
  ⟨h, .inl rfl, nofun, fun _ => rfl, .inr rfl⟩

/-- A turn of one who had not begun but has no need to ask. -/
theorem unasked {asks' : Bool} (h : Deal p q a b false asks' ends got back) :
    Deal p q a b true asks' ends got back :=
  ⟨h.toPasses, h.first.imp_right fun hgot => ⟨hgot.1, rfl⟩,
    fun hasks => absurd (h.early hasks).1 nofun, h.last, h.kept⟩

/-- A turn that asks first. -/
theorem afterAsking {asks' : Bool} (h : p.Passes q a b 0 0)
    (hdeal : Deal q r b c true asks' ends got back) : Deal p r a c true asks' ends got back := by
  have hpasses := h.trans hdeal.toPasses
  rw [Nat.zero_add, Nat.zero_add] at hpasses
  exact ⟨hpasses, hdeal.first, hdeal.early, hdeal.last, hdeal.kept⟩

/-- A turn that gets a channel first. -/
theorem afterGetting {asks' : Bool} (h : p.Passes q a b 1 0)
    (hdeal : Deal q r b c false asks' ends got back) : Deal p r a c true asks' ends 1 back := by
  have hnone : got = 0 := hdeal.first.resolve_right nofun
  have hpasses := h.trans hdeal.toPasses
  rw [hnone, Nat.zero_add] at hpasses
  exact ⟨hpasses, .inr ⟨rfl, rfl⟩, fun hasks => absurd (hdeal.early hasks).1 nofun, hdeal.last,
    hdeal.kept⟩

end Deal

/-! ## What a hub does -/

namespace Hub

theorem pool_pull (feed : Feed) (h : Hub) : ((pull feed).run h).2.pool = h.pool := by
  cases feed with
  | scanning scan => rw [run_pull_scanning]
  | delivering messages => cases messages <;> rfl
  | _ => rfl

theorem pool_close (feed : Feed) (h : Hub) : ((close feed).run h).2.pool = h.pool := by
  cases feed <;> rfl

theorem pool_count (h : Hub) (route : Route) : (h.count route).pool = h.pool := by
  cases route <;> rfl

/-- One who looks for a channel changes nothing but the pool. -/
theorem run_collect_pool (ticket : Ticket) (h : Hub) :
    ∃ found pool, (collect ticket).run h = (found, { h with pool }) := by
  simp only [collect, StateT.run_modifyGet]
  rcases h.pool.collect ticket.id (ticket.deadline ≤ h.now) with ⟨found, pool⟩
  cases found <;> exact ⟨_, pool, rfl⟩

/-- One who looks for a channel still waits, is too late, or has it. -/
theorem run_collect (ticket : Ticket) (h : Hub) :
    (∃ h', (collect ticket).run h = (.waiting, h') ∧ h'.pool = h.pool) ∨
      (∃ failure h', (collect ticket).run h = (.ready (.error failure), h') ∧
        h.pool.Passes h'.pool (.place ticket.id) .nothing 0 0) ∨
      ∃ h', (collect ticket).run h = (.ready (.ok ticket.id), h') ∧
        h.pool.Passes h'.pool (.place ticket.id) (.channel ticket.id) 1 0 := by
  by_cases hgranted : ticket.id ∈ h.pool.granted
  · have hfound : h.pool.collect ticket.id (ticket.deadline ≤ h.now) =
        (.leased, h.pool.lend ticket.id) := if_pos hgranted
    refine .inr (.inr ⟨{ h with pool := h.pool.lend ticket.id }, ?_, .lease hgranted⟩)
    simp only [collect, StateT.run_modifyGet, hfound]
    rfl
  · by_cases hdue : ticket.deadline ≤ h.now
    · have hfound : h.pool.collect ticket.id (ticket.deadline ≤ h.now) =
          (.tooLate, h.pool.unqueue ticket.id) := by
        rw [Pool.collect, if_neg hgranted, if_pos (decide_eq_true hdue)]
        rfl
      refine .inr (.inl ⟨.exhausted (.noneWithin h.settings.acquireTimeout),
        { h with pool := h.pool.unqueue ticket.id }, ?_, .unqueue hgranted⟩)
      simp only [collect, StateT.run_modifyGet, hfound]
      rfl
    · have hfound : h.pool.collect ticket.id (ticket.deadline ≤ h.now) = (.nothing, h.pool) := by
        rw [Pool.collect, if_neg hgranted, if_neg (by simpa using hdue)]
      refine .inl ⟨h, ?_, rfl⟩
      simp only [collect, StateT.run_modifyGet, hfound]
      rfl

end Hub

/-! ## What a record stream does -/

/-- Whether a sequence has told its end. -/
def Pull.isFinished {α : Type} : Pull α → Bool
  | finished => true
  | item _ | waiting => false

namespace RecordStream

/-- What a record stream has of the pool. -/
def hold : RecordStream Hub.provider → Hold
  | .acquiring (ticket : Hub.Ticket) _ => .place ticket.id
  | .running (lease : Option TicketId) _ | .failed (lease : Option TicketId) _ => .ofLease lease
  | .fresh .. | .ended => .nothing

/-- Whether a stream may still ask for a channel or get one. -/
def asks : RecordStream Hub.provider → Bool
  | .fresh .. | .acquiring .. => true
  | .running .. | .failed .. | .ended => false

/-- Pulling a message leaves the stream with its channel, or else tells the end and gives the
channel back. -/
theorem run_pullFeed {σ : Type} {p : Provider σ} (lease : Option p.Lease) (feed : p.Feed) (s : σ) :
    (∃ item stream, (pullFeed p lease feed).run s = ((item, stream), ((p.pull feed).run s).2) ∧
        item.isFinished = false ∧
        ∃ feed', stream = .running lease feed' ∨ stream = .failed lease (some feed')) ∨
      (pullFeed p lease feed).run s =
        ((.finished, .ended), ((giveBack p lease).run ((p.pull feed).run s).2).2) := by
  unfold pullFeed
  rw [StateT.run_bind]
  rcases (p.pull feed).run s with ⟨⟨item, feed'⟩, s'⟩
  dsimp only [bind]
  cases item with
  | waiting => exact .inl ⟨_, _, rfl, rfl, feed', .inl rfl⟩
  | finished => exact .inr rfl
  | item outcome =>
      cases outcome with
      | error failure => exact .inl ⟨_, _, rfl, rfl, feed', .inr rfl⟩
      | ok m =>
          dsimp only
          cases m.record with
          | ok record => exact .inl ⟨_, _, rfl, rfl, feed', .inl rfl⟩
          | error failure => exact .inl ⟨_, _, rfl, rfl, feed', .inr rfl⟩

/-- Giving back what a stream has. -/
theorem giveBack_passes (lease : Option TicketId) (h : Hub) :
    ∃ back, h.pool.Passes ((giveBack Hub.provider lease).run h).2.pool (.ofLease lease) .nothing 0
      back := by
  cases lease with
  | none => exact ⟨0, .refl ..⟩
  | some lease => exact ⟨1, .release ..⟩

theorem deal_pullFeed (lease : Option TicketId) (feed : Hub.Feed) (h : Hub) :
    ∃ back, Deal h.pool ((pullFeed Hub.provider lease feed).run h).2.pool (.ofLease lease)
      ((pullFeed Hub.provider lease feed).run h).1.2.hold false
      ((pullFeed Hub.provider lease feed).run h).1.2.asks
      ((pullFeed Hub.provider lease feed).run h).1.1.isFinished 0 back := by
  have hpool : ((Hub.provider.pull feed).run h).2.pool = h.pool := Hub.pool_pull feed h
  rcases run_pullFeed (p := Hub.provider) lease feed h with
    ⟨item, stream, hrun, hitem, feed', rfl | rfl⟩ | hrun
  · rw [hrun, hpool, hitem]
    exact ⟨0, .idle ..⟩
  · rw [hrun, hpool, hitem]
    exact ⟨0, .idle ..⟩
  · obtain ⟨back, hback⟩ := giveBack_passes lease ((Hub.provider.pull feed).run h).2
    rw [hpool] at hback
    rw [hrun]
    exact ⟨back, .ending hback false⟩

/-- What comes of looking for a channel decides how a stream goes on. -/
theorem run_pullTicket {σ : Type} (p : Provider σ) (ticket : p.Ticket) (query : Query) (s : σ) :
    (pullTicket p ticket query).run s =
      match (p.collect ticket).run s with
      | (.waiting, s') => ((.waiting, .acquiring ticket query), s')
      | (.ready (.error failure), s') => ((.item (.error failure), .failed none none), s')
      | (.ready (.ok lease), s') =>
        (pullFeed p (some lease) ((p.submit .dedicated query).run s').1).run
          ((p.submit .dedicated query).run s').2 := by
  unfold pullTicket
  rw [StateT.run_bind]
  rcases (p.collect ticket).run s with ⟨_ | _, s'⟩
  case ready found => cases found <;> rfl
  case waiting => rfl

theorem deal_pullTicket (ticket : Hub.Ticket) (query : Query) (h : Hub) :
    ∃ got back, Deal h.pool ((pullTicket Hub.provider ticket query).run h).2.pool
      (.place ticket.id) ((pullTicket Hub.provider ticket query).run h).1.2.hold true
      ((pullTicket Hub.provider ticket query).run h).1.2.asks
      ((pullTicket Hub.provider ticket query).run h).1.1.isFinished got back := by
  rw [run_pullTicket Hub.provider ticket query h]
  rcases Hub.run_collect ticket h with ⟨h', hcollect, hpool⟩ | ⟨failure, h', hcollect, hpasses⟩ |
    ⟨h', hcollect, hpasses⟩ <;>
    change (Hub.provider.collect ticket).run h = _ at hcollect
  · rw [hcollect, ← hpool]
    exact ⟨0, 0, .idle ..⟩
  · rw [hcollect]
    exact ⟨0, 0, hpasses, .inl rfl, nofun, nofun, .inl rfl⟩
  · obtain ⟨back, hdeal⟩ :=
      deal_pullFeed (some ticket.id) (Hub.Feed.ofQuery query) (h'.count .dedicated)
    rw [Hub.pool_count] at hdeal
    rw [hcollect]
    exact ⟨1, back, .afterGetting hpasses hdeal⟩

/-- Closing what a stream reads from and giving back what it has. -/
theorem closeFeed_giveBack_passes (lease : Option TicketId) (feed : Option Hub.Feed) (h : Hub) :
    ∃ back, h.pool.Passes
      ((giveBack Hub.provider lease).run ((closeFeed Hub.provider feed).run h).2).2.pool
      (.ofLease lease) .nothing 0 back := by
  obtain ⟨back, hback⟩ := giveBack_passes lease ((closeFeed Hub.provider feed).run h).2
  have hpool : ((closeFeed Hub.provider feed).run h).2.pool = h.pool := by
    cases feed with
    | none => rfl
    | some feed => exact Hub.pool_close feed h
  rw [hpool] at hback
  exact ⟨back, hback⟩

/-- Pulling a record stream is a deal. -/
theorem deal_pull (stream : RecordStream Hub.provider) (h : Hub) :
    ∃ got back, Deal h.pool ((pull Hub.provider stream).run h).2.pool stream.hold
      ((pull Hub.provider stream).run h).1.2.hold stream.asks
      ((pull Hub.provider stream).run h).1.2.asks
      ((pull Hub.provider stream).run h).1.1.isFinished got back := by
  cases stream with
  | fresh route query =>
      cases route with
      | shared =>
          obtain ⟨back, hdeal⟩ := deal_pullFeed none (Hub.Feed.ofQuery query) (h.count .shared)
          exact ⟨0, back, hdeal.unasked⟩
      | dedicated =>
          obtain ⟨got, back, hdeal⟩ :=
            deal_pullTicket (Hub.request.run h).1 query (Hub.request.run h).2
          exact ⟨got, back, .afterAsking (.request h.pool) hdeal⟩
  | acquiring ticket query => exact deal_pullTicket ticket query h
  | running lease feed =>
      obtain ⟨back, hdeal⟩ := deal_pullFeed lease feed h
      exact ⟨0, back, hdeal⟩
  | failed lease feed =>
      obtain ⟨back, hback⟩ := closeFeed_giveBack_passes lease feed h
      exact ⟨0, back, .ending hback false⟩
  | ended => exact ⟨0, 0, .ending (.refl ..) false⟩

/-- Giving a record stream up is a deal, and its end. -/
theorem deal_drop (stream : RecordStream Hub.provider) (h : Hub) :
    ∃ back, Deal h.pool ((drop Hub.provider stream).run h).2.pool stream.hold .nothing stream.asks
      false true 0 back := by
  cases stream with
  | fresh route query => exact ⟨0, .ending (.refl ..) _⟩
  | acquiring ticket query => exact ⟨0, .ending (.withdraw ..) _⟩
  | running lease feed =>
      obtain ⟨back, hback⟩ := closeFeed_giveBack_passes lease (some feed) h
      exact ⟨back, .ending hback _⟩
  | failed lease feed =>
      obtain ⟨back, hback⟩ := closeFeed_giveBack_passes lease feed h
      exact ⟨back, .ending hback _⟩
  | ended => exact ⟨0, .ending (.refl ..) _⟩

end RecordStream

end StreamBroker
