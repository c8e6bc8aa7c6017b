import StreamBroker.Proofs.Lending.Deals
set_option autoImplicit false

/-!
# Those who borrow channels

A hub and all who borrow its dedicated channels: acquisitions by hand, and the record streams of
reads.  A run is any list of moves: somebody comes, is polled or is dropped, a call changes the
engine, time passes.  A borrower that is done is polled and dropped in vain, so every list of moves
is a run.

Each borrower carries a record of what has happened to it, taken from what can be seen of a turn:
the counts of the pool before and after it, and whether it told its end.  `Borrower.Fits` says that
what a borrower has of the pool is what its record says, and `Lending.Sound` adds the accounts of
the pool; one turn keeps both (`Lending.Sound.turn`), whatever the turn is.
-/

namespace StreamBroker

/-! ## Borrowers -/

/-- What a borrower is about. -/
inductive Work where
  /-- An acquisition that has not asked yet. -/
  | unasked
  /-- An acquisition that has a place in the queue. -/
  | asking (ticket : Hub.Ticket)
  /-- A channel that was acquired. -/
  | holding (lease : TicketId)
  /-- The record stream of a read. -/
  | reading (stream : RecordStream Hub.provider)
  /-- Nothing any more. -/
  | done

namespace Work

/-- Looks for a channel that was asked for. -/
def lookFor (ticket : Hub.Ticket) : StateM Hub (Bool × Work) := do
  match ← Hub.collect ticket with
  | .waiting => return (false, asking ticket)
  | .ready (.ok lease) => return (false, holding lease)
  | .ready (.error _) => return (false, done)

/-- Polls a borrower; the flag tells whether a stream told its end. -/
def poll : Work → StateM Hub (Bool × Work)
  | unasked => do
    let ticket ← Hub.request
    lookFor ticket
  | asking ticket => lookFor ticket
  | holding lease => return (false, holding lease)
  | reading stream => do
    let (item, stream) ← stream.pull Hub.provider
    return (item.isFinished, reading stream)
  | done => return (false, done)

/-- Gives up what a borrower has. -/
def drop : Work → StateM Hub Unit
  | asking ticket => Hub.withdraw ticket
  | holding lease => Hub.release lease
  | reading stream => stream.drop Hub.provider
  | unasked | done => return ()

/-- What a borrower has of the pool. -/
def hold : Work → Hold
  | asking ticket => .place ticket.id
  | holding lease => .channel lease
  | reading stream => stream.hold
  | unasked | done => .nothing

/-- Whether a borrower may still ask for a channel or get one. -/
def asks : Work → Bool
  | unasked | asking _ => true
  | reading stream => stream.asks
  | holding _ | done => false

end Work

/-- One who borrows a channel, with a record of what has happened so far. -/
structure Borrower where
  work : Work
  /-- A channel was leased in one of its turns. -/
  obtained : Bool
  /-- Its stream has told its end. -/
  told : Bool
  /-- It was dropped. -/
  dropped : Bool
  /-- How many leases have ended in its turns. -/
  returned : Nat

namespace Borrower

/-- One who comes. -/
def coming (work : Work) : Borrower := ⟨work, false, false, false, 0⟩

/-- The record of one more turn, from the pool before and after it: a lease has ended for every
channel that was in use or leased in the turn and is not in use behind it. -/
def after (b : Borrower) (p p' : Pool) (work : Work) (tells drops : Bool) : Borrower where
  work := work
  obtained := b.obtained || p.acquired < p'.acquired
  told := b.told || tells
  dropped := b.dropped || drops
  returned := b.returned + (p.inUse + (p'.acquired - p.acquired) - p'.inUse)

/-- It obtained a channel and has neither told its end nor been dropped. -/
def holds (b : Borrower) : Bool := b.obtained && !(b.told || b.dropped)

/-- It obtained a channel and has told its end or was dropped. -/
def gaveBack (b : Borrower) : Bool := b.obtained && (b.told || b.dropped)

/-- What a borrower has of the pool is what its record says. -/
structure Fits (b : Borrower) : Prop where
  holds : b.work.hold.channels.length = if b.holds then 1 else 0
  returned : b.returned = if b.gaveBack then 1 else 0
  begins : b.work.asks → b.obtained = false ∧ b.told = false ∧ b.dropped = false

end Borrower

/-! ## Runs -/

/-- A hub and those who borrow its channels, in the order in which they came. -/
structure Lending where
  hub : Hub
  borrowers : List Borrower

/-- What happens to a hub and its borrowers. -/
inductive LendingMove where
  /-- Somebody comes to acquire a channel. -/
  | acquire
  /-- Somebody comes with a read. -/
  | read (command : ReadCommand)
  | poll (borrower : Nat)
  | drop (borrower : Nat)
  | call (route : Route) (call : AnyCall)
  | elapse (millis : Nat)

namespace Lending

/-- A hub that nobody has borrowed from. -/
def start (settings : Settings) (wallClock : UInt64) : Lending := ⟨.start settings wallClock, []⟩

/-- Makes a move. -/
def step (l : Lending) : LendingMove → Lending
  | .acquire => { l with borrowers := l.borrowers ++ [.coming .unasked] }
  | .read command =>
    match (Lazily.respond Hub.provider ReadCommand.query command).outcome with
    | .ok stream => { l with borrowers := l.borrowers ++ [.coming (.reading stream)] }
    | .error _ => l
  | .poll i =>
    match l.borrowers[i]? with
    | none => l
    | some b =>
      let ((tells, work), hub) := b.work.poll.run l.hub
      ⟨hub, l.borrowers.set i (b.after l.hub.pool hub.pool work tells false)⟩
  | .drop i =>
    match l.borrowers[i]? with
    | none => l
    | some b =>
      let hub := (b.work.drop.run l.hub).2
      ⟨hub, l.borrowers.set i (b.after l.hub.pool hub.pool .done false true)⟩
  | .call route ⟨_, call⟩ => { l with hub := ((Hub.callOn route call).run l.hub).2 }
  | .elapse millis => { l with hub := { l.hub with now := l.hub.now + millis } }

/-- What is behind a list of moves. -/
def run (l : Lending) (moves : List LendingMove) : Lending := moves.foldl step l

/-- The places that are held. -/
def places (l : Lending) : List TicketId := l.borrowers.flatMap (·.work.hold.places)

/-- The channels that are held. -/
def channels (l : Lending) : List TicketId := l.borrowers.flatMap (·.work.hold.channels)

end Lending

/-! ## Turns -/

namespace Work

/-- What comes of looking for a channel decides what a borrower is about. -/
theorem run_lookFor (ticket : Hub.Ticket) (h : Hub) :
    (lookFor ticket).run h =
      match (Hub.collect ticket).run h with
      | (.waiting, h') => ((false, asking ticket), h')
      | (.ready (.ok lease), h') => ((false, holding lease), h')
      | (.ready (.error _), h') => ((false, done), h') := by
  unfold lookFor
  rw [StateT.run_bind]
  rcases (Hub.collect ticket).run h with ⟨_ | _, h'⟩
  case ready found => cases found <;> rfl
  case waiting => rfl

theorem deal_lookFor (ticket : Hub.Ticket) (h : Hub) :
    ∃ got back, Deal h.pool ((lookFor ticket).run h).2.pool (.place ticket.id)
      ((lookFor ticket).run h).1.2.hold true ((lookFor ticket).run h).1.2.asks
      ((lookFor ticket).run h).1.1 got back := by
  rw [run_lookFor]
  rcases Hub.run_collect ticket h with ⟨h', hcollect, hpool⟩ | ⟨failure, h', hcollect, hpasses⟩ |
    ⟨h', hcollect, hpasses⟩
  · rw [hcollect, ← hpool]
    exact ⟨0, 0, .idle ..⟩
  · rw [hcollect]
    exact ⟨0, 0, hpasses, .inl rfl, nofun, nofun, .inl rfl⟩
  · rw [hcollect]
    exact ⟨1, 0, .afterGetting hpasses (.idle ..)⟩

/-- Polling a borrower is a deal. -/
theorem deal_poll (work : Work) (h : Hub) :
    ∃ got back, Deal h.pool (work.poll.run h).2.pool work.hold (work.poll.run h).1.2.hold work.asks
      (work.poll.run h).1.2.asks (work.poll.run h).1.1 got back := by
  cases work with
  | unasked =>
      obtain ⟨got, back, hdeal⟩ := deal_lookFor (Hub.request.run h).1 (Hub.request.run h).2
      exact ⟨got, back, .afterAsking (.request h.pool) hdeal⟩
  | asking ticket => exact deal_lookFor ticket h
  | holding lease => exact ⟨0, 0, .idle ..⟩
  | reading stream => exact stream.deal_pull h
  | done => exact ⟨0, 0, .idle ..⟩

/-- Dropping a borrower is a deal, and its end. -/
theorem deal_drop (work : Work) (h : Hub) :
    ∃ back, Deal h.pool (work.drop.run h).2.pool work.hold .nothing work.asks false true 0
      back := by
  cases work with
  | unasked => exact ⟨0, .ending (.refl ..) _⟩
  | asking ticket => exact ⟨0, .ending (.withdraw ..) _⟩
  | holding lease => exact ⟨1, .ending (.release ..) _⟩
  | reading stream => exact stream.deal_drop h
  | done => exact ⟨0, .ending (.refl ..) _⟩

end Work

namespace Borrower

variable {b : Borrower} {p p' : Pool} {work : Work} {tells drops : Bool} {got back : Nat}

theorem fits_coming (work : Work) (h : work.hold = .nothing) : (coming work).Fits :=
  ⟨by rw [coming, h]; rfl, rfl, fun _ => ⟨rfl, rfl, rfl⟩⟩

/-- A deal obtains at most one channel for a borrower, and its first. -/
theorem obtained_after (hfits : b.Fits)
    (hdeal : Deal p p' b.work.hold work.hold b.work.asks work.asks (tells || drops) got back) :
    (b.after p p' work tells drops).obtained = (b.obtained || decide (got = 1)) ∧
      (got = 0 ∨ got = 1 ∧ b.obtained = false) := by
  have hacquired := hdeal.acquired
  refine ⟨?_, hdeal.first.imp_right fun hgot => ⟨hgot.1, (hfits.begins hgot.2).1⟩⟩
  have hrises : decide (p.acquired < p'.acquired) = decide (got = 1) := by
    rcases hdeal.first with hgot | ⟨hgot, -⟩ <;> simp [hacquired, hgot]
  unfold after
  rw [hrises]

/-- As many channels as a deal got count as obtained. -/
theorem count_obtained_after (hfits : b.Fits)
    (hdeal : Deal p p' b.work.hold work.hold b.work.asks work.asks (tells || drops) got back) :
    (if (b.after p p' work tells drops).obtained then 1 else 0) =
      (if b.obtained then 1 else 0) + got := by
  obtain ⟨hobtained, hgot⟩ := obtained_after hfits hdeal
  rw [hobtained]
  rcases hgot with rfl | ⟨rfl, hfirst⟩
  · rw [decide_eq_false nofun, Bool.or_false, Nat.add_zero]
  · rw [hfirst, decide_eq_true rfl]
    rfl

/-- What a borrower gave back and what it has make what it obtained. -/
theorem Fits.total (h : b.Fits) :
    b.returned + b.work.hold.channels.length = if b.obtained then 1 else 0 := by
  rw [h.returned, h.holds]
  unfold gaveBack Borrower.holds
  cases b.obtained <;> cases b.told || b.dropped <;> rfl

/-- A borrower is at its end from the turn on in which it tells it or is dropped. -/
theorem ended_after (b : Borrower) (p p' : Pool) (work : Work) (tells drops : Bool) :
    ((b.after p p' work tells drops).told || (b.after p p' work tells drops).dropped) =
      ((b.told || b.dropped) || (tells || drops)) := by
  unfold after
  cases b.told <;> cases b.dropped <;> cases tells <;> cases drops <;> rfl

theorem returned_after (hacquired : p'.acquired = p.acquired + got)
    (hinUse : p.inUse + got = p'.inUse + back) :
    (b.after p p' work tells drops).returned = b.returned + back := by
  unfold after
  simp only
  omega

/-- At its end a borrower has given back whatever it had or got in its last turn. -/
theorem fits_after_end (hfits : b.Fits)
    (hdeal : Deal p p' b.work.hold work.hold b.work.asks work.asks (tells || drops) got back)
    (hinUse : p.inUse + got = p'.inUse + back) (hends : (tells || drops) = true) :
    (b.after p p' work tells drops).Fits := by
  have hbalance := hdeal.balance
  have htotal := hfits.total
  have hended := ended_after b p p' work tells drops
  rw [hends, Bool.or_true] at hended
  have hnothing : work.hold.channels.length = 0 := by
    rw [hdeal.last hends]
    rfl
  refine ⟨?_, ?_, fun hasks => ?_⟩
  · rw [holds, hended, Bool.not_true, Bool.and_false]
    exact hnothing
  · rw [gaveBack, hended, Bool.and_true, count_obtained_after hfits hdeal]
    rw [returned_after hdeal.acquired hinUse]
    omega
  · have hopen := (hdeal.early hasks).2.2
    rw [hends] at hopen
    cases hopen

/-- Before its end a borrower gives nothing back, so what it got it has. -/
theorem fits_after_turn (hfits : b.Fits)
    (hdeal : Deal p p' b.work.hold work.hold b.work.asks work.asks (tells || drops) got back)
    (hinUse : p.inUse + got = p'.inUse + back) (hgoes : (tells || drops) = false) :
    (b.after p p' work tells drops).Fits := by
  obtain ⟨hobtained, -⟩ := obtained_after hfits hdeal
  obtain rfl : back = 0 := hdeal.kept.resolve_right (by rw [hgoes]; nofun)
  have hreturned : (b.after p p' work tells drops).returned = b.returned :=
    returned_after hdeal.acquired hinUse
  have hended := ended_after b p p' work tells drops
  rw [hgoes, Bool.or_false] at hended
  have hbalance := hdeal.balance
  rcases hdeal.first with rfl | ⟨rfl, hasks⟩
  · rw [decide_eq_false nofun, Bool.or_false] at hobtained
    refine ⟨?_, ?_, fun hasks => ?_⟩
    · have hholds := hfits.holds
      change work.hold.channels.length = _
      rw [Borrower.holds] at hholds ⊢
      rw [hobtained, hended, ← hholds]
      exact hbalance.symm
    · rw [gaveBack, hobtained, hended, hreturned]
      exact hfits.returned
    · obtain ⟨hobtained', htold, hdropped⟩ := hfits.begins (hdeal.early hasks).1
      rw [htold, hdropped, Bool.or_false] at hended
      obtain ⟨htold', hdropped'⟩ := Bool.or_eq_false_iff.1 hended
      exact ⟨hobtained.trans hobtained', htold', hdropped'⟩
  · -- who gets a channel has had none and is not at its end
    obtain ⟨hfirst, htold, hdropped⟩ := hfits.begins hasks
    have htotal := hfits.total
    rw [hfirst, if_neg nofun] at htotal
    rw [hfirst, decide_eq_true rfl, Bool.or_true] at hobtained
    rw [htold, hdropped, Bool.or_false] at hended
    refine ⟨?_, ?_, fun hasks => absurd (hdeal.early hasks).2.1 nofun⟩
    · change work.hold.channels.length = _
      rw [Borrower.holds, hobtained, hended, Bool.not_false, Bool.and_true, if_pos rfl]
      omega
    · rw [gaveBack, hobtained, hended, Bool.and_false, if_neg nofun, hreturned]
      omega

/-- A deal keeps the record of a borrower true. -/
theorem fits_after (hfits : b.Fits)
    (hdeal : Deal p p' b.work.hold work.hold b.work.asks work.asks (tells || drops) got back)
    (hinUse : p.inUse + got = p'.inUse + back) : (b.after p p' work tells drops).Fits := by
  cases hends : tells || drops with
  | true => exact fits_after_end hfits hdeal hinUse hends
  | false => exact fits_after_turn hfits hdeal hinUse hends

end Borrower

/-! ## The accounts of a run -/

/-- The pool agrees with what its borrowers have, and these with their records. -/
structure Lending.Sound (l : Lending) (size : Nat) : Prop where
  accounts : l.hub.pool.Accounts size l.places l.channels
  fits : ∀ b ∈ l.borrowers, b.Fits
  acquired : l.hub.pool.acquired = l.borrowers.countP (·.obtained)

/-- An element of a list stands between two others, whatever it is replaced by. -/
theorem exists_split_of_getElem? {α : Type} {l : List α} {i : Nat} {a : α} (h : l[i]? = some a) :
    ∃ front back, l = front ++ a :: back ∧ ∀ b, l.set i b = front ++ b :: back := by
  induction l generalizing i with
  | nil => cases h
  | cons x l ih =>
      cases i with
      | zero =>
          cases h
          exact ⟨[], l, rfl, fun _ => rfl⟩
      | succ i =>
          obtain ⟨front, back, rfl, hset⟩ := ih h
          exact ⟨x :: front, back, rfl, fun b => congrArg (x :: ·) (hset b)⟩

theorem Hub.pool_nameLast (h : Hub) (key : Bytes) (request : Option String) :
    (h.nameLast key request).pool = h.pool := by
  unfold nameLast
  simp only
  split <;> rfl

theorem Hub.pool_callOn {k : ReplyKind} (route : Route) (call : Call k) (h : Hub) :
    ((callOn route call).run h).2.pool = h.pool := by
  have hperform : ((callOn route call).run h).2 = ((perform call).run (h.count route)).2 := rfl
  rw [hperform, ← pool_count h route]
  generalize h.count route = h
  unfold perform
  rw [StateT.run_modifyGet]
  cases call with
  | add key request body =>
      rcases h.engine.perform h.wallClock (.add key request body) with ⟨failure | id, engine⟩
      · rfl
      · exact pool_nameLast { h with engine } key request
  | _ => rfl

namespace Lending.Sound

variable {l : Lending} {size i : Nat} {b : Borrower} {hub : Hub} {work : Work} {tells drops : Bool}
  {got back : Nat}

theorem start (settings : Settings) (wallClock : UInt64) :
    (Lending.start settings wallClock).Sound settings.dedicatedChannels.toNat := by
  refine ⟨?_, ?_, ?_⟩
  · exact .ofSize settings.dedicatedChannels.toNat
  · exact fun b hb => absurd hb List.not_mem_nil
  · rfl

/-- Who comes has nothing yet. -/
theorem arrive (h : l.Sound size) (work : Work) (hwork : work.hold = .nothing) :
    Lending.Sound { l with borrowers := l.borrowers ++ [.coming work] } size := by
  have hold : ∀ f : Hold → List TicketId, f .nothing = [] →
      (l.borrowers ++ [Borrower.coming work]).flatMap (fun b => f b.work.hold) =
        l.borrowers.flatMap fun b => f b.work.hold := by
    intro f hf
    have hcoming : (Borrower.coming work).work.hold = .nothing := hwork
    rw [List.flatMap_append, List.flatMap_singleton, hcoming, hf, List.append_nil]
  refine ⟨?_, ?_, ?_⟩
  · rw [places, hold Hold.places rfl, channels, hold Hold.channels rfl]
    exact h.accounts
  · intro b hb
    rcases List.mem_append.1 hb with hb | hb
    · exact h.fits b hb
    · rw [List.mem_singleton.1 hb]
      exact Borrower.fits_coming work hwork
  · rw [List.countP_append]
    exact h.acquired

/-- One turn of one borrower keeps the accounts. -/
theorem turn (h : l.Sound size) (hb : l.borrowers[i]? = some b)
    (hdeal : Deal l.hub.pool hub.pool b.work.hold work.hold b.work.asks work.asks (tells || drops)
      got back) :
    Lending.Sound
      ⟨hub, l.borrowers.set i (b.after l.hub.pool hub.pool work tells drops)⟩ size := by
  obtain ⟨front, rear, hsplit, hset⟩ := exists_split_of_getElem? hb
  have hperm : ∀ (f : Borrower → List TicketId) (b' : Borrower),
      ((front ++ b' :: rear).flatMap f).Perm (f b' ++ (front ++ rear).flatMap f) := by
    intro f b'
    rw [List.flatMap_append, List.flatMap_cons, List.flatMap_append]
    exact List.perm_append_comm_assoc ..
  have hbefore := h.accounts
  rw [places, channels, hsplit] at hbefore
  have hbefore := hbefore.perm (hperm (·.work.hold.places) b).symm
    (hperm (·.work.hold.channels) b).symm
  have hafter := hdeal.keeps hbefore
  have hfits := h.fits b (by rw [hsplit]; exact List.mem_append_right _ List.mem_cons_self)
  refine ⟨?_, ?_, ?_⟩
  · rw [places, channels, hset]
    exact hafter.perm (hperm _ _) (hperm _ _)
  · intro b' hb'
    rcases List.mem_or_eq_of_mem_set hb' with hold | rfl
    · exact h.fits b' hold
    · exact Borrower.fits_after hfits hdeal (hdeal.inUse hbefore)
  · have hacquired := h.acquired
    rw [hsplit] at hacquired
    rw [hset]
    simp only [List.countP_append, List.countP_cons] at hacquired ⊢
    rw [Borrower.count_obtained_after hfits hdeal, hdeal.acquired]
    omega

theorem step (h : l.Sound size) (m : LendingMove) : (l.step m).Sound size := by
  cases m with
  | acquire => exact h.arrive .unasked rfl
  | read command =>
      simp only [Lending.step, Lazily.respond]
      cases command.query with
      | error failure => exact h
      | ok planned => exact h.arrive (.reading (.fresh planned.1 planned.2)) rfl
  | poll i =>
      simp only [Lending.step]
      cases hb : l.borrowers[i]? with
      | none => exact h
      | some b =>
          obtain ⟨got, back, hdeal⟩ := b.work.deal_poll l.hub
          rw [← Bool.or_false (b.work.poll.run l.hub).1.1] at hdeal
          exact h.turn hb hdeal
  | drop i =>
      simp only [Lending.step]
      cases hb : l.borrowers[i]? with
      | none => exact h
      | some b =>
          obtain ⟨back, hdeal⟩ := b.work.deal_drop l.hub
          change Deal _ _ _ Work.done.hold _ Work.done.asks (false || true) 0 back at hdeal
          exact h.turn hb hdeal
  | call route call =>
      have hpool := Hub.pool_callOn route call.2 l.hub
      refine ⟨?_, h.fits, ?_⟩
      · simp only [Lending.step]
        rw [hpool]
        exact h.accounts
      · simp only [Lending.step]
        rw [hpool]
        exact h.acquired
  | elapse millis => exact ⟨h.accounts, h.fits, h.acquired⟩

theorem run (h : l.Sound size) (moves : List LendingMove) : (l.run moves).Sound size := by
  induction moves generalizing l with
  | nil => exact h
  | cons m moves ih => exact ih (h.step m)

end Lending.Sound

/-! ## What the counts say -/

/-- The channels in hand are as many as the borrowers that hold one. -/
theorem length_channels {bs : List Borrower} (h : ∀ b ∈ bs, b.Fits) :
    (bs.flatMap (·.work.hold.channels)).length = bs.countP (·.holds) := by
  induction bs with
  | nil => rfl
  | cons b bs ih =>
      have hrest := ih fun b' hb' => h b' (List.mem_cons_of_mem _ hb')
      have hfirst := (h b List.mem_cons_self).holds
      rw [List.flatMap_cons, List.length_append, List.countP_cons, hrest, hfirst, Nat.add_comm]

/-- Who obtained a channel holds it or gave it back. -/
theorem countP_obtained (bs : List Borrower) :
    bs.countP (·.obtained) = bs.countP (·.holds) + bs.countP (·.gaveBack) := by
  induction bs with
  | nil => rfl
  | cons b bs ih =>
      have hfirst : (if b.obtained then 1 else 0) =
          (if b.holds then 1 else 0) + if b.gaveBack then 1 else 0 := by
        unfold Borrower.holds Borrower.gaveBack
        cases b.obtained <;> cases b.told || b.dropped <;> rfl
      simp only [List.countP_cons]
      omega

/-- A place in the accounts is that of a borrower. -/
theorem Lending.mem_places {l : Lending} {t : TicketId} :
    t ∈ l.places ↔ ∃ b ∈ l.borrowers, b.work.hold = .place t := by
  rw [places, List.mem_flatMap]
  refine exists_congr fun b => and_congr_right fun _ => ?_
  cases b.work.hold with
  | place u => simp [Hold.places, eq_comm]
  | _ => simp [Hold.places]

/-- In every run the channels in use are as many as the borrowers that obtained one and have neither
told their end nor been dropped, and never more than the pool has.  The channels that were acquired
and are not in use are those that were given back, each once, by the borrowers that obtained one and
have told their end or were dropped; the leases are those of the holders, no two the same.  Whoever
waits was granted a channel, or queues while every channel is leased or granted to somebody who
asked before and has not looked again. -/
theorem channels_accounted (settings : Settings) (wallClock : UInt64) (moves : List LendingMove) :
    let l := (Lending.start settings wallClock).run moves
    let p := l.hub.pool
    let size := settings.dedicatedChannels.toNat
    p.inUse = l.borrowers.countP (·.holds) ∧ p.inUse ≤ size ∧
      p.acquired = p.inUse + l.borrowers.countP (·.gaveBack) ∧
      (∀ b ∈ l.borrowers, b.returned = if b.gaveBack then 1 else 0) ∧
      (l.channels.Perm p.leased ∧ p.leased.Nodup) ∧
      ∀ b ∈ l.borrowers, ∀ t, b.work.hold = .place t →
        t ∈ p.granted ∨
          t ∈ p.queue ∧ p.inUse + p.granted.length = size ∧
            ∀ g ∈ p.granted, g < t ∧ ∃ b' ∈ l.borrowers, b'.work.hold = .place g := by
  intro l p size
  have hsound : l.Sound size := (Lending.Sound.start settings wallClock).run moves
  have haccounts := hsound.accounts
  have hinUse : p.inUse = l.borrowers.countP (·.holds) := by
    rw [← length_channels hsound.fits]
    exact haccounts.leases.length_eq.symm
  refine ⟨hinUse, ?_, ?_, fun b hb => (hsound.fits b hb).returned, ⟨haccounts.leases, ?_⟩, ?_⟩
  · have hchannels : p.free + p.granted.length + p.inUse = size := haccounts.channels
    omega
  · rw [hinUse, ← countP_obtained]
    exact hsound.acquired
  · exact haccounts.leases.nodup (List.nodup_append.1 haccounts.distinct).2.1
  · intro b hb t ht
    have hmem : t ∈ p.granted ++ p.queue :=
      haccounts.places.mem_iff.1 (Lending.mem_places.2 ⟨b, hb, ht⟩)
    refine (List.mem_append.1 hmem).imp_right fun hqueue => ?_
    obtain ⟨hfull, hearlier⟩ := haccounts.queued hqueue
    refine ⟨hqueue, (Nat.add_comm ..).trans hfull, fun g hg => ⟨hearlier g hg, ?_⟩⟩
    exact Lending.mem_places.1 (haccounts.places.mem_iff.2 (List.mem_append_left _ hg))

/-- A read that waits for what comes. -/
def waitingRead : ReadCommand := ⟨[([97], .latest)], some ⟨some 0, none, false⟩, none⟩

/-- One channel is acquired by hand and a read queues for it; the channel is dropped, and somebody
asks before the read looks again. -/
def takingTurns : List LendingMove :=
  [.acquire, .read waitingRead, .poll 0, .poll 1, .drop 0, .acquire, .poll 2]

theorem channels_accounted_takingTurns :
    let l := (Lending.start ⟨1, 5000, 16⟩ 0).run takingTurns
    l.hub.pool.inUse = 0 ∧ l.borrowers.countP (·.holds) = 0 ∧
      l.hub.pool.acquired = 1 ∧ l.borrowers.countP (·.gaveBack) = 1 ∧
      2 ∈ l.hub.pool.queue ∧ l.hub.pool.inUse + l.hub.pool.granted.length = 1 ∧
      ∃ b' ∈ l.borrowers, b'.work.hold = .place 1 := by
  intro l
  have hpool : l.hub.pool = ⟨0, [2], [1], [], 1, 3⟩ := by decide +kernel
  have hholds : l.borrowers.map (·.work.hold) = [.nothing, .place 1, .place 2] := by
    decide +kernel
  have hnone : l.hub.pool.inUse = 0 := by
    rw [hpool]
    rfl
  have hone : l.hub.pool.acquired = 1 := by rw [hpool]
  have hthird : Hold.place 2 ∈ l.borrowers.map (·.work.hold) := by
    rw [hholds]
    decide
  obtain ⟨b, hb, hplace⟩ := List.mem_map.1 hthird
  obtain ⟨hinUse, -, hacquired, -, -, hwaits⟩ := channels_accounted ⟨1, 5000, 16⟩ 0 takingTurns
  change l.hub.pool.inUse = _ at hinUse
  change l.hub.pool.acquired = l.hub.pool.inUse + _ at hacquired
  rcases hwaits b hb 2 hplace with hgranted | ⟨hqueue, hfull, hearlier⟩
  · change 2 ∈ l.hub.pool.granted at hgranted
    rw [hpool] at hgranted
    exact absurd hgranted (by decide)
  · have hgranted : 1 ∈ l.hub.pool.granted := by
      rw [hpool]
      decide
    rw [hnone, Nat.zero_add, hone] at hacquired
    exact ⟨hnone, hinUse.symm.trans hnone, hone, hacquired.symm, hqueue, hfull,
      (hearlier 1 hgranted).2⟩

end StreamBroker
