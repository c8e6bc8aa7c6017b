import StreamBroker.Front.Provider
import StreamBroker.Proofs.Histories
set_option autoImplicit false

/-!
# Watching the front end

A provider that is watched does what it did before, and notes each deed of the front end with what
came of it.  The front end cannot tell that it is watched, so what the notes of a watched provider
say is what the front end does to any.
-/

namespace StreamBroker

variable {σ : Type}

/-- What the front end does to a provider, and what comes of it. -/
inductive Deed (p : Provider σ) where
  | pulled (position : Nat)
  /-- A call, with the time until its reply and the reply. -/
  | called {k : ReplyKind} (call : Call k) (delay : Nat) (reply : Except Failure k.Value)
  | elapsed (millis : Nat)
  | requested (ticket : p.Ticket)
  | collected (ticket : p.Ticket) (found : Poll (Except Failure p.Lease))
  | withdrawn (ticket : p.Ticket)
  | released (lease : p.Lease)
  | queried (route : Route) (query : Query) (feed : p.Feed)
  /-- A pull from a feed, with what it gave and the feed behind it. -/
  | received (source : p.Feed) (item : Pull Message) (feed : p.Feed)
  | closed (feed : p.Feed)

/-- A world, and what was done to it so far. -/
structure Watched (p : Provider σ) where
  world : σ
  deeds : List (Deed p)

/-- Does something and notes it. -/
def Provider.watch (p : Provider σ) {α : Type} (act : StateM σ α) (deed : α → Deed p) :
    StateM (Watched p) α := fun w =>
  let (a, world) := act.run w.world
  (a, ⟨world, w.deeds ++ [deed a]⟩)

/-- A provider that is watched.  Looking at the clock is no deed. -/
abbrev Provider.watched (p : Provider σ) : Provider (Watched p) where
  Ticket := p.Ticket
  Lease := p.Lease
  Feed := p.Feed
  now := fun w =>
    let (now, world) := p.now.run w.world
    (now, { w with world })
  elapse millis := p.watch (p.elapse millis) fun _ => .elapsed millis
  onPull position := p.watch (p.onPull position) fun _ => .pulled position
  dispatch call := p.watch (p.dispatch call) fun r => .called call r.1 r.2
  request := p.watch p.request .requested
  collect ticket := p.watch (p.collect ticket) (.collected ticket)
  withdraw ticket := p.watch (p.withdraw ticket) fun _ => .withdrawn ticket
  release lease := p.watch (p.release lease) fun _ => .released lease
  submit route query := p.watch (p.submit route query) (.queried route query)
  pull feed := p.watch (p.pull feed) fun r => .received feed r.1 r.2
  close feed := p.watch (p.close feed) fun _ => .closed feed

/-- What comes first is done first. -/
theorem run_bind_of_run {τ α β : Type} {x : StateM τ α} {t t' : τ} {a : α}
    (h : x.run t = (a, t')) (f : α → StateM τ β) : (x >>= f).run t = (f a).run t' := by
  rw [StateT.run_bind, h]
  rfl

namespace Provider

variable {p : Provider σ}

theorem run_watch {α : Type} {act : StateM σ α} {w : Watched p} {a : α} {s : σ}
    (h : act.run w.world = (a, s)) (deed : α → Deed p) :
    (p.watch act deed).run w = (a, ⟨s, w.deeds ++ [deed a]⟩) := by
  have hrun : (p.watch act deed).run w =
      let (a, world) := act.run w.world
      (a, ⟨world, w.deeds ++ [deed a]⟩) := rfl
  rw [hrun, h]

/-- A call is made, and its reply waited for. -/
theorem run_call_watched {k : ReplyKind} {call : Call k} {w : Watched p} {delay : Nat}
    {reply : Except Failure k.Value} {s : σ}
    (h : (p.dispatch call).run w.world = ((delay, reply), s)) :
    (p.watched.call call).run w = (reply, ⟨((p.elapse delay).run s).2,
      w.deeds ++ [.called call delay reply, .elapsed delay]⟩) := by
  have hdispatch : (p.watched.dispatch call).run w =
      ((delay, reply), ⟨s, w.deeds ++ [.called call delay reply]⟩) :=
    run_watch h fun r => .called call r.1 r.2
  have happend : w.deeds ++ [.called call delay reply, .elapsed delay] =
      w.deeds ++ [.called call delay reply] ++ [.elapsed delay] := List.append_cons ..
  unfold Provider.call
  rw [run_bind_of_run hdispatch, happend]
  rfl

section Noted

variable (w : Watched p)

theorem exists_run_request :
    ∃ ticket s, p.request.run w.world = (ticket, s) ∧
      p.watched.request.run w = (ticket, ⟨s, w.deeds ++ [.requested ticket]⟩) :=
  ⟨_, _, rfl, rfl⟩

theorem exists_run_collect (ticket : p.Ticket) :
    ∃ found s, (p.collect ticket).run w.world = (found, s) ∧
      (p.watched.collect ticket).run w = (found, ⟨s, w.deeds ++ [.collected ticket found]⟩) :=
  ⟨_, _, rfl, rfl⟩

theorem exists_run_submit (route : Route) (query : Query) :
    ∃ feed s, (p.submit route query).run w.world = (feed, s) ∧
      (p.watched.submit route query).run w = (feed, ⟨s, w.deeds ++ [.queried route query feed]⟩) :=
  ⟨_, _, rfl, rfl⟩

theorem exists_run_pull (source : p.Feed) :
    ∃ item feed s, (p.pull source).run w.world = ((item, feed), s) ∧
      (p.watched.pull source).run w =
        ((item, feed), ⟨s, w.deeds ++ [.received source item feed]⟩) :=
  ⟨_, _, _, rfl, rfl⟩

end Noted

end Provider

namespace Deed

variable {p : Provider σ}

/-- The position of a command that is pulled. -/
def pulled? : Deed p → Option Nat
  | pulled position => some position
  | _ => none

/-- A call that is made. -/
def called? : Deed p → Option AnyCall
  | called call .. => some ⟨_, call⟩
  | _ => none

/-- What is asked on a channel: a call, or a query with its channel. -/
def asked? : Deed p → Option (AnyCall ⊕ Route × Query)
  | called call .. => some (.inl ⟨_, call⟩)
  | queried route query _ => some (.inr (route, query))
  | _ => none

/-- The place in the queue that is got by asking for a dedicated channel. -/
def requested? : Deed p → Option p.Ticket
  | requested ticket => some ticket
  | _ => none

/-- The place in the queue that is asked about. -/
def lookedUp? : Deed p → Option p.Ticket
  | collected ticket _ => some ticket
  | _ => none

/-- The feed that is pulled. -/
def source? : Deed p → Option p.Feed
  | received source .. => some source
  | _ => none

/-- The feed that is left behind by a query or a pull. -/
def feed? : Deed p → Option p.Feed
  | queried _ _ feed | received _ _ feed => some feed
  | _ => none

/-- What a channel is found to give, or the failure that stands in its place; a channel that is
there has given nothing yet. -/
def answer? : Deed p → Option (Pull Message)
  | collected _ .waiting => some .waiting
  | collected _ (.ready (.error failure)) => some (.item (.error failure))
  | received _ item _ => some item
  | _ => none

end Deed

end StreamBroker
