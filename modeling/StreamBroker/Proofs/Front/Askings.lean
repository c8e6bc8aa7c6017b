import StreamBroker.Proofs.Front.Channels
import StreamBroker.Proofs.Front.LockStep
import StreamBroker.Proofs.Front.Retrievals
import StreamBroker.Proofs.Lending.Borrowers
set_option autoImplicit false

/-!
# Asking for responses on a hub

Every operation of the front end is asked for one response after the other (`Operating.ask`).  On a
hub an asking answers one command at most: one that is rejected with nothing but its failure, one
that changes or measures a stream with its one call on the shared channel, and a scan or a read with
a record stream that has done nothing (`Operating.Answered`).
-/

namespace StreamBroker

/-! ## Demands -/

/-- A command with the operation that it is given to. -/
inductive Demand where
  | change (op : Change) (command : op.Input)
  | length (command : LengthCommand)
  | retrieval (op : Retrieval) (command : op.Input)

/-- What a command asks on which channel, unless it is rejected. -/
def Demand.plan : Demand → Except Failure (Route × Asked)
  | .change op command =>
    (op.plan command).map fun chosen => (.shared, .inl ⟨chosen.kind, chosen.call⟩)
  | .length command => command.plan.map fun chosen => (.shared, .inl ⟨chosen.kind, chosen.call⟩)
  | .retrieval op command => (op.plan command).map fun q => (q.1, .inr q.2)

/-- A command asks on a dedicated channel just if it carries a time to wait. -/
theorem Demand.route_of_plan {demand : Demand} {route : Route} {what : Asked}
    (h : demand.plan = .ok (route, what)) : route = .dedicated ↔ what.carriesBlock = true := by
  cases demand with
  | change op command =>
      obtain ⟨chosen, -, hchosen⟩ := exists_of_map_eq_ok h
      cases hchosen
      exact ⟨nofun, nofun⟩
  | length command =>
      obtain ⟨chosen, -, hchosen⟩ := exists_of_map_eq_ok h
      cases hchosen
      exact ⟨nofun, nofun⟩
  | retrieval op command =>
      obtain ⟨q, hq, hchosen⟩ := exists_of_map_eq_ok h
      cases hchosen
      cases op with
      | scan direction =>
          obtain ⟨hroute, hblock⟩ := RangeCommand.route_of_routed hq
          rw [hroute, hblock]
          exact ⟨nofun, nofun⟩
      | read => exact ReadCommand.route_of_query hq

/-! ## Operations under way -/

/-- An operation that is under way, with the commands that it is given. -/
inductive Operating where
  | changing (op : Change) (source : Nat → Option op.Input) (progress : Ordered)
  | measuring (window : Nat) (source : Nat → Option LengthCommand) (progress : Lengths)
  | retrieving (op : Retrieval) (source : Nat → Option op.Input) (pulled : Nat)

/-- Asks for the next response: the command that it answers, with its record stream if it has
one. -/
def Operating.ask {σ : Type} (p : Provider σ) :
    Operating → StateM σ (Option (Demand × Option (RecordStream p)) × Operating)
  | changing op source progress => do
    let (response, progress) ← Ordered.next p source op.plan progress
    return (response.map fun r => (.change op r.command, none), changing op source progress)
  | measuring window source progress => do
    let (response, progress) ← Lengths.next p window source progress
    return (response.map fun r => (.length r.command, none), measuring window source progress)
  | retrieving op source pulled => do
    let (response, pulled) ← Lazily.next p source op.plan pulled
    return (response.map fun r => (.retrieval op r.command, r.outcome.toOption),
      retrieving op source pulled)

/-! ## Calls on a hub -/

namespace Hub

/-- How many calls there were on a channel. -/
def calls (h : Hub) : Route → Nat
  | .shared => h.sharedCalls
  | .dedicated => h.dedicatedCalls

theorem calls_count (h : Hub) (route route' : Route) :
    (h.count route).calls route' = h.calls route' + if route = route' then 1 else 0 := by
  cases route <;> cases route' <;> rfl

/-- A call is counted on its channel, and changes nothing else but the engine. -/
theorem run_callOn_snd {k : ReplyKind} (route : Route) (call : Call k) (h : Hub) :
    ∃ engine names, ((callOn route call).run h).2 = { h.count route with engine, names } := by
  have hperform : ((callOn route call).run h).2 = ((perform call).run (h.count route)).2 := rfl
  rw [hperform]
  generalize h.count route = h
  unfold perform
  rw [StateT.run_modifyGet]
  cases call with
  | add key request body =>
      rcases h.engine.perform h.wallClock (.add key request body) with ⟨failure | id, engine⟩
      · exact ⟨engine, h.names, rfl⟩
      · refine ⟨engine, ((Hub.nameLast { h with engine } key request)).names, ?_⟩
        change Hub.nameLast { h with engine } key request = _
        unfold nameLast
        simp only
        split <;> rfl
  | _ => exact ⟨_, h.names, rfl⟩

theorem calls_callOn {k : ReplyKind} (route : Route) (call : Call k) (h : Hub) (route' : Route) :
    ((callOn route call).run h).2.calls route' =
      h.calls route' + if route = route' then 1 else 0 := by
  obtain ⟨engine, names, hrun⟩ := run_callOn_snd route call h
  rw [hrun, ← calls_count]
  cases route' <;> rfl

theorem now_callOn {k : ReplyKind} (route : Route) (call : Call k) (h : Hub) :
    ((callOn route call).run h).2.now = h.now := by
  obtain ⟨engine, names, hrun⟩ := run_callOn_snd route call h
  rw [hrun]
  cases route <;> rfl

/-- What is left behind when a command is answered on a hub: the hub as it was, with nothing done
but commands pulled, or the hub behind the one call of the command. -/
inductive Carried {C R : Type} (plan : C → Except Failure (Plan R)) (h : Hub) (c : C) :
    Watched Hub.provider → Prop where
  | rejected {failure : Failure} (hplan : plan c = .error failure)
      {deeds : List (Deed Hub.provider)} (hpulls : ∀ deed ∈ deeds, ∃ k, deed = .pulled k) :
      Carried plan h c ⟨h, deeds⟩
  | called {chosen : Plan R} (hplan : plan c = .ok chosen) {deeds : List (Deed Hub.provider)}
      (hmarks : marks deeds = [.asked .shared (.inl ⟨chosen.kind, chosen.call⟩)]) :
      Carried plan h c ⟨((callOn .shared chosen.call).run h).2, deeds⟩

theorem run_dispatch {k : ReplyKind} (call : Call k) (h : Hub) :
    (Hub.provider.dispatch call).run h =
      ((0, ((callOn .shared call).run h).1), ((callOn .shared call).run h).2) :=
  rfl

theorem run_dispatch_watched {k : ReplyKind} (call : Call k) (w : Watched Hub.provider) :
    (Hub.provider.watched.dispatch call).run w =
      ((0, ((callOn .shared call).run w.world).1), ⟨((callOn .shared call).run w.world).2,
        w.deeds ++ [.called call 0 ((callOn .shared call).run w.world).1]⟩) :=
  rfl

end Hub

theorem marks_of_pulls {σ : Type} {p : Provider σ} {deeds : List (Deed p)}
    (h : ∀ deed ∈ deeds, ∃ k, deed = .pulled k) : marks deeds = [] := by
  refine List.filterMap_eq_nil_iff.2 fun deed hdeed => ?_
  obtain ⟨k, rfl⟩ := h deed hdeed
  rfl

/-- In strict order a command is answered when it is pulled. -/
theorem Ordered.run_next_hub {C R : Type} (source : Nat → Option C)
    (plan : C → Except Failure (Plan R)) (o : Ordered) (h : Hub) :
    (∃ o', (next Hub.provider.watched source plan o).run ⟨h, []⟩ = ((none, o'), ⟨h, []⟩)) ∨
      ∃ response o' w,
        (next Hub.provider.watched source plan o).run ⟨h, []⟩ = ((some response, o'), w) ∧
          Hub.Carried plan h response.command w := by
  obtain ⟨k, isOver⟩ := o
  cases isOver with
  | true => exact .inl ⟨_, rfl⟩
  | false =>
      cases hsource : source k with
      | none =>
          left
          refine ⟨⟨k, true⟩, ?_⟩
          unfold next
          simp only [hsource, Bool.false_eq_true, if_false]
          rfl
      | some c =>
          right
          have hrun : (next Hub.provider.watched source plan ⟨k, false⟩).run ⟨h, []⟩ =
              let (outcome, w) := (execute Hub.provider.watched plan c).run ⟨h, [.pulled k]⟩
              ((some ⟨c, outcome⟩, ⟨k + 1, !goesOn outcome⟩), w) := by
            unfold next
            simp only [hsource, Bool.false_eq_true, if_false]
            rfl
          rw [hrun]
          cases hplan : plan c with
          | error failure =>
              rw [run_execute_rejected hplan]
              refine ⟨_, _, _, rfl, .rejected hplan fun deed hdeed => ?_⟩
              exact ⟨k, List.mem_singleton.1 hdeed⟩
          | ok chosen =>
              unfold execute
              rw [hplan]
              simp only
              rw [StateT.run_bind, Provider.run_call_watched (Hub.run_dispatch chosen.call h)]
              refine ⟨_, _, _, rfl, .called hplan ?_⟩
              rfl

namespace Lengths

/-- No command in the window is started. -/
def Unstarted (l : Lengths) : Prop := ∀ slot ∈ l.slots, ∃ c, slot = .queued c

theorem unstarted_start : start.Unstarted := nofun

section Fill

variable {source : Nat → Option LengthCommand} {l : Lengths} (w : Watched Hub.provider)

theorem run_fill_zero :
    (fill Hub.provider.watched source 0 l).run w = (l, w) := by
  unfold fill
  rfl

theorem run_fill_dry (hdry : l.isDry) (n : Nat) :
    (fill Hub.provider.watched source (n + 1) l).run w = (l, w) := by
  unfold fill
  rw [if_pos hdry]
  rfl

theorem run_fill_none (hdry : l.isDry = false) (hsource : source l.pulled = none) (n : Nat) :
    (fill Hub.provider.watched source (n + 1) l).run w = ({ l with isDry := true }, w) := by
  unfold fill
  simp only [hdry, hsource, Bool.false_eq_true, if_false]
  rfl

theorem run_fill_some {c : LengthCommand} (hdry : l.isDry = false)
    (hsource : source l.pulled = some c) (n : Nat) :
    (fill Hub.provider.watched source (n + 1) l).run w =
      (fill Hub.provider.watched source n
        { l with pulled := l.pulled + 1, slots := l.slots ++ [.queued c] }).run
        ⟨w.world, w.deeds ++ [.pulled l.pulled]⟩ := by
  have hpull : (Hub.provider.watched.onPull l.pulled).run w =
      ((), ⟨w.world, w.deeds ++ [.pulled l.pulled]⟩) := rfl
  rw [fill]
  simp only [hdry, hsource, Bool.false_eq_true, if_false]
  rw [run_bind_of_run hpull]

end Fill

/-- Filling the window pulls commands and starts none. -/
theorem run_fill_hub (source : Nat → Option LengthCommand) (n : Nat) {l : Lengths}
    (hl : l.Unstarted) (h : Hub) (deeds : List (Deed Hub.provider)) :
    ∃ l' pulls, (fill Hub.provider.watched source n l).run ⟨h, deeds⟩ = (l', ⟨h, deeds ++ pulls⟩) ∧
      l'.Unstarted ∧ ∀ deed ∈ pulls, ∃ k, deed = .pulled k := by
  induction n generalizing l deeds with
  | zero =>
      refine ⟨l, [], ?_, hl, List.forall_mem_nil _⟩
      rw [run_fill_zero, List.append_nil]
  | succ n ih =>
      cases hdry : l.isDry with
      | true =>
          refine ⟨l, [], ?_, hl, List.forall_mem_nil _⟩
          rw [run_fill_dry _ hdry, List.append_nil]
      | false =>
          cases hsource : source l.pulled with
          | none =>
              refine ⟨{ l with isDry := true }, [], ?_, hl, List.forall_mem_nil _⟩
              rw [run_fill_none _ hdry hsource, List.append_nil]
          | some c =>
              have hmore : Unstarted
                  { l with pulled := l.pulled + 1, slots := l.slots ++ [.queued c] } := by
                intro slot hslot
                rcases List.mem_append.1 hslot with hbefore | hlast
                · exact hl slot hbefore
                · exact ⟨c, List.mem_singleton.1 hlast⟩
              obtain ⟨l', pulls, hrun, hl', hpulls⟩ := ih hmore (deeds ++ [.pulled l.pulled])
              refine ⟨l', .pulled l.pulled :: pulls, ?_, hl', ?_⟩
              · rw [run_fill_some _ hdry hsource, hrun, ← List.append_cons]
              · exact List.forall_mem_cons.2 ⟨⟨_, rfl⟩, hpulls⟩

/-- A command that is started on a hub has its reply at once. -/
theorem run_launch_hub (c : LengthCommand) (h : Hub) {deeds : List (Deed Hub.provider)}
    (hpulls : ∀ deed ∈ deeds, ∃ k, deed = .pulled k) :
    ∃ arrival outcome w,
      (launch Hub.provider.watched (.queued c)).run ⟨h, deeds⟩ = (⟨c, arrival, outcome⟩, w) ∧
        arrival ≤ w.world.now ∧ Hub.Carried LengthCommand.plan h c w := by
  have hnow : (Hub.provider.watched.now).run ⟨h, deeds⟩ = (h.now, ⟨h, deeds⟩) := rfl
  unfold launch
  rw [run_bind_of_run hnow]
  cases hplan : c.plan with
  | error failure => exact ⟨h.now, _, _, rfl, Nat.le_refl _, .rejected hplan hpulls⟩
  | ok chosen =>
      have hdispatch := Hub.run_dispatch_watched chosen.call ⟨h, deeds⟩
      refine ⟨h.now + 0, _, _, run_bind_of_run hdispatch _, ?_, .called hplan ?_⟩
      · exact Nat.le_of_eq (Hub.now_callOn .shared chosen.call h).symm
      · rw [marks_append, marks_of_pulls hpulls]
        rfl

theorem run_next_hub (window : Nat) (source : Nat → Option LengthCommand) {l : Lengths}
    (hl : l.Unstarted) (h : Hub) :
    ∃ response l' w, (next Hub.provider.watched window source l).run ⟨h, []⟩ = ((response, l'), w) ∧
      l'.Unstarted ∧ ((response = none ∧ w.world = h) ∨
        ∃ r, response = some r ∧ Hub.Carried LengthCommand.plan h r.command w) := by
  obtain ⟨filled, pulls, hfill, hfilled, hpulls⟩ :=
    run_fill_hub source (max 1 window - l.slots.length) hl h []
  rw [List.nil_append] at hfill
  unfold next
  rw [run_bind_of_run hfill]
  cases hslots : filled.slots with
  | nil => exact ⟨none, filled, _, rfl, hfilled, .inl ⟨rfl, rfl⟩⟩
  | cons slot rest =>
      have hrest : Unstarted { filled with slots := rest } :=
        fun slot' hslot => hfilled slot' (by rw [hslots]; exact List.mem_cons_of_mem _ hslot)
      obtain ⟨c, rfl⟩ := hfilled slot (by rw [hslots]; exact List.mem_cons_self)
      obtain ⟨arrival, outcome, w, hlaunch, harrival, hcarried⟩ := run_launch_hub c h hpulls
      have hnow : (Hub.provider.watched.now).run w = (w.world.now, w) := rfl
      dsimp only
      rw [run_bind_of_run hlaunch, run_bind_of_run hnow]
      simp only [harrival, if_true]
      exact ⟨some ⟨c, outcome⟩, _, w, rfl, hrest, .inr ⟨_, rfl, hcarried⟩⟩

end Lengths

/-! ## Any operation on a hub -/

/-- What an asking on a hub comes to: nothing, a command that is rejected, the one call of a command,
or a record stream that has done nothing. -/
inductive Hub.Answered (h : Hub) :
    Option (Demand × Option (RecordStream Hub.provider.watched)) → Watched Hub.provider → Prop where
  | nobody (deeds : List (Deed Hub.provider)) : Answered h none ⟨h, deeds⟩
  | rejected {demand : Demand} {failure : Failure} (hplan : demand.plan = .error failure)
      {deeds : List (Deed Hub.provider)} (hpulls : ∀ deed ∈ deeds, ∃ k, deed = .pulled k) :
      Answered h (some (demand, none)) ⟨h, deeds⟩
  | called {demand : Demand} {call : AnyCall} (hplan : demand.plan = .ok (.shared, .inl call))
      {deeds : List (Deed Hub.provider)} (hmarks : marks deeds = [.asked .shared (.inl call)]) :
      Answered h (some (demand, none)) ⟨((Hub.callOn .shared call.2).run h).2, deeds⟩
  | opened {demand : Demand} {route : Route} {query : Query}
      (hplan : demand.plan = .ok (route, .inr query)) {deeds : List (Deed Hub.provider)}
      (hpulls : ∀ deed ∈ deeds, ∃ k, deed = .pulled k) :
      Answered h (some (demand, some (.fresh route query))) ⟨h, deeds⟩

theorem Hub.Carried.answered {C R : Type} {plan : C → Except Failure (Plan R)} {h : Hub} {c : C}
    {w : Watched Hub.provider} (hcarried : Hub.Carried plan h c w) {demand : Demand}
    (hdemand : demand.plan =
      (plan c).map fun chosen => (.shared, .inl ⟨chosen.kind, chosen.call⟩)) :
    Hub.Answered h (some (demand, none)) w := by
  cases hcarried with
  | rejected hplan hpulls =>
      rw [hplan] at hdemand
      exact .rejected hdemand hpulls
  | called hplan hmarks =>
      rw [hplan] at hdemand
      exact .called hdemand hmarks

namespace Operating

/-- No command is started before it is answered. -/
def Idle : Operating → Prop
  | measuring _ _ progress => progress.Unstarted
  | changing .. | retrieving .. => True

theorem run_ask_hub {o : Operating} (ho : o.Idle) (h : Hub) :
    ∃ answer o' w, (o.ask Hub.provider.watched).run ⟨h, []⟩ = ((answer, o'), w) ∧ o'.Idle ∧
      Hub.Answered h answer w := by
  unfold ask
  cases o with
  | changing op source progress =>
      rcases Ordered.run_next_hub source op.plan progress h with
        ⟨progress', hrun⟩ | ⟨response, progress', w, hrun, hcarried⟩
      · exact ⟨_, _, _, run_bind_of_run hrun _, trivial, .nobody []⟩
      · exact ⟨_, _, _, run_bind_of_run hrun _, trivial, hcarried.answered rfl⟩
  | measuring window source progress =>
      obtain ⟨response, progress', w, hrun, hprogress, ⟨rfl, rfl⟩ | ⟨r, rfl, hcarried⟩⟩ :=
        Lengths.run_next_hub window source ho h
      · exact ⟨_, _, _, run_bind_of_run hrun _, hprogress, .nobody w.deeds⟩
      · exact ⟨_, _, _, run_bind_of_run hrun _, hprogress, hcarried.answered rfl⟩
  | retrieving op source pulled =>
      cases hsource : source pulled with
      | none =>
          have hrun : (Lazily.next Hub.provider.watched source op.plan pulled).run ⟨h, []⟩ =
              ((none, pulled), ⟨h, []⟩) := by
            unfold Lazily.next
            rw [hsource]
            rfl
          exact ⟨_, _, _, run_bind_of_run hrun _, trivial, .nobody []⟩
      | some c =>
          have hrun : (Lazily.next Hub.provider.watched source op.plan pulled).run ⟨h, []⟩ =
              ((some (Lazily.respond Hub.provider.watched op.plan c), pulled + 1),
                ⟨h, [.pulled pulled]⟩) := by
            unfold Lazily.next
            rw [hsource]
            rfl
          have hpulls : ∀ deed ∈ [(.pulled pulled : Deed Hub.provider)], ∃ k, deed = .pulled k :=
            fun deed hdeed => ⟨pulled, List.mem_singleton.1 hdeed⟩
          refine ⟨_, _, _, run_bind_of_run hrun _, trivial, ?_⟩
          unfold Lazily.respond
          cases hplan : op.plan c with
          | error failure =>
              have hdemand : (Demand.retrieval op c).plan = .error failure := by
                rw [Demand.plan, hplan]
                rfl
              exact .rejected hdemand hpulls
          | ok q =>
              have hdemand : (Demand.retrieval op c).plan = .ok (q.1, .inr q.2) := by
                rw [Demand.plan, hplan]
                rfl
              exact .opened hdemand hpulls

end Operating

/-! ## Watching changes nothing -/

/-- Doing something is the same whether it is seen or not. -/
structure Unseen {σ α : Type} {p : Provider σ} (plain : StateM σ α) (seen : StateM (Watched p) α) :
    Prop where
  run : ∀ w, plain.run w.world = ((seen.run w).1, (seen.run w).2.world)

namespace Unseen

variable {σ α β : Type} {p : Provider σ}

theorem pure (a : α) : Unseen (p := p) (pure a) (pure a) := ⟨fun _ => rfl⟩

theorem now : Unseen p.now p.watched.now := ⟨fun _ => rfl⟩

theorem bind {x : StateM σ α} {x' : StateM (Watched p) α} {f : α → StateM σ β}
    {f' : α → StateM (Watched p) β} (hx : Unseen x x') (hf : ∀ a, Unseen (f a) (f' a)) :
    Unseen (x >>= f) (x' >>= f') := by
  refine ⟨fun w => ?_⟩
  rw [StateT.run_bind, StateT.run_bind, hx.run w]
  exact (hf _).run _

end Unseen

namespace Lengths

variable {σ : Type} (p : Provider σ)

theorem unseen_fill (source : Nat → Option LengthCommand) (n : Nat) (l : Lengths) :
    Unseen (fill p source n l) (fill p.watched source n l) := by
  induction n generalizing l with
  | zero => exact .pure l
  | succ n ih =>
      unfold fill
      split
      · exact .pure l
      · split
        · exact .pure _
        · exact .bind ⟨fun _ => rfl⟩ fun _ => ih _

theorem unseen_launch (slot : Slot) : Unseen (launch p slot) (launch p.watched slot) := by
  cases slot with
  | started => exact .pure _
  | queued c =>
      unfold launch
      refine .bind .now fun now => ?_
      split
      · exact .pure _
      · exact .bind ⟨fun _ => rfl⟩ fun _ => .pure _

theorem unseen_launchAll (slots : List Slot) :
    Unseen (launchAll p slots) (launchAll p.watched slots) := by
  induction slots with
  | nil => exact .pure _
  | cons slot rest ih =>
      exact .bind (unseen_launch p slot) fun flight => .bind ih fun _ => .pure _

theorem unseen_next (window : Nat) (source : Nat → Option LengthCommand) (l : Lengths) :
    Unseen (next p window source l) (next p.watched window source l) := by
  unfold next
  refine .bind (unseen_fill ..) fun filled => ?_
  split
  · exact .pure _
  · refine .bind (unseen_launch ..) fun flight => .bind .now fun now => ?_
    dsimp only
    split
    · exact .pure _
    · exact .bind (unseen_launchAll ..) fun rest => .bind ⟨fun _ => rfl⟩ fun _ => .pure _

end Lengths

/-- Asking for a response gives what it gives when nobody watches. -/
theorem Operating.run_ask_unwatched {σ : Type} {p : Provider σ} (o : Operating) (w : Watched p) :
    (o.ask p).run w.world =
      let ((answer, o), w) := (o.ask p.watched).run w
      ((answer.map fun a => (a.1, a.2.map RecordStream.unwatched), o), w.world) := by
  cases o with
  | changing op source progress =>
      have hnext := Ordered.run_next_unwatched source op.plan progress w
      unfold ask
      rw [StateT.run_bind, StateT.run_bind, hnext]
      rcases (Ordered.next p.watched source op.plan progress).run w with ⟨⟨_ | response, _⟩, _⟩ <;>
        rfl
  | measuring window source progress =>
      have hnext := (Lengths.unseen_next p window source progress).run w
      unfold ask
      rw [StateT.run_bind, StateT.run_bind, hnext]
      rcases (Lengths.next p.watched window source progress).run w with ⟨⟨_ | response, _⟩, _⟩ <;>
        rfl
  | retrieving op source pulled =>
      have hnext := Lazily.run_next_unwatched source op.plan pulled w
      unfold ask
      rw [StateT.run_bind, StateT.run_bind, hnext]
      rcases (Lazily.next p.watched source op.plan pulled).run w with
        ⟨⟨_ | ⟨command, outcome⟩, _⟩, _⟩
      · rfl
      · cases outcome <;> rfl

end StreamBroker
