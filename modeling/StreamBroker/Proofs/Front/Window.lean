import StreamBroker.Proofs.Front.Askings
set_option autoImplicit false

/-!
# One lookup in a window

When the response to a lookup is asked for, commands are pulled as long as the window has room and
started in their order.  Whatever the front end does for that is a passage (`Passage`): it pulls
some commands and starts some, and no command is started twice.  An asking is told by the commands
that it pulls, those that it starts and the one that it answers (`Lengths.Asking`).

A provider may go by a clock (`Provider.KeepsTime`); no command is answered before its reply
arrives.
-/

namespace StreamBroker

variable {σ : Type} {p : Provider σ}

/-! ## Commands that were started -/

/-- A call with its reply. -/
abbrev Replied := (k : ReplyKind) × Call k × Except Failure k.Value

/-- A command that was started, with the moment from which its outcome is there and, unless it is
rejected, the reply to its call. -/
structure Lookup where
  command : LengthCommand
  arrival : Nat
  reply : Except Failure Nat

namespace Lookup

/-- A command without a key is rejected, and any other has the reply to its own call. -/
def outcome (k : Lookup) : Except Failure Nat :=
  match k.command.key with
  | none => .error (.contract (.absent .key))
  | some _ => k.reply

def response (k : Lookup) : Response LengthCommand Nat := ⟨k.command, k.outcome⟩

/-- The call of a command that has a key, with its reply. -/
def call? (k : Lookup) : Option Replied :=
  k.command.key.map fun key => ⟨.count, .length key, k.reply⟩

/-- When the reply to the call of a command arrives, if it has one. -/
def arrival? (k : Lookup) : Option Nat := k.command.key.map fun _ => k.arrival

/-- A started command as it stands in the window. -/
def slot (k : Lookup) : Slot := .started k.command k.arrival k.outcome

def flight (k : Lookup) : Flight := ⟨k.command, k.arrival, k.outcome⟩

theorem arrival_of_arrival? {k : Lookup} {arrival : Nat} (h : k.arrival? = some arrival) :
    k.arrival = arrival := by
  obtain ⟨-, -, harrival⟩ := Option.map_eq_some_iff.mp h
  exact harrival

/-- As many calls are made as commands have a key. -/
theorem length_calls (l : List Lookup) :
    (l.filterMap call?).length = ((l.map response).filterMap (·.command.key)).length := by
  induction l with
  | nil => rfl
  | cons k rest ih =>
      rw [List.map_cons, List.filterMap_cons, List.filterMap_cons]
      unfold call? response
      cases k.command.key with
      | none => exact ih
      | some key => exact congrArg Nat.succ ih

end Lookup

theorem LengthCommand.plan_of_none {c : LengthCommand} (h : c.key = none) :
    c.plan = .error (.contract (.absent .key)) := by
  rw [plan, h]
  rfl

theorem LengthCommand.plan_of_some {c : LengthCommand} {key : Bytes} (h : c.key = some key) :
    c.plan = .ok ⟨.count, .length key, .ok⟩ := by
  rw [plan, h]
  rfl

/-! ## Time -/

/-- A clock that a provider goes by: it is what the front end is shown, and it moves by the time that
is let pass and not otherwise. -/
structure Provider.KeepsTime (p : Provider σ) (clock : σ → Nat) : Prop where
  now : ∀ s, p.now.run s = (clock s, s)
  onPull : ∀ position s, clock ((p.onPull position).run s).2 = clock s
  dispatch : ∀ {k : ReplyKind} (call : Call k) s, clock ((p.dispatch call).run s).2 = clock s
  elapse : ∀ millis s, clock ((p.elapse millis).run s).2 = clock s + millis

namespace Deed

/-- A call that is made, with its reply. -/
def replied? : Deed p → Option Replied
  | called call _ reply => some ⟨_, call, reply⟩
  | _ => none

/-- The time that is let pass. -/
def millis : Deed p → Nat
  | elapsed millis => millis
  | _ => 0

/-- When the reply to a call arrives that is made at a time. -/
def arrival? (now : Nat) : Deed p → Option Nat
  | called _ delay _ => some (now + delay)
  | _ => none

end Deed

/-- The time that is let pass altogether. -/
def spent : List (Deed p) → Nat
  | [] => 0
  | deed :: rest => deed.millis + spent rest

/-- When the replies arrive to the calls of some deeds, the first of which is done at a time. -/
def arrivals : Nat → List (Deed p) → List Nat
  | _, [] => []
  | now, deed :: rest => (deed.arrival? now).toList ++ arrivals (now + deed.millis) rest

theorem spent_append (deeds more : List (Deed p)) :
    spent (deeds ++ more) = spent deeds + spent more := by
  induction deeds with
  | nil => exact (Nat.zero_add _).symm
  | cons deed rest ih => rw [List.cons_append, spent, spent, ih, Nat.add_assoc]

theorem arrivals_append (now : Nat) (deeds more : List (Deed p)) :
    arrivals now (deeds ++ more) = arrivals now deeds ++ arrivals (now + spent deeds) more := by
  induction deeds generalizing now with
  | nil => rfl
  | cons deed rest ih =>
      rw [List.cons_append, arrivals, arrivals, ih, spent, List.append_assoc, Nat.add_assoc]

theorem length_arrivals_le (now : Nat) {deeds more : List (Deed p)} (h : deeds <+: more) :
    (arrivals now deeds).length ≤ (arrivals now more).length := by
  obtain ⟨later, rfl⟩ := h
  rw [arrivals_append, List.length_append]
  exact Nat.le_add_right ..

/-! ## Positions -/

theorem range_append_range' (n more : Nat) :
    List.range n ++ List.range' n more = List.range (n + more) := by
  have happend := List.range'_append_1 (s := 0) (m := n) (n := more)
  rwa [Nat.zero_add, ← List.range_eq_range', ← List.range_eq_range'] at happend

/-- What was pulled from a source is what it has at each position. -/
theorem source_of_getElem? {C : Type} {source : Nat → Option C} {pulled : List C} {n i : Nat} {c : C}
    (h : pulled.map some = (List.range n).map source) (hi : pulled[i]? = some c) :
    source i = some c := by
  have hposition := congrArg (·[i]?) h
  simp only [List.getElem?_map, hi, Option.map_some] at hposition
  obtain ⟨j, hj, hsource⟩ := Option.map_eq_some_iff.mp hposition.symm
  obtain ⟨hlt, hvalue⟩ := List.getElem?_eq_some_iff.mp hj
  rw [List.getElem_range] at hvalue
  rw [hvalue]
  exact hsource

/-- Commands that were pulled one at each position are the first of a list if they were pulled from
it. -/
theorem prefix_of_source {C : Type} {commands pulled : List C} {n : Nat}
    (h : pulled.map some = (List.range n).map (commands[·]?)) : pulled <+: commands := by
  rw [List.prefix_iff_getElem?]
  intro i hi
  exact source_of_getElem? h (List.getElem?_eq_getElem hi)

/-! ## What the front end does at once -/

/-- What the front end did between two states of a watched world: it pulled commands and started
some. -/
structure Passage (w : Watched p) (more : List (Deed p)) (pulls : List Nat) (news : List Lookup)
    (w' : Watched p) : Prop where
  deeds : w'.deeds = w.deeds ++ more
  pulls : more.filterMap Deed.pulled? = pulls
  calls : more.filterMap Deed.replied? = news.filterMap Lookup.call?
  clock : ∀ clock, p.KeepsTime clock → clock w'.world = clock w.world + spent more
  arrivals : ∀ clock, p.KeepsTime clock →
    arrivals (clock w.world) more = news.filterMap Lookup.arrival?

namespace Passage

theorem refl (w : Watched p) : Passage w [] [] [] w :=
  ⟨(List.append_nil _).symm, rfl, rfl, fun _ _ => rfl, fun _ _ => rfl⟩

theorem trans {w w₁ w₂ : Watched p} {more₁ more₂ : List (Deed p)} {pulls₁ pulls₂ : List Nat}
    {news₁ news₂ : List Lookup} (h₁ : Passage w more₁ pulls₁ news₁ w₁)
    (h₂ : Passage w₁ more₂ pulls₂ news₂ w₂) :
    Passage w (more₁ ++ more₂) (pulls₁ ++ pulls₂) (news₁ ++ news₂) w₂ where
  deeds := by rw [h₂.deeds, h₁.deeds, List.append_assoc]
  pulls := by rw [List.filterMap_append, h₁.pulls, h₂.pulls]
  calls := by rw [List.filterMap_append, h₁.calls, h₂.calls, List.filterMap_append]
  clock clock hclock := by
    rw [h₂.clock clock hclock, h₁.clock clock hclock, spent_append, Nat.add_assoc]
  arrivals clock hclock := by
    rw [arrivals_append, ← h₁.clock clock hclock, h₁.arrivals clock hclock,
      h₂.arrivals clock hclock, List.filterMap_append]

/-- A passage that takes no time leaves the clock alone. -/
theorem still {w w' : Watched p} {more : List (Deed p)} {pulls : List Nat} {news : List Lookup}
    (h : Passage w more pulls news w') (hstill : spent more = 0) {clock : σ → Nat}
    (hclock : p.KeepsTime clock) : clock w'.world = clock w.world := by
  rw [h.clock clock hclock, hstill, Nat.add_zero]

end Passage

namespace Lengths

variable {source : Nat → Option LengthCommand} {window : Nat}

/-- Looking at the clock. -/
theorem run_now (w : Watched p) :
    ∃ now w', p.watched.now.run w = (now, w') ∧ Passage w [] [] [] w' ∧
      ∀ clock, p.KeepsTime clock → now = clock w.world := by
  refine ⟨_, _, rfl, ⟨(List.append_nil _).symm, rfl, rfl, ?_, fun _ _ => rfl⟩, ?_⟩
  · intro clock hclock
    have hnow := congrArg Prod.snd (hclock.now w.world)
    exact congrArg clock hnow
  · intro clock hclock
    exact congrArg Prod.fst (hclock.now w.world)

theorem run_elapse (millis : Nat) (w : Watched p) :
    ∃ w', (p.watched.elapse millis).run w = ((), w') ∧ Passage w [.elapsed millis] [] [] w' :=
  ⟨_, rfl, rfl, rfl, rfl, fun _ hclock => hclock.elapse millis w.world, fun _ _ => rfl⟩

/-- What comes of filling the window with at most `n` commands: the next ones are pulled, and fewer
only if no more are left. -/
structure Filled (source : Nat → Option LengthCommand) (n : Nat) (l : Lengths) (w : Watched p)
    (commands : List LengthCommand) (isDry : Bool) (w' : Watched p) : Prop where
  run : (fill p.watched source n l).run w =
    (⟨l.pulled + commands.length, isDry, l.slots ++ commands.map .queued⟩, w')
  pulled : commands.map some = (List.range' l.pulled commands.length).map source
  room : commands.length ≤ n
  dry : isDry = true → source (l.pulled + commands.length) = none
  full : commands.length < n → isDry = true
  passage : ∃ more, Passage w more (List.range' l.pulled commands.length) [] w' ∧ spent more = 0

/-- Nothing is pulled if there is no room or if no command is left. -/
theorem Filled.nothing {n : Nat} {l : Lengths} {w : Watched p} {isDry : Bool}
    (hrun : (fill p.watched source n l).run w = ({ l with isDry }, w))
    (hdry : isDry = true → source l.pulled = none) (hfull : 0 < n → isDry = true) :
    Filled source n l w [] isDry w where
  run := by rw [hrun, List.map_nil, List.append_nil]; rfl
  pulled := rfl
  room := Nat.zero_le n
  dry := hdry
  full := hfull
  passage := ⟨[], .refl w, rfl⟩

theorem exists_filled (n : Nat) {l : Lengths} (hdry : l.isDry = true → source l.pulled = none)
    (w : Watched p) : ∃ commands isDry w', Filled source n l w commands isDry w' := by
  induction n generalizing l w with
  | zero => exact ⟨[], l.isDry, w, .nothing rfl hdry nofun⟩
  | succ n ih =>
      cases hisDry : l.isDry with
      | true =>
          refine ⟨[], true, w, .nothing ?_ (fun _ => hdry hisDry) fun _ => rfl⟩
          unfold fill
          rw [if_pos hisDry, ← hisDry]
          rfl
      | false =>
          cases hsource : source l.pulled with
          | none =>
              refine ⟨[], true, w, .nothing ?_ (fun _ => hsource) fun _ => rfl⟩
              unfold fill
              simp only [hisDry, hsource, Bool.false_eq_true, if_false]
              rfl
          | some c =>
              obtain ⟨commands, isDry, w', h⟩ := @ih
                { l with pulled := l.pulled + 1, slots := l.slots ++ [.queued c] }
                (fun h => absurd (hisDry.symm.trans h) Bool.false_ne_true)
                ⟨((p.onPull l.pulled).run w.world).2, w.deeds ++ [.pulled l.pulled]⟩
              obtain ⟨more, hpassage, hstill⟩ := h.passage
              have hpull : Passage w [.pulled l.pulled] [l.pulled] []
                  ⟨((p.onPull l.pulled).run w.world).2, w.deeds ++ [.pulled l.pulled]⟩ :=
                ⟨rfl, rfl, rfl, fun _ hclock => hclock.onPull l.pulled w.world, fun _ _ => rfl⟩
              have hlater : l.pulled + 1 + commands.length = l.pulled + (c :: commands).length := by
                rw [List.length_cons]
                omega
              refine ⟨c :: commands, isDry, w', ?_, ?_, ?_, ?_, ?_, ?_⟩
              · have hfirst : (p.watched.onPull l.pulled).run w =
                    ((), ⟨((p.onPull l.pulled).run w.world).2, w.deeds ++ [.pulled l.pulled]⟩) := rfl
                rw [fill, if_neg (by rw [hisDry]; exact Bool.false_ne_true)]
                simp only [hsource]
                rw [run_bind_of_run hfirst, h.run, hlater, List.append_assoc]
                rfl
              · rw [List.map_cons, h.pulled, List.length_cons, List.range'_succ, List.map_cons,
                  hsource]
              · exact Nat.succ_le_succ h.room
              · rw [← hlater]
                exact h.dry
              · exact fun hlt => h.full (Nat.lt_of_succ_lt_succ hlt)
              · refine ⟨[.pulled l.pulled] ++ more, ?_, ?_⟩
                · exact hpull.trans hpassage
                · rw [spent_append, hstill]
                  rfl

/-! ## Starting commands -/

/-- A command that is started is called out, unless it is rejected. -/
theorem run_launch_queued (c : LengthCommand) (w : Watched p) :
    ∃ k more w', (launch p.watched (.queued c)).run w = (Lookup.flight k, w') ∧ k.command = c ∧
      Passage w more [] [k] w' ∧ spent more = 0 := by
  obtain ⟨now, w₁, hnow, hlooked, hshown⟩ := run_now w
  unfold launch
  rw [run_bind_of_run hnow]
  cases hkey : c.key with
  | none =>
      rw [c.plan_of_none hkey]
      refine ⟨⟨c, now, .ok 0⟩, [], w₁, ?_, rfl, ?_, rfl⟩
      · unfold Lookup.flight Lookup.outcome
        simp only [hkey]
        rfl
      · have hnothing : [(⟨c, now, .ok 0⟩ : Lookup)].filterMap Lookup.call? = [] := by
          simp [Lookup.call?, hkey]
        have hnever : [(⟨c, now, .ok 0⟩ : Lookup)].filterMap Lookup.arrival? = [] := by
          simp [Lookup.arrival?, hkey]
        exact ⟨hlooked.deeds, rfl, hnothing.symm, hlooked.clock, fun _ _ => hnever.symm⟩
  | some key =>
      obtain ⟨delay, reply, s, hcall⟩ : ∃ delay reply s,
          (p.dispatch (.length key)).run w₁.world = ((delay, reply), s) := ⟨_, _, _, rfl⟩
      have hdispatch : (p.watched.dispatch (.length key)).run w₁ =
          ((delay, reply), ⟨s, w₁.deeds ++ [.called (.length key) delay reply]⟩) :=
        Provider.run_watch hcall fun r => .called (.length key) r.1 r.2
      rw [c.plan_of_some hkey]
      simp only
      rw [run_bind_of_run hdispatch]
      have hcalled : Passage w₁ [.called (.length key) delay reply] [] [⟨c, now + delay, reply⟩]
          ⟨s, w₁.deeds ++ [.called (.length key) delay reply]⟩ := by
        refine ⟨rfl, rfl, ?_, ?_, ?_⟩
        · simp [Lookup.call?, hkey, Deed.replied?]
        · intro clock hclock
          have hsame := hclock.dispatch (.length key) w₁.world
          rw [hcall] at hsame
          exact hsame
        · intro clock hclock
          have hshown := hshown clock hclock
          have hstill := hlooked.still rfl hclock
          simp [Lookup.arrival?, hkey, arrivals, Deed.arrival?, hshown, hstill]
      refine ⟨⟨c, now + delay, reply⟩, _, _, ?_, rfl, hlooked.trans hcalled, rfl⟩
      unfold Lookup.flight Lookup.outcome
      simp only [hkey]
      cases reply <;> rfl

/-- Commands that are started once are not started again; the others are, in their order. -/
theorem run_launchAll (lookups : List Lookup) (queued : List LengthCommand) (w : Watched p) :
    ∃ news more w', (launchAll p.watched (lookups.map Lookup.slot ++ queued.map .queued)).run w =
        ((lookups ++ news).map Lookup.slot, w') ∧
      news.map Lookup.command = queued ∧ Passage w more [] news w' ∧ spent more = 0 := by
  induction lookups with
  | nil =>
      induction queued generalizing w with
      | nil => exact ⟨[], [], w, rfl, rfl, .refl w, rfl⟩
      | cons c rest ih =>
          obtain ⟨k, more, w₁, hlaunch, rfl, hpassage, hstill⟩ := run_launch_queued c w
          obtain ⟨news, more', w', hrest, hnews, hpassage', hstill'⟩ := ih w₁
          refine ⟨k :: news, more ++ more', w', ?_, by rw [List.map_cons, hnews],
            hpassage.trans hpassage', by rw [spent_append, hstill, hstill']⟩
          rw [List.map_nil, List.nil_append] at hrest ⊢
          rw [List.map_cons, launchAll, run_bind_of_run hlaunch, run_bind_of_run hrest]
          rfl
  | cons k rest ih =>
      obtain ⟨news, more, w', hrest, hnews, hpassage, hstill⟩ := ih
      have hlaunch : (launch p.watched k.slot).run w = (k.flight, w) := rfl
      refine ⟨news, more, w', ?_, hnews, hpassage, hstill⟩
      rw [List.map_cons, List.cons_append, launchAll, run_bind_of_run hlaunch,
        run_bind_of_run hrest]
      rfl

/-- The first command in the window is started if it is not, and no other is. -/
theorem run_launch {lookups : List Lookup} {queued : List LengthCommand} {slot : Slot}
    {rest : List Slot} (hslots : lookups.map Lookup.slot ++ queued.map .queued = slot :: rest)
    (w : Watched p) :
    ∃ k news pending later more w', (launch p.watched slot).run w = (Lookup.flight k, w') ∧
      lookups ++ news = k :: pending ∧ queued = news.map Lookup.command ++ later ∧
      rest = pending.map Lookup.slot ++ later.map .queued ∧
      Passage w more [] news w' ∧ spent more = 0 := by
  cases lookups with
  | cons k pending =>
      obtain ⟨rfl, rfl⟩ := List.cons.inj hslots
      exact ⟨k, [], pending, queued, [], w, rfl, List.append_nil _, rfl, rfl, .refl w, rfl⟩
  | nil =>
      cases queued with
      | nil => cases hslots
      | cons c later =>
          obtain ⟨rfl, rfl⟩ := List.cons.inj hslots
          obtain ⟨k, more, w', hlaunch, rfl, hpassage, hstill⟩ := run_launch_queued c w
          exact ⟨k, [k], [], later, more, w', hlaunch, rfl, rfl, rfl, hpassage, hstill⟩

/-- What one asking brings about: commands are pulled until the window is full or none is left, and
of those that wait some are started, the first that was started is answered, and nothing is only if
nothing is left. -/
structure Asking (source : Nat → Option LengthCommand) (window : Nat) (l : Lengths) (w : Watched p)
    (pending : List Lookup) (queued : List LengthCommand) (answered : Option Lookup) (l' : Lengths)
    (w' : Watched p) (more : List (Deed p)) (commands : List LengthCommand)
    (news pending' : List Lookup) (queued' : List LengthCommand) : Prop where
  run : (next p.watched window source l).run w = ((answered.map Lookup.response, l'), w')
  passage : Passage w more (List.range' l.pulled commands.length) news w'
  position : l'.pulled = l.pulled + commands.length
  pulled : commands.map some = (List.range' l.pulled commands.length).map source
  room : pending.length + queued.length + commands.length ≤ max 1 window
  started : pending ++ news = answered.toList ++ pending'
  waiting : queued ++ commands = news.map Lookup.command ++ queued'
  slots : l'.slots = pending'.map Lookup.slot ++ queued'.map .queued
  dry : l'.isDry = true → source l'.pulled = none
  unanswered : answered = none → source l'.pulled = none ∧ pending' = [] ∧ queued' = []
  arrived : ∀ k, answered = some k → ∀ clock, p.KeepsTime clock → k.arrival ≤ clock w'.world

theorem exists_asking {l : Lengths} {pending : List Lookup} {queued : List LengthCommand}
    (hslots : l.slots = pending.map Lookup.slot ++ queued.map .queued)
    (hroom : pending.length + queued.length ≤ max 1 window)
    (hdry : l.isDry = true → source l.pulled = none) (w : Watched p) :
    ∃ answered l' w' more commands news pending' queued',
      Asking source window l w pending queued answered l' w' more commands news pending'
        queued' := by
  obtain ⟨commands, isDry, w₁, hfill⟩ :=
    exists_filled (max 1 window - l.slots.length) hdry w
  obtain ⟨more₁, hfilled, hstill₁⟩ := hfill.passage
  have hlength : l.slots.length = pending.length + queued.length := by
    rw [hslots, List.length_append, List.length_map, List.length_map]
  have hwindow := hfill.room
  have hroom' : pending.length + queued.length + commands.length ≤ max 1 window := by omega
  have hwaiting : l.slots ++ commands.map Slot.queued =
      pending.map Lookup.slot ++ (queued ++ commands).map .queued := by
    rw [hslots, List.map_append, List.append_assoc]
  cases hfound : l.slots ++ commands.map Slot.queued with
  | nil =>
      obtain ⟨hnone, hcommands⟩ := List.append_eq_nil_iff.mp hfound
      obtain rfl := List.map_eq_nil_iff.mp hcommands
      have hempty : pending.length + queued.length = 0 := by rw [← hlength, hnone]; rfl
      obtain rfl := List.eq_nil_of_length_eq_zero (Nat.eq_zero_of_add_eq_zero_right hempty)
      obtain rfl := List.eq_nil_of_length_eq_zero (Nat.eq_zero_of_add_eq_zero_left hempty)
      have hisDry : isDry = true := hfill.full (by
        rw [hnone, List.length_nil, List.length_nil]
        omega)
      refine ⟨none, ⟨l.pulled, isDry, []⟩, w₁, more₁, [], [], [], [], ?_⟩
      refine ⟨?_, hfilled, rfl, hfill.pulled, hroom', rfl, rfl, rfl, hfill.dry, ?_, nofun⟩
      · unfold next
        rw [run_bind_of_run hfill.run, hfound]
        rfl
      · exact fun _ => ⟨hfill.dry hisDry, rfl, rfl⟩
  | cons slot rest =>
      obtain ⟨k, news, pending', later, more₂, w₂, hlaunch, hstarted, hlater, hrest, hlaunched,
        hstill₂⟩ := run_launch (hwaiting.symm.trans hfound) w₁
      obtain ⟨now, w₃, hnow, hlooked, hshown⟩ := run_now w₂
      have hpassage := (hfilled.trans hlaunched).trans hlooked
      simp only [List.append_nil, List.nil_append] at hpassage
      by_cases harrival : k.flight.arrival ≤ now
      · refine ⟨some k, ⟨l.pulled + commands.length, isDry, rest⟩, w₃, more₁ ++ more₂, commands,
          news, pending', later, ?_⟩
        refine ⟨?_, hpassage, rfl, hfill.pulled, hroom', ?_, hlater, hrest, hfill.dry, nofun, ?_⟩
        · unfold next
          rw [run_bind_of_run hfill.run, hfound]
          simp only
          rw [run_bind_of_run hlaunch, run_bind_of_run hnow, if_pos harrival]
          rfl
        · exact hstarted
        · intro k' hk clock hclock
          obtain rfl := Option.some.inj hk
          rw [hlooked.still rfl hclock, ← hshown clock hclock]
          exact harrival
      · obtain ⟨later', more₃, w₄, hothers, rfl, hlaunched', hstill₃⟩ :=
          run_launchAll pending' later w₃
        obtain ⟨w₅, helapse, helapsed⟩ := run_elapse (k.flight.arrival - now) w₄
        refine ⟨some k, ⟨l.pulled + commands.length, isDry, (pending' ++ later').map Lookup.slot⟩,
          w₅, more₁ ++ more₂ ++ more₃ ++ [.elapsed (k.flight.arrival - now)], commands, news ++ later',
          pending' ++ later', [], ?_⟩
        have hpassage' := (hpassage.trans hlaunched').trans helapsed
        simp only [List.append_nil] at hpassage'
        refine ⟨?_, hpassage', rfl, hfill.pulled, hroom', ?_, ?_, ?_, hfill.dry, nofun, ?_⟩
        · unfold next
          rw [run_bind_of_run hfill.run, hfound]
          simp only
          rw [run_bind_of_run hlaunch, run_bind_of_run hnow, if_neg harrival, hrest,
            run_bind_of_run hothers, run_bind_of_run helapse]
          rfl
        · rw [← List.append_assoc, hstarted]
          rfl
        · rw [hlater, List.map_append, List.append_nil]
        · exact (List.append_nil _).symm
        · intro k' hk clock hclock
          obtain rfl := Option.some.inj hk
          rw [helapsed.clock clock hclock, hlaunched'.still hstill₃ hclock,
            hlooked.still rfl hclock, ← hshown clock hclock]
          simp only [spent, Deed.millis, Lookup.flight]
          omega

end Lengths

end StreamBroker
