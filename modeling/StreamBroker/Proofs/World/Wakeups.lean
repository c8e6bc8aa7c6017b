import StreamBroker.Proofs.Store.Nothing
import StreamBroker.Proofs.World.Additions
import StreamBroker.Proofs.World.Readers
set_option autoImplicit false

/-!
# No wake-up is lost

A reader begins to wait in the turn in which its attempt found nothing.  From then on, as long as it
listens, its signal is raised or there is still nothing for each of its cursors (`World.Heeds`): an
addition under one of its keys raises the signal, a raised signal stays raised, and no other turn
makes something to read.  Only the destruction of its group is beyond a group reader's notice: the
group may then be created again at another place, which wakes nobody.
-/

namespace StreamBroker

/-! ## Who still listens after a turn -/

theorem World.suspended_attempt {w : World} {i j : Nat} {r : Reading} {wait : Wait}
    (h : (w.attempt j r).2.reader? i = some ⟨.suspended, wait⟩) :
    (w.attempt j r).1 = .read i (.waiting wait) ∨
      i ≠ j ∧ w.reader? i = some ⟨.suspended, wait⟩ ∧
        (w.attempt j r).2.registry.isRaised = w.registry.isRaised := by
  rcases w.engine.attempt_cases r with hover | ⟨-, -, hwait⟩
  · unfold World.attempt at h ⊢
    rw [hover] at h ⊢
    rcases World.reader?_setReader h with ⟨-, hnone⟩ | ⟨hne, hbefore⟩
    · cases hnone
    · exact .inr ⟨hne, hbefore, rfl⟩
  · unfold World.attempt at h ⊢
    rw [hwait] at h ⊢
    rcases World.reader?_setReader h with ⟨rfl, hnew⟩ | ⟨hne, hbefore⟩
    · cases hnew
      exact .inl rfl
    · exact .inr ⟨hne, hbefore, Engine.isRaised_enroll ..⟩

theorem World.suspended_leave {w : World} (hatt : w.Attended) {i j : Nat} {x y : Reader}
    {keys : List Bytes} {engine : Engine} (hx : w.reader? j = some x)
    (hregistry : engine.registry = (w.registry.withdraw keys x.wait.signal).close x.wait.signal)
    (h : (w.leave j engine).reader? i = some y) :
    w.reader? i = some y ∧
      (w.leave j engine).registry.isRaised y.wait.signal = w.registry.isRaised y.wait.signal := by
  rcases World.reader?_setReader h with ⟨-, hnone⟩ | ⟨hne, hbefore⟩
  · cases hnone
  · have hsignal : y.wait.signal ≠ x.wait.signal := fun heq => hne (hatt.distinct hbefore hx heq)
    have hengine : (w.leave j engine).registry = engine.registry := rfl
    refine ⟨hbefore, ?_⟩
    rw [hengine, hregistry, Registry.isRaised_close _ hsignal, Registry.isRaised_withdraw]

/-- A reader that listens after a turn began to wait in it, or listened before; its signal was not
lowered then. -/
theorem Turn.suspended_after {t : Turn} (hatt : t.before.Attended) {i : Nat} {wait : Wait}
    (h : t.after.reader? i = some ⟨.suspended, wait⟩) :
    t.reply = .read i (.waiting wait) ∨
      t.before.reader? i = some ⟨.suspended, wait⟩ ∧
        (t.before.registry.isRaised wait.signal → t.after.registry.isRaised wait.signal) := by
  cases t.stir with
  | calm hreaders hregistry =>
      rw [hreaders] at h
      rw [hregistry]
      exact .inr ⟨h, id⟩
  | notified hreaders hregistry =>
      rw [hreaders] at h
      rw [hregistry, Registry.isRaised_notify]
      exact .inr ⟨h, fun hraised => by rw [hraised, Bool.true_or]⟩
  | @stopped j stage wait' engine hbefore hstage hregistry hafter =>
      rw [hafter] at h ⊢
      rcases World.reader?_setReader h with ⟨-, hnew⟩ | ⟨hne, hother⟩
      · cases hnew
        exact absurd rfl hstage
      · have hsignal : wait.signal ≠ wait'.signal :=
          fun heq => hne (hatt.distinct hother hbefore heq)
        have hlisten : engine.registry.isRaised wait.signal =
            t.before.registry.isRaised wait.signal := by
          rcases hregistry with hsame | hlower
          · rw [hsame]
          · rw [hlower, Registry.isRaised_lower, bne_iff_ne.2 hsignal, Bool.and_true]
        refine .inr ⟨hother, ?_⟩
        intro hraised
        rwa [← hlisten] at hraised
  | left hbefore hregistry hafter =>
      rw [hafter] at h ⊢
      obtain ⟨hother, hsame⟩ := World.suspended_leave hatt hbefore hregistry h
      exact .inr ⟨hother, fun hraised => by rwa [hsame]⟩
  | attempted hattempts =>
      cases hattempts with
      | first hstep =>
          rw [Turn.after, hstep] at h ⊢
          rw [Turn.reply, hstep]
          rcases World.suspended_attempt h with hreply | ⟨-, hother, hsame⟩
          · exact .inl hreply
          · rw [World.reader?_arrive] at hother
            rw [hsame]
            exact .inr ⟨hother, id⟩
      | again hreader hstep =>
          rw [Turn.after, hstep] at h ⊢
          rw [Turn.reply, hstep]
          rcases World.suspended_attempt h with hreply | ⟨-, hother, hsame⟩
          · exact .inl hreply
          · obtain ⟨hbefore, hleft⟩ := World.suspended_leave hatt hreader rfl hother
            rw [hsame]
            exact .inr ⟨hbefore, fun hraised => by rwa [hleft]⟩

/-! ## What a reader that begins to wait leaves behind -/

/-- A turn that lets a reader wait attempted its read and found nothing. -/
theorem Turn.attempt_of_waiting {t : Turn} {i : Nat} {wait : Wait}
    (h : t.reply = .read i (.waiting wait)) :
    t.reading? = some wait.reading ∧ wait.reading.mayWait ∧
      (t.before.store.attempt wait.reading.consumer wait.reading.count wait.reading.noAck
        wait.reading.cursors).1 = .ok [] := by
  obtain ⟨r, hreading⟩ := reading?_of_waiting h
  obtain ⟨j, w, hsame, hstep⟩ := attempt_of_reading hreading
  have hattempt : (w.engine.attempt r).1 = .waiting wait := by
    rw [reply, hstep] at h
    exact (Reply.read.inj h).2
  rcases w.engine.attempt_cases r with hover | ⟨hnothing, hmay, hwait⟩
  · rw [hover] at hattempt
    cases hattempt
  · rw [hwait] at hattempt
    obtain rfl := Progress.waiting.inj hattempt
    rw [← hsame]
    exact ⟨hreading, hmay, hnothing⟩

theorem Turn.asksAhead {t : Turn} (hatt : t.before.Attended) {r : Reading}
    (hreading : t.reading? = some r) (hmay : r.mayWait) : r.AsksAhead := by
  cases attempts hreading with
  | first => exact ReadRequest.asksAhead_reading hmay
  | again hreader => exact hatt.ahead hreader

/-- A reader that begins to wait leaves nothing behind for any of its cursors. -/
theorem Turn.hasNothing_of_waiting {t : Turn} (hatt : t.before.Attended) {i : Nat} {wait : Wait}
    (h : t.reply = .read i (.waiting wait)) :
    ∀ p ∈ wait.reading.cursors, t.after.store.HasNothing wait.reading.consumer p := by
  obtain ⟨hreading, hmay, hnothing⟩ := attempt_of_waiting h
  obtain ⟨-, -, -, -, hstore⟩ := outcome_of_reading hreading
  rw [hstore]
  exact Store.hasNothing_of_attempt (asksAhead hatt hreading hmay) hnothing

/-! ## The invariant -/

/-- A reader that listens for a wait has a raised signal, or there is nothing for a cursor. -/
def World.Heeds (w : World) (i : Nat) (wait : Wait) (p : Bytes × Cursor) : Prop :=
  w.reader? i = some ⟨.suspended, wait⟩ →
    w.registry.isRaised wait.signal ∨ w.store.HasNothing wait.reading.consumer p

theorem Turn.notified_of_addition? {t : Turn} {key : Bytes} {added : EntryId × Body}
    (h : t.addition? key = some added) :
    t.after.registry = t.before.registry.notify key := by
  obtain ⟨w, m⟩ := t
  cases m with
  | add key' request body clock =>
      rcases hadd : w.store.add key' request body clock with ⟨refusal | id, s⟩
      · simp [addition?, reply, World.step, Engine.add, hadd] at h
      · have hmove : move ⟨w, .add key' request body clock⟩ = .add key' request body clock := rfl
        rw [addition?_of_add hmove hadd] at h
        split at h
        case isTrue hkey =>
          subst hkey
          simp only [after, World.step, Engine.add, hadd]
        case isFalse => cases h
  | _ => cases h

/-- A turn that does not destroy the group of a reader leaves it with a raised signal or with
nothing for its cursor. -/
theorem Turn.heeds {t : Turn} (hatt : t.before.Attended) {i : Nat} {wait : Wait}
    {p : Bytes × Cursor} (hp : p ∈ wait.reading.cursors) (h : t.before.Heeds i wait p)
    (hlive : ∀ consumer, wait.reading.consumer = some consumer →
      t.move ≠ .destroyGroup p.1 consumer.group) :
    t.after.Heeds i wait p := by
  intro hafter
  rcases suspended_after hatt hafter with hreply | ⟨hbefore, hstays⟩
  · exact .inr (hasNothing_of_waiting hatt hreply p hp)
  · rcases h hbefore with hraised | hnothing
    · exact .inl (hstays hraised)
    · rcases t.added_or_within p.1 with ⟨id, body, hadded, -⟩ | ⟨-, hwithin⟩
      · left
        have hheld := hatt.held hbefore
        have hkey : p.1 ∈ wait.reading.keys := List.mem_map_of_mem hp
        rw [notified_of_addition? hadded]
        exact hheld.isRaised_notify hkey
      · right
        apply hnothing.mono hwithin
        intro consumer hconsumer g hg
        exact t.advances hg (hlive consumer hconsumer)

theorem World.heeds_run {w : World} (hatt : w.Attended) {i : Nat} {wait : Wait}
    {p : Bytes × Cursor} (hp : p ∈ wait.reading.cursors) (h : w.Heeds i wait p)
    {moves : List Move}
    (hlive : ∀ consumer, wait.reading.consumer = some consumer →
      .destroyGroup p.1 consumer.group ∉ moves) :
    (w.run moves).Heeds i wait p := by
  induction moves generalizing w with
  | nil => exact h
  | cons m rest ih =>
      have hfirst : (w.step m).2.Heeds i wait p := by
        apply Turn.heeds (t := ⟨w, m⟩) hatt hp h
        rintro consumer hconsumer rfl
        exact hlive consumer hconsumer List.mem_cons_self
      have hrest : (w.step m).2.Attended := World.Attended.step (t := ⟨w, m⟩) hatt
      apply ih hrest hfirst
      intro consumer hconsumer hmem
      exact hlive consumer hconsumer (List.mem_cons_of_mem _ hmem)

/-- A reader that listens at the end of a run listened at its beginning, or began to wait in one of
its turns. -/
theorem World.began_to_wait {w : World} (hatt : w.Attended) {moves : List Move} {i : Nat}
    {wait : Wait} (h : (w.run moves).reader? i = some ⟨.suspended, wait⟩) :
    w.reader? i = some ⟨.suspended, wait⟩ ∨
      ∃ past m rest, moves = past ++ m :: rest ∧ ((w.run past).step m).1 = .read i (.waiting wait) := by
  induction moves generalizing w with
  | nil => exact .inl h
  | cons m rest ih =>
      have hrest : (w.step m).2.Attended := World.Attended.step (t := ⟨w, m⟩) hatt
      rcases ih hrest h with hfirst | ⟨past, m', rest', rfl, hreply⟩
      · rcases Turn.suspended_after (t := ⟨w, m⟩) hatt hfirst with hreply | ⟨hbefore, -⟩
        · exact .inr ⟨[], m, rest, rfl, hreply⟩
        · exact .inl hbefore
      · exact .inr ⟨m :: past, m', rest', rfl, hreply⟩

/-- Behind the turn in which a reader began to wait, and while it listens and its signal is not
raised, there is nothing for a cursor whose group nobody destroyed since. -/
theorem World.hasNothing_since {past rest : List Move} {m : Move} {i : Nat} {wait : Wait}
    (hbegan : ((World.start.run past).step m).1 = .read i (.waiting wait))
    (hreader : (World.start.run (past ++ m :: rest)).reader? i = some ⟨.suspended, wait⟩)
    (hquiet : ¬ (World.start.run (past ++ m :: rest)).registry.isRaised wait.signal)
    {p : Bytes × Cursor} (hp : p ∈ wait.reading.cursors)
    (hlive : ∀ consumer, wait.reading.consumer = some consumer →
      .destroyGroup p.1 consumer.group ∉ rest) :
    (World.start.run (past ++ m :: rest)).store.HasNothing wait.reading.consumer p := by
  have hatt := World.attended_run past
  have hafter : ((World.start.run past).step m).2.Attended :=
    World.Attended.step (t := ⟨World.start.run past, m⟩) hatt
  have hfirst : ((World.start.run past).step m).2.Heeds i wait p := fun _ =>
    .inr (Turn.hasNothing_of_waiting (t := ⟨World.start.run past, m⟩) hatt hbegan p hp)
  rw [World.run_append, World.run_cons] at hreader hquiet ⊢
  exact (World.heeds_run hafter hp hfirst hlive hreader).resolve_left hquiet

/-- A reader that listens and whose signal is not raised has nothing to read.  For a plain reader
this holds in every run.  A group reader asks for undelivered entries under all its keys, and there
are none under those whose group nobody destroyed since the turn in which it began to wait; if
that is true of all its keys, its read would return nothing. -/
theorem no_lost_wakeup {moves : List Move} {i : Nat} {wait : Wait}
    (hreader : (World.start.run moves).reader? i = some ⟨.suspended, wait⟩)
    (hquiet : ¬ (World.start.run moves).registry.isRaised wait.signal) :
    (wait.reading.consumer = none →
      (World.start.run moves).store.readPlain wait.reading.count wait.reading.cursors = []) ∧
    (∃ past m rest, moves = past ++ m :: rest ∧
      ((World.start.run past).step m).1 = .read i (.waiting wait)) ∧
    ∀ consumer, wait.reading.consumer = some consumer →
      (∀ p ∈ wait.reading.cursors, p.2 = .undelivered) ∧
      ∀ past m rest, moves = past ++ m :: rest →
        ((World.start.run past).step m).1 = .read i (.waiting wait) →
        (∀ key ∈ wait.reading.keys, .destroyGroup key consumer.group ∉ rest →
          (World.start.run moves).store.Drained key consumer.group) ∧
        ((∀ key ∈ wait.reading.keys, .destroyGroup key consumer.group ∉ rest) →
          ((World.start.run moves).store.attempt (some consumer) wait.reading.count
            wait.reading.noAck wait.reading.cursors).1 = .ok []) := by
  have hatt := World.attended_run moves
  have hbegan : ∃ past m rest, moves = past ++ m :: rest ∧
      ((World.start.run past).step m).1 = .read i (.waiting wait) := by
    rcases World.began_to_wait World.Attended.start hreader with hstart | hbegan
    · cases hstart
    · exact hbegan
  refine ⟨?_, hbegan, ?_⟩
  · intro hplain
    obtain ⟨past, m, rest, rfl, hreply⟩ := hbegan
    rw [Store.readPlain_eq_nil_iff]
    intro p hp
    have hnothing := World.hasNothing_since hreply hreader hquiet hp
      fun consumer hconsumer => by rw [hplain] at hconsumer; cases hconsumer
    rwa [hplain] at hnothing
  · intro consumer hconsumer
    have hahead := hatt.ahead hreader consumer hconsumer
    refine ⟨hahead, ?_⟩
    rintro past m rest rfl hreply
    have hdrained : ∀ p ∈ wait.reading.cursors, .destroyGroup p.1 consumer.group ∉ rest →
        (World.start.run (past ++ m :: rest)).store.Drained p.1 consumer.group := by
      intro p hp hlive
      have hnothing := World.hasNothing_since hreply hreader hquiet hp fun c hc => by
        rw [hconsumer] at hc
        cases hc
        exact hlive
      rwa [hconsumer] at hnothing
    refine ⟨?_, ?_⟩
    · intro key hkey hlive
      obtain ⟨p, hp, rfl⟩ := List.mem_map.1 hkey
      exact hdrained p hp hlive
    · intro hlive
      apply Store.attempt_eq_nil
      · intro c _ p hp
        exact hahead p hp
      · intro p hp
        exact hdrained p hp (hlive p.1 (List.mem_map_of_mem hp))

/-- A group is created behind the last entry and a reader waits for the next one; an entry is added
under another key. -/
def oneWaiting : List Move :=
  [.add [97] (some "1-1") (.ofList [([102], [118])]) (some 0), .createGroup [97] "$" [103],
    .begin ⟨[([97], ">")], some 0, none, false, some ⟨[103], [99]⟩⟩,
    .add [98] (some "1-1") (.ofList [([102], [118])]) (some 0)]

/-- The wait of that reader. -/
def theWait : Wait := ⟨⟨[([97], .undelivered)], none, false, some ⟨[103], [99]⟩, true, none⟩, 0⟩

theorem no_lost_wakeup_oneWaiting :
    (World.start.run oneWaiting).reader? 0 = some ⟨.suspended, theWait⟩ ∧
      ¬ (World.start.run oneWaiting).registry.isRaised theWait.signal ∧
      (World.start.run oneWaiting).store.Drained [97] [103] := by
  have hreader : (World.start.run oneWaiting).reader? 0 = some ⟨.suspended, theWait⟩ := by
    decide +kernel
  have hquiet : ¬ (World.start.run oneWaiting).registry.isRaised theWait.signal := by
    decide +kernel
  obtain ⟨-, -, hgroup⟩ := no_lost_wakeup hreader hquiet
  obtain ⟨-, hsince⟩ := hgroup ⟨[103], [99]⟩ rfl
  obtain ⟨hdrained, -⟩ := hsince (oneWaiting.take 2) oneWaiting[2] (oneWaiting.drop 3) rfl rfl
  refine ⟨hreader, hquiet, hdrained [97] List.mem_cons_self ?_⟩
  simp [oneWaiting]

end StreamBroker
