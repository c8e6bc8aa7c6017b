import StreamBroker.Proofs.Registry
import StreamBroker.Proofs.World.Basic
set_option autoImplicit false

/-!
# Readers and their signals

In every run the registry holds the wait of each reader, no two readers have one signal, and a
reader of a group waits for undelivered entries alone (`World.Attended`).  What a turn does to the
readers and to the registry is said once (`Turn.Stir`).
-/

namespace StreamBroker

namespace World

theorem reader?_setReader {w : World} {i j : Nat} {r : Option Reader} {x : Reader}
    (h : (w.setReader i r).reader? j = some x) :
    j = i ∧ r = some x ∨ j ≠ i ∧ w.reader? j = some x := by
  unfold reader? setReader at h
  simp only [List.getElem?_set] at h
  by_cases hij : i = j
  · subst hij
    rw [if_pos rfl] at h
    split at h
    · exact .inl ⟨rfl, h⟩
    · cases h
  · rw [if_neg hij] at h
    exact .inr ⟨Ne.symm hij, h⟩

@[simp] theorem length_setReader (w : World) (i : Nat) (r : Option Reader) :
    (w.setReader i r).readers.length = w.readers.length := List.length_set

theorem reader?_setReader_self {w : World} {i : Nat} (h : i < w.readers.length)
    (r : Option Reader) : (w.setReader i r).reader? i = r := by
  unfold reader? setReader
  simp only [List.getElem?_set_self h, Option.join_some]

theorem reader?_setReader_of_ne (w : World) {i j : Nat} (h : j ≠ i) (r : Option Reader) :
    (w.setReader i r).reader? j = w.reader? j := by
  unfold reader? setReader
  simp only [List.getElem?_set_ne (Ne.symm h)]

theorem lt_of_reader? {w : World} {i : Nat} {x : Reader} (h : w.reader? i = some x) :
    i < w.readers.length := by
  rcases Nat.lt_or_ge i w.readers.length with hlt | hge
  · exact hlt
  · unfold reader? at h
    rw [List.getElem?_eq_none hge] at h
    cases h

theorem reader?_arrive (w : World) (i : Nat) : w.arrive.reader? i = w.reader? i := by
  unfold reader? arrive
  simp only
  rcases Nat.lt_trichotomy i w.readers.length with hlt | rfl | hgt
  · rw [List.getElem?_append_left hlt]
  · have hnone : w.readers[w.readers.length]? = none := List.getElem?_eq_none (Nat.le_refl _)
    rw [List.getElem?_append_right (Nat.le_refl _), Nat.sub_self, hnone]
    rfl
  · have hout : (w.readers ++ [none]).length ≤ i := by
      rw [List.length_append]
      exact hgt
    rw [List.getElem?_eq_none hout, List.getElem?_eq_none (Nat.le_of_lt hgt)]

theorem step_hear {w : World} {i : Nat} {wait : Wait}
    (hreader : w.reader? i = some ⟨.suspended, wait⟩)
    (hlistening : w.registry.isListening wait.signal) (hraised : w.registry.isRaised wait.signal) :
    (w.step (.hear i)).2 =
      { w with engine := { w.engine with registry := w.registry.lower wait.signal } }.setReader i
        (some ⟨.woken, wait⟩) := by
  simp only [step, hreader, Registry.listen, hlistening, hraised, if_true]

/-- Only a reader that listens to a raised signal hears it. -/
theorem step_hear_eq_self {w : World} {i : Nat}
    (h : ¬ ∃ wait, w.reader? i = some ⟨.suspended, wait⟩ ∧ w.registry.isListening wait.signal ∧
      w.registry.isRaised wait.signal) : (w.step (.hear i)).2 = w := by
  simp only [step]
  split
  case h_1 wait hreader =>
    unfold Registry.listen
    by_cases hlistening : w.registry.isListening wait.signal
    · have hraised : ¬ w.registry.isRaised wait.signal :=
        fun hraised => h ⟨wait, hreader, hlistening, hraised⟩
      rw [if_pos hlistening, if_neg hraised]
    · rw [if_neg hlistening]
  case h_2 => rfl

theorem step_expire {w : World} {i : Nat} {wait : Wait}
    (hreader : w.reader? i = some ⟨.suspended, wait⟩) (hdue : wait.reading.isDue w.now) :
    (w.step (.expire i)).2 = w.setReader i (some ⟨.late, wait⟩) := by
  simp only [step, hreader, hdue, if_true]

theorem step_expire_eq_self {w : World} {i : Nat}
    (h : ¬ ∃ wait, w.reader? i = some ⟨.suspended, wait⟩ ∧ wait.reading.isDue w.now) :
    (w.step (.expire i)).2 = w := by
  simp only [step]
  split
  case h_1 wait hreader =>
    have hdue : ¬ wait.reading.isDue w.now := fun hdue => h ⟨wait, hreader, hdue⟩
    rw [if_neg hdue]
  case h_2 => rfl

theorem step_proceed_late {w : World} {i : Nat} {wait : Wait}
    (hreader : w.reader? i = some ⟨.late, wait⟩) :
    (w.step (.proceed i)).2 = w.leave i (w.engine.dismiss wait) := by
  simp only [step, hreader]

end World

/-- What a turn does to the readers and to the registry. -/
inductive Turn.Stir (t : Turn) : Prop where
  | calm (hreaders : ∀ i, t.after.reader? i = t.before.reader? i)
      (hregistry : t.after.registry = t.before.registry)
  | notified {key : Bytes} (hreaders : ∀ i, t.after.reader? i = t.before.reader? i)
      (hregistry : t.after.registry = t.before.registry.notify key)
  /-- A reader stops listening, because it heard its signal or because its time is up. -/
  | stopped {i : Nat} {stage : Stage} {wait : Wait} {engine : Engine}
      (hbefore : t.before.reader? i = some ⟨.suspended, wait⟩) (hstage : stage ≠ .suspended)
      (hregistry : engine.registry = t.before.registry ∨
        engine.registry = t.before.registry.lower wait.signal)
      (hafter : t.after = { t.before with engine }.setReader i (some ⟨stage, wait⟩))
  /-- A reader leaves, and withdraws its registrations under some keys. -/
  | left {i : Nat} {x : Reader} {keys : List Bytes} {engine : Engine}
      (hbefore : t.before.reader? i = some x)
      (hregistry : engine.registry =
        (t.before.registry.withdraw keys x.wait.signal).close x.wait.signal)
      (hafter : t.after = t.before.leave i engine)
  | attempted {r : Reading} (hattempts : t.Attempts r)

namespace Turn

theorem stir_of_eq {w : World} {m : Move} (h : (w.step m).2 = w) : Stir ⟨w, m⟩ := by
  refine .calm (fun i => ?_) ?_
  · rw [after, h]
  · rw [after, h]

theorem stir_of_reading {t : Turn} (h : t.reading? = none) : t.Stir := by
  obtain ⟨w, m⟩ := t
  cases m with
  | add key request body clock =>
      rcases hadd : w.store.add key request body clock with ⟨refusal | id, s⟩
      · refine .calm (fun i => ?_) ?_
        · simp only [after, World.step, Engine.add, hadd]
          rfl
        · simp only [after, World.step, Engine.add, hadd]
      · have hregistry : (after ⟨w, .add key request body clock⟩).registry =
            w.registry.notify key := by
          simp only [after, World.step, Engine.add, hadd]
        refine .notified (fun i => ?_) hregistry
        simp only [after, World.step, Engine.add, hadd]
        rfl
  | delete | trim | acknowledge | createGroup | deleteConsumer | destroyGroup | length
  | pendingCount | page => exact .calm (fun _ => rfl) rfl
  | begin request =>
      cases hresolve : w.store.resolve request.consumer.isSome request.offsets with
      | error refusal =>
          refine .calm (fun i => ?_) ?_
          · simp only [after, World.step, hresolve]
            exact w.reader?_arrive i
          · simp only [after, World.step, hresolve]
            rfl
      | ok cursors =>
          simp only [reading?, World.reading?, hresolve] at h
          cases h
  | hear i =>
      by_cases hears : ∃ wait, w.reader? i = some ⟨.suspended, wait⟩ ∧
          w.registry.isListening wait.signal ∧ w.registry.isRaised wait.signal
      · obtain ⟨wait, hreader, hlistening, hraised⟩ := hears
        have hafter := World.step_hear hreader hlistening hraised
        exact .stopped hreader (by decide) (.inr rfl) hafter
      · exact stir_of_eq (World.step_hear_eq_self hears)
  | expire i =>
      by_cases hdue : ∃ wait, w.reader? i = some ⟨.suspended, wait⟩ ∧ wait.reading.isDue w.now
      · obtain ⟨wait, hreader, hdue⟩ := hdue
        have hafter : after ⟨w, .expire i⟩ =
            { w with engine := w.engine }.setReader i (some ⟨.late, wait⟩) :=
          World.step_expire hreader hdue
        exact .stopped hreader (by decide) (.inl rfl) hafter
      · exact stir_of_eq (World.step_expire_eq_self hdue)
  | proceed i =>
      cases hreader : w.reader? i with
      | none =>
          apply stir_of_eq
          simp only [World.step, hreader]
      | some x =>
          obtain ⟨stage, wait⟩ := x
          cases stage with
          | suspended =>
              apply stir_of_eq
              simp only [World.step, hreader]
          | woken =>
              simp only [reading?, World.reading?, hreader] at h
              cases h
          | late =>
              exact .left hreader rfl (World.step_proceed_late hreader)
  | cancel i =>
      cases hreader : w.reader? i with
      | none =>
          apply stir_of_eq
          simp only [World.step, hreader]
      | some x =>
          have hafter : after ⟨w, .cancel i⟩ = w.leave i (w.engine.abandon x.wait) := by
            simp only [after, World.step, hreader]
          -- a reader that is cancelled withdraws nothing
          have hregistry : (w.engine.abandon x.wait).registry =
              (w.registry.withdraw [] x.wait.signal).close x.wait.signal := rfl
          exact .left hreader hregistry hafter
  | elapse millis => exact .calm (fun _ => rfl) rfl

theorem stir (t : Turn) : t.Stir := by
  cases hreading : t.reading? with
  | none => exact stir_of_reading hreading
  | some r => exact .attempted (attempts hreading)

end Turn

/-! ## The invariant -/

/-- A read that asks a group for nothing but undelivered entries, if it asks one. -/
def Reading.AsksAhead (r : Reading) : Prop :=
  ∀ consumer, r.consumer = some consumer → ∀ p ∈ r.cursors, p.2 = .undelivered

theorem ReadRequest.asksAhead_reading {request : ReadRequest} {now : Nat}
    {cursors : List (Bytes × Cursor)} (h : (request.reading now cursors).mayWait) :
    (request.reading now cursors).AsksAhead := by
  intro consumer hconsumer p hp
  have hrequest : request.consumer = some consumer := hconsumer
  simp only [reading, hrequest, Option.isNone_some, Bool.false_or, Bool.and_eq_true,
    List.all_eq_true, beq_iff_eq] at h
  exact h.2 p hp

/-- Each reader is held, no two readers have one signal, and group readers ask ahead. -/
structure World.Attended (w : World) : Prop where
  held : ∀ {i x}, w.reader? i = some x → w.registry.Holds x.wait
  distinct : ∀ {i j x y}, w.reader? i = some x → w.reader? j = some y →
    x.wait.signal = y.wait.signal → i = j
  ahead : ∀ {i x}, w.reader? i = some x → x.wait.reading.AsksAhead

namespace World.Attended

theorem start : World.start.Attended :=
  ⟨fun h => (nomatch h), fun h => (nomatch h), fun h => (nomatch h)⟩

/-- Readers that keep their waits stay attended if the registry goes on to hold them. -/
theorem of_waits {w w' : World} (h : w.Attended)
    (hsame : ∀ i y, w'.reader? i = some y →
      ∃ x, w.reader? i = some x ∧ x.wait = y.wait ∧ w'.registry.Holds y.wait) :
    w'.Attended := by
  refine ⟨?_, ?_, ?_⟩
  · intro i y hy
    obtain ⟨x, -, -, hheld⟩ := hsame i y hy
    exact hheld
  · intro i j y y' hy hy' hsignal
    obtain ⟨x, hx, hwait, -⟩ := hsame i y hy
    obtain ⟨x', hx', hwait', -⟩ := hsame j y' hy'
    rw [← hwait, ← hwait'] at hsignal
    exact h.distinct hx hx' hsignal
  · intro i y hy
    obtain ⟨x, hx, hwait, -⟩ := hsame i y hy
    rw [← hwait]
    exact h.ahead hx

theorem leave {w : World} (h : w.Attended) {i : Nat} {x : Reader} {keys : List Bytes}
    {engine : Engine} (hx : w.reader? i = some x)
    (hregistry : engine.registry = (w.registry.withdraw keys x.wait.signal).close x.wait.signal) :
    (w.leave i engine).Attended := by
  apply h.of_waits
  intro j y hy
  rcases World.reader?_setReader hy with ⟨-, hnone⟩ | ⟨hne, hbefore⟩
  · cases hnone
  · refine ⟨y, hbefore, rfl, ?_⟩
    have hsignal : y.wait.signal ≠ x.wait.signal := fun heq => hne (h.distinct hbefore hx heq)
    have hheld := (h.held hbefore).leave hsignal keys
    rwa [← hregistry] at hheld

theorem attempt {w : World} (h : w.Attended) (i : Nat) {r : Reading}
    (hahead : r.mayWait → r.AsksAhead) : (w.attempt i r).2.Attended := by
  rcases w.engine.attempt_cases r with hover | ⟨-, hmay, hwait⟩
  · unfold World.attempt
    rw [hover]
    apply h.of_waits
    intro j y hy
    rcases World.reader?_setReader hy with ⟨-, hnone⟩ | ⟨-, hbefore⟩
    · cases hnone
    · exact ⟨y, hbefore, rfl, h.held hbefore⟩
  · unfold World.attempt
    rw [hwait]
    -- the reader that waits from now on has a signal that none of the others has
    have hfresh : ∀ {j y}, w.reader? j = some y →
        y.wait.signal ≠ ((w.engine.tried r).enroll r).1.signal :=
      fun hy => Engine.signal_ne_enroll (h.held hy) r
    refine ⟨?_, ?_, ?_⟩
    · intro j y hy
      rcases World.reader?_setReader hy with ⟨-, hnew⟩ | ⟨-, hbefore⟩
      · cases hnew
        exact Engine.enroll_holds _ r
      · exact Engine.enroll_holds_of_holds (h.held hbefore) r
    · intro j k y z hy hz hsignal
      rcases World.reader?_setReader hy with ⟨rfl, hnew⟩ | ⟨-, hbefore⟩
      · rcases World.reader?_setReader hz with ⟨rfl, -⟩ | ⟨-, hbefore'⟩
        · rfl
        · cases hnew
          exact absurd hsignal.symm (hfresh hbefore')
      · rcases World.reader?_setReader hz with ⟨rfl, hnew⟩ | ⟨-, hbefore'⟩
        · cases hnew
          exact absurd hsignal (hfresh hbefore)
        · exact h.distinct hbefore hbefore' hsignal
    · intro j y hy
      rcases World.reader?_setReader hy with ⟨-, hnew⟩ | ⟨-, hbefore⟩
      · cases hnew
        exact hahead hmay
      · exact h.ahead hbefore

theorem step {t : Turn} (h : t.before.Attended) : t.after.Attended := by
  cases t.stir with
  | calm hreaders hregistry =>
      apply h.of_waits
      intro i y hy
      rw [hreaders] at hy
      rw [hregistry]
      exact ⟨y, hy, rfl, h.held hy⟩
  | @notified key hreaders hregistry =>
      apply h.of_waits
      intro i y hy
      rw [hreaders] at hy
      rw [hregistry]
      exact ⟨y, hy, rfl, (h.held hy).notify key⟩
  | @stopped i stage wait engine hbefore hstage hregistry hafter =>
      apply h.of_waits
      intro j y hy
      have hheld : ∀ {x}, t.before.registry.Holds x → engine.registry.Holds x := by
        intro x hx
        rcases hregistry with hsame | hlower
        · rwa [hsame]
        · rw [hlower]
          exact hx.lower _
      rw [hafter] at hy ⊢
      rcases World.reader?_setReader hy with ⟨rfl, hnew⟩ | ⟨-, hother⟩
      · cases hnew
        have hx : t.before.registry.Holds wait := h.held hbefore
        exact ⟨_, hbefore, rfl, hheld hx⟩
      · exact ⟨y, hother, rfl, hheld (h.held hother)⟩
  | left hbefore hregistry hafter =>
      rw [hafter]
      exact h.leave hbefore hregistry
  | attempted hattempts =>
      cases hattempts with
      | first hstep =>
          have harrived : t.before.arrive.Attended := by
            apply h.of_waits
            intro i y hy
            rw [World.reader?_arrive] at hy
            exact ⟨y, hy, rfl, h.held hy⟩
          rw [Turn.after, hstep]
          exact harrived.attempt _ ReadRequest.asksAhead_reading
      | @again i wait hreader hstep =>
          have hleft : (t.before.leave i (t.before.engine.dismiss wait)).Attended :=
            h.leave hreader rfl
          rw [Turn.after, hstep]
          exact hleft.attempt i fun _ => h.ahead hreader

end World.Attended

theorem World.attended_run (moves : List Move) : (World.start.run moves).Attended :=
  World.run_induction (P := fun _ w => w.Attended) .start 
    fun past m _ _ h => h.step (t := ⟨World.start.run past, m⟩)

end StreamBroker
