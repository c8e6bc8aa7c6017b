import StreamBroker.Proofs.World.Readers
set_option autoImplicit false

/-!
# Reads that are carried on in one go

An engine begins a read, or goes on with one, in one go: it wakes the reader, attempts the read and
ends it if it would have to wait though its time is up.  Each of these is a run of moves of that
reader, so what holds in every run holds however an engine is used.
-/

namespace StreamBroker

namespace Registry

theorem withdraw_lower (g : Registry) (keys : List Bytes) (id j : SignalId) :
    (g.lower j).withdraw keys id = (g.withdraw keys id).lower j := by
  unfold withdraw
  induction keys generalizing g with
  | nil => rfl
  | cons key rest ih =>
      have hfirst : (g.lower j).withdrawFrom id key = (g.withdrawFrom id key).lower j := by
        unfold withdrawFrom
        have hwaiting : (g.lower j).waiting = g.waiting := rfl
        rw [hwaiting]
        cases g.waiting.get? key <;> rfl
      rw [List.foldl_cons, List.foldl_cons, hfirst, ih]

theorem close_lower (g : Registry) (id : SignalId) : (g.lower id).close id = g.close id := by
  unfold close lower
  simp only [List.filter_filter, Bool.and_self]

end Registry

/-- A reader that has heard its signal leaves as one that has not. -/
theorem Engine.dismiss_lower (e : Engine) (wait : Wait) :
    ({ e with registry := e.registry.lower wait.signal } : Engine).dismiss wait = e.dismiss wait := by
  unfold dismiss
  rw [Registry.withdraw_lower, Registry.close_lower]

namespace World

theorem leave_setReader (w : World) (i : Nat) (r : Option Reader) (engine : Engine) :
    (w.setReader i r).leave i engine = w.leave i engine := by
  unfold leave setReader
  simp only [List.set_set]

theorem setReader_of_reader? {w : World} {i : Nat} {x : Reader} (h : w.reader? i = some x) :
    w.setReader i (some x) = w := by
  have hget : w.readers[i]? = some (some x) := Option.join_eq_some_iff.1 h
  obtain ⟨hlt, hx⟩ := List.getElem?_eq_some_iff.1 hget
  unfold setReader
  rw [← hx, List.set_getElem_self]

/-- A reader whose time is up leaves in two moves. -/
theorem run_expire {w : World} {i : Nat} {wait : Wait}
    (hreader : w.reader? i = some ⟨.suspended, wait⟩) (hdue : wait.reading.isDue w.now) :
    w.run [.expire i, .proceed i] = w.leave i (w.engine.dismiss wait) := by
  have hlate : (w.setReader i (some ⟨.late, wait⟩)).reader? i = some ⟨.late, wait⟩ :=
    reader?_setReader_self (lt_of_reader? hreader) _
  rw [run_cons, step_expire hreader hdue, run_cons, step_proceed_late hlate, run_nil]
  exact leave_setReader ..

/-- The world behind a step of a read that was made in one go. -/
def carriedOn (w : World) (i : Nat) (p : Progress × Engine) : World :=
  { w with engine := p.2 }.setReader i p.1.reader?

theorem carriedOn_leave (w : World) (i : Nat) (engine : Engine) (p : Progress × Engine) :
    (w.leave i engine).carriedOn i p = w.carriedOn i p := by
  unfold carriedOn leave setReader
  simp only [List.set_set]

/-- An attempt that ends a read whose time is up is a run. -/
theorem tryRead_eq_run {w : World} {i : Nat} (hi : i < w.readers.length) (r : Reading) :
    ∃ moves, (w.attempt i r).2.run moves = w.carriedOn i (w.engine.tryRead w.now r) := by
  rcases w.engine.attempt_cases r with hover | ⟨-, -, hwait⟩
  · refine ⟨[], ?_⟩
    unfold attempt carriedOn Engine.tryRead
    rw [hover]
    rfl
  · by_cases hdue : r.isDue w.now
    · refine ⟨[.expire i, .proceed i], ?_⟩
      have hreader : (w.attempt i r).2.reader? i =
          some ⟨.suspended, ((w.engine.tried r).enroll r).1⟩ := by
        unfold attempt
        rw [hwait]
        exact reader?_setReader_self hi _
      rw [run_expire hreader hdue]
      unfold attempt carriedOn Engine.tryRead
      simp only [hwait, hdue, if_true]
      exact leave_setReader ..
    · refine ⟨[], ?_⟩
      unfold attempt carriedOn Engine.tryRead
      simp only [hwait, hdue, run_nil]
      rfl

/-- Beginning a read in one go is a run. -/
theorem beginRead_eq_run (w : World) (request : ReadRequest) :
    ∃ moves, w.run moves =
      w.arrive.carriedOn w.readers.length (w.engine.beginRead w.now request) := by
  cases hresolve : w.store.resolve request.consumer.isSome request.offsets with
  | error refusal =>
      refine ⟨[.begin request], ?_⟩
      unfold Engine.beginRead
      simp only [run_cons, run_nil, step, hresolve]
      unfold carriedOn arrive setReader
      simp [Progress.reader?]
  | ok cursors =>
      have hroom : w.readers.length < w.arrive.readers.length := by
        simp [arrive]
      obtain ⟨moves, hmoves⟩ := tryRead_eq_run hroom (request.reading w.now cursors)
      refine ⟨.begin request :: moves, ?_⟩
      rw [run_cons]
      unfold Engine.beginRead
      simp only [step, hresolve]
      exact hmoves

/-- Going on with a read in one go is a run. -/
theorem resume_eq_run {w : World} (hatt : w.Attended) {i : Nat} {wait : Wait}
    (hreader : w.reader? i = some ⟨.suspended, wait⟩) :
    ∃ moves, w.run moves = w.carriedOn i (w.engine.resume w.now wait) := by
  have hlistening : w.registry.isListening wait.signal := (hatt.held hreader).listening
  have hi : i < w.readers.length := lt_of_reader? hreader
  by_cases hraised : w.registry.isRaised wait.signal
  · have hheard : (w.step (.hear i)).2.step (.proceed i) =
        (w.leave i (w.engine.dismiss wait)).attempt i wait.reading := by
      obtain ⟨v, hv⟩ : ∃ v : World, v =
          { w with engine := { w.engine with registry := w.registry.lower wait.signal } } :=
        ⟨_, rfl⟩
      have hroom : i < v.readers.length := by rwa [hv]
      have hleave : v.leave i (v.engine.dismiss wait) = w.leave i (w.engine.dismiss wait) := by
        rw [hv, Engine.dismiss_lower]
        rfl
      rw [step_hear hreader hlistening hraised, ← hv]
      rw [step_proceed_woken (reader?_setReader_self hroom _), leave_setReader]
      exact congrArg (fun u => u.attempt i wait.reading) hleave
    have hroom : i < (w.leave i (w.engine.dismiss wait)).readers.length := by
      unfold leave setReader
      rwa [List.length_set]
    obtain ⟨moves, hmoves⟩ := tryRead_eq_run hroom wait.reading
    refine ⟨.hear i :: .proceed i :: moves, ?_⟩
    have hresume : w.engine.resume w.now wait =
        (w.engine.dismiss wait).tryRead w.now wait.reading := by
      unfold Engine.resume
      rw [if_pos hraised]
    rw [run_cons, run_cons, hheard, hmoves, carriedOn_leave, hresume]
    rfl
  · by_cases hdue : wait.reading.isDue w.now
    · refine ⟨[.expire i, .proceed i], ?_⟩
      rw [run_expire hreader hdue]
      unfold Engine.resume
      rw [if_neg hraised, if_pos hdue]
      rfl
    · refine ⟨[], ?_⟩
      unfold Engine.resume
      rw [if_neg hraised, if_neg hdue]
      exact (setReader_of_reader? hreader).symm

end World

end StreamBroker
