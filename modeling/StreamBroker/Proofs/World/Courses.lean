import StreamBroker.Proofs.World.Readers
set_option autoImplicit false

/-!
# The course of one read

What the turns of a run do with one read (`Turn.Course`).  A read that is over stays over, and ends
once (`World.ends_once`).  One that is not goes on waiting, is cancelled, runs out of time or is
attempted again, and whatever it waits for is what it asked for when it began (`World.Follows`):
neither its cursors nor its deadline ever change.
-/

namespace StreamBroker

/-- What a turn does with a read that has begun. -/
inductive Turn.Course (t : Turn) (i : Nat) : Option Reader → Prop where
  /-- It was over and stays over. -/
  | gone (hafter : t.after.reader? i = none) (hreply : ∀ progress, t.reply ≠ .read i progress) :
      Course t i none
  /-- It goes on with its wait, and is late only if its time is up. -/
  | waits {x : Reader} {stage : Stage} (hafter : t.after.reader? i = some ⟨stage, x.wait⟩)
      (hlate : stage = .late → x.stage = .late ∨ x.wait.reading.isDue t.before.now)
      (hreply : ∀ progress, t.reply ≠ .read i progress) : Course t i (some x)
  | cancelled {x : Reader} (hmove : t.move = .cancel i)
      (hstep : t.before.step t.move =
        (.silent, t.before.leave i (t.before.engine.abandon x.wait))) : Course t i (some x)
  /-- It was late and returns without messages. -/
  | ranOut {wait : Wait} (hmove : t.move = .proceed i)
      (hstep : t.before.step t.move =
        (.read i (.returned (.ok [])), t.before.leave i (t.before.engine.dismiss wait))) :
      Course t i (some ⟨.late, wait⟩)
  /-- It was woken and is attempted again. -/
  | retried {wait : Wait} (hmove : t.move = .proceed i)
      (hstep : t.before.step t.move =
        (t.before.leave i (t.before.engine.dismiss wait)).attempt i wait.reading) :
      Course t i (some ⟨.woken, wait⟩)

namespace Turn

/-- A turn that is not about a read leaves it as it is. -/
theorem course_of_untouched {t : Turn} {i : Nat}
    (hsame : t.after.reader? i = t.before.reader? i)
    (hreply : ∀ progress, t.reply ≠ .read i progress) : t.Course i (t.before.reader? i) := by
  cases hbefore : t.before.reader? i with
  | none => exact .gone (hsame.trans hbefore) hreply
  | some x => exact .waits (hsame.trans hbefore) .inl hreply

/-- A turn whose reply is silent and that leaves a read as it is. -/
theorem course_of_silent {w : World} {m : Move} {i : Nat} (hsilent : (w.step m).1 = .silent)
    (hsame : (w.step m).2.reader? i = w.reader? i) : Course ⟨w, m⟩ i (w.reader? i) := by
  refine course_of_untouched hsame fun progress hreply => ?_
  rw [reply, hsilent] at hreply
  cases hreply

theorem course_hear (w : World) (i j : Nat) : Course ⟨w, .hear j⟩ i (w.reader? i) := by
  have hsilent : (w.step (.hear j)).1 = .silent := w.step_hear_silent j
  by_cases hears : ∃ wait, w.reader? j = some ⟨.suspended, wait⟩ ∧
      w.registry.isListening wait.signal ∧ w.registry.isRaised wait.signal
  · obtain ⟨wait, hreader, hlistening, hraised⟩ := hears
    have hstep := World.step_hear hreader hlistening hraised
    by_cases hij : i = j
    · subst hij
      rw [hreader]
      have hafter : (after ⟨w, .hear i⟩).reader? i = some ⟨.woken, wait⟩ := by
        rw [after, hstep]
        exact World.reader?_setReader_self (World.lt_of_reader? hreader) _
      refine .waits hafter (fun hlate => ?_) fun progress hreply => ?_
      · cases hlate
      · rw [reply, hsilent] at hreply
        cases hreply
    · refine course_of_silent hsilent ?_
      rw [hstep]
      exact World.reader?_setReader_of_ne _ hij _
  · exact course_of_silent hsilent (by rw [World.step_hear_eq_self hears])

theorem course_expire (w : World) (i j : Nat) : Course ⟨w, .expire j⟩ i (w.reader? i) := by
  have hsilent : (w.step (.expire j)).1 = .silent := w.step_expire_silent j
  by_cases hexpires : ∃ wait, w.reader? j = some ⟨.suspended, wait⟩ ∧ wait.reading.isDue w.now
  · obtain ⟨wait, hreader, hdue⟩ := hexpires
    have hstep := World.step_expire hreader hdue
    by_cases hij : i = j
    · subst hij
      rw [hreader]
      have hafter : (after ⟨w, .expire i⟩).reader? i = some ⟨.late, wait⟩ := by
        rw [after, hstep]
        exact World.reader?_setReader_self (World.lt_of_reader? hreader) _
      refine .waits hafter (fun _ => .inr hdue) fun progress hreply => ?_
      rw [reply, hsilent] at hreply
      cases hreply
    · refine course_of_silent hsilent ?_
      rw [hstep]
      exact World.reader?_setReader_of_ne _ hij _
  · exact course_of_silent hsilent (by rw [World.step_expire_eq_self hexpires])

theorem course_proceed (w : World) (i j : Nat) : Course ⟨w, .proceed j⟩ i (w.reader? i) := by
  cases hreader : w.reader? j with
  | none =>
      refine course_of_silent ?_ ?_
      · simp only [World.step, hreader]
      · simp only [World.step, hreader]
  | some x =>
      obtain ⟨stage, wait⟩ := x
      cases stage with
      | suspended =>
          refine course_of_silent ?_ ?_
          · simp only [World.step, hreader]
          · simp only [World.step, hreader]
      | woken =>
          have hstep := World.step_proceed_woken hreader
          by_cases hij : i = j
          · subst hij
            rw [hreader]
            exact .retried rfl hstep
          · refine course_of_untouched ?_ fun progress hreply => ?_
            · rw [after, hstep, World.attempt, World.reader?_setReader_of_ne _ hij]
              exact World.reader?_setReader_of_ne _ hij _
            · rw [reply, hstep] at hreply
              exact hij (Reply.read.inj hreply).1.symm
      | late =>
          have hstep : w.step (.proceed j) =
              (.read j (.returned (.ok [])), w.leave j (w.engine.dismiss wait)) := by
            simp only [World.step, hreader]
          by_cases hij : i = j
          · subst hij
            rw [hreader]
            exact .ranOut rfl hstep
          · refine course_of_untouched ?_ fun progress hreply => ?_
            · rw [after, hstep]
              exact World.reader?_setReader_of_ne _ hij _
            · rw [reply, hstep] at hreply
              exact hij (Reply.read.inj hreply).1.symm

theorem course_cancel (w : World) (i j : Nat) : Course ⟨w, .cancel j⟩ i (w.reader? i) := by
  cases hreader : w.reader? j with
  | none =>
      refine course_of_silent ?_ ?_
      · simp only [World.step, hreader]
      · simp only [World.step, hreader]
  | some x =>
      have hstep : w.step (.cancel j) = (.silent, w.leave j (w.engine.abandon x.wait)) := by
        simp only [World.step, hreader]
      by_cases hij : i = j
      · subst hij
        rw [hreader]
        exact .cancelled rfl hstep
      · refine course_of_silent ?_ ?_
        · rw [hstep]
        · rw [hstep]
          exact World.reader?_setReader_of_ne _ hij _

/-- The course of a read that begins later or never is not touched by a beginning. -/
theorem course_begin {w : World} {i : Nat} (hbegun : i < w.readers.length) (request : ReadRequest) :
    Course ⟨w, .begin request⟩ i (w.reader? i) := by
  have hne : i ≠ w.readers.length := Nat.ne_of_lt hbegun
  have hother : ∀ progress, reply ⟨w, .begin request⟩ ≠ .read i progress := by
    intro progress hreply
    simp only [reply, World.step] at hreply
    split at hreply
    · exact hne (Reply.read.inj hreply).1.symm
    · exact hne (Reply.read.inj hreply).1.symm
  refine course_of_untouched ?_ hother
  simp only [after, World.step]
  split
  · exact w.reader?_arrive i
  · rw [World.attempt, World.reader?_setReader_of_ne _ hne]
    exact w.reader?_arrive i

theorem course {t : Turn} {i : Nat} (hbegun : i < t.before.readers.length) :
    t.Course i (t.before.reader? i) := by
  obtain ⟨w, m⟩ := t
  cases m with
  | begin request => exact course_begin hbegun request
  | hear j => exact course_hear w i j
  | expire j => exact course_expire w i j
  | proceed j => exact course_proceed w i j
  | cancel j => exact course_cancel w i j
  | _ => exact course_of_untouched rfl nofun

/-- Reads are only ever added. -/
theorem length_readers_le (t : Turn) : t.before.readers.length ≤ t.after.readers.length := by
  obtain ⟨w, m⟩ := t
  cases m with
  | begin request =>
      simp only [after, World.step]
      split <;> simp [World.attempt, World.arrive]
  | hear j | expire j =>
      simp only [after, World.step]
      split
      · split <;> simp
      · exact Nat.le_refl _
  | proceed j | cancel j =>
      simp only [after, World.step]
      split <;> simp [World.attempt, World.leave]
  | _ => exact Nat.le_refl _

/-- Time stands still but where it is let pass. -/
theorem now_eq {t : Turn} (h : ∀ millis, t.move ≠ .elapse millis) : t.after.now = t.before.now := by
  obtain ⟨w, m⟩ := t
  cases m with
  | elapse millis => exact absurd rfl (h millis)
  | begin request =>
      simp only [after, World.step]
      split <;> rfl
  | hear j | expire j =>
      simp only [after, World.step]
      split
      · split <;> rfl
      · rfl
  | proceed j | cancel j =>
      simp only [after, World.step]
      split <;> rfl
  | _ => rfl

theorem now_le (t : Turn) : t.before.now ≤ t.after.now := by
  by_cases h : ∃ millis, t.move = .elapse millis
  · obtain ⟨w, m⟩ := t
    obtain ⟨millis, rfl⟩ := h
    exact Nat.le_add_right w.now millis
  · exact Nat.le_of_eq (now_eq (not_exists.1 h)).symm

end Turn

/-! ## Attempts -/

/-- An attempt of a read that may wait does not end it without messages. -/
theorem Engine.ne_nil_of_attempt {e : Engine} {r : Reading} (hmay : r.mayWait)
    {outcome : Except Refusal (List Message)} (h : (e.attempt r).1 = .returned outcome) :
    outcome ≠ .ok [] := by
  rintro rfl
  unfold attempt at h
  simp only at h
  split at h
  case h_1 =>
    rw [if_pos hmay] at h
    cases h
  case h_2 hsome => exact hsome (Progress.returned.inj h)

namespace World

/-- An attempt ends a read, or lets it wait for what it asks. -/
theorem attempt_ends_or_waits {w : World} {i : Nat} (hbegun : i < w.readers.length) (r : Reading) :
    (∃ outcome, (w.attempt i r).1 = .read i (.returned outcome) ∧
        (w.attempt i r).2.reader? i = none ∧ (r.mayWait → outcome ≠ .ok [])) ∨
      ∃ wait, wait.reading = r ∧ r.mayWait ∧ (w.attempt i r).1 = .read i (.waiting wait) ∧
        (w.attempt i r).2.reader? i = some ⟨.suspended, wait⟩ := by
  have hafter : (w.attempt i r).2.reader? i = (w.engine.attempt r).1.reader? :=
    reader?_setReader_self hbegun _
  have hreply : (w.attempt i r).1 = .read i (w.engine.attempt r).1 := rfl
  rw [hafter, hreply]
  rcases w.engine.attempt_cases r with hover | ⟨-, hmay, hwait⟩
  · refine .inl ⟨_, congrArg (Reply.read i) (congrArg Prod.fst hover), ?_, ?_⟩
    · rw [hover]
      rfl
    · exact fun hmay => Engine.ne_nil_of_attempt hmay (congrArg Prod.fst hover)
  · rw [hwait]
    exact .inr ⟨_, rfl, hmay, rfl, rfl⟩

/-- There is room for a read that begins, which does not wait yet. -/
theorem room_arrive (w : World) :
    w.readers.length < w.arrive.readers.length ∧ w.arrive.reader? w.readers.length = none := by
  refine ⟨by simp [arrive], ?_⟩
  rw [reader?_arrive, reader?, List.getElem?_eq_none (Nat.le_refl _)]
  rfl

/-- An attempt of a read answers where it stands. -/
theorem reader?_attempt {w : World} {i j : Nat} {r : Reading} {progress : Progress}
    (hbegun : i < w.readers.length) (h : (w.attempt i r).1 = .read j progress) :
    j < (w.attempt i r).2.readers.length ∧ (w.attempt i r).2.reader? j = progress.reader? := by
  obtain ⟨rfl, rfl⟩ := Reply.read.inj h
  refine ⟨?_, reader?_setReader_self hbegun _⟩
  unfold attempt
  rwa [length_setReader]

/-- A read begins with an attempt, unless a cursor is refused. -/
theorem step_begin (w : World) (request : ReadRequest) :
    (∃ refusal, w.store.resolve request.consumer.isSome request.offsets = .error refusal ∧
        w.step (.begin request) =
          (.read w.readers.length (.returned (.error refusal)), w.arrive)) ∨
      ∃ cursors, w.store.resolve request.consumer.isSome request.offsets = .ok cursors ∧
        w.step (.begin request) =
          w.arrive.attempt w.readers.length (request.reading w.now cursors) := by
  cases hresolve : w.store.resolve request.consumer.isSome request.offsets with
  | error refusal => exact .inl ⟨refusal, rfl, by simp only [step, hresolve]⟩
  | ok cursors => exact .inr ⟨cursors, rfl, by simp only [step, hresolve]⟩

theorem length_step_begin (w : World) (request : ReadRequest) :
    w.readers.length < (w.step (.begin request)).2.readers.length := by
  rcases w.step_begin request with ⟨refusal, -, hstep⟩ | ⟨cursors, -, hstep⟩
  · rw [hstep]
    exact w.room_arrive.1
  · rw [hstep, attempt, length_setReader]
    exact w.room_arrive.1

end World

/-! ## From its beginning on -/

/-- A read that has begun waits, if it does, for what it asked for, and is late only if its time is
up. -/
structure World.Follows (w : World) (i : Nat) (r : Reading) : Prop where
  begun : i < w.readers.length
  same : ∀ x, w.reader? i = some x → x.wait.reading = r
  due : ∀ x, w.reader? i = some x → x.stage = .late → r.isDue w.now

theorem Reading.isDue_mono {r : Reading} {now now' : Nat} (h : now ≤ now') (hdue : r.isDue now) :
    r.isDue now' := by
  unfold isDue at hdue ⊢
  split at hdue
  case h_1 deadline _ => exact decide_eq_true (Nat.le_trans (of_decide_eq_true hdue) h)
  case h_2 => cases hdue

namespace World.Follows

/-- A read that is over follows whatever it asked for. -/
theorem of_over {w : World} {i : Nat} (hbegun : i < w.readers.length) (hover : w.reader? i = none)
    (r : Reading) : w.Follows i r := by
  refine ⟨hbegun, ?_, ?_⟩
  · intro x hx
    rw [hover] at hx
    cases hx
  · intro x hx
    rw [hover] at hx
    cases hx

theorem attempt {w : World} {i : Nat} (hbegun : i < w.readers.length) (r : Reading) :
    (w.attempt i r).2.Follows i r := by
  have hroom : i < (w.attempt i r).2.readers.length := by
    unfold World.attempt
    rwa [length_setReader]
  rcases attempt_ends_or_waits hbegun r with ⟨outcome, -, hover, -⟩ | ⟨wait, hsame, -, -, hwait⟩
  · exact of_over hroom hover r
  · refine ⟨hroom, ?_, ?_⟩
    · intro x hx
      obtain rfl := Option.some.inj (hwait.symm.trans hx)
      exact hsame
    · intro x hx hlate
      obtain rfl := Option.some.inj (hwait.symm.trans hx)
      cases hlate

/-- A read that begins follows what it asks for. -/
theorem begin (w : World) (request : ReadRequest) {cursors : List (Bytes × Cursor)}
    (hresolve : w.store.resolve request.consumer.isSome request.offsets = .ok cursors) :
    (w.step (.begin request)).2.Follows w.readers.length (request.reading w.now cursors) := by
  rcases w.step_begin request with ⟨refusal, hrefused, -⟩ | ⟨cursors', hcursors, hstep⟩
  · rw [hresolve] at hrefused
    cases hrefused
  · obtain rfl := Except.ok.inj (hresolve.symm.trans hcursors)
    rw [hstep]
    exact attempt w.room_arrive.1 _

theorem step {t : Turn} {i : Nat} {r : Reading} (h : t.before.Follows i r) :
    t.after.Follows i r := by
  have hroom : i < t.after.readers.length := Nat.lt_of_lt_of_le h.begun t.length_readers_le
  obtain ⟨x?, hx⟩ : ∃ x?, t.before.reader? i = x? := ⟨_, rfl⟩
  have hcourse := t.course h.begun
  rw [hx] at hcourse
  cases hcourse with
  | gone hafter => exact of_over hroom hafter r
  | @waits x stage hafter hlate =>
      refine ⟨hroom, ?_, ?_⟩
      · intro y hy
        obtain rfl := Option.some.inj (hafter.symm.trans hy)
        exact h.same x hx
      · intro y hy hstage
        obtain rfl := Option.some.inj (hafter.symm.trans hy)
        refine Reading.isDue_mono t.now_le ?_
        rcases hlate hstage with hbefore | hdue
        · exact h.due x hx hbefore
        · rwa [h.same x hx] at hdue
  | cancelled hmove hstep =>
      refine of_over hroom ?_ r
      rw [Turn.after, hstep]
      exact reader?_setReader_self h.begun _
  | ranOut hmove hstep =>
      refine of_over hroom ?_ r
      rw [Turn.after, hstep]
      exact reader?_setReader_self h.begun _
  | @retried wait hmove hstep =>
      have hbegun : i < (t.before.leave i (t.before.engine.dismiss wait)).readers.length := by
        unfold leave
        rw [length_setReader]
        exact h.begun
      obtain rfl := h.same _ hx
      rw [Turn.after, hstep]
      exact attempt hbegun _

theorem run {w : World} {i : Nat} {r : Reading} (h : w.Follows i r) (moves : List Move) :
    (w.run moves).Follows i r := by
  induction moves generalizing w with
  | nil => exact h
  | cons m rest ih => exact ih (h.step (t := ⟨w, m⟩))

end World.Follows

/-- A read that is over stays over and is not answered again. -/
theorem Turn.over {t : Turn} {i : Nat} (hbegun : i < t.before.readers.length)
    (hover : t.before.reader? i = none) :
    t.after.reader? i = none ∧ ∀ progress, t.reply ≠ .read i progress := by
  have hcourse := t.course hbegun
  rw [hover] at hcourse
  cases hcourse with
  | gone hafter hreply => exact ⟨hafter, hreply⟩

/-- A read that is not over behind a turn was not over before it. -/
theorem Turn.reader?_before {t : Turn} {i : Nat} (hbegun : i < t.before.readers.length)
    {y : Reader} (h : t.after.reader? i = some y) : ∃ x, t.before.reader? i = some x := by
  cases hx : t.before.reader? i with
  | some x => exact ⟨x, rfl⟩
  | none =>
      rw [(t.over hbegun hx).1] at h
      cases h

theorem World.over_run {w : World} {i : Nat} (hbegun : i < w.readers.length)
    (hover : w.reader? i = none) (moves : List Move) :
    i < (w.run moves).readers.length ∧ (w.run moves).reader? i = none := by
  induction moves generalizing w with
  | nil => exact ⟨hbegun, hover⟩
  | cons m rest ih =>
      have hroom := Nat.lt_of_lt_of_le hbegun (Turn.length_readers_le ⟨w, m⟩)
      exact ih hroom (Turn.over (t := ⟨w, m⟩) hbegun hover).1

theorem World.over_turns {w : World} {i : Nat} (hbegun : i < w.readers.length)
    (hover : w.reader? i = none) {moves : List Move} {t : Turn} (ht : t ∈ w.turns moves) :
    t.after.reader? i = none ∧ ∀ progress, t.reply ≠ .read i progress := by
  obtain ⟨early, m, late, rfl, rfl⟩ := exists_of_mem_turns ht
  obtain ⟨hroom, hearly⟩ := over_run hbegun hover early
  exact Turn.over hroom hearly

/-! ## How a read ends -/

/-- The answer of a read says where it stands. -/
theorem Turn.reader?_of_reply {t : Turn} {i : Nat} {progress : Progress}
    (h : t.reply = .read i progress) :
    i < t.after.readers.length ∧ t.after.reader? i = progress.reader? := by
  obtain ⟨w, m⟩ := t
  unfold reply at h
  unfold after
  cases m with
  | begin request =>
      obtain ⟨hroom, hnew⟩ := w.room_arrive
      rcases w.step_begin request with ⟨refusal, -, hstep⟩ | ⟨cursors, -, hstep⟩
      · rw [hstep] at h ⊢
        obtain ⟨rfl, rfl⟩ := Reply.read.inj h
        exact ⟨hroom, hnew⟩
      · rw [hstep] at h ⊢
        exact World.reader?_attempt hroom h
  | proceed j =>
      cases hreader : w.reader? j with
      | none =>
          simp only [World.step, hreader] at h
          cases h
      | some x =>
          obtain ⟨stage, wait⟩ := x
          have hbegun : j < (w.leave j (w.engine.dismiss wait)).readers.length := by
            rw [World.leave, World.length_setReader]
            exact World.lt_of_reader? hreader
          cases stage with
          | suspended =>
              simp only [World.step, hreader] at h
              cases h
          | woken =>
              rw [World.step_proceed_woken hreader] at h ⊢
              exact World.reader?_attempt hbegun h
          | late =>
              rw [World.step_proceed_late hreader]
              simp only [World.step, hreader] at h
              obtain ⟨rfl, rfl⟩ := Reply.read.inj h
              exact ⟨hbegun, World.reader?_setReader_self (World.lt_of_reader? hreader) _⟩
  | hear j =>
      rw [World.step_hear_silent] at h
      cases h
  | expire j =>
      rw [World.step_expire_silent] at h
      cases h
  | cancel j =>
      rw [World.step_cancel_silent] at h
      cases h
  | _ => cases h

/-- A turn in which a read ends: it returns or is cancelled. -/
def Turn.Ends (t : Turn) (i : Nat) : Prop :=
  (∃ outcome, t.reply = .read i (.returned outcome)) ∨
    t.move = .cancel i ∧ ∃ x, t.before.reader? i = some x

theorem Turn.Ends.over {t : Turn} {i : Nat} (h : t.Ends i) :
    i < t.after.readers.length ∧ t.after.reader? i = none := by
  rcases h with ⟨outcome, hreply⟩ | ⟨hmove, x, hx⟩
  · exact reader?_of_reply hreply
  · have hbegun := World.lt_of_reader? hx
    refine ⟨Nat.lt_of_lt_of_le hbegun t.length_readers_le, ?_⟩
    have hstep : t.after = t.before.leave i (t.before.engine.abandon x.wait) := by
      rw [after, hmove]
      simp only [World.step, hx]
    rw [hstep]
    exact World.reader?_setReader_self hbegun _

theorem Turn.not_ends_of_over {t : Turn} {i : Nat} (hbegun : i < t.before.readers.length)
    (hover : t.before.reader? i = none) : ¬ t.Ends i := by
  rintro (⟨outcome, hreply⟩ | ⟨-, x, hx⟩)
  · exact (t.over hbegun hover).2 _ hreply
  · rw [hover] at hx
    cases hx

/-- A read ends once. -/
theorem World.ends_once {w : World} {moves : List Move} {t t' : Turn} {i : Nat}
    (ht : t ∈ w.turns moves) (ht' : t' ∈ w.turns moves) (h : t.Ends i) (h' : t'.Ends i) :
    t = t' := by
  induction moves generalizing w with
  | nil => cases ht
  | cons m rest ih =>
      -- behind the first of two turns that end it the read is over
      have hfirst : Turn.Ends ⟨w, m⟩ i → ∀ u ∈ (w.step m).2.turns rest, ¬ u.Ends i := by
        intro hends u hu
        obtain ⟨early, n, late, rfl, rfl⟩ := exists_of_mem_turns hu
        obtain ⟨hbegun, hover⟩ := hends.over
        obtain ⟨hroom, hstays⟩ := over_run hbegun hover early
        exact Turn.not_ends_of_over hroom hstays
      rcases List.mem_cons.1 ht with rfl | hlater
      · rcases List.mem_cons.1 ht' with rfl | hlater'
        · rfl
        · exact absurd h' (hfirst h t' hlater')
      · rcases List.mem_cons.1 ht' with rfl | hlater'
        · exact absurd h (hfirst h' t hlater)
        · exact ih hlater hlater'

/-- A read that ended in a turn is over behind it. -/
theorem World.over_of_ends {w : World} {moves : List Move} {t : Turn} {i : Nat}
    (ht : t ∈ w.turns moves) (h : t.Ends i) : (w.run moves).reader? i = none := by
  obtain ⟨early, m, late, rfl, rfl⟩ := exists_of_mem_turns ht
  obtain ⟨hbegun, hover⟩ := h.over
  rw [run_append, run_cons]
  exact (over_run hbegun hover late).2

/-! ## Where a read began -/

/-- Room is made for a read when it begins. -/
theorem Turn.began {t : Turn} {i : Nat} (h : i < t.after.readers.length) :
    i < t.before.readers.length ∨
      ∃ request, t.move = .begin request ∧ i = t.before.readers.length := by
  obtain ⟨w, m⟩ := t
  unfold after at h
  cases m with
  | begin request =>
      have hlength : (w.step (.begin request)).2.readers.length = w.readers.length + 1 := by
        rcases w.step_begin request with ⟨refusal, -, hstep⟩ | ⟨cursors, -, hstep⟩
        · rw [hstep]
          exact List.length_append
        · rw [hstep, World.attempt, World.length_setReader]
          exact List.length_append
      rw [hlength] at h
      rcases Nat.lt_succ_iff_lt_or_eq.1 h with hlt | heq
      · exact .inl hlt
      · exact .inr ⟨request, rfl, heq⟩
  | hear j | expire j =>
      left
      simp only [World.step] at h
      split at h
      · split at h <;> simpa using h
      · exact h
  | proceed j | cancel j =>
      left
      simp only [World.step] at h
      split at h <;> simpa [World.attempt, World.leave] using h
  | _ => exact .inl h

theorem World.exists_begin {w : World} {moves : List Move} {i : Nat}
    (h : i < (w.run moves).readers.length) :
    i < w.readers.length ∨ ∃ past request rest, moves = past ++ .begin request :: rest ∧
      i = (w.run past).readers.length := by
  induction moves generalizing w with
  | nil => exact .inl h
  | cons m rest ih =>
      rcases ih h with hfirst | ⟨past, request, late, rfl, hi⟩
      · rcases Turn.began (t := ⟨w, m⟩) hfirst with hbefore | ⟨request, rfl, hi⟩
        · exact .inl hbefore
        · exact .inr ⟨[], request, rest, rfl, hi⟩
      · exact .inr ⟨m :: past, request, late, rfl, hi⟩

end StreamBroker
