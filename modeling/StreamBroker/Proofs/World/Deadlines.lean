import StreamBroker.Proofs.World.Courses
set_option autoImplicit false

/-!
# Reads return on time

A read that may wait returns without messages only when its time is up, and its time is counted from
its beginning, however often it is woken in vain.  In any run that is not earlier than its deadline.
On a virtual clock, where time passes by the millisecond and only while everybody waits
(`World.isPaced`), it is not later either: nobody is left waiting beyond a deadline
(`World.OnTime`).
-/

namespace StreamBroker

/-! ## Virtual time -/

/-- Whether everybody waits: no signal is raised that somebody listens to, nobody's time is up, and
nobody waits for a turn. -/
def World.isIdle (w : World) : Bool :=
  w.readers.all fun x? => x?.all fun x => x.stage == .suspended && !w.engine.isReady w.now x.wait

/-- Whether a virtual clock makes a move possible: time passes by the millisecond, and only while
everybody waits. -/
def World.paces (w : World) : Move → Bool
  | .elapse millis => w.isIdle && millis ≤ 1
  | _ => true

/-- Whether all moves of a run are possible on a virtual clock. -/
def World.isPaced : World → List Move → Bool
  | _, [] => true
  | w, m :: moves => w.paces m && (w.step m).2.isPaced moves

theorem World.isPaced_cons {w : World} {m : Move} {moves : List Move} :
    w.isPaced (m :: moves) ↔ w.paces m ∧ (w.step m).2.isPaced moves := by
  rw [isPaced, Bool.and_eq_true]

theorem World.isPaced_of_append {w : World} {past future : List Move}
    (h : w.isPaced (past ++ future)) : w.isPaced past := by
  induction past generalizing w with
  | nil => rfl
  | cons m past ih =>
      obtain ⟨hfirst, hrest⟩ := isPaced_cons.1 h
      exact isPaced_cons.2 ⟨hfirst, ih hrest⟩

/-- Nobody's time is up while everybody waits. -/
theorem World.not_isDue_of_isIdle {w : World} (h : w.isIdle) {i : Nat} {x : Reader}
    (hx : w.reader? i = some x) : ¬ x.wait.reading.isDue w.now := by
  have hmem : some x ∈ w.readers := List.mem_of_getElem? (Option.join_eq_some_iff.1 hx)
  have hquiet := List.all_eq_true.1 h _ hmem
  simp only [Option.all_some, Engine.isReady, Bool.and_eq_true, Bool.not_eq_true',
    Bool.or_eq_false_iff] at hquiet
  rw [hquiet.2.2]
  nofun

/-! ## Reads that may wait -/

/-- A read that may wait: it is given a block, and as a consumer asks for undelivered entries
alone. -/
def ReadRequest.MayBlock (request : ReadRequest) : Prop :=
  request.block.isSome ∧ (request.consumer = none ∨ ∀ p ∈ request.offsets, p.2 = ">")

theorem ReadRequest.mayWait_reading {request : ReadRequest} {s : Store} {now : Nat}
    {cursors : List (Bytes × Cursor)}
    (h : s.resolve request.consumer.isSome request.offsets = .ok cursors) :
    (request.reading now cursors).mayWait ↔ request.MayBlock := by
  have hahead : (cursors.all fun p => p.2 == .undelivered) = true ↔
      ∀ p ∈ cursors, p.2 = .undelivered := by
    simp only [List.all_eq_true, beq_iff_eq]
  unfold reading MayBlock
  simp only [Bool.and_eq_true, Bool.or_eq_true, Option.isNone_iff_eq_none, hahead]
  refine and_congr_right fun _ => ?_
  cases hconsumer : request.consumer with
  | none => exact ⟨fun _ => .inl rfl, fun _ => .inl rfl⟩
  | some consumer =>
      rw [hconsumer] at h
      exact or_congr_right (Store.undelivered_of_resolve h)

/-- A deadline is the time at which a read began and its block, which is not zero. -/
theorem ReadRequest.deadline_eq_some {request : ReadRequest} {now deadline : Nat}
    (h : request.deadline now = some deadline) :
    ∃ n, request.block = some n ∧ n ≠ 0 ∧ deadline = now + n.toNat := by
  unfold ReadRequest.deadline at h
  split at h
  case h_1 n hblock =>
    split at h
    case isTrue => cases h
    case isFalse hn => exact ⟨n, hblock, hn, (Option.some.inj h).symm⟩
  case h_2 => cases h

theorem ReadRequest.deadline_of_block {request : ReadRequest} {n : UInt64}
    (hblock : request.block = some n) (hn : n ≠ 0) (now : Nat) :
    request.deadline now = some (now + n.toNat) := by
  simp only [ReadRequest.deadline, hblock, if_neg hn]

/-- A read whose time is up has a deadline, which is not ahead. -/
theorem Reading.deadline_of_isDue {r : Reading} {now : Nat} (h : r.isDue now) :
    ∃ deadline, r.deadline = some deadline ∧ deadline ≤ now := by
  unfold isDue at h
  split at h
  case h_1 deadline hdeadline => exact ⟨deadline, hdeadline, of_decide_eq_true h⟩
  case h_2 => cases h

/-! ## Neither early nor late -/

/-- A read that may wait and returns without messages has run out of time. -/
theorem World.Follows.isDue_of_empty {t : Turn} {i : Nat} {r : Reading}
    (h : t.before.Follows i r) (hmay : r.mayWait)
    (hreply : t.reply = .read i (.returned (.ok []))) :
    (∃ x, t.before.reader? i = some x) ∧ r.isDue t.before.now := by
  obtain ⟨x?, hx⟩ : ∃ x?, t.before.reader? i = x? := ⟨_, rfl⟩
  have hcourse := t.course h.begun
  rw [hx] at hcourse
  cases hcourse with
  | gone hafter hsilent => exact absurd hreply (hsilent _)
  | waits hafter hlate hsilent => exact absurd hreply (hsilent _)
  | cancelled hmove hstep =>
      rw [Turn.reply, hstep] at hreply
      cases hreply
  | ranOut hmove hstep => exact ⟨⟨_, hx⟩, h.due _ hx rfl⟩
  | @retried wait hmove hstep =>
      have hbegun : i < (t.before.leave i (t.before.engine.dismiss wait)).readers.length := by
        unfold World.leave
        rw [length_setReader]
        exact h.begun
      rw [h.same _ hx] at hstep
      rw [Turn.reply, hstep] at hreply
      rcases World.attempt_ends_or_waits hbegun r with ⟨outcome, hends, -, hmessages⟩ |
        ⟨wait', -, -, hwaits, -⟩
      · rw [hends] at hreply
        exact absurd (Progress.returned.inj (Reply.read.inj hreply).2) (hmessages hmay)
      · rw [hwaits] at hreply
        cases (Reply.read.inj hreply).2

/-- While a read waits its deadline is not past. -/
structure World.OnTime (w : World) (i : Nat) (r : Reading) : Prop extends w.Follows i r where
  inTime : ∀ x, w.reader? i = some x → ∀ deadline, r.deadline = some deadline → w.now ≤ deadline

namespace World.OnTime

variable {w : World} {i : Nat} {r : Reading}

theorem step {m : Move} (h : w.OnTime i r) (hpaced : w.paces m) : (w.step m).2.OnTime i r := by
  refine ⟨h.toFollows.step (t := ⟨w, m⟩), ?_⟩
  intro y hy deadline hdeadline
  obtain ⟨x, hx⟩ := Turn.reader?_before (t := ⟨w, m⟩) h.begun hy
  have hbefore := h.inTime x hx deadline hdeadline
  by_cases hmove : ∃ millis, m = .elapse millis
  · obtain ⟨millis, rfl⟩ := hmove
    rw [paces, Bool.and_eq_true] at hpaced
    have hmillis : millis ≤ 1 := of_decide_eq_true hpaced.2
    -- the reader was not due, so its deadline is at least one millisecond ahead
    have hahead : w.now < deadline := by
      have hdue := not_isDue_of_isIdle hpaced.1 hx
      rw [h.same x hx, Reading.isDue, hdeadline] at hdue
      exact Nat.lt_of_not_le fun hle => hdue (decide_eq_true hle)
    change w.now + millis ≤ deadline
    omega
  · have hnow : (w.step m).2.now = w.now := Turn.now_eq (t := ⟨w, m⟩) (not_exists.1 hmove)
    rwa [hnow]

theorem run (h : w.OnTime i r) {moves : List Move} (hpaced : w.isPaced moves) :
    (w.run moves).OnTime i r := by
  induction moves generalizing w with
  | nil => exact h
  | cons m rest ih =>
      obtain ⟨hfirst, hrest⟩ := isPaced_cons.1 hpaced
      exact ih (h.step hfirst) hrest

/-- A read that begins has its whole time before it. -/
theorem begin (w : World) (request : ReadRequest) {cursors : List (Bytes × Cursor)}
    (hresolve : w.store.resolve request.consumer.isSome request.offsets = .ok cursors) :
    (w.step (.begin request)).2.OnTime w.readers.length (request.reading w.now cursors) := by
  refine ⟨.begin w request hresolve, ?_⟩
  intro x hx deadline hdeadline
  obtain ⟨n, -, -, rfl⟩ := ReadRequest.deadline_eq_some hdeadline
  have hnow : (w.step (.begin request)).2.now = w.now :=
    Turn.now_eq (t := ⟨w, .begin request⟩) nofun
  rw [hnow]
  exact Nat.le_add_right ..

end World.OnTime

/-- A read that may not wait returns in the turn in which it begins. -/
theorem World.step_begin_of_not_mayBlock {w : World} {request : ReadRequest}
    (hnot : ¬ request.MayBlock) :
    (∃ outcome, (w.step (.begin request)).1 = .read w.readers.length (.returned outcome)) ∧
      (w.step (.begin request)).2.reader? w.readers.length = none := by
  obtain ⟨hroom, hnew⟩ := w.room_arrive
  rcases w.step_begin request with ⟨refusal, -, hstep⟩ | ⟨cursors, hresolve, hstep⟩
  · rw [hstep]
    exact ⟨⟨_, rfl⟩, hnew⟩
  · rw [hstep]
    rcases attempt_ends_or_waits hroom (request.reading w.now cursors) with
      ⟨outcome, hends, hover, -⟩ | ⟨wait, -, hmay, -, -⟩
    · exact ⟨⟨outcome, hends⟩, hover⟩
    · exact absurd ((ReadRequest.mayWait_reading hresolve).1 hmay) hnot

/-- A read that may wait and returns without messages does so at its deadline. -/
theorem World.empty_return {w : World} {request : ReadRequest} (hmay : request.MayBlock)
    {rest : List Move} {t : Turn} (ht : t ∈ w.turns (.begin request :: rest))
    (hreply : t.reply = .read w.readers.length (.returned (.ok []))) :
    ∃ n, request.block = some n ∧ n ≠ 0 ∧ w.now + n.toNat ≤ t.before.now ∧
      (w.isPaced (.begin request :: rest) → t.before.now = w.now + n.toNat) := by
  obtain ⟨hroom, hnew⟩ := w.room_arrive
  rcases w.step_begin request with ⟨refusal, -, hstep⟩ | ⟨cursors, hresolve, hstep⟩
  · rcases List.mem_cons.1 ht with rfl | hlater
    · rw [Turn.reply, hstep] at hreply
      cases hreply
    · rw [hstep] at hlater
      exact absurd hreply ((over_turns hroom hnew hlater).2 _)
  · have hmayWait : (request.reading w.now cursors).mayWait :=
      (ReadRequest.mayWait_reading hresolve).2 hmay
    rcases List.mem_cons.1 ht with rfl | hlater
    · rw [Turn.reply, hstep] at hreply
      rcases attempt_ends_or_waits hroom (request.reading w.now cursors) with
        ⟨outcome, hends, -, hmessages⟩ | ⟨wait, -, -, hwaits, -⟩
      · rw [hends] at hreply
        exact absurd (Progress.returned.inj (Reply.read.inj hreply).2) (hmessages hmayWait)
      · rw [hwaits] at hreply
        cases (Reply.read.inj hreply).2
    · obtain ⟨early, m, late, rfl, rfl⟩ := exists_of_mem_turns hlater
      have hfollows := (Follows.begin w request hresolve).run early
      obtain ⟨⟨x, hx⟩, hdue⟩ := hfollows.isDue_of_empty hmayWait hreply
      obtain ⟨deadline, hdeadline, hle⟩ := Reading.deadline_of_isDue hdue
      obtain ⟨n, hblock, hn, rfl⟩ := ReadRequest.deadline_eq_some hdeadline
      refine ⟨n, hblock, hn, hle, ?_⟩
      intro hpaced
      have hearly := isPaced_of_append (isPaced_cons.1 hpaced).2
      have honTime := (OnTime.begin w request hresolve).run hearly
      exact Nat.le_antisymm (honTime.inTime x hx _ hdeadline) hle

/-- A read that may wait returns without messages only if it was given a time to wait that is not
zero, and not before that time is up, counted from its beginning; on a virtual clock it returns at
exactly that time, and does not wait beyond it.  A read without a block, or one of a consumer that
asks for anything but undelivered entries, returns in the turn in which it begins and never waits. -/
theorem empty_return_on_deadline (past rest : List Move) (request : ReadRequest) :
    let w := World.start.run past
    let i := w.readers.length
    let moves := .begin request :: rest
    (request.MayBlock →
      (∀ t ∈ w.turns moves, ∀ outcome, t.reply = .read i (.returned outcome) →
        outcome ≠ .ok [] ∨
          ∃ n, request.block = some n ∧ n ≠ 0 ∧ w.now + n.toNat ≤ t.before.now ∧
            (w.isPaced moves → t.before.now = w.now + n.toNat)) ∧
      (w.isPaced moves → ∀ n, request.block = some n → n ≠ 0 → ∀ x,
        (w.run moves).reader? i = some x → (w.run moves).now ≤ w.now + n.toNat)) ∧
    (¬ request.MayBlock →
      (∃ outcome, (w.step (.begin request)).1 = .read i (.returned outcome)) ∧
        ∀ t ∈ w.turns moves, t.after.reader? i = none) := by
  intro w i moves
  refine ⟨fun hmay => ⟨?_, ?_⟩, fun hnot => ?_⟩
  · intro t ht outcome hreply
    by_cases hempty : outcome = .ok []
    · subst hempty
      exact .inr (World.empty_return hmay ht hreply)
    · exact .inl hempty
  · intro hpaced n hblock hn x hx
    obtain ⟨-, hrest⟩ := World.isPaced_cons.1 hpaced
    rcases w.step_begin request with ⟨refusal, -, hstep⟩ | ⟨cursors, hresolve, -⟩
    · obtain ⟨hroom, hnew⟩ := w.room_arrive
      rw [World.run_cons, hstep, (World.over_run hroom hnew rest).2] at hx
      cases hx
    · have honTime := (World.OnTime.begin w request hresolve).run hrest
      exact honTime.inTime x hx _ (ReadRequest.deadline_of_block hblock hn w.now)
  · obtain ⟨hreturned, hover⟩ := World.step_begin_of_not_mayBlock hnot
    refine ⟨hreturned, fun t ht => ?_⟩
    rcases List.mem_cons.1 ht with rfl | hlater
    · exact hover
    · exact (World.over_turns (w.length_step_begin request) hover hlater).1

/-- A read with three milliseconds to wait. -/
def threeMillis : ReadRequest := ⟨[([97], "$")], some 3, none, false, none⟩

/-- It is woken by an entry that is gone when it looks, waits again, and runs out of time. -/
def wokenInVain : List Move :=
  [.elapse 1, .add [97] (some "1-1") (.ofList [([102], [118])]) (some 0), .delete [97] ["1-1"],
    .hear 0, .proceed 0, .elapse 1, .elapse 1, .expire 0]

/-- Its second wait, which still ends three milliseconds after its beginning. -/
def secondWait : Wait := ⟨⟨[([97], .after ⟨0, 0⟩)], none, false, none, true, some 5⟩, 1⟩

theorem empty_return_on_deadline_wokenInVain :
    let w := World.start.run [.elapse 2]
    let t : Turn := ⟨w.run (.begin threeMillis :: wokenInVain), .proceed 0⟩
    threeMillis.MayBlock ∧ w.isPaced (.begin threeMillis :: (wokenInVain ++ [.proceed 0])) ∧
      t.reply = .read 0 (.returned (.ok [])) ∧ t.before.now = 2 + 3 := by
  intro w t
  have hmay : threeMillis.MayBlock := ⟨rfl, .inl rfl⟩
  have hpaced : w.isPaced (.begin threeMillis :: (wokenInVain ++ [.proceed 0])) := by
    decide +kernel
  have hlate : t.before.reader? 0 = some ⟨.late, secondWait⟩ := by decide +kernel
  have hreply : t.reply = .read 0 (.returned (.ok [])) := by
    unfold Turn.reply World.step
    simp only [t, hlate]
  have ht : t ∈ w.turns (.begin threeMillis :: (wokenInVain ++ [.proceed 0])) := by
    rw [← List.cons_append, World.turns_append]
    exact List.mem_append_right _ List.mem_cons_self
  obtain ⟨hblocks, -⟩ :=
    empty_return_on_deadline [.elapse 2] (wokenInVain ++ [.proceed 0]) threeMillis
  rcases (hblocks hmay).1 t ht _ hreply with hmessages | ⟨n, hblock, -, -, hexact⟩
  · exact absurd rfl hmessages
  · obtain rfl := Option.some.inj hblock
    exact ⟨hmay, hpaced, hreply, hexact hpaced⟩

end StreamBroker
