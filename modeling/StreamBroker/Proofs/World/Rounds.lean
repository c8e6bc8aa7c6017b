import StreamBroker.Proofs.Store.PlainRead
import StreamBroker.Proofs.World.Courses
import StreamBroker.Proofs.World.Resumption
set_option autoImplicit false

/-!
# Plain reads in one go, among others

An engine carries a plain read on in one go: the read returns what it finds, or has found nothing and
waits on (`PlainStep`).  Where the read stands among the readers of others does not matter to them:
a world with one more reader does what it did before (`World.step_join`), so the reader can be put
before all of them.
-/

namespace StreamBroker

/-! ## One reader more -/

/-- A move of those who come behind the first reader. -/
def Move.shift : Move → Move
  | .hear i => .hear (i + 1)
  | .expire i => .expire (i + 1)
  | .proceed i => .proceed (i + 1)
  | .cancel i => .cancel (i + 1)
  | m => m

namespace World

/-- A world with one more reader, before all others. -/
def join (w : World) (r : Option Reader) : World := { w with readers := r :: w.readers }

theorem reader?_join_succ (w : World) (r : Option Reader) (i : Nat) :
    (w.join r).reader? (i + 1) = w.reader? i :=
  rfl

/-- The reader that was put before them does not matter to the others. -/
theorem step_join (w : World) (r : Option Reader) (m : Move) :
    ((w.join r).step m.shift).2 = (w.step m).2.join r := by
  cases m with
  | begin request =>
      rcases w.step_begin request with ⟨refusal, hrefused, hstep⟩ | ⟨cursors, hresolve, hstep⟩
      · rw [hstep]
        simp only [Move.shift, step, join, hrefused]
        rfl
      · rw [hstep]
        simp only [Move.shift, step, join, hresolve]
        rfl
  | hear i =>
      by_cases hears : ∃ wait, w.reader? i = some ⟨.suspended, wait⟩ ∧
          w.registry.isListening wait.signal ∧ w.registry.isRaised wait.signal
      · obtain ⟨wait, hreader, hlistening, hraised⟩ := hears
        rw [step_hear hreader hlistening hraised]
        exact step_hear (w := w.join r) (i := i + 1) hreader hlistening hraised
      · rw [step_hear_eq_self hears]
        exact step_hear_eq_self (w := w.join r) (i := i + 1) hears
  | expire i =>
      by_cases hexpires : ∃ wait, w.reader? i = some ⟨.suspended, wait⟩ ∧ wait.reading.isDue w.now
      · obtain ⟨wait, hreader, hdue⟩ := hexpires
        rw [step_expire hreader hdue]
        exact step_expire (w := w.join r) (i := i + 1) hreader hdue
      · rw [step_expire_eq_self hexpires]
        exact step_expire_eq_self (w := w.join r) (i := i + 1) hexpires
  | proceed i =>
      simp only [Move.shift, step, reader?_join_succ]
      rcases w.reader? i with _ | ⟨stage, wait⟩
      · rfl
      · cases stage <;> rfl
  | cancel i =>
      simp only [Move.shift, step, reader?_join_succ]
      cases w.reader? i <;> rfl
  | _ => rfl

end World

/-! ## Reads that are carried on in one go -/

namespace World

theorem Attended.run {w : World} (h : w.Attended) (moves : List Move) : (w.run moves).Attended :=
  run_induction (P := fun _ w => w.Attended) h fun past m _ _ hpast =>
    hpast.step (t := ⟨w.run past, m⟩)

theorem Attended.tryRead {w : World} (h : w.Attended) {i : Nat} (hi : i < w.readers.length)
    {r : Reading} (hahead : r.mayWait → r.AsksAhead) :
    (w.carriedOn i (w.engine.tryRead w.now r)).Attended := by
  obtain ⟨moves, hmoves⟩ := tryRead_eq_run hi r
  rw [← hmoves]
  exact (h.attempt i hahead).run moves

theorem Attended.resume {w : World} (h : w.Attended) {i : Nat} {wait : Wait}
    (hreader : w.reader? i = some ⟨.suspended, wait⟩) :
    (w.carriedOn i (w.engine.resume w.now wait)).Attended := by
  obtain ⟨moves, hmoves⟩ := resume_eq_run h hreader
  rw [← hmoves]
  exact h.run moves

end World

/-- A step of a plain read leaves the store alone and returns what the read finds, or has found
nothing and lets it wait. -/
structure PlainStep (e : Engine) (r : Reading) (p : Progress × Engine) : Prop where
  store : p.2.store = e.store
  progress : p.1 = .returned (.ok (e.store.readPlain r.count r.cursors)) ∨
    ∃ wait, p.1 = .waiting wait ∧ wait.reading = r ∧ e.store.readPlain r.count r.cursors = []

namespace Engine

variable {e : Engine} {r : Reading} {wait : Wait}

theorem tryRead_plain (hplain : r.consumer = none) (now : Nat) :
    PlainStep e r (e.tryRead now r) := by
  have hattempt : e.store.attempt r.consumer r.count r.noAck r.cursors =
      (.ok (e.store.readPlain r.count r.cursors), e.store) := by
    rw [hplain, Store.attempt_plain]
  have htried : (e.tried r).store = e.store := by rw [tried, hattempt]
  rcases e.attempt_cases r with hover | ⟨hnothing, -, hwait⟩
  · rw [hattempt] at hover
    refine ⟨?_, .inl ?_⟩
    · simp only [tryRead, hover]
      exact htried
    · simp only [tryRead, hover]
  · rw [hattempt] at hnothing
    have hempty : e.store.readPlain r.count r.cursors = [] := Except.ok.inj hnothing
    cases hdue : r.isDue now with
    | true =>
        refine ⟨?_, .inl ?_⟩
        · simp only [tryRead, hwait, hdue, if_true]
          exact htried
        · simp only [tryRead, hwait, hdue, if_true, hempty]
    | false =>
        refine ⟨?_, .inr ⟨((e.tried r).enroll r).1, ?_, rfl, hempty⟩⟩
        · simp only [tryRead, hwait, hdue, Bool.false_eq_true, if_false]
          exact htried
        · simp only [tryRead, hwait, hdue, Bool.false_eq_true, if_false]

/-- A reader that has nothing to read unless its signal is raised goes on as if it looked each
time. -/
theorem resume_plain (hplain : wait.reading.consumer = none)
    (hquiet : ¬ e.registry.isRaised wait.signal →
      e.store.readPlain wait.reading.count wait.reading.cursors = []) (now : Nat) :
    PlainStep e wait.reading (e.resume now wait) := by
  unfold resume
  split
  case isTrue =>
    obtain ⟨hstore, hprogress⟩ := tryRead_plain (e := e.dismiss wait) hplain now
    exact ⟨hstore, hprogress⟩
  case isFalse hquiet' =>
    have hempty := hquiet hquiet'
    split
    case isTrue => exact ⟨rfl, .inl (by rw [hempty])⟩
    case isFalse => exact ⟨rfl, .inr ⟨wait, rfl, rfl, hempty⟩⟩

end Engine

/-! ## What a plain read finds under one key -/

/-- A plain read asks once for a key, behind an identifier. -/
structure Reading.AsksFor (r : Reading) (key : Bytes) (id : EntryId) : Prop where
  plain : r.consumer = none
  once : ∃ front back, r.cursors = front ++ (key, .after id) :: back ∧
    (∀ p ∈ front, p.1 ≠ key) ∧ ∀ p ∈ back, p.1 ≠ key

theorem Store.stream_of_mem_readFrom {s : Store} {count : Option UInt64} {key : Bytes}
    {cursor : Cursor} {m : Message} (h : m ∈ s.readFrom count key cursor) : m.stream = key := by
  cases cursor with
  | undelivered => cases h
  | after id =>
      rw [readFrom_after] at h
      obtain ⟨p, -, rfl⟩ := List.mem_map.1 h
      rfl

theorem Store.filter_readPlain_of_ne (s : Store) (count : Option UInt64) {key : Bytes}
    {cursors : List (Bytes × Cursor)} (h : ∀ p ∈ cursors, p.1 ≠ key) :
    (s.readPlain count cursors).filter (·.stream = key) = [] := by
  rw [List.filter_eq_nil_iff]
  intro m hm
  obtain ⟨p, hp, hfrom⟩ := List.mem_flatMap.1 hm
  rw [decide_eq_true_iff, stream_of_mem_readFrom hfrom]
  exact h p hp

/-- What such a read finds under the key are the first entries behind the identifier. -/
theorem Reading.AsksFor.filter_readPlain {r : Reading} {key : Bytes} {id : EntryId}
    (h : r.AsksFor key id) (s : Store) :
    (s.readPlain r.count r.cursors).filter (·.stream = key) =
      (takeCount r.count (s.behind key id)).map fun p => .ofEntry key p.1 p.2 := by
  obtain ⟨front, back, hcursors, hfront, hback⟩ := h.once
  have hhere : (s.readFrom r.count key (.after id)).filter (·.stream = key) =
      s.readFrom r.count key (.after id) :=
    List.filter_eq_self.2 fun m hm => decide_eq_true (Store.stream_of_mem_readFrom hm)
  have hsplit : s.readPlain r.count r.cursors = s.readPlain r.count front ++
      (s.readFrom r.count key (.after id) ++ s.readPlain r.count back) := by
    unfold Store.readPlain
    rw [hcursors, List.flatMap_append, List.flatMap_cons]
  rw [hsplit, List.filter_append, List.filter_append, s.filter_readPlain_of_ne _ hfront, hhere,
    s.filter_readPlain_of_ne _ hback, List.nil_append, List.append_nil, Store.readFrom_after]

end StreamBroker
