import StreamBroker.Proofs.Histories
import StreamBroker.Proofs.Store.GroupRead
import StreamBroker.Engine
set_option autoImplicit false

/-!
# An engine in use

Those who use an engine take turns at it.  A turn is one section that nothing can interrupt: a
command, an attempt of a read together with its registration, or a reader's return from its wait.
Between two of its turns a read that waits may hear its signal, run out of time or be cancelled, in
any order with the turns of everybody else.

A run is any list of moves, starting from the empty engine (`World.run`).  A move that is not
possible changes nothing, so every list of moves is a run and every run is one.
-/

namespace StreamBroker

/-- Where a read stands that has begun and is not over. -/
inductive Stage where
  /-- It listens for its signal. -/
  | suspended
  /-- It has heard its signal and waits for its turn. -/
  | woken
  /-- Its time is up and it waits for its turn. -/
  | late
  deriving DecidableEq, Repr

/-- A read that has begun and is not over. -/
structure Reader where
  stage : Stage
  wait : Wait
  deriving DecidableEq, Repr

/-- The reader that a turn leaves behind. -/
def Progress.reader? : Progress → Option Reader
  | .waiting wait => some ⟨.suspended, wait⟩
  | .returned _ => none

/-- What an attempt gave to a read; one that waits was given nothing. -/
def Progress.outcome : Progress → Except Refusal (List Message)
  | .waiting _ => .ok []
  | .returned outcome => outcome

/-- An engine, the time, and the reads in the order in which they began. -/
structure World where
  engine : Engine
  now : Nat
  readers : List (Option Reader)

/-- What somebody does to an engine, or what befalls a read. -/
inductive Move where
  | add (key : Bytes) (request : Option String) (body : Body) (clock : Option UInt64)
  | delete (key : Bytes) (ids : List String)
  | trim (key : Bytes) (count : UInt64)
  | acknowledge (key group : Bytes) (ids : List String)
  | createGroup (key : Bytes) (token : String) (group : Bytes)
  | deleteConsumer (key group consumer : Bytes)
  | destroyGroup (key group : Bytes)
  | length (key : Bytes)
  | pendingCount (key group : Bytes)
  | page (scan : Scan)
  /-- A read begins, and makes its first attempt. -/
  | begin (request : ReadRequest)
  /-- A reader hears its signal. -/
  | hear (reader : Nat)
  /-- The time of a reader is up. -/
  | expire (reader : Nat)
  /-- A reader that left its wait takes its turn. -/
  | proceed (reader : Nat)
  | cancel (reader : Nat)
  | elapse (millis : Nat)

/-- What a move is answered. -/
inductive Reply where
  | added (outcome : Except Refusal EntryId)
  | counted (outcome : Except Refusal Nat)
  | told (outcome : Except Refusal Bool)
  | made (outcome : Except Refusal Unit)
  | pending (count : Option Nat)
  | page (entries : List (EntryId × Body))
  | read (reader : Nat) (progress : Progress)
  | silent

namespace World

/-- The empty engine, which nobody reads from. -/
def start : World := ⟨∅, 0, []⟩

abbrev store (w : World) : Store := w.engine.store

abbrev registry (w : World) : Registry := w.engine.registry

/-- A read that is not over. -/
def reader? (w : World) (i : Nat) : Option Reader := w.readers[i]?.join

/-- Replaces a reader; none stands for a read that is over. -/
def setReader (w : World) (i : Nat) (r : Option Reader) : World :=
  { w with readers := w.readers.set i r }

/-- Makes room for a read that begins. -/
def arrive (w : World) : World := { w with readers := w.readers ++ [none] }

/-- Attempts the read of a reader, which waits from then on or is over. -/
def attempt (w : World) (i : Nat) (r : Reading) : Reply × World :=
  let (progress, engine) := w.engine.attempt r
  (.read i progress, { w with engine }.setReader i progress.reader?)

/-- Ends the wait of a reader. -/
def leave (w : World) (i : Nat) (engine : Engine) : World := { w with engine }.setReader i none

/-- Makes a move. -/
def step (w : World) : Move → Reply × World
  | .add key request body clock =>
    let (outcome, engine) := w.engine.add key request body clock
    (.added outcome, { w with engine })
  | .delete key ids =>
    let (outcome, engine) := w.engine.delete key ids
    (.counted outcome, { w with engine })
  | .trim key count =>
    let (removed, engine) := w.engine.trim key count
    (.counted (.ok removed), { w with engine })
  | .acknowledge key group ids =>
    let (outcome, engine) := w.engine.acknowledge key group ids
    (.counted outcome, { w with engine })
  | .createGroup key token group =>
    let (outcome, engine) := w.engine.createGroup key token group
    (.made outcome, { w with engine })
  | .deleteConsumer key group consumer =>
    let (outcome, engine) := w.engine.deleteConsumer key group consumer
    (.told outcome, { w with engine })
  | .destroyGroup key group =>
    let (outcome, engine) := w.engine.destroyGroup key group
    (.told outcome, { w with engine })
  | .length key => (.counted (.ok (w.store.length key)), w)
  | .pendingCount key group => (.pending (w.store.pendingCount key group), w)
  | .page scan => (.page (scan.pageOf w.store), w)
  | .begin request =>
    match w.store.resolve request.consumer.isSome request.offsets with
    | .error refusal => (.read w.readers.length (.returned (.error refusal)), w.arrive)
    | .ok cursors => w.arrive.attempt w.readers.length (request.reading w.now cursors)
  | .hear i =>
    match w.reader? i with
    | some ⟨.suspended, wait⟩ =>
      match w.registry.listen wait.signal with
      | (.woken, registry) =>
        (.silent, { w with engine := { w.engine with registry } }.setReader i (some ⟨.woken, wait⟩))
      | _ => (.silent, w)
    | _ => (.silent, w)
  | .expire i =>
    match w.reader? i with
    | some ⟨.suspended, wait⟩ =>
      if wait.reading.isDue w.now then (.silent, w.setReader i (some ⟨.late, wait⟩))
      else (.silent, w)
    | _ => (.silent, w)
  | .proceed i =>
    match w.reader? i with
    | some ⟨.woken, wait⟩ => (w.leave i (w.engine.dismiss wait)).attempt i wait.reading
    | some ⟨.late, wait⟩ => (.read i (.returned (.ok [])), w.leave i (w.engine.dismiss wait))
    | _ => (.silent, w)
  | .cancel i =>
    match w.reader? i with
    | some r => (.silent, w.leave i (w.engine.abandon r.wait))
    | none => (.silent, w)
  | .elapse millis => (.silent, { w with now := w.now + millis })

/-! Hearing a signal, falling due and being cancelled are not answered. -/

theorem step_hear_silent (w : World) (i : Nat) : (w.step (.hear i)).1 = .silent := by
  cases hreader : w.reader? i with
  | none => simp only [step, hreader]
  | some x =>
      obtain ⟨stage, wait⟩ := x
      cases stage with
      | suspended =>
          rcases hheard : w.registry.listen wait.signal with ⟨heard, registry⟩
          cases heard <;> simp only [step, hreader, hheard]
      | woken | late => simp only [step, hreader]

theorem step_expire_silent (w : World) (i : Nat) : (w.step (.expire i)).1 = .silent := by
  cases hreader : w.reader? i with
  | none => simp only [step, hreader]
  | some x =>
      obtain ⟨stage, wait⟩ := x
      cases stage with
      | suspended =>
          simp only [step, hreader]
          cases wait.reading.isDue w.now <;> rfl
      | woken | late => simp only [step, hreader]

theorem step_cancel_silent (w : World) (i : Nat) : (w.step (.cancel i)).1 = .silent := by
  cases hreader : w.reader? i with
  | none => simp only [step, hreader]
  | some x => simp only [step, hreader]

/-- The world behind a list of moves. -/
def run (w : World) (moves : List Move) : World := moves.foldl (fun w m => (w.step m).2) w

@[simp] theorem run_nil (w : World) : w.run [] = w := rfl

@[simp] theorem run_cons (w : World) (m : Move) (moves : List Move) :
    w.run (m :: moves) = (w.step m).2.run moves := rfl

@[simp] theorem run_append (w : World) (past future : List Move) :
    w.run (past ++ future) = (w.run past).run future := List.foldl_append

/-- The read that a move attempts. -/
def reading? (w : World) : Move → Option Reading
  | .begin request =>
    match w.store.resolve request.consumer.isSome request.offsets with
    | .error _ => none
    | .ok cursors => some (request.reading w.now cursors)
  | .proceed i =>
    match w.reader? i with
    | some ⟨.woken, wait⟩ => some wait.reading
    | _ => none
  | _ => none

end World

/-! ## What happened in a run -/

/-- One move of a run. -/
structure Turn where
  before : World
  move : Move

namespace Turn

def reply (t : Turn) : Reply := (t.before.step t.move).1

def after (t : Turn) : World := (t.before.step t.move).2

/-- The read that was attempted. -/
def reading? (t : Turn) : Option Reading := t.before.reading? t.move

/-- The entry that was added under a key. -/
def addition? (t : Turn) (key : Bytes) : Option (EntryId × Body) :=
  match t.move, t.reply with
  | .add key' _ body _, .added (.ok id) => if key' = key then some (id, body) else none
  | _, _ => none

end Turn

/-- The turns of a run. -/
def World.turns : World → List Move → List Turn
  | _, [] => []
  | w, m :: moves => ⟨w, m⟩ :: (w.step m).2.turns moves

@[simp] theorem World.turns_append (w : World) (past future : List Move) :
    w.turns (past ++ future) = w.turns past ++ (w.run past).turns future := by
  induction past generalizing w with
  | nil => rfl
  | cons m rest ih =>
      rw [List.cons_append, turns, turns, ih, run_cons, List.cons_append]

/-- A turn of a run is made behind the moves before it. -/
theorem World.exists_of_mem_turns {w : World} {moves : List Move} {t : Turn}
    (h : t ∈ w.turns moves) :
    ∃ early m late, moves = early ++ m :: late ∧ t = ⟨w.run early, m⟩ := by
  induction moves generalizing w with
  | nil => cases h
  | cons m rest ih =>
      rcases List.mem_cons.1 h with rfl | hrest
      · exact ⟨[], m, rest, rfl, rfl⟩
      · obtain ⟨early, n, late, rfl, rfl⟩ := ih hrest
        exact ⟨m :: early, n, late, rfl, rfl⟩

/-- What one more move keeps holds at the end of every run, of its turns and its world. -/
theorem World.run_induction {P : List Turn → World → Prop} {w : World} {moves : List Move}
    (hstart : P [] w)
    (hstep : ∀ past m future, moves = past ++ m :: future → P (w.turns past) (w.run past) →
      P (w.turns past ++ [⟨w.run past, m⟩]) ((w.run past).step m).2) :
    P (w.turns moves) (w.run moves) := by
  suffices h : ∀ future past, moves = past ++ future → P (w.turns past) (w.run past) →
      P (w.turns moves) (w.run moves) from h moves [] rfl hstart
  intro future
  induction future with
  | nil =>
      intro past hsplit hpast
      rw [List.append_nil] at hsplit
      rwa [hsplit]
  | cons m rest ih =>
      intro past hsplit hpast
      apply ih (past ++ [m])
      · rw [hsplit, List.append_assoc]
        rfl
      · rw [turns_append, run_append]
        exact hstep past m rest hsplit hpast

/-! ## What a move does to the store -/

/-- Whether a move is a command that may change the store. -/
def Move.IsCommand : Move → Prop
  | .add .. | .delete .. | .trim .. | .acknowledge .. | .createGroup .. | .deleteConsumer ..
  | .destroyGroup .. => True
  | _ => False

namespace World

theorem step_proceed_woken {w : World} {i : Nat} {wait : Wait}
    (hreader : w.reader? i = some ⟨.woken, wait⟩) :
    w.step (.proceed i) = (w.leave i (w.engine.dismiss wait)).attempt i wait.reading := by
  simp only [step, hreader]

/-- Only commands and attempts of reads change the store. -/
theorem store_of_not_isCommand {w : World} {m : Move} (hreading : w.reading? m = none)
    (hmove : ¬ m.IsCommand) : (w.step m).2.store = w.store := by
  cases m with
  | length | pendingCount | page | elapse => rfl
  | begin request =>
      cases hresolve : w.store.resolve request.consumer.isSome request.offsets with
      | error refusal =>
          simp only [step, hresolve]
          rfl
      | ok cursors =>
          simp only [reading?, hresolve] at hreading
          cases hreading
  | hear i | expire i =>
      simp only [step]
      split
      · split <;> rfl
      · rfl
  | proceed i =>
      simp only [step]
      split
      case h_1 wait hreader =>
        simp only [reading?, hreader] at hreading
        cases hreading
      case h_2 => rfl
      case h_3 => rfl
  | cancel i =>
      simp only [step]
      split <;> rfl
  | _ => exact absurd trivial hmove

end World

namespace Engine

/-- The engine behind an attempt, before anybody waits. -/
def tried (e : Engine) (r : Reading) : Engine :=
  { e with store := (e.store.attempt r.consumer r.count r.noAck r.cursors).2 }

/-- An attempt ends a read, unless it found nothing and the read may wait. -/
theorem attempt_cases (e : Engine) (r : Reading) :
    e.attempt r =
        (.returned (e.store.attempt r.consumer r.count r.noAck r.cursors).1, e.tried r) ∨
      (e.store.attempt r.consumer r.count r.noAck r.cursors).1 = .ok [] ∧ r.mayWait ∧
        e.attempt r = (.waiting ((e.tried r).enroll r).1, ((e.tried r).enroll r).2) := by
  unfold attempt tried
  simp only
  split
  case h_1 hnothing =>
    split
    case isTrue hwait => exact .inr ⟨hnothing, hwait, rfl⟩
    case isFalse => exact .inl (by rw [hnothing])
  case h_2 => exact .inl rfl

theorem attempt_store (e : Engine) (r : Reading) :
    (e.attempt r).2.store = (e.store.attempt r.consumer r.count r.noAck r.cursors).2 := by
  rcases e.attempt_cases r with hover | ⟨-, -, hwait⟩
  · rw [hover, tried]
  · rw [hwait]
    rfl

theorem attempt_outcome (e : Engine) (r : Reading) :
    (e.attempt r).1.outcome = (e.store.attempt r.consumer r.count r.noAck r.cursors).1 := by
  rcases e.attempt_cases r with hover | ⟨hnothing, -, hwait⟩
  · rw [hover, Progress.outcome]
  · rw [hwait, hnothing, Progress.outcome]

end Engine

/-- What a turn did to the store: it added an entry, destroyed a group or served a group read; else
no entry came to a stream and no group moved. -/
inductive Turn.Effect (t : Turn) : Prop where
  | added {key : Bytes} {request : Option String} {body : Body} {clock : Option UInt64}
      {id : EntryId} (hmove : t.move = .add key request body clock)
      (hadd : t.before.store.add key request body clock = (.ok id, t.after.store))
  | destroyed {key group : Bytes} {b : Bool} (hmove : t.move = .destroyGroup key group)
      (hdestroy : t.before.store.destroyGroup key group = (.ok b, t.after.store))
  | served {r : Reading} {consumer : Consumer} (hreading : t.reading? = some r)
      (hconsumer : r.consumer = some consumer)
      (hstore : t.after.store =
        (Store.serveAll consumer r.count r.noAck r.cursors t.before.store).2)
  | kept (hadd : ∀ key, t.addition? key = none)
      (hread : ∀ r, t.reading? = some r → r.consumer = none)
      (hkeeps : t.before.store.Keeps t.after.store)

namespace Turn

theorem addition?_of_reading {t : Turn} {r : Reading} (h : t.reading? = some r) (key : Bytes) :
    t.addition? key = none := by
  obtain ⟨w, m⟩ := t
  cases m with
  | add => cases h
  | _ => rfl

/-- A turn that attempts no read serves no group. -/
theorem plain_of_reading?_eq_none {t : Turn} (h : t.reading? = none) :
    ∀ r, t.reading? = some r → r.consumer = none := by
  intro r hr
  rw [h] at hr
  cases hr

/-- A turn that attempts a plain read serves no group. -/
theorem plain_of_reading {t : Turn} {r : Reading} (h : t.reading? = some r)
    (hplain : r.consumer = none) : ∀ r', t.reading? = some r' → r'.consumer = none := by
  intro r' hr'
  obtain rfl := Option.some.inj (h.symm.trans hr')
  exact hplain

theorem reading?_of_waiting {t : Turn} {i : Nat} {wait : Wait}
    (h : t.reply = .read i (.waiting wait)) : ∃ r, t.reading? = some r := by
  obtain ⟨w, m⟩ := t
  unfold reply at h
  cases m with
  | begin request =>
      cases hresolve : w.store.resolve request.consumer.isSome request.offsets with
      | error refusal =>
          simp only [World.step, hresolve] at h
          cases h
      | ok cursors =>
          refine ⟨request.reading w.now cursors, ?_⟩
          simp only [reading?, World.reading?, hresolve]
  | hear j =>
      rw [World.step_hear_silent] at h
      cases h
  | expire j =>
      rw [World.step_expire_silent] at h
      cases h
  | proceed j =>
      simp only [World.step] at h
      split at h
      case h_1 wait' hreader =>
        refine ⟨wait'.reading, ?_⟩
        simp only [reading?, World.reading?, hreader]
      case h_2 => cases h
      case h_3 => cases h
  | cancel j =>
      rw [World.step_cancel_silent] at h
      cases h
  | _ => cases h

/-- How a turn attempts a read: the first time, or again for a reader that was woken and has ended
its wait by then. -/
inductive Attempts (t : Turn) : Reading → Prop where
  | first {request : ReadRequest} {cursors : List (Bytes × Cursor)}
      (hstep : t.before.step t.move = t.before.arrive.attempt t.before.readers.length
        (request.reading t.before.now cursors)) :
      Attempts t (request.reading t.before.now cursors)
  | again {i : Nat} {wait : Wait} (hreader : t.before.reader? i = some ⟨.woken, wait⟩)
      (hstep : t.before.step t.move =
        (t.before.leave i (t.before.engine.dismiss wait)).attempt i wait.reading) :
      Attempts t wait.reading

theorem attempts {t : Turn} {r : Reading} (h : t.reading? = some r) : t.Attempts r := by
  obtain ⟨w, m⟩ := t
  unfold reading? at h
  cases m with
  | begin request =>
      unfold World.reading? at h
      simp only at h
      split at h
      case h_1 => cases h
      case h_2 cursors hresolve =>
        obtain rfl := Option.some.inj h
        apply Attempts.first
        simp only [World.step, hresolve]
  | proceed i =>
      unfold World.reading? at h
      simp only at h
      split at h
      case h_1 wait hreader =>
        obtain rfl := Option.some.inj h
        exact .again hreader (World.step_proceed_woken hreader)
      case h_2 => cases h
  | _ => cases h

/-- A read is attempted at the store of its turn. -/
theorem attempt_of_reading {t : Turn} {r : Reading} (h : t.reading? = some r) :
    ∃ (i : Nat) (w : World), w.store = t.before.store ∧ t.before.step t.move = w.attempt i r := by
  cases attempts h with
  | first hstep => exact ⟨_, t.before.arrive, rfl, hstep⟩
  | @again i wait hreader hstep =>
      exact ⟨i, t.before.leave i (t.before.engine.dismiss wait), rfl, hstep⟩

/-- The answer and the store of an attempt. -/
theorem outcome_of_reading {t : Turn} {r : Reading} (h : t.reading? = some r) :
    ∃ i progress, t.reply = .read i progress ∧
      progress.outcome = (t.before.store.attempt r.consumer r.count r.noAck r.cursors).1 ∧
      t.after.store = (t.before.store.attempt r.consumer r.count r.noAck r.cursors).2 := by
  obtain ⟨i, w, hsame, hstep⟩ := attempt_of_reading h
  refine ⟨i, (w.engine.attempt r).1, ?_, ?_, ?_⟩
  · rw [reply, hstep]
    rfl
  · rw [Engine.attempt_outcome, ← hsame]
  · rw [after, hstep, ← hsame]
    exact Engine.attempt_store ..

/-- An attempt of a read serves a group or changes nothing. -/
theorem effect_of_reading {t : Turn} {r : Reading} (hreading : t.reading? = some r) :
    t.Effect := by
  obtain ⟨i, progress, -, -, hstore⟩ := outcome_of_reading hreading
  cases hconsumer : r.consumer with
  | none =>
      rw [hconsumer, Store.attempt_plain] at hstore
      exact .kept (addition?_of_reading hreading) (plain_of_reading hreading hconsumer)
        (hstore ▸ .refl _)
  | some consumer =>
      rw [hconsumer, Store.attempt_group_store] at hstore
      exact .served hreading hconsumer hstore

theorem effect (t : Turn) : t.Effect := by
  cases hreading : t.reading? with
  | some r => exact effect_of_reading hreading
  | none =>
      obtain ⟨w, m⟩ := t
      have hquiet : (∀ key, addition? ⟨w, m⟩ key = none) →
          w.store.Keeps (w.step m).2.store → Effect ⟨w, m⟩ :=
        fun hadd hkeeps => .kept hadd (plain_of_reading?_eq_none hreading) hkeeps
      cases m with
      | add key request body clock =>
          rcases hadd : w.store.add key request body clock with ⟨refusal | id, s⟩
          · obtain rfl := (w.store.add_intact ..).eq hadd
            apply hquiet
            · intro k
              simp [addition?, reply, World.step, Engine.add, hadd]
            · simp only [World.step, Engine.add, hadd]
              exact .refl _
          · have hok : w.store.add key request body clock =
                (.ok id, (w.step (.add key request body clock)).2.store) := by
              simp only [World.step, Engine.add, hadd]
            exact .added rfl hok
      | delete key ids => exact hquiet (fun _ => rfl) (w.store.delete_keeps key ids)
      | trim key count => exact hquiet (fun _ => rfl) (Store.trim_keeps ..)
      | acknowledge key group ids =>
          exact hquiet (fun _ => rfl) (w.store.acknowledge_keeps key group ids)
      | createGroup key token group =>
          exact hquiet (fun _ => rfl) (w.store.createGroup_keeps key token group)
      | deleteConsumer key group consumer =>
          exact hquiet (fun _ => rfl) (w.store.deleteConsumer_keeps key group consumer)
      | destroyGroup key group =>
          rcases hdestroy : w.store.destroyGroup key group with ⟨refusal | b, s⟩
          · obtain rfl := (w.store.destroyGroup_intact ..).eq hdestroy
            refine hquiet (fun _ => rfl) ?_
            simp only [World.step, Engine.destroyGroup, hdestroy]
            exact .refl _
          · refine .destroyed (b := b) rfl ?_
            simp only [after, World.step, Engine.destroyGroup, hdestroy]
            rfl
      | length | pendingCount | page | begin | hear | expire | proceed | cancel | elapse =>
          refine hquiet (fun _ => rfl) ?_
          rw [World.store_of_not_isCommand hreading not_false]
          exact .refl _

theorem destroys_other {t : Turn} {key key' group group' : Bytes}
    (hmove : t.move = .destroyGroup key' group') (hlive : t.move ≠ .destroyGroup key group) :
    key' ≠ key ∨ group' ≠ group := by
  apply Classical.not_and_iff_not_or_not.1
  rintro ⟨rfl, rfl⟩
  exact hlive hmove

/-- A turn that does not destroy a group never moves it down. -/
theorem advances {t : Turn} {key group : Bytes} {g : Group}
    (hg : t.before.store.group? key group = some g) (hlive : t.move ≠ .destroyGroup key group) :
    ∃ g', t.after.store.group? key group = some g' ∧ g.lastDelivered ≤ g'.lastDelivered := by
  cases t.effect with
  | added hmove hadd => exact ⟨g, by rwa [Store.add_group? hadd], EntryId.le_refl _⟩
  | destroyed hmove hdestroy =>
      have hother := destroys_other hmove hlive
      exact ⟨g, by rwa [Store.destroyGroup_group? hdestroy hother], EntryId.le_refl _⟩
  | served hreading hconsumer hstore =>
      rw [hstore]
      obtain ⟨g', hg', honward⟩ := Store.serveAll_onward _ hg
      exact ⟨g', hg', honward.lastDelivered⟩
  | kept hadd hread hkeeps =>
      obtain ⟨g', hg', hsame⟩ := hkeeps.group hg
      refine ⟨g', hg', ?_⟩
      rw [hsame]
      exact EntryId.le_refl _

end Turn

end StreamBroker
