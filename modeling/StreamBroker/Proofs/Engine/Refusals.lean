import StreamBroker.Proofs.World.Readers
set_option autoImplicit false

/-!
# Refusals

A command that is refused is refused before it changes anything (`Store.Intact`), a plain read can
be refused only while its cursors are resolved, and a list of identifiers is read as a whole before
the first of them is used.  So a refusal leaves the engine as it was, with its store and with those
who wait (`World.refusal_changes_nothing`).  A group read that got past its cursors is another
matter: it can be refused after it has served some of them.
-/

namespace StreamBroker

/-- One identifier that does not read refuses the list, wherever it stands. -/
theorem EntryId.readAll_of_not_reads {ids : List String}
    (h : ∃ s ∈ ids, EntryId.ofText? 0 s = none) : readAll ids = .error .invalidId := by
  induction ids with
  | nil =>
      obtain ⟨s, hs, -⟩ := h
      cases hs
  | cons s rest ih =>
      unfold readAll
      split
      case h_1 => rfl
      case h_2 id hid =>
        obtain ⟨s', hs', hnone⟩ := h
        rcases List.mem_cons.mp hs' with rfl | hrest
        · rw [hid] at hnone
          cases hnone
        · rw [ih ⟨s', hrest, hnone⟩]
          rfl

namespace Engine

variable {e : Engine} {refusal : Refusal}

/-- Readers are woken only behind an entry that was added. -/
theorem eq_of_add_refused {key : Bytes} {request : Option String} {body : Body}
    {clock : Option UInt64} (h : (e.add key request body clock).1 = .error refusal) :
    (e.add key request body clock).2 = e := by
  unfold add at h ⊢
  rcases hadd : e.store.add key request body clock with ⟨refusal | id, s⟩
  · obtain rfl := (e.store.add_intact ..).eq hadd
    rfl
  · rw [hadd] at h
    cases h

/-- A plain read whose cursors are resolved is not refused. -/
theorem attempt_ne_refused {r : Reading} (h : r.consumer = none) :
    (e.attempt r).1 ≠ .returned (.error refusal) := by
  rcases e.attempt_cases r with hover | ⟨-, -, hwait⟩
  · rw [hover, h]
    nofun
  · rw [hwait]
    nofun

theorem tryRead_ne_refused {now : Nat} {r : Reading} (h : r.consumer = none) :
    (e.tryRead now r).1 ≠ .returned (.error refusal) := by
  have hnever : (e.attempt r).1 ≠ .returned (.error refusal) := attempt_ne_refused h
  unfold tryRead
  split
  · split <;> nofun
  · exact hnever

/-- A plain read that waited is not refused when it goes on. -/
theorem resume_ne_refused {now : Nat} {wait : Wait} (h : wait.reading.consumer = none) :
    (e.resume now wait).1 ≠ .returned (.error refusal) := by
  unfold resume
  split
  · exact tryRead_ne_refused h
  · split <;> nofun

/-- A read that is refused when it begins was refused while its cursors were resolved, unless it is
one for a group. -/
theorem eq_of_beginRead_refused {now : Nat} {request : ReadRequest}
    (h : (e.beginRead now request).1 = .returned (.error refusal))
    (hcursors : ∀ cursors, e.store.resolve request.consumer.isSome request.offsets = .ok cursors →
      request.consumer = none) :
    (e.beginRead now request).2 = e := by
  unfold beginRead at h ⊢
  cases hresolve : e.store.resolve request.consumer.isSome request.offsets with
  | error => rfl
  | ok cursors =>
      rw [hresolve] at h
      exact absurd h (tryRead_ne_refused (hcursors cursors hresolve))

end Engine

/-- Why something was refused, if it was. -/
def Reply.refusal? : Reply → Option Refusal
  | added (.error refusal) | counted (.error refusal) | told (.error refusal)
  | made (.error refusal) | read _ (.returned (.error refusal)) => some refusal
  | _ => none

namespace World

theorem refusal?_attempt_of_plain (w : World) (i : Nat) {r : Reading} (h : r.consumer = none) :
    (w.attempt i r).1.refusal? = none := by
  have hnever : ∀ refusal, (w.engine.attempt r).1 ≠ .returned (.error refusal) :=
    fun _ => Engine.attempt_ne_refused h
  unfold attempt
  rcases hattempt : w.engine.attempt r with ⟨progress, engine⟩
  rw [hattempt] at hnever
  rcases progress with (refusal | messages) | wait
  · exact absurd rfl (hnever refusal)
  · rfl
  · rfl

/-- Nothing happened to the engine, the time or the reads that are not over. -/
structure Undisturbed (w w' : World) : Prop where
  engine : w'.engine = w.engine
  now : w'.now = w.now
  reader? : ∀ i, w'.reader? i = w.reader? i

theorem Undisturbed.refl (w : World) : w.Undisturbed w := ⟨rfl, rfl, fun _ => rfl⟩

/-- A command that settles on the engine disturbs nothing if it is refused. -/
theorem undisturbed_of_settle {α : Type} {w : World} {done : Except Refusal α × Store}
    {refusal : Refusal} (hintact : w.store.Intact done) (reply : Except Refusal α → Reply)
    (hreply : ∀ a, (reply (.ok a)).refusal? = none)
    (h : (reply (w.engine.settle done).1).refusal? = some refusal) :
    w.Undisturbed { w with engine := (w.engine.settle done).2 } := by
  obtain ⟨refusal' | a, s⟩ := done
  · obtain rfl := hintact.eq rfl
    exact .refl w
  · exact absurd (h.symm.trans (hreply a)) nofun

/-- What is refused disturbs nothing, whatever it is, unless it is a read for a group that got past
its cursors. -/
theorem undisturbed_of_refused {w : World} {m : Move} {refusal : Refusal}
    (h : (w.step m).1.refusal? = some refusal)
    (hread : ∀ r, w.reading? m = some r → r.consumer = none) : w.Undisturbed (w.step m).2 := by
  cases m with
  | add key request body clock =>
      cases hadd : (w.engine.add key request body clock).1 with
      | error => exact ⟨Engine.eq_of_add_refused hadd, rfl, fun _ => rfl⟩
      | ok =>
          simp only [step, hadd, Reply.refusal?] at h
          cases h
  | delete => exact undisturbed_of_settle (w.store.delete_intact ..) .counted (fun _ => rfl) h
  | acknowledge =>
      exact undisturbed_of_settle (w.store.acknowledge_intact ..) .counted (fun _ => rfl) h
  | createGroup =>
      exact undisturbed_of_settle (w.store.createGroup_intact ..) .made (fun _ => rfl) h
  | deleteConsumer =>
      exact undisturbed_of_settle (w.store.deleteConsumer_intact ..) .told (fun _ => rfl) h
  | destroyGroup =>
      exact undisturbed_of_settle (w.store.destroyGroup_intact ..) .told (fun _ => rfl) h
  | trim | length | pendingCount | page | elapse => cases h
  | hear i =>
      rw [step_hear_silent] at h
      cases h
  | expire i =>
      rw [step_expire_silent] at h
      cases h
  | cancel i =>
      rw [step_cancel_silent] at h
      cases h
  | begin request =>
      cases hresolve : w.store.resolve request.consumer.isSome request.offsets with
      | error refusal' =>
          simp only [step, hresolve]
          exact ⟨rfl, rfl, w.reader?_arrive⟩
      | ok cursors =>
          have hplain : (request.reading w.now cursors).consumer = none :=
            hread _ (by simp only [reading?, hresolve])
          simp only [step, hresolve] at h
          rw [refusal?_attempt_of_plain _ _ hplain] at h
          cases h
  | proceed i =>
      cases hreader : w.reader? i with
      | none =>
          simp only [step, hreader] at h
          cases h
      | some x =>
          obtain ⟨stage, wait⟩ := x
          cases stage with
          | suspended | late =>
              simp only [step, hreader] at h
              cases h
          | woken =>
              have hplain : wait.reading.consumer = none :=
                hread _ (by simp only [reading?, hreader])
              rw [step_proceed_woken hreader, refusal?_attempt_of_plain _ _ hplain] at h
              cases h

/-- Whatever the world: a command that is refused changes nothing, and neither does a read that is
refused, unless it is one for a group that got past its cursors; the store is as it was, and so are
those who wait and their signals.  The same holds of a read of the running engine when it begins,
and a plain read that waited is not refused when it goes on.  One identifier that does not read is
enough for a deletion or an acknowledgement to be refused, wherever it stands in the list. -/
theorem refusal_changes_nothing (w : World) :
    (∀ m refusal, (w.step m).1.refusal? = some refusal →
      (∀ r, w.reading? m = some r → r.consumer = none) →
        (w.step m).2.engine = w.engine ∧ (w.step m).2.now = w.now ∧
          ∀ i, (w.step m).2.reader? i = w.reader? i) ∧
    (∀ now request refusal,
      (w.engine.beginRead now request).1 = .returned (.error refusal) →
      (∀ cursors, w.store.resolve request.consumer.isSome request.offsets = .ok cursors →
        request.consumer = none) →
        (w.engine.beginRead now request).2 = w.engine) ∧
    (∀ now wait refusal, wait.reading.consumer = none →
      (w.engine.resume now wait).1 ≠ .returned (.error refusal)) ∧
    ∀ key ids, (∃ s ∈ ids, EntryId.ofText? 0 s = none) →
      w.engine.delete key ids = (.error .invalidId, w.engine) ∧
        ∀ group, w.engine.acknowledge key group ids = (.error .invalidId, w.engine) := by
  refine ⟨fun m refusal h hread => ?_, fun now request refusal => Engine.eq_of_beginRead_refused,
    fun now wait refusal => Engine.resume_ne_refused, fun key ids hids => ⟨?_, fun group => ?_⟩⟩
  · have hsame := undisturbed_of_refused h hread
    exact ⟨hsame.engine, hsame.now, hsame.reader?⟩
  · unfold Engine.delete Store.delete
    rw [EntryId.readAll_of_not_reads hids]
    rfl
  · unfold Engine.acknowledge Store.acknowledge
    rw [EntryId.readAll_of_not_reads hids]
    rfl

/-- A world with one entry and a read that waits for the next. -/
def oneWaiting : World :=
  start.run [.add [97] (some "1-1") (.ofList [([102], [118])]) (some 0),
    .begin ⟨[([97], "$")], some 0, none, false, none⟩]

theorem refusal_changes_nothing_oneWaiting :
    (oneWaiting.step (.delete [97] ["1-1", "x"])).1.refusal? = some .invalidId ∧
      (oneWaiting.step (.delete [97] ["1-1", "x"])).2.engine = oneWaiting.engine ∧
      ∀ i, (oneWaiting.step (.delete [97] ["1-1", "x"])).2.reader? i = oneWaiting.reader? i := by
  obtain ⟨hstep, -, -, hids⟩ := refusal_changes_nothing oneWaiting
  obtain ⟨hdelete, -⟩ := hids [97] ["1-1", "x"] ⟨"x", by decide, by decide +kernel⟩
  have hrefused : (oneWaiting.step (.delete [97] ["1-1", "x"])).1.refusal? = some .invalidId := by
    simp only [step, hdelete, Reply.refusal?]
  obtain ⟨hengine, -, hreaders⟩ := hstep _ .invalidId hrefused (by rintro _ ⟨⟩)
  exact ⟨hrefused, hengine, hreaders⟩

end World

end StreamBroker
