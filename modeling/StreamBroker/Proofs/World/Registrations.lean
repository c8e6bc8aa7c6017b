import StreamBroker.Proofs.World.Courses
set_option autoImplicit false

/-!
# Who is registered

What the registry holds is read off the turns of a run: the waits that began (`enrolments`), those
that go on, and those that were cancelled.  Under each key somebody listens to the registrations of
the waits that go on and to no others, in the order in which they began (`World.Filed`); a read that
returned has withdrawn all of its own, and what a cancelled one left behind goes when the next one
begins to wait.
-/

namespace StreamBroker

/-- What a reader waits for. -/
def World.wait? (w : World) (i : Nat) : Option Wait := (w.reader? i).map (·.wait)

/-- Whether a reader still waits for what it began to wait for. -/
def World.goesOn (w : World) (e : Nat × Wait) : Bool := w.wait? e.1 == some e.2

/-- The reader that begins to wait, and its wait. -/
def Reply.enrolled? : Reply → Option (Nat × Wait)
  | .read i (.waiting wait) => some (i, wait)
  | _ => none

/-- The reader that is cancelled, and its wait. -/
def Turn.cancelled? (t : Turn) : Option (Nat × Wait) :=
  match t.move with
  | .cancel i => (t.before.wait? i).map (i, ·)
  | _ => none

/-- The waits that began in some turns, in the order in which they began. -/
def enrolments (turns : List Turn) : List (Nat × Wait) := turns.filterMap (·.reply.enrolled?)

/-- The waits that were cancelled in some turns. -/
def cancellations (turns : List Turn) : List (Nat × Wait) := turns.filterMap (·.cancelled?)

/-- What a wait registers under a key: its signal, once for each time that its read names the key. -/
def Wait.registrations (wait : Wait) (key : Bytes) : List SignalId :=
  List.replicate (wait.reading.keys.count key) wait.signal

theorem Wait.mem_registrations {wait : Wait} {key : Bytes} {id : SignalId} :
    id ∈ wait.registrations key ↔ id = wait.signal ∧ key ∈ wait.reading.keys := by
  unfold registrations
  rw [List.mem_replicate, ← Nat.pos_iff_ne_zero, List.count_pos_iff, and_comm]

/-- The registrations of a signal are those of its wait. -/
theorem registrations_filter (waits : List (Nat × Wait)) (key : Bytes) (id : SignalId) :
    (waits.flatMap fun e => e.2.registrations key).filter (· != id) =
      (waits.filter (·.2.signal != id)).flatMap fun e => e.2.registrations key := by
  induction waits with
  | nil => rfl
  | cons e rest ih =>
      have hfirst : (e.2.registrations key).filter (· != id) =
          if e.2.signal != id then e.2.registrations key else [] := List.filter_replicate
      rw [List.flatMap_cons, List.filter_append, ih, hfirst, List.filter_cons]
      split
      case isTrue => rfl
      case isFalse => rfl

namespace World

theorem wait?_eq_some_iff {w : World} {i : Nat} {wait : Wait} :
    w.wait? i = some wait ↔ ∃ stage, w.reader? i = some ⟨stage, wait⟩ := by
  unfold wait?
  rw [Option.map_eq_some_iff]
  constructor
  · rintro ⟨⟨stage, _⟩, hx, rfl⟩
    exact ⟨stage, hx⟩
  · rintro ⟨stage, hx⟩
    exact ⟨_, hx, rfl⟩

theorem wait?_of_reader? {w : World} {i : Nat} {x : Reader} (h : w.reader? i = some x) :
    w.wait? i = some x.wait := by
  rw [wait?, h, Option.map_some]

theorem goesOn_iff {w : World} {e : Nat × Wait} : w.goesOn e ↔ w.wait? e.1 = some e.2 := by
  unfold goesOn
  rw [beq_iff_eq]

theorem wait?_leave_self {w : World} {i : Nat} (h : i < w.readers.length) (engine : Engine) :
    (w.leave i engine).wait? i = none :=
  congrArg (Option.map _) (reader?_setReader_self h none)

theorem wait?_leave_of_ne (w : World) {i j : Nat} (h : j ≠ i) (engine : Engine) :
    (w.leave i engine).wait? j = w.wait? j :=
  congrArg (Option.map _) (reader?_setReader_of_ne _ h none)

/-- A reader that stops listening keeps its wait. -/
theorem wait?_setReader {w : World} {i : Nat} {wait : Wait} (h : w.wait? i = some wait)
    (stage : Stage) (j : Nat) : (w.setReader i (some ⟨stage, wait⟩)).wait? j = w.wait? j := by
  by_cases hj : j = i
  · obtain ⟨stage', hreader⟩ := wait?_eq_some_iff.1 h
    rw [hj, h]
    exact wait?_of_reader? (reader?_setReader_self (lt_of_reader? hreader) _)
  · exact congrArg (Option.map _) (reader?_setReader_of_ne _ hj _)

end World

theorem enrolments_concat (turns : List Turn) (t : Turn) :
    enrolments (turns ++ [t]) = enrolments turns ++ t.reply.enrolled?.toList :=
  filterMap_concat ..

theorem cancellations_concat (turns : List Turn) (t : Turn) :
    cancellations (turns ++ [t]) = cancellations turns ++ t.cancelled?.toList :=
  filterMap_concat ..

theorem Reply.enrolled?_eq_some_iff {reply : Reply} {i : Nat} {wait : Wait} :
    reply.enrolled? = some (i, wait) ↔ reply = .read i (.waiting wait) := by
  constructor
  · intro h
    unfold enrolled? at h
    split at h
    case h_1 =>
      cases h
      rfl
    case h_2 => cases h
  · rintro rfl
    rfl

/-- A turn that attempts no read lets nobody wait. -/
theorem Turn.enrolled?_of_reading {t : Turn} (h : t.reading? = none) :
    t.reply.enrolled? = none := by
  cases henrolled : t.reply.enrolled? with
  | none => rfl
  | some e =>
      obtain ⟨r, hr⟩ := reading?_of_waiting (Reply.enrolled?_eq_some_iff.1 henrolled)
      rw [h] at hr
      cases hr

theorem Turn.ends_of_cancelled {t : Turn} {i : Nat} {wait : Wait}
    (h : t.cancelled? = some (i, wait)) : t.Ends i ∧ t.reply = .silent := by
  unfold cancelled? at h
  split at h
  case h_1 j hmove =>
    obtain ⟨_, hwait, heq⟩ := Option.map_eq_some_iff.1 h
    cases heq
    obtain ⟨stage, hreader⟩ := World.wait?_eq_some_iff.1 hwait
    refine ⟨.inr ⟨hmove, _, hreader⟩, ?_⟩
    rw [reply, hmove]
    simp only [World.step, hreader]
  case h_2 => cases h

/-! ## What the registry holds -/

/-- The registry holds what was registered by the waits that began, or was left behind by those
that were cancelled. -/
structure World.Filed (w : World) (begun gone : List (Nat × Wait)) : Prop where
  /-- Whoever waits began to. -/
  enrolled : ∀ i wait, w.wait? i = some wait → (i, wait) ∈ begun
  /-- A wait has a signal made after those of the waits that began before it. -/
  inOrder : begun.Pairwise fun e f => e.2.signal < f.2.signal
  made : ∀ e ∈ begun, e.2.signal < w.registry.listening.length
  listened : ∀ key, w.registry.listened key =
    (begun.filter w.goesOn).flatMap fun e => e.2.registrations key
  forsaken : ∀ key, ∀ id ∈ w.registry.registered key, w.registry.isListening id ∨
    ∃ e ∈ begun, e ∈ gone ∧ id ∈ e.2.registrations key
  filled : w.registry.Filled

namespace World.Filed

variable {w : World} {begun gone : List (Nat × Wait)}

theorem start : World.start.Filed [] [] where
  enrolled _ _ h := nomatch h
  inOrder := .nil
  made _ h := nomatch h
  listened _ := rfl
  forsaken _ _ h := nomatch h
  filled := .empty

/-- Waits with one signal are one. -/
theorem eq_of_signal (h : w.Filed begun gone) {e f : Nat × Wait} (he : e ∈ begun) (hf : f ∈ begun)
    (hsignal : e.2.signal = f.2.signal) : e = f := by
  obtain ⟨i, hi, rfl⟩ := List.getElem_of_mem he
  obtain ⟨j, hj, rfl⟩ := List.getElem_of_mem hf
  have hlater := List.pairwise_iff_getElem.1 h.inOrder
  rcases Nat.lt_trichotomy i j with hlt | rfl | hgt
  · exact absurd hsignal (Nat.ne_of_lt (hlater i j hi hj hlt))
  · rfl
  · exact absurd hsignal.symm (Nat.ne_of_lt (hlater j i hj hi hgt))

/-- A registration somebody listens to is one of a wait that goes on. -/
theorem of_listening (h : w.Filed begun gone) {key : Bytes} {id : SignalId}
    (hid : id ∈ w.registry.registered key) (hlistening : w.registry.isListening id) :
    ∃ e ∈ begun, w.wait? e.1 = some e.2 ∧ id ∈ e.2.registrations key := by
  have hlistened : id ∈ w.registry.listened key := List.mem_filter.2 ⟨hid, hlistening⟩
  rw [h.listened, List.mem_flatMap] at hlistened
  obtain ⟨e, he, hregistered⟩ := hlistened
  obtain ⟨hbegun, hgoes⟩ := List.mem_filter.1 he
  exact ⟨e, hbegun, goesOn_iff.1 hgoes, hregistered⟩

/-- Every registration is one of a signal that was made. -/
theorem old (h : w.Filed begun gone) {key : Bytes} {id : SignalId}
    (hid : id ∈ w.registry.registered key) : id < w.registry.listening.length := by
  rcases h.forsaken key id hid with hlistening | ⟨e, he, -, hregistered⟩
  · exact Registry.lt_of_isListening hlistening
  · rw [(Wait.mem_registrations.1 hregistered).1]
    exact h.made e he

theorem mono (h : w.Filed begun gone) {gone' : List (Nat × Wait)} (hsub : gone ⊆ gone') :
    w.Filed begun gone' := by
  refine { h with forsaken := fun key id hid => ?_ }
  rcases h.forsaken key id hid with hlistening | ⟨e, he, hgone, hregistered⟩
  · exact .inl hlistening
  · exact .inr ⟨e, he, hsub hgone, hregistered⟩

/-- A turn that keeps the waits and what is registered keeps all of it. -/
theorem of_same (h : w.Filed begun gone) {w' : World} (hwaits : ∀ i, w'.wait? i = w.wait? i)
    (hlistening : w'.registry.listening = w.registry.listening)
    (hwaiting : w'.registry.waiting = w.registry.waiting) : w'.Filed begun gone := by
  have hgoes : w'.goesOn = w.goesOn := funext fun e => by rw [goesOn, goesOn, hwaits]
  have hlistens : w'.registry.isListening = w.registry.isListening := by
    unfold Registry.isListening
    rw [hlistening]
  have hregistered : w'.registry.registered = w.registry.registered := by
    unfold Registry.registered
    rw [hwaiting]
  refine ⟨?_, h.inOrder, ?_, ?_, ?_, ?_⟩
  · intro i wait hwait
    rw [hwaits] at hwait
    exact h.enrolled i wait hwait
  · rw [hlistening]
    exact h.made
  · intro key
    rw [hgoes, Registry.listened, hlistens, hregistered]
    exact h.listened key
  · rw [hlistens, hregistered]
    exact h.forsaken
  · rw [Registry.Filled, hwaiting]
    exact h.filled

theorem notify (h : w.Filed begun gone) {w' : World} (hwaits : ∀ i, w'.wait? i = w.wait? i)
    {key : Bytes} (hregistry : w'.registry = w.registry.notify key) : w'.Filed begun gone := by
  have hgoes : w'.goesOn = w.goesOn := funext fun e => by rw [goesOn, goesOn, hwaits]
  refine ⟨?_, h.inOrder, ?_, ?_, ?_, ?_⟩
  · intro i wait hwait
    rw [hwaits] at hwait
    exact h.enrolled i wait hwait
  · rw [hregistry, Registry.length_listening_notify]
    exact h.made
  · intro k
    rw [hgoes, hregistry, Registry.listened_notify]
    exact h.listened k
  · intro k id hid
    rw [hregistry, Registry.registered_notify] at hid
    rw [hregistry, Registry.isListening_notify]
    refine h.forsaken k id ?_
    split at hid
    case isTrue => exact (List.mem_filter.1 hid).1
    case isFalse => exact hid
  · rw [hregistry]
    exact h.filled.notify key

/-- When a reader leaves its wait goes on no more, and every other as before. -/
theorem goesOn_leave (h : w.Filed begun gone) {i : Nat} {wait : Wait}
    (hwait : w.wait? i = some wait) (engine : Engine) {e : Nat × Wait} (he : e ∈ begun) :
    (w.leave i engine).goesOn e = (e.2.signal != wait.signal && w.goesOn e) := by
  obtain ⟨stage, hreader⟩ := wait?_eq_some_iff.1 hwait
  by_cases hi : e.1 = i
  · have hover : (w.leave i engine).goesOn e = false := by
      rw [goesOn, hi, wait?_leave_self (lt_of_reader? hreader) engine]
      rfl
    rw [hover, eq_comm, Bool.and_eq_false_iff, bne_eq_false_iff_eq]
    by_cases hsame : e.2 = wait
    · exact .inl (congrArg Wait.signal hsame)
    · refine .inr (beq_eq_false_iff_ne.2 fun hother => hsame ?_)
      rw [hi, hwait] at hother
      exact (Option.some.inj hother).symm
  · have hsignal : e.2.signal ≠ wait.signal := fun heq =>
      hi (congrArg Prod.fst (h.eq_of_signal he (h.enrolled i wait hwait) heq))
    rw [goesOn, goesOn, wait?_leave_of_ne w hi, bne_iff_ne.2 hsignal, Bool.true_and]

/-- A reader leaves: it withdraws all it registered, or is cancelled. -/
theorem leave (h : w.Filed begun gone) {i : Nat} {wait : Wait} {keys : List Bytes}
    {engine : Engine} (hwait : w.wait? i = some wait)
    (hregistry : engine.registry = (w.registry.withdraw keys wait.signal).close wait.signal)
    (hkeys : keys = wait.reading.keys ∨ (i, wait) ∈ gone) :
    (w.leave i engine).Filed begun gone := by
  obtain ⟨stage, hreader⟩ := wait?_eq_some_iff.1 hwait
  have hself := wait?_leave_self (lt_of_reader? hreader) engine
  have hmine := h.enrolled i wait hwait
  have hgoes : ∀ e ∈ begun,
      (w.leave i engine).goesOn e = (e.2.signal != wait.signal && w.goesOn e) :=
    fun e he => h.goesOn_leave hwait engine he
  have hregistry' : (w.leave i engine).registry =
      (w.registry.withdraw keys wait.signal).close wait.signal := hregistry
  refine ⟨?_, h.inOrder, ?_, ?_, ?_, ?_⟩
  · intro j other hother
    by_cases hj : j = i
    · rw [hj, hself] at hother
      cases hother
    · rw [wait?_leave_of_ne w hj] at hother
      exact h.enrolled j other hother
  · rw [hregistry', Registry.length_listening_leave]
    exact h.made
  · intro key
    rw [hregistry', Registry.listened_leave, h.listened, List.filter_congr hgoes,
      registrations_filter, List.filter_filter]
  · intro key id hid
    rw [hregistry', Registry.registered_leave] at hid
    rw [hregistry', Registry.isListening_leave]
    have hbefore : id ∈ w.registry.registered key := by
      split at hid
      case isTrue => exact (List.mem_filter.1 hid).1
      case isFalse => exact hid
    rcases h.forsaken key id hbefore with hlistening | hgone
    · by_cases hsignal : id = wait.signal
      · -- what it has left is under a key that it does not withdraw
        obtain ⟨e, he, -, hregistered⟩ := h.of_listening hbefore hlistening
        obtain ⟨hid', hkey⟩ := Wait.mem_registrations.1 hregistered
        obtain rfl := h.eq_of_signal he hmine (hid'.symm.trans hsignal)
        refine .inr ⟨_, hmine, hkeys.resolve_left ?_, hregistered⟩
        rintro rfl
        rw [if_pos hkey] at hid
        exact bne_iff_ne.1 (List.mem_filter.1 hid).2 hsignal
      · rw [hlistening, bne_iff_ne.2 hsignal]
        exact .inl rfl
    · exact .inr hgone
  · rw [hregistry']
    exact h.filled.withdraw keys wait.signal

/-- A reader begins to wait: its signal is new, and registered under each of its keys. -/
theorem enroll (h : w.Filed begun gone) {w' : World} {i : Nat} {wait : Wait}
    (hover : w.wait? i = none) (hother : ∀ j, j ≠ i → w'.wait? j = w.wait? j)
    (hwait : w'.wait? i = some wait) (hsignal : wait.signal = w.registry.fresh.1)
    (hregistry : w'.registry = wait.reading.keys.foldl
      (fun g key => g.register key w.registry.fresh.1) w.registry.fresh.2) :
    w'.Filed (begun ++ [(i, wait)]) gone := by
  have hfresh := w.registry.isListening_fresh
  have hgoes : ∀ e ∈ begun, w'.goesOn e = w.goesOn e := by
    intro e he
    by_cases hi : e.1 = i
    · -- it began to wait before, with another signal
      have hne : some wait ≠ some e.2 := by
        intro heq
        obtain rfl := Option.some.inj heq
        exact Nat.ne_of_lt (h.made e he) hsignal
      rw [goesOn, goesOn, hi, hwait, hover, beq_eq_false_iff_ne.2 hne]
      rfl
    · rw [goesOn, goesOn, hother e.1 hi]
  refine ⟨?_, ?_, ?_, ?_, ?_, ?_⟩
  · intro j other hj
    by_cases hji : j = i
    · rw [hji, hwait] at hj
      obtain rfl := Option.some.inj hj
      rw [hji]
      exact List.mem_append_right _ List.mem_cons_self
    · rw [hother j hji] at hj
      exact List.mem_append_left _ (h.enrolled j other hj)
  · refine List.pairwise_append.2 ⟨h.inOrder, List.pairwise_singleton .., ?_⟩
    intro e he f hf
    obtain rfl := List.mem_singleton.1 hf
    rw [hsignal]
    exact h.made e he
  · have hlength : w'.registry.listening.length = w.registry.listening.length + 1 := by
      rw [hregistry, Registry.length_listening_registerAll]
      exact List.length_append
    rw [hlength]
    intro e he
    rcases List.mem_append.1 he with hbefore | hlast
    · exact Nat.lt_succ_of_lt (h.made e hbefore)
    · obtain rfl := List.mem_singleton.1 hlast
      rw [hsignal]
      exact Nat.lt_succ_self _
  · intro key
    have hlast : [(i, wait)].filter w'.goesOn = [(i, wait)] :=
      List.filter_cons_of_pos (goesOn_iff.2 hwait)
    rw [hregistry, Registry.listened_enroll fun _ => h.old, List.filter_append,
      List.filter_congr hgoes, hlast, List.flatMap_append, List.flatMap_singleton, h.listened,
      ← hsignal]
    rfl
  · intro key id hid
    rw [hregistry, Registry.registered_registerAll hfresh] at hid
    rw [hregistry, Registry.listening_registerAll]
    rcases List.mem_append.1 hid with hbefore | hmine
    · have hold : id ∈ w.registry.registered key := by
        split at hbefore
        case isTrue => exact hbefore
        case isFalse => exact (List.mem_filter.1 hbefore).1
      rcases h.forsaken key id hold with hlistening | ⟨e, he, hgone, hregistered⟩
      · exact .inl ((w.registry.isListening_fresh_of_lt (h.old hold)).trans hlistening)
      · exact .inr ⟨e, List.mem_append_left _ he, hgone, hregistered⟩
    · obtain ⟨-, rfl⟩ := List.mem_replicate.1 hmine
      exact .inl hfresh
  · rw [hregistry]
    exact Registry.Filled.registerAll (g := w.registry.fresh.2) h.filled _ _

/-- A read that is attempted waits from then on, or is over. -/
theorem attempt (h : w.Filed begun gone) {i : Nat} (hbegun : i < w.readers.length)
    (hover : w.wait? i = none) (r : Reading) :
    (w.attempt i r).2.Filed (begun ++ (w.attempt i r).1.enrolled?.toList) gone := by
  have hother : ∀ j, j ≠ i → (w.attempt i r).2.wait? j = w.wait? j := fun j hj =>
    congrArg (Option.map _) (reader?_setReader_of_ne _ hj _)
  have hself : (w.attempt i r).2.wait? i = (w.engine.attempt r).1.reader?.map (·.wait) :=
    congrArg (Option.map _) (reader?_setReader_self hbegun _)
  have hreply : (w.attempt i r).1 = .read i (w.engine.attempt r).1 := rfl
  have hregistry : (w.attempt i r).2.registry = (w.engine.attempt r).2.registry := rfl
  rcases w.engine.attempt_cases r with hends | ⟨-, -, hwaits⟩
  · rw [hends] at hself hreply hregistry
    have hnone : (w.attempt i r).1.enrolled? = none := by
      rw [hreply]
      rfl
    rw [hnone, Option.toList_none, List.append_nil]
    refine h.of_same (fun j => ?_) (congrArg Registry.listening hregistry)
      (congrArg Registry.waiting hregistry)
    by_cases hj : j = i
    · rw [hj, hself, hover]
      rfl
    · exact hother j hj
  · rw [hwaits] at hself hreply hregistry
    have hnew : (w.attempt i r).1.enrolled? = some (i, ((w.engine.tried r).enroll r).1) := by
      rw [hreply]
      rfl
    rw [hnew, Option.toList_some]
    exact h.enroll hover hother hself rfl hregistry

/-- A turn that attempts a read, after that reader has withdrawn what it had registered. -/
theorem of_attempts {t : Turn} (h : t.before.Filed begun gone) {r : Reading}
    (hattempts : t.Attempts r) :
    t.after.Filed (begun ++ t.reply.enrolled?.toList) gone := by
  cases hattempts with
  | first hstep =>
      have harrived : t.before.arrive.Filed begun gone :=
        h.of_same (fun i => congrArg (Option.map _) (reader?_arrive t.before i)) rfl rfl
      obtain ⟨hroom, hnew⟩ := t.before.room_arrive
      rw [Turn.after, Turn.reply, hstep]
      exact harrived.attempt hroom (congrArg (Option.map _) hnew) _
  | @again i wait hreader hstep =>
      have hbegun := lt_of_reader? hreader
      have hleft : (t.before.leave i (t.before.engine.dismiss wait)).Filed begun gone :=
        h.leave (wait?_of_reader? hreader) rfl (.inl rfl)
      have hroom : i < (t.before.leave i (t.before.engine.dismiss wait)).readers.length := by
        rwa [World.leave, length_setReader]
      rw [Turn.after, Turn.reply, hstep]
      exact hleft.attempt hroom (wait?_leave_self hbegun _) _

/-- A turn in which a reader leaves: it is cancelled, runs out of time, or is attempted again. -/
theorem of_left {t : Turn} (h : t.before.Filed begun gone) {i : Nat} {x : Reader} {engine : Engine}
    (hbefore : t.before.reader? i = some x) (hafter : t.after = t.before.leave i engine) :
    t.after.Filed (begun ++ t.reply.enrolled?.toList) (gone ++ t.cancelled?.toList) := by
  have hgone := h.mono (List.subset_append_left gone t.cancelled?.toList)
  have hbegun := lt_of_reader? hbefore
  have hcourse := t.course hbegun
  rw [hbefore] at hcourse
  cases hcourse with
  | waits hstays =>
      have hover := wait?_leave_self hbegun engine
      rw [← hafter, wait?_of_reader? hstays] at hover
      cases hover
  | cancelled hmove hstep =>
      have hmine : (i, x.wait) ∈ gone ++ t.cancelled?.toList := by
        rw [Turn.cancelled?, hmove]
        simp only [wait?_of_reader? hbefore, Option.map_some, Option.toList_some]
        exact List.mem_append_right _ List.mem_cons_self
      -- it withdraws nothing
      have hnothing : (t.before.engine.abandon x.wait).registry =
          (t.before.registry.withdraw [] x.wait.signal).close x.wait.signal := rfl
      have hquiet : t.reply.enrolled? = none := by
        rw [Turn.reply, hstep]
        rfl
      rw [hquiet, Option.toList_none, List.append_nil, Turn.after, hstep]
      exact hgone.leave (wait?_of_reader? hbefore) hnothing (.inr hmine)
  | ranOut hmove hstep =>
      have hquiet : t.reply.enrolled? = none := by
        rw [Turn.reply, hstep]
        rfl
      rw [hquiet, Option.toList_none, List.append_nil, Turn.after, hstep]
      exact hgone.leave (wait?_of_reader? hbefore) rfl (.inl rfl)
  | retried hmove hstep => exact hgone.of_attempts (.again hbefore hstep)

theorem step {t : Turn} (h : t.before.Filed begun gone) :
    t.after.Filed (begun ++ t.reply.enrolled?.toList) (gone ++ t.cancelled?.toList) := by
  have hgone := h.mono (List.subset_append_left gone t.cancelled?.toList)
  cases hreading : t.reading? with
  | some r => exact hgone.of_attempts (Turn.attempts hreading)
  | none =>
      have hquiet : t.reply.enrolled? = none := Turn.enrolled?_of_reading hreading
      cases Turn.stir_of_reading hreading with
      | calm hreaders hregistry =>
          rw [hquiet, Option.toList_none, List.append_nil]
          exact hgone.of_same (fun i => congrArg (Option.map _) (hreaders i))
            (congrArg Registry.listening hregistry) (congrArg Registry.waiting hregistry)
      | notified hreaders hregistry =>
          rw [hquiet, Option.toList_none, List.append_nil]
          exact hgone.notify (fun i => congrArg (Option.map _) (hreaders i)) hregistry
      | @stopped i stage wait engine hbefore hstage hregistry hafter =>
          have hwait : ({ t.before with engine } : World).wait? i = some wait :=
            wait?_of_reader? (w := { t.before with engine }) hbefore
          have hwaits : ∀ j, t.after.wait? j = t.before.wait? j := by
            rw [hafter]
            exact wait?_setReader hwait stage
          have hengine : t.after.registry = engine.registry := by rw [hafter]; rfl
          have hkept : t.after.registry.listening = t.before.registry.listening ∧
              t.after.registry.waiting = t.before.registry.waiting := by
            rcases hregistry with hsame | hlower
            · rw [hengine, hsame]
              exact ⟨rfl, rfl⟩
            · rw [hengine, hlower]
              exact ⟨rfl, rfl⟩
          rw [hquiet, Option.toList_none, List.append_nil]
          exact hgone.of_same hwaits hkept.1 hkept.2
      | left hbefore hregistry hafter => exact h.of_left hbefore hafter
      | attempted hattempts => exact hgone.of_attempts hattempts

theorem run (moves : List Move) :
    (World.start.run moves).Filed (enrolments (World.start.turns moves))
      (cancellations (World.start.turns moves)) := by
  refine World.run_induction (P := fun turns w => w.Filed (enrolments turns) (cancellations turns))
    start fun past m _ _ h => ?_
  rw [enrolments_concat, cancellations_concat]
  exact h.step (t := ⟨World.start.run past, m⟩)

end World.Filed

/-! ## Who waits, and for what -/

/-- A reader waits under the keys that its read named when it began. -/
theorem World.keys_of_reader? {moves : List Move} {i : Nat} {x : Reader}
    (h : (World.start.run moves).reader? i = some x) :
    ∃ past request rest, moves = past ++ .begin request :: rest ∧
      i = (World.start.run past).readers.length ∧
      x.wait.reading.keys = request.offsets.map (·.1) := by
  rcases exists_begin (lt_of_reader? h) with hstart | ⟨past, request, rest, rfl, rfl⟩
  · cases hstart
  · refine ⟨past, request, rest, rfl, rfl, ?_⟩
    rw [run_append, run_cons] at h
    rcases (World.start.run past).step_begin request with
      ⟨refusal, -, hstep⟩ | ⟨cursors, hresolve, -⟩
    · obtain ⟨hroom, hnew⟩ := (World.start.run past).room_arrive
      rw [hstep, (over_run hroom hnew rest).2] at h
      cases h
    · rw [((Follows.begin _ request hresolve).run rest).same x h]
      exact Store.keys_of_resolve hresolve

/-- A reader that begins to wait under some key leaves nothing behind that nobody listens to. -/
theorem World.listening_of_waiting {w : World} {i j : Nat} {r : Reading} {wait : Wait}
    (h : (w.attempt i r).1 = .read j (.waiting wait)) (hkeys : wait.reading.keys ≠ [])
    {key : Bytes} {id : SignalId} (hid : id ∈ (w.attempt i r).2.registry.registered key) :
    (w.attempt i r).2.registry.isListening id := by
  have hprogress : (w.engine.attempt r).1 = .waiting wait := (Reply.read.inj h).2
  have hregistry : (w.attempt i r).2.registry = (w.engine.attempt r).2.registry := rfl
  rcases w.engine.attempt_cases r with hends | ⟨-, -, hwaits⟩
  · rw [hends] at hprogress
    cases hprogress
  · rw [hwaits] at hprogress hregistry
    obtain rfl := Progress.waiting.inj hprogress
    have hnamed : r.keys ≠ [] := hkeys
    have hfresh := w.registry.isListening_fresh
    have hregistry' : (w.attempt i r).2.registry =
        r.keys.foldl (fun g key => g.register key w.registry.fresh.1) w.registry.fresh.2 :=
      hregistry
    rw [hregistry', Registry.registered_registerAll hfresh, if_neg hnamed] at hid
    rw [hregistry', Registry.listening_registerAll]
    rcases List.mem_append.1 hid with hold | hmine
    · exact (List.mem_filter.1 hold).2
    · obtain ⟨-, rfl⟩ := List.mem_replicate.1 hmine
      exact hfresh

/-- In every run somebody listens to exactly the registrations of the readers that wait: one for
each time that such a reader named the key, in the order in which the readers began to wait.  A read
that returned has none left.  Any other is one of a reader that was cancelled; none of those is left
under any key when a reader begins to wait under some key.  A key without registrations is not
kept. -/
theorem registrations_of_waiting_readers (moves : List Move) :
    let w := World.start.run moves
    let turns := World.start.turns moves
    let live := (enrolments turns).filter w.goesOn
    (live.Nodup ∧ ∀ i wait, (i, wait) ∈ live ↔ ∃ stage, w.reader? i = some ⟨stage, wait⟩) ∧
    (∀ i x, w.reader? i = some x → ∃ past request rest, moves = past ++ .begin request :: rest ∧
      i = (World.start.run past).readers.length ∧
      x.wait.reading.keys = request.offsets.map (·.1)) ∧
    (∀ key, (w.registry.registered key).filter w.registry.isListening =
      live.flatMap fun e => e.2.registrations key) ∧
    (∀ t ∈ turns, ∀ i outcome, t.reply = .read i (.returned outcome) →
      ∀ wait, (i, wait) ∈ enrolments turns → ∀ key, wait.signal ∉ w.registry.registered key) ∧
    (∀ key, ∀ id ∈ w.registry.registered key, ¬ w.registry.isListening id →
      ∃ e ∈ enrolments turns, e ∈ cancellations turns ∧ id ∈ e.2.registrations key) ∧
    (∀ m i wait, (w.step m).1 = .read i (.waiting wait) → wait.reading.keys ≠ [] →
      ∀ key, ∀ id ∈ (w.step m).2.registry.registered key,
        (w.step m).2.registry.isListening id) ∧
    ∀ key, w.registry.waiting.get? key ≠ some [] := by
  intro w turns live
  have hfiled : w.Filed (enrolments turns) (cancellations turns) := World.Filed.run moves
  refine ⟨⟨?_, ?_⟩, ?_, hfiled.listened, ?_, ?_, ?_, hfiled.filled⟩
  · have hapart : (enrolments turns).Nodup := hfiled.inOrder.imp fun hlt heq => by
      rw [heq] at hlt
      exact Nat.lt_irrefl _ hlt
    exact hapart.filter _
  · intro i wait
    rw [← World.wait?_eq_some_iff, List.mem_filter, World.goesOn_iff]
    exact ⟨And.right, fun hwait => ⟨hfiled.enrolled i wait hwait, hwait⟩⟩
  · exact fun i x hx => World.keys_of_reader? hx
  · intro t ht i outcome hreply wait hwait key hid
    have hends : t.Ends i := .inl ⟨outcome, hreply⟩
    rcases hfiled.forsaken key _ hid with hlistening | ⟨e, he, hgone, hregistered⟩
    · obtain ⟨e, he, hwaits, hregistered⟩ := hfiled.of_listening hid hlistening
      obtain rfl := hfiled.eq_of_signal hwait he (Wait.mem_registrations.1 hregistered).1
      rw [World.wait?, World.over_of_ends ht hends] at hwaits
      cases hwaits
    · obtain rfl := hfiled.eq_of_signal hwait he (Wait.mem_registrations.1 hregistered).1
      obtain ⟨t', ht', hcancelled⟩ := List.mem_filterMap.1 hgone
      obtain ⟨hends', hsilent⟩ := Turn.ends_of_cancelled hcancelled
      obtain rfl := World.ends_once ht ht' hends hends'
      rw [hsilent] at hreply
      cases hreply
  · intro key id hid hnot
    exact (hfiled.forsaken key id hid).resolve_left hnot
  · intro m i wait hreply hkeys key id hid
    obtain ⟨r, hreading⟩ := Turn.reading?_of_waiting (t := ⟨w, m⟩) hreply
    obtain ⟨j, v, -, hstep⟩ := Turn.attempt_of_reading hreading
    have hstep' : w.step m = v.attempt j r := hstep
    rw [hstep'] at hreply hid ⊢
    exact World.listening_of_waiting hreply hkeys hid

/-- A reader that named a key twice is woken in vain and waits again, behind another that is
cancelled. -/
def namedTwice : List Move :=
  [.begin ⟨[([97], "$"), ([98], "$"), ([97], "$")], some 0, none, false, none⟩,
    .begin ⟨[([97], "$")], some 0, none, false, none⟩,
    .add [98] (some "1-1") (.ofList [([102], [118])]) (some 0), .delete [98] ["1-1"],
    .hear 0, .proceed 0, .cancel 1]

/-- A third reader begins to wait, under a key of its own. -/
def elsewhere : Move := .begin ⟨[([99], "$")], some 0, none, false, none⟩

/-- What it waits for. -/
def thirdWait : Wait := ⟨⟨[([99], .after ⟨0, 0⟩)], none, false, none, true, none⟩, 3⟩

theorem registrations_of_waiting_readers_namedTwice :
    let w := World.start.run namedTwice
    w.registry.registered [97] = [1, 2, 2] ∧
      (w.registry.registered [97]).filter w.registry.isListening = [2, 2] ∧
      (∃ e ∈ cancellations (World.start.turns namedTwice), 1 ∈ e.2.registrations [97]) ∧
      ∀ id ∈ (w.step elsewhere).2.registry.registered [97],
        (w.step elsewhere).2.registry.isListening id := by
  intro w
  obtain ⟨-, -, hlistened, -, hforsaken, hpruned, -⟩ :=
    registrations_of_waiting_readers namedTwice
  have hall : w.registry.registered [97] = [1, 2, 2] := by decide +kernel
  refine ⟨hall, ?_, ?_, ?_⟩
  · rw [hlistened]
    decide +kernel
  · have hmem : 1 ∈ w.registry.registered [97] := by
      rw [hall]
      exact List.mem_cons_self
    obtain ⟨e, -, hgone, hregistered⟩ := hforsaken [97] 1 hmem (by decide +kernel)
    exact ⟨e, hgone, hregistered⟩
  · have hwaits : (w.step elsewhere).1.enrolled? = some (2, thirdWait) := by decide +kernel
    exact hpruned elsewhere 2 thirdWait (Reply.enrolled?_eq_some_iff.1 hwaits) nofun [97]

end StreamBroker
