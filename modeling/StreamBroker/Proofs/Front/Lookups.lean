import StreamBroker.Proofs.Front.Window
set_option autoImplicit false

/-!
# Lookups in a window

Lengths are looked up several at a time and answered in the order of their commands, whenever the
replies arrive.  How far a run of askings has come is told by the commands that were started, each
with its reply, and by those that still wait for their start (`Lengths.Stands`).

If the provider goes by a clock, a call is in flight until its reply arrives
(`Lengths.inFlight`).
-/

namespace StreamBroker

variable {σ : Type} {p : Provider σ}

/-! ## One asking after the other -/

/-- An asking: the world in which it is made, what the front end does, and the response, if there is
one. -/
structure Inquiry {σ : Type} (p : Provider σ) where
  start : σ
  deeds : List (Deed p)
  response : Option (Response LengthCommand Nat)

/-- A clock that a provider goes by, and that nothing moves back that happens between askings. -/
structure Clocked (p : Provider σ) (clock : σ → Nat) (changes : List (σ → σ)) : Prop where
  keeps : p.KeepsTime clock
  onward : ∀ change ∈ changes, ∀ s, clock s ≤ clock (change s)

theorem Clocked.of_append_left {clock : σ → Nat} {changes more : List (σ → σ)}
    (h : Clocked p clock (changes ++ more)) : Clocked p clock changes :=
  ⟨h.keeps, fun change hchange => h.onward change (List.mem_append_left more hchange)⟩

namespace Lengths

variable {source : Nat → Option LengthCommand} {window : Nat}

/-- Asks for responses one after the other.  Before each asking the world may become another, and
each is watched by itself. -/
def inquiries (p : Provider σ) (window : Nat) (source : Nat → Option LengthCommand) :
    List (σ → σ) → σ → Lengths → List (Inquiry p)
  | [], _, _ => []
  | change :: changes, s, l =>
    let ((response, l), w) := (next p.watched window source l).run ⟨change s, []⟩
    ⟨change s, w.deeds, response⟩ :: inquiries p window source changes w.world l

/-- What comes of asking for responses one after the other, unwatched. -/
def asked (p : Provider σ) (window : Nat) (source : Nat → Option LengthCommand) :
    List (σ → σ) → σ → Lengths → List (Option (Response LengthCommand Nat))
  | [], _, _ => []
  | change :: changes, s, l =>
    let ((response, l), s) := (next p window source l).run (change s)
    response :: asked p window source changes s l

theorem response_inquiries (changes : List (σ → σ)) (s : σ) (l : Lengths) :
    (inquiries p window source changes s l).map (·.response) =
      asked p window source changes s l := by
  induction changes generalizing s l with
  | nil => rfl
  | cons change rest ih =>
      have hsame := (unseen_next p window source l).run ⟨change s, []⟩
      rw [inquiries, asked, hsame]
      exact congrArg (_ :: ·) (ih _ _)

theorem length_inquiries (changes : List (σ → σ)) (s : σ) (l : Lengths) :
    (inquiries p window source changes s l).length = changes.length := by
  induction changes generalizing s l with
  | nil => rfl
  | cons change rest ih => exact congrArg Nat.succ (ih _ _)

/-- What was done in some askings. -/
def done (past : List (Inquiry p)) : List (Deed p) := past.flatMap (·.deeds)

/-- The responses that were given. -/
def answered (past : List (Inquiry p)) : List (Response LengthCommand Nat) :=
  past.filterMap (·.response)

/-- When the replies arrive to the calls of some askings. -/
def arriving (clock : σ → Nat) (past : List (Inquiry p)) : List Nat :=
  past.flatMap fun e => arrivals (clock e.start) e.deeds

theorem done_concat (past : List (Inquiry p)) (e : Inquiry p) :
    done (past ++ [e]) = done past ++ e.deeds := by
  rw [done, List.flatMap_append, List.flatMap_singleton, done]

theorem answered_concat (past : List (Inquiry p)) (e : Inquiry p) :
    answered (past ++ [e]) = answered past ++ e.response.toList :=
  filterMap_concat _ past e

theorem arriving_concat (clock : σ → Nat) (past : List (Inquiry p)) (e : Inquiry p) :
    arriving clock (past ++ [e]) = arriving clock past ++ arrivals (clock e.start) e.deeds := by
  rw [arriving, List.flatMap_append, List.flatMap_singleton, arriving]

/-- How many calls are in flight when some askings are over and some deeds of another are done. -/
def inFlight (clock : σ → Nat) (past : List (Inquiry p)) (start : σ) (now : List (Deed p)) : Nat :=
  (arriving clock past ++ arrivals (clock start) now).countP (clock start + spent now < ·)

/-- The window is kept when some askings are over and some deeds of another are done: no more
commands are pulled and not answered than it has room for, no more calls are made for such, and no
more calls are in flight. -/
structure InWindow (window : Nat) (changes : List (σ → σ)) (past : List (Inquiry p)) (start : σ)
    (now : List (Deed p)) : Prop where
  pulled : ((done past ++ now).filterMap Deed.pulled?).length ≤
    (answered past).length + max 1 window
  called : ((done past ++ now).filterMap Deed.replied?).length ≤
    ((answered past).filterMap (·.command.key)).length + max 1 window
  flying : ∀ clock, Clocked p clock changes → inFlight clock past start now ≤ max 1 window

theorem InWindow.append {changes : List (σ → σ)} {past : List (Inquiry p)} {start : σ}
    {now : List (Deed p)} (h : InWindow window changes past start now) (later : List (σ → σ)) :
    InWindow window (changes ++ later) past start now :=
  ⟨h.pulled, h.called, fun clock hclock => h.flying clock hclock.of_append_left⟩

/-- How far some askings have come: some of the commands that were started are answered, and behind
them others are started, and others wait. -/
structure Stands (source : Nat → Option LengthCommand) (window : Nat) (changes : List (σ → σ))
    (past : List (Inquiry p)) (l : Lengths) (s : σ) (taken pending : List Lookup)
    (queued : List LengthCommand) : Prop where
  slots : l.slots = pending.map Lookup.slot ++ queued.map .queued
  commands : ((taken ++ pending).map Lookup.command ++ queued).map some =
    (List.range l.pulled).map source
  responses : answered past = taken.map Lookup.response
  pulls : (done past).filterMap Deed.pulled? = List.range l.pulled
  calls : (done past).filterMap Deed.replied? = (taken ++ pending).filterMap Lookup.call?
  dry : l.isDry = true → source l.pulled = none
  room : pending.length + queued.length ≤ max 1 window
  complete : taken.length = past.length ∨ source taken.length = none
  arrivals : ∀ clock, Clocked p clock changes →
    arriving clock past = (taken ++ pending).filterMap Lookup.arrival?
  arrived : ∀ clock, Clocked p clock changes → ∀ k ∈ taken, k.arrival ≤ clock s

namespace Stands

variable {changes : List (σ → σ)} {past : List (Inquiry p)} {l : Lengths} {s : σ}
  {taken pending : List Lookup} {queued : List LengthCommand}

theorem start (p : Provider σ) (source : Nat → Option LengthCommand) (window : Nat) (s : σ) :
    Stands (p := p) source window [] [] .start s [] [] [] where
  slots := rfl
  commands := rfl
  responses := rfl
  pulls := rfl
  calls := rfl
  dry := nofun
  room := Nat.zero_le _
  complete := .inl rfl
  arrivals _ _ := rfl
  arrived _ _ := nofun

/-- Every command that is pulled is answered, is started or waits. -/
theorem pulled (h : Stands source window changes past l s taken pending queued) :
    l.pulled = taken.length + pending.length + queued.length := by
  have hlengths := congrArg List.length h.commands
  simp only [List.length_map, List.length_append, List.length_range] at hlengths
  exact hlengths.symm

variable {answer : Option Lookup} {l' : Lengths} {w' : Watched p} {more : List (Deed p)}
  {commands : List LengthCommand} {news pending' : List Lookup} {queued' : List LengthCommand}
  {change : σ → σ}

/-- While a response is asked for, the window is kept. -/
theorem inWindow (h : Stands source window changes past l s taken pending queued)
    (hasking : Asking source window l ⟨change s, []⟩ pending queued answer l' w' more commands news
      pending' queued') {now : List (Deed p)} (hnow : now <+: more) :
    InWindow window (changes ++ [change]) past (change s) now := by
  have hnews : news.length ≤ queued.length + commands.length := by
    have hlengths := congrArg List.length hasking.waiting
    simp only [List.length_append, List.length_map] at hlengths
    omega
  have hroom := hasking.room
  have hpulled := h.pulled
  refine ⟨?_, ?_, ?_⟩
  · have hpulls := (hnow.filterMap Deed.pulled?).length_le
    rw [hasking.passage.pulls, List.length_range'] at hpulls
    rw [List.filterMap_append, h.pulls, List.length_append, List.length_range, h.responses,
      List.length_map]
    omega
  · have hcalls := (hnow.filterMap Deed.replied?).length_le
    rw [hasking.passage.calls] at hcalls
    have hpending := List.length_filterMap_le Lookup.call? pending
    have hstarted := List.length_filterMap_le Lookup.call? news
    rw [List.filterMap_append, h.calls, List.length_append, List.filterMap_append,
      List.length_append, Lookup.length_calls taken, ← h.responses]
    omega
  · intro clock hclock
    have hbefore := h.arrivals clock hclock.of_append_left
    have hnow := length_arrivals_le (clock (change s)) hnow
    rw [hasking.passage.arrivals clock hclock.keeps] at hnow
    have hpending := List.length_filterMap_le Lookup.arrival? pending
    have hstarted := List.length_filterMap_le Lookup.arrival? news
    -- The replies to the calls of the commands that are answered have all arrived.
    have hover : (taken.filterMap Lookup.arrival?).countP
        (clock (change s) + spent now < ·) = 0 := by
      rw [List.countP_eq_zero]
      intro arrival harrival
      obtain ⟨k, hk, harrival⟩ := List.mem_filterMap.mp harrival
      obtain rfl := Lookup.arrival_of_arrival? harrival
      have hpast := h.arrived clock hclock.of_append_left k hk
      have honward := hclock.onward change (List.mem_append_right _ List.mem_cons_self) s
      rw [decide_eq_true_iff]
      omega
    unfold inFlight
    rw [hbefore, List.filterMap_append, List.countP_append, List.countP_append, hover]
    have hcounted := List.countP_le_length (p := (clock (change s) + spent now < ·))
      (l := pending.filterMap Lookup.arrival?)
    have hcounted' := List.countP_le_length (p := (clock (change s) + spent now < ·))
      (l := StreamBroker.arrivals (clock (change s)) now)
    omega

/-- A response is asked for: the one that is answered is taken, and what is pulled and started is
added. -/
theorem ask (h : Stands source window changes past l s taken pending queued)
    (hasking : Asking source window l ⟨change s, []⟩ pending queued answer l' w' more commands news
      pending' queued') :
    Stands source window (changes ++ [change])
      (past ++ [⟨change s, more, answer.map Lookup.response⟩]) l' w'.world
      (taken ++ answer.toList) pending' queued' := by
  have hall : taken ++ answer.toList ++ pending' = taken ++ pending ++ news := by
    rw [List.append_assoc, List.append_assoc, hasking.started]
  have hcommands : ((taken ++ answer.toList ++ pending').map Lookup.command ++ queued').map some =
      (List.range l'.pulled).map source := by
    have hwaiting : (taken ++ pending ++ news).map Lookup.command ++ queued' =
        (taken ++ pending).map Lookup.command ++ queued ++ commands := by
      rw [List.map_append, List.append_assoc, ← hasking.waiting, List.append_assoc]
    rw [hall, hwaiting, List.map_append, h.commands, hasking.pulled, hasking.position,
      ← range_append_range', List.map_append]
  refine ⟨hasking.slots, hcommands, ?_, ?_, ?_, hasking.dry, ?_, ?_, ?_, ?_⟩
  · rw [answered_concat, h.responses, List.map_append]
    cases answer <;> rfl
  · rw [done_concat, List.filterMap_append, h.pulls, hasking.passage.pulls,
      hasking.position, range_append_range']
  · rw [done_concat, List.filterMap_append, h.calls, hasking.passage.calls, hall,
      ← List.filterMap_append]
  · have hstarted := congrArg List.length hasking.started
    have hwaiting := congrArg List.length hasking.waiting
    have hroom := hasking.room
    simp only [List.length_append, List.length_map] at hstarted hwaiting
    omega
  · rw [List.length_append, List.length_append]
    cases hanswer : answer with
    | none =>
        right
        obtain ⟨hsource, hpending, hqueued⟩ := hasking.unanswered hanswer
        have hlengths := congrArg List.length hcommands
        rw [hanswer, hpending, hqueued] at hlengths
        simp only [List.length_map, List.length_append, List.length_range, List.length_nil,
          Option.toList_none] at hlengths
        rw [← hsource, ← hlengths]
        rfl
    | some k =>
        left
        refine congrArg (· + 1) (h.complete.resolve_right fun hsource => ?_)
        -- The command that is answered is the next of the source.
        have hnext : source taken.length = some k.command := by
          refine source_of_getElem? hcommands ?_
          rw [hanswer]
          simp
        rw [hsource] at hnext
        cases hnext
  · intro clock hclock
    rw [arriving_concat, h.arrivals clock hclock.of_append_left,
      hasking.passage.arrivals clock hclock.keeps, hall, ← List.filterMap_append]
  · intro clock hclock k hk
    rcases List.mem_append.mp hk with hk | hk
    · have hpast := h.arrived clock hclock.of_append_left k hk
      have honward := hclock.onward change (List.mem_append_right _ List.mem_cons_self) s
      rw [hasking.passage.clock clock hclock.keeps]
      exact Nat.le_trans hpast (Nat.le_trans honward (Nat.le_add_right ..))
    · exact hasking.arrived k (Option.mem_toList.mp hk) clock hclock.keeps

/-- An asking is the first of those that come of one change and the following. -/
theorem inquiries_cons
    (hasking : Asking source window l ⟨change s, []⟩ pending queued answer l' w' more commands news
      pending' queued') (later : List (σ → σ)) :
    inquiries p window source (change :: later) s l =
      ⟨change s, more, answer.map Lookup.response⟩ ::
        inquiries p window source later w'.world l' := by
  have hdeeds : w'.deeds = more := hasking.passage.deeds
  rw [inquiries, hasking.run, ← hdeeds]

/-- However many responses are asked for, the askings come somewhere, and during each of them the
window is kept. -/
theorem run (h : Stands source window changes past l s taken pending queued)
    (later : List (σ → σ)) :
    (∃ l' s' taken' pending' queued', Stands source window (changes ++ later)
      (past ++ inquiries p window source later s l) l' s' taken' pending' queued') ∧
    ∀ before e after, inquiries p window source later s l = before ++ e :: after →
      ∀ now, now <+: e.deeds →
        InWindow window (changes ++ later) (past ++ before) e.start now := by
  induction later generalizing changes past l s taken pending queued with
  | nil =>
      refine ⟨⟨l, s, taken, pending, queued, ?_⟩, fun before e after hsplit => ?_⟩
      · rw [inquiries, List.append_nil, List.append_nil]
        exact h
      · exact absurd hsplit.symm (List.append_ne_nil_of_right_ne_nil before (List.cons_ne_nil e after))
  | cons change rest ih =>
      obtain ⟨answer, l', w', more, commands, news, pending', queued', hasking⟩ :=
        exists_asking h.slots h.room h.dry ⟨change s, []⟩
      obtain ⟨hreach, hkept⟩ := ih (h.ask hasking)
      rw [inquiries_cons hasking]
      rw [← List.append_cons, ← List.append_cons] at hreach
      refine ⟨hreach, fun before e after hsplit now hnow => ?_⟩
      cases before with
      | nil =>
          obtain ⟨rfl, -⟩ := List.cons.inj hsplit
          rw [List.append_nil, List.append_cons]
          exact (h.inWindow hasking hnow).append rest
      | cons first before =>
          obtain ⟨rfl, htail⟩ := List.cons.inj hsplit
          have hkept := hkept before e after htail now hnow
          rwa [← List.append_cons, ← List.append_cons] at hkept

end Stands

/-- However often lengths are asked for, whatever happens to the world in between, and whenever the
replies to the calls arrive: the commands are pulled in their order, and those that are started are,
in their order, called out unless they have no key; the responses are those of the commands that
were started first, each with its own command and the reply to its own call, so no failure changes
another response, and there are fewer than askings only if no command is left.  At every moment no
more commands are pulled and not answered than the window has room for, and no more calls are in
flight. -/
theorem lookups_in_window {σ : Type} (p : Provider σ) (window : Nat)
    (source : Nat → Option LengthCommand) (s : σ) (changes : List (σ → σ)) :
    let askings := inquiries p window source changes s .start
    let responses := answered askings
    askings.map (·.response) = asked p window source changes s .start ∧
    (∃ lookups : List Lookup, ∃ pulled : Nat,
      (done askings).filterMap Deed.pulled? = List.range pulled ∧
      lookups.length ≤ pulled ∧
      (lookups.map fun k => some k.command) = (List.range lookups.length).map source ∧
      (done askings).filterMap Deed.replied? = lookups.filterMap Lookup.call? ∧
      responses <+: lookups.map Lookup.response) ∧
    (responses.length < changes.length → source responses.length = none) ∧
    (∀ commands, source = (commands[·]?) → commands.length ≤ changes.length →
      responses.map (·.command) = commands) ∧
    ∀ past e future, askings = past ++ e :: future → ∀ now, now <+: e.deeds →
      InWindow window changes past e.start now := by
  intro askings responses
  obtain ⟨⟨l, s', taken, pending, queued, hstands⟩, hkept⟩ :=
    (Stands.start p source window s).run changes
  rw [List.nil_append, List.nil_append] at hstands
  have hcount : responses.length = taken.length :=
    (congrArg List.length hstands.responses).trans (List.length_map _)
  have hstarted : ((taken ++ pending).map fun k => some k.command) =
      (List.range (taken ++ pending).length).map source := by
    refine List.ext_getElem (by simp) fun i hi _ => ?_
    rw [List.getElem_map, List.getElem_map, List.getElem_range]
    refine (source_of_getElem? hstands.commands ?_).symm
    rw [List.length_map] at hi
    rw [List.getElem?_append_left (by rwa [List.length_map]), List.getElem?_map,
      List.getElem?_eq_getElem hi]
    rfl
  have hstops : responses.length < changes.length → source responses.length = none := by
    intro hlt
    rw [hcount] at hlt ⊢
    refine hstands.complete.resolve_left fun hall => ?_
    rw [hall, length_inquiries] at hlt
    exact Nat.lt_irrefl _ hlt
  refine ⟨response_inquiries changes s .start, ?_, hstops, ?_, ?_⟩
  · refine ⟨taken ++ pending, l.pulled, hstands.pulls, ?_, hstarted, hstands.calls, ?_⟩
    · rw [hstands.pulled, List.length_append]
      exact Nat.le_add_right ..
    · rw [List.map_append, ← hstands.responses]
      exact List.prefix_append ..
  · rintro commands rfl hlength
    have hcommands : responses.map (·.command) = taken.map Lookup.command := by
      change (answered askings).map _ = _
      rw [hstands.responses, List.map_map]
      rfl
    have hprefix : responses.map (·.command) <+: commands := by
      refine List.IsPrefix.trans ?_ (prefix_of_source hstands.commands)
      rw [hcommands, List.map_append, List.append_assoc]
      exact List.prefix_append ..
    refine hprefix.eq_of_length_le (Nat.le_of_not_lt fun hlt => ?_)
    rw [List.length_map] at hlt
    have hnone := hstops (Nat.lt_of_lt_of_le hlt hlength)
    exact absurd (List.getElem?_eq_none_iff.mp hnone) (Nat.not_le_of_lt hlt)
  · intro past e future hsplit now hnow
    have hkept := hkept past e future hsplit now hnow
    rwa [List.nil_append, List.nil_append] at hkept

/-- A recording goes by its own clock. -/
theorem keepsTime_recorder : Recorder.provider.KeepsTime Recorder.clock where
  now _ := rfl
  onPull _ _ := rfl
  dispatch call r := by
    obtain ⟨clock, replies, leases, log⟩ := r
    cases replies <;> rfl
  elapse _ _ := rfl

/-- Four commands, of which the second lacks its key. -/
def fourLengths : List LengthCommand := [⟨some [97]⟩, ⟨none⟩, ⟨some [98]⟩, ⟨some [99]⟩]

/-- A recording in which the reply to the first call is slow and the one to the second a failure. -/
def slowReplies : Recorder :=
  .start [⟨.count 3, 5⟩, ⟨.failure (.transport .noReply), 1⟩, ⟨.count 7, 2⟩] []

theorem lookups_in_window_fourLengths :
    let askings := inquiries Recorder.provider 2 (fourLengths[·]?) (List.replicate 5 id) slowReplies
      .start
    (answered askings).map (·.command) = fourLengths ∧
    fourLengths[(answered askings).length]? = none ∧
    ∀ past e future, askings = past ++ e :: future → ∀ now, now <+: e.deeds →
      inFlight Recorder.clock past e.start now ≤ 2 := by
  intro askings
  obtain ⟨-, -, hstops, hall, hkept⟩ := lookups_in_window Recorder.provider 2 (fourLengths[·]?)
    slowReplies (List.replicate 5 id)
  have hcommands : (answered askings).map (·.command) = fourLengths :=
    hall fourLengths rfl (by decide)
  refine ⟨hcommands, hstops ?_, fun past e future hsplit now hnow => ?_⟩
  · have hlength := congrArg List.length hcommands
    rw [List.length_map] at hlength
    change (answered askings).length < _
    rw [hlength]
    decide
  · refine (hkept past e future hsplit now hnow).flying Recorder.clock ⟨keepsTime_recorder, ?_⟩
    intro change hchange s
    obtain rfl := List.eq_of_mem_replicate hchange
    exact Nat.le_refl _

/-- The rejection and the failure are the answers to their own commands alone. -/
example :
    (answered (inquiries Recorder.provider 2 (fourLengths[·]?) (List.replicate 5 id) slowReplies
      .start)).map (·.outcome.toOption) = [some 3, none, none, some 7] := by decide +kernel

end Lengths

end StreamBroker
