import StreamBroker.Proofs.Engine.Translations
import StreamBroker.Proofs.Front.Traffic
import StreamBroker.Proofs.World.Scanning
set_option autoImplicit false

/-!
# Answers are never lost in translation

The front end makes records of messages and identifiers of the replies to additions, and both can
fail.  They do not over a provider whose messages tell entries and whose replies to additions are
identifiers (`Provider.Legible`): none of its responses and record streams holds a failure to
translate.  A hub is such a provider, since an engine tells identifiers of entries only, and it
stays one however it is used (`Traffic.Legible`).
-/

namespace StreamBroker

variable {σ : Type}

/-! ## What an act gives -/

/-- What an act gives has a property, whatever the state in which it is done. -/
structure Yields {α : Type} (P : α → Prop) (act : StateM σ α) : Prop where
  run : ∀ s, P (act.run s).1

namespace Yields

variable {α β : Type} {P : α → Prop} {Q : β → Prop}

theorem pure {a : α} (h : P a) : Yields (σ := σ) P (pure a) := ⟨fun _ => h⟩

theorem any (act : StateM σ α) : Yields (fun _ => True) act := ⟨fun _ => trivial⟩

/-- What is done behind an act may go by what the act gives. -/
theorem bind {act : StateM σ α} {f : α → StateM σ β} (hact : Yields P act)
    (hf : ∀ a, P a → Yields Q (f a)) : Yields Q (act >>= f) := by
  refine ⟨fun s => ?_⟩
  rw [StateT.run_bind]
  exact (hf _ (hact.run s)).run _

/-- What is watched gives what it gave before. -/
theorem watch {p : Provider σ} {act : StateM σ α} (h : Yields P act) (deed : α → Deed p) :
    Yields P (p.watch act deed) :=
  ⟨fun w => h.run w.world⟩

end Yields

/-! ## Legible providers -/

/-- What is pulled is of a kind, and if it is a failure, it is not one to translate. -/
def Pull.Tells {α : Type} (P : α → Prop) : Pull α → Prop
  | .item (.ok a) => P a
  | .item (.error failure) => ¬ failure.IsMistranslation
  | .waiting | .finished => True

/-- A record under the identifier of an entry. -/
def Record.IsEntry (r : Record) : Prop := ∃ id : EntryId, r.id = .concrete id

/-- The message of an entry is a record. -/
theorem Message.IsEntry.record_eq_ok {m : Message} (h : m.IsEntry) :
    ∃ r : Record, m.record = .ok r ∧ r.IsEntry := by
  obtain ⟨key, id, body, rfl⟩ := h
  exact ⟨_, Message.record_ofEntry key id body, id, rfl⟩

/-- A message that tells no entry may be none. -/
example : (Message.mk [97] "1" ∅).record = .error (.recordId .format) := by rfl

/-- A provider whose messages tell entries, whose replies to additions are identifiers of entries,
and whose failures are others than to translate.  Of its feeds this is said of those that queries
open, and of what pulling them leaves. -/
structure Provider.Legible (p : Provider σ) (Good : p.Feed → Prop) : Prop where
  dispatch : ∀ {k : ReplyKind} (call : Call k), Yields (fun r => Translated r.2) (p.dispatch call)
  added : ∀ key request body,
    Yields (fun r => ∀ reply, r.2 = .ok reply → ∃ id : EntryId, reply = id.text)
      (p.dispatch (.add key request body))
  collect : ∀ ticket,
    Yields (fun found => ∀ failure, found = .ready (.error failure) → ¬ failure.IsMistranslation)
      (p.collect ticket)
  submit : ∀ route query, Yields Good (p.submit route query)
  pull : ∀ feed, Good feed → Yields (fun r => r.1.Tells Message.IsEntry ∧ Good r.2) (p.pull feed)

/-- A provider stays legible when it is watched. -/
theorem Provider.Legible.watched {p : Provider σ} {Good : p.Feed → Prop} (h : p.Legible Good) :
    p.watched.Legible Good where
  dispatch call := (h.dispatch call).watch fun r => .called call r.1 r.2
  added key request body :=
    (h.added key request body).watch fun r => .called (.add key request body) r.1 r.2
  collect ticket := (h.collect ticket).watch (.collected ticket)
  submit route query := (h.submit route query).watch (.queried route query)
  pull feed hfeed := (h.pull feed hfeed).watch fun r => .received feed r.1 r.2

/-! ## Commands with a single call -/

theorem OnlyBreaks.translated {α : Type} {x : Except Failure α} (h : OnlyBreaks x) :
    Translated x := by
  refine ⟨fun failure hfailure => ?_⟩
  have hkind := h.kind failure hfailure
  cases failure with
  | contract => exact id
  | _ => cases hkind

theorem OnlyBreaks.map {α β : Type} {x : Except Failure α} (f : α → β) (h : OnlyBreaks x) :
    OnlyBreaks (x.map f) := by
  refine ⟨fun failure hfailure => ?_⟩
  cases x with
  | error first =>
      cases hfailure
      exact h.kind failure rfl
  | ok a => cases hfailure

/-- How the reply to a call becomes the result: the one to an addition is read, and any other is
good as it is. -/
inductive Plan.Concludes : {R : Type} → Plan R → Prop where
  | reading (key : Bytes) (request : Option String) (body : Body) :
      Concludes ⟨.text, .add key request body, AddCommand.conclude⟩
  | plainly {R : Type} {chosen : Plan R} (h : ∀ value, ∃ r, chosen.conclude value = .ok r) :
      Concludes chosen

theorem Change.plan_concludes {op : Change} {c : op.Input} {chosen : Plan op.Result}
    (h : op.plan c = .ok chosen) : chosen.Concludes := by
  cases op with
  | add =>
      obtain ⟨key, -, h⟩ := exists_of_bind_eq_ok h
      obtain ⟨body, -, h⟩ := exists_of_bind_eq_ok h
      cases h
      exact .reading ..
  | acknowledge =>
      obtain ⟨key, -, h⟩ := exists_of_bind_eq_ok h
      obtain ⟨group, -, h⟩ := exists_of_bind_eq_ok h
      obtain ⟨-, -, h⟩ := exists_of_bind_eq_ok h
      cases h
      exact .plainly fun value => ⟨value, rfl⟩
  | delete =>
      obtain ⟨key, -, h⟩ := exists_of_bind_eq_ok h
      obtain ⟨-, -, h⟩ := exists_of_bind_eq_ok h
      cases h
      exact .plainly fun value => ⟨value, rfl⟩
  | group =>
      obtain ⟨key, -, h⟩ := exists_of_bind_eq_ok h
      obtain ⟨group, -, h⟩ := exists_of_bind_eq_ok h
      split at h
      · cases h
        exact .plainly fun value => ⟨value, rfl⟩
      · cases h
        exact .plainly fun value => ⟨statusOf value, rfl⟩
      · cases h
        exact .plainly fun value => ⟨statusOf value, rfl⟩
  | trim =>
      obtain ⟨key, -, h⟩ := exists_of_bind_eq_ok h
      obtain ⟨count, -, h⟩ := exists_of_bind_eq_ok h
      cases h
      exact .plainly fun value => ⟨value, rfl⟩

theorem LengthCommand.plan_onlyBreaks (c : LengthCommand) : OnlyBreaks c.plan :=
  .bind (.require ..) fun _ => .ok _

theorem LengthCommand.plan_concludes {c : LengthCommand} {chosen : Plan Nat}
    (h : c.plan = .ok chosen) : chosen.Concludes := by
  obtain ⟨key, -, h⟩ := exists_of_bind_eq_ok h
  cases h
  exact .plainly fun value => ⟨value, rfl⟩

namespace Provider.Legible

variable {p : Provider σ} {Good : p.Feed → Prop} (hp : p.Legible Good)

include hp

/-- What becomes of a reply is no failure to translate. -/
theorem concluded {R : Type} {chosen : Plan R} (h : chosen.Concludes) :
    Yields (fun r => Translated (r.2 >>= chosen.conclude)) (p.dispatch chosen.call) := by
  cases h with
  | reading key request body =>
      refine ⟨fun s => .bind ((hp.dispatch _).run s) fun reply hreply => ?_⟩
      obtain ⟨id, rfl⟩ := (hp.added key request body).run s reply hreply
      dsimp only
      rw [AddCommand.conclude_text]
      exact .ok _
  | plainly hconclude =>
      refine ⟨fun s => .bind ((hp.dispatch _).run s) fun value _ => ?_⟩
      obtain ⟨r, hr⟩ := hconclude value
      rw [hr]
      exact .ok r

/-- A command that is carried out is rejected, or concluded. -/
theorem translated_execute {C R : Type} {plan : C → Except Failure (Plan R)} {c : C}
    (hbreaks : OnlyBreaks (plan c)) (hconcludes : ∀ chosen, plan c = .ok chosen → chosen.Concludes) :
    Yields Translated (Ordered.execute p plan c) := by
  unfold Ordered.execute
  cases hplan : plan c with
  | error failure =>
      rw [hplan] at hbreaks
      exact .pure (.error (hbreaks.translated.failure failure rfl))
  | ok chosen =>
      have hreply : Yields (fun reply => Translated (reply >>= chosen.conclude))
          (p.call chosen.call) :=
        (hp.concluded (hconcludes chosen hplan)).bind fun r hr =>
          (Yields.any (p.elapse r.1)).bind fun _ _ => .pure hr
      exact hreply.bind fun _ => .pure

/-- In strict order no response is a failure to translate. -/
theorem translated_next {C R : Type} {plan : C → Except Failure (Plan R)}
    (hbreaks : ∀ c, OnlyBreaks (plan c))
    (hconcludes : ∀ c chosen, plan c = .ok chosen → chosen.Concludes) (source : Nat → Option C)
    (o : Ordered) :
    Yields (fun r => ∀ response, r.1 = some response → Translated response.outcome)
      (Ordered.next p source plan o) := by
  unfold Ordered.next
  split
  · exact .pure nofun
  · split
    · exact .pure nofun
    case h_2 c _ =>
      refine (Yields.any (p.onPull o.pulled)).bind fun _ _ => ?_
      refine (hp.translated_execute (hbreaks c) (hconcludes c)).bind fun outcome houtcome => ?_
      refine .pure fun response hresponse => ?_
      cases hresponse
      exact houtcome

end Provider.Legible

/-! ## Lengths -/

/-- The outcome that is there, if there is one, is no failure to translate. -/
def Slot.Legible : Slot → Prop
  | .queued _ => True
  | .started _ _ outcome => Translated outcome

def Lengths.Legible (l : Lengths) : Prop := ∀ slot ∈ l.slots, slot.Legible

theorem Lengths.legible_start : start.Legible := nofun

namespace Provider.Legible

variable {p : Provider σ} {Good : p.Feed → Prop}

theorem legible_fill (p : Provider σ) (source : Nat → Option LengthCommand) (n : Nat) {l : Lengths}
    (hl : l.Legible) : Yields Lengths.Legible (Lengths.fill p source n l) := by
  induction n generalizing l with
  | zero => exact .pure hl
  | succ n ih =>
      unfold Lengths.fill
      split
      · exact .pure hl
      · split
        · exact .pure hl
        · refine (Yields.any (p.onPull l.pulled)).bind fun _ _ => ih fun slot hslot => ?_
          rcases List.mem_append.1 hslot with hbefore | hlast
          · exact hl slot hbefore
          · rw [List.mem_singleton.1 hlast]
            trivial

variable (hp : p.Legible Good)

include hp

theorem translated_launch {slot : Slot} (hslot : slot.Legible) :
    Yields (fun flight => Translated flight.outcome) (Lengths.launch p slot) := by
  cases slot with
  | started c arrival outcome => exact .pure hslot
  | queued c =>
      unfold Lengths.launch
      refine (Yields.any p.now).bind fun now _ => ?_
      have hbreaks := c.plan_onlyBreaks
      cases hplan : c.plan with
      | error failure =>
          rw [hplan] at hbreaks
          exact .pure (.error (hbreaks.translated.failure failure rfl))
      | ok chosen =>
          exact (hp.concluded (LengthCommand.plan_concludes hplan)).bind fun _ hr => .pure hr

theorem legible_launchAll {slots : List Slot} (hslots : ∀ slot ∈ slots, slot.Legible) :
    Yields (fun launched => ∀ slot ∈ launched, slot.Legible) (Lengths.launchAll p slots) := by
  induction slots with
  | nil => exact .pure nofun
  | cons slot rest ih =>
      obtain ⟨hslot, hrest⟩ := List.forall_mem_cons.1 hslots
      refine (hp.translated_launch hslot).bind fun flight hflight => ?_
      exact (ih hrest).bind fun launched hlaunched =>
        .pure (List.forall_mem_cons.2 ⟨hflight, hlaunched⟩)

/-- No length that is looked up is a failure to translate, whatever the window. -/
theorem translated_lookUp (window : Nat) (source : Nat → Option LengthCommand) {l : Lengths}
    (hl : l.Legible) :
    Yields (fun r => (∀ response, r.1 = some response → Translated response.outcome) ∧
      r.2.Legible) (Lengths.next p window source l) := by
  unfold Lengths.next
  refine (legible_fill p source _ hl).bind fun filled hfilled => ?_
  split
  · exact .pure ⟨nofun, hfilled⟩
  case h_2 slot rest hslots =>
    have hall : ∀ slot' ∈ slot :: rest, slot'.Legible := hslots ▸ hfilled
    obtain ⟨hslot, hrest⟩ := List.forall_mem_cons.1 hall
    refine (hp.translated_launch hslot).bind fun flight hflight => ?_
    refine (Yields.any p.now).bind fun now _ => ?_
    have hresponse : ∀ response : Response LengthCommand Nat,
        some ⟨flight.command, flight.outcome⟩ = some response → Translated response.outcome := by
      intro response heq
      cases heq
      exact hflight
    dsimp only
    split
    · exact .pure ⟨hresponse, hrest⟩
    · refine (hp.legible_launchAll hrest).bind fun launched hlaunched => ?_
      exact (Yields.any (p.elapse _)).bind fun _ _ => .pure ⟨hresponse, hlaunched⟩

end Provider.Legible

/-! ## Record streams -/

theorem Retrieval.plan_onlyBreaks (op : Retrieval) (c : op.Input) : OnlyBreaks (op.plan c) := by
  cases op with
  | scan direction =>
      exact .map _ (.bind (.require ..) fun _ => .bind (.require ..) fun _ =>
        .bind (.require ..) fun _ => .ok _)
  | read => exact .bind (.requireSome ..) fun _ => .bind (.require ..) fun _ => .ok _

/-- The feed of a stream, if it is being pulled, is a good one. -/
def RecordStream.Legible {p : Provider σ} (Good : p.Feed → Prop) : RecordStream p → Prop
  | .running _ feed => Good feed
  | _ => True

namespace Provider.Legible

variable {p : Provider σ} {Good : p.Feed → Prop} (hp : p.Legible Good)

include hp

/-- A message that is pulled is a record. -/
theorem tells_pullFeed (lease : Option p.Lease) {feed : p.Feed} (hfeed : Good feed) :
    Yields (fun r => r.1.Tells Record.IsEntry ∧ r.2.Legible Good)
      (RecordStream.pullFeed p lease feed) := by
  unfold RecordStream.pullFeed
  refine (hp.pull feed hfeed).bind fun ⟨item, feed'⟩ ⟨hitem, hfeed'⟩ => ?_
  cases item with
  | waiting => exact .pure ⟨trivial, hfeed'⟩
  | finished => exact (Yields.any _).bind fun _ _ => .pure ⟨trivial, trivial⟩
  | item outcome =>
      cases outcome with
      | error failure => exact .pure ⟨hitem, trivial⟩
      | ok m =>
          obtain ⟨r, hrecord, hentry⟩ := Message.IsEntry.record_eq_ok hitem
          dsimp only
          rw [hrecord]
          exact .pure ⟨hentry, hfeed'⟩

theorem tells_pullTicket (ticket : p.Ticket) (query : Query) :
    Yields (fun r => r.1.Tells Record.IsEntry ∧ r.2.Legible Good)
      (RecordStream.pullTicket p ticket query) := by
  unfold RecordStream.pullTicket
  refine (hp.collect ticket).bind fun found hfound => ?_
  rcases found with (failure | lease) | _
  · exact .pure ⟨hfound failure rfl, trivial⟩
  · exact (hp.submit .dedicated query).bind fun _ => hp.tells_pullFeed (some lease)
  · exact .pure ⟨trivial, trivial⟩

/-- No record stream tells a failure to translate. -/
theorem tells_pull {stream : RecordStream p} (hstream : stream.Legible Good) :
    Yields (fun r => r.1.Tells Record.IsEntry ∧ r.2.Legible Good)
      (RecordStream.pull p stream) := by
  cases stream with
  | fresh route query =>
      cases route with
      | shared => exact (hp.submit .shared query).bind fun _ => hp.tells_pullFeed none
      | dedicated =>
          exact (Yields.any p.request).bind fun ticket _ => hp.tells_pullTicket ticket query
  | acquiring ticket query => exact hp.tells_pullTicket ticket query
  | running lease feed => exact hp.tells_pullFeed lease hstream
  | failed lease feed =>
      exact (Yields.any _).bind fun _ _ => (Yields.any _).bind fun _ _ => .pure ⟨trivial, trivial⟩
  | ended => exact .pure ⟨trivial, trivial⟩

end Provider.Legible

/-! ## Any operation -/

/-- What is there of the answers to come is no failure to translate. -/
def Operating.Legible : Operating → Prop
  | changing .. | retrieving .. => True
  | measuring _ _ progress => progress.Legible

/-- The outcome of the next response, if there is one, without what it gives. -/
def Operating.outcome (p : Provider σ) : Operating → StateM σ (Option (Except Failure Unit))
  | changing op source progress => do
    let (response, _) ← Ordered.next p source op.plan progress
    return response.map fun r => r.outcome.map fun _ => ()
  | measuring window source progress => do
    let (response, _) ← Lengths.next p window source progress
    return response.map fun r => r.outcome.map fun _ => ()
  | retrieving op source pulled => do
    let (response, _) ← Lazily.next p source op.plan pulled
    return response.map fun r => r.outcome.map fun _ => ()

theorem Translated.map {α β : Type} {x : Except Failure α} (f : α → β) (h : Translated x) :
    Translated (x.map f) := by
  cases x with
  | error failure => exact .error (h.failure failure rfl)
  | ok a => exact .ok (f a)

/-- A response without what it gives is no failure to translate, if the response is none. -/
theorem Translated.of_response {C R : Type} {response : Option (Response C R)}
    (h : ∀ r, response = some r → Translated r.outcome) {outcome : Except Failure Unit}
    (houtcome : (response.map fun r => r.outcome.map fun _ => ()) = some outcome) :
    Translated outcome := by
  obtain ⟨r, hr, rfl⟩ := Option.map_eq_some_iff.1 houtcome
  exact (h r hr).map _

namespace Provider.Legible

variable {p : Provider σ} {Good : p.Feed → Prop} (hp : p.Legible Good)

/-- A scan or a read is rejected or answered with a record stream that has done nothing. -/
theorem translated_lazily (p : Provider σ) (Good : p.Feed → Prop) (op : Retrieval)
    (source : Nat → Option op.Input) (pulled : Nat) :
    Yields (fun r => ∀ response, r.1 = some response → Translated response.outcome ∧
      ∀ stream, response.outcome = .ok stream → stream.Legible Good)
      (Lazily.next p source op.plan pulled) := by
  unfold Lazily.next
  split
  · exact .pure nofun
  case h_2 c _ =>
    refine (Yields.any (p.onPull pulled)).bind fun _ _ => .pure fun response hresponse => ?_
    cases hresponse
    refine ⟨(op.plan_onlyBreaks c).translated.map _, fun stream hstream => ?_⟩
    obtain ⟨q, -, rfl⟩ := exists_of_map_eq_ok hstream
    trivial

include hp

/-- No response is a failure to translate. -/
theorem translated_outcome {o : Operating} (ho : o.Legible) :
    Yields (fun r => ∀ outcome, r = some outcome → Translated outcome) (o.outcome p) := by
  cases o with
  | changing op source progress =>
      have hnext := hp.translated_next op.plan_onlyBreaks (fun _ _ => Change.plan_concludes) source
        progress
      exact hnext.bind fun _ h => .pure fun _ => Translated.of_response h
  | measuring window source progress =>
      exact (hp.translated_lookUp window source ho).bind fun _ h =>
        .pure fun _ => Translated.of_response h.1
  | retrieving op source pulled =>
      exact (translated_lazily p Good op source pulled).bind fun _ h =>
        .pure fun _ => Translated.of_response fun r hr => (h r hr).1

/-- What is asked for leaves operations and record streams that are as good. -/
theorem legible_ask {o : Operating} (ho : o.Legible) :
    Yields (fun r => (∀ demand stream, r.1 = some (demand, some stream) → stream.Legible Good) ∧
      r.2.Legible) (o.ask p) := by
  cases o with
  | changing op source progress =>
      refine (Yields.any _).bind fun ⟨response, _⟩ _ => .pure ⟨fun demand stream h => ?_, trivial⟩
      obtain ⟨r, -, hr⟩ := Option.map_eq_some_iff.1 h
      cases hr
  | measuring window source progress =>
      refine (hp.translated_lookUp window source ho).bind fun ⟨response, _⟩ hnext =>
        .pure ⟨fun demand stream h => ?_, hnext.2⟩
      obtain ⟨r, -, hr⟩ := Option.map_eq_some_iff.1 h
      cases hr
  | retrieving op source pulled =>
      refine (translated_lazily p Good op source pulled).bind fun ⟨response, _⟩ hnext =>
        .pure ⟨fun demand stream h => ?_, trivial⟩
      obtain ⟨⟨command, outcome⟩, hr, heq⟩ := Option.map_eq_some_iff.1 h
      obtain ⟨-, houtcome⟩ := Prod.mk.inj heq
      cases outcome with
      | error failure => cases houtcome
      | ok stream' =>
          obtain rfl := Option.some.inj houtcome
          exact (hnext _ hr).2 stream' rfl

end Provider.Legible

/-! ## The hub -/

/-- What a feed has still to give are entries or a refusal of the engine. -/
def Hub.Feed.Legible : Feed → Prop
  | .delivering messages => ∀ m ∈ messages, m.IsEntry
  | .refused refusal => refusal.IsOwn
  | _ => True

namespace Hub

/-- A call on a hub has the reply of the engine. -/
theorem run_callOn_fst {k : ReplyKind} (route : Route) (call : Call k) (h : Hub) :
    ((callOn route call).run h).1 = (h.engine.perform h.wallClock call).1 := by
  have hperform : ((callOn route call).run h).1 = ((perform call).run (h.count route)).1 := rfl
  have hcount : (h.count route).engine.perform (h.count route).wallClock call =
      h.engine.perform h.wallClock call := by
    cases route <;> rfl
  rw [hperform, ← hcount]
  generalize h.count route = h
  unfold perform
  rw [StateT.run_modifyGet]
  cases call with
  | add key request body =>
      rcases h.engine.perform h.wallClock (.add key request body) with ⟨failure | id, engine⟩ <;> rfl
  | _ => rfl

theorem legible_ofProgress {s : Store} {reader? : Option Consumer} {progress : Progress}
    (h : s.Finds reader? progress.outcome) :
    (Feed.ofProgress progress).1.Tells Message.IsEntry ∧ (Feed.ofProgress progress).2.Legible := by
  rcases progress with (refusal | messages) | wait
  · exact ⟨(h.inOwnWords.own refusal rfl).not_isMistranslation, trivial⟩
  · cases messages with
    | nil => exact ⟨trivial, trivial⟩
    | cons m rest =>
        have hall : ∀ m' ∈ m :: rest, m'.IsEntry := fun m' hm => (h.found _ rfl m' hm).isEntry
        exact List.forall_mem_cons.1 hall
  · exact ⟨trivial, trivial⟩

/-- Pulling a feed of a hub gives entries, or refusals of the engine. -/
theorem tells_pull {feed : Feed} (hfeed : feed.Legible) :
    Yields (fun r => r.1.Tells Message.IsEntry ∧ r.2.Legible) (pull feed) := by
  cases feed with
  | scanning scan =>
      refine ⟨fun h => ?_⟩
      rw [run_pull_scanning]
      rcases hnext : scan.next h.engine.store with ⟨_ | m, rest⟩
      · exact ⟨trivial, trivial⟩
      · exact ⟨Scan.isEntry_of_next hnext, trivial⟩
  | reading request => exact ⟨fun h => legible_ofProgress (h.engine.finds_beginRead h.now request)⟩
  | waiting wait => exact ⟨fun h => legible_ofProgress (h.engine.finds_resume h.now wait)⟩
  | delivering messages =>
      cases messages with
      | nil => exact .pure ⟨trivial, trivial⟩
      | cons m rest => exact .pure (List.forall_mem_cons.1 hfeed)
  | refused refusal => exact .pure ⟨Refusal.IsOwn.not_isMistranslation hfeed, trivial⟩
  | ended => exact .pure ⟨trivial, trivial⟩

theorem legible_ofQuery (query : Query) : (Feed.ofQuery query).Legible := by
  cases query with
  | scan key range window direction =>
      have hstart := Scan.inOwnWords_start key range window direction
      unfold Feed.ofQuery
      dsimp only
      split
      · trivial
      case h_2 refusal hrefused => exact hstart.own refusal hrefused
  | read request => trivial

/-- A hub is legible, whatever its engine. -/
theorem legible : Hub.provider.Legible Feed.Legible where
  dispatch call := by
    refine ⟨fun h => ?_⟩
    rw [run_dispatch, run_callOn_fst]
    exact h.engine.perform_translated h.wallClock call
  added key request body := by
    refine ⟨fun h reply hreply => ?_⟩
    rw [run_dispatch, run_callOn_fst] at hreply
    obtain ⟨id, htext, -⟩ := h.engine.perform_add_eq_ok hreply
    exact ⟨id, htext⟩
  collect ticket := by
    refine ⟨fun h failure hfailure => ?_⟩
    change ((collect ticket).run h).1 = _ at hfailure
    simp only [collect, StateT.run_modifyGet] at hfailure
    split at hfailure <;> cases hfailure
    exact id
  submit route query := ⟨fun h => legible_ofQuery query⟩
  pull feed hfeed := tells_pull hfeed

end Hub

/-! ## Traffic on a hub -/

/-- The record stream of a command is good, and has told records and other failures only. -/
structure Errand.Legible (e : Errand) : Prop where
  stream : ∀ stream, e.stream = some stream →
    RecordStream.Legible (p := Hub.provider.watched) Hub.Feed.Legible stream
  told : ∀ item ∈ e.told, item.Tells Record.IsEntry

theorem Errand.Legible.pull {e : Errand} (h : e.Legible) (hub : Hub) :
    (e.pull.run hub).1.Legible := by
  cases hstream : e.stream with
  | none =>
      rw [pull_of_none hstream]
      exact h
  | some stream =>
      obtain ⟨item, stream', w, hrun, hpull⟩ := pull_of_some hstream hub
      have htells := (Hub.legible.watched.tells_pull (h.stream stream hstream)).run ⟨hub, e.deeds⟩
      rw [hrun] at htells
      rw [hpull]
      refine ⟨fun stream'' heq => ?_, fun item' hitem => ?_⟩
      · obtain rfl := Option.some.inj heq
        exact htells.2
      · rcases List.mem_append.1 hitem with hbefore | hlast
        · exact h.told item' hbefore
        · rw [List.mem_singleton.1 hlast]
          exact htells.1

theorem Errand.Legible.drop {e : Errand} (h : e.Legible) (hub : Hub) :
    (e.drop.run hub).1.Legible := by
  cases hstream : e.stream with
  | none =>
      rw [drop_of_none hstream]
      exact h
  | some stream =>
      obtain ⟨w, -, hdrop⟩ := drop_of_some hstream hub
      rw [hdrop]
      exact ⟨fun stream' heq => absurd heq.symm (Option.some_ne_none stream'), h.told⟩

namespace Traffic

/-- Nothing that is there of an answer is a failure to translate. -/
structure Legible (t : Traffic) : Prop where
  operations : ∀ o ∈ t.operations, o.Legible
  errands : ∀ e ∈ t.errands, e.Legible

namespace Legible

variable {t : Traffic}

theorem start (settings : Settings) (wallClock : UInt64) :
    (Traffic.start settings wallClock).Legible where
  operations _ ho := absurd ho List.not_mem_nil
  errands _ he := absurd he List.not_mem_nil

theorem begin (h : t.Legible) {o : Operating} (ho : o.Legible) : (t.begin o).Legible := by
  refine ⟨fun o' ho' => ?_, h.errands⟩
  rcases List.mem_append.1 ho' with hbefore | hlast
  · exact h.operations o' hbefore
  · rw [List.mem_singleton.1 hlast]
    exact ho

theorem ask (h : t.Legible) (i : Nat) : (t.step (.ask i)).Legible := by
  cases ho : t.operations[i]? with
  | none =>
      rw [step_ask_of_none ho]
      exact h
  | some o =>
      have hask := (Hub.legible.watched.legible_ask
        (h.operations o (List.mem_of_getElem? ho))).run ⟨t.hub, []⟩
      rw [step_ask_of_some ho]
      generalize (o.ask Hub.provider.watched).run ⟨t.hub, []⟩ = result at hask ⊢
      obtain ⟨⟨answer, o'⟩, w⟩ := result
      refine ⟨fun o'' ho'' => ?_, fun e he => ?_⟩
      · rcases List.mem_or_eq_of_mem_set ho'' with hold | rfl
        · exact h.operations o'' hold
        · exact hask.2
      · rcases List.mem_append.1 he with hbefore | hlast
        · exact h.errands e hbefore
        · obtain ⟨⟨demand, stream?⟩, hanswer, rfl⟩ :=
            Option.map_eq_some_iff.1 (Option.mem_toList.1 hlast)
          refine ⟨fun stream hstream => ?_, nofun⟩
          obtain rfl : stream? = some stream := hstream
          exact hask.1 demand stream hanswer

theorem tend (h : t.Legible) {act : Errand → StateM Hub Errand}
    (hact : ∀ (e : Errand) hub, e.Legible → ((act e).run hub).1.Legible) (j : Nat) :
    (t.tend act j).Legible := by
  unfold Traffic.tend
  cases he : t.errands[j]? with
  | none => exact h
  | some e =>
      refine ⟨h.operations, fun e' he' => ?_⟩
      rcases List.mem_or_eq_of_mem_set he' with hold | rfl
      · exact h.errands e' hold
      · exact hact e t.hub (h.errands e (List.mem_of_getElem? he))

theorem step (h : t.Legible) (move : TrafficMove) : (t.step move).Legible := by
  cases move with
  | change op source => exact h.begin trivial
  | measure window source => exact h.begin Lengths.legible_start
  | retrieve op source => exact h.begin trivial
  | ask i => exact h.ask i
  | pull j => exact h.tend (fun _ hub he => he.pull hub) j
  | drop j => exact h.tend (fun _ hub he => he.drop hub) j
  | meanwhile engine now wallClock => exact ⟨h.operations, h.errands⟩

theorem run (h : t.Legible) (moves : List TrafficMove) : (t.run moves).Legible := by
  induction moves generalizing t with
  | nil => exact h
  | cons move rest ih => exact ih (h.step move)

end Legible

end Traffic

/-! ## Every answer -/

/-- Whatever an engine has been through: each message of a read, when it begins or goes on, is the
record of what its reader found under the same key, an entry that stands in the store with this
body, or one that is pending for the reader and was deleted, with an empty body.  Each message of a
scan, whatever happens between its pages, is the record of an entry as it stood in the store from
which the page was taken.  The reply to an addition that succeeds is the identifier of the entry
that was added.  So on a hub, however it is used, no response and no record stream holds a failure
to translate, and every record that is told has the identifier of an entry. -/
theorem engine_answers_translate :
    (∀ (e : Engine) now request messages,
      (e.beginRead now request).1 = .returned (.ok messages) → ∀ m ∈ messages, ∃ key id body,
        m = .ofEntry key id body ∧ m.record = .ok ⟨key, .concrete id, body⟩ ∧
        e.store.Backs request.consumer key id body) ∧
    (∀ (e : Engine) now wait messages,
      (e.resume now wait).1 = .returned (.ok messages) → ∀ m ∈ messages, ∃ key id body,
        m = .ofEntry key id body ∧ m.record = .ok ⟨key, .concrete id, body⟩ ∧
        e.store.Backs wait.reading.consumer key id body) ∧
    (∀ key range window d sc, Scan.start key range window d = .ok sc →
      ∀ (w : World) moves early t late, Scanning.turns ⟨w, sc⟩ moves = early ++ t :: late →
        ∀ m, t.message? = some m → ∃ id body store,
          m = .ofEntry key id body ∧ m.record = .ok ⟨key, .concrete id, body⟩ ∧
          (fetches early).getLast? = some store ∧ store.Has key (id, body)) ∧
    (∀ (e : Engine) clock key request body reply,
      (e.perform clock (.add key request body)).1 = .ok reply → ∃ id : EntryId,
        reply = id.text ∧ AddCommand.conclude reply = .ok (.concrete id) ∧
        (e.perform clock (.add key request body)).2.store.Has key (id, body) ∧
        (e.perform clock (.add key request body)).2.store.lastId key = id) ∧
    ∀ settings wallClock moves,
      let t := (Traffic.start settings wallClock).run moves
      (∀ o ∈ t.operations, ∀ failure,
        ((o.outcome Hub.provider).run t.hub).1 = some (.error failure) →
          ¬ failure.IsMistranslation) ∧
      (∀ e ∈ t.errands, ∀ failure, .item (.error failure) ∈ e.told →
        ¬ failure.IsMistranslation) ∧
      ∀ e ∈ t.errands, ∀ record, .item (.ok record) ∈ e.told →
        ∃ id : EntryId, record.id = .concrete id := by
  refine ⟨?_, ?_, ?_, ?_, ?_⟩
  · intro e now request messages hread m hm
    have hfinds := e.finds_beginRead now request
    rw [hread] at hfinds
    obtain ⟨key, id, body, rfl, hbacks⟩ := hfinds.found messages rfl m hm
    exact ⟨key, id, body, rfl, Message.record_ofEntry key id body, hbacks⟩
  · intro e now wait messages hread m hm
    have hfinds := e.finds_resume now wait
    rw [hread] at hfinds
    obtain ⟨key, id, body, rfl, hbacks⟩ := hfinds.found messages rfl m hm
    exact ⟨key, id, body, rfl, Message.record_ofEntry key id body, hbacks⟩
  · intro key range window d sc hstart w moves early t late hsplit m hm
    obtain ⟨passed, given, -, haccounted⟩ :=
      (Accounted.of_start hstart).run (s := ⟨w, sc⟩) (.of_start hstart) moves
    rw [List.nil_append] at haccounted
    obtain ⟨p, store, rfl, hlast, hhas⟩ := haccounted.source early t late hsplit m hm
    exact ⟨p.1, p.2, store, rfl, Message.record_ofEntry key p.1 p.2, hlast, hhas⟩
  · intro e clock key request body reply hadd
    obtain ⟨id, rfl, hhas, hlast⟩ := e.perform_add_eq_ok hadd
    exact ⟨id, rfl, AddCommand.conclude_text id, hhas, hlast⟩
  · intro settings wallClock moves t
    have hlegible : t.Legible := (Traffic.Legible.start settings wallClock).run moves
    refine ⟨fun o ho failure hfailure => ?_, fun e he failure hitem => ?_,
      fun e he record hitem => ?_⟩
    · have houtcome := (Hub.legible.translated_outcome (hlegible.operations o ho)).run t.hub
      exact (houtcome _ hfailure).failure failure rfl
    · exact (hlegible.errands e he).told _ hitem
    · exact (hlegible.errands e he).told _ hitem

/-- A reader of a group. -/
def oneReader : Consumer := ⟨[103], [99]⟩

/-- An engine whose one entry is pending for that reader and was deleted. -/
def deletedWhilePending : Engine :=
  (World.start.run [.add [97] (some "1-1") (.ofList [([102], [118])]) (some 0),
    .createGroup [97] "0" [103], .begin ⟨[([97], ">")], none, none, false, some oneReader⟩,
    .delete [97] ["1-1"]]).engine

theorem engine_answers_translate_deletedWhilePending :
    (deletedWhilePending.beginRead 0 ⟨[([97], "0")], none, none, false, some oneReader⟩).1 =
        .returned (.ok [⟨[97], "1-1", ∅⟩]) ∧
      (Message.mk [97] "1-1" ∅).record = .ok ⟨[97], .concrete ⟨1, 1⟩, ∅⟩ ∧
      deletedWhilePending.store.Backs (some oneReader) [97] ⟨1, 1⟩ ∅ := by
  obtain ⟨hread, -⟩ := engine_answers_translate
  have hgiven : (deletedWhilePending.beginRead 0
      ⟨[([97], "0")], none, none, false, some oneReader⟩).1 =
        .returned (.ok [⟨[97], "1-1", ∅⟩]) := by
    rfl
  obtain ⟨key, id, body, hm, hrecord, hbacks⟩ := hread _ _ _ _ hgiven _ List.mem_cons_self
  injection hm with hkey htext hbody
  have hid : id = ⟨1, 1⟩ := EntryId.text_injective (htext.symm.trans (by decide +kernel))
  subst hkey hbody hid
  exact ⟨hgiven, hrecord, hbacks⟩

end StreamBroker
