import StreamBroker.Command.Plan
import StreamBroker.Proofs.Store.Backing
import StreamBroker.Proofs.World.Basic
set_option autoImplicit false

/-!
# What an engine tells can be read

An engine tells identifiers as text, and only those of entries.  So the messages of its scans and
reads are records (`Store.Finds`, `Scan.isEntry_of_next`), the replies to its additions are identifiers
(`Engine.perform_add_eq_ok`), and a refusal of its own is never that a text could not be read
(`Engine.perform_translated`).
-/

namespace StreamBroker

/-! ## Failures to translate -/

/-- A failure to translate: an identifier that did not read, or a refusal that says so of the reply
to an addition. -/
def Failure.IsMistranslation : Failure → Prop
  | .recordId _ => True
  | .server refusal => ∃ reply, refusal.message = (Refusal.unexpectedReply reply).message
  | _ => False

/-- Whatever failed, it was not the translation. -/
structure Translated {α : Type} (outcome : Except Failure α) : Prop where
  failure : ∀ failure, outcome = .error failure → ¬ failure.IsMistranslation

namespace Translated

variable {α β : Type}

theorem ok (a : α) : Translated (.ok a) := ⟨nofun⟩

theorem error {failure : Failure} (h : ¬ failure.IsMistranslation) :
    Translated (.error failure : Except Failure α) := by
  refine ⟨fun failure' heq => ?_⟩
  obtain rfl := Except.error.inj heq
  exact h

theorem bind {x : Except Failure α} {f : α → Except Failure β} (hx : Translated x)
    (hf : ∀ a, x = .ok a → Translated (f a)) : Translated (x >>= f) := by
  cases x with
  | error failure => exact .error (hx.failure failure rfl)
  | ok a => exact hf a rfl

end Translated

/-! ## Refusals -/

/-- A refusal that an engine has words of its own for. -/
def Refusal.IsOwn : Refusal → Prop
  | .unexpectedReply _ | .reported _ => False
  | _ => True

theorem fifth_append {s t : String} {c : Char} (h : s.toList[4]? = some c) :
    (s ++ t).toList[4]? = some c := by
  rw [String.toList_append, List.getElem?_append_left (List.getElem?_eq_some_iff.1 h).1, h]

/-- No wording of an engine is that of a complaint about a reply.  The fifth character tells. -/
theorem Refusal.IsOwn.message_ne {refusal : Refusal} (h : refusal.IsOwn) (reply : String) :
    refusal.message ≠ (Refusal.unexpectedReply reply).message := by
  have hreply : (Refusal.unexpectedReply reply).message.toList[4]? = some 'U' :=
    fifth_append (fifth_append (by decide +kernel))
  have hown : refusal.message.toList[4]? ≠ some 'U' := by
    cases refusal with
    | unexpectedReply | reported => cases h
    | noGroup key group =>
        have hfifth : (Refusal.noGroup key group).message.toList[4]? = some 'O' :=
          fifth_append (fifth_append (fifth_append (fifth_append (by decide +kernel))))
        rw [hfifth]
        decide
    | _ => decide +kernel
  intro heq
  rw [heq] at hown
  exact hown hreply

theorem Refusal.IsOwn.not_isMistranslation {refusal : Refusal} (h : refusal.IsOwn) :
    ¬ (Failure.server refusal).IsMistranslation := by
  rintro ⟨reply, hreply⟩
  exact h.message_ne reply hreply

/-- Refused, if at all, in the words of the engine. -/
structure InOwnWords {α : Type} (x : Except Refusal α) : Prop where
  own : ∀ refusal, x = .error refusal → refusal.IsOwn

namespace InOwnWords

variable {α β : Type}

theorem ok (a : α) : InOwnWords (.ok a) := ⟨nofun⟩

theorem error {refusal : Refusal} (h : refusal.IsOwn) :
    InOwnWords (.error refusal : Except Refusal α) := by
  refine ⟨fun refusal' heq => ?_⟩
  obtain rfl := Except.error.inj heq
  exact h

theorem map {x : Except Refusal α} (f : α → β) (h : InOwnWords x) : InOwnWords (x.map f) := by
  cases x with
  | error refusal => exact .error (h.own refusal rfl)
  | ok a => exact .ok (f a)

theorem translated {x : Except Refusal α} (h : InOwnWords x) : Translated (Engine.refusing x) := by
  cases x with
  | error refusal => exact .error (h.own refusal rfl).not_isMistranslation
  | ok a => exact .ok a

end InOwnWords

/-! ### Commands -/

namespace EntryId

theorem inOwnWords_continued (last : EntryId) : InOwnWords last.continued := by
  unfold continued
  split
  · exact .ok _
  · exact .error trivial

theorem inOwnWords_choose (last : EntryId) (now : UInt64) (r : RecordId) :
    InOwnWords (last.choose now r) := by
  cases r with
  | autoGenerate =>
      simp only [choose]
      split
      · exact .ok _
      · exact last.inOwnWords_continued
  | autoSequence millis =>
      simp only [choose]
      split
      · exact .ok _
      · split
        · exact last.inOwnWords_continued
        · exact .error trivial
  | concrete id =>
      simp only [choose]
      split
      · exact .error trivial
      · split
        · exact .error trivial
        · exact .ok id

theorem inOwnWords_next (last : EntryId) (now : UInt64) (request : Option String) :
    InOwnWords (last.next now request) := by
  unfold next requested
  cases request with
  | none => exact last.inOwnWords_choose now .autoGenerate
  | some s =>
      dsimp only
      cases RecordId.parse s with
      | error fault => exact .error trivial
      | ok r => exact last.inOwnWords_choose now r

theorem inOwnWords_readAll (ids : List String) : InOwnWords (readAll ids) := by
  induction ids with
  | nil => exact .ok []
  | cons s rest ih =>
      unfold readAll
      split
      · exact .error trivial
      · exact ih.map _

end EntryId

namespace Store

variable (s : Store) (key : Bytes)

theorem inOwnWords_add (request : Option String) (body : Body) (clock : Option UInt64) :
    InOwnWords (s.add key request body clock).1 := by
  unfold add
  split
  · exact .error trivial
  · split
    · exact .error trivial
    case h_2 now =>
      have hnext := (s.lastId key).inOwnWords_next now request
      split
      case h_1 refusal hrefused => exact .error (hnext.own refusal hrefused)
      case h_2 => exact .ok _

theorem inOwnWords_delete (ids : List String) : InOwnWords (s.delete key ids).1 := by
  unfold delete
  split
  case h_1 refusal hrefused => exact .error ((EntryId.inOwnWords_readAll ids).own refusal hrefused)
  case h_2 => split <;> exact .ok _

theorem inOwnWords_acknowledge (group : Bytes) (ids : List String) :
    InOwnWords (s.acknowledge key group ids).1 := by
  unfold acknowledge
  split
  case h_1 refusal hrefused => exact .error ((EntryId.inOwnWords_readAll ids).own refusal hrefused)
  case h_2 =>
    split
    · exact .ok _
    · split <;> exact .ok _

theorem inOwnWords_groupStart (stream : Stream) (token : String) :
    InOwnWords (groupStart stream token) := by
  unfold groupStart
  split
  · exact .ok _
  · split
    · exact .ok _
    · exact .error trivial

theorem inOwnWords_createGroup (token : String) (group : Bytes) :
    InOwnWords (s.createGroup key token group).1 := by
  unfold createGroup
  split
  · exact .error trivial
  case h_2 stream hget =>
    split
    · exact .error trivial
    · split
      case h_1 refusal hrefused =>
        exact .error ((inOwnWords_groupStart stream token).own refusal hrefused)
      case h_2 => exact .ok _

theorem inOwnWords_deleteConsumer (group consumer : Bytes) :
    InOwnWords (s.deleteConsumer key group consumer).1 := by
  unfold deleteConsumer
  split
  · exact .error trivial
  · split
    · exact .error trivial
    · split <;> exact .ok _

theorem inOwnWords_destroyGroup (group : Bytes) : InOwnWords (s.destroyGroup key group).1 := by
  unfold destroyGroup
  split
  · exact .error trivial
  · exact .ok _

end Store

/-! ### Scans and reads -/

theorem Bound.inOwnWords_read (missing : UInt64) (b : Bound String) :
    InOwnWords (b.read missing) := by
  unfold read
  split
  · exact .ok _
  all_goals
    split
    · exact .ok _
    · exact .error trivial

theorem Scan.inOwnWords_start (key : Bytes) (range : Range) (window : Option Window)
    (d : Direction) : InOwnWords (start key range window d) := by
  unfold start
  split
  case h_1 refusal hrefused => exact .error ((range.lower.inOwnWords_read 0).own refusal hrefused)
  case h_2 =>
    split
    case h_1 refusal hrefused => exact .error ((range.upper.inOwnWords_read _).own refusal hrefused)
    case h_2 => exact .ok _

namespace Store

theorem inOwnWords_resolveCursor (s : Store) (inGroup : Bool) (key : Bytes) (token : String) :
    InOwnWords (s.resolveCursor inGroup key token) := by
  unfold resolveCursor
  split
  · split
    · exact .error trivial
    · exact .ok _
  · split
    · split
      · exact .ok _
      · exact .error trivial
    · split
      · exact .ok _
      · exact .error trivial

theorem inOwnWords_resolve (s : Store) (inGroup : Bool) (offsets : List (Bytes × String)) :
    InOwnWords (s.resolve inGroup offsets) := by
  induction offsets with
  | nil => exact .ok []
  | cons offset rest ih =>
      unfold resolve
      split
      case h_1 refusal hrefused =>
        exact .error ((s.inOwnWords_resolveCursor inGroup _ _).own refusal hrefused)
      case h_2 => exact ih.map _

theorem inOwnWords_attempt (s : Store) (reader? : Option Consumer) (count : Option UInt64)
    (noAck : Bool) (cursors : List (Bytes × Cursor)) :
    InOwnWords (s.attempt reader? count noAck cursors).1 := by
  cases reader? with
  | none => exact .ok _
  | some consumer =>
      rw [attempt, readGroup_eq]
      dsimp only
      split
      · exact .ok _
      · exact .error trivial

end Store

/-! ## Messages -/

/-- A message that tells an entry. -/
def Message.IsEntry (m : Message) : Prop := ∃ key id body, m = .ofEntry key id body

/-- A message that tells what a reader found in a store. -/
def Message.IsFound (m : Message) (s : Store) (reader? : Option Consumer) : Prop :=
  ∃ key id body, m = .ofEntry key id body ∧ s.Backs reader? key id body

theorem Message.IsFound.isEntry {m : Message} {s : Store} {reader? : Option Consumer}
    (h : m.IsFound s reader?) : m.IsEntry := by
  obtain ⟨key, id, body, hm, -⟩ := h
  exact ⟨key, id, body, hm⟩

/-- What a read gave is what its reader found in the store, or a refusal in the engine's own
words. -/
structure Store.Finds (s : Store) (reader? : Option Consumer)
    (outcome : Except Refusal (List Message)) : Prop where
  found : ∀ messages, outcome = .ok messages → ∀ m ∈ messages, m.IsFound s reader?
  inOwnWords : InOwnWords outcome

theorem Store.finds_nothing (s : Store) (reader? : Option Consumer) : s.Finds reader? (.ok []) := by
  refine ⟨fun messages h => ?_, .ok []⟩
  obtain rfl := Except.ok.inj h
  exact List.forall_mem_nil _

theorem Store.finds_attempt (s : Store) (reader? : Option Consumer) (count : Option UInt64)
    (noAck : Bool) (cursors : List (Bytes × Cursor)) :
    s.Finds reader? (s.attempt reader? count noAck cursors).1 :=
  ⟨fun _ => attempt_backs, s.inOwnWords_attempt reader? count noAck cursors⟩

/-- A scan gives entries, whatever store it is at. -/
theorem Scan.isEntry_of_next {sc rest : Scan} {store : Store} {m : Message}
    (h : sc.next store = (some m, rest)) : m.IsEntry := by
  have hwithin : ∀ pages (sc : Scan), nextWithin store pages sc = (some m, rest) → m.IsEntry := by
    intro pages
    induction pages with
    | zero =>
        intro sc h
        cases h
    | succ pages ih =>
        intro sc h
        unfold nextWithin at h
        obtain ⟨skipped, p, page, -, -, -, hadvance⟩ | ⟨-, -, -, hadvance⟩ | ⟨hadvance, -⟩ :=
          sc.advance_cases
        · rw [hadvance] at h
          cases h
          exact ⟨_, _, _, rfl⟩
        · rw [hadvance] at h
          exact ih _ h
        · rw [hadvance] at h
          cases h
  exact hwithin _ sc h

/-! ## The engine -/

namespace Engine

variable (e : Engine)

theorem inOwnWords_add (key : Bytes) (request : Option String) (body : Body)
    (clock : Option UInt64) : InOwnWords (e.add key request body clock).1 := by
  have hadd := e.store.inOwnWords_add key request body clock
  unfold add
  split
  case h_1 refusal store hrefused =>
    rw [hrefused] at hadd
    exact hadd
  case h_2 => exact .ok _

/-- No call fails because a text could not be read. -/
theorem perform_translated {k : ReplyKind} (clock : Option UInt64) (call : Call k) :
    Translated (e.perform clock call).1 := by
  cases call with
  | add key request body => exact ((e.inOwnWords_add key request body clock).map _).translated
  | acknowledge key group ids =>
      exact (e.store.inOwnWords_acknowledge key group ids).translated
  | delete key ids => exact (e.store.inOwnWords_delete key ids).translated
  | length | trim => exact .ok _
  | createGroup key token group =>
      exact ((e.store.inOwnWords_createGroup key token group).map _).translated
  | deleteConsumer key consumer =>
      exact (e.store.inOwnWords_deleteConsumer key consumer.group consumer.name).translated
  | destroyGroup key group => exact (e.store.inOwnWords_destroyGroup key group).translated

/-- The reply to an addition is the identifier of the entry that was added. -/
theorem perform_add_eq_ok {clock : Option UInt64} {key : Bytes} {request : Option String}
    {body : Body} {reply : String}
    (h : (e.perform clock (.add key request body)).1 = .ok reply) :
    ∃ id : EntryId, reply = id.text ∧
      (e.perform clock (.add key request body)).2.store.Has key (id, body) ∧
      (e.perform clock (.add key request body)).2.store.lastId key = id := by
  have hrun : e.perform clock (.add key request body) =
      (refusing ((e.add key request body clock).1.map EntryId.text),
        (e.add key request body clock).2) := rfl
  rw [hrun] at h ⊢
  unfold add at h ⊢
  rcases hadd : e.store.add key request body clock with ⟨refusal | id, store⟩
  · rw [hadd] at h
    cases h
  · rw [hadd] at h
    obtain rfl := Except.ok.inj h
    obtain ⟨-, rfl⟩ := Store.add_eq_ok hadd
    refine ⟨id, rfl, ⟨_, SortedMap.get?_insert_self .., SortedMap.get?_insert_self ..⟩, ?_⟩
    dsimp only
    rw [Store.lastId, SortedMap.get?_insert_self]
    rfl

/-- A read that would have to wait though its time is up was given nothing, like one that waits. -/
theorem tryRead_outcome (now : Nat) (r : Reading) :
    (e.tryRead now r).1.outcome = (e.store.attempt r.consumer r.count r.noAck r.cursors).1 := by
  rw [← attempt_outcome]
  unfold tryRead
  rcases e.attempt r with ⟨outcome | wait, engine⟩
  · rfl
  · dsimp only
    split <;> rfl

theorem finds_tryRead (now : Nat) (r : Reading) :
    e.store.Finds r.consumer (e.tryRead now r).1.outcome := by
  rw [tryRead_outcome]
  exact e.store.finds_attempt ..

/-- A read that begins gives what its reader finds. -/
theorem finds_beginRead (now : Nat) (request : ReadRequest) :
    e.store.Finds request.consumer (e.beginRead now request).1.outcome := by
  have hresolve := e.store.inOwnWords_resolve request.consumer.isSome request.offsets
  unfold beginRead
  split
  case h_1 refusal hrefused => exact ⟨nofun, .error (hresolve.own refusal hrefused)⟩
  case h_2 cursors hcursors => exact e.finds_tryRead now (request.reading now cursors)

/-- So does a read that goes on. -/
theorem finds_resume (now : Nat) (wait : Wait) :
    e.store.Finds wait.reading.consumer (e.resume now wait).1.outcome := by
  unfold resume
  split
  · exact (e.dismiss wait).finds_tryRead now wait.reading
  · split <;> exact e.store.finds_nothing _

end Engine

/-- What an addition is answered is the record identifier of its entry. -/
theorem AddCommand.conclude_text (id : EntryId) : conclude id.text = .ok (.concrete id) := by
  have hparse : RecordId.parse id.text = .ok (.concrete id) := RecordId.parse_text (.concrete id)
  rw [conclude, hparse]

end StreamBroker
