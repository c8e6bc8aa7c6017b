import StreamBroker.Proofs.Engine.Refusals
import StreamBroker.Proofs.Front.Askings
import StreamBroker.Proofs.Store.Striking
import StreamBroker.Proofs.Text.Shorthands
set_option autoImplicit false

/-!
# What clients name is what the engine takes

Identifiers and offsets travel as text, where `$`, `>`, `-`, `+` and `*` stand beside identifiers.
None of these is printed for an identifier of an entry, and a store reads nothing that is printed
with an open part (`RecordId.ofText?_text`).  So a list of identifiers arrives as it was sent or is
refused as a whole, and a deletion or an acknowledgement goes through exactly the identifiers that
its client named (`StruckAsNamed`).  Offsets arrive in their places, each at the cursor that it
stands for (`Offset.Stands`), unless one of them has no meaning in a read of its kind
(`Offset.Misplaced`).
-/

namespace StreamBroker

/-! ## Identifiers -/

namespace RecordId

/-- The entry that an identifier names, if it has no open part. -/
def entry? : RecordId → Option EntryId
  | concrete id => some id
  | _ => none

theorem entry?_eq_none_iff {r : RecordId} : r.entry? = none ↔ r.isConcrete = false := by
  cases r with
  | concrete id => exact ⟨nofun, nofun⟩
  | autoSequence millis => exact ⟨fun _ => rfl, fun _ => rfl⟩
  | autoGenerate => exact ⟨fun _ => rfl, fun _ => rfl⟩

/-- A store reads what is printed for an identifier as the entry that it names. -/
theorem ofText?_text (missing : UInt64) (r : RecordId) :
    EntryId.ofText? missing r.text = r.entry? := by
  cases hopen : r.isConcrete with
  | false =>
      have hspells : Spells r.text.toList r := ofChars_eq_ok_iff.1 (parse_text r)
      rw [entry?_eq_none_iff.2 hopen]
      exact EntryId.read?_of_any (EntryId.any_mem_of_spells hspells hopen)
  | true =>
      cases r with
      | concrete id => exact EntryId.ofText?_text missing id
      | autoSequence | autoGenerate => cases hopen

/-- No identifier is printed as a token that clients do not read. -/
theorem text_ne {r : RecordId} {token : String} {fault : IdFault} (h : parse token = .error fault) :
    r.text ≠ token := by
  intro heq
  rw [← heq, parse_text] at h
  cases h

theorem readAll_texts_concrete (entries : List EntryId) :
    EntryId.readAll (texts (entries.map concrete)) = .ok entries := by
  rw [texts_eq_map]
  induction entries with
  | nil => rfl
  | cons id rest ih =>
      have hread : EntryId.ofText? 0 (concrete id).text = some id := ofText?_text 0 (.concrete id)
      rw [List.map_cons, List.map_cons, EntryId.readAll, hread]
      simp only [ih]
      rfl

theorem readAll_texts_open {ids : List RecordId} (h : ∃ r ∈ ids, r.isConcrete = false) :
    EntryId.readAll (texts ids) = .error .invalidId := by
  obtain ⟨r, hr, hopen⟩ := h
  refine EntryId.readAll_of_not_reads ⟨r.text, ?_, ?_⟩
  · rw [texts_eq_map]
    exact List.mem_map_of_mem hr
  · rw [ofText?_text, entry?_eq_none_iff.2 hopen]

end RecordId

/-! ## Striking out what clients name -/

/-- Identifiers are named by a client to be struck out at a place.  If they are all of entries, each
is looked for in the order and as often as they were named, and nothing else changes.  If one has an
open part nothing is struck out, and if there are none nobody is asked. -/
structure StruckAsNamed (h : Hub) (p : Place) (ids : List RecordId)
    (done : Except Failure Nat × Hub) : Prop where
  named : ∀ entries, entries ≠ [] → ids = entries.map .concrete → ∃ told t,
    done = (.ok told, { h.count .shared with engine := { h.engine with store := t } }) ∧
      h.engine.store.Thinned p (SortedMap.Erased entries) t told
  opened : (∃ r ∈ ids, r.isConcrete = false) →
    done = (.error (.server .invalidId), h.count .shared)
  nothing : ids = [] → done = (.error (.contract (.empty .recordIds)), h)

section Strikes

variable {C : Type} {plan : C → Except Failure (Plan Nat)} {c : C} {p : Place}
  {ids : List RecordId}

/-- A command that strikes out what its identifiers say, and is at fault if there are none. -/
def PlansStrike (plan : C → Except Failure (Plan Nat)) (c : C) (p : Place) (ids : List RecordId) :
    Prop :=
  plan c = (requireSome .recordIds ids).map fun _ => ⟨.count, p.strike (RecordId.texts ids), .ok⟩

/-- Over a hub such a command is what the engine makes of its texts. -/
theorem PlansStrike.run_execute (h : PlansStrike plan c p ids) (hids : ids ≠ []) (hub : Hub) :
    (Ordered.execute Hub.provider plan c).run hub =
      ((hub.engine.perform hub.wallClock (p.strike (RecordId.texts ids))).1,
        { hub.count .shared with
          engine := (hub.engine.perform hub.wallClock (p.strike (RecordId.texts ids))).2 }) := by
  have hplan : plan c = .ok ⟨.count, p.strike (RecordId.texts ids), .ok⟩ := by
    rw [h, requireSome_of_ne_nil hids]
    rfl
  have hconclude : ∀ reply : Except Failure Nat, reply >>= Except.ok = reply := by
    intro reply
    cases reply <;> rfl
  unfold Ordered.execute
  rw [hplan]
  cases p with
  | entries key => exact congrArg (·, _) (hconclude _)
  | group key name => exact congrArg (·, _) (hconclude _)

theorem PlansStrike.struckAsNamed (h : PlansStrike plan c p ids) (hub : Hub) :
    StruckAsNamed hub p ids ((Ordered.execute Hub.provider plan c).run hub) := by
  refine ⟨fun entries hentries hnamed => ?_, fun hopen => ?_, fun hnone => ?_⟩
  · subst hnamed
    obtain ⟨told, t, hthinned, hperform⟩ :=
      hub.engine.perform_in_turn p (RecordId.readAll_texts_concrete entries)
    refine ⟨told, t, ?_, hthinned⟩
    rw [h.run_execute (by simpa using hentries), hperform]
  · have hids : ids ≠ [] := by
      rintro rfl
      obtain ⟨r, hr, -⟩ := hopen
      cases hr
    have hread := RecordId.readAll_texts_open hopen
    rw [h.run_execute hids]
    cases p with
    | entries key =>
        simp only [Place.strike, Engine.perform, Engine.delete, Store.delete, hread]
        rfl
    | group key name =>
        simp only [Place.strike, Engine.perform, Engine.acknowledge, Store.acknowledge, hread]
        rfl
  · subst hnone
    unfold Ordered.execute
    rw [h]
    rfl

theorem DeleteCommand.plansStrike (key : Bytes) (ids : List RecordId) :
    PlansStrike DeleteCommand.plan ⟨some key, ids⟩ (.entries key) ids := by
  cases ids <;> rfl

theorem AcknowledgeCommand.plansStrike (key : Bytes) (group : String) (ids : List RecordId) :
    PlansStrike AcknowledgeCommand.plan ⟨some key, some group, ids⟩ (.group key (.ofText group))
      ids := by
  cases ids <;> rfl

end Strikes

/-! ## Offsets -/

/-- What an offset of a key stands for in a read, by a group or not. -/
inductive Offset.Stands (s : Store) (key : Bytes) : Bool → Offset → Cursor → Prop where
  | behind {inGroup : Bool} {id : EntryId} :
      Stands s key inGroup (.after (.concrete id)) (.after id)
  | latest : Stands s key false .latest (.after (s.lastId key))
  | undelivered : Stands s key true .lastConsumed .undelivered

/-- An offset has no meaning in a read, by a group or not. -/
def Offset.Misplaced (inGroup : Bool) : Offset → Prop
  | .latest => inGroup = true
  | .lastConsumed => inGroup = false
  | .after r => r.isConcrete = false

/-- Cursors stand in the places of offsets, under their keys. -/
inductive Offset.AllStand (s : Store) (inGroup : Bool) :
    List (Bytes × Offset) → List (Bytes × Cursor) → Prop where
  | nothing : AllStand s inGroup [] []
  | next {key : Bytes} {o : Offset} {cursor : Cursor} {offsets : List (Bytes × Offset)}
      {cursors : List (Bytes × Cursor)} (h : o.Stands s key inGroup cursor)
      (hrest : AllStand s inGroup offsets cursors) :
      AllStand s inGroup ((key, o) :: offsets) ((key, cursor) :: cursors)

section Offsets

variable {s : Store} {key : Bytes} {inGroup : Bool} {o : Offset} {cursor : Cursor}
  {offsets : List (Bytes × Offset)} {cursors : List (Bytes × Cursor)}

theorem Store.resolveCursor_after (s : Store) (inGroup : Bool) (key : Bytes) (r : RecordId) :
    s.resolveCursor inGroup key (Offset.after r).token =
      r.entry?.elim (.error .invalidId) fun id => .ok (.after id) := by
  have hlatest : r.text ≠ "$" := RecordId.text_ne rfl
  have hundelivered : r.text ≠ ">" := RecordId.text_ne rfl
  unfold resolveCursor
  simp only [Offset.token, if_neg hlatest, if_neg hundelivered, RecordId.ofText?_text]
  cases r.entry? <;> rfl

/-- What is resolved from the token of an offset is what the offset stands for. -/
theorem Offset.resolveCursor_eq_ok_iff :
    s.resolveCursor inGroup key o.token = .ok cursor ↔ o.Stands s key inGroup cursor := by
  cases o with
  | latest =>
      cases inGroup with
      | false =>
          refine ⟨fun h => ?_, ?_⟩
          · cases h
            exact .latest
          · rintro ⟨⟩
            rfl
      | true => exact ⟨nofun, nofun⟩
  | lastConsumed =>
      cases inGroup with
      | false => exact ⟨nofun, nofun⟩
      | true =>
          refine ⟨fun h => ?_, ?_⟩
          · cases h
            exact .undelivered
          · rintro ⟨⟩
            rfl
  | after r =>
      rw [s.resolveCursor_after]
      cases r with
      | concrete id =>
          refine ⟨fun h => ?_, ?_⟩
          · cases h
            exact .behind
          · rintro ⟨⟩
            rfl
      | autoSequence | autoGenerate => exact ⟨nofun, nofun⟩

theorem Offset.exists_stands_iff (s : Store) (key : Bytes) :
    (∃ cursor, o.Stands s key inGroup cursor) ↔ ¬ o.Misplaced inGroup := by
  cases o with
  | latest =>
      cases inGroup with
      | false => exact ⟨fun _ => nofun, fun _ => ⟨_, .latest⟩⟩
      | true => exact ⟨nofun, fun h => absurd rfl h⟩
  | lastConsumed =>
      cases inGroup with
      | false => exact ⟨nofun, fun h => absurd rfl h⟩
      | true => exact ⟨fun _ => nofun, fun _ => ⟨_, .undelivered⟩⟩
  | after r =>
      cases r with
      | concrete id => exact ⟨fun _ => nofun, fun _ => ⟨_, .behind⟩⟩
      | autoSequence | autoGenerate => exact ⟨nofun, fun h => absurd rfl h⟩

/-- Cursors are resolved from the tokens of offsets if and only if they stand in their places. -/
theorem Offset.resolve_tokens_eq_ok_iff :
    s.resolve inGroup (Offset.tokens offsets) = .ok cursors ↔
      Offset.AllStand s inGroup offsets cursors := by
  constructor
  · intro hresolve
    induction offsets generalizing cursors with
    | nil =>
        obtain rfl := Except.ok.inj hresolve
        exact .nothing
    | cons o rest ih =>
        obtain ⟨cursor, later, rfl, hcursor, hlater⟩ := Store.resolve_cons_eq_ok hresolve
        exact .next (Offset.resolveCursor_eq_ok_iff.1 hcursor) (ih hlater)
  · intro hstand
    induction hstand with
    | nothing => rfl
    | @next key o cursor offsets cursors h _ ih =>
        have htokens :
            Offset.tokens ((key, o) :: offsets) = (key, o.token) :: Offset.tokens offsets := rfl
        rw [htokens, Store.resolve, Offset.resolveCursor_eq_ok_iff.2 h]
        simp only [ih]
        rfl

theorem Offset.exists_allStand_iff :
    (∃ cursors, Offset.AllStand s inGroup offsets cursors) ↔
      ∀ o ∈ offsets, ¬ o.2.Misplaced inGroup := by
  induction offsets with
  | nil => exact ⟨fun _ => nofun, fun _ => ⟨[], .nothing⟩⟩
  | cons o rest ih =>
      obtain ⟨key, o⟩ := o
      rw [List.forall_mem_cons, ← ih, ← Offset.exists_stands_iff s key]
      constructor
      · rintro ⟨_, h⟩
        cases h with
        | next h hrest => exact ⟨⟨_, h⟩, ⟨_, hrest⟩⟩
      · rintro ⟨⟨cursor, h⟩, ⟨cursors, hrest⟩⟩
        exact ⟨_, .next h hrest⟩

/-- A read is refused if and only if one of its offsets has no meaning in it, wherever it stands. -/
theorem Offset.exists_resolve_tokens_eq_error_iff :
    (∃ refusal, s.resolve inGroup (Offset.tokens offsets) = .error refusal) ↔
      ∃ o ∈ offsets, o.2.Misplaced inGroup := by
  have hnot : (∃ refusal, s.resolve inGroup (Offset.tokens offsets) = .error refusal) ↔
      ¬ ∃ cursors, s.resolve inGroup (Offset.tokens offsets) = .ok cursors := by
    cases s.resolve inGroup (Offset.tokens offsets) with
    | error refusal => simp
    | ok cursors => simp
  simp only [hnot, Offset.resolve_tokens_eq_ok_iff, Offset.exists_allStand_iff]
  simp

/-- A read command is sent with the tokens of its offsets, and as one of a group if it names a
consumer. -/
theorem ReadCommand.request_of_query {c : ReadCommand} {route : Route} {request : ReadRequest}
    (h : c.query = .ok (route, .read request)) :
    request.offsets = Offset.tokens c.offsets ∧ request.consumer.isSome = c.consumer.isSome := by
  obtain ⟨-, -, h⟩ := exists_of_bind_eq_ok h
  obtain ⟨options, -, h⟩ := exists_of_bind_eq_ok h
  cases h
  exact ⟨rfl, Option.isSome_map⟩

end Offsets

/-- Whatever is named: a list of identifiers of entries, however long, is read by a store as the
same identifiers in the same places, and a list in which some identifier has an open part is not
read.  So a deletion or an acknowledgement goes through exactly the identifiers that its client
named, in their order and as often as they were named, or strikes out nothing.

A read is sent with a token for each of its offsets.  Whatever is in the store, and in reads by a
group and others: the tokens are resolved to cursors in the same places under the same keys, each
where its offset stands, and they are refused exactly if some offset has no meaning in the read. -/
theorem taken_as_named :
    (∀ entries : List EntryId,
      EntryId.readAll (RecordId.texts (entries.map .concrete)) = .ok entries) ∧
    (∀ ids : List RecordId, (∃ r ∈ ids, r.isConcrete = false) →
      EntryId.readAll (RecordId.texts ids) = .error .invalidId) ∧
    (∀ (hub : Hub) (key : Bytes) (group : String) (ids : List RecordId),
      StruckAsNamed hub (.entries key) ids
        ((Ordered.execute Hub.provider DeleteCommand.plan ⟨some key, ids⟩).run hub) ∧
      StruckAsNamed hub (.group key (.ofText group)) ids
        ((Ordered.execute Hub.provider AcknowledgeCommand.plan ⟨some key, some group, ids⟩).run
          hub)) ∧
    (∀ (c : ReadCommand) (route : Route) (request : ReadRequest),
      c.query = .ok (route, .read request) →
      request.offsets = Offset.tokens c.offsets ∧ request.consumer.isSome = c.consumer.isSome) ∧
    ∀ (s : Store) (inGroup : Bool) (offsets : List (Bytes × Offset)),
      (∀ cursors, s.resolve inGroup (Offset.tokens offsets) = .ok cursors ↔
        Offset.AllStand s inGroup offsets cursors) ∧
      ((∃ refusal, s.resolve inGroup (Offset.tokens offsets) = .error refusal) ↔
        ∃ o ∈ offsets, o.2.Misplaced inGroup) := by
  refine ⟨RecordId.readAll_texts_concrete, fun _ => RecordId.readAll_texts_open,
    fun hub key group ids => ⟨?_, ?_⟩, fun _ _ _ => ReadCommand.request_of_query,
    fun s inGroup offsets =>
      ⟨fun _ => Offset.resolve_tokens_eq_ok_iff, Offset.exists_resolve_tokens_eq_error_iff⟩⟩
  · exact (DeleteCommand.plansStrike key ids).struckAsNamed hub
  · exact (AcknowledgeCommand.plansStrike key group ids).struckAsNamed hub

/-- One identifier alone, one with an open part behind it, and a read by a group from `$`. -/
theorem taken_as_named_openMillisecond :
    EntryId.readAll (RecordId.texts [.concrete ⟨5, 0⟩]) = .ok [⟨5, 0⟩] ∧
      (∃ r ∈ [RecordId.concrete ⟨5, 0⟩, .autoSequence 7], r.isConcrete = false) ∧
      EntryId.readAll (RecordId.texts [.concrete ⟨5, 0⟩, .autoSequence 7]) = .error .invalidId ∧
      ((Ordered.execute Hub.provider DeleteCommand.plan
        ⟨some [97], [.concrete ⟨5, 0⟩, .autoSequence 7]⟩).run (Hub.start default 0)).1 =
          .error (.server .invalidId) ∧
      (∃ request, ReadCommand.query
          ⟨[([97], .lastConsumed), ([98], .latest)], some ReadOptions.none, some ⟨"g", "c"⟩⟩ =
            .ok (.shared, .read request) ∧
        request.offsets = [([97], ">"), ([98], "$")] ∧
        ∃ refusal, Store.resolve ∅ request.consumer.isSome request.offsets = .error refusal) := by
  obtain ⟨hread, hopen, hstruck, hquery, hresolve⟩ := taken_as_named
  have hmem : ∃ r ∈ [RecordId.concrete ⟨5, 0⟩, .autoSequence 7], r.isConcrete = false :=
    ⟨.autoSequence 7, by decide, rfl⟩
  obtain ⟨hdelete, -⟩ := hstruck (Hub.start default 0) [97] "g" [.concrete ⟨5, 0⟩, .autoSequence 7]
  obtain ⟨request, hsent⟩ : ∃ request, ReadCommand.query
      ⟨[([97], .lastConsumed), ([98], .latest)], some ReadOptions.none, some ⟨"g", "c"⟩⟩ =
        .ok (.shared, .read request) := ⟨_, rfl⟩
  obtain ⟨hoffsets, hconsumer⟩ := hquery _ _ _ hsent
  refine ⟨hread [⟨5, 0⟩], hmem, hopen _ hmem, congrArg Prod.fst (hdelete.opened hmem), request,
    hsent, hoffsets, ?_⟩
  obtain ⟨-, hrefused⟩ := hresolve ∅ true [([97], .lastConsumed), ([98], .latest)]
  rw [hconsumer, hoffsets]
  exact hrefused.2 ⟨([98], .latest), by decide, rfl⟩

end StreamBroker
