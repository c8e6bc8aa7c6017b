import StreamBroker.Proofs.Store.History
import StreamBroker.Proofs.World.Ledger
set_option autoImplicit false

/-!
# Reading again what is pending

A consumer that comes back reads from `0-0` on what is pending for it, all at once or page by page,
each page behind the last message that it received (`Engine.leafThrough`).  Nothing is pending under
`0-0` in an engine in use (`least_lt_of_pending`), and reading what is pending leaves it as it is, so
the pages are pieces of one list.
-/

namespace StreamBroker

variable {key : Bytes} {consumer : Consumer} {g : Group} {token : String} {start : EntryId}

/-! ## Pending entries lie above `0-0` -/

theorem least_lt_of_pending {moves : List Move} {group : Bytes} {id : EntryId} {name : Bytes}
    (hg : (World.start.run moves).store.group? key group = some g)
    (hpending : g.pending.get? id = some name) : .least < id := by
  have hthere : ((World.start.run moves).store.group? key group).isSome := by
    rw [hg]
    rfl
  rcases there_or_created hthere with ⟨hstart, -⟩ | ⟨past, token, life, rfl, hmade, hlive⟩
  · cases hstart
  · rw [World.run_born] at hg
    obtain ⟨g', hg', hbalanced⟩ := balanced_life hmade hlive
    obtain rfl := Option.some.inj (hg.symm.trans hg')
    exact least_lt_of_outstanding hmade hlive ((hbalanced.pending id name).1 hpending)

/-- From `0-0` on the history of a consumer has all that it holds. -/
theorem mem_history_least {moves : List Move} {p : EntryId × Body} :
    let s := (World.start.run moves).store
    p ∈ s.history key consumer .least ↔
      s.Holds key consumer p.1 ∧ (s.Has key p ∨ s.Lacks key p.1 ∧ p.2 = ∅) := by
  intro s
  rw [Store.mem_history]
  refine ⟨fun h => ⟨h.held, h.body⟩, fun ⟨hheld, hbody⟩ => ⟨?_, hheld, hbody⟩⟩
  obtain ⟨g, hg, hpending⟩ := hheld
  exact least_lt_of_pending hg hpending

/-! ## Reading a history -/

/-- What reads as an identifier puts a cursor there, in a group as well. -/
theorem Store.resolveCursor_of_ofText? (s : Store) (inGroup : Bool) (key : Bytes)
    (h : EntryId.ofText? 0 token = some start) :
    s.resolveCursor inGroup key token = .ok (.after start) := by
  have hlatest : token ≠ "$" := by
    rintro rfl
    cases h
  have hundelivered : token ≠ ">" := by
    rintro rfl
    cases h
  unfold resolveCursor
  rw [if_neg hlatest, if_neg hundelivered, h]

namespace Engine

/-- A read of a history returns at once, and the consumer is known from then on. -/
theorem beginRead_history (e : Engine) (now : Nat)
    (hgroup : e.store.group? key consumer.group = some g)
    (htoken : EntryId.ofText? 0 token = some start) (block count : Option UInt64) (noAck : Bool) :
    ∃ t, e.store.Joined t key consumer ∧
      e.beginRead now ⟨[(key, token)], block, count, noAck, some consumer⟩ =
        (.returned (.ok ((takeCount count (e.store.history key consumer start)).map fun p =>
          .ofEntry key p.1 p.2)), { e with store := t }) := by
  have hnothing : e.store.attempt (some consumer) count noAck [] = (.ok [], e.store) := rfl
  obtain ⟨t, hjoined, hattempt⟩ := Store.attempt_history hnothing hgroup start
  have hresolve : e.store.resolve true [(key, token)] = .ok [(key, .after start)] := by
    unfold Store.resolve
    simp only [e.store.resolveCursor_of_ofText? true key htoken]
    rfl
  have htaken : e.store.attempt (some consumer) count noAck [(key, .after start)] =
      (.ok ((takeCount count (e.store.history key consumer start)).map fun p =>
        .ofEntry key p.1 p.2), t) := by
    refine (hattempt []).trans (Prod.ext ?_ rfl)
    exact congrArg Except.ok (List.append_nil _)
  refine ⟨t, hjoined, ?_⟩
  unfold beginRead
  simp only [Option.isSome_some, hresolve]
  rcases e.attempt_cases (ReadRequest.reading ⟨[(key, token)], block, count, noAck, some consumer⟩
    now [(key, .after start)]) with hover | ⟨-, hwait, -⟩
  · simp only [tryRead, hover, tried]
    exact congrArg (fun r => (Progress.returned r.1, ({ e with store := r.2 } : Engine))) htaken
  · -- a cursor at an identifier never waits
    simp [ReadRequest.reading] at hwait

/-- Goes through the history of a consumer page by page, each read behind the last message that was
received. -/
def leafThrough (now : Nat) (key : Bytes) (consumer : Consumer) (block : Option UInt64)
    (noAck : Bool) : List (Option UInt64) → String → Engine → List (List Message)
  | [], _, _ => []
  | count :: counts, token, e =>
    match e.beginRead now ⟨[(key, token)], block, count, noAck, some consumer⟩ with
    | (.returned (.ok page), e') =>
      page :: leafThrough now key consumer block noAck counts
        ((page.getLast?.map (·.id)).getD token) e'
    | _ => []

/-- The pages are the history, cut by their counts. -/
theorem leafThrough_eq (now : Nat) (block : Option UInt64) (noAck : Bool)
    (counts : List (Option UInt64)) {e : Engine}
    (hgroup : e.store.group? key consumer.group = some g)
    (htoken : EntryId.ofText? 0 token = some start) :
    leafThrough now key consumer block noAck counts token e =
      (cutUp counts (e.store.history key consumer start)).map fun piece =>
        piece.map fun p => .ofEntry key p.1 p.2 := by
  induction counts generalizing e g token start with
  | nil => rfl
  | cons count counts ih =>
      obtain ⟨t, hjoined, hread⟩ := e.beginRead_history now hgroup htoken block count noAck
      have hkept := hjoined.history_eq hgroup
      unfold leafThrough
      simp only [hread]
      rw [cutUp, List.map_cons]
      refine congrArg (_ :: ·) ?_
      -- an empty page leaves the place where it is, any other moves it behind its last entry
      rw [List.getLast?_map]
      cases hlast : (takeCount count (e.store.history key consumer start)).getLast? with
      | none =>
          have hnothing := List.getLast?_eq_none_iff.1 hlast
          rw [hnothing, List.length_nil, List.drop_zero, ← hkept]
          exact ih (hjoined.known g hgroup) htoken
      | some p =>
          rw [← Store.history_behind_page hlast, ← hkept]
          exact ih (hjoined.known g hgroup) (EntryId.ofText?_text 0 p.1)

end Engine

/-- A cursor of a group read that stands at an identifier gets, when its turn comes, the first of what
is then pending for its consumer behind the identifier, as many entries as are counted, each with the
body that is stored or with an empty one if the entry is gone.  The consumer is known to the group from
then on, and nothing else has changed.  So in an engine in use a read from `0-0` on without a limit
returns what is pending for the consumer and nothing else, and page by page it is returned without
gaps or repeats: in pieces cut as they are counted, and wholly where there are as many pieces as
entries, or one without a limit. -/
theorem history_is_pending (consumer : Consumer) :
    (∀ s t count noAck earlier before key g start,
      Store.attempt s (some consumer) count noAck earlier = (.ok before, t) →
      t.group? key consumer.group = some g →
      ∃ entries u, (∀ l, Foremost (t.InHistory key consumer start) count l ↔ l = entries) ∧
        Store.group? u key consumer.group =
          some { g with consumers := g.consumers.insert consumer.name () } ∧
        (∀ place, place ≠ .group key consumer.group → u.Alike t place) ∧
        ∀ later, s.attempt (some consumer) count noAck (earlier ++ (key, .after start) :: later) =
          ((u.attempt (some consumer) count noAck later).1.map fun rest =>
              before ++ (entries.map fun p => .ofEntry key p.1 p.2) ++ rest,
            (u.attempt (some consumer) count noAck later).2)) ∧
      ∀ moves key g, (World.start.run moves).store.group? key consumer.group = some g →
        let w := World.start.run moves
        ∃ held : List (EntryId × Body), (held.Pairwise fun p q => p.1 < q.1) ∧
          (∀ p, p ∈ held ↔ w.store.Holds key consumer p.1 ∧
            (w.store.Has key p ∨ w.store.Lacks key p.1 ∧ p.2 = ∅)) ∧
          ∀ now block noAck token, EntryId.ofText? 0 token = some .least →
            (∀ count, Unlimited count →
              (w.engine.beginRead now ⟨[(key, token)], block, count, noAck, some consumer⟩).1 =
                .returned (.ok (held.map fun p => .ofEntry key p.1 p.2))) ∧
            ∀ counts,
              Engine.leafThrough now key consumer block noAck counts token w.engine =
                  ((cutUp counts held).map fun piece => piece.map fun p => .ofEntry key p.1 p.2) ∧
                (cutUp counts held).flatten <+: held ∧
                (held.length ≤ counts.length ∨ (∃ count ∈ counts, Unlimited count) →
                  (cutUp counts held).flatten = held) := by
  constructor
  · intro s t count noAck earlier before key g start hearlier hgroup
    obtain ⟨u, hjoined, hgoes⟩ := Store.attempt_history hearlier hgroup start
    exact ⟨_, u, t.foremost_history_iff key consumer start count, hjoined.known g hgroup,
      hjoined.others, hgoes⟩
  · intro moves key g hgroup w
    refine ⟨w.store.history key consumer .least, w.store.pairwise_history .., fun p => ?_, ?_⟩
    · exact mem_history_least
    · intro now block noAck token htoken
      refine ⟨fun count hall => ?_, fun counts => ⟨?_, flatten_cutUp_isPrefix .., flatten_cutUp⟩⟩
      · obtain ⟨t, -, hread⟩ := w.engine.beginRead_history now hgroup htoken block count noAck
        rw [hread, takeCount_of_unlimited hall]
      · exact Engine.leafThrough_eq now block noAck counts hgroup htoken

/-- The consumer that holds two entries. -/
def firstHolder : Consumer := ⟨[103], [99]⟩

/-- One of them is deleted, another consumer holds the one between them, and a last entry is not
delivered yet. -/
def twoHolders : List Move :=
  [.add [97] (some "1-1") (.ofList [([102], [118])]) (some 0), .createGroup [97] "0" [103],
    .add [97] (some "1-2") (.ofList [([102], [118])]) (some 0),
    .add [97] (some "1-3") (.ofList [([102], [118])]) (some 0),
    .add [97] (some "1-4") (.ofList [([102], [118])]) (some 0),
    .begin ⟨[([97], ">")], none, some 1, false, some firstHolder⟩,
    .begin ⟨[([97], ">")], none, some 1, false, some ⟨[103], [100]⟩⟩,
    .begin ⟨[([97], ">")], none, some 1, false, some firstHolder⟩, .delete [97] ["1-1"]]

theorem history_is_pending_twoHolders :
    let w := World.start.run twoHolders
    let gone : Message := .ofEntry [97] ⟨1, 1⟩ ∅
    let kept : Message := .ofEntry [97] ⟨1, 3⟩ (.ofList [([102], [118])])
    let fresh : Message := .ofEntry [97] ⟨1, 4⟩ (.ofList [([102], [118])])
    (∃ t g, w.store.attempt (some firstHolder) none false [([97], .undelivered)] =
        (.ok [fresh], t) ∧
      t.group? [97] [103] = some g ∧
      ∃ entries u, (∀ l, Foremost (t.InHistory [97] firstHolder ⟨1, 1⟩) none l ↔ l = entries) ∧
        u.group? [97] [103] = some { g with consumers := g.consumers.insert [99] () } ∧
        w.store.attempt (some firstHolder) none false
            [([97], .undelivered), ([97], .after ⟨1, 1⟩)] =
          (.ok ([fresh] ++ (entries.map fun p => .ofEntry [97] p.1 p.2) ++ []), u)) ∧
      (∃ held : List (EntryId × Body),
        (∀ p, p ∈ held ↔ w.store.Holds [97] firstHolder p.1 ∧
          (w.store.Has [97] p ∨ w.store.Lacks [97] p.1 ∧ p.2 = ∅)) ∧
        (w.engine.beginRead 0 ⟨[([97], "0-0")], some 0, none, true, some firstHolder⟩).1 =
          .returned (.ok (held.map fun p => .ofEntry [97] p.1 p.2))) ∧
      Engine.leafThrough 0 [97] firstHolder none false [some 1, some 5, some 1] "0-0" w.engine =
        [[gone], [kept], []] := by
  intro w gone kept fresh
  obtain ⟨hserved, hpending⟩ := history_is_pending firstHolder
  have hthere : ∀ p ∈ ([([97], .undelivered)] : List (Bytes × Cursor)),
      w.store.hasGroup firstHolder.group p := by
    decide +kernel
  have hmessages : (Store.serveAll firstHolder none false [([97], .undelivered)]
      w.store).1.flatMap Serving.messages = [fresh] := by
    decide +kernel
  have hread : w.store.attempt (some firstHolder) none false [([97], .undelivered)] =
      (.ok [fresh], (Store.serveAll firstHolder none false [([97], .undelivered)] w.store).2) := by
    rw [← hmessages]
    exact Store.readGroup_of_hasGroup hthere
  obtain ⟨g, hg⟩ := Option.isSome_iff_exists.1 (hthere _ List.mem_cons_self)
  obtain ⟨g', hg', -⟩ := @Store.serveAll_onward firstHolder none false [([97], .undelivered)] _ _ _ _ hg
  obtain ⟨entries, u, hfirst, hknown, -, hgoes⟩ := hserved _ _ none false _ _ [97] g' ⟨1, 1⟩ hread hg'
  obtain ⟨held, -, hmem, hpages⟩ := hpending twoHolders [97] g hg
  refine ⟨⟨_, g', hread, hg', entries, u, hfirst, hknown, hgoes []⟩,
    ⟨held, hmem, (hpages 0 (some 0) true "0-0" rfl).1 none (.inl rfl)⟩, ?_⟩
  decide +kernel

end StreamBroker
