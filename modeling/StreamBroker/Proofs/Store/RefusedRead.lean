import StreamBroker.Proofs.World.Basic
set_option autoImplicit false

/-!
# Refused group reads

A group read is refused at the first cursor whose key lacks the group.  The cursors before that one
have been served by then, and what serving them did to the store stays, though none of their
messages is given to anybody.  So a refused read leaves the store alone only where there was
nothing to do: every cursor before the refusal found its consumer known to the group and, if it
asked for undelivered entries, none of them (`refused_read_keeps_store_iff`).
-/

namespace StreamBroker.Store

/-- A read goes over a cursor without a trace: the group knows the consumer and has nothing to hand
out where undelivered entries are asked for. -/
def Passes (s : Store) (consumer : Consumer) (p : Bytes × Cursor) : Prop :=
  ∃ stream g, s.get? p.1 = some stream ∧ stream.groups.get? consumer.group = some g ∧
    g.consumers.contains consumer.name ∧
    (p.2 = .undelivered → stream.entries.above g.lastDelivered = [])

variable {consumer : Consumer} {count : Option UInt64} {noAck : Bool}

theorem serve_eq_self {stream : Stream} {g : Group} {cursor : Cursor}
    (hknown : g.consumers.contains consumer.name)
    (hnothing : cursor = .undelivered → stream.entries.above g.lastDelivered = []) :
    (serve stream g consumer.name count noAck cursor).2 = g := by
  have hconsumers : g.consumers.insert consumer.name () = g.consumers :=
    SortedMap.insert_eq_self (Option.eq_some_of_isSome hknown)
  cases cursor with
  | after id => simp only [serve, hconsumers]
  | undelivered =>
      have htaken : takeCount count (stream.entries.above g.lastDelivered) = [] :=
        takeCount_eq_nil_iff.2 (hnothing rfl)
      simp only [serve, hconsumers, htaken]
      rfl

/-- A cursor that passes changes nothing. -/
theorem Served.eq_of_passes {s t : Store} {v : Serving} (h : Served consumer count noAck s v t)
    (hpasses : s.Passes consumer (v.key, v.cursor)) : t = s := by
  cases h with
  | @intro key stream g cursor hget hg =>
      obtain ⟨stream', g', hget', hg', hknown, hnothing⟩ := hpasses
      obtain rfl : stream = stream' := Option.some.inj (hget.symm.trans hget')
      obtain rfl : g = g' := Option.some.inj (hg.symm.trans hg')
      rw [serve_eq_self hknown hnothing, putGroup, SortedMap.insert_eq_self hg]
      exact SortedMap.insert_eq_self hget

/-- A cursor passed if its group is back where it was: nothing that happens in a read is undone by
the rest of the read. -/
theorem Served.passes_of_onward {s t : Store} {v : Serving}
    (h : Served consumer count noAck s v t)
    (hback : ∀ g', t.group? v.key consumer.group = some g' →
      ∃ g, s.group? v.key consumer.group = some g ∧ Onward g' g) :
    s.Passes consumer (v.key, v.cursor) := by
  obtain ⟨stream, g, g', hget, hg, hg', hhand, hconsumers⟩ := h.handover
  obtain ⟨g₀, hg₀, honward⟩ := hback g' hg'
  rw [group?, hget] at hg₀
  obtain rfl : g = g₀ := Option.some.inj (hg.symm.trans hg₀)
  refine ⟨stream, g, hget, hg, ?_, fun hcursor => ?_⟩
  · apply honward.consumers
    rw [hconsumers]
    exact SortedMap.contains_insert_self ..
  · have hnews : v.news = [] := Classical.byContradiction fun hne =>
      EntryId.not_le.2 (hhand.advances_of_ne_nil hne) honward.lastDelivered
    cases h with
    | @intro key stream₁ g₁ cursor hget₁ hg₁ =>
        obtain rfl : stream = stream₁ := Option.some.inj (hget.symm.trans hget₁)
        obtain rfl : g = g₁ := Option.some.inj (hg.symm.trans hg₁)
        obtain rfl : cursor = .undelivered := hcursor
        exact takeCount_eq_nil_iff.1 hnews

/-- A read leaves the store alone exactly when every cursor that it serves passes. -/
theorem serveAll_store_eq_iff (cursors : List (Bytes × Cursor)) (s : Store) :
    (serveAll consumer count noAck cursors s).2 = s ↔
      ∀ p ∈ cursors.takeWhile (s.hasGroup consumer.group), s.Passes consumer p := by
  induction cursors generalizing s with
  | nil => simp [serveAll]
  | cons p rest ih =>
      rcases serveAll_cons consumer count noAck p s with
        ⟨hlacks, hends⟩ | ⟨v, t, hserved, rfl, hhas, hgoes⟩
      · rw [hends, List.takeWhile_cons_of_neg hlacks]
        simp
      · rw [hgoes, List.takeWhile_cons_of_pos hhas, List.forall_mem_cons]
        by_cases hpasses : s.Passes consumer (v.key, v.cursor)
        · rw [hserved.eq_of_passes hpasses, ih]
          exact ⟨fun hrest => ⟨hpasses, hrest⟩, And.right⟩
        · refine ⟨fun heq => absurd (hserved.passes_of_onward ?_) hpasses,
            fun hall => absurd hall.1 hpasses⟩
          intro g' hg'
          have honward := @serveAll_onward consumer count noAck rest _ _ _ _ hg'
          rwa [heq] at honward

/-- A group read is refused at the first cursor whose key lacks the group.  What it leaves behind is
what a read of the cursors before that one leaves behind, which would have succeeded; and the store
is as it was exactly when all of those passed. -/
theorem refused_read_keeps_store_iff {s : Store} {cursors : List (Bytes × Cursor)}
    {refusal : Refusal} (h : (readGroup consumer count noAck cursors s).1 = .error refusal) :
    ∃ served key cursor rest, cursors = served ++ (key, cursor) :: rest ∧
      (∀ p ∈ served, s.hasGroup consumer.group p) ∧ s.group? key consumer.group = none ∧
      refusal = .noGroup key consumer.group ∧
      (∃ messages, readGroup consumer count noAck served s =
        (.ok messages, (readGroup consumer count noAck cursors s).2)) ∧
      ((readGroup consumer count noAck cursors s).2 = s ↔
        ∀ p ∈ served, s.Passes consumer p) := by
  rw [readGroup_eq] at h ⊢
  have hsplit : cursors.takeWhile (s.hasGroup consumer.group) ++
      cursors.dropWhile (s.hasGroup consumer.group) = cursors := List.takeWhile_append_dropWhile
  have hserved : ∀ p ∈ cursors.takeWhile (s.hasGroup consumer.group), s.hasGroup consumer.group p :=
    List.all_eq_true.1 List.all_takeWhile
  have hfirst := List.head?_dropWhile_not (s.hasGroup consumer.group) cursors
  cases hrest : cursors.dropWhile (s.hasGroup consumer.group) with
  | nil =>
      rw [hrest] at h
      cases h
  | cons p rest =>
      obtain ⟨key, cursor⟩ := p
      rw [hrest] at h hsplit hfirst
      cases h
      refine ⟨cursors.takeWhile (s.hasGroup consumer.group), key, cursor, rest, hsplit.symm,
        hserved, ?_, rfl, ?_, serveAll_store_eq_iff cursors s⟩
      · simpa [hasGroup] using hfirst
      · rw [readGroup_of_hasGroup hserved, serveAll_takeWhile]
        exact ⟨_, rfl⟩

/-- A run that adds an entry and creates a group in front of it. -/
def oneUndelivered : List Move :=
  [.add [97] (some "1-1") (.ofList [([102], [118])]) (some 0), .createGroup [97] "0" [103]]

/-- Asks for what is undelivered under a key with the group and then under a missing one. -/
def secondMissing : List (Bytes × Cursor) := [([97], .undelivered), ([98], .undelivered)]

theorem refused_read_oneUndelivered :
    (readGroup ⟨[103], [99]⟩ none false secondMissing (World.start.run oneUndelivered).store).1 =
        .error (.noGroup [98] [103]) ∧
      ∃ served key cursor rest, secondMissing = served ++ (key, cursor) :: rest ∧
        (∀ p ∈ served, (World.start.run oneUndelivered).store.hasGroup [103] p) ∧
        (World.start.run oneUndelivered).store.group? key [103] = none ∧
        Refusal.noGroup [98] [103] = .noGroup key [103] ∧
        (∃ messages, readGroup ⟨[103], [99]⟩ none false served
            (World.start.run oneUndelivered).store =
          (.ok messages, (readGroup ⟨[103], [99]⟩ none false secondMissing
            (World.start.run oneUndelivered).store).2)) ∧
        ((readGroup ⟨[103], [99]⟩ none false secondMissing
            (World.start.run oneUndelivered).store).2 = (World.start.run oneUndelivered).store ↔
          ∀ p ∈ served, Passes (World.start.run oneUndelivered).store ⟨[103], [99]⟩ p) := by
  have hrefused : (readGroup ⟨[103], [99]⟩ none false secondMissing
      (World.start.run oneUndelivered).store).1 = .error (.noGroup [98] [103]) := rfl
  exact ⟨hrefused, refused_read_keeps_store_iff hrefused⟩

/-- A refused read may have marked an entry whose message nobody gets. -/
theorem refused_read_changes_store :
    ¬ ∀ (moves : List Move) (consumer : Consumer) (count : Option UInt64) (noAck : Bool)
      (cursors : List (Bytes × Cursor)) (refusal : Refusal),
      (readGroup consumer count noAck cursors (World.start.run moves).store).1 = .error refusal →
      (readGroup consumer count noAck cursors (World.start.run moves).store).2 =
        (World.start.run moves).store := by
  intro hkeeps
  have hrefused : (readGroup ⟨[103], [99]⟩ none false secondMissing
      (World.start.run oneUndelivered).store).1 = .error (.noGroup [98] [103]) := rfl
  exact absurd (hkeeps oneUndelivered _ _ _ _ _ hrefused) (by decide +kernel)

end StreamBroker.Store
