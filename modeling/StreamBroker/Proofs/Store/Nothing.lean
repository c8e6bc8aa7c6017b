import StreamBroker.Proofs.Store.GroupRead
set_option autoImplicit false

/-!
# Nothing to read

A cursor of a plain read has nothing where no entry lies behind it; a cursor of a group read has
nothing where the group is drained.  A read returns nothing exactly when none of its cursors has
anything (`attempt_eq_nil`, `hasNothing_of_attempt`), and only an addition under its key ends that
(`HasNothing.mono`).
-/

namespace StreamBroker.Store

/-- There is nothing to read for a cursor. -/
def HasNothing (s : Store) (consumer? : Option Consumer) (p : Bytes × Cursor) : Prop :=
  match consumer? with
  | none => ∀ stream id, s.get? p.1 = some stream → p.2 = .after id → stream.entries.above id = []
  | some consumer => s.Drained p.1 consumer.group

/-- What adds no entry under a key and moves a group up at most leaves nothing to read. -/
theorem HasNothing.mono {s t : Store} {consumer? : Option Consumer} {p : Bytes × Cursor}
    (h : s.HasNothing consumer? p)
    (hwithin : Option.Rel Stream.Within (t.get? p.1) (s.get? p.1))
    (hplace : ∀ consumer, consumer? = some consumer → ∀ g, s.group? p.1 consumer.group = some g →
      ∃ g', t.group? p.1 consumer.group = some g' ∧ g.lastDelivered ≤ g'.lastDelivered) :
    t.HasNothing consumer? p := by
  cases consumer? with
  | none =>
      intro stream' id hget' hcursor
      rw [hget'] at hwithin
      cases hget : s.get? p.1 with
      | none =>
          rw [hget] at hwithin
          cases hwithin
      | some stream =>
          rw [hget] at hwithin
          cases hwithin with
          | some hin =>
              exact SortedMap.above_eq_nil_of_subset hin.entries (h stream id hget hcursor)
  | some consumer => exact Drained.mono h hwithin (hplace consumer rfl)

/-! ## Plain reads -/

theorem readFrom_eq_nil_iff {s : Store} {count : Option UInt64} {key : Bytes} {cursor : Cursor} :
    s.readFrom count key cursor = [] ↔ s.HasNothing none (key, cursor) := by
  cases cursor with
  | undelivered => exact ⟨fun _ _ _ _ h => (nomatch h), fun _ => rfl⟩
  | after id =>
      unfold readFrom HasNothing
      cases hget : s.get? key with
      | none => exact ⟨fun _ _ _ h => (nomatch h), fun _ => rfl⟩
      | some stream =>
          simp only [List.map_eq_nil_iff, takeCount_eq_nil_iff]
          constructor
          · rintro hnothing _ _ hsame hcursor
            cases hsame
            cases hcursor
            exact hnothing
          · intro h
            exact h stream id rfl rfl

theorem readPlain_eq_nil_iff {s : Store} {count : Option UInt64}
    {cursors : List (Bytes × Cursor)} :
    s.readPlain count cursors = [] ↔ ∀ p ∈ cursors, s.HasNothing none p := by
  unfold readPlain
  rw [List.flatMap_eq_nil_iff]
  exact forall₂_congr fun _ _ => readFrom_eq_nil_iff

/-! ## Group reads -/

theorem entries_eq_nil_of_messages {servings : List Serving}
    (h : servings.flatMap Serving.messages = []) : ∀ v ∈ servings, v.entries = [] := by
  intro v hv
  have hmessages := List.flatMap_eq_nil_iff.1 h v hv
  exact List.map_eq_nil_iff.1 hmessages

section Groups

variable {consumer : Consumer} {count : Option UInt64} {noAck : Bool}

/-- A drained group has nothing for a cursor that asks for undelivered entries. -/
theorem Served.entries_eq_nil {s t : Store} {v : Serving} (h : Served consumer count noAck s v t)
    (hcursor : v.cursor = .undelivered) (hdrained : s.Drained v.key consumer.group) :
    v.entries = [] := by
  cases h with
  | @intro key stream g cursor hget hg =>
      obtain rfl : cursor = .undelivered := hcursor
      obtain ⟨stream₁, g₁, hget₁, hg₁, hnothing⟩ := hdrained
      obtain rfl : stream = stream₁ := Option.some.inj (hget.symm.trans hget₁)
      rw [group?_of_get? hget] at hg₁
      obtain rfl : g = g₁ := Option.some.inj (hg.symm.trans hg₁)
      exact takeCount_eq_nil_iff.2 hnothing

/-- A read of drained groups gets nothing. -/
theorem serveAll_entries_eq_nil {cursors : List (Bytes × Cursor)} {s : Store}
    (hahead : ∀ p ∈ cursors, p.2 = .undelivered)
    (hdrained : ∀ p ∈ cursors, s.Drained p.1 consumer.group) :
    ∀ v ∈ (serveAll consumer count noAck cursors s).1, v.entries = [] := by
  induction cursors generalizing s with
  | nil => simp [serveAll]
  | cons p rest ih =>
      rcases serveAll_cons consumer count noAck p s with
        ⟨-, hends⟩ | ⟨v, t, hserved, rfl, -, hgoes⟩
      · rw [hends]
        simp
      · have hfirst := hserved.entries_eq_nil (hahead _ List.mem_cons_self)
          (hdrained _ List.mem_cons_self)
        rw [hgoes, List.forall_mem_cons]
        refine ⟨hfirst, ih ?_ ?_⟩
        · intro p hp
          exact hahead p (List.mem_cons_of_mem _ hp)
        · intro p hp
          exact hserved.drained (hdrained p (List.mem_cons_of_mem _ hp))

theorem hasGroup_of_drained {s : Store} {p : Bytes × Cursor} {group : Bytes}
    (h : s.Drained p.1 group) : s.hasGroup group p := by
  obtain ⟨-, g, -, hg, -⟩ := h
  rw [hasGroup, hg]
  rfl

end Groups

/-! ## Attempts -/

section Attempts

variable {consumer? : Option Consumer} {count : Option UInt64} {noAck : Bool}
  {cursors : List (Bytes × Cursor)} {s : Store}

/-- A read whose cursors have nothing returns nothing. -/
theorem attempt_eq_nil
    (hahead : ∀ consumer, consumer? = some consumer → ∀ p ∈ cursors, p.2 = .undelivered)
    (hnothing : ∀ p ∈ cursors, s.HasNothing consumer? p) :
    (s.attempt consumer? count noAck cursors).1 = .ok [] := by
  cases consumer? with
  | none =>
      have hplain : s.readPlain count cursors = [] := readPlain_eq_nil_iff.2 hnothing
      rw [attempt, hplain]
  | some consumer =>
      have hgroups : ∀ p ∈ cursors, s.hasGroup consumer.group p :=
        fun p hp => hasGroup_of_drained (hnothing p hp)
      have hmessages : (serveAll consumer count noAck cursors s).1.flatMap Serving.messages = [] := by
        rw [List.flatMap_eq_nil_iff]
        intro v hv
        rw [Serving.messages, serveAll_entries_eq_nil (hahead consumer rfl) hnothing v hv]
        rfl
      rw [attempt, readGroup_of_hasGroup hgroups, hmessages]

/-- What a read that returned nothing leaves behind has nothing for its cursors. -/
theorem hasNothing_of_attempt
    (hahead : ∀ consumer, consumer? = some consumer → ∀ p ∈ cursors, p.2 = .undelivered)
    (h : (s.attempt consumer? count noAck cursors).1 = .ok []) :
    ∀ p ∈ cursors, HasNothing (s.attempt consumer? count noAck cursors).2 consumer? p := by
  intro p hp
  cases consumer? with
  | none => exact readPlain_eq_nil_iff.1 (Except.ok.inj h) p hp
  | some consumer =>
      obtain ⟨hcursors, hmessages⟩ := readGroup_eq_ok h
      have hentries := entries_eq_nil_of_messages hmessages.symm
      have hundelivered := hahead consumer rfl p hp
      rw [← hcursors] at hp
      obtain ⟨v, hv, rfl⟩ := List.mem_map.1 hp
      rw [attempt_group_store]
      exact serveAll_drains cursors s v hv hundelivered (.inr (hentries v hv))

end Attempts

end StreamBroker.Store
