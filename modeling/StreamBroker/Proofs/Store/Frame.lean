import StreamBroker.Proofs.SortedMap
import StreamBroker.Store.Entries
import StreamBroker.Store.Groups
set_option autoImplicit false

/-!
# What a command leaves alone

Every command replaces at most one stream, and one that is refused replaces none (`Intact`).  Two
facts about what it leaves alone carry most arguments about runs: no stream gets an entry
(`Shrinks`) unless one is added, and no group moves (`Keeps`) unless it reads or is destroyed.

Each command first says what it does to the store when it is refused (`delete_intact` and so on) and
when it succeeds (`delete_eq_ok` and so on); the two facts follow from that.
-/

namespace StreamBroker

/-- One stream with the last identifier of another and none but its entries. -/
structure Stream.Within (a b : Stream) : Prop where
  lastId : a.lastId = b.lastId
  entries : a.entries ⊆ b.entries

namespace Stream.Within

theorem refl (a : Stream) : a.Within a := ⟨rfl, SortedMap.subset_refl _⟩

theorem of_rel {a b : Option Stream} {stream : Stream} (h : Option.Rel Stream.Within a b)
    (hb : b = some stream) : ∃ stream', a = some stream' ∧ stream'.Within stream := by
  subst hb
  cases h with
  | some hin => exact ⟨_, rfl, hin⟩

end Stream.Within

namespace Store

/-! ## Look-ups after one stream was replaced -/

theorem group?_of_get? {s : Store} {key : Bytes} {stream : Stream}
    (hget : s.get? key = some stream) (name : Bytes) :
    s.group? key name = stream.groups.get? name := by
  unfold group?
  rw [hget]
  rfl

theorem group?_insert_of_ne (s : Store) {key k : Bytes} (name : Bytes) (stream : Stream)
    (h : key ≠ k) : group? (s.insert key stream) k name = s.group? k name := by
  unfold group?
  rw [SortedMap.get?_insert_of_ne s stream h]

theorem group?_insert_self (s : Store) (key name : Bytes) (stream : Stream) :
    group? (s.insert key stream) key name = stream.groups.get? name := by
  unfold group?
  rw [SortedMap.get?_insert_self]
  rfl

theorem group?_putGroup_self (s : Store) (key : Bytes) (stream : Stream) (name : Bytes)
    (g : Group) : (s.putGroup key stream name g).group? key name = some g := by
  unfold putGroup
  rw [group?_insert_self]
  exact SortedMap.get?_insert_self ..

theorem group?_putGroup_of_ne {s : Store} {key : Bytes} {stream : Stream} {name n : Bytes}
    (g : Group) (hstream : s.get? key = some stream) (h : name ≠ n) :
    (s.putGroup key stream name g).group? key n = s.group? key n := by
  unfold putGroup
  rw [group?_insert_self, SortedMap.get?_insert_of_ne _ _ h, group?, hstream]
  rfl

/-! ## No entry comes to a stream -/

/-- The same streams with the same last identifiers, and none but the entries they had. -/
def Shrinks (s t : Store) : Prop :=
  ∀ key, Option.Rel Stream.Within (t.get? key) (s.get? key)

theorem Shrinks.refl (s : Store) : s.Shrinks s := by
  intro key
  cases s.get? key with
  | none => exact .none
  | some stream => exact .some (.refl stream)

theorem Shrinks.trans {s t u : Store} (h₁ : s.Shrinks t) (h₂ : t.Shrinks u) : s.Shrinks u := by
  intro key
  have hst := h₁ key
  have htu := h₂ key
  generalize s.get? key = a at *
  generalize t.get? key = b at *
  generalize u.get? key = c at *
  cases htu with
  | none => cases hst; exact .none
  | some hcb =>
    cases hst with
    | some hba =>
      exact .some ⟨hcb.lastId.trans hba.lastId, SortedMap.subset_trans hcb.entries hba.entries⟩

theorem shrinks_insert {s : Store} {key : Bytes} {stream stream' : Stream}
    (hget : s.get? key = some stream) (hin : stream'.Within stream) :
    s.Shrinks (s.insert key stream') := by
  intro k
  by_cases hk : key = k
  · subst hk
    rw [SortedMap.get?_insert_self, hget]
    exact .some hin
  · rw [SortedMap.get?_insert_of_ne s stream' hk]
    exact Shrinks.refl s k

/-- Replacing a group leaves the entries alone. -/
theorem shrinks_putGroup {s : Store} {key : Bytes} {stream : Stream} (name : Bytes) (g : Group)
    (hget : s.get? key = some stream) : s.Shrinks (s.putGroup key stream name g) :=
  shrinks_insert hget ⟨rfl, SortedMap.subset_refl _⟩

/-! ## No group moves -/

/-- No entry comes to a stream, and every group stays where it is. -/
structure Keeps (s t : Store) : Prop where
  shrinks : s.Shrinks t
  group : ∀ {key name : Bytes} {g : Group}, s.group? key name = some g →
    ∃ g', t.group? key name = some g' ∧ g'.lastDelivered = g.lastDelivered

theorem Keeps.refl (s : Store) : s.Keeps s := ⟨.refl s, fun h => ⟨_, h, rfl⟩⟩

/-- Taking entries from a stream moves no group. -/
theorem keeps_insert_entries {s : Store} {key : Bytes} {stream : Stream}
    {entries : SortedMap EntryId Body} (hget : s.get? key = some stream)
    (hsub : entries ⊆ stream.entries) : s.Keeps (s.insert key { stream with entries }) := by
  refine ⟨shrinks_insert hget ⟨rfl, hsub⟩, ?_⟩
  intro k name g hg
  refine ⟨g, ?_, rfl⟩
  by_cases hk : key = k
  · subst hk
    rw [group?_insert_self]
    rwa [group?, hget] at hg
  · rwa [group?_insert_of_ne s name _ hk]

/-- Replacing a group by one at the same place moves no group. -/
theorem keeps_putGroup {s : Store} {key name : Bytes} {stream : Stream} {g' : Group}
    (hget : s.get? key = some stream)
    (hsame : ∀ g, stream.groups.get? name = some g → g'.lastDelivered = g.lastDelivered) :
    s.Keeps (s.putGroup key stream name g') := by
  refine ⟨shrinks_putGroup name g' hget, ?_⟩
  intro k n g hg
  by_cases hk : key = k
  · subst hk
    by_cases hn : name = n
    · subst hn
      rw [group?, hget] at hg
      exact ⟨g', group?_putGroup_self .., hsame g hg⟩
    · exact ⟨g, by rwa [group?_putGroup_of_ne g' hget hn], rfl⟩
  · exact ⟨g, by rwa [putGroup, group?_insert_of_ne s n _ hk], rfl⟩

/-! ## Refusals -/

/-- What is refused leaves the store as it was. -/
structure Intact {α : Type} (s : Store) (done : Except Refusal α × Store) : Prop where
  same : ∀ refusal, done.1 = .error refusal → done.2 = s

namespace Intact

variable {α : Type} {s t : Store} {done : Except Refusal α × Store}

theorem refused (s : Store) (refusal : Refusal) :
    s.Intact ((.error refusal, s) : Except Refusal α × Store) := ⟨fun _ _ => rfl⟩

theorem of_ok (s t : Store) (a : α) : s.Intact (.ok a, t) := ⟨fun _ => nofun⟩

theorem eq {refusal : Refusal} (h : s.Intact done) (hdone : done = (.error refusal, t)) :
    t = s := by
  subst hdone
  exact h.same refusal rfl

/-- What holds of the store before, and of the store behind if that is another, holds of the store
behind in any case. -/
theorem behind {P : Store → Prop} (h : s.Intact done) (hs : P s)
    (hok : ∀ a t, done = (.ok a, t) → P t) : P done.2 := by
  obtain ⟨refusal | a, t⟩ := done
  · rw [h.same refusal rfl]
    exact hs
  · exact hok a t rfl

end Intact

section Refusals

variable (s : Store) (key group : Bytes) (ids : List String)

theorem add_intact (request : Option String) (body : Body) (clock : Option UInt64) :
    s.Intact (s.add key request body clock) := by
  unfold add
  split
  · exact .refused s _
  · split
    · exact .refused s _
    · split
      · exact .refused s _
      · exact .of_ok s _ _

theorem delete_intact : s.Intact (s.delete key ids) := by
  unfold delete
  split
  · exact .refused s _
  · split
    · exact .of_ok s _ _
    · exact .of_ok s _ _

theorem acknowledge_intact : s.Intact (s.acknowledge key group ids) := by
  unfold acknowledge
  split
  · exact .refused s _
  · split
    · exact .of_ok s _ _
    · split
      · exact .of_ok s _ _
      · exact .of_ok s _ _

theorem createGroup_intact (token : String) : s.Intact (s.createGroup key token group) := by
  unfold createGroup
  split
  · exact .refused s _
  · split
    · exact .refused s _
    · split
      · exact .refused s _
      · exact .of_ok s _ _

theorem deleteConsumer_intact (consumer : Bytes) :
    s.Intact (s.deleteConsumer key group consumer) := by
  unfold deleteConsumer
  split
  · exact .refused s _
  · split
    · exact .refused s _
    · split
      · exact .of_ok s _ _
      · exact .of_ok s _ _

theorem destroyGroup_intact : s.Intact (s.destroyGroup key group) := by
  unfold destroyGroup
  split
  · exact .refused s _
  · exact .of_ok s _ _

end Refusals

/-! ## Each command -/

variable {s t : Store} {key group : Bytes}

theorem delete_eq_ok {ids : List String} {n : Nat} (h : s.delete key ids = (.ok n, t)) :
    ∃ ids', EntryId.readAll ids = .ok ids' ∧
      (s.get? key = none ∧ n = 0 ∧ t = s ∨
        ∃ stream, s.get? key = some stream ∧ n = (stream.entries.eraseAll ids').1 ∧
          t = s.insert key { stream with entries := (stream.entries.eraseAll ids').2 }) := by
  unfold delete at h
  split at h
  case h_1 => cases h
  case h_2 ids' hids =>
    refine ⟨ids', hids, ?_⟩
    split at h
    case h_1 hget => cases h; exact .inl ⟨hget, rfl, rfl⟩
    case h_2 stream hget => cases h; exact .inr ⟨stream, hget, rfl, rfl⟩

theorem delete_keeps (s : Store) (key : Bytes) (ids : List String) :
    s.Keeps (s.delete key ids).2 := by
  refine (s.delete_intact key ids).behind (.refl s) fun n t h => ?_
  obtain ⟨ids', -, ⟨-, -, rfl⟩ | ⟨stream, hget, -, rfl⟩⟩ := delete_eq_ok h
  · exact .refl t
  · exact keeps_insert_entries hget (SortedMap.eraseAll_subset ids' _)

/-- An addition leaves every group as it is. -/
theorem add_group? {request : Option String} {body : Body} {clock : Option UInt64} {id : EntryId}
    (h : s.add key request body clock = (.ok id, t)) (k name : Bytes) :
    t.group? k name = s.group? k name := by
  obtain ⟨-, rfl⟩ := add_eq_ok h
  by_cases hk : key = k
  · subst hk
    rw [group?_insert_self, group?]
    cases s.get? key <;> rfl
  · exact group?_insert_of_ne s name _ hk

theorem trim_keeps (s : Store) (key : Bytes) (count : UInt64) : s.Keeps (s.trim key count).2 := by
  unfold trim
  split
  case h_1 => exact .refl s
  case h_2 stream hget => exact keeps_insert_entries hget (SortedMap.drop_subset _ _)

theorem acknowledge_eq_ok {ids : List String} {n : Nat}
    (h : s.acknowledge key group ids = (.ok n, t)) :
    ∃ ids', EntryId.readAll ids = .ok ids' ∧
      (s.group? key group = none ∧ n = 0 ∧ t = s ∨
        ∃ stream g, s.get? key = some stream ∧ stream.groups.get? group = some g ∧
          n = (g.pending.eraseAll ids').1 ∧
          t = s.putGroup key stream group { g with pending := (g.pending.eraseAll ids').2 }) := by
  unfold acknowledge at h
  split at h
  case h_1 => cases h
  case h_2 ids' hids =>
    refine ⟨ids', hids, ?_⟩
    split at h
    case h_1 hget => cases h; exact .inl ⟨by rw [group?, hget]; rfl, rfl, rfl⟩
    case h_2 stream hget =>
      split at h
      case h_1 hg => cases h; exact .inl ⟨by rw [group?, hget]; exact hg, rfl, rfl⟩
      case h_2 g hg => cases h; exact .inr ⟨stream, g, hget, hg, rfl, rfl⟩

theorem acknowledge_keeps (s : Store) (key group : Bytes) (ids : List String) :
    s.Keeps (s.acknowledge key group ids).2 := by
  refine (s.acknowledge_intact key group ids).behind (.refl s) fun n t h => ?_
  obtain ⟨ids', -, ⟨-, -, rfl⟩ | ⟨stream, g, hget, hg, -, rfl⟩⟩ := acknowledge_eq_ok h
  · exact .refl t
  · apply keeps_putGroup hget
    intro g₀ hg₀
    rw [hg] at hg₀
    cases hg₀
    rfl

theorem createGroup_eq_ok {token : String} (h : s.createGroup key token group = (.ok (), t)) :
    ∃ stream start, s.get? key = some stream ∧ stream.groups.get? group = none ∧
      groupStart stream token = .ok start ∧
      t = s.putGroup key stream group (.startingAt start) := by
  unfold createGroup at h
  split at h
  case h_1 => cases h
  case h_2 stream hget =>
    split at h
    case isTrue => cases h
    case isFalse hnew =>
      split at h
      case h_1 => cases h
      case h_2 start hstart =>
        cases h
        refine ⟨stream, start, hget, ?_, hstart, rfl⟩
        simpa [SortedMap.contains] using hnew

theorem createGroup_keeps (s : Store) (key : Bytes) (token : String) (group : Bytes) :
    s.Keeps (s.createGroup key token group).2 := by
  refine (s.createGroup_intact key group token).behind (.refl s) fun _ t h => ?_
  obtain ⟨stream, start, hget, hnew, -, rfl⟩ := createGroup_eq_ok h
  exact keeps_putGroup hget fun g hg => by rw [hnew] at hg; cases hg

theorem deleteConsumer_eq_ok {consumer : Bytes} {b : Bool}
    (h : s.deleteConsumer key group consumer = (.ok b, t)) :
    ∃ stream g, s.get? key = some stream ∧ stream.groups.get? group = some g ∧
      b = g.consumers.contains consumer ∧
      t = if b then s.putGroup key stream group (forget g consumer) else s := by
  unfold deleteConsumer at h
  split at h
  case h_1 => cases h
  case h_2 stream hget =>
    split at h
    case h_1 => cases h
    case h_2 g hg =>
      refine ⟨stream, g, hget, hg, ?_⟩
      split at h
      case isTrue hc => cases h; exact ⟨hc.symm, rfl⟩
      case isFalse hc => cases h; exact ⟨by simpa using hc, rfl⟩

theorem deleteConsumer_keeps (s : Store) (key group consumer : Bytes) :
    s.Keeps (s.deleteConsumer key group consumer).2 := by
  refine (s.deleteConsumer_intact key group consumer).behind (.refl s) fun b t h => ?_
  obtain ⟨stream, g, hget, hg, -, rfl⟩ := deleteConsumer_eq_ok h
  split
  · apply keeps_putGroup hget
    intro g₀ hg₀
    rw [hg] at hg₀
    cases hg₀
    rfl
  · exact .refl s

theorem destroyGroup_eq_ok {b : Bool} (h : s.destroyGroup key group = (.ok b, t)) :
    ∃ stream, s.get? key = some stream ∧ b = stream.groups.contains group ∧
      t = s.insert key { stream with groups := stream.groups.erase group } := by
  unfold destroyGroup at h
  split at h
  case h_1 => cases h
  case h_2 stream hget => cases h; exact ⟨stream, hget, rfl, rfl⟩

theorem destroyGroup_shrinks {b : Bool} (h : s.destroyGroup key group = (.ok b, t)) :
    s.Shrinks t := by
  obtain ⟨stream, hget, -, rfl⟩ := destroyGroup_eq_ok h
  exact shrinks_insert hget ⟨rfl, SortedMap.subset_refl _⟩

/-- Nobody finds a group behind its destruction, done or refused. -/
theorem destroyGroup_group?_self (s : Store) (key group : Bytes) :
    (s.destroyGroup key group).2.group? key group = none := by
  unfold destroyGroup
  split
  case h_1 hget =>
    rw [group?, hget]
    rfl
  case h_2 stream hget =>
    rw [group?_insert_self, SortedMap.get?_erase_self]

/-- Destroying a group leaves every other group as it is. -/
theorem destroyGroup_group? {b : Bool} (h : s.destroyGroup key group = (.ok b, t))
    {k name : Bytes} (hne : key ≠ k ∨ group ≠ name) : t.group? k name = s.group? k name := by
  obtain ⟨stream, hget, -, rfl⟩ := destroyGroup_eq_ok h
  by_cases hk : key = k
  · subst hk
    have hname : group ≠ name := hne.resolve_left fun hkey => hkey rfl
    rw [group?_insert_self, SortedMap.get?_erase_of_ne _ hname, group?, hget]
    rfl
  · exact group?_insert_of_ne s name _ hk

end Store

end StreamBroker
