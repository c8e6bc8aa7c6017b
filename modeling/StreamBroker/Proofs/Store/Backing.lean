import StreamBroker.Proofs.Scan.Page
import StreamBroker.Proofs.Store.Listing
set_option autoImplicit false

/-!
# What stands behind the messages of a read

Every message of a read is backed by the store that was read: by an entry that stands there, or by
one that its reader holds and that was deleted, so that its body is lost (`Store.Backs`).

A group read serves its cursors one after the other, each on the store that the one before it left.
No serving touches an entry, and what it adds to what is pending stands in the store.  So what is
found at any of the cursors was there when the read began (`Store.Underway`).
-/

namespace StreamBroker.Store

/-- A consumer holds an entry: it was delivered to it and has not been acknowledged. -/
def Holds (s : Store) (key : Bytes) (consumer : Consumer) (id : EntryId) : Prop :=
  ∃ g, s.group? key consumer.group = some g ∧ g.pending.get? id = some consumer.name

/-- No entry stands under a key and an identifier. -/
def Lacks (s : Store) (key : Bytes) (id : EntryId) : Prop := ∀ body, ¬ s.Has key (id, body)

/-- What a read finds under a key and an identifier: an entry that stands there, or one that the
reader holds and that was deleted, which leaves it an empty body. -/
inductive Backs (s : Store) (reader? : Option Consumer) (key : Bytes) (id : EntryId)
    (body : Body) : Prop where
  | stored (hhas : s.Has key (id, body))
  | deleted {consumer : Consumer} (hreader : reader? = some consumer)
      (hholds : s.Holds key consumer id) (hlacks : s.Lacks key id) (hbody : body = ∅)

variable {s t u : Store} {key : Bytes} {count : Option UInt64} {noAck : Bool}

theorem Relists.has_iff (h : s.Relists t) {p : EntryId × Body} : t.Has key p ↔ s.Has key p := by
  unfold Has
  rw [← mem_listed, ← mem_listed, h key]

theorem Relists.lacks_iff (h : s.Relists t) {id : EntryId} : t.Lacks key id ↔ s.Lacks key id :=
  forall_congr' fun _ => not_congr h.has_iff

/-! ## Plain reads -/

theorem mem_of_mem_takeCount {α : Type} {l : List α} {a : α} (h : a ∈ takeCount count l) : a ∈ l :=
  (takeCount_isPrefix count l).subset h

/-- A plain read takes entries that stand in the store. -/
theorem has_of_mem_readFrom {cursor : Cursor} {m : Message} (h : m ∈ s.readFrom count key cursor) :
    ∃ id body, m = .ofEntry key id body ∧ s.Has key (id, body) := by
  unfold readFrom at h
  cases cursor with
  | undelivered => cases h
  | after id =>
      cases hget : s.get? key with
      | none =>
          rw [hget] at h
          cases h
      | some stream =>
          rw [hget] at h
          obtain ⟨p, hp, rfl⟩ := List.mem_map.1 h
          have habove := SortedMap.mem_above.1 (mem_of_mem_takeCount hp)
          exact ⟨p.1, p.2, rfl, stream, hget, habove.1⟩

theorem has_of_mem_readPlain {cursors : List (Bytes × Cursor)} {m : Message}
    (h : m ∈ s.readPlain count cursors) :
    ∃ key id body, m = .ofEntry key id body ∧ s.Has key (id, body) := by
  obtain ⟨cursor, -, hm⟩ := List.mem_flatMap.1 h
  exact ⟨cursor.1, has_of_mem_readFrom hm⟩

/-! ## One serving -/

/-- What a serving gives stands in the stream, or is pending for the consumer and was deleted. -/
theorem bound_of_mem_serve {stream : Stream} {g : Group} {consumer : Bytes} {cursor : Cursor}
    {p : EntryId × Body} (h : p ∈ (serve stream g consumer count noAck cursor).1) :
    stream.entries.get? p.1 = some p.2 ∨
      stream.entries.get? p.1 = none ∧ g.pending.get? p.1 = some consumer ∧ p.2 = ∅ := by
  cases cursor with
  | undelivered => exact .inl (SortedMap.mem_above.1 (mem_of_mem_takeCount h)).1
  | after id =>
      obtain ⟨held, hheld, rfl⟩ := List.mem_map.1 h
      obtain ⟨habove, hconsumer⟩ := List.mem_filter.1 (mem_of_mem_takeCount hheld)
      have hpending := (SortedMap.mem_above.1 habove).1
      rw [eq_of_beq hconsumer] at hpending
      cases stream.entries.get? held.1 with
      | some body => exact .inl rfl
      | none => exact .inr ⟨rfl, hpending, rfl⟩

/-- Handing out entries leaves what is pending under other identifiers as it was. -/
theorem get?_pending_deliver (g : Group) (consumer : Bytes) (noAck : Bool)
    {entries : List (EntryId × Body)} {id : EntryId} (h : ∀ p ∈ entries, p.1 ≠ id) :
    (deliver g consumer noAck entries).pending.get? id = g.pending.get? id := by
  induction entries generalizing g with
  | nil => rfl
  | cons p rest ih =>
      obtain ⟨hfirst, hrest⟩ := List.forall_mem_cons.1 h
      unfold deliver at ih ⊢
      rw [List.foldl_cons, ih _ hrest]
      cases noAck with
      | true => rfl
      | false => exact SortedMap.get?_insert_of_ne g.pending consumer hfirst

/-- A serving makes nothing pending but entries that stand in the stream. -/
theorem get?_pending_serve {stream : Stream} (g : Group) (consumer : Bytes) (count : Option UInt64)
    (noAck : Bool) (cursor : Cursor) {id : EntryId} (h : stream.entries.get? id = none) :
    (serve stream g consumer count noAck cursor).2.pending.get? id = g.pending.get? id := by
  cases cursor with
  | after start => rfl
  | undelivered =>
      refine get?_pending_deliver _ consumer noAck fun p hp hid => ?_
      have hbound := (SortedMap.mem_above.1 (mem_of_mem_takeCount hp)).1
      rw [hid, h] at hbound
      cases hbound

namespace Served

variable {consumer : Consumer} {v : Serving}

/-- What a serving gives is backed by the store that it is served from. -/
theorem backs (h : Served consumer count noAck s v t) {p : EntryId × Body} (hp : p ∈ v.entries) :
    s.Backs (some consumer) v.key p.1 p.2 := by
  cases h with
  | @intro key stream g cursor hget hg =>
      rcases bound_of_mem_serve hp with hbound | ⟨hgone, hpending, hbody⟩
      · exact .stored ⟨stream, hget, hbound⟩
      · refine .deleted rfl ⟨g, (group?_of_get? hget _).trans hg, hpending⟩ ?_ hbody
        rintro body ⟨stream', hget', hbound⟩
        obtain rfl := Option.some.inj (hget.symm.trans hget')
        cases hgone.symm.trans hbound

theorem relists (h : Served consumer count noAck s v t) : s.Relists t := by
  cases h with
  | intro cursor hget hg => exact relists_putGroup _ _ hget

/-- Nobody comes to hold what was deleted. -/
theorem holds_of_lacks (h : Served consumer count noAck s v t) {key : Bytes} {reader : Consumer}
    {id : EntryId} (hlacks : s.Lacks key id) (hholds : t.Holds key reader id) :
    s.Holds key reader id := by
  obtain ⟨g', hg', hpending⟩ := hholds
  by_cases hsame : v.key = key ∧ consumer.group = reader.group
  · cases h with
    | @intro key' stream g cursor hget hg =>
        obtain ⟨rfl, hgroup⟩ := hsame
        dsimp only at hg' hlacks ⊢
        rw [← hgroup, group?_putGroup_self] at hg'
        obtain rfl := Option.some.inj hg'
        have hgone : stream.entries.get? id = none := by
          cases hbound : stream.entries.get? id with
          | none => rfl
          | some body => exact absurd ⟨stream, hget, hbound⟩ (hlacks body)
        rw [get?_pending_serve g consumer.name count noAck cursor hgone] at hpending
        refine ⟨g, ?_, hpending⟩
        rw [← hgroup]
        exact (group?_of_get? hget _).trans hg
  · rw [h.group?_of_ne (Classical.not_and_iff_not_or_not.1 hsame)] at hg'
    exact ⟨g', hg', hpending⟩

end Served

/-! ## A whole read -/

/-- A store in the midst of a read, against the one from which the read began: the entries are the
same, and nobody has come to hold what was deleted. -/
structure Underway (s t : Store) : Prop where
  relists : s.Relists t
  holds : ∀ key reader id, s.Lacks key id → t.Holds key reader id → s.Holds key reader id

namespace Underway

theorem refl (s : Store) : s.Underway s := ⟨.refl s, fun _ _ _ _ h => h⟩

theorem serve (h : s.Underway t) {consumer : Consumer} {v : Serving}
    (hserved : Served consumer count noAck t v u) : s.Underway u := by
  refine ⟨h.relists.trans hserved.relists, fun key reader id hlacks hholds => ?_⟩
  have hlacks' : t.Lacks key id := h.relists.lacks_iff.2 hlacks
  exact h.holds key reader id hlacks (hserved.holds_of_lacks hlacks' hholds)

theorem backs (h : s.Underway t) {reader? : Option Consumer} {id : EntryId} {body : Body}
    (hbacks : t.Backs reader? key id body) : s.Backs reader? key id body := by
  cases hbacks with
  | stored hhas => exact .stored (h.relists.has_iff.1 hhas)
  | deleted hreader hholds hlacks hbody =>
      have hlacks' : s.Lacks key id := h.relists.lacks_iff.1 hlacks
      exact .deleted hreader (h.holds _ _ _ hlacks' hholds) hlacks' hbody

end Underway

/-- All servings of a read are backed by the store from which it began. -/
theorem serveAll_backs {consumer : Consumer} (cursors : List (Bytes × Cursor)) (s : Store) :
    ∀ v ∈ (serveAll consumer count noAck cursors s).1, ∀ p ∈ v.entries,
      s.Backs (some consumer) v.key p.1 p.2 := by
  refine (serveAll_induction (P := fun done t => s.Underway t ∧ ∀ v ∈ done, ∀ p ∈ v.entries,
    s.Backs (some consumer) v.key p.1 p.2) ?_ cursors [] s ⟨.refl s, nofun⟩).2
  rintro done t v u ⟨hunderway, hdone⟩ hserved
  refine ⟨hunderway.serve hserved, fun w hw p hp => ?_⟩
  rcases List.mem_append.1 hw with hearlier | hnow
  · exact hdone w hearlier p hp
  · obtain rfl := List.mem_singleton.1 hnow
    exact hunderway.backs (hserved.backs hp)

/-- All messages of an attempt are backed by the store on which it was made. -/
theorem attempt_backs {reader? : Option Consumer} {cursors : List (Bytes × Cursor)}
    {messages : List Message} (h : (s.attempt reader? count noAck cursors).1 = .ok messages) :
    ∀ m ∈ messages, ∃ key id body, m = .ofEntry key id body ∧ s.Backs reader? key id body := by
  intro m hm
  cases reader? with
  | none =>
      obtain rfl := Except.ok.inj h
      obtain ⟨key, id, body, hmessage, hhas⟩ := has_of_mem_readPlain hm
      exact ⟨key, id, body, hmessage, .stored hhas⟩
  | some consumer =>
      obtain ⟨-, rfl⟩ := readGroup_eq_ok h
      obtain ⟨v, hv, hmessage⟩ := List.mem_flatMap.1 hm
      obtain ⟨p, hp, rfl⟩ := List.mem_map.1 hmessage
      exact ⟨v.key, p.1, p.2, rfl, serveAll_backs cursors s v hv p hp⟩

end StreamBroker.Store
