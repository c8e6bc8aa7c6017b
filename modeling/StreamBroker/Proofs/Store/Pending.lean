import StreamBroker.Proofs.Store.GroupRead
set_option autoImplicit false

/-!
# Pending entries

A group records what it hands out: which consumer holds which entry.  A group read only records
(`Bookings`), an acknowledgement and the end of a consumer only take out, and no other command
touches what is pending.  Nothing is recorded twice: what is recorded lies above the place of the
group, and what is pending does not (`Orderly`).
-/

namespace StreamBroker

/-- What is pending in a group lies at most at its place, and consumers that it knows hold it. -/
structure Group.Orderly (g : Group) : Prop where
  place : ∀ id c, g.pending.get? id = some c → id ≤ g.lastDelivered
  known : ∀ id c, g.pending.get? id = some c → g.consumers.contains c

/-- A group has recorded entries above its place, each with the consumer that holds it, and has
forgotten nothing. -/
structure Bookings (g g' : Group) (marks : List (EntryId × Bytes)) : Prop where
  sorted : marks.Pairwise fun m n => m.1 < n.1
  above : ∀ m ∈ marks, g.lastDelivered < m.1
  place : ∀ m ∈ marks, m.1 ≤ g'.lastDelivered
  onward : g.lastDelivered ≤ g'.lastDelivered
  known : ∀ m ∈ marks, g'.consumers.contains m.2
  consumers : ∀ c, g.consumers.contains c → g'.consumers.contains c
  pending : ∀ id c, g'.pending.get? id = some c ↔ g.pending.get? id = some c ∨ (id, c) ∈ marks
  size : g'.pending.size = g.pending.size + marks.length

namespace Group.Orderly

variable {g g' : Group} {marks : List (EntryId × Bytes)}

/-- Nothing above the place of a group is pending. -/
theorem get?_eq_none (h : g.Orderly) {id : EntryId} (hlt : g.lastDelivered < id) :
    g.pending.get? id = none := by
  cases hget : g.pending.get? id with
  | none => rfl
  | some c => exact absurd (EntryId.lt_of_lt_of_le hlt (h.place id c hget)) (EntryId.lt_irrefl _)

theorem startingAt (start : EntryId) : (Group.startingAt start).Orderly :=
  ⟨nofun, nofun⟩

theorem booked (h : g.Orderly) (hbook : Bookings g g' marks) : g'.Orderly := by
  refine ⟨?_, ?_⟩
  · intro id c hget
    rcases (hbook.pending id c).1 hget with hold | hnew
    · exact EntryId.le_trans (h.place id c hold) hbook.onward
    · exact hbook.place _ hnew
  · intro id c hget
    rcases (hbook.pending id c).1 hget with hold | hnew
    · exact hbook.consumers c (h.known id c hold)
    · exact hbook.known _ hnew

/-- Taking out acknowledged entries keeps a group orderly. -/
theorem acknowledged (h : g.Orderly) (ids : List EntryId) :
    Orderly { g with pending := (g.pending.eraseAll ids).2 } :=
  ⟨fun id c hget => h.place id c (SortedMap.eraseAll_subset ids _ id c hget),
    fun id c hget => h.known id c (SortedMap.eraseAll_subset ids _ id c hget)⟩

end Group.Orderly

namespace Bookings

variable {g g₁ g₂ : Group} {marks₁ marks₂ : List (EntryId × Bytes)}

/-- A group that goes on and knows no fewer consumers, with the same entries pending. -/
theorem nothing {g' : Group} (honward : g.lastDelivered ≤ g'.lastDelivered)
    (hconsumers : ∀ c, g.consumers.contains c → g'.consumers.contains c)
    (hpending : g'.pending = g.pending) : Bookings g g' [] := by
  refine ⟨.nil, by simp, by simp, honward, by simp, hconsumers, ?_, ?_⟩
  · simp [hpending]
  · rw [hpending]
    rfl

theorem refl (g : Group) : Bookings g g [] := .nothing (EntryId.le_refl _) (fun _ h => h) rfl

theorem trans (h₁ : Bookings g g₁ marks₁) (h₂ : Bookings g₁ g₂ marks₂) :
    Bookings g g₂ (marks₁ ++ marks₂) := by
  refine ⟨?_, ?_, ?_, EntryId.le_trans h₁.onward h₂.onward, ?_, ?_, ?_, ?_⟩
  · refine List.pairwise_append.2 ⟨h₁.sorted, h₂.sorted, ?_⟩
    intro m hm n hn
    exact EntryId.lt_of_le_of_lt (h₁.place m hm) (h₂.above n hn)
  · intro m hm
    rcases List.mem_append.1 hm with hm | hm
    · exact h₁.above m hm
    · exact EntryId.lt_of_le_of_lt h₁.onward (h₂.above m hm)
  · intro m hm
    rcases List.mem_append.1 hm with hm | hm
    · exact EntryId.le_trans (h₁.place m hm) h₂.onward
    · exact h₂.place m hm
  · intro m hm
    rcases List.mem_append.1 hm with hm | hm
    · exact h₂.consumers _ (h₁.known m hm)
    · exact h₂.known m hm
  · exact fun c hc => h₂.consumers c (h₁.consumers c hc)
  · intro id c
    rw [h₂.pending, h₁.pending, List.mem_append, or_assoc]
  · rw [h₂.size, h₁.size, List.length_append, Nat.add_assoc]

end Bookings

/-- What a serving records: the entries that were new to the group, unless acknowledgements were
waived. -/
def Serving.marks (v : Serving) (consumer : Bytes) (noAck : Bool) : List (EntryId × Bytes) :=
  if noAck then [] else v.news.map fun p => (p.1, consumer)

namespace Store

/-! ## Group reads -/

/-- Without acknowledgements nothing is recorded. -/
theorem pending_deliver_noAck (g : Group) (consumer : Bytes) (entries : List (EntryId × Body)) :
    (deliver g consumer true entries).pending = g.pending := by
  induction entries generalizing g with
  | nil => rfl
  | cons p rest ih =>
      unfold deliver at ih ⊢
      rw [List.foldl_cons, ih]
      rfl

/-- Entries above the place of a group are recorded one after the other. -/
theorem bookings_deliver {g : Group} (consumer : Bytes) (hg : g.Orderly)
    (hknown : g.consumers.contains consumer) {entries : List (EntryId × Body)}
    (hsorted : entries.Pairwise fun p q => p.1 < q.1)
    (habove : ∀ p ∈ entries, g.lastDelivered < p.1) :
    Bookings g (deliver g consumer false entries) (entries.map fun p => (p.1, consumer)) := by
  induction entries generalizing g with
  | nil => exact .refl g
  | cons p rest ih =>
      obtain ⟨hfirst, hrest⟩ := List.pairwise_cons.1 hsorted
      have hlt := habove p List.mem_cons_self
      have hnone := hg.get?_eq_none hlt
      have hbook : Bookings g
          { g with lastDelivered := p.1, pending := g.pending.insert p.1 consumer }
          [(p.1, consumer)] := by
        refine ⟨List.pairwise_singleton .., ?_, ?_, EntryId.le_of_lt hlt, ?_, fun _ h => h, ?_,
          SortedMap.size_insert_of_get?_eq_none _ hnone⟩
        · exact fun m hm => List.mem_singleton.1 hm ▸ hlt
        · exact fun m hm => List.mem_singleton.1 hm ▸ EntryId.le_refl _
        · exact fun m hm => List.mem_singleton.1 hm ▸ hknown
        · intro id c
          rw [SortedMap.get?_insert, List.mem_singleton, Prod.mk.injEq]
          split
          case isTrue heq =>
            obtain rfl := Std.LawfulEqCmp.eq_of_compare heq
            simp [hnone, eq_comm]
          case isFalse hne =>
            have hother : id ≠ p.1 := fun e => hne (e ▸ Std.ReflCmp.compare_self)
            simp [hother]
      exact hbook.trans (ih (hg.booked hbook) hknown hrest hfirst)

/-- Serving a cursor records what was new to the group. -/
theorem bookings_serve (stream : Stream) {g : Group} (hg : g.Orderly) (key consumer : Bytes)
    (count : Option UInt64) (noAck : Bool) (cursor : Cursor) :
    Bookings g (serve stream g consumer count noAck cursor).2
      (Serving.marks ⟨key, cursor, (serve stream g consumer count noAck cursor).1⟩ consumer
        noAck) := by
  have hmeets : ∀ c, g.consumers.contains c →
      (g.consumers.insert consumer ()).contains c :=
    fun c hc => SortedMap.contains_insert_of_contains _ _ hc
  have hmet : Bookings g { g with consumers := g.consumers.insert consumer () } [] :=
    .nothing (EntryId.le_refl _) hmeets rfl
  cases cursor with
  | after id =>
      have hnone : Serving.marks ⟨key, .after id, (serve stream g consumer count noAck
          (.after id)).1⟩ consumer noAck = [] := by
        unfold Serving.marks Serving.news
        split <;> rfl
      rw [hnone]
      exact hmet
  | undelivered =>
      have hhand := serve_handover stream g key consumer count noAck .undelivered
      cases noAck with
      | true =>
          refine .nothing hhand.advances (fun c hc => ?_) ?_
          · rw [consumers_serve]
            exact hmeets c hc
          · simp only [serve, pending_deliver_noAck]
      | false =>
          have hbook := bookings_deliver consumer (hg.booked hmet)
            (SortedMap.contains_insert_self ..) hhand.sorted hhand.above
          exact hmet.trans hbook

namespace Served

variable {consumer : Consumer} {count : Option UInt64} {noAck : Bool} {s t : Store} {v : Serving}

theorem bookings (h : Served consumer count noAck s v t) {g : Group}
    (hg : s.group? v.key consumer.group = some g) (horderly : g.Orderly) :
    ∃ g', t.group? v.key consumer.group = some g' ∧
      Bookings g g' (v.marks consumer.name noAck) := by
  cases h with
  | @intro key stream g₀ cursor hget hg₀ =>
      rw [group?_of_get? hget] at hg
      obtain rfl : g₀ = g := Option.some.inj (hg₀.symm.trans hg)
      exact ⟨_, group?_putGroup_self .., bookings_serve stream horderly ..⟩

end Served

/-- What the servings of a read record in the group of a key. -/
def marks (servings : List Serving) (key group : Bytes) (consumer : Consumer) (noAck : Bool) :
    List (EntryId × Bytes) :=
  servings.flatMap fun v =>
    if v.key = key ∧ consumer.group = group then v.marks consumer.name noAck else []

/-- A read records in each group what its servings recorded there. -/
theorem bookings_serveAll (consumer : Consumer) (count : Option UInt64) (noAck : Bool)
    (cursors : List (Bytes × Cursor)) {s : Store} {key group : Bytes} {g : Group}
    (hg : s.group? key group = some g) (horderly : g.Orderly) :
    ∃ g', group? (serveAll consumer count noAck cursors s).2 key group = some g' ∧
      Bookings g g' (marks (serveAll consumer count noAck cursors s).1 key group consumer
        noAck) := by
  refine serveAll_induction (P := fun done t => ∃ g', t.group? key group = some g' ∧
    Bookings g g' (marks done key group consumer noAck)) ?_ cursors [] s ⟨g, hg, .refl g⟩
  rintro done s v t ⟨g₁, hg₁, hbook₁⟩ hserved
  unfold marks at hbook₁ ⊢
  rw [List.flatMap_append, List.flatMap_singleton]
  split
  case isTrue hsame =>
    obtain ⟨rfl, rfl⟩ := hsame
    obtain ⟨g₂, hg₂, hbook₂⟩ := hserved.bookings hg₁ (horderly.booked hbook₁)
    exact ⟨g₂, hg₂, hbook₁.trans hbook₂⟩
  case isFalse hother =>
    rw [List.append_nil]
    exact ⟨g₁, by rwa [hserved.group?_of_ne (Classical.not_and_iff_not_or_not.1 hother)], hbook₁⟩

/-! ## The other commands -/

variable {s t : Store} {key group : Bytes}

/-- Taking entries from a stream leaves its groups as they are. -/
theorem group?_insert_entries {stream : Stream} (entries : SortedMap EntryId Body)
    (hget : s.get? key = some stream) (k name : Bytes) :
    group? (s.insert key { stream with entries }) k name = s.group? k name := by
  by_cases hk : key = k
  · subst hk
    rw [group?_insert_self, group?_of_get? hget]
  · exact group?_insert_of_ne s name _ hk

theorem delete_group? (s : Store) (key : Bytes) (ids : List String) (k name : Bytes) :
    (s.delete key ids).2.group? k name = s.group? k name := by
  refine (s.delete_intact key ids).behind (P := fun t => t.group? k name = s.group? k name) rfl ?_
  intro n t h
  obtain ⟨ids', -, ⟨-, -, rfl⟩ | ⟨stream, hget, -, rfl⟩⟩ := delete_eq_ok h
  · rfl
  · exact group?_insert_entries _ hget k name

theorem trim_group? (s : Store) (key : Bytes) (count : UInt64) (k name : Bytes) :
    (s.trim key count).2.group? k name = s.group? k name := by
  unfold trim
  split
  case h_1 => rfl
  case h_2 stream hget => exact group?_insert_entries _ hget k name

/-- Replacing a group leaves every other group as it is. -/
theorem group?_putGroup_of_other {stream : Stream} (g : Group) (hget : s.get? key = some stream)
    {k name : Bytes} (hne : ¬ (key = k ∧ group = name)) :
    (s.putGroup key stream group g).group? k name = s.group? k name := by
  by_cases hk : key = k
  · subst hk
    exact group?_putGroup_of_ne g hget fun hgroup => hne ⟨rfl, hgroup⟩
  · exact group?_insert_of_ne s name _ hk

/-- An acknowledgement takes the named entries out of its group, tells how many it took out, and
leaves every other group as it is. -/
theorem acknowledge_group? {ids : List String} {n : Nat}
    (h : s.acknowledge key group ids = (.ok n, t)) :
    (∃ ids', EntryId.readAll ids = .ok ids' ∧
      t.group? key group = (s.group? key group).map (fun g =>
        { g with pending := (g.pending.eraseAll ids').2 }) ∧
      ∀ g, s.group? key group = some g → n = (g.pending.eraseAll ids').1) ∧
    ∀ k name, ¬ (key = k ∧ group = name) → t.group? k name = s.group? k name := by
  obtain ⟨ids', hids, ⟨hnone, -, rfl⟩ | ⟨stream, g, hget, hg, rfl, rfl⟩⟩ := acknowledge_eq_ok h
  · refine ⟨⟨ids', hids, ?_, ?_⟩, fun _ _ _ => rfl⟩
    · rw [hnone]
      rfl
    · intro g hg
      rw [hnone] at hg
      cases hg
  · have hfound : s.group? key group = some g := by rwa [group?_of_get? hget]
    refine ⟨⟨ids', hids, ?_, ?_⟩, fun k name hne => group?_putGroup_of_other _ hget hne⟩
    · rw [hfound, group?_putGroup_self]
      rfl
    · intro g' hg'
      obtain rfl : g = g' := Option.some.inj (hfound.symm.trans hg')
      rfl

/-- Deleting a consumer that the group knows takes out what it held; one that the group does not
know leaves the group as it is. -/
theorem deleteConsumer_group? {consumer : Bytes} {b : Bool}
    (h : s.deleteConsumer key group consumer = (.ok b, t)) :
    (∃ g, s.group? key group = some g ∧ b = g.consumers.contains consumer ∧
      t.group? key group = some (if b then forget g consumer else g)) ∧
    ∀ k name, ¬ (key = k ∧ group = name) → t.group? k name = s.group? k name := by
  obtain ⟨stream, g, hget, hg, rfl, rfl⟩ := deleteConsumer_eq_ok h
  have hfound : s.group? key group = some g := by rwa [group?_of_get? hget]
  split
  case isTrue hknown =>
    refine ⟨⟨g, hfound, rfl, ?_⟩, fun k name hne => group?_putGroup_of_other _ hget hne⟩
    exact group?_putGroup_self ..
  case isFalse hunknown =>
    exact ⟨⟨g, hfound, rfl, hfound⟩, fun _ _ _ => rfl⟩

theorem createGroup_group? {token : String} (h : s.createGroup key token group = (.ok (), t)) :
    (∃ start, s.group? key group = none ∧ t.group? key group = some (.startingAt start)) ∧
    ∀ k name, ¬ (key = k ∧ group = name) → t.group? k name = s.group? k name := by
  obtain ⟨stream, start, hget, hnew, -, rfl⟩ := createGroup_eq_ok h
  refine ⟨⟨start, by rwa [group?_of_get? hget], group?_putGroup_self ..⟩, ?_⟩
  exact fun k name hne => group?_putGroup_of_other _ hget hne

/-- What a consumer holds in a group. -/
def held (g : Group) (consumer : Bytes) : Nat := g.pending.toList.countP (·.2 == consumer)

theorem size_forget (g : Group) (consumer : Bytes) :
    (forget g consumer).pending.size + held g consumer = g.pending.size := by
  have hheld : held g consumer =
      g.pending.toList.countP (fun p => !(fun _ holder => holder != consumer) p.1 p.2) := by
    simp only [held, bne, Bool.not_not]
  rw [hheld]
  exact SortedMap.size_filter_add ..

theorem get?_forget {g : Group} {consumer c : Bytes} {id : EntryId} :
    (forget g consumer).pending.get? id = some c ↔
      g.pending.get? id = some c ∧ consumer ≠ c := by
  unfold forget
  rw [SortedMap.get?_filter, Option.filter_eq_some_iff, bne_iff_ne, ne_comm]

/-- Forgetting a consumer keeps a group orderly. -/
theorem orderly_forget {g : Group} (h : g.Orderly) (consumer : Bytes) :
    (forget g consumer).Orderly := by
  refine ⟨fun id c hget => h.place id c (get?_forget.1 hget).1, ?_⟩
  intro id c hget
  obtain ⟨hheld, hne⟩ := get?_forget.1 hget
  have hknown := h.known id c hheld
  unfold SortedMap.contains at hknown ⊢
  unfold forget
  rwa [SortedMap.get?_erase_of_ne _ hne]

/-- A consumer that a group does not know holds nothing, so deleting it or not makes no difference
to what is pending. -/
theorem pending_dismissed {g : Group} (h : g.Orderly) (consumer : Bytes) :
    (if g.consumers.contains consumer then forget g consumer else g).pending =
      (forget g consumer).pending := by
  split
  case isTrue => rfl
  case isFalse hunknown =>
    apply SortedMap.ext_get?
    intro id
    apply Option.ext
    intro c
    rw [get?_forget]
    refine ⟨fun hheld => ⟨hheld, ?_⟩, And.left⟩
    rintro rfl
    exact hunknown (h.known id _ hheld)

end Store

end StreamBroker
