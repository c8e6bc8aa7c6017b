import StreamBroker.Proofs.Store.Frame
import StreamBroker.Store.Read
set_option autoImplicit false

/-!
# Group reads

A group read serves its cursors one after the other, each on the store that the one before it left.
What one serving does is said once (`Handover`): the entries that are new to the group lie above its
place, in order and without a gap, and the group moves up to the last of them.  What holds of a
whole read follows by an induction on the servings done so far (`serveAll_induction`).

Main statements: `serve_handover`, `serveAll_induction` and `readGroup_eq`.
-/

namespace StreamBroker

theorem takeCount_isPrefix {α : Type} (count : Option UInt64) (l : List α) :
    takeCount count l <+: l := by
  unfold takeCount
  split
  · exact List.prefix_rfl
  · split
    · exact List.prefix_rfl
    · exact List.take_prefix _ l

theorem takeCount_eq_nil_iff {α : Type} {count : Option UInt64} {l : List α} :
    takeCount count l = [] ↔ l = [] := by
  unfold takeCount
  split
  · rfl
  · split
    · rfl
    case isFalse n hn =>
      have hpos : n.toNat ≠ 0 := fun h => hn (UInt64.toNat_inj.1 h)
      rw [List.take_eq_nil_iff]
      exact ⟨fun h => h.resolve_left hpos, Or.inr⟩

/-- A count that lets everything through. -/
def Unlimited (count : Option UInt64) : Prop := count = none ∨ count = some 0

theorem takeCount_of_unlimited {α : Type} {count : Option UInt64} (h : Unlimited count)
    (l : List α) : takeCount count l = l := by
  rcases h with rfl | rfl <;> rfl

/-- The last of a list in order is the greatest. -/
theorem le_getLast_of_pairwise {α : Type} {id : α → EntryId} {l : List α} {p last : α}
    (hsorted : l.Pairwise fun p q => id p < id q) (hp : p ∈ l) (hlast : l.getLast? = some last) :
    id p ≤ id last := by
  obtain ⟨front, rfl⟩ := List.getLast?_eq_some_iff.1 hlast
  rcases List.mem_append.1 hp with hfront | hself
  · have hlt := (List.pairwise_append.1 hsorted).2.2 p hfront last (List.mem_singleton.2 rfl)
    exact EntryId.le_of_lt hlt
  · rw [List.mem_singleton.1 hself]
    exact EntryId.le_refl _

/-- Of a list in order, what is not above the last of a prefix belongs to the prefix. -/
theorem mem_prefix_of_le_getLast {α : Type} {front back : List (EntryId × α)} {p last : EntryId × α}
    (hsorted : (front ++ back).Pairwise fun p q => p.1 < q.1) (hp : p ∈ front ++ back)
    (hlast : front.getLast? = some last) (hle : p.1 ≤ last.1) : p ∈ front := by
  rcases List.mem_append.1 hp with hfront | hback
  · exact hfront
  · have hlt := (List.pairwise_append.1 hsorted).2.2 last (List.mem_of_getLast? hlast) p hback
    exact absurd (EntryId.lt_of_lt_of_le hlt hle) (EntryId.lt_irrefl _)

/-- What a serving gave that was new to its group. -/
def Serving.news (v : Serving) : List (EntryId × Body) :=
  match v.cursor with
  | .undelivered => v.entries
  | .after _ => []

/-- What a read got for an entry is a message of the cursor that got the entry. -/
theorem Serving.mem_messages {servings : List Serving} {key : Bytes} {id : EntryId} {body : Body} :
    .ofEntry key id body ∈ servings.flatMap messages ↔
      ∃ v ∈ servings, v.key = key ∧ (id, body) ∈ v.entries := by
  rw [List.mem_flatMap]
  refine exists_congr fun v => and_congr_right fun _ => ?_
  unfold messages
  rw [List.mem_map]
  constructor
  · rintro ⟨p, hp, heq⟩
    injection heq with hkey htext hbody
    obtain rfl : p = (id, body) := Prod.ext (EntryId.text_injective htext) hbody
    exact ⟨hkey, hp⟩
  · rintro ⟨rfl, hp⟩
    exact ⟨(id, body), hp, rfl⟩

/-- What a serving gave anew is among what it gave. -/
theorem Serving.mem_entries_of_mem_news {v : Serving} {p : EntryId × Body} (h : p ∈ v.news) :
    p ∈ v.entries := by
  unfold news at h
  split at h
  · exact h
  · cases h

/-- A group hands out entries of its stream: the new ones lie above its place, in order and without
a gap, and it moves up to the last of them. -/
structure Handover (stream : Stream) (g g' : Group) (news : List (EntryId × Body)) : Prop where
  bound : ∀ p ∈ news, stream.entries.get? p.1 = some p.2
  above : ∀ p ∈ news, g.lastDelivered < p.1
  sorted : news.Pairwise fun p q => p.1 < q.1
  moved : g'.lastDelivered = (news.getLast?.map (·.1)).getD g.lastDelivered
  gapless : ∀ id body, stream.entries.get? id = some body → g.lastDelivered < id →
    id ≤ g'.lastDelivered → (id, body) ∈ news

namespace Handover

variable {stream : Stream} {g g' : Group} {news : List (EntryId × Body)}

theorem le_moved (h : Handover stream g g' news) : ∀ p ∈ news, p.1 ≤ g'.lastDelivered := by
  intro p hp
  rw [h.moved]
  cases hlast : news.getLast? with
  | none =>
      rw [List.getLast?_eq_none_iff.1 hlast] at hp
      cases hp
  | some last => exact le_getLast_of_pairwise h.sorted hp hlast

/-- A group never moves down. -/
theorem advances (h : Handover stream g g' news) : g.lastDelivered ≤ g'.lastDelivered := by
  cases news with
  | nil =>
      rw [h.moved]
      exact EntryId.le_refl _
  | cons p rest =>
      have hp : p ∈ p :: rest := List.mem_cons_self
      exact EntryId.le_trans (EntryId.le_of_lt (h.above p hp)) (h.le_moved p hp)

/-- A group that hands out something moves up. -/
theorem advances_of_ne_nil (h : Handover stream g g' news) (hne : news ≠ []) :
    g.lastDelivered < g'.lastDelivered := by
  obtain ⟨p, hp⟩ := List.exists_mem_of_ne_nil news hne
  exact EntryId.lt_of_lt_of_le (h.above p hp) (h.le_moved p hp)

end Handover

namespace Store

/-! ## One serving -/

theorem lastDelivered_deliver (g : Group) (consumer : Bytes) (noAck : Bool)
    (entries : List (EntryId × Body)) :
    (deliver g consumer noAck entries).lastDelivered =
      (entries.getLast?.map (·.1)).getD g.lastDelivered := by
  induction entries generalizing g with
  | nil => rfl
  | cons p rest ih =>
      unfold deliver at ih ⊢
      rw [List.foldl_cons, ih, List.getLast?_cons]
      cases rest.getLast? <;> rfl

theorem consumers_deliver (g : Group) (consumer : Bytes) (noAck : Bool)
    (entries : List (EntryId × Body)) :
    (deliver g consumer noAck entries).consumers = g.consumers := by
  induction entries generalizing g with
  | nil => rfl
  | cons p rest ih =>
      unfold deliver at ih ⊢
      rw [List.foldl_cons, ih]

theorem consumers_serve (stream : Stream) (g : Group) (consumer : Bytes) (count : Option UInt64)
    (noAck : Bool) (cursor : Cursor) :
    (serve stream g consumer count noAck cursor).2.consumers = g.consumers.insert consumer () := by
  cases cursor with
  | after id => rfl
  | undelivered => exact consumers_deliver ..

theorem serve_handover (stream : Stream) (g : Group) (key consumer : Bytes)
    (count : Option UInt64) (noAck : Bool) (cursor : Cursor) :
    Handover stream g (serve stream g consumer count noAck cursor).2
      (Serving.news ⟨key, cursor, (serve stream g consumer count noAck cursor).1⟩) := by
  cases cursor with
  | after id =>
      refine ⟨by simp [Serving.news], by simp [Serving.news], .nil, rfl, ?_⟩
      intro id' body _ hlt hle
      exact absurd (EntryId.lt_of_lt_of_le hlt hle) (EntryId.lt_irrefl _)
  | undelivered =>
      obtain ⟨back, hback⟩ := takeCount_isPrefix count (stream.entries.above g.lastDelivered)
      simp only [serve, Serving.news]
      have hmem : ∀ p ∈ takeCount count (stream.entries.above g.lastDelivered),
          stream.entries.get? p.1 = some p.2 ∧ g.lastDelivered < p.1 := by
        intro p hp
        exact SortedMap.mem_above.1 (hback ▸ List.mem_append_left back hp)
      have hsorted := SortedMap.pairwise_above stream.entries g.lastDelivered
      refine ⟨fun p hp => (hmem p hp).1, fun p hp => (hmem p hp).2, ?_,
        lastDelivered_deliver .., ?_⟩
      · rw [← hback, List.pairwise_append] at hsorted
        exact hsorted.1
      · intro id body hget hlt hle
        rw [lastDelivered_deliver] at hle
        cases hlast : (takeCount count (stream.entries.above g.lastDelivered)).getLast? with
        | none =>
            rw [hlast] at hle
            exact absurd (EntryId.lt_of_lt_of_le hlt hle) (EntryId.lt_irrefl _)
        | some last =>
            rw [hlast] at hle
            have hp : (id, body) ∈ stream.entries.above g.lastDelivered :=
              SortedMap.mem_above.2 ⟨hget, hlt⟩
            rw [← hback] at hsorted hp
            exact mem_prefix_of_le_getLast hsorted hp hlast hle

/-- One cursor is served: its key has the group, which becomes the one that served it. -/
inductive Served (consumer : Consumer) (count : Option UInt64) (noAck : Bool) (s : Store) :
    Serving → Store → Prop where
  | intro {key : Bytes} {stream : Stream} {g : Group} (cursor : Cursor)
      (hget : s.get? key = some stream) (hg : stream.groups.get? consumer.group = some g) :
      Served consumer count noAck s
        ⟨key, cursor, (serve stream g consumer.name count noAck cursor).1⟩
        (s.putGroup key stream consumer.group (serve stream g consumer.name count noAck cursor).2)

/-- A group that has not moved down and has forgotten nobody. -/
structure Onward (g g' : Group) : Prop where
  lastDelivered : g.lastDelivered ≤ g'.lastDelivered
  consumers : ∀ c, g.consumers.contains c → g'.consumers.contains c

theorem Onward.refl (g : Group) : Onward g g := ⟨EntryId.le_refl _, fun _ h => h⟩

namespace Served

variable {consumer : Consumer} {count : Option UInt64} {noAck : Bool} {s t : Store} {v : Serving}

theorem shrinks (h : Served consumer count noAck s v t) : s.Shrinks t := by
  cases h with
  | intro cursor hget hg => exact shrinks_putGroup _ _ hget

theorem handover (h : Served consumer count noAck s v t) :
    ∃ stream g g', s.get? v.key = some stream ∧ stream.groups.get? consumer.group = some g ∧
      group? t v.key consumer.group = some g' ∧ Handover stream g g' v.news ∧
      g'.consumers = g.consumers.insert consumer.name () := by
  cases h with
  | @intro key stream g cursor hget hg =>
      exact ⟨stream, g, _, hget, hg, group?_putGroup_self .., serve_handover .., consumers_serve ..⟩

/-- Serving a cursor leaves every group alone but the one that is read. -/
theorem group?_of_ne (h : Served consumer count noAck s v t) {k name : Bytes}
    (hne : v.key ≠ k ∨ consumer.group ≠ name) : t.group? k name = s.group? k name := by
  cases h with
  | @intro key stream g cursor hget hg =>
      by_cases hk : key = k
      · subst hk
        exact group?_putGroup_of_ne _ hget (hne.resolve_left fun hkey => hkey rfl)
      · exact group?_insert_of_ne s name _ hk

theorem onward (h : Served consumer count noAck s v t) {k name : Bytes} {g : Group}
    (hg : s.group? k name = some g) : ∃ g', t.group? k name = some g' ∧ Onward g g' := by
  by_cases hsame : v.key = k ∧ consumer.group = name
  · obtain ⟨rfl, rfl⟩ := hsame
    obtain ⟨stream, g₀, g', hget, hg₀, hg', hhand, hknown⟩ := h.handover
    rw [group?, hget] at hg
    obtain rfl : g₀ = g := Option.some.inj (hg₀.symm.trans hg)
    refine ⟨g', hg', hhand.advances, ?_⟩
    intro c hc
    rw [hknown]
    exact SortedMap.contains_insert_of_contains _ _ hc
  · have hne : v.key ≠ k ∨ consumer.group ≠ name := Classical.not_and_iff_not_or_not.1 hsame
    exact ⟨g, (h.group?_of_ne hne).trans hg, .refl g⟩

/-- Serving a cursor makes no group and removes none. -/
theorem isSome_group? (h : Served consumer count noAck s v t) (k name : Bytes) :
    (t.group? k name).isSome = (s.group? k name).isSome := by
  by_cases hsame : v.key = k ∧ consumer.group = name
  · obtain ⟨rfl, rfl⟩ := hsame
    obtain ⟨stream, g, g', hget, hg, hg', -⟩ := h.handover
    rw [hg', group?, hget, Option.bind_some, hg]
    rfl
  · rw [h.group?_of_ne (Classical.not_and_iff_not_or_not.1 hsame)]

end Served

/-! ## A whole read -/

section Reads

variable {consumer : Consumer} {count : Option UInt64} {noAck : Bool}

/-- Whether the key of a cursor has a group. -/
def hasGroup (s : Store) (name : Bytes) (p : Bytes × Cursor) : Bool := (s.group? p.1 name).isSome

/-- A read ends at a cursor whose key lacks the group, and serves any other. -/
theorem serveAll_cons (consumer : Consumer) (count : Option UInt64) (noAck : Bool)
    (p : Bytes × Cursor) (s : Store) :
    (¬ s.hasGroup consumer.group p ∧
        ∀ rest, serveAll consumer count noAck (p :: rest) s = ([], s)) ∨
      ∃ v t, Served consumer count noAck s v t ∧ (v.key, v.cursor) = p ∧
        s.hasGroup consumer.group p ∧
        ∀ rest, serveAll consumer count noAck (p :: rest) s =
          (v :: (serveAll consumer count noAck rest t).1,
            (serveAll consumer count noAck rest t).2) := by
  obtain ⟨key, cursor⟩ := p
  unfold hasGroup
  cases hget : s.get? key with
  | none =>
      have hgroup : s.group? key consumer.group = none := by
        unfold group?
        rw [hget]
        rfl
      refine .inl ⟨by simp [hgroup], ?_⟩
      intro rest
      simp only [serveAll, hget]
  | some stream =>
      have hgroup := group?_of_get? hget consumer.group
      cases hg : stream.groups.get? consumer.group with
      | none =>
          refine .inl ⟨by simp [hgroup, hg], ?_⟩
          intro rest
          simp only [serveAll, hget, hg]
      | some g =>
          refine .inr ⟨_, _, .intro cursor hget hg, rfl, by simp [hgroup, hg], ?_⟩
          intro rest
          simp only [serveAll, hget, hg]

/-- What the servings so far and the store have in common holds at the end of a read, if serving one
more cursor keeps it. -/
theorem serveAll_induction {P : List Serving → Store → Prop}
    (hstep : ∀ done s v t, P done s → Served consumer count noAck s v t → P (done ++ [v]) t)
    (cursors : List (Bytes × Cursor)) (done : List Serving) (s : Store) (h : P done s) :
    P (done ++ (serveAll consumer count noAck cursors s).1)
      (serveAll consumer count noAck cursors s).2 := by
  induction cursors generalizing done s with
  | nil => rwa [serveAll, List.append_nil]
  | cons p rest ih =>
      rcases serveAll_cons consumer count noAck p s with
        ⟨-, hends⟩ | ⟨v, t, hserved, -, -, hgoes⟩
      · rwa [hends, List.append_nil]
      · have hrest := ih _ _ (hstep done s v t h hserved)
        rw [hgoes]
        rwa [List.append_assoc] at hrest

/-- What serving one cursor keeps is kept by a whole read. -/
theorem serveAll_keeps {P : Store → Prop}
    (hstep : ∀ s v t, P s → Served consumer count noAck s v t → P t)
    (cursors : List (Bytes × Cursor)) (s : Store) (h : P s) :
    P (serveAll consumer count noAck cursors s).2 :=
  serveAll_induction (P := fun _ s => P s) (fun _ s v t => hstep s v t) cursors [] s h

theorem serveAll_shrinks (cursors : List (Bytes × Cursor)) (s : Store) :
    s.Shrinks (serveAll consumer count noAck cursors s).2 :=
  serveAll_keeps (P := s.Shrinks) (fun _ _ _ h hserved => h.trans hserved.shrinks) cursors s (.refl s)

/-- A read forgets no group, moves none down and makes none forget a consumer. -/
theorem serveAll_onward (cursors : List (Bytes × Cursor)) {s : Store} {k name : Bytes} {g : Group}
    (hg : s.group? k name = some g) :
    ∃ g', group? (serveAll consumer count noAck cursors s).2 k name = some g' ∧ Onward g g' := by
  refine serveAll_keeps (P := fun t => ∃ g', t.group? k name = some g' ∧ Onward g g')
    ?_ cursors s ⟨g, hg, .refl g⟩
  rintro s v t ⟨g₁, hg₁, h₁⟩ hserved
  obtain ⟨g₂, hg₂, h₂⟩ := hserved.onward hg₁
  exact ⟨g₂, hg₂, EntryId.le_trans h₁.lastDelivered h₂.lastDelivered,
    fun c hc => h₂.consumers c (h₁.consumers c hc)⟩

theorem Served.hasGroup_eq {s t : Store} {v : Serving} (h : Served consumer count noAck s v t)
    (name : Bytes) : t.hasGroup name = s.hasGroup name :=
  funext fun p => h.isSome_group? p.1 name

/-- A read serves its cursors up to the first whose key lacks the group. -/
theorem serveAll_cursors (cursors : List (Bytes × Cursor)) (s : Store) :
    (serveAll consumer count noAck cursors s).1.map (fun v => (v.key, v.cursor)) =
      cursors.takeWhile (s.hasGroup consumer.group) := by
  induction cursors generalizing s with
  | nil => rfl
  | cons p rest ih =>
      rcases serveAll_cons consumer count noAck p s with
        ⟨hlacks, hends⟩ | ⟨v, t, hserved, rfl, hhas, hgoes⟩
      · rw [hends, List.takeWhile_cons_of_neg hlacks]
        rfl
      · rw [hgoes, List.takeWhile_cons_of_pos hhas, List.map_cons, ih, hserved.hasGroup_eq]

/-- A read is refused if the key of a cursor lacks the group; the first such cursor decides. -/
theorem readGroup_eq (cursors : List (Bytes × Cursor)) (s : Store) :
    readGroup consumer count noAck cursors s =
      (match cursors.dropWhile (s.hasGroup consumer.group) with
        | [] => .ok ((serveAll consumer count noAck cursors s).1.flatMap Serving.messages)
        | (key, _) :: _ => .error (.noGroup key consumer.group),
      (serveAll consumer count noAck cursors s).2) := by
  have hcursors : (serveAll consumer count noAck cursors s).1.map (fun v => (v.key, v.cursor)) =
      cursors.takeWhile (s.hasGroup consumer.group) := serveAll_cursors cursors s
  have hlength : (serveAll consumer count noAck cursors s).1.length =
      (cursors.takeWhile (s.hasGroup consumer.group)).length := by
    rw [← hcursors, List.length_map]
  have hsplit : cursors.takeWhile (s.hasGroup consumer.group) ++
      cursors.dropWhile (s.hasGroup consumer.group) = cursors := List.takeWhile_append_dropWhile
  have hdrop : cursors.drop (serveAll consumer count noAck cursors s).1.length =
      cursors.dropWhile (s.hasGroup consumer.group) := by
    rw [hlength]
    calc cursors.drop (cursors.takeWhile (s.hasGroup consumer.group)).length
      _ = (cursors.takeWhile (s.hasGroup consumer.group) ++
            cursors.dropWhile (s.hasGroup consumer.group)).drop
            (cursors.takeWhile (s.hasGroup consumer.group)).length := by rw [hsplit]
      _ = cursors.dropWhile (s.hasGroup consumer.group) := List.drop_left
  unfold readGroup
  simp only [hdrop]
  cases cursors.dropWhile (s.hasGroup consumer.group) with
  | nil => rfl
  | cons p rest => rfl

/-- A read is not refused if all its keys have the group. -/
theorem readGroup_of_hasGroup {cursors : List (Bytes × Cursor)} {s : Store}
    (h : ∀ p ∈ cursors, s.hasGroup consumer.group p) :
    readGroup consumer count noAck cursors s =
      (.ok ((serveAll consumer count noAck cursors s).1.flatMap Serving.messages),
      (serveAll consumer count noAck cursors s).2) := by
  have hnone : cursors.dropWhile (s.hasGroup consumer.group) = [] := by
    rw [← List.append_nil cursors, List.dropWhile_append_of_pos h]
    rfl
  rw [readGroup_eq, hnone]

/-- The store that a read leaves behind is that of a read of the cursors it served. -/
theorem serveAll_takeWhile (cursors : List (Bytes × Cursor)) (s : Store) :
    serveAll consumer count noAck (cursors.takeWhile (s.hasGroup consumer.group)) s =
      serveAll consumer count noAck cursors s := by
  induction cursors generalizing s with
  | nil => rfl
  | cons p rest ih =>
      rcases serveAll_cons consumer count noAck p s with
        ⟨hlacks, hends⟩ | ⟨v, t, hserved, -, hhas, hgoes⟩
      · rw [hends, List.takeWhile_cons_of_neg hlacks]
        rfl
      · rw [hgoes, List.takeWhile_cons_of_pos hhas, hgoes, ← hserved.hasGroup_eq, ih]

/-- A read that is not refused has served all its cursors, and returns what they got. -/
theorem readGroup_eq_ok {cursors : List (Bytes × Cursor)} {s : Store} {messages : List Message}
    (h : (readGroup consumer count noAck cursors s).1 = .ok messages) :
    (serveAll consumer count noAck cursors s).1.map (fun v => (v.key, v.cursor)) = cursors ∧
      messages = (serveAll consumer count noAck cursors s).1.flatMap Serving.messages := by
  rw [readGroup_eq] at h
  have hsplit : cursors.takeWhile (s.hasGroup consumer.group) ++
      cursors.dropWhile (s.hasGroup consumer.group) = cursors := List.takeWhile_append_dropWhile
  cases hrest : cursors.dropWhile (s.hasGroup consumer.group) with
  | nil =>
      rw [hrest] at h hsplit
      rw [List.append_nil] at hsplit
      rw [serveAll_cursors, hsplit]
      exact ⟨rfl, (Except.ok.inj h).symm⟩
  | cons p rest =>
      rw [hrest] at h
      cases h

theorem attempt_plain (s : Store) (count : Option UInt64) (noAck : Bool)
    (cursors : List (Bytes × Cursor)) :
    s.attempt none count noAck cursors = (.ok (s.readPlain count cursors), s) := rfl

theorem attempt_group_store (s : Store) (consumer : Consumer) (count : Option UInt64)
    (noAck : Bool) (cursors : List (Bytes × Cursor)) :
    (s.attempt (some consumer) count noAck cursors).2 =
      (serveAll consumer count noAck cursors s).2 := by
  rw [attempt, readGroup_eq]

/-! ## Nothing left to hand out -/

/-- The stream of a key has no entry above the place of a group. -/
def Drained (s : Store) (key group : Bytes) : Prop :=
  ∃ stream g, s.get? key = some stream ∧ s.group? key group = some g ∧
    stream.entries.above g.lastDelivered = []

/-- What adds no entry and moves a group up at most leaves it without anything to hand out. -/
theorem Drained.mono {s t : Store} {key group : Bytes} (h : s.Drained key group)
    (hwithin : Option.Rel Stream.Within (t.get? key) (s.get? key))
    (hplace : ∀ g, s.group? key group = some g →
      ∃ g', t.group? key group = some g' ∧ g.lastDelivered ≤ g'.lastDelivered) :
    t.Drained key group := by
  obtain ⟨stream, g, hget, hg, hnothing⟩ := h
  obtain ⟨stream', hget', hin⟩ := Stream.Within.of_rel hwithin hget
  obtain ⟨g', hg', hle⟩ := hplace g hg
  have hfewer : stream'.entries.above g.lastDelivered = [] :=
    SortedMap.above_eq_nil_of_subset hin.entries hnothing
  exact ⟨stream', g', hget', hg', SortedMap.above_eq_nil_of_le hle hfewer⟩

theorem Served.drained {s t : Store} {v : Serving} (h : Served consumer count noAck s v t)
    {key group : Bytes} (hdrained : s.Drained key group) : t.Drained key group := by
  apply hdrained.mono (h.shrinks key)
  intro g hg
  obtain ⟨g', hg', honward⟩ := h.onward hg
  exact ⟨g', hg', honward.lastDelivered⟩

/-- A cursor drains its group if it takes everything, or if there was nothing to take. -/
theorem Served.drains {s t : Store} {v : Serving} (h : Served consumer count noAck s v t)
    (hcursor : v.cursor = .undelivered) (hall : Unlimited count ∨ v.entries = []) :
    t.Drained v.key consumer.group := by
  cases h with
  | @intro key stream g cursor hget hg =>
      obtain rfl : cursor = .undelivered := hcursor
      have hhand := serve_handover stream g key consumer.name count noAck .undelivered
      have htaken : takeCount count (stream.entries.above g.lastDelivered) =
          stream.entries.above g.lastDelivered := by
        rcases hall with hcount | hnothing
        · exact takeCount_of_unlimited hcount _
        · have hempty : takeCount count (stream.entries.above g.lastDelivered) = [] := hnothing
          rw [hempty, takeCount_eq_nil_iff.1 hempty]
      refine ⟨_, _, SortedMap.get?_insert_self .., group?_putGroup_self .., ?_⟩
      rw [List.eq_nil_iff_forall_not_mem]
      intro p hp
      obtain ⟨hbound, hlt⟩ := SortedMap.mem_above.1 hp
      have habove : p ∈ stream.entries.above g.lastDelivered :=
        SortedMap.mem_above.2 ⟨hbound, EntryId.lt_of_le_of_lt hhand.advances hlt⟩
      rw [← htaken] at habove
      have hle := hhand.le_moved p habove
      exact absurd (EntryId.lt_of_le_of_lt hle hlt) (EntryId.lt_irrefl _)

/-- After a read nothing is left behind the cursors that took everything or found nothing. -/
theorem serveAll_drains (cursors : List (Bytes × Cursor)) (s : Store) :
    ∀ v ∈ (serveAll consumer count noAck cursors s).1, v.cursor = .undelivered →
      Unlimited count ∨ v.entries = [] →
      Drained (serveAll consumer count noAck cursors s).2 v.key consumer.group := by
  refine serveAll_induction (P := fun done t => ∀ v ∈ done, v.cursor = .undelivered →
    Unlimited count ∨ v.entries = [] → t.Drained v.key consumer.group) ?_ cursors [] s (by simp)
  intro done s v t hdone hserved u hu hcursor hall
  rcases List.mem_append.1 hu with hearlier | hnow
  · exact hserved.drained (hdone u hearlier hcursor hall)
  · obtain rfl := List.mem_singleton.1 hnow
    exact hserved.drains hcursor hall

end Reads

end Store

end StreamBroker
