import StreamBroker.Proofs.Store.Backing
import StreamBroker.Proofs.Store.Footprint
import StreamBroker.Proofs.Store.Foremost
set_option autoImplicit false

/-!
# What a consumer still holds

A cursor of a group read that stands at an identifier goes through the history of its consumer: the
entries behind the identifier that are pending for this consumer and for nobody else, each with its
body, or with an empty one where the entry was deleted meanwhile (`Store.InHistory`).  Serving such a
cursor makes the consumer known to the group and changes nothing else (`Store.Joined`), so the history
is the same afterwards.
-/

namespace StreamBroker.Store

/-- What the history of a consumer has behind an identifier. -/
structure InHistory (s : Store) (key : Bytes) (consumer : Consumer) (start : EntryId)
    (p : EntryId × Body) : Prop where
  behind : start < p.1
  held : s.Holds key consumer p.1
  body : s.Has key p ∨ s.Lacks key p.1 ∧ p.2 = ∅

/-- The history of a consumer behind an identifier, in order. -/
def history (s : Store) (key : Bytes) (consumer : Consumer) (start : EntryId) :
    List (EntryId × Body) :=
  match s.get? key, s.group? key consumer.group with
  | some stream, some g =>
    ((g.pending.above start).filter fun p => p.2 == consumer.name).map fun p =>
      (p.1, (stream.entries.get? p.1).getD ∅)
  | _, _ => []

/-- A group has come to know a consumer, and nothing else has changed. -/
structure Joined (s t : Store) (key : Bytes) (consumer : Consumer) : Prop where
  known : ∀ g, s.group? key consumer.group = some g →
    t.group? key consumer.group = some { g with consumers := g.consumers.insert consumer.name () }
  others : ∀ place, place ≠ .group key consumer.group → t.Alike s place

variable {s t u : Store} {key : Bytes} {consumer : Consumer} {stream : Stream} {g : Group}
  {start id : EntryId} {p : EntryId × Body} {count : Option UInt64} {noAck : Bool}

/-! ## The history as a list -/

theorem history_eq (hget : s.get? key = some stream)
    (hg : stream.groups.get? consumer.group = some g) :
    s.history key consumer start =
      ((g.pending.above start).filter fun p => p.2 == consumer.name).map fun p =>
        (p.1, (stream.entries.get? p.1).getD ∅) := by
  unfold history
  simp only [hget, group?_of_get? hget, hg]

/-- A body is the one that is stored, or empty if none is. -/
theorem body_eq_iff (hget : s.get? key = some stream) :
    (s.Has key p ∨ s.Lacks key p.1 ∧ p.2 = ∅) ↔ (stream.entries.get? p.1).getD ∅ = p.2 := by
  have hhas : ∀ body, s.Has key (p.1, body) ↔ stream.entries.get? p.1 = some body := by
    intro body
    unfold Has
    rw [hget]
    exact ⟨fun ⟨_, hsame, hbody⟩ => Option.some.inj hsame ▸ hbody, fun h => ⟨stream, rfl, h⟩⟩
  have hself : s.Has key p ↔ stream.entries.get? p.1 = some p.2 := hhas p.2
  unfold Lacks
  simp only [hself, hhas]
  cases stream.entries.get? p.1 with
  | none => simp [eq_comm]
  | some body => simp

theorem mem_history : p ∈ s.history key consumer start ↔ s.InHistory key consumer start p := by
  cases hgroup : s.group? key consumer.group with
  | none =>
      have hnothing : s.history key consumer start = [] := by
        unfold history
        rw [hgroup]
        cases s.get? key <;> rfl
      refine ⟨fun h => ?_, fun h => ?_⟩
      · rw [hnothing] at h
        cases h
      · obtain ⟨g, hg, -⟩ := h.held
        rw [hgroup] at hg
        cases hg
  | some g =>
      obtain ⟨stream, hget, hg⟩ := Option.bind_eq_some_iff.1 hgroup
      have hholds : s.Holds key consumer p.1 ↔ g.pending.get? p.1 = some consumer.name := by
        unfold Holds
        rw [hgroup]
        exact ⟨fun ⟨_, hsame, h⟩ => Option.some.inj hsame ▸ h, fun h => ⟨g, rfl, h⟩⟩
      rw [history_eq hget hg, List.mem_map]
      constructor
      · rintro ⟨q, hq, rfl⟩
        obtain ⟨habove, hname⟩ := List.mem_filter.1 hq
        obtain ⟨hpending, hlt⟩ := SortedMap.mem_above.1 habove
        rw [eq_of_beq hname] at hpending
        exact ⟨hlt, hholds.2 hpending, (body_eq_iff hget).2 rfl⟩
      · rintro ⟨hlt, hheld, hbody⟩
        refine ⟨(p.1, consumer.name), List.mem_filter.2 ⟨?_, beq_self_eq_true _⟩, ?_⟩
        · exact SortedMap.mem_above.2 ⟨hholds.1 hheld, hlt⟩
        · exact Prod.ext rfl ((body_eq_iff hget).1 hbody)

theorem pairwise_history (s : Store) (key : Bytes) (consumer : Consumer) (start : EntryId) :
    (s.history key consumer start).Pairwise fun p q => p.1 < q.1 := by
  unfold history
  split
  case h_1 stream g _ _ =>
    rw [List.pairwise_map]
    exact (SortedMap.pairwise_above g.pending start).filter _
  case h_2 => exact .nil

/-- The first of the history of a consumer. -/
theorem foremost_history_iff (s : Store) (key : Bytes) (consumer : Consumer) (start : EntryId)
    (count : Option UInt64) (l : List (EntryId × Body)) :
    Foremost (s.InHistory key consumer start) count l ↔
      l = takeCount count (s.history key consumer start) :=
  foremost_iff (s.pairwise_history key consumer start) (fun _ => mem_history) count l

/-- What the history has behind a later identifier is what comes behind that in it. -/
theorem history_behind (h : start ≤ id) :
    s.history key consumer id = (s.history key consumer start).filter fun p => id < p.1 := by
  refine SortedMap.eq_of_pairwise_of_mem_iff (s.pairwise_history key consumer id)
    ((s.pairwise_history key consumer start).filter _) fun p => ?_
  rw [List.mem_filter, mem_history, mem_history, decide_eq_true_iff]
  constructor
  · rintro ⟨hlt, hheld, hbody⟩
    exact ⟨⟨EntryId.lt_of_le_of_lt h hlt, hheld, hbody⟩, hlt⟩
  · rintro ⟨⟨-, hheld, hbody⟩, hlt⟩
    exact ⟨hlt, hheld, hbody⟩

/-- The history behind the last entry of a page is what the page left. -/
theorem history_behind_page
    (h : (takeCount count (s.history key consumer start)).getLast? = some p) :
    s.history key consumer p.1 = (s.history key consumer start).drop
      (takeCount count (s.history key consumer start)).length := by
  have hp : p ∈ s.history key consumer start := mem_of_mem_takeCount (List.mem_of_getLast? h)
  rw [history_behind (EntryId.le_of_lt (mem_history.1 hp).behind)]
  exact filter_behind_piece (s.pairwise_history key consumer start) h

/-- Where a group has come to know a consumer, the history of the consumer is as before. -/
theorem Joined.history_eq (h : s.Joined t key consumer)
    (hgroup : s.group? key consumer.group = some g) (start : EntryId) :
    t.history key consumer start = s.history key consumer start := by
  obtain ⟨stream, hget, hg⟩ := Option.bind_eq_some_iff.1 hgroup
  obtain ⟨stream', hget', hg'⟩ := Option.bind_eq_some_iff.1 (h.known g hgroup)
  have halike : t.Alike s (.entries key) := h.others _ (by simp)
  rcases get?_of_alike halike with ⟨hnone, -⟩ | ⟨a, b, ha, hb, hentries, -⟩
  · rw [hnone] at hget'
    cases hget'
  · obtain rfl := Option.some.inj (hget'.symm.trans ha)
    obtain rfl := Option.some.inj (hget.symm.trans hb)
    rw [Store.history_eq hget' hg', Store.history_eq hget hg, hentries]

/-! ## Serving a cursor at an identifier

A read that serves such a cursor among others serves it in the store that the cursors before it left,
and goes on in the store that it leaves. -/

/-- A cursor at an identifier gets the history behind it, and its consumer becomes known. -/
theorem Served.history {v : Serving} (h : Served consumer count noAck s v t)
    (hcursor : v.cursor = .after start) :
    v.entries = takeCount count (s.history v.key consumer start) ∧ s.Joined t v.key consumer := by
  cases h with
  | @intro key stream g cursor hget hg =>
      obtain rfl : cursor = .after start := hcursor
      refine ⟨?_, fun g₀ hg₀ => ?_, fun place hplace => alike_putGroup hget _ hplace⟩
      · rw [Store.history_eq hget hg, takeCount_map]
        rfl
      · obtain rfl := Option.some.inj (hg₀.symm.trans ((group?_of_get? hget _).trans hg))
        exact group?_putGroup_self ..

theorem map_prepend (front back : List Message) (outcome : Except Refusal (List Message)) :
    (outcome.map (back ++ ·)).map (front ++ ·) = outcome.map (front ++ back ++ ·) := by
  cases outcome with
  | error => rfl
  | ok later => exact congrArg Except.ok (List.append_assoc ..).symm

/-- A group read is refused at a cursor whose key lacks the group; any other is served, and the read
goes on in the store that this leaves. -/
theorem readGroup_cons (consumer : Consumer) (count : Option UInt64) (noAck : Bool)
    (p : Bytes × Cursor) (s : Store) :
    (¬ s.hasGroup consumer.group p ∧ ∀ rest, readGroup consumer count noAck (p :: rest) s =
        (.error (.noGroup p.1 consumer.group), s)) ∨
      ∃ v t, Served consumer count noAck s v t ∧ (v.key, v.cursor) = p ∧
        ∀ rest, readGroup consumer count noAck (p :: rest) s =
          ((readGroup consumer count noAck rest t).1.map (v.messages ++ ·),
            (readGroup consumer count noAck rest t).2) := by
  rcases serveAll_cons consumer count noAck p s with
    ⟨hlacks, hends⟩ | ⟨v, t, hserved, hcursor, -, hgoes⟩
  · refine .inl ⟨hlacks, fun rest => ?_⟩
    simp only [readGroup, hends, List.length_nil, List.drop_zero]
  · refine .inr ⟨v, t, hserved, hcursor, fun rest => ?_⟩
    simp only [readGroup, hgoes, List.length_cons, List.drop_succ_cons]
    cases rest.drop (serveAll consumer count noAck rest t).1.length <;> rfl

/-- A group read of which the first cursors are served goes on in the store that they leave. -/
theorem readGroup_append {earlier : List (Bytes × Cursor)} {before : List Message}
    (h : readGroup consumer count noAck earlier s = (.ok before, t))
    (rest : List (Bytes × Cursor)) :
    readGroup consumer count noAck (earlier ++ rest) s =
      ((readGroup consumer count noAck rest t).1.map (before ++ ·),
        (readGroup consumer count noAck rest t).2) := by
  induction earlier generalizing s before with
  | nil =>
      obtain ⟨hbefore, rfl⟩ := Prod.mk.inj h
      obtain rfl := Except.ok.inj hbefore
      refine Prod.ext ?_ rfl
      rw [List.nil_append]
      cases (readGroup consumer count noAck rest s).1 <;> rfl
  | cons p earlier ih =>
      rcases readGroup_cons consumer count noAck p s with ⟨-, hends⟩ | ⟨v, u, -, -, hgoes⟩
      · rw [hends] at h
        cases h
      · rw [hgoes] at h
        rcases hmiddle : readGroup consumer count noAck earlier u with ⟨outcome, t'⟩
        rw [hmiddle] at h
        cases outcome with
        | error => cases h
        | ok messages =>
            obtain ⟨hbefore, rfl⟩ := Prod.mk.inj h
            obtain rfl := Except.ok.inj hbefore
            rw [List.cons_append, hgoes, ih hmiddle, map_prepend]

/-- A cursor at an identifier is served with the history that its consumer has when its turn comes. -/
theorem attempt_history {earlier : List (Bytes × Cursor)} {before : List Message}
    (h : s.attempt (some consumer) count noAck earlier = (.ok before, t))
    (hgroup : t.group? key consumer.group = some g) (start : EntryId) :
    ∃ u, t.Joined u key consumer ∧ ∀ later,
      s.attempt (some consumer) count noAck (earlier ++ (key, .after start) :: later) =
        ((u.attempt (some consumer) count noAck later).1.map fun rest =>
            before ++ ((takeCount count (t.history key consumer start)).map fun p =>
              .ofEntry key p.1 p.2) ++ rest,
          (u.attempt (some consumer) count noAck later).2) := by
  rcases readGroup_cons consumer count noAck (key, .after start) t with
    ⟨hlacks, -⟩ | ⟨v, u, hserved, hcursor, hgoes⟩
  · refine absurd ?_ hlacks
    rw [hasGroup, hgroup]
    rfl
  · obtain ⟨rfl, hafter⟩ := Prod.mk.inj hcursor
    obtain ⟨hentries, hjoined⟩ := hserved.history hafter
    refine ⟨u, hjoined, fun later => ?_⟩
    have happend := readGroup_append h ((v.key, .after start) :: later)
    rw [hgoes, map_prepend, Serving.messages, hentries] at happend
    exact happend

end StreamBroker.Store
