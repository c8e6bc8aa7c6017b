import StreamBroker.Proofs.World.Basic
set_option autoImplicit false

/-!
# What was added in a run

The additions under a key are kept as a log.  The log and the stream agree (`Recorded`): the log is
in strictly increasing order, its last identifier is the last one the stream gave away, and every
entry of the stream is in the log.  An addition extends both, and everything else at most takes
entries from the stream.
-/

namespace StreamBroker

/-- The entries added under a key, in the order in which they were added. -/
def additions (turns : List Turn) (key : Bytes) : List (EntryId × Body) :=
  turns.filterMap (·.addition? key)

theorem additions_append (past future : List Turn) (key : Bytes) :
    additions (past ++ future) key = additions past key ++ additions future key :=
  List.filterMap_append

theorem additions_concat (past : List Turn) (t : Turn) (key : Bytes) :
    additions (past ++ [t]) key = additions past key ++ (t.addition? key).toList := by
  rw [additions_append]
  cases h : t.addition? key <;> simp [additions, h]

/-- A log of additions that agrees with the stream it was kept of. -/
structure Recorded (log : List (EntryId × Body)) (stream? : Option Stream) : Prop where
  sorted : log.Pairwise fun p q => p.1 < q.1
  positive : ∀ p ∈ log, EntryId.least < p.1
  last : log.getLast?.map (·.1) = stream?.map (·.lastId)
  entries : ∀ stream, stream? = some stream → ∀ id body,
    stream.entries.get? id = some body → (id, body) ∈ log

namespace Recorded

variable {log : List (EntryId × Body)} {stream? : Option Stream}

theorem nil : Recorded [] none :=
  ⟨.nil, fun _ hp => absurd hp List.not_mem_nil, rfl, fun _ h => nomatch h⟩

/-- Nothing was ever added above the last identifier. -/
theorem le_lastId (h : Recorded log stream?) :
    ∀ p ∈ log, p.1 ≤ (stream?.getD .fresh).lastId := by
  intro p hp
  have hlast := h.last
  cases hget : log.getLast? with
  | none =>
      rw [List.getLast?_eq_none_iff.1 hget] at hp
      cases hp
  | some last =>
      rw [hget] at hlast
      cases hstream : stream? with
      | none => rw [hstream] at hlast; cases hlast
      | some stream =>
          rw [hstream] at hlast
          have heq : last.1 = stream.lastId := Option.some.inj hlast
          rw [Option.getD_some, ← heq]
          exact le_getLast_of_pairwise h.sorted hp hget

theorem push (h : Recorded log stream?) {id : EntryId} (body : Body)
    (hlt : (stream?.getD .fresh).lastId < id) :
    Recorded (log ++ [(id, body)]) (some ((stream?.getD .fresh).push id body)) := by
  refine ⟨?_, ?_, ?_, ?_⟩
  · refine List.pairwise_append.2 ⟨h.sorted, List.pairwise_singleton .., ?_⟩
    intro p hp q hq
    rw [List.mem_singleton.1 hq]
    exact EntryId.lt_of_le_of_lt (h.le_lastId p hp) hlt
  · intro p hp
    rcases List.mem_append.1 hp with hlog | hnew
    · exact h.positive p hlog
    · rw [List.mem_singleton.1 hnew]
      exact EntryId.lt_of_le_of_lt (EntryId.least_le _) hlt
  · rw [List.getLast?_concat]
    rfl
  · rintro stream hstream id' body' hget
    obtain rfl := Option.some.inj hstream
    rcases SortedMap.get?_of_get?_insert hget with ⟨rfl, rfl⟩ | hget
    · exact List.mem_append_right _ (List.mem_singleton.2 rfl)
    · cases hold : stream? with
      | none => rw [hold] at hget; cases hget
      | some old =>
          rw [hold] at hget
          exact List.mem_append_left _ (h.entries old hold id' body' hget)

theorem shrink (h : Recorded log stream?) {stream?' : Option Stream}
    (hrel : Option.Rel Stream.Within stream?' stream?) : Recorded log stream?' := by
  cases hrel with
  | none => exact h
  | @some stream' stream hin =>
      refine ⟨h.sorted, h.positive, ?_, ?_⟩
      · rw [h.last, Option.map_some, Option.map_some, hin.lastId]
      · rintro _ hstream id body hget
        obtain rfl := Option.some.inj hstream
        exact h.entries stream rfl id body (hin.entries id body hget)

end Recorded

namespace Turn

theorem addition?_of_add {t : Turn} {key : Bytes} {request : Option String} {body : Body}
    {clock : Option UInt64} {id : EntryId} {s : Store} (hmove : t.move = .add key request body clock)
    (hadd : t.before.store.add key request body clock = (.ok id, s)) (k : Bytes) :
    t.addition? k = if key = k then some (id, body) else none := by
  rw [addition?, reply, hmove]
  simp only [World.step, Engine.add, hadd]

/-- A turn added an entry to a stream, or the stream has none but the entries it had. -/
theorem added_or_within (t : Turn) (key : Bytes) :
    (∃ id body, t.addition? key = some (id, body) ∧ t.before.store.lastId key < id ∧
      t.after.store.get? key = some (((t.before.store.get? key).getD .fresh).push id body)) ∨
    (t.addition? key = none ∧
      Option.Rel Stream.Within (t.after.store.get? key) (t.before.store.get? key)) := by
  cases t.effect with
  | @added key' request body clock id hmove hadd =>
      rw [addition?_of_add hmove hadd]
      obtain ⟨hlt, hafter⟩ := Store.add_eq_ok hadd
      rw [hafter]
      by_cases hkey : key' = key
      · subst hkey
        rw [if_pos rfl, SortedMap.get?_insert_self]
        exact .inl ⟨id, body, rfl, hlt, rfl⟩
      · rw [if_neg hkey, SortedMap.get?_insert_of_ne _ _ hkey]
        exact .inr ⟨rfl, Store.Shrinks.refl _ key⟩
  | destroyed hmove hdestroy =>
      refine .inr ⟨?_, Store.destroyGroup_shrinks hdestroy key⟩
      rw [addition?, hmove]
  | served hreading hconsumer hstore =>
      refine .inr ⟨addition?_of_reading hreading key, ?_⟩
      rw [hstore]
      exact Store.serveAll_shrinks _ _ key
  | kept hadd hread hkeeps => exact .inr ⟨hadd key, hkeeps.shrinks key⟩

end Turn

/-- In every run the log of additions agrees with the stream. -/
theorem recorded_run (moves : List Move) (key : Bytes) :
    Recorded (additions (World.start.turns moves) key)
      ((World.start.run moves).store.get? key) := by
  refine World.run_induction (w := World.start)
    (P := fun ts w => Recorded (additions ts key) (w.store.get? key)) .nil ?_
  intro past m future _ hpast
  rw [additions_concat]
  rcases Turn.added_or_within ⟨World.start.run past, m⟩ key with
    ⟨id, body, hadded, hlt, hafter⟩ | ⟨hnone, hwithin⟩
  · rw [Turn.after] at hafter
    rw [hadded, Option.toList_some, hafter]
    rw [Store.lastId_eq] at hlt
    exact hpast.push body hlt
  · rw [hnone, Option.toList_none, List.append_nil]
    exact hpast.shrink hwithin

/-- The identifiers given away under a key increase strictly, whatever the clock shows; the last of
them is the last identifier of the stream, and no entry has an identifier above it or `0-0`. -/
theorem additions_increase (moves : List Move) (key : Bytes) :
    ((additions (World.start.turns moves) key).map (·.1)).Pairwise (· < ·) ∧
      (additions (World.start.turns moves) key).getLast?.map (·.1) =
        ((World.start.run moves).store.get? key).map (·.lastId) ∧
      ∀ stream, (World.start.run moves).store.get? key = some stream →
        ∀ id ∈ stream.entries.keys, EntryId.least < id ∧ id ≤ stream.lastId := by
  have h := recorded_run moves key
  refine ⟨List.pairwise_map.2 h.sorted, h.last, ?_⟩
  intro stream hstream id hid
  obtain ⟨⟨id', body⟩, hmem, rfl⟩ := List.mem_map.1 hid
  have hlog := h.entries stream hstream id' body (SortedMap.mem_toList_iff.1 hmem)
  have hle := h.le_lastId _ hlog
  rw [hstream] at hle
  exact ⟨h.positive _ hlog, hle⟩

/-- A stream that is emptied between two additions, with a clock that goes backwards. -/
def emptiedTwice : List Move :=
  [.add [97] none (.ofList [([102], [118])]) (some 5), .delete [97] ["5-0"],
    .add [97] none (.ofList [([102], [118])]) (some 3), .trim [97] 0,
    .add [97] (some "5-*") (.ofList [([102], [118])]) (some 0)]

theorem additions_increase_emptiedTwice :
    (additions (World.start.turns emptiedTwice) [97]).map (·.1) = [⟨5, 0⟩, ⟨5, 1⟩, ⟨5, 2⟩] ∧
      ((additions (World.start.turns emptiedTwice) [97]).map (·.1)).Pairwise (· < ·) ∧
      ((World.start.run emptiedTwice).store.get? [97]).map (·.lastId) = some ⟨5, 2⟩ := by
  have hids : (additions (World.start.turns emptiedTwice) [97]).map (·.1) =
      [⟨5, 0⟩, ⟨5, 1⟩, ⟨5, 2⟩] := by
    decide +kernel
  obtain ⟨hsorted, hlast, -⟩ := additions_increase emptiedTwice [97]
  refine ⟨hids, hsorted, ?_⟩
  rw [← hlast, ← List.getLast?_map, hids]
  rfl

end StreamBroker
