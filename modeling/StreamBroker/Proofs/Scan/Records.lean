import StreamBroker.Proofs.Scan.Plain
import StreamBroker.Proofs.Store.Listing
import StreamBroker.Session.Run
set_option autoImplicit false

/-!
# The records of a scan

A record stream over a scan gives the scan's messages as records.  Drained while nobody changes the
store, it gives all that the scan has yet to give and comes to its end (`Scan.drain_records`), so a
session that carries out a scan of a whole stream answers with every entry of it
(`run_operate_whole`).
-/

namespace StreamBroker

namespace RecordStream

variable {σ : Type} {p : Provider σ} {stream stream' : RecordStream p} {s s' : σ}

theorem drain_item {record : Except Failure Record}
    (h : (pull p stream).run s = ((.item record, stream'), s')) (limit : Nat) :
    (drain p (limit + 1) stream).run s =
      (((drain p limit stream').run s').map (fun r => (record :: r.1, r.2)) id) := by
  simp only [drain, StateT.run_bind, h]
  rfl

theorem drain_finished (h : (pull p stream).run s = ((.finished, stream'), s')) (limit : Nat) :
    (drain p (limit + 1) stream).run s = (([], stream'), s') := by
  simp only [drain, StateT.run_bind, h]
  rfl

/-- The first pull on the shared channel counts a call and then pulls the feed of its query. -/
theorem run_pull_fresh_shared (query : Query) (h : Hub) :
    (pull Hub.provider (.fresh .shared query)).run h =
      (pull Hub.provider (.running none (Hub.Feed.ofQuery query))).run (h.count .shared) :=
  rfl

theorem drain_fresh_shared (query : Query) (h : Hub) (limit : Nat) :
    (drain Hub.provider (limit + 1) (.fresh .shared query)).run h =
      (drain Hub.provider (limit + 1) (.running none (Hub.Feed.ofQuery query))).run
        (h.count .shared) := by
  simp only [drain, StateT.run_bind, run_pull_fresh_shared]

end RecordStream

/-- The record of an entry. -/
def Record.ofEntry (key : Bytes) (p : EntryId × Body) : Record := ⟨key, .concrete p.1, p.2⟩

namespace Scan

variable {sc sc' : Scan} {key : Bytes} {range : Range} {d : Direction}

theorem run_pull_record {h : Hub} {p : EntryId × Body}
    (hnext : sc.next h.engine.store = (some (.ofEntry key p.1 p.2), sc')) :
    (RecordStream.pull Hub.provider (.running none (Hub.Feed.scanning sc))).run h =
      ((.item (.ok (.ofEntry key p)), .running none (Hub.Feed.scanning sc')), h) := by
  have hpull := Hub.run_pull_scanning sc h
  rw [hnext] at hpull
  change (Hub.provider.pull (Hub.Feed.scanning sc)).run h = _ at hpull
  simp only [RecordStream.pull, RecordStream.pullFeed, StateT.run_bind, hpull]
  simp only [bind, Message.record_ofEntry]
  rfl

theorem run_pull_over {h : Hub} (hnext : sc.next h.engine.store = (none, sc')) :
    (RecordStream.pull Hub.provider (.running none (Hub.Feed.scanning sc))).run h =
      ((.finished, .ended), h) := by
  have hpull := Hub.run_pull_scanning sc h
  rw [hnext] at hpull
  change (Hub.provider.pull (Hub.Feed.scanning sc)).run h = _ at hpull
  simp only [RecordStream.pull, RecordStream.pullFeed, StateT.run_bind, hpull]
  rfl

/-- Drained far enough, the record stream of a scan gives all that the scan has to give. -/
theorem drain_records (h : sc.Over key range d) (hub : Hub) (spare : Nat) :
    (RecordStream.drain Hub.provider ((sc.rest range hub.engine.store).length + 1 + spare)
        (.running none (Hub.Feed.scanning sc))).run hub =
      (((sc.rest range hub.engine.store).map fun p => .ok (.ofEntry key p), .ended), hub) := by
  generalize hrest : sc.rest range hub.engine.store = l
  induction l generalizing sc with
  | nil =>
      obtain ⟨sc', hnext, -⟩ := next_eq h hub.engine.store
      rw [hrest] at hnext
      rw [List.length_nil, Nat.zero_add, Nat.add_comm,
        RecordStream.drain_finished (run_pull_over hnext)]
      rfl
  | cons p l ih =>
      obtain ⟨sc', hnext, hover, htail⟩ := next_eq h hub.engine.store
      rw [hrest] at hnext htail
      rw [List.length_cons, Nat.add_right_comm,
        RecordStream.drain_item (run_pull_record hnext), ih hover htail]
      rfl

end Scan

/-! ## The whole of a stream -/

/-- The range without bounds. -/
def Range.whole : Range := ⟨.unbounded, .unbounded⟩

theorem Range.reads_whole : whole.reads := rfl

theorem Range.holds_whole (id : EntryId) : whole.holds id := rfl

/-- A command for every entry of a stream; without a number its limit passes over nothing. -/
def RangeCommand.whole (key : Bytes) (offset : UInt64) : RangeCommand :=
  ⟨some key, some .whole, some ⟨offset, none⟩⟩

theorem Store.within_whole (s : Store) (key : Bytes) (d : Direction) :
    s.within key .whole d = d.arrange (s.listed key) := by
  unfold within listed
  cases s.get? key with
  | none => cases d <;> rfl
  | some stream =>
      have hall : stream.entries.toList.filter (fun p => Range.whole.holds p.1) =
          stream.entries.toList :=
        List.filter_eq_self.2 fun p _ => Range.holds_whole p.1
      simp only [hall]

/-- Pulling the record stream of a whole scan as often as a session does gives a record of each
entry and comes to the end. -/
theorem drain_whole (h : Hub) (key : Bytes) (d : Direction) :
    (RecordStream.drain Hub.provider (h.patience 0) (.fresh .shared (.scan key .whole none d))).run
        h =
      (((d.arrange (h.engine.store.listed key)).map fun p => .ok (.ofEntry key p), .ended),
        h.count .shared) := by
  obtain ⟨sc, hstart⟩ := Scan.start_of_reads key Range.reads_whole none d
  have hfeed : Hub.Feed.ofQuery (.scan key .whole none d) = .scanning sc := by
    simp only [Hub.Feed.ofQuery, hstart]
  have hrest : sc.rest .whole h.engine.store = h.engine.store.within key .whole d :=
    Scan.rest_of_start hstart
  obtain ⟨spare, hspare⟩ : ∃ spare, h.patience 0 =
      (sc.rest .whole h.engine.store).length + 1 + spare := by
    have hlength := length_plainScan_le h key .whole none d
    rw [Store.plainScan, if_pos Range.reads_whole, List.length_map] at hlength
    rw [hrest]
    exact Nat.exists_eq_add_of_le hlength
  have hdrain := Scan.drain_records (Scan.start_eq_ok hstart).1 (h.count .shared) spare
  rw [hspare, Nat.add_right_comm, RecordStream.drain_fresh_shared, hfeed, ← Store.within_whole,
    ← hrest, Nat.add_right_comm]
  exact hdrain

/-- A session answers a scan of a whole stream with a record of each entry, on the shared channel. -/
theorem run_operate_whole (h : Hub) (key : Bytes) (offset : UInt64) (d : Direction) :
    (Session.operate (.range d [.whole key offset])).run h =
      (.records [⟨.range (.whole key offset),
        .ok ((d.arrange (h.engine.store.listed key)).map fun p => .ok (.ofEntry key p))⟩],
      h.count .shared) := by
  have hdrain := drain_whole h key d
  have hrun : (Session.operate (.range d [.whole key offset])).run h =
      (.records [⟨.range (.whole key offset),
        .ok ((RecordStream.drain Hub.provider (h.patience 0)
          (.fresh .shared (.scan key .whole none d))).run h).1.1⟩],
      ((RecordStream.drain Hub.provider (h.patience 0)
          (.fresh .shared (.scan key .whole none d))).run h).2) := rfl
  rw [hrun, hdrain]

end StreamBroker
