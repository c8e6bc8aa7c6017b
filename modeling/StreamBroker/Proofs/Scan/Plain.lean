import StreamBroker.Proofs.Scan.Page
import StreamBroker.Session.Job
set_option autoImplicit false

/-!
# A scan of a store that does not change

The page at hand, the entries still to be passed over and the number still to be given come together
in one list: what a scan has yet to give (`Scan.rest`).  A page fetch keeps that list, a message
takes its head away, and the scan is over when nothing is left of it.  Hence pulling a scan to its
end gives its range, cut to its window, whatever the size of a page (`paged_scan_is_plain`).
-/

namespace StreamBroker

/-- What a window leaves of a list. -/
def Window.cut {α : Type} (window : Option Window) (l : List α) : List α :=
  match window with
  | none => l
  | some w => (l.drop w.offset.toNat).take w.count.toNat

theorem Window.length_cut_le {α : Type} (window : Option Window) (l : List α) :
    (cut window l).length ≤ l.length := by
  cases window with
  | none => exact Nat.le_refl _
  | some w =>
      exact Nat.le_trans (List.length_take_le' ..) (List.length_drop ▸ Nat.sub_le ..)

namespace Store

/-- What a scan gives over a store that does not change, said without pages. -/
def plainScan (s : Store) (key : Bytes) (range : Range) (window : Option Window) (d : Direction) :
    List (Except Failure Message) :=
  if range.reads then
    (Window.cut window (s.within key range d)).map fun p => .ok (.ofEntry key p.1 p.2)
  else [.error (.server .invalidId)]

theorem within_descending (s : Store) (key : Bytes) (range : Range) :
    s.within key range .descending = (s.within key range .ascending).reverse := by
  unfold within
  cases s.get? key with
  | none => rfl
  | some stream => rfl

theorem within_of_isCrossed {range : Range} (h : range.isCrossed) (s : Store) (key : Bytes)
    (d : Direction) : s.within key range d = [] := by
  rw [List.eq_nil_iff_forall_not_mem]
  exact fun p hp => Range.not_holds_of_isCrossed h p.1 (mem_within.1 hp).2

theorem le_foldl_add {α : Type} (f : α → Nat) (l : List α) (n : Nat) :
    n ≤ l.foldl (fun n x => n + f x) n := by
  induction l generalizing n with
  | nil => exact Nat.le_refl n
  | cons x l ih => exact Nat.le_trans (Nat.le_add_right n (f x)) (ih _)

theorem le_foldl_add_of_mem {α : Type} {f : α → Nat} {l : List α} {x : α} (h : x ∈ l) (n : Nat) :
    f x ≤ l.foldl (fun n x => n + f x) n := by
  induction l generalizing n with
  | nil => cases h
  | cons y l ih =>
      rcases List.mem_cons.1 h with rfl | h
      · exact Nat.le_trans (Nat.le_add_left _ n) (le_foldl_add f l _)
      · exact ih h _

/-- A stream is no longer than its store is heavy. -/
theorem length_le_weight (s : Store) (key : Bytes) : s.length key ≤ s.weight := by
  unfold length
  cases hstream : s.get? key with
  | none => exact Nat.zero_le _
  | some stream =>
      have hmem : (key, stream) ∈ s.toList := SortedMap.mem_toList_iff.2 hstream
      have hstream' : stream.entries.size ≤ streamWeight stream :=
        le_foldl_add (fun g => g.2.pending.size) stream.groups.toList _
      have hstore : streamWeight stream ≤ s.weight :=
        le_foldl_add_of_mem (f := fun p => streamWeight p.2) hmem 0
      exact Nat.le_trans hstream' hstore

end Store

namespace Scan

variable {sc : Scan} {key : Bytes} {range : Range} {window : Option Window} {d : Direction}
  {store : Store}

/-- As much of a list as may still be given. -/
def limit (remaining : Option Nat) (l : List (EntryId × Body)) : List (EntryId × Body) :=
  match remaining with
  | none => l
  | some n => l.take n

theorem limit_cons {remaining : Option Nat} (h : remaining ≠ some 0) (p : EntryId × Body)
    (l : List (EntryId × Body)) :
    limit remaining (p :: l) = p :: limit (remaining.map (· - 1)) l := by
  cases remaining with
  | none => rfl
  | some n =>
      cases n with
      | zero => exact absurd rfl h
      | succ n => rfl

theorem limit_nil (remaining : Option Nat) : limit remaining [] = [] := by
  cases remaining with
  | none => rfl
  | some n => exact List.take_nil

/-- What a scan has before it: the page at hand and what may be behind it. -/
def upcoming (sc : Scan) (range : Range) (store : Store) : List (EntryId × Body) :=
  sc.page ++ if sc.more then sc.ahead range store else []

/-- What a scan has yet to give. -/
def rest (sc : Scan) (range : Range) (store : Store) : List (EntryId × Body) :=
  limit sc.remaining ((sc.upcoming range store).drop sc.skip)

/-- A scan that was just started has to give its range, cut to its window. -/
theorem rest_of_start (h : start key range window d = .ok sc) :
    sc.rest range store = Window.cut window (store.within key range d) := by
  obtain ⟨⟨hkey, hdirection, -⟩, hskip, hremaining, hcursor, hpage, hmore⟩ := start_eq_ok h
  have hahead : sc.ahead range store = store.within key range d := by
    unfold ahead
    rw [hkey, hdirection]
    exact List.filter_eq_self.2 fun p _ => by rw [isAhead, hcursor]; rfl
  unfold rest upcoming
  rw [hskip, hremaining, hpage, hmore, if_pos rfl, hahead]
  cases window with
  | none => rfl
  | some w => rfl

/-- A page keeps what is yet to be given. -/
theorem rest_load (h : sc.Over key range d) (hpage : sc.page = []) (hmore : sc.more) :
    (sc.load store).rest range store = sc.rest range store := by
  have hsame : (sc.load store).upcoming range store = sc.upcoming range store := by
    unfold upcoming
    rw [page_and_ahead h, hpage, if_pos hmore, List.nil_append]
  unfold rest
  rw [hsame]
  rfl

/-- What a step keeps: a message is the head of what was yet to be given, passing over a page leaves
that as it was, and nothing is left at the end. -/
def Advance.Keeps (sc : Scan) (key : Bytes) (range : Range) (d : Direction) (store : Store) :
    Advance → Prop
  | .message m sc' => sc'.Over key range d ∧
      ∃ p, m = .ofEntry key p.1 p.2 ∧ sc.rest range store = p :: sc'.rest range store
  | .needsPage sc' => sc'.Over key range d ∧ sc'.page = [] ∧ sc'.more ∧ sc.more ∧
      sc'.ahead range store = sc.ahead range store ∧ sc'.rest range store = sc.rest range store
  | .finished => sc.rest range store = []

theorem advance_keeps (h : sc.Over key range d) (store : Store) :
    sc.advance.Keeps sc key range d store := by
  obtain ⟨passed, p, page, hremaining, hpage, hskip, hadvance⟩ |
    ⟨-, hlength, hmore, hadvance⟩ | ⟨hadvance, hover⟩ := sc.advance_cases <;>
    rw [hadvance]
  · refine ⟨⟨h.key, h.direction, h.admits⟩, p, by rw [h.key], ?_⟩
    unfold rest upcoming
    rw [hpage, ← hskip, List.append_assoc, List.drop_left]
    exact limit_cons hremaining p _
  · refine ⟨⟨h.key, h.direction, h.admits⟩, rfl, hmore, hmore, rfl, ?_⟩
    have hpast : (sc.upcoming range store).drop sc.skip =
        (if sc.more then sc.ahead range store else []).drop (sc.skip - sc.page.length) := by
      unfold upcoming
      rw [List.drop_append, List.drop_eq_nil_of_le hlength, List.nil_append]
    unfold rest
    rw [hpast]
    rfl
  · unfold Advance.Keeps rest
    rcases hover with hzero | ⟨hlength, hmore⟩
    · rw [hzero]
      rfl
    · unfold upcoming
      rw [hmore, if_neg Bool.false_ne_true, List.append_nil, List.drop_eq_nil_of_le hlength]
      exact limit_nil _

/-- With fuel for its pages a scan gives the head of what it has yet to give, and the rest of that
is what it has to give from then on. -/
theorem nextWithin_eq (h : sc.Over key range d) {fuel : Nat}
    (hfuel : sc.pagesLeft range store < fuel) :
    ∃ sc', nextWithin store fuel sc =
        ((sc.rest range store).head?.map fun p => .ofEntry key p.1 p.2, sc') ∧
      sc'.Over key range d ∧ sc'.rest range store = (sc.rest range store).tail := by
  induction fuel generalizing sc with
  | zero => cases hfuel
  | succ fuel ih =>
      have hkeeps := advance_keeps h store
      unfold nextWithin
      cases hadvance : sc.advance with
      | message m sc' =>
          rw [hadvance] at hkeeps
          obtain ⟨hover, p, rfl, hrest⟩ := hkeeps
          exact ⟨sc', by rw [hrest]; rfl, hover, by rw [hrest]; rfl⟩
      | needsPage sc' =>
          rw [hadvance] at hkeeps
          obtain ⟨hover, hpage, hmore', hmore, hahead, hrest⟩ := hkeeps
          -- a page uses up fuel but fewer pages are left, so the fuel never runs out
          have hless := pagesLeft_load hover hmore' store
          have hsame : sc'.pagesLeft range store = sc.pagesLeft range store := by
            unfold pagesLeft
            rw [hmore, hmore', hahead]
          rw [← hrest, ← rest_load hover hpage hmore']
          exact ih (hover.load store) (by omega)
      | finished =>
          rw [hadvance] at hkeeps
          have hnil : sc.rest range store = [] := hkeeps
          refine ⟨sc.ended, by rw [hnil]; rfl, ⟨h.key, h.direction, h.admits⟩, ?_⟩
          rw [hnil]
          have hover : sc.ended.upcoming range store = [] := rfl
          unfold rest
          rw [hover, List.drop_nil, limit_nil, List.tail_nil]

/-- The next message of a scan is the head of what it has yet to give. -/
theorem next_eq (h : sc.Over key range d) (store : Store) :
    ∃ sc', sc.next store =
        ((sc.rest range store).head?.map fun p => .ofEntry key p.1 p.2, sc') ∧
      sc'.Over key range d ∧ sc'.rest range store = (sc.rest range store).tail :=
  nextWithin_eq h (sc.pagesLeft_lt range store)

end Scan

namespace Job

theorem drainFeed_item {feed feed' : Hub.Feed} {item : Except Failure Message} {hub hub' : Hub}
    (h : (Hub.pull feed).run hub = ((.item item, feed'), hub')) (pulls : Nat) :
    (drainFeed (pulls + 1) feed).run hub =
      (((drainFeed pulls feed').run hub').map (fun r => (item :: r.1, r.2)) id) := by
  simp only [drainFeed, StateT.run_bind, h]
  rfl

theorem drainFeed_finished {feed feed' : Hub.Feed} {hub hub' : Hub}
    (h : (Hub.pull feed).run hub = ((.finished, feed'), hub')) (pulls : Nat) :
    (drainFeed (pulls + 1) feed).run hub = (([], true, feed'), hub') := by
  simp only [drainFeed, StateT.run_bind, h]
  rfl

end Job

namespace Scan

variable {sc : Scan} {key : Bytes} {range : Range} {d : Direction}

/-- Pulled often enough, a scan gives all that it has to give and leaves the hub alone. -/
theorem drainFeed_eq (h : sc.Over key range d) (hub : Hub) (spare : Nat) :
    (Job.drainFeed ((sc.rest range hub.engine.store).length + 1 + spare) (.scanning sc)).run hub =
      (((sc.rest range hub.engine.store).map fun p => .ok (.ofEntry key p.1 p.2), true, .ended),
        hub) := by
  generalize hrest : sc.rest range hub.engine.store = l
  induction l generalizing sc with
  | nil =>
      obtain ⟨sc', hnext, -⟩ := next_eq h hub.engine.store
      rw [hrest] at hnext
      have hpull := Hub.run_pull_scanning sc hub
      rw [hnext] at hpull
      rw [List.length_nil, Nat.zero_add, Nat.add_comm, Job.drainFeed_finished hpull]
      rfl
  | cons p l ih =>
      obtain ⟨sc', hnext, hover, htail⟩ := next_eq h hub.engine.store
      rw [hrest] at hnext htail
      have hpull := Hub.run_pull_scanning sc hub
      rw [hnext] at hpull
      rw [List.length_cons, Nat.add_right_comm, Job.drainFeed_item hpull, ih hover htail]
      rfl

end Scan

/-! ## The whole of a scan -/

/-- Pulling a query for a range to its end gives the plain scan and leaves the hub alone. -/
theorem drainFeed_scan (h : Hub) (key : Bytes) (range : Range) (window : Option Window)
    (d : Direction) (spare : Nat) :
    (Job.drainFeed ((h.engine.store.plainScan key range window d).length + 1 + spare)
        (.ofQuery (.scan key range window d))).run h =
      ((h.engine.store.plainScan key range window d, true, .ended), h) := by
  unfold Store.plainScan Hub.Feed.ofQuery
  split
  case isTrue hreads =>
    obtain ⟨sc, hstart⟩ := Scan.start_of_reads key hreads window d
    have hdrain := Scan.drainFeed_eq (Scan.start_eq_ok hstart).1 h spare
    rw [Scan.rest_of_start hstart] at hdrain
    simp only [hstart]
    rw [List.length_map]
    exact hdrain
  case isFalse hreads =>
    simp only [Scan.start_of_not_reads hreads]
    rw [List.length_singleton, Nat.add_comm]
    rfl

/-- Nothing more is given than a session has the patience for. -/
theorem length_plainScan_le (h : Hub) (key : Bytes) (range : Range) (window : Option Window)
    (d : Direction) :
    (h.engine.store.plainScan key range window d).length + 1 ≤ h.patience 0 := by
  have hcut := Window.length_cut_le window (h.engine.store.within key range d)
  have hwithin := h.engine.store.length_within_le key range d
  have hweight := h.engine.store.length_le_weight key
  unfold Store.plainScan Hub.patience
  split
  case isTrue =>
    rw [List.length_map]
    omega
  case isFalse =>
    rw [List.length_singleton]
    omega

/-- A scan of a store that does not change gives the entries of the stream inside both bounds, in
the direction of the scan, without those its window passes over and no more than its window allows;
where a bound does not read it gives that one failure.  Pulling further gives nothing more, a
session pulls often enough, and a missing key or crossed bounds give nothing.  Without a window the two
directions are each other's reverse.  As a bound `-` and `+` stand for the least and the greatest
identifier, a number for the first identifier of its millisecond below and for the last one above,
and the text of an identifier for itself. -/
theorem paged_scan_is_plain (h : Hub) (key : Bytes) (range : Range) (window : Option Window)
    (d : Direction) :
    (∀ spare, (Job.drainFeed ((h.engine.store.plainScan key range window d).length + 1 + spare)
        (.ofQuery (.scan key range window d))).run h =
      ((h.engine.store.plainScan key range window d, true, .ended), h)) ∧
    (h.engine.store.plainScan key range window d).length + 1 ≤ h.patience 0 ∧
    (range.reads → h.engine.store.get? key = none ∨ range.isCrossed →
      h.engine.store.plainScan key range window d = []) ∧
    h.engine.store.plainScan key range none .descending =
      (h.engine.store.plainScan key range none .ascending).reverse ∧
    ∀ missing, EntryId.ofText? missing "-" = some .least ∧
      EntryId.ofText? missing "+" = some .greatest ∧
      (∀ s millis, Decimal.read? s.toList = some millis →
        EntryId.ofText? missing s = some ⟨millis, missing⟩) ∧
      ∀ id : EntryId, EntryId.ofText? missing id.text = some id := by
  refine ⟨drainFeed_scan h key range window d, length_plainScan_le h key range window d, ?_, ?_, ?_⟩
  · intro hreads hnothing
    have hnil : h.engine.store.within key range d = [] := by
      rcases hnothing with hmissing | hcrossed
      · rw [Store.within, hmissing]
      · exact Store.within_of_isCrossed hcrossed ..
    have hcut : Window.cut window (h.engine.store.within key range d) = [] := by
      have hlength := Window.length_cut_le window (h.engine.store.within key range d)
      rw [hnil] at hlength ⊢
      exact List.eq_nil_of_length_eq_zero (Nat.le_zero.1 hlength)
    rw [Store.plainScan, if_pos hreads, hcut, List.map_nil]
  · unfold Store.plainScan
    split
    case isTrue =>
      rw [Store.within_descending]
      exact List.map_reverse
    case isFalse => rfl
  · intro missing
    exact ⟨EntryId.ofText?_minus missing, EntryId.ofText?_plus missing,
      fun s millis hs => EntryId.ofText?_of_read? hs missing, EntryId.ofText?_text missing⟩

/-- A hub with three entries under one key. -/
def threeEntries : Hub :=
  ["1-1", "1-2", "2-1"].foldl
    (fun h id => ((Hub.callOn .shared (.add [97] (some id) (.ofList [([102], [118])]))).run h).2)
    (.start .standard 0)

theorem paged_scan_is_plain_threeEntries :
    (Job.drainFeed 2
        (.ofQuery (.scan [97] ⟨.including "1", .excluding "2"⟩ (some ⟨1, 1⟩) .descending))).run
          threeEntries =
      (([.ok ⟨[97], "1-2", .ofList [([102], [118])]⟩], true, .ended), threeEntries) ∧
    threeEntries.engine.store.plainScan [97] ⟨.including "2", .including "1"⟩ none .ascending =
      [] := by
  have hreads : Range.reads ⟨.including "1", .excluding "2"⟩ := by decide +kernel
  have hcut : Window.cut (some ⟨1, 1⟩) (threeEntries.engine.store.within [97]
      ⟨.including "1", .excluding "2"⟩ .descending) = [(⟨1, 2⟩, .ofList [([102], [118])])] := by
    decide +kernel
  obtain ⟨hdrain, -⟩ := paged_scan_is_plain threeEntries [97] ⟨.including "1", .excluding "2"⟩
    (some ⟨1, 1⟩) .descending
  obtain ⟨-, -, hcrossed, -⟩ := paged_scan_is_plain threeEntries [97]
    ⟨.including "2", .including "1"⟩ none .ascending
  refine ⟨?_, hcrossed (by decide +kernel) (.inr (by decide +kernel))⟩
  have hdrain := hdrain 0
  rw [Store.plainScan, if_pos hreads, hcut] at hdrain
  exact hdrain

end StreamBroker
