import StreamBroker.Proofs.Store.PlainRead
import StreamBroker.Proofs.World.Additions
import StreamBroker.Proofs.World.Courses
set_option autoImplicit false

/-!
# Reads from the latest entry on

`$` stands for the last identifier that a stream had given away when a read began, whatever became
of its entries.  Everything added since lies behind it and everything added before does not, so what
a read finds behind `$` when it returns is what was added since it began and is still there
(`behind_lastId_eq`).
-/

namespace StreamBroker

/-! ## The attempt with which a read returns -/

theorem World.outcome_of_attempt {w : World} {i j : Nat} {r : Reading}
    {outcome : Except Refusal (List Message)}
    (h : (w.attempt i r).1 = .read j (.returned outcome)) :
    (w.store.attempt r.consumer r.count r.noAck r.cursors).1 = outcome := by
  have hprogress : (w.engine.attempt r).1 = .returned outcome := (Reply.read.inj h).2
  rw [← Engine.attempt_outcome, hprogress, Progress.outcome]

/-- A read that returns before its time is up returns what its cursors, resolved when it began, find
in the store of that moment. -/
theorem World.attempt_of_return {w : World} {request : ReadRequest} {rest early late : List Move}
    {m : Move} (hsplit : .begin request :: rest = early ++ m :: late)
    {outcome : Except Refusal (List Message)}
    (hreply : ((w.run early).step m).1 = .read w.readers.length (.returned outcome))
    (hintime : ∀ wait, (w.run early).reader? w.readers.length ≠ some ⟨.late, wait⟩) :
    (∃ refusal, w.store.resolve request.consumer.isSome request.offsets = .error refusal ∧
        outcome = .error refusal) ∨
      ∃ cursors, w.store.resolve request.consumer.isSome request.offsets = .ok cursors ∧
        ((w.run early).store.attempt request.consumer request.count request.noAck cursors).1 =
          outcome := by
  obtain ⟨hroom, hnew⟩ := w.room_arrive
  cases early with
  | nil =>
      obtain rfl : .begin request = m := (List.cons.inj hsplit).1
      rw [run_nil] at hreply ⊢
      rcases w.step_begin request with ⟨refusal, hrefused, hstep⟩ | ⟨cursors, hresolve, hstep⟩
      · rw [hstep] at hreply
        exact .inl ⟨refusal, hrefused, (Progress.returned.inj (Reply.read.inj hreply).2).symm⟩
      · rw [hstep] at hreply
        exact .inr ⟨cursors, hresolve, outcome_of_attempt hreply⟩
  | cons n early =>
      obtain ⟨rfl, rfl⟩ := List.cons.inj hsplit
      rw [run_cons] at hreply hintime ⊢
      rcases w.step_begin request with ⟨refusal, -, hstep⟩ | ⟨cursors, hresolve, -⟩
      · rw [hstep] at hreply
        obtain ⟨hbegun, hover⟩ := over_run hroom hnew early
        exact absurd hreply ((Turn.over (t := ⟨_, m⟩) hbegun hover).2 _)
      · have hfollows := (Follows.begin w request hresolve).run early
        refine .inr ⟨cursors, hresolve, ?_⟩
        generalize (w.step (.begin request)).2.run early = v at *
        obtain ⟨x?, hx⟩ : ∃ x?, v.reader? w.readers.length = x? := ⟨_, rfl⟩
        have hcourse := Turn.course (t := ⟨v, m⟩) hfollows.begun
        rw [hx] at hcourse
        cases hcourse with
        | gone _ hsilent => exact absurd hreply (hsilent _)
        | waits _ _ hsilent => exact absurd hreply (hsilent _)
        | cancelled _ hstep =>
            rw [hstep] at hreply
            cases hreply
        | ranOut => exact absurd hx (hintime _)
        | @retried wait _ hstep =>
            rw [hfollows.same _ hx] at hstep
            rw [hstep] at hreply
            exact outcome_of_attempt hreply

/-! ## What lies behind the last identifier of an earlier time -/

section Since

variable (past early : List Move) (key : Bytes)

/-- What was added before a time lies at most at the last identifier of that time. -/
theorem le_lastId_of_added_before {p : EntryId × Body}
    (hp : p ∈ additions (World.start.turns past) key) :
    p.1 ≤ (World.start.run past).store.lastId key := by
  rw [Store.lastId_eq]
  exact (recorded_run past key).le_lastId p hp

/-- What was added since lies above it. -/
theorem lastId_lt_of_added_since {p : EntryId × Body}
    (hp : p ∈ additions ((World.start.run past).turns early) key) :
    (World.start.run past).store.lastId key < p.1 := by
  have hall := recorded_run (past ++ early) key
  have hbefore := (recorded_run past key).last
  rw [World.turns_append, additions_append] at hall
  cases hget : (World.start.run past).store.get? key with
  | none =>
      have hleast : (World.start.run past).store.lastId key = .least := by
        rw [Store.lastId_eq, hget]
        rfl
      rw [hleast]
      exact hall.positive p (List.mem_append_right _ hp)
  | some stream =>
      rw [hget, Option.map_some, Option.map_eq_some_iff] at hbefore
      obtain ⟨last, hlast, heq⟩ := hbefore
      rw [Store.lastId_eq, hget, Option.getD_some, ← heq]
      exact (List.pairwise_append.1 hall.sorted).2.2 last (List.mem_of_getLast? hlast) p hp

/-- Behind the last identifier of a time lies what was added since and is still there. -/
theorem behind_lastId_eq :
    ((World.start.run past).run early).store.behind key
        ((World.start.run past).store.lastId key) =
      (((World.start.run past).run early).store.listed key).filter
        (· ∈ additions ((World.start.run past).turns early) key) := by
  refine List.filter_congr fun p hp => ?_
  rw [decide_eq_decide]
  refine ⟨fun hlt => ?_, lastId_lt_of_added_since past early key⟩
  obtain ⟨stream, hget, hentry⟩ := Store.mem_listed.1 hp
  have hadded := (recorded_run (past ++ early) key).entries stream
    (by rw [World.run_append, hget]) p.1 p.2 hentry
  rw [World.turns_append, additions_append] at hadded
  refine (List.mem_append.1 hadded).resolve_left fun hbefore => ?_
  exact EntryId.not_le.2 hlt (le_lastId_of_added_before past key hbefore)

end Since

/-! ## What a plain read returns -/

/-- The entries that an offset of a plain read asks for: `$` for those added since the read began,
an identifier for those behind it. -/
def askedFor (since : List Turn) (s : Store) (key : Bytes) (token : String) :
    List (EntryId × Body) :=
  if token = "$" then (s.listed key).filter (· ∈ additions since key)
  else s.behind key ((EntryId.ofText? 0 token).getD .least)

theorem pairwise_askedFor (since : List Turn) (s : Store) (key : Bytes) (token : String) :
    (askedFor since s key token).Pairwise fun p q => p.1 < q.1 := by
  unfold askedFor
  split
  · exact (s.pairwise_listed key).filter _
  · exact s.pairwise_behind key _

theorem behind_mark_eq (past early : List Move) (key : Bytes) (token : String) :
    ((World.start.run past).run early).store.behind key
        ((World.start.run past).store.mark key token) =
      askedFor ((World.start.run past).turns early) ((World.start.run past).run early).store key
        token := by
  unfold Store.mark askedFor
  split
  · exact behind_lastId_eq past early key
  · rfl

/-- A plain read that returns without having run out of time, however often it was woken before and
whatever others did meanwhile, returns for each of its offsets the first entries, up to its count,
of those that the offset asks for at that moment.  For `$` these are the entries that were added
since the read began and are still there: none that was added before is among them, even where all
entries had been deleted by then, and none that was added since is passed over below the last of
them. -/
theorem latest_is_added_since (past rest : List Move) (request : ReadRequest)
    (hplain : request.consumer = none) :
    let w := World.start.run past
    ∀ early m late, .begin request :: rest = early ++ m :: late → ∀ messages,
      ((w.run early).step m).1 = .read w.readers.length (.returned (.ok messages)) →
      (∀ wait, (w.run early).reader? w.readers.length ≠ some ⟨.late, wait⟩) →
      let asked := askedFor (w.turns early) (w.run early).store
      (messages = request.offsets.flatMap fun o =>
        (takeCount request.count (asked o.1 o.2)).map fun p => .ofEntry o.1 p.1 p.2) ∧
      ∀ key, (key, "$") ∈ request.offsets →
        asked key "$" = ((w.run early).store.listed key).filter
          (· ∈ additions (w.turns early) key) ∧
        ((takeCount request.count (asked key "$")).Pairwise fun p q => p.1 < q.1) ∧
        (∀ p ∈ takeCount request.count (asked key "$"),
          ∀ q ∈ additions (World.start.turns past) key, q.1 < p.1) ∧
        ∀ p ∈ (w.run early).store.listed key, p ∈ additions (w.turns early) key →
          ∀ last, (takeCount request.count (asked key "$")).getLast? = some last →
            p.1 ≤ last.1 → p ∈ takeCount request.count (asked key "$") := by
  intro w early m late hsplit messages hreply hintime asked
  refine ⟨?_, fun key _ => ?_⟩
  · rcases World.attempt_of_return hsplit hreply hintime with ⟨refusal, -, herror⟩ |
      ⟨cursors, hresolve, hattempt⟩
    · cases herror
    · rw [hplain] at hresolve hattempt
      have hcursors := Store.resolve_plain hresolve
      rw [hcursors, Store.attempt_plain, Store.readPlain_after] at hattempt
      rw [← Except.ok.inj hattempt]
      congr 1
      funext o
      rw [behind_mark_eq]
  · have hasked : asked key "$" =
        ((w.run early).store.listed key).filter (· ∈ additions (w.turns early) key) :=
      if_pos rfl
    have hprefix := takeCount_isPrefix request.count (asked key "$")
    have hsorted : (asked key "$").Pairwise fun p q => p.1 < q.1 := pairwise_askedFor ..
    refine ⟨hasked, hsorted.sublist hprefix.sublist, ?_, ?_⟩
    · intro p hp q hq
      have hsince := hprefix.subset hp
      rw [hasked, List.mem_filter, decide_eq_true_iff] at hsince
      exact EntryId.lt_of_le_of_lt (le_lastId_of_added_before past key hq)
        (lastId_lt_of_added_since past early key hsince.2)
    · intro p hp hadded last hlast hle
      obtain ⟨back, hback⟩ := hprefix
      have hmem : p ∈ asked key "$" := by
        rw [hasked, List.mem_filter, decide_eq_true_iff]
        exact ⟨hp, hadded⟩
      rw [← hback] at hsorted hmem
      exact mem_prefix_of_le_getLast hsorted hmem hlast hle

/-- A stream whose only entry is deleted before a read begins. -/
def emptiedBefore : List Move :=
  [.add [97] (some "1-1") (.ofList [([102], [118])]) (some 0), .delete [97] ["1-1"]]

/-- One entry from the latest on. -/
def oneFromLatest : ReadRequest := ⟨[([97], "$")], some 0, some 1, false, none⟩

/-- The read is woken by an entry that is gone when it looks, and again by two that are not. -/
def wokenTwice : List Move :=
  [.begin oneFromLatest, .add [97] (some "1-2") (.ofList [([102], [118])]) (some 0),
    .delete [97] ["1-2"], .hear 0, .proceed 0,
    .add [97] (some "1-3") (.ofList [([102], [118])]) (some 0),
    .add [97] (some "1-4") (.ofList [([102], [118])]) (some 0), .hear 0]

/-- Its second wait, still behind the identifier that was deleted before it began. -/
def secondLook : Wait := ⟨⟨[([97], .after ⟨1, 1⟩)], some 1, false, none, true, none⟩, 1⟩

theorem latest_is_added_since_wokenTwice :
    (((World.start.run emptiedBefore).run wokenTwice).step (.proceed 0)).1 =
        .read 0 (.returned (.ok [.ofEntry [97] ⟨1, 3⟩ (.ofList [([102], [118])])])) ∧
      takeCount (some 1) (askedFor ((World.start.run emptiedBefore).turns wokenTwice)
          ((World.start.run emptiedBefore).run wokenTwice).store [97] "$") =
        [(⟨1, 3⟩, .ofList [([102], [118])])] ∧
      ∀ q ∈ additions (World.start.turns emptiedBefore) [97], q.1 < ⟨1, 3⟩ := by
  have hlength : (World.start.run emptiedBefore).readers.length = 0 := by decide +kernel
  have hreader : ((World.start.run emptiedBefore).run wokenTwice).reader? 0 =
      some ⟨.woken, secondLook⟩ := by
    decide +kernel
  have hfound : ((World.start.run emptiedBefore).run wokenTwice).store.readPlain (some 1)
      secondLook.reading.cursors = [.ofEntry [97] ⟨1, 3⟩ (.ofList [([102], [118])])] := by
    decide +kernel
  have htaken : takeCount (some 1) (askedFor ((World.start.run emptiedBefore).turns wokenTwice)
      ((World.start.run emptiedBefore).run wokenTwice).store [97] "$") =
        [(⟨1, 3⟩, .ofList [([102], [118])])] := by
    decide +kernel
  have hreply : (((World.start.run emptiedBefore).run wokenTwice).step (.proceed 0)).1 =
      .read 0 (.returned (.ok [.ofEntry [97] ⟨1, 3⟩ (.ofList [([102], [118])])])) := by
    rw [World.step_proceed_woken hreader, ← hfound]
    generalize (World.start.run emptiedBefore).run wokenTwice = v at *
    rcases (v.engine.dismiss secondLook).attempt_cases secondLook.reading with hover |
      ⟨hnothing, -⟩
    · exact congrArg (Reply.read 0 ·.1) hover
    · change Except.ok (v.store.readPlain (some 1) secondLook.reading.cursors) = _ at hnothing
      rw [hfound] at hnothing
      cases hnothing
  refine ⟨hreply, htaken, ?_⟩
  have hlatest := latest_is_added_since emptiedBefore (wokenTwice.tail ++ [.proceed 0])
    oneFromLatest rfl wokenTwice (.proceed 0) [] rfl
  rw [hlength] at hlatest
  obtain ⟨-, hkeys⟩ := hlatest _ hreply fun wait hlate => by
    rw [hreader] at hlate
    cases hlate
  obtain ⟨-, -, hbefore, -⟩ := hkeys [97] List.mem_cons_self
  exact hbefore (⟨1, 3⟩, .ofList [([102], [118])]) (htaken ▸ List.mem_cons_self)

end StreamBroker
