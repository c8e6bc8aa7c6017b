import StreamBroker.Proofs.Front.Records
set_option autoImplicit false

/-!
# What is asked on which channel

Of the deeds of the front end three kinds matter to its channels: a channel is leased, something is
asked on a channel, a channel is given back (`Mark`).  The marks of one record stream are always a
first part of one of two courses (`Course`): it asks its query on the shared channel, or it leases a
channel of its own, asks its query there and gives the channel back.  How far it has come can be
told from the stream (`RecordStream.Marked`), and each pull and the giving up keep to that, whatever
the provider does.

Which of the two it is depends on whether the query may wait: a channel of its own is for what
carries a time to wait and for nothing else (`ReadOptions.route_eq_dedicated_iff`).
-/

namespace StreamBroker

variable {σ : Type} {p : Provider σ}

/-- What is asked on a channel. -/
abbrev Asked := AnyCall ⊕ Query

/-- Whether what is asked carries a time to wait. -/
def Asked.carriesBlock : Asked → Bool
  | .inr (.read request) => request.block.isSome
  | .inr (.scan ..) | .inl _ => false

/-- What is done with the channels. -/
inductive Mark (p : Provider σ) where
  | leased (lease : p.Lease)
  | asked (route : Route) (what : Asked)
  | released (lease : p.Lease)

/-- The mark that a deed leaves; single calls are made on the shared channel. -/
def Deed.mark? : Deed p → Option (Mark p)
  | .collected _ (.ready (.ok lease)) => some (.leased lease)
  | .called call .. => some (.asked .shared (.inl ⟨_, call⟩))
  | .queried route query _ => some (.asked route (.inr query))
  | .released lease => some (.released lease)
  | _ => none

/-- The marks of some deeds, in their order. -/
def marks (deeds : List (Deed p)) : List (Mark p) := deeds.filterMap Deed.mark?

theorem marks_append (deeds more : List (Deed p)) :
    marks (deeds ++ more) = marks deeds ++ marks more :=
  List.filterMap_append

theorem marks_skip {deed : Deed p} (h : deed.mark? = none) (deeds : List (Deed p)) :
    marks (deeds ++ [deed]) = marks deeds :=
  filterMap_concat_none h deeds

/-- What a command does with the channels if it may ask for something on one of them. -/
inductive Course (route : Route) (what : Asked) : List (Mark p) → Prop where
  | nothing : Course route what []
  | shared (hroute : route = .shared) : Course route what [.asked .shared what]
  | leased (hroute : route = .dedicated) (lease : p.Lease) :
      Course route what [.leased lease, .asked .dedicated what]
  | released (hroute : route = .dedicated) (lease : p.Lease) :
      Course route what [.leased lease, .asked .dedicated what, .released lease]

/-- Whether it is time to ask: a single call is made at once, a query when its record stream is first
pulled and, if it needs a channel of its own, has one. -/
def Due (route : Route) (what : Asked) (deeds : List (Deed p)) (told : List (Pull Record)) : Prop :=
  match what with
  | .inl _ => True
  | .inr _ => told ≠ [] ∧ (route = .dedicated → ∃ lease, .leased lease ∈ marks deeds)

/-- A command keeps to its course, and asks when it is time and not before. -/
structure Keeps (route : Route) (what : Asked) (deeds : List (Deed p)) (told : List (Pull Record)) :
    Prop where
  course : Course route what (marks deeds)
  due : marks deeds ≠ [] ↔ Due route what deeds told

/-- A single call is made at once, on the shared channel. -/
theorem keeps_of_call {call : AnyCall} {deeds : List (Deed p)}
    (h : marks deeds = [.asked .shared (.inl call)]) (told : List (Pull Record)) :
    Keeps .shared (.inl call) deeds told := by
  refine ⟨?_, fun _ => trivial, fun _ => ?_⟩
  · rw [h]
    exact .shared rfl
  · rw [h]
    exact List.cons_ne_nil _ _

/-- Whether a mark is something asked on a channel. -/
def Mark.isAskedOn (route : Route) : Mark p → Bool
  | asked route' _ => route' == route
  | leased _ | released _ => false

/-- How often something was asked on a channel. -/
def asksOn (route : Route) (deeds : List (Deed p)) : Nat :=
  (marks deeds).countP (Mark.isAskedOn route)

/-- Who keeps to a course asks once, on the channel of the course, or not at all. -/
theorem Keeps.asksOn {route : Route} {what : Asked} {deeds : List (Deed p)}
    {told : List (Pull Record)} (h : Keeps route what deeds told) (route' : Route) :
    (Due route what deeds told → asksOn route' deeds = if route = route' then 1 else 0) ∧
      (¬ Due route what deeds told → asksOn route' deeds = 0) := by
  have hdue := h.due
  have hcourse := h.course
  unfold StreamBroker.asksOn
  constructor
  · intro hnow
    have hsome := hdue.2 hnow
    generalize marks deeds = l at hcourse hsome
    cases hcourse with
    | nothing => exact absurd rfl hsome
    | shared hroute | leased hroute | released hroute =>
        subst hroute
        cases route' <;> rfl
  · intro hlater
    rw [Classical.not_not.1 fun hsome => hlater (hdue.1 hsome)]
    rfl

/-! ## Which channel it is -/

/-- A read is routed to a channel of its own just if it sends a time to wait. -/
theorem ReadOptions.route_eq_dedicated_iff (o : ReadOptions) :
    o.route = .dedicated ↔ o.sentBlock.isSome = true := by
  unfold route sentBlock
  cases o.block with
  | none => exact ⟨nofun, nofun⟩
  | some millis => by_cases h : 0 ≤ millis <;> simp [h]

theorem exists_of_bind_eq_ok {α β : Type} {x : Except Failure α} {f : α → Except Failure β} {b : β}
    (h : (x >>= f) = .ok b) : ∃ a, x = .ok a ∧ f a = .ok b := by
  cases x with
  | error failure => cases h
  | ok a => exact ⟨a, rfl, h⟩

theorem exists_of_map_eq_ok {α β : Type} {x : Except Failure α} {f : α → β} {b : β}
    (h : x.map f = .ok b) : ∃ a, x = .ok a ∧ f a = b := by
  cases x with
  | error failure => cases h
  | ok a => exact ⟨a, rfl, Except.ok.inj h⟩

theorem ReadCommand.route_of_query {c : ReadCommand} {route : Route} {query : Query}
    (h : c.query = .ok (route, query)) :
    route = .dedicated ↔ Asked.carriesBlock (.inr query) = true := by
  obtain ⟨-, -, h⟩ := exists_of_bind_eq_ok h
  obtain ⟨options, -, h⟩ := exists_of_bind_eq_ok h
  cases h
  exact options.route_eq_dedicated_iff

/-- A scan asks on the shared channel and carries no time to wait. -/
theorem RangeCommand.route_of_routed {d : Direction} {c : RangeCommand} {route : Route}
    {query : Query} (h : c.routed d = .ok (route, query)) :
    route = .shared ∧ Asked.carriesBlock (.inr query) = false := by
  obtain ⟨q, hq, hrouted⟩ := exists_of_map_eq_ok h
  obtain ⟨key, -, hq⟩ := exists_of_bind_eq_ok hq
  obtain ⟨range, -, hq⟩ := exists_of_bind_eq_ok hq
  obtain ⟨limit, -, hq⟩ := exists_of_bind_eq_ok hq
  cases hq
  cases hrouted
  exact ⟨rfl, rfl⟩

/-! ## How far a record stream has come -/

namespace RecordStream

/-- The channel on which a stream asks. -/
def routeOf : Option p.Lease → Route
  | none => .shared
  | some _ => .dedicated

/-- What a stream has done that has asked its query. -/
def begun (query : Query) : Option p.Lease → List (Mark p)
  | none => [.asked .shared (.inr query)]
  | some lease => [.leased lease, .asked .dedicated (.inr query)]

/-- What is done when a channel is given back, if there is one. -/
def returning (lease : Option p.Lease) : List (Mark p) := lease.toList.map .released

/-- A stream was pulled and has asked its query, and has done something else behind that. -/
structure HasAsked (route : Route) (query : Query) (deeds : List (Deed p))
    (told : List (Pull Record)) (lease : Option p.Lease) (behind : List (Mark p)) : Prop where
  route : route = routeOf lease
  marks : marks deeds = begun query lease ++ behind
  told : told ≠ []

/-- A stream that asked its query has given its channel back, and one that needed a channel and did
not get one has asked nothing. -/
def HasEnded (route : Route) (query : Query) (deeds : List (Deed p)) (told : List (Pull Record)) :
    Prop :=
  route = .dedicated ∧ marks deeds = [] ∨
    ∃ lease, HasAsked route query deeds told lease (returning lease)

/-- A stream over a watched provider has come as far as what it did and told. -/
def Marked (route : Route) (query : Query) (deeds : List (Deed p)) (told : List (Pull Record)) :
    RecordStream p.watched → Prop
  | .fresh route' query' => route' = route ∧ query' = query ∧ marks deeds = [] ∧ told = []
  | .acquiring _ query' => route = .dedicated ∧ query' = query ∧ marks deeds = []
  | .running (lease : Option p.Lease) _ => HasAsked route query deeds told lease []
  | .failed (lease : Option p.Lease) feed =>
    HasAsked route query deeds told lease [] ∨
      lease = none ∧ feed.isNone ∧ route = .dedicated ∧ marks deeds = []
  | .ended => HasEnded route query deeds told

section Pull

variable {route : Route} {query : Query} {told : List (Pull Record)} {w : Watched p}

theorem HasAsked.tell {deeds : List (Deed p)} {lease : Option p.Lease} {behind : List (Mark p)}
    (h : HasAsked route query deeds told lease behind) (item : Pull Record) :
    HasAsked route query deeds (told ++ [item]) lease behind :=
  ⟨h.route, h.marks, List.append_ne_nil_of_left_ne_nil h.told _⟩

theorem marks_giveBack (lease : Option p.Lease) (w : Watched p) :
    marks ((giveBack p.watched lease).run w).2.deeds = marks w.deeds ++ returning lease := by
  cases lease with
  | none => exact (List.append_nil _).symm
  | some lease => exact marks_append w.deeds [.released lease]

theorem marks_closeFeed (feed : Option p.Feed) (w : Watched p) :
    marks ((closeFeed p.watched feed).run w).2.deeds = marks w.deeds := by
  cases feed with
  | none => rfl
  | some feed => exact marks_skip rfl w.deeds

/-- A stream that has asked its query and gives its channel back. -/
theorem HasAsked.giveBack {lease : Option p.Lease} (h : HasAsked route query w.deeds told lease []) :
    HasEnded route query ((giveBack p.watched lease).run w).2.deeds told := by
  refine .inr ⟨lease, h.route, ?_, h.told⟩
  rw [marks_giveBack, h.marks, List.append_nil]

/-- A stream that has asked its query and gives up what it has. -/
theorem HasAsked.closeFeed {lease : Option p.Lease}
    (h : HasAsked route query w.deeds told lease []) (feed : Option p.Feed) :
    HasEnded route query
      ((RecordStream.giveBack p.watched lease).run
        ((RecordStream.closeFeed p.watched feed).run w).2).2.deeds told :=
  HasAsked.giveBack ⟨h.route, (marks_closeFeed feed w).trans h.marks, h.told⟩

theorem HasEnded.tell {deeds : List (Deed p)} (h : HasEnded route query deeds told)
    (item : Pull Record) : HasEnded route query deeds (told ++ [item]) :=
  h.imp_right fun ⟨lease, hasked⟩ => ⟨lease, hasked.tell item⟩

theorem marked_pullFeed (lease : Option p.Lease) (hroute : route = routeOf lease)
    (hmarks : marks w.deeds = begun query lease) (feed : p.Feed) :
    Marked route query ((pullFeed p.watched lease feed).run w).2.deeds
      (told ++ [((pullFeed p.watched lease feed).run w).1.1])
      ((pullFeed p.watched lease feed).run w).1.2 := by
  obtain ⟨item, feed', s, -, hrun⟩ := Provider.exists_run_pull w feed
  have hasked : ∀ x : Pull Record,
      HasAsked route query (w.deeds ++ [.received feed item feed']) (told ++ [x]) lease [] :=
    fun x => ⟨hroute, by rw [marks_skip rfl, hmarks, List.append_nil],
      List.append_ne_nil_of_right_ne_nil _ (List.cons_ne_nil x [])⟩
  unfold pullFeed
  rw [run_bind_of_run hrun]
  cases item with
  | waiting => exact hasked .waiting
  | finished => exact (hasked .finished).giveBack (w := ⟨s, _⟩)
  | item outcome =>
      cases outcome with
      | error failure => exact .inl (hasked _)
      | ok m =>
          dsimp only
          cases m.record with
          | ok record => exact hasked _
          | error failure => exact .inl (hasked _)

theorem marked_pullTicket (hmarks : marks w.deeds = []) (ticket : p.Ticket) (query : Query) :
    Marked .dedicated query ((pullTicket p.watched ticket query).run w).2.deeds
      (told ++ [((pullTicket p.watched ticket query).run w).1.1])
      ((pullTicket p.watched ticket query).run w).1.2 := by
  obtain ⟨found, s, -, hrun⟩ := Provider.exists_run_collect w ticket
  unfold pullTicket
  rw [run_bind_of_run hrun]
  cases found with
  | waiting => exact ⟨rfl, rfl, (marks_skip rfl w.deeds).trans hmarks⟩
  | ready outcome =>
      cases outcome with
      | error failure =>
          exact .inr ⟨rfl, rfl, rfl, (marks_skip rfl w.deeds).trans hmarks⟩
      | ok lease =>
          obtain ⟨feed, s', -, hrun'⟩ := Provider.exists_run_submit
            ⟨s, w.deeds ++ [.collected ticket (.ready (.ok lease))]⟩ .dedicated query
          have hasked : marks (w.deeds ++ [.collected ticket (.ready (.ok lease))] ++
              [.queried .dedicated query feed]) = begun query (some lease) := by
            rw [marks_append, marks_append, hmarks]
            rfl
          dsimp only
          rw [run_bind_of_run hrun']
          exact marked_pullFeed (w := ⟨s', _⟩) (some lease) rfl hasked feed

/-- A stream has come as far as what it did and told after each pull as well. -/
theorem marked_pull {stream : RecordStream p.watched} (h : Marked route query w.deeds told stream) :
    Marked route query ((pull p.watched stream).run w).2.deeds
      (told ++ [((pull p.watched stream).run w).1.1])
      ((pull p.watched stream).run w).1.2 := by
  cases stream with
  | fresh route' query' =>
      obtain ⟨rfl, rfl, hmarks, rfl⟩ := h
      cases route' with
      | shared =>
          obtain ⟨feed, s, -, hrun⟩ := Provider.exists_run_submit w .shared query'
          have hasked : marks (w.deeds ++ [.queried .shared query' feed]) = begun query' none := by
            rw [marks_append, hmarks]
            rfl
          unfold pull
          rw [run_bind_of_run hrun]
          exact marked_pullFeed (w := ⟨s, _⟩) none rfl hasked feed
      | dedicated =>
          obtain ⟨ticket, s, -, hrun⟩ := Provider.exists_run_request w
          unfold pull
          rw [run_bind_of_run hrun]
          exact marked_pullTicket (w := ⟨s, _⟩) ((marks_skip rfl w.deeds).trans hmarks) ticket query'
  | acquiring ticket query' =>
      obtain ⟨rfl, rfl, hmarks⟩ := h
      exact marked_pullTicket hmarks ticket query'
  | running lease feed =>
      have hasked : HasAsked (p := p) route query w.deeds told lease [] := h
      have hmarks := hasked.marks
      rw [List.append_nil] at hmarks
      exact marked_pullFeed (w := w) lease hasked.route hmarks feed
  | failed lease feed =>
      rcases h with hasked | ⟨rfl, hfeed, hroute, hmarks⟩
      · have hended : HasEnded (p := p) route query _ told := HasAsked.closeFeed hasked feed
        exact hended.tell .finished
      · obtain rfl := Option.isNone_iff_eq_none.1 hfeed
        exact .inl ⟨hroute, hmarks⟩
  | ended =>
      have hended : HasEnded route query w.deeds told := h
      exact hended.tell .finished

/-! ## The end of a stream -/

/-- What a stream that was given up has done with the channels. -/
def Left (route : Route) (query : Query) (deeds : List (Deed p)) (told : List (Pull Record)) :
    Prop :=
  (marks deeds = [] ∧ (route = .shared → told = [])) ∨
    ∃ lease, HasAsked route query deeds told lease (returning lease)

theorem HasEnded.left {deeds : List (Deed p)} (h : HasEnded route query deeds told) :
    Left route query deeds told :=
  h.imp_left fun ⟨hroute, hmarks⟩ => ⟨hmarks, fun hshared => nomatch hroute.symm.trans hshared⟩

/-- A stream that is given up gives back the channel that it has, and asks nothing any more. -/
theorem left_drop {stream : RecordStream p.watched} (h : Marked route query w.deeds told stream) :
    Left route query ((drop p.watched stream).run w).2.deeds told := by
  cases stream with
  | fresh route' query' =>
      obtain ⟨-, -, hmarks, htold⟩ := h
      exact .inl ⟨hmarks, fun _ => htold⟩
  | acquiring ticket query' =>
      obtain ⟨rfl, -, hmarks⟩ := h
      exact .inl ⟨(marks_skip rfl w.deeds).trans hmarks, nofun⟩
  | running lease feed =>
      have hasked : HasAsked (p := p) route query w.deeds told lease [] := h
      have hended : HasEnded (p := p) route query _ told := hasked.closeFeed (some feed)
      exact hended.left
  | failed lease feed =>
      rcases h with hasked | ⟨rfl, hfeed, rfl, hmarks⟩
      · have hended : HasEnded (p := p) route query _ told := HasAsked.closeFeed hasked feed
        exact hended.left
      · obtain rfl := Option.isNone_iff_eq_none.1 hfeed
        exact .inl ⟨hmarks, nofun⟩
  | ended =>
      have hended : HasEnded route query w.deeds told := h
      exact hended.left

end Pull

/-! ## Keeping to the course -/

section Keeping

variable {route : Route} {query : Query} {told : List (Pull Record)} {deeds : List (Deed p)}
  {lease : Option p.Lease}

theorem HasAsked.keeps {behind : List (Mark p)} (h : HasAsked route query deeds told lease behind)
    (hbehind : behind = [] ∨ behind = returning lease) : Keeps route (.inr query) deeds told := by
  obtain ⟨rfl, hmarks, htold⟩ := h
  cases lease with
  | none =>
      obtain rfl : behind = [] := hbehind.elim id id
      refine ⟨?_, fun _ => ⟨htold, nofun⟩, fun _ => ?_⟩
      · rw [hmarks]
        exact .shared rfl
      · rw [hmarks]
        exact List.cons_ne_nil _ _
  | some lease =>
      refine ⟨?_, fun _ => ⟨htold, fun _ => ⟨lease, ?_⟩⟩, fun _ => ?_⟩
      · rw [hmarks]
        rcases hbehind with rfl | rfl
        · exact .leased rfl lease
        · exact .released rfl lease
      · rw [hmarks]
        exact List.mem_cons_self
      · rw [hmarks]
        exact List.cons_ne_nil _ _

theorem keeps_of_nothing (hmarks : marks deeds = []) (hshared : route = .shared → told = []) :
    Keeps route (.inr query) deeds told := by
  refine ⟨?_, fun hsome => absurd hmarks hsome, fun ⟨htold, hleased⟩ => ?_⟩
  · rw [hmarks]
    exact .nothing
  · cases route with
    | shared => exact absurd (hshared rfl) htold
    | dedicated =>
        obtain ⟨lease, hmem⟩ := hleased rfl
        rw [hmarks] at hmem
        cases hmem

theorem Left.keeps (h : Left route query deeds told) : Keeps route (.inr query) deeds told := by
  rcases h with ⟨hmarks, hshared⟩ | ⟨lease, hasked⟩
  · exact keeps_of_nothing hmarks hshared
  · exact hasked.keeps (.inr rfl)

theorem Marked.keeps {stream : RecordStream p.watched} (h : Marked route query deeds told stream) :
    Keeps route (.inr query) deeds told := by
  cases stream with
  | fresh route' query' =>
      obtain ⟨-, -, hmarks, htold⟩ := h
      exact keeps_of_nothing hmarks fun _ => htold
  | acquiring ticket query' =>
      obtain ⟨rfl, -, hmarks⟩ := h
      exact keeps_of_nothing hmarks nofun
  | running lease feed =>
      have hasked : HasAsked (p := p) route query deeds told lease [] := h
      exact hasked.keeps (.inl rfl)
  | failed lease feed =>
      rcases h with hasked | ⟨-, -, rfl, hmarks⟩
      · exact HasAsked.keeps hasked (.inl rfl)
      · exact keeps_of_nothing hmarks nofun
  | ended =>
      have hended : HasEnded route query deeds told := h
      exact hended.left.keeps

end Keeping

end RecordStream

end StreamBroker
