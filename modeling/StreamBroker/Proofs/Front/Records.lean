import StreamBroker.Front.Records
import StreamBroker.Proofs.Front.Watched
set_option autoImplicit false

/-!
# What a record stream tells

A record stream makes one query at most, on the channel that its command is routed to, and none if
it is not granted a channel of its own where it needs one (`RecordStream.Traced`).  It tells what
the channel gives, message by message as a record, as long as nothing closes it (`Open`): an error,
a message that is no record, or the end.  From then on it tells its end (`Closed`).  Each pull keeps
this, whatever the provider does (`fits_pull`).
-/

namespace StreamBroker

variable {σ : Type} {p : Provider σ}

/-- What is made of what a channel gives. -/
def Pull.toRecord : Pull Message → Pull Record
  | item a => .item (a >>= Message.record)
  | waiting => .waiting
  | finished => .finished

/-- Whether nothing but the end comes behind. -/
def Pull.closes {α : Type} : Pull α → Bool
  | item (.ok _) | waiting => false
  | item (.error _) | finished => true

/-- What the channel of a stream gave, as records. -/
def retold (deeds : List (Deed p)) : List (Pull Record) :=
  (deeds.filterMap Deed.answer?).map Pull.toRecord

theorem retold_skip {deed : Deed p} (h : deed.answer? = none) (deeds : List (Deed p)) :
    retold (deeds ++ [deed]) = retold deeds :=
  congrArg (List.map Pull.toRecord) (filterMap_concat_none h deeds)

theorem retold_keep {deed : Deed p} {item : Pull Message} (h : deed.answer? = some item)
    (deeds : List (Deed p)) : retold (deeds ++ [deed]) = retold deeds ++ [item.toRecord] := by
  unfold retold
  rw [filterMap_concat, h, List.map_append]
  rfl

namespace RecordStream

/-! ## What is asked of the provider -/

/-- The deeds of one record stream: it asks nothing but a query of its own, once, and pulls from the
feed of that query; before, if its channel is to be a dedicated one, it takes one place in the
queue, asks about no other and is granted the channel.  One that was refused has not made its
query. -/
structure Traced (route : Route) (query : Query) (tickets : List p.Ticket) (feeds : List p.Feed)
    (deeds : List (Deed p)) : Prop where
  asked : deeds.filterMap Deed.asked? = if feeds.isEmpty then [] else [.inr (route, query)]
  requested : deeds.filterMap Deed.requested? = tickets
  routed : tickets = [] ∨ route = .dedicated ∧ tickets.length = 1
  lookedUp : ∀ ticket ∈ deeds.filterMap Deed.lookedUp?, ticket ∈ tickets
  granted : route = .dedicated → feeds ≠ [] →
    ∃ ticket lease, .collected ticket (.ready (.ok lease)) ∈ deeds
  refused : ∀ ticket failure, .collected ticket (.ready (.error failure)) ∈ deeds → feeds = []
  fed : deeds.filterMap Deed.feed? = feeds
  drawn : deeds.filterMap Deed.source? = feeds.dropLast

theorem granted_concat {deeds : List (Deed p)} {deed : Deed p}
    (h : ∃ ticket lease, .collected ticket (.ready (.ok lease)) ∈ deeds) :
    ∃ ticket lease, .collected ticket (.ready (.ok lease)) ∈ deeds ++ [deed] := by
  obtain ⟨ticket, lease, hmem⟩ := h
  exact ⟨ticket, lease, List.mem_append_left _ hmem⟩

/-- A deed that gives something up. -/
def IsGivingUp : Deed p → Prop
  | .withdrawn _ | .released _ | .closed _ => True
  | _ => False

namespace Traced

variable {route : Route} {query : Query} {tickets : List p.Ticket} {feeds : List p.Feed}
  {deeds : List (Deed p)}

theorem nil (route : Route) (query : Query) : Traced (p := p) route query [] [] [] where
  asked := rfl
  requested := rfl
  routed := .inl rfl
  lookedUp := nofun
  granted := fun _ hfeeds => absurd rfl hfeeds
  refused := nofun
  fed := rfl
  drawn := rfl

theorem request (h : Traced .dedicated query [] feeds deeds) (ticket : p.Ticket) :
    Traced .dedicated query [ticket] feeds (deeds ++ [.requested ticket]) where
  asked := (filterMap_concat_none rfl deeds).trans h.asked
  requested := by rw [filterMap_concat, h.requested]; rfl
  routed := .inr ⟨rfl, rfl⟩
  lookedUp t ht := by
    rw [filterMap_concat_none rfl] at ht
    cases h.lookedUp t ht
  granted hroute hfeeds := granted_concat (h.granted hroute hfeeds)
  refused t failure hrefused :=
    h.refused t failure ((List.mem_append.1 hrefused).resolve_right (by simp))
  fed := (filterMap_concat_none rfl deeds).trans h.fed
  drawn := (filterMap_concat_none rfl deeds).trans h.drawn

/-- It asks about its own place in the queue, and is not refused once it has made its query. -/
theorem lookUp (h : Traced route query tickets feeds deeds) {ticket : p.Ticket}
    (hticket : ticket ∈ tickets) {found : Poll (Except Failure p.Lease)}
    (hfound : ∀ failure, found = .ready (.error failure) → feeds = []) :
    Traced route query tickets feeds (deeds ++ [.collected ticket found]) where
  asked := (filterMap_concat_none rfl deeds).trans h.asked
  requested := (filterMap_concat_none rfl deeds).trans h.requested
  routed := h.routed
  lookedUp t ht := by
    rw [filterMap_concat] at ht
    rcases List.mem_append.1 ht with hbefore | hlast
    · exact h.lookedUp t hbefore
    · rwa [List.mem_singleton.1 hlast]
  granted hroute hfeeds := granted_concat (h.granted hroute hfeeds)
  refused t failure hrefused := by
    rcases List.mem_append.1 hrefused with hbefore | hlast
    · exact h.refused t failure hbefore
    · cases List.mem_singleton.1 hlast
      exact hfound failure rfl
  fed := (filterMap_concat_none rfl deeds).trans h.fed
  drawn := (filterMap_concat_none rfl deeds).trans h.drawn

/-- It makes its query if it was granted a channel of its own or needs none. -/
theorem submit (h : Traced route query tickets [] deeds)
    (hrefused' : ∀ ticket failure, .collected ticket (.ready (.error failure)) ∉ deeds)
    (hgranted : route = .dedicated → ∃ ticket lease, .collected ticket (.ready (.ok lease)) ∈ deeds)
    (feed : p.Feed) :
    Traced route query tickets [feed] (deeds ++ [.queried route query feed]) where
  asked := by rw [filterMap_concat, h.asked]; rfl
  requested := (filterMap_concat_none rfl deeds).trans h.requested
  routed := h.routed
  lookedUp t ht := by
    rw [filterMap_concat_none rfl] at ht
    exact h.lookedUp t ht
  granted hroute _ := granted_concat (hgranted hroute)
  refused t failure hrefused :=
    absurd ((List.mem_append.1 hrefused).resolve_right (by simp)) (hrefused' t failure)
  fed := by rw [filterMap_concat, h.fed]; rfl
  drawn := (filterMap_concat_none rfl deeds).trans h.drawn

/-- It pulls from the feed that it was left with. -/
theorem draw {source : p.Feed} (h : Traced route query tickets (feeds ++ [source]) deeds)
    (item : Pull Message) (feed : p.Feed) :
    Traced route query tickets (feeds ++ [source] ++ [feed])
      (deeds ++ [.received source item feed]) where
  asked := by
    rw [filterMap_concat_none rfl, h.asked]
    simp
  requested := (filterMap_concat_none rfl deeds).trans h.requested
  routed := h.routed
  lookedUp t ht := by
    rw [filterMap_concat_none rfl] at ht
    exact h.lookedUp t ht
  granted hroute _ :=
    have hfeeds : feeds ++ [source] ≠ [] :=
      List.append_ne_nil_of_right_ne_nil feeds (List.cons_ne_nil source [])
    granted_concat (h.granted hroute hfeeds)
  refused t failure hrefused := by
    have hnone := h.refused t failure ((List.mem_append.1 hrefused).resolve_right (by simp))
    cases List.append_ne_nil_of_right_ne_nil feeds (List.cons_ne_nil source []) hnone
  fed := by
    rw [filterMap_concat, h.fed]
    rfl
  drawn := by
    rw [filterMap_concat, h.drawn, List.dropLast_concat, List.dropLast_concat]
    rfl

theorem giveUp (h : Traced route query tickets feeds deeds) {deed : Deed p}
    (hdeed : IsGivingUp deed) : Traced route query tickets feeds (deeds ++ [deed]) := by
  cases deed with
  | withdrawn | released | closed =>
      exact {
        asked := (filterMap_concat_none rfl deeds).trans h.asked
        requested := (filterMap_concat_none rfl deeds).trans h.requested
        routed := h.routed
        lookedUp := by
          rw [filterMap_concat_none rfl]
          exact h.lookedUp
        granted := fun hroute hfeeds => granted_concat (h.granted hroute hfeeds)
        refused := fun t failure hrefused =>
          h.refused t failure ((List.mem_append.1 hrefused).resolve_right (by simp))
        fed := (filterMap_concat_none rfl deeds).trans h.fed
        drawn := (filterMap_concat_none rfl deeds).trans h.drawn }
  | _ => cases hdeed

end Traced

/-! ## What is told -/

/-- As long as nothing that its channel gave closes it, a stream has told the records of just
that. -/
structure Open (deeds : List (Deed p)) (told : List (Pull Record)) : Prop where
  faithful : told = retold deeds
  goesOn : ∀ x ∈ told, x.closes = false

/-- Once something closed it, a stream has told the records of all that its channel gave, that one
last, and from then on its end. -/
def Closed (deeds : List (Deed p)) (told : List (Pull Record)) : Prop :=
  ∃ before last n, retold deeds = before ++ [last] ∧
    told = before ++ [last] ++ List.replicate n .finished ∧
    (∀ x ∈ before, x.closes = false) ∧ last.closes

section Told

variable {deeds : List (Deed p)} {told : List (Pull Record)} {deed : Deed p} {x : Pull Message}

theorem Open.skip (h : Open deeds told) (hdeed : deed.answer? = none) :
    Open (deeds ++ [deed]) told :=
  ⟨by rw [retold_skip hdeed, h.faithful], h.goesOn⟩

theorem Open.tell (h : Open deeds told) (hdeed : deed.answer? = some x)
    (hgoes : x.toRecord.closes = false) : Open (deeds ++ [deed]) (told ++ [x.toRecord]) := by
  refine ⟨by rw [retold_keep hdeed, h.faithful], ?_⟩
  intro y hy
  rcases List.mem_append.1 hy with hbefore | hlast
  · exact h.goesOn y hbefore
  · rwa [List.mem_singleton.1 hlast]

theorem Open.close (h : Open deeds told) (hdeed : deed.answer? = some x)
    (hcloses : x.toRecord.closes) : Closed (deeds ++ [deed]) (told ++ [x.toRecord]) :=
  ⟨told, x.toRecord, 0, by rw [retold_keep hdeed, h.faithful], (List.append_nil _).symm, h.goesOn,
    hcloses⟩

theorem Closed.skip (h : Closed deeds told) (hdeed : deed.answer? = none) :
    Closed (deeds ++ [deed]) told := by
  unfold Closed
  rwa [retold_skip hdeed]

theorem Closed.finish (h : Closed deeds told) : Closed deeds (told ++ [.finished]) := by
  obtain ⟨before, last, n, hretold, rfl, hbefore, hlast⟩ := h
  refine ⟨before, last, n + 1, hretold, ?_, hbefore, hlast⟩
  rw [List.replicate_succ', ← List.append_assoc]

/-- What a stream told is what its channel gave, and its end as often as it was pulled behind. -/
theorem told_eq (h : Open deeds told ∨ Closed deeds told) :
    ∃ n, told = retold deeds ++ List.replicate n .finished := by
  rcases h with hopen | ⟨before, last, n, hretold, htold, -, -⟩
  · exact ⟨0, hopen.faithful.trans (List.append_nil _).symm⟩
  · exact ⟨n, by rw [hretold, htold]⟩

end Told

/-- A stream that is open was not refused a channel. -/
theorem Open.not_refused {deeds : List (Deed p)} {told : List (Pull Record)} (h : Open deeds told)
    (ticket : p.Ticket) (failure : Failure) :
    .collected ticket (.ready (.error failure)) ∉ deeds := by
  intro hmem
  have hretold : Pull.toRecord (.item (.error failure)) ∈ retold deeds :=
    List.mem_map_of_mem (List.mem_filterMap.2 ⟨_, hmem, rfl⟩)
  rw [← h.faithful] at hretold
  cases h.goesOn _ hretold

/-! ## One pull -/

/-- What a stream that is over did and told. -/
def Over (route : Route) (query : Query) (deeds : List (Deed p)) (told : List (Pull Record)) :
    Prop :=
  ∃ tickets feeds, Traced route query tickets feeds deeds ∧ Closed deeds told

/-- A stream over a watched provider that fits what it did and told. -/
def Fits (route : Route) (query : Query) (deeds : List (Deed p)) (told : List (Pull Record)) :
    RecordStream p.watched → Prop
  | .fresh route' query' =>
    route' = route ∧ query' = query ∧ Traced route query [] [] deeds ∧ Open deeds told
  | .acquiring (ticket : p.Ticket) query' =>
    route = .dedicated ∧ query' = query ∧ Traced route query [ticket] [] deeds ∧ Open deeds told
  | .running _ (feed : p.Feed) =>
    ∃ tickets feeds, Traced route query tickets (feeds ++ [feed]) deeds ∧ Open deeds told
  | .failed .. | .ended => Over route query deeds told

section Pull

variable {route : Route} {query : Query} {told : List (Pull Record)} {w : Watched p}

/-- What giving something up leaves as it is. -/
structure Lasting (P : List (Deed p) → Prop) : Prop where
  giveUp {deeds : List (Deed p)} {deed : Deed p} : IsGivingUp deed → P deeds → P (deeds ++ [deed])

theorem Lasting.giveBack {P : List (Deed p) → Prop} (hP : Lasting P) (lease : Option p.Lease)
    (h : P w.deeds) : P ((giveBack p.watched lease).run w).2.deeds := by
  cases lease with
  | none => exact h
  | some lease =>
      have hreleased : IsGivingUp (.released lease : Deed p) := trivial
      exact hP.giveUp hreleased h

theorem Lasting.closeFeed {P : List (Deed p) → Prop} (hP : Lasting P) (feed : Option p.Feed)
    (h : P w.deeds) : P ((closeFeed p.watched feed).run w).2.deeds := by
  cases feed with
  | none => exact h
  | some feed =>
      have hclosed : IsGivingUp (.closed feed : Deed p) := trivial
      exact hP.giveUp hclosed h

theorem answer?_of_isGivingUp {deed : Deed p} (h : IsGivingUp deed) : deed.answer? = none := by
  cases deed with
  | withdrawn | released | closed => rfl
  | _ => cases h

/-- A stream that is over stays over when it gives something up. -/
theorem lasting_over : Lasting fun deeds : List (Deed p) => Over route query deeds told where
  giveUp := by
    rintro deeds deed hdeed ⟨tickets, feeds, htraced, hclosed⟩
    exact ⟨tickets, feeds, htraced.giveUp hdeed, hclosed.skip (answer?_of_isGivingUp hdeed)⟩

theorem Over.finish {deeds : List (Deed p)} (h : Over route query deeds told) :
    Over route query deeds (told ++ [.finished]) := by
  obtain ⟨tickets, feeds, htraced, hclosed⟩ := h
  exact ⟨tickets, feeds, htraced, hclosed.finish⟩

theorem fits_pullFeed {tickets : List p.Ticket} {feeds : List p.Feed} {feed : p.Feed}
    (htraced : Traced route query tickets (feeds ++ [feed]) w.deeds) (hopen : Open w.deeds told)
    (lease : Option p.Lease) :
    Fits route query ((pullFeed p.watched lease feed).run w).2.deeds
      (told ++ [((pullFeed p.watched lease feed).run w).1.1])
      ((pullFeed p.watched lease feed).run w).1.2 := by
  obtain ⟨item, feed', s, -, hrun⟩ := Provider.exists_run_pull w feed
  have hdrawn := htraced.draw item feed'
  unfold pullFeed
  rw [run_bind_of_run hrun]
  cases item with
  | waiting =>
      have hwaits : Open (w.deeds ++ [.received feed .waiting feed']) (told ++ [.waiting]) :=
        hopen.tell (x := .waiting) rfl rfl
      exact ⟨tickets, _, hdrawn, hwaits⟩
  | finished =>
      have hends : Closed (w.deeds ++ [.received feed .finished feed']) (told ++ [.finished]) :=
        hopen.close (x := .finished) rfl rfl
      have hover : Over route query (w.deeds ++ [.received feed .finished feed'])
          (told ++ [.finished]) := ⟨tickets, _, hdrawn, hends⟩
      exact lasting_over.giveBack lease hover
  | item outcome =>
      cases outcome with
      | error failure =>
          have hfails : Closed (w.deeds ++ [.received feed (.item (.error failure)) feed'])
              (told ++ [.item (.error failure)]) :=
            hopen.close (x := .item (.error failure)) rfl rfl
          exact ⟨tickets, _, hdrawn, hfails⟩
      | ok m =>
          have hrecord : Pull.toRecord (.item (.ok m)) = .item m.record := rfl
          dsimp only
          cases hm : m.record with
          | ok record =>
              rw [hm] at hrecord
              have hgives : Open (w.deeds ++ [.received feed (.item (.ok m)) feed'])
                  (told ++ [Pull.toRecord (.item (.ok m))]) :=
                hopen.tell rfl (by rw [hrecord]; rfl)
              rw [hrecord] at hgives
              exact ⟨tickets, _, hdrawn, hgives⟩
          | error failure =>
              rw [hm] at hrecord
              have hfails : Closed (w.deeds ++ [.received feed (.item (.ok m)) feed'])
                  (told ++ [Pull.toRecord (.item (.ok m))]) :=
                hopen.close rfl (by rw [hrecord]; rfl)
              rw [hrecord] at hfails
              exact ⟨tickets, _, hdrawn, hfails⟩

theorem fits_pullTicket {ticket : p.Ticket} (htraced : Traced .dedicated query [ticket] [] w.deeds)
    (hopen : Open w.deeds told) :
    Fits .dedicated query ((pullTicket p.watched ticket query).run w).2.deeds
      (told ++ [((pullTicket p.watched ticket query).run w).1.1])
      ((pullTicket p.watched ticket query).run w).1.2 := by
  obtain ⟨found, s, -, hrun⟩ := Provider.exists_run_collect w ticket
  have hmine : ticket ∈ [ticket] := List.mem_cons_self
  unfold pullTicket
  rw [run_bind_of_run hrun]
  cases found with
  | waiting =>
      have hwaits : Open (w.deeds ++ [.collected ticket .waiting]) (told ++ [.waiting]) :=
        hopen.tell (x := .waiting) rfl rfl
      exact ⟨rfl, rfl, htraced.lookUp hmine nofun, hwaits⟩
  | ready outcome =>
      cases outcome with
      | error failure =>
          have hfails : Closed (w.deeds ++ [.collected ticket (.ready (.error failure))])
              (told ++ [.item (.error failure)]) :=
            hopen.close (x := .item (.error failure)) rfl rfl
          exact ⟨[ticket], [], htraced.lookUp hmine fun _ _ => rfl, hfails⟩
      | ok lease =>
          have hfound : Traced .dedicated query [ticket] []
              (w.deeds ++ [.collected ticket (.ready (.ok lease))]) := htraced.lookUp hmine nofun
          have hstill : Open (w.deeds ++ [.collected ticket (.ready (.ok lease))]) told :=
            hopen.skip rfl
          obtain ⟨feed, s', -, hrun'⟩ := Provider.exists_run_submit
            ⟨s, w.deeds ++ [.collected ticket (.ready (.ok lease))]⟩ .dedicated query
          have hgranted : ∃ t l, .collected t (.ready (.ok l)) ∈
              w.deeds ++ [.collected ticket (.ready (.ok lease))] :=
            ⟨ticket, lease, List.mem_concat_self⟩
          have hasked : Traced .dedicated query [ticket] ([] ++ [feed])
              (w.deeds ++ [.collected ticket (.ready (.ok lease))] ++
                [.queried .dedicated query feed]) :=
            hfound.submit hstill.not_refused (fun _ => hgranted) feed
          dsimp only
          rw [run_bind_of_run hrun']
          exact fits_pullFeed (w := ⟨s', _⟩) hasked (hstill.skip rfl) (some lease)

/-- A stream fits what it did and told after each pull as well. -/
theorem fits_pull {stream : RecordStream p.watched} (h : Fits route query w.deeds told stream) :
    Fits route query ((pull p.watched stream).run w).2.deeds
      (told ++ [((pull p.watched stream).run w).1.1])
      ((pull p.watched stream).run w).1.2 := by
  cases stream with
  | fresh route' query' =>
      obtain ⟨rfl, rfl, htraced, hopen⟩ := h
      cases route' with
      | shared =>
          obtain ⟨feed, s, -, hrun⟩ := Provider.exists_run_submit w .shared query'
          have hasked : Traced .shared query' [] ([] ++ [feed])
              (w.deeds ++ [.queried .shared query' feed]) :=
            htraced.submit hopen.not_refused nofun feed
          unfold pull
          rw [run_bind_of_run hrun]
          exact fits_pullFeed (w := ⟨s, _⟩) hasked (hopen.skip rfl) none
      | dedicated =>
          obtain ⟨ticket, s, -, hrun⟩ := Provider.exists_run_request w
          unfold pull
          rw [run_bind_of_run hrun]
          exact fits_pullTicket (w := ⟨s, _⟩) (htraced.request ticket) (hopen.skip rfl)
  | acquiring ticket query' =>
      obtain ⟨rfl, rfl, htraced, hopen⟩ := h
      exact fits_pullTicket htraced hopen
  | running lease feed =>
      obtain ⟨tickets, feeds, htraced, hopen⟩ := h
      exact fits_pullFeed htraced hopen lease
  | failed lease feed =>
      have hover : Over route query w.deeds told := h
      have hclosed : Over route query ((closeFeed p.watched feed).run w).2.deeds told :=
        lasting_over.closeFeed (p := p) feed hover
      exact (lasting_over.giveBack (p := p) lease hclosed).finish
  | ended =>
      have hover : Over route query w.deeds told := h
      exact hover.finish

end Pull

/-! ## Giving a stream up -/

/-- What a stream did and told in the end, whether it was pulled to its end or not. -/
def Sound (route : Route) (query : Query) (deeds : List (Deed p)) (told : List (Pull Record)) :
    Prop :=
  ∃ tickets feeds, Traced route query tickets feeds deeds ∧ (Open deeds told ∨ Closed deeds told)

section Drop

variable {route : Route} {query : Query} {told : List (Pull Record)} {w : Watched p}
  {stream : RecordStream p.watched}

theorem Fits.sound {deeds : List (Deed p)} (h : Fits route query deeds told stream) :
    Sound route query deeds told := by
  cases stream with
  | fresh => exact ⟨[], [], h.2.2.1, .inl h.2.2.2⟩
  | acquiring ticket => exact ⟨[ticket], [], h.2.2.1, .inl h.2.2.2⟩
  | running lease feed =>
      obtain ⟨tickets, feeds, htraced, hopen⟩ := h
      exact ⟨tickets, _, htraced, .inl hopen⟩
  | failed | ended =>
      obtain ⟨tickets, feeds, htraced, hclosed⟩ := h
      exact ⟨tickets, feeds, htraced, .inr hclosed⟩

theorem lasting_sound : Lasting fun deeds : List (Deed p) => Sound route query deeds told where
  giveUp := by
    rintro deeds deed hdeed ⟨tickets, feeds, htraced, hopen | hclosed⟩
    · exact ⟨tickets, feeds, htraced.giveUp hdeed, .inl (hopen.skip (answer?_of_isGivingUp hdeed))⟩
    · exact ⟨tickets, feeds, htraced.giveUp hdeed,
        .inr (hclosed.skip (answer?_of_isGivingUp hdeed))⟩

/-- Giving a stream up asks for nothing and tells nothing. -/
theorem sound_drop (h : Fits route query w.deeds told stream) :
    Sound route query ((drop p.watched stream).run w).2.deeds told := by
  have hsound := h.sound
  cases stream with
  | fresh | ended => exact hsound
  | acquiring ticket =>
      have hwithdrawn : IsGivingUp (.withdrawn ticket : Deed p) := trivial
      exact lasting_sound.giveUp hwithdrawn hsound
  | running lease feed =>
      have hclosed : Sound route query ((closeFeed p.watched (some feed)).run w).2.deeds told :=
        lasting_sound.closeFeed (p := p) (some feed) hsound
      exact lasting_sound.giveBack (p := p) lease hclosed
  | failed lease feed =>
      have hclosed : Sound route query ((closeFeed p.watched feed).run w).2.deeds told :=
        lasting_sound.closeFeed (p := p) feed hsound
      exact lasting_sound.giveBack (p := p) lease hclosed

end Drop

/-! ## Watching changes nothing -/

/-- A stream as it is when nobody watches. -/
def unwatched : RecordStream p.watched → RecordStream p
  | fresh route query => fresh route query
  | acquiring (ticket : p.Ticket) query => acquiring ticket query
  | running (lease : Option p.Lease) (feed : p.Feed) => running lease feed
  | failed (lease : Option p.Lease) (feed : Option p.Feed) => failed lease feed
  | ended => ended

section Unwatched

variable (w : Watched p)

theorem run_pullFeed_unwatched (lease : Option p.Lease) (feed : p.Feed) :
    (pullFeed p lease feed).run w.world =
      let ((item, stream), w) := (pullFeed p.watched lease feed).run w
      ((item, unwatched stream), w.world) := by
  obtain ⟨item, feed', s, hrun, hwatched⟩ := Provider.exists_run_pull w feed
  unfold pullFeed
  rw [run_bind_of_run hrun, run_bind_of_run hwatched]
  cases item with
  | waiting => rfl
  | finished => cases lease <;> rfl
  | item outcome =>
      cases outcome with
      | error failure => rfl
      | ok m =>
          dsimp only
          cases m.record <;> rfl

theorem run_pullTicket_unwatched (ticket : p.Ticket) (query : Query) :
    (pullTicket p ticket query).run w.world =
      let ((item, stream), w) := (pullTicket p.watched ticket query).run w
      ((item, unwatched stream), w.world) := by
  obtain ⟨found, s, hrun, hwatched⟩ := Provider.exists_run_collect w ticket
  unfold pullTicket
  rw [run_bind_of_run hrun, run_bind_of_run hwatched]
  cases found with
  | waiting => rfl
  | ready outcome =>
      cases outcome with
      | error failure => rfl
      | ok lease =>
          obtain ⟨feed, s', hrun', hwatched'⟩ := Provider.exists_run_submit
            ⟨s, w.deeds ++ [.collected ticket (.ready (.ok lease))]⟩ .dedicated query
          dsimp only
          rw [run_bind_of_run hrun', run_bind_of_run hwatched']
          exact run_pullFeed_unwatched ⟨s', _⟩ (some lease) feed

/-- A stream over a watched provider gives what the same stream gives when nobody watches. -/
theorem run_pull_unwatched (stream : RecordStream p.watched) :
    (pull p (unwatched stream)).run w.world =
      let ((item, stream), w) := (pull p.watched stream).run w
      ((item, unwatched stream), w.world) := by
  cases stream with
  | fresh route query =>
      cases route with
      | shared =>
          obtain ⟨feed, s, hrun, hwatched⟩ := Provider.exists_run_submit w .shared query
          unfold unwatched pull
          rw [run_bind_of_run hrun, run_bind_of_run hwatched]
          exact run_pullFeed_unwatched ⟨s, _⟩ none feed
      | dedicated =>
          obtain ⟨ticket, s, hrun, hwatched⟩ := Provider.exists_run_request w
          unfold unwatched pull
          rw [run_bind_of_run hrun, run_bind_of_run hwatched]
          exact run_pullTicket_unwatched ⟨s, _⟩ ticket query
  | acquiring ticket query => exact run_pullTicket_unwatched w ticket query
  | running lease feed => exact run_pullFeed_unwatched w lease feed
  | failed lease feed => cases lease <;> cases feed <;> rfl
  | ended => rfl

theorem run_drop_unwatched (stream : RecordStream p.watched) :
    (drop p (unwatched stream)).run w.world = ((), ((drop p.watched stream).run w).2.world) := by
  cases stream with
  | fresh | ended | acquiring => rfl
  | running lease feed => cases lease <;> rfl
  | failed lease feed => cases lease <;> cases feed <;> rfl

end Unwatched

end RecordStream
end StreamBroker
