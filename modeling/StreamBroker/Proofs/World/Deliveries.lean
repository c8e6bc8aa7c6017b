import StreamBroker.Proofs.World.Additions
set_option autoImplicit false

/-!
# What a group delivers

What the reads of a group take out of it is kept as a list, from the creation of the group on.  The
list agrees with the stream and with the place of the group (`Drawn`): it is in strictly increasing
order, it ends at the place of the group, and between the start of the group and its place no entry
of the stream is missing from it.  An entry that is added lies above everything, so it opens no gap;
an entry that is removed closes one.

A read that is refused has taken what it served before the refusal, and its reader gets nothing of
that.  So the deliveries of a group are its takings without those of refused reads.
-/

namespace StreamBroker

/-- An entry that was new to a group, and the consumer that it was handed to. -/
structure Delivery where
  consumer : Bytes
  id : EntryId
  body : Body
  deriving DecidableEq, Repr

/-- What a serving took out of the group of a key. -/
def Serving.taken (v : Serving) (key group : Bytes) (consumer : Consumer) : List Delivery :=
  if v.key = key ∧ consumer.group = group then v.news.map fun p => ⟨consumer.name, p.1, p.2⟩ else []

namespace Turn

/-- The group read that a turn attempted: for whom, and what each cursor got. -/
def servings? (t : Turn) : Option (Consumer × List Serving) :=
  t.reading?.bind fun r => r.consumer.map fun consumer =>
    (consumer, (Store.serveAll consumer r.count r.noAck r.cursors t.before.store).1)

/-- What a turn took out of a group, whether or not anybody got it. -/
def taken (t : Turn) (key group : Bytes) : List Delivery :=
  match t.servings? with
  | some (consumer, servings) => servings.flatMap (·.taken key group consumer)
  | none => []

/-- What a turn took out of a group and returned to a reader. -/
def deliveries (t : Turn) (key group : Bytes) : List Delivery :=
  match t.reply with
  | .read _ (.returned (.ok _)) => t.taken key group
  | _ => []

/-- A group read ended in a refusal. -/
def RefusesGroupRead (t : Turn) : Prop :=
  t.servings?.isSome ∧ ∃ i refusal, t.reply = .read i (.returned (.error refusal))

end Turn

/-- What a group returned through its new entries, over all consumers. -/
def deliveries (turns : List Turn) (key group : Bytes) : List Delivery :=
  turns.flatMap (·.deliveries key group)

/-! ## The invariant -/

/-- The takings of a group that started behind `start` agree with the log of additions, the entries
of the stream and the place of the group. -/
structure Drawn (start : EntryId) (log : List (EntryId × Body)) (taken : List Delivery)
    (entries : SortedMap EntryId Body) (place : EntryId) : Prop where
  sorted : taken.Pairwise fun d e => d.id < e.id
  above : ∀ d ∈ taken, start < d.id
  recorded : ∀ d ∈ taken, (d.id, d.body) ∈ log
  ends : place = (taken.getLast?.map (·.id)).getD start
  gapless : ∀ id body, entries.get? id = some body → start < id → id ≤ place →
    ∃ d ∈ taken, d.id = id ∧ d.body = body

namespace Drawn

variable {start place : EntryId} {log : List (EntryId × Body)} {taken : List Delivery}
  {entries : SortedMap EntryId Body}

theorem nil (start : EntryId) (log : List (EntryId × Body)) (entries : SortedMap EntryId Body) :
    Drawn start log [] entries start := by
  refine ⟨.nil, by simp, by simp, rfl, ?_⟩
  intro id body _ hlt hle
  exact absurd (EntryId.lt_of_lt_of_le hlt hle) (EntryId.lt_irrefl _)

theorem le_place (h : Drawn start log taken entries place) : ∀ d ∈ taken, d.id ≤ place := by
  intro d hd
  rw [h.ends]
  cases hlast : taken.getLast? with
  | none =>
      rw [List.getLast?_eq_none_iff.1 hlast] at hd
      cases hd
  | some last => exact le_getLast_of_pairwise h.sorted hd hlast

theorem start_le_place (h : Drawn start log taken entries place) : start ≤ place := by
  rw [h.ends]
  cases hlast : taken.getLast? with
  | none => exact EntryId.le_refl _
  | some last => exact EntryId.le_of_lt (h.above last (List.mem_of_getLast? hlast))

theorem shrink (h : Drawn start log taken entries place) {entries' : SortedMap EntryId Body}
    (hsub : entries' ⊆ entries) : Drawn start log taken entries' place :=
  ⟨h.sorted, h.above, h.recorded, h.ends, fun id body hget => h.gapless id body (hsub id body hget)⟩

/-- A new entry lies above the place of the group, unless the group started above it. -/
theorem add (h : Drawn start log taken entries place) {last id : EntryId} (body : Body)
    (hlog : ∀ p ∈ log, p.1 ≤ last) (hlt : last < id) :
    Drawn start (log ++ [(id, body)]) taken (entries.insert id body) place := by
  refine ⟨h.sorted, h.above, fun d hd => List.mem_append_left _ (h.recorded d hd), h.ends, ?_⟩
  intro id' body' hget hstart hle
  rcases SortedMap.get?_of_get?_insert hget with ⟨rfl, -⟩ | hthere
  · rw [h.ends] at hle
    cases hlast : taken.getLast? with
    | none =>
        rw [hlast] at hle
        exact absurd (EntryId.lt_of_lt_of_le hstart hle) (EntryId.lt_irrefl _)
    | some d =>
        rw [hlast] at hle
        have hd : d.id ≤ last := hlog _ (h.recorded d (List.mem_of_getLast? hlast))
        have hbelow : id ≤ last := EntryId.le_trans hle hd
        exact absurd (EntryId.lt_of_lt_of_le hlt hbelow) (EntryId.lt_irrefl _)
  · exact h.gapless id' body' hthere hstart hle

/-- A handover goes on where the takings end. -/
theorem take {stream : Stream} {g g' : Group} {news : List (EntryId × Body)}
    (h : Drawn start log taken stream.entries g.lastDelivered) (hhand : Handover stream g g' news)
    (hlog : ∀ id body, stream.entries.get? id = some body → (id, body) ∈ log) (consumer : Bytes) :
    Drawn start log (taken ++ news.map fun p => ⟨consumer, p.1, p.2⟩) stream.entries
      g'.lastDelivered := by
  refine ⟨?_, ?_, ?_, ?_, ?_⟩
  · refine List.pairwise_append.2 ⟨h.sorted, List.pairwise_map.2 hhand.sorted, ?_⟩
    intro d hd e he
    obtain ⟨p, hp, rfl⟩ := List.mem_map.1 he
    exact EntryId.lt_of_le_of_lt (h.le_place d hd) (hhand.above p hp)
  · intro d hd
    rcases List.mem_append.1 hd with hold | hnew
    · exact h.above d hold
    · obtain ⟨p, hp, rfl⟩ := List.mem_map.1 hnew
      exact EntryId.lt_of_le_of_lt h.start_le_place (hhand.above p hp)
  · intro d hd
    rcases List.mem_append.1 hd with hold | hnew
    · exact h.recorded d hold
    · obtain ⟨p, hp, rfl⟩ := List.mem_map.1 hnew
      exact hlog p.1 p.2 (hhand.bound p hp)
  · rw [hhand.moved, List.getLast?_append, List.getLast?_map]
    cases news.getLast? with
    | none => exact h.ends
    | some last => rfl
  · intro id body hget hstart hle
    by_cases hold : id ≤ g.lastDelivered
    · obtain ⟨d, hd, hsame⟩ := h.gapless id body hget hstart hold
      exact ⟨d, List.mem_append_left _ hd, hsame⟩
    · have hnew : (id, body) ∈ news := hhand.gapless id body hget (EntryId.not_le.1 hold) hle
      exact ⟨⟨consumer, id, body⟩, List.mem_append_right _ (List.mem_map.2 ⟨_, hnew, rfl⟩), rfl, rfl⟩

end Drawn

namespace Store

/-- A group of a key and its takings agree. -/
def Draws (s : Store) (key group : Bytes) (start : EntryId) (log : List (EntryId × Body))
    (taken : List Delivery) : Prop :=
  ∃ stream g, s.get? key = some stream ∧ s.group? key group = some g ∧
    Drawn start log taken stream.entries g.lastDelivered

namespace Draws

variable {s t : Store} {key group : Bytes} {start : EntryId} {log : List (EntryId × Body)}
  {taken : List Delivery}

/-- What adds no entry and leaves a group at its place keeps the agreement. -/
theorem shrink (h : s.Draws key group start log taken) (hshrinks : s.Shrinks t)
    (hplace : ∀ g, s.group? key group = some g →
      ∃ g', t.group? key group = some g' ∧ g'.lastDelivered = g.lastDelivered) :
    t.Draws key group start log taken := by
  obtain ⟨stream, g, hget, hg, hdrawn⟩ := h
  obtain ⟨g', hg', hsame⟩ := hplace g hg
  obtain ⟨stream', hget', hin⟩ := Stream.Within.of_rel (hshrinks key) hget
  refine ⟨stream', g', hget', hg', ?_⟩
  rw [hsame]
  exact hdrawn.shrink hin.entries

theorem served {consumer : Consumer} {count : Option UInt64} {noAck : Bool} {v : Serving}
    (h : s.Draws key group start log taken) (hlog : Recorded log (s.get? key))
    (hserved : Served consumer count noAck s v t) :
    t.Draws key group start log (taken ++ v.taken key group consumer) := by
  unfold Serving.taken
  split
  case isTrue hsame =>
    obtain ⟨rfl, rfl⟩ := hsame
    obtain ⟨stream, g, hget, hg, hdrawn⟩ := h
    obtain ⟨stream₁, g₁, g', hget₁, hg₁, hg', hhand, -⟩ := hserved.handover
    obtain rfl : stream = stream₁ := Option.some.inj (hget.symm.trans hget₁)
    rw [group?_of_get? hget] at hg
    obtain rfl : g = g₁ := Option.some.inj (hg.symm.trans hg₁)
    obtain ⟨stream', hget', hin⟩ := Stream.Within.of_rel (hserved.shrinks _) hget
    refine ⟨stream', g', hget', hg', ?_⟩
    have htaken := hdrawn.take hhand (hlog.entries stream hget) consumer.name
    exact htaken.shrink hin.entries
  case isFalse hother =>
    rw [List.append_nil]
    refine h.shrink hserved.shrinks (fun g hg => ⟨g, ?_, rfl⟩)
    rwa [hserved.group?_of_ne (Classical.not_and_iff_not_or_not.1 hother)]

theorem served_all {consumer : Consumer} {count : Option UInt64} {noAck : Bool}
    (h : s.Draws key group start log taken) (hlog : Recorded log (s.get? key))
    (cursors : List (Bytes × Cursor)) :
    (serveAll consumer count noAck cursors s).2.Draws key group start log
      (taken ++ (serveAll consumer count noAck cursors s).1.flatMap
        (·.taken key group consumer)) := by
  let P : List Serving → Store → Prop := fun done u => Recorded log (u.get? key) ∧
    u.Draws key group start log (taken ++ done.flatMap (·.taken key group consumer))
  have hstart : P [] s := by
    refine ⟨hlog, ?_⟩
    rwa [List.flatMap_nil, List.append_nil]
  refine (serveAll_induction (P := P) ?_ cursors [] s hstart).2
  rintro done u v u' ⟨hlog, hdraws⟩ hserved
  refine ⟨hlog.shrink (hserved.shrinks key), ?_⟩
  rw [List.flatMap_append, List.flatMap_singleton, ← List.append_assoc]
  exact hdraws.served hlog hserved

end Draws

end Store

/-! ## Runs -/

namespace Turn

theorem servings?_of_reading {t : Turn} {r : Reading} {consumer : Consumer}
    (hreading : t.reading? = some r) (hconsumer : r.consumer = some consumer) :
    t.servings? = some (consumer,
      (Store.serveAll consumer r.count r.noAck r.cursors t.before.store).1) := by
  rw [servings?, hreading, Option.bind_some, hconsumer]
  rfl

theorem taken_eq_nil {t : Turn} (h : ∀ r, t.reading? = some r → r.consumer = none)
    (key group : Bytes) : t.taken key group = [] := by
  unfold taken servings?
  cases hreading : t.reading? with
  | none => rfl
  | some r =>
      rw [Option.bind_some, h r hreading]
      rfl

theorem reading?_of_destroyGroup {t : Turn} {key group : Bytes}
    (h : t.move = .destroyGroup key group) : t.reading? = none := by
  rw [reading?, h]
  rfl

theorem reading?_of_add {t : Turn} {key : Bytes} {request : Option String} {body : Body}
    {clock : Option UInt64} (h : t.move = .add key request body clock) : t.reading? = none := by
  rw [reading?, h]
  rfl

/-- A turn that does not destroy the group keeps the agreement. -/
theorem draws {t : Turn} {key group : Bytes} {start : EntryId} {log : List (EntryId × Body)}
    {taken : List Delivery} (h : t.before.store.Draws key group start log taken)
    (hlog : Recorded log (t.before.store.get? key)) (hlive : t.move ≠ .destroyGroup key group) :
    t.after.store.Draws key group start (log ++ (t.addition? key).toList)
      (taken ++ t.taken key group) := by
  cases t.effect with
  | @added key' request body clock id hmove hadd =>
      rw [taken_eq_nil (by simp [reading?_of_add hmove]), List.append_nil,
        addition?_of_add hmove hadd]
      obtain ⟨stream, g, hget, hg, hdrawn⟩ := h
      rw [← Store.add_group? hadd] at hg
      obtain ⟨hlt, hafter⟩ := Store.add_eq_ok hadd
      by_cases hkey : key' = key
      · subst hkey
        rw [if_pos rfl, Option.toList_some]
        rw [Store.lastId_eq, hget] at hlt
        have hbound := hlog.le_lastId
        rw [hget] at hbound
        refine ⟨stream.push id body, g, ?_, hg, hdrawn.add body hbound hlt⟩
        rw [hafter, SortedMap.get?_insert_self, hget]
        rfl
      · rw [if_neg hkey, Option.toList_none, List.append_nil]
        refine ⟨stream, g, ?_, hg, hdrawn⟩
        rwa [hafter, SortedMap.get?_insert_of_ne _ _ hkey]
  | destroyed hmove hdestroy =>
      rw [taken_eq_nil (by simp [reading?_of_destroyGroup hmove]), addition?, hmove]
      rw [Option.toList_none, List.append_nil, List.append_nil]
      have hother := destroys_other hmove hlive
      refine h.shrink (Store.destroyGroup_shrinks hdestroy) (fun g hg => ⟨g, ?_, rfl⟩)
      rwa [Store.destroyGroup_group? hdestroy hother]
  | served hreading hconsumer hstore =>
      rw [addition?_of_reading hreading, Option.toList_none, List.append_nil, hstore]
      rw [Turn.taken, servings?_of_reading hreading hconsumer]
      exact h.served_all hlog _
  | kept hadd hread hkeeps =>
      rw [hadd, Option.toList_none, List.append_nil, taken_eq_nil hread, List.append_nil]
      exact h.shrink hkeeps.shrinks fun g hg => hkeeps.group hg

theorem servings?_eq_some {t : Turn} {consumer : Consumer} {servings : List Serving}
    (h : t.servings? = some (consumer, servings)) :
    ∃ r, t.reading? = some r ∧ r.consumer = some consumer ∧
      servings = (Store.serveAll consumer r.count r.noAck r.cursors t.before.store).1 := by
  unfold servings? at h
  obtain ⟨r, hreading, hrest⟩ := Option.bind_eq_some_iff.1 h
  obtain ⟨c, hconsumer, hpair⟩ := Option.map_eq_some_iff.1 hrest
  cases hpair
  exact ⟨r, hreading, hconsumer, rfl⟩

/-- A group read is answered with what its cursors got, one after the other, unless it is
refused. -/
theorem outcome_of_servings {t : Turn} {consumer : Consumer} {servings : List Serving}
    (h : t.servings? = some (consumer, servings)) :
    ∃ i progress, t.reply = .read i progress ∧
      ∀ messages, progress.outcome = .ok messages → messages = servings.flatMap Serving.messages := by
  obtain ⟨r, hreading, hconsumer, rfl⟩ := servings?_eq_some h
  obtain ⟨i, progress, hreply, houtcome, -⟩ := outcome_of_reading hreading
  refine ⟨i, progress, hreply, ?_⟩
  intro messages hmessages
  rw [houtcome, hconsumer] at hmessages
  exact (Store.readGroup_eq_ok hmessages).2

/-- A turn delivers all that it took, unless it refused a group read. -/
theorem deliveries_eq_taken {t : Turn} (h : ¬ t.RefusesGroupRead) (key group : Bytes) :
    t.deliveries key group = t.taken key group := by
  unfold deliveries
  cases hservings : t.servings? with
  | none =>
      rw [taken, hservings]
      split <;> rfl
  | some p =>
      obtain ⟨consumer, servings⟩ := p
      obtain ⟨i, progress, hreply, houtcome⟩ := outcome_of_servings hservings
      rw [hreply]
      cases progress with
      | returned outcome =>
          cases outcome with
          | ok messages => rfl
          | error refusal =>
              exact absurd ⟨by rw [hservings]; rfl, i, refusal, hreply⟩ h
      | waiting wait =>
          have hnone : servings.flatMap Serving.messages = [] := (houtcome [] rfl).symm
          rw [taken, hservings]
          apply Eq.symm
          apply List.flatMap_eq_nil_iff.2
          intro v hv
          have hentries : v.entries = [] :=
            List.map_eq_nil_iff.1 (List.flatMap_eq_nil_iff.1 hnone v hv)
          unfold Serving.taken Serving.news
          rw [hentries]
          split
          · split <;> rfl
          · rfl

theorem deliveries_sublist (t : Turn) (key group : Bytes) :
    (t.deliveries key group).Sublist (t.taken key group) := by
  unfold deliveries
  split
  · exact .refl _
  · exact List.nil_sublist _

/-- A successful read without a count leaves nothing above the place of its group. -/
theorem drained_of_unlimited {t : Turn} {r : Reading} {consumer : Consumer} {i : Nat}
    {messages : List Message} {key : Bytes} (hreading : t.reading? = some r)
    (hconsumer : r.consumer = some consumer)
    (hreply : t.reply = .read i (.returned (.ok messages))) (hcount : Unlimited r.count)
    (hcursor : (key, .undelivered) ∈ r.cursors) : t.after.store.Drained key consumer.group := by
  obtain ⟨j, progress, hreply', houtcome, hstore⟩ := outcome_of_reading hreading
  rw [hreply] at hreply'
  obtain ⟨-, rfl⟩ := Reply.read.inj hreply'
  rw [hconsumer] at houtcome hstore
  obtain ⟨hcursors, -⟩ := Store.readGroup_eq_ok houtcome.symm
  rw [← hcursors] at hcursor
  obtain ⟨v, hv, hpair⟩ := List.mem_map.1 hcursor
  obtain ⟨rfl, hundelivered⟩ := Prod.mk.inj hpair
  rw [hstore, Store.attempt_group_store]
  exact Store.serveAll_drains _ _ v hv hundelivered (.inl hcount)

end Turn

/-- The world in which a group has just been created. -/
def World.born (past : List Move) (key : Bytes) (token : String) (group : Bytes) : World :=
  World.start.run (past ++ [.createGroup key token group])

section Life

variable {past life : List Move} {key group : Bytes} {token : String}

theorem created_eq {w : World} (h : (w.step (.createGroup key token group)).1 = .made (.ok ())) :
    w.store.createGroup key token group =
      (.ok (), (w.step (.createGroup key token group)).2.store) := by
  simp only [World.step, Engine.createGroup, Engine.settle] at h ⊢
  exact Prod.ext (Reply.made.inj h) rfl

/-- What a group took since its creation agrees with its stream. -/
theorem draws_life
    (hmade : ((World.start.run past).step (.createGroup key token group)).1 = .made (.ok ()))
    (hlive : .destroyGroup key group ∉ life) :
    ∃ stream start, (World.start.run past).store.get? key = some stream ∧
      Store.groupStart stream token = .ok start ∧
      ((World.born past key token group).run life).store.Draws key group start
        (additions (World.start.turns (past ++ .createGroup key token group :: life)) key)
        (((World.born past key token group).turns life).flatMap (·.taken key group)) := by
  obtain ⟨stream, start, hget, -, hstart, hafter⟩ := Store.createGroup_eq_ok (created_eq hmade)
  refine ⟨stream, start, hget, hstart, ?_⟩
  have hsplit : past ++ .createGroup key token group :: life =
      (past ++ [.createGroup key token group]) ++ life := by
    rw [List.append_assoc]
    rfl
  rw [hsplit, World.turns_append]
  refine World.run_induction (w := World.born past key token group)
    (P := fun ts w => w.store.Draws key group start
      (additions (World.start.turns (past ++ [.createGroup key token group]) ++ ts) key)
      (ts.flatMap (·.taken key group))) ?_ ?_
  · rw [World.born, World.run_append, World.run_cons, World.run_nil, hafter]
    refine ⟨_, _, SortedMap.get?_insert_self .., Store.group?_putGroup_self .., .nil ..⟩
  · intro early m late heq hdraws
    have hlog := recorded_run (past ++ [.createGroup key token group] ++ early) key
    rw [World.run_append, World.turns_append] at hlog
    have hother : m ≠ .destroyGroup key group := by
      rintro rfl
      exact hlive (heq ▸ List.mem_append_right _ List.mem_cons_self)
    have hafter := Turn.draws (t := ⟨(World.born past key token group).run early, m⟩)
      hdraws hlog hother
    rw [← List.append_assoc, additions_concat, List.flatMap_append, List.flatMap_singleton]
    exact hafter

/-- A group that nobody destroys stays, and never moves down. -/
theorem advances_life {w : World} {g : Group} (hg : w.store.group? key group = some g)
    (hlive : .destroyGroup key group ∉ life) :
    ∃ g', (w.run life).store.group? key group = some g' ∧ g.lastDelivered ≤ g'.lastDelivered := by
  induction life generalizing w g with
  | nil => exact ⟨g, hg, EntryId.le_refl _⟩
  | cons m rest ih =>
      have hm : m ≠ .destroyGroup key group := by
        rintro rfl
        exact hlive List.mem_cons_self
      have hrest : .destroyGroup key group ∉ rest := fun h => hlive (List.mem_cons_of_mem _ h)
      obtain ⟨g₁, hg₁, hle₁⟩ := Turn.advances (t := ⟨w, m⟩) hg hm
      obtain ⟨g₂, hg₂, hle₂⟩ := ih hg₁ hrest
      exact ⟨g₂, hg₂, EntryId.le_trans hle₁ hle₂⟩

/-- One delivery of a list in order is the only one of its entry. -/
theorem filter_id_eq_singleton {ds : List Delivery} {d : Delivery}
    (hsorted : ds.Pairwise fun d e => d.id < e.id) (hd : d ∈ ds) :
    ds.filter (·.id = d.id) = [d] := by
  obtain ⟨front, back, rfl⟩ := List.append_of_mem hd
  rw [List.pairwise_append, List.pairwise_cons] at hsorted
  obtain ⟨-, ⟨hback, -⟩, hfront⟩ := hsorted
  rw [List.filter_append, List.filter_cons_of_pos (by simp)]
  have hnone₁ : front.filter (·.id = d.id) = [] := by
    rw [List.filter_eq_nil_iff]
    intro e he heq
    have hlt := hfront e he d List.mem_cons_self
    rw [of_decide_eq_true heq] at hlt
    exact EntryId.lt_irrefl _ hlt
  have hnone₂ : back.filter (·.id = d.id) = [] := by
    rw [List.filter_eq_nil_iff]
    intro e he heq
    have hlt := hback e he
    rw [of_decide_eq_true heq] at hlt
    exact EntryId.lt_irrefl _ hlt
  rw [hnone₁, hnone₂]
  rfl

theorem deliveries_sublist (turns : List Turn) (key group : Bytes) :
    (deliveries turns key group).Sublist (turns.flatMap (·.taken key group)) := by
  induction turns with
  | nil => exact .refl _
  | cons t rest ih =>
      unfold deliveries at ih ⊢
      rw [List.flatMap_cons, List.flatMap_cons]
      exact (t.deliveries_sublist key group).append ih

theorem deliveries_eq_taken {turns : List Turn} (h : ∀ t ∈ turns, ¬ t.RefusesGroupRead)
    (key group : Bytes) :
    deliveries turns key group = turns.flatMap (·.taken key group) := by
  induction turns with
  | nil => rfl
  | cons t rest ih =>
      rw [List.forall_mem_cons] at h
      unfold deliveries at ih ⊢
      rw [List.flatMap_cons, List.flatMap_cons, ih h.2, Turn.deliveries_eq_taken h.1]

/-- From its creation behind `start`, and as long as it is not destroyed, a group delivers every
entry at most once, in order, behind `start` and with the body it was added with, and it never moves
down.  If no group read was refused, each entry that is there between `start` and the place of the
group was delivered exactly once.  And a read that succeeds without a count leaves nothing above the
place of the group. -/
theorem group_delivers_once
    (hmade : ((World.start.run past).step (.createGroup key token group)).1 = .made (.ok ()))
    (hlive : .destroyGroup key group ∉ life) :
    ∃ stream start, (World.start.run past).store.get? key = some stream ∧
      Store.groupStart stream token = .ok start ∧
      -- at most once, in order, as it was added
      ((deliveries ((World.born past key token group).turns life) key group).map
        (·.id)).Pairwise (· < ·) ∧
      (∀ d ∈ deliveries ((World.born past key token group).turns life) key group,
        start < d.id ∧ (d.id, d.body) ∈
          additions (World.start.turns (past ++ .createGroup key token group :: life)) key) ∧
      -- upwards only
      (∀ early late, early ++ late = life → ∃ g g',
        ((World.born past key token group).run early).store.group? key group = some g ∧
        ((World.born past key token group).run life).store.group? key group = some g' ∧
        g.lastDelivered ≤ g'.lastDelivered) ∧
      -- without loss
      ((∀ t ∈ (World.born past key token group).turns life, ¬ t.RefusesGroupRead) →
        ∀ stream' g, ((World.born past key token group).run life).store.get? key = some stream' →
          stream'.groups.get? group = some g →
          ∀ id body, stream'.entries.get? id = some body → start < id → id ≤ g.lastDelivered →
            ∃ consumer, (deliveries ((World.born past key token group).turns life) key group).filter
              (·.id = id) = [⟨consumer, id, body⟩]) ∧
      -- what a successful group read returns, and leaves
      ∀ t ∈ (World.born past key token group).turns life, ∀ consumer servings i messages,
        t.servings? = some (consumer, servings) → t.reply = .read i (.returned (.ok messages)) →
        messages = servings.flatMap Serving.messages ∧
        ∀ r, t.reading? = some r → consumer.group = group → Unlimited r.count →
          (key, .undelivered) ∈ r.cursors → t.after.store.Drained key group := by
  obtain ⟨stream, start, hget, hstart, stream', g, hget', hg, hdrawn⟩ := draws_life hmade hlive
  refine ⟨stream, start, hget, hstart, ?_, ?_, ?_, ?_, ?_⟩
  · rw [List.pairwise_map]
    exact hdrawn.sorted.sublist (deliveries_sublist _ key group)
  · intro d hd
    have htaken := (deliveries_sublist _ key group).subset hd
    exact ⟨hdrawn.above d htaken, hdrawn.recorded d htaken⟩
  · rintro early late rfl
    have hearly : .destroyGroup key group ∉ early :=
      fun h => hlive (List.mem_append_left _ h)
    have hlate : .destroyGroup key group ∉ late := fun h => hlive (List.mem_append_right _ h)
    obtain ⟨-, -, -, -, -, g₁, -, hg₁, -⟩ := draws_life hmade hearly
    obtain ⟨g₂, hg₂, hle⟩ := advances_life hg₁ hlate
    rw [← World.run_append] at hg₂
    exact ⟨g₁, g₂, hg₁, hg₂, hle⟩
  · intro hkept stream₁ g₁ hget₁ hg₁ id body hentry hlt hle
    obtain rfl : stream' = stream₁ := Option.some.inj (hget'.symm.trans hget₁)
    rw [Store.group?_of_get? hget'] at hg
    obtain rfl : g = g₁ := Option.some.inj (hg.symm.trans hg₁)
    obtain ⟨d, hd, rfl, rfl⟩ := hdrawn.gapless id body hentry hlt hle
    refine ⟨d.consumer, ?_⟩
    rw [deliveries_eq_taken hkept]
    exact filter_id_eq_singleton hdrawn.sorted hd
  · intro t _ consumer servings i messages hservings hreply
    obtain ⟨r₀, hreading₀, hconsumer₀, -⟩ := Turn.servings?_eq_some hservings
    refine ⟨?_, ?_⟩
    · obtain ⟨j, progress, hreply', houtcome⟩ := Turn.outcome_of_servings hservings
      rw [hreply] at hreply'
      obtain ⟨-, rfl⟩ := Reply.read.inj hreply'
      exact houtcome messages rfl
    · rintro r hreading rfl hcount hcursor
      obtain rfl : r₀ = r := Option.some.inj (hreading₀.symm.trans hreading)
      exact Turn.drained_of_unlimited hreading hconsumer₀ hreply hcount hcursor

end Life

/-- An entry under a key. -/
def oneEntry : List Move := [.add [97] (some "1-1") (.ofList [([102], [118])]) (some 0)]

/-- A reader of a group asks for one entry of a key named twice; another reader waits for the next
one and gets it. -/
def twoReaders : List Move :=
  [.begin ⟨[([97], ">"), ([97], ">")], none, some 1, true, some ⟨[103], [99]⟩⟩,
    .begin ⟨[([97], ">")], some 0, none, false, some ⟨[103], [100]⟩⟩,
    .add [97] (some "1-*") (.ofList [([102], [119])]) (some 0), .hear 1, .proceed 1]

theorem group_delivers_once_twoReaders :
    ((World.start.run oneEntry).step (.createGroup [97] "0" [103])).1 = .made (.ok ()) ∧
      .destroyGroup [97] [103] ∉ twoReaders ∧
      deliveries ((World.born oneEntry [97] "0" [103]).turns twoReaders) [97] [103] =
        [⟨[99], ⟨1, 1⟩, .ofList [([102], [118])]⟩, ⟨[100], ⟨1, 2⟩, .ofList [([102], [119])]⟩] ∧
      ∃ stream start, (World.start.run oneEntry).store.get? [97] = some stream ∧
        Store.groupStart stream "0" = .ok start ∧
        ((deliveries ((World.born oneEntry [97] "0" [103]).turns twoReaders) [97] [103]).map
          (·.id)).Pairwise (· < ·) ∧
        ∀ d ∈ deliveries ((World.born oneEntry [97] "0" [103]).turns twoReaders) [97] [103],
          start < d.id := by
  have hmade : ((World.start.run oneEntry).step (.createGroup [97] "0" [103])).1 =
      .made (.ok ()) := rfl
  have hlive : .destroyGroup [97] [103] ∉ twoReaders := by simp [twoReaders]
  obtain ⟨stream, start, hget, hstart, hsorted, habove, -⟩ := group_delivers_once hmade hlive
  refine ⟨hmade, hlive, by decide +kernel, stream, start, hget, hstart, hsorted, ?_⟩
  exact fun d hd => (habove d hd).1

end StreamBroker
