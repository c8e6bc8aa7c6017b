import StreamBroker.Proofs.Store.Pending
import StreamBroker.Proofs.World.Deliveries
set_option autoImplicit false

/-!
# The pending entries of a group as a ledger

What a group has pending can be read off the turns since its creation: an entry is pending for a
consumer exactly when it was delivered to that consumer by a read that did not waive
acknowledgements, and neither an acknowledgement that names it nor the end of that consumer came
behind (`Outstanding`).  What a turn does to a group is said once, for every turn (`Upon`); the
ledger of a run follows turn by turn (`Kept`).
-/

namespace StreamBroker

/-- What takes pending entries out of a group. -/
inductive Clearing where
  /-- Entries were acknowledged, and so many of them were pending. -/
  | acknowledged (ids : List EntryId) (count : Nat)
  /-- A consumer was deleted, if there was one. -/
  | dismissed (consumer : Bytes) (existed : Bool)

/-- Whether a clearing is about an entry that a consumer holds. -/
def Clearing.Names (x : Clearing) (id : EntryId) (consumer : Bytes) : Prop :=
  match x with
  | acknowledged ids _ => id ∈ ids
  | dismissed c _ => c = consumer

namespace Turn

/-- Whether a turn attempted a read that waives acknowledgements. -/
def waives (t : Turn) : Bool := t.reading?.any (·.noAck)

/-- The entries that a turn delivered out of a group and for which it waits for an acknowledgement,
each with the consumer that it was delivered to. -/
def marks (t : Turn) (key group : Bytes) : List (EntryId × Bytes) :=
  if t.waives then [] else (t.taken key group).map fun d => (d.id, d.consumer)

/-- The acknowledgement of entries of a group, or the end of one of its consumers, that a turn
succeeded in. -/
def clearing? (t : Turn) (key group : Bytes) : Option Clearing :=
  match t.move, t.reply with
  | .acknowledge k name ids, .counted (.ok count) =>
    if k = key ∧ name = group then
      (EntryId.readAll ids).toOption.map (Clearing.acknowledged · count)
    else none
  | .deleteConsumer k name consumer, .told (.ok existed) =>
    if k = key ∧ name = group then some (.dismissed consumer existed) else none
  | _, _ => none

/-- Whether a turn took an entry that a consumer holds out of the pending ones of a group. -/
def Clears (t : Turn) (key group : Bytes) (id : EntryId) (consumer : Bytes) : Prop :=
  ∃ x, t.clearing? key group = some x ∧ x.Names id consumer

/-- How many entries of a group a turn was told to have acknowledged. -/
def acknowledged (t : Turn) (key group : Bytes) : Nat :=
  match t.clearing? key group with
  | some (.acknowledged _ count) => count
  | _ => 0

/-- How many pending entries of a group a turn dropped with the consumer that held them. -/
def dropped (t : Turn) (key group : Bytes) : Nat :=
  match t.clearing? key group, t.before.store.group? key group with
  | some (.dismissed consumer _), some g => Store.held g consumer
  | _, _ => 0

end Turn

/-- An entry was delivered to a consumer and not cleared since. -/
def Outstanding (turns : List Turn) (key group : Bytes) (id : EntryId) (consumer : Bytes) : Prop :=
  ∃ early t late, turns = early ++ t :: late ∧ (id, consumer) ∈ t.marks key group ∧
    ∀ u ∈ late, ¬ u.Clears key group id consumer

/-- One more turn clears what is outstanding, or delivers more. -/
theorem outstanding_concat {turns : List Turn} {t : Turn} {key group : Bytes} {id : EntryId}
    {consumer : Bytes} :
    Outstanding (turns ++ [t]) key group id consumer ↔
      (Outstanding turns key group id consumer ∧ ¬ t.Clears key group id consumer) ∨
        (id, consumer) ∈ t.marks key group :=
  exists_split_concat_iff (fun _ (u : Turn) => (id, consumer) ∈ u.marks key group)
    fun u => ¬ u.Clears key group id consumer

/-! ## What a turn does to a group -/

/-- Whether a move is one that adds entries to a stream or takes entries from it. -/
def Move.EditsEntries : Move → Prop
  | .add .. | .delete .. | .trim .. => True
  | _ => False

/-- Adding, deleting and trimming entries leave every group as it is. -/
theorem Turn.group?_of_editsEntries {t : Turn} (hmove : t.move.EditsEntries) (key group : Bytes) :
    t.after.store.group? key group = t.before.store.group? key group := by
  obtain ⟨w, m⟩ := t
  cases m with
  | add k request body clock =>
      rcases hadd : w.store.add k request body clock with ⟨refusal | id, s⟩
      · obtain rfl := (w.store.add_intact ..).eq hadd
        simp only [after, World.step, Engine.add, hadd]
      · simp only [after, World.step, Engine.add, hadd]
        exact Store.add_group? hadd key group
  | delete k ids => exact w.store.delete_group? k ids key group
  | trim k count => exact Store.trim_group? w.store k count key group
  | _ => exact hmove.elim

/-- A turn leaves a group alone, reads from it, makes it, destroys it, or clears some of what is
pending in it. -/
inductive Turn.Upon (t : Turn) (key group : Bytes) : Prop where
  | left (hsame : t.after.store.group? key group = t.before.store.group? key group)
      (hread : ∀ r, t.reading? = some r → r.consumer = none)
      (hclear : t.clearing? key group = none)
  | served {r : Reading} {consumer : Consumer} (hreading : t.reading? = some r)
      (hconsumer : r.consumer = some consumer)
      (hstore : t.after.store =
        (Store.serveAll consumer r.count r.noAck r.cursors t.before.store).2)
      (hclear : t.clearing? key group = none)
  | created {token : String} {start : EntryId} (hmove : t.move = .createGroup key token group)
      (hreply : t.reply = .made (.ok ())) (hnew : t.before.store.group? key group = none)
      (hmade : t.after.store.group? key group = some (.startingAt start))
  | destroyed (hmove : t.move = .destroyGroup key group)
  | acknowledged {ids : List EntryId} {count : Nat} (hread : t.reading? = none)
      (hclear : t.clearing? key group = some (.acknowledged ids count))
      (hafter : t.after.store.group? key group = (t.before.store.group? key group).map fun g =>
        { g with pending := (g.pending.eraseAll ids).2 })
      (hcount : ∀ g, t.before.store.group? key group = some g →
        count = (g.pending.eraseAll ids).1)
  | dismissed {consumer : Bytes} {g : Group} (hread : t.reading? = none)
      (hclear : t.clearing? key group =
        some (.dismissed consumer (g.consumers.contains consumer)))
      (hbefore : t.before.store.group? key group = some g)
      (hafter : t.after.store.group? key group =
        some (if g.consumers.contains consumer then Store.forget g consumer else g))

namespace Turn

theorem clearing?_of_reading {t : Turn} {r : Reading} (h : t.reading? = some r)
    (key group : Bytes) : t.clearing? key group = none := by
  obtain ⟨w, m⟩ := t
  cases m with
  | acknowledge => cases h
  | deleteConsumer => cases h
  | _ => rfl

/-- What a turn does to a group whose store it leaves as it is. -/
theorem upon_of_store_eq {t : Turn} {key group : Bytes} (hread : t.reading? = none)
    (hstore : t.after.store = t.before.store) (hclear : t.clearing? key group = none) :
    t.Upon key group :=
  .left (by rw [hstore]) (plain_of_reading?_eq_none hread) hclear

theorem upon_of_reading {t : Turn} {r : Reading} (hreading : t.reading? = some r)
    (key group : Bytes) : t.Upon key group := by
  have hclear := clearing?_of_reading hreading key group
  obtain ⟨i, progress, -, -, hstore⟩ := outcome_of_reading hreading
  cases hconsumer : r.consumer with
  | none =>
      rw [hconsumer, Store.attempt_plain] at hstore
      exact .left (by rw [hstore]) (plain_of_reading hreading hconsumer) hclear
  | some consumer =>
      rw [hconsumer, Store.attempt_group_store] at hstore
      exact .served hreading hconsumer hstore hclear

theorem upon_acknowledge (w : World) (k name : Bytes) (ids : List String) (key group : Bytes) :
    Turn.Upon ⟨w, .acknowledge k name ids⟩ key group := by
  have hstore : (Turn.mk w (.acknowledge k name ids)).after.store =
      (w.store.acknowledge k name ids).2 := rfl
  have hreply : (Turn.mk w (.acknowledge k name ids)).reply =
      .counted (w.store.acknowledge k name ids).1 := rfl
  rcases hack : w.store.acknowledge k name ids with ⟨refusal | n, s⟩
  · obtain rfl := (w.store.acknowledge_intact ..).eq hack
    rw [hack] at hstore hreply
    refine upon_of_store_eq rfl hstore ?_
    simp only [clearing?, hreply]
  · obtain ⟨⟨ids', hids, hhere, hcount⟩, helse⟩ := Store.acknowledge_group? hack
    rw [hack] at hstore hreply
    by_cases hsame : k = key ∧ name = group
    · have hclear : (Turn.mk w (.acknowledge k name ids)).clearing? key group =
          some (.acknowledged ids' n) := by
        simp only [clearing?, hreply, if_pos hsame, hids, Except.toOption, Option.map_some]
      obtain ⟨rfl, rfl⟩ := hsame
      exact .acknowledged rfl hclear (by rw [hstore, hhere]) hcount
    · refine .left ?_ (plain_of_reading?_eq_none rfl) ?_
      · rw [hstore, helse key group hsame]
      · simp only [clearing?, hreply, if_neg hsame]

theorem upon_deleteConsumer (w : World) (k name consumer key group : Bytes) :
    Turn.Upon ⟨w, .deleteConsumer k name consumer⟩ key group := by
  have hstore : (Turn.mk w (.deleteConsumer k name consumer)).after.store =
      (w.store.deleteConsumer k name consumer).2 := rfl
  have hreply : (Turn.mk w (.deleteConsumer k name consumer)).reply =
      .told (w.store.deleteConsumer k name consumer).1 := rfl
  rcases hdelete : w.store.deleteConsumer k name consumer with ⟨refusal | b, s⟩
  · obtain rfl := (w.store.deleteConsumer_intact ..).eq hdelete
    rw [hdelete] at hstore hreply
    refine upon_of_store_eq rfl hstore ?_
    simp only [clearing?, hreply]
  · obtain ⟨⟨g, hbefore, rfl, hhere⟩, helse⟩ := Store.deleteConsumer_group? hdelete
    rw [hdelete] at hstore hreply
    by_cases hsame : k = key ∧ name = group
    · have hclear : (Turn.mk w (.deleteConsumer k name consumer)).clearing? key group =
          some (.dismissed consumer (g.consumers.contains consumer)) := by
        simp only [clearing?, hreply, if_pos hsame]
      obtain ⟨rfl, rfl⟩ := hsame
      exact .dismissed rfl hclear hbefore (by rw [hstore, hhere])
    · refine .left ?_ (plain_of_reading?_eq_none rfl) ?_
      · rw [hstore, helse key group hsame]
      · simp only [clearing?, hreply, if_neg hsame]

theorem upon_createGroup (w : World) (k : Bytes) (token : String) (name key group : Bytes) :
    Turn.Upon ⟨w, .createGroup k token name⟩ key group := by
  have hstore : (Turn.mk w (.createGroup k token name)).after.store =
      (w.store.createGroup k token name).2 := rfl
  have hreply : (Turn.mk w (.createGroup k token name)).reply =
      .made (w.store.createGroup k token name).1 := rfl
  rcases hcreate : w.store.createGroup k token name with ⟨refusal | _, s⟩
  · obtain rfl := (w.store.createGroup_intact ..).eq hcreate
    rw [hcreate] at hstore
    exact upon_of_store_eq rfl hstore rfl
  · obtain ⟨⟨start, hnew, hhere⟩, helse⟩ := Store.createGroup_group? hcreate
    rw [hcreate] at hstore hreply
    by_cases hsame : k = key ∧ name = group
    · obtain ⟨rfl, rfl⟩ := hsame
      exact .created rfl hreply hnew (by rw [hstore, hhere])
    · refine .left ?_ (plain_of_reading?_eq_none rfl) rfl
      rw [hstore, helse key group hsame]

theorem upon_destroyGroup (w : World) (k name key group : Bytes) :
    Turn.Upon ⟨w, .destroyGroup k name⟩ key group := by
  have hstore : (Turn.mk w (.destroyGroup k name)).after.store =
      (w.store.destroyGroup k name).2 := rfl
  rcases hdestroy : w.store.destroyGroup k name with ⟨refusal | b, s⟩
  · obtain rfl := (w.store.destroyGroup_intact ..).eq hdestroy
    rw [hdestroy] at hstore
    exact upon_of_store_eq rfl hstore rfl
  · rw [hdestroy] at hstore
    by_cases hsame : k = key ∧ name = group
    · obtain ⟨rfl, rfl⟩ := hsame
      exact .destroyed rfl
    · refine .left ?_ (plain_of_reading?_eq_none rfl) rfl
      rw [hstore, Store.destroyGroup_group? hdestroy (Classical.not_and_iff_not_or_not.1 hsame)]

theorem upon (t : Turn) (key group : Bytes) : t.Upon key group := by
  cases hreading : t.reading? with
  | some r => exact upon_of_reading hreading key group
  | none =>
      obtain ⟨w, m⟩ := t
      have hread := plain_of_reading?_eq_none hreading
      cases m with
      | add | delete | trim =>
          refine .left (group?_of_editsEntries ?_ key group) hread rfl
          trivial
      | acknowledge k name ids => exact upon_acknowledge ..
      | createGroup k token name => exact upon_createGroup ..
      | deleteConsumer k name consumer => exact upon_deleteConsumer ..
      | destroyGroup k name => exact upon_destroyGroup ..
      | length | pendingCount | page | begin | hear | expire | proceed | cancel | elapse =>
          have hstore := World.store_of_not_isCommand hreading not_false
          exact upon_of_store_eq hreading hstore rfl

/-- A turn that does not read for a consumer delivers nothing. -/
theorem marks_eq_nil {t : Turn} (h : ∀ r, t.reading? = some r → r.consumer = none)
    (key group : Bytes) : t.marks key group = [] := by
  unfold marks
  rw [taken_eq_nil h]
  split <;> rfl

/-- A group read delivers what its servings record. -/
theorem marks_of_reading {t : Turn} {r : Reading} {consumer : Consumer}
    (hreading : t.reading? = some r) (hconsumer : r.consumer = some consumer)
    (key group : Bytes) :
    t.marks key group = Store.marks
      (Store.serveAll consumer r.count r.noAck r.cursors t.before.store).1 key group consumer
      r.noAck := by
  unfold marks waives taken
  rw [servings?_of_reading hreading hconsumer, hreading, Option.any_some]
  unfold Store.marks Serving.marks Serving.taken
  cases r.noAck with
  | true => simp
  | false =>
      simp only [Bool.false_eq_true, if_false, List.map_flatMap]
      congr 1
      funext v
      split
      · rw [List.map_map]
        rfl
      · rfl

/-! ## What a turn records and returns -/

section Records

variable {t : Turn} {key group : Bytes}

theorem mem_marks {consumer : Consumer} {servings : List Serving}
    (h : t.servings? = some (consumer, servings)) {m : EntryId × Bytes} :
    m ∈ t.marks key group ↔ t.waives = false ∧ consumer.group = group ∧ m.2 = consumer.name ∧
      ∃ v ∈ servings, v.key = key ∧ ∃ body, (m.1, body) ∈ v.news := by
  unfold marks taken
  rw [h]
  cases t.waives with
  | true => simp
  | false =>
      simp only [Bool.false_eq_true, if_false, true_and, List.mem_map, List.mem_flatMap]
      constructor
      · rintro ⟨d, ⟨v, hv, hd⟩, rfl⟩
        unfold Serving.taken at hd
        split at hd
        case isTrue hsame =>
          obtain ⟨p, hp, rfl⟩ := List.mem_map.1 hd
          exact ⟨hsame.2, rfl, v, hv, hsame.1, p.2, hp⟩
        case isFalse => cases hd
      · rintro ⟨hgroup, hname, v, hv, hkey, body, hnew⟩
        refine ⟨⟨consumer.name, m.1, body⟩, ⟨v, hv, ?_⟩, Prod.ext rfl hname.symm⟩
        unfold Serving.taken
        rw [if_pos ⟨hkey, hgroup⟩]
        exact List.mem_map_of_mem hnew

/-- The records of a turn agree with what it told its reader: what a read that was not refused
recorded it returned, and what it returned out of a stream that it asked for undelivered entries
only it recorded. -/
structure ReturnsMarks (t : Turn) (key group : Bytes) : Prop where
  returned : ∀ i messages, t.reply = .read i (.returned (.ok messages)) →
    ∀ m ∈ t.marks key group, ∃ body, .ofEntry key m.1 body ∈ messages
  recorded : ∀ r consumer i messages, t.reading? = some r → r.consumer = some ⟨group, consumer⟩ →
    r.noAck = false → (∀ cursor, (key, cursor) ∈ r.cursors → cursor = .undelivered) →
    t.reply = .read i (.returned (.ok messages)) →
    ∀ id body, .ofEntry key id body ∈ messages → (id, consumer) ∈ t.marks key group

theorem messages_of_servings {consumer : Consumer} {servings : List Serving}
    (h : t.servings? = some (consumer, servings)) {i : Nat} {messages : List Message}
    (hreply : t.reply = .read i (.returned (.ok messages))) :
    messages = servings.flatMap Serving.messages := by
  obtain ⟨j, progress, hreply', houtcome⟩ := outcome_of_servings h
  obtain ⟨-, rfl⟩ := Reply.read.inj (hreply.symm.trans hreply')
  exact houtcome messages rfl

theorem returnsMarks (t : Turn) (key group : Bytes) : t.ReturnsMarks key group := by
  refine ⟨?_, ?_⟩
  · intro i messages hreply m hm
    cases hservings : t.servings? with
    | none =>
        unfold marks taken at hm
        rw [hservings] at hm
        split at hm <;> cases hm
    | some p =>
        obtain ⟨consumer, servings⟩ := p
        obtain ⟨-, -, -, v, hv, hkey, body, hnew⟩ := (mem_marks hservings).1 hm
        rw [messages_of_servings hservings hreply]
        exact ⟨body, Serving.mem_messages.2 ⟨v, hv, hkey, Serving.mem_entries_of_mem_news hnew⟩⟩
  · intro r consumer i messages hreading hconsumer hack hcursors hreply id body hmessage
    have hservings := servings?_of_reading hreading hconsumer
    rw [messages_of_servings hservings hreply] at hmessage
    obtain ⟨v, hv, hkey, hentry⟩ := Serving.mem_messages.1 hmessage
    have hasked : (key, v.cursor) ∈ r.cursors := by
      have hserved := List.mem_map_of_mem (f := fun v : Serving => (v.key, v.cursor)) hv
      rw [Store.serveAll_cursors, hkey] at hserved
      exact (List.takeWhile_sublist _).subset hserved
    have hnew : (id, body) ∈ v.news := by
      rw [Serving.news, hcursors v.cursor hasked]
      exact hentry
    refine (mem_marks hservings).2 ⟨?_, rfl, rfl, v, hv, hkey, body, hnew⟩
    rw [waives, hreading]
    exact hack

end Records

end Turn

/-! ## The ledger of a run -/

/-- A number of each turn, added up. -/
def total (turns : List Turn) (f : Turn → Nat) : Nat := turns.foldl (fun n t => n + f t) 0

theorem total_concat (turns : List Turn) (t : Turn) (f : Turn → Nat) :
    total (turns ++ [t]) f = total turns f + f t := by
  unfold total
  rw [List.foldl_append]
  rfl

/-- The pending entries of a group agree with the turns since its creation. -/
structure Balanced (turns : List Turn) (key group : Bytes) (g : Group) : Prop where
  orderly : g.Orderly
  pending : ∀ id c, g.pending.get? id = some c ↔ Outstanding turns key group id c
  size : g.pending.size + total turns (·.acknowledged key group) +
    total turns (·.dropped key group) = total turns fun t => (t.marks key group).length

theorem Balanced.nil (key group : Bytes) (start : EntryId) :
    Balanced [] key group (.startingAt start) := by
  refine ⟨.startingAt start, ?_, rfl⟩
  intro id c
  refine ⟨nofun, ?_⟩
  rintro ⟨early, t, late, hsplit, -⟩
  cases early <;> cases hsplit

namespace Turn

variable {t : Turn} {turns : List Turn} {key group : Bytes} {g : Group}

/-- What a turn delivers is new to the pending entries of a group. -/
theorem marks_new (hg : t.before.store.group? key group = some g) (horderly : g.Orderly) :
    (t.marks key group).Pairwise (fun m n => m.1 < n.1) ∧
      ∀ m ∈ t.marks key group, g.pending.get? m.1 = none := by
  cases hreading : t.reading? with
  | none =>
      rw [marks_eq_nil (plain_of_reading?_eq_none hreading)]
      exact ⟨.nil, by simp⟩
  | some r =>
      cases hconsumer : r.consumer with
      | none =>
          rw [marks_eq_nil (plain_of_reading hreading hconsumer)]
          exact ⟨.nil, by simp⟩
      | some consumer =>
          obtain ⟨g', -, hbook⟩ := Store.bookings_serveAll consumer r.count r.noAck
            r.cursors hg horderly
          rw [marks_of_reading hreading hconsumer]
          exact ⟨hbook.sorted, fun m hm => horderly.get?_eq_none (hbook.above m hm)⟩

/-- A consumer that is deleted in vain holds nothing. -/
theorem nothing_held_of_dismissed (hg : t.before.store.group? key group = some g)
    (horderly : g.Orderly) {consumer : Bytes}
    (hclear : t.clearing? key group = some (.dismissed consumer false)) (id : EntryId) :
    g.pending.get? id ≠ some consumer := by
  intro hheld
  have hknown := horderly.known id consumer hheld
  cases t.upon key group with
  | left _ _ hnone => rw [hnone] at hclear; cases hclear
  | served _ _ _ hnone => rw [hnone] at hclear; cases hclear
  | created hmove =>
      unfold clearing? at hclear
      rw [hmove] at hclear
      cases hclear
  | destroyed hmove =>
      unfold clearing? at hclear
      rw [hmove] at hclear
      cases hclear
  | acknowledged _ hother => rw [hother] at hclear; cases hclear
  | @dismissed c g₀ _ hother hbefore =>
      obtain rfl : g₀ = g := Option.some.inj (hbefore.symm.trans hg)
      rw [hother] at hclear
      injection Option.some.inj hclear with hc hexisted
      rw [← hc, hexisted] at hknown
      cases hknown

/-- A turn that leaves a group as it is, or adds what it delivers, keeps the balance. -/
theorem balanced_of_booked {g' : Group} (h : Balanced turns key group g)
    (hclear : t.clearing? key group = none) (hbook : Bookings g g' (t.marks key group)) :
    Balanced (turns ++ [t]) key group g' := by
  have hnot : ∀ id c, ¬ t.Clears key group id c := by
    rintro id c ⟨x, hx, -⟩
    rw [hclear] at hx
    cases hx
  refine ⟨h.orderly.booked hbook, ?_, ?_⟩
  · intro id c
    rw [outstanding_concat, hbook.pending, h.pending]
    exact or_congr (and_iff_left (hnot id c)).symm Iff.rfl
  · have hack : t.acknowledged key group = 0 := by
      unfold acknowledged
      rw [hclear]
    have hdropped : t.dropped key group = 0 := by
      unfold dropped
      rw [hclear]
    have hsize := h.size
    have hbooked := hbook.size
    rw [total_concat, total_concat, total_concat, hack, hdropped]
    omega

/-- A turn that clears some of what is pending in a group keeps the balance. -/
theorem balanced_of_cleared {g' : Group} {x : Clearing} (h : Balanced turns key group g)
    (hread : t.reading? = none) (hclear : t.clearing? key group = some x) (horderly : g'.Orderly)
    (hpending : ∀ id c, g'.pending.get? id = some c ↔
      g.pending.get? id = some c ∧ ¬ x.Names id c)
    (hsize : g'.pending.size + t.acknowledged key group + t.dropped key group = g.pending.size) :
    Balanced (turns ++ [t]) key group g' := by
  have hmarks := marks_eq_nil (plain_of_reading?_eq_none hread) key group
  have hnames : ∀ id c, t.Clears key group id c ↔ x.Names id c := by
    intro id c
    refine ⟨?_, fun hx => ⟨x, hclear, hx⟩⟩
    rintro ⟨y, hy, hnames⟩
    obtain rfl := Option.some.inj (hclear.symm.trans hy)
    exact hnames
  refine ⟨horderly, ?_, ?_⟩
  · intro id c
    rw [outstanding_concat, hpending, h.pending, hnames, hmarks]
    simp
  · have hbefore := h.size
    rw [total_concat, total_concat, total_concat, hmarks, List.length_nil]
    omega

/-- A turn that does not destroy a group keeps the balance of its ledger. -/
theorem balanced (h : Balanced turns key group g)
    (hg : t.before.store.group? key group = some g) (hlive : t.move ≠ .destroyGroup key group) :
    ∃ g', t.after.store.group? key group = some g' ∧ Balanced (turns ++ [t]) key group g' := by
  cases t.upon key group with
  | left hsame hread hclear =>
      refine ⟨g, hsame.trans hg, balanced_of_booked h hclear ?_⟩
      rw [marks_eq_nil hread]
      exact .refl g
  | @served r consumer hreading hconsumer hstore hclear =>
      obtain ⟨g', hg', hbook⟩ := Store.bookings_serveAll consumer r.count r.noAck r.cursors
        hg h.orderly
      refine ⟨g', by rw [hstore, hg'], balanced_of_booked h hclear ?_⟩
      rw [marks_of_reading hreading hconsumer]
      exact hbook
  | created _ _ hnew => rw [hnew] at hg; cases hg
  | destroyed hmove => exact absurd hmove hlive
  | @acknowledged ids count hread hclear hafter hcount =>
      refine ⟨_, by rw [hafter, hg]; rfl, balanced_of_cleared h hread hclear
        (h.orderly.acknowledged ids) (fun id c => SortedMap.get?_eraseAll) ?_⟩
      have hack : t.acknowledged key group = count := by
        unfold acknowledged
        rw [hclear]
      have hdropped : t.dropped key group = 0 := by
        unfold dropped
        rw [hclear]
      rw [hack, hdropped, hcount g hg]
      exact SortedMap.eraseAll_size ids g.pending
  | @dismissed consumer g₀ hread hclear hbefore hafter =>
      obtain rfl : g₀ = g := Option.some.inj (hbefore.symm.trans hg)
      have hack : t.acknowledged key group = 0 := by
        unfold acknowledged
        rw [hclear]
      have hdropped : t.dropped key group = Store.held g₀ consumer := by
        unfold dropped
        rw [hclear, hg]
      refine ⟨_, hafter, balanced_of_cleared h hread hclear ?_ ?_ ?_⟩
      · split
        · exact Store.orderly_forget h.orderly consumer
        · exact h.orderly
      · intro id c
        rw [Store.pending_dismissed h.orderly]
        exact Store.get?_forget
      · rw [hack, hdropped, Store.pending_dismissed h.orderly]
        exact Store.size_forget g₀ consumer

end Turn

/-- Nobody finds a group behind its destruction. -/
theorem Turn.group?_of_destroyGroup {t : Turn} {key group : Bytes}
    (hmove : t.move = .destroyGroup key group) : t.after.store.group? key group = none := by
  obtain ⟨w, m⟩ := t
  obtain rfl : m = .destroyGroup key group := hmove
  exact w.store.destroyGroup_group?_self key group

/-- A group that is there behind a turn was made by it, or was there and not destroyed. -/
theorem Turn.created_or_there {t : Turn} {key group : Bytes}
    (h : (t.after.store.group? key group).isSome) :
    (∃ token, t.move = .createGroup key token group ∧ t.reply = .made (.ok ())) ∨
      (t.before.store.group? key group).isSome ∧ t.move ≠ .destroyGroup key group := by
  have hother : t.move ≠ .destroyGroup key group := by
    intro hmove
    rw [group?_of_destroyGroup hmove] at h
    cases h
  cases t.upon key group with
  | left hsame => exact .inr ⟨hsame ▸ h, hother⟩
  | @served r consumer hreading hconsumer hstore =>
      rw [hstore] at h
      have hkept : ((Store.serveAll consumer r.count r.noAck r.cursors
          t.before.store).2.group? key group).isSome =
          (t.before.store.group? key group).isSome :=
        Store.serveAll_keeps
          (P := fun u => (u.group? key group).isSome = (t.before.store.group? key group).isSome)
          (fun _ _ _ hu hserved => (hserved.isSome_group? key group).trans hu) _ _ rfl
      exact .inr ⟨hkept ▸ h, hother⟩
  | @created token _ hmove hreply => exact .inl ⟨token, hmove, hreply⟩
  | destroyed hmove => exact absurd hmove hother
  | acknowledged _ _ hafter =>
      rw [hafter, Option.isSome_map] at h
      exact .inr ⟨h, hother⟩
  | dismissed _ _ hbefore =>
      refine .inr ⟨?_, hother⟩
      rw [hbefore]
      rfl

/-- A group that is there at the end of a run was there from the start and never destroyed, or was
created and not destroyed since. -/
theorem there_or_created {w : World} {moves : List Move} {key group : Bytes}
    (h : ((w.run moves).store.group? key group).isSome) :
    (w.store.group? key group).isSome ∧ .destroyGroup key group ∉ moves ∨
      ∃ past token life, moves = past ++ .createGroup key token group :: life ∧
        ((w.run past).step (.createGroup key token group)).1 = .made (.ok ()) ∧
        .destroyGroup key group ∉ life := by
  induction moves generalizing w with
  | nil => exact .inl ⟨h, by simp⟩
  | cons m rest ih =>
      rcases ih h with ⟨hthere, hlive⟩ | ⟨past, token, life, rfl, hmade, hlive⟩
      · rcases Turn.created_or_there (t := ⟨w, m⟩) hthere with
          ⟨token, hmove, hreply⟩ | ⟨hbefore, hother⟩
        · obtain rfl : m = .createGroup key token group := hmove
          exact .inr ⟨[], token, rest, rfl, hreply, hlive⟩
        · refine .inl ⟨hbefore, fun hm => ?_⟩
          rcases List.mem_cons.1 hm with heq | hrest
          · exact hother heq.symm
          · exact hlive hrest
      · exact .inr ⟨m :: past, token, life, rfl, hmade, hlive⟩

section Life

variable {past life : List Move} {key group : Bytes} {token : String}

/-- From its creation on, and as long as it is not destroyed, the ledger of a group balances. -/
theorem balanced_life
    (hmade : ((World.start.run past).step (.createGroup key token group)).1 = .made (.ok ()))
    (hlive : .destroyGroup key group ∉ life) :
    ∃ g, ((World.born past key token group).run life).store.group? key group = some g ∧
      Balanced ((World.born past key token group).turns life) key group g := by
  refine World.run_induction (w := World.born past key token group)
    (P := fun ts w => ∃ g, w.store.group? key group = some g ∧ Balanced ts key group g) ?_ ?_
  · obtain ⟨⟨start, -, hnew⟩, -⟩ := Store.createGroup_group? (created_eq hmade)
    rw [World.born, World.run_append, World.run_cons, World.run_nil]
    exact ⟨_, hnew, .nil key group start⟩
  · rintro early m late hsplit ⟨g, hg, hbalanced⟩
    have hother : m ≠ .destroyGroup key group := by
      rintro rfl
      exact hlive (hsplit ▸ List.mem_append_right _ List.mem_cons_self)
    exact Turn.balanced (t := ⟨(World.born past key token group).run early, m⟩) hbalanced hg hother

/-- What is outstanding was taken. -/
theorem taken_of_outstanding {turns : List Turn} {id : EntryId} {consumer : Bytes}
    (h : Outstanding turns key group id consumer) :
    ∃ d ∈ turns.flatMap (·.taken key group), d.id = id := by
  obtain ⟨early, t, late, rfl, hmark, -⟩ := h
  unfold Turn.marks at hmark
  split at hmark
  · cases hmark
  · obtain ⟨d, hd, heq⟩ := List.mem_map.1 hmark
    have ht : t ∈ early ++ t :: late := List.mem_append_right _ List.mem_cons_self
    exact ⟨d, List.mem_flatMap.2 ⟨t, ht, hd⟩, congrArg Prod.fst heq⟩

/-- A run goes on from the creation of a group. -/
theorem World.run_born (past life : List Move) (key : Bytes) (token : String) (group : Bytes) :
    World.start.run (past ++ .createGroup key token group :: life) =
      (World.born past key token group).run life := by
  rw [World.born, ← World.run_append, List.append_assoc]
  rfl

/-- What a group delivered was added to its stream. -/
theorem le_lastId_of_outstanding
    (hmade : ((World.start.run past).step (.createGroup key token group)).1 = .made (.ok ()))
    (hlive : .destroyGroup key group ∉ life) {id : EntryId} {consumer : Bytes}
    (h : Outstanding ((World.born past key token group).turns life) key group id consumer) :
    id ≤ ((World.born past key token group).run life).store.lastId key := by
  obtain ⟨d, hd, rfl⟩ := taken_of_outstanding h
  obtain ⟨_, _, -, -, _, _, -, -, hdrawn⟩ := draws_life hmade hlive
  have hlog := recorded_run (past ++ .createGroup key token group :: life) key
  have hle := hlog.le_lastId _ (hdrawn.recorded d hd)
  rw [World.run_born, ← Store.lastId_eq] at hle
  exact hle

/-- What a group delivered lies above `0-0`. -/
theorem least_lt_of_outstanding
    (hmade : ((World.start.run past).step (.createGroup key token group)).1 = .made (.ok ()))
    (hlive : .destroyGroup key group ∉ life) {id : EntryId} {consumer : Bytes}
    (h : Outstanding ((World.born past key token group).turns life) key group id consumer) :
    .least < id := by
  obtain ⟨d, hd, rfl⟩ := taken_of_outstanding h
  obtain ⟨_, start, -, -, _, _, -, -, hdrawn⟩ := draws_life hmade hlive
  exact EntryId.lt_of_le_of_lt (EntryId.least_le start) (hdrawn.above d hd)

end Life

/-- The pending entries of a group that is there are an acknowledgement ledger, kept from its
creation on.  An entry is pending for a consumer exactly when it was delivered to that consumer by a
read that did not waive acknowledgements, and neither an acknowledgement that names it nor the end
of that consumer came behind.  A read that was not refused returned what it delivered.  No delivery
is recorded over a pending entry, a consumer that is deleted in vain holds nothing, and adding,
deleting and trimming entries change nothing.  What is pending is held by consumers that the group
knows, and lies at most at the place of the group and at the last identifier of the stream.  So the
number of pending entries is that of the recorded deliveries without those acknowledged and those
dropped with their consumers. -/
theorem pending_is_ledger {moves : List Move} {key group : Bytes} {g : Group}
    (hg : (World.start.run moves).store.group? key group = some g) :
    ∃ past token life, moves = past ++ .createGroup key token group :: life ∧
      ((World.start.run past).step (.createGroup key token group)).1 = .made (.ok ()) ∧
      .destroyGroup key group ∉ life ∧
      (∀ id c, g.pending.get? id = some c ↔
        Outstanding ((World.born past key token group).turns life) key group id c) ∧
      (∀ t ∈ (World.born past key token group).turns life, ∃ g₀,
        t.before.store.group? key group = some g₀ ∧
        (t.marks key group).Pairwise (fun m n => m.1 < n.1) ∧
        (∀ m ∈ t.marks key group, g₀.pending.get? m.1 = none) ∧
        (∀ consumer, t.clearing? key group = some (.dismissed consumer false) →
          ∀ id, g₀.pending.get? id ≠ some consumer) ∧
        (t.move.EditsEntries → t.after.store.group? key group = some g₀) ∧
        t.ReturnsMarks key group) ∧
      (∀ id c, g.pending.get? id = some c → g.consumers.contains c ∧ id ≤ g.lastDelivered ∧
        id ≤ (World.start.run moves).store.lastId key) ∧
      ∃ n, (World.start.run moves).store.pendingCount key group = some n ∧
        n + total ((World.born past key token group).turns life) (·.acknowledged key group) +
          total ((World.born past key token group).turns life) (·.dropped key group) =
        total ((World.born past key token group).turns life) fun t =>
          (t.marks key group).length := by
  have hthere : ((World.start.run moves).store.group? key group).isSome := by
    rw [hg]
    rfl
  rcases there_or_created hthere with ⟨hstart, -⟩ | ⟨past, token, life, rfl, hmade, hlive⟩
  · cases hstart
  have hrun : World.start.run (past ++ .createGroup key token group :: life) =
      (World.born past key token group).run life := by
    rw [World.born, ← World.run_append, List.append_assoc]
    rfl
  rw [hrun] at hg ⊢
  obtain ⟨g', hg', hbalanced⟩ := balanced_life hmade hlive
  obtain rfl : g = g' := Option.some.inj (hg.symm.trans hg')
  refine ⟨past, token, life, rfl, hmade, hlive, hbalanced.pending, ?_, ?_, g.pending.size, ?_,
    hbalanced.size⟩
  · intro t ht
    -- what a turn meets is the ledger of the shorter run before it
    obtain ⟨early, m, late, rfl, rfl⟩ := World.exists_of_mem_turns ht
    obtain ⟨g₀, hg₀, hearly⟩ := balanced_life hmade
      fun h => hlive (List.mem_append_left _ h)
    obtain ⟨hsorted, hnew⟩ := Turn.marks_new (t := ⟨_, m⟩) hg₀ hearly.orderly
    refine ⟨g₀, hg₀, hsorted, hnew, ?_, ?_, Turn.returnsMarks _ key group⟩
    · exact fun consumer => Turn.nothing_held_of_dismissed hg₀ hearly.orderly
    · exact fun hedits => (Turn.group?_of_editsEntries hedits key group).trans hg₀
  · intro id c hget
    have hout := (hbalanced.pending id c).1 hget
    exact ⟨hbalanced.orderly.known id c hget, hbalanced.orderly.place id c hget,
      le_lastId_of_outstanding hmade hlive hout⟩
  · rw [Store.pendingCount, hg]
    rfl

/-- A group is made, destroyed and made again; one consumer takes two entries and acknowledges one,
another takes two and is deleted, and comes back for the last one; a reader that waives
acknowledgements takes the rest. -/
def comings : List Move :=
  [.add [97] (some "1-1") (.ofList [([102], [118])]) (some 0), .createGroup [97] "0" [103],
    .destroyGroup [97] [103], .createGroup [97] "0" [103],
    .add [97] (some "1-2") (.ofList [([102], [118])]) (some 0),
    .add [97] (some "1-3") (.ofList [([102], [118])]) (some 0),
    .add [97] (some "1-4") (.ofList [([102], [118])]) (some 0),
    .begin ⟨[([97], ">")], none, some 2, false, some ⟨[103], [99]⟩⟩,
    .acknowledge [97] [103] ["1-2", "1-4"],
    .begin ⟨[([97], ">")], none, some 1, false, some ⟨[103], [100]⟩⟩, .delete [97] ["1-3"],
    .deleteConsumer [97] [103] [100],
    .begin ⟨[([97], ">"), ([98], ">")], none, none, false, some ⟨[103], [100]⟩⟩,
    .add [97] (some "1-5") (.ofList [([102], [118])]) (some 0),
    .begin ⟨[([97], ">")], none, none, true, some ⟨[103], [101]⟩⟩]

theorem pending_is_ledger_comings :
    ∃ g, (World.start.run comings).store.group? [97] [103] = some g ∧
      g.pending.toList = [(⟨1, 1⟩, [99]), (⟨1, 4⟩, [100])] ∧
      ∃ past token life, comings = past ++ .createGroup [97] token [103] :: life ∧
        .destroyGroup [97] [103] ∉ life ∧
        (∀ id c, g.pending.get? id = some c ↔
          Outstanding ((World.born past [97] token [103]).turns life) [97] [103] id c) ∧
        2 + total ((World.born past [97] token [103]).turns life) (·.acknowledged [97] [103]) +
          total ((World.born past [97] token [103]).turns life) (·.dropped [97] [103]) =
        total ((World.born past [97] token [103]).turns life) fun t =>
          (t.marks [97] [103]).length := by
  have hg : (World.start.run comings).store.group? [97] [103] =
      some ⟨⟨1, 5⟩, ⟨[(⟨1, 1⟩, [99]), (⟨1, 4⟩, [100])], by decide +kernel⟩,
        ⟨[([99], ()), ([100], ()), ([101], ())], by decide +kernel⟩⟩ := by
    decide +kernel
  obtain ⟨past, token, life, hsplit, -, hlive, hpending, -, -, n, hcount, hsize⟩ :=
    pending_is_ledger hg
  refine ⟨_, hg, rfl, past, token, life, hsplit, hlive, hpending, ?_⟩
  have htwo : (World.start.run comings).store.pendingCount [97] [103] = some 2 := by
    rw [Store.pendingCount, hg]
    rfl
  obtain rfl : n = 2 := Option.some.inj (hcount.symm.trans htwo)
  exact hsize

end StreamBroker
