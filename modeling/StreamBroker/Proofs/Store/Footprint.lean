import StreamBroker.Proofs.Store.GroupRead
set_option autoImplicit false

/-!
# Footprints

A store consists of places: under each key the entries of a stream with its last identifier, and
each of its groups.  The footprint of an operation is where it looks and where it may change
something (`Footprint`): whatever is elsewhere stays as it is and does not matter to what the
operation gives or changes.  Of two operations neither of which changes anything where the other
looks it does not matter which is first (`Footprint.commute`).

Entries are looked at by every operation and changed by those that concern nothing else
(`footprint_add`, `footprint_delete`, `footprint_trim`); the others change the groups of one name.
-/

namespace StreamBroker

/-- A part of a store. -/
inductive Place where
  /-- The entries and the last identifier of a stream. -/
  | entries (key : Bytes)
  /-- A group of a stream. -/
  | group (key name : Bytes)

namespace Place

/-- The key under which a place is. -/
def key : Place → Bytes
  | entries key | group key _ => key

/-- The places with the entries under some keys. -/
def EntriesOf (keys : List Bytes) (p : Place) : Prop := ∃ key ∈ keys, p = entries key

/-- The places with the groups of one name under some keys. -/
def GroupsOf (keys : List Bytes) (name : Bytes) (p : Place) : Prop :=
  ∃ key ∈ keys, p = group key name

/-- The places that matter to the groups of one name under some keys. -/
def AroundGroups (keys : List Bytes) (name : Bytes) (p : Place) : Prop :=
  EntriesOf keys p ∨ GroupsOf keys name p

end Place

namespace Store

/-- The entries and the last identifier of a stream, if there is one. -/
def contents? (s : Store) (key : Bytes) : Option (SortedMap EntryId Body × EntryId) :=
  (s.get? key).map fun stream => (stream.entries, stream.lastId)

/-- Two stores have the same at a place. -/
def Alike (s t : Store) : Place → Prop
  | .entries key => s.contents? key = t.contents? key
  | .group key name => s.group? key name = t.group? key name

theorem alike_entries {s t : Store} {key : Bytes} :
    s.Alike t (.entries key) ↔ s.contents? key = t.contents? key := .rfl

theorem alike_group {s t : Store} {key name : Bytes} :
    s.Alike t (.group key name) ↔ s.group? key name = t.group? key name := .rfl

theorem Alike.refl (s : Store) (p : Place) : s.Alike s p := by
  cases p <;> exact rfl

theorem Alike.symm {s t : Store} {p : Place} (h : s.Alike t p) : t.Alike s p := by
  cases p <;> exact Eq.symm h

theorem Alike.trans {s t u : Store} {p : Place} (h₁ : s.Alike t p) (h₂ : t.Alike u p) :
    s.Alike u p := by
  cases p <;> exact Eq.trans h₁ h₂

theorem Intact.alike {α : Type} {s : Store} {done : Except Refusal α × Store} {p : Place}
    (h : s.Intact done) (hok : ∀ a t, done = (.ok a, t) → t.Alike s p) : done.2.Alike s p :=
  h.behind (P := (Alike · s p)) (.refl s p) hok

/-- Streams are both missing, or have the same entries and last identifier. -/
theorem get?_of_alike {s t : Store} {key : Bytes} (h : s.Alike t (.entries key)) :
    s.get? key = none ∧ t.get? key = none ∨
      ∃ a b, s.get? key = some a ∧ t.get? key = some b ∧ a.entries = b.entries ∧
        a.lastId = b.lastId := by
  rw [alike_entries, contents?, contents?] at h
  cases hs : s.get? key with
  | none =>
      rw [hs] at h
      exact .inl ⟨rfl, Option.map_eq_none_iff.mp h.symm⟩
  | some a =>
      rw [hs] at h
      obtain ⟨b, ht, hsame⟩ := Option.map_eq_some_iff.mp h.symm
      obtain ⟨hentries, hlast⟩ := Prod.mk.inj hsame
      exact .inr ⟨a, b, rfl, ht, hentries.symm, hlast.symm⟩

theorem lastId_of_alike {s t : Store} {key : Bytes} (h : s.Alike t (.entries key)) :
    s.lastId key = t.lastId key := by
  unfold lastId
  obtain ⟨hs, ht⟩ | ⟨a, b, hs, ht, -, hlast⟩ := get?_of_alike h
  · rw [hs, ht]
  · rw [hs, ht]
    exact hlast

/-- Streams are the same if their entries and all their groups are. -/
theorem get?_eq_of_alike {s t : Store} {key : Bytes} (h : s.Alike t (.entries key))
    (hgroups : ∀ name, s.Alike t (.group key name)) : s.get? key = t.get? key := by
  obtain ⟨hs, ht⟩ | ⟨a, b, hs, ht, hentries, hlast⟩ := get?_of_alike h
  · rw [hs, ht]
  · have hsame : a.groups = b.groups := by
      apply SortedMap.ext_get?
      intro name
      rw [← group?_of_get? hs, ← group?_of_get? ht]
      exact hgroups name
    rw [hs, ht]
    cases a
    cases b
    simp_all

/-- Stores that are the same at every place are the same. -/
theorem eq_of_alike {s t : Store} (h : ∀ p, s.Alike t p) : s = t :=
  SortedMap.ext_get? fun key => get?_eq_of_alike (h (.entries key)) fun name => h (.group key name)

/-! ## One stream is replaced -/

section Replaced

variable {s t : Store} {key : Bytes} {a b a' b' : Stream} {p : Place}

theorem contents?_insert_self (s : Store) (key : Bytes) (stream : Stream) :
    contents? (s.insert key stream) key = some (stream.entries, stream.lastId) := by
  unfold contents?
  rw [SortedMap.get?_insert_self]
  rfl

theorem contents?_insert_of_ne (s : Store) {key k : Bytes} (stream : Stream) (h : key ≠ k) :
    contents? (s.insert key stream) k = s.contents? k := by
  unfold contents?
  rw [SortedMap.get?_insert_of_ne s stream h]

/-- A stream that keeps its groups changes its own entries only. -/
theorem alike_insert_entries (hgroups : ∀ name, a'.groups.get? name = s.group? key name)
    (hp : p ≠ .entries key) : Alike (s.insert key a') s p := by
  cases p with
  | entries k => exact contents?_insert_of_ne s a' fun heq => hp (heq ▸ rfl)
  | group k name =>
      by_cases hk : key = k
      · subst hk
        exact (group?_insert_self ..).trans (hgroups name)
      · exact group?_insert_of_ne s name a' hk

/-- What replaces the entries of a stream is all that is new. -/
theorem Alike.insert_entries (h : s.Alike t p)
    (hs : ∀ name, a'.groups.get? name = s.group? key name)
    (ht : ∀ name, b'.groups.get? name = t.group? key name) (hentries : a'.entries = b'.entries)
    (hlast : a'.lastId = b'.lastId) : Alike (s.insert key a') (t.insert key b') p := by
  by_cases hp : p = .entries key
  · subst hp
    rw [alike_entries, contents?_insert_self, contents?_insert_self, hentries, hlast]
  · exact ((alike_insert_entries hs hp).trans h).trans (alike_insert_entries ht hp).symm

theorem alike_setEntries (hget : s.get? key = some a) (entries : SortedMap EntryId Body)
    (hp : p ≠ .entries key) : Alike (s.insert key { a with entries }) s p :=
  alike_insert_entries (fun name => (group?_of_get? hget name).symm) hp

theorem Alike.setEntries (h : s.Alike t p) (hs : s.get? key = some a) (ht : t.get? key = some b)
    (hlast : a.lastId = b.lastId) (entries : SortedMap EntryId Body) :
    Alike (s.insert key { a with entries }) (t.insert key { b with entries }) p :=
  h.insert_entries (fun name => (group?_of_get? hs name).symm)
    (fun name => (group?_of_get? ht name).symm) rfl hlast

/-- A stream that changes one of its groups changes nothing else. -/
theorem alike_insert_group {groups : SortedMap Bytes Group} {name : Bytes}
    (hget : s.get? key = some a)
    (hothers : ∀ n, name ≠ n → groups.get? n = a.groups.get? n) (hp : p ≠ .group key name) :
    Alike (s.insert key { a with groups }) s p := by
  cases p with
  | entries k =>
      by_cases hk : key = k
      · subst hk
        rw [alike_entries, contents?_insert_self, contents?, hget]
        rfl
      · exact contents?_insert_of_ne s _ hk
  | group k n =>
      by_cases hk : key = k
      · subst hk
        have hn : name ≠ n := fun heq => hp (heq ▸ rfl)
        rw [alike_group, group?_insert_self, group?_of_get? hget]
        exact hothers n hn
      · exact group?_insert_of_ne s n _ hk

/-- What replaces one group of a stream is all that is new. -/
theorem Alike.insert_group {groups groups' : SortedMap Bytes Group} {name : Bytes}
    (h : s.Alike t p) (hs : s.get? key = some a) (ht : t.get? key = some b)
    (ha : ∀ n, name ≠ n → groups.get? n = a.groups.get? n)
    (hb : ∀ n, name ≠ n → groups'.get? n = b.groups.get? n)
    (hsame : groups.get? name = groups'.get? name) :
    Alike (s.insert key { a with groups }) (t.insert key { b with groups := groups' }) p := by
  by_cases hp : p = .group key name
  · subst hp
    rw [alike_group, group?_insert_self, group?_insert_self]
    exact hsame
  · exact ((alike_insert_group hs ha hp).trans h).trans (alike_insert_group ht hb hp).symm

theorem Alike.putGroup {name : Bytes} (h : s.Alike t p) (hs : s.get? key = some a)
    (ht : t.get? key = some b) (g : Group) :
    (s.putGroup key a name g).Alike (t.putGroup key b name g) p :=
  h.insert_group hs ht (fun _ hne => SortedMap.get?_insert_of_ne _ _ hne)
    (fun _ hne => SortedMap.get?_insert_of_ne _ _ hne)
    ((SortedMap.get?_insert_self ..).trans (SortedMap.get?_insert_self ..).symm)

theorem alike_putGroup {name : Bytes} (hget : s.get? key = some a) (g : Group)
    (hp : p ≠ .group key name) : (s.putGroup key a name g).Alike s p :=
  alike_insert_group hget (fun _ hne => SortedMap.get?_insert_of_ne _ _ hne) hp

end Replaced

/-! ## Footprints -/

/-- Where an operation looks, and where it may change something. -/
structure Footprint {α : Type} (reads writes : Place → Prop) (f : Store → α × Store) : Prop where
  inside : ∀ p, writes p → reads p
  frame : ∀ s p, ¬ writes p → (f s).2.Alike s p
  same : ∀ s t, (∀ p, reads p → s.Alike t p) → (f s).1 = (f t).1
  alike : ∀ s t, (∀ p, reads p → s.Alike t p) → ∀ p, reads p → (f s).2.Alike (f t).2 p

/-- Of two operations neither of which changes anything where the other looks it does not matter
which is first: they give what they give alone and leave the same behind. -/
theorem Footprint.commute {α β : Type} {reads writes reads' writes' : Place → Prop}
    {f : Store → α × Store} {g : Store → β × Store} (hf : Footprint reads writes f)
    (hg : Footprint reads' writes' g) (hfirst : ∀ p, writes p → ¬ reads' p)
    (hsecond : ∀ p, writes' p → ¬ reads p) (s : Store) :
    (g (f s).2).1 = (g s).1 ∧ (f (g s).2).1 = (f s).1 ∧ (g (f s).2).2 = (f (g s).2).2 := by
  have hunseen : ∀ p, reads' p → (f s).2.Alike s p := fun p hp =>
    hf.frame s p fun h => hfirst p h hp
  have hunseen' : ∀ p, reads p → (g s).2.Alike s p := fun p hp =>
    hg.frame s p fun h => hsecond p h hp
  refine ⟨hg.same _ _ hunseen, hf.same _ _ hunseen', eq_of_alike fun p => ?_⟩
  by_cases hp : writes p
  · have hother : ¬ writes' p := fun h => hsecond p h (hf.inside p hp)
    exact (hg.frame _ p hother).trans (hf.alike _ _ hunseen' p (hf.inside p hp)).symm
  · by_cases hp' : writes' p
    · exact (hg.alike _ _ hunseen p (hg.inside p hp')).trans (hf.frame _ p hp).symm
    · have hstill := (hg.frame (f s).2 p hp').trans (hf.frame s p hp)
      exact hstill.trans ((hf.frame (g s).2 p hp).trans (hg.frame s p hp')).symm

theorem Footprint.map {α β : Type} {reads writes : Place → Prop} {f : Store → α × Store}
    (h : Footprint reads writes f) (φ : α → β) :
    Footprint reads writes fun s => (φ (f s).1, (f s).2) :=
  ⟨h.inside, h.frame, fun s t hsame => congrArg φ (h.same s t hsame), h.alike⟩

/-- An operation that only looks. -/
theorem footprint_look {α : Type} {reads : Place → Prop} {f : Store → α}
    (hsame : ∀ s t, (∀ p, reads p → s.Alike t p) → f s = f t) :
    Footprint reads (fun _ => False) fun s => (f s, s) :=
  ⟨fun _ => nofun, fun s p _ => .refl s p, hsame, fun _ _ h => h⟩

/-- Two operations come to the same, and leave the same behind at some places. -/
structure Agree {α : Type} (places : Place → Prop) (x y : α × Store) : Prop where
  outcome : x.1 = y.1
  behind : ∀ p, places p → x.2.Alike y.2 p

/-- An operation has a footprint if it changes nothing elsewhere, and if what is elsewhere does not
matter to what it comes to and leaves behind. -/
theorem footprint_of_agree {α : Type} {reads writes : Place → Prop} {f : Store → α × Store}
    (hinside : ∀ p, writes p → reads p) (hframe : ∀ s p, ¬ writes p → (f s).2.Alike s p)
    (hagree : ∀ s t, (∀ p, reads p → s.Alike t p) → Agree reads (f s) (f t)) :
    Footprint reads writes f :=
  ⟨hinside, hframe, fun s t h => (hagree s t h).outcome, fun s t h => (hagree s t h).behind⟩

/-! ## Operations on entries -/

section Entries

variable {s t : Store} {key : Bytes}

theorem entriesOf_self (key : Bytes) : Place.EntriesOf [key] (.entries key) :=
  ⟨key, List.mem_singleton_self key, rfl⟩

theorem ne_of_not_entriesOf {p : Place} (h : ¬ Place.EntriesOf [key] p) : p ≠ .entries key := by
  rintro rfl
  exact h (entriesOf_self key)

/-- What an addition does to a stream that may be missing leaves its groups alone. -/
theorem groups_push (s : Store) (key : Bytes) (id : EntryId) (body : Body) (name : Bytes) :
    (((s.get? key).getD .fresh).push id body).groups.get? name = s.group? key name := by
  unfold group?
  cases s.get? key <;> rfl

theorem footprint_add (key : Bytes) (request : Option String) (body : Body)
    (clock : Option UInt64) :
    Footprint (Place.EntriesOf [key]) (Place.EntriesOf [key]) fun s =>
      s.add key request body clock := by
  refine footprint_of_agree (fun _ h => h) ?_ ?_
  · intro s p hp
    refine (s.add_intact key request body clock).alike fun id t h => ?_
    obtain ⟨-, rfl⟩ := add_eq_ok h
    exact alike_insert_entries (groups_push s key id body) (ne_of_not_entriesOf hp)
  · intro s t h
    have hkey := h _ (entriesOf_self key)
    unfold add
    rw [lastId_of_alike hkey]
    split
    · exact ⟨rfl, h⟩
    · split
      · exact ⟨rfl, h⟩
      · split
        · exact ⟨rfl, h⟩
        case h_2 id _ =>
          refine ⟨rfl, fun p hp => ?_⟩
          have hentries : (((s.get? key).getD .fresh).push id body).entries =
              (((t.get? key).getD .fresh).push id body).entries := by
            unfold Stream.push
            obtain ⟨hs, ht⟩ | ⟨a, b, hs, ht, hentries, -⟩ := get?_of_alike hkey
            · rw [hs, ht]
            · rw [hs, ht, Option.getD_some, Option.getD_some, hentries]
          exact (h p hp).insert_entries (groups_push s key id body) (groups_push t key id body)
            hentries rfl

theorem footprint_delete (key : Bytes) (ids : List String) :
    Footprint (Place.EntriesOf [key]) (Place.EntriesOf [key]) fun s => s.delete key ids := by
  refine footprint_of_agree (fun _ h => h) ?_ ?_
  · intro s p hp
    refine (s.delete_intact key ids).alike fun n t h => ?_
    obtain ⟨ids', -, ⟨-, -, rfl⟩ | ⟨stream, hget, -, rfl⟩⟩ := delete_eq_ok h
    · exact .refl _ p
    · exact alike_setEntries hget _ (ne_of_not_entriesOf hp)
  · intro s t h
    unfold delete
    cases EntryId.readAll ids with
    | error refusal => exact ⟨rfl, h⟩
    | ok ids' =>
        obtain ⟨hs, ht⟩ | ⟨a, b, hs, ht, hentries, hlast⟩ := get?_of_alike (h _ (entriesOf_self key))
        · simp only [hs, ht]
          exact ⟨rfl, h⟩
        · simp only [hs, ht, hentries]
          exact ⟨rfl, fun p hp => (h p hp).setEntries hs ht hlast _⟩

theorem footprint_trim (key : Bytes) (count : UInt64) :
    Footprint (Place.EntriesOf [key]) (Place.EntriesOf [key]) fun s => s.trim key count := by
  refine footprint_of_agree (fun _ h => h) ?_ ?_
  · intro s p hp
    unfold trim
    cases hget : s.get? key with
    | none => exact .refl s p
    | some stream => exact alike_setEntries hget _ (ne_of_not_entriesOf hp)
  · intro s t h
    unfold trim
    obtain ⟨hs, ht⟩ | ⟨a, b, hs, ht, hentries, hlast⟩ := get?_of_alike (h _ (entriesOf_self key))
    · simp only [hs, ht]
      exact ⟨rfl, h⟩
    · simp only [hs, ht, hentries]
      exact ⟨rfl, fun p hp => (h p hp).setEntries hs ht hlast _⟩

theorem footprint_length (key : Bytes) :
    Footprint (Place.EntriesOf [key]) (fun _ => False) fun s => (s.length key, s) := by
  refine footprint_look fun s t h => ?_
  unfold length
  obtain ⟨hs, ht⟩ | ⟨a, b, hs, ht, hentries, -⟩ := get?_of_alike (h _ (entriesOf_self key))
  · rw [hs, ht]
  · simp only [hs, ht, hentries]

end Entries

/-! ## Operations on groups -/

section Groups

variable {s t : Store} {key group : Bytes}

theorem ne_of_not_groupsOf {p : Place} (h : ¬ Place.GroupsOf [key] group p) :
    p ≠ .group key group := by
  rintro rfl
  exact h ⟨key, List.mem_singleton_self key, rfl⟩

/-- Under a key around a group, streams are both missing, or have the same entries, last identifier
and group. -/
theorem group_of_alike {keys : List Bytes} (hkey : key ∈ keys)
    (h : ∀ p, Place.AroundGroups keys group p → s.Alike t p) :
    s.get? key = none ∧ t.get? key = none ∨
      ∃ a b, s.get? key = some a ∧ t.get? key = some b ∧ a.entries = b.entries ∧
        a.lastId = b.lastId ∧ a.groups.get? group = b.groups.get? group := by
  have hentries := h (.entries key) (.inl ⟨key, hkey, rfl⟩)
  have hgroup := h (.group key group) (.inr ⟨key, hkey, rfl⟩)
  obtain hnone | ⟨a, b, hs, ht, hentries, hlast⟩ := get?_of_alike hentries
  · exact .inl hnone
  · rw [alike_group, group?_of_get? hs, group?_of_get? ht] at hgroup
    exact .inr ⟨a, b, hs, ht, hentries, hlast, hgroup⟩

theorem footprint_acknowledge (key group : Bytes) (ids : List String) :
    Footprint (Place.AroundGroups [key] group) (Place.GroupsOf [key] group) fun s =>
      s.acknowledge key group ids := by
  refine footprint_of_agree (fun _ => .inr) ?_ ?_
  · intro s p hp
    refine (s.acknowledge_intact key group ids).alike fun n t h => ?_
    obtain ⟨ids', -, ⟨-, -, rfl⟩ | ⟨stream, g, hget, -, -, rfl⟩⟩ := acknowledge_eq_ok h
    · exact .refl _ p
    · exact alike_putGroup hget _ (ne_of_not_groupsOf hp)
  · intro s t h
    unfold acknowledge
    cases EntryId.readAll ids with
    | error refusal => exact ⟨rfl, h⟩
    | ok ids' =>
        obtain ⟨hs, ht⟩ | ⟨a, b, hs, ht, -, -, hgroup⟩ :=
          group_of_alike (List.mem_singleton_self key) h
        · simp only [hs, ht]
          exact ⟨rfl, h⟩
        · simp only [hs, ht, hgroup]
          cases b.groups.get? group with
          | none => exact ⟨rfl, h⟩
          | some g => exact ⟨rfl, fun p hp => (h p hp).putGroup hs ht _⟩

theorem footprint_createGroup (key : Bytes) (token : String) (group : Bytes) :
    Footprint (Place.AroundGroups [key] group) (Place.GroupsOf [key] group) fun s =>
      s.createGroup key token group := by
  refine footprint_of_agree (fun _ => .inr) ?_ ?_
  · intro s p hp
    refine (s.createGroup_intact key group token).alike fun _ t h => ?_
    obtain ⟨stream, start, hget, -, -, rfl⟩ := createGroup_eq_ok h
    exact alike_putGroup hget _ (ne_of_not_groupsOf hp)
  · intro s t h
    unfold createGroup
    obtain ⟨hs, ht⟩ | ⟨a, b, hs, ht, -, hlast, hgroup⟩ :=
      group_of_alike (List.mem_singleton_self key) h
    · simp only [hs, ht]
      exact ⟨rfl, h⟩
    · have hstart : groupStart a token = groupStart b token := by
        unfold groupStart
        rw [hlast]
      have hcontains : a.groups.contains group = b.groups.contains group :=
        congrArg Option.isSome hgroup
      simp only [hs, ht, hcontains, hstart]
      by_cases hknown : b.groups.contains group
      · rw [if_pos hknown, if_pos hknown]
        exact ⟨rfl, h⟩
      · rw [if_neg hknown, if_neg hknown]
        cases groupStart b token with
        | error refusal => exact ⟨rfl, h⟩
        | ok start => exact ⟨rfl, fun p hp => (h p hp).putGroup hs ht _⟩

theorem footprint_deleteConsumer (key group consumer : Bytes) :
    Footprint (Place.AroundGroups [key] group) (Place.GroupsOf [key] group) fun s =>
      s.deleteConsumer key group consumer := by
  refine footprint_of_agree (fun _ => .inr) ?_ ?_
  · intro s p hp
    refine (s.deleteConsumer_intact key group consumer).alike fun b t h => ?_
    obtain ⟨stream, g, hget, -, -, rfl⟩ := deleteConsumer_eq_ok h
    split
    · exact alike_putGroup hget _ (ne_of_not_groupsOf hp)
    · exact .refl s p
  · intro s t h
    unfold deleteConsumer
    obtain ⟨hs, ht⟩ | ⟨a, b, hs, ht, -, -, hgroup⟩ :=
      group_of_alike (List.mem_singleton_self key) h
    · simp only [hs, ht]
      exact ⟨rfl, h⟩
    · simp only [hs, ht, hgroup]
      cases b.groups.get? group with
      | none => exact ⟨rfl, h⟩
      | some g =>
          simp only
          split
          · exact ⟨rfl, fun p hp => (h p hp).putGroup hs ht _⟩
          · exact ⟨rfl, h⟩

theorem footprint_destroyGroup (key group : Bytes) :
    Footprint (Place.AroundGroups [key] group) (Place.GroupsOf [key] group) fun s =>
      s.destroyGroup key group := by
  have herase : ∀ (groups : SortedMap Bytes Group) n, group ≠ n →
      (groups.erase group).get? n = groups.get? n := fun groups _ hne =>
    groups.get?_erase_of_ne hne
  refine footprint_of_agree (fun _ => .inr) ?_ ?_
  · intro s p hp
    refine (s.destroyGroup_intact key group).alike fun b t h => ?_
    obtain ⟨stream, hget, -, rfl⟩ := destroyGroup_eq_ok h
    exact alike_insert_group hget (herase stream.groups) (ne_of_not_groupsOf hp)
  · intro s t h
    unfold destroyGroup
    obtain ⟨hs, ht⟩ | ⟨a, b, hs, ht, -, -, hgroup⟩ :=
      group_of_alike (List.mem_singleton_self key) h
    · simp only [hs, ht]
      exact ⟨rfl, h⟩
    · have hcontains : a.groups.contains group = b.groups.contains group :=
        congrArg Option.isSome hgroup
      simp only [hs, ht, hcontains]
      refine ⟨rfl, fun p hp => ?_⟩
      exact (h p hp).insert_group hs ht (herase a.groups) (herase b.groups)
        ((a.groups.get?_erase_self group).trans (b.groups.get?_erase_self group).symm)

theorem footprint_pendingCount (key group : Bytes) :
    Footprint (Place.AroundGroups [key] group) (fun _ => False) fun s =>
      (s.pendingCount key group, s) := by
  refine footprint_look fun s t h => ?_
  unfold pendingCount
  rw [alike_group.mp (h (.group key group) (.inr ⟨key, List.mem_singleton_self key, rfl⟩))]

end Groups

/-! ## Reads -/

/-- A read that does not wait. -/
def readAtOnce (s : Store) (offsets : List (Bytes × String)) (count : Option UInt64) (noAck : Bool)
    (consumer? : Option Consumer) : Except Refusal (List Message) × Store :=
  match s.resolve consumer?.isSome offsets with
  | .error refusal => (.error refusal, s)
  | .ok cursors => s.attempt consumer? count noAck cursors

section Reads

variable {s t : Store} {consumer : Consumer} {count : Option UInt64} {noAck : Bool}

/-- Resolving cursors looks at nothing but last identifiers. -/
theorem resolve_of_alike {inGroup : Bool} {offsets : List (Bytes × String)}
    (h : ∀ offset ∈ offsets, s.Alike t (.entries offset.1)) :
    s.resolve inGroup offsets = t.resolve inGroup offsets := by
  induction offsets with
  | nil => rfl
  | cons offset rest ih =>
      obtain ⟨key, token⟩ := offset
      obtain ⟨hfirst, hrest⟩ := List.forall_mem_cons.mp h
      rw [resolve, resolve, ih hrest, resolveCursor, resolveCursor, lastId_of_alike hfirst]

theorem readFrom_of_alike {key : Bytes} (cursor : Cursor) (h : s.Alike t (.entries key)) :
    s.readFrom count key cursor = t.readFrom count key cursor := by
  cases cursor with
  | undelivered => rfl
  | after id =>
      unfold readFrom
      obtain ⟨hs, ht⟩ | ⟨a, b, hs, ht, hentries, -⟩ := get?_of_alike h
      · rw [hs, ht]
      · simp only [hs, ht, hentries]

theorem readPlain_of_alike {cursors : List (Bytes × Cursor)}
    (h : ∀ cursor ∈ cursors, s.Alike t (.entries cursor.1)) :
    s.readPlain count cursors = t.readPlain count cursors := by
  unfold readPlain
  induction cursors with
  | nil => rfl
  | cons cursor rest ih =>
      obtain ⟨hfirst, hrest⟩ := List.forall_mem_cons.mp h
      rw [List.flatMap_cons, List.flatMap_cons, readFrom_of_alike cursor.2 hfirst, ih hrest]

/-- A plain read looks at the entries under its keys and changes nothing. -/
theorem footprint_readPlain (offsets : List (Bytes × String)) (count : Option UInt64)
    (noAck : Bool) :
    Footprint (Place.EntriesOf (offsets.map (·.1))) (fun _ => False) fun s =>
      s.readAtOnce offsets count noAck none := by
  have hlook : ∀ s : Store, s.readAtOnce offsets count noAck none =
      ((s.resolve false offsets).map (s.readPlain count), s) := by
    intro s
    unfold readAtOnce attempt
    rw [Option.isSome_none]
    cases s.resolve false offsets <;> rfl
  simp only [hlook]
  refine footprint_look fun s t h => ?_
  have hkeys : ∀ offset ∈ offsets, s.Alike t (.entries offset.1) := fun offset hoffset =>
    h _ ⟨offset.1, List.mem_map_of_mem hoffset, rfl⟩
  rw [resolve_of_alike hkeys]
  cases hcursors : t.resolve false offsets with
  | error refusal => rfl
  | ok cursors =>
      refine congrArg Except.ok (readPlain_of_alike fun cursor hcursor => ?_)
      have hkey : cursor.1 ∈ offsets.map (·.1) := by
        rw [← keys_of_resolve hcursors]
        exact List.mem_map_of_mem hcursor
      exact h _ ⟨cursor.1, hkey, rfl⟩

/-- Serving cursors changes nothing but the groups that are served. -/
theorem serveAll_frame {keys : List Bytes} {cursors : List (Bytes × Cursor)} {p : Place}
    (hkeys : ∀ cursor ∈ cursors, cursor.1 ∈ keys) (hp : ¬ Place.GroupsOf keys consumer.group p)
    (s : Store) : (serveAll consumer count noAck cursors s).2.Alike s p := by
  induction cursors generalizing s with
  | nil => exact .refl s p
  | cons cursor rest ih =>
      obtain ⟨key, cursor⟩ := cursor
      obtain ⟨hkey, hrest⟩ := List.forall_mem_cons.mp hkeys
      have hne : p ≠ .group key consumer.group := fun heq => hp ⟨key, hkey, heq⟩
      unfold serveAll
      cases hget : s.get? key with
      | none => exact .refl s p
      | some stream =>
          simp only
          cases stream.groups.get? consumer.group with
          | none => exact .refl s p
          | some g => exact (ih hrest _).trans (alike_putGroup hget _ hne)

/-- Serving cursors looks at nothing but the entries and the groups under their keys. -/
theorem serveAll_of_alike (count : Option UInt64) (noAck : Bool) {keys : List Bytes}
    {cursors : List (Bytes × Cursor)} (hkeys : ∀ cursor ∈ cursors, cursor.1 ∈ keys)
    (h : ∀ p, Place.AroundGroups keys consumer.group p → s.Alike t p) :
    Agree (Place.AroundGroups keys consumer.group) (serveAll consumer count noAck cursors s)
      (serveAll consumer count noAck cursors t) := by
  induction cursors generalizing s t with
  | nil => exact ⟨rfl, h⟩
  | cons cursor rest ih =>
      obtain ⟨key, cursor⟩ := cursor
      obtain ⟨hkey, hrest⟩ := List.forall_mem_cons.mp hkeys
      unfold serveAll
      obtain ⟨hs, ht⟩ | ⟨a, b, hs, ht, hentries, -, hgroup⟩ := group_of_alike hkey h
      · simp only [hs, ht]
        exact ⟨rfl, h⟩
      · simp only [hs, ht, hgroup]
        cases b.groups.get? consumer.group with
        | none => exact ⟨rfl, h⟩
        | some g =>
            have hserve : serve a g consumer.name count noAck cursor =
                serve b g consumer.name count noAck cursor := by
              unfold serve
              rw [hentries]
            simp only [hserve]
            obtain ⟨hservings, hstores⟩ := ih hrest fun p hp => (h p hp).putGroup hs ht
              (serve b g consumer.name count noAck cursor).2
            exact ⟨congrArg (_ :: ·) hservings, hstores⟩

/-- A group read looks at the entries and the groups of one name under its keys, and changes those
groups only, even if it is refused at one of the keys. -/
theorem footprint_readGroup (offsets : List (Bytes × String)) (count : Option UInt64)
    (noAck : Bool) (consumer : Consumer) :
    Footprint (Place.AroundGroups (offsets.map (·.1)) consumer.group)
      (Place.GroupsOf (offsets.map (·.1)) consumer.group) fun s =>
        s.readAtOnce offsets count noAck (some consumer) := by
  have hnamed : ∀ {s : Store} {cursors : List (Bytes × Cursor)},
      s.resolve true offsets = .ok cursors →
        ∀ cursor ∈ cursors, cursor.1 ∈ offsets.map (·.1) := by
    intro s cursors hcursors cursor hcursor
    rw [← keys_of_resolve hcursors]
    exact List.mem_map_of_mem hcursor
  refine footprint_of_agree (fun _ => .inr) ?_ ?_
  · intro s p hp
    unfold readAtOnce
    rw [Option.isSome_some]
    cases hcursors : s.resolve true offsets with
    | error refusal => exact .refl s p
    | ok cursors =>
        simp only [attempt_group_store]
        exact serveAll_frame (hnamed hcursors) hp s
  · intro s t h
    have hkeys : ∀ offset ∈ offsets, s.Alike t (.entries offset.1) := fun offset hoffset =>
      h _ (.inl ⟨offset.1, List.mem_map_of_mem hoffset, rfl⟩)
    unfold readAtOnce attempt
    rw [Option.isSome_some, resolve_of_alike hkeys]
    cases hcursors : t.resolve true offsets with
    | error refusal => exact ⟨rfl, h⟩
    | ok cursors =>
        obtain ⟨hservings, hstores⟩ := serveAll_of_alike count noAck (hnamed hcursors) h
        simp only [readGroup, hservings]
        split
        · exact ⟨rfl, hstores⟩
        · exact ⟨rfl, hstores⟩

end Reads

end Store

end StreamBroker
