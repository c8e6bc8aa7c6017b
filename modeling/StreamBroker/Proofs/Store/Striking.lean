import StreamBroker.Call
import StreamBroker.Proofs.Store.Footprint
set_option autoImplicit false

/-!
# Striking identifiers out

A deletion goes through a list of identifiers, strikes out each that it still finds among the entries
of a stream, and tells how often that was; an acknowledgement does the same to what is pending in a
group.  What is left and what is told depends on the identifiers of the list as a set
(`SortedMap.Struck`), so neither their order nor their repetitions nor their spellings matter, and two
lists one after the other are as good as both together (`struck_out_as_a_set`).

That nothing else changes is said once for all that takes identifiers from one place of a store
(`Store.Thinned`): a relation between what the place held and what it holds determines the whole
store, and such changes add up as their relations do.
-/

namespace StreamBroker

/-! ## Keys struck out of a map -/

namespace SortedMap

variable {κ ν : Type} [Ord κ]

/-- The bindings of some keys are struck out of a map; `told` different keys were bound and among
them. -/
structure Struck (ks : List κ) (held left : SortedMap κ ν) (told : Nat) : Prop where
  left : ∀ k v, left.get? k = some v ↔ held.get? k = some v ∧ k ∉ ks
  told : ∃ named : List κ, named.Nodup ∧ (∀ k, k ∈ named ↔ k ∈ ks ∧ held.contains k) ∧
    told = named.length

namespace Struck

variable {ks ks' : List κ} {held middle left left' : SortedMap κ ν} {told told' : Nat}

theorem contains_left (h : Struck ks held left told) (k : κ) :
    left.contains k ↔ held.contains k ∧ k ∉ ks := by
  simp only [contains_iff, h.left, exists_and_right]

/-- Only which keys are named matters. -/
theorem congr (h : Struck ks held left told) (hsame : ∀ k, k ∈ ks' ↔ k ∈ ks) :
    Struck ks' held left told := by
  obtain ⟨hleft, named, hnodup, hnamed, htold⟩ := h
  refine ⟨fun k v => ?_, named, hnodup, fun k => ?_, htold⟩
  · rw [hleft, hsame]
  · rw [hnamed, hsame]

/-- The keys of the second list that are struck out are others than those of the first. -/
theorem trans (h : Struck ks held middle told) (h' : Struck ks' middle left told') :
    Struck (ks ++ ks') held left (told + told') := by
  obtain ⟨named, hnodup, hnamed, htold⟩ := h.told
  obtain ⟨named', hnodup', hnamed', htold'⟩ := h'.told
  refine ⟨fun k v => ?_, named ++ named', ?_, fun k => ?_, ?_⟩
  · rw [h'.left, h.left, List.mem_append, not_or, and_assoc]
  · -- A key of both lists is gone before the second one is gone through.
    refine List.nodup_append.2 ⟨hnodup, hnodup', ?_⟩
    rintro k hk k' hk' rfl
    have hgone := (h.contains_left k).1 ((hnamed' k).1 hk').2
    exact hgone.2 ((hnamed k).1 hk).1
  · rw [List.mem_append, List.mem_append, hnamed, hnamed', h.contains_left]
    by_cases hk : k ∈ ks
    · simp [hk]
    · simp [hk]
  · rw [List.length_append, htold, htold']

/-- What is struck out is not there to be struck out again. -/
theorem again (h : Struck ks held left told) : Struck ks left left 0 := by
  refine ⟨fun k v => ?_, [], .nil, fun k => ?_, rfl⟩
  · rw [h.left]
    exact ⟨fun hv => ⟨hv, hv.2⟩, And.left⟩
  · rw [h.contains_left]
    exact ⟨nofun, fun hk => absurd hk.1 hk.2.2⟩

variable [Std.TransOrd κ] [Std.LawfulEqOrd κ]

theorem unique (h : Struck ks held left told) (h' : Struck ks held left' told') :
    left = left' ∧ told = told' := by
  obtain ⟨named, hnodup, hnamed, rfl⟩ := h.told
  obtain ⟨named', hnodup', hnamed', rfl⟩ := h'.told
  have hperm : named.Perm named' :=
    (List.perm_ext_iff_of_nodup hnodup hnodup').2 fun k => (hnamed k).trans (hnamed' k).symm
  refine ⟨ext_get? fun k => Option.ext fun v => ?_, hperm.length_eq⟩
  rw [h.left, h'.left]

end Struck

variable [Std.TransOrd κ] [Std.LawfulEqOrd κ]

/-- Unbinding keys in turn counts each of them once: the map that the later ones are looked up in
has lost the earlier ones. -/
theorem named_eraseAll (ks : List κ) (m : SortedMap κ ν) :
    ∃ named : List κ, named.Nodup ∧ (∀ k, k ∈ named ↔ k ∈ ks ∧ m.contains k) ∧
      (m.eraseAll ks).1 = named.length := by
  -- By induction on the keys for every map, since the rest is looked up in a smaller one.
  induction ks generalizing m with
  | nil => exact ⟨[], .nil, by simp, rfl⟩
  | cons k rest ih =>
      unfold eraseAll
      split
      case isTrue hk =>
        obtain ⟨named, hnodup, hnamed, htold⟩ := ih (m.erase k)
        simp only [contains_erase] at hnamed
        refine ⟨k :: named, List.nodup_cons.2 ⟨?_, hnodup⟩, fun k' => ?_, congrArg (· + 1) htold⟩
        · exact fun hmem => ((hnamed k).1 hmem).2.2 rfl
        · rw [List.mem_cons, List.mem_cons, hnamed]
          by_cases heq : k' = k
          · subst heq
            simp [hk]
          · simp [heq]
      case isFalse hk =>
        obtain ⟨named, hnodup, hnamed, htold⟩ := ih m
        refine ⟨named, hnodup, fun k' => ?_, htold⟩
        rw [hnamed, List.mem_cons]
        refine ⟨fun h => ⟨.inr h.1, h.2⟩, fun h => ⟨h.1.resolve_left ?_, h.2⟩⟩
        rintro rfl
        exact hk h.2

/-- Keys are unbound in turn, the first one first; `told` times there was one to unbind. -/
def Erased (ks : List κ) (held left : SortedMap κ ν) (told : Nat) : Prop :=
  held.eraseAll ks = (told, left)

/-- Unbinding keys in turn strikes them out. -/
theorem Erased.struck {ks : List κ} {held left : SortedMap κ ν} {told : Nat}
    (h : Erased ks held left told) : Struck ks held left told := by
  have hleft : (held.eraseAll ks).2 = left := congrArg Prod.snd h
  have htold : (held.eraseAll ks).1 = told := congrArg Prod.fst h
  rw [← hleft, ← htold]
  exact ⟨fun _ _ => get?_eraseAll, named_eraseAll ks held⟩

end SortedMap

/-! ## Identifiers that go from a place -/

namespace Place

/-- What identifiers are bound to at a place: entries to their bodies, pending ones to who holds
them. -/
abbrev Bound : Place → Type
  | entries _ => Body
  | group .. => Bytes

/-- What else there is at a place: the last identifier of a stream, or how far a group has come and
whom it knows. -/
abbrev Beside : Place → Type
  | entries _ => EntryId
  | group .. => EntryId × SortedMap Bytes Unit

/-- The identifiers at a place, with what is beside them. -/
def at? : (p : Place) → Store → Option (SortedMap EntryId p.Bound × p.Beside)
  | entries key, s => s.contents? key
  | group key name, s => (s.group? key name).map fun g => (g.pending, g.lastDelivered, g.consumers)

theorem at?_entries (key : Bytes) (s : Store) : (entries key).at? s = s.contents? key := rfl

theorem at?_group (key name : Bytes) (s : Store) :
    (group key name).at? s =
      (s.group? key name).map fun g => (g.pending, g.lastDelivered, g.consumers) := rfl

theorem alike_iff_at? {p : Place} {s t : Store} : s.Alike t p ↔ p.at? s = p.at? t := by
  cases p with
  | entries key => exact .rfl
  | group key name =>
      rw [Store.alike_group, at?_group, at?_group]
      refine (Option.map_inj_right ?_).symm
      rintro ⟨lastDelivered, pending, consumers⟩ ⟨lastDelivered', pending', consumers'⟩ heq
      cases heq
      rfl

end Place

namespace Store

section Thinned

variable {p : Place} {R R' R'' : SortedMap EntryId p.Bound → SortedMap EntryId p.Bound → Nat → Prop}
  {s t u : Store} {n n' : Nat}

/-- Identifiers go from one place as a relation says, `n` of them, and all else stays: what is beside
them, and what is at other places.  Where there is no such place nothing happens. -/
structure Thinned (p : Place)
    (R : SortedMap EntryId p.Bound → SortedMap EntryId p.Bound → Nat → Prop) (s t : Store) (n : Nat) :
    Prop where
  missing : p.at? s = none → t = s ∧ n = 0
  present : ∀ held beside, p.at? s = some (held, beside) →
    ∃ left, p.at? t = some (left, beside) ∧ R held left n
  elsewhere : ∀ q, q ≠ p → t.Alike s q

namespace Thinned

theorem nothing (h : p.at? s = none) : Thinned p R s s 0 :=
  ⟨fun _ => ⟨rfl, rfl⟩, fun held beside hsome => by simp [h] at hsome, fun q _ => .refl s q⟩

theorem of_present {held left : SortedMap EntryId p.Bound} {beside : p.Beside}
    (hs : p.at? s = some (held, beside)) (ht : p.at? t = some (left, beside)) (hR : R held left n)
    (helse : ∀ q, q ≠ p → t.Alike s q) : Thinned p R s t n := by
  refine ⟨fun hnone => ?_, fun held' beside' hsome => ?_, helse⟩
  · rw [hs] at hnone
    cases hnone
  · rw [hs] at hsome
    cases hsome
    exact ⟨left, ht, hR⟩

theorem mono (h : Thinned p R s t n) (hR : ∀ a b, R a b n → R' a b n) : Thinned p R' s t n := by
  refine ⟨h.missing, fun held beside hs => ?_, h.elsewhere⟩
  obtain ⟨left, ht, hleft⟩ := h.present held beside hs
  exact ⟨left, ht, hR held left hleft⟩

/-- One change after the other is one, if that is so at the place. -/
theorem trans (h : Thinned p R s t n) (h' : Thinned p R' t u n')
    (hR : ∀ a b c, R a b n → R' b c n' → R'' a c (n + n')) : Thinned p R'' s u (n + n') := by
  refine ⟨fun hs => ?_, fun held beside hs => ?_, fun q hq => ?_⟩
  · obtain ⟨rfl, rfl⟩ := h.missing hs
    obtain ⟨rfl, rfl⟩ := h'.missing hs
    exact ⟨rfl, rfl⟩
  · obtain ⟨middle, ht, hfirst⟩ := h.present held beside hs
    obtain ⟨left, hu, hsecond⟩ := h'.present middle beside ht
    exact ⟨left, hu, hR held middle left hfirst hsecond⟩
  · exact (h'.elsewhere q hq).trans (h.elsewhere q hq)

/-- A place that has changed stays as it is where that would be a change of its own. -/
theorem again (h : Thinned p R s t n) (hR : ∀ a b, R a b n → R' b b 0) : Thinned p R' t t 0 := by
  cases hs : p.at? s with
  | none =>
      obtain ⟨rfl, -⟩ := h.missing hs
      exact .nothing hs
  | some found =>
      obtain ⟨held, beside⟩ := found
      obtain ⟨left, ht, hleft⟩ := h.present held beside hs
      exact .of_present ht ht (hR held left hleft) fun q _ => .refl t q

/-- What goes from the place decides the whole store. -/
theorem unique (h : Thinned p R s t n) (h' : Thinned p R s u n')
    (hR : ∀ a b b', R a b n → R a b' n' → b = b' ∧ n = n') : t = u ∧ n = n' := by
  cases hs : p.at? s with
  | none =>
      obtain ⟨rfl, rfl⟩ := h.missing hs
      obtain ⟨rfl, rfl⟩ := h'.missing hs
      exact ⟨rfl, rfl⟩
  | some found =>
      obtain ⟨held, beside⟩ := found
      obtain ⟨left, ht, hleft⟩ := h.present held beside hs
      obtain ⟨left', hu, hleft'⟩ := h'.present held beside hs
      obtain ⟨rfl, rfl⟩ := hR held left left' hleft hleft'
      -- Stores are the same if they are at every place, and this is the only one that matters.
      refine ⟨eq_of_alike fun q => ?_, rfl⟩
      by_cases hq : q = p
      · subst hq
        exact Place.alike_iff_at?.2 (ht.trans hu.symm)
      · exact (h.elsewhere q hq).trans (h'.elsewhere q hq).symm

end Thinned

theorem contents?_of_get? {key : Bytes} {stream : Stream} (hget : s.get? key = some stream) :
    s.contents? key = some (stream.entries, stream.lastId) := by
  rw [contents?, hget]
  rfl

/-- A key without a stream has no entries to lose. -/
theorem thinned_entries_of_missing {key : Bytes}
    {R : SortedMap EntryId Body → SortedMap EntryId Body → Nat → Prop} (hget : s.get? key = none) :
    Thinned (.entries key) R s s 0 := by
  refine .nothing ?_
  rw [Place.at?_entries, contents?, hget]
  rfl

/-- The entries of a stream are replaced. -/
theorem thinned_insert_entries {key : Bytes}
    {R : SortedMap EntryId Body → SortedMap EntryId Body → Nat → Prop} {stream : Stream}
    {entries : SortedMap EntryId Body} (hget : s.get? key = some stream)
    (hR : R stream.entries entries n) :
    Thinned (.entries key) R s (s.insert key { stream with entries }) n := by
  refine .of_present (contents?_of_get? hget) (contents?_insert_self ..) hR fun q hq => ?_
  exact alike_setEntries hget _ hq

/-- What is pending in a group is replaced. -/
theorem thinned_putGroup {key name : Bytes}
    {R : SortedMap EntryId Bytes → SortedMap EntryId Bytes → Nat → Prop} {stream : Stream} {g : Group}
    {pending : SortedMap EntryId Bytes} (hget : s.get? key = some stream)
    (hg : stream.groups.get? name = some g) (hR : R g.pending pending n) :
    Thinned (.group key name) R s (s.putGroup key stream name { g with pending }) n := by
  have hs : (Place.group key name).at? s = some (g.pending, g.lastDelivered, g.consumers) := by
    rw [Place.at?_group, group?_of_get? hget, hg]
    rfl
  refine .of_present hs ?_ hR fun q hq => alike_putGroup hget _ hq
  rw [Place.at?_group, group?_putGroup_self]
  rfl

end Thinned

end Store

/-! ## Lists of identifiers -/

namespace EntryId

/-- Texts that all spell an identifier. -/
def AllRead (texts : List String) : Prop := ∀ text ∈ texts, (ofText? 0 text).isSome

instance (texts : List String) : Decidable (AllRead texts) :=
  inferInstanceAs (Decidable (∀ text ∈ texts, _))

/-- The identifiers that texts spell. -/
def named (texts : List String) : List EntryId := texts.filterMap (ofText? 0)

theorem AllRead.append {texts texts' : List String} (h : AllRead texts) (h' : AllRead texts') :
    AllRead (texts ++ texts') := by
  intro text hmem
  rcases List.mem_append.1 hmem with hmem | hmem
  · exact h text hmem
  · exact h' text hmem

theorem named_append (texts texts' : List String) :
    named (texts ++ texts') = named texts ++ named texts' :=
  List.filterMap_append

/-- A list of texts that all read is read as what they spell. -/
theorem AllRead.readAll {texts : List String} (h : AllRead texts) :
    readAll texts = .ok (named texts) := by
  induction texts with
  | nil => rfl
  | cons text rest ih =>
      obtain ⟨hfirst, hrest⟩ := List.forall_mem_cons.1 h
      obtain ⟨id, hid⟩ := Option.isSome_iff_exists.1 hfirst
      unfold EntryId.readAll named
      rw [List.filterMap_cons_some hid, hid, ih hrest]
      rfl

end EntryId

/-! ## The calls -/

open SortedMap (Erased Struck)

/-- The call that strikes identifiers out at a place. -/
def Place.strike : Place → List String → Call .count
  | entries key, texts => .delete key texts
  | group key name, texts => .acknowledge key name texts

section Calls

variable {s : Store} {texts : List String} {ids : List EntryId}

theorem Store.delete_thinned (key : Bytes) (h : EntryId.readAll texts = .ok ids) :
    ∃ told t, s.delete key texts = (.ok told, t) ∧
      s.Thinned (.entries key) (Erased ids) t told := by
  unfold delete
  rw [h]
  cases hget : s.get? key with
  | none => exact ⟨0, s, rfl, thinned_entries_of_missing hget⟩
  | some stream => exact ⟨_, _, rfl, thinned_insert_entries hget rfl⟩

theorem Store.acknowledge_thinned (key name : Bytes) (h : EntryId.readAll texts = .ok ids) :
    ∃ told t, s.acknowledge key name texts = (.ok told, t) ∧
      s.Thinned (.group key name) (Erased ids) t told := by
  have hnothing : s.group? key name = none →
      s.Thinned (.group key name) (Erased ids) s 0 := by
    intro hnone
    refine .nothing ?_
    rw [Place.at?_group, hnone]
    rfl
  unfold acknowledge
  rw [h]
  cases hget : s.get? key with
  | none =>
      refine ⟨0, s, rfl, hnothing ?_⟩
      rw [group?, hget]
      rfl
  | some stream =>
      cases hg : stream.groups.get? name with
      | none =>
          refine ⟨0, s, ?_, hnothing ((group?_of_get? hget name).trans hg)⟩
          simp only [hg]
      | some g =>
          refine ⟨_, _, ?_, thinned_putGroup hget hg rfl⟩
          simp only [hg]

/-- A call goes through the identifiers that its texts are read as. -/
theorem Engine.perform_in_turn (e : Engine) (p : Place) (h : EntryId.readAll texts = .ok ids) :
    ∃ told t, e.store.Thinned p (Erased ids) t told ∧
      ∀ clock, e.perform clock (p.strike texts) = (.ok told, { e with store := t }) := by
  cases p with
  | entries key =>
      obtain ⟨told, t, hdelete, hthinned⟩ := e.store.delete_thinned key h
      refine ⟨told, t, hthinned, fun clock => ?_⟩
      simp only [Place.strike, perform, delete, hdelete]
      rfl
  | group key name =>
      obtain ⟨told, t, hacknowledge, hthinned⟩ := e.store.acknowledge_thinned key name h
      refine ⟨told, t, hthinned, fun clock => ?_⟩
      simp only [Place.strike, perform, acknowledge, hacknowledge]
      rfl

/-- A call with identifiers that all read strikes them out. -/
theorem Engine.perform_strike (e : Engine) (p : Place)
    (h : EntryId.AllRead texts) :
    ∃ told t, e.store.Thinned p (Struck (EntryId.named texts)) t told ∧
      ∀ clock, e.perform clock (p.strike texts) = (.ok told, { e with store := t }) := by
  obtain ⟨told, t, hthinned, hperform⟩ := e.perform_in_turn p h.readAll
  exact ⟨told, t, hthinned.mono fun _ _ => Erased.struck, hperform⟩

/-- Whatever the engine and wherever the identifiers are struck out, among the entries of a stream or
in what is pending in a group: a call with identifiers that all read takes out those that are there
and tells how many different ones they are, and it changes nothing else.  So a call with the same
identifiers in another order, named more or less often or spelled otherwise does and tells the same,
the same call again tells zero and changes nothing, and a call with further identifiers behind it
leaves what one call with all of them leaves, which tells the sum. -/
theorem struck_out_as_a_set (e : Engine) (clock : Option UInt64) (p : Place) {texts : List String}
    (h : EntryId.AllRead texts) :
    ∃ told t, e.perform clock (p.strike texts) = (.ok told, { e with store := t }) ∧
      e.store.Thinned p (Struck (EntryId.named texts)) t told ∧
      (∀ clock' texts', EntryId.AllRead texts' →
        (∀ id, id ∈ EntryId.named texts' ↔ id ∈ EntryId.named texts) →
        e.perform clock' (p.strike texts') = (.ok told, { e with store := t })) ∧
      (∀ clock', Engine.perform { e with store := t } clock' (p.strike texts) =
        (.ok 0, { e with store := t })) ∧
      ∀ clock' clock'' texts', EntryId.AllRead texts' → ∃ told' u,
        Engine.perform { e with store := t } clock' (p.strike texts') =
          (.ok told', { e with store := u }) ∧
        e.perform clock'' (p.strike (texts ++ texts')) =
          (.ok (told + told'), { e with store := u }) := by
  obtain ⟨told, t, hthinned, hperform⟩ := e.perform_strike p h
  refine ⟨told, t, hperform clock, hthinned, ?_, ?_, ?_⟩
  · intro clock' texts' h' hsame
    obtain ⟨told', t', hthinned', hperform'⟩ := e.perform_strike p h'
    have hset : e.store.Thinned p (Struck (EntryId.named texts)) t' told' :=
      hthinned'.mono fun _ _ hstruck => hstruck.congr fun id => (hsame id).symm
    obtain ⟨rfl, rfl⟩ := hthinned.unique hset fun _ _ _ => Struck.unique
    exact hperform' clock'
  · intro clock'
    obtain ⟨told', t', hthinned', hperform'⟩ := Engine.perform_strike { e with store := t } p h
    have hstill : t.Thinned p (Struck (EntryId.named texts)) t 0 :=
      hthinned.again fun _ _ => Struck.again
    obtain ⟨rfl, rfl⟩ := hstill.unique hthinned' fun _ _ _ => Struck.unique
    exact hperform' clock'
  · intro clock' clock'' texts' h'
    obtain ⟨told', u, hthinned', hperform'⟩ := Engine.perform_strike { e with store := t } p h'
    obtain ⟨sum, u', hthinned'', hperform''⟩ := e.perform_strike p (h.append h')
    have hboth : e.store.Thinned p (Struck (EntryId.named (texts ++ texts'))) u (told + told') := by
      rw [EntryId.named_append]
      exact hthinned.trans hthinned' fun _ _ _ => Struck.trans
    obtain ⟨rfl, rfl⟩ := hboth.unique hthinned'' fun _ _ _ => Struck.unique
    exact ⟨told', u, hperform' clock', hperform'' clock''⟩

/-- An engine where a consumer has been given two of three entries. -/
def twoPending : Engine :=
  let add (e : Engine) (id : String) : Engine :=
    (e.perform (some 0) (.add [115] (some id) (.ofList [([102], [118])]))).2
  let filled := ["5-0", "6-0", "7-1"].foldl add ∅
  let grouped := (filled.perform none (.createGroup [115] "0" [103])).2
  (grouped.beginRead 0 ⟨[([115], ">")], none, some 2, false, some ⟨[103], [99]⟩⟩).2

/-- One identifier is named twice and another is not pending; the third follows. -/
theorem struck_out_as_a_set_spelledThreeWays :
    EntryId.AllRead ["5", "7-1", "5-0"] ∧ EntryId.AllRead ["7-1", "+5-00"] ∧
      EntryId.AllRead ["6"] ∧ ∃ t u,
        twoPending.perform none ((Place.group [115] [103]).strike ["5", "7-1", "5-0"]) =
          (.ok 1, { twoPending with store := t }) ∧
        twoPending.perform none ((Place.group [115] [103]).strike ["7-1", "+5-00"]) =
          (.ok 1, { twoPending with store := t }) ∧
        Engine.perform { twoPending with store := t } none
            ((Place.group [115] [103]).strike ["5", "7-1", "5-0"]) =
          (.ok 0, { twoPending with store := t }) ∧
        twoPending.perform none ((Place.group [115] [103]).strike ["5", "7-1", "5-0", "6"]) =
          (.ok 2, { twoPending with store := u }) := by
  have hfirst : EntryId.AllRead ["5", "7-1", "5-0"] := by decide
  have hother : EntryId.AllRead ["7-1", "+5-00"] := by decide
  have hlater : EntryId.AllRead ["6"] := by decide
  have hothers : EntryId.named ["7-1", "+5-00"] = [⟨7, 1⟩, ⟨5, 0⟩] := rfl
  have hfirsts : EntryId.named ["5", "7-1", "5-0"] = [⟨5, 0⟩, ⟨7, 1⟩, ⟨5, 0⟩] := rfl
  obtain ⟨told, t, hperform, -, hequal, hagain, hfurther⟩ :=
    struck_out_as_a_set twoPending none (.group [115] [103]) hfirst
  obtain ⟨told', u, -, hboth⟩ := hfurther none none ["6"] hlater
  obtain rfl : 1 = told := Except.ok.inj (congrArg Prod.fst hperform)
  obtain rfl : 1 = told' := Nat.add_left_cancel (Except.ok.inj (congrArg Prod.fst hboth))
  refine ⟨hfirst, hother, hlater, t, u, hperform, hequal none _ hother ?_, hagain none, hboth⟩
  intro id
  simp only [hothers, hfirsts, List.mem_cons]
  grind

end Calls

end StreamBroker
