import StreamBroker.Proofs.Store.PlainRead
import StreamBroker.Proofs.World.Additions
set_option autoImplicit false

/-!
# Keeping up with a stream

One who reads a stream from its beginning, each time behind the last entry so far, has kept up with
it (`Store.Caught`): what was read is in increasing order, and every entry of the stream up to the
last one read is among it.  Reading on keeps that, and so does whatever happens to the stream, since
new entries come above the last identifier only.
-/

namespace StreamBroker

/-- The identifier of the last entry of a list, the least one if it is empty. -/
def lastOf (l : List (EntryId × Body)) : EntryId := (l.getLast?.map (·.1)).getD .least

theorem lastOf_of_getLast? {l : List (EntryId × Body)} {p : EntryId × Body}
    (h : l.getLast? = some p) : lastOf l = p.1 := by
  rw [lastOf, h]
  rfl

theorem lastOf_append {l l' : List (EntryId × Body)} {p : EntryId × Body}
    (h : l'.getLast? = some p) : lastOf (l ++ l') = p.1 := by
  refine lastOf_of_getLast? ?_
  rw [List.getLast?_append, h]
  rfl

/-- In a list in order nothing is above the last entry. -/
theorem le_lastOf {l : List (EntryId × Body)} (hsorted : l.Pairwise fun p q => p.1 < q.1)
    {p : EntryId × Body} (hp : p ∈ l) : p.1 ≤ lastOf l := by
  obtain ⟨last, hlast⟩ : ∃ last, l.getLast? = some last :=
    Option.ne_none_iff_exists'.1 fun hnone => by
      rw [List.getLast?_eq_none_iff.1 hnone] at hp
      cases hp
  rw [lastOf_of_getLast? hlast]
  exact le_getLast_of_pairwise hsorted hp hlast

namespace Store

/-- What was read of a stream is all of it up to the last entry read. -/
structure Caught (s : Store) (key : Bytes) (l : List (EntryId × Body)) : Prop where
  sorted : l.Pairwise fun p q => p.1 < q.1
  positive : ∀ p ∈ l, EntryId.least < p.1
  given : ∀ p ∈ l, p.1 ≤ s.lastId key
  gapless : ∀ p ∈ s.listed key, p.1 ≤ lastOf l → p ∈ l
  /-- No entry is above the last identifier that was given away. -/
  topped : ∀ p ∈ s.listed key, p.1 ≤ s.lastId key

variable {s : Store} {key : Bytes} {l l' : List (EntryId × Body)}

/-- At the beginning nothing was read of a store that has nothing. -/
theorem Caught.empty (key : Bytes) : Caught ∅ key [] :=
  ⟨.nil, nofun, nofun, nofun, nofun⟩

theorem Caught.lastOf_le (h : s.Caught key l) : lastOf l ≤ s.lastId key := by
  unfold lastOf
  cases hlast : l.getLast? with
  | none => exact EntryId.least_le _
  | some p => exact h.given p (List.mem_of_getLast? hlast)

/-- The first part of what was read is all up to its own last entry. -/
theorem Caught.front (h : s.Caught key (l ++ l')) : s.Caught key l := by
  obtain ⟨hsorted, -, hcross⟩ := List.pairwise_append.1 h.sorted
  refine ⟨hsorted, fun p hp => h.positive p (List.mem_append_left _ hp),
    fun p hp => h.given p (List.mem_append_left _ hp), fun p hp hle => ?_, h.topped⟩
  have hlt : ∀ q ∈ l', lastOf l < q.1 := by
    intro q hq
    unfold lastOf
    cases hlast : l.getLast? with
    | none => exact h.positive q (List.mem_append_right _ hq)
    | some last => exact hcross last (List.mem_of_getLast? hlast) q hq
  have hmem : p ∈ l ++ l' := by
    refine h.gapless p hp (EntryId.le_trans hle ?_)
    cases hlast : l'.getLast? with
    | none =>
        rw [List.getLast?_eq_none_iff.1 hlast, List.append_nil]
        exact EntryId.le_refl _
    | some last =>
        rw [lastOf_append hlast]
        exact EntryId.le_of_lt (hlt last (List.mem_of_getLast? hlast))
  refine (List.mem_append.1 hmem).resolve_right fun hlater => ?_
  exact EntryId.lt_irrefl _ (EntryId.lt_of_le_of_lt hle (hlt p hlater))

/-- Reading on behind the last entry leaves no gap, whatever the count. -/
theorem Caught.extend (h : s.Caught key l) (count : Option UInt64) :
    s.Caught key (l ++ takeCount count (s.behind key (lastOf l))) := by
  obtain ⟨back, hback⟩ := takeCount_isPrefix count (s.behind key (lastOf l))
  have hbehind := s.pairwise_behind key (lastOf l)
  generalize takeCount count (s.behind key (lastOf l)) = taken at *
  have htaken : ∀ p ∈ taken, p ∈ s.listed key ∧ lastOf l < p.1 := by
    intro p hp
    rw [← mem_behind, ← hback]
    exact List.mem_append_left _ hp
  have hsorted := (List.pairwise_append.1 (hback.symm ▸ hbehind)).1
  refine ⟨?_, ?_, ?_, ?_, h.topped⟩
  · refine List.pairwise_append.2 ⟨h.sorted, hsorted, fun p hp q hq => ?_⟩
    exact EntryId.lt_of_le_of_lt (le_lastOf h.sorted hp) (htaken q hq).2
  · intro p hp
    rcases List.mem_append.1 hp with hold | hnew
    · exact h.positive p hold
    · exact EntryId.lt_of_le_of_lt (EntryId.least_le _) (htaken p hnew).2
  · intro p hp
    rcases List.mem_append.1 hp with hold | hnew
    · exact h.given p hold
    · exact h.topped p (htaken p hnew).1
  · intro p hp hle
    by_cases hold : p.1 ≤ lastOf l
    · exact List.mem_append_left _ (h.gapless p hp hold)
    · have hmem : p ∈ s.behind key (lastOf l) := mem_behind.2 ⟨hp, EntryId.not_le.1 hold⟩
      cases hlast : taken.getLast? with
      | none =>
          rw [List.getLast?_eq_none_iff.1 hlast, List.append_nil] at hle
          exact absurd hle hold
      | some last =>
          rw [lastOf_append hlast] at hle
          rw [← hback] at hbehind hmem
          exact List.mem_append_right _ (mem_prefix_of_le_getLast hbehind hmem hlast hle)

/-- An entry that is behind the last one of a list makes the last entry of the stream one. -/
theorem getLast?_of_behind {id : EntryId} {p : EntryId × Body} (hp : p ∈ s.listed key)
    (hlt : id < p.1) :
    ∃ last, (s.listed key).getLast? = some last ∧ (s.behind key id).getLast? = some last := by
  obtain ⟨front, last, hsplit⟩ : ∃ front last, s.listed key = front ++ [last] := by
    rcases List.eq_nil_or_concat (s.listed key) with hnil | ⟨front, last, hconcat⟩
    · rw [hnil] at hp
      cases hp
    · exact ⟨front, last, hconcat.trans List.concat_eq_append⟩
  have hlast : (s.listed key).getLast? = some last := by rw [hsplit, List.getLast?_concat]
  have hbehind : id < last.1 :=
    EntryId.lt_of_lt_of_le hlt (le_getLast_of_pairwise (s.pairwise_listed key) hp hlast)
  refine ⟨last, hlast, ?_⟩
  have hkept : [last].filter (fun p => id < p.1) = [last] :=
    List.filter_cons_of_pos (decide_eq_true hbehind)
  rw [behind, hsplit, List.filter_append, hkept, List.getLast?_concat]

/-! ## What happens to a stream -/

variable {t : Store}

theorem lastId_of_within (h : Option.Rel Stream.Within (t.get? key) (s.get? key)) :
    t.lastId key = s.lastId key := by
  rw [lastId_eq, lastId_eq]
  generalize t.get? key = a at *
  generalize s.get? key = b at *
  cases h with
  | none => rfl
  | some hin => exact hin.lastId

theorem mem_listed_of_within (h : Option.Rel Stream.Within (t.get? key) (s.get? key))
    {p : EntryId × Body} (hp : p ∈ t.listed key) : p ∈ s.listed key := by
  obtain ⟨stream, hget, hentry⟩ := mem_listed.1 hp
  rw [hget] at h
  cases hold : s.get? key with
  | none =>
      rw [hold] at h
      cases h
  | some old =>
      rw [hold] at h
      cases h with
      | some hin => exact mem_listed.2 ⟨old, hold, hin.entries _ _ hentry⟩

theorem mem_listed_of_push {id : EntryId} {body : Body}
    (h : t.get? key = some (((s.get? key).getD .fresh).push id body)) {p : EntryId × Body}
    (hp : p ∈ t.listed key) : p = (id, body) ∨ p ∈ s.listed key := by
  obtain ⟨stream, hget, hentry⟩ := mem_listed.1 hp
  obtain rfl := Option.some.inj (h.symm.trans hget)
  rcases SortedMap.get?_of_get?_insert hentry with ⟨hid, hbody⟩ | hentry
  · exact .inl (Prod.ext hid.symm hbody.symm)
  · cases hold : s.get? key with
    | none =>
        rw [hold] at hentry
        cases hentry
    | some old =>
        rw [hold] at hentry
        exact .inr (mem_listed.2 ⟨old, hold, hentry⟩)

end Store

/-- Whatever happens to a stream, one who kept up with it still has. -/
theorem Turn.caught {t : Turn} {key : Bytes} {l : List (EntryId × Body)}
    (h : t.before.store.Caught key l) : t.after.store.Caught key l := by
  rcases t.added_or_within key with ⟨id, body, -, hlt, hafter⟩ | ⟨-, hwithin⟩
  · have hlast : t.after.store.lastId key = id := by
      rw [Store.lastId_eq, hafter]
      rfl
    refine ⟨h.sorted, h.positive, ?_, ?_, ?_⟩
    · intro p hp
      rw [hlast]
      exact EntryId.le_of_lt (EntryId.lt_of_le_of_lt (h.given p hp) hlt)
    · intro p hp hle
      rcases Store.mem_listed_of_push hafter hp with rfl | hold
      · -- what was added lies above the last identifier, so above all that was read
        have hbelow : id ≤ t.before.store.lastId key := EntryId.le_trans hle h.lastOf_le
        exact absurd (EntryId.lt_of_le_of_lt hbelow hlt) (EntryId.lt_irrefl _)
      · exact h.gapless p hold hle
    · intro p hp
      rw [hlast]
      rcases Store.mem_listed_of_push hafter hp with rfl | hold
      · exact EntryId.le_refl _
      · exact EntryId.le_of_lt (EntryId.lt_of_le_of_lt (h.topped p hold) hlt)
  · have hlast := Store.lastId_of_within hwithin
    refine ⟨h.sorted, h.positive, ?_, ?_, ?_⟩
    · rw [hlast]
      exact h.given
    · exact fun p hp => h.gapless p (Store.mem_listed_of_within hwithin hp)
    · rw [hlast]
      exact fun p hp => h.topped p (Store.mem_listed_of_within hwithin hp)

end StreamBroker
