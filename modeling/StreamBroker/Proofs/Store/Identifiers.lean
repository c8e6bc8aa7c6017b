import StreamBroker.Store.Identify
set_option autoImplicit false

/-!
# The identifier of a new entry

A request leaves some identifiers open: all of one millisecond, or just the one that it spells out
(`EntryId.Admissible`).  The identifier of a new entry is the least of them above the last one, and
the request is refused where there is none (`EntryId.next_is_least_admissible`).

Within a millisecond the least one above the last is its first if the millisecond is ahead, and the
successor if it is that of the last; a millisecond that has passed, or whose sequence numbers are
used up, has none.
-/

namespace StreamBroker.EntryId

/-- What a request asks for: any identifier if it says nothing, else what its text spells. -/
inductive Asks : Option String → RecordId → Prop where
  | nothing : Asks none .autoGenerate
  | spelled {text : String} {r : RecordId} (h : RecordId.parse text = .ok r) : Asks (some text) r

/-- The identifiers that a request leaves open, behind `last` and with the clock at `now`. -/
def Admissible (last : EntryId) (now : UInt64) : RecordId → EntryId → Prop
  | .autoGenerate, id => id.millis = max now last.millis
  | .autoSequence millis, id => id.millis = millis
  | .concrete asked, id => id = asked

/-- The least of some identifiers above another one. -/
structure LeastAbove (P : EntryId → Prop) (last id : EntryId) : Prop where
  among : P id
  above : last < id
  least : ∀ other, P other → last < other → id ≤ other

theorem LeastAbove.unique {P : EntryId → Prop} {last a b : EntryId} (ha : LeastAbove P last a)
    (hb : LeastAbove P last b) : a = b := by
  have hab := le_iff_rank.1 (ha.least b hb.among hb.above)
  have hba := le_iff_rank.1 (hb.least a ha.among ha.above)
  exact rank_injective (Nat.le_antisymm hab hba)

/-! ## Within a millisecond -/

variable {last id other : EntryId}

/-- The first identifier of a millisecond ahead. -/
theorem leastAbove_first {millis : UInt64} (h : last.millis < millis) :
    LeastAbove (·.millis = millis) last ⟨millis, 0⟩ := by
  refine ⟨rfl, lt_iff.2 (.inl h), ?_⟩
  rintro other rfl -
  rw [le_iff_rank]
  exact Nat.add_le_add_left (Nat.zero_le _) _

/-- The successor is the next one of its millisecond. -/
theorem leastAbove_successor (h : last.successor? = some id) :
    LeastAbove (·.millis = last.millis) last id := by
  obtain ⟨hrank, hmillis⟩ := successor?_eq_some_iff.1 h
  refine ⟨hmillis, lt_iff_rank.2 (by omega), ?_⟩
  intro other _ hlt
  rw [lt_iff_rank] at hlt
  rw [le_iff_rank]
  omega

/-- An identifier without a successor is the last of its millisecond. -/
theorem not_lt_of_successor?_eq_none (h : last.successor? = none)
    (hmillis : other.millis = last.millis) : ¬ last < other := by
  intro hlt
  have hsequence := other.sequence.toNat_lt
  simp only [lt_iff_rank, rank, hmillis] at hlt
  unfold successor? at h
  split at h
  case isTrue => cases h
  case isFalse hfull =>
    simp only [UInt64.size] at hfull hlt
    omega

/-- A millisecond that has passed has nothing ahead. -/
theorem not_lt_of_millis_lt (h : other.millis < last.millis) : ¬ last < other := by
  rw [lt_iff, UInt64.lt_iff_toNat_lt, ← UInt64.toNat_inj]
  rw [UInt64.lt_iff_toNat_lt] at h
  omega

/-- Nothing is lost on the way to the least one: its sequence number is one more than the last in the
same millisecond, as a number without bound, and zero in a new one. -/
theorem sequence_of_leastAbove {millis : UInt64} (h : LeastAbove (·.millis = millis) last id) :
    id.sequence.toNat = if id.millis = last.millis then last.sequence.toNat + 1 else 0 := by
  obtain rfl : id.millis = millis := h.among
  rcases lt_iff.1 h.above with hahead | ⟨hsame, hbehind⟩
  · have hne : id.millis ≠ last.millis := fun heq => UInt64.lt_irrefl _ (heq ▸ hahead)
    have hfirst : id = ⟨id.millis, 0⟩ := h.unique (leastAbove_first hahead)
    rw [if_neg hne, hfirst]
    rfl
  · rw [if_pos hsame.symm]
    cases hsuccessor : last.successor? with
    | none => exact absurd h.above (not_lt_of_successor?_eq_none hsuccessor hsame.symm)
    | some next =>
        have hnext : LeastAbove (·.millis = id.millis) last next :=
          hsame ▸ leastAbove_successor hsuccessor
        obtain rfl := h.unique hnext
        have hrank := (successor?_eq_some_iff.1 hsuccessor).1
        simp only [rank, hsame] at hrank
        omega

/-! ## What is chosen -/

/-- The least of some identifiers above the last one, or a refusal where none is above it. -/
inductive Chosen (P : EntryId → Prop) (last : EntryId) (refusal : Refusal) :
    Except Refusal EntryId → Prop where
  | least {id : EntryId} (h : LeastAbove P last id) : Chosen P last refusal (.ok id)
  | nothing (h : ∀ other, P other → ¬ last < other) : Chosen P last refusal (.error refusal)

namespace Chosen

variable {P : EntryId → Prop} {refusal : Refusal} {outcome : Except Refusal EntryId}

theorem eq_ok_iff (h : Chosen P last refusal outcome) : outcome = .ok id ↔ LeastAbove P last id := by
  cases h with
  | least hleast =>
      refine ⟨fun heq => Except.ok.inj heq ▸ hleast, fun hother => ?_⟩
      rw [hleast.unique hother]
  | nothing hnone => exact ⟨nofun, fun hleast => absurd hleast.above (hnone id hleast.among)⟩

theorem eq_error_iff (h : Chosen P last refusal outcome) {refusal' : Refusal} :
    outcome = .error refusal' ↔ (∀ other, P other → ¬ last < other) ∧ refusal' = refusal := by
  cases h with
  | @least id hleast =>
      exact ⟨nofun, fun hnone => absurd hleast.above (hnone.1 id hleast.among)⟩
  | nothing hnone =>
      exact ⟨fun heq => ⟨hnone, (Except.error.inj heq).symm⟩, fun heq => by rw [heq.2]⟩

theorem exists_eq_ok_iff (h : Chosen P last refusal outcome) :
    (∃ id, outcome = .ok id) ↔ ∃ other, P other ∧ last < other := by
  cases h with
  | @least id hleast => exact ⟨fun _ => ⟨id, hleast.among, hleast.above⟩, fun _ => ⟨id, rfl⟩⟩
  | nothing hnone =>
      refine ⟨nofun, ?_⟩
      rintro ⟨other, hother, habove⟩
      exact absurd habove (hnone other hother)

end Chosen

/-- How a request is refused that leaves nothing open above the last identifier. -/
def refusalOf (r : RecordId) : Refusal := if r = .least then .idNotPositive else .idNotAboveTop

theorem chosen_continued (last : EntryId) :
    Chosen (·.millis = last.millis) last .idNotAboveTop last.continued := by
  unfold continued
  cases h : last.successor? with
  | some id => exact .least (leastAbove_successor h)
  | none => exact .nothing fun _ => not_lt_of_successor?_eq_none h

/-- `*` is the request for the later of the clock's millisecond and the last one. -/
theorem choose_autoGenerate (last : EntryId) (now : UInt64) :
    last.choose now .autoGenerate = last.choose now (.autoSequence (max now last.millis)) := by
  have hmax : max now last.millis = if now ≤ last.millis then last.millis else now := rfl
  simp only [choose, hmax]
  by_cases h : last.millis < now
  · rw [if_pos h, if_neg (UInt64.not_le.2 h), if_pos h]
  · rw [if_neg h, if_pos (UInt64.not_lt.1 h), if_neg (UInt64.lt_irrefl _), if_pos rfl]

theorem chosen_autoSequence (last : EntryId) (now millis : UInt64) :
    Chosen (·.millis = millis) last .idNotAboveTop (last.choose now (.autoSequence millis)) := by
  simp only [choose]
  split
  case isTrue hahead => exact .least (leastAbove_first hahead)
  case isFalse hnot =>
    split
    case isTrue hsame =>
      subst hsame
      exact chosen_continued last
    case isFalse hne =>
      have hpassed : millis < last.millis := UInt64.lt_of_le_of_ne (UInt64.not_lt.1 hnot) hne
      exact .nothing fun other hmillis => not_lt_of_millis_lt (hmillis ▸ hpassed)

theorem chosen_concrete (last : EntryId) (now : UInt64) (asked : EntryId) :
    Chosen (· = asked) last (refusalOf (.concrete asked))
      (last.choose now (.concrete asked)) := by
  by_cases hleast : asked = .least
  · subst hleast
    refine .nothing ?_
    rintro other rfl hlt
    exact not_le.2 hlt (least_le last)
  · have hrefusal : refusalOf (.concrete asked) = .idNotAboveTop :=
      if_neg fun h => hleast (RecordId.concrete.inj h)
    simp only [hrefusal, choose, if_neg hleast]
    split
    case isTrue hle =>
      refine .nothing ?_
      rintro other rfl hlt
      exact not_le.2 hlt hle
    case isFalse hnot =>
      refine .least ⟨rfl, not_le.1 hnot, ?_⟩
      rintro other rfl -
      exact le_refl other

/-- Every request gets the least identifier that it leaves open. -/
theorem chosen_choose (last : EntryId) (now : UInt64) (r : RecordId) :
    Chosen (Admissible last now r) last (refusalOf r) (last.choose now r) := by
  cases r with
  | autoGenerate =>
      rw [choose_autoGenerate]
      exact chosen_autoSequence last now _
  | autoSequence millis => exact chosen_autoSequence last now millis
  | concrete asked => exact chosen_concrete last now asked

/-! ## What is asked for -/

/-- A request asks for one thing only. -/
theorem Asks.exists_iff {request : Option String} {r : RecordId} (h : Asks request r)
    {Q : RecordId → Prop} : (∃ r', Asks request r' ∧ Q r') ↔ Q r := by
  refine ⟨?_, fun hr => ⟨r, h, hr⟩⟩
  rintro ⟨r', h', hr'⟩
  cases h with
  | nothing =>
      cases h'
      exact hr'
  | spelled hparse =>
      cases h' with
      | spelled hparse' =>
          obtain rfl := Except.ok.inj (hparse.symm.trans hparse')
          exact hr'

/-- What a request asks for decides what it gets; one whose text spells nothing is invalid. -/
theorem next_cases (last : EntryId) (now : UInt64) (request : Option String) :
    (∃ r, Asks request r ∧ last.next now request = last.choose now r) ∨
      (∀ r, ¬ Asks request r) ∧ last.next now request = .error .invalidId := by
  cases request with
  | none => exact .inl ⟨.autoGenerate, .nothing, rfl⟩
  | some text =>
      cases hparse : RecordId.parse text with
      | ok r => exact .inl ⟨r, .spelled hparse, by simp only [next, requested, hparse]⟩
      | error fault =>
          refine .inr ⟨?_, by simp only [next, requested, hparse]⟩
          rintro r (_ | hspelled)
          rw [hparse] at hspelled
          cases hspelled

theorem next_eq_error_iff (last : EntryId) (now : UInt64) (request : Option String)
    (refusal : Refusal) :
    last.next now request = .error refusal ↔
      (∀ r, ¬ Asks request r) ∧ refusal = .invalidId ∨
        Asks request .least ∧ refusal = .idNotPositive ∨
        ∃ r, Asks request r ∧ r ≠ .least ∧
          (∀ other, Admissible last now r other → ¬ last < other) ∧ refusal = .idNotAboveTop := by
  rcases next_cases last now request with ⟨r, hasks, hnext⟩ | ⟨hnone, hnext⟩
  · have hsome : ¬ ∀ r, ¬ Asks request r := fun hnone => hnone r hasks
    rw [hnext, (chosen_choose last now r).eq_error_iff, hasks.exists_iff]
    by_cases hleast : r = .least
    · subst hleast
      have hnothing : ∀ other, Admissible last now .least other → ¬ last < other := by
        rintro other rfl hlt
        exact not_le.2 hlt (least_le last)
      have hrefusal : refusalOf .least = .idNotPositive := if_pos rfl
      rw [hrefusal, and_iff_right hnothing]
      simp [hsome, hasks]
    · have hother : ¬ Asks request .least := fun h => hleast (hasks.exists_iff.1 ⟨_, h, rfl⟩).symm
      simp [hsome, hother, hleast, refusalOf]
  · have hno : ∀ {Q : RecordId → Prop}, ¬ ∃ r, Asks request r ∧ Q r :=
      fun ⟨r, hasks, _⟩ => hnone r hasks
    rw [hnext]
    simp [hnone, eq_comm]

/-- Only a request for an identifier that is spelled out decides the sequence number itself. -/
theorem sequence_of_next {now : UInt64} {request : Option String}
    (h : last.next now request = .ok id) (hopen : ∀ asked, ¬ Asks request (.concrete asked)) :
    id.sequence.toNat = if id.millis = last.millis then last.sequence.toNat + 1 else 0 := by
  rcases next_cases last now request with ⟨r, hasks, hnext⟩ | ⟨-, hnext⟩
  · have hleast := (chosen_choose last now r).eq_ok_iff.1 (hnext.symm.trans h)
    cases r with
    | autoGenerate | autoSequence => exact sequence_of_leastAbove hleast
    | concrete asked => exact absurd hasks (hopen asked)
  · rw [hnext] at h
    cases h

/-- Whatever the last identifier, the clock and the request: the identifier of a new entry is the
least of those that the request leaves open above the last one, and there is one as long as any of
them is above it.  A request that spells nothing is invalid, `0-0` is told apart from the others that
are not above the last identifier, and no sequence number ever wraps around. -/
theorem next_is_least_admissible (last : EntryId) (now : UInt64) (request : Option String) :
    (∀ id, last.next now request = .ok id ↔
      ∃ r, Asks request r ∧ LeastAbove (Admissible last now r) last id) ∧
    ((∃ id, last.next now request = .ok id) ↔
      ∃ r, Asks request r ∧ ∃ other, Admissible last now r other ∧ last < other) ∧
    (∀ refusal, last.next now request = .error refusal ↔
      (∀ r, ¬ Asks request r) ∧ refusal = .invalidId ∨
        Asks request .least ∧ refusal = .idNotPositive ∨
        ∃ r, Asks request r ∧ r ≠ .least ∧
          (∀ other, Admissible last now r other → ¬ last < other) ∧ refusal = .idNotAboveTop) ∧
    ∀ id, last.next now request = .ok id → (∀ asked, ¬ Asks request (.concrete asked)) →
      id.sequence.toNat = if id.millis = last.millis then last.sequence.toNat + 1 else 0 := by
  refine ⟨fun id => ?_, ?_, next_eq_error_iff last now request, fun id => sequence_of_next⟩
  · rcases next_cases last now request with ⟨r, hasks, hnext⟩ | ⟨hnone, hnext⟩
    · rw [hnext, hasks.exists_iff]
      exact (chosen_choose last now r).eq_ok_iff
    · rw [hnext]
      exact ⟨nofun, fun ⟨r, hasks, _⟩ => absurd hasks (hnone r)⟩
  · rcases next_cases last now request with ⟨r, hasks, hnext⟩ | ⟨hnone, hnext⟩
    · rw [hnext, hasks.exists_iff]
      exact (chosen_choose last now r).exists_eq_ok_iff
    · rw [hnext]
      exact ⟨nofun, fun ⟨r, hasks, _⟩ => absurd hasks (hnone r)⟩

/-- With the clock behind the last millisecond the sequence goes on. -/
theorem next_is_least_admissible_clockBehind :
    next ⟨5, 7⟩ 3 none = .ok ⟨5, 8⟩ ∧
      LeastAbove (Admissible ⟨5, 7⟩ 3 .autoGenerate) ⟨5, 7⟩ ⟨5, 8⟩ ∧
      (8 : UInt64).toNat = (7 : UInt64).toNat + 1 := by
  obtain ⟨hok, -, -, hsequence⟩ := next_is_least_admissible ⟨5, 7⟩ 3 none
  have hnext : next ⟨5, 7⟩ 3 none = .ok ⟨5, 8⟩ := rfl
  obtain ⟨r, hasks, hleast⟩ := (hok _).1 hnext
  cases hasks
  exact ⟨hnext, hleast, hsequence _ hnext nofun⟩

/-- A millisecond without sequence numbers left, and a request for the next one. -/
example :
    next ⟨5, 18446744073709551615⟩ 3 none = .error .idNotAboveTop ∧
      next ⟨5, 18446744073709551615⟩ 3 (some "+06-*") = .ok ⟨6, 0⟩ := ⟨rfl, rfl⟩

end StreamBroker.EntryId
