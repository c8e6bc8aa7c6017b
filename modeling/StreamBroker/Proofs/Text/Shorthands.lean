import StreamBroker.Proofs.Text.Identifiers
import StreamBroker.Store.Scan
set_option autoImplicit false

/-!
# Shorthands of a store

A store reads the identifiers of entries as clients spell them, and three shorthands that clients do not
have: `-` and `+` for the ends of the order, and a number for an identifier of that millisecond
(`EntryId.read?_cases`).  Only the number leaves something to the place where it stands, which is the
sequence number.  As both ends of a closed range it stands for its whole millisecond
(`Scan.start_within_millisecond`).
-/

namespace StreamBroker

variable {missing millis : UInt64} {cs : List Char} {id : EntryId} {r : RecordId}

/-! ## Reading -/

namespace EntryId

/-- What clients spell with both its numbers is none of the shorthands. -/
theorem ne_end_of_spells (h : RecordId.Spells cs (.concrete id)) : cs ≠ ['-'] ∧ cs ≠ ['+'] := by
  constructor
  · rintro rfl
    have hread : RecordId.ofChars ['-'] = .error .timestamp := rfl
    rw [h.ofChars_eq] at hread
    cases hread
  · rintro rfl
    rcases h.count_eq_one with hany | hcount
    · exact absurd hany (by decide)
    · exact absurd hcount (by decide)

/-- A store reads what clients spell as they do. -/
theorem read?_of_spells (h : RecordId.Spells cs (.concrete id)) (missing : UInt64) :
    read? missing cs = some id := by
  obtain ⟨hleast, hgreatest⟩ := ne_end_of_spells h
  unfold read?
  rw [if_neg hleast, if_neg hgreatest]
  cases h with
  | full hmillis hsequence =>
      simp only [Text.cut_append _ (RecordId.not_mem_of_spells hmillis),
        Decimal.read?_eq_some_iff_spells.2 hmillis, Decimal.read?_eq_some_iff_spells.2 hsequence]

/-- A store reads nothing but the ends of the order, numbers, and what clients spell. -/
theorem read?_cases (h : read? missing cs = some id) :
    cs = ['-'] ∧ id = least ∨ cs = ['+'] ∧ id = greatest ∨
      (∃ millis, Decimal.Spells cs millis ∧ id = ⟨millis, missing⟩) ∨
        RecordId.Spells cs (.concrete id) := by
  unfold read? at h
  split at h
  case isTrue hleast =>
    cases h
    exact .inl ⟨hleast, rfl⟩
  case isFalse =>
    split at h
    case isTrue hgreatest =>
      cases h
      exact .inr (.inl ⟨hgreatest, rfl⟩)
    case isFalse =>
      refine .inr (.inr ?_)
      split at h
      case h_1 =>
        obtain ⟨millis, hmillis, rfl⟩ := Option.map_eq_some_iff.1 h
        exact .inl ⟨millis, Decimal.read?_eq_some_iff_spells.1 hmillis, rfl⟩
      case h_2 before behind hcut =>
        obtain ⟨rfl, -⟩ := Text.cut_eq_some_iff.1 hcut
        split at h
        case h_1 millis sequence hmillis hsequence =>
          cases h
          exact .inr (.full (Decimal.read?_eq_some_iff_spells.1 hmillis)
            (Decimal.read?_eq_some_iff_spells.1 hsequence))
        case h_2 => cases h

/-- Where a part is left open a store reads nothing. -/
theorem read?_of_any (h : '*' ∈ cs) : read? missing cs = none := by
  have hnumber : ∀ {cs millis}, Decimal.Spells cs millis → '*' ∉ cs := fun hspells =>
    hspells.not_mem (by decide) (by decide)
  cases hread : read? missing cs with
  | none => rfl
  | some id =>
      rcases read?_cases hread with ⟨rfl, -⟩ | ⟨rfl, -⟩ | ⟨millis, hmillis, -⟩ | hspells
      · exact absurd h (by decide)
      · exact absurd h (by decide)
      · exact absurd h (hnumber hmillis)
      · cases hspells with
        | full hmillis hsequence =>
            rcases List.mem_append.1 h with hbefore | hbehind
            · exact absurd hbefore (hnumber hmillis)
            · exact absurd ((List.mem_cons.1 hbehind).resolve_left (by decide)) (hnumber hsequence)

theorem any_mem_of_spells (h : RecordId.Spells cs r) (hopen : r.isConcrete = false) : '*' ∈ cs := by
  cases h with
  | any => exact List.mem_cons_self
  | within => exact List.mem_append_right _ (List.mem_cons_of_mem _ List.mem_cons_self)
  | full => cases hopen

theorem ofText?_of_spells {s : String} (h : Decimal.Spells s.toList millis) (missing : UInt64) :
    ofText? missing s = some ⟨millis, missing⟩ :=
  ofText?_of_read? (Decimal.read?_eq_some_iff_spells.2 h) missing

/-! ## Whole milliseconds -/

/-- Between its least and its greatest sequence number lies a millisecond. -/
theorem within_iff : ⟨millis, 0⟩ ≤ id ∧ id ≤ ⟨millis, UInt64.ofNat (UInt64.size - 1)⟩ ↔
    id.millis = millis := by
  have hsequence := id.sequence.toNat_lt
  have hlast : (UInt64.ofNat (UInt64.size - 1)).toNat = UInt64.size - 1 := rfl
  rw [le_iff_rank, le_iff_rank, ← UInt64.toNat_inj]
  simp only [rank, hlast, UInt64.toNat_zero, UInt64.size]
  omega

end EntryId

theorem Bound.read_including {s : String} (h : EntryId.ofText? missing s = some id) :
    (including s).read missing = .ok (including id) := by
  simp only [read, h]

/-- A closed range between two spellings of a millisecond has it as a whole and nothing else. -/
theorem Scan.start_within_millisecond {s s' : String} (h : Decimal.Spells s.toList millis)
    (h' : Decimal.Spells s'.toList millis) (key : Bytes) (window : Option Window)
    (d : Direction) :
    ∃ sc, start key ⟨.including s, .including s'⟩ window d = .ok sc ∧
      ∀ id, (sc.lower.admitsFrom id ∧ sc.upper.admitsUpTo id) ↔ id.millis = millis := by
  have hlower := Bound.read_including (EntryId.ofText?_of_spells h 0)
  have hupper := Bound.read_including
    (EntryId.ofText?_of_spells h' (UInt64.ofNat (UInt64.size - 1)))
  unfold start
  simp only [hlower, hupper]
  refine ⟨_, rfl, fun id => ?_⟩
  simp only [Bound.admitsFrom, Bound.admitsUpTo, decide_eq_true_eq]
  exact EntryId.within_iff

/-- What clients read as the identifier of an entry a store reads as that one, whatever a missing
sequence number would be; what they read as one with an open part a store does not read.  Beyond what
clients read a store reads only `-`, `+` and numbers, and of these only the numbers get the sequence
number that is missing.  From a number to the same number all identifiers of its millisecond are in
range, and no others. -/
theorem EntryId.readers_agree (s : String) (missing : UInt64) :
    (∀ id, RecordId.parse s = .ok (.concrete id) → ofText? missing s = some id) ∧
      (∀ r, RecordId.parse s = .ok r → r.isConcrete = false → ofText? missing s = none) ∧
      (∀ id, ofText? missing s = some id →
        (RecordId.parse s = .ok (.concrete id) ∨ s = "-" ∧ id = least ∨ s = "+" ∧ id = greatest ∨
          ∃ millis, '-' ∉ s.toList ∧ Decimal.Spells s.toList millis ∧ id = ⟨millis, missing⟩) ∧
        ∀ missing', ofText? missing' s = some id ∨
          ∃ millis, '-' ∉ s.toList ∧ Decimal.Spells s.toList millis ∧
            ofText? missing' s = some ⟨millis, missing'⟩) ∧
      ∀ millis, Decimal.Spells s.toList millis → ∀ s', Decimal.Spells s'.toList millis →
        ∀ key window d, ∃ sc, Scan.start key ⟨.including s, .including s'⟩ window d = .ok sc ∧
          ∀ id, (sc.lower.admitsFrom id ∧ sc.upper.admitsUpTo id) ↔ id.millis = millis := by
  refine ⟨fun id h => read?_of_spells (RecordId.ofChars_eq_ok_iff.1 h) missing,
    fun r h hopen => read?_of_any (any_mem_of_spells (RecordId.ofChars_eq_ok_iff.1 h) hopen),
    fun id h => ?_,
    fun millis h s' h' key window d => Scan.start_within_millisecond h h' key window d⟩
  rcases read?_cases h with ⟨hleast, rfl⟩ | ⟨hgreatest, rfl⟩ | ⟨millis, hmillis, rfl⟩ | hspells
  · have hs : s = "-" := String.toList_inj.1 hleast
    exact ⟨.inr (.inl ⟨hs, rfl⟩), fun missing' => .inl (hs ▸ ofText?_minus missing')⟩
  · have hs : s = "+" := String.toList_inj.1 hgreatest
    exact ⟨.inr (.inr (.inl ⟨hs, rfl⟩)), fun missing' => .inl (hs ▸ ofText?_plus missing')⟩
  · have hminus := RecordId.not_mem_of_spells hmillis
    exact ⟨.inr (.inr (.inr ⟨millis, hminus, hmillis, rfl⟩)),
      fun missing' => .inr ⟨millis, hminus, hmillis, ofText?_of_spells hmillis missing'⟩⟩
  · exact ⟨.inl hspells.ofChars_eq, fun missing' => .inl (read?_of_spells hspells missing')⟩

/-- Both read `7-3`; the open `7-*` is for clients, the bare `+07` for a store, where it stands for what
is missing at one place and for the whole millisecond in a range. -/
theorem EntryId.readers_agree_bareSeven :
    RecordId.parse "7-3" = .ok (.concrete ⟨7, 3⟩) ∧ ofText? 9 "7-3" = some ⟨7, 3⟩ ∧
      RecordId.parse "7-*" = .ok (.autoSequence 7) ∧ ofText? 9 "7-*" = none ∧
      (∃ fault, RecordId.parse "+07" = .error fault) ∧ ofText? 9 "+07" = some ⟨7, 9⟩ ∧
      (ofText? 4 "+07" = some ⟨7, 9⟩ ∨ ∃ millis, '-' ∉ "+07".toList ∧
        Decimal.Spells "+07".toList millis ∧ ofText? 4 "+07" = some ⟨millis, 4⟩) ∧
      ∃ sc, Scan.start [] ⟨.including "+07", .including "7"⟩ none .ascending = .ok sc ∧
        ∀ id, (sc.lower.admitsFrom id ∧ sc.upper.admitsUpTo id) ↔ id.millis = 7 := by
  have hsigned : Decimal.Spells "+07".toList 7 := Decimal.read?_eq_some_iff_spells.1 rfl
  have hbare : Decimal.Spells "7".toList 7 := Decimal.read?_eq_some_iff_spells.1 rfl
  obtain ⟨hagree, -⟩ := readers_agree "7-3" 9
  obtain ⟨-, hopen, -⟩ := readers_agree "7-*" 9
  obtain ⟨-, -, hread, hrange⟩ := readers_agree "+07" 9
  exact ⟨rfl, hagree _ rfl, rfl, hopen _ rfl rfl, ⟨_, rfl⟩, rfl, (hread ⟨7, 9⟩ rfl).2 4,
    hrange 7 hsigned "7" hbare [] none .ascending⟩

end StreamBroker
