import StreamBroker.Store.Basic
set_option autoImplicit false

/-!
# Choosing the identifier of a new entry

The identifier of a new entry is above the last one given away.  `*` takes the clock's millisecond,
or goes on in the last millisecond where the clock is not ahead of it; `millis-*` takes the next
sequence number of its millisecond; a full identifier is taken as it is.
-/

namespace StreamBroker

/-- Goes on in the millisecond of an identifier, as long as it has a sequence number left. -/
def EntryId.continued (last : EntryId) : Except Refusal EntryId :=
  match last.successor? with
  | some id => .ok id
  | none => .error .idNotAboveTop

/-- The identifier of a new entry behind `last`, as it was requested and with the clock at `now`. -/
def EntryId.choose (last : EntryId) (now : UInt64) : RecordId → Except Refusal EntryId
  | .autoGenerate =>
    if last.millis < now then .ok ⟨now, 0⟩ else last.continued
  | .autoSequence millis =>
    if last.millis < millis then .ok ⟨millis, 0⟩
    else if millis = last.millis then last.continued
    else .error .idNotAboveTop
  | .concrete id =>
    if id = .least then .error .idNotPositive
    else if id ≤ last then .error .idNotAboveTop
    else .ok id

/-- The requested identifier; none at all asks for any. -/
def EntryId.requested (requested : Option String) : Except Refusal RecordId :=
  match requested with
  | none => .ok .autoGenerate
  | some s =>
    match RecordId.parse s with
    | .ok r => .ok r
    | .error _ => .error .invalidId

/-- The identifier of a new entry behind `last`, requested as text. -/
def EntryId.next (last : EntryId) (now : UInt64) (request : Option String) :
    Except Refusal EntryId :=
  match EntryId.requested request with
  | .ok r => last.choose now r
  | .error refusal => .error refusal

/-- The successor is the next identifier in the order, as long as it is of the same millisecond. -/
theorem EntryId.successor?_eq_some_iff {a b : EntryId} :
    a.successor? = some b ↔ b.rank = a.rank + 1 ∧ b.millis = a.millis := by
  have ha := a.sequence.toNat_lt
  have hb := b.sequence.toNat_lt
  have hadd : (a.sequence + 1).toNat = (a.sequence.toNat + 1) % 2 ^ 64 := UInt64.toNat_add ..
  constructor
  · intro h
    unfold successor? at h
    split at h
    case isTrue hlt =>
      obtain rfl := Option.some.inj h
      simp only [UInt64.size] at hlt
      simp only [rank, hadd, and_true]
      omega
    case isFalse => exact absurd h (by simp)
  · rintro ⟨hr, hm⟩
    simp only [rank, hm, UInt64.size] at hr
    have hlt : a.sequence.toNat + 1 < UInt64.size := by simp only [UInt64.size]; omega
    have hs : a.sequence + 1 = b.sequence := UInt64.toNat_inj.1 (by omega)
    rw [successor?, if_pos hlt, hs, ← hm]

/-- A chosen identifier is above the last one. -/
theorem EntryId.lt_of_choose {last id : EntryId} {now : UInt64} {r : RecordId}
    (h : last.choose now r = .ok id) : last < id := by
  have hcont : last.continued = .ok id → last < id := fun hc => by
    unfold continued at hc
    split at hc
    case h_1 id' hs =>
      cases hc
      have := (successor?_eq_some_iff.1 hs).1
      rw [lt_iff_rank]; omega
    case h_2 => simp at hc
  cases r with
  | autoGenerate =>
    simp only [choose] at h
    split at h
    case isTrue hlt => cases h; exact lt_iff.2 (Or.inl hlt)
    case isFalse => exact hcont h
  | autoSequence millis =>
    simp only [choose] at h
    split at h
    case isTrue hlt => cases h; exact lt_iff.2 (Or.inl hlt)
    case isFalse =>
      split at h
      · exact hcont h
      · simp at h
  | concrete id' =>
    simp only [choose] at h
    split at h
    · simp at h
    · split at h
      · simp at h
      · rename_i hle
        cases h
        rw [le_iff_rank] at hle
        rw [lt_iff_rank]; omega

end StreamBroker
