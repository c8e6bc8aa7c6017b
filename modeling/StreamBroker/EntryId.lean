import StreamBroker.Text.Cut
import StreamBroker.Text.Decimal
set_option autoImplicit false

/-!
# Entry identifiers

An entry is known by a millisecond and a sequence number within it, both of 64 bits, ordered
lexicographically.  The order is that of `rank`, the two words read as one number, so every question
about it is one about natural numbers.

As text an identifier is `millis-sequence`.  A store also takes `-` and `+` for the least and the
greatest identifier and a bare millisecond, whose sequence number then depends on the place.
-/

namespace StreamBroker

/-- A millisecond and a sequence number within it. -/
structure EntryId where
  millis : UInt64
  sequence : UInt64
  deriving DecidableEq, Repr

namespace EntryId

/-- `0-0`, which no entry has. -/
def least : EntryId := ⟨0, 0⟩

/-- The identifier above which there is no other. -/
def greatest : EntryId := ⟨UInt64.ofNat (UInt64.size - 1), UInt64.ofNat (UInt64.size - 1)⟩

instance : Inhabited EntryId := ⟨least⟩

/-- The two words read as one number. -/
def rank (a : EntryId) : Nat := a.millis.toNat * UInt64.size + a.sequence.toNat

theorem rank_injective {a b : EntryId} (h : a.rank = b.rank) : a = b := by
  have ha := a.sequence.toNat_lt
  have hb := b.sequence.toNat_lt
  simp only [rank, UInt64.size] at h
  have hm : a.millis.toNat = b.millis.toNat := by omega
  have hs : a.sequence.toNat = b.sequence.toNat := by omega
  cases a; cases b
  simp_all [UInt64.toNat_inj]

/-! ## Order -/

/-- First by millisecond, then by sequence number. -/
instance : Ord EntryId :=
  ⟨fun a b => (compare a.millis b.millis).then (compare a.sequence b.sequence)⟩

theorem compare_def (a b : EntryId) :
    compare a b = (compare a.millis b.millis).then (compare a.sequence b.sequence) := rfl

theorem compare_word (a b : UInt64) : compare a b = compare a.toNat b.toNat := by
  rw [show compare a b = compareOfLessAndEq a b from rfl, Nat.compare_eq_ite_lt]
  simp only [compareOfLessAndEq, UInt64.lt_iff_toNat_lt, ← UInt64.toNat_inj]
  split
  · rfl
  · split <;> split <;> first | rfl | omega

theorem compare_eq_compare_rank (a b : EntryId) : compare a b = compare a.rank b.rank := by
  have ha := a.sequence.toNat_lt
  have hb := b.sequence.toNat_lt
  rw [compare_def, compare_word, compare_word]
  simp only [rank, UInt64.size]
  generalize a.millis.toNat = i at *
  generalize b.millis.toNat = j at *
  generalize a.sequence.toNat = m at *
  generalize b.sequence.toNat = n at *
  rcases Nat.lt_trichotomy i j with h | rfl | h
  · rw [Nat.compare_eq_lt.2 h]
    exact (Nat.compare_eq_lt.2 (by omega)).symm
  · rw [Nat.compare_eq_eq.2 rfl]
    rcases Nat.lt_trichotomy m n with k | rfl | k
    · rw [Nat.compare_eq_lt.2 k]
      exact (Nat.compare_eq_lt.2 (by omega)).symm
    · rw [Nat.compare_eq_eq.2 rfl, Nat.compare_eq_eq.2 rfl]; rfl
    · rw [Nat.compare_eq_gt.2 k]
      exact (Nat.compare_eq_gt.2 (by omega)).symm
  · rw [Nat.compare_eq_gt.2 h]
    exact (Nat.compare_eq_gt.2 (by omega)).symm

instance : Std.TransOrd EntryId where
  eq_swap {a b} := by
    rw [compare_eq_compare_rank, compare_eq_compare_rank b]
    exact Std.OrientedOrd.eq_swap
  isLE_trans {a b c} := by
    rw [compare_eq_compare_rank, compare_eq_compare_rank b, compare_eq_compare_rank a c]
    exact Std.TransOrd.isLE_trans

instance : Std.LawfulEqOrd EntryId where
  compare_self {a} := by rw [compare_eq_compare_rank]; exact Std.ReflOrd.compare_self
  eq_of_compare {a b} h := by
    rw [compare_eq_compare_rank] at h
    exact rank_injective (Nat.compare_eq_eq.1 h)

instance : LT EntryId := ltOfOrd
instance : LE EntryId := leOfOrd

theorem lt_iff_compare {a b : EntryId} : a < b ↔ compare a b = .lt := Iff.rfl

theorem lt_iff_rank {a b : EntryId} : a < b ↔ a.rank < b.rank := by
  rw [lt_iff_compare, compare_eq_compare_rank, Nat.compare_eq_lt]

theorem le_iff_rank {a b : EntryId} : a ≤ b ↔ a.rank ≤ b.rank := by
  rw [show a ≤ b ↔ (compare a b).isLE from Iff.rfl, compare_eq_compare_rank, Nat.isLE_compare]

theorem lt_iff {a b : EntryId} :
    a < b ↔ a.millis < b.millis ∨ a.millis = b.millis ∧ a.sequence < b.sequence := by
  have ha := a.sequence.toNat_lt
  have hb := b.sequence.toNat_lt
  simp only [lt_iff_rank, rank, UInt64.size, UInt64.lt_iff_toNat_lt, ← UInt64.toNat_inj]
  omega

theorem le_refl (a : EntryId) : a ≤ a := le_iff_rank.2 (Nat.le_refl _)

theorem le_of_lt {a b : EntryId} (h : a < b) : a ≤ b := by
  rw [lt_iff_rank] at h
  rw [le_iff_rank]
  omega

theorem lt_of_le_of_lt {a b c : EntryId} (h₁ : a ≤ b) (h₂ : b < c) : a < c := by
  rw [le_iff_rank] at h₁
  rw [lt_iff_rank] at h₂ ⊢
  omega

theorem lt_of_lt_of_le {a b c : EntryId} (h₁ : a < b) (h₂ : b ≤ c) : a < c := by
  rw [lt_iff_rank] at h₁ ⊢
  rw [le_iff_rank] at h₂
  omega

theorem lt_trans {a b c : EntryId} (h₁ : a < b) (h₂ : b < c) : a < c :=
  lt_of_le_of_lt (le_of_lt h₁) h₂

theorem le_trans {a b c : EntryId} (h₁ : a ≤ b) (h₂ : b ≤ c) : a ≤ c := by
  rw [le_iff_rank] at h₁ h₂ ⊢
  omega

theorem not_le {a b : EntryId} : ¬ a ≤ b ↔ b < a := by
  rw [le_iff_rank, lt_iff_rank]
  omega

theorem lt_irrefl (a : EntryId) : ¬ a < a := fun h => not_le.2 h (le_refl a)

theorem least_le (a : EntryId) : least ≤ a := le_iff_rank.2 (Nat.zero_le _)

/-- The next identifier of the same millisecond, if there is one left. -/
def successor? (a : EntryId) : Option EntryId :=
  if a.sequence.toNat + 1 < UInt64.size then some ⟨a.millis, a.sequence + 1⟩ else none

/-! ## Text -/

/-- `millis-sequence`. -/
def toChars (a : EntryId) : List Char := Decimal.write a.millis ++ '-' :: Decimal.write a.sequence

/-- `millis-sequence` as text. -/
def text (a : EntryId) : String := String.ofList a.toChars

/-- Reads an identifier as a store takes it; a bare millisecond gets the sequence number
`missing`. -/
def read? (missing : UInt64) (cs : List Char) : Option EntryId :=
  if cs = ['-'] then some least
  else if cs = ['+'] then some greatest
  else match Text.cut '-' cs with
    | none => (Decimal.read? cs).map fun millis => ⟨millis, missing⟩
    | some (before, behind) =>
      match Decimal.read? before, Decimal.read? behind with
      | some millis, some sequence => some ⟨millis, sequence⟩
      | _, _ => none

/-- Reads the text of an identifier as a store takes it. -/
def ofText? (missing : UInt64) (s : String) : Option EntryId := read? missing s.toList

@[simp] theorem ofText?_minus (missing : UInt64) : ofText? missing "-" = some least := rfl

@[simp] theorem ofText?_plus (missing : UInt64) : ofText? missing "+" = some greatest := rfl

/-- A number stands for the identifier with that millisecond and the missing sequence number. -/
theorem ofText?_of_read? {s : String} {millis : UInt64} (h : Decimal.read? s.toList = some millis)
    (missing : UInt64) : ofText? missing s = some ⟨millis, missing⟩ := by
  have hcut : Text.cut '-' s.toList = none :=
    Text.cut_eq_none_iff.2 (Decimal.not_mem_of_read? h (by decide) (by decide))
  unfold ofText? read?
  rw [if_neg, if_neg, hcut]
  · simp only [h, Option.map_some]
  · intro he
    rw [he] at h
    cases h
  · intro he
    rw [he] at h
    cases h

/-- Whether a text reads does not depend on the missing sequence number. -/
theorem isSome_ofText? (missing : UInt64) (s : String) :
    (ofText? missing s).isSome = (ofText? 0 s).isSome := by
  unfold ofText? read?
  split
  · rfl
  · split
    · rfl
    · split
      · rw [Option.isSome_map, Option.isSome_map]
      · split <;> rfl

theorem cut_toChars (a : EntryId) :
    Text.cut '-' a.toChars = some (Decimal.write a.millis, Decimal.write a.sequence) :=
  Text.cut_append _ (Decimal.not_mem_write (by decide))

theorem toChars_ne_singleton (a : EntryId) (c : Char) : a.toChars ≠ [c] := fun h => by
  have := congrArg List.length h
  have := List.length_pos_iff.2 (Decimal.write_ne_nil a.millis)
  simp [toChars] at *
  omega

/-- The text of an identifier reads back, whatever a missing sequence number would be. -/
@[simp] theorem read?_toChars (missing : UInt64) (a : EntryId) :
    read? missing a.toChars = some a := by
  simp [read?, toChars_ne_singleton, cut_toChars]

@[simp] theorem ofText?_text (missing : UInt64) (a : EntryId) :
    ofText? missing a.text = some a := by
  simp [ofText?, text]

theorem text_injective {a b : EntryId} (h : a.text = b.text) : a = b := by
  have := congrArg (ofText? 0) h
  simpa using this

end EntryId

end StreamBroker
