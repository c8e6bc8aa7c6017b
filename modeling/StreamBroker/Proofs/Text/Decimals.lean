import StreamBroker.Text.Decimal
set_option autoImplicit false

/-!
# How numbers are spelled

A number below `2 ^ 64` is spelled by digits in base ten, with any number of zeros in front of them
and at most one `+` in front of all (`Decimal.Spells`).  The reader takes exactly these spellings, each
for its number (`read?_eq_some_iff_spells`).  One of them has neither a sign nor a needless zero, and
that is the one that is written (`Spells.canonical_iff`).
-/

namespace StreamBroker.Decimal

/-- Digits, and their value in base ten. -/
inductive Digits : List Char → Nat → Prop where
  | one {d : Nat} (hd : d < 10) : Digits [d.digitChar] d
  | snoc {cs : List Char} {n d : Nat} (h : Digits cs n) (hd : d < 10) :
      Digits (cs ++ [d.digitChar]) (10 * n + d)

/-- A text spells a number: by its digits, or by a sign and its digits. -/
inductive Spells : List Char → UInt64 → Prop where
  | unsigned {cs : List Char} {n : UInt64} (h : Digits cs n.toNat) : Spells cs n
  | signed {cs : List Char} {n : UInt64} (h : Digits cs n.toNat) : Spells ('+' :: cs) n

/-- Neither a sign nor a needless zero stands in front. -/
def Canonical (cs : List Char) : Prop := cs.head? ≠ some '+' ∧ (cs.head? = some '0' → cs = ['0'])

instance (cs : List Char) : Decidable (Canonical cs) :=
  inferInstanceAs (Decidable (_ ∧ (_ → _)))

/-! ## Digits -/

/-- A digit is written for its value. -/
theorem exists_digitChar {c : Char} (h : c.isDigit = true) : ∃ d < 10, c = d.digitChar := by
  obtain ⟨hlow, hhigh⟩ := Char.isDigit_iff_toNat.1 h
  have hzero : '0'.toNat = 48 := rfl
  have hnine : '9'.toNat = 57 := rfl
  have hd : c.toNat - 48 < 10 := by omega
  refine ⟨c.toNat - 48, hd, Char.toNat_inj.1 ?_⟩
  rw [Nat.toNat_digitChar_of_lt_ten hd]
  omega

namespace Digits

variable {cs : List Char} {n : Nat}

theorem ne_nil (h : Digits cs n) : cs ≠ [] := by
  cases h with
  | one => exact List.cons_ne_nil _ _
  | snoc => exact List.append_ne_nil_of_right_ne_nil _ (List.cons_ne_nil _ _)

theorem isDigit (h : Digits cs n) : ∀ c ∈ cs, c.isDigit = true := by
  induction h with
  | one hd =>
      intro c hc
      rw [List.mem_singleton.1 hc, Nat.isDigit_digitChar, decide_eq_true hd]
  | snoc _ hd ih =>
      rw [List.forall_mem_append]
      refine ⟨ih, fun c hc => ?_⟩
      rw [List.mem_singleton.1 hc, Nat.isDigit_digitChar, decide_eq_true hd]

theorem value (h : Digits cs n) : Nat.ofDigitChars 10 cs 0 = n := by
  induction h with
  | one hd =>
      rw [Nat.ofDigitChars_cons_digitChar_of_lt_ten hd, Nat.ofDigitChars_nil, Nat.mul_zero,
        Nat.zero_add]
  | snoc _ hd ih =>
      rw [Nat.ofDigitChars_append, ih, Nat.ofDigitChars_cons_digitChar_of_lt_ten hd,
        Nat.ofDigitChars_nil]

/-- Digits go on behind digits. -/
theorem append (h : Digits cs n) {more : List Char} (hmore : ∀ c ∈ more, c.isDigit = true) :
    Digits (cs ++ more) (Nat.ofDigitChars 10 more n) := by
  induction more generalizing cs n with
  | nil =>
      rw [List.append_nil, Nat.ofDigitChars_nil]
      exact h
  | cons c rest ih =>
      obtain ⟨hc, hrest⟩ := List.forall_mem_cons.1 hmore
      obtain ⟨d, hd, rfl⟩ := exists_digitChar hc
      rw [Nat.ofDigitChars_cons_digitChar_of_lt_ten hd, List.append_cons]
      exact ih (h.snoc hd) hrest

end Digits

/-- A run of digits is what the grammar derives, and its value is what it is read as. -/
theorem digits?_eq_some_iff {cs : List Char} {n : Nat} : digits? cs = some n ↔ Digits cs n := by
  unfold digits?
  constructor
  · intro h
    split at h
    case isTrue hrun =>
      obtain ⟨hne, hall⟩ := hrun
      obtain rfl := Option.some.inj h
      obtain ⟨c, rest, rfl⟩ := List.exists_cons_of_ne_nil hne
      obtain ⟨hc, hrest⟩ := List.forall_mem_cons.1 (List.all_eq_true.1 hall)
      obtain ⟨d, hd, rfl⟩ := exists_digitChar hc
      rw [Nat.ofDigitChars_cons_digitChar_of_lt_ten hd, Nat.mul_zero, Nat.zero_add]
      exact (Digits.one hd).append hrest
    case isFalse => cases h
  · intro h
    rw [if_pos ⟨h.ne_nil, List.all_eq_true.2 h.isDigit⟩, h.value]

/-! ## Spellings -/

section Spellings

variable {cs : List Char} {m n : UInt64}

theorem unsigned_of_digits {k : Nat} (h : Digits cs k) : unsigned cs = cs := by
  unfold unsigned
  split
  case h_1 => exact absurd (h.isDigit '+' List.mem_cons_self) (by decide)
  case h_2 => rfl

/-- The reader takes exactly the spellings of a number. -/
theorem read?_eq_some_iff_spells : read? cs = some n ↔ Spells cs n := by
  rw [read?_eq_some_iff, digits?_eq_some_iff]
  constructor
  · intro h
    unfold unsigned at h
    split at h
    case h_1 => exact .signed h
    case h_2 => exact .unsigned h
  · intro h
    cases h with
    | unsigned h => rwa [unsigned_of_digits h]
    | signed h => exact h

theorem read?_eq_none_iff : read? cs = none ↔ ∀ n, ¬ Spells cs n := by
  rw [Option.eq_none_iff_forall_ne_some]
  exact forall_congr' fun n => not_congr read?_eq_some_iff_spells

theorem Spells.not_mem (h : Spells cs n) {c : Char} (hdigit : c.isDigit = false)
    (hsign : c ≠ '+') : c ∉ cs :=
  not_mem_of_read? (read?_eq_some_iff_spells.2 h) hdigit hsign

/-! ## The canonical spelling -/

/-- Digits without a needless zero in front are what is written for their value. -/
theorem Digits.eq_toDigits {k : Nat} (h : Digits cs k) (hzero : cs.head? = some '0' → cs = ['0']) :
    cs = Nat.toDigits 10 k := by
  induction h with
  | one hd => exact (Nat.toDigits_of_lt_base hd).symm
  | @snoc cs k d h hd ih =>
      obtain ⟨c, rest, rfl⟩ := List.exists_cons_of_ne_nil h.ne_nil
      have hfirst : c ≠ '0' := by
        rintro rfl
        have hlength := congrArg List.length (hzero rfl)
        simp at hlength
      have hwritten := ih fun hc => absurd (Option.some.inj hc) hfirst
      -- what stands in front of the last digit is not zero, which would be written as such
      have hpos : 0 < k := by
        refine Nat.pos_of_ne_zero fun hk => hfirst ?_
        rw [hk, Nat.toDigits_zero] at hwritten
        exact (List.cons.inj hwritten).1
      rw [hwritten, ← Nat.toDigits_of_lt_base hd]
      exact Nat.toDigits_append_toDigits (by decide) hpos hd

theorem head?_toDigits {k : Nat} (hpos : 0 < k) : (Nat.toDigits 10 k).head? ≠ some '0' := by
  induction k using Nat.strongRecOn with
  | _ k ih =>
      rw [Nat.toDigits_eq_if (by decide)]
      split
      case isTrue =>
        intro h
        have hk := Nat.digitChar_eq_zero.1 (Option.some.inj h)
        omega
      case isFalse hten =>
        have hfront := ih (k / 10) (by omega) (by omega)
        obtain ⟨c, rest, hwritten⟩ := List.exists_cons_of_ne_nil (@Nat.toDigits_ne_nil (k / 10) 10)
        rw [hwritten] at hfront ⊢
        exact hfront

theorem canonical_write (n : UInt64) : Canonical (write n) := by
  refine ⟨fun h => ?_, fun h => ?_⟩
  · exact not_mem_write (c := '+') (by decide) (List.mem_of_head? h)
  · by_cases hn : 0 < n.toNat
    · exact absurd h (head?_toDigits hn)
    · rw [write, Nat.eq_zero_of_not_pos hn, Nat.toDigits_zero]

/-- Of the spellings of a number the canonical one is what is written. -/
theorem Spells.canonical_iff (h : Spells cs n) : Canonical cs ↔ cs = write n := by
  refine ⟨fun hcanonical => ?_, fun heq => heq ▸ canonical_write n⟩
  cases h with
  | unsigned h => exact h.eq_toDigits hcanonical.2
  | signed => exact absurd rfl hcanonical.1

end Spellings

end StreamBroker.Decimal
