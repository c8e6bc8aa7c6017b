set_option autoImplicit false

/-!
# Unsigned 64-bit decimals

The number format of identifiers and flags: ASCII digits, at most one `+` in front, leading zeros
allowed, value below `2 ^ 64`.  Nothing else is a number, and in particular no digit at all is not.

Main statements: `read?_write` (what is written reads back) and `read?_eq_some_iff`.
-/

namespace StreamBroker.Decimal

/-- The digits without the one sign that may stand in front of them. -/
def unsigned : List Char → List Char
  | '+' :: rest => rest
  | cs => cs

/-- The value of a non-empty run of ASCII digits. -/
def digits? (cs : List Char) : Option Nat :=
  if cs ≠ [] ∧ cs.all Char.isDigit then some (Nat.ofDigitChars 10 cs 0) else none

/-- Reads a number below `2 ^ 64`. -/
def read? (cs : List Char) : Option UInt64 :=
  match digits? (unsigned cs) with
  | some n => if h : n < UInt64.size then some (UInt64.ofNatLT n h) else none
  | none => none

/-- Writes a number without sign and without leading zeros. -/
def write (n : UInt64) : List Char := Nat.toDigits 10 n.toNat

/-- A number as text. -/
def text (n : UInt64) : String := String.ofList (write n)

theorem isDigit_of_mem_write {n : UInt64} {c : Char} (h : c ∈ write n) : c.isDigit = true :=
  Nat.isDigit_of_mem_toDigits (by decide) (by decide) h

theorem write_ne_nil (n : UInt64) : write n ≠ [] := Nat.toDigits_ne_nil

/-- Neither sign nor separator stands in a written number. -/
theorem not_mem_write {n : UInt64} {c : Char} (h : c.isDigit = false) : c ∉ write n :=
  fun hm => by rw [isDigit_of_mem_write hm] at h; exact absurd h (by decide)

theorem unsigned_write (n : UInt64) : unsigned (write n) = write n := by
  unfold unsigned
  split
  case h_1 rest heq => exact absurd (heq ▸ List.mem_cons_self) (not_mem_write (by decide))
  case h_2 => rfl

theorem digits?_write (n : UInt64) : digits? (write n) = some n.toNat := by
  have hall : (write n).all Char.isDigit = true :=
    List.all_eq_true.2 fun c hc => isDigit_of_mem_write hc
  rw [digits?, if_pos ⟨write_ne_nil n, hall⟩]
  exact congrArg some Nat.ofDigitChars_ten_toDigits

/-- What is written reads back. -/
@[simp] theorem read?_write (n : UInt64) : read? (write n) = some n := by
  simp only [read?, unsigned_write, digits?_write, n.toNat_lt, dite_true]
  exact congrArg some (UInt64.ofNatLT_toNat n)

/-- A text is a number exactly when its digits, behind at most one sign, are a value in range. -/
theorem read?_eq_some_iff {cs : List Char} {n : UInt64} :
    read? cs = some n ↔ digits? (unsigned cs) = some n.toNat := by
  unfold read?
  split
  case h_1 m hm =>
    rw [hm]
    split
    case isTrue h =>
      refine ⟨fun e => ?_, fun e => ?_⟩
      · cases e; exact congrArg some UInt64.toNat_ofNatLT.symm
      · cases e; exact congrArg some (UInt64.ofNatLT_toNat n)
    case isFalse h =>
      refine ⟨fun e => by simp at e, fun e => ?_⟩
      cases e
      exact absurd n.toNat_lt h
  case h_2 hm => simp [hm]

/-- Only digits stand in a number, and a sign. -/
theorem not_mem_of_read? {cs : List Char} {n : UInt64} {c : Char} (h : read? cs = some n)
    (hdigit : c.isDigit = false) (hsign : c ≠ '+') : c ∉ cs := by
  have hall : ∀ c ∈ unsigned cs, c.isDigit = true := by
    have hdigits := read?_eq_some_iff.1 h
    unfold digits? at hdigits
    split at hdigits
    case isTrue hd => exact List.all_eq_true.1 hd.2
    case isFalse => cases hdigits
  intro hmem
  have hmem' : c ∈ unsigned cs := by
    unfold unsigned
    split
    case h_1 rest => exact (List.mem_cons.1 hmem).resolve_left hsign
    case h_2 => exact hmem
  rw [hall c hmem'] at hdigit
  cases hdigit

end StreamBroker.Decimal
