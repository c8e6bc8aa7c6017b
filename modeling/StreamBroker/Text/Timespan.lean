import StreamBroker.Text.Decimal
set_option autoImplicit false

/-!
# Time spans as text

A span is shown in the largest unit that it fills at least once: seconds with as many decimals as
needed, else milliseconds; the empty span is shown in nanoseconds.
-/

namespace StreamBroker.Timespan

/-- Drops the zeros at the end of a run of decimals. -/
def trimZeros (cs : List Char) : List Char := (cs.reverse.dropWhile (· == '0')).reverse

/-- The three decimals of a part of a second, without the zeros at the end. -/
def decimals (millis : Nat) : List Char :=
  trimZeros (Nat.toDigits 10 (1000 + millis)).tail

/-- A span of whole milliseconds as text. -/
def text (span : UInt64) : String :=
  let seconds := span.toNat / 1000
  let rest := span.toNat % 1000
  if seconds = 0 then
    if rest = 0 then "0ns" else toString rest ++ "ms"
  else if rest = 0 then toString seconds ++ "s"
  else toString seconds ++ "." ++ String.ofList (decimals rest) ++ "s"

example : text 0 = "0ns" ∧ text 20 = "20ms" ∧ text 5000 = "5s" ∧ text 1500 = "1.5s"
    ∧ text 61001 = "61.001s" ∧ text 2050 = "2.05s" := by decide +kernel

end StreamBroker.Timespan
