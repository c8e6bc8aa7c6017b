import StreamBroker.Demo
import StreamBroker.WallClock

/-!
# The program

Takes the time of day, runs the demonstration and shows what it leaves behind.
-/

/-- Runs the demonstration on the arguments of the program. -/
def main (arguments : List String) : IO UInt32 := do
  let exit := StreamBroker.Demo.run arguments (← StreamBroker.wallClock)
  for line in exit.log do
    IO.println line
  IO.eprint exit.complaint
  return .ofNat exit.code
