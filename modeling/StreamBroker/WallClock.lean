import Std.Time.DateTime.Timestamp

/-!
# The time of day
-/

namespace StreamBroker

/-- The milliseconds since the epoch, none before it. -/
def wallClock : IO UInt64 := do
  let now ← Std.Time.Timestamp.now
  return .ofNat (Std.Time.Timestamp.toMillisecondsSinceUnixEpoch now).val.toNat

end StreamBroker
