import StreamBroker.Text.Decimal
set_option autoImplicit false

/-!
# Settings from a command line

A command line is a sequence of flags, each with a value behind it.  Where a flag is given twice the
later one counts.  The leftmost mistake decides which error is told: an unknown flag, or a value
that is missing, is no number, or is too small.  What stands where a value belongs is a value,
whatever it looks like.
-/

namespace StreamBroker

/-- What can be set. -/
structure Settings where
  /-- How many dedicated channels there are for reads that may wait. -/
  dedicatedChannels : UInt64
  /-- How many milliseconds such a read waits for a dedicated channel. -/
  acquireTimeout : UInt64
  /-- How many length lookups may be under way at once. -/
  concurrentLengths : UInt64
  deriving DecidableEq, Repr

/-- The mistakes of a command line. -/
inductive SettingsError where
  | unknownFlag
  | badValue
  deriving DecidableEq, Repr

/-- The wording of a mistake. -/
def SettingsError.message : SettingsError → String
  | .unknownFlag => "Invalid command line flag"
  | .badValue => "Invalid command line flag value"

namespace Settings

/-- What holds where nothing is set. -/
def standard : Settings := ⟨4, 5000, 16⟩

instance : Inhabited Settings := ⟨standard⟩

/-- The flags. -/
inductive Flag where
  | dedicatedChannels
  | acquireTimeout
  | concurrentLengths
  deriving DecidableEq, Repr

/-- The spelling of a flag. -/
def Flag.text : Flag → String
  | .dedicatedChannels => "--dedicated-channels"
  | .acquireTimeout => "--acquire-timeout-ms"
  | .concurrentLengths => "--max-concurrent-lengths"

/-- The flag of a spelling. -/
def Flag.ofText? (s : String) : Option Flag :=
  [dedicatedChannels, acquireTimeout, concurrentLengths].find? fun flag => flag.text == s

/-- The least value of a flag. -/
def Flag.least : Flag → UInt64
  | .acquireTimeout => 0
  | _ => 1

/-- Sets a flag. -/
def set (settings : Settings) (value : UInt64) : Flag → Settings
  | .dedicatedChannels => { settings with dedicatedChannels := value }
  | .acquireTimeout => { settings with acquireTimeout := value }
  | .concurrentLengths => { settings with concurrentLengths := value }

/-- The value of a flag, if it is one. -/
def Flag.value? (flag : Flag) (s : String) : Option UInt64 :=
  (Decimal.read? s.toList).filter (flag.least ≤ ·)

/-- Reads flags and values, going on from some settings. -/
def readFlags (settings : Settings) : List String → Except SettingsError Settings
  | [] => .ok settings
  | [word] =>
    match Flag.ofText? word with
    | none => .error .unknownFlag
    | some _ => .error .badValue
  | word :: value :: rest =>
    match Flag.ofText? word with
    | none => .error .unknownFlag
    | some flag =>
      match flag.value? value with
      | none => .error .badValue
      | some n => readFlags (settings.set n flag) rest

/-- Reads a command line, whose first word is the name of the program. -/
def ofArguments (arguments : List String) : Except SettingsError Settings :=
  readFlags standard arguments.tail

end Settings

end StreamBroker
