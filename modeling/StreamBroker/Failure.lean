import StreamBroker.RecordId
import StreamBroker.Text.Timespan
import StreamBroker.Text.Utf8
set_option autoImplicit false

/-!
# Why a command fails

A failure is its cause: a command that breaks its contract, a text that is no record identifier, a
refusal by the engine, a lost transport, or no dedicated channel to be had.  Every wording stands in
this module.  The first two kinds blame the command and leave the channel usable (`blamesCommand`).
-/

namespace StreamBroker

/-! ## Broken contracts -/

/-- The fields a command may have to carry. -/
inductive Field where
  | key | body | group | groupName | range | limit | count | readOptions | recordIds
  | streamOffsets
  deriving DecidableEq, Repr

/-- What a field is called in messages. -/
def Field.name : Field → String
  | .key => "Key"
  | .body => "Body"
  | .group => "Group"
  | .groupName => "GroupName"
  | .range => "Range"
  | .limit => "Limit"
  | .count => "Count"
  | .readOptions => "ReadOptions"
  | .recordIds => "RecordIds"
  | .streamOffsets => "StreamOffsets"

/-- How a command breaks its contract. -/
inductive Breach where
  /-- A required field is absent. -/
  | absent (field : Field)
  /-- A list that must name something is empty. -/
  | empty (field : Field)
  /-- A breach that a channel reported in words of its own. -/
  | reported (text : String)
  deriving DecidableEq, Repr

/-- The wording of a breach. -/
def Breach.message : Breach → String
  | .absent field => field.name ++ " must not be null"
  | .empty field => field.name ++ " must not be empty"
  | .reported text => text

/-! ## Refusals by the engine -/

/-- Why the engine refuses a call. -/
inductive Refusal where
  /-- An identifier, bound or cursor does not parse. -/
  | invalidId
  /-- An entry was to be added under `0-0`. -/
  | idNotPositive
  /-- An entry was to be added at or below the last identifier. -/
  | idNotAboveTop
  /-- An entry was to be added without any field. -/
  | emptyBody
  /-- An entry was to be added while the clock stood before the epoch. -/
  | beforeEpoch
  /-- A group call names a key without stream. -/
  | keyRequired
  /-- A group was to be created twice. -/
  | groupExists
  /-- `$` in a group read. -/
  | latestInGroupRead
  /-- `>` in a read without group. -/
  | undeliveredOutsideGroup
  /-- The key or the group is unknown. -/
  | noGroup (key group : Bytes)
  /-- The reply to an addition is no identifier. -/
  | unexpectedReply (value : String)
  /-- A refusal that a channel reported in words of its own. -/
  | reported (text : String)
  deriving DecidableEq, Repr

/-- The wording of a refusal. -/
def Refusal.message : Refusal → String
  | .invalidId => "ERR Invalid stream ID specified as stream command argument"
  | .idNotPositive => "ERR The ID specified in XADD must be greater than 0-0"
  | .idNotAboveTop =>
    "ERR The ID specified in XADD is equal or smaller than the target stream top item"
  | .emptyBody => "ERR wrong number of arguments for 'xadd' command"
  | .beforeEpoch => "ERR system time is before unix epoch"
  | .keyRequired =>
    "ERR The XGROUP subcommand requires the key to exist. Note that for CREATE you may want to use "
      ++ "the MKSTREAM option to create an empty stream automatically."
  | .groupExists => "BUSYGROUP Consumer Group name already exists"
  | .latestInGroupRead => "ERR The $ ID is meaningless in the context of XREADGROUP"
  | .undeliveredOutsideGroup =>
    "ERR The > ID can be specified only when calling XREADGROUP"
  | .noGroup key group =>
    "NOGROUP No such key '" ++ key.text ++ "' or consumer group '" ++ group.text ++ "'"
  | .unexpectedReply value => "ERR Unexpected XADD reply '" ++ value ++ "'"
  | .reported text => text

/-! ## Lost calls -/

/-- Why a call never got its reply. -/
inductive Loss where
  /-- Nobody answered. -/
  | noReply
  /-- A loss that a channel reported in words of its own. -/
  | reported (text : String)
  deriving DecidableEq, Repr

/-- The wording of a loss. -/
def Loss.message : Loss → String
  | .noReply => "no reply"
  | .reported text => text

/-- Why no dedicated channel was to be had. -/
inductive Shortage where
  /-- None came free in time. -/
  | noneWithin (span : UInt64)
  /-- A shortage that a provider reported in words of its own. -/
  | reported (text : String)
  deriving DecidableEq, Repr

/-- The wording of a shortage. -/
def Shortage.message : Shortage → String
  | .noneWithin span => "no channel became available within " ++ Timespan.text span
  | .reported text => text

/-! ## Failures -/

/-- Why a command fails. -/
inductive Failure where
  | contract (breach : Breach)
  | recordId (fault : IdFault)
  | server (refusal : Refusal)
  | transport (loss : Loss)
  | exhausted (shortage : Shortage)
  deriving DecidableEq, Repr

namespace Failure

/-- The five kinds of failure. -/
inductive Kind where
  | contract | recordId | server | transport | exhausted
  deriving DecidableEq, Repr

/-- The kind of a failure. -/
def kind : Failure → Kind
  | contract _ => .contract
  | recordId _ => .recordId
  | server _ => .server
  | transport _ => .transport
  | exhausted _ => .exhausted

/-- A failure of a kind, in the words of whoever reports it. -/
def reported (text : String) : Kind → Failure
  | .contract => contract (.reported text)
  | .recordId => recordId (.reported text)
  | .server => server (.reported text)
  | .transport => transport (.reported text)
  | .exhausted => exhausted (.reported text)

/-- The wording of a failure. -/
def message : Failure → String
  | contract breach => breach.message
  | recordId fault => fault.message
  | server refusal => refusal.message
  | transport loss => "transport failure: " ++ loss.message
  | exhausted shortage => "dedicated channel unavailable: " ++ shortage.message

/-- Whether the command itself is at fault, so that others may still be tried. -/
def blamesCommand : Failure → Bool
  | contract _ | recordId _ => true
  | _ => false

/-- Whether the failure arose while a call was carried out. -/
def blamesChannel (f : Failure) : Bool := !f.blamesCommand

end Failure

/-- A command that failed, with the cause. -/
structure FailedCommand (C : Type) where
  command : C
  cause : Failure
  deriving DecidableEq, Repr

/-- The wording of a failed command. -/
def FailedCommand.message {C : Type} (f : FailedCommand C) : String :=
  "command failed: " ++ f.cause.message

end StreamBroker
