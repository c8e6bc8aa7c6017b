import StreamBroker.Main
import StreamBroker.Script.Run
import StreamBroker.Session.Run
import StreamBroker.Proofs.Store.RefusedRead
import StreamBroker.Proofs.Lending.Borrowers
import StreamBroker.Proofs.Scan.Plain
import StreamBroker.Proofs.World.Deliveries
import StreamBroker.Proofs.World.Ledger
import StreamBroker.Proofs.World.Scanning
import StreamBroker.Proofs.World.Wakeups
import StreamBroker.Proofs.World.Resumption
import StreamBroker.Proofs.World.Courses
import StreamBroker.Proofs.World.Deadlines
import StreamBroker.Proofs.World.Registrations
import StreamBroker.Proofs.Front.Watched
import StreamBroker.Proofs.Front.LockStep
import StreamBroker.Proofs.Front.Records
import StreamBroker.Proofs.Front.Retrievals
import StreamBroker.Proofs.World.Removals
import StreamBroker.Proofs.World.Latest
import StreamBroker.Proofs.Front.Following
import StreamBroker.Proofs.Front.Traffic
import StreamBroker.Proofs.Front.Lookups
import StreamBroker.Proofs.Engine.Operations
import StreamBroker.Proofs.Engine.Independence
import StreamBroker.Proofs.Engine.Refusals
import StreamBroker.Proofs.Front.Translations
import StreamBroker.Proofs.Store.Identifiers
import StreamBroker.Proofs.Front.BlockTimes
import StreamBroker.Proofs.Store.Trimming
import StreamBroker.Proofs.Text.Shorthands
import StreamBroker.Proofs.Store.Foremost
import StreamBroker.Proofs.Engine.PlainReads
import StreamBroker.Proofs.Store.History
import StreamBroker.Proofs.World.Holdings
import StreamBroker.Proofs.Settings
import StreamBroker.Proofs.Registry.Histories
import StreamBroker.Proofs.Front.Tokens
