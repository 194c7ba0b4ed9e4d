import GbbDongle.Lib.History
import GbbDongle.Lib.Wrap
import GbbDongle.Lib.OrdMap
import GbbDongle.Lib.Cursor
import GbbDongle.Lib.Mailbox
import GbbDongle.Lib.Ring
import GbbDongle.Lib.Framing
import GbbDongle.Lib.Backoff
import GbbDongle.Lib.Crc
import GbbDongle.Lib.Bounded
import GbbDongle.Lib.Retry
import GbbDongle.Lib.Timer
import GbbDongle.Lib.Gate
import GbbDongle.Model.Bytes
import GbbDongle.Model.Protocol
import GbbDongle.Model.Event
import GbbDongle.Model.Executor
import GbbDongle.Model.Access
import GbbDongle.Model.Store
import GbbDongle.Model.Manager
import GbbDongle.Model.LogRing
import GbbDongle.Model.Dongle
import GbbDongle.Model.Busscan
import GbbDongle.Model.Exchange
import GbbDongle.Model.Tracker
import GbbDongle.Model.FakeDongle
import GbbDongle.Model.Reconfigure
import GbbDongle.Proofs.Hex
import GbbDongle.Proofs.Executor
import GbbDongle.Proofs.Access
import GbbDongle.Proofs.Store
import GbbDongle.Proofs.Manager
import GbbDongle.Proofs.System
import GbbDongle.Proofs.Sound
import GbbDongle.Proofs.Bench
import GbbDongle.Proofs.Events
import GbbDongle.Proofs.Cycle
import GbbDongle.Proofs.Bus
import GbbDongle.Proofs.Delivery
import GbbDongle.Proofs.Alarm
import GbbDongle.Proofs.CycleEnd
import GbbDongle.Proofs.Protocol
import GbbDongle.Proofs.Requests
import GbbDongle.Proofs.Mirror
import GbbDongle.Proofs.LogRing
import GbbDongle.Proofs.Revisions
import GbbDongle.Proofs.Cache
import GbbDongle.Proofs.Agreement
import GbbDongle.Proofs.Origin
import GbbDongle.Proofs.Framing
import GbbDongle.Proofs.BatchResult
import GbbDongle.Proofs.Backoff
import GbbDongle.Proofs.Echo
import GbbDongle.Proofs.Liveness
import GbbDongle.Proofs.Latency
import GbbDongle.Proofs.CycleTime
import GbbDongle.Proofs.Service
import GbbDongle.Proofs.Timers
import GbbDongle.Proofs.Account
import GbbDongle.Proofs.LastWill
import GbbDongle.Proofs.Provenance
import GbbDongle.Proofs.LastLog
import GbbDongle.Proofs.Crc
import GbbDongle.Proofs.Exchange
import GbbDongle.Proofs.Network
import GbbDongle.Proofs.Tracker
import GbbDongle.Proofs.Scan
import GbbDongle.Proofs.FakeDongle
import GbbDongle.Proofs.Reconfigure
