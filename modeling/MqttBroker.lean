import MqttBroker.Broker.Calls
import MqttBroker.Log.Logger
import MqttBroker.Settings.Reader
import MqttBroker.Storage.Basic
import MqttBroker.Proofs.Binary
import MqttBroker.Proofs.DurableSteps
import MqttBroker.Proofs.Bucket
import MqttBroker.Proofs.DurableWriter
import MqttBroker.Proofs.DurableReader
import MqttBroker.Proofs.Delivery
import MqttBroker.Proofs.StoredPath
import MqttBroker.Proofs.TopicTree
import MqttBroker.Proofs.Table
import MqttBroker.Proofs.Exchange
import MqttBroker.Proofs.Subscriptions
import MqttBroker.Proofs.Matching
import MqttBroker.Proofs.Ledger
import MqttBroker.Proofs.Memory
import MqttBroker.Proofs.Tickets
import MqttBroker.Proofs.Settling
import MqttBroker.Proofs.FanOut
import MqttBroker.Proofs.Bindings
import MqttBroker.Proofs.Places
import MqttBroker.Proofs.Changes
import MqttBroker.Proofs.Rebinding
import MqttBroker.Proofs.Naming
import MqttBroker.Proofs.Sessions
import MqttBroker.Proofs.Life
import MqttBroker.Proofs.Restoring
import MqttBroker.Proofs.Histories
import MqttBroker.Proofs.Provenance
import MqttBroker.Proofs.Tenancy
import MqttBroker.Proofs.ClosedSessions
import MqttBroker.Proofs.Authority
import MqttBroker.Proofs.Contents
import MqttBroker.Proofs.OpenStorage
import MqttBroker.Proofs.Takeover
import MqttBroker.Proofs.Queueing
import MqttBroker.Proofs.Isolation
import MqttBroker.Proofs.Mirroring
import MqttBroker.Proofs.Upkeep
import MqttBroker.Proofs.Persistence
import MqttBroker.Proofs.Inclusion
import MqttBroker.Proofs.Covering
import MqttBroker.Proofs.SessionStates
import MqttBroker.Proofs.Coherence
import MqttBroker.Proofs.Handing
import MqttBroker.Proofs.Granting
import MqttBroker.Proofs.Destroying
import MqttBroker.Proofs.Refusals
import MqttBroker.Proofs.Attendance
import MqttBroker.Proofs.Serving
import MqttBroker.Proofs.Moves
import MqttBroker.Proofs.LastWills
import MqttBroker.Proofs.Tallies
import MqttBroker.Proofs.Reckoning
import MqttBroker.Proofs.Retaining
import MqttBroker.Proofs.Overrunning
import MqttBroker.Proofs.Deeds
import MqttBroker.Proofs.Conduct
import MqttBroker.Proofs.Gauges
import MqttBroker.Proofs.Readmission
import MqttBroker.Proofs.KeyOrder
import MqttBroker.Proofs.StorageClients
import MqttBroker.Proofs.Trees
import MqttBroker.Proofs.InMemory
import MqttBroker.Proofs.OnDisk
import MqttBroker.Proofs.Backends
import MqttBroker.Proofs.Window
import MqttBroker.Proofs.WindowUse
import MqttBroker.Proofs.Wakeups
import MqttBroker.Proofs.Delivering
import MqttBroker.Proofs.Resumption
import MqttBroker.Proofs.Retrying
import MqttBroker.Proofs.DeliverySteps
import MqttBroker.Proofs.Forgetting
import MqttBroker.Proofs.Recognition
import MqttBroker.Proofs.Placeholders
import MqttBroker.Proofs.Expiring
import MqttBroker.Proofs.Canonical
import MqttBroker.Proofs.Omissions
import MqttBroker.Proofs.Grammar
import MqttBroker.Proofs.Flushing
import MqttBroker.Proofs.Legible
import MqttBroker.Proofs.Durations
import MqttBroker.Proofs.SizeSettings
import MqttBroker.Proofs.Reporting
import MqttBroker.Proofs.Peaks
