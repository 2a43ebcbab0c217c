import IrohWillow.Lib.Frontier
import IrohWillow.Lib.Transition
import IrohWillow.Lib.Segments
import IrohWillow.Proto.DataModel
import IrohWillow.Proto.Increment
import IrohWillow.Proto.Grouping
import IrohWillow.Proto.Meadowcap
import IrohWillow.Proto.Fingerprint
import IrohWillow.Proto.Pai
import IrohWillow.Util.Channel
import IrohWillow.Store.SplitRange
import IrohWillow.Store.Traits
import IrohWillow.Store.Memory
import IrohWillow.Store.MemoryConvergence
import IrohWillow.Store.WillowStoreGlue
import IrohWillow.Store.Persistent
import IrohWillow.Store.PersistentConvergence
import IrohWillow.Session.RangeExchange
import IrohWillow.Session.Resource
import IrohWillow.Session.StaticTokens
import IrohWillow.Session.TokenAgreement
import IrohWillow.Session.Basic
import IrohWillow.Session.Capabilities
import IrohWillow.Session.AoiFinder
import IrohWillow.Session.AoiOutputs
import IrohWillow.Session.AoiAnnouncements
import IrohWillow.Session.AoiExchange
import IrohWillow.Session.ReadAccess
import IrohWillow.Session.Storage
import IrohWillow.Session.IdealStore
import IrohWillow.Session.Payload
import IrohWillow.Session.Reconciler
import IrohWillow.Session.ReconcilerSends
import IrohWillow.Session.Data
import IrohWillow.Session.PeerRun
import IrohWillow.Session.ReadConfinement
import IrohWillow.Session.WriteConfinement
import IrohWillow.Session.Framing
import IrohWillow.Session.HonestPeer
import IrohWillow.Session.Pair
import IrohWillow.Session.RangeAccounting
import IrohWillow.Session.Convergence
import IrohWillow.Session.PaiFinder
import IrohWillow.Session.PaiKnowledge
import IrohWillow.Session.PaiExchange
import IrohWillow.Session.PaiAgreement
import IrohWillow.Session.PaiSession
import IrohWillow.Session.PaiSingle
import IrohWillow.Session.PaiSoundness
import IrohWillow.Session.PaiCausality
import IrohWillow.Session.PaiRequests
import IrohWillow.Engine.PeerManager
import IrohWillow.Engine.EventOrder
import IrohWillow.Engine.SimultaneousDial
import IrohWillow.Util.ChannelWakeups
import IrohWillow.Net.OversizedFrames
import IrohWillow.Store.Subscriptions
import IrohWillow.Session.LiveData
import IrohWillow.Session.ReconcilerRun
import IrohWillow.Session.ReconciledAll
import IrohWillow.Session.EntryFraming
import IrohWillow.Session.BufferedPair
import IrohWillow.Session.PaiSelective
import IrohWillow.Store.PersistentLog
import IrohWillow.Store.Transactions
import IrohWillow.Store.TokenLeaks
import IrohWillow.Store.FailedIngest
import IrohWillow.Store.Authorship
import IrohWillow.Session.IntentCompletion
import IrohWillow.Session.LateInterests
import IrohWillow.Session.IntentIsolation
import IrohWillow.Store.CapsStores
import IrohWillow.Store.CapsSelection
import IrohWillow.Store.CapsAgreement
import IrohWillow.Store.SplitPartition
import IrohWillow.Store.StoredPoints
import IrohWillow.Store.SnapshotReads
import IrohWillow.Session.InterestAreas
import IrohWillow.Session.EmptyInterests
import IrohWillow.Session.Completion
import IrohWillow.Session.IntentsDropped
import IrohWillow.Store.PointSelection
import IrohWillow.Store.Auth
import IrohWillow.Lib.SelfDelimiting
import IrohWillow.Proto.FragmentEncoding
import IrohWillow.Session.ResourceRuns
import IrohWillow.Session.ChallengeReveals
import IrohWillow.Util.Pipe
import IrohWillow.Session.PayloadLengths
import IrohWillow.Session.Channels
import IrohWillow.Net.ChannelSetup
import IrohWillow.Net.Link
import IrohWillow.Net.Termination
import IrohWillow.Engine.PendingIntents
import IrohWillow.Engine.TendedPeers
import IrohWillow.Session.LiveNetwork
import IrohWillow.Lib.Processes
import IrohWillow.Session.Loops
import IrohWillow.Session.Intake
