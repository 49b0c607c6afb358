import LowRisc.Lib.Transition
import LowRisc.Lib.Wormhole
import LowRisc.Chisel.Util
import LowRisc.Chisel.Arbiter
import LowRisc.Chisel.Queue
import LowRisc.TagCache.TagUtil
import LowRisc.TagCache.Types
import LowRisc.TagCache.MemXactTracker
import LowRisc.TagCache.TagXactTracker
import LowRisc.TagCache.TagTracker
import LowRisc.TagCache.TagCounts
import LowRisc.TagCache.AcquireTracker
import LowRisc.TagCache.AcquireStream
import LowRisc.TagCache.AcquireStages
import LowRisc.TagCache.AcquireRuns
import LowRisc.TagCache.ReleaseTracker
import LowRisc.TagCache.FrontEnd
import LowRisc.TagCache.FrontEndRuns
import LowRisc.TagCache.SearchOrder
import LowRisc.TagCache.WritebackUnit
import LowRisc.TagCache.Writeback
import LowRisc.TagCache.System
import LowRisc.TagCache.TagLayout
import LowRisc.TagCache.TagLocks
import LowRisc.TagCache.Banks
import LowRisc.TagCache.Replacement
import LowRisc.TagCache.Overtaking
import LowRisc.Rocket.Csr
import LowRisc.Rocket.TagControl
import LowRisc.Debug.Dii
import LowRisc.Debug.RegAccess
import LowRisc.Debug.RegFraming
import LowRisc.Debug.RegAnswers
import LowRisc.Debug.OsdFifo
import LowRisc.Debug.Trace
import LowRisc.Debug.TraceAccounting
import LowRisc.Debug.TraceRuns
import LowRisc.Debug.DiiBuffer
import LowRisc.Debug.RingTraffic
import LowRisc.Debug.RingRouter
import LowRisc.Debug.RingSwitching
import LowRisc.Debug.RingProgress
import LowRisc.Debug.WormholeArbiter
import LowRisc.Debug.RocketRing
import LowRisc.Debug.RocketSwitching
import LowRisc.Debug.RocketProgress
import LowRisc.Debug.RingDelivery
import LowRisc.Socip.Arbiter
import LowRisc.Socip.NastiMux
import LowRisc.Socip.NastiRouting
import LowRisc.Debug.Mam
import LowRisc.Debug.MemoryHost
import LowRisc.Debug.MemorySplit
import LowRisc.Debug.MamStream
import LowRisc.Debug.MamTransfer
import LowRisc.Debug.MamWrites
import LowRisc.Debug.MamReads
import LowRisc.Debug.MamAgreement
import LowRisc.Pfc.Manager
import LowRisc.Pfc.Client
import LowRisc.Pfc.Network
import LowRisc.Pfc.Reads
import LowRisc.Rocket.TrapEffects
import LowRisc.Socip.NastiDemux
import LowRisc.Socip.ByteLanes
import LowRisc.Socip.LiteNasti
import LowRisc.Socip.LiteNastiRuns
import LowRisc.Socip.Narrower
import LowRisc.Socip.NarrowerWriter
import LowRisc.Socip.NarrowerReader
import LowRisc.Socip.NastiLite
import LowRisc.Socip.NastiLiteReader
import LowRisc.Socip.NastiLiteWriter
import LowRisc.Rocket.DataArray
import LowRisc.Rocket.LineRoundTrip
import LowRisc.Chisel.Vec
import LowRisc.Debug.SerDesBuffer
import LowRisc.Debug.MamConverter
import LowRisc.Debug.MamConverterRuns
import LowRisc.Debug.PacketBuffer
import LowRisc.Lib.PointerTree
import LowRisc.TagCache.PseudoLRU
import LowRisc.Socip.ArbiterRuns
import LowRisc.Debug.RegDemux
import LowRisc.Debug.CtmLog
import LowRisc.Debug.CtmSymbols
import LowRisc.Debug.HostInterface
import LowRisc.Lib.Slots
import LowRisc.Debug.CoreTracer
import LowRisc.TagCache.Responses
import LowRisc.TagCache.LockTable
import LowRisc.TagCache.LockRuns
import LowRisc.Lib.Parity
import LowRisc.Uncore.Ecc
import LowRisc.Rocket.Decode
import LowRisc.Rocket.DecodeCovers
import LowRisc.Rocket.DecodeSums
import LowRisc.Rocket.DecodeTables
import LowRisc.Lib.Serial
import LowRisc.Rocket.MulDiv
import LowRisc.Rocket.Multiplier
import LowRisc.Rocket.Divider
import LowRisc.Rocket.MulDivOperands
import LowRisc.Rocket.MulDivPhases
import LowRisc.Rocket.MulDivRuns
import LowRisc.Lib.AtomicMemory
import LowRisc.Lib.Family
import LowRisc.Coherence.Policy
import LowRisc.Coherence.Client
import LowRisc.Coherence.Manager
import LowRisc.Coherence.System
import LowRisc.Coherence.Rights
import LowRisc.Coherence.ClientMoves
import LowRisc.Coherence.Handshake
import LowRisc.Coherence.ManagerMoves
import LowRisc.Coherence.ManagerSound
import LowRisc.Coherence.ManagerShared
import LowRisc.Coherence.RightsRuns
import LowRisc.Coherence.Values
import LowRisc.Coherence.ClientValues
import LowRisc.Coherence.ManagerValues
import LowRisc.Coherence.Accesses
import LowRisc.Coherence.Messages
import LowRisc.TagCache.Completion
import LowRisc.TagCache.RowStore
import LowRisc.TagCache.Contents
import LowRisc.TagCache.Requests
import LowRisc.TagCache.BankRuns
import LowRisc.TagCache.RequestRuns
import LowRisc.Lib.SparseTable
import LowRisc.TagCache.Places
import LowRisc.TagCache.Views
import LowRisc.TagCache.Levels
import LowRisc.TagCache.Transactions
import LowRisc.TagCache.Searching
import LowRisc.TagCache.Updating
import LowRisc.TagCache.TransactionSteps
import LowRisc.TagCache.TopMapCreation
import LowRisc.TagCache.TransactionRuns
