import MerkleTox.Client.Convergence
import MerkleTox.Core.Acceptance
import MerkleTox.Core.Ancestry
import MerkleTox.Core.Challenge
import MerkleTox.Core.FailedEffects
import MerkleTox.Core.ForwardOnly
import MerkleTox.Core.Heads
import MerkleTox.Core.KeyWraps
import MerkleTox.Core.MessageKeys
import MerkleTox.Core.OneVote
import MerkleTox.Core.OpaqueBooks
import MerkleTox.Core.OverlayReads
import MerkleTox.Core.PathCache
import MerkleTox.Core.Records
import MerkleTox.Core.RotationRights
import MerkleTox.Core.SoftAnchors
import MerkleTox.Core.TrustPaths
import MerkleTox.Core.VerifiedWrites
import MerkleTox.Fs.CheckpointRuns
import MerkleTox.Fs.EffectiveTimes
import MerkleTox.Fs.Invisibility
import MerkleTox.Fs.Metadata
import MerkleTox.Fs.OpaqueRuns
import MerkleTox.Fs.PackLookup
import MerkleTox.Fs.RatchetFile
import MerkleTox.Fs.Recovery
import MerkleTox.Fs.Reopening
import MerkleTox.Fs.Serving
import MerkleTox.Fs.SwarmScheduling
import MerkleTox.Proto.CatchAll
import MerkleTox.Proto.SkipValue
import MerkleTox.Reconcile.Counts
import MerkleTox.Reconcile.Difference
import MerkleTox.Reconcile.Fetching
import MerkleTox.Reconcile.Shards
import MerkleTox.Reconcile.Tiers
import MerkleTox.Sequenced.AtMostOnce
import MerkleTox.Sequenced.BackPressure
import MerkleTox.Sequenced.Bookkeeping
import MerkleTox.Sequenced.Delivery
import MerkleTox.Sequenced.Duplicates
import MerkleTox.Sequenced.PacketSizes
import MerkleTox.Sequenced.QuotaSwap
import MerkleTox.Sequenced.Scheduler
import MerkleTox.Sequenced.Termination
import MerkleTox.Sequenced.Wakeup
import MerkleTox.Wire.AuthBytes
