import Katana.Db.Versioned
import Katana.Primitives.TransactionHash
import Katana.Da.RoundTrip
import Katana.Da.Blob
import Katana.Trie.Consistency
import Katana.Core.Parallel
import Katana.Core.Registry
import Katana.Rpc.Proofs
import Katana.Rpc.ForkedEvents
import Katana.Rpc.Polling
import Katana.Rpc.Interleaving
import Katana.Service.BlockFull
import Katana.Service.Release
import Katana.Service.Instant
import Katana.Pool.DeployInvoke
import Katana.Pool.Delivery
import Katana.Pool.ChainNonce
import Katana.Pool.Messages
import Katana.Rpc.ForkIsolation
import Katana.Service.NativeCache
import Katana.Service.NextTimestamp
import Katana.Rpc.StateDiff
import Katana.Rpc.Lookups
import Katana.Fork.History
import Katana.Fork.Progress
import Katana.RetainLoops
import Katana.Sync.GasPrices
import Katana.Messaging.Failures
import Katana.Executor.ReceiptHash
import Katana.Executor.FeeSkip
import Katana.Rpc.TrieProof
