import Dsn.State.Binding
import Dsn.State.SnapshotParsing
import Dsn.Types.AddressText
import Dsn.State.Pointers
import Dsn.Mempool.Order
import Dsn.Mempool.Authenticity
import Dsn.Mempool.Mirror
import Dsn.Mempool.Lockout
import Dsn.Staking.Traces
import Dsn.Staking.Payouts
import Dsn.VM.Gas
import Dsn.VM.Reports
import Dsn.VM.Isolation
import Dsn.VM.Panics
import Dsn.Consensus.SetBinding
import Dsn.Consensus.Soundness
import Dsn.Consensus.Authorization
import Dsn.Consensus.Retention
import Dsn.Consensus.Roots
import Dsn.Consensus.WallClock
import Dsn.Consensus.Issuance
import Dsn.Consensus.Pending
import Dsn.Consensus.VoteStore
import Dsn.Network.Routing
import Dsn.Network.CatchUp
import Dsn.Network.SnapshotWire
import Dsn.Network.SyncRuns
import Dsn.Network.Gossip
import Dsn.Network.PeerStore
import Dsn.Indexer.Events
import Dsn.Indexer.Height
import Dsn.Consensus.Delivery
import Dsn.Node.Startup
import Dsn.Consensus.Fairness
import Dsn.Consensus.Accumulation
import Dsn.Node.Production
import Dsn.Rpc.Estimate
import Dsn.Wallet.Intent
import Dsn.Wallet.ValidatorKey
