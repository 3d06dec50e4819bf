import Safenet.Lib.BTreeMap
import Safenet.Lib.Cells
import Safenet.Lib.Run
import Safenet.Lib.HashTree
import Safenet.Basic
import Safenet.Merkle
import Safenet.Consensus
import Safenet.Frost
import Safenet.Lib.Logged
import Safenet.Lib.Tally
import Safenet.Core.StateMachine
import Safenet.Validator.SecretStore
import Safenet.Validator.State
import Safenet.Validator.Preprocess
import Safenet.Validator.Sign
import Safenet.Validator.Keygen
import Safenet.Validator.Sessions
import Safenet.Validator.Commands
import Safenet.Validator.Node
import Safenet.Validator.Rollover
import Safenet.Validator.Epochs
import Safenet.Validator.Ceremony
import Safenet.Contracts.Secp256k1
import Safenet.Contracts.Libraries
import Safenet.Contracts.Coordinator
import Safenet.Contracts.KeyGeneration
import Safenet.Contracts.NonceChunks
import Safenet.Contracts.Signatures
import Safenet.Validator.Toy
import Safenet.Validator.Agreement
import Safenet.Validator.Restarts
import Safenet.Validator.Complaints
import Safenet.Validator.NonceUse
import Safenet.Validator.SecretStability
import Safenet.Validator.Requests
import Safenet.Validator.SignatureIndex
import Safenet.Validator.Oracle
import Safenet.Core.Canonical
import Safenet.Contracts.Consensus
import Safenet.Validator.EpochTracking
import Safenet.Core.BlockWatcher
import Safenet.Core.EventWatcher
import Safenet.Core.Watcher
import Safenet.Core.Driver
import Safenet.Core.Alignment
import Safenet.Core.Replays
import Safenet.Core.Transactions
import Safenet.Core.Pruning
import Safenet.Contracts.SentinelOracle
import Safenet.Contracts.OracleAccounting
import Safenet.Lib.ERC20
import Safenet.Contracts.OracleSolvency
import Safenet.Sentinel.Service
import Safenet.Sentinel.Tallies
import Safenet.Sentinel.Bonds
import Safenet.Sentinel.Reveals
import Safenet.Lib.Links
import Safenet.Participation
import Safenet.Contracts.CurveGroup
import Safenet.Core.Fees
import Safenet.Core.Warp
import Safenet.Engine.MultiSend
import Safenet.Engine.Base
import Safenet.Engine.Batches
import Safenet.Engine.Checkers
import Safenet.Engine.Patterns
import Safenet.Engine.Verdicts
import Safenet.Engine.Packing
import Safenet.Engine.Histories
import Safenet.Engine.Orders
import Safenet.Frost.Selection
import Safenet.Contracts.Hashing
import Safenet.Contracts.Schnorr
import Safenet.Contracts.Messages
import Safenet.Frost.Sharing
import Safenet.Validator.Exchange
import Safenet.Validator.Seats
import Safenet.Validator.Confirmation
import Safenet.Contracts.Staking
import Safenet.Contracts.StakingQueue
import Safenet.Contracts.StakingLedger
import Safenet.Contracts.StakingSolvency
import Safenet.Contracts.StakingConfig
import Safenet.Contracts.Trailer
import Safenet.Contracts.Guard
import Safenet.Contracts.GuardRuns
import Safenet.Frost.Chunks
import Safenet.Validator.NonceSupply
