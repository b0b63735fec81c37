import KrovaCoin.Validation.ForkInputs
import KrovaCoin.Validation.PayoutRelay
import KrovaCoin.Sapling.WalletRuns
import KrovaCoin.Script.SignatureHash
import KrovaCoin.Wallet.FundTransaction
import KrovaCoin.Spork
import KrovaCoin.TimeData
import KrovaCoin.StakeWeight
import KrovaCoin.Validation.StakeLookup
import KrovaCoin.MinerTime
import KrovaCoin.PackageScores
import KrovaCoin.Wallet.OperationAccounts
import KrovaCoin.Validation.Undo
import KrovaCoin.Consensus.TxAmounts
import KrovaCoin.Validation.CanonicalPayout
import KrovaCoin.Validation.Accounting
import KrovaCoin.Validation.MerkleMalleability
import KrovaCoin.Wallet.CoinStake
import KrovaCoin.FixedPoint
import KrovaCoin.Sapling.CommitmentTree
import KrovaCoin.BlockProof
import KrovaCoin.Script.Multisig
import KrovaCoin.MempoolOrder
import KrovaCoin.VarInt
import KrovaCoin.RollingBloom
import KrovaCoin.MerkleBlock
import KrovaCoin.Wallet.PaymentTotals
import KrovaCoin.BlockTree
import KrovaCoin.SchedulerClient
import KrovaCoin.Validation.ChainSafety
