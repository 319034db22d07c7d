import CrowdTic.Abi
import CrowdTic.AdmissionRate
import CrowdTic.AdmitHead
import CrowdTic.AdmitLosses
import CrowdTic.AtomicCalls
import CrowdTic.Calldata
import CrowdTic.Cancellations
import CrowdTic.CommitAccounts
import CrowdTic.CommitRetries
import CrowdTic.CommitsAgree
import CrowdTic.Credits
import CrowdTic.Decimal
import CrowdTic.Escrow
import CrowdTic.Expiry
import CrowdTic.Hex
import CrowdTic.HoldAtomic
import CrowdTic.HoldOrders
import CrowdTic.IdleBucket
import CrowdTic.Idempotency
import CrowdTic.KycAuthority
import CrowdTic.NobodyLost
import CrowdTic.OrderAmounts
import CrowdTic.Prices
import CrowdTic.QueueOrder
import CrowdTic.ReleaseOwner
import CrowdTic.ResaleLock
import CrowdTic.Reseeding
import CrowdTic.RetryAfter
import CrowdTic.Rlp
import CrowdTic.SaleStart
import CrowdTic.SeatMints
import CrowdTic.Seed
import CrowdTic.SignTx
import CrowdTic.SoldFinal
import CrowdTic.StakeLock
import CrowdTic.SupplyCap
import CrowdTic.TokenHolders
import CrowdTic.TxHash
import CrowdTic.UserLimit
import CrowdTic.Verifiers
import CrowdTic.Rejoin
import CrowdTic.Lottery
import CrowdTic.PoolKeys
import CrowdTic.CronSweep
import CrowdTic.SweepMisses
import CrowdTic.BadTokens
import CrowdTic.ClaimSchedule
import CrowdTic.Quantities
import CrowdTic.Der
import CrowdTic.SignatureItems
import CrowdTic.Soulbound
import CrowdTic.MintNonces
import CrowdTic.RateLimit
import CrowdTic.RateLimitRuns
import CrowdTic.RateLimitRefusals
import CrowdTic.RateLimitKv
import CrowdTic.EdgeGate
import CrowdTic.JtiAllowlist
import CrowdTic.BackendsAgree
import CrowdTic.Overtaking
import CrowdTic.TokenConsent
import CrowdTic.Worker
import CrowdTic.EventsApart
import CrowdTic.LetIn
import CrowdTic.EagerTokens
import CrowdTic.OrderEvents
import CrowdTic.Draining
import CrowdTic.NftConsent
import CrowdTic.ScriptErrors
