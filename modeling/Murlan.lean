import Murlan.Base.Cyclic
import Murlan.Base.Run
import Murlan.Spec.Match
import Murlan.Spec.SingleGame
import Murlan.Proof.Progress
import Murlan.Proof.Match
import Murlan.Proof.Waiting
import Murlan.Proof.Winner
import Murlan.Spec.Money
import Murlan.Proof.Ledger
import Murlan.Proof.Money
import Murlan.Proof.Conservation
import Murlan.Spec.Gateway
import Murlan.Spec.Messages
import Murlan.Proof.Rooms
import Murlan.Proof.Quiet
import Murlan.Proof.MatchEnd
import Murlan.Proof.Pot
import Murlan.Proof.Start
import Murlan.Proof.Escrow
import Murlan.Proof.Trick
import Murlan.Proof.Places
import Murlan.Base.Async
import Murlan.Spec.WalletService
import Murlan.Spec.Sessions
import Murlan.Proof.Writes
import Murlan.Proof.Reconcile
import Murlan.Spec.WithdrawalDesk
import Murlan.Proof.Clerk
import Murlan.Proof.Custody
import Murlan.Proof.Withdrawals
import Murlan.Base.Book
import Murlan.Spec.Tournament
import Murlan.Proof.Tournament
import Murlan.Proof.Outcomes
import Murlan.Spec.ClubWar
import Murlan.Proof.ClubWar
import Murlan.Spec.Direct
import Murlan.Proof.Direct
import Murlan.Proof.Calls
import Murlan.Proof.Cards
import Murlan.Proof.Secrecy
import Murlan.Proof.Finite
import Murlan.Proof.BotSearch
import Murlan.Proof.Score
import Murlan.Proof.Switch
import Murlan.Proof.Seats
import Murlan.Proof.Membership
import Murlan.Proof.Occupied
import Murlan.Proof.Zombie
import Murlan.Base.Knockout
import Murlan.Proof.Bracket
import Murlan.Proof.Reports
import Murlan.Base.Saga
import Murlan.Proof.Registration
import Murlan.Base.Pool
import Murlan.Spec.AutoPayout
import Murlan.Proof.AutoPayout
import Murlan.Spec.Quests
import Murlan.Spec.Rewards
import Murlan.Proof.Quests
import Murlan.Proof.Keepsakes
import Murlan.Proof.RewardClaims
import Murlan.Proof.Settlement
import Murlan.Spec.Friends
import Murlan.Proof.Friends
import Murlan.Base.Crew
import Murlan.Spec.Compliance
import Murlan.Proof.Compliance
import Murlan.Proof.Admins
import Murlan.Spec.Admins
import Murlan.Proof.LossCap
import Murlan.Spec.LossCap
import Murlan.Proof.AdminAdjust
import Murlan.Spec.AdminAdjust
import Murlan.Proof.RefreshTokens
import Murlan.Spec.RefreshTokens
import Murlan.Proof.VerificationTokens
import Murlan.Spec.VerificationTokens
import Murlan.Spec.Clubs
import Murlan.Proof.Clubs
import Murlan.Spec.Ranked
import Murlan.Proof.Ranked
import Murlan.Spec.Sweeps
import Murlan.Proof.Climb
import Murlan.Base.Rounding
import Murlan.Proof.Shuffle
import Murlan.Proof.ProvablyFair
import Murlan.Base.Gregorian
import Murlan.Proof.WeekKey
import Murlan.Proof.Matchmaking
import Murlan.Proof.LegalPlays
import Murlan.Proof.BotDecision
import Murlan.Spec.WalletServer
import Murlan.Proof.Ceiling
import Murlan.Proof.DepositRows
import Murlan.Proof.DepositCap
import Murlan.Spec.TronDeposit
import Murlan.Proof.TronDeposit
import Murlan.Base.Paging
import Murlan.Spec.LedgerPages
import Murlan.Proof.LedgerPages
import Murlan.Spec.Collusion
import Murlan.Proof.Collusion
import Murlan.Spec.BinancePayout
import Murlan.Proof.BinancePayout
import Murlan.Spec.BotWorkerPool
import Murlan.Proof.BotWorkerPool
import Murlan.Proof.OperatorAlerts
import Murlan.Base.Entries
import Murlan.Spec.LoginThrottle
import Murlan.Proof.LoginThrottle
import Murlan.Proof.Handshakes
import Murlan.Base.PromiseChains
import Murlan.Spec.TransferCap
import Murlan.Proof.TransferCap
import Murlan.Spec.DepositWebhook
import Murlan.Proof.DepositWebhook
import Murlan.Proof.WebhookReplay
import Murlan.Base.Numerals
import Murlan.Spec.TronAddress
import Murlan.Proof.TronAddress
import Murlan.Proof.RolloutEnd
import Murlan.Proof.Sweeps
import Murlan.Proof.SweepTick
import Murlan.Proof.Replay
import Murlan.Proof.RankedGroup
import Murlan.Base.Journal
import Murlan.Proof.FairDeal
import Murlan.Proof.Seeds
import Murlan.Proof.Balances
