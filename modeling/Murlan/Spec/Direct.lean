import Mathlib.Algebra.Ring.Int.Defs
import Murlan.Spec.Money
import Murlan.Spec.WalletService

/-!
# Money without a unit of work

The money calls as a server runs them that was given no unit of work: `runAtomic`, `run` and
`runTx` call their body directly, so each statement is carried out on the in-memory
repositories at once (`Statement.inMemory`), and what a call throws undoes none of them.

One call runs at a time here; the claim it holds in `inFlight` while it runs is seen by
nobody, so `inFlight` is what other calls hold.
-/

namespace Murlan

variable {U M : Type} [DecidableEq U] [DecidableEq M]

namespace Db

/-- The ledger row that carries a reference, when there is one. -/
def findByProviderRef (db : Db U M) (ref : ProviderRef M) : Option (Transaction U M) :=
  db.ledger.find? fun tx => tx.providerRef = some ref

/-- `sumByUserTypesSince(userId, ['deposit'], startOfDay)`, where the first `startOfDay` rows
of the ledger are of earlier days. -/
def depositsToday (db : Db U M) (startOfDay : ℕ) (userId : U) : ℤ :=
  (((db.ledger.drop startOfDay).filter fun tx => tx.account = .user userId ∧ tx.type = .deposit).map
    fun tx => tx.amountCents).sum

end Db

/-- The in-memory repositories. A plain append refuses a reference that is booked. -/
def Statement.inMemory (startOfDay : ℕ) (q : Statement U M) (db : Db U M) :
    Except (ServiceError U) q.Answer × Db U M :=
  match q with
  | .findById userId => (.ok (db.balance userId), db)
  | .adjustBalance userId deltaCents =>
    match db.adjustBalance userId deltaCents with
    | none => (.ok none, db)
    | some db' => (.ok (db'.balance userId), db')
  | .append tx =>
    if tx.providerRef.any fun ref => (db.findByProviderRef ref).isSome then (.error .store, db)
    else (.ok (), db.append tx)
  | .appendIdempotent ref tx =>
    match db.findByProviderRef ref with
    | some row => (.ok (row, false), db)
    | none => (.ok ({ tx with providerRef := some ref }, true), db.append { tx with providerRef := some ref })
  | .findByProviderRef ref => (.ok (db.findByProviderRef ref), db)
  | .depositsToday userId => (.ok (db.depositsToday startOfDay userId), db)
  | .advisoryXactLock _ | .recordAudit => (.ok (), db)

/-- What a call throws: an error of the wallet, or the refusal of `computeSettlement`. -/
inductive MoneyError (U : Type) where
  | wallet (error : ServiceError U)
  | settlement (message : String)
  deriving DecidableEq, Repr

/-- A call on the repositories; the state stands whether it returns or throws. -/
abbrev Direct (U M α : Type) := ExceptT (MoneyError U) (StateM (Db U M)) α

/-- A movement of the wallet. -/
def Direct.wallet {α : Type} (startOfDay : ℕ) (p : Service U M α) : Direct U M α := fun db =>
  ((p.exec (Statement.inMemory startOfDay) db).1.mapError MoneyError.wallet,
    (p.exec (Statement.inMemory startOfDay) db).2)

/-- A payout or a refund of a match. -/
structure Payment (U M : Type) where
  userId : U
  amountCents : ℕ
  matchId : M
  reason : String
  ref : ProviderRef M
  deriving DecidableEq, Repr

/-- The winnings that are to be paid; every winning seat has its user. -/
def MatchRecord.winnings (r : MatchRecord U M) (s : Settlement) : List (Payment U M) :=
  if r.potCents = 0 then []
  else s.payouts.filterMap fun p =>
    if p.amountCents = 0 then none
    else (seatToUser r.players p.seat).map fun userId =>
      { userId, amountCents := p.amountCents, matchId := r.id, reason := "winnings", ref := .payout r.id p.seat }

/-- The stakes that are to be returned. -/
def MatchRecord.stakes (r : MatchRecord U M) : List (Payment U M) :=
  if r.stakeCents = 0 then []
  else r.players.map fun p =>
    { userId := p.userId, amountCents := r.stakeCents, matchId := r.id, reason := "refund",
      ref := .refund r.id p.seat }

namespace MoneyService

variable (startOfDay : ℕ)

/-- One payout, credited with no unit of work around it. -/
def pay (p : Payment U M) : Direct U M Unit := do
  let _ ← Direct.wallet startOfDay <| WalletService.credit .direct p.userId p.amountCents
    { type := .payout, reason := some p.reason, providerRef := some p.ref, matchId := some p.matchId }

/-- The stake of one player. -/
def stake (i : EscrowInput U M) (p : MatchPlayer U) : Direct U M Unit := do
  let _ ← Direct.wallet startOfDay <| WalletService.debit .direct p.userId i.stakeCents
    { type := .bet, matchId := some i.matchId, reason := some "stake" }

/-- The row of the match, then every stake. -/
def stakeAll (i : EscrowInput U M) : Direct U M Unit := do
  modify fun db => db.create i.record
  if 0 < i.stakeCents then i.players.forM (stake startOfDay i)

/-- The players whose balance does not cover the stake. -/
def insufficient (i : EscrowInput U M) (db : Db U M) : List U :=
  if 0 < i.stakeCents then
    (i.players.filter fun p => db.getBalance p.userId < i.stakeCents).map MatchPlayer.userId
  else []

/-- The escrow's body: a match already escrowed answers as before, else every seat pays in turn. -/
def escrowLocked (i : EscrowInput U M) : Direct U M (EscrowResult U) := do
  let db ← get
  match db.find i.matchId with
  | some existing => pure { ok := true, potCents := existing.potCents }
  | none =>
    if insufficient i db ≠ [] then pure (Money.insufficientFunds i (insufficient i db))
    else
      try
        stakeAll startOfDay i
        pure { ok := true, potCents := potCents i.stakeCents i.players.length }
      catch e =>
        match e with
        | .wallet (.wallet (.insufficientFunds userId)) => pure (Money.insufficientFunds i [userId])
        | e => throw e

/-- `escrowMatch`: busy while the match is in flight, else the body above. -/
def escrow (inFlight : M → Bool) (i : EscrowInput U M) : Direct U M (EscrowResult U) :=
  if inFlight i.matchId then pure (Money.busy i) else escrowLocked startOfDay i

/-- The payouts, the rake and the row's status. -/
def payWinners (r : MatchRecord U M) (s : Settlement) (winnerSeats : List ℕ) : Direct U M Unit := do
  (r.winnings s).forM (pay startOfDay)
  if 0 < r.potCents ∧ 0 < s.rakeCents then
    let _ ← Direct.wallet startOfDay <|
      WalletService.recordRake s.rakeCents (some r.id) none (some (.rake r.id))
  modify fun db => db.markSettled r.id winnerSeats

/-- `settleMatch`: nothing for a match in flight, unknown or closed; else the winners are paid. -/
def settle (inFlight : M → Bool) (i : SettleInput M) : Direct U M (Option Settlement) := do
  if inFlight i.matchId then pure none
  else
    match (← get).find i.matchId with
    | none => pure none
    | some r =>
      let winnerSeats := i.winnerSeats.filter fun s => (seatToUser r.players s).isSome
      if r.status ≠ .active ∨ winnerSeats = [] then pure none
      else
        match splitPot r.potCents r.rakeBps winnerSeats with
        | .error message => throw (.settlement message)
        | .ok s =>
          payWinners startOfDay r s winnerSeats
          pure (some s)

/-- Every stake, then the row's status. -/
def returnStakes (r : MatchRecord U M) : Direct U M Unit := do
  r.stakes.forM (pay startOfDay)
  modify fun db => db.markCancelled r.id

/-- `refundMatch`: nothing for a match in flight, unknown or closed; else every seat is paid back. -/
def refund (inFlight : M → Bool) (matchId : M) : Direct U M Unit := do
  if inFlight matchId then pure ()
  else
    match (← get).find matchId with
    | none => pure ()
    | some r => if r.status ≠ .active then pure () else returnStakes startOfDay r

end MoneyService

/-- The calls that move money. -/
inductive MoneyCall (U M : Type) where
  | credit (userId : U) (amountCents : ℤ) (opts : CreditOptions M) (depositCapCents : Option ℤ)
  | debit (userId : U) (amountCents : ℤ) (opts : DebitOptions M)
  | transfer (fromUserId toUserId : U) (amountCents : ℤ) (outReason inReason : String)
  | escrow (i : EscrowInput U M)
  | settle (i : SettleInput M)
  | refund (matchId : M)

/-- What the money calls answer with, side by side. -/
inductive MoneyAnswer (U M : Type) where
  | moved (r : MoveResult U M)
  | transferred (r : TransferResult U M)
  | escrowed (r : EscrowResult U)
  | settled (r : Option Settlement)
  | refunded
  deriving DecidableEq, Repr

/-- A call of a server without a unit of work. -/
def MoneyCall.run (startOfDay : ℕ) (inFlight : M → Bool) : MoneyCall U M → Direct U M (MoneyAnswer U M)
  | .credit u a opts cap => .moved <$> Direct.wallet startOfDay (WalletService.credit .direct u a opts cap)
  | .debit u a opts => .moved <$> Direct.wallet startOfDay (WalletService.debit .direct u a opts)
  | .transfer u v a out ins =>
    .transferred <$> Direct.wallet startOfDay (WalletService.transfer .direct u v a out ins)
  | .escrow i => .escrowed <$> MoneyService.escrow startOfDay inFlight i
  | .settle i => .settled <$> MoneyService.settle startOfDay inFlight i
  | .refund id => (fun _ => .refunded) <$> MoneyService.refund startOfDay inFlight id

/-- The call threw, or answered `ok: false`. -/
def MoneyAnswer.failed : Except (MoneyError U) (MoneyAnswer U M) → Bool
  | .error _ => true
  | .ok (.escrowed r) => !r.ok
  | .ok _ => false

end Murlan
