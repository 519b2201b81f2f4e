import Murlan.Base.Async
import Murlan.Spec.Wallet

/-!
# The wallet service, statement by statement

`money/walletService.ts` as programs over the repositories it awaits: each
`await users.…` and `await ledger.…` is one query. An instance runs its movements
directly on the repositories (no unit of work), each in a transaction of its own,
or bound to a transaction its caller opened.
-/

namespace Murlan

/-- The repository calls a movement awaits. -/
inductive Statement (U M : Type) where
  | findById (userId : U)
  | adjustBalance (userId : U) (deltaCents : ℤ)
  | append (tx : Transaction U M)
  | appendIdempotent (ref : ProviderRef M) (tx : Transaction U M)
  | findByProviderRef (ref : ProviderRef M)
  /-- `sumByUserTypesSince(userId, ['deposit'], startOfDay)`. -/
  | depositsToday (userId : U)
  | advisoryXactLock (userId : U)
  | recordAudit

/-- What a call answers: `findById` the user's balance, `adjustBalance` the new one,
`appendIdempotent` the row and whether it is new. -/
@[reducible] def Statement.Answer {U M : Type} : Statement U M → Type
  | .findById _ | .adjustBalance _ _ => Option ℤ
  | .append _ | .advisoryXactLock _ | .recordAudit => Unit
  | .appendIdempotent _ _ => Transaction U M × Bool
  | .findByProviderRef _ => Option (Transaction U M)
  | .depositsToday _ => ℤ

/-- What the service may throw. -/
inductive ServiceError (U : Type) where
  | wallet (error : WalletError U)
  | depositCapExceeded (userId : U) (usedCents amountCents capCents : ℤ)
  | transferToSelf
  | zeroAdjustment
  | boundDeduction
  | negativeRake
  /-- A repository call that failed. -/
  | store
  deriving DecidableEq, Repr

/-- The text of an error. -/
def ServiceError.message {U : Type} [ToString U] : ServiceError U → String
  | .wallet e => e.message
  | .depositCapExceeded u used amount cap => s!"deposit cap exceeded for {u}: {used}+{amount} > {cap}"
  | .transferToSelf => "cannot transfer to self"
  | .zeroAdjustment => "adjustment must be a non-zero integer"
  | .boundDeduction => "a providerRef-bound adjustment must be a credit (deposit), not a debit"
  | .negativeRake => "rake must be a non-negative integer"
  | .store => "repository call failed"

/-- How an instance reaches its repositories: on them (`uow` absent), in a
transaction of its own, or in its caller's (`bind`). -/
inductive Wiring where
  | direct | own | bound
  deriving DecidableEq, Repr

/-- The instance that runs inside `runTx`. -/
def Wiring.inner : Wiring → Wiring
  | .direct => .direct
  | .own | .bound => .bound

/-- What a credit or a debit returns. -/
structure MoveResult (U M : Type) where
  transaction : Transaction U M
  balanceCents : ℤ
  idempotent : Bool
  deriving DecidableEq, Repr

/-- What a transfer answers: the sender's new balance and both rows. -/
structure TransferResult (U M : Type) where
  balanceCents : ℤ
  outTx : Transaction U M
  inTx : Transaction U M
  deriving DecidableEq, Repr

/-- A program of the service: it awaits statements, and may throw. -/
abbrev Service (U M α : Type) := Async (Statement U M) Statement.Answer (ServiceError U) α

namespace WalletService

variable {U M : Type}

/-- The user's balance, read. -/
def findById (userId : U) : Service U M (Option ℤ) := .await (Statement.findById userId)

/-- The user's balance, moved. -/
def adjustBalance (userId : U) (deltaCents : ℤ) : Service U M (Option ℤ) :=
  .await (Statement.adjustBalance userId deltaCents)

/-- A row, written. -/
def append (tx : Transaction U M) : Service U M Unit := .await (Statement.append tx)

/-- A row, written unless one of its reference is there. -/
def appendIdempotent (ref : ProviderRef M) (tx : Transaction U M) :
    Service U M (Transaction U M × Bool) :=
  .await (Statement.appendIdempotent ref tx)

/-- The row of a reference, read. -/
def findByProviderRef (ref : ProviderRef M) : Service U M (Option (Transaction U M)) :=
  .await (Statement.findByProviderRef ref)

/-- What the user has deposited today, read. -/
def depositsToday (userId : U) : Service U M ℤ := .await (Statement.depositsToday userId)

/-- The audit trail, written. -/
def recordAudit : Service U M Unit := .await Statement.recordAudit

/-- An amount is positive and not too large. -/
def assertAmount (amountCents : ℤ) : Service U M Unit := do
  .throwIf (amountCents ≤ 0) (.wallet .amountNotPositive)
  .throwIf (maxAmountCents < amountCents) (.wallet .amountTooLarge)

/-- The lock is taken first, and only in a transaction of the instance's own. -/
def run {α : Type} (w : Wiring) (lockKey : Option U) (body : Service U M α) : Service U M α := do
  match w, lockKey with
  | .own, some userId => .await (Statement.advisoryXactLock userId)
  | _, _ => pure ()
  body

/-- The balance ceiling, against the balance read at the start. -/
def assertCeiling (userId : U) (current amountCents : ℤ) : Service U M Unit :=
  .throwIf (balanceCeilingCents < current + amountCents)
    (.wallet (.balanceCeiling userId current amountCents.toNat))

/-- The daily deposit cap; a deposit that is booked already is not checked. -/
def assertDepositCap (userId : U) (amountCents : ℤ) (ref : ProviderRef M) :
    Option ℤ → Service U M Unit
  | none => pure ()
  | some cap => do
    match ← findByProviderRef ref with
    | some _ => pure ()
    | none =>
      let used ← depositsToday userId
      .throwIf (cap < used + amountCents) (.depositCapExceeded userId used amountCents cap)

/-- The row of a credit. -/
def creditRow (userId : U) (amountCents : ℤ) (opts : CreditOptions M) : Transaction U M where
  account := .user userId
  type := opts.type
  amountCents := amountCents
  matchId := opts.matchId
  reason := opts.reason

/-- The row is appended first: its unique reference decides whether this is a replay. -/
def creditOnce (userId : U) (current amountCents : ℤ) (opts : CreditOptions M) (ref : ProviderRef M)
    (depositCapCents : Option ℤ) : Service U M (MoveResult U M) := do
  assertDepositCap userId amountCents ref depositCapCents
  let inserted ← appendIdempotent ref (creditRow userId amountCents opts)
  if inserted.2 then
    assertCeiling userId current amountCents
    match ← adjustBalance userId amountCents with
    | none => throw (.wallet (.failedToApply userId))
    | some balanceCents => pure ⟨inserted.1, balanceCents, false⟩
  else
    let balance ← findById userId
    pure ⟨inserted.1, balance.getD 0, true⟩

/-- A credit without a reference. On the bare repositories a balance that does not
move is compensated by a reversing row. -/
def creditPlain (w : Wiring) (userId : U) (current amountCents : ℤ) (opts : CreditOptions M) :
    Service U M (MoveResult U M) := do
  assertCeiling userId current amountCents
  let tx := creditRow userId amountCents opts
  append tx
  match ← adjustBalance userId amountCents with
  | some balanceCents => pure ⟨tx, balanceCents, false⟩
  | none =>
    if w = .direct then
      (append { tx with
        amountCents := -amountCents, reason := some "reversal: balance update failed" }).ignore
    throw (.wallet (.failedToApply userId))

/-- `credit`: the checks, the row, then the balance. -/
def credit (w : Wiring) (userId : U) (amountCents : ℤ) (opts : CreditOptions M)
    (depositCapCents : Option ℤ := none) : Service U M (MoveResult U M) := do
  assertAmount amountCents
  run w (if depositCapCents.isSome then some userId else none) do
    match ← findById userId with
    | none => throw (.wallet (.userNotFound (some userId)))
    | some current =>
      match opts.providerRef with
      | some ref => creditOnce userId current amountCents opts ref depositCapCents
      | none => creditPlain w userId current amountCents opts

/-- The row of a debit, which is negative. -/
def debitRow (userId : U) (amountCents : ℤ) (opts : DebitOptions M) : Transaction U M where
  account := .user userId
  type := opts.type
  amountCents := -amountCents
  matchId := opts.matchId
  reason := opts.reason

/-- The balance first; on the bare repositories a failed append gives it back. -/
def debit (w : Wiring) (userId : U) (amountCents : ℤ) (opts : DebitOptions M) :
    Service U M (MoveResult U M) := do
  assertAmount amountCents
  run w none do
    match ← adjustBalance userId (-amountCents) with
    | none =>
      let _ ← findById userId
      throw (.wallet (.insufficientFunds userId))
    | some balanceCents =>
      let tx := debitRow userId amountCents opts
      try
        append tx
        pure ⟨tx, balanceCents, false⟩
      catch e =>
        if w = .direct then
          let _ ← adjustBalance userId amountCents
        throw e

/-- `transfer`: a debit here and a credit there. -/
def transfer [DecidableEq U] (w : Wiring) (fromUserId toUserId : U) (amountCents : ℤ)
    (outReason inReason : String) : Service U M (TransferResult U M) := do
  assertAmount amountCents
  .throwIf (fromUserId = toUserId) .transferToSelf
  let out ← debit w.inner fromUserId amountCents
    { type := .transferOut, reason := some outReason }
  let credited ← credit w.inner toUserId amountCents
    { type := .transferIn, reason := some inReason }
  pure ⟨out.balanceCents, out.transaction, credited.transaction⟩

/-- The row of a rake. -/
def rakeRow (amountCents : ℤ) (matchId : Option M) (reason : Option String) : Transaction U M where
  account := .house
  type := .rake
  amountCents := amountCents
  matchId := matchId
  reason := some (reason.getD "rake")

/-- `recordRake`: a row of the house's, no balance. -/
def recordRake (amountCents : ℤ) (matchId : Option M) (reason : Option String)
    (ref : Option (ProviderRef M)) : Service U M (Transaction U M) := do
  .throwIf (amountCents < 0) .negativeRake
  match ref with
  | some ref =>
    let inserted ← appendIdempotent ref (rakeRow amountCents matchId reason)
    pure inserted.1
  | none =>
    append (rakeRow amountCents matchId reason)
    pure (rakeRow amountCents matchId reason)

/-- `adminAdjust`: a credit or a debit by hand, and the audit trail. -/
def adminAdjust (w : Wiring) (userId : U) (deltaCents : ℤ) (reason : String)
    (ref : Option (ProviderRef M)) : Service U M (MoveResult U M) := do
  .throwIf (deltaCents = 0) .zeroAdjustment
  .throwIf (ref.isSome ∧ deltaCents < 0) .boundDeduction
  if 0 < deltaCents then
    credit w userId deltaCents { type := .adminAdjust, reason := some reason, providerRef := ref }
  else debit w userId (-deltaCents) { type := .adminAdjust, reason := some reason }

/-- The adjustment and its audit row. -/
def adminAdjustAudited (w : Wiring) (userId : U) (deltaCents : ℤ) (reason : String)
    (ref : Option (ProviderRef M)) : Service U M (MoveResult U M) := do
  let res ← adminAdjust w.inner userId deltaCents reason ref
  if !res.idempotent then recordAudit
  pure res

end WalletService

end Murlan
