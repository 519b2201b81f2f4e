import Mathlib.Algebra.Ring.Nat
import Mathlib.Data.Int.Notation
import Mathlib.Logic.Function.Basic
import Murlan.Base.Async
import Murlan.Base.Run

/-!
# Withdrawals

`money/withdrawals.ts` and the reconciler of `money/paymentMonitor.ts` as programs
over what they await: the withdrawals repository, the wallet, the payout provider.
A wallet credit carries a unique reference, so it is booked at most once or fails
and leaves nothing (`walletService.ts`); the statements of one unit of work are one
query. Any query may fail, before or after it took effect. `U` is the type of user
ids; a withdrawal's id is the number of its row.
-/

namespace Murlan

/-- The states of a withdrawal. -/
inductive WithdrawalStatus where
  | pending | completed | rejected
  deriving DecidableEq, Repr

/-- Audit fields to stamp; `none` leaves a field as it is. -/
structure WithdrawalResolution (U : Type) where
  resolvedByAdminId : Option (Option U) := none
  providerRef : Option (Option String) := none
  network : Option (Option String) := none
  txHash : Option (Option String) := none
  failureReason : Option (Option String) := none

/-- A withdrawal's row. -/
structure WithdrawalRecord (U : Type) where
  id : ℕ
  userId : U
  amountCents : ℕ
  destination : String
  status : WithdrawalStatus := .pending
  providerRef : Option String := none
  network : Option String := none
  txHash : Option String := none
  resolvedByAdminId : Option U := none
  failureReason : Option String := none
  deriving DecidableEq, Repr

/-- Who resolved it and how is written; what the audit leaves out stays. -/
def WithdrawalRecord.stamp {U : Type} (r : WithdrawalRecord U) (audit : WithdrawalResolution U) :
    WithdrawalRecord U :=
  { r with
    resolvedByAdminId := audit.resolvedByAdminId.getD r.resolvedByAdminId
    providerRef := audit.providerRef.getD r.providerRef
    network := audit.network.getD r.network
    txHash := audit.txHash.getD r.txHash
    failureReason := audit.failureReason.getD r.failureReason }

/-- A resolved row: its new status and the audit fields. -/
def WithdrawalRecord.resolve {U : Type} (r : WithdrawalRecord U) (status : WithdrawalStatus)
    (audit : WithdrawalResolution U) : WithdrawalRecord U :=
  { r with status := status }.stamp audit

/-- What the payout provider answers. -/
structure PayoutResult where
  ok : Bool
  duplicate : Bool := false
  ambiguous : Bool := false
  providerRef : Option String := none
  error : Option String := none
  deriving DecidableEq, Repr

/-- Neither sent, nor sent before, nor possibly sent. -/
def PayoutResult.refused (r : PayoutResult) : Bool := !r.ok && !r.duplicate && !r.ambiguous

/-- A row of the provider's history. -/
structure BinanceWithdrawalStatus where
  withdrawOrderId : ℕ
  status : ℤ
  amountCents : ℤ
  deriving DecidableEq, Repr

/-- Cancelled, rejected, failed. -/
def binanceWithdrawFailed : List ℤ := [1, 3, 5]

/-- The refusals of the service. -/
inductive WithdrawalError where
  | badAmount
  | belowMin (minCents : ℤ)
  | aboveMax
  | noDestination
  | insufficientFunds
  | notFound
  | notPending
  | selfResolve
  | badDestination
  | payoutAmbiguous (error : Option String)
  | payoutFailed (error : Option String)
  /-- A call to a repository, the wallet or the provider that failed. -/
  | store
  deriving DecidableEq, Repr

/-- The error code of a refusal. -/
def WithdrawalError.code : WithdrawalError → String
  | .badAmount => "bad_amount"
  | .belowMin _ => "below_min"
  | .aboveMax => "above_max"
  | .noDestination | .badDestination => "bad_destination"
  | .insufficientFunds => "insufficient_funds"
  | .notFound => "not_found"
  | .notPending => "not_pending"
  | .selfResolve => "self_resolve"
  | .payoutAmbiguous _ => "payout_ambiguous"
  | .payoutFailed _ => "payout_failed"
  | .store => "store"

/-- The text of a refusal. -/
def WithdrawalError.message : WithdrawalError → String
  | .badAmount => "Shumë e pavlefshme."
  | .belowMin c => s!"Tërheqja minimale është {c} cent."
  | .aboveMax => "Tërheqja kalon limitin maksimal."
  | .noDestination => "Destinacioni i tërheqjes mungon."
  | .insufficientFunds => "Bilanc i pamjaftueshëm."
  | .notFound => "Tërheqja nuk u gjet."
  | .notPending => "Tërheqja nuk është në pritje."
  | .selfResolve => "Nuk mund të vendosësh për tërheqjen tënde."
  | .badDestination => "Adresa e tërheqjes është e pavlefshme."
  | .payoutAmbiguous e =>
    let e := e.getD "e panjohur"
    s!"Pagesa është e PASIGURT (mund të jetë dërguar): {e}. NUK u rikthye — verifiko on-chain para se ta provosh sërish."
  | .payoutFailed e =>
    let e := e.getD "e panjohur"
    s!"Pagesa dështoi: {e}. Fondet u kthyen lojtarit — provoje sërish ose dërgo manualisht."
  | .store => "call failed"

/-- `withdrawal_refund:<id>` and `withdrawal_reversal:<id>`. -/
inductive RefundRef where
  | refund (id : ℕ)
  | reversal (id : ℕ)
  deriving DecidableEq, Repr

/-- What the service awaits. -/
inductive Desk (U : Type) where
  | find (id : ℕ)
  /-- The request's unit of work: the debit and the row. -/
  | hold (userId : U) (amountCents : ℕ) (destination : String)
  | setStatusIfPending (id : ℕ) (status : WithdrawalStatus) (audit : WithdrawalResolution U)
  /-- The reject's unit of work: the status and the refund. -/
  | rejectAndRefund (id : ℕ) (audit : WithdrawalResolution U) (userId : U) (amountCents : ℕ)
  | credit (userId : U) (amountCents : ℕ) (ref : RefundRef)
  | markReversed (id : ℕ)
  | setAudit (id : ℕ) (audit : WithdrawalResolution U)
  /-- The provider is called. -/
  | send (id amountCents : ℕ) (address : String)
  /-- The provider answers. -/
  | outcome (id : ℕ)
  | listRecent
  /-- The reconciler's `find`. -/
  | findWithdrawal (id : ℕ)
  | notify

/-- What a query answers: the rows' queries the row, if there is one and it was pending. -/
@[reducible] def Desk.Answer {U : Type} : Desk U → Type
  | .find _ | .findWithdrawal _ | .hold _ _ _ | .setStatusIfPending _ _ _ | .rejectAndRefund _ _ _ _ =>
    Option (WithdrawalRecord U)
  | .credit _ _ _ | .markReversed _ | .setAudit _ _ | .send _ _ _ | .notify => Unit
  | .outcome _ => PayoutResult
  | .listRecent => List BinanceWithdrawalStatus

/-- A program of the service. -/
abbrev Clerk (U α : Type) := Async (Desk U) Desk.Answer WithdrawalError α

/-- How an automatic payout ends. -/
inductive AutoOutcome where
  | paid | duplicate | ambiguous | failed | notPending | badDestination
  deriving DecidableEq, Repr

/-- What an automatic payout answers. -/
structure AutoResult where
  outcome : AutoOutcome
  providerRef : Option String := none
  error : Option String := none
  deriving DecidableEq, Repr

/-- The white space and line ends that `trim` removes. -/
def isTrimmed (c : Char) : Bool :=
  (9 ≤ c.toNat && c.toNat ≤ 13) || (0x2000 ≤ c.toNat && c.toNat ≤ 0x200a) ||
    c.toNat ∈ [0x20, 0xa0, 0x1680, 0x2028, 0x2029, 0x202f, 0x205f, 0x3000, 0xfeff]

/-- `s.trim().length`, in UTF-16 units. -/
def trimmedLength (s : String) : ℕ :=
  let chars := ((s.toList.dropWhile isTrimmed).reverse.dropWhile isTrimmed).reverse
  (chars.map fun c => if c.toNat < 0x10000 then 1 else 2).sum

/-- The bounds of a withdrawal. -/
structure WithdrawalLimits where
  minCents : ℤ := 500
  maxCents : ℤ := 1000000

namespace WithdrawalService

variable {U : Type}

/-- The row of a withdrawal, read. -/
def find (id : ℕ) : Clerk U (Option (WithdrawalRecord U)) := .await (Desk.find id)

/-- The status is written if the row is still pending, in one statement. -/
def setStatusIfPending (id : ℕ) (status : WithdrawalStatus) (audit : WithdrawalResolution U) :
    Clerk U (Option (WithdrawalRecord U)) :=
  .await (Desk.setStatusIfPending id status audit)

/-- The audit fields, written. -/
def setAudit (id : ℕ) (audit : WithdrawalResolution U) : Clerk U Unit := .await (Desk.setAudit id audit)

/-- A refund, under its reference. -/
def credit (userId : U) (amountCents : ℕ) (ref : RefundRef) : Clerk U Unit :=
  .await (Desk.credit userId amountCents ref)

/-- The row is marked as reversed. -/
def markReversed (id : ℕ) : Clerk U Unit := .await (Desk.markReversed id)

/-- The provider is called, and some time later answers. -/
def payout (id amountCents : ℕ) (address : String) : Clerk U PayoutResult := do
  .await (Desk.send id amountCents address)
  .await (Desk.outcome id)

/-- `request`: the checks, then the debit and the row. -/
def request (limits : WithdrawalLimits) (userId : U) (amountCents : ℤ) (destination : String) :
    Clerk U (WithdrawalRecord U) := do
  .throwIf (amountCents ≤ 0) .badAmount
  .throwIf (amountCents < limits.minCents) (.belowMin limits.minCents)
  .throwIf (limits.maxCents < amountCents) .aboveMax
  .throwIf (trimmedLength destination < 4) .noDestination
  match ← Async.await (Desk.hold userId amountCents.toNat destination) with
  | none => throw .insufficientFunds
  | some rec => pure rec

/-- Mark a withdrawal paid out externally. -/
def approve (id : ℕ) (audit : WithdrawalResolution U) : Clerk U (WithdrawalRecord U) := do
  match ← find id with
  | none => throw .notFound
  | some _ =>
    match ← setStatusIfPending id .completed audit with
    | none => throw .notPending
    | some claimed => pure claimed

variable [DecidableEq U]

/-- Reject and refund: in one unit of work, or the status first. -/
def reject (uow : Bool) (id : ℕ) (audit : WithdrawalResolution U) : Clerk U (WithdrawalRecord U) := do
  match ← find id with
  | none => throw .notFound
  | some rec =>
    .throwIf (rec.status ≠ .pending) .notPending
    .throwIf (audit.resolvedByAdminId = some (some rec.userId)) .selfResolve
    if uow then
      match ← Async.await (Desk.rejectAndRefund id audit rec.userId rec.amountCents) with
      | none => throw .notPending
      | some claimed => pure claimed
    else
      match ← setStatusIfPending id .rejected audit with
      | none => throw .notPending
      | some claimed =>
        credit rec.userId rec.amountCents (.refund id)
        pure claimed

/-- Approve and send. The row is claimed before the provider is called; only a definite
failure is refunded. Without a provider this is `approve`. -/
def payoutNow (isValidTronAddress : String → Bool) (provider : Bool) (id : ℕ)
    (resolvedByAdminId : Option U) : Clerk U (WithdrawalRecord U) := do
  match ← find id with
  | none => throw .notFound
  | some rec =>
    .throwIf (rec.status ≠ .pending) .notPending
    .throwIf (resolvedByAdminId = some rec.userId) .selfResolve
    .throwIf (isValidTronAddress rec.destination = false) .badDestination
    if provider then
      match ← setStatusIfPending id .completed { resolvedByAdminId := some resolvedByAdminId } with
      | none => throw .notPending
      | some claimed =>
        let r ← payout id rec.amountCents rec.destination
        if r.ok then
          -- the money is sent: a failed stamp does not change the answer
          (setAudit id { providerRef := some r.providerRef }).ignore
          pure { claimed with providerRef := r.providerRef }
        else if r.duplicate then
          (setAudit id { providerRef := some r.providerRef
                         failureReason := some "duplicate send (already paid) — marked paid, no refund" }).ignore
          pure { claimed with
            providerRef := r.providerRef, failureReason := some "duplicate send (already paid)" }
        else if r.ambiguous then
          let error := r.error.getD ""
          (setAudit id { failureReason := some (some
            ((s!"AMBIGUOUS send — left as paid, NOT refunded (verify on-chain): {error}").take 280).toString) }).ignore
          throw (.payoutAmbiguous r.error)
        else
          credit rec.userId rec.amountCents (.refund id)
          markReversed id
          throw (.payoutFailed r.error)
    else approve id { resolvedByAdminId := some resolvedByAdminId }

/-- `payoutNow` in the background: the outcome is returned, a provider that throws is
ambiguous, and a refund that fails is logged. -/
def autoPayout (isValidTronAddress : String → Bool) (id : ℕ) : Clerk U AutoResult := do
  match ← find id with
  | none => pure { outcome := .notPending, error := some "not_found" }
  | some rec =>
    if rec.status ≠ .pending then pure { outcome := .notPending }
    else if isValidTronAddress rec.destination = false then
      pure { outcome := .badDestination, error := some "invalid destination" }
    else
      match ← setStatusIfPending id .completed {} with
      | none => pure { outcome := .notPending }
      | some _ =>
        let r ← Async.tryCatch (payout id rec.amountCents rec.destination) fun _ =>
          pure { ok := false, ambiguous := true, error := some "payout threw (ambiguous)" }
        if r.ok then
          (setAudit id { providerRef := some r.providerRef }).ignore
          pure { outcome := .paid, providerRef := r.providerRef }
        else if r.duplicate then
          (setAudit id { providerRef := some r.providerRef
                         failureReason := some "duplicate send (already paid) — auto, no refund" }).ignore
          pure { outcome := .duplicate, providerRef := r.providerRef, error := r.error }
        else if r.ambiguous then
          let error := r.error.getD ""
          (setAudit id { failureReason := some (some
            ((s!"AMBIGUOUS auto-send — left paid, NOT refunded: {error}").take 280).toString) }).ignore
          pure { outcome := .ambiguous, error := r.error }
        else
          Async.ignore do
            credit rec.userId rec.amountCents (.refund id)
            markReversed id
          pure { outcome := .failed, error := r.error }

/-- One row of the provider's history; answers whether a withdrawal was reversed. -/
def reconcileOne (r : BinanceWithdrawalStatus) : Clerk U Bool :=
  if r.status ∉ binanceWithdrawFailed then pure false
  else do
    match ← Async.await (Desk.findWithdrawal r.withdrawOrderId) with
    | none => pure false
    | some wd =>
      if wd.status ≠ .completed then pure false
      else do
        if r.amountCents ≠ wd.amountCents then .await Desk.notify
        credit wd.userId wd.amountCents (.reversal r.withdrawOrderId)
        markReversed r.withdrawOrderId
        .await Desk.notify
        pure true

/-- The provider's records, one after another. -/
def reconcileAll : List BinanceWithdrawalStatus → Clerk U ℕ
  | [] => pure 0
  | r :: records => do
    let reversed ← reconcileOne r
    let count ← reconcileAll records
    pure (count + if reversed then 1 else 0)

/-- Give back payouts that the provider accepted and later failed. -/
def reconcileFailedWithdrawals : Clerk U ℕ := do
  let records ← Async.await (Desk.listRecent (U := U))
  reconcileAll records

end WithdrawalService

end Murlan
