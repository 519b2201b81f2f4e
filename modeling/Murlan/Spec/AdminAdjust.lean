import Mathlib.Algebra.BigOperators.Group.List.Basic
import Murlan.Base.Pool
import Murlan.Spec.Wallet

/-!
# Manual balance adjustments

`adminAdjustPolicy.ts`, and the two doors to it: the route `POST /api/admin/users/:id/adjust`
and the `/credit` and `/debit` commands of the Telegram bot. Each admin's adjustments run one
after the other (`serializeAdjust`); the adjustment and its audit row are one transaction
(`WalletService.adminAdjustAudited`). `U` is the type of user ids, `M` that of match ids.
-/

namespace Murlan

/-- A row of the admins' audit log; only manual adjustments have an amount. -/
structure AdminActionRecord (U : Type) where
  adminId : U
  balanceAdjust : Bool
  targetUserId : Option U := none
  amountCents : ℤ := 0
  detail : Option String := none
  createdAt : ℕ
  deriving DecidableEq, Repr

/-- The wallet's database, the audit log and the clock. -/
structure AdjustDesk (U M : Type) where
  db : Db U M
  audit : List (AdminActionRecord U) := []
  now : ℕ := 0

/-- An adjustment as a door hands it over; `txId` is the lowercased hash of a deposit on the chain. -/
structure Adjustment (U : Type) where
  adminId : U
  userId : U
  deltaCents : ℤ
  reason : String
  txId : Option String := none
  detail : String
  deriving DecidableEq, Repr

/-- What a move of the wallet answers: whether the reference was booked before, and the balance. -/
structure MoveReceipt where
  idempotent : Bool
  balanceCents : ℤ
  deriving DecidableEq, Repr

/-- What `adminAdjust` throws, as far as the callers tell apart. -/
inductive AdjustFailure where
  | insufficientFunds
  | error
  deriving DecidableEq, Repr

namespace AdjustDesk

variable {U M : Type} [DecidableEq U] [DecidableEq M]

/-- `providerRef` `tron:<txid>`, as the player's own claim of the deposit has it. -/
def tronRef (txId : String) : ProviderRef M := .other ("tron:" ++ txId)

omit [DecidableEq M] in
/-- The ledger's `sumAdjustmentsBy`: what the admin has adjusted since, without the signs. -/
def sumAdjustmentsBy (s : AdjustDesk U M) (adminId : U) (sinceMs : ℕ) : ℕ :=
  ((s.audit.filter fun r => r.adminId = adminId ∧ r.balanceAdjust = true ∧ sinceMs ≤ r.createdAt).map
    (·.amountCents.natAbs)).sum

/-- The error of the wallet, as the callers see it. -/
def toFailure : WalletError U → AdjustFailure
  | .insufficientFunds _ => .insufficientFunds
  | _ => .error

/-- The row of the audit log. -/
def auditRow (s : AdjustDesk U M) (a : Adjustment U) : AdminActionRecord U :=
  { adminId := a.adminId, balanceAdjust := true, targetUserId := some a.userId, amountCents := a.deltaCents,
    detail := some a.detail, createdAt := s.now }

/-- The movement of an adjustment: its result, and the database after it. -/
def move (db : Db U M) (a : Adjustment U) : Except (WalletError U) (Bool × Db U M) :=
  if 0 < a.deltaCents then
    let ref := a.txId.map (tronRef (M := M))
    (db.credit a.userId a.deltaCents.toNat { type := .adminAdjust, reason := some a.reason, providerRef := ref }).map
      fun db' => (ref.any db.hasRef, db')
  else
    (db.debit a.userId (-a.deltaCents).toNat { type := .adminAdjust, reason := some a.reason }).map
      fun db' => (false, db')

/-- The transaction: only a movement is audited, an idempotent replay is not. -/
def adminAdjustAudited (s : AdjustDesk U M) (a : Adjustment U) : Except AdjustFailure (MoveReceipt × AdjustDesk U M) :=
  if a.deltaCents = 0 ∨ (a.txId.isSome ∧ a.deltaCents < 0) then .error .error
  else
    match move s.db a with
    | .error e => .error (toFailure e)
    | .ok (idempotent, db') =>
      .ok (⟨idempotent, db'.getBalance a.userId⟩,
        { s with db := db', audit := if idempotent then s.audit else s.audit ++ [s.auditRow a] })

end AdjustDesk

/-! ## What an adjustment awaits -/

/-- What a request awaits. -/
inductive AdjustQuery (U : Type) where
  /-- `Date.now()`. -/
  | clock
  | sumAdjustmentsBy (adminId : U) (sinceMs : ℕ)
  | adminAdjustAudited (a : Adjustment U)

/-- The type of each answer. -/
@[reducible] def AdjustQuery.Answer {U : Type} : AdjustQuery U → Type
  | .clock | .sumAdjustmentsBy _ _ => ℕ
  | .adminAdjustAudited _ => MoveReceipt

/-- A program of the adjust routes. -/
abbrev Adjuster (U α : Type) := Async (AdjustQuery U) AdjustQuery.Answer AdjustFailure α

namespace AdjustQuery

variable {U : Type}

/-- Reads the clock. -/
def readClock : Adjuster U ℕ := Async.await (AdjustQuery.clock (U := U))

/-- Awaits `sumAdjustmentsBy`. -/
def readSum (adminId : U) (sinceMs : ℕ) : Adjuster U ℕ := Async.await (AdjustQuery.sumAdjustmentsBy adminId sinceMs)

/-- Awaits the adjustment with its audit row. -/
def adjust (a : Adjustment U) : Adjuster U MoveReceipt := Async.await (AdjustQuery.adminAdjustAudited a)

end AdjustQuery

/-- The reasons of the governance to refuse. -/
inductive AdjustRefusal where
  | overCallLimit | overDailyCap | selfCredit
  deriving DecidableEq, Repr

/-- The most that one call may move. -/
def MAX_ADJUST_CENTS : ℕ := 500000

/-- The most that an admin may move in a day. -/
def DAILY_ADJUST_CAP_CENTS : ℕ := 2000000

/-- The length of the window the cap looks back. -/
def ADJUST_DAY_MS : ℕ := 24 * 60 * 60 * 1000

variable {U : Type} [DecidableEq U]

/-- The governance checks; a read of the log that fails counts as no usage. -/
def checkAdjustGovernance (adminId targetUserId : U) (deltaCents : ℤ) : Adjuster U (Option AdjustRefusal) := do
  let abs := deltaCents.natAbs
  if 0 < deltaCents ∧ targetUserId = adminId then return some .selfCredit
  if MAX_ADJUST_CENTS < abs then return some .overCallLimit
  let now ← AdjustQuery.readClock
  let used ← (AdjustQuery.readSum adminId (now - ADJUST_DAY_MS)).tryCatch fun _ => pure 0
  if DAILY_ADJUST_CAP_CENTS < used + abs then return some .overDailyCap
  return none

/-! ## The two doors -/

/-- What a door answers: the HTTP status and code of the route, or what the bot says. -/
inductive AdjustReply where
  | http (status : ℕ) (code : String)
  | sent (balanceCents : ℤ)
  | refused (refusal : AdjustRefusal)
  | alreadyCredited
  | failed (failure : AdjustFailure)
  deriving DecidableEq, Repr

/-- The status and the code of the answer. -/
def AdjustRefusal.code : AdjustRefusal → ℕ × String
  | .selfCredit => (403, "self_credit")
  | .overCallLimit => (422, "over_call_limit")
  | .overDailyCap => (422, "over_daily_cap")

/-- `/^[0-9a-fA-F]{64}$/`. -/
def isTronTxId (s : String) : Bool :=
  s.toList.length == 64 && s.toList.all fun c => c.isDigit || ('a' ≤ c && c ≤ 'f') || ('A' ≤ c && c ≤ 'F')

/-- `adjustSchema`, and the checks on its body. -/
def validAdjust (deltaCents : ℤ) (reason : String) (txId : Option String) : Bool :=
  deltaCents.natAbs ≤ MAX_ADJUST_CENTS && 1 ≤ reason.length && reason.length ≤ 280 && txId.all isTronTxId &&
    deltaCents != 0 && !(txId.isSome && deltaCents < 0)

/-- `POST /api/admin/users/:id/adjust`, from its critical section on. -/
def postAdjust (adminId userId : U) (deltaCents : ℤ) (reason : String) (txId : Option String) : Adjuster U AdjustReply :=
  if !validAdjust deltaCents reason txId then pure (.http 400 "validation")
  else do
    let txId := txId.map (·.toLower)
    match ← checkAdjustGovernance adminId userId deltaCents with
    | some refusal => pure (.http refusal.code.1 refusal.code.2)
    | none =>
      let detail := (txId.map fun t => reason ++ " [tron:" ++ t ++ "]").getD reason
      Async.tryCatch
        (do
          let res ← AdjustQuery.adjust { adminId, userId, deltaCents, reason, txId, detail }
          if res.idempotent then pure (.http 409 "already_credited") else pure (.sent res.balanceCents))
        fun
          | .insufficientFunds => pure (.http 402 "insufficient_funds")
          | .error => pure (.http 400 "error")

/-- The confirmed `/credit` (`credit`) or `/debit` of `cents`; a debit has no TxID. -/
def confirmAdjust (adminId userId : U) (credit : Bool) (cents : ℕ) (reason : String) (txId : Option String) :
    Adjuster U AdjustReply := do
  let delta : ℤ := if credit then cents else -cents
  let txId := if credit then txId.map (·.toLower) else none
  match ← checkAdjustGovernance adminId userId delta with
  | some refusal => pure (.refused refusal)
  | none =>
    let detail := reason ++ " (telegram)" ++ (txId.map fun t => " [tron:" ++ t ++ "]").getD ""
    Async.tryCatch
      (do
        let res ← AdjustQuery.adjust { adminId, userId, deltaCents := delta, reason, txId, detail }
        if res.idempotent then pure .alreadyCredited else pure (.sent res.balanceCents))
      fun failure => pure (.failed failure)

/-- A call of one of the two entries, the route or the bot. -/
inductive AdjustCall (U : Type) where
  | http (adminId userId : U) (deltaCents : ℤ) (reason : String) (txId : Option String)
  | telegram (adminId userId : U) (credit : Bool) (cents : ℕ) (reason : String) (txId : Option String)

namespace AdjustCall

omit [DecidableEq U] in
/-- The admin who calls. -/
def adminId : AdjustCall U → U
  | .http adminId .. | .telegram adminId .. => adminId

/-- What each entry runs. -/
def program : AdjustCall U → Adjuster U AdjustReply
  | .http adminId userId deltaCents reason txId => postAdjust adminId userId deltaCents reason txId
  | .telegram adminId userId credit cents reason txId => confirmAdjust adminId userId credit cents reason txId

end AdjustCall

/-! ## One server instance -/

/-- What happens beside the adjustments: the clock, movements of other types (a player's claim of
a deposit has its reference), and audit rows of other actions. -/
inductive AdjustBeside (U M : Type) where
  | clock (ms : ℕ)
  | credit (userId : U) (cents : ℕ) (type : TransactionType) (ref : Option (ProviderRef M))
  | debit (userId : U) (cents : ℕ) (type : TransactionType)
  | record (adminId : U) (targetUserId : Option U) (detail : Option String)

namespace AdjustDesk

variable {M : Type} [DecidableEq M]

/-- What happens beside the calls, on the desk. -/
def beside (s : AdjustDesk U M) : AdjustBeside U M → AdjustDesk U M
  | .clock ms => { s with now := s.now + ms }
  | .credit userId cents type ref =>
    if type = .adminAdjust then s
    else { s with db := (s.db.credit userId cents { type, providerRef := ref }).toOption.getD s.db }
  | .debit userId cents type =>
    if type = .adminAdjust then s
    else { s with db := (s.db.debit userId cents { type }).toOption.getD s.db }
  | .record adminId targetUserId detail =>
    { s with audit := s.audit ++ [{ adminId, balanceAdjust := false, targetUserId, detail, createdAt := s.now }] }

/-- The answer to a query, which may fail, also after it took effect; the clock never does. With
`steadyLog` the reads of the log do not fail either. -/
def answer (steadyLog : Bool) (fault : Fault) (q : AdjustQuery U) (s : AdjustDesk U M) :
    Except AdjustFailure q.Answer × AdjustDesk U M :=
  match q with
  | .clock => (.ok s.now, s)
  | .sumAdjustmentsBy adminId sinceMs =>
    if steadyLog ∨ fault = .none then (.ok (s.sumAdjustmentsBy adminId sinceMs), s) else (.error .error, s)
  | .adminAdjustAudited a =>
    match fault, s.adminAdjustAudited a with
    | .before, _ => (.error .error, s)
    | _, .error e => (.error e, s)
    | .none, .ok (receipt, s') => (.ok receipt, s')
    | .after, .ok (_, s') => (.error .error, s')

end AdjustDesk

/-- The server: the adjustments of one admin are one chain, whatever the door. -/
def adjustRuntime {M : Type} [DecidableEq M] (steadyLog : Bool) :
    Runtime (AdjustDesk U M) (AdjustQuery U) AdjustQuery.Answer AdjustFailure AdjustReply (AdjustCall U) U Fault
      (AdjustBeside U M) where
  program := fun _ => AdjustCall.program
  chain := fun op => some op.adminId
  answer := fun fault _ q s => s.answer steadyLog fault q
  drift := fun e s => s.beside e

end Murlan
