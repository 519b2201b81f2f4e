import Mathlib.Data.List.Sort
import Murlan.Base.Run
import Murlan.Spec.TronDeposit

/-!
# What the operator is told of

The alerts of the sweep timer: deposits nobody has claimed (`money/binanceDeposits.ts`,
`checkUnclaimedDeposits`), withdrawals that wait (`money/paymentMonitor.ts`) and flags of high
severity (`app.ts`). The deposits, the pending withdrawals and the flags are part of the state,
so that a read that works returns the true list. A sweep is one call for each of the three;
anything may happen between them.
-/

namespace Murlan

/-- A deposit the exchange lists. -/
structure BinanceDeposit where
  txId : String
  insertTime : ℤ
  deriving DecidableEq, Repr

/-- A withdrawal waiting to be sent. -/
structure PendingWithdrawal where
  id : ℕ
  createdAt : ℤ
  deriving DecidableEq, Repr

/-- A suspicion on record. -/
structure SuspicionFlag where
  id : ℕ
  severity : ℕ
  createdAt : ℤ
  deriving DecidableEq, Repr

/-- `told`, `toldStale` and `pushed` are what the operator has been sent, `told` for deposits
that have been in the window since; `unread` are the flags raised since the flags were last
read. The code keeps neither. -/
structure OperatorAlerts where
  deposits : List BinanceDeposit := []
  withdrawals : List PendingWithdrawal := []
  withdrawalSeq : ℕ := 0
  flags : List SuspicionFlag := []
  alerted : List String := []
  alertedStaleWithdrawals : List ℕ := []
  lastFlagPushMs : ℤ := 0
  told : List String := []
  toldStale : List ℕ := []
  pushed : List ℕ := []
  unread : List ℕ := []
  deriving DecidableEq, Repr

/-- What happens, and the three parts of a sweep: `read` is whether the list was read, and
`isClaimed` answers as the deposits are gone through. -/
inductive AlertEvent where
  | deposit (d : BinanceDeposit)
  | withdrawal (createdAt : ℤ)
  | resolve (id : ℕ)
  | flag (severity : ℕ) (createdAt : ℤ)
  | depositSweep (now : ℤ) (read : Bool) (isClaimed : String → Bool)
  | withdrawalSweep (now : ℤ) (read : Bool)
  | flagSweep (read : Bool)

/-- The window that is looked at. -/
def depositWindowMs : ℤ := 24 * 60 * 60 * 1000

/-- How long a deposit may wait for its player. -/
def depositGraceMs : ℤ := 10 * 60 * 1000

/-- How long a withdrawal may wait before the operator is told. -/
def staleWithdrawalMs : ℤ := 2 * 60 * 60 * 1000

/-- How many flags are listed. -/
def flagLimit : ℕ := 200

/-- The loop over the deposits: the ids that are alerted, and those that are new. -/
def alertUnclaimed (now : ℤ) (isClaimed : String → Bool) : List BinanceDeposit → List String → List String × List String
  | [], alerted => (alerted, [])
  | d :: deposits, alerted =>
    let id := lowerCase d.txId
    if alerted.contains id then alertUnclaimed now isClaimed deposits alerted
    else if now - d.insertTime < depositGraceMs then alertUnclaimed now isClaimed deposits alerted
    else if isClaimed id then alertUnclaimed now isClaimed deposits alerted
    else
      let rest := alertUnclaimed now isClaimed deposits (alerted ++ [id])
      (rest.1, id :: rest.2)

/-- The ids that are alerted, less those that are no longer listed. -/
def checkUnclaimedDeposits (now : ℤ) (isClaimed : String → Bool) (deposits : List BinanceDeposit) (alerted : List String) :
    List String × List String :=
  let looped := alertUnclaimed now isClaimed deposits alerted
  (looped.1.filter (deposits.map fun d => lowerCase d.txId).contains, looped.2)

/-- The withdrawals that have waited too long and were not told yet. -/
def findStaleWithdrawals (pending : List PendingWithdrawal) (now thresholdMs : ℤ) (alerted : List ℕ) :
    List PendingWithdrawal :=
  pending.filter fun w => decide (thresholdMs ≤ now - w.createdAt) && !alerted.contains w.id

/-- What is no longer waiting is forgotten. -/
def pruneAlerted (alerted stillPendingIds : List ℕ) : List ℕ := alerted.filter stillPendingIds.contains

namespace OperatorAlerts

variable (s : OperatorAlerts)

/-- The deposits of the window, as Binance lists them. -/
def listRecent (now : ℤ) : List BinanceDeposit :=
  s.deposits.filter fun d => decide (max 0 (now - depositWindowMs) ≤ d.insertTime)

/-- The ids of the deposits of the window. -/
def inWindow (now : ℤ) : List String := (s.listRecent now).map fun d => lowerCase d.txId

/-- The flags of high severity, newest first. -/
def listFlags : List SuspicionFlag :=
  ((s.flags.filter fun f => decide (3 ≤ f.severity)).insertionSort fun a b => b.createdAt ≤ a.createdAt).take flagLimit

/-- Raises a flag. -/
def raise (severity : ℕ) (createdAt : ℤ) : OperatorAlerts :=
  { s with flags := s.flags ++ [{ id := s.flags.length, severity := severity, createdAt := createdAt }] }

/-- A server that starts at `now`, with the flags of its past. -/
def boot (now : ℤ) (past : List (ℕ × ℤ)) : OperatorAlerts :=
  past.foldl (fun s f => s.raise f.1 f.2) { lastFlagPushMs := now }

/-- The sweep of deposits: a failed read counts as an empty list. -/
def sweepDeposits (now : ℤ) (read : Bool) (isClaimed : String → Bool) : OperatorAlerts :=
  let checked := checkUnclaimedDeposits now isClaimed (if read then s.listRecent now else []) s.alerted
  { s with alerted := checked.1, told := s.told.filter (s.inWindow now).contains ++ checked.2 }

/-- The sweep of withdrawals. -/
def sweepWithdrawals (now : ℤ) (read : Bool) : OperatorAlerts :=
  let pending := if read then s.withdrawals else []
  let stale := (findStaleWithdrawals pending now staleWithdrawalMs s.alertedStaleWithdrawals).map (·.id)
  { s with
    alertedStaleWithdrawals := pruneAlerted (s.alertedStaleWithdrawals ++ stale) (pending.map (·.id))
    toldStale := s.toldStale ++ stale }

/-- The sweep of suspicions: those newer than the mark, oldest first. -/
def sweepFlags (read : Bool) : OperatorAlerts :=
  let flags := if read then s.listFlags else []
  let fresh := (flags.filter fun f => decide (s.lastFlagPushMs < f.createdAt)).insertionSort fun a b =>
    a.createdAt ≤ b.createdAt
  { s with
    lastFlagPushMs := fresh.foldl (fun mark f => max mark f.createdAt) s.lastFlagPushMs
    pushed := s.pushed ++ fresh.map (·.id)
    unread := if read then [] else s.unread }

/-- One event of the desk. -/
def step : AlertEvent → OperatorAlerts
  | .deposit d => { s with deposits := s.deposits ++ [d] }
  | .withdrawal createdAt =>
    { s with
      withdrawals := s.withdrawals ++ [{ id := s.withdrawalSeq, createdAt := createdAt }]
      withdrawalSeq := s.withdrawalSeq + 1 }
  | .resolve id => { s with withdrawals := s.withdrawals.filter fun w => decide (w.id ≠ id) }
  | .flag severity createdAt =>
    { s.raise severity createdAt with
      unread := if 3 ≤ severity then s.unread ++ [s.flags.length] else s.unread }
  | .depositSweep now read isClaimed => s.sweepDeposits now read isClaimed
  | .withdrawalSweep now read => s.sweepWithdrawals now read
  | .flagSweep read => s.sweepFlags read

end OperatorAlerts

end Murlan
