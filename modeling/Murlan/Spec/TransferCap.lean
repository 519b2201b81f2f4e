import Mathlib.Data.PNat.Defs
import Murlan.Base.PromiseChains
import Murlan.Base.Run

/-!
# The daily cap on transfers

`POST /api/wallet/transfer` of `http/walletRoutes.ts` where a daily cap is set, past the checks of
its two users, with `serializeWithdraw`; `transferredOutSince` and `transfer` of
`money/walletService.ts`. A withdrawal takes a link of the same chain and moves nothing that is
counted here. Each look at the clock, each read and write and each end of a link is an event of its
own; any read or write may fail. `U` is the type of user ids.
-/

namespace Murlan

/-- A ledger row of type `transfer_out`; `link` is the request that wrote it, if it was one of
this server. -/
structure TransferOut (U : Type*) where
  user : U
  amountCents : ℕ
  createdAt : ℤ
  link : Option ℕ
  deriving DecidableEq, Repr

/-- What a request is answered. -/
inductive OutReply where
  | done
  | failed
  | capReached
  | capCheckFailed
  deriving DecidableEq, Repr

/-- Where a request stands: `reading` and `writing` with the time at which its cap was looked at,
`writing` also with the time its row has been given. -/
inductive OutPhase where
  | queued
  | reading (now : ℤ)
  | writing (now : ℤ) (createdAt : Option ℤ)
  | written
  | withdrawing
  | answered (reply : OutReply)
  deriving DecidableEq, Repr

/-- A transfer of an amount, or a withdrawal. -/
structure OutRequest (U : Type*) where
  user : U
  transfer : Option ℕ
  phase : OutPhase := .queued
  deriving DecidableEq, Repr

/-- The state behind the cap: the rows, the chains and the requests under way. -/
structure TransferDesk (U : Type*) where
  cap : ℕ+
  now : ℤ
  rows : List (TransferOut U)
  chains : PromiseChains U := {}
  requests : ℕ → Option (OutRequest U) := fun _ => none

/-- The events of the server. -/
inductive OutEvent (U : Type*) where
  | request (user : U) (transfer : Option ℕ)
  | start (i : ℕ) (wait : ℕ)
  | read (i : ℕ) (ok : Bool)
  | stamp (i : ℕ) (wait : ℕ)
  | commit (i : ℕ)
  | settle (i : ℕ) (ok : Bool)
  | prune (i : ℕ)

/-- The window the cap looks back over. -/
def transferWindowMs : ℤ := 24 * 60 * 60 * 1000

namespace TransferDesk

variable {U : Type*} [DecidableEq U] (s : TransferDesk U)

/-- What a user has transferred since. -/
def transferredOutSince (user : U) (since : ℤ) : ℕ :=
  ((s.rows.filter fun r => decide (r.user = user ∧ since ≤ r.createdAt)).map (·.amountCents)).sum

/-- What a user has transferred in the 24 hours from `start` on. -/
def transferredIn (user : U) (start : ℤ) : ℕ :=
  ((s.rows.filter fun r => decide (r.user = user ∧ start ≤ r.createdAt ∧ r.createdAt ≤ start + transferWindowMs)).map
    (·.amountCents)).sum

/-- A request goes on. -/
def goto (i : ℕ) (r : OutRequest U) (phase : OutPhase) : TransferDesk U :=
  { s with requests := Function.update s.requests i (some { r with phase := phase }) }

/-- A request is answered, and its link settles. -/
def answer (i : ℕ) (r : OutRequest U) (reply : OutReply) : TransferDesk U :=
  { s.goto i r (.answered reply) with chains := s.chains.settle i }

/-- What the read of the transfers so far leads to. -/
def check (i : ℕ) (r : OutRequest U) (amount : ℕ) (now : ℤ) (ok : Bool) : TransferDesk U :=
  if ok then
    if (s.cap : ℕ) < s.transferredOutSince r.user (now - transferWindowMs) + amount then s.answer i r .capReached
    else s.goto i r (.writing now none)
  else s.answer i r .capCheckFailed

/-- One event of the server. -/
def step : OutEvent U → TransferDesk U
  | .request user transfer =>
    { s with
      chains := s.chains.join user
      requests := Function.update s.requests s.chains.count (some { user := user, transfer := transfer }) }
  | .start i wait =>
    match s.requests i with
    | none => s
    | some r =>
      if s.chains.ready i then
        { s.goto i r (if r.transfer.isSome then .reading (s.now + wait) else .withdrawing) with
          now := s.now + wait
          chains := s.chains.start i }
      else s
  | .read i ok =>
    match s.requests i with
    | some { user := user, transfer := some amount, phase := .reading now } =>
      s.check i { user := user, transfer := some amount } amount now ok
    | _ => s
  | .stamp i wait =>
    match s.requests i with
    | some { user := user, transfer := transfer, phase := .writing now none } =>
      { s.goto i { user := user, transfer := transfer } (.writing now (some (s.now + wait))) with now := s.now + wait }
    | _ => s
  | .commit i =>
    match s.requests i with
    | some { user := user, transfer := some amount, phase := .writing _ (some createdAt) } =>
      { s.goto i { user := user, transfer := some amount } .written with
        rows := s.rows ++ [{ user := user, amountCents := amount, createdAt := createdAt, link := some i }] }
    | _ => s
  | .settle i ok =>
    match s.requests i with
    | none => s
    | some r =>
      match r.phase with
      | .writing _ _ => s.answer i r .failed
      | .written | .withdrawing => s.answer i r (if ok then .done else .failed)
      | _ => s
  | .prune i => { s with chains := s.chains.prune i }

/-- The server as it starts, with the rows of its past. -/
def boot (cap : ℕ+) (now : ℤ) (past : List (U × ℕ × ℤ)) : TransferDesk U where
  cap := cap
  now := now
  rows := past.map fun r => { user := r.1, amountCents := r.2.1, createdAt := r.2.2, link := none }

end TransferDesk

end Murlan
