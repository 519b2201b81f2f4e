import Mathlib.Algebra.BigOperators.Group.Finset.Basic
import Murlan.Base.Pool
import Murlan.Spec.WithdrawalDesk

/-!
# Automatic payouts

The withdraw route of `http/walletRoutes.ts` with `money/withdrawalPolicy.ts` and
`money/autoPayout.ts`: the request, the three sums of the last 24 hours, the triage and
the automatic send are one critical section, which runs on the user's chain, or on the
chain of the server when a cap is shared. It runs beside other requests, the admins'
decisions and the reconciler. A row's times are kept beside the rows of the desk.
-/

namespace Murlan

/-- Whether a withdrawal is paid by itself or waits for an admin. -/
inductive WithdrawalTier where
  | auto | manual
  deriving DecidableEq, Repr

/-- Which sums a cap is on. -/
inductive Cap where
  | user | global | destination
  deriving DecidableEq, Repr

/-- What the withdraw route is given. A cap of 0 is off; `payout` is a provider that sends. -/
structure AutoWithdraw where
  setup : WithdrawalSetup
  payoutLeader : Bool := true
  payout : Bool := true
  autoWithdrawMaxCents : ℕ := 0
  dailyAutoWithdrawCapCents : ℕ := 0
  globalAutoWithdrawCapCents : ℕ := 0
  destAutoWithdrawCapCents : ℕ := 0

namespace AutoWithdraw

/-- The cap of each kind; 0 is none. -/
def cap (cfg : AutoWithdraw) : Cap → ℕ
  | .user => cfg.dailyAutoWithdrawCapCents
  | .global => cfg.globalAutoWithdrawCapCents
  | .destination => cfg.destAutoWithdrawCapCents

/-- One of the two caps that look at all users is set. -/
def globalCapsOn (cfg : AutoWithdraw) : Bool := 0 < cfg.cap .global || 0 < cfg.cap .destination

/-- The server may pay by itself at all. -/
def autoCouldFire (cfg : AutoWithdraw) : Bool :=
  cfg.payoutLeader && decide (0 < cfg.autoWithdrawMaxCents) && cfg.payout

end AutoWithdraw

/-- What the triage knows of a withdrawal; a sum that is `none` is infinite. -/
structure TriageInput where
  amountCents : ℕ
  priorTodayCents : Option ℕ := some 0
  globalTodayCents : Option ℕ := some 0
  destTodayCents : Option ℕ := some 0
  recentTransferInCents : Option ℕ := some 0

/-- The cap is on, and the sum with the amount is above it. -/
def aboveCap (cap : ℕ) (today : Option ℕ) (amountCents : ℕ) : Bool :=
  decide (0 < cap) &&
    match today with
    | none => true
    | some n => decide (cap < n + amountCents)

/-- Why a withdrawal is left to the operator. -/
def triageReasons (input : TriageInput) (cfg : AutoWithdraw) : List String :=
  (if cfg.autoWithdrawMaxCents = 0 then ["auto disabled"]
    else if cfg.autoWithdrawMaxCents < input.amountCents then ["above auto threshold"] else []) ++
  (if aboveCap (cfg.cap .user) input.priorTodayCents input.amountCents then ["above daily auto cap"]
    else []) ++
  (if aboveCap (cfg.cap .global) input.globalTodayCents input.amountCents then ["above global auto cap"]
    else []) ++
  (if aboveCap (cfg.cap .destination) input.destTodayCents input.amountCents then
    ["above per-destination auto cap"] else []) ++
  (if input.recentTransferInCents = some 0 then [] else ["recent transfer-in (manual review)"])

/-- The tier, and the reasons against `auto`. -/
def classifyWithdrawal (input : TriageInput) (cfg : AutoWithdraw) : WithdrawalTier × List String :=
  let reasons := triageReasons input cfg
  (if reasons = [] then .auto else .manual, reasons)

/-- A sum over the last hours: a user's withdrawals, what was paid automatically (to one
destination), what a user received. -/
inductive RollingSum (U : Type) where
  | sumUserSince (userId : U) (since : ℕ)
  | autoPaidSince (since : ℕ) (destination : Option String)
  | transferredInSince (userId : U) (since : ℕ)

/-- What the route awaits: the desk (`auto` when the automatic send asks), the clock, a sum. -/
inductive Till (U : Type) where
  | desk (auto : Bool) (q : Desk U)
  | clock
  | sum (q : RollingSum U)

/-- The type of each answer. -/
@[reducible] def Till.Answer {U : Type} : Till U → Type
  | .desk _ q => q.Answer
  | .clock | .sum _ => ℕ

/-- A program of the route and of the payouts. -/
abbrev Teller (U α : Type) := Async (Till U) Till.Answer WithdrawalError α

/-- An operation of the desk, asked by the automatic send or by another. -/
def onDesk {U α : Type} (auto : Bool) (p : Clerk U α) : Teller U α := p.lift (Till.desk auto)

/-- What `maybeAutoPay` reports. -/
structure ProcessOutcome where
  tier : WithdrawalTier
  autoPaid : Bool
  ambiguous : Bool
  error : Option String
  deriving DecidableEq, Repr

/-- The window of the caps. -/
def dayMs : ℕ := 24 * 60 * 60 * 1000

namespace WithdrawRoute

variable {U : Type}

/-- A sum whose read fails is infinite. -/
def sumOrInfinity (q : RollingSum U) : Teller U (Option ℕ) :=
  Async.tryCatch (do
    let n ← Async.await (Till.sum q)
    pure (some n)) fun _ => pure none

/-- What is reported of an automatic send. -/
def sendError (r : AutoResult) : Option String :=
  match r.outcome with
  | .paid => none
  | .duplicate => some ("duplicate send (already paid): " ++ r.error.getD "")
  | .ambiguous => some ("ambiguous (maybe sent, NOT refunded): " ++ r.error.getD "")
  | .notPending => some "no longer pending at send time (already resolved) — not sent"
  | .failed | .badDestination => some (r.error.getD "payout failed")

/-- The message to the operator, and what is reported. -/
def report (tier : WithdrawalTier) (sent : Option AutoResult) : Teller U ProcessOutcome := do
  Async.await (Till.desk false Desk.notify)
  match sent with
  | none => pure { tier, autoPaid := false, ambiguous := false, error := none }
  | some r =>
    pure { tier
           autoPaid := r.outcome = .paid || r.outcome = .duplicate
           ambiguous := r.outcome = .ambiguous
           error := sendError r }

/-- Triage, the automatic send, and the message to the operator. -/
def processWithdrawal (cfg : AutoWithdraw) (id : ℕ) (input : TriageInput) :
    Teller U ProcessOutcome := do
  let tier := (classifyWithdrawal input cfg).1
  let sendAuto := cfg.payoutLeader && cfg.payout
  if tier = .auto ∧ sendAuto then do
    let r ← Async.tryCatch (onDesk true (WithdrawalService.autoPayout cfg.setup.isValidTronAddress id))
      fun _ => pure { outcome := .ambiguous, error := some "auto-send threw" }
    report tier (some r)
  else report tier none

/-- A sum that is read only when its cap is on. -/
def cappedSum (cap : ℕ) (q : RollingSum U) : Teller U (Option ℕ) :=
  if 0 < cap then sumOrInfinity q else pure (some 0)

/-- The sums of the shared caps: two reads at once, `destFirst` when the second is answered
before the first. -/
def sharedSums (cfg : AutoWithdraw) (dayAgo : ℕ) (destination : String) (destFirst : Bool) :
    Teller U (Option ℕ × Option ℕ) := do
  let global := cappedSum cfg.globalAutoWithdrawCapCents (.autoPaidSince dayAgo none)
  let dest := cappedSum cfg.destAutoWithdrawCapCents (.autoPaidSince dayAgo (some destination))
  if destFirst then do
    let d ← dest
    let g ← global
    pure (g, d)
  else do
    let g ← global
    let d ← dest
    pure (g, d)

/-- The critical section of the withdraw route. -/
def critical (cfg : AutoWithdraw) (userId : U) (amountCents : ℤ) (destination : String)
    (destFirst : Bool) : Teller U (WithdrawalRecord U) := do
  let rec ← onDesk false (WithdrawalService.request cfg.setup.limits userId amountCents destination)
  let now ← Async.await (Till.clock (U := U))
  let dayAgo := now - dayMs
  let priorTotal ← sumOrInfinity (.sumUserSince userId dayAgo)
  -- the sum includes the row just created
  let priorTodayCents := priorTotal.map fun n => n - rec.amountCents
  let input : TriageInput := { amountCents := rec.amountCents, priorTodayCents }
  let input ←
    if cfg.autoCouldFire then do
      let (globalTodayCents, destTodayCents) ← sharedSums cfg dayAgo rec.destination destFirst
      let recentTransferInCents ← sumOrInfinity (.transferredInSince userId dayAgo)
      pure { input with globalTodayCents, destTodayCents, recentTransferInCents }
    else pure input
  -- whatever processing throws is logged
  Async.ignore do
    let _ ← processWithdrawal cfg rec.id input
    pure ()
  pure rec

end WithdrawRoute

/-! ## One server instance -/

/-- What is under way: the withdraw route, an admin's decision, a sweep. -/
inductive WithdrawCall (U : Type) where
  | withdraw (userId : U) (amountCents : ℤ) (destination : String) (destFirst : Bool)
  | approve (id : ℕ) (audit : WithdrawalResolution U)
  | reject (id : ℕ) (audit : WithdrawalResolution U)
  | payoutNow (provider : Bool) (id : ℕ) (resolvedByAdminId : Option U)
  | reconcile

/-- That the automatic send of a task completed a withdrawal, and when. -/
structure AutoClaim where
  task : ℕ
  time : ℕ
  deriving DecidableEq, Repr

/-- The desk, the times of its rows and the clock. `claims` and `failed` are no tables: they
record which withdrawals the automatic send completed, and the reads of capped sums that
failed. -/
structure WithdrawServer (U : Type) where
  desk : WithdrawalDesk U := {}
  createdAt : ℕ → ℕ := fun _ => 0
  resolvedAt : ℕ → Option ℕ := fun _ => none
  now : ℕ := 0
  claims : ℕ → Option AutoClaim := fun _ => none
  failed : List (ℕ × Cap) := []

/-- What the environment decides of an answer. -/
structure TillReply extends DeskReply where
  transferredInCents : ℕ := 0

namespace WithdrawServer

variable {U : Type}

/-- The amount of a row that meets a condition. -/
def counted (s : WithdrawServer U) (p : ℕ → WithdrawalRecord U → Prop) [∀ id r, Decidable (p id r)]
    (id : ℕ) : ℕ :=
  match s.desk.rows id with
  | none => 0
  | some r => if p id r then r.amountCents else 0

/-- The amounts of the rows that meet a condition. -/
def sumRows (s : WithdrawServer U) (p : ℕ → WithdrawalRecord U → Prop) [∀ id r, Decidable (p id r)] : ℕ :=
  ∑ id ∈ Finset.range s.desk.seq, s.counted p id

/-- The rows after a query of the desk: a new row is created now, a row whose status
changed is resolved now. -/
def stamped (s : WithdrawServer U) (d : WithdrawalDesk U) : WithdrawServer U :=
  { s with
    desk := d
    createdAt := fun id => if s.desk.seq ≤ id ∧ id < d.seq then s.now else s.createdAt id
    resolvedAt := fun id =>
      match s.desk.rows id, d.rows id with
      | some r, some r' => if r.status ≠ r'.status then some s.now else s.resolvedAt id
      | _, _ => s.resolvedAt id }

/-- The automatic send of task `k` completes a pending withdrawal. -/
def claim (s : WithdrawServer U) (k : ℕ) (auto : Bool) (q : Desk U) : WithdrawServer U :=
  match q with
  | .setStatusIfPending id .completed _ =>
    if auto ∧ (s.desk.rows id).any (fun r => r.status = .pending) then
      { s with claims := Function.update s.claims id (some { task := k, time := s.now }) }
    else s
  | _ => s

/-- A read that failed, if it is one a cap is set on. -/
def miss (s : WithdrawServer U) (k : ℕ) : Till U → WithdrawServer U
  | .sum (.sumUserSince _ _) => { s with failed := s.failed ++ [(k, .user)] }
  | .sum (.autoPaidSince _ none) => { s with failed := s.failed ++ [(k, .global)] }
  | .sum (.autoPaidSince _ (some _)) => { s with failed := s.failed ++ [(k, .destination)] }
  | _ => s

section

variable [DecidableEq U]

/-- The repository's `sumUserSince`: what the user has asked for and was not rejected. -/
def sumUserSince (s : WithdrawServer U) (userId : U) (since : ℕ) : ℕ :=
  s.sumRows fun id r => r.userId = userId ∧ r.status ≠ .rejected ∧ since ≤ s.createdAt id

/-- The repository's `autoPaidSince`: what was paid without an admin, to one address or to all. -/
def autoPaidSince (s : WithdrawServer U) (since : ℕ) (destination : Option String) : ℕ :=
  s.sumRows fun id r =>
    r.status = .completed ∧ since ≤ (s.resolvedAt id).getD (s.createdAt id) ∧
      r.resolvedByAdminId = none ∧ (destination = none ∨ destination = some r.destination)

end

end WithdrawServer

variable {U : Type} [DecidableEq U]

/-- The answer to a query that does not fail, and what it does. -/
def Till.answer (reply : TillReply) (k : ℕ) (s : WithdrawServer U) :
    (q : Till U) → q.Answer × WithdrawServer U
  | .desk auto q =>
    ((q.answer reply.toDeskReply s.desk).1,
      (s.claim k auto q).stamped (q.answer reply.toDeskReply s.desk).2)
  | .clock => (s.now, s)
  | .sum (.sumUserSince userId since) => (s.sumUserSince userId since, s)
  | .sum (.autoPaidSince since destination) => (s.autoPaidSince since destination, s)
  | .sum (.transferredInSince _ _) => (reply.transferredInCents, s)

/-- Only the clock never fails. -/
def Till.reply (reply : TillReply) (k : ℕ) (q : Till U) (s : WithdrawServer U) :
    Except WithdrawalError q.Answer × WithdrawServer U :=
  match q, reply.fault with
  | .clock, _ => (.ok s.now, s)
  | q, .none => (.ok (q.answer reply k s).1, (q.answer reply k s).2)
  | q, .before => (.error .store, s.miss k q)
  | q, .after => (.error .store, (q.answer reply k s).2.miss k q)

/-- What each call runs. -/
def WithdrawCall.program (cfg : AutoWithdraw) : WithdrawCall U → Teller U (WithdrawalReceipt U)
  | .withdraw userId amountCents destination destFirst => do
    let r ← WithdrawRoute.critical cfg userId amountCents destination destFirst
    pure (.record r)
  | .approve id audit => onDesk false (WithdrawalOperation.program cfg.setup (.approve id audit))
  | .reject id audit => onDesk false (WithdrawalOperation.program cfg.setup (.reject id audit))
  | .payoutNow provider id admin =>
    onDesk false (WithdrawalOperation.program cfg.setup (.payoutNow provider id admin))
  | .reconcile => onDesk false (WithdrawalOperation.program cfg.setup .reconcile)

/-- `serializeGlobalWithdraw` when a shared cap is on, else `serializeWithdraw`. -/
def WithdrawCall.chain (cfg : AutoWithdraw) : WithdrawCall U → Option (Option U)
  | .withdraw userId _ _ _ => some (if cfg.globalCapsOn then none else some userId)
  | _ => none

/-- The server; the clock moves between the steps. -/
def withdrawRuntime (cfg : AutoWithdraw) :
    Runtime (WithdrawServer U) (Till U) Till.Answer WithdrawalError (WithdrawalReceipt U)
      (WithdrawCall U) (Option U) TillReply ℕ where
  program := fun _ => WithdrawCall.program cfg
  chain := WithdrawCall.chain cfg
  answer := fun reply k q s => Till.reply reply k q s
  drift := fun ms s => { s with now := s.now + ms }

end Murlan
