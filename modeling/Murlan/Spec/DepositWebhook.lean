import Murlan.Base.PromiseChains
import Murlan.Spec.LossCap

/-!
# The deposit webhook

`POST /api/payments/webhook/:provider` of `http/walletRoutes.ts`, with `checkDeposit` of
`compliance/responsibleGaming.ts` and the credits of `money/walletService.ts` that carry a
reference; beside it the deposits that are claimed by their transaction (`deposit/txid`), past the
checks of the player and of the chain. `U` is the type of user ids, `P` that of the provider's
payment ids, `T` that of transaction ids. A payment id belongs to one intent.
-/

namespace Murlan

/-- A payment id of the provider, or `tron:<txId>`. -/
inductive DepositRef (P T : Type) where
  | payment (id : P)
  | tron (txId : T)
  deriving DecidableEq, Repr

/-- A ledger row of type `deposit`. -/
structure DepositRow (U P T : Type) where
  userId : U
  amountCents : ℕ
  providerRef : DepositRef P T
  createdAt : ℕ
  deriving DecidableEq, Repr

/-- What `deposit_intents` holds of a payment. -/
structure DepositIntent (U : Type) where
  userId : U
  amountCents : ℕ
  createdAt : ℕ
  deriving DecidableEq, Repr

/-- What a webhook says whose signature holds. -/
structure WebhookDeposit (P : Type) where
  providerRef : P
  amountCents : ℕ
  confirmed : Bool
  deriving DecidableEq, Repr

/-- A webhook, without a deposit if its signature does not hold; or a claim of a transaction that was
found on the chain. -/
inductive DepositOp (U P T : Type) where
  | webhook (ipAllowed : Bool) (deposit : Option (WebhookDeposit P))
  | txid (userId : U) (amountCents : ℕ) (txId : T)

/-- What the provider is answered. -/
inductive DepositReply where
  | ipNotAllowed
  | badSignature
  | unconfirmed
  | unknownPayment
  | amountMismatch
  | intentExpired
  | depositLimit
  | ok (idempotent : Bool) (balanceCents : ℤ)
  | created (amountCents : ℕ) (balanceCents : ℤ)
  | alreadyUsed
  | error
  deriving DecidableEq, Repr

/-- A credit: whom, how much, and under which reference. -/
structure DepositCredit (U P T : Type) where
  userId : U
  amountCents : ℕ
  providerRef : DepositRef P T
  deriving DecidableEq, Repr

/-- What a request waits for: `checkLimit` and `checkDeposits` are the two reads of `checkDeposit`, and
from `queued` on the request is in `credit`. -/
inductive DepositWait (U P T : Type) where
  | findIntent (deposit : WebhookDeposit P)
  | checkLimit (c : DepositCredit U P T)
  | checkDeposits (c : DepositCredit U P T) (limit : ℕ) (at_ : ℕ)
  | getLimits (c : DepositCredit U P T)
  | queued (c : DepositCredit U P T) (cap : ℕ)
  | findById (c : DepositCredit U P T) (cap : Option ℕ)
  | findByProviderRef (c : DepositCredit U P T) (cap : ℕ) (current : ℤ)
  | sumDeposits (c : DepositCredit U P T) (cap : ℕ) (current : ℤ) (since : ℕ)
  | appendIdempotent (c : DepositCredit U P T) (current : ℤ)
  | adjustBalance (c : DepositCredit U P T)
  | balanceOf (c : DepositCredit U P T)
  | answered (reply : DepositReply)
  deriving DecidableEq, Repr

/-- A request; `link` is its link of the chain of its user's capped deposits. -/
structure DepositTask (U P T : Type) where
  wait : DepositWait U P T
  link : Option ℕ := none
  deriving DecidableEq, Repr

/-- `rg`: limits are in use; `aggregate`: the ledger adds up the deposits itself; `transactional`: a unit
of work commits as one or not at all. -/
structure DepositServer where
  rg : Bool := true
  aggregate : Bool := true
  transactional : Bool := true
  deriving DecidableEq, Repr

/-- The state the webhook works on: the clock, balances, ledger and open intents. -/
structure DepositDesk (U P T : Type) where
  now : ℕ := 0
  balance : U → Option ℤ
  ledger : List (DepositRow U P T) := []
  intents : P → Option (DepositIntent U) := fun _ => none
  dailyDepositLimitCents : U → Option ℕ := fun _ => none
  depositChain : PromiseChains U := {}

/-- What happens beside the requests: the clock, new intents, limits that are set or cleared, other
movements of a balance, and a chain that is pruned. -/
inductive DepositDrift (U P : Type) where
  | clock (ms : ℕ)
  | save (providerRef : P) (userId : U) (amountCents : ℕ)
  | setLimits (userId : U) (limit : Option ℕ)
  | move (userId : U) (deltaCents : ℤ)
  | prune (link : ℕ)

/-- How long a deposit intent is honoured. -/
def INTENT_TTL_MS : ℕ := 72 * 60 * 60 * 1000

/-- What a credit answers its route. -/
def DepositCredit.reply {U P T : Type} (c : DepositCredit U P T) (idempotent : Bool) (balanceCents : ℤ) : DepositReply :=
  match c.providerRef with
  | .payment _ => .ok idempotent balanceCents
  | .tron _ => if idempotent then .alreadyUsed else .created c.amountCents balanceCents

namespace DepositDesk

variable {U P T : Type} [DecidableEq U] [DecidableEq P] [DecidableEq T] (s : DepositDesk U P T)

omit [DecidableEq U] in
/-- `findByProviderRef`. -/
def hasRef (ref : DepositRef P T) : Bool := s.ledger.any fun r => r.providerRef = ref

omit [DecidableEq P] [DecidableEq T] in
/-- `sumByUserTypesSince(userId, ['deposit'], sinceMs)`. -/
def depositsSince (userId : U) (sinceMs : ℕ) : ℕ :=
  ((s.ledger.filter fun r => r.userId = userId ∧ sinceMs ≤ r.createdAt).map (·.amountCents)).sum

omit [DecidableEq P] [DecidableEq T] in
/-- `depositsToday(listByUser(userId), now)`, of the rows that count. -/
def depositsToday (counts : DepositRow U P T → Bool) (userId : U) (now : ℕ) : ℕ :=
  ((s.ledger.filter fun r =>
    r.userId = userId ∧ ResponsibleGaming.dayIndex r.createdAt = ResponsibleGaming.dayIndex now ∧ counts r = true).map
      (·.amountCents)).sum

omit [DecidableEq P] [DecidableEq T] in
/-- What `checkDeposit` counts. -/
def depositsTodayCents (cfg : DepositServer) (userId : U) (now : ℕ) : ℕ :=
  if cfg.aggregate then s.depositsSince userId (ResponsibleGaming.startOfDayMs now)
  else s.depositsToday (fun _ => true) userId now

/-- What the credit itself counts: without the aggregate, all but the row of its own reference. -/
def usedCents (cfg : DepositServer) (c : DepositCredit U P T) (since : ℕ) : ℕ :=
  if cfg.aggregate then s.depositsSince c.userId since
  else s.depositsToday (fun r => r.providerRef ≠ c.providerRef) c.userId s.now

omit [DecidableEq P] [DecidableEq T] in
/-- The balance moves, unless the user is unknown or it would become negative. -/
def adjustBalance (userId : U) (deltaCents : ℤ) : Option (ℤ × DepositDesk U P T) :=
  match s.balance userId with
  | none => none
  | some b =>
    if b + deltaCents < 0 then none
    else some (b + deltaCents, { s with balance := Function.update s.balance userId (some (b + deltaCents)) })

omit [DecidableEq U] [DecidableEq P] [DecidableEq T] in
/-- A credit's row joins the ledger, dated now. -/
def append (c : DepositCredit U P T) : DepositDesk U P T :=
  { s with
    ledger := s.ledger ++
      [{ userId := c.userId, amountCents := c.amountCents, providerRef := c.providerRef, createdAt := s.now }] }

omit [DecidableEq T] in
/-- What the rest of the server does between two awaits of a delivery. -/
def drift : DepositDrift U P → DepositDesk U P T
  | .clock ms => { s with now := s.now + ms }
  | .save providerRef userId amountCents =>
    match s.intents providerRef with
    | some _ => s
    | none =>
      { s with
        intents := Function.update s.intents providerRef
          (some { userId := userId, amountCents := amountCents, createdAt := s.now }) }
  | .setLimits userId limit =>
    { s with dailyDepositLimitCents := Function.update s.dailyDepositLimitCents userId limit }
  | .move userId deltaCents =>
    match s.adjustBalance userId deltaCents with
    | none => s
    | some moved => moved.2
  | .prune link => { s with depositChain := s.depositChain.prune link }

end DepositDesk

namespace DepositTask

variable {U P T : Type} [DecidableEq U] [DecidableEq P] [DecidableEq T] (t : DepositTask U P T) (s : DepositDesk U P T)

omit [DecidableEq U] [DecidableEq P] [DecidableEq T] in
/-- The delivery moves on to its next await. -/
def goto (wait : DepositWait U P T) : DepositTask U P T := { t with wait := wait }

omit [DecidableEq U] [DecidableEq P] [DecidableEq T] in
/-- A request is answered, and its link settles. -/
def answer (reply : DepositReply) : DepositTask U P T × DepositDesk U P T :=
  (t.goto (.answered reply),
    match t.link with
    | none => s
    | some i => { s with depositChain := s.depositChain.settle i })

omit [DecidableEq P] [DecidableEq T] in
/-- `credit` up to its first wait: a capped one joins the chain of its user. -/
def credit (c : DepositCredit U P T) (cap : Option ℕ) : DepositTask U P T × DepositDesk U P T :=
  if 0 < c.amountCents ∧ c.amountCents ≤ maxAmountCents then
    match cap with
    | none => (t.goto (.findById c none), s)
    | some cap =>
      ({ wait := .queued c cap, link := some s.depositChain.count },
        { s with depositChain := s.depositChain.join c.userId })
  else t.answer s .error

/-- The row is written unless there is one, then the ceiling, then the balance. -/
def append (cfg : DepositServer) (c : DepositCredit U P T) (current : ℤ) : DepositTask U P T × DepositDesk U P T :=
  if s.hasRef c.providerRef then (t.goto (.balanceOf c), s)
  else if balanceCeilingCents < current + c.amountCents then
    t.answer (if cfg.transactional then s else s.append c) .error
  else if cfg.transactional then
    match (s.append c).adjustBalance c.userId c.amountCents with
    | none => t.answer s .error
    | some moved => t.answer moved.2 (c.reply false moved.1)
  else (t.goto (.adjustBalance c), s.append c)

/-- A request goes on until its next wait. -/
def resume (cfg : DepositServer) : DepositTask U P T × DepositDesk U P T :=
  match t.wait with
  | .findIntent deposit =>
    match s.intents deposit.providerRef with
    | none => t.answer s .unknownPayment
    | some intent =>
      if deposit.amountCents ≠ intent.amountCents then t.answer s .amountMismatch
      else if intent.createdAt + INTENT_TTL_MS < s.now then t.answer s .intentExpired
      else if cfg.rg then (t.goto (.checkLimit ⟨intent.userId, intent.amountCents, .payment deposit.providerRef⟩), s)
      else t.credit s ⟨intent.userId, intent.amountCents, .payment deposit.providerRef⟩ none
  | .checkLimit c =>
    match s.dailyDepositLimitCents c.userId with
    | none => (t.goto (.getLimits c), s)
    | some limit => (t.goto (.checkDeposits c limit s.now), s)
  | .checkDeposits c limit at_ =>
    if limit < s.depositsTodayCents cfg c.userId at_ + c.amountCents then t.answer s .depositLimit
    else (t.goto (.getLimits c), s)
  | .getLimits c => t.credit s c (s.dailyDepositLimitCents c.userId)
  | .queued c cap =>
    match t.link with
    | none => (t, s)
    | some i =>
      if s.depositChain.ready i then
        (t.goto (.findById c (some cap)), { s with depositChain := s.depositChain.start i })
      else (t, s)
  | .findById c cap =>
    match s.balance c.userId, cap with
    | none, _ => t.answer s .error
    | some current, none => (t.goto (.appendIdempotent c current), s)
    | some current, some cap => (t.goto (.findByProviderRef c cap current), s)
  | .findByProviderRef c cap current =>
    if s.hasRef c.providerRef then (t.goto (.appendIdempotent c current), s)
    else (t.goto (.sumDeposits c cap current (ResponsibleGaming.startOfDayMs s.now)), s)
  | .sumDeposits c cap current since =>
    if cap < s.usedCents cfg c since + c.amountCents then t.answer s .depositLimit
    else (t.goto (.appendIdempotent c current), s)
  | .appendIdempotent c current => t.append s cfg c current
  | .adjustBalance c =>
    match s.adjustBalance c.userId c.amountCents with
    | none => t.answer s .error
    | some moved => t.answer moved.2 (c.reply false moved.1)
  | .balanceOf c => t.answer s (c.reply true ((s.balance c.userId).getD 0))
  | .answered _ => (t, s)

end DepositTask

/-- A request at its first wait. -/
def DepositOp.task {U P T : Type} (cfg : DepositServer) : DepositOp U P T → DepositTask U P T
  | .webhook false _ => { wait := .answered .ipNotAllowed }
  | .webhook true none => { wait := .answered .badSignature }
  | .webhook true (some deposit) => { wait := if deposit.confirmed then .findIntent deposit else .answered .unconfirmed }
  | .txid userId amountCents txId =>
    if cfg.rg then { wait := .getLimits ⟨userId, amountCents, .tron txId⟩ }
    else if 0 < amountCents ∧ amountCents ≤ maxAmountCents then { wait := .findById ⟨userId, amountCents, .tron txId⟩ none }
    else { wait := .answered .error }

/-- The deposits of a server. -/
def depositDesk {U P T : Type} [DecidableEq U] [DecidableEq P] [DecidableEq T] (cfg : DepositServer) :
    Crew (DepositDesk U P T) (DepositTask U P T) (DepositOp U P T) Unit (DepositDrift U P) where
  enter _ op := op.task cfg
  resume _ t s := t.resume s cfg
  drift d s := s.drift d

/-- The server as it starts: nothing deposited, any balances and limits. -/
def DepositDesk.boot {U P T : Type} (now : ℕ) (balance : U → Option ℤ) (limits : U → Option ℕ) :
    Crew.State (DepositDesk U P T) (DepositTask U P T) where
  store := { now := now, balance := balance, dailyDepositLimitCents := limits }

/-- The confirmed webhook of a payment. -/
def DepositIntent.delivery {U P T : Type} (intent : DepositIntent U) (p : P) : DepositOp U P T :=
  .webhook true (some { providerRef := p, amountCents := intent.amountCents, confirmed := true })

end Murlan
