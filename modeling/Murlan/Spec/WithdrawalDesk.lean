import Murlan.Spec.Withdrawals

/-!
# Withdrawal operations side by side

Any number of withdrawal operations and reconciler sweeps under way at once, each
waiting for the answer to its last query. An event lets one of them have its next
answer: what the environment decides of it (funds, the provider's answer and
history) and whether the call fails, before or after it took effect, is part of
the event.
-/

namespace Murlan

variable {U : Type}

/-- The calls on withdrawals. -/
inductive WithdrawalOperation (U : Type) where
  | request (userId : U) (amountCents : ℤ) (destination : String)
  | approve (id : ℕ) (audit : WithdrawalResolution U)
  | reject (id : ℕ) (audit : WithdrawalResolution U)
  | payoutNow (provider : Bool) (id : ℕ) (resolvedByAdminId : Option U)
  | autoPayout (id : ℕ)
  | reconcile

/-- What a call returns. -/
inductive WithdrawalReceipt (U : Type) where
  | record (r : WithdrawalRecord U)
  | auto (r : AutoResult)
  | swept (reversedCount : ℕ)
  deriving DecidableEq, Repr

/-- A call under way. -/
structure WithdrawalTask (U : Type) where
  operation : WithdrawalOperation U
  program : Clerk U (WithdrawalReceipt U)

/-- A credit booked for a withdrawal. -/
structure RefundCredit (U : Type) where
  ref : RefundRef
  userId : U
  amountCents : ℕ
  deriving DecidableEq, Repr

/-- How a deployment is set up: a unit of work or not, the limits, the address check. -/
structure WithdrawalSetup where
  uow : Bool
  limits : WithdrawalLimits := {}
  isValidTronAddress : String → Bool

/-- The rows, the credits booked and the operations under way. `sends`, `outcomes` and
`found` are no tables: they record every call of the provider that reached it (one that fails
before that leaves no record), every answer it gave, and every withdrawal a sweep has read as
completed. -/
structure WithdrawalDesk (U : Type) where
  rows : ℕ → Option (WithdrawalRecord U) := fun _ => none
  seq : ℕ := 0
  credits : List (RefundCredit U) := []
  sends : List ℕ := []
  outcomes : List (ℕ × PayoutResult) := []
  found : List ℕ := []
  tasks : ℕ → Option (WithdrawalTask U) := fun _ => none
  next : ℕ := 0

/-- The withdrawal a reference is about. -/
def RefundRef.id : RefundRef → ℕ
  | .refund id | .reversal id => id

/-- What the environment decides of an answer. -/
structure DeskReply where
  fault : Fault := .none
  funded : Bool := true
  payout : PayoutResult := { ok := true }
  history : List BinanceWithdrawalStatus := []

/-- The events of the server. -/
inductive DeskEvent (U : Type) where
  | start (operation : WithdrawalOperation U)
  | execute (task : ℕ) (reply : DeskReply)

namespace WithdrawalDesk

/-- A withdrawal's row is written. -/
def setRow (d : WithdrawalDesk U) (r : WithdrawalRecord U) : WithdrawalDesk U :=
  { d with rows := Function.update d.rows r.id (some r) }

/-- A call's progress is noted. -/
def setTask (d : WithdrawalDesk U) (k : ℕ) (t : WithdrawalTask U) : WithdrawalDesk U :=
  { d with tasks := Function.update d.tasks k (some t) }

/-- The references credited so far. -/
def refs (d : WithdrawalDesk U) : List RefundRef := d.credits.map fun c => c.ref

/-- A credit with a reference that is booked already changes nothing. -/
def book (d : WithdrawalDesk U) (userId : U) (amountCents : ℕ) (ref : RefundRef) : WithdrawalDesk U :=
  if ref ∈ d.refs then d else { d with credits := d.credits ++ [⟨ref, userId, amountCents⟩] }

/-- The compare-and-set of a pending row. -/
def resolve (d : WithdrawalDesk U) (id : ℕ) (status : WithdrawalStatus)
    (audit : WithdrawalResolution U) : Option (WithdrawalRecord U × WithdrawalDesk U) :=
  match d.rows id with
  | none => none
  | some r =>
    if r.status = .pending then some (r.resolve status audit, d.setRow (r.resolve status audit))
    else none

/-- Only a completed row is reversed. -/
def reverse (d : WithdrawalDesk U) (id : ℕ) : WithdrawalDesk U :=
  match d.rows id with
  | none => d
  | some r =>
    if r.status = .completed then
      d.setRow { r with
        status := .rejected, failureReason := some "payout failed on-chain (auto-reversed)" }
    else d

end WithdrawalDesk

/-- The answer to a query that does not fail, and what it does. -/
def Desk.answer (reply : DeskReply) (d : WithdrawalDesk U) : (q : Desk U) → q.Answer × WithdrawalDesk U
  | .find id => (d.rows id, d)
  | .findWithdrawal id =>
    match d.rows id with
    | none => (none, d)
    | some r => (some r, if r.status = .completed then { d with found := d.found ++ [id] } else d)
  | .hold userId amountCents destination =>
    if reply.funded then
      let r : WithdrawalRecord U := { id := d.seq, userId, amountCents, destination }
      (some r, { d.setRow r with seq := d.seq + 1 })
    else (none, d)
  | .setStatusIfPending id status audit =>
    match d.resolve id status audit with
    | none => (none, d)
    | some (r, d') => (some r, d')
  | .rejectAndRefund id audit userId amountCents =>
    match d.resolve id .rejected audit with
    | none => (none, d)
    | some (r, d') => (some r, d'.book userId amountCents (.refund id))
  | .credit userId amountCents ref => ((), d.book userId amountCents ref)
  | .markReversed id => ((), d.reverse id)
  | .setAudit id audit =>
    match d.rows id with
    | none => ((), d)
    | some r => ((), d.setRow (r.stamp audit))
  | .send id _ _ => ((), { d with sends := d.sends ++ [id] })
  | .outcome id => (reply.payout, { d with outcomes := d.outcomes ++ [(id, reply.payout)] })
  | .listRecent => (reply.history, d)
  | .notify => ((), d)

/-- The answer the program gets, and the desk then. -/
def Desk.reply (reply : DeskReply) (d : WithdrawalDesk U) (q : Desk U) :
    Except WithdrawalError q.Answer × WithdrawalDesk U :=
  match reply.fault with
  | .none => (.ok (q.answer reply d).1, (q.answer reply d).2)
  | .before => (.error .store, d)
  | .after => (.error .store, (q.answer reply d).2)

variable [DecidableEq U]

/-- The program of a call. -/
def WithdrawalOperation.program (setup : WithdrawalSetup) :
    WithdrawalOperation U → Clerk U (WithdrawalReceipt U)
  | .request userId amountCents destination => do
    let r ← WithdrawalService.request setup.limits userId amountCents destination
    pure (.record r)
  | .approve id audit => do
    let r ← WithdrawalService.approve id audit
    pure (.record r)
  | .reject id audit => do
    let r ← WithdrawalService.reject setup.uow id audit
    pure (.record r)
  | .payoutNow provider id admin => do
    let r ← WithdrawalService.payoutNow setup.isValidTronAddress provider id admin
    pure (.record r)
  | .autoPayout id => do
    let r ← WithdrawalService.autoPayout setup.isValidTronAddress id
    pure (.auto r)
  | .reconcile => do
    let n ← WithdrawalService.reconcileFailedWithdrawals
    pure (.swept n)

namespace WithdrawalDesk

/-- What has been credited back for a withdrawal. -/
def givenBack (d : WithdrawalDesk U) (id : ℕ) : ℕ :=
  ((d.credits.filter fun c => c.ref.id = id).map fun c => c.amountCents).sum

/-- One event of the server. -/
def step (setup : WithdrawalSetup) (d : WithdrawalDesk U) : DeskEvent U → WithdrawalDesk U
  | .start op =>
    { d.setTask d.next { operation := op, program := op.program setup } with next := d.next + 1 }
  | .execute k reply =>
    match d.tasks k with
    | none => d
    | some t =>
      match t.program with
      | .pure _ | .throw _ => d
      | .ask q next =>
        (q.reply reply d).2.setTask k { t with program := next (q.reply reply d).1 }

end WithdrawalDesk

end Murlan
