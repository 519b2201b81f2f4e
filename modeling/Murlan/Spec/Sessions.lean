import Mathlib.Algebra.Ring.Int.Defs
import Murlan.Base.Run
import Murlan.Spec.WalletService

/-!
# Wallet transactions side by side

Movements of any number of users in concurrent database transactions
(`money/unitOfWork.ts`, `db/prismaRepositories.ts`). A transaction is open from its
first statement to its commit; until then its writes are its own. Statements see
the committed rows and their own transaction's. An `UPDATE` of a balance waits
while another open transaction has changed it, an insert of a unique reference
while another open transaction has inserted it. Any transaction can be rolled back
at any point: by an error thrown in it, a failed statement, a deadlock, a crash.
-/

namespace Murlan

/-- The movements a wallet offers. -/
inductive Call (U M : Type) where
  | credit (userId : U) (amountCents : ℤ) (opts : CreditOptions M) (depositCapCents : Option ℤ)
  | debit (userId : U) (amountCents : ℤ) (opts : DebitOptions M)
  | transfer (fromUserId toUserId : U) (amountCents : ℤ) (outReason inReason : String)
  | recordRake (amountCents : ℤ) (matchId : Option M) (reason : Option String)
      (ref : Option (ProviderRef M))
  | adminAdjust (userId : U) (deltaCents : ℤ) (reason : String) (ref : Option (ProviderRef M))
  | adminAdjustAudited (userId : U) (deltaCents : ℤ) (reason : String) (ref : Option (ProviderRef M))

/-- What a call of the wallet returns. -/
inductive Receipt (U M : Type) where
  | moved (result : MoveResult U M)
  | transferred (result : TransferResult U M)
  | booked (transaction : Transaction U M)
  deriving DecidableEq, Repr

/-- What runs in one transaction: a movement in its own, or several bound to the
transaction of their caller. -/
inductive Operation (U M : Type) where
  | own (call : Call U M)
  | bound (calls : List (Call U M))

variable {U M : Type}

/-- What an open transaction has written: rows inserted and balances changed, in order. -/
structure Pending (U M : Type) where
  rows : List (Transaction U M) := []
  moved : List (U × ℤ) := []

/-- The references of the rows, in order. -/
def refsOf (rows : List (Transaction U M)) : List (ProviderRef M) :=
  rows.filterMap fun tx => tx.providerRef

/-- The users whose balance it has changed: their rows are locked. -/
def Pending.users (p : Pending U M) : List U := p.moved.map fun m => m.1

/-- An operation under way. -/
structure Session (U M : Type) where
  operation : Operation U M
  program : Service U M (List (Receipt U M))
  pending : Pending U M := {}
  /-- Users whose deposit lock it holds. -/
  locks : List U := []

/-- The database and its open transactions, numbered as they begin. -/
structure Sessions (U M : Type) where
  db : Db U M
  sessions : ℕ → Option (Session U M) := fun _ => none
  next : ℕ := 0

/-- The events of the server. -/
inductive SessionEvent (U M : Type) where
  | createUser (userId : U)
  | begin (operation : Operation U M)
  /-- Carry out the next statement of a transaction. `today k` says that the `k`-th row
  of the ledger was written today. -/
  | execute (id : ℕ) (today : ℕ → Bool)
  | commit (id : ℕ)
  | rollback (id : ℕ)

section

variable [DecidableEq U]

open WalletService in
/-- The program of a call. -/
def Call.program (w : Wiring) : Call U M → Service U M (Receipt U M)
  | .credit u a opts cap => do
    let result ← WalletService.credit w u a opts cap
    pure (.moved result)
  | .debit u a opts => do
    let result ← WalletService.debit w u a opts
    pure (.moved result)
  | .transfer f t a outReason inReason => do
    let result ← WalletService.transfer w f t a outReason inReason
    pure (.transferred result)
  | .recordRake a matchId reason ref => do
    let tx ← WalletService.recordRake a matchId reason ref
    pure (.booked tx)
  | .adminAdjust u a reason ref => do
    let result ← WalletService.adminAdjust w u a reason ref
    pure (.moved result)
  | .adminAdjustAudited u a reason ref => do
    let result ← WalletService.adminAdjustAudited w u a reason ref
    pure (.moved result)

/-- Movements one after the other; an error of one ends them all. -/
def Call.programs (w : Wiring) : List (Call U M) → Service U M (List (Receipt U M))
  | [] => pure []
  | c :: cs => do
    let receipt ← c.program w
    let receipts ← Call.programs w cs
    pure (receipt :: receipts)

/-- The program of an operation: its own transaction, or several calls in one. -/
def Operation.program : Operation U M → Service U M (List (Receipt U M))
  | .own c => Call.programs .own [c]
  | .bound cs => Call.programs .bound cs

/-- The sum of a user's rows. -/
def rowSum (rows : List (Transaction U M)) (userId : U) : ℤ :=
  ((rows.filter fun tx => tx.account = .user userId).map fun tx => tx.amountCents).sum

/-- By how much an open transaction has changed a balance. -/
def movedSum (moved : List (U × ℤ)) (userId : U) : ℤ :=
  ((moved.filter fun m => m.1 = userId).map fun m => m.2).sum

/-- The deposits a user's rows of today add up to. -/
def depositSum (rows : List (Transaction U M)) (today : ℕ → Bool) (userId : U) : ℤ :=
  ((rows.zipIdx.filter fun p =>
    p.1.account = .user userId ∧ p.1.type = .deposit ∧ today p.2).map fun p => p.1.amountCents).sum

variable [DecidableEq M]

/-- The statement's answer and what the session has written then; `none` while it waits. -/
def Statement.answer (db : Db U M) (others : List (Session U M)) (x : Session U M)
    (today : ℕ → Bool) : (q : Statement U M) → Option (q.Answer × Session U M)
  | .findById u => some ((db.balance u).map fun b => b + movedSum x.pending.moved u, x)
  | .adjustBalance u d =>
    match db.balance u with
    | none => some (none, x)
    | some b =>
      let balanceCents := b + movedSum x.pending.moved u + d
      -- `where balanceCents >= -delta` matches no row
      if d < 0 ∧ balanceCents < 0 then some (none, x)
      else if ∃ y ∈ others, u ∈ y.pending.users then none
      else some (some balanceCents,
        { x with pending := { x.pending with moved := x.pending.moved ++ [(u, d)] } })
  | .append tx =>
    -- a second row of one reference is an error, after which only a rollback is left
    if ∃ ref ∈ tx.providerRef, ref ∈ refsOf (db.ledger ++ x.pending.rows) ∨
        ∃ y ∈ others, ref ∈ refsOf y.pending.rows then none
    else some ((), { x with pending := { x.pending with rows := x.pending.rows ++ [tx] } })
  | .appendIdempotent ref tx =>
    match (db.ledger ++ x.pending.rows).find? fun row => row.providerRef = some ref with
    | some row => some ((row, false), x)
    | none =>
      if ∃ y ∈ others, ref ∈ refsOf y.pending.rows then none
      else
        let row := { tx with providerRef := some ref }
        some ((row, true), { x with pending := { x.pending with rows := x.pending.rows ++ [row] } })
  | .findByProviderRef ref =>
    some ((db.ledger ++ x.pending.rows).find? fun row => row.providerRef = some ref, x)
  | .depositsToday u => some (depositSum (db.ledger ++ x.pending.rows) today u, x)
  | .advisoryXactLock u =>
    if ∃ y ∈ others, u ∈ y.locks then none
    else some ((), { x with locks := u :: x.locks })
  | .recordAudit => some ((), x)

/-- Make a transaction's writes the committed state. -/
def Db.apply (db : Db U M) (p : Pending U M) : Db U M :=
  { db with
    balance := fun u => (db.balance u).map fun b => b + movedSum p.moved u
    ledger := db.ledger ++ p.rows }

namespace Sessions

/-- A server with no users yet. -/
def boot : Sessions U M := { db := { balance := fun _ => none } }

/-- The open transactions other than `id`. -/
def others (s : Sessions U M) (id : ℕ) : List (Session U M) :=
  (List.range s.next).filterMap fun k => if k = id then none else s.sessions k

/-- An operation's progress is noted. -/
def set (s : Sessions U M) (id : ℕ) (x : Option (Session U M)) : Sessions U M :=
  { s with sessions := Function.update s.sessions id x }

/-- One event of the server. -/
def step (s : Sessions U M) : SessionEvent U M → Sessions U M
  | .createUser u =>
    if (s.db.balance u).isSome then s
    else { s with db := { s.db with balance := Function.update s.db.balance u (some 0) } }
  | .begin op =>
    { s.set s.next (some { operation := op, program := op.program }) with next := s.next + 1 }
  | .execute id today =>
    match s.sessions id with
    | none => s
    | some x =>
      match x.program with
      | .pure _ | .throw _ => s
      | .ask q next =>
        match q.answer s.db (s.others id) x today with
        | none => s
        | some (r, x') => s.set id (some { x' with program := next (.ok r) })
  | .commit id =>
    match s.sessions id with
    | none => s
    | some x =>
      match x.program with
      | .pure _ => { s.set id none with db := s.db.apply x.pending }
      | .throw _ | .ask _ _ => s
  | .rollback id => s.set id none

end Sessions

end

end Murlan
