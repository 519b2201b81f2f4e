import Mathlib.Algebra.Ring.Int.Defs
import Murlan.Base.Pool
import Murlan.Spec.LossCap
import Murlan.Spec.WalletService

/-!
# The wallet of one server

Calls of `credit` and `debit` (`money/walletService.ts`) side by side, each split at its awaits.
Without a unit of work a statement changes the in-memory repositories at once, and never fails.
With one the statements of a call run in a database transaction: what it writes is seen by
nobody else until it commits, an `UPDATE` waits for another open transaction that has changed the
balance, as an insert does for its reference, and any statement may fail. A statement that would
have to wait fails here, or is carried out later. `serializeDeposit` makes the capped credits of a
user a chain.
-/

namespace Murlan

/-- The two operations, with the cap a deposit comes with. -/
inductive WalletOp (U M : Type) where
  | credit (userId : U) (amountCents : ℤ) (opts : CreditOptions M) (depositCapCents : Option ℤ)
  | debit (userId : U) (amountCents : ℤ) (opts : DebitOptions M)

/-- A deposit, as the routes credit it: with a reference, and with the user's daily cap. -/
structure CappedDeposit (M : Type) where
  amountCents : ℤ
  providerRef : ProviderRef M
  depositCapCents : ℤ
  reason : Option String := none
  matchId : Option M := none

/-- What a call awaits. -/
inductive WalletQuery (U M : Type) where
  | statement (q : Statement U M)
  | commit
  | rollback

/-- What a statement, a commit or a rollback answers with. -/
@[reducible] def WalletQuery.Answer {U M : Type} : WalletQuery U M → Type
  | .statement q => q.Answer
  | .commit | .rollback => Unit

/-- A program of the wallet. -/
abbrev WalletProgram (U M α : Type) := Async (WalletQuery U M) WalletQuery.Answer (ServiceError U) α

/-- A row of the ledger: its time, the call that inserted it (if it is not older than the server),
and whether it is committed. `credited` is no column: after the row, its call has changed the balance. -/
structure LedgerRow (U M : Type) where
  tx : Transaction U M
  createdAt : ℕ
  task : Option ℕ := none
  committed : Bool := true
  credited : Bool := true

/-- A change of a balance that a call has not committed yet. -/
structure BalanceMove (U : Type) where
  task : ℕ
  userId : U
  deltaCents : ℤ

/-- The repositories and the clock; `asked` says when each call sent the statement it waits for,
and `read` (no field of the source) which balance it read last. -/
structure Vault (U M : Type) where
  balance : U → Option ℤ
  rows : List (LedgerRow U M) := []
  moves : List (BalanceMove U) := []
  now : ℕ := 0
  asked : ℕ → ℕ := fun _ => 0
  read : ℕ → Option ℤ := fun _ => none

/-- The clock, and accounts that are opened. -/
inductive VaultEvent (U : Type) where
  | clock (ms : ℕ)
  | createUser (userId : U)

variable {U M : Type}

namespace WalletOp

/-- The amount of an operation. -/
def amountCents : WalletOp U M → ℤ
  | .credit _ amountCents _ _ | .debit _ amountCents _ => amountCents

/-- The service's program of an operation. -/
def body (w : Wiring) : WalletOp U M → Service U M (MoveResult U M)
  | .credit userId amountCents opts cap => WalletService.credit w userId amountCents opts cap
  | .debit userId amountCents opts => WalletService.debit w userId amountCents opts

/-- The statements of the service, sent to the repositories. -/
def onRepositories {α : Type} (p : Service U M α) : WalletProgram U M α := p.lift WalletQuery.statement

/-- `uow.transaction(fn)`. -/
def transaction {α : Type} (fn : WalletProgram U M α) : WalletProgram U M α := do
  let result ← Async.tryCatch fn fun e => do
    Async.ignore (.await (WalletQuery.rollback (U := U) (M := M)))
    throw e
  .await (WalletQuery.commit (U := U) (M := M))
  pure result

/-- With a unit of work, a transaction; the amount is checked before it begins. -/
def program (uow : Bool) (op : WalletOp U M) : WalletProgram U M (MoveResult U M) :=
  if uow then do
    onRepositories (WalletService.assertAmount op.amountCents)
    transaction (onRepositories (op.body .own))
  else onRepositories (op.body .direct)

/-- `serializeDeposit`. -/
def chain : WalletOp U M → Option U
  | .credit userId _ _ (some _) => some userId
  | _ => none

/-- Another call: none that deposits to the user, and no capped one. -/
def Beside (u : U) : WalletOp U M → Prop
  | .credit userId _ opts cap => userId = u → opts.type ≠ .deposit ∧ cap = none
  | .debit userId _ opts => userId = u → opts.type ≠ .deposit

end WalletOp

/-- The options of a capped deposit. -/
def CappedDeposit.options (d : CappedDeposit M) : CreditOptions M where
  type := .deposit
  providerRef := some d.providerRef
  reason := d.reason
  matchId := d.matchId

/-- The capped deposits of a user, and other calls. -/
inductive DepositorOp (M : Type) (u : U) where
  | deposit (d : CappedDeposit M)
  | beside (op : WalletOp U M) (h : op.Beside u)

/-- The operation behind a depositor's call. -/
def DepositorOp.call {u : U} : DepositorOp M u → WalletOp U M
  | .deposit d => .credit u d.amountCents d.options (some d.depositCapCents)
  | .beside op _ => op

namespace Vault

variable [DecidableEq U]

/-- What an open transaction has added to a balance. -/
def movedBy (s : Vault U M) (task : ℕ) (userId : U) : ℤ :=
  ((s.moves.filter fun m => m.task = task ∧ m.userId = userId).map fun m => m.deltaCents).sum

/-- The balance that a call sees: the stored one and what it has changed itself. -/
def balanceFor (s : Vault U M) (task : ℕ) (userId : U) : Option ℤ :=
  (s.balance userId).map fun b => b + s.movedBy task userId

/-- Another open transaction has changed the balance. -/
def heldByOther (s : Vault U M) (task : ℕ) (userId : U) : Bool :=
  s.moves.any fun m => m.task ≠ task && m.userId = userId

omit [DecidableEq U] in
/-- The rows a call sees: the committed ones and its own. -/
def visible (s : Vault U M) (task : ℕ) : List (LedgerRow U M) :=
  s.rows.filter fun r => r.committed || r.task = some task

/-- `sumByUserTypesSince(userId, ['deposit'], sinceMs)`. -/
def depositsSince (s : Vault U M) (task : ℕ) (userId : U) (sinceMs : ℕ) : ℤ :=
  (((s.visible task).filter fun r =>
    r.tx.account = .user userId ∧ r.tx.type = .deposit ∧ sinceMs ≤ r.createdAt).map fun r => r.tx.amountCents).sum

omit [DecidableEq U] in
/-- A row is written, by a transaction or at once. -/
def insert (s : Vault U M) (uow : Bool) (task : ℕ) (tx : Transaction U M) : Vault U M :=
  { s with rows := s.rows ++
      [{ tx, createdAt := s.now, task := some task, committed := !uow, credited := false }] }

omit [DecidableEq U] in
/-- The rows of a call count as credited. -/
def mark (s : Vault U M) (task : ℕ) : List (LedgerRow U M) :=
  s.rows.map fun r => if r.task = some task then { r with credited := true } else r

/-- A balance is moved, by a transaction or at once. -/
def move (s : Vault U M) (uow : Bool) (task : ℕ) (userId : U) (deltaCents : ℤ) : Vault U M :=
  if uow then { s with rows := s.mark task, moves := s.moves ++ [⟨task, userId, deltaCents⟩] }
  else
    { s with rows := s.mark task,
             balance := Function.update s.balance userId ((s.balance userId).map fun b => b + deltaCents) }

/-- What the transaction has done becomes everyone's. -/
def commit (s : Vault U M) (task : ℕ) : Vault U M :=
  { s with
    balance := fun userId => s.balanceFor task userId
    rows := s.rows.map fun r => if r.task = some task then { r with committed := true } else r
    moves := s.moves.filter fun m => m.task ≠ task }

omit [DecidableEq U] in
/-- What the transaction has done is gone. -/
def rollback (s : Vault U M) (task : ℕ) : Vault U M :=
  { s with
    rows := s.rows.filter fun r => r.committed || r.task ≠ some task
    moves := s.moves.filter fun m => m.task ≠ task }

variable [DecidableEq M]

omit [DecidableEq U] in
/-- The unique index: some row carries the reference, committed or not. -/
def hasRef (s : Vault U M) (ref : ProviderRef M) : Bool := s.rows.any fun r => r.tx.providerRef = some ref

omit [DecidableEq U] in
/-- The row of a reference, among those the call sees. -/
def findRow (s : Vault U M) (task : ℕ) (ref : ProviderRef M) : Option (LedgerRow U M) :=
  (s.visible task).find? fun r => r.tx.providerRef = some ref

/-- A statement of a call; a balance must not become negative. -/
def statement (s : Vault U M) (uow : Bool) (task : ℕ) :
    (q : Statement U M) → Except (ServiceError U) q.Answer × Vault U M
  | .findById userId =>
    (.ok (s.balanceFor task userId), { s with read := Function.update s.read task (s.balanceFor task userId) })
  | .adjustBalance userId deltaCents =>
    match s.balanceFor task userId with
    | none => (.ok none, s)
    | some b =>
      if (!uow || deltaCents < 0) && b + deltaCents < 0 then (.ok none, s)
      else if s.heldByOther task userId then (.error .store, s)
      else (.ok (some (b + deltaCents)), s.move uow task userId deltaCents)
  | .append tx =>
    if tx.providerRef.any s.hasRef then (.error .store, s) else (.ok (), s.insert uow task tx)
  | .appendIdempotent ref tx =>
    match s.findRow task ref with
    | some row => (.ok (row.tx, false), s)
    | none =>
      if s.hasRef ref then (.error .store, s)
      else (.ok ({ tx with providerRef := some ref }, true), s.insert uow task { tx with providerRef := some ref })
  | .findByProviderRef ref => (.ok ((s.findRow task ref).map fun row => row.tx), s)
  | .depositsToday userId =>
    (.ok (s.depositsSince task userId (ResponsibleGaming.startOfDayMs (s.asked task))), s)
  | .advisoryXactLock _ | .recordAudit => (.ok (), s)

omit [DecidableEq U] [DecidableEq M] in
/-- The call goes on at once, and sends its next statement. -/
def sent (s : Vault U M) (task : ℕ) : Vault U M := { s with asked := Function.update s.asked task s.now }

/-- The answer of the repositories. In a database a statement can fail, before or after it took
effect; a transaction that does not commit is rolled back. -/
def answer (s : Vault U M) (uow : Bool) (w : Fault) (task : ℕ) :
    (q : WalletQuery U M) → Except (ServiceError U) q.Answer × Vault U M
  | .statement q =>
    match if uow then w else .none with
    | .none => ((s.statement uow task q).1, (s.statement uow task q).2.sent task)
    | .before => (.error .store, s.sent task)
    | .after => (.error .store, (s.statement uow task q).2.sent task)
  | .commit =>
    match w with
    | .none => (.ok (), s.commit task)
    | .before => (.error .store, s.rollback task)
    | .after => (.error .store, s.commit task)
  | .rollback => (if w = .none then .ok () else .error .store, s.rollback task)

omit [DecidableEq M] in
/-- What the rest of the server does between two statements. -/
def drift (s : Vault U M) : VaultEvent U → Vault U M
  | .clock ms => { s with now := s.now + ms }
  | .createUser userId =>
    if (s.balance userId).isSome then s else { s with balance := Function.update s.balance userId (some 0) }

end Vault

/-- The server; its operations are calls of the wallet. -/
def walletServer [DecidableEq U] [DecidableEq M] (uow : Bool) {Op : Type} (call : Op → WalletOp U M) :
    Runtime (Vault U M) (WalletQuery U M) WalletQuery.Answer (ServiceError U) (MoveResult U M) Op U Fault (VaultEvent U) where
  program _ op := (call op).program uow
  chain op := (call op).chain
  answer w task q s := s.answer uow w task q
  drift e s := s.drift e

end Murlan
