import Mathlib.Data.Rat.Floor
import Murlan.Base.Paging
import Murlan.Spec.Wallet

/-!
# The pages of a user's ledger

`GET /api/wallet/transactions` (`http/walletRoutes.ts`), `WalletService.listTransactionsPage`
and the in-memory ledger they read (`money/ledger.ts`). Ids are `tx_1`, `tx_2`, … in the
order of the rows; the numbers stand for them.
-/

namespace Murlan

/-- A number of the source. A finite one is taken exactly. -/
inductive JsNumber where
  | nan | infinity | negInfinity
  | fin (q : ℚ)
  deriving DecidableEq

/-- A ledger row with its id. -/
structure LedgerEntry (U M : Type) where
  id : ℕ
  tx : Transaction U M
  deriving DecidableEq, Repr

/-- The rows, and the last number given. -/
structure InMemoryLedger (U M : Type) where
  rows : List (LedgerEntry U M) := []
  seq : ℕ := 0

namespace InMemoryLedger

variable {U M : Type} [DecidableEq U] [DecidableEq M]

/-- A row whose reference is taken is not added. -/
def append (l : InMemoryLedger U M) (tx : Transaction U M) : InMemoryLedger U M :=
  if tx.providerRef.isSome ∧ l.rows.any (fun r => r.tx.providerRef = tx.providerRef) then l
  else { rows := l.rows ++ [{ id := l.seq + 1, tx }], seq := l.seq + 1 }

/-- The rows of a user, oldest first. -/
def mine (l : InMemoryLedger U M) (userId : Account U) : List (LedgerEntry U M) :=
  l.rows.filter fun r => r.tx.account = userId

/-- The user's rows behind the cursor, newest first. -/
def listByUser (l : InMemoryLedger U M) (userId : Account U) (take : ℤ) (cursor : Option ℕ) : List (LedgerEntry U M) :=
  (behind LedgerEntry.id (l.mine userId).reverse cursor).take (max 0 take).toNat

end InMemoryLedger

/-- `Math.min(500, Math.max(1, q))`. -/
def clampPage (q : ℚ) : ℚ := min 500 (max 1 q)

/-- The page size of the service. -/
def pageTake (take : ℚ) : ℤ := min 500 (max 1 ⌊take⌋)

/-- `Math.min(500, Math.max(1, Number(q.limit) || 200))`. -/
def JsNumber.takeOf : JsNumber → ℚ
  | nan => clampPage 200
  | infinity => 500
  | negInfinity => 1
  | fin q => clampPage (if q = 0 then 200 else q)

section Route

variable {U M : Type} [DecidableEq U] [DecidableEq M]

/-- The route's page: the limit the client sent is brought into bounds first. -/
def listTransactionsPage (l : InMemoryLedger U M) (userId : Account U) (take : ℚ) (cursor : Option ℕ) :
    List (LedgerEntry U M) :=
  l.listByUser userId (pageTake take) cursor

/-- A page, and the cursor of the next. `limit` is `Number(q.limit)`. -/
def getTransactions (l : InMemoryLedger U M) (userId : Account U) (limit : JsNumber) (cursor : Option ℕ) :
    List (LedgerEntry U M) × Option ℕ :=
  let transactions := listTransactionsPage l userId limit.takeOf cursor
  (transactions,
    if clampPage limit.takeOf ≤ transactions.length then transactions.getLast?.map LedgerEntry.id else none)

/-- The ledger at the `k`-th request: `batch i` is appended after the `i`-th. -/
def ledgerAt (l : InMemoryLedger U M) (batch : ℕ → List (Transaction U M)) : ℕ → InMemoryLedger U M
  | 0 => l
  | k + 1 => (batch k).foldl InMemoryLedger.append (ledgerAt l batch k)

/-- All the rows a client gets that starts without a cursor and follows `nextCursor`. -/
def followPages (l : InMemoryLedger U M) (batch : ℕ → List (Transaction U M)) (userId : Account U) (limit : JsNumber)
    (fuel : ℕ) : Option (List (LedgerEntry U M)) :=
  collect (fun k cursor => getTransactions (ledgerAt l batch k) userId limit cursor) fuel 0 none

end Route

end Murlan
