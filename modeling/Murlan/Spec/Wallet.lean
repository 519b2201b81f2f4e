import Mathlib.Logic.Function.Basic
import Murlan.Spec.Scoring

/-!
# The database and the wallet

The stored state behind a match's money and the operations on it: users'
balances and the ledger (`money/ledger.ts`, `auth/userRepository.ts`), the rows of
matches (`money/matchesRepository.ts`) and the movements of
`money/walletService.ts` as they run inside one transaction, where an error rolls
everything back. `U` is the type of user ids, `M` that of match ids.
-/

namespace Murlan

/-- The largest amount of one movement. -/
def maxAmountCents : ℕ := 2000000000

/-- The largest balance. -/
def balanceCeilingCents : ℤ := 2000000000

/-- Whose row it is: a user's or the house's. -/
inductive Account (U : Type) where
  | user (id : U)
  | house
  deriving DecidableEq, Repr

/-- The kinds of a ledger row. -/
inductive TransactionType where
  | deposit | withdrawal | bet | payout | rake | purchase | transferOut | transferIn | adminAdjust
  deriving DecidableEq, Repr

/-- The unique reference of a ledger row. The strings are `payout:<match>:<seat>`,
`refund:<match>:<seat>` and `rake:<match>`; a seat is a numeral, so they determine
their parts. -/
inductive ProviderRef (M : Type) where
  | payout (matchId : M) (seat : ℕ)
  | refund (matchId : M) (seat : ℕ)
  | rake (matchId : M)
  | other (ref : String)
  deriving DecidableEq, Repr

/-- The match a reference belongs to. -/
def ProviderRef.matchId? {M : Type} : ProviderRef M → Option M
  | .payout id _ | .refund id _ | .rake id => some id
  | .other _ => none

/-- A row of the ledger; `amountCents` is signed. -/
structure Transaction (U M : Type) where
  account : Account U
  type : TransactionType
  amountCents : ℤ
  providerRef : Option (ProviderRef M) := none
  matchId : Option M := none
  reason : Option String := none
  deriving DecidableEq, Repr

/-- The states of a match row. -/
inductive MatchStatus where
  | active | settled | cancelled
  deriving DecidableEq, Repr

/-- A seat of a match, and its user. -/
structure MatchPlayer (U : Type) where
  seat : ℕ
  userId : U
  deriving DecidableEq, Repr

/-- A match's row. -/
structure MatchRecord (U M : Type) where
  id : M
  type : MatchType
  stakeCents : ℕ
  rakeBps : ℕ
  potCents : ℕ
  status : MatchStatus := .active
  winnerSeats : Option (List ℕ) := none
  players : List (MatchPlayer U)
  deriving DecidableEq, Repr

/-- The row, settled. -/
def MatchRecord.settled {U M : Type} (r : MatchRecord U M) (winnerSeats : List ℕ) : MatchRecord U M :=
  { r with status := .settled, winnerSeats := some winnerSeats }

/-- The row, cancelled. -/
def MatchRecord.cancelled {U M : Type} (r : MatchRecord U M) : MatchRecord U M :=
  { r with status := .cancelled }

/-- The database. `closes` is no table: it records every `markSettled` and
`markCancelled` carried out. -/
structure Db (U M : Type) where
  balance : U → Option ℤ
  ledger : List (Transaction U M) := []
  matches_ : List (MatchRecord U M) := []
  closes : List (M × MatchStatus) := []

/-- What the wallet may throw. -/
inductive WalletError (U : Type) where
  | amountNotPositive
  | amountTooLarge
  | userNotFound (userId : Option U)
  | balanceCeiling (userId : U) (currentCents : ℤ) (amountCents : ℕ)
  | failedToApply (userId : U)
  | insufficientFunds (userId : U)
  deriving DecidableEq, Repr

/-- The text of an error. -/
def WalletError.message {U : Type} [ToString U] : WalletError U → String
  | .amountNotPositive => "amount must be a positive integer (cents)"
  | .amountTooLarge => "amount exceeds the maximum allowed"
  | .userNotFound none => "user undefined not found"
  | .userNotFound (some u) => s!"user {u} not found"
  | .balanceCeiling u c a => s!"balance ceiling exceeded for {u}: {c}+{a} > {balanceCeilingCents}"
  | .failedToApply u => s!"failed to apply credit for {u}"
  | .insufficientFunds u => s!"insufficient funds for {u}"

/-- What comes with a credit. -/
structure CreditOptions (M : Type) where
  type : TransactionType
  reason : Option String := none
  providerRef : Option (ProviderRef M) := none
  matchId : Option M := none

/-- What comes with a debit. -/
structure DebitOptions (M : Type) where
  type : TransactionType
  reason : Option String := none
  matchId : Option M := none

namespace Db

variable {U M : Type} [DecidableEq U] [DecidableEq M]

/-! ## Matches -/

/-- The match of an id. -/
def find (db : Db U M) (id : M) : Option (MatchRecord U M) := db.matches_.find? fun r => r.id = id

/-- The matches still open. -/
def listActive (db : Db U M) : List (MatchRecord U M) := db.matches_.filter fun r => r.status = .active

/-- `Map.set`: the row of the id is replaced, or added. -/
def create (db : Db U M) (record : MatchRecord U M) : Db U M :=
  if (db.find record.id).isSome then
    { db with matches_ := db.matches_.map fun r => if r.id = record.id then record else r }
  else { db with matches_ := db.matches_ ++ [record] }

/-- Close a match; only an active one changes. -/
def close (db : Db U M) (id : M) (status : MatchStatus)
    (change : MatchRecord U M → MatchRecord U M) : Db U M :=
  { db with
    matches_ := db.matches_.map fun r => if r.id = id ∧ r.status = .active then change r else r
    closes := db.closes ++ [(id, status)] }

/-- An open match is settled. -/
def markSettled (db : Db U M) (id : M) (winnerSeats : List ℕ) : Db U M :=
  db.close id .settled fun r => r.settled winnerSeats

/-- An open match is cancelled. -/
def markCancelled (db : Db U M) (id : M) : Db U M :=
  db.close id .cancelled MatchRecord.cancelled

/-! ## Ledger and balances -/

/-- A row joins the ledger. -/
def append (db : Db U M) (tx : Transaction U M) : Db U M := { db with ledger := db.ledger ++ [tx] }

/-- Some row carries the reference. -/
def hasRef (db : Db U M) (ref : ProviderRef M) : Bool := db.ledger.any fun tx => tx.providerRef = some ref

/-- Insert a row whose reference must be unique; an existing row stays alone. -/
def appendIdempotent (db : Db U M) (ref : ProviderRef M) (tx : Transaction U M) : Db U M × Bool :=
  if db.hasRef ref then (db, false) else (db.append { tx with providerRef := some ref }, true)

/-- Change a balance, unless the user is unknown or it would go negative. -/
def adjustBalance (db : Db U M) (userId : U) (deltaCents : ℤ) : Option (Db U M) :=
  match db.balance userId with
  | none => none
  | some b =>
    if b + deltaCents < 0 then none
    else some { db with balance := Function.update db.balance userId (some (b + deltaCents)) }

/-- A user's balance, zero when there is no user. -/
def getBalance (db : Db U M) (userId : U) : ℤ := (db.balance userId).getD 0

/-- An amount is positive and not too large. -/
def assertAmount (amountCents : ℕ) : Except (WalletError U) Unit :=
  if amountCents = 0 then .error .amountNotPositive
  else if maxAmountCents < amountCents then .error .amountTooLarge
  else .ok ()

/-- A new credit: the ceiling, then the balance. -/
def applyCredit (db : Db U M) (userId : U) (current : ℤ) (amountCents : ℕ) :
    Except (WalletError U) (Db U M) :=
  if balanceCeilingCents < current + amountCents then
    .error (.balanceCeiling userId current amountCents)
  else match db.adjustBalance userId amountCents with
    | none => .error (.failedToApply userId)
    | some db' => .ok db'

/-- Add funds; a credit whose reference the ledger holds already changes nothing. -/
def credit (db : Db U M) (userId : U) (amountCents : ℕ) (opts : CreditOptions M) :
    Except (WalletError U) (Db U M) := do
  assertAmount amountCents
  match db.balance userId with
  | none => .error (.userNotFound (some userId))
  | some current =>
    let tx : Transaction U M :=
      { account := .user userId, type := opts.type, amountCents, matchId := opts.matchId,
        reason := opts.reason }
    match opts.providerRef with
    | some ref =>
      let r := db.appendIdempotent ref tx
      if !r.2 then .ok r.1 else r.1.applyCredit userId current amountCents
    | none => (db.append tx).applyCredit userId current amountCents

/-- Remove funds, refusing to overdraw. -/
def debit (db : Db U M) (userId : U) (amountCents : ℕ) (opts : DebitOptions M) :
    Except (WalletError U) (Db U M) := do
  assertAmount amountCents
  match db.adjustBalance userId (-amountCents) with
  | none => .error (.insufficientFunds userId)
  | some db' =>
    .ok (db'.append
      { account := .user userId, type := opts.type, amountCents := -amountCents,
        matchId := opts.matchId, reason := opts.reason })

/-- Book the house rake; the house has no balance. -/
def recordRake (db : Db U M) (amountCents : ℕ) (matchId : M) (ref : ProviderRef M) : Db U M :=
  (db.appendIdempotent ref
    { account := .house, type := .rake, amountCents, matchId := some matchId,
      reason := some "rake" }).1

end Db

end Murlan
