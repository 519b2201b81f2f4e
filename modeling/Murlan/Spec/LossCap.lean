import Mathlib.Data.PNat.Basic
import Murlan.Base.Crew
import Murlan.Spec.Wallet

/-!
# The daily loss cap

`responsibleGaming.ts` and the ways a player stakes money: the start of a staked match
(`tryBeginMatch`), and the routes that register for a tournament, open a club war and join
one. Each passes the gates of the player, reading the ledger at the last of them, and
debits later. The waits of a request that neither read nor write the ledger are not steps
of their own: anything may happen between two steps.
-/

namespace Murlan

/-- A row of a user's ledger, with its time. -/
structure StakeRow (U : Type) where
  userId : U
  type : TransactionType
  amountCents : ℤ
  createdAt : ℕ
  deriving DecidableEq, Repr

namespace ResponsibleGaming

variable {U : Type} [DecidableEq U]

/-- A day in milliseconds. -/
def DAY_MS : ℕ := 86400000

/-- The UTC day an instant falls on. -/
def dayIndex (ms : ℕ) : ℕ := ms / DAY_MS

/-- Where the day of an instant begins. -/
def startOfDayMs (now : ℕ) : ℕ := dayIndex now * DAY_MS

/-- The rows that count as play: stakes and payouts. -/
def isGamble (t : TransactionType) : Bool := t == .bet || t == .payout

omit [DecidableEq U] in
/-- What today's play has come to; a loss is negative. -/
def netResultToday (txs : List (StakeRow U)) (now : ℕ) : ℤ :=
  ((txs.filter fun t => isGamble t.type && dayIndex t.createdAt == dayIndex now).map (·.amountCents)).sum

/-- The ledger's `listByUser`. -/
def listTransactions (ledger : List (StakeRow U)) (userId : U) : List (StakeRow U) :=
  ledger.filter (·.userId = userId)

/-- The ledger's `sumByUserTypesSince` of bets and payouts. -/
def sumGamblesSince (ledger : List (StakeRow U)) (userId : U) (sinceMs : ℕ) : ℤ :=
  ((ledger.filter fun t => t.userId = userId ∧ isGamble t.type = true ∧ sinceMs ≤ t.createdAt).map (·.amountCents)).sum

end ResponsibleGaming

/-- What the server is configured with, and the limits the users have set: a limit is positive,
and a user without one is not capped. -/
structure Stakes (U : Type) where
  compliance : Bool := false
  aggregate : Bool := true
  dailyLossLimitCents : U → Option ℕ+ := fun _ => none
  isBot : U → Bool := fun _ => false

/-- The clock, the ledger, the seats of the rooms and the room each user sits in. -/
structure Casino (U R : Type) where
  now : ℕ := 0
  ledger : List (StakeRow U) := []
  seats : R → List (Option U) := fun _ => []
  roomOf : U → Option R := fun _ => none

/-- The four ways a stake is taken. -/
inductive BetOp (U R : Type) where
  | tryBeginMatch (roomId : R) (stakeCents : ℕ)
  | registerTournament (userId : U) (buyInCents : ℕ)
  | createClubWar (userId : U) (stakeCents : ℕ)
  | registerClubWar (userId : U) (stakeCents : ℕ)

/-- A ledger that a loss check has read: whose, when the check took the time, and how many bets
the user had then. -/
structure LossCheck (U : Type) where
  userId : U
  at_ : ℕ
  bets : ℕ
  deriving DecidableEq, Repr

/-- Where a bet stands, at one of the seats it gates. The players of the debit are taken when the
last gate has let the bet through. -/
inductive BetPhase (U : Type) where
  | checkAccount (seat : ℕ)
  | checkCompliance (seat : ℕ)
  | getLimits (seat : ℕ) (userId : Option U)
  | sumByTypesSince (seat : ℕ) (limit : ℕ+) (check : LossCheck U)
  | listTransactions (seat : ℕ) (limit : ℕ+) (check : LossCheck U)
  | debit (players : List U)
  | ended
  deriving DecidableEq, Repr

/-- `passed` are the checks that allowed the bet. -/
structure BetTask (U R : Type) where
  op : BetOp U R
  phase : BetPhase U
  blocked : Bool := false
  passed : List (LossCheck U) := []

/-- What happens beside the bets: the clock, players who sit down and get up, winnings and
refunds, and transactions of other types. -/
inductive CasinoEvent (U R : Type) where
  | clock (ms : ℕ)
  | sit (userId : U) (roomId : R) (seat : ℕ)
  | leave (userId : U)
  | payout (userId : U) (cents : ℕ)
  | book (userId : U) (type : TransactionType) (cents : ℤ)

namespace BetOp

variable {U R : Type}

/-- The stake an operation takes from each player. -/
def stakeCents : BetOp U R → ℕ
  | .tryBeginMatch _ stake | .registerTournament _ stake | .createClubWar _ stake | .registerClubWar _ stake => stake

/-- The users a bet gates, seat by seat, as they now are. -/
def seats (s : Casino U R) : BetOp U R → List (Option U)
  | .tryBeginMatch roomId _ => s.seats roomId
  | .registerTournament userId _ | .createClubWar userId _ | .registerClubWar userId _ => [some userId]

/-- The human on a seat. -/
def seatedAt (s : Casino U R) (op : BetOp U R) (seat : ℕ) : Option U := ((op.seats s)[seat]?).join

/-- The users a bet debits, as they now are. -/
def players (cfg : Stakes U) (s : Casino U R) (op : BetOp U R) : List U :=
  ((op.seats s).filterMap id).filter fun u => !cfg.isBot u

end BetOp

namespace Casino

variable {U R : Type} [DecidableEq U] [DecidableEq R]

omit [DecidableEq R] in
/-- The bets of a user so far. -/
def bets (s : Casino U R) (userId : U) : ℕ := s.ledger.countP fun t => t.userId = userId ∧ t.type = .bet

omit [DecidableEq R] in
/-- A user's result today, by the ledger. -/
def net (s : Casino U R) (userId : U) (now : ℕ) : ℤ :=
  ResponsibleGaming.netResultToday (ResponsibleGaming.listTransactions s.ledger userId) now

omit [DecidableEq U] [DecidableEq R] in
/-- A row joins the ledger, dated now. -/
def append (s : Casino U R) (userId : U) (type : TransactionType) (cents : ℤ) : Casino U R :=
  { s with ledger := s.ledger ++ [⟨userId, type, cents, s.now⟩] }

omit [DecidableEq U] [DecidableEq R] in
/-- The stakes of all players, in one transaction. -/
def debit (s : Casino U R) (players : List U) (cents : ℕ) : Casino U R :=
  players.foldl (fun s u => s.append u .bet (-cents)) s

/-- A user sits in one room at most (`already_in_room`), on a free seat. -/
def drift (s : Casino U R) : CasinoEvent U R → Casino U R
  | .clock ms => { s with now := s.now + ms }
  | .sit userId roomId seat =>
    if s.roomOf userId = none ∧ (s.seats roomId)[seat]? = some none then
      { s with
        seats := Function.update s.seats roomId ((s.seats roomId).set seat (some userId))
        roomOf := Function.update s.roomOf userId (some roomId) }
    else s
  | .leave userId =>
    match s.roomOf userId with
    | none => s
    | some roomId =>
      { s with
        seats := Function.update s.seats roomId
          ((s.seats roomId).map fun o => if o = some userId then none else o)
        roomOf := Function.update s.roomOf userId none }
  | .payout userId cents => s.append userId .payout cents
  | .book userId type cents => if ResponsibleGaming.isGamble type then s else s.append userId type cents

end Casino

namespace BetTask

variable {U R : Type} [DecidableEq U] [DecidableEq R]

omit [DecidableEq U] [DecidableEq R] in
/-- The gates of the next occupied seat from `seat` on; after the last, the debit of those who are
seated now, if nobody was blocked. -/
def gateFrom (cfg : Stakes U) (s : Casino U R) (t : BetTask U R) (seat : ℕ) : BetTask U R :=
  match (List.range (t.op.seats s).length).find? fun i => seat ≤ i && (t.op.seatedAt s i).isSome with
  | some i => { t with phase := .checkAccount i }
  | none => { t with phase := if t.blocked then .ended else .debit (t.op.players cfg s) }

omit [DecidableEq U] [DecidableEq R] in
/-- `fail`: the others are told as well. -/
def fail (cfg : Stakes U) (s : Casino U R) (t : BetTask U R) (seat : ℕ) : BetTask U R :=
  { t with blocked := true }.gateFrom cfg s (seat + 1)

omit [DecidableEq U] [DecidableEq R] in
/-- `checkLoss` of the user at the seat, at its first wait. -/
def checkLoss (s : Casino U R) (t : BetTask U R) (seat : ℕ) : BetTask U R :=
  { t with phase := .getLimits seat (t.op.seatedAt s seat) }

omit [DecidableEq U] [DecidableEq R] in
/-- The verdict of `checkLoss`. -/
def judge (cfg : Stakes U) (s : Casino U R) (t : BetTask U R) (seat : ℕ) (limit : ℕ+) (check : LossCheck U)
    (net : ℤ) : BetTask U R :=
  if net ≤ -limit then t.fail cfg s seat
  else { t with passed := t.passed ++ [check] }.gateFrom cfg s (seat + 1)

end BetTask

open ResponsibleGaming in
/-- `w` is the verdict of a gate, and whether a debit goes through (everybody can pay, the
tournament or the war is open). -/
def wagers {U R : Type} [DecidableEq U] [DecidableEq R] (cfg : Stakes U) :
    Crew (Casino U R) (BetTask U R) (BetOp U R) Bool (CasinoEvent U R) where
  enter s op :=
    let t : BetTask U R := { op, phase := .ended }
    if op.stakeCents = 0 then t else t.gateFrom cfg s 0
  resume w t s :=
    match t.phase with
    | .checkAccount seat =>
      if !w then (t.fail cfg s seat, s)
      else if cfg.compliance then ({ t with phase := .checkCompliance seat }, s)
      else (t.checkLoss s seat, s)
    | .checkCompliance seat => if !w then (t.fail cfg s seat, s) else (t.checkLoss s seat, s)
    | .getLimits seat userId =>
      match userId, userId.bind cfg.dailyLossLimitCents with
      | some u, some limit => ({ t with phase := .sumByTypesSince seat limit ⟨u, s.now, s.bets u⟩ }, s)
      | _, _ => (t.gateFrom cfg s (seat + 1), s)
    | .sumByTypesSince seat limit check =>
      if cfg.aggregate then
        (t.judge cfg s seat limit check (sumGamblesSince s.ledger check.userId (startOfDayMs check.at_)), s)
      else ({ t with phase := .listTransactions seat limit check }, s)
    | .listTransactions seat limit check =>
      (t.judge cfg s seat limit check (netResultToday (listTransactions s.ledger check.userId) check.at_), s)
    | .debit players =>
      ({ t with phase := .ended }, if w then s.debit players t.op.stakeCents else s)
    | .ended => (t, s)
  drift e s := s.drift e

end Murlan
