import Mathlib.Data.Int.Notation
import Mathlib.Logic.Function.Basic
import Murlan.Base.Async
import Murlan.Base.Purse
import Murlan.Base.Run

/-!
# Club wars

`social/clubWarService.ts` over what it awaits: the war rows and the wallet of `app.ts`.
Calls on one war run one after another (`withLock`). A credit carries a unique reference;
the unit of work of a registration is one query. Any call of the rows or the wallet may
fail, before or after it took effect. `U` is the type of ids, of users and of clubs; a war's
id is the number of its row.
-/

namespace Murlan

/-- The stages of a war. -/
inductive ClubWarStatus where
  | registering | running | finished | cancelled
  deriving DecidableEq, Repr

/-- The stages a sweep looks at: a war neither finished nor called off. -/
def ClubWarStatus.active : ClubWarStatus → Bool
  | .registering | .running => true
  | .finished | .cancelled => false

/-- One duel of a war, and its winner once reported. -/
structure WarPairing (U : Type) where
  aUserId : U
  bUserId : U
  winnerId : Option U := none
  deriving DecidableEq, Repr

/-- A war's row: the clubs, the rosters, the pool, the duels and the tallies. -/
structure ClubWar (U : Type) where
  id : ℕ
  clubAId : U
  clubBId : U
  status : ClubWarStatus := .registering
  stakeCents : ℕ
  rakeBps : ℕ
  size : ℕ
  rosterA : List U := []
  rosterB : List U := []
  pairings : List (WarPairing U) := []
  scoreA : ℕ := 0
  scoreB : ℕ := 0
  prizePoolCents : ℕ := 0
  winnerClubId : Option U := none
  createdAt : ℤ
  deriving DecidableEq, Repr

/-- The refusals of the service. -/
inductive ClubWarError where
  | sameClub
  | badStake
  | badSize
  | notFound
  | closed
  | already
  | full
  | notRegistering
  | emptySide
  | notRunning
  | noPairing
  | badWinner
  | notCancellable
  /-- The wallet's refusal of an amount of zero. -/
  | amountNotPositive
  /-- A call of the rows or the wallet that failed. -/
  | store
  deriving DecidableEq, Repr

/-- The error code a refusal answers with. -/
def ClubWarError.code : ClubWarError → String
  | .sameClub => "same_club"
  | .badStake => "bad_stake"
  | .badSize => "bad_size"
  | .notFound => "not_found"
  | .closed => "closed"
  | .already => "already"
  | .full => "full"
  | .notRegistering => "not_registering"
  | .emptySide => "empty_side"
  | .notRunning => "not_running"
  | .noPairing => "no_pairing"
  | .badWinner => "bad_winner"
  | .notCancellable => "not_cancellable"
  | .amountNotPositive => "amount"
  | .store => "store"

/-- The text a refusal answers with. -/
def ClubWarError.message : ClubWarError → String
  | .sameClub => "Një klub s’luan kundër vetes."
  | .badStake => "Bast i pavlefshëm."
  | .badSize => "Madhësia duhet 1–5."
  | .notFound => "Lufta nuk u gjet."
  | .closed => "Regjistrimi është mbyllur."
  | .already => "Je regjistruar tashmë."
  | .full => "Skuadra është plot."
  | .notRegistering => "Lufta s’është në regjistrim."
  | .emptySide => "Të dy klubet duhet të kenë lojtarë."
  | .notRunning => "Lufta s’është aktive."
  | .noPairing => "Çifti nuk ekziston."
  | .badWinner => "Fituesi s’është në këtë çift."
  | .notCancellable => "Lufta nuk anulohet pasi ka filluar."
  | .amountNotPositive => "amount must be a positive integer (cents)"
  | .store => "call failed"

/-- `clubwar:<id>:refund:<user>`, `clubwar:<id>:buyin-rollback:<user>`,
`clubwar:<id>:payout:<user>` and `clubwar-rake:clubwar:<id>:payout`. -/
inductive ClubWarRef (U : Type) where
  | refund (id : ℕ) (userId : U)
  | rollback (id : ℕ) (userId : U)
  | share (id : ℕ) (userId : U)
  | rake (id : ℕ)
  deriving DecidableEq, Repr

/-- The war a reference of the ledger is about. -/
def ClubWarRef.id {U : Type} : ClubWarRef U → ℕ
  | .refund id _ | .rollback id _ | .share id _ | .rake id => id

/-- The two sides of a war. -/
inductive WarSide where
  | a | b
  deriving DecidableEq, Repr

/-- The most players a side may field. -/
def maxSize : ℤ := 5

namespace ClubWar

variable {U : Type}

/-- Everyone who paid a buy-in. -/
def players (w : ClubWar U) : List U := w.rosterA ++ w.rosterB

/-- The roster of a side. -/
def roster (w : ClubWar U) : WarSide → List U
  | .a => w.rosterA
  | .b => w.rosterB

/-- Every player of one side meets every player of the other. -/
def begin (w : ClubWar U) : ClubWar U :=
  { w with
    pairings := w.rosterA.flatMap fun a => w.rosterB.map fun b => { aUserId := a, bUserId := b }
    status := .running }

/-- The player joins a side and the pool grows; two full sides begin. -/
def seat (w : ClubWar U) (side : WarSide) (userId : U) : ClubWar U :=
  let w : ClubWar U := match side with
    | .a => { w with rosterA := w.rosterA ++ [userId] }
    | .b => { w with rosterB := w.rosterB ++ [userId] }
  let w : ClubWar U := { w with prizePoolCents := w.prizePoolCents + w.stakeCents }
  if w.size ≤ w.rosterA.length ∧ w.size ≤ w.rosterB.length then w.begin else w

/-- Every pairing has its winner; there is at least one, so both sides have players. -/
def decided (w : ClubWar U) : Bool := w.pairings ≠ [] ∧ w.pairings.all fun p => p.winnerId.isSome

/-- The club with the higher score. -/
def leader (w : ClubWar U) : Option U :=
  if w.scoreB < w.scoreA then some w.clubAId
  else if w.scoreA < w.scoreB then some w.clubBId
  else none

/-- The club ahead on the duels is written as the winner. -/
def decideWinner (w : ClubWar U) : ClubWar U := { w with winnerClubId := w.leader }

variable [DecidableEq U]

/-- A duel is the one reported, in the order the players are named. -/
def isPairing (aUserId bUserId : U) (p : WarPairing U) : Bool :=
  p.aUserId = aUserId ∧ p.bUserId = bUserId

/-- The checks of a report, and the row with the winner and the score; none is a pairing that
was decided before. -/
def report (w : ClubWar U) (aUserId bUserId winnerId : U) : Except ClubWarError (Option (ClubWar U)) :=
  if w.status ≠ .running then .error .notRunning
  else match w.pairings.find? (isPairing aUserId bUserId) with
    | none => .error .noPairing
    | some p =>
      if p.winnerId.isSome then .ok none
      else if winnerId ≠ aUserId ∧ winnerId ≠ bUserId then .error .badWinner
      else .ok <| some { w with
        pairings := w.pairings.modify (w.pairings.findIdx (isPairing aUserId bUserId))
          fun p => { p with winnerId := some winnerId }
        scoreA := if winnerId = aUserId then w.scoreA + 1 else w.scoreA
        scoreB := if winnerId = aUserId then w.scoreB else w.scoreB + 1 }

/-- The winning club's roster. -/
def winners (w : ClubWar U) : List U := if w.winnerClubId = some w.clubAId then w.rosterA else w.rosterB

/-- The house's part of the pool, rounded down. -/
def rakeShare (w : ClubWar U) : ℕ := w.prizePoolCents * w.rakeBps / 10000

/-- What each winner gets. -/
def per (w : ClubWar U) : ℕ := (w.prizePoolCents - w.rakeShare) / w.winners.length

/-- The house rake with the remainder of the division. -/
def rake (w : ClubWar U) : ℕ :=
  w.rakeShare + (w.prizePoolCents - w.rakeShare - w.per * w.winners.length)

/-- The war, over. -/
def finished (w : ClubWar U) : ClubWar U := { w with status := .finished }

/-- The war, called off. -/
def cancelled (w : ClubWar U) : ClubWar U := { w with status := .cancelled }

end ClubWar

/-- What the service awaits. `create` stores the row under its new id. -/
inductive ClubWarQuery (U : Type) where
  | get (id : ℕ)
  | listActive
  | create (w : ClubWar U)
  | save (w : ClubWar U)
  | debit (id : ℕ) (userId : U) (amountCents : ℕ)
  | credit (userId : U) (amountCents : ℕ) (ref : ClubWarRef U)
  | recordRake (amountCents : ℕ) (ref : ClubWarRef U)
  /-- The unit of work of `register`: the buy-in and the row. -/
  | escrow (userId : U) (w : ClubWar U)

/-- What each call of the repository or the wallet answers with. -/
@[reducible] def ClubWarQuery.Answer {U : Type} : ClubWarQuery U → Type
  | .get _ => Option (ClubWar U)
  | .listActive => List (ClubWar U)
  | .create _ => ClubWar U
  | _ => Unit

/-- How the service is set up. `RAKE_BPS` is at most 10000. -/
structure ClubWarService where
  rakeBps : ℕ
  uow : Bool
  rakeBps_le : rakeBps ≤ 10000 := by decide

/-- A program of the service: it awaits the repository and the wallet, and may refuse. -/
abbrev Captain (U α : Type) := Async (ClubWarQuery U) ClubWarQuery.Answer ClubWarError α

namespace ClubWarService

variable {U : Type} [DecidableEq U]

/-- The row of a war, read. -/
def get (id : ℕ) : Captain U (Option (ClubWar U)) := .await (ClubWarQuery.get id)

/-- The row of a war, written back whole. -/
def save (w : ClubWar U) : Captain U Unit := .await (ClubWarQuery.save w)

/-- The wallet takes no amount of zero. -/
def credit (userId : U) (amountCents : ℕ) (ref : ClubWarRef U) : Captain U Unit := do
  .throwIf (amountCents = 0) .amountNotPositive
  .await (ClubWarQuery.credit userId amountCents ref)

/-- `create`: a war between two clubs, once the stake and the size are in bounds. -/
def create (s : ClubWarService) (clubAId clubBId : U) (stakeCents size now : ℤ) : Captain U (ClubWar U) := do
  .throwIf (clubAId = clubBId) .sameClub
  .throwIf (stakeCents < 0) .badStake
  .throwIf (size < 1 ∨ maxSize < size) .badSize
  .await (ClubWarQuery.create
    { id := 0, clubAId, clubBId, stakeCents := stakeCents.toNat, rakeBps := s.rakeBps,
      size := size.toNat, createdAt := now })

/-- Without a unit of work, or without a stake: the debit, then the row, and the debit given
back if the row fails. -/
def registerSaga (w : ClubWar U) (side : WarSide) (userId : U) : Captain U Unit := do
  if 0 < w.stakeCents then .await (ClubWarQuery.debit w.id userId w.stakeCents)
  try save (w.seat side userId)
  catch e =>
    if 0 < w.stakeCents then (credit userId w.stakeCents (.rollback w.id userId)).ignore
    throw e

/-- `register`: a player pays the stake, then joins the roster; a seat lost meanwhile is refunded. -/
def register (s : ClubWarService) (id : ℕ) (userId : U) (side : WarSide) : Captain U (ClubWar U) := do
  match ← get id with
  | none => throw .notFound
  | some w =>
    .throwIf (w.status ≠ .registering) .closed
    .throwIf (userId ∈ w.rosterA ∨ userId ∈ w.rosterB) .already
    .throwIf (w.size ≤ (w.roster side).length) .full
    if s.uow ∧ 0 < w.stakeCents then .await (ClubWarQuery.escrow userId (w.seat side userId))
    else registerSaga w side userId
    pure (w.seat side userId)

/-- `start`: the rosters are paired off once both are full. -/
def start (id : ℕ) : Captain U (ClubWar U) := do
  match ← get id with
  | none => throw .notFound
  | some w =>
    .throwIf (w.status ≠ .registering) .notRegistering
    .throwIf (w.rosterA = [] ∨ w.rosterB = []) .emptySide
    save w.begin
    pure w.begin

/-- Every buy-in, one credit after another. -/
def refundAll (w : ClubWar U) : Captain U Unit :=
  if w.stakeCents = 0 then pure ()
  else w.players.forM fun u => credit u w.stakeCents (.refund w.id u)

/-- Every winner's share, then the rake. -/
def payoutSplit (w : ClubWar U) : Captain U Unit := do
  w.winners.forM fun u => credit u w.per (.share w.id u)
  if 0 < w.rake then .await (ClubWarQuery.recordRake w.rake (.rake w.id))

/-- The money of a decided war: refunds on a tie, else the split. -/
def payoutSettled (w : ClubWar U) : Captain U Unit :=
  if w.stakeCents = 0 ∨ w.prizePoolCents = 0 then pure ()
  else match w.winnerClubId with
    | none => refundAll w
    | some _ => payoutSplit w

/-- The payout of a decided war, then its last status. -/
def settle (w : ClubWar U) : Captain U Unit := do
  payoutSettled w
  save w.finished

/-- `reportResult`: a duel is decided; the last one pays the pool out. -/
def reportResult (id : ℕ) (aUserId bUserId winnerId : U) : Captain U (ClubWar U) := do
  match ← get id with
  | none => throw .notFound
  | some w =>
    match w.report aUserId bUserId winnerId with
    | .error e => throw e
    | .ok none => pure w
    | .ok (some w) =>
      if w.decided then
        save w.decideWinner
        settle w.decideWinner
        pure w.decideWinner.finished
      else
        save w
        pure w

/-- `cancel`: a war still registering is called off, and every stake goes back. -/
def cancel (id : ℕ) : Captain U (ClubWar U) := do
  match ← get id with
  | none => throw .notFound
  | some w =>
    .throwIf (w.status ≠ .registering) .notCancellable
    refundAll w
    save w.cancelled
    pure w.cancelled

/-- One war of the sweep, read again under its lock. -/
def sweepOne (cutoff : ℤ) (swept : List ℕ) (snap : ClubWar U) : Captain U (List ℕ) := do
  if cutoff < snap.createdAt then pure swept
  else
    match ← get snap.id with
    | none => pure swept
    | some w =>
      if !w.status.active then pure swept
      else
        if w.status = .running ∧ w.decided then settle w.decideWinner
        else
          refundAll w
          save w.cancelled
        pure (swept ++ [w.id])

/-- `sweepStaleWars`: the wars too old are called off one after another. -/
def sweepStaleWars (now maxAgeMs : ℤ) : Captain U (List ℕ) := do
  let active ← .await ClubWarQuery.listActive
  active.foldlM (sweepOne (now - maxAgeMs)) []

end ClubWarService

/-- The rows, and what the wallet moved for them. -/
structure ClubWars (U : Type) where
  rows : ℕ → Option (ClubWar U) := fun _ => none
  seq : ℕ := 0
  purse : Purse U (ClubWarRef U) := {}

/-- The calls the routes and the ticker make. -/
inductive ClubWarCall (U : Type) where
  | create (clubAId clubBId : U) (stakeCents size now : ℤ)
  | register (id : ℕ) (userId : U) (side : WarSide)
  | start (id : ℕ)
  | reportResult (id : ℕ) (aUserId bUserId winnerId : U)
  | cancel (id : ℕ)
  | sweepStaleWars (now maxAgeMs : ℤ)
  deriving DecidableEq, Repr

/-- What a call returns. -/
inductive ClubWarReceipt (U : Type) where
  | war (w : ClubWar U)
  | swept (ids : List ℕ)
  deriving DecidableEq, Repr

/-- A call, with what fails in it. -/
structure ClubWarEvent (U : Type) where
  call : ClubWarCall U
  fault : ClubWarQuery U → Fault := fun _ => .none

namespace ClubWars

variable {U : Type} [DecidableEq U]

/-- The row is written under its own id. -/
def setRow (s : ClubWars U) (w : ClubWar U) : ClubWars U :=
  { s with rows := Function.update s.rows w.id (some w) }

/-- What the repository and the wallet do with a call that goes through. -/
def answer (q : ClubWarQuery U) (s : ClubWars U) : q.Answer × ClubWars U :=
  match q with
  | .get id => (s.rows id, s)
  | .listActive => (((List.range s.seq).filterMap s.rows).filter fun w => w.status.active, s)
  | .create w =>
    let w : ClubWar U := { w with id := s.seq }
    (w, { s.setRow w with seq := s.seq + 1 })
  | .save w => ((), s.setRow w)
  | .debit id u a => ((), { s with purse := s.purse.debit id u a })
  | .credit _ a ref | .recordRake a ref => ((), { s with purse := s.purse.credit ref a })
  | .escrow u w => ((), { s.setRow w with purse := s.purse.debit w.id u w.stakeCents })

/-- The rows and the wallet with their failures. -/
def reply (fault : ClubWarQuery U → Fault) (q : ClubWarQuery U) (s : ClubWars U) :
    Except ClubWarError q.Answer × ClubWars U :=
  Async.faulty answer fault .store q s

end ClubWars

section Runs

variable {U : Type} [DecidableEq U]

/-- The program a call runs. -/
def ClubWarCall.program (v : ClubWarService) : ClubWarCall U → Captain U (ClubWarReceipt U)
  | .create a b stake size now => .war <$> v.create a b stake size now
  | .register id u side => .war <$> v.register id u side
  | .start id => .war <$> ClubWarService.start id
  | .reportResult id a b winner => .war <$> ClubWarService.reportResult id a b winner
  | .cancel id => .war <$> ClubWarService.cancel id
  | .sweepStaleWars now maxAgeMs => .swept <$> ClubWarService.sweepStaleWars now maxAgeMs

/-- One call runs to its end, with the faults the event names. -/
def ClubWars.step (v : ClubWarService) (s : ClubWars U) (e : ClubWarEvent U) : ClubWars U :=
  ((e.call.program v).exec (ClubWars.reply e.fault) s).2

end Runs

end Murlan
