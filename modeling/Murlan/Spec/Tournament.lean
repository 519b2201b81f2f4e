import Mathlib.Data.Int.Notation
import Mathlib.Data.List.Sort
import Mathlib.Logic.Function.Basic
import Murlan.Base.Async
import Murlan.Base.Purse
import Murlan.Base.Run

/-!
# Tournaments

`tournament/tournamentService.ts` over what it awaits: the tournament rows and the wallet
of `app.ts`. Calls on one tournament run one after another (`withLock`). A credit carries a
unique reference; the statements of one unit of work are one query. Any call of the rows or
the wallet may fail, before or after it took effect. The outcomes that the gateway records
live in the process. `U` is the type of user ids; a tournament's id is the number of its row.
-/

namespace Murlan

/-- The stages of a tournament. -/
inductive TournamentStatus where
  | registering | running | awaitingConfirmation | finished | cancelled
  deriving DecidableEq, Repr

/-- `SWEEPABLE`: neither finished nor cancelled. -/
def TournamentStatus.sweepable : TournamentStatus → Bool
  | .registering | .running | .awaitingConfirmation => true
  | .finished | .cancelled => false

/-- A slot of the bracket. -/
structure BracketMatch (U : Type) where
  round : ℕ
  index : ℕ
  aUserId : Option U
  bUserId : Option U
  winnerId : Option U
  deriving DecidableEq, Repr

/-- A tournament's row: players, pool, bracket and winner. -/
structure Tournament (U : Type) where
  id : ℕ
  buyInCents : ℕ
  capacity : ℕ
  status : TournamentStatus := .registering
  playerIds : List U := []
  bracket : List (BracketMatch U) := []
  prizePoolCents : ℕ := 0
  rakeBps : ℕ
  winnerId : Option U := none
  pendingWinnerId : Option U := none
  reportedByAdminId : Option U := none
  createdAt : ℤ
  deriving DecidableEq, Repr

/-- The refusals of the service. -/
inductive TournamentError where
  | badCapacity
  | badBuyin
  | notFound
  | closed
  | alreadyIn
  | full
  | notRunning
  | noMatch
  | alreadyDecided
  | badWinner
  | resultConflict
  | notAwaiting
  | sameAdmin
  | notCancellable
  | active
  /-- A call of the rows or the wallet that failed. -/
  | store
  deriving DecidableEq, Repr

/-- The error code a refusal answers with. -/
def TournamentError.code : TournamentError → String
  | .badCapacity => "bad_capacity"
  | .badBuyin => "bad_buyin"
  | .notFound => "not_found"
  | .closed => "closed"
  | .alreadyIn => "already_in"
  | .full => "full"
  | .notRunning => "not_running"
  | .noMatch => "no_match"
  | .alreadyDecided => "already_decided"
  | .badWinner => "bad_winner"
  | .resultConflict => "result_conflict"
  | .notAwaiting => "not_awaiting"
  | .sameAdmin => "same_admin"
  | .notCancellable => "not_cancellable"
  | .active => "active"
  | .store => "store"

/-- The text a refusal answers with. -/
def TournamentError.message : TournamentError → String
  | .badCapacity => "Kapaciteti duhet të jetë 2, 4 ose 8."
  | .badBuyin => "Pjesëmarrja e pavlefshme."
  | .notFound => "Turneu nuk u gjet."
  | .closed => "Regjistrimi është mbyllur."
  | .alreadyIn => "Je tashmë i regjistruar."
  | .full => "Turneu është plot."
  | .notRunning => "Turneu nuk është aktiv."
  | .noMatch => "Ndeshja nuk ekziston."
  | .alreadyDecided => "Ndeshja është vendosur tashmë."
  | .badWinner => "Fituesi nuk është në këtë ndeshje."
  | .resultConflict => "Fituesi i raportuar bie ndesh me rezultatin e regjistruar të ndeshjes."
  | .notAwaiting => "Turneu nuk është në pritje konfirmimi."
  | .sameAdmin => "Një administrator i DYTË duhet ta konfirmojë pagesën."
  | .notCancellable => "Turneu ka përfunduar ose është anuluar tashmë."
  | .active => "Anulo turneun i pari (mban ende bast/çmim) para se ta fshish."
  | .store => "call failed"

/-- `tournament refund:<id>:<user>`, `tournament buyin-rollback:<id>:<user>`,
`tournament prize:<id>` and `tournament-rake:<id>`. -/
inductive TournamentRef (U : Type) where
  | refund (id : ℕ) (userId : U)
  | rollback (id : ℕ) (userId : U)
  | prize (id : ℕ)
  | rake (id : ℕ)
  deriving DecidableEq, Repr

/-- The tournament a reference of the ledger is about. -/
def TournamentRef.id {U : Type} : TournamentRef U → ℕ
  | .refund id _ | .rollback id _ | .prize id | .rake id => id

/-- The sizes a bracket may have. -/
def validCapacities : List ℤ := [2, 4, 8]

namespace Tournament

variable {U : Type}

/-- The matches of a round, two players each. -/
def pairings (round : ℕ) : ℕ → List U → List (BracketMatch U)
  | index, a :: b :: rest =>
    { round, index, aUserId := some a, bUserId := some b, winnerId := none } ::
      pairings round (index + 1) rest
  | _, _ => []

/-- The first round is paired off in the order of entry. -/
def seedBracket (t : Tournament U) : Tournament U :=
  { t with bracket := pairings 0 0 t.playerIds, status := .running }

/-- The player joins and the pool grows; a full bracket is seeded. -/
def apply (t : Tournament U) (userId : U) : Tournament U :=
  let t : Tournament U :=
    { t with playerIds := t.playerIds ++ [userId], prizePoolCents := t.prizePoolCents + t.buyInCents }
  if t.playerIds.length = t.capacity then t.seedBracket else t

/-- A slot is the one asked for. -/
def isMatch (round index : ℕ) (m : BracketMatch U) : Bool := m.round = round ∧ m.index = index

/-- The slot of a round and an index. -/
def match? (t : Tournament U) (round index : ℕ) : Option (BracketMatch U) :=
  t.bracket.find? (isMatch round index)

/-- The first match of the key gets its winner. -/
def decideMatch (t : Tournament U) (round index : ℕ) (winnerId : U) : Tournament U :=
  { t with
    bracket := t.bracket.modify (t.bracket.findIdx (isMatch round index))
      fun m => { m with winnerId := some winnerId } }

/-- The slots of a round, in order. -/
def roundMatches (t : Tournament U) (round : ℕ) : List (BracketMatch U) :=
  (t.bracket.filter fun m => m.round = round).insertionSort fun a b => a.index ≤ b.index

/-- The winner of a round of one match. -/
def champion? (t : Tournament U) (round : ℕ) : Option U :=
  match t.roundMatches round with
  | [m] => m.winnerId
  | _ => none

/-- A round whose matches all have winners leads to the next. -/
def nextRound (t : Tournament U) (round : ℕ) : Tournament U :=
  let ms := t.roundMatches round
  if ms.all fun m => m.winnerId.isSome then
    { t with bracket := t.bracket ++ pairings (round + 1) 0 (ms.filterMap fun m => m.winnerId) }
  else t

/-- The checks of a report, and the row with the winner. `recorded` is what a manual report
must not contradict. -/
def report [DecidableEq U] (t : Tournament U) (round index : ℕ) (winnerId : U) (recorded : Option U) :
    Except TournamentError (Tournament U) :=
  if t.status ≠ .running then .error .notRunning
  else match t.match? round index with
    | none => .error .noMatch
    | some m =>
      if m.winnerId.isSome then .error .alreadyDecided
      else if m.aUserId ≠ some winnerId ∧ m.bUserId ≠ some winnerId then .error .badWinner
      else if recorded.any fun w => w ≠ winnerId then .error .resultConflict
      else .ok (t.decideMatch round index winnerId)

/-- The champion waits for a second admin. -/
def park (t : Tournament U) (champion : U) (adminId : Option U) : Tournament U :=
  { t with
    status := .awaitingConfirmation, pendingWinnerId := some champion, reportedByAdminId := adminId }

/-- The house's part of the pool, rounded down. -/
def rake (t : Tournament U) : ℕ := t.prizePoolCents * t.rakeBps / 10000

/-- What the winner gets. -/
def prize (t : Tournament U) : ℕ := t.prizePoolCents - t.rake

/-- The tournament, won. -/
def finished (t : Tournament U) (winnerId : U) : Tournament U :=
  { t with winnerId := some winnerId, status := .finished }

/-- The tournament, called off; its pool is empty. -/
def cancelled (t : Tournament U) : Tournament U := { t with status := .cancelled, prizePoolCents := 0 }

end Tournament

/-- What the service awaits, and its own memory. -/
inductive TournamentQuery (U : Type) where
  | get (id : ℕ)
  | listAll
  | create (t : Tournament U)
  | save (t : Tournament U)
  | delete (id : ℕ)
  | debit (id : ℕ) (userId : U) (amountCents : ℕ)
  | credit (userId : U) (amountCents : ℕ) (ref : TournamentRef U)
  | recordRake (amountCents : ℕ) (ref : TournamentRef U)
  /-- The unit of work of `register`: the buy-in and the row. -/
  | escrow (userId : U) (t : Tournament U)
  /-- The unit of work of `finish`: the prize, the rake and the row. -/
  | payout (winnerId : U) (t : Tournament U)
  | newId
  | recordedOutcome (id round index : ℕ)
  | clearRecordedOutcomes (id : ℕ)

/-- What each call of the repository or the wallet answers with. -/
@[reducible] def TournamentQuery.Answer {U : Type} : TournamentQuery U → Type
  | .get _ => Option (Tournament U)
  | .listAll => List (Tournament U)
  | .newId => ℕ
  | .recordedOutcome _ _ _ => Option U
  | _ => Unit

/-- What the service keeps in the process answers always. -/
def TournamentQuery.inMemory {U : Type} : TournamentQuery U → Bool
  | .newId | .recordedOutcome _ _ _ | .clearRecordedOutcomes _ => true
  | _ => false

/-- How the service is set up. `RAKE_BPS` is at most 10000. -/
structure TournamentService where
  rakeBps : ℕ
  uow : Bool
  dualControl : Bool := false
  rakeBps_le : rakeBps ≤ 10000 := by decide

/-- A program of the service. -/
abbrev Organiser (U α : Type) := Async (TournamentQuery U) TournamentQuery.Answer TournamentError α

namespace TournamentService

variable {U : Type}

/-- The row of a tournament, read. -/
def get (id : ℕ) : Organiser U (Option (Tournament U)) := .await (TournamentQuery.get id)

/-- The rows, listed. -/
def listAll : Organiser U (List (Tournament U)) := .await TournamentQuery.listAll

/-- The row of a tournament, written back whole. -/
def save (t : Tournament U) : Organiser U Unit := .await (TournamentQuery.save t)

/-- A credit, under its reference. -/
def credit (userId : U) (amountCents : ℕ) (ref : TournamentRef U) : Organiser U Unit :=
  .await (TournamentQuery.credit userId amountCents ref)

/-- A fresh id. -/
def newId : Organiser U ℕ := .await TournamentQuery.newId

/-- The outcomes recorded for a tournament are dropped. -/
def clearRecordedOutcomes (id : ℕ) : Organiser U Unit := .await (TournamentQuery.clearRecordedOutcomes id)

/-- `create`: a tournament, once the size and the price are in bounds. -/
def create (s : TournamentService) (buyInCents capacity now : ℤ) : Organiser U (Tournament U) := do
  .throwIf (capacity ∉ validCapacities) .badCapacity
  .throwIf (buyInCents < 0) .badBuyin
  let id ← newId
  let t : Tournament U :=
    { id, buyInCents := buyInCents.toNat, capacity := capacity.toNat, rakeBps := s.rakeBps,
      createdAt := now }
  .await (TournamentQuery.create t)
  pure t

/-- Without a unit of work, or without a buy-in: the debit, then the row, and the debit given
back if the row fails. -/
def registerSaga (t : Tournament U) (userId : U) : Organiser U Unit := do
  if 0 < t.buyInCents then .await (TournamentQuery.debit t.id userId t.buyInCents)
  try save (t.apply userId)
  catch e =>
    if 0 < t.buyInCents then (credit userId t.buyInCents (.rollback t.id userId)).ignore
    throw e

/-- `register`: a player pays, then takes a place; a place lost meanwhile is refunded. -/
def register [DecidableEq U] (s : TournamentService) (id : ℕ) (userId : U) : Organiser U (Tournament U) := do
  match ← get id with
  | none => throw .notFound
  | some t =>
    .throwIf (t.status ≠ .registering) .closed
    .throwIf (userId ∈ t.playerIds) .alreadyIn
    .throwIf (t.capacity ≤ t.playerIds.length) .full
    if s.uow ∧ 0 < t.buyInCents then .await (TournamentQuery.escrow userId (t.apply userId))
    else registerSaga t userId
    pure (t.apply userId)

/-- Prize and rake, one after the other. -/
def payoutChampion (winnerId : U) (t : Tournament U) : Organiser U Unit := do
  if 0 < t.prize then credit winnerId t.prize (.prize t.id)
  if 0 < t.rake then .await (TournamentQuery.recordRake t.rake (.rake t.id))

/-- The prize and the rake are paid, and the row says finished. -/
def finish (s : TournamentService) (t : Tournament U) (winnerId : U) : Organiser U (Tournament U) := do
  clearRecordedOutcomes t.id
  if s.uow then .await (TournamentQuery.payout winnerId (t.finished winnerId))
  else
    payoutChampion winnerId t
    save (t.finished winnerId)
  pure (t.finished winnerId)

/-- Whether a decided final waits for a second admin. -/
def parks (s : TournamentService) (t : Tournament U) (autoFinalize : Bool) : Bool :=
  s.dualControl ∧ 0 < t.buyInCents ∧ !autoFinalize

/-- What follows a decided match: the champion is parked or paid, or the bracket goes on. -/
def advance (s : TournamentService) (t : Tournament U) (round : ℕ) (adminId : Option U)
    (autoFinalize : Bool) : Organiser U (Tournament U) :=
  match t.champion? round with
  | some champion =>
    if s.parks t autoFinalize then do
      save (t.park champion adminId)
      pure (t.park champion adminId)
    else s.finish t champion
  | none => do
    save (t.nextRound round)
    pure (t.nextRound round)

/-- What the gateway recorded, for a manual report. -/
def recordedFor (id round index : ℕ) (autoFinalize : Bool) : Organiser U (Option U) :=
  if autoFinalize then pure none else .await (TournamentQuery.recordedOutcome id round index)

/-- `reportResult`: a slot is decided and its winner moves on; the final one may finish the tournament. -/
def reportResult [DecidableEq U] (s : TournamentService) (id round index : ℕ) (winnerId : U)
    (adminId : Option U) (autoFinalize : Bool) : Organiser U (Tournament U) := do
  match ← get id with
  | none => throw .notFound
  | some t =>
    let recorded ← recordedFor id round index autoFinalize
    match t.report round index winnerId recorded with
    | .error e => throw e
    | .ok t => s.advance t round adminId autoFinalize

/-- The champion that an admin may confirm. -/
def confirmable [DecidableEq U] (t : Tournament U) (confirmingAdminId : U) : Except TournamentError U :=
  match t.status, t.pendingWinnerId with
  | .awaitingConfirmation, some champion =>
    if t.reportedByAdminId = some confirmingAdminId then .error .sameAdmin else .ok champion
  | _, _ => .error .notAwaiting

/-- `confirmChampion`: another admin confirms, and the prize is paid. -/
def confirmChampion [DecidableEq U] (s : TournamentService) (id : ℕ) (confirmingAdminId : U) :
    Organiser U (Tournament U) := do
  match ← get id with
  | none => throw .notFound
  | some t =>
    match confirmable t confirmingAdminId with
    | .error e => throw e
    | .ok champion => s.finish { t with pendingWinnerId := none, reportedByAdminId := none } champion

/-- Every buy-in, one credit after another. -/
def refundAll (t : Tournament U) : Organiser U Unit :=
  if 0 < t.buyInCents then t.playerIds.forM fun u => credit u t.buyInCents (.refund t.id u)
  else pure ()

/-- `cancel`: every player is refunded, then the row says cancelled. -/
def cancel (id : ℕ) : Organiser U (Tournament U) := do
  match ← get id with
  | none => throw .notFound
  | some t =>
    .throwIf (!t.status.sweepable) .notCancellable
    refundAll t
    clearRecordedOutcomes t.id
    save t.cancelled
    pure t.cancelled

/-- `adminDelete`: a row that is over is deleted. -/
def adminDelete (id : ℕ) : Organiser U Unit := do
  match ← get id with
  | none => pure ()
  | some t =>
    .throwIf t.status.sweepable .active
    clearRecordedOutcomes t.id
    .await (TournamentQuery.delete t.id)

/-- One tournament of the sweep, read again under its lock. -/
def sweepOne (cutoff : ℤ) (voided : List ℕ) (snap : Tournament U) : Organiser U (List ℕ) := do
  if !snap.status.sweepable ∨ cutoff < snap.createdAt then pure voided
  else
    match ← get snap.id with
    | none => pure voided
    | some t =>
      if !t.status.sweepable then pure voided
      else
        refundAll t
        save t.cancelled
        pure (voided ++ [t.id])

/-- `sweepStale`: the tournaments too old are cancelled one after another. -/
def sweepStale (now maxAgeMs : ℤ) : Organiser U (List ℕ) := do
  let all ← listAll
  all.foldlM (sweepOne (now - maxAgeMs)) []

end TournamentService

/-- The rows, what the wallet moved for them and what the gateway recorded. -/
structure Tournaments (U : Type) where
  rows : ℕ → Option (Tournament U) := fun _ => none
  seq : ℕ := 0
  recordedOutcomes : ℕ → ℕ → ℕ → Option U := fun _ _ _ => none
  purse : Purse U (TournamentRef U) := {}

/-- The calls the routes and the ticker make. -/
inductive TournamentCall (U : Type) where
  | create (buyInCents capacity now : ℤ)
  | register (id : ℕ) (userId : U)
  | reportResult (id round index : ℕ) (winnerId : U) (adminId : Option U) (autoFinalize : Bool)
  | confirmChampion (id : ℕ) (confirmingAdminId : U)
  | cancel (id : ℕ)
  | adminDelete (id : ℕ)
  | sweepStale (now maxAgeMs : ℤ)

/-- What a call returns. -/
inductive TournamentReceipt (U : Type) where
  | tournament (t : Tournament U)
  | deleted
  | voided (ids : List ℕ)
  deriving DecidableEq, Repr

/-- A call, with what fails in it; the gateway's record of an outcome; a new process. -/
inductive TournamentEvent (U : Type) where
  | call (c : TournamentCall U) (fault : TournamentQuery U → Fault)
  | recordRoomOutcome (id round index : ℕ) (winnerId : U)
  | restart

namespace Tournaments

variable {U : Type}

/-- The row is written under its own id. -/
def setRow (w : Tournaments U) (t : Tournament U) : Tournaments U :=
  { w with rows := Function.update w.rows t.id (some t) }

variable [DecidableEq U]

/-- What the repository and the wallet do with a call that goes through. -/
def answer (q : TournamentQuery U) (w : Tournaments U) : q.Answer × Tournaments U :=
  match q with
  | .get id => (w.rows id, w)
  | .listAll => ((List.range w.seq).filterMap w.rows, w)
  | .create t | .save t => ((), w.setRow t)
  | .delete id => ((), { w with rows := Function.update w.rows id none })
  | .debit id u a => ((), { w with purse := w.purse.debit id u a })
  | .credit _ a ref | .recordRake a ref => ((), { w with purse := w.purse.credit ref a })
  | .escrow u t => ((), { w.setRow t with purse := w.purse.debit t.id u t.buyInCents })
  | .payout _ t =>
    ((), { w.setRow t with
      purse := (w.purse.creditIf (.prize t.id) t.prize).creditIf (.rake t.id) t.rake })
  | .newId => (w.seq, { w with seq := w.seq + 1 })
  | .recordedOutcome id round index => (w.recordedOutcomes id round index, w)
  | .clearRecordedOutcomes id =>
    ((), { w with recordedOutcomes := Function.update w.recordedOutcomes id fun _ _ => none })

/-- The rows and the wallet with their failures. -/
def reply (fault : TournamentQuery U → Fault) (q : TournamentQuery U) (w : Tournaments U) :
    Except TournamentError q.Answer × Tournaments U :=
  Async.faulty answer (fun q => if q.inMemory then .none else fault q) .store q w

end Tournaments

section Runs

variable {U : Type} [DecidableEq U]

/-- The program a call runs. -/
def TournamentCall.program (s : TournamentService) : TournamentCall U → Organiser U (TournamentReceipt U)
  | .create buyInCents capacity now => .tournament <$> s.create buyInCents capacity now
  | .register id u => .tournament <$> s.register id u
  | .reportResult id round index w admin auto =>
    .tournament <$> s.reportResult id round index w admin auto
  | .confirmChampion id admin => .tournament <$> s.confirmChampion id admin
  | .cancel id => .tournament <$> TournamentService.cancel id
  | .adminDelete id => (fun _ => .deleted) <$> TournamentService.adminDelete id
  | .sweepStale now maxAgeMs => .voided <$> TournamentService.sweepStale now maxAgeMs

/-- What a call answers, and the state after it. -/
def Tournaments.call (s : TournamentService) (w : Tournaments U) (c : TournamentCall U)
    (fault : TournamentQuery U → Fault) : Except TournamentError (TournamentReceipt U) × Tournaments U :=
  (c.program s).exec (Tournaments.reply fault) w

/-- One call, or one outcome recorded by a room. -/
def Tournaments.step (s : TournamentService) (w : Tournaments U) : TournamentEvent U → Tournaments U
  | .call c fault => (w.call s c fault).2
  | .recordRoomOutcome id round index winnerId =>
    { w with
      recordedOutcomes := fun i r k =>
        if i = id ∧ r = round ∧ k = index then some winnerId else w.recordedOutcomes i r k }
  | .restart => { w with recordedOutcomes := fun _ _ _ => none }

end Runs

end Murlan
