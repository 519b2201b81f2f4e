import Murlan.Spec.Settlement
import Murlan.Spec.Wallet

/-!
# Match money

`packages/server/src/money/moneyService.ts`: `escrow`, `settle`, `refund` and
`recoverOrphanedMatches` as tasks of one server process that share the claim set
`inFlight`. A task runs from one `await` to the next; at each `await` the database
first carries out the request (`Event.db`) and later the task resumes
(`Event.resume`), and anything may happen in between. A request may also fail
before or after the database has carried it out.

A transaction is one request: all its writes happen or none does.
-/

namespace Murlan

/-- What `escrow` takes. -/
structure EscrowInput (U M : Type) where
  matchId : M
  type : MatchType
  stakeCents : ℕ
  rakeBps : ℕ
  players : List (MatchPlayer U)

/-- What `settle` takes. -/
structure SettleInput (M : Type) where
  matchId : M
  winnerSeats : List ℕ

/-- What the gateway hands to `escrow`: each seat of the match is listed once. -/
structure SeatedEscrow (U M : Type) extends EscrowInput U M where
  seats_nodup : (players.map MatchPlayer.seat).Nodup

/-- What the gateway hands to `settle`: no seat wins twice. -/
structure SeatedSettle (M : Type) extends SettleInput M where
  seats_nodup : winnerSeats.Nodup

instance (U M : Type) : Coe (SeatedEscrow U M) (EscrowInput U M) := ⟨SeatedEscrow.toEscrowInput⟩

/-- What an escrow answers with. -/
structure EscrowResult (U : Type) where
  ok : Bool
  potCents : ℕ
  code : Option String := none
  message : Option String := none
  insufficientUserIds : List U := []
  deriving DecidableEq, Repr

/-- An awaited request: under way, answered, or rejected. -/
inductive Await (α : Type) where
  | pending
  | answered (a : α)
  | threw
  deriving DecidableEq, Repr

/-- Where a sweep goes on when the refund it awaits has resolved: the ids of the
live matches, the active matches still to visit and those refunded so far. -/
structure Sweep (M : Type) where
  live : List M
  rest : List M
  refunded : List M

/-- What each call of the money service answers with. -/
inductive CallResult (U M : Type) where
  | escrow (r : EscrowResult U)
  | settle (r : Option Settlement)
  | refund
  | recover (refunded : List M)
  | threw

/-- Where a task stands. A refund that a sweep awaits carries the sweep. -/
inductive Task (U M : Type) where
  | escrowFind (i : SeatedEscrow U M) (a : Await (Option (MatchRecord U M)))
  | escrowBalance (i : SeatedEscrow U M) (p : MatchPlayer U) (rest : List (MatchPlayer U))
      (insufficient : List U) (a : Await ℤ)
  | escrowCommit (i : SeatedEscrow U M) (a : Await (Option (WalletError U)))
  | settleFind (i : SeatedSettle M) (a : Await (Option (MatchRecord U M)))
  | settleCommit (r : MatchRecord U M) (s : Settlement) (winnerSeats : List ℕ)
      (a : Await (Option (WalletError U)))
  | refundFind (id : M) (sweep : Option (Sweep M)) (a : Await (Option (MatchRecord U M)))
  | refundCommit (r : MatchRecord U M) (sweep : Option (Sweep M)) (a : Await (Option (WalletError U)))
  | recoverList (live : List M) (a : Await (List (MatchRecord U M)))
  | recoverNext (sweep : Sweep M)
  | done (o : CallResult U M)

/-- What becomes of a request: it is answered, it is carried out but the answer is
lost, or it fails. -/
inductive Fate where
  | answered | lost | failed
  deriving DecidableEq, Repr

/-- The money services of one process. -/
structure Money (U M : Type) where
  db : Db U M
  inFlight : M → Bool := fun _ => false
  tasks : ℕ → Option (Task U M) := fun _ => none
  nextTask : ℕ := 0

/-- `walletMove` stands for every movement of the wallet that is not a match's;
`restart` ends the process and starts it on the same database. -/
inductive MoneyEvent (U M : Type) where
  | escrow (i : SeatedEscrow U M)
  | settle (i : SeatedSettle M)
  | refund (id : M)
  | recoverOrphanedMatches (live : List M)
  | db (task : ℕ) (fate : Fate)
  | resume (task : ℕ)
  | register (userId : U)
  | walletMove (userId : U) (type : TransactionType) (deltaCents : ℤ) (ref : Option String)
  | restart

section Transactions

variable {U M : Type} [DecidableEq U] [DecidableEq M]

/-- The row `escrow` creates. -/
def EscrowInput.record (i : EscrowInput U M) : MatchRecord U M :=
  { id := i.matchId, type := i.type, stakeCents := i.stakeCents, rakeBps := i.rakeBps,
    potCents := potCents i.stakeCents i.players.length, players := i.players }

/-- The stake of one player. -/
def stakeOf (r : MatchRecord U M) (db : Db U M) (p : MatchPlayer U) : Except (WalletError U) (Db U M) :=
  db.debit p.userId r.stakeCents { type := .bet, matchId := some r.id, reason := some "stake" }

/-- The transaction of `escrow`: the row, and every stake. -/
def escrowTx (i : EscrowInput U M) (db : Db U M) : Except (WalletError U) (Db U M) :=
  let db₁ := db.create i.record
  if 0 < i.stakeCents then i.players.foldlM (stakeOf i.record) db₁ else .ok db₁

/-- `new Map(record.players.map((p) => [p.seat, p.userId]))`: a later entry wins. -/
def seatToUser (players : List (MatchPlayer U)) (seat : ℕ) : Option U :=
  (players.reverse.find? fun p => p.seat = seat).map MatchPlayer.userId

/-- The winnings of one seat. -/
def payoutOf (r : MatchRecord U M) (db : Db U M) (payout : Payout) : Except (WalletError U) (Db U M) :=
  match seatToUser r.players payout.seat with
  | none => .error (.userNotFound none)
  | some userId =>
    if 0 < payout.amountCents then
      db.credit userId payout.amountCents
        { type := .payout, matchId := some r.id, reason := some "winnings",
          providerRef := some (.payout r.id payout.seat) }
    else .ok db

/-- The payouts and the rake; an empty pot has none. -/
def payWinners (r : MatchRecord U M) (s : Settlement) (db : Db U M) : Except (WalletError U) (Db U M) :=
  if 0 < r.potCents then do
    let paid ← s.payouts.foldlM (payoutOf r) db
    pure (if 0 < s.rakeCents then paid.recordRake s.rakeCents r.id (.rake r.id) else paid)
  else .ok db

/-- The transaction of `settle`: the payouts, the rake and the row's status. -/
def settleTx (r : MatchRecord U M) (s : Settlement) (winnerSeats : List ℕ) (db : Db U M) :
    Except (WalletError U) (Db U M) := do
  let paid ← payWinners r s db
  pure (paid.markSettled r.id winnerSeats)

/-- The stake of one player, returned. -/
def refundOf (r : MatchRecord U M) (db : Db U M) (p : MatchPlayer U) : Except (WalletError U) (Db U M) :=
  db.credit p.userId r.stakeCents
    { type := .payout, matchId := some r.id, reason := some "refund",
      providerRef := some (.refund r.id p.seat) }

/-- Every seat of a match is paid its stake back, in order. -/
def returnStakes (r : MatchRecord U M) (db : Db U M) : Except (WalletError U) (Db U M) :=
  if 0 < r.stakeCents then r.players.foldlM (refundOf r) db else .ok db

/-- The transaction of `refund`: every stake, and the row's status. -/
def refundTx (r : MatchRecord U M) (db : Db U M) : Except (WalletError U) (Db U M) := do
  let refunded ← returnStakes r db
  pure (refunded.markCancelled r.id)

end Transactions

namespace Money

variable {U M : Type} [DecidableEq U] [DecidableEq M]

/-- A call's progress is noted. -/
def set (m : Money U M) (t : ℕ) (task : Task U M) : Money U M :=
  { m with tasks := Function.update m.tasks t (some task) }

/-- The money, over other tables. -/
def setDb (m : Money U M) (db : Db U M) : Money U M := { m with db }

/-- `inFlight.add(id)`. -/
def claim (m : Money U M) (id : M) : Money U M := { m with inFlight := Function.update m.inFlight id true }

/-- `inFlight.delete(id)`, in the `finally` of a task that ends. -/
def release (m : Money U M) (id : M) : Money U M :=
  { m with inFlight := Function.update m.inFlight id false }

/-- The task ends and drops its claim. -/
def finish (m : Money U M) (t : ℕ) (id : M) (o : CallResult U M) : Money U M := (m.release id).set t (.done o)

/-- A new task. -/
def spawn (m : Money U M) (task : Task U M) : Money U M :=
  { m.set m.nextTask task with nextTask := m.nextTask + 1 }

/-! ## The calls, up to their first `await` -/

/-- The answer for a match already in flight. -/
def busy (i : EscrowInput U M) : EscrowResult U :=
  { ok := false, potCents := potCents i.stakeCents i.players.length, code := some "busy",
    message := some "Escrow tashmë në proces." }

/-- The answer that names who cannot pay. -/
def insufficientFunds (i : EscrowInput U M) (users : List U) : EscrowResult U :=
  { ok := false, potCents := potCents i.stakeCents i.players.length, code := some "insufficient_funds",
    message := some "Bilanc i pamjaftueshëm për bastin.", insufficientUserIds := users }

/-- `escrowMatch` enters: busy, or the match is claimed and looked up. -/
def escrow (m : Money U M) (i : SeatedEscrow U M) : Money U M :=
  if m.inFlight i.matchId then m.spawn (.done (.escrow (busy i.toEscrowInput)))
  else (m.claim i.matchId).spawn (.escrowFind i .pending)

/-- `settleMatch` enters: nothing, or the match is claimed and looked up. -/
def settle (m : Money U M) (i : SeatedSettle M) : Money U M :=
  if m.inFlight i.matchId then m.spawn (.done (.settle none))
  else (m.claim i.matchId).spawn (.settleFind i .pending)

/-- `refundMatch` enters: nothing, or the match is claimed and looked up. -/
def refund (m : Money U M) (id : M) : Money U M :=
  if m.inFlight id then m.spawn (.done .refund)
  else (m.claim id).spawn (.refundFind id none .pending)

/-- `recoverOrphanedMatches` enters: the active rows are listed. -/
def recoverOrphanedMatches (m : Money U M) (live : List M) : Money U M :=
  m.spawn (.recoverList live .pending)

/-! ## What the database does with a request -/

/-- The answer of a read. -/
def read {α : Type} (fate : Fate) (a : α) : Await α :=
  match fate with
  | .answered => .answered a
  | _ => .threw

/-- A transaction: the database after it and the answer. -/
def commit (db : Db U M) (fate : Fate) (tx : Db U M → Except (WalletError U) (Db U M)) :
    Db U M × Await (Option (WalletError U)) :=
  match fate, tx db with
  | .failed, _ => (db, .threw)
  | .answered, .ok db' => (db', .answered none)
  | .lost, .ok db' => (db', .threw)
  | .answered, .error e => (db, .answered (some e))
  | .lost, .error _ => (db, .threw)

/-- The database answers a statement of a call, or fails it. -/
def onDb (m : Money U M) (t : ℕ) (fate : Fate) : Money U M :=
  match m.tasks t with
  | some (.escrowFind i .pending) => m.set t (.escrowFind i (read fate (m.db.find i.matchId)))
  | some (.escrowBalance i p rest ins .pending) =>
    m.set t (.escrowBalance i p rest ins (read fate (m.db.getBalance p.userId)))
  | some (.escrowCommit i .pending) =>
    let r := commit m.db fate (escrowTx i)
    (m.setDb r.1).set t (.escrowCommit i r.2)
  | some (.settleFind i .pending) => m.set t (.settleFind i (read fate (m.db.find i.matchId)))
  | some (.settleCommit rec s ws .pending) =>
    let r := commit m.db fate (settleTx rec s ws)
    (m.setDb r.1).set t (.settleCommit rec s ws r.2)
  | some (.refundFind id k .pending) => m.set t (.refundFind id k (read fate (m.db.find id)))
  | some (.refundCommit rec k .pending) =>
    let r := commit m.db fate (refundTx rec)
    (m.setDb r.1).set t (.refundCommit rec k r.2)
  | some (.recoverList live .pending) => m.set t (.recoverList live (read fate m.db.listActive))
  | _ => m

/-! ## How a task goes on -/

/-- The pre-check of the balances still to read, then its verdict. -/
def precheck (m : Money U M) (t : ℕ) (i : SeatedEscrow U M) (insufficient : List U) :
    List (MatchPlayer U) → Money U M
  | p :: rest => m.set t (.escrowBalance i p rest insufficient .pending)
  | [] =>
    if insufficient ≠ [] then m.finish t i.matchId (.escrow (insufficientFunds i.toEscrowInput insufficient))
    else m.set t (.escrowCommit i .pending)

/-- `escrow` once the row has been looked up. -/
def escrowFound (m : Money U M) (t : ℕ) (i : SeatedEscrow U M) : Option (MatchRecord U M) → Money U M
  | some existing => m.finish t i.matchId (.escrow { ok := true, potCents := existing.potCents })
  | none =>
    if 0 < i.stakeCents then m.precheck t i [] i.players
    else m.set t (.escrowCommit i .pending)

/-- `escrow` once its transaction has ended. -/
def escrowCommitted (m : Money U M) (t : ℕ) (i : SeatedEscrow U M) :
    Option (WalletError U) → Money U M
  | none =>
    m.finish t i.matchId
      (.escrow { ok := true, potCents := potCents i.stakeCents i.players.length })
  | some (.insufficientFunds u) => m.finish t i.matchId (.escrow (insufficientFunds i.toEscrowInput [u]))
  | some _ => m.finish t i.matchId .threw

/-- `settle` once the row has been looked up. -/
def settleFound (m : Money U M) (t : ℕ) (i : SeatedSettle M) : Option (MatchRecord U M) → Money U M
  | none => m.finish t i.matchId (.settle none)
  | some r =>
    if r.status ≠ .active then m.finish t i.matchId (.settle none)
    else
      let winnerSeats := i.winnerSeats.filter fun s => (seatToUser r.players s).isSome
      if winnerSeats = [] then m.finish t i.matchId (.settle none)
      else match splitPot r.potCents r.rakeBps winnerSeats with
        | .error _ => m.finish t i.matchId .threw
        | .ok s => m.set t (.settleCommit r s winnerSeats .pending)

/-- A refund ends; a sweep that awaits it goes on, or is rejected with it. -/
def refundEnds (m : Money U M) (t : ℕ) (id : M) (sweep : Option (Sweep M)) (threw : Bool) : Money U M :=
  match sweep, threw with
  | none, false => m.finish t id .refund
  | none, true => m.finish t id .threw
  | some _, true => m.finish t id .threw
  | some k, false => (m.release id).set t (.recoverNext { k with refunded := k.refunded ++ [id] })

/-- `refund` once the row has been looked up. -/
def refundFound (m : Money U M) (t : ℕ) (id : M) (sweep : Option (Sweep M)) :
    Option (MatchRecord U M) → Money U M
  | none => m.refundEnds t id sweep false
  | some r =>
    if r.status ≠ .active then m.refundEnds t id sweep false
    else m.set t (.refundCommit r sweep .pending)

/-- The loop of the sweep up to its next `await`: live matches are passed over, and
a match that another call has claimed is left to it. -/
def sweepLoop (m : Money U M) (t : ℕ) (live refunded : List M) : List M → Money U M
  | [] => m.set t (.done (.recover refunded))
  | id :: rest =>
    if id ∈ live then m.sweepLoop t live refunded rest
    else if m.inFlight id then m.set t (.recoverNext { live, rest, refunded := refunded ++ [id] })
    else (m.claim id).set t (.refundFind id (some { live, rest, refunded }) .pending)

/-- A call goes on with its answer. -/
def onResume (m : Money U M) (t : ℕ) : Money U M :=
  match m.tasks t with
  | some (.escrowFind i (.answered r)) => m.escrowFound t i r
  | some (.escrowFind i .threw) => m.finish t i.matchId .threw
  | some (.escrowBalance i p rest ins (.answered b)) =>
    m.precheck t i (if b < i.stakeCents then ins ++ [p.userId] else ins) rest
  | some (.escrowBalance i _ _ _ .threw) => m.finish t i.matchId .threw
  | some (.escrowCommit i (.answered e)) => m.escrowCommitted t i e
  | some (.escrowCommit i .threw) => m.finish t i.matchId .threw
  | some (.settleFind i (.answered r)) => m.settleFound t i r
  | some (.settleFind i .threw) => m.finish t i.matchId .threw
  | some (.settleCommit r s _ (.answered none)) => m.finish t r.id (.settle (some s))
  | some (.settleCommit r _ _ (.answered (some _))) => m.finish t r.id .threw
  | some (.settleCommit r _ _ .threw) => m.finish t r.id .threw
  | some (.refundFind id k (.answered r)) => m.refundFound t id k r
  | some (.refundFind id k .threw) => m.refundEnds t id k true
  | some (.refundCommit r k (.answered none)) => m.refundEnds t r.id k false
  | some (.refundCommit r k (.answered (some _))) => m.refundEnds t r.id k true
  | some (.refundCommit r k .threw) => m.refundEnds t r.id k true
  | some (.recoverList live (.answered rs)) => m.sweepLoop t live [] (rs.map MatchRecord.id)
  | some (.recoverList _ .threw) => m.set t (.done .threw)
  | some (.recoverNext k) => m.sweepLoop t k.live k.refunded k.rest
  | _ => m

/-- A wallet movement of no match: a balance and a row of the ledger. -/
def walletMove (m : Money U M) (userId : U) (type : TransactionType) (delta : ℤ) (ref : Option String) :
    Money U M :=
  match m.db.adjustBalance userId delta with
  | none => m
  | some db =>
    m.setDb (db.append
      { account := .user userId, type, amountCents := delta, providerRef := ref.map .other })

/-- A new user starts with nothing. -/
def register (m : Money U M) (userId : U) : Money U M :=
  if (m.db.balance userId).isSome then m
  else m.setDb { m.db with balance := Function.update m.db.balance userId (some 0) }

/-- One event of the money service. -/
def step (m : Money U M) : MoneyEvent U M → Money U M
  | .escrow i => m.escrow i
  | .settle i => m.settle i
  | .refund id => m.refund id
  | .recoverOrphanedMatches live => m.recoverOrphanedMatches live
  | .db t fate => m.onDb t fate
  | .resume t => m.onResume t
  | .register u => m.register u
  | .walletMove u type delta ref => m.walletMove u type delta ref
  | .restart => { db := m.db, nextTask := m.nextTask }

/-- A server on an empty database. -/
def empty : Money U M := { db := { balance := fun _ => none } }

end Money

end Murlan
