import Murlan.Spec.ClubWar
import Murlan.Spec.Tournament
import Murlan.Spec.Wallet
import Murlan.Spec.WithdrawalDesk

/-!
# The recovery sweeps

The tick of `sweepTimer` in `app.ts`: orphaned matches, stale tournaments, stale club wars and
payouts that the provider has failed, one pass after the other. A refund or a payout fails when a
credit of it is refused; nothing else does. What the tick does besides (alerts, retention, the
digest) is left out. `prismaReply` are the rows of tournaments in the database, whose `listAll` is
bounded; `order` is `orderBy: { createdAt: 'desc' }`, which leaves open how rows created at one
time are ordered. `U` is the type of user ids, `M` that of match ids.
-/

namespace Murlan

variable {U M : Type}

namespace Tournaments

/-- `PrismaTournaments.listAll`: the first fifty in the order of the database. -/
def prismaListAll (order : List (Tournament U) → List (Tournament U)) (w : Tournaments U) : List (Tournament U) :=
  (order ((List.range w.seq).filterMap w.rows)).take 50

variable [DecidableEq U]

/-- What the database does with a call: it lists the newest fifty only. -/
def prismaAnswer (order : List (Tournament U) → List (Tournament U)) (q : TournamentQuery U) (w : Tournaments U) :
    q.Answer × Tournaments U :=
  match q with
  | .listAll => (w.prismaListAll order, w)
  | q => answer q w

/-- An answer of the database, or its failure. -/
def prismaReply (order : List (Tournament U) → List (Tournament U)) (fault : TournamentQuery U → Fault)
    (q : TournamentQuery U) (w : Tournaments U) : Except TournamentError q.Answer × Tournaments U :=
  Async.faulty (prismaAnswer order) (fun q => if q.inMemory then .none else fault q) .store q w

end Tournaments

/-! ## What is refused -/

/-- The credits that are refused: the refund of a seat of a match, and by their references. -/
structure Refused (U M : Type) where
  matchSeat : M → ℕ → Bool := fun _ _ => false
  tournament : TournamentRef U → Bool := fun _ => false
  war : ClubWarRef U → Bool := fun _ => false
  reversal : ℕ → Bool := fun _ => false

namespace Refused

variable (f : Refused U M)

/-- A refused credit of a tournament fails before it takes effect. -/
def tournamentFault : TournamentQuery U → Fault
  | .credit _ _ ref => if f.tournament ref then .before else .none
  | _ => .none

/-- A refused credit of a war fails before it takes effect. -/
def warFault : ClubWarQuery U → Fault
  | .credit _ _ ref => if f.war ref then .before else .none
  | _ => .none

/-- A refused credit of a payout fails before it takes effect. -/
def deskFault : Desk U → Fault
  | .credit _ _ (.reversal id) => if f.reversal id then .before else .none
  | _ => .none

end Refused

/-! ## Orphaned matches -/

/-- What the recovery of matches asks for. -/
inductive OrphanQuery (M : Type) where
  | listActive
  | refund (matchId : M)

/-- What the repository or the money service answers with. -/
@[reducible] def OrphanQuery.Answer {U M : Type} : OrphanQuery M → Type
  | .listActive => List (MatchRecord U M)
  | .refund _ => Unit

variable [DecidableEq M]

namespace OrphanQuery

/-- The transaction of a refund: every stake, and the row's status; all of it or nothing. -/
def refundRow (f : Refused U M) (rows : List (MatchRecord U M)) (id : M) :
    Option (MatchRecord U M) → Except (WalletError U) Unit × List (MatchRecord U M)
  | none => (.ok (), rows)
  | some r =>
    if r.status ≠ .active then (.ok (), rows)
    else if 0 < r.stakeCents ∧ r.players.any fun p => f.matchSeat id p.seat then (.error .amountTooLarge, rows)
    else (.ok (), rows.map fun x => if x.id = id then x.cancelled else x)

/-- The answers, with the refunds that are refused. -/
def reply (f : Refused U M) (q : OrphanQuery M) (rows : List (MatchRecord U M)) :
    Except (WalletError U) (q.Answer (U := U)) × List (MatchRecord U M) :=
  match q with
  | .listActive => (.ok (rows.filter (·.status = .active)), rows)
  | .refund id => refundRow f rows id (rows.find? (·.id = id))

end OrphanQuery

/-- A program of the recovery. -/
abbrev Recovery (U M α : Type) := Async (OrphanQuery M) (OrphanQuery.Answer (U := U)) (WalletError U) α

/-- One match of the sweep; the live server owns some. -/
def recoverOne (live : List M) (refunded : List M) (m : MatchRecord U M) : Recovery U M (List M) := do
  if m.id ∈ live then pure refunded
  else
    .await (OrphanQuery.refund m.id)
    pure (refunded ++ [m.id])

/-- The active matches that no live server owns are refunded one after another. -/
def recoverOrphanedMatches (live : List M) : Recovery U M (List M) := do
  let active ← .await OrphanQuery.listActive
  active.foldlM (recoverOne live) []

/-! ## The tick -/

/-- The rows of the four services, and the provider's history of payouts. -/
structure SweepWorld (U M : Type) where
  matchRows : List (MatchRecord U M) := []
  tournaments : Tournaments U := {}
  wars : ClubWars U := {}
  desk : WithdrawalDesk U := {}
  history : List BinanceWithdrawalStatus := []

namespace SweepWorld

variable [DecidableEq U] (f : Refused U M) (w : SweepWorld U M)

/-- A pass: whether it has ended or thrown, and what it leaves. -/
def passMatches (live : List M) : Bool × SweepWorld U M :=
  let r := (recoverOrphanedMatches live).exec (OrphanQuery.reply f) w.matchRows
  (r.1.isOk, { w with matchRows := r.2 })

/-- With the in-memory tournaments, whose `listAll` lists every row. -/
def passTournaments (now maxAgeMs : ℤ) : Bool × SweepWorld U M :=
  let r := (TournamentService.sweepStale now maxAgeMs).exec (Tournaments.reply f.tournamentFault) w.tournaments
  (r.1.isOk, { w with tournaments := r.2 })

/-- The pass over the wars. -/
def passWars (now maxAgeMs : ℤ) : Bool × SweepWorld U M :=
  let r := (ClubWarService.sweepStaleWars now maxAgeMs).exec (ClubWars.reply f.warFault) w.wars
  (r.1.isOk, { w with wars := r.2 })

/-- The pass over the payouts. -/
def passPayouts : Bool × SweepWorld U M :=
  let r := WithdrawalService.reconcileFailedWithdrawals.exec
    (fun q d => Desk.reply { fault := f.deskFault q, history := w.history } d q) w.desk
  (r.1.isOk, { w with desk := r.2 })

/-- The tick: a pass that throws ends it, but what the last two throw is caught. -/
def sweepTick (live : List M) (now maxAgeMs : ℤ) : SweepWorld U M :=
  let matched := w.passMatches f live
  if !matched.1 then matched.2
  else
    let swept := matched.2.passTournaments f now maxAgeMs
    if !swept.1 then swept.2
    else ((swept.2.passWars f now maxAgeMs).2.passPayouts f).2

end SweepWorld

end Murlan
