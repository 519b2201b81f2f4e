import Mathlib.Data.List.Dedup
import Murlan.Spec.Money
import Murlan.Spec.Room

/-!
# The gateway

`packages/server/src/realtime/gateway.ts`: the sockets, the ready check, the start
of a match (`beginMatch`), the end of a match (`settleAndEmitMatchEnd`), forfeits,
rematches, the ranked queue, rooms with bots, tournament rooms and the sweep of
orphaned matches, over the rooms and the money services.

A message or a timer is one event and its handler runs to its first `await`; a
handler that awaits is a `Begin` or an `Ending` that a later event takes on. The
rate limiter, ownership, spectators and broadcasts are left out, and so is the time
a timer takes: an armed timer may fire at any moment.
-/

namespace Murlan

/-- A live connection: its user, and the room it is in. -/
structure Socket where
  id : ℕ
  userId : ℕ
  roomId : Option ℕ := none
  deriving DecidableEq, Repr

/-- The seat's name for the socket's user. -/
def Socket.user (s : Socket) : User := .human s.userId

/-- A player waiting for a ranked match. -/
structure QueueEntry where
  userId : ℕ
  type : MatchType
  deriving DecidableEq, Repr

/-- Where a start goes on: at a check of the user of a seat, at the escrow, at a
refund that un-readies everyone after it, or at the emergency refund. -/
inductive BeginStage where
  | checking (seat : ℕ) (blocked : Bool)
  | escrowing (task : ℕ) (players : List (MatchPlayer User))
  | undoing (task : ℕ)
  | failing (task : ℕ)

/-- A call of `beginMatch` that has not returned. -/
structure Begin where
  roomId : ℕ
  matchId : MatchId
  stage : BeginStage

/-- The data of a `matchEnded` event. -/
structure EndResult where
  winnerSide : ℤ
  winnerSeats : List ℕ
  finalSideScores : List ℕ
  deriving DecidableEq, Repr

/-- Where the end of a match goes on: at the refund of a match without a winner, at
the settlement, at the ranked result, or at the refund of a voided match. -/
inductive EndingStage where
  | refunding (task : ℕ)
  | settling (task : ℕ)
  | recording (payoutCents : Option ℕ)
  | voiding (task : ℕ)

/-- A call of `settleAndEmitMatchEnd` or `adminVoidMatch` that has not returned. -/
structure Ending where
  roomId : ℕ
  result : EndResult
  stage : EndingStage

/-- The message `match:end`. -/
structure MatchEnd where
  roomId : ℕ
  result : EndResult
  scoreboard : Scoreboard
  payoutCents : Option ℕ
  deriving DecidableEq, Repr

/-- The gateway's state: rooms, money, sockets, queue, and the starts and ends under way. -/
structure Gateway where
  rooms : RoomManager := {}
  money : Money User MatchId
  rakeBps : ℕ
  sockets : List Socket := []
  countdowns : ℕ → Bool := fun _ => false
  begins : ℕ → Option Begin := fun _ => none
  nextBegin : ℕ := 0
  offers : ℕ → Option (List User) := fun _ => none
  joining : List QueueEntry := []
  queue : List QueueEntry := []
  botTier : ℕ → Bool := fun _ => false
  finalized : List MatchId := []
  endings : ℕ → Option Ending := fun _ => none
  nextEnding : ℕ := 0
  matchEnds : List MatchEnd := []

/-- The player to be escrowed for a seat: a bot holds no money. -/
def playerAt (seat : InternalSeat) (i : ℕ) : Option (MatchPlayer User) :=
  seat.userId.bind fun u => if isBot (some u) then none else some { seat := i, userId := u }

theorem playerAt_seat {seat : InternalSeat} {i : ℕ} {p : MatchPlayer User} (h : playerAt seat i = some p) :
    p.seat = i := by
  obtain ⟨u, -, hu⟩ := Option.bind_eq_some_iff.1 h
  split at hu
  · cases hu
  · cases hu; rfl

/-- The players that are escrowed. -/
def Room.players (r : Room) : List (MatchPlayer User) :=
  r.seats.zipIdx.filterMap fun p => playerAt p.1 p.2

/-- A seat has one player. -/
theorem Room.players_nodup (r : Room) : (r.players.map MatchPlayer.seat).Nodup := by
  have hidx : (r.seats.zipIdx.map Prod.snd).Nodup := by
    rw [List.zipIdx_map_snd]
    exact List.nodup_range'
  rw [List.Nodup, List.pairwise_map] at hidx ⊢
  refine hidx.filterMap _ fun a b hne p hp q hq => ?_
  rw [playerAt_seat hp, playerAt_seat hq]
  exact hne

/-- What a room hands to the escrow. -/
def Room.escrowInput (r : Room) (matchId : MatchId) (rakeBps : ℕ) : SeatedEscrow User MatchId :=
  { matchId, type := r.type, stakeCents := r.stakeCents, rakeBps, players := r.players,
    seats_nodup := r.players_nodup }

/-- A match lists each winner once, so nothing is dropped here. -/
def EndResult.settleInput (e : EndResult) (matchId : MatchId) : SeatedSettle MatchId :=
  { matchId, winnerSeats := e.winnerSeats.dedup, seats_nodup := List.nodup_dedup _ }

namespace Gateway

/-! ## Parts of the state -/

/-- The gateway, with other rooms. -/
def withRooms (g : Gateway) (rooms : RoomManager) : Gateway := { g with rooms }

/-- The gateway, with other money. -/
def withMoney (g : Gateway) (money : Money User MatchId) : Gateway := { g with money }

/-- A match start is noted at its slot. -/
def setBegin (g : Gateway) (b : ℕ) (x : Begin) : Gateway :=
  { g with begins := Function.update g.begins b (some x) }

/-- The call of `beginMatch` returns. -/
def endBegin (g : Gateway) (b : ℕ) : Gateway := { g with begins := Function.update g.begins b none }

/-- A match end is noted at its slot. -/
def setEnding (g : Gateway) (k : ℕ) (x : Ending) : Gateway :=
  { g with endings := Function.update g.endings k (some x) }

/-- The end's slot is emptied. -/
def endEnding (g : Gateway) (k : ℕ) : Gateway := { g with endings := Function.update g.endings k none }

/-- A new call that awaits. -/
def await (g : Gateway) (x : Ending) : Gateway :=
  { g.setEnding g.nextEnding x with nextEnding := g.nextEnding + 1 }

/-- The socket of an id. -/
def socket? (g : Gateway) (id : ℕ) : Option Socket := g.sockets.find? fun s => s.id = id

/-- Every socket of a user. -/
def socketsOf (g : Gateway) (userId : ℕ) : List Socket := g.sockets.filter fun s => s.userId = userId

/-- The room a socket keeps for itself. -/
def setSocketRoom (g : Gateway) (id : ℕ) (roomId : Option ℕ) : Gateway :=
  { g with sockets := g.sockets.map fun s => if s.id = id then { s with roomId } else s }

/-- All sockets of a user enter a room. -/
def attachAll (g : Gateway) (userId roomId : ℕ) : Gateway :=
  { g with sockets := g.sockets.map fun s => if s.userId = userId then { s with roomId := some roomId } else s }

/-- The user leaves the ranked queue. -/
def dequeue (g : Gateway) (userId : ℕ) : Gateway :=
  { g with queue := g.queue.filter fun e => e.userId ≠ userId }

/-- The strength of a room's bots is noted. -/
def setTier (g : Gateway) (roomId : ℕ) (b : Bool) : Gateway :=
  { g with botTier := Function.update g.botTier roomId b }

/-- A rematch offer is noted, or dropped. -/
def setOffer (g : Gateway) (roomId : ℕ) (offer : Option (List User)) : Gateway :=
  { g with offers := Function.update g.offers roomId offer }

/-- The room's countdown stops. -/
def clearCountdown (g : Gateway) (roomId : ℕ) : Gateway :=
  { g with countdowns := Function.update g.countdowns roomId false }

/-- Arm the countdown if everyone is ready, else stop it; a running one goes on. -/
def maybeStartCountdown (g : Gateway) (roomId : ℕ) : Gateway :=
  { g with countdowns := Function.update g.countdowns roomId (g.rooms.allReady roomId) }

/-! ## The start of a match -/

/-- The roster at the table is the roster that was escrowed. -/
def rosterIntact (players live : List (MatchPlayer User)) : Bool :=
  live.length = players.length && players.all fun p => p ∈ live

/-- Un-ready everyone, unless a match is on. -/
def unreadyUnlessLive (g : Gateway) (roomId : ℕ) : Gateway :=
  if (g.rooms.rooms roomId).any fun r => r.status ≠ .inMatch then
    g.withRooms (g.rooms.setReadyAll roomId false)
  else g

/-- A start has thrown: refund what the room's match id escrowed. -/
def startFailed (g : Gateway) (b : ℕ) (x : Begin) : Gateway :=
  match g.rooms.matchIdOf x.roomId with
  | some id => (g.withMoney (g.money.refund id)).setBegin b { x with stage := .failing g.money.nextTask }
  | none => (g.unreadyUnlessLive x.roomId).endBegin b

/-- A start is called off after its escrow. -/
def undo (g : Gateway) (b : ℕ) (x : Begin) : Gateway :=
  (g.withMoney (g.money.refund x.matchId)).setBegin b { x with stage := .undoing g.money.nextTask }

/-- Everything is in order: start the match. -/
def launch (g : Gateway) (b : ℕ) (x : Begin) (escrowed : Bool) (deal : ℕ → List (List Card)) : Gateway :=
  match g.rooms.startMatch x.roomId deal with
  | .error _ => g.startFailed b x
  | .ok (rooms, none) => (g.withRooms rooms).endBegin b
  | .ok (_, some _) =>
    if escrowed then g.undo b x else (g.withRooms (g.rooms.setReadyAll x.roomId false)).endBegin b

/-- Escrow the stakes; a practice room, or one with bots only, has none. -/
def escrowStakes (g : Gateway) (b : ℕ) (x : Begin) (deal : ℕ → List (List Card)) : Gateway :=
  match g.rooms.rooms x.roomId with
  | none => g.launch b x false deal
  | some r =>
    if r.practice || r.players.isEmpty then g.launch b x false deal
    else (g.withMoney (g.money.escrow (r.escrowInput x.matchId g.rakeBps))).setBegin b
      { x with stage := .escrowing g.money.nextTask r.players }

/-- The next occupied seat from `seat` on. -/
def nextSeat (r : Room) (seat : ℕ) : Option ℕ :=
  (List.range r.seats.length).find? fun i => decide (seat ≤ i) && (r.seatAt i).userId.isSome

/-- The real-money checks of the users of the seats from `seat` on, then the escrow. -/
def checkFrom (g : Gateway) (b : ℕ) (x : Begin) (seat : ℕ) (blocked : Bool)
    (deal : ℕ → List (List Card)) : Gateway :=
  match (g.rooms.rooms x.roomId).bind fun r => nextSeat r seat with
  | some i => g.setBegin b { x with stage := .checking i blocked }
  | none => if blocked then g.endBegin b else g.escrowStakes b x deal

/-- `beginMatch` up to its first `await`: a new match id, then the checks of a
staked match, or the escrow. -/
def beginMatch (g : Gateway) (roomId : ℕ) (deal : ℕ → List (List Card)) : Gateway :=
  match g.rooms.rooms roomId, g.rooms.assignMatchId roomId with
  | some r, (rooms, some matchId) =>
    if !r.allReady then g
    else
      let x : Begin := { roomId, matchId, stage := .checking 0 false }
      let g₁ := { g with rooms, nextBegin := g.nextBegin + 1,
                         finalized := g.finalized.filter fun id => some id ≠ r.matchId }
      if 0 < r.stakeCents then g₁.checkFrom g.nextBegin x 0 false deal
      else g₁.escrowStakes g.nextBegin x deal
  | _, _ => g

/-- The answer to the checks of one user. -/
inductive Verdict where
  | allowed | refused | threw
  deriving DecidableEq, Repr

/-- The checks of the user of a seat have resolved. -/
def checked (g : Gateway) (b : ℕ) (verdict : Verdict) (deal : ℕ → List (List Card)) : Gateway :=
  match g.begins b with
  | some x =>
    match x.stage, verdict with
    | .checking seat blocked, .allowed => g.checkFrom b x (seat + 1) blocked deal
    | .checking seat _, .refused =>
      let rooms := match g.rooms.userAtSeat x.roomId seat with
        | some u => (g.rooms.setReady u false).1
        | none => g.rooms
      (g.withRooms rooms).checkFrom b x (seat + 1) true deal
    | .checking _ _, .threw => g.startFailed b x
    | _, _ => g
  | none => g

/-- The escrow has resolved: recheck the roster and start the match. -/
def escrowed (g : Gateway) (b : ℕ) (x : Begin) (players : List (MatchPlayer User))
    (r : EscrowResult User) (deal : ℕ → List (List Card)) : Gateway :=
  if !r.ok then
    (g.withRooms (r.insufficientUserIds.foldl (fun rm u => (rm.setReady u false).1) g.rooms)).endBegin b
  else
    let live := ((g.rooms.rooms x.roomId).map Room.players).getD []
    if rosterIntact players live && g.rooms.allReady x.roomId then g.launch b x true deal
    else g.undo b x

/-- A start goes on when the money task it awaits is done. -/
def resumeBegin (g : Gateway) (b : ℕ) (deal : ℕ → List (List Card)) : Gateway :=
  match g.begins b with
  | none => g
  | some x =>
    match x.stage with
    | .checking _ _ => g
    | .escrowing t players =>
      match g.money.tasks t with
      | some (.done (.escrow r)) => g.escrowed b x players r deal
      | some (.done .threw) => g.startFailed b x
      | _ => g
    | .undoing t =>
      match g.money.tasks t with
      | some (.done .refund) => (g.withRooms (g.rooms.setReadyAll x.roomId false)).endBegin b
      | some (.done .threw) => g.startFailed b x
      | _ => g
    | .failing t =>
      match g.money.tasks t with
      | some (.done _) => (g.unreadyUnlessLive x.roomId).endBegin b
      | _ => g

/-! ## The end of a match -/

/-- The finalized match ids are kept up to this many. -/
def finalizedCap : ℕ := 10000

/-- What a match is finalized under: its id, or the room. -/
def finalizeKey (g : Gateway) (roomId : ℕ) : MatchId :=
  (g.rooms.matchIdOf roomId).getD { tag := g.rooms.instanceTag, roomId, seq := 0 }

/-- Claim a match for finalization, once; its room is then finished. -/
def claimFinalize (g : Gateway) (roomId : ℕ) : Option Gateway :=
  let key := g.finalizeKey roomId
  if key ∈ g.finalized then none
  else
    let all := g.finalized ++ [key]
    some { g with finalized := if finalizedCap < all.length then all.tail else all,
                  rooms := g.rooms.markFinished roomId }

/-- The seats of those long gone are freed. -/
def freeGone (g : Gateway) (roomId : ℕ) : Gateway := g.withRooms (g.rooms.clearGoneSeats roomId)

/-- The scores of a room's match. -/
def scoreboardOf (g : Gateway) (roomId : ℕ) : Option Scoreboard :=
  (g.rooms.rooms roomId).bind Room.scoreboard

/-- The end of a match is told. -/
def emitMatchEnd (g : Gateway) (e : MatchEnd) : Gateway := { g with matchEnds := g.matchEnds ++ [e] }

/-- `match:end` of a match with a winner; without a score board there is none. -/
def announce (g : Gateway) (roomId : ℕ) (result : EndResult) (payoutCents : Option ℕ) : Gateway :=
  match g.scoreboardOf roomId with
  | none => g
  | some scoreboard => (g.emitMatchEnd { roomId, result, scoreboard, payoutCents }).freeGone roomId

/-- The score board of a room that may be gone. -/
def scoreboardOr (g : Gateway) (roomId : ℕ) : Scoreboard :=
  (g.scoreboardOf roomId).getD
    { type := ((g.rooms.rooms roomId).map Room.type).getD .oneVOne, target := 0, cumulative := [],
      teamTotals := none }

/-- `match:end` of a match that nobody won. -/
def announceVoid (g : Gateway) (roomId : ℕ) (result : EndResult) : Gateway :=
  (g.emitMatchEnd
    { roomId, result := { result with winnerSide := -1, winnerSeats := [] },
      scoreboard := g.scoreboardOr roomId, payoutCents := none }).freeGone roomId

/-- The pot is settled, or there was none: the ranked result is awaited, but a
tournament match has none. -/
def afterPayout (g : Gateway) (k : ℕ) (x : Ending) (payoutCents : Option ℕ) : Gateway :=
  if (g.rooms.rooms x.roomId).any fun r => r.tournament.isSome then
    (g.announce x.roomId x.result payoutCents).endEnding k
  else g.setEnding k { x with stage := .recording payoutCents }

/-- The room is a practice one. -/
def isPractice (g : Gateway) (roomId : ℕ) : Bool := (g.rooms.rooms roomId).any Room.practice

/-- Settle the pot of a match that has ended, then announce the end. -/
def settleAndEmitMatchEnd (g : Gateway) (roomId : ℕ) (result : EndResult) : Gateway :=
  match g.claimFinalize roomId with
  | none => g
  | some g =>
    let k := g.nextEnding
    let t := g.money.nextTask
    match result.winnerSeats, g.rooms.matchIdOf roomId with
    | [], some id => (g.withMoney (g.money.refund id)).await { roomId, result, stage := .refunding t }
    | [], none => g.announceVoid roomId result
    | _ :: _, some id =>
      if g.isPractice roomId then
        (g.await { roomId, result, stage := .recording none }).afterPayout k
          { roomId, result, stage := .recording none } none
      else
        (g.withMoney (g.money.settle (result.settleInput id))).await { roomId, result, stage := .settling t }
    | _ :: _, none =>
      (g.await { roomId, result, stage := .recording none }).afterPayout k
        { roomId, result, stage := .recording none } none

/-- The end of a match goes on. -/
def resumeEnding (g : Gateway) (k : ℕ) : Gateway :=
  match g.endings k with
  | none => g
  | some x =>
    match x.stage with
    | .refunding t =>
      match g.money.tasks t with
      | some (.done .refund) => (g.announceVoid x.roomId x.result).endEnding k
      | some (.done .threw) => (g.freeGone x.roomId).endEnding k
      | _ => g
    | .settling t =>
      match g.money.tasks t with
      | some (.done (.settle (some s))) => g.afterPayout k x (some s.paid)
      | some (.done (.settle none)) => (g.freeGone x.roomId).endEnding k
      | some (.done .threw) => (g.freeGone x.roomId).endEnding k
      | _ => g
    | .recording payoutCents => (g.announce x.roomId x.result payoutCents).endEnding k
    | .voiding t =>
      match g.money.tasks t with
      | some (.done .refund) =>
        (g.emitMatchEnd { roomId := x.roomId, result := x.result, scoreboard := g.scoreboardOr x.roomId,
                          payoutCents := none }).endEnding k
      | some (.done .threw) => g.endEnding k
      | _ => g

/-- An admin voids a live match. -/
def adminVoidMatch (g : Gateway) (roomId : ℕ) : Gateway :=
  if (g.rooms.rooms roomId).any fun r => r.status = .inMatch then
    match g.claimFinalize roomId with
    | none => g
    | some g =>
      let result : EndResult :=
        { winnerSide := -1, winnerSeats := [],
          finalSideScores := ((g.scoreboardOf roomId).map Scoreboard.cumulative).getD [] }
      match g.rooms.matchIdOf roomId with
      | some id =>
        (g.withMoney (g.money.refund id)).await { roomId, result, stage := .voiding g.money.nextTask }
      | none => g.emitMatchEnd { roomId, result, scoreboard := g.scoreboardOr roomId, payoutCents := none }
  else g

/-- Of the events of an action, the end of the match has consequences here. -/
def applyEvent (roomId : ℕ) (g : Gateway) : MatchEvent → Gateway
  | .matchEnded winnerSide winnerSeats finalSideScores =>
    g.settleAndEmitMatchEnd roomId { winnerSide, winnerSeats, finalSideScores }
  | _ => g

/-- The events an accepted action answered with, handled in order. -/
def applyResult (g : Gateway) (roomId : ℕ) (r : MatchActionResult) : Gateway :=
  r.matchEvents.foldl (applyEvent roomId) g

/-- A play, a pass or the return of a card, by a player, a bot or a timer. -/
def act (g : Gateway) (u : User) (call : ℕ → Match.Call) : Gateway :=
  let a := g.rooms.forward u call
  let g₁ := g.withRooms a.1
  match a.2.result.ok, a.2.roomId with
  | true, some roomId => g₁.applyResult roomId a.2.result
  | _, _ => g₁

/-- A seated player left, was gone too long or idle too often. -/
def forfeitMatch (g : Gateway) (roomId seat : ℕ) : Gateway :=
  match g.rooms.rooms roomId with
  | none => g
  | some r =>
    if r.match_.isNone || r.status ≠ .inMatch then g
    else match (r.seatAt seat).userId with
      | none => g
      | some u =>
        let a := g.rooms.forfeitSeat u
        let g₁ := g.withRooms a.1
        if a.2.result.ok && a.2.roomId.isSome then g₁.applyResult roomId a.2.result else g₁

end Gateway

end Murlan
