import Murlan.Base.Run
import Murlan.Spec.Gateway

/-!
# Messages and timers

The handlers of the gateway's messages (`onCreate`, `onJoin`, `onLeave`,
`onReady`, `onSwitchTeam`, `onRematch`, the ranked queue, `onPracticeStart`,
connections) and of its timers, and one step of the whole server.

A socket keeps the room it is in for itself; membership is the rooms' business.
-/

namespace Murlan

/-- An action of a player in a match. -/
inductive PlayerMove where
  | play (cards : List Card)
  | pass
  | switchGive (card : Card)
  deriving DecidableEq, Repr

/-- The call on the match that a player's move makes. -/
def PlayerMove.call : PlayerMove → ℕ → Match.Call
  | .play cards, seat => .play seat cards
  | .pass, seat => .pass seat
  | .switchGive card, seat => .switchGive seat card

/-- What can happen to a server. A group of queued users, the deals, the answers of
the checks and what becomes of a request are the environment's. -/
inductive Event where
  | connect (socket userId : ℕ)
  | disconnect (socket : ℕ)
  | create (socket : ℕ) (payload : RoomManager.CreatePayload)
  | join (socket roomId : ℕ) (team : Option ℕ)
  | joinByCode (socket code : ℕ)
  | invite (roomId userId : ℕ)
  | leave (socket : ℕ)
  | ready (socket : ℕ) (ready : Bool)
  | switchTeam (socket team : ℕ)
  | rematch (socket : ℕ)
  | rematchTimeout (roomId : ℕ)
  | move (u : User) (m : PlayerMove)
  | abandon (roomId userId : ℕ)
  | idle (roomId seat : ℕ)
  | rankedQueueJoin (socket : ℕ) (type : MatchType)
  | enqueue (k : ℕ)
  | rankedQueueLeave (socket : ℕ)
  | formRanked (type : MatchType) (group : List ℕ)
  | formRankedVsBots (userId : ℕ) (type : MatchType)
  | practiceStart (socket : ℕ) (type : MatchType)
  | ghostFill (roomId : ℕ)
  | tournamentRoom (players : List ℕ)
  | clubWarRoom (players : List ℕ)
  | tournamentNoShow (roomId : ℕ)
  | countdown (roomId : ℕ) (deal : ℕ → List (List Card))
  | checked (b : ℕ) (verdict : Gateway.Verdict) (deal : ℕ → List (List Card))
  | resumeBegin (b : ℕ) (deal : ℕ → List (List Card))
  | resumeEnding (k : ℕ)
  | adminVoid (roomId : ℕ)
  | sweep
  | db (task : ℕ) (fate : Fate)
  | resume (task : ℕ)
  | register (u : User)
  | walletMove (u : User) (type : TransactionType) (deltaCents : ℤ) (ref : Option String)

namespace Gateway

/-! ## Leaving -/

/-- Remove a user from the room the user is in, and look at the countdown of the
room named. -/
def leaveAndNotify (g : Gateway) (u : User) (roomId : ℕ) : Gateway :=
  let g₁ := g.withRooms (g.rooms.leaveRoom u)
  if g.rooms.closes u then g₁.clearCountdown roomId else g₁.maybeStartCountdown roomId

/-- A room that a human shares with bots only. -/
def isBotRoom (g : Gateway) (roomId : ℕ) : Bool :=
  match g.rooms.rooms roomId with
  | none => false
  | some r => r.practice || g.botTier roomId || r.seats.any fun s => isBot s.userId

/-- Remove the bots of a room. -/
def teardownBotRoom (g : Gateway) (roomId : ℕ) : Gateway :=
  let g₁ := g.setTier roomId false
  match g.rooms.rooms roomId with
  | none => g₁
  | some r =>
    let bots := (r.seats.filterMap InternalSeat.userId).filter fun u => isBot (some u)
    g₁.withRooms (bots.foldl RoomManager.leaveRoom g.rooms)

/-- The rematch offer is dropped. -/
def cancelRematch (g : Gateway) (roomId : ℕ) : Gateway := g.setOffer roomId none

/-- A user in a live match forfeits it; any other leaves. -/
def leaveOrForfeit (g : Gateway) (u : User) (roomId : ℕ) : Gateway :=
  match g.rooms.rooms roomId, g.rooms.seatOf roomId u with
  | some r, some seat =>
    if r.status = .inMatch then g.forfeitMatch roomId seat else g.leaveAndNotify u roomId
  | _, _ => g.leaveAndNotify u roomId

/-- `room:leave`: what happens is decided by the room the socket keeps. -/
def onLeave (g : Gateway) (socket : ℕ) : Gateway :=
  match g.socket? socket with
  | none => g
  | some s =>
    match s.roomId with
    | none => g
    | some roomId =>
      let g₁ := ((g.cancelRematch roomId).setSocketRoom socket none).leaveOrForfeit s.user roomId
      if g.isBotRoom roomId then g₁.teardownBotRoom roomId else g₁

/-! ## Connections -/

/-- A connection joins the room its user is in. -/
def onConnection (g : Gateway) (socket userId : ℕ) : Gateway :=
  if (g.socket? socket).isSome then g
  else match g.rooms.userRoom (.human userId), g.rooms.roomOf (.human userId) with
    | some roomId, some _ =>
      { g with
        sockets := { id := socket, userId, roomId := some roomId } :: g.sockets
        rooms := g.rooms.setConnected (.human userId) true }
    | _, _ => { g with sockets := { id := socket, userId } :: g.sockets }

/-- The last socket of a user is gone. -/
def onGone (g : Gateway) (userId : ℕ) : Gateway :=
  let u : User := .human userId
  let g₁ := g.dequeue userId
  match g.rooms.userRoom u with
  | none => g₁
  | some roomId =>
    match g.rooms.rooms roomId with
    | none => g₁
    | some r =>
      if g.isBotRoom roomId then (g₁.leaveAndNotify u roomId).teardownBotRoom roomId
      else if r.status = .inMatch then g₁.withRooms (g.rooms.setConnected u false)
      else g₁.leaveAndNotify u roomId

/-- A connection goes; the seat is told once no other connection of the user is left. -/
def onDisconnect (g : Gateway) (socket : ℕ) : Gateway :=
  match g.socket? socket with
  | none => g
  | some s =>
    let g₁ := { g with sockets := g.sockets.filter fun x => x.id ≠ socket }
    if g₁.socketsOf s.userId ≠ [] then g₁ else g₁.onGone s.userId

/-! ## Rooms -/

/-- A socket whose user has just sat down in a room. -/
def seated (g : Gateway) (s : Socket) (roomId : ℕ) : Gateway :=
  (g.dequeue s.userId).setSocketRoom s.id (some roomId)

/-- `room:create`: the client's payload goes to the manager as it came. -/
def onCreate (g : Gateway) (socket : ℕ) (p : RoomManager.CreatePayload) : Gateway :=
  match g.socket? socket with
  | none => g
  | some s =>
    match g.rooms.createRoom s.user p with
    | (rooms, .ok roomId) => (g.withRooms rooms).seated s roomId
    | (rooms, .error _) => g.withRooms rooms

/-- A player of a tournament pairing is ready on joining. -/
def autoReady (rm : RoomManager) (u : User) (roomId : ℕ) : RoomManager :=
  if (rm.rooms roomId).any fun r => r.tournament.isSome then (rm.setReady u true).1 else rm

/-- `room:join`: a player takes a seat of a waiting room. -/
def onJoin (g : Gateway) (socket roomId : ℕ) (team : Option ℕ) : Gateway :=
  match g.socket? socket with
  | none => g
  | some s =>
    match g.rooms.joinRoom s.user roomId team with
    | (_, some _) => g
    | (rooms, none) =>
      ((g.withRooms (autoReady rooms s.user roomId)).seated s roomId).maybeStartCountdown roomId

/-- A code names a private room and admits its user. -/
def onJoinByCode (g : Gateway) (socket code : ℕ) : Gateway :=
  match g.socket? socket with
  | none => g
  | some s =>
    match g.rooms.roomIdForCode code with
    | none => g
    | some roomId =>
      let g₁ := g.withRooms (g.rooms.markInvited roomId s.user)
      match g₁.rooms.joinRoom s.user roomId none with
      | (_, some _) => g₁
      | (rooms, none) => ((g₁.withRooms rooms).seated s roomId).maybeStartCountdown roomId

/-- `room:ready`: the flag is set in the user's room, the countdown looked at in the
socket's. -/
def onReady (g : Gateway) (socket : ℕ) (ready : Bool) : Gateway :=
  match g.socket? socket with
  | none => g
  | some s =>
    match g.rooms.setReady s.user ready, s.roomId with
    | (_, some _), _ => g
    | (rooms, none), some roomId => (g.withRooms rooms).maybeStartCountdown roomId
    | (rooms, none), none => g.withRooms rooms

/-- `room:switchTeam`: a player moves to the other team while the room waits. -/
def onSwitchTeam (g : Gateway) (socket team : ℕ) : Gateway :=
  match g.socket? socket with
  | none => g
  | some s =>
    if 1 < team then g
    else match g.rooms.switchTeam s.user team, s.roomId with
      | (_, some _), _ => g
      | (rooms, none), some roomId => (g.withRooms rooms).maybeStartCountdown roomId
      | (rooms, none), none => g.withRooms rooms

/-! ## Rematches -/

/-- The full roster is present: every seat a bot's or a connected player's. -/
def rosterPresent (r : Room) : Bool :=
  r.seats.all fun s => s.userId.isSome && (isBot s.userId || s.connected)

/-- Who has accepted a rematch once `u` does; bots accept at once. -/
def acceptedWith (g : Gateway) (roomId : ℕ) (r : Room) (u : User) : List User :=
  u :: (g.offers roomId).getD ((r.seats.filterMap InternalSeat.userId).filter fun u => isBot (some u))

/-- Everyone has accepted: the room is reset, readied and counts down. -/
def startRematch (g : Gateway) (roomId : ℕ) : Gateway :=
  let g₁ := g.setOffer roomId none
  match g.rooms.resetForRematch roomId with
  | (_, false) => g₁
  | (rooms, true) => (g₁.withRooms (rooms.setReadyAll roomId true)).maybeStartCountdown roomId

/-- `room:rematch`: a vote, and the reset once everyone has voted. -/
def onRematch (g : Gateway) (socket : ℕ) : Gateway :=
  match g.socket? socket with
  | none => g
  | some s =>
    match s.roomId with
    | none => g
    | some roomId =>
      match g.rooms.rooms roomId with
      | none => g
      | some r =>
        if r.status ≠ .finished || r.tournament.isSome || (r.seatOf s.user).isNone || !rosterPresent r then g
        else
          let users := g.acceptedWith roomId r s.user
          if r.seats.all fun s => s.userId.all fun u => u ∈ users then g.startRematch roomId
          else g.setOffer roomId (some users)

/-! ## The ranked queue and rooms with bots -/

/-- `ranked:join`: a player with no room joins the queue. -/
def onRankedQueueJoin (g : Gateway) (socket : ℕ) (type : MatchType) : Gateway :=
  match g.socket? socket with
  | none => g
  | some s =>
    if s.roomId.isSome then g
    else { g with joining := g.joining ++ [{ userId := s.userId, type }] }

/-- The rating of a user who joins the queue has been read. -/
def enqueue (g : Gateway) (k : ℕ) : Gateway :=
  match g.joining[k]? with
  | none => g
  | some e =>
    { g.dequeue e.userId with
      joining := g.joining.eraseIdx k, queue := (g.dequeue e.userId).queue ++ [e] }

/-- `ranked:leave`: the player leaves the queue. -/
def onRankedQueueLeave (g : Gateway) (socket : ℕ) : Gateway :=
  match g.socket? socket with
  | none => g
  | some s => g.dequeue s.userId

/-- Users join a room one after the other, up to the first that is turned away. -/
def joinAll (rm : RoomManager) (roomId : ℕ) : List ℕ → RoomManager × Bool
  | [] => (rm, true)
  | u :: us =>
    match rm.joinRoom (.human u) roomId none with
    | (rm', none) => joinAll rm' roomId us
    | (_, some _) => (rm, false)

/-- Each member of a group enters the room with all sockets, ready. -/
def attachGroup (g : Gateway) (roomId : ℕ) (group : List ℕ) : Gateway :=
  group.foldl
    (fun g u => (g.attachAll u roomId).withRooms (g.rooms.setReady (.human u) true).1) g

/-- Seat a group of the queue in a new ranked room; if one of them cannot join, all
of them leave. -/
def seatRankedGroup (g : Gateway) (type : MatchType) : List ℕ → Gateway
  | [] => g
  | creator :: rest =>
    if (g.rooms.roomOf (.human creator)).isSome then g
    else match g.rooms.createRoom (.human creator) { type, stakeCents := 0, ranked := true } with
      | (rooms, .error _) => g.withRooms rooms
      | (rooms, .ok roomId) =>
        match joinAll rooms roomId rest with
        | (rooms', false) =>
          g.withRooms ((creator :: rest).foldl (fun rm u => rm.leaveRoom (.human u)) rooms')
        | (rooms', true) =>
          ((g.withRooms rooms').attachGroup roomId (creator :: rest)).maybeStartCountdown roomId

/-- A startable group: queued for the type, as many as it needs. -/
def startable (g : Gateway) (type : MatchType) (group : List ℕ) : Bool :=
  group.length = playersForType type && decide group.Nodup &&
    group.all fun u => { userId := u, type } ∈ g.queue

/-- A group is taken off the queue and seated, when it may start. -/
def tryFormRanked (g : Gateway) (type : MatchType) (group : List ℕ) : Gateway :=
  if g.startable type group then (group.foldl dequeue g).seatRankedGroup type group else g

/-- Seat a bot, connected and ready, in each seat listed. -/
def seatBots (rm : RoomManager) (roomId : ℕ) : List ℕ → RoomManager × Bool
  | [] => (rm, true)
  | seat :: seats =>
    let bot : User := .bot roomId seat
    match rm.joinRoom bot roomId none with
    | (_, some _) => (rm, false)
    | (rm', none) => seatBots ((rm'.setConnected bot true).setReady bot true).1 roomId seats

/-- Bots take the empty seats, never in a staked room. -/
def fillEmptySeatsWithBots (rm : RoomManager) (roomId : ℕ) : RoomManager × Bool :=
  match rm.rooms roomId with
  | none => (rm, false)
  | some r =>
    if r.stakeCents ≠ 0 then (rm, false)
    else seatBots rm roomId
      ((List.range r.seats.length).filter fun i => decide ((r.seatAt i).userId = none))

/-- Fill a room with bots and let it start, or give it up. -/
def startWithBots (g : Gateway) (roomId : ℕ) : Gateway :=
  match fillEmptySeatsWithBots g.rooms roomId with
  | (rooms, true) => (g.withRooms rooms).maybeStartCountdown roomId
  | (rooms, false) => (g.withRooms rooms).teardownBotRoom roomId

/-- A new free room for one user and bots. -/
def openBotRoom (g : Gateway) (userId : ℕ) (p : RoomManager.CreatePayload) : Gateway :=
  match g.rooms.createRoom (.human userId) p with
  | (rooms, .error _) => g.withRooms rooms
  | (rooms, .ok roomId) =>
    (((g.withRooms (rooms.setReady (.human userId) true).1).setTier roomId true).attachAll
      userId roomId).startWithBots roomId

/-- A queued user without opponents plays a ranked match against bots. -/
def formRankedVsBots (g : Gateway) (userId : ℕ) (type : MatchType) : Gateway :=
  if !g.queue.any fun e => e.userId = userId then g
  else
    let g₁ := g.dequeue userId
    if (g.rooms.roomOf (.human userId)).isSome || (g.socketsOf userId).isEmpty then g₁
    else g₁.openBotRoom userId { type, stakeCents := 0, ranked := true }

/-- `practice:start`: a room against bots, started at once. -/
def onPracticeStart (g : Gateway) (socket : ℕ) (type : MatchType) : Gateway :=
  match g.socket? socket with
  | none => g
  | some s =>
    if (g.rooms.roomOf s.user).isSome then g
    else g.openBotRoom s.userId { type, stakeCents := 0, practice := true }

/-- A room that fill-players may still join. -/
def fillable (r : Room) : Bool :=
  r.stakeCents = 0 && !r.ranked && !r.isPrivate && !r.practice && r.status = .waiting &&
    (r.seats.filter fun s => s.userId.isSome && !isBot s.userId).length = 1 && !r.isFull

/-- A solo host of a free lobby is joined by fill-players. -/
def ghostFill (g : Gateway) (roomId : ℕ) : Gateway :=
  match g.rooms.rooms roomId with
  | none => g
  | some r =>
    if fillable r then
      ((g.withRooms (g.rooms.markPractice roomId)).setTier roomId true).startWithBots roomId
    else g

/-- A paired player never joined: the room is discarded. -/
def onTournamentNoShow (g : Gateway) (roomId : ℕ) : Gateway :=
  match g.rooms.rooms roomId with
  | none => g
  | some r =>
    if r.tournament.isNone || r.status ≠ .waiting then g
    else g.withRooms
      (((r.seats.filterMap InternalSeat.userId).foldl RoomManager.leaveRoom g.rooms).deleteRoom roomId)

/-! ## One step of the server -/

/-- The countdown of a room ends. -/
def onCountdown (g : Gateway) (roomId : ℕ) (deal : ℕ → List (List Card)) : Gateway :=
  if g.countdowns roomId then (g.clearCountdown roomId).beginMatch roomId deal else g

/-- The grace of a user without sockets has expired. -/
def onAbandon (g : Gateway) (roomId userId : ℕ) : Gateway :=
  if g.socketsOf userId ≠ [] then g
  else match g.rooms.seatOf roomId (.human userId) with
    | none => g
    | some seat => g.forfeitMatch roomId seat

/-- A human has let too many turns pass. -/
def onIdle (g : Gateway) (roomId seat : ℕ) : Gateway :=
  if isBot (g.rooms.userAtSeat roomId seat) then g else g.forfeitMatch roomId seat

/-- A server that starts on the database earlier calls have left. -/
def boot (earlier : List (MoneyEvent User MatchId)) (tag target rakeBps : ℕ) : Gateway :=
  { rooms := { instanceTag := tag, startTarget := target }
    money := { db := (run Money.step Money.empty earlier).db }
    rakeBps }

/-- One event of the gateway. -/
def step (g : Gateway) : Event → Gateway
  | .connect s u => g.onConnection s u
  | .disconnect s => g.onDisconnect s
  | .create s p => g.onCreate s p
  | .join s i team => g.onJoin s i team
  | .joinByCode s code => g.onJoinByCode s code
  | .invite i u => g.withRooms (g.rooms.markInvited i (.human u))
  | .leave s => g.onLeave s
  | .ready s b => g.onReady s b
  | .switchTeam s team => g.onSwitchTeam s team
  | .rematch s => g.onRematch s
  | .rematchTimeout i => g.cancelRematch i
  | .move u m => g.act u m.call
  | .abandon i u => g.onAbandon i u
  | .idle i seat => g.onIdle i seat
  | .rankedQueueJoin s type => g.onRankedQueueJoin s type
  | .enqueue k => g.enqueue k
  | .rankedQueueLeave s => g.onRankedQueueLeave s
  | .formRanked type group => g.tryFormRanked type group
  | .formRankedVsBots u type => g.formRankedVsBots u type
  | .practiceStart s type => g.onPracticeStart s type
  | .ghostFill i => g.ghostFill i
  | .tournamentRoom ps => g.withRooms (g.rooms.createTournamentRoom .oneVOne (ps.map .human))
  | .clubWarRoom ps => g.withRooms (g.rooms.createClubWarRoom (ps.map .human))
  | .tournamentNoShow i => g.onTournamentNoShow i
  | .countdown i deal => g.onCountdown i deal
  | .checked b verdict deal => g.checked b verdict deal
  | .resumeBegin b deal => g.resumeBegin b deal
  | .resumeEnding k => g.resumeEnding k
  | .adminVoid i => g.adminVoidMatch i
  | .sweep => g.withMoney (g.money.recoverOrphanedMatches g.rooms.activeMatchIds)
  | .db t fate => g.withMoney (g.money.onDb t fate)
  | .resume t => g.withMoney (g.money.onResume t)
  | .register u => g.withMoney (g.money.register u)
  | .walletMove u type delta ref => g.withMoney (g.money.walletMove u type delta ref)

end Gateway

end Murlan
