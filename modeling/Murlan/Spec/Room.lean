import Mathlib.Logic.Function.Basic
import Murlan.Spec.Match

/-!
# Rooms

`packages/server/src/room/roomManager.ts`: the rooms of a server, who sits in
them, and the calls that the gateway makes: creating, joining and leaving, the
ready check, the start of a match, the actions forwarded to the match, forfeits,
the end of a match and the reset for a rematch.

A room is stored under its number, and a call on a room that is gone changes
nothing. A match id is the room, the number of the match in it and the tag of the
process.
-/

namespace Murlan

/-- A signed-in user, or the fill-player of one seat of one room. -/
inductive User where
  | human (id : ℕ)
  | bot (roomId seat : ℕ)
  deriving DecidableEq, Repr

/-- The seat holds a bot. -/
def isBot : Option User → Bool
  | some (.bot _ _) => true
  | _ => false

/-- A match id: a server's tag, the room and the match's number in it. -/
structure MatchId where
  tag : ℕ
  roomId : ℕ
  seq : ℕ
  deriving DecidableEq, Repr

/-- The states of a room. -/
inductive RoomStatus where
  | waiting | ready | inMatch | finished
  deriving DecidableEq, Repr

/-- A seat; an empty one is `{}`. -/
structure InternalSeat where
  userId : Option User := none
  team : Option ℕ := none
  ready : Bool := false
  connected : Bool := false
  gone : Bool := false
  deriving DecidableEq, Repr

/-- `players` are the only users a tournament or a club war room admits. -/
structure Room where
  type : MatchType
  stakeCents : ℕ
  status : RoomStatus := .waiting
  seats : List InternalSeat
  target : ℕ
  match_ : Option Match := none
  matchId : Option MatchId := none
  matchSeq : ℕ := 0
  ranked : Bool := false
  practice : Bool := false
  isPrivate : Bool := false
  invited : List User := []
  tournament : Option (List User) := none
  clubWar : Option (List User) := none

/-- The scores the clients are shown. -/
structure Scoreboard where
  type : MatchType
  target : ℕ
  cumulative : List ℕ
  teamTotals : Option (ℕ × ℕ)
  deriving DecidableEq, Repr

/-- An open room, as the lobby shows it. -/
structure LobbyRoom where
  id : ℕ
  type : MatchType
  stakeCents : ℕ
  seatsFilled : ℕ
  seatsTotal : ℕ
  status : RoomStatus
  teams : Option (ℕ × ℕ)
  deriving DecidableEq, Repr

/-- A room with a match, as the lobby shows it. -/
structure LiveRoom where
  roomId : ℕ
  type : MatchType
  target : ℕ
  players : List (ℕ × Option User)
  deriving DecidableEq, Repr

/-- A refusal of the manager. -/
structure ManagerError where
  code : String
  message : String
  deriving DecidableEq, Repr

/-- What a room sends back for an action: the match's answer, and the room. -/
structure RoomActionResult where
  result : MatchActionResult
  roomId : Option ℕ := none

/-- The seats of a team. -/
def teamSeats (team : ℕ) : List ℕ := if team = 0 then defaultTeams.1 else defaultTeams.2

namespace Room

/-- The seat of an index. -/
def seatAt (r : Room) (i : ℕ) : InternalSeat := r.seats.getD i {}

/-- Every seat is taken. -/
def isFull (r : Room) : Bool := r.seats.all fun s => s.userId.isSome

/-- Every seat is taken and ready. -/
def allReady (r : Room) : Bool := r.seats.all fun s => s.userId.isSome && s.ready

/-- Some seat is taken. -/
def occupied (r : Room) : Bool := r.seats.any fun s => s.userId.isSome

/-- Rooms of the ranked queue, practice rooms and private rooms are never listed. -/
def isPublic (r : Room) : Bool := !r.ranked && !r.practice && !r.isPrivate

/-- How many seats of a team are taken. -/
def teamCount (r : Room) (team : ℕ) : ℕ :=
  ((teamSeats team).filter fun i => (r.seatAt i).userId.isSome).length

/-- The first seat of a user. -/
def seatOf (r : Room) (u : User) : Option ℕ := r.seats.findIdx? fun s => s.userId = some u

/-- Change the seat `i`. -/
def modifySeat (r : Room) (i : ℕ) (f : InternalSeat → InternalSeat) : Room :=
  { r with seats := r.seats.modify i f }

/-- The room, in another state. -/
def withStatus (r : Room) (status : RoomStatus) : Room := { r with status }

/-- The free seat a newcomer gets; in 2v2 one of the team asked for. -/
def pickSeat (r : Room) (team : Option ℕ) : Option ℕ :=
  let free := fun i => decide ((r.seatAt i).userId = none)
  match r.type, team with
  | .twoVTwo, some t => (teamSeats t).find? free
  | _, _ => (List.range r.seats.length).find? free

/-- A seat's team, in 2v2 only. -/
def teamOfSeat (r : Room) (i : ℕ) : Option ℕ :=
  if r.type = .twoVTwo then some (if i ∈ teamSeats 0 then 0 else 1) else none

/-- A newcomer sits down; a room that is then full waits for the ready check. -/
def sit (r : Room) (u : User) (i : ℕ) : Room :=
  let r₁ := r.modifySeat i fun _ => { userId := some u, team := r.teamOfSeat i, connected := true }
  if r₁.isFull then r₁.withStatus .ready else r₁

/-- The user's seat is emptied. -/
def emptySeatOf (r : Room) (u : User) : Room :=
  match r.seatOf u with
  | some i => r.modifySeat i fun _ => {}
  | none => r

/-- A user leaves the seat; a room that was about to start waits again. -/
def vacate (r : Room) (u : User) : Room :=
  if r.status = .ready then (r.emptySeatOf u).withStatus .waiting else r.emptySeatOf u

/-- Free every seat whose player abandoned the match. -/
def clearGone (r : Room) : Room := { r with seats := r.seats.map fun s => if s.gone then {} else s }

/-- A fresh waiting room with the same seats. -/
def reset (r : Room) (startTarget : ℕ) : Room :=
  { r with match_ := none, target := startTarget, status := .waiting,
           seats := r.seats.map fun s => { s with ready := false } }

/-- The room with a match: its status and target follow it. -/
def withMatch (r : Room) (m : Match) : Room :=
  { r with match_ := some m, target := m.target,
           status := if m.state = .matchOver then .finished else r.status }

/-- The end of a match. -/
def finish (r : Room) : Room :=
  { r with status := .finished, target := (r.match_.map Match.target).getD r.target }

/-- A player moves to a free seat of the other team. -/
def moveSeat (r : Room) (cur free team : ℕ) : Room :=
  let s := r.seatAt cur
  (r.modifySeat free fun _ => { userId := s.userId, team := some team, connected := s.connected }).modifySeat
    cur fun _ => {}

/-- Two players change seats; each seat keeps its team, and both must ready again. -/
def swapSeats (r : Room) (a b : ℕ) : Room :=
  let s := r.seatAt a
  let t := r.seatAt b
  (r.modifySeat a fun x => { x with userId := t.userId, connected := t.connected, ready := false,
                                    gone := false }).modifySeat
    b fun x => { x with userId := s.userId, connected := s.connected, ready := false, gone := false }

/-- The scores of the room's match. -/
def scoreboard (r : Room) : Option Scoreboard :=
  r.match_.map fun m =>
    { type := r.type, target := m.target, cumulative := m.cumulative,
      teamTotals := if r.type = .twoVTwo then some (teamTotals m.cumulative defaultTeams) else none }

/-- Full rooms are ready for the ready check. -/
def resettle (r : Room) : Room := r.withStatus (if r.isFull then .ready else .waiting)

end Room

/-- The manager's state: rooms, who is where, and the numbers given out. -/
structure RoomManager where
  rooms : ℕ → Option Room := fun _ => none
  userRoom : User → Option ℕ := fun _ => none
  seq : ℕ := 0
  startTarget : ℕ := 21
  instanceTag : ℕ := 0

namespace RoomManager

/-! ## Lookups -/

/-- The room a user is in. -/
def roomOf (rm : RoomManager) (u : User) : Option Room := (rm.userRoom u).bind rm.rooms

/-- A user's seat in a room. -/
def seatOf (rm : RoomManager) (roomId : ℕ) (u : User) : Option ℕ := (rm.rooms roomId).bind fun r => r.seatOf u

/-- Who sits on a seat. -/
def userAtSeat (rm : RoomManager) (roomId seat : ℕ) : Option User :=
  (rm.rooms roomId).bind fun r => (r.seatAt seat).userId

/-- The match id of a room. -/
def matchIdOf (rm : RoomManager) (roomId : ℕ) : Option MatchId := (rm.rooms roomId).bind Room.matchId

/-- Everyone in a room is ready. -/
def allReady (rm : RoomManager) (roomId : ℕ) : Bool := (rm.rooms roomId).any Room.allReady

/-- The match ids of the rooms in a match. -/
def activeMatchIds (rm : RoomManager) : List MatchId :=
  (List.range (rm.seq + 1)).filterMap fun i =>
    (rm.rooms i).bind fun r => if r.status = .inMatch then r.matchId else none

/-- The private room that a share code names; a pairing's room has no code. -/
def roomIdForCode (rm : RoomManager) (code : ℕ) : Option ℕ :=
  if (rm.rooms code).any fun r => r.isPrivate && r.tournament.isNone && r.clubWar.isNone then some code else none

/-- A public room that is open for players. -/
def listed (roomId : ℕ) (r : Room) : Option LobbyRoom :=
  if r.isPublic && (r.status = .waiting || r.status = .ready) then
    some
      { id := roomId, type := r.type, stakeCents := r.stakeCents,
        seatsFilled := (r.seats.filter fun s => s.userId.isSome).length, seatsTotal := r.seats.length,
        status := r.status,
        teams := if r.type = .twoVTwo then some (r.teamCount 0, r.teamCount 1) else none }
  else none

/-- A public room whose match anyone may watch. -/
def spectated (roomId : ℕ) (r : Room) : Option LiveRoom :=
  if r.isPublic && r.status = .inMatch then
    some { roomId, type := r.type, target := r.target,
           players := r.seats.zipIdx.map fun p => (p.2, p.1.userId) }
  else none

/-- The rooms to join and the rooms to watch. -/
def listLobby (rm : RoomManager) : List LobbyRoom × List LiveRoom :=
  let all := List.range (rm.seq + 1)
  (all.filterMap fun i => (rm.rooms i).bind (listed i), all.filterMap fun i => (rm.rooms i).bind (spectated i))

/-! ## Changes of one entry -/

/-- A room is written back. -/
def put (rm : RoomManager) (roomId : ℕ) (r : Room) : RoomManager :=
  { rm with rooms := Function.update rm.rooms roomId (some r) }

/-- A room is gone. -/
def delete (rm : RoomManager) (roomId : ℕ) : RoomManager :=
  { rm with rooms := Function.update rm.rooms roomId none }

/-- A user is in a room. -/
def enter (rm : RoomManager) (u : User) (roomId : ℕ) : RoomManager :=
  { rm with userRoom := Function.update rm.userRoom u (some roomId) }

/-- A user is in no room. -/
def exit (rm : RoomManager) (u : User) : RoomManager :=
  { rm with userRoom := Function.update rm.userRoom u none }

/-- Change a room that exists. -/
def modify (rm : RoomManager) (roomId : ℕ) (f : Room → Room) : RoomManager :=
  match rm.rooms roomId with
  | none => rm
  | some r => rm.put roomId (f r)

/-! ## Room lifecycle -/

/-- What a client sends to create a room. -/
structure CreatePayload where
  type : MatchType
  stakeCents : ℕ
  team : Option ℕ := none
  ranked : Bool := false
  practice : Bool := false
  isPrivate : Bool := false

/-- A new, empty room. -/
def open_ (rm : RoomManager) (r : Room) : RoomManager :=
  { rm.put (rm.seq + 1) r with seq := rm.seq + 1 }

/-- A user takes the seat a room offers, if there is one. -/
def seat (rm : RoomManager) (roomId : ℕ) (r : Room) (u : User) (team : Option ℕ) : Option RoomManager :=
  (r.pickSeat team).map fun i => (rm.put roomId (r.sit u i)).enter u roomId

/-- A room as it is created. -/
def emptyRoom (rm : RoomManager) (p : CreatePayload) : Room :=
  { type := p.type, stakeCents := p.stakeCents, seats := List.replicate (playersForType p.type) {},
    target := rm.startTarget, ranked := p.ranked, practice := p.practice, isPrivate := p.isPrivate }

/-- `createRoom`: a user in no room gets one, and its first seat. -/
def createRoom (rm : RoomManager) (u : User) (p : CreatePayload) : RoomManager × Except ManagerError ℕ :=
  if (rm.userRoom u).isSome then (rm, .error ⟨"already_in_room", "Je tashmë në një dhomë."⟩)
  else
    let room := rm.emptyRoom p
    let roomId := rm.seq + 1
    match (rm.open_ room).seat roomId room u p.team with
    | some rm' => (rm', .ok roomId)
    | none => ((rm.open_ room).delete roomId, .error ⟨"seat_failed", "Nuk u ul dot në dhomë."⟩)

/-- An empty room of a tournament pairing. -/
def createTournamentRoom (rm : RoomManager) (type : MatchType) (players : List User) : RoomManager :=
  rm.open_ { rm.emptyRoom { type, stakeCents := 0, isPrivate := true } with
    tournament := some players }

/-- An empty room of a club war pairing. -/
def createClubWarRoom (rm : RoomManager) (players : List User) : RoomManager :=
  rm.open_ { rm.emptyRoom { type := .oneVOne, stakeCents := 0, isPrivate := true } with
    clubWar := some players }

/-- A user is invited to a room. -/
def markInvited (rm : RoomManager) (roomId : ℕ) (u : User) : RoomManager :=
  rm.modify roomId fun r => { r with invited := u :: r.invited }

/-- Whether a room turns a user away who is in no room. -/
def refuses (r : Room) (u : User) : Option ManagerError :=
  if r.tournament.any fun ps => u ∉ ps then some ⟨"not_your_match", "Kjo ndeshje turneu nuk është e jotja."⟩
  else if r.clubWar.any fun ps => u ∉ ps then some ⟨"not_your_match", "Kjo ndeshje lufte nuk është e jotja."⟩
  else if r.isPrivate && r.tournament.isNone && r.clubWar.isNone && decide (u ∉ r.invited) then
    some ⟨"not_invited", "Kjo dhomë private kërkon ftesë ose kod."⟩
  else if r.status ≠ .waiting then some ⟨"room_unavailable", "Dhoma nuk pranon lojtarë të rinj."⟩
  else none

/-- `joinRoom`: a user in no room takes a seat of a waiting room. -/
def joinRoom (rm : RoomManager) (u : User) (roomId : ℕ) (team : Option ℕ) :
    RoomManager × Option ManagerError :=
  if (rm.userRoom u).isSome then (rm, some ⟨"already_in_room", "Je tashmë në një dhomë."⟩)
  else match rm.rooms roomId with
    | none => (rm, some ⟨"no_room", "Dhoma nuk ekziston."⟩)
    | some r =>
      match refuses r u with
      | some e => (rm, some e)
      | none =>
        match rm.seat roomId r u team with
        | some rm' => (rm', none)
        | none => (rm, some ⟨"room_full", "Dhoma është plot ose ekipi është plot."⟩)

/-- What becomes of a room that a user has left: an empty one is closed. -/
def settleLeft (rm : RoomManager) (roomId : ℕ) (r : Room) : RoomManager :=
  if r.occupied then rm.put roomId r else rm.delete roomId

/-- Remove a user from the room the user is in, whatever its status. -/
def leaveRoom (rm : RoomManager) (u : User) : RoomManager :=
  match rm.userRoom u with
  | none => rm
  | some roomId =>
    match rm.rooms roomId with
    | none => rm.exit u
    | some r => (rm.settleLeft roomId (r.vacate u)).exit u

/-- Whether the room of a user closes when the user leaves it. -/
def closes (rm : RoomManager) (u : User) : Bool :=
  ((rm.userRoom u).bind rm.rooms).any fun r => !(r.vacate u).occupied

/-- `setReady`: a seat says whether it is ready. -/
def setReady (rm : RoomManager) (u : User) (ready : Bool) : RoomManager × Option ManagerError :=
  match rm.userRoom u with
  | none => (rm, some ⟨"no_room", "Nuk je në një dhomë."⟩)
  | some roomId =>
    match rm.rooms roomId with
    | none => (rm, some ⟨"no_room", "Nuk je në një dhomë."⟩)
    | some r =>
      match r.seatOf u with
      | none => (rm, some ⟨"no_seat", "Nuk ke vend në dhomë."⟩)
      | some i =>
        if r.status = .inMatch then (rm, some ⟨"in_match", "Ndeshja ka filluar tashmë."⟩)
        else (rm.put roomId (r.modifySeat i fun s => { s with ready }), none)

/-- Un-ready, or ready, every player of a room. -/
def setReadyAll (rm : RoomManager) (roomId : ℕ) (ready : Bool) : RoomManager :=
  match rm.rooms roomId with
  | none => rm
  | some r => (r.seats.filterMap InternalSeat.userId).foldl (fun rm u => (rm.setReady u ready).1) rm

/-- A 2v2 player changes team before the match. -/
def switchTeam (rm : RoomManager) (u : User) (team : ℕ) : RoomManager × Option ManagerError :=
  match rm.userRoom u with
  | none => (rm, some ⟨"no_room", "Nuk je në një dhomë."⟩)
  | some roomId =>
    match rm.rooms roomId with
    | none => (rm, some ⟨"no_room", "Nuk je në një dhomë."⟩)
    | some r =>
      if r.type ≠ .twoVTwo then (rm, some ⟨"not_2v2", "Skuadrat zgjidhen vetëm në 2v2."⟩)
      else if r.status = .inMatch ∨ r.match_.isSome then (rm, some ⟨"in_match", "Ndeshja ka filluar tashmë."⟩)
      else match r.seatOf u with
        | none => (rm, some ⟨"no_seat", "Nuk ke vend në dhomë."⟩)
        | some cur =>
          if (r.seatAt cur).team = some team then (rm, none)
          else match (teamSeats team).find? fun i => (r.seatAt i).userId = none with
            | some free => (rm.put roomId (r.moveSeat cur free team).resettle, none)
            | none =>
              match (teamSeats team).find? fun i => (r.seatAt i).userId.isSome && (r.seatAt i).userId ≠ some u with
              | none => (rm, some ⟨"team_full", "Skuadra është plot."⟩)
              | some other => (rm.put roomId (r.swapSeats cur other).resettle, none)

/-- Begin the match: deal its first game and enter live play. -/
def startMatch (rm : RoomManager) (roomId : ℕ) (deal : ℕ → List (List Card)) :
    Except String (RoomManager × Option ManagerError) :=
  match rm.rooms roomId with
  | none => .ok (rm, some ⟨"no_room", "Dhoma nuk ekziston."⟩)
  | some r =>
    if r.status = .inMatch then .ok (rm, some ⟨"in_match", "Ndeshja ka filluar tashmë."⟩)
    else if !r.isFull then .ok (rm, some ⟨"not_full", "Dhoma nuk është plot."⟩)
    else do
      let m ← Match.create { type := r.type, deal, startTarget := r.target }
      pure (rm.put roomId ((r.withStatus .inMatch).withMatch m), none)

/-! ## Actions forwarded to the match -/

/-- The refusal of a move outside a match. -/
def notInMatch : RoomActionResult :=
  { result := .fail "Nuk je në një ndeshje aktive." "not_in_match" }

/-- The refusal of a move by someone with no seat. -/
def noSeat : RoomActionResult := { result := .fail "Nuk ke vend në dhomë." "no_seat" }

/-- `play`, `pass` and `switchGive`: the call of the user's seat. -/
def forward (rm : RoomManager) (u : User) (call : ℕ → Match.Call) : RoomManager × RoomActionResult :=
  match rm.userRoom u with
  | none => (rm, notInMatch)
  | some roomId =>
    match rm.rooms roomId with
    | none => (rm, notInMatch)
    | some r =>
      match r.match_ with
      | none => (rm, notInMatch)
      | some m =>
        if r.status ≠ .inMatch then (rm, notInMatch)
        else match r.seatOf u with
          | none => (rm, noSeat)
          | some i =>
            let a := m.answer (call i)
            (rm.put roomId (r.withMatch a.2), { result := a.1, roomId := some roomId })

/-- The seat of a player who abandoned the match. -/
def abandoned (s : InternalSeat) : InternalSeat := { s with gone := true, connected := false, ready := false }

/-- A player abandons the live match: the seat keeps its user until the match ends,
and the user is free to sit down elsewhere. -/
def forfeitSeat (rm : RoomManager) (u : User) : RoomManager × RoomActionResult :=
  match rm.userRoom u with
  | none => (rm, notInMatch)
  | some roomId =>
    match rm.rooms roomId with
    | none => (rm, notInMatch)
    | some r =>
      match r.match_ with
      | none => (rm, notInMatch)
      | some m =>
        if r.status ≠ .inMatch then (rm, notInMatch)
        else match r.seatOf u with
          | none => (rm, noSeat)
          | some i =>
            let a := m.answer (.forfeit i)
            if a.1.ok then
              ((rm.put roomId ((r.modifySeat i abandoned).withMatch a.2)).exit u,
                { result := a.1, roomId := some roomId })
            else (rm.put roomId (r.withMatch a.2), { result := a.1, roomId := some roomId })

/-- Reset a finished room for a rematch. -/
def resetForRematch (rm : RoomManager) (roomId : ℕ) : RoomManager × Bool :=
  match rm.rooms roomId with
  | none => (rm, false)
  | some r =>
    if r.status ≠ .finished then (rm, false)
    else if r.tournament.isSome then (rm, false)
    else (rm.put roomId (r.reset rm.startTarget), true)

/-- The seats of those gone are freed. -/
def clearGoneSeats (rm : RoomManager) (roomId : ℕ) : RoomManager := rm.modify roomId Room.clearGone

/-- A seat's connection is noted. -/
def setConnected (rm : RoomManager) (u : User) (connected : Bool) : RoomManager :=
  match rm.userRoom u with
  | none => rm
  | some roomId => rm.modify roomId fun r =>
      match r.seatOf u with
      | none => r
      | some i => r.modifySeat i fun s => { s with connected }

/-- A fresh id for the next match of the room. -/
def assignMatchId (rm : RoomManager) (roomId : ℕ) : RoomManager × Option MatchId :=
  match rm.rooms roomId with
  | none => (rm, none)
  | some r =>
    let id : MatchId := { tag := rm.instanceTag, roomId, seq := r.matchSeq + 1 }
    (rm.put roomId { r with matchSeq := r.matchSeq + 1, matchId := some id }, some id)

/-- Remove a room, and its players' membership with it. -/
def deleteRoom (rm : RoomManager) (roomId : ℕ) : RoomManager :=
  match rm.rooms roomId with
  | none => rm
  | some r => ((r.seats.filterMap InternalSeat.userId).foldl exit rm).delete roomId

/-- The room's match is over. -/
def markFinished (rm : RoomManager) (roomId : ℕ) : RoomManager := rm.modify roomId Room.finish

/-- Flag a free room as practice. -/
def markPractice (rm : RoomManager) (roomId : ℕ) : RoomManager :=
  rm.modify roomId fun r => if r.stakeCents = 0 then { r with practice := true } else r

end RoomManager

end Murlan
