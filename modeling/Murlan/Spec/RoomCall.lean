import Murlan.Base.Run
import Murlan.Spec.Room

/-!
# The rooms as a state machine

The calls that change the rooms of `packages/server/src/room/roomManager.ts`, as one
type, and what each of them makes of the rooms.
-/

namespace Murlan

/-- A call on the rooms. -/
inductive RoomCall where
  | createRoom (u : User) (p : RoomManager.CreatePayload)
  | createTournamentRoom (type : MatchType) (players : List User)
  | createClubWarRoom (players : List User)
  | markInvited (roomId : ℕ) (u : User)
  | joinRoom (u : User) (roomId : ℕ) (team : Option ℕ)
  | leaveRoom (u : User)
  | setReady (u : User) (ready : Bool)
  | switchTeam (u : User) (team : ℕ)
  | assignMatchId (roomId : ℕ)
  | startMatch (roomId : ℕ) (deal : ℕ → List (List Card))
  | forward (u : User) (call : ℕ → Match.Call)
  | forfeitSeat (u : User)
  | markFinished (roomId : ℕ)
  | clearGoneSeats (roomId : ℕ)
  | resetForRematch (roomId : ℕ)
  | setConnected (u : User) (connected : Bool)
  | markPractice (roomId : ℕ)
  | deleteRoom (roomId : ℕ)

namespace RoomManager

/-- A start that throws leaves the rooms as they are. -/
def perform (rm : RoomManager) : RoomCall → RoomManager
  | .createRoom u p => (rm.createRoom u p).1
  | .createTournamentRoom type players => rm.createTournamentRoom type players
  | .createClubWarRoom players => rm.createClubWarRoom players
  | .markInvited i u => rm.markInvited i u
  | .joinRoom u i team => (rm.joinRoom u i team).1
  | .leaveRoom u => rm.leaveRoom u
  | .setReady u b => (rm.setReady u b).1
  | .switchTeam u team => (rm.switchTeam u team).1
  | .assignMatchId i => (rm.assignMatchId i).1
  | .startMatch i deal => ((rm.startMatch i deal).toOption.map Prod.fst).getD rm
  | .forward u call => (rm.forward u call).1
  | .forfeitSeat u => (rm.forfeitSeat u).1
  | .markFinished i => rm.markFinished i
  | .clearGoneSeats i => rm.clearGoneSeats i
  | .resetForRematch i => (rm.resetForRematch i).1
  | .setConnected u b => rm.setConnected u b
  | .markPractice i => rm.markPractice i
  | .deleteRoom i => rm.deleteRoom i

end RoomManager

end Murlan
