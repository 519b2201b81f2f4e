import Murlan.Proof.Rooms
import Murlan.Spec.RoomCall

/-!
# What a handler asks of the rooms

A handler changes the rooms by a list of calls. `Via k` says that every call of the
list is of the kind `k`, made the way the handlers make it.

* `RoomCall.rests`, `RoomCall.calm`, `RoomCall.departs`, `RoomCall.keeps`: calls that start
  no match, that reach no match, that moreover take only leavers from their seats, or
  nobody.
* `Proper`: what the handlers see to when they make a call.
* `Via.rests`: without a start, rooms rest.
-/

namespace Murlan

/-- No match starts and none gets an id. -/
def RoomCall.rests : RoomCall → Bool
  | .assignMatchId _ | .startMatch _ _ => false
  | _ => true

/-- No match is reached. -/
def RoomCall.calm : RoomCall → Bool
  | .assignMatchId _ | .startMatch _ _ | .forward _ _ | .forfeitSeat _ => false
  | _ => true

/-- No match is reached or ended, and only who leaves loses a seat. -/
def RoomCall.departs : RoomCall → Bool
  | .assignMatchId _ | .startMatch _ _ | .forward _ _ | .forfeitSeat _ => false
  | .clearGoneSeats _ | .markFinished _ => false
  | _ => true

/-- No match is reached or ended, and nobody loses a seat. -/
def RoomCall.keeps : RoomCall → Bool
  | .assignMatchId _ | .startMatch _ _ | .forward _ _ | .forfeitSeat _ => false
  | .leaveRoom _ | .deleteRoom _ | .clearGoneSeats _ | .markFinished _ => false
  | _ => true

theorem RoomCall.rests_of_calm {c : RoomCall} (h : c.calm = true) : c.rests = true := by
  cases c <;> first | rfl | cases h

theorem RoomCall.calm_of_departs {c : RoomCall} (h : c.departs = true) : c.calm = true := by
  cases c <;> first | rfl | cases h

theorem RoomCall.departs_of_keeps {c : RoomCall} (h : c.keeps = true) : c.departs = true := by
  cases c <;> first | rfl | cases h

theorem RoomCall.rests_of_keeps {c : RoomCall} (h : c.keeps = true) : c.rests = true :=
  rests_of_calm (calm_of_departs (departs_of_keeps h))

namespace RoomManager

variable {rm rm' rm'' : RoomManager} {c : RoomCall} {i : ℕ} {r : Room} {k k' : RoomCall → Bool}

/-- What the handlers see to: only humans open a room or abandon a match, a bot joins
its own room, a room that is reset has its full roster present, only a match that has
begun is finished, and only a waiting room becomes a practice room or is discarded. -/
def Proper (rm : RoomManager) : RoomCall → Prop
  | .createRoom u _ | .forfeitSeat u => isBot (some u) = false
  | .joinRoom u i _ => ∀ j l, u = .bot j l → i = j
  | .resetForRematch i => ∀ r, rm.rooms i = some r → r.status = .finished → Gateway.rosterPresent r = true
  | .markFinished i => ∀ r, rm.rooms i = some r → r.status = .inMatch ∨ r.status = .finished
  | .markPractice i | .deleteRoom i => ∀ r, rm.rooms i = some r → r.status = .waiting
  | _ => True

/-- Calls of one kind lead from `rm` to `rm'`. -/
abbrev Via (k : RoomCall → Bool) (rm rm' : RoomManager) : Prop :=
  Reaches perform (fun rm c => rm.Proper c ∧ k c = true) rm rm'

namespace Via

theorem refl (rm : RoomManager) : Via k rm rm := Reaches.refl rm

theorem call (rm : RoomManager) (c : RoomCall) (hp : rm.Proper c) (hk : k c = true) : Via k rm (rm.perform c) :=
  Reaches.single ⟨hp, hk⟩

theorem of_kind (hk : ∀ c, k c = true → k' c = true) (h : Via k rm rm') : Via k' rm rm' :=
  Reaches.mono (fun _ c hc => ⟨hc.1, hk c hc.2⟩) h

theorem departs (h : Via RoomCall.keeps rm rm') : Via RoomCall.departs rm rm' :=
  h.of_kind fun _ => RoomCall.departs_of_keeps

end Via

/-! ## The calls of the handlers -/

theorem createRoom_via (rm : RoomManager) (n : ℕ) (p : CreatePayload) :
    Via RoomCall.keeps rm (rm.createRoom (.human n) p).1 :=
  Via.call rm (.createRoom (.human n) p) rfl rfl

/-- A human joins a room. -/
theorem joinRoom_via (rm : RoomManager) (n i : ℕ) (team : Option ℕ) :
    Via RoomCall.keeps rm (rm.joinRoom (.human n) i team).1 :=
  Via.call rm (.joinRoom (.human n) i team) (by intro j l h; cases h) rfl

/-- A bot joins its room. -/
theorem joinBot_via (rm : RoomManager) (i l : ℕ) : Via RoomCall.keeps rm (rm.joinRoom (.bot i l) i none).1 :=
  Via.call rm (.joinRoom (.bot i l) i none) (by intro j l h; cases h; rfl) rfl

theorem setReady_via (rm : RoomManager) (u : User) (b : Bool) : Via RoomCall.keeps rm (rm.setReady u b).1 :=
  Via.call rm (.setReady u b) trivial rfl

theorem setConnected_via (rm : RoomManager) (u : User) (b : Bool) : Via RoomCall.keeps rm (rm.setConnected u b) :=
  Via.call rm (.setConnected u b) trivial rfl

theorem switchTeam_via (rm : RoomManager) (u : User) (team : ℕ) : Via RoomCall.keeps rm (rm.switchTeam u team).1 :=
  Via.call rm (.switchTeam u team) trivial rfl

theorem markInvited_via (rm : RoomManager) (i : ℕ) (u : User) : Via RoomCall.keeps rm (rm.markInvited i u) :=
  Via.call rm (.markInvited i u) trivial rfl

/-- With the full roster present a room is reset. -/
theorem resetForRematch_via (h : ∀ r, rm.rooms i = some r → Gateway.rosterPresent r = true) :
    Via RoomCall.keeps rm (rm.resetForRematch i).1 :=
  Via.call rm (.resetForRematch i) (fun r hr _ => h r hr) rfl

theorem leaveRoom_via (rm : RoomManager) (u : User) : Via RoomCall.departs rm (rm.leaveRoom u) :=
  Via.call rm (.leaveRoom u) trivial rfl

theorem leaves_via (us : List User) (rm : RoomManager) : Via RoomCall.departs rm (us.foldl leaveRoom rm) :=
  Reaches.foldl leaveRoom_via us rm

/-- The loop over the users of a room. -/
theorem setReadyAll_via (rm : RoomManager) (i : ℕ) (b : Bool) : Via RoomCall.keeps rm (rm.setReadyAll i b) := by
  unfold setReadyAll
  split
  · exact .refl rm
  · exact Reaches.foldl (fun rm u => rm.setReady_via u b) _ rm

/-! ## Rooms rest -/

/-- A call that rests leaves the rooms at rest. -/
theorem perform_rests (hp : rm.Proper c) (hk : c.rests = true) : Rests rm (rm.perform c) := by
  cases c with
  | createRoom u p => exact rm.createRoom_rests u p
  | createTournamentRoom type players => exact rm.createTournamentRoom_rests type players
  | createClubWarRoom players => exact rm.createClubWarRoom_rests players
  | markInvited i u => exact rm.markInvited_rests i u
  | joinRoom u i team => exact rm.joinRoom_rests u i team
  | leaveRoom u => exact rm.leaveRoom_rests u
  | setReady u b => exact rm.setReady_rests u b
  | switchTeam u team => exact rm.switchTeam_rests u team
  | assignMatchId i => cases hk
  | startMatch i deal => cases hk
  | forward u call => exact rm.forward_rests u call
  | forfeitSeat u => exact rm.forfeitSeat_rests u
  | markFinished i => exact rm.markFinished_rests i
  | clearGoneSeats i => exact rm.clearGoneSeats_rests i
  | resetForRematch i => exact rm.resetForRematch_rests i
  | setConnected u b => exact rm.setConnected_rests u b
  | markPractice i => exact markPractice_rests fun r hr => by rw [hp r hr]; simp
  | deleteRoom i => exact rm.deleteRoom_rests i

/-- **Calls that start no match** leave the rooms at rest. -/
theorem Via.rests (h : Via k rm rm') (hk : ∀ c, k c = true → c.rests = true) : Rests rm rm' :=
  h.inv (P := Rests rm) (fun _ c hr hc => hr.trans (perform_rests hc.1 (hk c hc.2))) (.refl rm)

theorem Via.atRest (h : Via RoomCall.rests rm rm') : Rests rm rm' := h.rests fun _ => id

end RoomManager

end Murlan
