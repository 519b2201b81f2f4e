import Murlan.Proof.Membership
import Murlan.Proof.Step

/-!
# A room that nobody sits in

An ordinary room, one that is no pairing of a tournament or of a club war, is closed when
`leaveRoom` sees its last seat empty. The seats of those who have abandoned a match stay
occupied until `clearGoneSeats`, which frees them without that check: where everyone else
has left before the end of the match is settled, an empty room stays behind, in the lobby
and under its code.

* `Room.Retains`: a change of a room that does not empty it.
* `perform_peopled`: the calls that keep every ordinary room occupied.
* `Retained`: the same of all rooms; `perform_retained`: every call but `clearGoneSeats`.
* `clearGoneSeats_peopled`: what the clean-up does, **exactly**.
-/

namespace Murlan

namespace Room

variable {r r' : Room} {u : User} {k : ℕ}

/-- A room that is no pairing of a tournament or of a club war. -/
def Ordinary (r : Room) : Prop := r.tournament = none ∧ r.clubWar = none

/-- The room has the seats that its type asks for. -/
def Sized (r : Room) : Prop := r.seats.length = playersForType r.type

/-- An ordinary room is not emptied. -/
structure Retains (r r' : Room) : Prop where
  size : r.Sized → r'.Sized
  ordinary : r'.Ordinary → r.Ordinary
  occupied : r'.Ordinary → r.occupied = true → r'.occupied = true

theorem occupied_of_user (h : (r.seatAt k).userId = some u) : r.occupied = true :=
  RoomManager.occupied_iff.2 ⟨u, k, h⟩

/-- Whoever sat in the room, somebody sits in it afterwards. -/
theorem Retains.of_users (hty : r'.type = r.type) (hlen : r'.seats.length = r.seats.length)
    (ht : r'.tournament = r.tournament) (hc : r'.clubWar = r.clubWar)
    (hu : ∀ k u, (r.seatAt k).userId = some u → ∃ l v, (r'.seatAt l).userId = some v) : Retains r r' := by
  refine ⟨fun h => ?_, fun h => ⟨ht ▸ h.1, hc ▸ h.2⟩, fun _ h => ?_⟩
  · unfold Sized at h ⊢
    rw [hlen, hty, h]
  · obtain ⟨u, k, hk⟩ := RoomManager.occupied_iff.1 h
    obtain ⟨l, v, hl⟩ := hu k u hk
    exact occupied_of_user hl

/-- The seats are the same. -/
theorem Retains.of_seats (hs : r'.seats = r.seats) (hty : r'.type = r.type) (ht : r'.tournament = r.tournament)
    (hc : r'.clubWar = r.clubWar) : Retains r r' := by
  refine .of_users hty (by rw [hs]) ht hc fun k u hk => ⟨k, u, ?_⟩
  unfold seatAt at hk ⊢
  rw [hs]
  exact hk

/-- One seat changes, and who sits there is followed by somebody. -/
theorem modifySeat_retains (r : Room) (k : ℕ) {f : InternalSeat → InternalSeat}
    (hf : (r.seatAt k).userId.isSome = true → (f (r.seatAt k)).userId.isSome = true) : Retains r (r.modifySeat k f) := by
  refine .of_users rfl (modifySeat_length ..) rfl rfl fun l u hl => ?_
  have hat := seatAt_modifySeat_of_lt (lt_of_user hl)
  by_cases hkl : k = l
  · subst hkl
    obtain ⟨v, hv⟩ := Option.isSome_iff_exists.1 (hf (by rw [hl]; rfl))
    refine ⟨k, v, ?_⟩
    rw [hat, if_pos rfl]
    exact hv
  · refine ⟨l, u, ?_⟩
    rw [seatAt_modifySeat, if_neg fun h => hkl h.1]
    exact hl

/-- Who sits down unseats nobody. -/
theorem sit_retains (r : Room) (u : User) (k : ℕ) : Retains r (r.sit u k) := by
  have hmod := r.modifySeat_retains k (f := fun _ => { userId := some u, team := r.teamOfSeat k, connected := true })
    fun _ => rfl
  unfold sit
  simp only
  split
  · exact ⟨hmod.size, hmod.ordinary, hmod.occupied⟩
  · exact hmod

theorem sit_occupied (u : User) (hk : k < r.seats.length) : (r.sit u k).occupied = true := by
  have hat : ((r.modifySeat k fun _ => { userId := some u, team := r.teamOfSeat k, connected := true }).seatAt k).userId =
      some u := by
    rw [seatAt_modifySeat_of_lt hk, if_pos rfl]
  unfold sit
  simp only
  split <;> exact occupied_of_user hat

/-- A player who moves to a free seat still sits in the room. -/
theorem moveSeat_retains {cur free team : ℕ} (hcur : (r.seatAt cur).userId.isSome = true)
    (hfree : (r.seatAt free).userId = none) (hin : free < r.seats.length) : Retains r (r.moveSeat cur free team) := by
  have hlen : (r.moveSeat cur free team).seats.length = r.seats.length := by
    unfold moveSeat
    simp only [modifySeat_length]
  refine .of_users rfl hlen rfl rfl fun _ _ _ => ?_
  obtain ⟨u, hu⟩ := Option.isSome_iff_exists.1 hcur
  have hne : ¬ (cur = free) := by
    rintro rfl
    rw [hu] at hfree
    cases hfree
  refine ⟨free, u, ?_⟩
  unfold moveSeat
  simp only
  rw [seatAt_modifySeat, if_neg fun h => hne h.1, seatAt_modifySeat_of_lt hin, if_pos rfl]
  exact hu

/-- Who swaps unseats nobody. -/
theorem swapSeats_retains {a b : ℕ} (ha : (r.seatAt a).userId.isSome = true) (hb : b < r.seats.length) :
    Retains r (r.swapSeats a b) := by
  have hlen : (r.swapSeats a b).seats.length = r.seats.length := by
    unfold swapSeats
    simp only [modifySeat_length]
  refine .of_users rfl hlen rfl rfl fun _ _ _ => ?_
  obtain ⟨u, hu⟩ := Option.isSome_iff_exists.1 ha
  refine ⟨b, u, ?_⟩
  unfold swapSeats
  simp only
  rw [seatAt_modifySeat_of_lt (by rw [modifySeat_length]; exact hb), if_pos rfl]
  exact hu

theorem Retains.refl (r : Room) : Retains r r := ⟨id, id, fun _ => id⟩

theorem Retains.trans {r'' : Room} (h : Retains r r') (h' : Retains r' r'') : Retains r r'' where
  size := fun hs => h'.size (h.size hs)
  ordinary := fun ho => h.ordinary (h'.ordinary ho)
  occupied := fun ho hocc => h'.occupied ho (h.occupied (h'.ordinary ho) hocc)

/-- The clean-up of a pairing's room. -/
theorem clearGone_retains (ho : ¬ r.Ordinary) : Retains r r.clearGone := by
  refine ⟨fun hs => ?_, id, fun h => absurd h ho⟩
  show (r.seats.map _).length = _
  rw [List.length_map]
  exact hs

/-- Who has not gone keeps the room occupied, and nobody else does. -/
theorem clearGone_occupied : r.clearGone.occupied = true ↔ ∃ k u, r.Carries k u := by
  have hat : ∀ l, r.clearGone.seatAt l = if (r.seatAt l).gone then {} else r.seatAt l := by
    intro l
    unfold Room.clearGone seatAt
    simp only [List.getD_eq_getElem?_getD, List.getElem?_map]
    cases r.seats[l]? with
    | none => rfl
    | some s => rfl
  rw [RoomManager.occupied_iff]
  constructor
  · rintro ⟨u, k, hk⟩
    rw [hat] at hk
    split at hk
    · cases hk
    · rename_i hg
      exact ⟨k, u, hk, by simpa using hg⟩
  · rintro ⟨k, u, hk, hg⟩
    refine ⟨u, k, ?_⟩
    rw [hat, hg]
    exact hk

end Room

namespace RoomManager

variable {rm rm' rm'' : RoomManager} {r r' : Room} {i : ℕ}

/-! ## The calls on the rooms -/

/-- Every room is one that was there and is not emptied, or a new one. -/
def Retained (rm rm' : RoomManager) : Prop :=
  ∀ i r', rm'.rooms i = some r' →
    (∃ r, rm.rooms i = some r ∧ Room.Retains r r') ∨ r'.Sized ∧ (r'.Ordinary → r'.occupied = true)

/-- Every room has the seats that its type asks for. -/
def Sized (rm : RoomManager) : Prop := ∀ i r, rm.rooms i = some r → r.Sized

/-- Somebody sits in every ordinary room. -/
def Peopled (rm : RoomManager) : Prop := ∀ i r, rm.rooms i = some r → r.Ordinary → r.occupied = true

namespace Retained

theorem refl (rm : RoomManager) : Retained rm rm := fun _ r hr => Or.inl ⟨r, hr, .refl r⟩

theorem trans (h : Retained rm rm') (h' : Retained rm' rm'') : Retained rm rm'' := by
  intro i r'' hr''
  rcases h' i r'' hr'' with ⟨r', hr', hk'⟩ | hnew
  · rcases h i r' hr' with ⟨r, hr, hk⟩ | ⟨hs, ho⟩
    · exact Or.inl ⟨r, hr, hk.trans hk'⟩
    · exact Or.inr ⟨hk'.size hs, fun hord => hk'.occupied hord (ho (hk'.ordinary hord))⟩
  · exact Or.inr hnew

theorem sized (h : Retained rm rm') (hs : rm.Sized) : rm'.Sized := by
  intro i r' hr'
  rcases h i r' hr' with ⟨r, hr, hk⟩ | ⟨hnew, -⟩
  · exact hk.size (hs i r hr)
  · exact hnew

theorem peopled (h : Retained rm rm') (hp : rm.Peopled) : rm'.Peopled := by
  intro i r' hr' hord
  rcases h i r' hr' with ⟨r, hr, hk⟩ | ⟨-, hnew⟩
  · exact hk.occupied hord (hp i r hr (hk.ordinary hord))
  · exact hnew hord

/-- One room changes, and it is not emptied. -/
theorem change (i : ℕ) (ho : ∀ j, j ≠ i → rm'.rooms j = rm.rooms j)
    (hi : ∀ r', rm'.rooms i = some r' →
      (∃ r, rm.rooms i = some r ∧ Room.Retains r r') ∨ r'.Sized ∧ (r'.Ordinary → r'.occupied = true)) :
    Retained rm rm' := by
  intro j r' hr'
  by_cases hj : j = i
  · subst hj
    exact hi r' hr'
  · rw [ho j hj] at hr'
    exact Or.inl ⟨r', hr', .refl r'⟩

/-- Membership is no part of it. -/
theorem of_rooms (h : Retained rm rm') (hr : rm''.rooms = rm'.rooms) : Retained rm rm'' := by
  intro i r' hr'
  rw [hr] at hr'
  exact h i r' hr'

theorem put (hr : rm.rooms i = some r) (hk : Room.Retains r r') : Retained rm (rm.put i r') := by
  refine change i (fun j hj => Function.update_of_ne hj ..) fun x hx => ?_
  have hself : (rm.put i r').rooms i = some r' := Function.update_self ..
  rw [hself] at hx
  cases hx
  exact Or.inl ⟨r, hr, hk⟩

theorem modify (rm : RoomManager) (i : ℕ) {f : Room → Room}
    (hf : ∀ r, rm.rooms i = some r → Room.Retains r (f r)) : Retained rm (rm.modify i f) := by
  unfold RoomManager.modify
  split
  · exact refl rm
  · rename_i r hr
    exact put hr (hf r hr)

theorem delete (rm : RoomManager) (i : ℕ) : Retained rm (rm.delete i) := by
  refine change i (fun j hj => Function.update_of_ne hj ..) fun x hx => ?_
  have hself : (rm.delete i).rooms i = none := Function.update_self ..
  rw [hself] at hx
  cases hx

/-- A pairing's room is opened empty. -/
theorem open_ (rm : RoomManager) (hs : r.Sized) (ho : ¬ r.Ordinary) : Retained rm (rm.open_ r) := by
  refine change (rm.seq + 1) (fun j hj => Function.update_of_ne hj ..) fun x hx => ?_
  have hself : (rm.open_ r).rooms (rm.seq + 1) = some r := Function.update_self ..
  rw [hself] at hx
  cases hx
  exact Or.inr ⟨hs, fun hord => absurd hord ho⟩

end Retained

/-- Whoever opens a room sits in it, or it is not opened. -/
theorem createRoom_retained (rm : RoomManager) (u : User) (p : CreatePayload) : Retained rm (rm.createRoom u p).1 := by
  unfold createRoom
  split
  · exact .refl rm
  have hopen : ∀ j, j ≠ rm.seq + 1 → (rm.open_ (rm.emptyRoom p)).rooms j = rm.rooms j :=
    fun j hj => Function.update_of_ne hj ..
  simp only
  split
  · rename_i rm' hs
    unfold seat at hs
    obtain ⟨k, hk, rfl⟩ := Option.map_eq_some_iff.1 hs
    have hin := (pickSeat_free (emptyRoom_size rm p) hk).1
    refine .change (rm.seq + 1) (fun j hj => (Function.update_of_ne hj ..).trans (hopen j hj)) fun x hx => ?_
    have hself : (((rm.open_ (rm.emptyRoom p)).put (rm.seq + 1) ((rm.emptyRoom p).sit u k)).enter u (rm.seq + 1)).rooms
        (rm.seq + 1) = some ((rm.emptyRoom p).sit u k) := Function.update_self ..
    rw [hself] at hx
    cases hx
    exact Or.inr ⟨(Room.sit_retains _ u k).size (emptyRoom_size rm p), fun _ => Room.sit_occupied u hin⟩
  · refine .change (rm.seq + 1) (fun j hj => (Function.update_of_ne hj ..).trans (hopen j hj)) fun x hx => ?_
    have hself : ((rm.open_ (rm.emptyRoom p)).delete (rm.seq + 1)).rooms (rm.seq + 1) = none := Function.update_self ..
    rw [hself] at hx
    cases hx

theorem joinRoom_retained (rm : RoomManager) (u : User) (i : ℕ) (team : Option ℕ) :
    Retained rm (rm.joinRoom u i team).1 := by
  rcases rm.joinRoom_cases u i team with ⟨e, he⟩ | ⟨r, k, -, hr, -, -, he⟩
  · rw [he]
    exact .refl rm
  · rw [he]
    exact (Retained.put hr (r.sit_retains u k)).of_rooms rfl

/-- A room keeps its size. -/
theorem vacate_sized (u : User) (h : r.Sized) : (r.vacate u).Sized := by
  have hempty : (r.emptySeatOf u).Sized := by
    unfold Room.emptySeatOf
    split
    · unfold Room.Sized
      rw [Room.modifySeat_length]
      exact h
    · exact h
  unfold Room.vacate
  split <;> exact hempty

theorem vacate_pairing (r : Room) (u : User) :
    (r.vacate u).tournament = r.tournament ∧ (r.vacate u).clubWar = r.clubWar := by
  unfold Room.vacate Room.emptySeatOf
  split <;> split <;> exact ⟨rfl, rfl⟩

/-- `leaveRoom` closes the room that it empties. -/
theorem leaveRoom_retained (rm : RoomManager) (u : User) : Retained rm (rm.leaveRoom u) := by
  unfold leaveRoom
  split
  · exact .refl rm
  split
  · exact (Retained.refl rm).of_rooms rfl
  rename_i i _ _ r hr
  have hleft : Retained rm (rm.settleLeft i (r.vacate u)) := by
    unfold settleLeft
    split
    · rename_i hocc
      have hpair := vacate_pairing r u
      refine .put hr ⟨vacate_sized u, fun ho => ?_, fun _ _ => hocc⟩
      unfold Room.Ordinary at ho ⊢
      rw [hpair.1, hpair.2] at ho
      exact ho
    · exact .delete rm i
  exact hleft.of_rooms rfl

theorem setReady_retained (rm : RoomManager) (u : User) (b : Bool) : Retained rm (rm.setReady u b).1 := by
  rcases rm.setReady_cases u b with ⟨e, he⟩ | ⟨i, r, k, -, hr, -, -, he⟩
  · rw [he]
    exact .refl rm
  · rw [he]
    exact .put hr (r.modifySeat_retains k id)

/-- Whoever changes team, or places, stays in the room. -/
theorem switchTeam_retained (hs : rm.Sized) (u : User) (team : ℕ) : Retained rm (rm.switchTeam u team).1 := by
  have hresettle : ∀ {r r' : Room}, Room.Retains r r' → Room.Retains r r'.resettle :=
    fun h => ⟨h.size, h.ordinary, h.occupied⟩
  unfold switchTeam
  split
  · exact .refl rm
  split
  · exact .refl rm
  rename_i i _ _ r hr
  split
  · exact .refl rm
  rename_i ht
  rw [not_not] at ht
  have hlen : r.seats.length = 4 := by
    have hsize := hs i r hr
    unfold Room.Sized at hsize
    rw [hsize, ht]
    rfl
  split
  · exact .refl rm
  split
  · exact .refl rm
  rename_i cur hcur
  have hseat := (Room.seatOf_some hcur).1
  have hsome : (r.seatAt cur).userId.isSome = true := by rw [hseat]; rfl
  split
  · exact .refl rm
  split
  · rename_i free hfree
    have hnone : (r.seatAt free).userId = none := by
      have hp := List.find?_some hfree
      simpa using hp
    have hlt := teamSeats_lt (List.mem_of_find?_eq_some hfree)
    exact .put hr (hresettle (Room.moveSeat_retains hsome hnone (by omega)))
  · split
    · exact .refl rm
    · rename_i other hother
      have hlt := teamSeats_lt (List.mem_of_find?_eq_some hother)
      exact .put hr (hresettle (Room.swapSeats_retains hsome (by omega)))

theorem startMatch_retained (rm : RoomManager) (i : ℕ) (deal : ℕ → List (List Card)) :
    Retained rm (rm.perform (.startMatch i deal)) := by
  rcases rm.perform_startMatch i deal with he | ⟨r, m, hr, -, -, -, he⟩
  · rw [he]
    exact .refl rm
  · rw [he]
    exact .put hr (.of_seats rfl rfl rfl rfl)

theorem forward_retained (rm : RoomManager) (u : User) (call : ℕ → Match.Call) :
    Retained rm (rm.forward u call).1 := by
  rcases rm.forward_cases u call with ⟨h, -⟩ | ⟨i, r, m, k, -, hr, -, -, -, h⟩
  · rw [h]
    exact .refl rm
  · rw [h]
    exact .put hr (.of_seats rfl rfl rfl rfl)

/-- Who abandons a match keeps the seat. -/
theorem forfeitSeat_retained (rm : RoomManager) (u : User) : Retained rm (rm.forfeitSeat u).1 := by
  rcases rm.forfeitSeat_cases u with ⟨h, -⟩ | ⟨i, r, m, k, -, hr, -, -, -, -, ⟨-, h⟩ | ⟨-, h⟩⟩
  · rw [h]
    exact .refl rm
  · rw [h]
    have hseat : Room.Retains r (r.modifySeat k abandoned) := r.modifySeat_retains k id
    have hmatch : Room.Retains (r.modifySeat k abandoned) ((r.modifySeat k abandoned).withMatch (m.answer (.forfeit k)).2) :=
      .of_seats rfl rfl rfl rfl
    exact (Retained.put hr (hseat.trans hmatch)).of_rooms rfl
  · rw [h]
    exact .put hr (.of_seats rfl rfl rfl rfl)

theorem resetForRematch_retained (rm : RoomManager) (i : ℕ) : Retained rm (rm.resetForRematch i).1 := by
  unfold resetForRematch
  split
  · exact .refl rm
  rename_i r hr
  split
  · exact .refl rm
  split
  · exact .refl rm
  · refine .put hr (.of_users rfl (List.length_map ..) rfl rfl fun k u hk => ⟨k, u, ?_⟩)
    unfold Room.seatAt Room.reset at *
    simp only [List.getD_eq_getElem?_getD, List.getElem?_map] at hk ⊢
    cases hs : r.seats[k]? with
    | none => rw [hs] at hk; cases hk
    | some s => rw [hs] at hk; exact hk

theorem setConnected_retained (rm : RoomManager) (u : User) (b : Bool) : Retained rm (rm.setConnected u b) := by
  unfold setConnected
  split
  · exact .refl rm
  · refine .modify rm _ fun r _ => ?_
    split
    · exact .refl r
    · exact r.modifySeat_retains _ id

theorem deleteRoom_retained (rm : RoomManager) (i : ℕ) : Retained rm (rm.deleteRoom i) := by
  unfold deleteRoom
  split
  · exact .refl rm
  · exact ((Retained.refl rm).of_rooms (exits_rooms _ rm).1).trans (.delete _ i)

theorem assignMatchId_retained (rm : RoomManager) (i : ℕ) : Retained rm (rm.assignMatchId i).1 := by
  cases hr : rm.rooms i with
  | none =>
    unfold assignMatchId
    rw [hr]
    exact .refl rm
  | some r =>
    rw [Gateway.assignMatchId_eq hr]
    exact .put hr (.of_seats rfl rfl rfl rfl)

/-- **Every call but `clearGoneSeats`** keeps the rooms as full as they were. -/
theorem perform_retained (hs : rm.Sized) (c : RoomCall) (hc : ∀ i, c ≠ .clearGoneSeats i) :
    Retained rm (rm.perform c) := by
  cases c with
  | createRoom u p => exact rm.createRoom_retained u p
  | createTournamentRoom type players => exact .open_ rm (emptyRoom_size rm _) fun h => by cases h.1
  | createClubWarRoom players => exact .open_ rm (emptyRoom_size rm _) fun h => by cases h.2
  | markInvited i u => exact .modify rm i fun _ _ => .of_seats rfl rfl rfl rfl
  | joinRoom u i team => exact rm.joinRoom_retained u i team
  | leaveRoom u => exact rm.leaveRoom_retained u
  | setReady u b => exact rm.setReady_retained u b
  | switchTeam u team => exact switchTeam_retained hs u team
  | assignMatchId i => exact rm.assignMatchId_retained i
  | startMatch i deal => exact rm.startMatch_retained i deal
  | forward u call => exact rm.forward_retained u call
  | forfeitSeat u => exact rm.forfeitSeat_retained u
  | markFinished i => exact .modify rm i fun _ _ => .of_seats rfl rfl rfl rfl
  | clearGoneSeats i => exact absurd rfl (hc i)
  | resetForRematch i => exact rm.resetForRematch_retained i
  | setConnected u b => exact rm.setConnected_retained u b
  | markPractice i =>
    refine .modify rm i fun r _ => ?_
    split
    · exact .of_seats rfl rfl rfl rfl
    · exact .refl r
  | deleteRoom i => exact rm.deleteRoom_retained i

theorem clearGoneSeats_sized (hs : rm.Sized) (i : ℕ) : (rm.clearGoneSeats i).Sized := by
  intro j r' hr'
  unfold clearGoneSeats modify at hr'
  split at hr'
  · exact hs j r' hr'
  · rename_i r hr
    rcases put_cases hr' with ⟨rfl, rfl⟩ | ⟨-, hr'⟩
    · show (r.seats.map _).length = _
      rw [List.length_map]
      exact hs j r hr
    · exact hs j r' hr'

theorem perform_sized (hs : rm.Sized) (c : RoomCall) : (rm.perform c).Sized := by
  cases c with
  | clearGoneSeats i => exact clearGoneSeats_sized hs i
  | _ => exact (perform_retained hs _ (by intro i hi; cases hi)).sized hs

/-- The clean-up of a pairing's room empties no ordinary one. -/
theorem clearGoneSeats_retained (rm : RoomManager) (i : ℕ) (ho : ∀ r, rm.rooms i = some r → ¬ r.Ordinary) :
    Retained rm (rm.clearGoneSeats i) := .modify rm i fun r hr => Room.clearGone_retains (ho r hr)

/-- **The clean-up** of a room leaves it occupied exactly when somebody in it has not gone. -/
theorem clearGoneSeats_peopled (hp : rm.Peopled) (i : ℕ) :
    (rm.clearGoneSeats i).Peopled ↔ ∀ r, rm.rooms i = some r → r.Ordinary → ∃ k u, r.Carries k u := by
  constructor
  · intro h r hr hord
    have hself : (rm.clearGoneSeats i).rooms i = some r.clearGone := by
      unfold clearGoneSeats modify
      rw [hr]
      exact Function.update_self ..
    exact Room.clearGone_occupied.1 (h i r.clearGone hself hord)
  · intro h j r' hr' hord
    unfold clearGoneSeats modify at hr'
    split at hr'
    · exact hp j r' hr' hord
    · rename_i r hr
      rcases put_cases hr' with ⟨rfl, rfl⟩ | ⟨-, hr'⟩
      · exact Room.clearGone_occupied.2 (h r hr hord)
      · exact hp j r' hr' hord

end RoomManager

end Murlan
