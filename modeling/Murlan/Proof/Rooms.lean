import Mathlib.Data.List.GetD
import Murlan.Base.Run
import Murlan.Spec.Messages

/-!
# What the rooms keep

Most calls on the rooms start no match and rename none. `Rests` says so of a
change of the rooms, and every call but `assignMatchId` and `startMatch` is one:

* `Room.Rests`: the same of one room: a room that is in a match was in it before,
  with the same id and stake and no new player, and only a free room becomes one for practice.
* `leaveRoom_rests`, `joinRoom_rests`, …: one lemma for each call.
-/

namespace Murlan

/-- One room, before and after: its match is the same. -/
structure Room.Rests (r r' : Room) : Prop where
  matchId : r'.matchId = r.matchId
  matchSeq : r'.matchSeq = r.matchSeq
  stakeCents : r'.stakeCents = r.stakeCents
  type : r'.type = r.type
  live : r'.status = .inMatch → r.status = .inMatch
  practice : r'.status = .inMatch → r'.practice = r.practice
  free : r'.practice = true → r.practice = true ∨ r.stakeCents = 0
  players : r'.status = .inMatch → ∀ k u, (r'.seatAt k).userId = some u → (r.seatAt k).userId = some u

namespace Room.Rests

variable {r r' r'' : Room}

theorem refl (r : Room) : Room.Rests r r := ⟨rfl, rfl, rfl, rfl, id, fun _ => rfl, .inl, fun _ _ _ => id⟩

/-- A room that is in no match afterwards. -/
theorem of_idle (hid : r'.matchId = r.matchId) (hms : r'.matchSeq = r.matchSeq)
    (hsc : r'.stakeCents = r.stakeCents) (ht : r'.type = r.type)
    (hp : r'.practice = true → r.practice = true ∨ r.stakeCents = 0) (h : r'.status ≠ .inMatch) :
    Room.Rests r r' :=
  ⟨hid, hms, hsc, ht, fun hl => absurd hl h, fun hl => absurd hl h, hp, fun hl => absurd hl h⟩

/-- Rests compose. -/
theorem trans (h : Room.Rests r r') (h' : Room.Rests r' r'') : Room.Rests r r'' where
  matchId := h'.matchId.trans h.matchId
  matchSeq := h'.matchSeq.trans h.matchSeq
  stakeCents := h'.stakeCents.trans h.stakeCents
  type := h'.type.trans h.type
  live := fun hl => h.live (h'.live hl)
  practice := fun hl => (h'.practice hl).trans (h.practice (h'.live hl))
  free := by
    intro hp
    rcases h'.free hp with hp | hno
    · exact h.free hp
    · exact Or.inr (h.stakeCents ▸ hno)
  players := fun hl k u hu => h.players (h'.live hl) k u (h'.players hl k u hu)

end Room.Rests

namespace Room

variable {r : Room}

/-- A seat that is changed, and the others. -/
theorem seatAt_modifySeat (r : Room) (i k : ℕ) (f : InternalSeat → InternalSeat) :
    (r.modifySeat i f).seatAt k = if i = k ∧ k < r.seats.length then f (r.seatAt k) else r.seatAt k := by
  unfold seatAt modifySeat
  simp only [List.getD_eq_getElem?_getD, List.getElem?_modify]
  by_cases hk : k < r.seats.length
  · rw [List.getElem?_eq_getElem hk]
    by_cases hi : i = k <;> simp [hi, hk]
  · rw [List.getElem?_eq_none (by omega)]
    simp [hk]

/-- The seat found is the user's. -/
theorem seatOf_some {u : User} {k : ℕ} (h : r.seatOf u = some k) :
    (r.seatAt k).userId = some u ∧ k < r.seats.length := by
  unfold seatOf at h
  obtain ⟨hk, hu, -⟩ := List.findIdx?_eq_some_iff_getElem.1 h
  refine ⟨?_, hk⟩
  unfold seatAt
  rw [List.getD_eq_getElem _ _ hk]
  simpa using hu

/-- A change of one seat that brings in no user. -/
theorem modifySeat_rests (r : Room) (i : ℕ) {f : InternalSeat → InternalSeat}
    (hf : ∀ s u, (f s).userId = some u → s.userId = some u) : Rests r (r.modifySeat i f) := by
  refine ⟨rfl, rfl, rfl, rfl, id, fun _ => rfl, .inl, fun _ k u hu => ?_⟩
  rw [seatAt_modifySeat] at hu
  split at hu
  · exact hf _ u hu
  · exact hu

theorem withStatus_rests (r : Room) {status : RoomStatus} (h : status ≠ .inMatch) :
    Rests r (r.withStatus status) := Rests.of_idle rfl rfl rfl rfl .inl h

theorem emptySeatOf_rests (r : Room) (u : User) : Rests r (r.emptySeatOf u) := by
  unfold emptySeatOf
  split
  · refine r.modifySeat_rests _ fun s v hv => ?_
    cases hv
  · exact Rests.refl r

theorem vacate_rests (r : Room) (u : User) : Rests r (r.vacate u) := by
  unfold vacate
  split
  · exact (r.emptySeatOf_rests u).trans (withStatus_rests _ (by simp))
  · exact r.emptySeatOf_rests u

theorem sit_rests (r : Room) (u : User) (i : ℕ) (h : r.status ≠ .inMatch) : Rests r (r.sit u i) := by
  have hst : (r.sit u i).status ≠ .inMatch := by
    unfold sit
    simp only
    split
    · simp [withStatus]
    · exact h
  have hrest : (r.sit u i).matchId = r.matchId ∧ (r.sit u i).matchSeq = r.matchSeq ∧
      (r.sit u i).stakeCents = r.stakeCents ∧ (r.sit u i).type = r.type ∧ (r.sit u i).practice = r.practice := by
    unfold sit
    simp only
    split <;> exact ⟨rfl, rfl, rfl, rfl, rfl⟩
  obtain ⟨hid, hms, hsc, ht, hp⟩ := hrest
  exact Rests.of_idle hid hms hsc ht (fun h => Or.inl (hp ▸ h)) hst

theorem clearGone_rests (r : Room) : Rests r r.clearGone := by
  refine ⟨rfl, rfl, rfl, rfl, id, fun _ => rfl, .inl, fun _ k u hu => ?_⟩
  unfold clearGone seatAt at hu
  unfold seatAt
  simp only [List.getD_eq_getElem?_getD, List.getElem?_map] at hu ⊢
  cases hs : r.seats[k]? with
  | none => rw [hs] at hu; exact hu
  | some s =>
    rw [hs] at hu
    simp only [Option.map_some, Option.getD_some] at hu ⊢
    split at hu
    · cases hu
    · exact hu

theorem reset_rests (r : Room) (target : ℕ) : Rests r (r.reset target) :=
  Rests.of_idle rfl rfl rfl rfl .inl (by simp [reset])

theorem withMatch_rests (r : Room) (m : Match) : Rests r (r.withMatch m) := by
  refine ⟨rfl, rfl, rfl, rfl, fun hl => ?_, fun _ => rfl, .inl, fun _ _ _ hu => hu⟩
  have hst : (if m.state = .matchOver then RoomStatus.finished else r.status) = .inMatch := hl
  split at hst
  · cases hst
  · exact hst

theorem finish_rests (r : Room) : Rests r r.finish :=
  Rests.of_idle rfl rfl rfl rfl .inl (by simp [finish])

theorem resettle_rests (r : Room) : Rests r r.resettle := by
  refine r.withStatus_rests ?_
  split <;> simp

end Room

/-! ## All rooms -/

/-- A change of the rooms that starts no match and renames none; a new room is in
no match. -/
structure RoomManager.Rests (rm rm' : RoomManager) : Prop where
  tag : rm'.instanceTag = rm.instanceTag
  seq : rm.seq ≤ rm'.seq
  room : ∀ i r', rm'.rooms i = some r' →
    (∃ r, rm.rooms i = some r ∧ Room.Rests r r') ∨
      (rm.seq < i ∧ i ≤ rm'.seq ∧ r'.status ≠ .inMatch ∧ r'.matchId = none ∧ r'.matchSeq = 0)

namespace RoomManager

variable {rm rm' rm'' : RoomManager} {i : ℕ} {r : Room}

namespace Rests

theorem refl (rm : RoomManager) : Rests rm rm :=
  ⟨rfl, le_refl _, fun _ r' hr => Or.inl ⟨r', hr, Room.Rests.refl r'⟩⟩

theorem trans (h : Rests rm rm') (h' : Rests rm' rm'') : Rests rm rm'' := by
  refine ⟨h'.tag.trans h.tag, h.seq.trans h'.seq, fun i r'' hr'' => ?_⟩
  have hseq := h.seq
  have hseq' := h'.seq
  rcases h'.room i r'' hr'' with ⟨r', hr', hrest⟩ | ⟨hlo, hhi, hnew⟩
  · rcases h.room i r' hr' with ⟨r, hr, hrest₀⟩ | ⟨hlo, hhi, hst, hid, hms⟩
    · exact Or.inl ⟨r, hr, hrest₀.trans hrest⟩
    · exact Or.inr ⟨hlo, by omega, fun hl => hst (hrest.live hl), hrest.matchId.trans hid,
        hrest.matchSeq.trans hms⟩
  · exact Or.inr ⟨by omega, hhi, hnew⟩

/-- A loop of calls. -/
theorem foldl {α : Type} {f : RoomManager → α → RoomManager} (hf : ∀ rm a, Rests rm (f rm a)) (l : List α) :
    ∀ rm, Rests rm (l.foldl f rm) := by
  induction l with
  | nil => exact refl
  | cons a l ih => exact fun rm => (hf rm a).trans (ih _)

end Rests

/-- A room written back, and the others. -/
theorem put_cases {r' x : Room} {j : ℕ} (hx : (rm.put i r').rooms j = some x) :
    (j = i ∧ x = r') ∨ (j ≠ i ∧ rm.rooms j = some x) := by
  by_cases hj : j = i
  · subst hj
    have hself : (rm.put j r').rooms j = some r' := Function.update_self ..
    rw [hself] at hx
    exact Or.inl ⟨rfl, (Option.some.inj hx).symm⟩
  · have hsame : (rm.put i r').rooms j = rm.rooms j := Function.update_of_ne hj ..
    exact Or.inr ⟨hj, hsame ▸ hx⟩

theorem put_rests {r' : Room} (hr : rm.rooms i = some r) (h : Room.Rests r r') : Rests rm (rm.put i r') := by
  refine ⟨rfl, le_refl _, fun j x hx => ?_⟩
  rcases put_cases hx with ⟨rfl, rfl⟩ | ⟨-, hx⟩
  · exact Or.inl ⟨r, hr, h⟩
  · exact Or.inl ⟨x, hx, Room.Rests.refl x⟩

theorem delete_rests (rm : RoomManager) (i : ℕ) : Rests rm (rm.delete i) := by
  refine ⟨rfl, le_refl _, fun j x hx => ?_⟩
  by_cases hj : j = i
  · subst hj
    have : (rm.delete j).rooms j = none := Function.update_self ..
    rw [this] at hx
    cases hx
  · have : (rm.delete i).rooms j = rm.rooms j := Function.update_of_ne hj ..
    rw [this] at hx
    exact Or.inl ⟨x, hx, Room.Rests.refl x⟩

theorem enter_rests (rm : RoomManager) (u : User) (i : ℕ) : Rests rm (rm.enter u i) :=
  ⟨rfl, le_refl _, (Rests.refl rm).room⟩

theorem exit_rests (rm : RoomManager) (u : User) : Rests rm (rm.exit u) :=
  ⟨rfl, le_refl _, (Rests.refl rm).room⟩

theorem modify_rests (rm : RoomManager) (i : ℕ) {f : Room → Room} (hf : ∀ r, Room.Rests r (f r)) :
    Rests rm (rm.modify i f) := by
  unfold modify
  split
  · exact Rests.refl rm
  · rename_i r hr
    exact put_rests hr (hf r)

theorem open_rests (rm : RoomManager) {r : Room} (hst : r.status ≠ .inMatch) (hid : r.matchId = none)
    (hms : r.matchSeq = 0) : Rests rm (rm.open_ r) := by
  refine ⟨rfl, Nat.le_succ _, fun j x hx => ?_⟩
  by_cases hj : j = rm.seq + 1
  · have : (rm.open_ r).rooms j = some r := by rw [hj]; exact Function.update_self ..
    rw [this] at hx
    cases hx
    exact Or.inr ⟨by omega, le_of_eq hj, hst, hid, hms⟩
  · have : (rm.open_ r).rooms j = rm.rooms j := Function.update_of_ne hj ..
    rw [this] at hx
    exact Or.inl ⟨x, hx, Room.Rests.refl x⟩

theorem seat_rests {u : User} {team : Option ℕ} (hr : rm.rooms i = some r) (hst : r.status ≠ .inMatch)
    (h : rm.seat i r u team = some rm') : Rests rm rm' := by
  unfold seat at h
  obtain ⟨k, -, rfl⟩ := Option.map_eq_some_iff.1 h
  exact (put_rests hr (r.sit_rests u k hst)).trans (enter_rests ..)

theorem createRoom_rests (rm : RoomManager) (u : User) (p : CreatePayload) :
    Rests rm (rm.createRoom u p).1 := by
  unfold createRoom
  split
  · exact Rests.refl rm
  · have hopen : Rests rm (rm.open_ (rm.emptyRoom p)) := rm.open_rests (by simp [emptyRoom]) rfl rfl
    simp only
    split
    · rename_i rm' h
      exact hopen.trans (seat_rests (Function.update_self ..) (by simp [emptyRoom]) h)
    · exact hopen.trans (delete_rests ..)

theorem createTournamentRoom_rests (rm : RoomManager) (type : MatchType) (players : List User) :
    Rests rm (rm.createTournamentRoom type players) := rm.open_rests (by simp [emptyRoom]) rfl rfl

theorem createClubWarRoom_rests (rm : RoomManager) (players : List User) :
    Rests rm (rm.createClubWarRoom players) := rm.open_rests (by simp [emptyRoom]) rfl rfl

theorem markInvited_rests (rm : RoomManager) (i : ℕ) (u : User) : Rests rm (rm.markInvited i u) :=
  rm.modify_rests i fun _ => ⟨rfl, rfl, rfl, rfl, id, fun _ => rfl, .inl, fun _ _ _ => id⟩

/-- A room that refuses nobody waits. -/
theorem refuses_none {u : User} (h : refuses r u = none) : r.status = .waiting := by
  unfold refuses at h
  split at h
  · cases h
  split at h
  · cases h
  split at h
  · cases h
  split at h
  · cases h
  · rename_i hst
    exact not_not.1 hst

/-- All that a successful `joinRoom` does. -/
theorem joinRoom_cases (rm : RoomManager) (u : User) (i : ℕ) (team : Option ℕ) :
    (∃ e, rm.joinRoom u i team = (rm, some e)) ∨
      ∃ r k, rm.userRoom u = none ∧ rm.rooms i = some r ∧ refuses r u = none ∧ r.pickSeat team = some k ∧
        rm.joinRoom u i team = ((rm.put i (r.sit u k)).enter u i, none) := by
  unfold joinRoom
  cases hu : rm.userRoom u with
  | some j => left; simp
  | none =>
    cases hr : rm.rooms i with
    | none => left; simp
    | some r =>
      cases href : refuses r u with
      | some e => left; simp [href]
      | none =>
        cases hk : r.pickSeat team with
        | none => left; simp [href, seat, hk]
        | some k => exact Or.inr ⟨r, k, rfl, rfl, href, hk, by simp [href, seat, hk]⟩

theorem joinRoom_rests (rm : RoomManager) (u : User) (i : ℕ) (team : Option ℕ) :
    Rests rm (rm.joinRoom u i team).1 := by
  rcases rm.joinRoom_cases u i team with ⟨e, he⟩ | ⟨r, k, -, hr, href, -, he⟩
  · rw [he]; exact Rests.refl rm
  · rw [he]
    have hst : r.status ≠ .inMatch := by rw [refuses_none href]; simp
    exact (put_rests hr (r.sit_rests u k hst)).trans (enter_rests ..)

/-- Who leaves disturbs no match. -/
theorem leaveRoom_rests (rm : RoomManager) (u : User) : Rests rm (rm.leaveRoom u) := by
  unfold leaveRoom
  split
  · exact Rests.refl rm
  · split
    · exact exit_rests ..
    · rename_i r hr
      refine Rests.trans ?_ (exit_rests ..)
      unfold settleLeft
      split
      · exact put_rests hr (r.vacate_rests u)
      · exact delete_rests ..

/-- All that a successful `setReady` does. -/
theorem setReady_cases (rm : RoomManager) (u : User) (b : Bool) :
    (∃ e, rm.setReady u b = (rm, some e)) ∨
      ∃ i r k, rm.userRoom u = some i ∧ rm.rooms i = some r ∧ r.seatOf u = some k ∧ r.status ≠ .inMatch ∧
        rm.setReady u b = (rm.put i (r.modifySeat k fun s => { s with ready := b }), none) := by
  unfold setReady
  cases hu : rm.userRoom u with
  | none => left; simp
  | some i =>
    cases hr : rm.rooms i with
    | none => left; simp [hr]
    | some r =>
      cases hk : r.seatOf u with
      | none => left; simp [hr, hk]
      | some k =>
        by_cases hst : r.status = .inMatch
        · left; simp [hr, hk, hst]
        · exact Or.inr ⟨i, r, k, rfl, hr, hk, hst, by simp [hr, hk, hst]⟩

theorem setReady_rests (rm : RoomManager) (u : User) (b : Bool) : Rests rm (rm.setReady u b).1 := by
  rcases rm.setReady_cases u b with ⟨e, he⟩ | ⟨i, r, k, -, hr, -, -, he⟩
  · rw [he]; exact Rests.refl rm
  · rw [he]; exact put_rests hr (r.modifySeat_rests k fun _ _ => id)

theorem setReadyAll_rests (rm : RoomManager) (i : ℕ) (b : Bool) : Rests rm (rm.setReadyAll i b) := by
  unfold setReadyAll
  split
  · exact Rests.refl rm
  · exact Rests.foldl (fun rm u => rm.setReady_rests u b) _ rm

theorem switchTeam_rests (rm : RoomManager) (u : User) (team : ℕ) : Rests rm (rm.switchTeam u team).1 := by
  unfold switchTeam
  split
  · exact Rests.refl rm
  split
  · exact Rests.refl rm
  rename_i r hr
  split
  · exact Rests.refl rm
  split
  · exact Rests.refl rm
  rename_i hlive
  have hst : r.status ≠ .inMatch := fun h => hlive (Or.inl h)
  -- before a match only the seats change
  have hmove : ∀ r' : Room, r'.matchId = r.matchId → r'.matchSeq = r.matchSeq → r'.stakeCents = r.stakeCents →
      r'.type = r.type → r'.status = r.status → r'.practice = r.practice → Room.Rests r r'.resettle := by
    intro r' h1 h2 h3 h4 h5 h6
    have hrest : Room.Rests r r' := .of_idle h1 h2 h3 h4 (fun h => Or.inl (h6 ▸ h)) (h5 ▸ hst)
    exact hrest.trans r'.resettle_rests
  split
  · exact Rests.refl rm
  split
  · exact Rests.refl rm
  split
  · exact put_rests hr (hmove _ rfl rfl rfl rfl rfl rfl)
  · split
    · exact Rests.refl rm
    · exact put_rests hr (hmove _ rfl rfl rfl rfl rfl rfl)

/-- All that a forwarded action can do. -/
theorem forward_cases (rm : RoomManager) (u : User) (call : ℕ → Match.Call) :
    ((rm.forward u call).1 = rm ∧ (rm.forward u call).2.roomId = none) ∨
      ∃ i r m k, rm.userRoom u = some i ∧ rm.rooms i = some r ∧ r.match_ = some m ∧ r.status = .inMatch ∧
        r.seatOf u = some k ∧ rm.forward u call = (rm.put i (r.withMatch (m.answer (call k)).2),
          { result := (m.answer (call k)).1, roomId := some i }) := by
  unfold forward
  cases hu : rm.userRoom u with
  | none => exact Or.inl ⟨rfl, rfl⟩
  | some i =>
    cases hr : rm.rooms i with
    | none => exact Or.inl (by simp [hr, notInMatch])
    | some r =>
      cases hm : r.match_ with
      | none => exact Or.inl (by simp [hr, hm, notInMatch])
      | some m =>
        by_cases hst : r.status = .inMatch
        · cases hk : r.seatOf u with
          | none => exact Or.inl (by simp [hr, hm, hst, hk, noSeat])
          | some k => exact Or.inr ⟨i, r, m, k, rfl, hr, hm, hst, hk, by simp [hr, hm, hst, hk]⟩
        · exact Or.inl (by simp [hr, hm, hst, notInMatch])

theorem forward_rests (rm : RoomManager) (u : User) (call : ℕ → Match.Call) :
    Rests rm (rm.forward u call).1 := by
  rcases rm.forward_cases u call with ⟨h, -⟩ | ⟨i, r, m, k, -, hr, -, -, -, h⟩
  · rw [h]; exact Rests.refl rm
  · rw [h]; exact put_rests hr (r.withMatch_rests _)

/-- All that a forfeit can do. -/
theorem forfeitSeat_cases (rm : RoomManager) (u : User) :
    ((rm.forfeitSeat u).1 = rm ∧ (rm.forfeitSeat u).2.roomId = none) ∨
      ∃ i r m k, rm.userRoom u = some i ∧ rm.rooms i = some r ∧ r.match_ = some m ∧ r.status = .inMatch ∧
        r.seatOf u = some k ∧ (rm.forfeitSeat u).2 =
          { result := (m.answer (.forfeit k)).1, roomId := some i } ∧
        (((m.answer (.forfeit k)).1.ok = true ∧ (rm.forfeitSeat u).1 =
            (rm.put i ((r.modifySeat k abandoned).withMatch (m.answer (.forfeit k)).2)).exit u) ∨
          ((m.answer (.forfeit k)).1.ok = false ∧ (rm.forfeitSeat u).1 =
            rm.put i (r.withMatch (m.answer (.forfeit k)).2))) := by
  unfold forfeitSeat
  cases hu : rm.userRoom u with
  | none => exact Or.inl ⟨rfl, rfl⟩
  | some i =>
    cases hr : rm.rooms i with
    | none => exact Or.inl (by simp [hr, notInMatch])
    | some r =>
      cases hm : r.match_ with
      | none => exact Or.inl (by simp [hr, hm, notInMatch])
      | some m =>
        by_cases hst : r.status = .inMatch
        · cases hk : r.seatOf u with
          | none => exact Or.inl (by simp [hr, hm, hst, hk, noSeat])
          | some k =>
            refine Or.inr ⟨i, r, m, k, rfl, hr, hm, hst, hk, ?_, ?_⟩
            · cases hok : (m.answer (.forfeit k)).1.ok <;> simp [hr, hm, hst, hk, hok]
            · cases hok : (m.answer (.forfeit k)).1.ok <;> simp [hr, hm, hst, hk, hok]
        · exact Or.inl (by simp [hr, hm, hst, notInMatch])

theorem forfeitSeat_rests (rm : RoomManager) (u : User) : Rests rm (rm.forfeitSeat u).1 := by
  rcases rm.forfeitSeat_cases u with ⟨h, -⟩ | ⟨i, r, m, k, -, hr, -, -, -, -, ⟨-, h⟩ | ⟨-, h⟩⟩
  · rw [h]; exact Rests.refl rm
  · rw [h]
    have hseat : Room.Rests r (r.modifySeat k abandoned) := r.modifySeat_rests k fun _ _ hu => hu
    exact (put_rests hr (hseat.trans (Room.withMatch_rests _ _))).trans (exit_rests ..)
  · rw [h]; exact put_rests hr (r.withMatch_rests _)

theorem resetForRematch_rests (rm : RoomManager) (i : ℕ) : Rests rm (rm.resetForRematch i).1 := by
  unfold resetForRematch
  split
  · exact Rests.refl rm
  · rename_i r hr
    split
    · exact Rests.refl rm
    split
    · exact Rests.refl rm
    · exact put_rests hr (r.reset_rests _)

theorem clearGoneSeats_rests (rm : RoomManager) (i : ℕ) : Rests rm (rm.clearGoneSeats i) :=
  rm.modify_rests i Room.clearGone_rests

theorem setConnected_rests (rm : RoomManager) (u : User) (b : Bool) : Rests rm (rm.setConnected u b) := by
  unfold setConnected
  split
  · exact Rests.refl rm
  · refine rm.modify_rests _ fun r => ?_
    split
    · exact Room.Rests.refl r
    · exact r.modifySeat_rests _ fun _ _ hu => hu

theorem deleteRoom_rests (rm : RoomManager) (i : ℕ) : Rests rm (rm.deleteRoom i) := by
  unfold deleteRoom
  split
  · exact Rests.refl rm
  · exact (Rests.foldl (fun rm u => rm.exit_rests u) _ rm).trans (delete_rests ..)

theorem markFinished_rests (rm : RoomManager) (i : ℕ) : Rests rm (rm.markFinished i) :=
  rm.modify_rests i Room.finish_rests

/-- A room that is in no match becomes a practice room. -/
theorem markPractice_rests (hst : ∀ r, rm.rooms i = some r → r.status ≠ .inMatch) :
    Rests rm (rm.markPractice i) := by
  unfold markPractice modify
  split
  · exact Rests.refl rm
  · rename_i r hr
    refine put_rests hr ?_
    beta_reduce
    split
    · rename_i hfree
      exact Room.Rests.of_idle rfl rfl rfl rfl (fun _ => Or.inr hfree) (hst r hr)
    · exact Room.Rests.refl r

theorem exits_rooms (us : List User) : ∀ rm : RoomManager,
    (us.foldl exit rm).rooms = rm.rooms ∧ (us.foldl exit rm).seq = rm.seq := by
  induction us with
  | nil => exact fun _ => ⟨rfl, rfl⟩
  | cons u us ih => exact fun rm => ih (rm.exit u)

/-- All that `startMatch` can do. -/
theorem startMatch_cases (rm : RoomManager) (i : ℕ) (deal : ℕ → List (List Card)) :
    (∃ e, rm.startMatch i deal = .error e) ∨ (∃ e, rm.startMatch i deal = .ok (rm, some e)) ∨
      ∃ r m, rm.rooms i = some r ∧ r.status ≠ .inMatch ∧ r.isFull = true ∧
        Match.create { type := r.type, deal, startTarget := r.target } = .ok m ∧
        rm.startMatch i deal = .ok (rm.put i ((r.withStatus .inMatch).withMatch m), none) := by
  unfold startMatch
  cases hr : rm.rooms i with
  | none => exact Or.inr (Or.inl ⟨_, rfl⟩)
  | some r =>
    simp only
    split
    · exact Or.inr (Or.inl ⟨_, rfl⟩)
    rename_i hst
    split
    · exact Or.inr (Or.inl ⟨_, rfl⟩)
    rename_i hfull
    cases hm : Match.create { type := r.type, deal, startTarget := r.target } with
    | error e => exact Or.inl ⟨e, rfl⟩
    | ok m => exact Or.inr (Or.inr ⟨r, m, rfl, hst, by simpa using hfull, hm, rfl⟩)

end RoomManager

end Murlan
