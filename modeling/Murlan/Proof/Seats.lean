import Mathlib.Data.List.GetD
import Mathlib.Logic.Equiv.Basic
import Murlan.Proof.Rooms
import Murlan.Spec.RoomCall

/-!
# Who sits where

Membership is kept twice: in `userRoom`, and on the seats of the rooms.

* `Seated`: one room and its members agree. A member has one seat, and a seat whose user is
  no member is that of a player who abandoned the match. One lemma for each change of a room.
* `SeatsOK`: every room and `userRoom` agree.
* `change_seats`, `put_seats`, `open_seats`, `delete_seats`: what a change of one room needs
  to keep it.
-/

namespace Murlan

namespace Room

variable {r r' : Room} {u v : User} {i k : ℕ}

/-! ## One room -/

/-- The match has not started yet. -/
def Lobby (r : Room) : Prop := r.status = .waiting ∨ r.status = .ready

/-- The user has a seat. -/
def Sits (r : Room) (u : User) : Prop := ∃ k, (r.seatAt k).userId = some u

/-- The seats of a room and its members agree. -/
structure Seated (r : Room) (member : User → Prop) : Prop where
  size : r.seats.length = playersForType r.type
  seat : ∀ k u, (r.seatAt k).userId = some u → (r.seatAt k).gone = true ∨ member u
  here : ∀ u, member u → ∃ k, (r.seatAt k).userId = some u ∧ (r.seatAt k).gone = false
  one : ∀ k l u, (r.seatAt k).userId = some u → (r.seatAt l).userId = some u → k = l
  gone : ∀ k, (r.seatAt k).gone = true → (r.seatAt k).connected = false ∧ ¬ r.Lobby
  /-- Occupied seats carry the team of their index, empty ones none. -/
  team : ∀ k, (r.seatAt k).team = (r.seatAt k).userId.bind fun _ => r.teamOfSeat k
  started : ¬ r.Lobby → r.match_.isSome = true

theorem seatOf_none (h : r.seatOf u = none) : ¬ r.Sits u := by
  rintro ⟨k, hk⟩
  unfold seatOf at h
  rw [List.findIdx?_eq_none_iff] at h
  unfold seatAt at hk
  by_cases hlt : k < r.seats.length
  · rw [List.getD_eq_getElem _ _ hlt] at hk
    have hno := h _ (List.getElem_mem hlt)
    rw [hk] at hno
    simp at hno
  · rw [List.getD_eq_default _ _ (by omega)] at hk
    cases hk

theorem seatAt_of_ge (h : r.seats.length ≤ k) : r.seatAt k = {} := by
  unfold seatAt
  rw [List.getD_eq_default _ _ h]

theorem lt_of_user (h : (r.seatAt k).userId = some u) : k < r.seats.length := by
  by_contra hge
  rw [seatAt_of_ge (by omega)] at h
  cases h

theorem modifySeat_length (r : Room) (k : ℕ) (f : InternalSeat → InternalSeat) :
    (r.modifySeat k f).seats.length = r.seats.length := List.length_modify ..

/-- A change of a seat that the room has. -/
theorem seatAt_modifySeat_of_lt (hk : k < r.seats.length) (f : InternalSeat → InternalSeat) (l : ℕ) :
    (r.modifySeat k f).seatAt l = if k = l then f (r.seatAt l) else r.seatAt l := by
  rw [seatAt_modifySeat]
  by_cases hkl : k = l
  · rw [if_pos hkl, if_pos ⟨hkl, hkl ▸ hk⟩]
  · rw [if_neg hkl, if_neg fun hc => hkl hc.1]

theorem mem_users : u ∈ r.seats.filterMap InternalSeat.userId ↔ r.Sits u := by
  rw [List.mem_filterMap]
  constructor
  · rintro ⟨s, hs, hu⟩
    obtain ⟨k, hk, rfl⟩ := List.getElem_of_mem hs
    refine ⟨k, ?_⟩
    unfold seatAt
    rw [List.getD_eq_getElem _ _ hk]
    exact hu
  · rintro ⟨k, hk⟩
    have hlt := lt_of_user hk
    unfold seatAt at hk
    rw [List.getD_eq_getElem _ _ hlt] at hk
    exact ⟨_, List.getElem_mem hlt, hk⟩


namespace Seated

variable {member member' : User → Prop}

/-- In the lobby nobody is gone: who sits there is a member. -/
theorem belongs (h : r.Seated member) (hl : r.Lobby) (hu : r.Sits u) : member u := by
  obtain ⟨k, hk⟩ := hu
  rcases h.seat k u hk with hg | hm
  · exact absurd hl (h.gone k hg).2
  · exact hm

/-- A member's seat is not that of a player who is gone. -/
theorem present (h : r.Seated member) (hm : member u) (hk : (r.seatAt k).userId = some u) :
    (r.seatAt k).gone = false := by
  obtain ⟨l, hl, hg⟩ := h.here u hm
  rw [h.one k l u hk hl]
  exact hg

theorem congr (h : r.Seated member) (hm : ∀ u, member' u ↔ member u) : r.Seated member' where
  size := h.size
  seat := fun k u hk => (h.seat k u hk).imp_right (hm u).2
  here := fun u hu => h.here u ((hm u).1 hu)
  one := h.one
  gone := h.gone
  team := h.team
  started := h.started

/-- Users, teams and departures stay, and the match starts or goes on. -/
theorem of_users (h : r.Seated member) (hlen : r'.seats.length = r.seats.length) (ht : r'.type = r.type)
    (hu : ∀ k, (r'.seatAt k).userId = (r.seatAt k).userId) (hteam : ∀ k, (r'.seatAt k).team = (r.seatAt k).team)
    (hg : ∀ k, (r'.seatAt k).gone = (r.seatAt k).gone)
    (hc : ∀ k, (r.seatAt k).gone = true → (r'.seatAt k).connected = false ∧ ¬ r'.Lobby)
    (hm : ¬ r'.Lobby → r'.match_.isSome = true) : r'.Seated member := by
  refine ⟨by rw [hlen, ht]; exact h.size, ?_, ?_, ?_, ?_, ?_, hm⟩
  · intro k u hk
    rw [hu] at hk
    rw [hg]
    exact h.seat k u hk
  · intro u hm
    obtain ⟨k, hk, hgk⟩ := h.here u hm
    exact ⟨k, (hu k).trans hk, (hg k).trans hgk⟩
  · intro k l u hk hl
    rw [hu] at hk hl
    exact h.one k l u hk hl
  · intro k hk
    rw [hg] at hk
    exact hc k hk
  · intro k
    unfold teamOfSeat
    rw [hteam, hu, ht]
    exact h.team k

/-- Nothing of the seats changes, and the match starts or goes on. -/
theorem of_seats (h : r.Seated member) (hs : r'.seats = r.seats) (ht : r'.type = r.type)
    (hl : r'.Lobby → r.Lobby) (hm : ¬ r'.Lobby → r'.match_.isSome = true) : r'.Seated member := by
  have hat : ∀ k, r'.seatAt k = r.seatAt k := fun k => by unfold seatAt; rw [hs]
  refine h.of_users (by rw [hs]) ht (fun k => by rw [hat]) (fun k => by rw [hat]) (fun k => by rw [hat]) (fun k hk => ?_) hm
  rw [hat]
  exact ⟨(h.gone k hk).1, fun hl' => (h.gone k hk).2 (hl hl')⟩

/-- A change of one seat that keeps its user. -/
theorem modifySeat (h : r.Seated member) (k : ℕ) {f : InternalSeat → InternalSeat}
    (hu : ∀ s, (f s).userId = s.userId) (hteam : ∀ s, (f s).team = s.team) (hg : ∀ s, (f s).gone = s.gone)
    (hc : (r.seatAt k).gone = true → (f (r.seatAt k)).connected = false) : (r.modifySeat k f).Seated member := by
  have hat : ∀ {α : Type} (p : InternalSeat → α), (∀ s, p (f s) = p s) →
      ∀ l, p ((r.modifySeat k f).seatAt l) = p (r.seatAt l) := by
    intro α p hp l
    rw [seatAt_modifySeat]
    split
    · exact hp _
    · rfl
  refine h.of_users (modifySeat_length ..) rfl (hat _ hu) (hat _ hteam) (hat _ hg) (fun l hl => ⟨?_, (h.gone l hl).2⟩) h.started
  rw [seatAt_modifySeat]
  split
  · rename_i heq
    rw [← heq.1] at hl ⊢
    exact hc hl
  · exact (h.gone l hl).1

/-- A seat is emptied, and its user is no member any more. -/
theorem emptied (h : r.Seated member) (hk : (r.seatAt k).userId = some u) :
    (r.modifySeat k fun _ => {}).Seated fun v => v ≠ u ∧ member v := by
  have hat := seatAt_modifySeat_of_lt (lt_of_user hk) fun _ => {}
  have hold : ∀ {l v}, ((r.modifySeat k fun _ => {}).seatAt l).userId = some v →
      k ≠ l ∧ (r.seatAt l).userId = some v := by
    intro l v hl
    rw [hat] at hl
    split at hl
    · cases hl
    · rename_i hne
      exact ⟨hne, hl⟩
  refine ⟨(modifySeat_length ..).trans h.size, ?_, ?_, ?_, ?_, ?_, h.started⟩
  · intro l v hl
    obtain ⟨hne, hl⟩ := hold hl
    rw [hat, if_neg hne]
    refine (h.seat l v hl).imp_right fun hm => ⟨?_, hm⟩
    rintro rfl
    exact hne (h.one k l v hk hl)
  · rintro v ⟨hv, hm⟩
    obtain ⟨l, hl, hg⟩ := h.here v hm
    have hne : k ≠ l := by
      rintro rfl
      rw [hk] at hl
      exact hv (Option.some.inj hl).symm
    exact ⟨l, by rw [hat, if_neg hne]; exact ⟨hl, hg⟩⟩
  · intro l l' v hl hl'
    exact h.one l l' v (hold hl).2 (hold hl').2
  · intro l hl
    rw [hat] at hl ⊢
    split at hl
    · cases hl
    · rename_i hne
      rw [if_neg hne]
      exact h.gone l hl
  · intro l
    rw [hat]
    split
    · rfl
    · exact h.team l

theorem withStatus (h : r.Seated member) {status : RoomStatus} (hl : (r.withStatus status).Lobby ↔ r.Lobby) :
    (r.withStatus status).Seated member :=
  h.of_seats rfl rfl hl.1 fun hno => h.started fun hr => hno (hl.2 hr)

/-- Nobody but `u` leaves with `vacate`. -/
theorem vacate (h : r.Seated member) (u : User) : (r.vacate u).Seated fun v => v ≠ u ∧ member v := by
  have hempty : (r.emptySeatOf u).Seated fun v => v ≠ u ∧ member v := by
    unfold emptySeatOf
    split
    · rename_i k hk
      exact h.emptied (seatOf_some hk).1
    · rename_i hk
      refine h.congr fun v => ⟨fun hm => hm.2, fun hm => ⟨?_, hm⟩⟩
      rintro rfl
      obtain ⟨l, hl, -⟩ := h.here v hm
      exact seatOf_none hk ⟨l, hl⟩
  unfold Room.vacate
  split
  · rename_i hst
    refine hempty.withStatus ⟨fun _ => Or.inr ?_, fun _ => Or.inl rfl⟩
    unfold emptySeatOf
    split <;> exact hst
  · exact hempty

/-- A newcomer sits down on a free seat. -/
theorem sit (h : r.Seated member) (hl : r.Lobby) (hu : ¬ r.Sits u) (hi : i < r.seats.length)
    (hfree : (r.seatAt i).userId = none) : (r.sit u i).Seated fun v => v = u ∨ member v := by
  have hsat : (r.modifySeat i fun _ =>
      { userId := some u, team := r.teamOfSeat i, connected := true }).Seated fun v => v = u ∨ member v := by
    have hat := seatAt_modifySeat_of_lt hi fun _ =>
      { userId := some u, team := r.teamOfSeat i, connected := true }
    refine ⟨(modifySeat_length ..).trans h.size, ?_, ?_, ?_, ?_, ?_, h.started⟩
    · intro l v hv
      rw [hat] at hv ⊢
      split at hv
      · exact Or.inr (Or.inl (Option.some.inj hv).symm)
      · rename_i hne
        rw [if_neg hne]
        exact (h.seat l v hv).imp_right Or.inr
    · rintro v (rfl | hm)
      · exact ⟨i, by rw [hat, if_pos rfl]; exact ⟨rfl, rfl⟩⟩
      · obtain ⟨l, hl', hg⟩ := h.here v hm
        have hne : i ≠ l := by
          rintro rfl
          rw [hfree] at hl'
          cases hl'
        exact ⟨l, by rw [hat, if_neg hne]; exact ⟨hl', hg⟩⟩
    · intro l l' v hv hv'
      rw [hat] at hv hv'
      -- `u` sat nowhere before
      split at hv <;> split at hv'
      · omega
      · cases hv
        exact absurd ⟨l', hv'⟩ hu
      · cases hv'
        exact absurd ⟨l, hv⟩ hu
      · exact h.one l l' v hv hv'
    · intro l hl'
      rw [hat] at hl'
      split at hl'
      · cases hl'
      · exact absurd hl (h.gone l hl').2
    · intro l
      rw [hat]
      split
      · rename_i hil
        rw [hil]
        rfl
      · exact h.team l
  unfold Room.sit
  simp only
  split
  · exact hsat.withStatus ⟨fun _ => hl, fun _ => Or.inr rfl⟩
  · exact hsat

/-- The seats of those who are gone are freed. -/
theorem clearGone (h : r.Seated member) : r.clearGone.Seated member := by
  have hat : ∀ l, r.clearGone.seatAt l = if (r.seatAt l).gone then {} else r.seatAt l := by
    intro l
    unfold Room.clearGone seatAt
    simp only [List.getD_eq_getElem?_getD, List.getElem?_map]
    cases r.seats[l]? <;> simp
  have hold : ∀ {l v}, (r.clearGone.seatAt l).userId = some v → (r.seatAt l).userId = some v := by
    intro l v hl
    rw [hat] at hl
    split at hl
    · cases hl
    · exact hl
  refine ⟨by rw [← show r.type = r.clearGone.type from rfl, ← h.size]; exact List.length_map .., ?_, ?_, ?_, ?_, ?_,
    h.started⟩
  · intro l v hl
    have hv := hold hl
    rw [hat] at hl
    split at hl
    · cases hl
    · rename_i hg
      exact Or.inr ((h.seat l v hv).resolve_left hg)
  · intro v hm
    obtain ⟨l, hl, hg⟩ := h.here v hm
    refine ⟨l, ?_⟩
    rw [hat, hg]
    exact ⟨hl, hg⟩
  · intro l l' v hl hl'
    exact h.one l l' v (hold hl) (hold hl')
  · intro l hl
    rw [hat] at hl
    split at hl
    · cases hl
    · rename_i hg
      exact absurd hl hg
  · intro l
    rw [hat]
    split
    · rfl
    · exact h.team l

/-- A room without players who are gone is reset. -/
theorem reset (h : r.Seated member) (hg : ∀ k, (r.seatAt k).gone = false) (target : ℕ) :
    (r.reset target).Seated member := by
  have hat : ∀ {α : Type} (p : InternalSeat → α), (∀ s, p { s with ready := false } = p s) →
      ∀ l, p ((r.reset target).seatAt l) = p (r.seatAt l) := by
    intro α p hp l
    unfold Room.reset seatAt
    simp only [List.getD_eq_getElem?_getD, List.getElem?_map]
    cases hl : r.seats[l]? with
    | none => rfl
    | some s => exact hp s
  refine h.of_users (List.length_map ..) rfl (hat _ fun _ => rfl) (hat _ fun _ => rfl) (hat _ fun _ => rfl) (fun k hk => ?_)
    fun hno => absurd (Or.inl rfl) hno
  rw [hg] at hk
  cases hk

/-- Two seats change their users, before a match. -/
theorem swapped (h : r.Seated member) (hl : r.Lobby) (hl' : r'.Lobby) (hlen : r'.seats.length = r.seats.length)
    (ht : r'.type = r.type) (a b : ℕ)
    (hu : ∀ k, (r'.seatAt k).userId = (r.seatAt (Equiv.swap a b k)).userId)
    (hteam : ∀ k, (r'.seatAt k).team = (r'.seatAt k).userId.bind fun _ => r.teamOfSeat k)
    (hg : ∀ k, (r'.seatAt k).gone = false) : r'.Seated member where
  size := by rw [hlen, ht, h.size]
  seat := by
    intro k u hk
    rw [hu] at hk
    exact Or.inr (h.belongs hl ⟨_, hk⟩)
  here := by
    intro u hm
    obtain ⟨k, hk, -⟩ := h.here u hm
    refine ⟨Equiv.swap a b k, ?_, hg _⟩
    rw [hu, Equiv.swap_apply_self]
    exact hk
  one := by
    intro k l u hk hl
    rw [hu] at hk hl
    exact (Equiv.swap a b).injective (h.one _ _ u hk hl)
  gone := by
    intro k hk
    rw [hg] at hk
    cases hk
  team := by
    intro k
    rw [hteam]
    unfold teamOfSeat
    rw [ht]
  started := fun hno => absurd hl' hno

/-- A player abandons the match: the seat stays, the membership goes. -/
theorem abandons (h : r.Seated member) (hl : ¬ r.Lobby) (hk : (r.seatAt k).userId = some u) :
    (r.modifySeat k RoomManager.abandoned).Seated fun v => v ≠ u ∧ member v := by
  have hat := seatAt_modifySeat_of_lt (lt_of_user hk) RoomManager.abandoned
  have huser : ∀ l, ((r.modifySeat k RoomManager.abandoned).seatAt l).userId = (r.seatAt l).userId := by
    intro l
    rw [hat]
    split <;> rfl
  refine ⟨(modifySeat_length ..).trans h.size, ?_, ?_, ?_, ?_, ?_, h.started⟩
  · intro l v hv
    rw [huser] at hv
    rw [hat]
    split
    · exact Or.inl rfl
    · rename_i hne
      refine (h.seat l v hv).imp_right fun hm => ⟨?_, hm⟩
      rintro rfl
      exact hne (h.one k l v hk hv)
  · rintro v ⟨hne, hm⟩
    obtain ⟨l, hl', hg⟩ := h.here v hm
    have hkl : k ≠ l := by
      rintro rfl
      rw [hk] at hl'
      exact hne (Option.some.inj hl').symm
    exact ⟨l, (huser l).trans hl', by rw [hat, if_neg hkl]; exact hg⟩
  · intro l l' v hv hv'
    rw [huser] at hv hv'
    exact h.one l l' v hv hv'
  · intro l hg
    rw [hat] at hg ⊢
    split at hg
    · rename_i hkl
      rw [if_pos hkl]
      exact ⟨rfl, hl⟩
    · rename_i hkl
      rw [if_neg hkl]
      exact h.gone l hg
  · intro l
    rw [huser, ← show r.teamOfSeat l = (r.modifySeat k RoomManager.abandoned).teamOfSeat l from rfl, ← h.team l, hat]
    split <;> rfl

end Seated

end Room

namespace RoomManager

variable {rm rm' : RoomManager} {r r' : Room} {u v : User} {i j : ℕ}

/-! ## All rooms -/

/-- Only a full room waits for the ready check. -/
def FullIfReady (r : Room) : Prop := r.status = .ready → r.isFull = true

/-- **Membership and seats agree** in every room. -/
structure SeatsOK (rm : RoomManager) : Prop where
  numbered : ∀ i r, rm.rooms i = some r → i ≤ rm.seq
  room : ∀ i r, rm.rooms i = some r → r.Seated fun u => rm.userRoom u = some i
  opened : ∀ u i, rm.userRoom u = some i → (rm.rooms i).isSome = true
  full : ∀ i r, rm.rooms i = some r → FullIfReady r

theorem SeatsOK.room_of (h : SeatsOK rm) (hu : rm.userRoom u = some i) : ∃ r, rm.rooms i = some r :=
  Option.isSome_iff_exists.1 (h.opened u i hu)

theorem SeatsOK.le_seq (h : SeatsOK rm) (hu : rm.userRoom u = some i) : i ≤ rm.seq := by
  obtain ⟨r, hr⟩ := h.room_of hu
  exact h.numbered i r hr

/-- **A change of one room** and of the membership in it. -/
theorem change_seats (h : SeatsOK rm) (i : ℕ) (hseq : rm'.seq = rm.seq)
    (hrooms : ∀ j, j ≠ i → rm'.rooms j = rm.rooms j)
    (husers : ∀ u j, j ≠ i → (rm'.userRoom u = some j ↔ rm.userRoom u = some j))
    (hroom : ∀ r', rm'.rooms i = some r' → i ≤ rm.seq ∧ (r'.Seated fun u => rm'.userRoom u = some i) ∧ FullIfReady r')
    (hnone : rm'.rooms i = none → ∀ u, rm'.userRoom u ≠ some i) : SeatsOK rm' := by
  refine ⟨?_, ?_, ?_, ?_⟩
  · intro j r' hr'
    rw [hseq]
    by_cases hj : j = i
    · subst hj
      exact (hroom r' hr').1
    · rw [hrooms j hj] at hr'
      exact h.numbered j r' hr'
  · intro j r' hr'
    by_cases hj : j = i
    · subst hj
      exact (hroom r' hr').2.1
    · rw [hrooms j hj] at hr'
      exact (h.room j r' hr').congr fun u => husers u j hj
  · intro u j hu
    by_cases hj : j = i
    · subst hj
      cases hr : rm'.rooms j with
      | none => exact absurd hu (hnone hr u)
      | some r => rfl
    · rw [hrooms j hj]
      exact h.opened u j ((husers u j hj).1 hu)
  · intro j r' hr'
    by_cases hj : j = i
    · subst hj
      exact (hroom r' hr').2.2
    · rw [hrooms j hj] at hr'
      exact h.full j r' hr'

/-- A change of one room, with the same members. -/
theorem put_seats (h : SeatsOK rm) (hr : rm.rooms i = some r) (hs : r'.Seated fun u => rm.userRoom u = some i)
    (hf : FullIfReady r') : SeatsOK (rm.put i r') := by
  have hself : (rm.put i r').rooms i = some r' := Function.update_self ..
  refine change_seats h i rfl (fun j hj => Function.update_of_ne hj ..) (fun _ _ _ => Iff.rfl) ?_ ?_
  · intro x hx
    rw [hself] at hx
    cases hx
    exact ⟨h.numbered i r hr, hs, hf⟩
  · intro hnone
    rw [hself] at hnone
    cases hnone

/-- A change of a room that exists. -/
theorem modify_seats (h : SeatsOK rm) (i : ℕ) {f : Room → Room}
    (hf : ∀ r, rm.rooms i = some r → ((f r).Seated fun u => rm.userRoom u = some i) ∧ FullIfReady (f r)) :
    SeatsOK (rm.modify i f) := by
  unfold modify
  split
  · exact h
  · rename_i r hr
    exact put_seats h hr (hf r hr).1 (hf r hr).2

/-- A new, empty room. -/
theorem open_seats (h : SeatsOK rm) (hempty : ∀ k, r.seatAt k = {}) (hsize : r.seats.length = playersForType r.type)
    (hst : r.status = .waiting) : SeatsOK (rm.open_ r) := by
  have hself : (rm.open_ r).rooms (rm.seq + 1) = some r := Function.update_self ..
  have hother : ∀ j, j ≠ rm.seq + 1 → (rm.open_ r).rooms j = rm.rooms j := fun j hj => Function.update_of_ne hj ..
  -- nobody is a member of a room that did not exist
  have hnobody : ∀ u, rm.userRoom u ≠ some (rm.seq + 1) := by
    intro u hu
    have := h.le_seq hu
    omega
  refine ⟨?_, ?_, ?_, ?_⟩
  · intro j x hx
    show j ≤ rm.seq + 1
    by_cases hj : j = rm.seq + 1
    · omega
    · rw [hother j hj] at hx
      have := h.numbered j x hx
      omega
  · intro j x hx
    by_cases hj : j = rm.seq + 1
    · subst hj
      rw [hself] at hx
      cases hx
      refine ⟨hsize, ?_, fun u hu => absurd hu (hnobody u), ?_, ?_, ?_, fun hno => absurd (Or.inl hst) hno⟩
      · intro k u hk
        rw [hempty] at hk
        cases hk
      · intro k l u hk
        rw [hempty] at hk
        cases hk
      · intro k hk
        rw [hempty] at hk
        cases hk
      · intro k
        rw [hempty]
        rfl
    · rw [hother j hj] at hx
      exact h.room j x hx
  · intro u j hu
    by_cases hj : j = rm.seq + 1
    · rw [hj, hself]
      rfl
    · rw [hother j hj]
      exact h.opened u j hu
  · intro j x hx
    by_cases hj : j = rm.seq + 1
    · subst hj
      rw [hself] at hx
      cases hx
      intro hready
      rw [hst] at hready
      cases hready
    · rw [hother j hj] at hx
      exact h.full j x hx

/-- A room is closed that nobody is in. -/
theorem delete_seats (h : SeatsOK rm) (hno : ∀ u, rm.userRoom u ≠ some i) : SeatsOK (rm.delete i) := by
  have hself : (rm.delete i).rooms i = none := Function.update_self ..
  refine change_seats h i rfl (fun j hj => Function.update_of_ne hj ..) (fun _ _ _ => Iff.rfl) ?_ (fun _ => hno)
  intro x hx
  rw [hself] at hx
  cases hx

end RoomManager

end Murlan
