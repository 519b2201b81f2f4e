import Murlan.Proof.RankedQueue
import Murlan.Proof.Seats
import Murlan.Proof.Step

/-!
# Groups of the ranked queue

A group that is taken out of the queue is seated in a new room: its first member opens it, the
others join one after the other, and all of them enter it with all their sockets, ready.

* `Room.Hosts`: a ranked room that users have joined in order; `joinAll_hosts`: users who are
  nowhere fill it, `joinAll_fails`: one who is in a room stops the loop.
* `GroupSeated`: what a group that plays has; `ranked_group_seated_iff`: it has it exactly when
  all of it was in no room. Otherwise it has left the queue for nothing, and unless its first
  member was the one, all of it has been taken out of whatever room it was in.
-/

namespace Murlan

namespace Room

variable {r : Room} {type : MatchType} {us : List ℕ}

/-- A ranked room that the users have joined, in this order. -/
structure Hosts (r : Room) (type : MatchType) (us : List ℕ) : Prop where
  typed : r.type = type
  ranked : r.ranked = true
  free : r.stakeCents = 0
  anyone : r.tournament = none ∧ r.clubWar = none ∧ r.isPrivate = false
  size : r.seats.length = playersForType type
  users : ∀ k, (r.seatAt k).userId = us[k]?.map User.human

theorem Hosts.of_seats {r' : Room} (h : r.Hosts type us) (hsame : { r' with status := r.status, seats := r.seats } = r)
    (hlen : r'.seats.length = r.seats.length) (hu : ∀ k, (r'.seatAt k).userId = (r.seatAt k).userId) :
    r'.Hosts type us := by
  obtain ⟨ht, hr, hf, ha, hs, hus⟩ := h
  rw [← hsame] at ht hr hf ha
  exact ⟨ht, hr, hf, ha, hlen.trans hs, fun k => (hu k).trans (hus k)⟩

/-- The next seat is free. -/
theorem Hosts.pickSeat (h : r.Hosts type us) (hlt : us.length < playersForType type) :
    r.pickSeat none = some us.length := by
  have hfree : ∀ k, (r.seatAt k).userId = none ↔ us.length ≤ k := by
    intro k
    rw [h.users, Option.map_eq_none_iff, List.getElem?_eq_none_iff]
  have hfind : (List.range r.seats.length).find? (fun k => decide ((r.seatAt k).userId = none)) = some us.length := by
    rw [List.find?_range_eq_some]
    refine ⟨by simp [hfree], List.mem_range.2 (by rw [h.size]; exact hlt), fun k hk => ?_⟩
    simp only [hfree, Bool.not_eq_true', decide_eq_false_iff_not]
    omega
  unfold Room.pickSeat
  simp only
  split
  · rename_i heq
    cases heq
  · exact hfind

/-- A newcomer takes the next seat; the last one makes the room ready. -/
theorem Hosts.sit (h : r.Hosts type us) (hlt : us.length < playersForType type) (n : ℕ) :
    (r.sit (.human n) us.length).Hosts type (us ++ [n]) ∧
      (r.sit (.human n) us.length).status = if us.length + 1 = playersForType type then .ready else r.status := by
  have hlen : us.length < r.seats.length := h.size ▸ hlt
  let s : InternalSeat := { userId := some (.human n), team := r.teamOfSeat us.length, connected := true }
  let r₁ := r.modifySeat us.length fun _ => s
  have hat : ∀ k, r₁.seatAt k = if us.length = k then s else r.seatAt k := fun k =>
    seatAt_modifySeat_of_lt hlen (fun _ => s) k
  have hsize : r₁.seats.length = playersForType type := (modifySeat_length ..).trans h.size
  have husers : ∀ k, (r₁.seatAt k).userId = (us ++ [n])[k]?.map User.human := by
    intro k
    rw [hat]
    by_cases hk : us.length = k
    · rw [if_pos hk, List.getElem?_append_right (by omega), ← hk]
      simp [s]
    · rw [if_neg hk, h.users]
      rcases Nat.lt_or_ge k us.length with hlt' | hge
      · rw [List.getElem?_append_left hlt']
      · rw [List.getElem?_eq_none hge, List.getElem?_eq_none (by simp; omega)]
  have hhosts : r₁.Hosts type (us ++ [n]) := ⟨h.typed, h.ranked, h.free, h.anyone, hsize, husers⟩
  have hfull : r₁.isFull = true ↔ us.length + 1 = playersForType type := by
    unfold isFull
    rw [List.all_eq_true]
    constructor
    · intro hall
      by_contra hne
      have hk : us.length + 1 < r₁.seats.length := by omega
      have hsome := hall _ (List.getElem_mem hk)
      have hu := husers (us.length + 1)
      unfold seatAt at hu
      rw [List.getD_eq_getElem _ _ hk] at hu
      rw [hu, List.getElem?_eq_none (by simp)] at hsome
      cases hsome
    · intro heq x hx
      obtain ⟨k, hk, rfl⟩ := List.getElem_of_mem hx
      have hu := husers k
      unfold seatAt at hu
      rw [List.getD_eq_getElem _ _ hk] at hu
      rw [hu, List.getElem?_eq_getElem (by simp; omega)]
      rfl
  have hsit : r.sit (.human n) us.length = if r₁.isFull then r₁.withStatus .ready else r₁ := rfl
  rw [hsit]
  by_cases heq : us.length + 1 = playersForType type
  · rw [if_pos (hfull.2 heq), if_pos heq]
    exact ⟨hhosts.of_seats rfl rfl fun _ => rfl, rfl⟩
  · rw [if_neg fun hc => heq (hfull.1 hc), if_neg heq]
    exact ⟨hhosts, rfl⟩

end Room

namespace Gateway

variable {g g' : Gateway} {rm rm' : RoomManager} {i n : ℕ} {r : Room} {type : MatchType} {us : List ℕ}

/-! ## Joining -/

/-- An open ranked room with a free seat is joined by whoever is nowhere. -/
theorem joinRoom_hosts (hr : rm.rooms i = some r) (hh : r.Hosts type us) (hst : r.status = .waiting)
    (hlt : us.length < playersForType type) (hn : rm.userRoom (.human n) = none) :
    rm.joinRoom (.human n) i none = ((rm.put i (r.sit (.human n) us.length)).enter (.human n) i, none) := by
  have href : RoomManager.refuses r (.human n) = none := by
    unfold RoomManager.refuses
    rw [hh.anyone.1, hh.anyone.2.1, hh.anyone.2.2, hst]
    rfl
  unfold RoomManager.joinRoom RoomManager.seat
  simp only [hn, hr, href, hh.pickSeat hlt, Option.isSome_none, Bool.false_eq_true, if_false, Option.map_some]

/-- The users who join keep the memberships of all others and all other rooms. -/
structure Joined (rm rm' : RoomManager) (i : ℕ) (us : List ℕ) : Prop where
  member : ∀ n ∈ us, rm'.userRoom (.human n) = some i
  others : ∀ n ∉ us, rm'.userRoom (.human n) = rm.userRoom (.human n)
  rooms : ∀ j, j ≠ i → rm'.rooms j = rm.rooms j

/-- Users who are nowhere fill a room that has just enough seats for them. -/
theorem joinAll_hosts (rest : List ℕ) : ∀ {rm : RoomManager} {r : Room} {us : List ℕ}, rm.rooms i = some r →
    r.Hosts type us → r.status = (if us.length = playersForType type then .ready else .waiting) →
    us.length + rest.length = playersForType type → rest.Nodup → (∀ n ∈ rest, rm.userRoom (.human n) = none) →
    ∃ rm' r', joinAll rm i rest = (rm', true) ∧ rm'.rooms i = some r' ∧ r'.Hosts type (us ++ rest) ∧
      r'.status = .ready ∧ Joined rm rm' i rest := by
  induction rest with
  | nil =>
    intro rm r us hr hh hst hlen _ _
    rw [List.length_nil, Nat.add_zero] at hlen
    rw [if_pos hlen] at hst
    refine ⟨rm, r, rfl, hr, by rw [List.append_nil]; exact hh, hst, ⟨?_, fun _ _ => rfl, fun _ _ => rfl⟩⟩
    exact fun n hn => absurd hn List.not_mem_nil
  | cons n rest ih =>
    intro rm r us hr hh hst hlen hnd hnone
    obtain ⟨hnew, hnd⟩ := List.nodup_cons.1 hnd
    rw [List.length_cons] at hlen
    have hlt : us.length < playersForType type := by omega
    rw [if_neg (by omega)] at hst
    have hjoin := joinRoom_hosts hr hh hst hlt (hnone n List.mem_cons_self)
    obtain ⟨hsit, hstatus⟩ := hh.sit hlt n
    let rm₁ := (rm.put i (r.sit (.human n) us.length)).enter (.human n) i
    have hroom : rm₁.rooms i = some (r.sit (.human n) us.length) := Function.update_self ..
    have hmember : ∀ m, rm₁.userRoom (.human m) = if m = n then some i else rm.userRoom (.human m) := by
      intro m
      by_cases hm : m = n
      · rw [if_pos hm, hm]
        exact Function.update_self ..
      · rw [if_neg hm]
        exact Function.update_of_ne (fun heq => hm (by cases heq; rfl)) ..
    have hrest : ∀ m ∈ rest, rm₁.userRoom (.human m) = none := by
      intro m hm
      have hmn : m ≠ n := fun heq => hnew (heq ▸ hm)
      rw [hmember, if_neg hmn]
      exact hnone m (List.mem_cons_of_mem n hm)
    obtain ⟨rm', r', hall, hr', hh', hst', hj⟩ := ih hroom hsit
      (by rw [hstatus, List.length_append, List.length_singleton, hst]) (by simp; omega) hnd hrest
    refine ⟨rm', r', ?_, hr', by simpa using hh', hst', ⟨fun m hm => ?_, fun m hm => ?_, fun j hj' => ?_⟩⟩
    · unfold joinAll
      rw [hjoin]
      exact hall
    · by_cases hin : m ∈ rest
      · exact hj.member m hin
      · have hmn : m = n := (List.mem_cons.1 hm).resolve_right hin
        rw [hj.others m hin, hmember, if_pos hmn]
    · rw [List.mem_cons, not_or] at hm
      rw [hj.others m hm.2, hmember, if_neg hm.1]
    · rw [hj.rooms j hj']
      exact Function.update_of_ne hj' ..

/-- One of them who is in a room stops the loop. -/
theorem joinAll_fails (rest : List ℕ) : ∀ {rm : RoomManager}, (∃ n ∈ rest, rm.userRoom (.human n) ≠ none) →
    (joinAll rm i rest).2 = false := by
  induction rest with
  | nil => rintro rm ⟨n, hn, -⟩; exact absurd hn List.not_mem_nil
  | cons m rest ih =>
    rintro rm ⟨n, hn, hroom⟩
    unfold joinAll
    rcases rm.joinRoom_cases (.human m) i none with ⟨e, h⟩ | ⟨r, k, hm, -, -, -, h⟩
    · rw [h]
    · rw [h]
      simp only
      have hne : n ≠ m := by
        rintro rfl
        exact hroom hm
      refine ih ⟨n, (List.mem_cons.1 hn).resolve_left hne, ?_⟩
      have hsame : ((rm.put i (r.sit (.human m) k)).enter (.human m) i).userRoom (.human n) = rm.userRoom (.human n) :=
        Function.update_of_ne (fun heq => hne (by cases heq; rfl)) ..
      rw [hsame]
      exact hroom

/-- Who has left is nowhere, also when others leave afterwards. -/
theorem leaves_leave (group : List ℕ) : ∀ {rm : RoomManager} {n : ℕ}, n ∈ group →
    (group.foldl (fun rm u => rm.leaveRoom (.human u)) rm).userRoom (.human n) = none := by
  have hself : ∀ (rm : RoomManager) (u : User), (rm.leaveRoom u).userRoom u = none := by
    intro rm u
    unfold RoomManager.leaveRoom
    split
    · assumption
    · split
      · exact Function.update_self ..
      · exact Function.update_self ..
  induction group with
  | nil => intro rm n hn; exact absurd hn List.not_mem_nil
  | cons m group ih =>
    intro rm n hn
    rw [List.foldl_cons]
    rcases List.mem_cons.1 hn with rfl | hn
    · have ha : RoomManager.Admits (fun _ => False) (rm.leaveRoom (.human n))
          (group.foldl (fun rm u => rm.leaveRoom (.human u)) (rm.leaveRoom (.human n))) :=
        RoomManager.Admits.foldl (fun rm u => rm.leaveRoom_admits (.human u)) group _
      exact ha.enters (fun hf => hf) (hself rm _)
    · exact ih hn

/-! ## Getting ready -/

/-- The members in `done` have entered the room with their sockets and are ready. -/
structure Attached (g₀ g : Gateway) (i : ℕ) (type : MatchType) (us done : List ℕ) : Prop where
  room : ∃ r, g.rooms.rooms i = some r ∧ r.Hosts type us ∧ r.status = .ready ∧
    ∀ n ∈ done, ∀ k, (r.seatAt k).userId = some (.human n) → (r.seatAt k).ready = true
  member : g.rooms.userRoom = g₀.rooms.userRoom
  others : ∀ j, j ≠ i → g.rooms.rooms j = g₀.rooms.rooms j
  sockets : ∀ s ∈ g.sockets, s.userId ∈ done → s.roomId = some i
  queue : g.queue = g₀.queue

/-- One more of the group is attached and ready. -/
theorem Attached.one {g₀ : Gateway} {done : List ℕ} (h : Attached g₀ g i type us done) (hnd : us.Nodup) (hn : n ∈ us)
    (hi : g₀.rooms.userRoom (.human n) = some i) :
    Attached g₀ ((g.attachAll n i).withRooms (g.rooms.setReady (.human n) true).1) i type us (n :: done) := by
  obtain ⟨r, hr, hh, hst, hready⟩ := h.room
  -- the seat of the member, and there is but one
  obtain ⟨l, hl, rfl⟩ := List.getElem_of_mem hn
  have hat : (r.seatAt l).userId = some (.human us[l]) := by
    rw [hh.users, List.getElem?_eq_getElem hl]
    rfl
  obtain ⟨k, hk⟩ : ∃ k, r.seatOf (.human us[l]) = some k := by
    cases hs : r.seatOf (.human us[l]) with
    | none => exact absurd ⟨l, hat⟩ (Room.seatOf_none hs)
    | some k => exact ⟨k, rfl⟩
  have hone : ∀ m, (r.seatAt m).userId = some (.human us[l]) → m = l := by
    intro m hm
    have heq : us[m]?.map User.human = us[l]?.map User.human := by
      rw [← hh.users, ← hh.users, hm, hat]
    have hinj := Option.map_injective (fun a b hab => by cases hab; rfl) heq
    exact ((List.getElem?_inj hl hnd).1 hinj.symm).symm
  obtain ⟨hku, hklt⟩ := Room.seatOf_some hk
  have hset : g.rooms.setReady (.human us[l]) true =
      (g.rooms.put i (r.modifySeat k fun s => { s with ready := true }), none) := by
    have hne : r.status ≠ .inMatch := by rw [hst]; simp
    unfold RoomManager.setReady
    simp only [h.member, hi, hr, hk, if_neg hne]
  rw [hset]
  have hseat : ∀ m, (r.modifySeat k fun s => { s with ready := true }).seatAt m =
      if k = m then { r.seatAt m with ready := true } else r.seatAt m := Room.seatAt_modifySeat_of_lt hklt _
  refine ⟨⟨_, Function.update_self .., ?_, hst, ?_⟩, h.member, fun j hj => ?_, ?_, h.queue⟩
  · refine hh.of_seats rfl (Room.modifySeat_length ..) fun m => ?_
    rw [hseat]
    split <;> rfl
  · intro m hm p hp
    rw [hseat] at hp ⊢
    split
    · rfl
    · rename_i hkp
      rw [if_neg hkp] at hp
      rcases List.mem_cons.1 hm with rfl | hm
      · exact absurd ((hone k hku).trans (hone p hp).symm) hkp
      · exact hready m hm p hp
  · exact (Function.update_of_ne hj ..).trans (h.others j hj)
  · intro s hs hsd
    obtain ⟨x, hx, rfl⟩ := List.mem_map.1 hs
    by_cases hxu : x.userId = us[l]
    · rw [if_pos hxu]
    · rw [if_neg hxu] at hsd ⊢
      exact h.sockets x hx ((List.mem_cons.1 hsd).resolve_left hxu)

/-- The whole group is. -/
theorem attachGroup_attached {g₀ : Gateway} (hnd : us.Nodup) (todo : List ℕ) : ∀ {g : Gateway} {done : List ℕ},
    Attached g₀ g i type us done → (∀ n ∈ todo, n ∈ us ∧ g₀.rooms.userRoom (.human n) = some i) →
    ∃ done', Attached g₀ (g.attachGroup i todo) i type us done' ∧ todo ⊆ done' ∧ done ⊆ done' := by
  induction todo with
  | nil => exact fun {g done} h _ => ⟨done, h, List.nil_subset _, fun _ => id⟩
  | cons n todo ih =>
    intro g done h hmem
    have hn := hmem n List.mem_cons_self
    obtain ⟨done', h', htodo, hdone⟩ := ih (h.one hnd hn.1 hn.2) fun m hm => hmem m (List.mem_cons_of_mem n hm)
    refine ⟨done', h', List.cons_subset.2 ⟨hdone List.mem_cons_self, htodo⟩, ?_⟩
    exact fun m hm => hdone (List.mem_cons_of_mem n hm)

/-! ## The group -/

/-- The group plays: it sits in a new ranked room in its order, everyone of it is ready and there
with all sockets, and the countdown runs. Nobody else has moved. -/
structure GroupSeated (g g' : Gateway) (type : MatchType) (group : List ℕ) : Prop where
  room : ∃ r, g'.rooms.rooms (g.rooms.seq + 1) = some r ∧ r.Hosts type group ∧ r.status = .ready ∧ r.allReady = true
  member : ∀ n ∈ group, g'.rooms.userRoom (.human n) = some (g.rooms.seq + 1)
  sockets : ∀ s ∈ g'.sockets, s.userId ∈ group → s.roomId = some (g.rooms.seq + 1)
  countdown : g'.countdowns (g.rooms.seq + 1) = true
  others : ∀ n ∉ group, g'.rooms.userRoom (.human n) = g.rooms.userRoom (.human n)
  rooms : ∀ j, j ≠ g.rooms.seq + 1 → g'.rooms.rooms j = g.rooms.rooms j

theorem startable_spec {group : List ℕ} (h : g.startable type group = true) :
    group.length = playersForType type ∧ group.Nodup := by
  unfold startable at h
  simp only [Bool.and_eq_true, decide_eq_true_eq] at h
  exact h.1

/-- Users who leave the queue change nothing else. -/
theorem dequeues_same (group : List ℕ) : ∀ g : Gateway,
    group.foldl dequeue g = { g with queue := (group.foldl dequeue g).queue } := by
  induction group with
  | nil => exact fun _ => rfl
  | cons n group ih =>
    intro g
    rw [List.foldl_cons]
    exact ih (g.dequeue n)

theorem emptyRoom_hosts (rm : RoomManager) (type : MatchType) :
    (rm.emptyRoom { type, stakeCents := 0, ranked := true }).Hosts type [] := by
  refine ⟨rfl, rfl, rfl, ⟨rfl, rfl, rfl⟩, List.length_replicate .., fun k => ?_⟩
  unfold RoomManager.emptyRoom Room.seatAt
  simp only [List.getD_eq_getElem?_getD, List.getElem?_replicate]
  split <;> rfl

/-- A room with its group ready is all ready. -/
theorem allReady_of {r : Room} {group : List ℕ} (hh : r.Hosts type group) (hlen : group.length = playersForType type)
    (hready : ∀ n ∈ group, ∀ k, (r.seatAt k).userId = some (.human n) → (r.seatAt k).ready = true) :
    r.allReady = true := by
  unfold Room.allReady
  rw [List.all_eq_true]
  intro x hx
  obtain ⟨k, hk, rfl⟩ := List.getElem_of_mem hx
  have hkg : k < group.length := by rw [hlen, ← hh.size]; exact hk
  have hat : r.seatAt k = r.seats[k] := by
    unfold Room.seatAt
    rw [List.getD_eq_getElem _ _ hk]
  have hu : (r.seatAt k).userId = some (.human group[k]) := by
    rw [hh.users, List.getElem?_eq_getElem hkg]
    rfl
  have hr := hready _ (List.getElem_mem hkg) k hu
  rw [hat] at hu hr
  simp [hu, hr]

/-- A group that is nowhere is seated. -/
theorem seatRankedGroup_seats {group : List ℕ} (hlen : group.length = playersForType type) (hnd : group.Nodup)
    (hnone : ∀ n ∈ group, g.rooms.userRoom (.human n) = none) :
    GroupSeated g (g.seatRankedGroup type group) type group := by
  have hpos : 2 ≤ playersForType type := by cases type <;> decide
  obtain ⟨creator, rest, rfl⟩ := List.exists_cons_of_length_pos (l := group) (by omega)
  obtain ⟨hnew, hndrest⟩ := List.nodup_cons.1 hnd
  have hcreator := hnone creator List.mem_cons_self
  let i := g.rooms.seq + 1
  -- the creator opens the room
  let p : RoomManager.CreatePayload := { type, stakeCents := 0, ranked := true }
  let rm := ((g.rooms.open_ (g.rooms.emptyRoom p)).put i ((g.rooms.emptyRoom p).sit (.human creator) 0)).enter
    (.human creator) i
  have hcreate : g.rooms.createRoom (.human creator) p = (rm, .ok i) := createRoom_opens hcreator rfl
  obtain ⟨hsit, hstatus⟩ := (emptyRoom_hosts g.rooms type).sit (by simp; omega) creator
  have hmember : ∀ m, rm.userRoom (.human m) = if m = creator then some i else g.rooms.userRoom (.human m) := by
    intro m
    by_cases hm : m = creator
    · rw [if_pos hm, hm]
      exact Function.update_self ..
    · rw [if_neg hm]
      exact Function.update_of_ne (fun heq => hm (by cases heq; rfl)) ..
  have hrest : ∀ n ∈ rest, rm.userRoom (.human n) = none := by
    intro n hn
    have hne : n ≠ creator := fun heq => hnew (heq ▸ hn)
    rw [hmember, if_neg hne]
    exact hnone n (List.mem_cons_of_mem creator hn)
  -- the others join it
  obtain ⟨rm', r', hall, hr', hh', hst', hj⟩ := joinAll_hosts rest (Function.update_self ..) hsit hstatus
    (by simpa [Nat.add_comm] using hlen) hndrest hrest
  have hin : ∀ n ∈ creator :: rest, rm'.userRoom (.human n) = some i := by
    intro n hn
    by_cases hnr : n ∈ rest
    · exact hj.member n hnr
    · rw [hj.others n hnr, hmember, if_pos ((List.mem_cons.1 hn).resolve_right hnr)]
  have hseat : g.seatRankedGroup type (creator :: rest) =
      ((g.withRooms rm').attachGroup i (creator :: rest)).maybeStartCountdown i := by
    have hroomOf : g.rooms.roomOf (.human creator) = none := by
      unfold RoomManager.roomOf
      rw [hcreator]
      rfl
    unfold seatRankedGroup
    simp only [hroomOf, Option.isSome_none, Bool.false_eq_true, if_false]
    rw [show g.rooms.createRoom (.human creator) { type, stakeCents := 0, ranked := true } = (rm, .ok i) from hcreate]
    simp only
    rw [hall]
  -- and all of them get ready
  have hatt₀ : Attached (g.withRooms rm') (g.withRooms rm') i type (creator :: rest) [] :=
    ⟨⟨r', hr', hh', hst', fun n hn => absurd hn List.not_mem_nil⟩, rfl, fun _ _ => rfl,
      fun s _ hn => absurd hn List.not_mem_nil, rfl⟩
  obtain ⟨done, hatt, hdone, -⟩ := attachGroup_attached hnd (creator :: rest) hatt₀ fun n hn => ⟨hn, hin n hn⟩
  obtain ⟨r, hr, hh, hst, hready⟩ := hatt.room
  have hallReady := allReady_of hh hlen fun n hn => hready n (hdone hn)
  rw [hseat]
  refine ⟨⟨r, hr, hh, hst, hallReady⟩, fun n hn => ?_, fun s hs hn => hatt.sockets s hs (hdone hn), ?_, fun n hn => ?_,
    fun j hj' => ?_⟩
  · exact (congrFun hatt.member _).trans (hin n hn)
  · have hcount : ∀ x : Gateway, (x.maybeStartCountdown i).countdowns i = x.rooms.allReady i := fun x =>
      Function.update_self ..
    refine (hcount _).trans ?_
    unfold RoomManager.allReady
    rw [hr]
    exact hallReady
  · rw [List.mem_cons, not_or] at hn
    refine (congrFun hatt.member _).trans ((hj.others n hn.2).trans ?_)
    rw [hmember, if_neg hn.1]
  · refine (hatt.others j hj').trans ((hj.rooms j hj').trans ?_)
    exact (Function.update_of_ne hj' ..).trans (Function.update_of_ne hj' ..)

/-- The first member is in a room: nothing happens. -/
theorem seatRankedGroup_dropped {creator : ℕ} {rest : List ℕ} (hc : g.rooms.userRoom (.human creator) ≠ none) :
    g.seatRankedGroup type (creator :: rest) = g := by
  unfold seatRankedGroup
  simp only
  split
  · rfl
  · unfold RoomManager.createRoom
    rw [if_pos (Option.isSome_iff_ne_none.2 hc)]
    rfl

/-- Another member is in a room: afterwards nobody of the group is. -/
theorem seatRankedGroup_unseats {creator : ℕ} {rest : List ℕ} (hc : g.rooms.userRoom (.human creator) = none)
    (hroomed : ∃ n ∈ creator :: rest, g.rooms.userRoom (.human n) ≠ none) :
    ∀ n ∈ creator :: rest, (g.seatRankedGroup type (creator :: rest)).rooms.userRoom (.human n) = none := by
  obtain ⟨n, hn, hroom⟩ := hroomed
  have hrest : n ∈ rest := by
    refine (List.mem_cons.1 hn).resolve_left ?_
    rintro rfl
    exact hroom hc
  have hroomOf : g.rooms.roomOf (.human creator) = none := by
    unfold RoomManager.roomOf
    rw [hc]
    rfl
  let p : RoomManager.CreatePayload := { type, stakeCents := 0, ranked := true }
  let i := g.rooms.seq + 1
  let rm := ((g.rooms.open_ (g.rooms.emptyRoom p)).put i ((g.rooms.emptyRoom p).sit (.human creator) 0)).enter
    (.human creator) i
  have hcreate : g.rooms.createRoom (.human creator) p = (rm, .ok i) := createRoom_opens hc rfl
  have hsame : rm.userRoom (.human n) = g.rooms.userRoom (.human n) := by
    refine Function.update_of_ne (fun heq => ?_) ..
    cases heq
    exact hroom hc
  have hfail : (joinAll rm i rest).2 = false := joinAll_fails rest ⟨n, hrest, hsame ▸ hroom⟩
  unfold seatRankedGroup
  simp only [hroomOf, Option.isSome_none, Bool.false_eq_true, if_false]
  rw [show g.rooms.createRoom (.human creator) { type, stakeCents := 0, ranked := true } = (rm, .ok i) from hcreate]
  simp only
  split
  · exact fun m hm => leaves_leave (creator :: rest) hm
  · rename_i he
    rw [he] at hfail
    cases hfail

/-- Seating leaves the queue. -/
theorem seatRankedGroup_queue (g : Gateway) (type : MatchType) (group : List ℕ) :
    (g.seatRankedGroup type group).queue = g.queue := by
  have hattach : ∀ (i : ℕ) (group : List ℕ) (g : Gateway), (g.attachGroup i group).queue = g.queue := by
    intro i group
    induction group with
    | nil => exact fun _ => rfl
    | cons n group ih => exact fun g => ih _
  unfold seatRankedGroup
  split
  · rfl
  split
  · rfl
  split
  · rfl
  · split
    · rfl
    · exact hattach ..

/-- Rooms are numbered in every state. -/
theorem run_numbered (earlier : List (MoneyEvent User MatchId)) (tag target rakeBps : ℕ) (es : List Event) :
    (run step (boot earlier tag target rakeBps) es).Numbered := by
  refine run_inv (P := Numbered) (fun g e h => ?_) (fun i r hr => absurd hr (by simp [boot])) es
  cases hs : e.isSweep with
  | false => exact (step_oneCall h hs).numbered h
  | true =>
    cases e with
    | sweep => exact h
    | _ => cases hs

theorem GroupSeated.of_rooms {d : Gateway} {group : List ℕ} (h : GroupSeated d g' type group) (hr : d.rooms = g.rooms) :
    GroupSeated g g' type group := by
  obtain ⟨h₁, h₂, h₃, h₄, h₅, h₆⟩ := h
  rw [hr] at h₁ h₂ h₃ h₄ h₅ h₆
  exact ⟨h₁, h₂, h₃, h₄, h₅, h₆⟩

/-- **A group of the ranked queue**, in every state a server can reach: it leaves the queue, and it
is seated exactly when all of it is in no room. If its first member is in a room, nothing else of the
gateway changes; if only others are, all of it is thrown out of the rooms it is in. -/
theorem ranked_group_seated_iff (earlier : List (MoneyEvent User MatchId)) (tag target rakeBps : ℕ) (es : List Event)
    (type : MatchType) (creator : ℕ) (rest : List ℕ)
    (hs : (run step (boot earlier tag target rakeBps) es).startable type (creator :: rest) = true) :
    let g := run step (boot earlier tag target rakeBps) es
    let g' := g.step (.formRanked type (creator :: rest))
    (∀ e, e ∈ g'.queue ↔ e ∈ g.queue ∧ e.userId ∉ creator :: rest) ∧
      (GroupSeated g g' type (creator :: rest) ↔ ∀ n ∈ creator :: rest, g.rooms.userRoom (.human n) = none) ∧
      (g.rooms.userRoom (.human creator) ≠ none → g' = { g with queue := g'.queue }) ∧
      (g.rooms.userRoom (.human creator) = none → (∃ n ∈ rest, g.rooms.userRoom (.human n) ≠ none) →
        ∀ n ∈ creator :: rest, g'.rooms.userRoom (.human n) = none) := by
  intro g g'
  obtain ⟨hlen, hnd⟩ := startable_spec hs
  let d := (creator :: rest).foldl dequeue g
  have hform : g' = d.seatRankedGroup type (creator :: rest) := if_pos hs
  have hsame : d = { g with queue := d.queue } := dequeues_same _ g
  have hrooms : d.rooms = g.rooms := by rw [hsame]
  have hdropped : g.rooms.userRoom (.human creator) ≠ none → g' = { g with queue := g'.queue } := by
    intro hc
    rw [hform, seatRankedGroup_dropped (hrooms.symm ▸ hc)]
    exact hsame
  have hunseats : g.rooms.userRoom (.human creator) = none → (∃ n ∈ rest, g.rooms.userRoom (.human n) ≠ none) →
      ∀ n ∈ creator :: rest, g'.rooms.userRoom (.human n) = none := by
    rintro hc ⟨n, hn, hroom⟩
    rw [hform]
    exact seatRankedGroup_unseats (hrooms.symm ▸ hc) ⟨n, List.mem_cons_of_mem creator hn, hrooms.symm ▸ hroom⟩
  refine ⟨fun e => ?_, ⟨fun hseated n hn => ?_, fun hnone => ?_⟩, hdropped, hunseats⟩
  · rw [hform, seatRankedGroup_queue]
    exact mem_dequeues _
  · by_contra hroom
    by_cases hc : g.rooms.userRoom (.human creator) = none
    · have hrest : n ∈ rest := by
        refine (List.mem_cons.1 hn).resolve_left ?_
        rintro rfl
        exact hroom hc
      have hin := hseated.member n hn
      rw [hunseats hc ⟨n, hrest, hroom⟩ n hn] at hin
      cases hin
    · -- the new room is not there
      obtain ⟨r, hr, -⟩ := hseated.room
      have hold : g'.rooms = g.rooms := by rw [hdropped hc]
      rw [hold] at hr
      have hle : g.rooms.seq + 1 ≤ g.rooms.seq := run_numbered earlier tag target rakeBps es _ r hr
      omega
  · rw [hform]
    exact (seatRankedGroup_seats hlen hnd (hrooms.symm ▸ hnone)).of_rooms hrooms

/-- Two users queue and are paired. -/
def paired : List Event :=
  [.connect 0 7, .connect 1 8, .rankedQueueJoin 0 .oneVOne, .enqueue 0, .rankedQueueJoin 1 .oneVOne, .enqueue 0]

theorem ranked_group_seated_pair :
    GroupSeated (run step (boot [] 0 21 500) paired)
      ((run step (boot [] 0 21 500) paired).step (.formRanked .oneVOne [7, 8])) .oneVOne [7, 8] :=
  (ranked_group_seated_iff [] 0 21 500 paired .oneVOne 7 [8] (by decide)).2.1.2 (by decide)

end Gateway

end Murlan
