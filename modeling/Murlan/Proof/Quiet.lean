import Murlan.Proof.Calls

/-!
# What a handler leaves alone

* `Quiet k`: a handler that calls no money service, and the rooms by calls of the
  kind `k` only.
* `Finishes`: a handler that may also end one live match: its room is in no match
  afterwards, and its id is settled or refunded.
* `onCreate_quiet`, …, `act_finishes`, …: one lemma for each handler.
-/

namespace Murlan

namespace Gateway

open RoomCall (rests calm departs keeps)
open RoomManager (Via)

variable {g g₁ g' g'' : Gateway} {k : RoomCall → Bool}

/-- The rooms are changed by calls of one kind, no money service is called and no
start goes on. -/
structure Quiet (k : RoomCall → Bool) (g g' : Gateway) : Prop where
  rooms : RoomManager.Via k g.rooms g'.rooms
  money : g'.money = g.money
  begins : g'.begins = g.begins
  nextBegin : g'.nextBegin = g.nextBegin
  rakeBps : g'.rakeBps = g.rakeBps

namespace Quiet

theorem refl (g : Gateway) : Quiet k g g := ⟨.refl _, rfl, rfl, rfl, rfl⟩

theorem trans (h : Quiet k g g') (h' : Quiet k g' g'') : Quiet k g g'' :=
  ⟨Reaches.trans h.rooms h'.rooms, h'.money.trans h.money, h'.begins.trans h.begins,
    h'.nextBegin.trans h.nextBegin, h'.rakeBps.trans h.rakeBps⟩

theorem withRooms {rm : RoomManager} (h : RoomManager.Via k g.rooms rm) : Quiet k g (g.withRooms rm) :=
  ⟨h, rfl, rfl, rfl, rfl⟩

/-- One call on the rooms. -/
theorem call (c : RoomCall) (hp : g.rooms.Proper c) (hk : k c = true) : Quiet k g (g.withRooms (g.rooms.perform c)) :=
  .withRooms (.call _ c hp hk)

/-- A change of nothing that matters here. -/
theorem of_eq (hr : g'.rooms = g.rooms) (hm : g'.money = g.money) (hb : g'.begins = g.begins)
    (hn : g'.nextBegin = g.nextBegin) (hk : g'.rakeBps = g.rakeBps) : Quiet k g g' :=
  ⟨hr ▸ .refl _, hm, hb, hn, hk⟩

theorem foldl {α : Type} {f : Gateway → α → Gateway} (hf : ∀ g a, Quiet k g (f g a)) (l : List α) :
    ∀ g, Quiet k g (l.foldl f g) := by
  induction l with
  | nil => exact refl
  | cons a l ih => exact fun g => (hf g a).trans (ih _)

theorem of_kind {k' : RoomCall → Bool} (hk : ∀ c, k c = true → k' c = true) (h : Quiet k g g') : Quiet k' g g' :=
  ⟨h.rooms.of_kind hk, h.money, h.begins, h.nextBegin, h.rakeBps⟩

theorem departs (h : Quiet keeps g g') : Quiet RoomCall.departs g g' :=
  h.of_kind fun _ => RoomCall.departs_of_keeps

theorem calm (h : Quiet RoomCall.departs g g') : Quiet RoomCall.calm g g' :=
  h.of_kind fun _ => RoomCall.calm_of_departs

theorem rests (h : Quiet RoomCall.calm g g') : Quiet RoomCall.rests g g' :=
  h.of_kind fun _ => RoomCall.rests_of_calm

end Quiet

/-! ## Small changes -/

theorem maybeStartCountdown_quiet (g : Gateway) (i : ℕ) : Quiet k g (g.maybeStartCountdown i) :=
  .of_eq rfl rfl rfl rfl rfl

theorem clearCountdown_quiet (g : Gateway) (i : ℕ) : Quiet k g (g.clearCountdown i) := .of_eq rfl rfl rfl rfl rfl

theorem dequeue_quiet (g : Gateway) (u : ℕ) : Quiet k g (g.dequeue u) := .of_eq rfl rfl rfl rfl rfl

theorem setOffer_quiet (g : Gateway) (i : ℕ) (o : Option (List User)) : Quiet k g (g.setOffer i o) :=
  .of_eq rfl rfl rfl rfl rfl

theorem setTier_quiet (g : Gateway) (i : ℕ) (b : Bool) : Quiet k g (g.setTier i b) := .of_eq rfl rfl rfl rfl rfl

theorem setSocketRoom_quiet (g : Gateway) (s : ℕ) (o : Option ℕ) : Quiet k g (g.setSocketRoom s o) :=
  .of_eq rfl rfl rfl rfl rfl

theorem attachAll_quiet (g : Gateway) (u i : ℕ) : Quiet k g (g.attachAll u i) := .of_eq rfl rfl rfl rfl rfl

theorem endEnding_quiet (g : Gateway) (e : ℕ) : Quiet k g (g.endEnding e) := .of_eq rfl rfl rfl rfl rfl

theorem setEnding_quiet (g : Gateway) (e : ℕ) (x : Ending) : Quiet k g (g.setEnding e x) :=
  .of_eq rfl rfl rfl rfl rfl

theorem await_quiet (g : Gateway) (x : Ending) : Quiet k g (g.await x) := .of_eq rfl rfl rfl rfl rfl

theorem emitMatchEnd_quiet (g : Gateway) (e : MatchEnd) : Quiet k g (g.emitMatchEnd e) :=
  .of_eq rfl rfl rfl rfl rfl

theorem freeGone_quiet (g : Gateway) (i : ℕ) : Quiet calm g (g.freeGone i) := .call (.clearGoneSeats i) trivial rfl

theorem seated_quiet (g : Gateway) (s : Socket) (i : ℕ) : Quiet k g (g.seated s i) :=
  (g.dequeue_quiet s.userId).trans (setSocketRoom_quiet ..)

theorem leaveAndNotify_quiet (g : Gateway) (u : User) (i : ℕ) : Quiet departs g (g.leaveAndNotify u i) := by
  have hleave : Quiet departs g (g.withRooms (g.rooms.leaveRoom u)) := .call (.leaveRoom u) trivial rfl
  unfold leaveAndNotify
  simp only
  split
  · exact hleave.trans (clearCountdown_quiet ..)
  · exact hleave.trans (maybeStartCountdown_quiet ..)

theorem teardownBotRoom_quiet (g : Gateway) (i : ℕ) : Quiet departs g (g.teardownBotRoom i) := by
  unfold teardownBotRoom
  simp only
  split
  · exact setTier_quiet ..
  · refine (g.setTier_quiet i false).trans (.withRooms ?_)
    exact RoomManager.leaves_via _ _

/-! ## Messages -/

theorem onConnection_quiet (g : Gateway) (s u : ℕ) : Quiet keeps g (g.onConnection s u) := by
  unfold onConnection
  split
  · exact .refl g
  · split
    · exact ⟨.call _ (.setConnected (.human u) true) trivial rfl, rfl, rfl, rfl, rfl⟩
    · exact .of_eq rfl rfl rfl rfl rfl

/-- Someone gone ends no match by himself. -/
theorem onGone_quiet (g : Gateway) (u : ℕ) : Quiet departs g (g.onGone u) := by
  have hd := g.dequeue_quiet (k := departs) u
  unfold onGone
  simp only
  split
  · exact hd
  split
  · exact hd
  split
  · exact (hd.trans (leaveAndNotify_quiet ..)).trans (teardownBotRoom_quiet ..)
  split
  · exact hd.trans (.call (.setConnected (.human u) false) trivial rfl)
  · exact hd.trans (leaveAndNotify_quiet ..)

theorem onDisconnect_quiet (g : Gateway) (s : ℕ) : Quiet departs g (g.onDisconnect s) := by
  unfold onDisconnect
  split
  · exact .refl g
  · rename_i x _
    have hs : Quiet departs g { g with sockets := g.sockets.filter fun x => x.id ≠ s } := .of_eq rfl rfl rfl rfl rfl
    simp only
    split
    · exact hs
    · exact hs.trans (onGone_quiet ..)

/-- A new room ends no match. -/
theorem onCreate_quiet (g : Gateway) (s : ℕ) (p : RoomManager.CreatePayload) : Quiet keeps g (g.onCreate s p) := by
  unfold onCreate
  split
  · exact .refl g
  · rename_i x _
    have hc : Via keeps g.rooms (g.rooms.createRoom x.user p).1 :=
      g.rooms.createRoom_via x.userId _
    split
    · rename_i rooms i he
      rw [he] at hc
      exact (Quiet.withRooms hc).trans (seated_quiet ..)
    · rename_i rooms e he
      rw [he] at hc
      exact .withRooms hc

theorem autoReady_via (rm : RoomManager) (u : User) (i : ℕ) : Via keeps rm (autoReady rm u i) := by
  unfold autoReady
  split
  · exact rm.setReady_via u true
  · exact .refl rm

theorem onJoin_quiet (g : Gateway) (s i : ℕ) (team : Option ℕ) : Quiet keeps g (g.onJoin s i team) := by
  unfold onJoin
  split
  · exact .refl g
  · rename_i x _
    have hj : Via keeps g.rooms (g.rooms.joinRoom x.user i team).1 := g.rooms.joinRoom_via x.userId i team
    split
    · exact .refl g
    · rename_i rooms he
      rw [he] at hj
      exact ((Quiet.withRooms (Reaches.trans hj (autoReady_via ..))).trans (seated_quiet ..)).trans
        (maybeStartCountdown_quiet ..)

theorem onJoinByCode_quiet (g : Gateway) (s code : ℕ) : Quiet keeps g (g.onJoinByCode s code) := by
  unfold onJoinByCode
  split
  · exact .refl g
  · rename_i x _
    split
    · exact .refl g
    · rename_i i _
      have hi : Quiet keeps g (g.withRooms (g.rooms.markInvited i x.user)) :=
        .call (.markInvited i x.user) trivial rfl
      have hj : Via keeps (g.withRooms (g.rooms.markInvited i x.user)).rooms
          ((g.withRooms (g.rooms.markInvited i x.user)).rooms.joinRoom x.user i none).1 :=
        RoomManager.joinRoom_via _ x.userId i none
      simp only
      split
      · exact hi
      · rename_i rooms he
        rw [he] at hj
        exact ((hi.trans (Quiet.withRooms hj)).trans (seated_quiet ..)).trans (maybeStartCountdown_quiet ..)

theorem onReady_quiet (g : Gateway) (s : ℕ) (b : Bool) : Quiet keeps g (g.onReady s b) := by
  unfold onReady
  split
  · exact .refl g
  · rename_i x _
    have hr := g.rooms.setReady_via x.user b
    split
    · exact .refl g
    · rename_i he _
      rw [he] at hr
      exact (Quiet.withRooms hr).trans (maybeStartCountdown_quiet ..)
    · rename_i he _
      rw [he] at hr
      exact .withRooms hr

theorem onSwitchTeam_quiet (g : Gateway) (s team : ℕ) : Quiet keeps g (g.onSwitchTeam s team) := by
  unfold onSwitchTeam
  split
  · exact .refl g
  · rename_i x _
    have hr := g.rooms.switchTeam_via x.user team
    split
    · exact .refl g
    split
    · exact .refl g
    · rename_i he _
      rw [he] at hr
      exact (Quiet.withRooms hr).trans (maybeStartCountdown_quiet ..)
    · rename_i he _
      rw [he] at hr
      exact .withRooms hr

/-- With the full roster present the room is reset. -/
theorem startRematch_quiet (g : Gateway) (i : ℕ)
    (hp : ∀ r, g.rooms.rooms i = some r → rosterPresent r = true) : Quiet keeps g (g.startRematch i) := by
  have ho := g.setOffer_quiet (k := keeps) i none
  have hr := RoomManager.resetForRematch_via hp
  unfold startRematch
  simp only
  split
  · exact ho
  · rename_i rooms he
    rw [he] at hr
    exact (ho.trans (.withRooms (Reaches.trans hr (rooms.setReadyAll_via i true)))).trans
      (maybeStartCountdown_quiet ..)

theorem onRematch_quiet (g : Gateway) (s : ℕ) : Quiet keeps g (g.onRematch s) := by
  unfold onRematch
  split
  · exact .refl g
  split
  · exact .refl g
  split
  · exact .refl g
  split
  · exact .refl g
  rename_i r hr hno
  have hp : rosterPresent r = true := by
    simp only [Bool.or_eq_true, not_or, Bool.not_eq_true, Bool.not_eq_false'] at hno
    exact hno.2
  simp only
  split
  · refine startRematch_quiet _ _ fun x hx => ?_
    rw [hr] at hx
    cases hx
    exact hp
  · exact setOffer_quiet ..

/-! ## The ranked queue and rooms with bots -/

theorem enqueue_quiet (g : Gateway) (l : ℕ) : Quiet k g (g.enqueue l) := by
  unfold enqueue
  split
  · exact .refl g
  · exact .of_eq rfl rfl rfl rfl rfl

/-- Joins, one after another. -/
theorem joinAll_via (us : List ℕ) : ∀ (rm : RoomManager) (i : ℕ), Via keeps rm (joinAll rm i us).1 := by
  induction us with
  | nil => exact fun rm _ => .refl rm
  | cons u us ih =>
    intro rm i
    have hj := rm.joinRoom_via u i none
    unfold joinAll
    split
    · rename_i rm' he
      rw [he] at hj
      exact Reaches.trans hj (ih rm' i)
    · exact .refl rm

theorem attachGroup_quiet (g : Gateway) (i : ℕ) (group : List ℕ) : Quiet keeps g (g.attachGroup i group) :=
  Quiet.foldl (fun g u => (g.attachAll_quiet u i).trans (.call (.setReady (.human u) true) trivial rfl))
    group g

/-- A ranked group that sits down ends no match. -/
theorem seatRankedGroup_quiet (g : Gateway) (type : MatchType) (group : List ℕ) :
    Quiet departs g (g.seatRankedGroup type group) := by
  unfold seatRankedGroup
  split
  · exact .refl g
  rename_i creator rest
  split
  · exact .refl g
  have hc := g.rooms.createRoom_via creator { type, stakeCents := 0, ranked := true }
  split
  · rename_i rooms e he
    rw [he] at hc
    exact .withRooms hc.departs
  · rename_i rooms i he
    rw [he] at hc
    have hj := Via.departs (Reaches.trans hc (joinAll_via rest rooms i))
    split
    · rename_i rooms' he'
      rw [he'] at hj
      refine .withRooms (Reaches.trans hj ?_)
      exact Reaches.foldl (fun rm u => rm.leaveRoom_via (.human u)) _ _
    · rename_i rooms' he'
      rw [he'] at hj
      exact ((Quiet.withRooms hj).trans (attachGroup_quiet ..).departs).trans (maybeStartCountdown_quiet ..)

theorem tryFormRanked_quiet (g : Gateway) (type : MatchType) (group : List ℕ) :
    Quiet departs g (g.tryFormRanked type group) := by
  unfold tryFormRanked
  split
  · exact (Quiet.foldl dequeue_quiet group g).trans (seatRankedGroup_quiet ..)
  · exact .refl g

/-- Bots sit down, one after another. -/
theorem seatBots_via (seats : List ℕ) : ∀ (rm : RoomManager) (i : ℕ), Via keeps rm (seatBots rm i seats).1 := by
  induction seats with
  | nil => exact fun rm _ => .refl rm
  | cons k seats ih =>
    intro rm i
    have hj := rm.joinBot_via i k
    unfold seatBots
    simp only
    split
    · exact .refl rm
    · rename_i rm' he
      rw [he] at hj
      exact ((Reaches.trans hj (rm'.setConnected_via _ true)).trans (RoomManager.setReady_via ..)).trans (ih _ i)

theorem fillEmptySeatsWithBots_via (rm : RoomManager) (i : ℕ) :
    Via keeps rm (fillEmptySeatsWithBots rm i).1 := by
  unfold fillEmptySeatsWithBots
  split
  · exact .refl rm
  split
  · exact .refl rm
  · exact seatBots_via ..

theorem startWithBots_quiet (g : Gateway) (i : ℕ) : Quiet departs g (g.startWithBots i) := by
  have hf := (fillEmptySeatsWithBots_via g.rooms i).departs
  unfold startWithBots
  split
  · rename_i rooms he
    rw [he] at hf
    exact (Quiet.withRooms hf).trans (maybeStartCountdown_quiet ..)
  · rename_i rooms he
    rw [he] at hf
    exact (Quiet.withRooms hf).trans (teardownBotRoom_quiet ..)

theorem openBotRoom_quiet (g : Gateway) (u : ℕ) (p : RoomManager.CreatePayload) :
    Quiet departs g (g.openBotRoom u p) := by
  have hc := g.rooms.createRoom_via u p
  unfold openBotRoom
  split
  · rename_i rooms e he
    rw [he] at hc
    exact .withRooms hc.departs
  · rename_i rooms i he
    rw [he] at hc
    have hready := Reaches.trans hc (rooms.setReady_via (.human u) true)
    have hready := Quiet.withRooms (Via.departs hready)
    exact ((hready.trans (setTier_quiet ..)).trans (attachAll_quiet ..)).trans (startWithBots_quiet ..)

theorem formRankedVsBots_quiet (g : Gateway) (u : ℕ) (type : MatchType) :
    Quiet departs g (g.formRankedVsBots u type) := by
  unfold formRankedVsBots
  split
  · exact .refl g
  simp only
  split
  · exact dequeue_quiet ..
  · exact (g.dequeue_quiet u).trans (openBotRoom_quiet ..)

theorem onPracticeStart_quiet (g : Gateway) (s : ℕ) (type : MatchType) : Quiet departs g (g.onPracticeStart s type) := by
  unfold onPracticeStart
  split
  · exact .refl g
  split
  · exact .refl g
  · exact openBotRoom_quiet ..

theorem ghostFill_quiet (g : Gateway) (i : ℕ) : Quiet departs g (g.ghostFill i) := by
  unfold ghostFill
  split
  · exact .refl g
  · rename_i r hr
    split
    · rename_i hfill
      have hst : ∀ x, g.rooms.rooms i = some x → x.status = .waiting := by
        intro x hx
        rw [hr] at hx
        cases hx
        unfold fillable at hfill
        simp only [Bool.and_eq_true, decide_eq_true_eq] at hfill
        exact hfill.1.1.2
      exact ((Quiet.call (.markPractice i) hst rfl).trans (setTier_quiet ..)).trans (startWithBots_quiet ..)
    · exact .refl g

/-- A waiting room that players leave keeps waiting. -/
theorem leaves_waiting (us : List User) : ∀ {rm : RoomManager} {i : ℕ},
    (∀ r, rm.rooms i = some r → r.status = .waiting) →
      ∀ r, (us.foldl RoomManager.leaveRoom rm).rooms i = some r → r.status = .waiting := by
  induction us with
  | nil => exact fun h => h
  | cons u us ih =>
    intro rm i h
    refine ih fun r hr => ?_
    unfold RoomManager.leaveRoom at hr
    split at hr
    · exact h r hr
    split at hr
    · exact h r hr
    rename_i j _ _ x hx
    unfold RoomManager.settleLeft at hr
    split at hr
    · rcases RoomManager.put_cases hr with ⟨rfl, rfl⟩ | ⟨-, hr⟩
      · have hst := h x hx
        unfold Room.vacate Room.emptySeatOf
        split
        · rfl
        · split <;> exact hst
      · exact h r hr
    · by_cases hij : i = j
      · have hnone : (rm.delete j).rooms i = none := by rw [hij]; exact Function.update_self ..
        rw [show (rm.delete j).rooms i = some r from hr] at hnone
        cases hnone
      · have hsame : (rm.delete j).rooms i = rm.rooms i := Function.update_of_ne hij ..
        rw [show (rm.delete j).rooms i = some r from hr] at hsame
        exact h r hsame.symm

theorem onTournamentNoShow_quiet (g : Gateway) (i : ℕ) : Quiet departs g (g.onTournamentNoShow i) := by
  unfold onTournamentNoShow
  split
  · exact .refl g
  split
  · exact .refl g
  rename_i r hr hst
  have hwait : ∀ x, g.rooms.rooms i = some x → x.status = .waiting := by
    intro x hx
    rw [hr] at hx
    cases hx
    simp only [Bool.or_eq_true, not_or, decide_eq_true_eq, not_not, ne_eq] at hst
    exact hst.2
  refine .withRooms (Reaches.trans (RoomManager.leaves_via _ _) (Via.call _ (.deleteRoom i) ?_ rfl))
  exact leaves_waiting _ hwait

/-! ## The end of a match -/

theorem announce_quiet (g : Gateway) (i : ℕ) (result : EndResult) (payout : Option ℕ) :
    Quiet calm g (g.announce i result payout) := by
  unfold announce
  split
  · exact .refl g
  · exact (emitMatchEnd_quiet ..).trans (freeGone_quiet ..)

theorem announceVoid_quiet (g : Gateway) (i : ℕ) (result : EndResult) : Quiet calm g (g.announceVoid i result) :=
  (emitMatchEnd_quiet ..).trans (freeGone_quiet ..)

theorem afterPayout_quiet (g : Gateway) (k : ℕ) (x : Ending) (payout : Option ℕ) :
    Quiet calm g (g.afterPayout k x payout) := by
  unfold afterPayout
  split
  · exact (announce_quiet ..).trans (endEnding_quiet ..)
  · exact setEnding_quiet ..

/-- An end under way ends nothing else. -/
theorem resumeEnding_quiet (g : Gateway) (k : ℕ) : Quiet calm g (g.resumeEnding k) := by
  unfold resumeEnding
  split
  · exact .refl g
  split
  · split
    · exact (announceVoid_quiet ..).trans (endEnding_quiet ..)
    · exact (freeGone_quiet ..).trans (endEnding_quiet ..)
    · exact .refl g
  · split
    · exact afterPayout_quiet ..
    · exact (freeGone_quiet ..).trans (endEnding_quiet ..)
    · exact (freeGone_quiet ..).trans (endEnding_quiet ..)
    · exact .refl g
  · exact (announce_quiet ..).trans (endEnding_quiet ..)
  · split
    · exact (emitMatchEnd_quiet ..).trans (endEnding_quiet ..)
    · exact endEnding_quiet ..
    · exact .refl g

/-- The room `i` is in no match, if it exists. -/
def Idle (g : Gateway) (i : ℕ) : Prop := ∀ r, g.rooms.rooms i = some r → r.status ≠ .inMatch

/-- A room in a match. -/
def Live (g : Gateway) (i : ℕ) (r : Room) : Prop := g.rooms.rooms i = some r ∧ r.status = .inMatch

theorem Quiet.idle (h : Quiet RoomCall.rests g g') {i : ℕ} (hseq : i ≤ g.rooms.seq) (hi : g.Idle i) : g'.Idle i := by
  intro r' hr' hl
  rcases h.rooms.atRest.room i r' hr' with ⟨r, hr, hrest⟩ | ⟨hlo, -⟩
  · exact hi r hr (hrest.live hl)
  · omega

/-- A handler that may end one live match: its room is in no match afterwards, and
its id is settled or refunded. -/
def Finishes (g g' : Gateway) : Prop :=
  Quiet rests g g' ∨
    ∃ i r id, g.Live i r ∧ r.matchId = some id ∧ g'.Idle i ∧ Via rests g.rooms g'.rooms ∧
      g'.begins = g.begins ∧ g'.nextBegin = g.nextBegin ∧ g'.rakeBps = g.rakeBps ∧
      (g'.money = g.money.refund id ∨ ∃ e : EndResult, g'.money = g.money.settle (e.settleInput id))

/-- What follows is quiet. -/
theorem Finishes.quiet (h : Finishes g g') (hq : Quiet rests g' g'')
    (hseq : ∀ i r, g.rooms.rooms i = some r → i ≤ g.rooms.seq) : Finishes g g'' := by
  rcases h with h | ⟨i, r, id, hl, hid, hidle, hrest, hb, hn, hk, hm⟩
  · exact Or.inl (h.trans hq)
  · have hi : i ≤ g'.rooms.seq := (hseq i r hl.1).trans hrest.atRest.seq
    refine Or.inr ⟨i, r, id, hl, hid, hq.idle hi hidle, Reaches.trans hrest hq.rooms, hq.begins.trans hb,
      hq.nextBegin.trans hn, hq.rakeBps.trans hk, ?_⟩
    rw [hq.money]
    exact hm

/-- What came before left the rooms alone. -/
theorem Finishes.after (h : Finishes g' g'') (hr : g'.rooms = g.rooms) (hq : Quiet rests g g') : Finishes g g'' := by
  rcases h with h | ⟨i, r, id, hl, hid, hidle, hrest, hb, hn, hk, hm⟩
  · exact Or.inl (hq.trans h)
  · rw [hq.money] at hm
    exact Or.inr ⟨i, r, id, ⟨hr ▸ hl.1, hl.2⟩, hid, hidle, hr ▸ hrest, hb.trans hq.begins,
      hn.trans hq.nextBegin, hk.trans hq.rakeBps, hm⟩

/-- The match of the room `i` has begun, if the room exists. -/
def Begun (g : Gateway) (i : ℕ) : Prop :=
  ∀ r, g.rooms.rooms i = some r → r.status = .inMatch ∨ r.status = .finished

/-- All that a claim to finalize does. -/
theorem claimFinalize_some {i : ℕ} (h : g.claimFinalize i = some g') :
    g'.rooms = g.rooms.markFinished i ∧ g'.money = g.money ∧ g.finalizeKey i ∉ g.finalized ∧
      g'.endings = g.endings ∧ g'.nextEnding = g.nextEnding ∧ g'.matchEnds = g.matchEnds := by
  unfold claimFinalize at h
  simp only at h
  split at h
  · cases h
  · rename_i hnew
    cases h
    exact ⟨rfl, rfl, hnew, rfl, rfl, rfl⟩

theorem claimFinalize_quiet {i : ℕ} (h : g.claimFinalize i = some g') (hb : g.Begun i) : Quiet calm g g' := by
  unfold claimFinalize at h
  simp only at h
  split at h
  · cases h
  · cases h
    exact ⟨.call _ (.markFinished i) hb rfl, rfl, rfl, rfl, rfl⟩

/-- A room whose match is over is finished. -/
theorem markFinished_idle (rm : RoomManager) (i : ℕ) {r : Room} (hr : (rm.markFinished i).rooms i = some r) :
    r.status = .finished := by
  unfold RoomManager.markFinished RoomManager.modify at hr
  split at hr
  · rename_i hn
    rw [hn] at hr
    cases hr
  · have hput : ∀ x, (rm.put i x).rooms i = some x := fun x => Function.update_self ..
    rw [hput] at hr
    cases hr
    rfl

/-- It keeps its id. -/
theorem matchIdOf_markFinished (rm : RoomManager) (i : ℕ) :
    (rm.markFinished i).matchIdOf i = rm.matchIdOf i := by
  unfold RoomManager.matchIdOf RoomManager.markFinished RoomManager.modify
  split
  · rfl
  · rename_i r hr
    have hput : ∀ x, (rm.put i x).rooms i = some x := fun x => Function.update_self ..
    rw [hput, hr]
    rfl

/-- **The end of a match**, called for a room that was live when the handler began. -/
theorem settleAndEmitMatchEnd_finishes (hq : Quiet rests g g₁) {i : ℕ} {r : Room} (hl : g.Live i r)
    (hb : g₁.Begun i) (result : EndResult) : Finishes g (g₁.settleAndEmitMatchEnd i result) := by
  unfold settleAndEmitMatchEnd
  cases hc : g₁.claimFinalize i with
  | none => exact Or.inl hq
  | some g₂ =>
    have hq₂ := claimFinalize_quiet hc hb
    have hrooms := (claimFinalize_some hc).1
    have hq' := hq.trans hq₂.rests
    have hid : ∀ id, g₂.rooms.matchIdOf i = some id → r.matchId = some id := by
      intro id h
      rw [hrooms, matchIdOf_markFinished] at h
      obtain ⟨r₁, hr₁, hid⟩ := Option.bind_eq_some_iff.1 h
      rcases hq.rooms.atRest.room i r₁ hr₁ with ⟨r₀, hr₀, hrest⟩ | ⟨-, -, -, hnone, -⟩
      · rw [hl.1] at hr₀
        cases hr₀
        rw [← hrest.matchId]
        exact hid
      · rw [hnone] at hid
        cases hid
    have hidle : g₂.Idle i := by
      intro x hx
      rw [hrooms] at hx
      rw [markFinished_idle _ _ hx]
      simp
    simp only
    split
    · rename_i id _ hsome
      exact Or.inr ⟨i, r, id, hl, hid id hsome, hidle, hq'.rooms, hq'.begins, hq'.nextBegin, hq'.rakeBps,
        Or.inl (congrArg (Money.refund · id) hq'.money)⟩
    · exact Or.inl (hq'.trans (announceVoid_quiet ..).rests)
    · rename_i id hws hsome
      split
      · exact Or.inl ((hq'.trans (await_quiet ..)).trans (afterPayout_quiet ..).rests)
      · exact Or.inr ⟨i, r, id, hl, hid id hsome, hidle, hq'.rooms, hq'.begins, hq'.nextBegin, hq'.rakeBps,
          Or.inr ⟨result, congrArg (Money.settle · (result.settleInput id)) hq'.money⟩⟩
    · exact Or.inl ((hq'.trans (await_quiet ..)).trans (afterPayout_quiet ..).rests)

/-! ## A match is finalized once -/

/-- The match of the room has been finalized. -/
def Claimed (g : Gateway) (i : ℕ) : Prop := g.finalizeKey i ∈ g.finalized

theorem settleAndEmitMatchEnd_claimed {i : ℕ} (h : g.Claimed i) (result : EndResult) :
    g.settleAndEmitMatchEnd i result = g := by
  have hc : g.claimFinalize i = none := if_pos h
  unfold settleAndEmitMatchEnd
  rw [hc]

/-- A change that keeps the id keeps it. -/
theorem matchIdOf_modify (rm : RoomManager) (i j : ℕ) {f : Room → Room} (hf : ∀ r, (f r).matchId = r.matchId) :
    (rm.modify i f).matchIdOf j = rm.matchIdOf j := by
  unfold RoomManager.matchIdOf RoomManager.modify
  split
  · rfl
  · rename_i r hr
    by_cases hj : j = i
    · subst hj
      have hput : (rm.put j (f r)).rooms j = some (f r) := Function.update_self ..
      rw [hput, hr]
      exact hf r
    · have hput : (rm.put i (f r)).rooms j = rm.rooms j := Function.update_of_ne hj ..
      rw [hput]

theorem modify_tag (rm : RoomManager) (i : ℕ) (f : Room → Room) :
    (rm.modify i f).instanceTag = rm.instanceTag := by
  unfold RoomManager.modify
  split <;> rfl

/-- A claim stands while seats are freed. -/
theorem Claimed.freeGone {i j : ℕ} (h : g.Claimed i) : (g.freeGone j).Claimed i := by
  have hkey : (g.freeGone j).finalizeKey i = g.finalizeKey i := by
    have hid : (g.freeGone j).rooms.matchIdOf i = g.rooms.matchIdOf i := matchIdOf_modify _ _ _ fun _ => rfl
    have htag : (g.freeGone j).rooms.instanceTag = g.rooms.instanceTag := modify_tag ..
    unfold finalizeKey
    rw [hid, htag]
  unfold Claimed
  rw [hkey]
  exact h

/-- A claim stands while the end is told. -/
theorem Claimed.announce {i : ℕ} (h : g.Claimed i) (result : EndResult) (payout : Option ℕ) :
    (g.announce i result payout).Claimed i := by
  unfold Gateway.announce
  split
  · exact h
  · rename_i sb _
    have he : (g.emitMatchEnd { roomId := i, result, scoreboard := sb, payoutCents := payout }).Claimed i := h
    exact he.freeGone

/-- A claim stands after the payout. -/
theorem Claimed.afterPayout {i k : ℕ} {x : Ending} (h : g.Claimed i) (hx : x.roomId = i) (payout : Option ℕ) :
    (g.afterPayout k x payout).Claimed i := by
  unfold Gateway.afterPayout
  split
  · have ha := h.announce x.result payout
    rw [← hx] at ha ⊢
    exact ha
  · exact h

/-- Who claims the end has it. -/
theorem claimFinalize_claimed {i : ℕ} (h : g.claimFinalize i = some g') : g'.Claimed i := by
  unfold claimFinalize at h
  simp only at h
  split at h
  · cases h
  · cases h
    have hid : (g.rooms.markFinished i).matchIdOf i = g.rooms.matchIdOf i := matchIdOf_markFinished ..
    have htag : (g.rooms.markFinished i).instanceTag = g.rooms.instanceTag := modify_tag ..
    unfold Claimed finalizeKey
    simp only [hid, htag]
    split
    · rename_i hcap
      cases hf : g.finalized with
      | nil => rw [hf] at hcap; simp [finalizedCap] at hcap
      | cons a l => simp
    · simp

/-- The end of a match leaves it finalized. -/
theorem settleAndEmitMatchEnd_claims (g : Gateway) (i : ℕ) (result : EndResult) :
    (g.settleAndEmitMatchEnd i result).Claimed i := by
  unfold settleAndEmitMatchEnd
  cases hc : g.claimFinalize i with
  | none =>
    unfold claimFinalize at hc
    simp only at hc
    split at hc
    · rename_i h; exact h
    · cases hc
  | some g₂ =>
    have h := claimFinalize_claimed hc
    simp only
    split
    · exact h
    · have he : (g₂.emitMatchEnd { roomId := i, result := { result with winnerSide := -1, winnerSeats := [] },
                                   scoreboard := g₂.scoreboardOr i, payoutCents := none }).Claimed i := h
      exact he.freeGone
    · split
      · have ha : (g₂.await { roomId := i, result, stage := .recording none }).Claimed i := h
        exact ha.afterPayout rfl none
      · exact h
    · have ha : (g₂.await { roomId := i, result, stage := .recording none }).Claimed i := h
      exact ha.afterPayout rfl none

/-- With the end claimed, events change nothing. -/
theorem applyResult_claimed {i : ℕ} (evs : List MatchEvent) :
    ∀ g : Gateway, g.Claimed i → evs.foldl (applyEvent i) g = g := by
  induction evs with
  | nil => exact fun _ _ => rfl
  | cons e evs ih =>
    intro g h
    have he : applyEvent i g e = g := by
      unfold applyEvent
      split
      · exact settleAndEmitMatchEnd_claimed h _
      · rfl
    rw [List.foldl_cons, he]
    exact ih g h

/-! ## Actions and forfeits -/

/-- What an action has for events: nothing, or the end of the match. -/
theorem applyResult_cases (g : Gateway) (i : ℕ) (r : MatchActionResult) :
    g.applyResult i r = g ∨ ∃ result, g.applyResult i r = g.settleAndEmitMatchEnd i result := by
  unfold applyResult
  induction r.matchEvents with
  | nil => exact Or.inl rfl
  | cons e evs ih =>
    rw [List.foldl_cons]
    cases e with
    | matchEnded side seats scores =>
      right
      refine ⟨{ winnerSide := side, winnerSeats := seats, finalSideScores := scores }, ?_⟩
      exact applyResult_claimed evs _ (settleAndEmitMatchEnd_claims g i _)
    | _ => exact ih

theorem applyResult_finishes (hq : Quiet rests g g₁) {i : ℕ} {r : Room} (hl : g.Live i r) (hb : g₁.Begun i)
    (a : MatchActionResult) : Finishes g (g₁.applyResult i a) := by
  rcases g₁.applyResult_cases i a with h | ⟨result, h⟩
  · rw [h]; exact Or.inl hq
  · rw [h]; exact settleAndEmitMatchEnd_finishes hq hl hb result

/-- A room that was live is live or finished after a call that reaches its match. -/
theorem Begun.of_put {rm : RoomManager} {i j : ℕ} {r x y : Room} (hr : g.rooms.rooms i = some r)
    (hst : r.status = .inMatch) (hx : g.rooms.rooms j = some x)
    (hy : x.status = .inMatch → y.status = .inMatch ∨ y.status = .finished)
    (he : rm.rooms = (g.rooms.put j y).rooms) : (g.withRooms rm).Begun i := by
  intro z hz
  have hz' : (g.rooms.put j y).rooms i = some z := by rw [← he]; exact hz
  rcases RoomManager.put_cases hz' with ⟨rfl, rfl⟩ | ⟨-, hz'⟩
  · rw [hr] at hx
    cases hx
    exact hy hst
  · rw [hr] at hz'
    cases hz'
    exact Or.inl hst

theorem withMatch_begun {r : Room} (m : Match) (h : r.status = .inMatch) :
    (r.withMatch m).status = .inMatch ∨ (r.withMatch m).status = .finished := by
  unfold Room.withMatch
  simp only
  split
  · exact Or.inr rfl
  · exact Or.inl h

/-- A move ends at most its own room's match. -/
theorem act_finishes (g : Gateway) (u : User) (call : ℕ → Match.Call) : Finishes g (g.act u call) := by
  have hq : Quiet rests g (g.withRooms (g.rooms.forward u call).1) := .call (.forward u call) trivial rfl
  unfold act
  simp only
  split
  · rename_i i _ hi
    rcases g.rooms.forward_cases u call with ⟨-, hnone⟩ | ⟨j, r, m, k, -, hr, -, hst, -, h⟩
    · rw [hnone] at hi; cases hi
    · rw [h] at hi hq ⊢
      cases hi
      exact applyResult_finishes hq ⟨hr, hst⟩ (.of_put hr hst hr (withMatch_begun _) rfl) _
  · exact Or.inl hq

/-- After a forfeit a live room is live or finished. -/
theorem forfeitSeat_begun {i : ℕ} {r : Room} (hr : g.rooms.rooms i = some r) (hst : r.status = .inMatch) (u : User) :
    (g.withRooms (g.rooms.forfeitSeat u).1).Begun i := by
  rcases g.rooms.forfeitSeat_cases u with ⟨h, -⟩ | ⟨j, x, m, k, -, hx, -, -, -, -, ⟨-, h⟩ | ⟨-, h⟩⟩
  · rw [h]
    intro y hy
    have hy' : g.rooms.rooms i = some y := hy
    rw [hr] at hy'
    cases hy'
    exact Or.inl hst
  · refine .of_put (y := (x.modifySeat k RoomManager.abandoned).withMatch (m.answer (.forfeit k)).2) hr hst hx ?_ ?_
    · exact fun hl => withMatch_begun _ hl
    · rw [h]
      rfl
  · exact .of_put hr hst hx (withMatch_begun _) (by rw [h])

/-- The user of the seat is a human, if it has one. -/
def HumanAt (g : Gateway) (i seat : ℕ) : Prop :=
  ∀ u, g.rooms.userAtSeat i seat = some u → isBot (some u) = false

/-- So does a forfeit. -/
theorem forfeitMatch_finishes (g : Gateway) (i seat : ℕ) (hu : g.HumanAt i seat) :
    Finishes g (g.forfeitMatch i seat) := by
  unfold forfeitMatch
  split
  · exact Or.inl (.refl g)
  · rename_i r hr
    split
    · exact Or.inl (.refl g)
    rename_i hlive
    split
    · exact Or.inl (.refl g)
    rename_i u hseat
    have hbot : isBot (some u) = false := by
      refine hu u ?_
      unfold RoomManager.userAtSeat
      rw [hr]
      exact hseat
    have hq : Quiet rests g (g.withRooms (g.rooms.forfeitSeat u).1) := .call (.forfeitSeat u) hbot rfl
    have hst : r.status = .inMatch := by
      simp only [Bool.or_eq_true, decide_eq_true_eq, not_or, ne_eq, not_not] at hlive
      exact hlive.2
    simp only
    split
    · exact applyResult_finishes hq ⟨hr, hst⟩ (forfeitSeat_begun hr hst u) _
    · exact Or.inl hq

/-- A human has a human's seat. -/
theorem humanAt_seatOf {i seat n : ℕ} (h : g.rooms.seatOf i (.human n) = some seat) : g.HumanAt i seat := by
  intro u hu
  unfold RoomManager.seatOf RoomManager.userAtSeat at *
  obtain ⟨r, hr, hseat⟩ := Option.bind_eq_some_iff.1 h
  rw [hr] at hu
  have hsame : some u = some (.human n) := hu.symm.trans (Room.seatOf_some hseat).1
  cases hsame
  rfl

theorem leaveOrForfeit_finishes (g : Gateway) (n i : ℕ) : Finishes g (g.leaveOrForfeit (.human n) i) := by
  unfold leaveOrForfeit
  split
  · rename_i hseat
    split
    · exact forfeitMatch_finishes _ _ _ (humanAt_seatOf hseat)
    · exact Or.inl (leaveAndNotify_quiet ..).calm.rests
  · exact Or.inl (leaveAndNotify_quiet ..).calm.rests

theorem onLeave_finishes (g : Gateway) (s : ℕ) (hseq : ∀ i r, g.rooms.rooms i = some r → i ≤ g.rooms.seq) :
    Finishes g (g.onLeave s) := by
  unfold onLeave
  split
  · exact Or.inl (.refl g)
  split
  · exact Or.inl (.refl g)
  · rename_i x _ _ i _
    -- the socket has left the room and the offer is off
    have hq : Quiet rests g ((g.cancelRematch i).setSocketRoom s none) := .of_eq rfl rfl rfl rfl rfl
    have h : Finishes g (((g.cancelRematch i).setSocketRoom s none).leaveOrForfeit x.user i) :=
      (leaveOrForfeit_finishes _ x.userId i).after rfl hq
    simp only
    split
    · exact h.quiet (teardownBotRoom_quiet ..).calm.rests hseq
    · exact h

theorem onAbandon_finishes (g : Gateway) (i u : ℕ) : Finishes g (g.onAbandon i u) := by
  unfold onAbandon
  split
  · exact Or.inl (.refl g)
  split
  · exact Or.inl (.refl g)
  · rename_i hseat
    exact forfeitMatch_finishes _ _ _ (humanAt_seatOf hseat)

theorem onIdle_finishes (g : Gateway) (i seat : ℕ) : Finishes g (g.onIdle i seat) := by
  unfold onIdle
  split
  · exact Or.inl (.refl g)
  · rename_i hbot
    refine forfeitMatch_finishes _ _ _ fun u hu => ?_
    rw [hu] at hbot
    simpa using hbot

theorem adminVoidMatch_finishes (g : Gateway) (i : ℕ) : Finishes g (g.adminVoidMatch i) := by
  unfold adminVoidMatch
  split
  · rename_i hany
    obtain ⟨r, hr, hst⟩ := (Option.any_eq_true ..).1 hany
    have hl : g.Live i r := ⟨hr, of_decide_eq_true hst⟩
    have hb : g.Begun i := by
      intro x hx
      rw [hr] at hx
      cases hx
      exact Or.inl hl.2
    cases hc : g.claimFinalize i with
    | none => exact Or.inl (.refl g)
    | some g₂ =>
      have hq := claimFinalize_quiet hc hb
      have hrooms := (claimFinalize_some hc).1
      simp only
      split
      · rename_i id hid
        rw [hrooms, matchIdOf_markFinished] at hid
        obtain ⟨r₁, hr₁, hid⟩ := Option.bind_eq_some_iff.1 hid
        rw [hr] at hr₁
        cases hr₁
        refine Or.inr ⟨i, r, id, hl, hid, fun x hx => ?_, hq.rests.rooms, hq.begins, hq.nextBegin, hq.rakeBps,
          Or.inl (congrArg (Money.refund · id) hq.money)⟩
        have hx' : (g.rooms.markFinished i).rooms i = some x := hrooms ▸ hx
        rw [markFinished_idle _ _ hx']
        simp
      · exact Or.inl (hq.rests.trans (emitMatchEnd_quiet ..))
  · exact Or.inl (.refl g)

end Gateway

end Murlan
