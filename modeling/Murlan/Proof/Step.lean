import Murlan.Proof.Money
import Murlan.Proof.Quiet

/-!
# One event of the server

* `step_keeps`, `step_departs`: the events that reach no match.
* `step_finishes`: an event that takes no start on and is not the money services' own
  is quiet or ends one live match.
* `step_oneCall`: an event makes at most one call of the money services, or one step
  of one of their tasks; `run_moneyOK`: so they keep their invariant in every run.
-/

namespace Murlan

/-- The event is a recovery of orphaned matches. -/
def MoneyEvent.isRecover {U M : Type} : MoneyEvent U M → Bool
  | .recoverOrphanedMatches _ => true
  | _ => false

/-- The events that take a start on, or reach the money services directly. -/
def Event.starts : Event → Bool
  | .countdown _ _ | .checked _ _ _ | .resumeBegin _ _ => true
  | .sweep | .db _ _ | .resume _ | .register _ | .walletMove _ _ _ _ => true
  | _ => false

/-- The events whose handler reaches no match and takes nobody from a seat. -/
def Event.keeps : Event → Bool
  | .connect _ _ | .create _ _ | .join _ _ _ | .joinByCode _ _ | .invite _ _ | .ready _ _ | .switchTeam _ _ => true
  | .rematch _ | .rematchTimeout _ | .rankedQueueJoin _ _ | .enqueue _ | .rankedQueueLeave _ => true
  | .tournamentRoom _ | .clubWarRoom _ => true
  | _ => false

/-- The events whose handler reaches no match and takes only leavers from their seats. -/
def Event.departs (e : Event) : Bool :=
  e.keeps || match e with
    | .disconnect _ | .formRanked _ _ | .formRankedVsBots _ _ | .practiceStart _ _ | .ghostFill _ => true
    | .tournamentNoShow _ => true
    | _ => false

/-- The event is a sweep. -/
def Event.isSweep : Event → Bool
  | .sweep => true
  | _ => false

namespace Gateway

open RoomCall (rests calm departs keeps)
open RoomManager (Via)

variable {g g' : Gateway} {k : RoomCall → Bool}

/-! ## The money services below the gateway -/

/-- Rooms are numbered in the order they were opened. -/
def Numbered (g : Gateway) : Prop := ∀ i r, g.rooms.rooms i = some r → i ≤ g.rooms.seq

/-- At most one call of the money services, which is no sweep, or one step of one of
their tasks. -/
structure OneCall (g g' : Gateway) : Prop where
  money : g'.money = g.money ∨ ∃ e : MoneyEvent User MatchId, e.isRecover = false ∧ g'.money = g.money.step e
  numbered : g.Numbered → g'.Numbered

theorem Numbered.rests (h : g.Numbered) (hr : RoomManager.Rests g.rooms g'.rooms) : g'.Numbered := by
  intro i r' hr'
  rcases hr.room i r' hr' with ⟨r, hr₀, -⟩ | ⟨-, hi, -⟩
  · exact (h i r hr₀).trans hr.seq
  · exact hi

/-- A room written back keeps its number. -/
theorem Numbered.of_put {i : ℕ} {r r' : Room} (h : g.Numbered) (hr : g.rooms.rooms i = some r)
    (he : g'.rooms = g.rooms.put i r') : g'.Numbered := by
  intro j x hx
  rw [he] at hx ⊢
  by_cases hj : j = i
  · exact hj ▸ h i r hr
  · have hsame : (g.rooms.put i r').rooms j = g.rooms.rooms j := Function.update_of_ne hj ..
    exact h j x (hsame ▸ hx)

namespace OneCall

theorem moneyOK (h : OneCall g g') (hok : MoneyOK g.money) : MoneyOK g'.money := by
  rcases h.money with h | ⟨e, -, h⟩
  · rw [h]; exact hok
  · rw [h]; exact hok.step_ok e

theorem refl (g : Gateway) : OneCall g g := ⟨Or.inl rfl, id⟩

/-- One call, and nothing of the rooms. -/
theorem of_call {e : MoneyEvent User MatchId} (he : e.isRecover = false) (hm : g'.money = g.money.step e)
    (hr : g'.rooms = g.rooms) : OneCall g g' := by
  refine ⟨Or.inr ⟨e, he, hm⟩, fun h i r hir => ?_⟩
  rw [hr] at hir ⊢
  exact h i r hir

/-- What came before made no call. -/
theorem after {g₁ : Gateway} (h : OneCall g₁ g') (hm : g₁.money = g.money) (hn : g.Numbered → g₁.Numbered) :
    OneCall g g' := ⟨hm ▸ h.money, fun h' => h.numbered (hn h')⟩

end OneCall

theorem Quiet.oneCall (h : Quiet RoomCall.rests g g') : OneCall g g' := ⟨Or.inl h.money, fun hn => hn.rests h.rooms.atRest⟩

theorem Finishes.oneCall (h : Finishes g g') : OneCall g g' := by
  rcases h with h | ⟨i, r, id, -, -, -, hrest, -, -, -, hm⟩
  · exact h.oneCall
  · refine ⟨Or.inr ?_, fun hn => hn.rests hrest.atRest⟩
    rcases hm with hm | ⟨e, hm⟩
    · exact ⟨.refund id, rfl, hm⟩
    · exact ⟨.settle (e.settleInput id), rfl, hm⟩

theorem unreadyUnlessLive_rooms (g : Gateway) (i : ℕ) :
    g.unreadyUnlessLive i = g.withRooms (g.unreadyUnlessLive i).rooms := by
  unfold unreadyUnlessLive
  split <;> rfl

theorem unreadyUnlessLive_quiet (g : Gateway) (i : ℕ) : Quiet keeps g (g.unreadyUnlessLive i) := by
  unfold unreadyUnlessLive
  split
  · exact .withRooms (RoomManager.setReadyAll_via ..)
  · exact .refl g

theorem endBegin_oneCall (h : OneCall g g') (b : ℕ) : OneCall g (g'.endBegin b) := ⟨h.money, h.numbered⟩

theorem startFailed_oneCall (g : Gateway) (b : ℕ) (x : Begin) : OneCall g (g.startFailed b x) := by
  unfold startFailed
  split
  · rename_i id _
    exact .of_call (e := .refund id) rfl rfl rfl
  · exact endBegin_oneCall (unreadyUnlessLive_quiet ..).departs.calm.rests.oneCall b

theorem undo_oneCall (g : Gateway) (b : ℕ) (x : Begin) : OneCall g (g.undo b x) :=
  .of_call (e := .refund x.matchId) rfl rfl rfl

theorem launch_oneCall (g : Gateway) (b : ℕ) (x : Begin) (esc : Bool) (deal : ℕ → List (List Card)) :
    OneCall g (g.launch b x esc deal) := by
  unfold launch
  rcases g.rooms.startMatch_cases x.roomId deal with ⟨e, h⟩ | ⟨e, h⟩ | ⟨r, m, hr, -, -, -, h⟩
  · rw [h]
    exact startFailed_oneCall ..
  · rw [h]
    simp only
    split
    · exact undo_oneCall ..
    · exact endBegin_oneCall (Quiet.withRooms (g.rooms.setReadyAll_via ..)).departs.calm.rests.oneCall b
  · rw [h]
    exact ⟨Or.inl rfl, fun hn => hn.of_put hr rfl⟩

theorem escrowStakes_oneCall (g : Gateway) (b : ℕ) (x : Begin) (deal : ℕ → List (List Card)) :
    OneCall g (g.escrowStakes b x deal) := by
  unfold escrowStakes
  split
  · exact launch_oneCall ..
  · rename_i r _
    split
    · exact launch_oneCall ..
    · exact .of_call (e := .escrow (r.escrowInput x.matchId g.rakeBps)) rfl rfl rfl

theorem checkFrom_oneCall (g : Gateway) (b : ℕ) (x : Begin) (seat : ℕ) (blocked : Bool)
    (deal : ℕ → List (List Card)) : OneCall g (g.checkFrom b x seat blocked deal) := by
  unfold checkFrom
  split
  · exact ⟨Or.inl rfl, id⟩
  · split
    · exact endBegin_oneCall (.refl g) b
    · exact escrowStakes_oneCall ..

/-- `assignMatchId` renames a room that exists. -/
theorem assignMatchId_eq {rm : RoomManager} {i : ℕ} {r : Room} (hr : rm.rooms i = some r) :
    rm.assignMatchId i =
      (rm.put i { r with matchSeq := r.matchSeq + 1, matchId := some ⟨rm.instanceTag, i, r.matchSeq + 1⟩ },
        some ⟨rm.instanceTag, i, r.matchSeq + 1⟩) := by
  unfold RoomManager.assignMatchId
  rw [hr]

theorem onCountdown_oneCall (g : Gateway) (i : ℕ) (deal : ℕ → List (List Card)) :
    OneCall g (g.onCountdown i deal) := by
  unfold onCountdown
  split
  · cases hr : g.rooms.rooms i with
    | none =>
      have hb : (g.clearCountdown i).beginMatch i deal = g.clearCountdown i := by
        unfold beginMatch
        have hr' : (g.clearCountdown i).rooms.rooms i = none := hr
        rw [hr']
      rw [hb]
      exact (clearCountdown_quiet ..).oneCall
    | some r =>
      have hr' : (g.clearCountdown i).rooms.rooms i = some r := hr
      unfold beginMatch
      rw [hr', assignMatchId_eq hr']
      simp only
      split
      · exact (clearCountdown_quiet ..).oneCall
      -- a new id; the room stays where it is
      · split
        · refine (checkFrom_oneCall ..).after rfl fun hn => ?_
          exact hn.of_put hr rfl
        · refine (escrowStakes_oneCall ..).after rfl fun hn => ?_
          exact hn.of_put hr rfl
  · exact .refl g

theorem checked_oneCall (g : Gateway) (b : ℕ) (v : Verdict) (deal : ℕ → List (List Card)) :
    OneCall g (g.checked b v deal) := by
  unfold checked
  split
  · split
    · exact checkFrom_oneCall ..
    · rename_i x _ _ seat _ _
      refine (checkFrom_oneCall ..).after rfl fun hn => hn.rests ?_
      show RoomManager.Rests g.rooms _
      split
      · exact g.rooms.setReady_rests ..
      · exact .refl g.rooms
    · exact startFailed_oneCall ..
    · exact .refl g
  · exact .refl g

theorem resumeBegin_oneCall (g : Gateway) (b : ℕ) (deal : ℕ → List (List Card)) :
    OneCall g (g.resumeBegin b deal) := by
  unfold resumeBegin
  split
  · exact .refl g
  split
  · exact .refl g
  · split
    · unfold escrowed
      split
      · refine endBegin_oneCall (Quiet.withRooms ?_).departs.calm.rests.oneCall b
        exact Reaches.foldl (fun rm u => rm.setReady_via u false) _ _
      · simp only
        split
        · exact launch_oneCall ..
        · exact undo_oneCall ..
    · exact startFailed_oneCall ..
    · exact .refl g
  · split
    · exact endBegin_oneCall (Quiet.withRooms (g.rooms.setReadyAll_via ..)).departs.calm.rests.oneCall b
    · exact startFailed_oneCall ..
    · exact .refl g
  · split
    · exact endBegin_oneCall (unreadyUnlessLive_quiet ..).departs.calm.rests.oneCall b
    · exact .refl g

theorem onRankedQueueJoin_quiet (g : Gateway) (s : ℕ) (type : MatchType) :
    Quiet k g (g.onRankedQueueJoin s type) := by
  unfold onRankedQueueJoin
  split
  · exact .refl g
  · split
    · exact .refl g
    · exact .of_eq rfl rfl rfl rfl rfl

theorem onRankedQueueLeave_quiet (g : Gateway) (s : ℕ) : Quiet k g (g.onRankedQueueLeave s) := by
  unfold onRankedQueueLeave
  split
  · exact .refl g
  · exact dequeue_quiet ..

/-! ## One event -/

/-- An event that reaches no match and takes nobody from a seat. -/
theorem step_keeps (g : Gateway) {e : Event} (he : e.keeps = true) : Quiet keeps g (g.step e) := by
  cases e with
  | connect s u => exact onConnection_quiet ..
  | create s p => exact onCreate_quiet ..
  | join s i team => exact onJoin_quiet ..
  | joinByCode s i => exact onJoinByCode_quiet ..
  | invite i u => exact .withRooms (g.rooms.markInvited_via ..)
  | ready s b => exact onReady_quiet ..
  | switchTeam s team => exact onSwitchTeam_quiet ..
  | rematch s => exact onRematch_quiet ..
  | rematchTimeout i => exact setOffer_quiet ..
  | rankedQueueJoin s type => exact onRankedQueueJoin_quiet ..
  | enqueue k => exact enqueue_quiet ..
  | rankedQueueLeave s => exact onRankedQueueLeave_quiet ..
  | tournamentRoom ps => exact .call (.createTournamentRoom _ _) trivial rfl
  | clubWarRoom ps => exact .call (.createClubWarRoom _) trivial rfl
  | _ => cases he

/-- An event that reaches no match and takes only leavers from their seats. -/
theorem step_departs (g : Gateway) {e : Event} (he : e.departs = true) : Quiet departs g (g.step e) := by
  cases hk : e.keeps with
  | true => exact (step_keeps g hk).departs
  | false =>
    cases e with
    | disconnect s => exact onDisconnect_quiet ..
    | formRanked type group => exact tryFormRanked_quiet ..
    | formRankedVsBots u type => exact formRankedVsBots_quiet ..
    | practiceStart s type => exact onPracticeStart_quiet ..
    | ghostFill i => exact ghostFill_quiet ..
    | tournamentNoShow i => exact onTournamentNoShow_quiet ..
    | _ => simp [Event.departs, Event.keeps] at he hk

/-- Every other event is quiet or ends one live match. -/
theorem step_finishes (hn : g.Numbered) {e : Event} (he : e.starts = false) : Finishes g (g.step e) := by
  cases hk : e.departs with
  | true => exact Or.inl (step_departs g hk).calm.rests
  | false =>
    cases e with
    | resumeEnding k => exact Or.inl (resumeEnding_quiet ..).rests
    | leave s => exact onLeave_finishes g s hn
    | move u m => exact act_finishes ..
    | abandon i u => exact onAbandon_finishes ..
    | idle i seat => exact onIdle_finishes ..
    | adminVoid i => exact adminVoidMatch_finishes ..
    | _ => simp [Event.departs, Event.keeps, Event.starts] at he hk

/-- An event other than a sweep makes one call of the money at most. -/
theorem step_oneCall (hn : g.Numbered) {e : Event} (hs : e.isSweep = false) : OneCall g (g.step e) := by
  cases he : e.starts with
  | false => exact (step_finishes hn he).oneCall
  | true =>
    cases e with
    | countdown i deal => exact onCountdown_oneCall ..
    | checked b v deal => exact checked_oneCall ..
    | resumeBegin b deal => exact resumeBegin_oneCall ..
    | sweep => cases hs
    | db t fate => exact .of_call (e := .db t fate) rfl rfl rfl
    | resume t => exact .of_call (e := .resume t) rfl rfl rfl
    | register u => exact .of_call (e := .register u) rfl rfl rfl
    | walletMove u type delta ref => exact .of_call (e := .walletMove u type delta ref) rfl rfl rfl
    | _ => cases he

/-! ## Every run -/

/-- The money is in order at boot, whatever ran before. -/
theorem boot_moneyOK (earlier : List (MoneyEvent User MatchId)) (tag target rakeBps : ℕ) :
    MoneyOK (boot earlier tag target rakeBps).money := by
  have hrestart := (MoneyOK.run_ok MoneyOK.empty_ok earlier).step_ok .restart
  refine ⟨?_, ?_, ?_, ?_, hrestart.refs, hrestart.books⟩
  · intro t t' a b id h
    cases h
  · intro t a id h
    cases h
  · intro t a h
    cases h
  · intro t a h
    cases h

/-- The money services keep their invariant in every run of a server. -/
theorem run_moneyOK (earlier : List (MoneyEvent User MatchId)) (tag target rakeBps : ℕ) (es : List Event) :
    MoneyOK (run step (boot earlier tag target rakeBps) es).money := by
  have hinit : (boot earlier tag target rakeBps).Numbered := by
    intro i r hr
    cases hr
  refine (run_inv (P := fun g : Gateway => g.Numbered ∧ MoneyOK g.money) (fun g e h => ?_)
    ⟨hinit, boot_moneyOK ..⟩ es).2
  cases hs : e.isSweep with
  | false =>
    have hcall := step_oneCall h.1 hs
    exact ⟨hcall.numbered h.1, hcall.moneyOK h.2⟩
  | true =>
    cases e with
    | sweep => exact ⟨h.1, h.2.step_ok (.recoverOrphanedMatches g.rooms.activeMatchIds)⟩
    | _ => cases hs

end Gateway

end Murlan
