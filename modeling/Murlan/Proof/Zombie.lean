import Murlan.Proof.Occupied
import Murlan.Proof.Start

/-!
# No room without a player

The server, event by event. Only the end of a match, when it goes on after the settlement,
frees the seats of those who have gone, and it does not look whether anybody is left.

* `Housed`: what every event keeps: a live match has an id, and so has a start.
* `step_retained`: every event but the end of a match keeps the rooms as full as they were.
* `step_peopled`: what every event does to the rooms, **exactly**.
* `no_zombie_rooms`: every state of a run is free of empty rooms if and only if every
  clean-up of the run finds a player who has not gone.
* `last_player_leaves_early`: a run that leaves an empty room behind.
-/

namespace Murlan

namespace Gateway

open RoomCall (rests calm departs keeps)
open RoomManager (Via Retained)

variable {g g' : Gateway} {x : Begin} {i : ℕ}

/-! ## Matches and starts have ids -/

/-- The room has been opened, and its match has got an id. -/
def Named (g : Gateway) (i : ℕ) : Prop :=
  i ≤ g.rooms.seq ∧ ∀ r, g.rooms.rooms i = some r → r.matchId.isSome = true

/-- Every live match has an id, and every start names a room that was made. -/
structure Housed (g : Gateway) : Prop where
  sized : g.rooms.Sized
  numbered : g.Numbered
  live : ∀ i r, g.Live i r → r.matchId.isSome = true
  begun : ∀ b x, g.begins b = some x → g.Named x.roomId

theorem Named.rests (h : g.Named i) (hr : RoomManager.Rests g.rooms g'.rooms) : g'.Named i := by
  refine ⟨h.1.trans hr.seq, fun r' hr' => ?_⟩
  rcases hr.room i r' hr' with ⟨r, hr₀, hrest⟩ | ⟨hlo, -⟩
  · rw [hrest.matchId]
    exact h.2 r hr₀
  · have hle := h.1
    omega

/-- A live match has an id. -/
theorem Housed.named (h : Housed g) {r : Room} (hl : g.Live i r) : g.Named i := by
  refine ⟨h.numbered i r hl.1, fun r' hr' => ?_⟩
  rw [hl.1] at hr'
  cases hr'
  exact h.live i r hl

/-- No start goes on, and no match begins. -/
theorem Housed.rests (h : Housed g) (hv : Via rests g.rooms g'.rooms) (hb : g'.begins = g.begins) : Housed g' := by
  have hr := hv.atRest
  refine ⟨?_, h.numbered.rests hr, fun i r' hl => ?_, fun b x hx => ?_⟩
  · exact hv.inv (P := RoomManager.Sized) (fun _ c hs _ => RoomManager.perform_sized hs c) h.sized
  · rcases hr.room i r' hl.1 with ⟨r, hr₀, hrest⟩ | ⟨-, -, hst, -⟩
    · rw [hrest.matchId]
      exact h.live i r ⟨hr₀, hrest.live hl.2⟩
    · exact absurd hl.2 hst
  · rw [hb] at hx
    exact (h.begun b x hx).rests hr

theorem retained_of_departs {rm rm' : RoomManager} (hs : rm.Sized) (hv : Via departs rm rm') : Retained rm rm' := by
  refine hv.inv (P := Retained rm) (fun y c hr hc => hr.trans ?_) (.refl rm)
  refine RoomManager.perform_retained (hr.sized hs) c ?_
  rintro i rfl
  cases hc.2

/-! ## Starts -/

/-- What a start leaves behind. -/
structure Carried (g g' : Gateway) : Prop where
  housed : Housed g'
  retained : Retained g.rooms g'.rooms

theorem Housed.carried (h : Housed g) : Carried g g := ⟨h, .refl _⟩

theorem Carried.trans {g'' : Gateway} (h : Carried g g') (h' : Carried g' g'') : Carried g g'' :=
  ⟨h'.housed, h.retained.trans h'.retained⟩

theorem Housed.withRooms (h : Housed g) {rm : RoomManager} (hv : Via keeps g.rooms rm) : Carried g (g.withRooms rm) :=
  ⟨h.rests (hv.of_kind fun _ => RoomCall.rests_of_keeps) rfl, retained_of_departs h.sized hv.departs⟩

theorem Carried.endBegin (h : Carried g g') (b : ℕ) : Carried g (g'.endBegin b) := by
  refine ⟨⟨h.housed.sized, h.housed.numbered, h.housed.live, fun b' x hx => ?_⟩, h.retained⟩
  exact h.housed.begun b' x (endBegin_begins hx).2

/-- A call of the money services leaves the rooms alone. -/
theorem Housed.withMoney (h : Housed g) (m : Money User MatchId) : Carried g (g.withMoney m) :=
  ⟨⟨h.sized, h.numbered, h.live, h.begun⟩, .refl _⟩

/-- A start awaits. -/
theorem Housed.parks (h : Housed g) {b : ℕ} {y : Begin} (hy : g.Named y.roomId) : Carried g (g.setBegin b y) := by
  refine ⟨⟨h.sized, h.numbered, h.live, fun b' x hx => ?_⟩, .refl _⟩
  by_cases hb : b' = b
  · subst hb
    have hself : (g.setBegin b' y).begins b' = some y := Function.update_self ..
    rw [hself] at hx
    cases hx
    exact hy
  · have hother : (g.setBegin b y).begins b' = g.begins b' := Function.update_of_ne hb ..
    rw [hother] at hx
    exact h.begun b' x hx

theorem startFailed_carried (h : Housed g) (hx : g.Named x.roomId) (b : ℕ) : Carried g (g.startFailed b x) := by
  unfold startFailed
  split
  · rename_i id _
    exact (h.withMoney (g.money.refund id)).trans ((h.withMoney _).housed.parks hx)
  · rw [unreadyUnlessLive_rooms]
    exact (h.withRooms (unreadyUnlessLive_quiet g x.roomId).rooms).endBegin b

theorem undo_carried (h : Housed g) (hx : g.Named x.roomId) (b : ℕ) : Carried g (g.undo b x) :=
  (h.withMoney (g.money.refund x.matchId)).trans ((h.withMoney _).housed.parks hx)

/-- A match begins in a room that has an id for it. -/
theorem starts_carried (h : Housed g) (hi : g.Named i) {r : Room} (hr : g.rooms.rooms i = some r) (m : Match) :
    Carried g (g.withRooms (g.rooms.put i ((r.withStatus .inMatch).withMatch m))) := by
  have hput : Retained g.rooms (g.rooms.put i ((r.withStatus .inMatch).withMatch m)) :=
    .put hr (.of_seats rfl rfl rfl rfl)
  have hnamed : ∀ j, g.Named j →
      (g.withRooms (g.rooms.put i ((r.withStatus .inMatch).withMatch m))).Named j := by
    intro j hj
    refine ⟨hj.1, fun y hy => ?_⟩
    rcases RoomManager.put_cases hy with ⟨rfl, rfl⟩ | ⟨-, hy⟩
    · exact hj.2 r hr
    · exact hj.2 y hy
  refine ⟨⟨hput.sized h.sized, h.numbered.of_put hr rfl, fun j y hl => ?_, fun b x hx => hnamed _ (h.begun b x hx)⟩, hput⟩
  rcases RoomManager.put_cases hl.1 with ⟨rfl, rfl⟩ | ⟨-, hy⟩
  · exact hi.2 r hr
  · exact h.live j y ⟨hy, hl.2⟩

theorem launch_carried (h : Housed g) (hx : g.Named x.roomId) (b : ℕ) (esc : Bool) (deal : ℕ → List (List Card)) :
    Carried g (g.launch b x esc deal) := by
  unfold launch
  rcases g.rooms.startMatch_cases x.roomId deal with ⟨e, he⟩ | ⟨e, he⟩ | ⟨r, m, hr, -, -, -, he⟩
  · rw [he]
    exact startFailed_carried h hx b
  · rw [he]
    simp only
    split
    · exact undo_carried h hx b
    · exact (h.withRooms (g.rooms.setReadyAll_via ..)).endBegin b
  · rw [he]
    exact (starts_carried h hx hr m).endBegin b

theorem escrowStakes_carried (h : Housed g) (hx : g.Named x.roomId) (b : ℕ) (deal : ℕ → List (List Card)) :
    Carried g (g.escrowStakes b x deal) := by
  unfold escrowStakes
  split
  · exact launch_carried h hx ..
  · rename_i r _
    split
    · exact launch_carried h hx ..
    · exact (h.withMoney _).trans ((h.withMoney (g.money.escrow (r.escrowInput x.matchId g.rakeBps))).housed.parks hx)

theorem checkFrom_carried (h : Housed g) (hx : g.Named x.roomId) (b seat : ℕ) (blocked : Bool)
    (deal : ℕ → List (List Card)) : Carried g (g.checkFrom b x seat blocked deal) := by
  unfold checkFrom
  split
  · exact h.parks hx
  · split
    · exact h.carried.endBegin b
    · exact escrowStakes_carried h hx b deal

/-- The next match of a room gets an id. -/
theorem assign_carried (h : Housed g) {r : Room} (hr : g.rooms.rooms i = some r) (nextBegin : ℕ)
    (finalized : List MatchId) :
    let g₁ := { g with rooms := (g.rooms.assignMatchId i).1, nextBegin, finalized }
    Carried g g₁ ∧ g₁.Named i := by
  have hassign := assignMatchId_eq hr
  have hput := g.rooms.assignMatchId_retained i
  have hnamed : ∀ j, j ≤ g.rooms.seq → (j ≠ i → ∀ r, g.rooms.rooms j = some r → r.matchId.isSome = true) →
      ∀ r', (g.rooms.assignMatchId i).1.rooms j = some r' → r'.matchId.isSome = true := by
    intro j _ hj r' hr'
    rw [hassign] at hr'
    rcases RoomManager.put_cases hr' with ⟨rfl, rfl⟩ | ⟨hne, hr'⟩
    · rfl
    · exact hj hne r' hr'
  have hseq : (g.rooms.assignMatchId i).1.seq = g.rooms.seq := by rw [hassign]; rfl
  have hnum : Numbered { g with rooms := (g.rooms.assignMatchId i).1, nextBegin, finalized } :=
    h.numbered.of_put hr (by rw [hassign])
  refine ⟨⟨⟨hput.sized h.sized, hnum, fun j y hl => ?_, fun b x hx => ?_⟩, hput⟩, ?_⟩
  · have hl' := hl
    rw [Live, hassign] at hl'
    rcases RoomManager.put_cases hl'.1 with ⟨rfl, rfl⟩ | ⟨-, hy⟩
    · rfl
    · exact h.live j y ⟨hy, hl.2⟩
  · have hold := h.begun b x hx
    exact ⟨hseq ▸ hold.1, hnamed _ hold.1 fun _ => hold.2⟩
  · have hi := h.numbered i r hr
    exact ⟨hseq ▸ hi, hnamed i hi fun hne => absurd rfl hne⟩

theorem onCountdown_carried (h : Housed g) (i : ℕ) (deal : ℕ → List (List Card)) :
    Carried g (g.onCountdown i deal) := by
  have hclear : Carried g (g.clearCountdown i) := ⟨⟨h.sized, h.numbered, h.live, h.begun⟩, .refl _⟩
  unfold onCountdown
  split
  · cases hr : g.rooms.rooms i with
    | none =>
      have hb : (g.clearCountdown i).beginMatch i deal = g.clearCountdown i := by
        unfold beginMatch
        have hr' : (g.clearCountdown i).rooms.rooms i = none := hr
        rw [hr']
      rw [hb]
      exact hclear
    | some r =>
      have hr' : (g.clearCountdown i).rooms.rooms i = some r := hr
      have hgo := assign_carried hclear.housed hr' ((g.clearCountdown i).nextBegin + 1)
        ((g.clearCountdown i).finalized.filter fun id => some id ≠ r.matchId)
      unfold beginMatch
      rw [assignMatchId_eq hr'] at hgo
      rw [hr', assignMatchId_eq hr']
      simp only at hgo ⊢
      split
      · exact hclear
      · split
        · exact (hclear.trans hgo.1).trans (checkFrom_carried hgo.1.housed hgo.2 ..)
        · exact (hclear.trans hgo.1).trans (escrowStakes_carried hgo.1.housed hgo.2 ..)
  · exact h.carried

theorem checked_carried (h : Housed g) (b : ℕ) (v : Verdict) (deal : ℕ → List (List Card)) :
    Carried g (g.checked b v deal) := by
  unfold checked
  split
  · rename_i x hx
    have hnamed := h.begun b x hx
    split
    · exact checkFrom_carried h hnamed ..
    · -- the user turned down is not ready any more
      rename_i _ _ _ seat _ _
      have hrest : ∀ rooms, Via keeps g.rooms rooms → Carried g ((g.withRooms rooms).checkFrom b x (seat + 1) true deal) := by
        intro rooms hready
        have hc := h.withRooms hready
        exact hc.trans (checkFrom_carried hc.housed (hnamed.rests (hready.rests fun _ => RoomCall.rests_of_keeps)) ..)
      dsimp only
      cases g.rooms.userAtSeat x.roomId seat with
      | none => exact hrest _ (.refl _)
      | some u => exact hrest _ (g.rooms.setReady_via ..)
    · exact startFailed_carried h hnamed b
    · exact h.carried
  · exact h.carried

theorem resumeBegin_carried (h : Housed g) (b : ℕ) (deal : ℕ → List (List Card)) :
    Carried g (g.resumeBegin b deal) := by
  unfold resumeBegin
  split
  · exact h.carried
  rename_i x hx
  have hnamed := h.begun b x hx
  split
  · exact h.carried
  · split
    · unfold escrowed
      split
      · exact (h.withRooms (Reaches.foldl (fun rm u => rm.setReady_via u false) _ _)).endBegin b
      · simp only
        split
        · exact launch_carried h hnamed ..
        · exact undo_carried h hnamed b
    · exact startFailed_carried h hnamed b
    · exact h.carried
  · split
    · exact (h.withRooms (g.rooms.setReadyAll_via ..)).endBegin b
    · exact startFailed_carried h hnamed b
    · exact h.carried
  · split
    · rw [unreadyUnlessLive_rooms]
      exact (h.withRooms (unreadyUnlessLive_quiet g x.roomId).rooms).endBegin b
    · exact h.carried

/-! ## Actions, forfeits and the claim of a match end -/

/-- Before the result is recorded only the end of a tournament match is announced. -/
theorem afterPayout_retained {k : ℕ} {x : Ending} {payout : Option ℕ} (g : Gateway) :
    Retained g.rooms (g.afterPayout k x payout).rooms := by
  unfold afterPayout
  split
  · rename_i hpair
    obtain ⟨r, hr, ht⟩ := (Option.any_eq_true ..).1 hpair
    unfold announce
    split
    · exact .refl _
    · refine RoomManager.clearGoneSeats_retained _ _ fun r' hr' hord => ?_
      have hsame : g.rooms.rooms x.roomId = some r' := hr'
      rw [hr] at hsame
      cases hsame
      rw [hord.1] at ht
      cases ht
  · exact .refl _

/-- **The end of a match**, up to its first `await`, empties no room: a match that has an
id is settled first. -/
theorem settleAndEmitMatchEnd_retained (hi : g.Named i) (result : EndResult) :
    Retained g.rooms (g.settleAndEmitMatchEnd i result).rooms := by
  unfold settleAndEmitMatchEnd
  cases hc : g.claimFinalize i with
  | none => exact .refl _
  | some g₂ =>
    have hrooms := (claimFinalize_some hc).1
    have hfin : Retained g.rooms g₂.rooms := by
      rw [hrooms]
      exact .modify g.rooms i fun _ _ => .of_seats rfl rfl rfl rfl
    have hid : g₂.Named i := by
      refine hi.rests ?_
      rw [hrooms]
      exact g.rooms.markFinished_rests i
    simp only
    split
    · exact hfin
    · -- a room without an id is no room at all
      rename_i hno
      refine hfin.trans (RoomManager.clearGoneSeats_retained _ _ fun r hr _ => ?_)
      have hsome := hid.2 r hr
      have hnone : r.matchId = none := by
        have hlook : g₂.rooms.matchIdOf i = r.matchId := by
          unfold RoomManager.matchIdOf
          rw [show g₂.rooms.rooms i = some r from hr]
          rfl
        rw [← hlook]
        exact hno
      rw [hnone] at hsome
      cases hsome
    · split
      · exact hfin.trans (afterPayout_retained _)
      · exact hfin
    · exact hfin.trans (afterPayout_retained _)

theorem applyResult_retained (hi : g.Named i) (a : MatchActionResult) :
    Retained g.rooms (g.applyResult i a).rooms := by
  rcases g.applyResult_cases i a with h | ⟨result, h⟩
  · rw [h]
    exact .refl _
  · rw [h]
    exact settleAndEmitMatchEnd_retained hi result

theorem act_retained (h : Housed g) (u : User) (call : ℕ → Match.Call) : Retained g.rooms (g.act u call).rooms := by
  have hforward := g.rooms.forward_retained u call
  have hrests := g.rooms.forward_rests u call
  unfold act
  simp only
  split
  · rename_i i _ hi
    refine hforward.trans (applyResult_retained (g := g.withRooms (g.rooms.forward u call).1) ?_ _)
    rcases g.rooms.forward_cases u call with ⟨-, hnone⟩ | ⟨j, r, m, k, -, hr, -, hst, -, he⟩
    · rw [hnone] at hi
      cases hi
    · have hnamed : g.Named i := by
        rw [he] at hi
        cases hi
        exact h.named ⟨hr, hst⟩
      exact hnamed.rests hrests
  · exact hforward

theorem forfeitMatch_retained (h : Housed g) (i seat : ℕ) : Retained g.rooms (g.forfeitMatch i seat).rooms := by
  unfold forfeitMatch
  split
  · exact .refl _
  rename_i r hr
  split
  · exact .refl _
  rename_i hlive
  split
  · exact .refl _
  rename_i u _
  have hst : r.status = .inMatch := by
    simp only [Bool.or_eq_true, decide_eq_true_eq, not_or, ne_eq, not_not] at hlive
    exact hlive.2
  have hnamed : (g.withRooms (g.rooms.forfeitSeat u).1).Named i :=
    (h.named ⟨hr, hst⟩).rests (g.rooms.forfeitSeat_rests u)
  have hseat := g.rooms.forfeitSeat_retained u
  simp only
  split
  · exact hseat.trans (applyResult_retained hnamed _)
  · exact hseat

theorem leaveOrForfeit_retained (h : Housed g) (u : User) (i : ℕ) :
    Retained g.rooms (g.leaveOrForfeit u i).rooms := by
  have hleave := retained_of_departs h.sized (leaveAndNotify_quiet g u i).rooms
  unfold leaveOrForfeit
  split
  · split
    · exact forfeitMatch_retained h _ _
    · exact hleave
  · exact hleave

theorem onLeave_retained (h : Housed g) (s : ℕ) : Retained g.rooms (g.onLeave s).rooms := by
  unfold onLeave
  split
  · exact .refl _
  split
  · exact .refl _
  rename_i x _ _ i _
  have hmid : Housed ((g.cancelRematch i).setSocketRoom s none) := ⟨h.sized, h.numbered, h.live, h.begun⟩
  have hgo := leaveOrForfeit_retained hmid x.user i
  simp only
  split
  · exact hgo.trans (retained_of_departs (hgo.sized h.sized) (teardownBotRoom_quiet ..).rooms)
  · exact hgo

theorem onAbandon_retained (h : Housed g) (i u : ℕ) : Retained g.rooms (g.onAbandon i u).rooms := by
  unfold onAbandon
  split
  · exact .refl _
  split
  · exact .refl _
  · exact forfeitMatch_retained h _ _

theorem onIdle_retained (h : Housed g) (i seat : ℕ) : Retained g.rooms (g.onIdle i seat).rooms := by
  unfold onIdle
  split
  · exact .refl _
  · exact forfeitMatch_retained h _ _

theorem adminVoidMatch_retained (g : Gateway) (i : ℕ) : Retained g.rooms (g.adminVoidMatch i).rooms := by
  unfold adminVoidMatch
  split
  · cases hc : g.claimFinalize i with
    | none => exact .refl _
    | some g₂ =>
      have hfin : Retained g.rooms g₂.rooms := by
        rw [(claimFinalize_some hc).1]
        exact .modify g.rooms i fun _ _ => .of_seats rfl rfl rfl rfl
      simp only
      split <;> exact hfin
  · exact .refl _

/-! ## The end of a match goes on -/

/-- The end of a match frees, at its next step, the seats of those who have gone from an
ordinary room. -/
def Frees (g : Gateway) (x : Ending) : Prop :=
  match x.stage with
  | .refunding t => g.money.tasks t = some (.done .refund) ∨ g.money.tasks t = some (.done .threw)
  | .settling t => g.money.tasks t = some (.done (.settle none)) ∨ g.money.tasks t = some (.done .threw)
  | .recording _ => (g.scoreboardOf x.roomId).isSome = true
  | .voiding _ => False

/-- With an end that frees no seats the rooms keep who is in them; with one that does, the
room is cleaned up. -/
theorem resumeEnding_cases {k : ℕ} {x : Ending} (hx : g.endings k = some x) :
    g.Frees x ∧ (g.resumeEnding k).rooms = g.rooms.clearGoneSeats x.roomId ∨
      ¬ g.Frees x ∧ Retained g.rooms (g.resumeEnding k).rooms := by
  unfold resumeEnding Frees
  rw [hx]
  cases x with
  | mk i result stage =>
    cases stage with
    | refunding t =>
      simp only
      split
      · rename_i ht
        exact Or.inl ⟨Or.inl ht, rfl⟩
      · rename_i ht
        exact Or.inl ⟨Or.inr ht, rfl⟩
      · rename_i h1 h2
        exact Or.inr ⟨by rintro (h | h); exacts [h1 h, h2 h], .refl _⟩
    | settling t =>
      simp only
      split
      · rename_i st ht
        refine Or.inr ⟨?_, afterPayout_retained g⟩
        rw [ht]
        rintro (h | h) <;> cases h
      · rename_i ht
        exact Or.inl ⟨Or.inl ht, rfl⟩
      · rename_i ht
        exact Or.inl ⟨Or.inr ht, rfl⟩
      · rename_i h1 h2 h3
        exact Or.inr ⟨by rintro (h | h); exacts [h2 h, h3 h], .refl _⟩
    | recording payout =>
      simp only
      cases hs : g.scoreboardOf i with
      | none =>
        refine Or.inr ⟨fun h => (by cases h), ?_⟩
        unfold announce
        rw [hs]
        exact .refl _
      | some sb =>
        refine Or.inl ⟨rfl, ?_⟩
        unfold announce
        rw [hs]
        rfl
    | voiding t =>
      simp only
      split <;> exact Or.inr ⟨id, .refl _⟩

/-! ## One event -/

/-- **The condition**: the clean-up of an ordinary room finds a player who has not gone. -/
def KeepsSomeone (g : Gateway) : Event → Prop
  | .resumeEnding k => ∀ x r, g.endings k = some x → g.Frees x → g.rooms.rooms x.roomId = some r → r.Ordinary →
      ∃ l u, r.Carries l u
  | _ => True

/-- Every event keeps live matches in rooms. -/
theorem step_housed (h : Housed g) (e : Event) : Housed (g.step e) := by
  cases hs : e.starts with
  | false =>
    rcases step_finishes h.numbered hs with hq | ⟨i, r, id, -, -, -, hv, hb, -⟩
    · exact h.rests hq.rooms hq.begins
    · exact h.rests hv hb
  | true =>
    cases e with
    | countdown i deal => exact (onCountdown_carried h i deal).housed
    | checked b v deal => exact (checked_carried h b v deal).housed
    | resumeBegin b deal => exact (resumeBegin_carried h b deal).housed
    | sweep | db | resume | register | walletMove => exact (h.withMoney _).housed
    | _ => cases hs

/-- **Every event but the end of a match** keeps the rooms as full as they were. -/
theorem step_retained (h : Housed g) (e : Event) (he : ∀ k, e ≠ .resumeEnding k) :
    Retained g.rooms (g.step e).rooms := by
  cases hd : e.departs with
  | true => exact retained_of_departs h.sized (step_departs g hd).rooms
  | false =>
    cases e with
    | countdown i deal => exact (onCountdown_carried h i deal).retained
    | checked b v deal => exact (checked_carried h b v deal).retained
    | resumeBegin b deal => exact (resumeBegin_carried h b deal).retained
    | resumeEnding k => exact absurd rfl (he k)
    | leave s => exact onLeave_retained h s
    | move u m => exact act_retained h u m.call
    | abandon i u => exact onAbandon_retained h i u
    | idle i seat => exact onIdle_retained h i seat
    | adminVoid i => exact adminVoidMatch_retained g i
    | sweep | db | resume | register | walletMove => exact .refl _
    | _ => simp [Event.departs, Event.keeps] at hd

/-- **One event**, exactly: it empties no ordinary room if and only if the condition holds. -/
theorem step_peopled (h : Housed g) (hp : g.rooms.Peopled) (e : Event) :
    (g.step e).rooms.Peopled ↔ g.KeepsSomeone e := by
  cases e with
  | resumeEnding k =>
    cases hx : g.endings k with
    | none =>
      have hsame : (g.step (.resumeEnding k)).rooms = g.rooms := by
        show (g.resumeEnding k).rooms = _
        unfold resumeEnding
        rw [hx]
      rw [hsame]
      refine ⟨fun _ x r hx' => ?_, fun _ => hp⟩
      rw [hx] at hx'
      cases hx'
    | some x =>
      show (g.resumeEnding k).rooms.Peopled ↔ _
      rcases resumeEnding_cases hx with ⟨hf, he⟩ | ⟨hf, hr⟩
      · rw [he, RoomManager.clearGoneSeats_peopled hp]
        constructor
        · intro hc y r hy _ hr hord
          rw [hx] at hy
          cases hy
          exact hc r hr hord
        · exact fun hc r hr hord => hc x r hx hf hr hord
      · refine ⟨fun _ y r hy hfy => ?_, fun _ => hr.peopled hp⟩
        rw [hx] at hy
        cases hy
        exact absurd hfy hf
  | _ => exact ⟨fun _ => trivial, fun _ => (step_retained h _ (by intro k hk; cases hk)).peopled hp⟩

/-! ## Every run -/

/-- No empty room stands open, is listed or can be joined by a code. -/
structure NoZombies (rm : RoomManager) : Prop where
  rooms : rm.Peopled
  lobby : ∀ e ∈ rm.listLobby.1, ∀ r, rm.rooms e.id = some r → r.Ordinary → 0 < e.seatsFilled
  live : ∀ e ∈ rm.listLobby.2, ∀ r, rm.rooms e.roomId = some r → r.Ordinary → ∃ p ∈ e.players, p.2.isSome = true
  code : ∀ code i, rm.roomIdForCode code = some i → ∃ r, rm.rooms i = some r ∧ r.occupied = true

theorem listed_id {j : ℕ} {r : Room} {e : LobbyRoom} (he : RoomManager.listed j r = some e) : e.id = j := by
  unfold RoomManager.listed at he
  split at he
  · cases he
    rfl
  · cases he

/-- A room listed with someone in it shows a seat filled. -/
theorem listed_filled {j : ℕ} {r : Room} {e : LobbyRoom} (he : RoomManager.listed j r = some e) (ho : r.occupied = true) :
    0 < e.seatsFilled := by
  unfold RoomManager.listed at he
  split at he
  · cases he
    obtain ⟨s, hs, hu⟩ := List.any_eq_true.1 ho
    exact List.length_pos_of_mem (List.mem_filter.2 ⟨hs, hu⟩)
  · cases he

theorem spectated_id {j : ℕ} {r : Room} {e : LiveRoom} (he : RoomManager.spectated j r = some e) : e.roomId = j := by
  unfold RoomManager.spectated at he
  split at he
  · cases he
    rfl
  · cases he

/-- A room to watch with someone in it shows a player. -/
theorem spectated_player {j : ℕ} {r : Room} {e : LiveRoom} (he : RoomManager.spectated j r = some e)
    (ho : r.occupied = true) : ∃ p ∈ e.players, p.2.isSome = true := by
  unfold RoomManager.spectated at he
  split at he
  · cases he
    obtain ⟨s, hs, hu⟩ := List.any_eq_true.1 ho
    obtain ⟨k, hk, rfl⟩ := List.getElem_of_mem hs
    refine ⟨(k, r.seats[k].userId), List.mem_map.2 ⟨(r.seats[k], k), ?_, rfl⟩, hu⟩
    rw [List.mem_zipIdx_iff_getElem?]
    exact List.getElem?_eq_getElem hk
  · cases he

/-- The lobby and the codes know only rooms that stand open. -/
theorem noZombies_iff {rm : RoomManager} : NoZombies rm ↔ rm.Peopled := by
  refine ⟨NoZombies.rooms, fun hp => ⟨hp, fun e he r hr hord => ?_, fun e he r hr hord => ?_, fun code i hc => ?_⟩⟩
  · obtain ⟨j, -, hj⟩ := List.mem_filterMap.1 he
    obtain ⟨y, hy, hl⟩ := Option.bind_eq_some_iff.1 hj
    rw [listed_id hl, hy] at hr
    cases hr
    exact listed_filled hl (hp j _ hy hord)
  · obtain ⟨j, -, hj⟩ := List.mem_filterMap.1 he
    obtain ⟨y, hy, hl⟩ := Option.bind_eq_some_iff.1 hj
    rw [spectated_id hl, hy] at hr
    cases hr
    exact spectated_player hl (hp j _ hy hord)
  · unfold RoomManager.roomIdForCode at hc
    split at hc
    · rename_i hany
      cases hc
      obtain ⟨r, hr, hcode⟩ := (Option.any_eq_true ..).1 hany
      simp only [Bool.and_eq_true, Option.isNone_iff_eq_none] at hcode
      exact ⟨r, hr, hp _ r hr ⟨hcode.1.2, hcode.2⟩⟩
    · cases hc

/-- At boot there is no room. -/
theorem boot_housed (earlier : List (MoneyEvent User MatchId)) (tag target rakeBps : ℕ) :
    Housed (boot earlier tag target rakeBps) := by
  refine ⟨?_, ?_, ?_, ?_⟩
  · intro i r hr
    cases hr
  · intro i r hr
    cases hr
  · intro i r hl
    cases hl.1
  · intro b x hx
    cases hx

/-- **No zombie rooms**, over a run of the server: every ordinary room that exists has a
player in it, in every state of the run, if and only if every clean-up of the run finds a
player who has not gone. -/
theorem no_zombie_rooms (earlier : List (MoneyEvent User MatchId)) (tag target rakeBps : ℕ) (es : List Event) :
    (∀ fs, fs <+: es → NoZombies (run step (boot earlier tag target rakeBps) fs).rooms) ↔
      Guarded step KeepsSomeone (boot earlier tag target rakeBps) es := by
  have hempty : (boot earlier tag target rakeBps).rooms.Peopled := by
    intro i r hr
    cases hr
  simp only [noZombies_iff]
  exact (guarded_iff (P := fun g => g.rooms.Peopled) (fun g e => step_housed (g := g) (e := e))
    (fun g e h hp => step_peopled h hp e) (boot_housed earlier tag target rakeBps) hempty es).symm

/-- User 7 opens a room, user 8 joins and their match starts. -/
def freeMatch : List Event :=
  [.register (.human 7), .register (.human 8), .connect 0 7, .connect 1 8,
    .create 0 { type := .oneVOne, stakeCents := 0 }, .join 1 1 none, .ready 0 true, .ready 1 true,
    .countdown 1 fun _ => sortedDeal 2, .db 0 .answered, .resume 0, .db 0 .answered, .resume 0,
    .resumeBegin 0 fun _ => sortedDeal 2]

/-- User 7 abandons the match; user 8 leaves while its settlement is under way. -/
def leftEarly : List Event :=
  freeMatch ++ [.leave 0, .leave 1, .db 1 .answered, .resume 1, .db 1 .answered, .resume 1, .resumeEnding 0,
    .resumeEnding 0]

/-- The room of both stays open without a player. -/
theorem last_player_leaves_early : ¬ ∀ (earlier : List (MoneyEvent User MatchId)) (tag target rakeBps : ℕ)
    (es : List Event), NoZombies (run step (boot earlier tag target rakeBps) es).rooms := by
  intro h
  have hnone : ((run step (boot [] 0 21 500) leftEarly).rooms.rooms 1).any
      (fun r => r.tournament.isNone && r.clubWar.isNone && !r.occupied) = true := by decide +kernel
  obtain ⟨r, hr, hz⟩ := (Option.any_eq_true ..).1 hnone
  simp only [Bool.and_eq_true, Option.isNone_iff_eq_none, Bool.not_eq_true'] at hz
  have hocc := (h [] 0 21 500 leftEarly).rooms 1 r hr hz.1
  rw [hz.2] at hocc
  cases hocc

end Gateway

end Murlan
