import Murlan.Proof.Quiet

/-!
# The ranked queue and the rooms

Who waits in the queue should be connected and in no room: the gateway seats a group of the
queue without looking again, and unseats all of it when one member cannot join.

* `RoomManager.Admits`, `Gateway.Admits`: what a handler does to the members of the rooms, to
  the queue and to the connections. Nobody but the users named enters a room, nobody joins the
  queue, and who is still queued keeps a socket.
* `Exclusive`: the queue and the rooms are apart; `Apart`: the two events that can bring them
  together, a rating read too late and a practice match of a queued user.
* `step_exclusive_iff`: one event keeps them apart exactly when it is neither;
  `ranked_queue_exclusive_iff`: so in a whole run.
-/

namespace Murlan

namespace RoomManager

variable {rm rm' rm'' : RoomManager} {who : ℕ → Prop} {i : ℕ} {r : Room}

/-- No human enters a room, but those named. -/
structure Admits (who : ℕ → Prop) (rm rm' : RoomManager) : Prop where
  entry : ∀ n, who n ∨ rm'.userRoom (.human n) = rm.userRoom (.human n) ∨ rm'.userRoom (.human n) = none

namespace Admits

theorem of_eq (h : rm'.userRoom = rm.userRoom) : Admits who rm rm' := ⟨fun n => Or.inr (Or.inl (by rw [h]))⟩

theorem refl (rm : RoomManager) : Admits who rm rm := of_eq rfl

theorem trans (h : Admits who rm rm') (h' : Admits who rm' rm'') : Admits who rm rm'' := by
  refine ⟨fun n => ?_⟩
  rcases h'.entry n with hw | heq | hnone
  · exact Or.inl hw
  · rw [heq]
    exact h.entry n
  · exact Or.inr (Or.inr hnone)

/-- A loop. -/
theorem foldl {α : Type} {f : RoomManager → α → RoomManager} (hf : ∀ rm a, Admits who rm (f rm a)) (l : List α) :
    ∀ rm, Admits who rm (l.foldl f rm) := by
  induction l with
  | nil => exact refl
  | cons a l ih => exact fun rm => (hf rm a).trans (ih _)

/-- Who enters is named. -/
theorem enters (h : Admits who rm rm') {n : ℕ} (hw : ¬ who n) (hno : rm.userRoom (.human n) = none) :
    rm'.userRoom (.human n) = none := by
  rcases h.entry n with hw' | heq | hnone
  · exact absurd hw' hw
  · rw [heq]
    exact hno
  · exact hnone

end Admits

theorem put_admits (rm : RoomManager) (i : ℕ) (r : Room) : Admits who rm (rm.put i r) := .of_eq rfl

theorem open_admits (rm : RoomManager) (r : Room) : Admits who rm (rm.open_ r) := .of_eq rfl

/-- Who goes admits nobody. -/
theorem exit_admits (rm : RoomManager) (u : User) : Admits who rm (rm.exit u) := by
  refine ⟨fun n => ?_⟩
  by_cases hn : User.human n = u
  · right; right
    rw [hn]
    exact Function.update_self ..
  · right; left
    exact Function.update_of_ne hn ..

theorem Admits.exit (h : Admits who rm rm') (u : User) : Admits who rm (rm'.exit u) := h.trans (rm'.exit_admits u)

/-- Who may be admitted is. -/
theorem Admits.enter (h : Admits who rm rm') {n : ℕ} (i : ℕ) (hw : who n) :
    Admits who rm (rm'.enter (.human n) i) := by
  refine h.trans ⟨fun m => ?_⟩
  by_cases hm : m = n
  · exact Or.inl (hm ▸ hw)
  · right; left
    have hne : User.human m ≠ User.human n := fun heq => hm (by cases heq; rfl)
    exact Function.update_of_ne hne ..

theorem Admits.enterBot (h : Admits who rm rm') (i k j : ℕ) : Admits who rm (rm'.enter (.bot i k) j) := by
  refine h.trans ⟨fun m => ?_⟩
  right; left
  have hne : User.human m ≠ User.bot i k := fun heq => by cases heq
  exact Function.update_of_ne hne (some j) rm'.userRoom

theorem modify_userRoom (rm : RoomManager) (i : ℕ) (f : Room → Room) : (rm.modify i f).userRoom = rm.userRoom := by
  unfold modify
  split <;> rfl

/-- Who leaves admits nobody. -/
theorem leaveRoom_admits (rm : RoomManager) (u : User) : Admits who rm (rm.leaveRoom u) := by
  have hput : ∀ i r, Admits who rm (rm.settleLeft i r) := by
    intro i r
    unfold settleLeft
    split <;> exact .of_eq rfl
  unfold leaveRoom
  split
  · exact .refl rm
  · split
    · exact exit_admits rm u
    · exact (hput ..).exit u

theorem leaves_admits (us : List User) (rm : RoomManager) : Admits who rm (us.foldl leaveRoom rm) :=
  Admits.foldl leaveRoom_admits us rm

theorem setReady_admits (rm : RoomManager) (u : User) (b : Bool) : Admits who rm (rm.setReady u b).1 := by
  rcases rm.setReady_cases u b with ⟨e, h⟩ | ⟨i, r, k, -, -, -, -, h⟩
  · rw [h]
    exact .refl rm
  · rw [h]
    exact .of_eq rfl

theorem setReadyAll_admits (rm : RoomManager) (i : ℕ) (b : Bool) : Admits who rm (rm.setReadyAll i b) := by
  unfold setReadyAll
  split
  · exact .refl rm
  · exact Admits.foldl (fun rm u => rm.setReady_admits u b) _ rm

theorem switchTeam_admits (rm : RoomManager) (u : User) (team : ℕ) : Admits who rm (rm.switchTeam u team).1 := by
  unfold switchTeam
  repeat' split
  all_goals exact .of_eq rfl

theorem forward_admits (rm : RoomManager) (u : User) (call : ℕ → Match.Call) : Admits who rm (rm.forward u call).1 := by
  rcases rm.forward_cases u call with ⟨h, -⟩ | ⟨i, r, m, k, -, -, -, -, -, h⟩
  · rw [h]
    exact .refl rm
  · rw [h]
    exact .of_eq rfl

theorem forfeitSeat_admits (rm : RoomManager) (u : User) : Admits who rm (rm.forfeitSeat u).1 := by
  rcases rm.forfeitSeat_cases u with ⟨h, -⟩ | ⟨i, r, m, k, -, -, -, -, -, -, hcase⟩
  · rw [h]
    exact .refl rm
  · rcases hcase with ⟨-, h⟩ | ⟨-, h⟩
    · rw [h]
      exact (put_admits ..).exit u
    · rw [h]
      exact .of_eq rfl

theorem setConnected_admits (rm : RoomManager) (u : User) (b : Bool) : Admits who rm (rm.setConnected u b) := by
  unfold setConnected
  split
  · exact .refl rm
  · exact .of_eq (modify_userRoom ..)

theorem resetForRematch_admits (rm : RoomManager) (i : ℕ) : Admits who rm (rm.resetForRematch i).1 := by
  unfold resetForRematch
  repeat' split
  all_goals exact .of_eq rfl

theorem deleteRoom_admits (rm : RoomManager) (i : ℕ) : Admits who rm (rm.deleteRoom i) := by
  unfold deleteRoom
  split
  · exact .refl rm
  · exact (Admits.foldl exit_admits _ rm).trans (.of_eq rfl)

theorem assignMatchId_admits (rm : RoomManager) (i : ℕ) : Admits who rm (rm.assignMatchId i).1 := by
  unfold assignMatchId
  split <;> exact .of_eq rfl

/-- A new room admits its creator. -/
theorem createRoom_admits (rm : RoomManager) (n : ℕ) (p : CreatePayload) (hw : who n) :
    Admits who rm (rm.createRoom (.human n) p).1 := by
  unfold createRoom
  split
  · exact .refl rm
  · simp only
    split
    · rename_i rm' h
      obtain ⟨k, -, hk⟩ := Option.map_eq_some_iff.1 h
      rw [← hk]
      exact ((open_admits ..).trans (put_admits ..)).enter _ hw
    · exact .of_eq rfl

/-- A room that is not created has admitted nobody. -/
theorem createRoom_error {u : User} {p : CreatePayload} {e : ManagerError}
    (h : rm.createRoom u p = (rm', .error e)) : rm'.userRoom = rm.userRoom := by
  unfold createRoom at h
  split at h
  · cases h
    rfl
  · simp only at h
    split at h
    · cases h
    · cases h
      rfl

theorem joinRoom_admits (rm : RoomManager) (n i : ℕ) (team : Option ℕ) (hw : who n) :
    Admits who rm (rm.joinRoom (.human n) i team).1 := by
  rcases rm.joinRoom_cases (.human n) i team with ⟨e, h⟩ | ⟨r, k, -, -, -, -, h⟩
  · rw [h]
    exact .refl rm
  · rw [h]
    exact (put_admits ..).enter _ hw

theorem joinBot_admits (rm : RoomManager) (i k j : ℕ) : Admits who rm (rm.joinRoom (.bot i k) j none).1 := by
  rcases rm.joinRoom_cases (.bot i k) j none with ⟨e, h⟩ | ⟨r, l, -, -, -, -, h⟩
  · rw [h]
    exact .refl rm
  · rw [h]
    exact (put_admits ..).enterBot ..

end RoomManager

/-- The events that connect or queue a user, or start a practice match. -/
def Event.meets : Event → Bool
  | .connect _ _ | .disconnect _ | .enqueue _ | .practiceStart _ _ => true
  | _ => false

/-- What a connection is: its number and its user. -/
def Socket.link (s : Socket) : ℕ × ℕ := (s.id, s.userId)

namespace Gateway

open RoomManager (CreatePayload)

variable {g g' g'' : Gateway} {who : ℕ → Prop}

/-! ## What a handler does to the queue -/

/-- Nobody joins the queue, nobody connects or disconnects, and only the users named enter a
room. -/
structure Admits (who : ℕ → Prop) (g g' : Gateway) : Prop where
  queue : ∀ e ∈ g'.queue, e ∈ g.queue
  rooms : RoomManager.Admits who g.rooms g'.rooms
  links : g'.sockets.map Socket.link = g.sockets.map Socket.link

theorem socketsOf_ne_nil {g : Gateway} {n : ℕ} : g.socketsOf n ≠ [] ↔ ∃ i, (i, n) ∈ g.sockets.map Socket.link := by
  unfold socketsOf Socket.link
  rw [ne_eq, List.filter_eq_nil_iff, not_forall]
  simp

namespace Admits

theorem refl (g : Gateway) : Admits who g g := ⟨fun _ => id, .refl _, rfl⟩

theorem trans (h : Admits who g g') (h' : Admits who g' g'') : Admits who g g'' where
  queue := fun e he => h.queue e (h'.queue e he)
  rooms := h.rooms.trans h'.rooms
  links := h'.links.trans h.links

/-- The queue and the connections are as they were. -/
theorem of_rooms (hq : g'.queue = g.queue) (hr : RoomManager.Admits who g.rooms g'.rooms)
    (hs : g'.sockets.map Socket.link = g.sockets.map Socket.link) : Admits who g g' :=
  ⟨fun _ he => hq ▸ he, hr, hs⟩

theorem withRooms {rm : RoomManager} (h : RoomManager.Admits who g.rooms rm) : Admits who g (g.withRooms rm) :=
  of_rooms rfl h rfl

/-- The queue, the memberships and the connections are as they were. -/
theorem of_eq (hq : g'.queue = g.queue) (hr : g'.rooms.userRoom = g.rooms.userRoom)
    (hs : g'.sockets.map Socket.link = g.sockets.map Socket.link) : Admits who g g' := of_rooms hq (.of_eq hr) hs

/-- Who was connected still is. -/
theorem linked (h : Admits who g g') {n : ℕ} (hn : g.socketsOf n ≠ []) : g'.socketsOf n ≠ [] := by
  rw [socketsOf_ne_nil] at hn ⊢
  rw [h.links]
  exact hn

/-- A loop. -/
theorem foldl {α : Type} {f : Gateway → α → Gateway} (hf : ∀ g a, Admits who g (f g a)) (l : List α) :
    ∀ g, Admits who g (l.foldl f g) := by
  induction l with
  | nil => exact refl
  | cons a l ih => exact fun g => (hf g a).trans (ih _)

end Admits

theorem map_link (f : Socket → Socket) (hf : ∀ s, (f s).link = s.link) (l : List Socket) :
    (l.map f).map Socket.link = l.map Socket.link := by
  rw [List.map_map]
  exact List.map_congr_left fun s _ => hf s

theorem setSocketRoom_admits (g : Gateway) (s : ℕ) (o : Option ℕ) : Admits who g (g.setSocketRoom s o) := by
  refine .of_eq rfl rfl (map_link _ (fun x => ?_) _)
  split <;> rfl

theorem attachAll_admits (g : Gateway) (n i : ℕ) : Admits who g (g.attachAll n i) := by
  refine .of_eq rfl rfl (map_link _ (fun x => ?_) _)
  split <;> rfl

theorem dequeue_admits (g : Gateway) (n : ℕ) : Admits who g (g.dequeue n) :=
  ⟨fun _ he => (List.mem_filter.1 he).1, .refl _, rfl⟩

theorem mem_dequeue {e : QueueEntry} {n : ℕ} : e ∈ (g.dequeue n).queue ↔ e ∈ g.queue ∧ e.userId ≠ n := by
  unfold dequeue
  simp

theorem maybeStartCountdown_admits (g : Gateway) (i : ℕ) : Admits who g (g.maybeStartCountdown i) := .of_eq rfl rfl rfl

theorem setTier_admits (g : Gateway) (i : ℕ) (b : Bool) : Admits who g (g.setTier i b) := .of_eq rfl rfl rfl

theorem setOffer_admits (g : Gateway) (i : ℕ) (o : Option (List User)) : Admits who g (g.setOffer i o) :=
  .of_eq rfl rfl rfl

/-! ## Leaving and waiting -/

theorem leaveAndNotify_admits (g : Gateway) (u : User) (i : ℕ) : Admits who g (g.leaveAndNotify u i) := by
  have hl : Admits who g (g.withRooms (g.rooms.leaveRoom u)) := .withRooms (g.rooms.leaveRoom_admits u)
  unfold leaveAndNotify
  simp only
  split
  · exact hl.trans (.of_eq rfl rfl rfl)
  · exact hl.trans (maybeStartCountdown_admits ..)

theorem teardownBotRoom_admits (g : Gateway) (i : ℕ) : Admits who g (g.teardownBotRoom i) := by
  unfold teardownBotRoom
  split
  · exact setTier_admits ..
  · exact (setTier_admits g i false).trans (.withRooms (RoomManager.leaves_admits _ _))

theorem onReady_admits (g : Gateway) (s : ℕ) (b : Bool) : Admits who g (g.onReady s b) := by
  unfold onReady
  split
  · exact .refl g
  rename_i x _
  have hr : RoomManager.Admits who g.rooms (g.rooms.setReady x.user b).1 := g.rooms.setReady_admits x.user b
  split
  · exact .refl g
  · rename_i he _
    rw [he] at hr
    exact (Admits.withRooms hr).trans (maybeStartCountdown_admits ..)
  · rename_i he _
    rw [he] at hr
    exact .withRooms hr

theorem onSwitchTeam_admits (g : Gateway) (s team : ℕ) : Admits who g (g.onSwitchTeam s team) := by
  unfold onSwitchTeam
  split
  · exact .refl g
  rename_i x _
  have hr : RoomManager.Admits who g.rooms (g.rooms.switchTeam x.user team).1 := g.rooms.switchTeam_admits x.user team
  split
  · exact .refl g
  split
  · exact .refl g
  · rename_i he _
    rw [he] at hr
    exact (Admits.withRooms hr).trans (maybeStartCountdown_admits ..)
  · rename_i he _
    rw [he] at hr
    exact .withRooms hr

theorem startRematch_admits (g : Gateway) (i : ℕ) : Admits who g (g.startRematch i) := by
  have hr : RoomManager.Admits who g.rooms (g.rooms.resetForRematch i).1 := g.rooms.resetForRematch_admits i
  unfold startRematch
  simp only
  split
  · exact setOffer_admits ..
  · rename_i he
    rw [he] at hr
    exact ((setOffer_admits g i none).trans
      (.withRooms (hr.trans (RoomManager.setReadyAll_admits ..)))).trans (maybeStartCountdown_admits ..)

theorem onRematch_admits (g : Gateway) (s : ℕ) : Admits who g (g.onRematch s) := by
  unfold onRematch
  split
  · exact .refl g
  split
  · exact .refl g
  split
  · exact .refl g
  split
  · exact .refl g
  · simp only
    split
    · exact startRematch_admits ..
    · exact setOffer_admits ..

/-! ## Starts and ends of matches -/

theorem endBegin_admits (h : Admits who g g') (b : ℕ) : Admits who g (g'.endBegin b) := h.trans (.of_eq rfl rfl rfl)

theorem unreadyUnlessLive_admits (g : Gateway) (i : ℕ) : Admits who g (g.unreadyUnlessLive i) := by
  unfold unreadyUnlessLive
  split
  · exact .withRooms (RoomManager.setReadyAll_admits ..)
  · exact .refl g

theorem startFailed_admits (g : Gateway) (b : ℕ) (x : Begin) : Admits who g (g.startFailed b x) := by
  unfold startFailed
  split
  · exact .of_eq rfl rfl rfl
  · exact endBegin_admits (unreadyUnlessLive_admits ..) b

theorem undo_admits (g : Gateway) (b : ℕ) (x : Begin) : Admits who g (g.undo b x) := .of_eq rfl rfl rfl

theorem launch_admits (g : Gateway) (b : ℕ) (x : Begin) (esc : Bool) (deal : ℕ → List (List Card)) :
    Admits who g (g.launch b x esc deal) := by
  unfold launch
  rcases g.rooms.startMatch_cases x.roomId deal with ⟨e, h⟩ | ⟨e, h⟩ | ⟨r, m, -, -, -, -, h⟩
  · rw [h]
    exact startFailed_admits ..
  · rw [h]
    simp only
    split
    · exact undo_admits ..
    · exact endBegin_admits (.withRooms (RoomManager.setReadyAll_admits ..)) b
  · rw [h]
    exact .of_eq rfl rfl rfl

theorem escrowStakes_admits (g : Gateway) (b : ℕ) (x : Begin) (deal : ℕ → List (List Card)) :
    Admits who g (g.escrowStakes b x deal) := by
  unfold escrowStakes
  split
  · exact launch_admits ..
  · split
    · exact launch_admits ..
    · exact .of_eq rfl rfl rfl

theorem checkFrom_admits (g : Gateway) (b : ℕ) (x : Begin) (seat : ℕ) (blocked : Bool)
    (deal : ℕ → List (List Card)) : Admits who g (g.checkFrom b x seat blocked deal) := by
  unfold checkFrom
  split
  · exact .of_eq rfl rfl rfl
  · split
    · exact endBegin_admits (.refl g) b
    · exact escrowStakes_admits ..

theorem onCountdown_admits (g : Gateway) (i : ℕ) (deal : ℕ → List (List Card)) :
    Admits who g (g.onCountdown i deal) := by
  unfold onCountdown
  split
  · have hclear : Admits who g (g.clearCountdown i) := .of_eq rfl rfl rfl
    have hid : RoomManager.Admits who g.rooms (g.rooms.assignMatchId i).1 := g.rooms.assignMatchId_admits i
    refine hclear.trans ?_
    unfold beginMatch
    split
    · rename_i r rooms id _ he
      have he' : g.rooms.assignMatchId i = (rooms, some id) := he
      rw [he'] at hid
      split
      · exact .refl _
      · simp only
        split
        · refine Admits.trans ?_ (checkFrom_admits ..)
          exact .of_rooms rfl hid rfl
        · refine Admits.trans ?_ (escrowStakes_admits ..)
          exact .of_rooms rfl hid rfl
    · exact .refl _
  · exact .refl g

theorem checked_admits (g : Gateway) (b : ℕ) (v : Verdict) (deal : ℕ → List (List Card)) :
    Admits who g (g.checked b v deal) := by
  unfold checked
  split
  · rename_i x _
    split
    · exact checkFrom_admits ..
    · rename_i seat _ _
      refine Admits.trans (.withRooms ?_) (checkFrom_admits ..)
      split
      · exact g.rooms.setReady_admits ..
      · exact .refl _
    · exact startFailed_admits ..
    · exact .refl g
  · exact .refl g

theorem escrowed_admits (g : Gateway) (b : ℕ) (x : Begin) (ps : List (MatchPlayer User)) (r : EscrowResult User)
    (deal : ℕ → List (List Card)) : Admits who g (g.escrowed b x ps r deal) := by
  unfold escrowed
  split
  · exact endBegin_admits (.withRooms (RoomManager.Admits.foldl (fun rm u => rm.setReady_admits u false) _ _)) b
  · simp only
    split
    · exact launch_admits ..
    · exact undo_admits ..

theorem resumeBegin_admits (g : Gateway) (b : ℕ) (deal : ℕ → List (List Card)) :
    Admits who g (g.resumeBegin b deal) := by
  have hall : ∀ i, Admits who g ((g.withRooms (g.rooms.setReadyAll i false)).endBegin b) := fun i =>
    endBegin_admits (.withRooms (g.rooms.setReadyAll_admits i false)) b
  unfold resumeBegin
  split
  · exact .refl g
  rename_i x _
  split
  · exact .refl g
  · split
    · exact escrowed_admits ..
    · exact startFailed_admits ..
    · exact .refl g
  · split
    · exact hall _
    · exact startFailed_admits ..
    · exact .refl g
  · split
    · exact endBegin_admits (unreadyUnlessLive_admits ..) b
    · exact .refl g

theorem freeGone_admits (g : Gateway) (i : ℕ) : Admits who g (g.freeGone i) :=
  .withRooms (.of_eq (RoomManager.modify_userRoom ..))

theorem endEnding_admits (h : Admits who g g') (k : ℕ) : Admits who g (g'.endEnding k) := h.trans (.of_eq rfl rfl rfl)

theorem emitMatchEnd_admits (g : Gateway) (e : MatchEnd) : Admits who g (g.emitMatchEnd e) := .of_eq rfl rfl rfl

theorem announce_admits (g : Gateway) (i : ℕ) (result : EndResult) (payout : Option ℕ) :
    Admits who g (g.announce i result payout) := by
  unfold announce
  split
  · exact .refl g
  · exact (emitMatchEnd_admits ..).trans (freeGone_admits ..)

theorem announceVoid_admits (g : Gateway) (i : ℕ) (result : EndResult) : Admits who g (g.announceVoid i result) :=
  (emitMatchEnd_admits ..).trans (freeGone_admits ..)

theorem afterPayout_admits (g : Gateway) (k : ℕ) (x : Ending) (payout : Option ℕ) :
    Admits who g (g.afterPayout k x payout) := by
  unfold afterPayout
  split
  · exact endEnding_admits (announce_admits ..) k
  · exact .of_eq rfl rfl rfl

theorem claimFinalize_admits {i : ℕ} (h : g.claimFinalize i = some g') : Admits who g g' := by
  unfold claimFinalize at h
  simp only at h
  split at h
  · cases h
  · cases h
    exact .of_eq rfl (RoomManager.modify_userRoom ..) rfl

theorem settleAndEmitMatchEnd_admits (g : Gateway) (i : ℕ) (result : EndResult) :
    Admits who g (g.settleAndEmitMatchEnd i result) := by
  unfold settleAndEmitMatchEnd
  cases hc : g.claimFinalize i with
  | none => exact .refl g
  | some g₂ =>
    refine (claimFinalize_admits hc).trans ?_
    have hawait : ∀ x, Admits who g₂ (g₂.await x) := fun x => .of_eq rfl rfl rfl
    simp only
    split
    · exact .of_eq rfl rfl rfl
    · exact announceVoid_admits ..
    · split
      · exact (hawait _).trans (afterPayout_admits ..)
      · exact .of_eq rfl rfl rfl
    · exact (hawait _).trans (afterPayout_admits ..)

theorem resumeEnding_admits (g : Gateway) (k : ℕ) : Admits who g (g.resumeEnding k) := by
  unfold resumeEnding
  split
  · exact .refl g
  split
  · split
    · exact endEnding_admits (announceVoid_admits ..) k
    · exact endEnding_admits (freeGone_admits ..) k
    · exact .refl g
  · split
    · exact afterPayout_admits ..
    · exact endEnding_admits (freeGone_admits ..) k
    · exact endEnding_admits (freeGone_admits ..) k
    · exact .refl g
  · exact endEnding_admits (announce_admits ..) k
  · split
    · exact endEnding_admits (emitMatchEnd_admits ..) k
    · exact endEnding_admits (.refl g) k
    · exact .refl g

theorem adminVoidMatch_admits (g : Gateway) (i : ℕ) : Admits who g (g.adminVoidMatch i) := by
  unfold adminVoidMatch
  split
  · cases hc : g.claimFinalize i with
    | none => exact .refl g
    | some g₂ =>
      refine (claimFinalize_admits hc).trans ?_
      simp only
      split
      · exact .of_eq rfl rfl rfl
      · exact emitMatchEnd_admits ..
  · exact .refl g

theorem applyResult_admits (g : Gateway) (i : ℕ) (r : MatchActionResult) : Admits who g (g.applyResult i r) := by
  refine Admits.foldl (fun g ev => ?_) _ g
  unfold applyEvent
  split
  · exact settleAndEmitMatchEnd_admits ..
  · exact .refl g

theorem act_admits (g : Gateway) (u : User) (call : ℕ → Match.Call) : Admits who g (g.act u call) := by
  have hf : Admits who g (g.withRooms (g.rooms.forward u call).1) := .withRooms (g.rooms.forward_admits u call)
  unfold act
  simp only
  split
  · exact hf.trans (applyResult_admits ..)
  · exact hf

theorem forfeitMatch_admits (g : Gateway) (i seat : ℕ) : Admits who g (g.forfeitMatch i seat) := by
  unfold forfeitMatch
  split
  · exact .refl g
  split
  · exact .refl g
  split
  · exact .refl g
  · rename_i u _
    have hf : Admits who g (g.withRooms (g.rooms.forfeitSeat u).1) := .withRooms (g.rooms.forfeitSeat_admits u)
    simp only
    split
    · exact hf.trans (applyResult_admits ..)
    · exact hf

theorem leaveOrForfeit_admits (g : Gateway) (u : User) (i : ℕ) : Admits who g (g.leaveOrForfeit u i) := by
  unfold leaveOrForfeit
  split
  · split
    · exact forfeitMatch_admits ..
    · exact leaveAndNotify_admits ..
  · exact leaveAndNotify_admits ..

theorem onLeave_admits (g : Gateway) (s : ℕ) : Admits who g (g.onLeave s) := by
  unfold onLeave
  split
  · exact .refl g
  split
  · exact .refl g
  · rename_i x _ _ i _
    have hl : Admits who g (((g.cancelRematch i).setSocketRoom s none).leaveOrForfeit x.user i) :=
      ((setOffer_admits g i none).trans (setSocketRoom_admits ..)).trans (leaveOrForfeit_admits ..)
    simp only
    split
    · exact hl.trans (teardownBotRoom_admits ..)
    · exact hl

theorem onAbandon_admits (g : Gateway) (i n : ℕ) : Admits who g (g.onAbandon i n) := by
  unfold onAbandon
  split
  · exact .refl g
  · split
    · exact .refl g
    · exact forfeitMatch_admits ..

theorem onIdle_admits (g : Gateway) (i seat : ℕ) : Admits who g (g.onIdle i seat) := by
  unfold onIdle
  split
  · exact .refl g
  · exact forfeitMatch_admits ..

/-! ## Rooms with bots, and rooms of the queue -/

theorem seatBots_admits (seats : List ℕ) : ∀ (rm : RoomManager) (i : ℕ),
    RoomManager.Admits who rm (seatBots rm i seats).1 := by
  induction seats with
  | nil => exact fun rm _ => .refl rm
  | cons k seats ih =>
    intro rm i
    have hj : RoomManager.Admits who rm (rm.joinRoom (.bot i k) i none).1 := rm.joinBot_admits i k i
    unfold seatBots
    simp only
    split
    · exact .refl rm
    · rename_i rm' he
      rw [he] at hj
      exact ((hj.trans (rm'.setConnected_admits _ true)).trans (RoomManager.setReady_admits ..)).trans (ih _ i)

theorem startWithBots_admits (g : Gateway) (i : ℕ) : Admits who g (g.startWithBots i) := by
  have hf : RoomManager.Admits who g.rooms (fillEmptySeatsWithBots g.rooms i).1 := by
    unfold fillEmptySeatsWithBots
    split
    · exact .refl _
    split
    · exact .refl _
    · exact seatBots_admits ..
  unfold startWithBots
  split
  · rename_i he
    rw [he] at hf
    exact (Admits.withRooms hf).trans (maybeStartCountdown_admits ..)
  · rename_i he
    rw [he] at hf
    exact (Admits.withRooms hf).trans (teardownBotRoom_admits ..)

theorem ghostFill_admits (g : Gateway) (i : ℕ) : Admits who g (g.ghostFill i) := by
  unfold ghostFill
  split
  · exact .refl g
  · split
    · have hm : Admits who g (g.withRooms (g.rooms.markPractice i)) :=
        .withRooms (.of_eq (RoomManager.modify_userRoom ..))
      exact (hm.trans (setTier_admits ..)).trans (startWithBots_admits ..)
    · exact .refl g

theorem onTournamentNoShow_admits (g : Gateway) (i : ℕ) : Admits who g (g.onTournamentNoShow i) := by
  unfold onTournamentNoShow
  split
  · exact .refl g
  · split
    · exact .refl g
    · exact .withRooms ((RoomManager.leaves_admits _ _).trans (RoomManager.deleteRoom_admits ..))

theorem openBotRoom_admits (g : Gateway) (n : ℕ) (p : CreatePayload) (hw : who n) :
    Admits who g (g.openBotRoom n p) := by
  have hc := g.rooms.createRoom_admits n p hw
  unfold openBotRoom
  split
  · rename_i he
    rw [he] at hc
    exact .withRooms hc
  · rename_i rooms i he
    rw [he] at hc
    have hready : Admits who g (g.withRooms (rooms.setReady (.human n) true).1) :=
      .withRooms (hc.trans (rooms.setReady_admits ..))
    exact ((hready.trans (setTier_admits ..)).trans (attachAll_admits ..)).trans (startWithBots_admits ..)

theorem joinAll_admits (us : List ℕ) (hw : ∀ n ∈ us, who n) : ∀ (rm : RoomManager) (i : ℕ),
    RoomManager.Admits who rm (joinAll rm i us).1 := by
  induction us with
  | nil => exact fun rm _ => .refl rm
  | cons n us ih =>
    intro rm i
    have hj := rm.joinRoom_admits n i none (hw n List.mem_cons_self)
    unfold joinAll
    split
    · rename_i rm' he
      rw [he] at hj
      exact hj.trans (ih (fun m hm => hw m (List.mem_cons_of_mem n hm)) rm' i)
    · exact .refl rm

theorem seatRankedGroup_admits (g : Gateway) (type : MatchType) (group : List ℕ) (hw : ∀ n ∈ group, who n) :
    Admits who g (g.seatRankedGroup type group) := by
  unfold seatRankedGroup
  split
  · exact .refl g
  rename_i creator rest
  split
  · exact .refl g
  have hc := g.rooms.createRoom_admits creator { type, stakeCents := 0, ranked := true } (hw creator List.mem_cons_self)
  split
  · rename_i he
    rw [he] at hc
    exact .withRooms hc
  · rename_i rooms i he
    rw [he] at hc
    have hj := hc.trans (joinAll_admits rest (fun n hn => hw n (List.mem_cons_of_mem creator hn)) rooms i)
    split
    · rename_i he'
      rw [he'] at hj
      exact .withRooms (hj.trans (RoomManager.Admits.foldl (fun rm u => rm.leaveRoom_admits (.human u)) _ _))
    · rename_i rooms' he'
      rw [he'] at hj
      have hattach : Admits who (g.withRooms rooms') ((g.withRooms rooms').attachGroup i (creator :: rest)) :=
        Admits.foldl (fun g u => (g.attachAll_admits u i).trans (.withRooms (RoomManager.setReady_admits ..))) _ _
      exact ((Admits.withRooms hj).trans hattach).trans (maybeStartCountdown_admits ..)

/-! ## Apart -/

/-- Who is queued is connected and in no room. -/
def Exclusive (g : Gateway) : Prop :=
  ∀ e ∈ g.queue, g.rooms.userRoom (.human e.userId) = none ∧ g.socketsOf e.userId ≠ []

/-- A rating that is read finds its user connected and in no room, and nobody starts a practice
match from the queue. -/
def Apart (g : Gateway) : Event → Prop
  | .enqueue k => ∀ e, g.joining[k]? = some e →
      g.rooms.userRoom (.human e.userId) = none ∧ g.socketsOf e.userId ≠ []
  | .practiceStart s _ => ∀ x, g.socket? s = some x → ∀ e ∈ g.queue, e.userId ≠ x.userId
  | _ => True

/-- Nobody who enters a room is in the queue afterwards. -/
def Parts (g g' : Gateway) : Prop := ∃ who, Admits who g g' ∧ ∀ e ∈ g'.queue, ¬ who e.userId

theorem Admits.parts (ha : Admits (fun _ => False) g g') : Parts g g' := ⟨_, ha, fun _ _ => id⟩

theorem Parts.of_eq (hq : g'.queue = g.queue) (hr : g'.rooms.userRoom = g.rooms.userRoom)
    (hs : g'.sockets.map Socket.link = g.sockets.map Socket.link) : Parts g g' := (Admits.of_eq hq hr hs).parts

theorem Parts.refl (g : Gateway) : Parts g g := (Admits.refl g).parts

/-- Afterwards, or before, nobody enters a room. -/
theorem Parts.then (h : Parts g g') (ha : ∀ who, Admits who g' g'') : Parts g g'' := by
  obtain ⟨who, h, hq⟩ := h
  exact ⟨who, h.trans (ha who), fun e he => hq e ((ha who).queue e he)⟩

theorem Parts.after (h : Parts g' g'') (ha : ∀ who, Admits who g g') : Parts g g'' := by
  obtain ⟨who, h, hq⟩ := h
  exact ⟨who, (ha who).trans h, hq⟩

theorem Exclusive.parts (h : g.Exclusive) (hp : Parts g g') : g'.Exclusive := by
  obtain ⟨who, ha, hq⟩ := hp
  intro e he
  have hin := h e (ha.queue e he)
  exact ⟨ha.rooms.enters (hq e he) hin.1, ha.linked hin.2⟩

/-- Sockets are numbered apart. -/
def Numbers (g : Gateway) : Prop := (g.sockets.map Socket.id).Nodup

/-- Rooms keep their numbers. -/
theorem Admits.numbers (ha : Admits who g g') (h : g.Numbers) : g'.Numbers := by
  have hids : ∀ x : Gateway, x.sockets.map Socket.id = (x.sockets.map Socket.link).map Prod.fst := by
    intro x
    rw [List.map_map]
    rfl
  unfold Numbers at h ⊢
  rw [hids, ha.links, ← hids]
  exact h

theorem Parts.numbers (hp : Parts g g') (h : g.Numbers) : g'.Numbers := by
  obtain ⟨who, ha, -⟩ := hp
  exact ha.numbers h

theorem mem_of_socket? {s : ℕ} {x : Socket} (h : g.socket? s = some x) : x ∈ g.sockets ∧ x.id = s := by
  unfold socket? at h
  exact ⟨List.mem_of_find?_eq_some h, by simpa using List.find?_some h⟩

/-- A user sits down and leaves the queue. -/
theorem seated_parts (g : Gateway) (s : Socket) (i : ℕ) {rm : RoomManager}
    (hr : RoomManager.Admits (· = s.userId) g.rooms rm) : Parts g ((g.withRooms rm).seated s i) := by
  refine ⟨_, ((Admits.withRooms hr).trans (dequeue_admits _ s.userId)).trans (setSocketRoom_admits ..), fun e he => ?_⟩
  exact (mem_dequeue.1 he).2

/-! ## The events that seat users -/

theorem onCreate_parts (g : Gateway) (s : ℕ) (p : CreatePayload) : Parts g (g.onCreate s p) := by
  unfold onCreate
  split
  · exact .refl g
  rename_i x _
  have hc : RoomManager.Admits (· = x.userId) _ _ :=
    g.rooms.createRoom_admits x.userId p rfl
  split
  · rename_i he
    have he' : g.rooms.createRoom (.human x.userId) p = _ := he
    rw [he'] at hc
    exact seated_parts g x _ hc
  · rename_i he
    exact (Admits.withRooms (.of_eq (RoomManager.createRoom_error he))).parts

theorem onJoin_parts (g : Gateway) (s i : ℕ) (team : Option ℕ) : Parts g (g.onJoin s i team) := by
  unfold onJoin
  split
  · exact .refl g
  rename_i x _
  have hj : RoomManager.Admits (· = x.userId) _ _ := g.rooms.joinRoom_admits x.userId i team rfl
  split
  · exact .refl g
  · rename_i rooms he
    have he' : g.rooms.joinRoom (.human x.userId) i team = _ := he
    rw [he'] at hj
    have hready : RoomManager.Admits (· = x.userId) g.rooms (autoReady rooms x.user i) := by
      refine hj.trans ?_
      unfold autoReady
      split
      · exact rooms.setReady_admits ..
      · exact .refl _
    exact (seated_parts g x i hready).then fun _ => maybeStartCountdown_admits ..

theorem onJoinByCode_parts (g : Gateway) (s code : ℕ) : Parts g (g.onJoinByCode s code) := by
  unfold onJoinByCode
  split
  · exact .refl g
  rename_i x _
  split
  · exact .refl g
  rename_i i _
  have hm : ∀ who, Admits who g (g.withRooms (g.rooms.markInvited i x.user)) := fun _ =>
    .withRooms (.of_eq (RoomManager.modify_userRoom ..))
  have hj : RoomManager.Admits (· = x.userId) _ _ :=
    (g.rooms.markInvited i x.user).joinRoom_admits x.userId i none rfl
  simp only
  split
  · exact (hm _).parts
  · rename_i he
    have he' : (g.rooms.markInvited i x.user).joinRoom (.human x.userId) i none = _ := he
    rw [he'] at hj
    exact ((seated_parts _ x i hj).after hm).then fun _ => maybeStartCountdown_admits ..

/-- Who is left in the queue once a group is taken off. -/
theorem mem_dequeues {e : QueueEntry} (group : List ℕ) : ∀ {g : Gateway},
    e ∈ (group.foldl dequeue g).queue ↔ e ∈ g.queue ∧ e.userId ∉ group := by
  induction group with
  | nil => simp
  | cons n group ih =>
    intro g
    rw [List.foldl_cons, ih, mem_dequeue, List.mem_cons]
    tauto

theorem tryFormRanked_parts (g : Gateway) (type : MatchType) (group : List ℕ) : Parts g (g.tryFormRanked type group) := by
  unfold tryFormRanked
  split
  · have hs : Admits (· ∈ group) _ _ := seatRankedGroup_admits (group.foldl dequeue g) type group fun _ => id
    refine ⟨_, (Admits.foldl dequeue_admits group g).trans hs, fun e he => ?_⟩
    exact ((mem_dequeues group).1 (hs.queue e he)).2
  · exact .refl g

theorem formRankedVsBots_parts (g : Gateway) (n : ℕ) (type : MatchType) : Parts g (g.formRankedVsBots n type) := by
  unfold formRankedVsBots
  split
  · exact .refl g
  simp only
  split
  · exact (dequeue_admits ..).parts
  · have ho : Admits (· = n) _ _ := openBotRoom_admits (g.dequeue n) n { type, stakeCents := 0, ranked := true } rfl
    exact ⟨_, (dequeue_admits g n).trans ho, fun e he => (mem_dequeue.1 (ho.queue e he)).2⟩

/-! ## Connections -/

theorem onGone_admits (g : Gateway) (n : ℕ) : Admits who g (g.onGone n) := by
  have hd : Admits who g (g.dequeue n) := dequeue_admits g n
  unfold onGone
  simp only
  split
  · exact hd
  split
  · exact hd
  split
  · exact (hd.trans (leaveAndNotify_admits ..)).trans (teardownBotRoom_admits ..)
  split
  · exact hd.trans (.withRooms (RoomManager.setConnected_admits ..))
  · exact hd.trans (leaveAndNotify_admits ..)

/-- The user without sockets is out of the queue. -/
theorem onGone_queue {e : QueueEntry} {n : ℕ} (he : e ∈ (g.onGone n).queue) : e.userId ≠ n := by
  have hsub : ∀ g' : Gateway, Admits (fun _ => False) (g.dequeue n) g' → e ∈ g'.queue → e.userId ≠ n :=
    fun g' ha hmem => (mem_dequeue.1 (ha.queue e hmem)).2
  unfold onGone at he
  simp only at he
  split at he
  · exact hsub _ (.refl _) he
  split at he
  · exact hsub _ (.refl _) he
  split at he
  · exact hsub _ ((leaveAndNotify_admits ..).trans (teardownBotRoom_admits ..)) he
  split at he
  · exact hsub _ (.withRooms (RoomManager.setConnected_admits ..)) he
  · exact hsub _ (leaveAndNotify_admits ..) he

/-- A connection that goes puts nobody in a room. -/
theorem onDisconnect_exclusive (h : g.Exclusive) (hn : g.Numbers) (s : ℕ) : (g.onDisconnect s).Exclusive := by
  unfold onDisconnect
  split
  · exact h
  rename_i x hx
  obtain ⟨hmem, hid⟩ := mem_of_socket? hx
  -- who has another socket keeps it
  have hkeep : ∀ n, n ≠ x.userId → g.socketsOf n ≠ [] →
      ({ g with sockets := g.sockets.filter fun y => y.id ≠ s } : Gateway).socketsOf n ≠ [] := by
    intro n hne hs
    obtain ⟨y, hy⟩ := List.exists_mem_of_ne_nil _ hs
    obtain ⟨hyg, hyn⟩ := List.mem_filter.1 hy
    have hys : y.id ≠ s := by
      intro heq
      have hsame := List.inj_on_of_nodup_map hn hyg hmem (heq.trans hid.symm)
      rw [hsame] at hyn
      exact hne (of_decide_eq_true hyn).symm
    refine List.ne_nil_of_mem (a := y) ?_
    unfold socketsOf
    exact List.mem_filter.2 ⟨List.mem_filter.2 ⟨hyg, by simpa using hys⟩, hyn⟩
  simp only
  split
  · rename_i hleft
    intro e he
    refine ⟨(h e he).1, ?_⟩
    by_cases hne : e.userId = x.userId
    · rw [hne]
      exact hleft
    · exact hkeep _ hne (h e he).2
  · intro e he
    have ha : Admits (fun _ => False) _ _ := onGone_admits
      ({ g with sockets := g.sockets.filter fun y => y.id ≠ s } : Gateway) x.userId
    have hin := h e (ha.queue e he)
    exact ⟨ha.rooms.enters (fun hf => hf) hin.1, ha.linked (hkeep _ (onGone_queue he) hin.2)⟩

/-- A connection that comes puts nobody in the queue. -/
theorem onConnection_exclusive (h : g.Exclusive) (s n : ℕ) : (g.onConnection s n).Exclusive := by
  have hlink : ∀ (g' : Gateway) (x : Socket), g'.queue = g.queue → g'.sockets = x :: g.sockets →
      RoomManager.Admits (fun _ => False) g.rooms g'.rooms → g'.Exclusive := by
    intro g' x hq hs hr e he
    have hin := h e (hq ▸ he)
    refine ⟨hr.enters (fun hf => hf) hin.1, ?_⟩
    obtain ⟨i, hi⟩ := socketsOf_ne_nil.1 hin.2
    rw [socketsOf_ne_nil, hs]
    exact ⟨i, List.mem_cons_of_mem _ hi⟩
  unfold onConnection
  split
  · exact h
  split
  · exact hlink _ _ rfl rfl (RoomManager.setConnected_admits ..)
  · exact hlink _ _ rfl rfl (.refl _)

/-! ## A practice match from the queue -/

theorem setReady_userRoom (rm : RoomManager) (u : User) (b : Bool) : (rm.setReady u b).1.userRoom = rm.userRoom := by
  rcases rm.setReady_cases u b with ⟨e, h⟩ | ⟨i, r, k, -, -, -, -, h⟩
  · rw [h]
  · rw [h]
    rfl

theorem setConnected_userRoom (rm : RoomManager) (u : User) (b : Bool) : (rm.setConnected u b).userRoom = rm.userRoom := by
  unfold RoomManager.setConnected
  split
  · rfl
  · exact RoomManager.modify_userRoom ..

theorem joinBot_userRoom (rm : RoomManager) (i k j n : ℕ) :
    (rm.joinRoom (.bot i k) j none).1.userRoom (.human n) = rm.userRoom (.human n) := by
  have hne : User.human n ≠ User.bot i k := fun heq => by cases heq
  rcases rm.joinRoom_cases (.bot i k) j none with ⟨e, h⟩ | ⟨r, l, -, -, -, -, h⟩
  · rw [h]
  · rw [h]
    exact Function.update_of_ne hne (some j) rm.userRoom

/-- Bots that leave take nobody along. -/
theorem leaveBots_userRoom (n : ℕ) (us : List User) (hbot : ∀ u ∈ us, isBot (some u) = true) : ∀ rm : RoomManager,
    (us.foldl RoomManager.leaveRoom rm).userRoom (.human n) = rm.userRoom (.human n) := by
  induction us with
  | nil => exact fun _ => rfl
  | cons u us ih =>
    intro rm
    have hne : User.human n ≠ u := by
      rintro rfl
      cases hbot _ List.mem_cons_self
    have hone : (rm.leaveRoom u).userRoom (.human n) = rm.userRoom (.human n) := by
      have hput : ∀ i r, (rm.settleLeft i r).userRoom = rm.userRoom := by
        intro i r
        unfold RoomManager.settleLeft
        split <;> rfl
      unfold RoomManager.leaveRoom
      split
      · rfl
      split
      · exact Function.update_of_ne hne ..
      · have hexit : ∀ x : RoomManager, (x.exit u).userRoom (.human n) = x.userRoom (.human n) := fun x =>
          Function.update_of_ne hne ..
        rw [hexit, hput]
    rw [List.foldl_cons, ih (fun v hv => hbot v (List.mem_cons_of_mem u hv)), hone]

theorem seatBots_userRoom (n : ℕ) (seats : List ℕ) : ∀ (rm : RoomManager) (i : ℕ),
    (seatBots rm i seats).1.userRoom (.human n) = rm.userRoom (.human n) := by
  induction seats with
  | nil => exact fun _ _ => rfl
  | cons k seats ih =>
    intro rm i
    have hj := joinBot_userRoom rm i k i n
    unfold seatBots
    simp only
    split
    · rfl
    · rename_i rm' he
      rw [he] at hj
      rw [ih, setReady_userRoom, setConnected_userRoom]
      exact hj

/-- Whatever becomes of the bots, the human stays. -/
theorem startWithBots_userRoom (g : Gateway) (i n : ℕ) :
    (g.startWithBots i).rooms.userRoom (.human n) = g.rooms.userRoom (.human n) := by
  have hf : (fillEmptySeatsWithBots g.rooms i).1.userRoom (.human n) = g.rooms.userRoom (.human n) := by
    unfold fillEmptySeatsWithBots
    split
    · rfl
    split
    · rfl
    · exact seatBots_userRoom ..
  unfold startWithBots
  split
  · rename_i he
    rw [he] at hf
    exact hf
  · rename_i rooms he
    rw [he] at hf
    refine Eq.trans ?_ hf
    unfold teardownBotRoom
    split
    · rfl
    · exact leaveBots_userRoom n _ (fun u hu => (List.mem_filter.1 hu).2) _

/-- Who is nowhere opens a room. -/
theorem createRoom_opens {rm : RoomManager} {u : User} {p : CreatePayload} (hu : rm.userRoom u = none)
    (ht : p.team = none) :
    rm.createRoom u p = (((rm.open_ (rm.emptyRoom p)).put (rm.seq + 1) ((rm.emptyRoom p).sit u 0)).enter u (rm.seq + 1),
      .ok (rm.seq + 1)) := by
  have hpick : (rm.emptyRoom p).pickSeat p.team = some 0 := by
    rw [ht]
    unfold Room.pickSeat RoomManager.emptyRoom
    cases p.type <;> rfl
  unfold RoomManager.createRoom RoomManager.seat
  simp only [hu, hpick, Option.isSome_none, Bool.false_eq_true, if_false, Option.map_some]

/-- The room with bots is its creator's, who may still be queued. -/
theorem openBotRoom_enters {g : Gateway} {n : ℕ} {p : CreatePayload} (hu : g.rooms.userRoom (.human n) = none)
    (ht : p.team = none) :
    (g.openBotRoom n p).rooms.userRoom (.human n) = some (g.rooms.seq + 1) ∧ (g.openBotRoom n p).queue = g.queue := by
  unfold openBotRoom
  rw [createRoom_opens hu ht]
  simp only
  refine ⟨?_, ?_⟩
  · rw [startWithBots_userRoom]
    show (RoomManager.setReady _ _ true).1.userRoom (.human n) = _
    rw [setReady_userRoom]
    exact Function.update_self ..
  · unfold startWithBots
    split
    · rfl
    · unfold teardownBotRoom
      split <;> rfl

/-- A practice room keeps queue and rooms apart exactly if its creator was not queued. -/
theorem onPracticeStart_exclusive (h : g.Exclusive) (s : ℕ) (type : MatchType) :
    (g.onPracticeStart s type).Exclusive ↔ g.Apart (.practiceStart s type) := by
  show _ ↔ ∀ x, g.socket? s = some x → ∀ e ∈ g.queue, e.userId ≠ x.userId
  unfold onPracticeStart
  cases hx : g.socket? s with
  | none => exact ⟨fun _ x hno => absurd hno (by simp), fun _ => h⟩
  | some x =>
    simp only [Option.some.injEq, forall_eq']
    constructor
    · -- a queued user is in no room and gets one
      intro hex e he heq
      have hno : g.rooms.userRoom (.human x.userId) = none := heq ▸ (h e he).1
      have hroomless : (g.rooms.roomOf x.user).isSome = false := by
        unfold RoomManager.roomOf Socket.user
        rw [hno]
        rfl
      rw [hroomless] at hex
      simp only [Bool.false_eq_true, if_false] at hex
      obtain ⟨hroom, hq⟩ := openBotRoom_enters (p := { type, stakeCents := 0, practice := true }) hno rfl
      have hnone := (hex e (hq ▸ he)).1
      rw [heq, hroom] at hnone
      cases hnone
    · intro hq
      split
      · exact h
      · have ho : Admits (· = x.userId) _ _ := openBotRoom_admits g x.userId { type, stakeCents := 0, practice := true } rfl
        exact h.parts ⟨_, ho, fun e he => hq e (ho.queue e he)⟩

/-! ## Every event -/

/-- Who joins the queue keeps them apart exactly if he is in no room. -/
theorem enqueue_exclusive (h : g.Exclusive) (k : ℕ) : (g.enqueue k).Exclusive ↔ g.Apart (.enqueue k) := by
  show _ ↔ ∀ e, g.joining[k]? = some e → g.rooms.userRoom (.human e.userId) = none ∧ g.socketsOf e.userId ≠ []
  unfold enqueue
  split
  · rename_i hnone
    exact ⟨fun _ e he => absurd (hnone.symm.trans he) (by simp), fun _ => h⟩
  · rename_i e he
    rw [he]
    simp only [Option.some.injEq, forall_eq']
    constructor
    · intro hex
      exact hex e (List.mem_append_right _ List.mem_cons_self)
    · intro he' x hx
      rcases List.mem_append.1 hx with hx | hx
      · exact h x (mem_dequeue.1 hx).1
      · rw [List.mem_singleton.1 hx]
        exact he'

/-- Every other event keeps them apart. -/
theorem step_parts (g : Gateway) {e : Event} (h : e.meets = false) : Parts g (g.step e) := by
  cases e with
  | connect s n => cases h
  | disconnect s => cases h
  | create s p => exact onCreate_parts ..
  | join s i team => exact onJoin_parts ..
  | joinByCode s code => exact onJoinByCode_parts ..
  | invite i n => exact (Admits.withRooms (.of_eq (RoomManager.modify_userRoom ..))).parts
  | leave s => exact (onLeave_admits ..).parts
  | ready s b => exact (onReady_admits ..).parts
  | switchTeam s team => exact (onSwitchTeam_admits ..).parts
  | rematch s => exact (onRematch_admits ..).parts
  | rematchTimeout i => exact (setOffer_admits ..).parts
  | move u m => exact (act_admits ..).parts
  | abandon i n => exact (onAbandon_admits ..).parts
  | idle i seat => exact (onIdle_admits ..).parts
  | rankedQueueJoin s type =>
    show Parts g (g.onRankedQueueJoin s type)
    unfold onRankedQueueJoin
    split
    · exact .refl g
    split
    · exact .refl g
    · exact .of_eq rfl rfl rfl
  | enqueue k => cases h
  | rankedQueueLeave s =>
    show Parts g (g.onRankedQueueLeave s)
    unfold onRankedQueueLeave
    split
    · exact .refl g
    · exact (dequeue_admits ..).parts
  | formRanked type group => exact tryFormRanked_parts ..
  | formRankedVsBots n type => exact formRankedVsBots_parts ..
  | practiceStart s type => cases h
  | ghostFill i => exact (ghostFill_admits ..).parts
  | tournamentRoom ps => exact .of_eq rfl rfl rfl
  | clubWarRoom ps => exact .of_eq rfl rfl rfl
  | tournamentNoShow i => exact (onTournamentNoShow_admits ..).parts
  | countdown i deal => exact (onCountdown_admits ..).parts
  | checked b v deal => exact (checked_admits ..).parts
  | resumeBegin b deal => exact (resumeBegin_admits ..).parts
  | resumeEnding k => exact (resumeEnding_admits ..).parts
  | adminVoid i => exact (adminVoidMatch_admits ..).parts
  | sweep => exact .of_eq rfl rfl rfl
  | db t fate => exact .of_eq rfl rfl rfl
  | resume t => exact .of_eq rfl rfl rfl
  | register u => exact .of_eq rfl rfl rfl
  | walletMove u type delta ref => exact .of_eq rfl rfl rfl

theorem onDisconnect_numbers (h : g.Numbers) (s : ℕ) : (g.onDisconnect s).Numbers := by
  have hfilter : (Numbers { g with sockets := g.sockets.filter fun y => y.id ≠ s }) :=
    h.sublist (List.filter_sublist.map _)
  unfold onDisconnect
  split
  · exact h
  simp only
  split
  · exact hfilter
  · exact Admits.numbers (show Admits (fun _ => False) _ _ from onGone_admits ..) hfilter

theorem onConnection_numbers (h : g.Numbers) (s n : ℕ) : (g.onConnection s n).Numbers := by
  unfold onConnection
  split
  · exact h
  rename_i hno
  have hnew : s ∉ g.sockets.map Socket.id := by
    intro hmem
    obtain ⟨x, hx, hid⟩ := List.mem_map.1 hmem
    refine hno ?_
    unfold socket?
    rw [List.find?_isSome]
    exact ⟨x, hx, by simpa using hid⟩
  split
  all_goals exact List.nodup_cons.2 ⟨hnew, h⟩

/-- Every event keeps the rooms' numbers. -/
theorem step_numbers (h : g.Numbers) (e : Event) : (g.step e).Numbers := by
  cases e with
  | connect s n => exact onConnection_numbers h s n
  | disconnect s => exact onDisconnect_numbers h s
  | enqueue k =>
    show (g.enqueue k).Numbers
    unfold enqueue
    split
    · exact h
    · exact h
  | practiceStart s type =>
    show (g.onPracticeStart s type).Numbers
    unfold onPracticeStart
    split
    · exact h
    split
    · exact h
    · exact Admits.numbers (show Admits (fun _ => True) _ _ from openBotRoom_admits _ _ _ trivial) h
  | _ => exact Parts.numbers (step_parts g rfl) h

theorem step_exclusive_iff (h : g.Exclusive) (hn : g.Numbers) (e : Event) : (g.step e).Exclusive ↔ g.Apart e := by
  cases e with
  | connect s n => exact iff_of_true (onConnection_exclusive h s n) trivial
  | disconnect s => exact iff_of_true (onDisconnect_exclusive h hn s) trivial
  | enqueue k => exact enqueue_exclusive h k
  | practiceStart s type => exact onPracticeStart_exclusive h s type
  | _ => exact iff_of_true (h.parts (step_parts g rfl)) trivial

/-- **The ranked queue and the rooms are exclusive** in every state of a run exactly when every
rating that is read finds its user connected and in no room, and no queued user starts a
practice match. The server forms groups in the turn of the enqueue; the state between the two is
one of those meant here. -/
theorem ranked_queue_exclusive_iff (earlier : List (MoneyEvent User MatchId)) (tag target rakeBps : ℕ) (es : List Event) :
    (∀ fs, fs <+: es → (run step (boot earlier tag target rakeBps) fs).Exclusive) ↔
      ∀ fs e gs, es = fs ++ e :: gs → (run step (boot earlier tag target rakeBps) fs).Apart e := by
  have hempty : (boot earlier tag target rakeBps).Exclusive := fun e he => absurd he List.not_mem_nil
  have hnumbers : (boot earlier tag target rakeBps).Numbers := List.nodup_nil
  have hkeep : ∀ (g : Gateway) e, g.Numbers → (g.step e).Numbers := fun _ e h => step_numbers h e
  have hiff := guarded_iff hkeep (fun _ e hn hex => step_exclusive_iff hex hn e) hnumbers hempty es
  exact hiff.symm.trans guarded_iff_forall

end Gateway

end Murlan
