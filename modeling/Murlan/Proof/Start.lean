import Murlan.Proof.Pot
import Murlan.Proof.Step

/-!
# The start of a match

The invariant of a server whose starts do not overlap.

* `Sound`: rooms number their matches, an id that has not been given is unused, each
  room has at most one start under way, and the pot of every live room is held.
* `Starting`: the same in the middle of a handler, with one start in hand.
* `startFailed_sound`, …, `resumeBegin_sound`: one lemma for each handler of a start.
* `step_sound`: every event that meets `Orderly` keeps the invariant.
-/

namespace Murlan

/-- The escrow of the task has committed and is, or will be, reported. -/
def Task.granted {U M : Type} : Task U M → Prop
  | .escrowCommit _ (.answered none) => True
  | .done (.escrow r) => r.ok = true
  | _ => False

theorem Task.grants_granted {U M : Type} {a : Task U M} {i : SeatedEscrow U M} (h : a.grants i) : a.granted := by
  unfold Task.grants at h
  split at h
  · trivial
  · exact h
  · exact h.elim

/-- The start is being undone. -/
def BeginStage.isFailing : BeginStage → Bool
  | .failing _ => true
  | _ => false

namespace Gateway

variable {g g' : Gateway} {b : ℕ} {x y : Begin} {rm rm' : RoomManager} {id : MatchId} {i : ℕ} {r : Room}
  {m : Money User MatchId} {q : MatchId → Prop}

/-! ## Match ids -/

/-- The id is still to be given. -/
def Ungiven (rm : RoomManager) (id : MatchId) : Prop :=
  id.tag = rm.instanceTag ∧ 0 < id.seq ∧
    (rm.seq < id.roomId ∨ ∃ r, rm.rooms id.roomId = some r ∧ r.matchSeq < id.seq)

/-- Rooms are numbered, and so are the matches of a room. -/
structure Ids (rm : RoomManager) : Prop where
  numbered : ∀ i r, rm.rooms i = some r → i ≤ rm.seq
  named : ∀ i r id, rm.rooms i = some r → r.matchId = some id → id = ⟨rm.instanceTag, i, r.matchSeq⟩

/-- Ids stay distinct. -/
theorem Ids.rests (h : Ids rm) (hr : RoomManager.Rests rm rm') : Ids rm' := by
  refine ⟨fun i r' hr' => ?_, fun i r' id hr' hid => ?_⟩
  · rcases hr.room i r' hr' with ⟨r, hr₀, -⟩ | ⟨-, hi, -⟩
    · exact (h.numbered i r hr₀).trans hr.seq
    · exact hi
  · rcases hr.room i r' hr' with ⟨r, hr₀, hrest⟩ | ⟨-, -, -, hnone, -⟩
    · rw [hr.tag, hrest.matchSeq]
      exact h.named i r id hr₀ (hrest.matchId ▸ hid)
    · rw [hnone] at hid
      cases hid

/-- An id not given out later was not given out before. -/
theorem Ungiven.of_rests (hr : RoomManager.Rests rm rm') (h : Ungiven rm' id) : Ungiven rm id := by
  obtain ⟨htag, hpos, h⟩ := h
  refine ⟨htag.trans hr.tag, hpos, ?_⟩
  have hseq := hr.seq
  rcases h with h | ⟨r', hr', hlt⟩
  · exact Or.inl (by omega)
  · rcases hr.room id.roomId r' hr' with ⟨r, hr₀, hrest⟩ | ⟨hlo, -⟩
    · exact Or.inr ⟨r, hr₀, hrest.matchSeq ▸ hlt⟩
    · exact Or.inl hlo

/-- The id of a room's match has been given. -/
theorem Ids.given (h : Ids rm) (hr : rm.rooms i = some r) (hid : r.matchId = some id) : ¬ Ungiven rm id := by
  rintro ⟨-, -, hnew⟩
  have hname := h.named i r id hr hid
  subst hname
  rcases hnew with hlt | ⟨r', hr', hlt⟩
  · have hi := h.numbered i r hr
    exact absurd hlt (by simpa using hi)
  · rw [show rm.rooms i = some r' from hr'] at hr
    cases hr
    exact absurd hlt (lt_irrefl _)

/-! ## Pots and starts -/

/-- The players of a room are its humans, each at the seat. -/
theorem mem_players {p : MatchPlayer User} :
    p ∈ r.players ↔ (r.seatAt p.seat).userId = some p.userId ∧ isBot (some p.userId) = false := by
  unfold Room.players Room.seatAt
  rw [List.mem_filterMap]
  constructor
  · rintro ⟨⟨s, k⟩, hs, hp⟩
    have hget : r.seats[k]? = some s := List.mem_zipIdx_iff_getElem?.1 hs
    have hk : p.seat = k := playerAt_seat hp
    obtain ⟨u, hu, hbot⟩ := Option.bind_eq_some_iff.1 hp
    split at hbot
    · cases hbot
    · rename_i hb
      cases hbot
      refine ⟨?_, by simpa using hb⟩
      rw [List.getD_eq_getElem?_getD, hget]
      exact hu
  · rintro ⟨hu, hb⟩
    rw [List.getD_eq_getElem?_getD] at hu
    cases hget : r.seats[p.seat]? with
    | none =>
      rw [hget] at hu
      cases hu
    | some s =>
      rw [hget] at hu
      have hs : s.userId = some p.userId := hu
      refine ⟨(s, p.seat), List.mem_zipIdx_iff_getElem?.2 hget, ?_⟩
      unfold playerAt
      rw [hs, Option.bind_some, hb]
      rfl

/-- The pot of the room's match is held; a practice room or one of bots has none. -/
def Held (m : Money User MatchId) (r : Room) : Prop :=
  ∃ id, r.matchId = some id ∧
    ((r.practice = true ∨ r.players = []) ∧ Unused m id ∨
      ∃ rec, rec.id = id ∧ rec.stakeCents = r.stakeCents ∧ (∀ p ∈ r.players, p ∈ rec.players) ∧ Secure m rec)

/-- What a start relies on: the room, while it exists, has the start's match id and is
in no match. -/
structure Mine (rm : RoomManager) (x : Begin) : Prop where
  opened : x.roomId ≤ rm.seq
  name : x.matchId.roomId = x.roomId
  room : ∀ r, rm.rooms x.roomId = some r → r.matchId = some x.matchId ∧ r.status ≠ .inMatch

/-- How far the money of a start has come. -/
def StageOK (g : Gateway) (x : Begin) : Prop :=
  match x.stage with
  | .checking _ _ => Unused g.money x.matchId
  | .escrowing t ps => ∃ i : SeatedEscrow User MatchId, i.matchId = x.matchId ∧ i.players = ps ∧
      (∀ r, g.rooms.rooms x.roomId = some r → r.stakeCents = i.stakeCents) ∧ Escrowing g.money t i
  | _ => True

/-- **The invariant** of a server whose starts do not overlap. -/
structure Sound (g : Gateway) : Prop where
  ids : Ids g.rooms
  money : MoneyOK g.money
  swept : SweptOK g.money
  fresh : ∀ id, Ungiven g.rooms id → Unused g.money id
  bound : ∀ b x, g.begins b = some x → b < g.nextBegin
  mine : ∀ b x, g.begins b = some x → x.stage.isFailing = false → Mine g.rooms x
  stage : ∀ b x, g.begins b = some x → x.stage.isFailing = false → StageOK g x
  alone : ∀ b b' x x', g.begins b = some x → g.begins b' = some x' → x.stage.isFailing = false →
    x'.stage.isFailing = false → x.roomId = x'.roomId → b = b'
  live : ∀ i r, g.Live i r → Held g.money r

theorem Mine.rests (h : Mine rm x) (hr : RoomManager.Rests rm rm') : Mine rm' x := by
  refine ⟨h.opened.trans hr.seq, h.name, fun r' hr' => ?_⟩
  rcases hr.room _ r' hr' with ⟨r, hr₀, hrest⟩ | ⟨hlo, -⟩
  · obtain ⟨hid, hst⟩ := h.room r hr₀
    exact ⟨hrest.matchId.trans hid, fun hl => hst (hrest.live hl)⟩
  · have hop := h.opened
    omega

/-- The id of a start has been given. -/
theorem Mine.given (h : Mine rm x) (hids : Ids rm) : ¬ Ungiven rm x.matchId := by
  rintro ⟨htag, hpos, hlt | ⟨r, hr, hlt⟩⟩
  · have hop := h.opened
    rw [h.name] at hlt
    omega
  · have hr' : rm.rooms x.roomId = some r := by rw [← h.name]; exact hr
    exact hids.given hr' (h.room r hr').1 ⟨htag, hpos, Or.inr ⟨r, hr, hlt⟩⟩

/-- The id of a live room is not that of a start. -/
theorem Mine.ne_live (h : Mine g.rooms x) (hids : Ids g.rooms) (hl : g.Live i r) (hid : r.matchId = some id) :
    id ≠ x.matchId := by
  rintro rfl
  have hi : i = x.roomId := by
    rw [← h.name, hids.named i r _ hl.1 hid]
  subst hi
  exact (h.room r hl.1).2 hl.2

/-- A match that is held stays so. -/
theorem Held.rests {r r' : Room} (h : Held m r) (hr : Room.Rests r r') (hl : r'.status = .inMatch) : Held m r' := by
  have hplayers : ∀ p ∈ r'.players, p ∈ r.players := by
    intro p hp
    rw [mem_players] at hp ⊢
    exact ⟨hr.players hl _ _ hp.1, hp.2⟩
  obtain ⟨id, hid, hpot⟩ := h
  refine ⟨id, hr.matchId.trans hid, ?_⟩
  rcases hpot with ⟨hno, hun⟩ | ⟨rec, hrec, hst, hps, hsec⟩
  · refine Or.inl ⟨?_, hun⟩
    rcases hno with hno | hno
    · exact Or.inl ((hr.practice hl).trans hno)
    · refine Or.inr (List.eq_nil_iff_forall_not_mem.2 fun p hp => ?_)
      have hmem := hplayers p hp
      rw [hno] at hmem
      cases hmem
  · exact Or.inr ⟨rec, hrec, hst.trans hr.stakeCents.symm, fun p hp => hps p (hplayers p hp), hsec⟩

theorem Held.spares {m' : Money User MatchId} (h : Held m r) (hm : Spares m m' q)
    (hq : ∀ id, r.matchId = some id → ¬ q id) : Held m' r := by
  obtain ⟨id, hid, hpot⟩ := h
  refine ⟨id, hid, ?_⟩
  rcases hpot with ⟨hno, hun⟩ | ⟨rec, rfl, hst, hps, hsec⟩
  · exact Or.inl ⟨hno, hm.unused id (hq id hid) hun⟩
  · exact Or.inr ⟨rec, rfl, hst, hps, hm.secure rec (hq _ hid) hsec⟩

/-- A start's stage stays sound beside other events. -/
theorem StageOK.step (h : StageOK g x) (hmine : Mine g.rooms x) (hr : RoomManager.Rests g.rooms g'.rooms)
    (hm : Spares g.money g'.money q) (hq : ¬ q x.matchId) : StageOK g' x := by
  unfold StageOK at h ⊢
  cases hst : x.stage with
  | checking seat blocked =>
    rw [hst] at h
    exact hm.unused _ hq h
  | escrowing t ps =>
    rw [hst] at h
    obtain ⟨i, hid, hps, hstake, hesc⟩ := h
    refine ⟨i, hid, hps, fun r' hr' => ?_, hm.escrowing t i (hid ▸ hq) hesc⟩
    rcases hr.room _ r' hr' with ⟨r, hr₀, hrest⟩ | ⟨hlo, -⟩
    · exact hrest.stakeCents.trans (hstake r hr₀)
    · have hop := hmine.opened
      omega
  | _ => trivial

/-- The starts have come as far as before, if none of their matches is in `q`. -/
theorem Sound.stages (h : Sound g) (hr : RoomManager.Rests g.rooms g'.rooms) (hm : Spares g.money g'.money q)
    (hstart : ∀ b x, g.begins b = some x → x.stage.isFailing = false → ¬ q x.matchId) :
    ∀ b x, g.begins b = some x → x.stage.isFailing = false → StageOK g' x :=
  fun b x hx hf => (h.stage b x hx hf).step (h.mine b x hx hf) hr hm (hstart b x hx hf)

/-- **What leaves the starts alone**: the rooms rest, and of the matches only those in
`q` may be harmed, which are neither live afterwards nor to come. -/
theorem Sound.step (h : Sound g) (hr : RoomManager.Rests g.rooms g'.rooms) (hb : g'.begins = g.begins)
    (hn : g'.nextBegin = g.nextBegin) (hm : Spares g.money g'.money q)
    (hlive : ∀ i r id, g.Live i r → r.matchId = some id → q id → g'.Idle i)
    (hstage : ∀ b x, g.begins b = some x → x.stage.isFailing = false → StageOK g' x)
    (hfresh : ∀ id, Ungiven g.rooms id → ¬ q id) : Sound g' where
  ids := h.ids.rests hr
  money := hm.ok
  swept := hm.swept
  fresh := by
    intro id hid
    have hold := Ungiven.of_rests hr hid
    exact hm.unused id (hfresh id hold) (h.fresh id hold)
  bound := by
    intro b x hx
    rw [hb] at hx
    rw [hn]
    exact h.bound b x hx
  mine := by
    intro b x hx hf
    rw [hb] at hx
    exact (h.mine b x hx hf).rests hr
  stage := by
    intro b x hx hf
    rw [hb] at hx
    exact hstage b x hx hf
  alone := by
    intro b b' x x' hx hx'
    rw [hb] at hx hx'
    exact h.alone b b' x x' hx hx'
  live := by
    rintro i r' ⟨hr', hst⟩
    rcases hr.room i r' hr' with ⟨r, hr₀, hrest⟩ | ⟨-, -, hidle, -⟩
    · have hl : g.Live i r := ⟨hr₀, hrest.live hst⟩
      refine ((h.live i r hl).rests hrest hst).spares hm fun id hid hq => ?_
      exact hlive i r id hl (hrest.matchId ▸ hid) hq r' hr' hst
    · exact absurd hst hidle

/-- Nothing is harmed. -/
theorem Sound.unharmed (h : Sound g) (hr : RoomManager.Rests g.rooms g'.rooms) (hb : g'.begins = g.begins)
    (hn : g'.nextBegin = g.nextBegin) (hm : Spares g.money g'.money fun _ => False) : Sound g' :=
  h.step hr hb hn hm (fun _ _ _ _ _ h => h.elim) (h.stages hr hm fun _ _ _ _ h => h) fun _ _ h => h

theorem Sound.quiet (h : Sound g) (hq : Quiet RoomCall.rests g g') : Sound g' :=
  h.unharmed hq.rooms.atRest hq.begins hq.nextBegin (hq.money ▸ .refl h.money h.swept fun _ => False)

/-- The end of a live match harms only that match. -/
theorem Sound.finishes (h : Sound g) (hf : Finishes g g') : Sound g' := by
  rcases hf with hq | ⟨i, r, id, hl, hid, hidle, hrest, hb, hn, -, hm⟩
  · exact h.quiet hq
  · have hsp : Spares g.money g'.money (· = id) := by
      rcases hm with hm | ⟨e, hm⟩
      · rw [hm]; exact refund_spares h.money h.swept id
      · rw [hm]; exact settle_spares h.money h.swept (e.settleInput id)
    refine h.step hrest.atRest hb hn hsp ?_ (h.stages hrest.atRest hsp ?_) ?_
    · rintro j r' id' hl' hid' rfl
      have hij : j = i := by
        have h1 := h.ids.named i r _ hl.1 hid
        have h2 := h.ids.named j r' _ hl'.1 hid'
        rw [h1] at h2
        exact (congrArg MatchId.roomId h2).symm
      exact hij ▸ hidle
    · rintro b x hx hfail heq
      exact (h.mine b x hx hfail).ne_live h.ids hl hid heq.symm
    · rintro id' hun rfl
      exact h.ids.given hl.1 hid hun

/-! ## One start in hand -/

/-- A start in hand: everything else is in order, and no other start is under way in
its room. -/
structure Starting (g : Gateway) (b : ℕ) (x : Begin) : Prop where
  sound : Sound (g.endBegin b)
  lt : b < g.nextBegin
  mine : Mine g.rooms x
  alone : ∀ b' x', b' ≠ b → g.begins b' = some x' → x'.stage.isFailing = false → x'.roomId ≠ x.roomId

theorem endBegin_begins {b' : ℕ} (h : (g.endBegin b).begins b' = some y) : b' ≠ b ∧ g.begins b' = some y := by
  by_cases hb : b' = b
  · subst hb
    have hnone : (g.endBegin b').begins b' = none := Function.update_self ..
    rw [hnone] at h
    cases h
  · have hsame : (g.endBegin b).begins b' = g.begins b' := Function.update_of_ne hb ..
    exact ⟨hb, hsame ▸ h⟩

theorem endBegin_of_ne {b' : ℕ} (hb : b' ≠ b) : (g.endBegin b).begins b' = g.begins b' :=
  Function.update_of_ne hb ..

/-- A start that is over leaves the gateway sound. -/
theorem Sound.endBegin (h : Sound g) (b : ℕ) : Sound (g.endBegin b) where
  ids := h.ids
  money := h.money
  swept := h.swept
  fresh := h.fresh
  bound := fun b' x hx => h.bound b' x (endBegin_begins hx).2
  mine := fun b' x hx => h.mine b' x (endBegin_begins hx).2
  stage := fun b' x hx => h.stage b' x (endBegin_begins hx).2
  alone := fun b₁ b₂ x₁ x₂ h1 h2 => h.alone b₁ b₂ x₁ x₂ (endBegin_begins h1).2 (endBegin_begins h2).2
  live := h.live

/-- A start that goes on is taken in hand. -/
theorem Sound.starting (h : Sound g) (hx : g.begins b = some x) (hf : x.stage.isFailing = false) :
    Starting g b x := by
  refine ⟨h.endBegin b, h.bound b x hx, h.mine b x hx hf, fun b' x' hne hx' hf' heq => ?_⟩
  exact hne (h.alone b' b x' x hx' hx hf' hf heq)

namespace Starting

/-- It returns. -/
theorem ends (h : Starting g b x) (hr : RoomManager.Rests g.rooms rm) : Sound ((g.withRooms rm).endBegin b) :=
  h.sound.unharmed hr rfl rfl (.refl h.sound.money h.sound.swept fun _ => False)

/-- The rooms rest meanwhile. -/
theorem withRooms (h : Starting g b x) (hr : RoomManager.Rests g.rooms rm) : Starting (g.withRooms rm) b x :=
  ⟨h.ends hr, h.lt, h.mine.rests hr, h.alone⟩

/-- A call for the match of the start harms no other match. -/
theorem withMoney (h : Starting g b x) (hm : Spares g.money m (· = x.matchId)) : Starting (g.withMoney m) b x := by
  have hids : Ids g.rooms := h.sound.ids
  refine ⟨?_, h.lt, h.mine, h.alone⟩
  refine h.sound.step (.refl _) rfl rfl hm ?_ (h.sound.stages (.refl _) hm ?_) ?_
  · intro i r id hl hid heq
    exact absurd heq (h.mine.ne_live hids hl hid)
  · intro b' x' hx hf heq
    obtain ⟨hne, hx'⟩ := endBegin_begins hx
    have hm' := h.sound.mine b' x' hx hf
    refine h.alone b' x' hne hx' hf ?_
    rw [← hm'.name, heq, h.mine.name]
  · rintro id hun rfl
    exact h.mine.given hids hun

/-- It awaits again. -/
theorem parks (h : Starting g b x) (hid : y.matchId = x.matchId) (hroom : y.roomId = x.roomId)
    (hstage : StageOK g y) : Sound (g.setBegin b y) := by
  have hcases : ∀ b' x', (g.setBegin b y).begins b' = some x' →
      (b' = b ∧ x' = y) ∨ (b' ≠ b ∧ (g.endBegin b).begins b' = some x' ∧ g.begins b' = some x') := by
    intro b' x' hx'
    by_cases hb : b' = b
    · subst hb
      have hself : (g.setBegin b' y).begins b' = some y := Function.update_self ..
      rw [hself] at hx'
      exact Or.inl ⟨rfl, (Option.some.inj hx').symm⟩
    · have hsame : (g.setBegin b y).begins b' = g.begins b' := Function.update_of_ne hb ..
      rw [hsame] at hx'
      exact Or.inr ⟨hb, (endBegin_of_ne hb).trans hx', hx'⟩
  have hmine : Mine g.rooms y := ⟨hroom ▸ h.mine.opened, hid ▸ hroom ▸ h.mine.name, hid ▸ hroom ▸ h.mine.room⟩
  refine ⟨h.sound.ids, h.sound.money, h.sound.swept, h.sound.fresh, ?_, ?_, ?_, ?_, h.sound.live⟩
  · intro b' x' hx'
    rcases hcases b' x' hx' with ⟨rfl, -⟩ | ⟨-, hx', -⟩
    · exact h.lt
    · exact h.sound.bound b' x' hx'
  · intro b' x' hx' hf
    rcases hcases b' x' hx' with ⟨-, rfl⟩ | ⟨-, hx', -⟩
    · exact hmine
    · exact h.sound.mine b' x' hx' hf
  · intro b' x' hx' hf
    rcases hcases b' x' hx' with ⟨-, rfl⟩ | ⟨-, hx', -⟩
    · exact hstage
    · exact h.sound.stage b' x' hx' hf
  · intro b₁ b₂ x₁ x₂ h1 h2 hf1 hf2 heq
    rcases hcases b₁ x₁ h1 with ⟨rfl, rfl⟩ | ⟨hne1, k1, j1⟩ <;>
      rcases hcases b₂ x₂ h2 with ⟨rfl, rfl⟩ | ⟨hne2, k2, j2⟩
    · rfl
    · exact absurd (heq.symm.trans hroom) (h.alone b₂ x₂ hne2 j2 hf2)
    · exact absurd (heq.trans hroom) (h.alone b₁ x₁ hne1 j1 hf1)
    · exact h.sound.alone b₁ b₂ x₁ x₂ k1 k2 hf1 hf2 heq

end Starting

/-! ## The handlers of a start -/

theorem startFailed_sound (h : Starting g b x) : Sound (g.startFailed b x) := by
  unfold startFailed
  cases hid : g.rooms.matchIdOf x.roomId with
  | none =>
    show Sound ((g.unreadyUnlessLive x.roomId).endBegin b)
    rw [unreadyUnlessLive_rooms]
    exact h.ends (unreadyUnlessLive_quiet g x.roomId).departs.calm.rests.rooms.atRest
  | some id =>
    -- the room has the match id of the start, so that is what is refunded
    obtain ⟨r, hr, hrid⟩ := Option.bind_eq_some_iff.1 hid
    have heq : id = x.matchId := by
      have hroom := (h.mine.room r hr).1
      rw [hrid] at hroom
      exact Option.some.inj hroom
    have hsp := refund_spares h.sound.money h.sound.swept x.matchId
    rw [heq]
    exact (h.withMoney hsp).parks rfl rfl trivial

theorem undo_sound (h : Starting g b x) : Sound (g.undo b x) :=
  (h.withMoney (refund_spares h.sound.money h.sound.swept x.matchId)).parks rfl rfl trivial

/-- The match starts in the room. -/
theorem starts_sound (h : Starting g b x) {r r' : Room} (hr : g.rooms.rooms x.roomId = some r)
    (hid : r'.matchId = r.matchId) (hms : r'.matchSeq = r.matchSeq) (hheld : Held g.money r') :
    Sound ((g.withRooms (g.rooms.put x.roomId r')).endBegin b) := by
  have hids : Ids g.rooms := h.sound.ids
  have hcases : ∀ {j y}, (g.rooms.put x.roomId r').rooms j = some y →
      (j = x.roomId ∧ y = r') ∨ (j ≠ x.roomId ∧ g.rooms.rooms j = some y) := RoomManager.put_cases
  refine ⟨⟨?_, ?_⟩, h.sound.money, h.sound.swept, ?_, h.sound.bound, ?_, ?_, h.sound.alone, ?_⟩
  · intro j y hy
    rcases hcases hy with ⟨rfl, -⟩ | ⟨-, hy⟩
    · exact hids.numbered _ r hr
    · exact hids.numbered j y hy
  · intro j y id hy hyid
    rcases hcases hy with ⟨rfl, rfl⟩ | ⟨-, hy⟩
    · rw [hms]
      exact hids.named _ r id hr (hid ▸ hyid)
    · exact hids.named j y id hy hyid
  · rintro id ⟨htag, hpos, hnew⟩
    refine h.sound.fresh id ⟨htag, hpos, ?_⟩
    rcases hnew with hlt | ⟨y, hy, hlt⟩
    · exact Or.inl hlt
    · rcases hcases hy with ⟨hj, rfl⟩ | ⟨-, hy⟩
      · exact Or.inr ⟨r, hj ▸ hr, hms ▸ hlt⟩
      · exact Or.inr ⟨y, hy, hlt⟩
  · intro b' x' hx' hf
    obtain ⟨hne, hx⟩ := endBegin_begins hx'
    have hm := h.sound.mine b' x' hx' hf
    refine ⟨hm.opened, hm.name, fun y hy => ?_⟩
    rcases hcases hy with ⟨hj, -⟩ | ⟨-, hy⟩
    · exact absurd hj (h.alone b' x' hne hx hf)
    · exact hm.room y hy
  · intro b' x' hx' hf
    obtain ⟨hne, hx⟩ := endBegin_begins hx'
    have hst := h.sound.stage b' x' hx' hf
    unfold StageOK at hst ⊢
    cases hstage : x'.stage with
    | escrowing t ps =>
      rw [hstage] at hst
      obtain ⟨i, hi, hps, hstake, hesc⟩ := hst
      refine ⟨i, hi, hps, fun y hy => ?_, hesc⟩
      rcases hcases hy with ⟨hj, -⟩ | ⟨-, hy⟩
      · exact absurd hj (h.alone b' x' hne hx hf)
      · exact hstake y hy
    | checking seat blocked => rw [hstage] at hst; exact hst
    | _ => trivial
  · rintro j y ⟨hy, hst⟩
    rcases hcases hy with ⟨rfl, rfl⟩ | ⟨-, hy⟩
    · exact hheld
    · exact h.sound.live j y ⟨hy, hst⟩

/-- A launch keeps the gateway sound. -/
theorem launch_sound (h : Starting g b x) (escrowed : Bool) (deal : ℕ → List (List Card))
    (hheld : ∀ r, g.rooms.rooms x.roomId = some r → Held g.money r) : Sound (g.launch b x escrowed deal) := by
  unfold launch
  rcases g.rooms.startMatch_cases x.roomId deal with ⟨e, he⟩ | ⟨e, he⟩ | ⟨r, mt, hr, -, -, -, he⟩
  · rw [he]
    exact startFailed_sound h
  · rw [he]
    simp only
    split
    · exact undo_sound h
    · exact h.ends (g.rooms.setReadyAll_rests x.roomId false)
  · rw [he]
    exact starts_sound h hr rfl rfl (hheld r hr)

/-- So does an escrow that begins. -/
theorem escrowStakes_sound (h : Starting g b x) (hu : Unused g.money x.matchId) (deal : ℕ → List (List Card)) :
    Sound (g.escrowStakes b x deal) := by
  unfold escrowStakes
  cases hr : g.rooms.rooms x.roomId with
  | none =>
    refine launch_sound h false deal fun r hr' => ?_
    rw [hr] at hr'
    cases hr'
  | some r =>
    simp only
    split
    · rename_i hno
      refine launch_sound h false deal fun r' hr' => ?_
      rw [hr] at hr'
      cases hr'
      refine ⟨x.matchId, (h.mine.room r hr).1, Or.inl ⟨?_, hu⟩⟩
      simpa using hno
    · have hsp := escrow_spares h.sound.money h.sound.swept (r.escrowInput x.matchId g.rakeBps)
      refine (h.withMoney hsp).parks rfl rfl ⟨r.escrowInput x.matchId g.rakeBps, rfl, rfl, fun r' hr' => ?_, ?_⟩
      · have hr₁ : g.rooms.rooms x.roomId = some r' := hr'
        rw [hr] at hr₁
        cases hr₁
        rfl
      · exact escrow_escrowing hu

theorem checkFrom_sound (h : Starting g b x) (hu : Unused g.money x.matchId) (seat : ℕ) (blocked : Bool)
    (deal : ℕ → List (List Card)) : Sound (g.checkFrom b x seat blocked deal) := by
  unfold checkFrom
  split
  · exact h.parks rfl rfl hu
  · split
    · exact h.sound
    · exact escrowStakes_sound h hu deal

/-- So does a gate that answers. -/
theorem checked_sound (h : Sound g) (b : ℕ) (v : Verdict) (deal : ℕ → List (List Card)) :
    Sound (g.checked b v deal) := by
  unfold checked
  cases hx : g.begins b with
  | none => exact h
  | some x =>
    simp only
    cases hst : x.stage with
    | checking seat blocked =>
      have hf : x.stage.isFailing = false := by rw [hst]; rfl
      have hs := h.starting hx hf
      have hu : Unused g.money x.matchId := by
        have hstage := h.stage b x hx hf
        unfold StageOK at hstage
        rw [hst] at hstage
        exact hstage
      cases v with
      | allowed => exact checkFrom_sound hs hu ..
      | threw => exact startFailed_sound hs
      | refused =>
        simp only
        split
        · exact checkFrom_sound (hs.withRooms (g.rooms.setReady_rests _ false)) hu ..
        · exact checkFrom_sound (hs.withRooms (.refl g.rooms)) hu ..
    | _ => exact h

/-- The roster at the table is covered by the roster that was escrowed. -/
theorem rosterIntact_covers {ps live : List (MatchPlayer User)} (h : rosterIntact ps live = true)
    (hps : ps.Nodup) : ∀ p ∈ live, p ∈ ps := by
  unfold rosterIntact at h
  simp only [Bool.and_eq_true, decide_eq_true_eq, List.all_eq_true] at h
  obtain ⟨hlen, hsub⟩ := h
  have hperm : ps.Perm live := (List.subperm_of_subset hps hsub).perm_of_length_le (by omega)
  exact fun p hp => hperm.mem_iff.2 hp

/-- The escrow has resolved. -/
theorem escrowed_sound (h : Starting g b x) {t : ℕ} {ps : List (MatchPlayer User)} {res : EscrowResult User}
    (hst : StageOK g { x with stage := .escrowing t ps }) (ht : g.money.tasks t = some (.done (.escrow res)))
    (deal : ℕ → List (List Card)) : Sound (g.escrowed b x ps res deal) := by
  obtain ⟨i, hid, hps, hstake, hesc⟩ := hst
  unfold escrowed
  split
  · exact h.ends (RoomManager.Rests.foldl (fun rm u => rm.setReady_rests u false) _ _)
  · rename_i hok
    have hsec : Secure g.money i.record := by
      cases hesc with
      | coming a ha hc => rw [ht] at ha; cases ha; exact hc.elim
      | held a ha hc hsec => exact hsec
      | refused a ha hc =>
        rw [ht] at ha
        cases ha
        have hno : res.ok = false := hc
        simp [hno] at hok
    simp only
    split
    · rename_i hboth
      rw [Bool.and_eq_true] at hboth
      obtain ⟨hroster, -⟩ := hboth
      refine launch_sound h true deal fun r hr => ?_
      refine ⟨x.matchId, (h.mine.room r hr).1, Or.inr ⟨i.record, hid, (hstake r hr).symm, ?_, hsec⟩⟩
      rw [hr] at hroster
      have hnd : ps.Nodup := by
        rw [← hps]
        exact List.Nodup.of_map _ i.seats_nodup
      intro p hp
      have hmem := rosterIntact_covers hroster hnd p hp
      show p ∈ i.players
      rw [hps]
      exact hmem
    · exact undo_sound h

/-- So does a start that goes on. -/
theorem resumeBegin_sound (h : Sound g) (b : ℕ) (deal : ℕ → List (List Card)) : Sound (g.resumeBegin b deal) := by
  unfold resumeBegin
  cases hx : g.begins b with
  | none => exact h
  | some x =>
    simp only
    cases hst : x.stage with
    | checking seat blocked => exact h
    | escrowing t ps =>
      have hf : x.stage.isFailing = false := by rw [hst]; rfl
      have hs := h.starting hx hf
      have hstage : StageOK g { x with stage := .escrowing t ps } := by
        have hstage := h.stage b x hx hf
        rw [← hst]
        exact hstage
      simp only
      split
      · rename_i res ht
        exact escrowed_sound hs hstage ht deal
      · exact startFailed_sound hs
      · exact h
    | undoing t =>
      have hs := h.starting hx (by rw [hst]; rfl)
      simp only
      split
      · exact hs.ends (g.rooms.setReadyAll_rests x.roomId false)
      · exact startFailed_sound hs
      · exact h
    | failing t =>
      simp only
      split
      · exact (h.quiet (unreadyUnlessLive_quiet g x.roomId).departs.calm.rests).endBegin b
      · exact h

/-! ## The countdown -/

/-- A countdown that ends with everyone ready finds no start of the room under way, but
for one that has failed and is refunding, and the room in no match. -/
def StartsAlone (g : Gateway) : Event → Prop
  | .countdown i _ => g.countdowns i = true → g.rooms.allReady i = true →
      (∀ b x, g.begins b = some x → x.roomId = i → x.stage.isFailing = true) ∧ g.Idle i
  | _ => True

/-- The room after `assignMatchId`. -/
def renamed (rm : RoomManager) (i : ℕ) (r : Room) : Room :=
  { r with matchSeq := r.matchSeq + 1, matchId := some ⟨rm.instanceTag, i, r.matchSeq + 1⟩ }

/-- A room with a new id is starting. -/
theorem assign_starting {s : Gateway} (h : Sound g) (hr : g.rooms.rooms i = some r) (hst : r.status ≠ .inMatch)
    (halone : ∀ b x, g.begins b = some x → x.roomId = i → x.stage.isFailing = true)
    (hrooms : s.rooms = g.rooms.put i (renamed g.rooms i r)) (hm : s.money = g.money)
    (hb : s.begins = g.begins) (hn : s.nextBegin = g.nextBegin + 1) :
    let id : MatchId := ⟨g.rooms.instanceTag, i, r.matchSeq + 1⟩
    Starting s g.nextBegin { roomId := i, matchId := id, stage := .checking 0 false } ∧
      Unused s.money id := by
  intro id
  -- only this room has changed
  have hcases : ∀ {j y}, s.rooms.rooms j = some y →
      (j = i ∧ y = renamed g.rooms i r) ∨ (j ≠ i ∧ g.rooms.rooms j = some y) := by
    intro j y hy
    rw [hrooms] at hy
    exact RoomManager.put_cases hy
  have htag : s.rooms.instanceTag = g.rooms.instanceTag := by rw [hrooms]; rfl
  have hseq : s.rooms.seq = g.rooms.seq := by rw [hrooms]; rfl
  have hold : ∀ b x, (s.endBegin g.nextBegin).begins b = some x → g.begins b = some x := by
    intro b x hx
    have hx' := (endBegin_begins hx).2
    rw [hb] at hx'
    exact hx'
  -- its number is one more than any given out
  have hnew : Ungiven g.rooms id := ⟨rfl, Nat.succ_pos _, Or.inr ⟨r, hr, Nat.lt_succ_self _⟩⟩
  -- one goal for each field of `Sound`, then those of `Starting`
  refine ⟨⟨⟨⟨?_, ?_⟩, ?_, ?_, ?_, ?_, ?_, ?_, ?_, ?_⟩, ?_, ⟨?_, rfl, ?_⟩, ?_⟩, ?_⟩
  · intro j y hy
    rw [show (s.endBegin g.nextBegin).rooms.seq = g.rooms.seq from hseq]
    rcases hcases hy with ⟨rfl, -⟩ | ⟨-, hy⟩
    · exact h.ids.numbered _ r hr
    · exact h.ids.numbered j y hy
  · intro j y id' hy hid
    rw [show (s.endBegin g.nextBegin).rooms.instanceTag = g.rooms.instanceTag from htag]
    rcases hcases hy with ⟨rfl, rfl⟩ | ⟨-, hy⟩
    · exact (Option.some.inj hid).symm
    · exact h.ids.named j y id' hy hid
  · show MoneyOK s.money
    rw [hm]
    exact h.money
  · show SweptOK s.money
    rw [hm]
    exact h.swept
  · rintro id' ⟨htas, hpos, hun⟩
    show Unused s.money id'
    rw [hm]
    refine h.fresh id' ⟨htas.trans htag, hpos, ?_⟩
    rcases hun with hlt | ⟨y, hy, hlt⟩
    · exact Or.inl (hseq ▸ hlt)
    · rcases hcases hy with ⟨hj, rfl⟩ | ⟨-, hy⟩
      · refine Or.inr ⟨r, hj ▸ hr, ?_⟩
        have hlt' : r.matchSeq + 1 < id'.seq := hlt
        omega
      · exact Or.inr ⟨y, hy, hlt⟩
  · intro b x hx
    have hlt := h.bound b x (hold b x hx)
    show b < s.nextBegin
    omega
  · intro b x hx hf
    have hx' := hold b x hx
    have hmine := h.mine b x hx' hf
    refine ⟨hseq.symm ▸ hmine.opened, hmine.name, fun y hy => ?_⟩
    rcases hcases hy with ⟨hj, -⟩ | ⟨-, hy⟩
    · rw [halone b x hx' hj] at hf
      cases hf
    · exact hmine.room y hy
  · intro b x hx hf
    have hx' := hold b x hx
    have hstage := h.stage b x hx' hf
    unfold StageOK at hstage ⊢
    cases hs : x.stage with
    | checking seat blocked =>
      rw [hs] at hstage
      show Unused s.money x.matchId
      rw [hm]
      exact hstage
    | escrowing t ps =>
      rw [hs] at hstage
      obtain ⟨inp, hi, hps, hstake, hesc⟩ := hstage
      refine ⟨inp, hi, hps, fun y hy => ?_, ?_⟩
      · rcases hcases hy with ⟨hj, -⟩ | ⟨-, hy⟩
        · rw [halone b x hx' hj] at hf
          cases hf
        · exact hstake y hy
      · show Escrowing s.money t inp
        rw [hm]
        exact hesc
    | _ => trivial
  · intro b₁ b₂ x₁ x₂ h1 h2
    exact h.alone b₁ b₂ x₁ x₂ (hold b₁ x₁ h1) (hold b₂ x₂ h2)
  · rintro j y ⟨hy, hl⟩
    show Held s.money y
    rw [hm]
    rcases hcases hy with ⟨-, rfl⟩ | ⟨-, hy⟩
    · exact absurd hl hst
    · exact h.live j y ⟨hy, hl⟩
  · omega
  · exact hseq.symm ▸ h.ids.numbered i r hr
  · intro y hy
    rcases hcases hy with ⟨-, rfl⟩ | ⟨hj, -⟩
    · exact ⟨rfl, hst⟩
    · exact absurd rfl hj
  · intro b x hne hx hf hroom
    rw [hb] at hx
    rw [halone b x hx hroom] at hf
    cases hf
  · rw [hm]
    exact h.fresh id hnew

/-- So does the end of a countdown in an idle room. -/
theorem onCountdown_sound (h : Sound g) (i : ℕ) (deal : ℕ → List (List Card))
    (halone : g.countdowns i = true → g.rooms.allReady i = true →
      (∀ b x, g.begins b = some x → x.roomId = i → x.stage.isFailing = true) ∧ g.Idle i) :
    Sound (g.onCountdown i deal) := by
  unfold onCountdown
  split
  · rename_i harmed
    have hq := h.quiet (clearCountdown_quiet g i)
    cases hr : g.rooms.rooms i with
    | none =>
      have hsame : (g.clearCountdown i).beginMatch i deal = g.clearCountdown i := by
        unfold beginMatch
        rw [show (g.clearCountdown i).rooms.rooms i = none from hr]
      rw [hsame]
      exact hq
    | some r =>
      have hr' : (g.clearCountdown i).rooms.rooms i = some r := hr
      unfold beginMatch
      rw [hr', assignMatchId_eq hr']
      simp only
      split
      · exact hq
      · rename_i hready
        have hall : g.rooms.allReady i = true := by
          unfold RoomManager.allReady
          rw [hr]
          simpa using hready
        obtain ⟨hbegins, hidle⟩ := halone harmed hall
        -- the id is new, and nobody else is starting a match here
        split
        · obtain ⟨hs, hu⟩ := assign_starting (s := { g.clearCountdown i with
            rooms := _, nextBegin := _, finalized := _ }) hq hr' (hidle r hr) hbegins rfl rfl rfl rfl
          exact checkFrom_sound hs hu ..
        · obtain ⟨hs, hu⟩ := assign_starting (s := { g.clearCountdown i with
            rooms := _, nextBegin := _, finalized := _ }) hq hr' (hidle r hr) hbegins rfl rfl rfl rfl
          exact escrowStakes_sound hs hu deal
  · exact h

/-! ## The sweep -/

/-- A sweep starts when no start has its escrow committed, and no escrow commits while
a sweep reads the active matches. -/
def SweepsApart (g : Gateway) : Event → Prop
  | .sweep => ∀ b x t ps a, g.begins b = some x → x.stage = .escrowing t ps → g.money.tasks t = some a →
      ¬ a.granted
  | .db t fate => fate = .answered → ∀ id, Commits g.money t id → ∀ t' a, g.money.tasks t' = some a → ¬ a.lists
  | _ => True

theorem mem_activeMatchIds (h : Ids rm) (hr : rm.rooms i = some r) (hst : r.status = .inMatch)
    (hid : r.matchId = some id) : id ∈ rm.activeMatchIds := by
  have hi := h.numbered i r hr
  unfold RoomManager.activeMatchIds
  refine List.mem_filterMap.2 ⟨i, List.mem_range.2 (by omega), ?_⟩
  rw [hr, Option.bind_some, if_pos hst]
  exact hid

/-- So does a sweep apart from the starts. -/
theorem sweep_sound (h : Sound g) (hguard : g.SweepsApart .sweep) : Sound (g.step .sweep) := by
  have hsp := recover_spawns g.money g.rooms.activeMatchIds
  have hok := h.money.step_ok (.recoverOrphanedMatches g.rooms.activeMatchIds)
  -- only a held pot that is not on the list of live matches would be in danger
  have hm : Spares g.money (g.step .sweep).money
      fun id => id ∉ g.rooms.activeMatchIds ∧ ∃ rec, rec.id = id ∧ Secure g.money rec := by
    refine ⟨hok, h.swept.spawns hsp fun _ hs => hs, fun rec hq hsec => ?_, fun t inp hq hesc => ?_,
      fun id _ hu => hu.spawns hsp (by simp [Task.holds])⟩
    · exact hsec.spawns hsp fun hth => hq ⟨hth, rec, rfl, hsec⟩
    · cases hesc with
      | coming a ht ha hrow => exact .coming a (hsp.tasks_old h.money ht) ha hrow
      | refused a ht ha => exact .refused a (hsp.tasks_old h.money ht) ha
      | held a ht ha hsec =>
        exact .held a (hsp.tasks_old h.money ht) ha (hsec.spawns hsp fun hth => hq ⟨hth, inp.record, rfl, hsec⟩)
  refine h.step (.refl _) rfl rfl hm ?_ (fun b x hx hf => ?_) ?_
  · rintro j r id hl hid ⟨hnot, -⟩
    exact absurd (mem_activeMatchIds h.ids hl.1 hl.2 hid) hnot
  · have hstage := h.stage b x hx hf
    unfold StageOK at hstage ⊢
    cases hst : x.stage with
    | checking seat blocked =>
      rw [hst] at hstage
      exact hstage.spawns hsp (by simp [Task.holds])
    | escrowing t ps =>
      rw [hst] at hstage
      obtain ⟨inp, hi, hps, hstake, hesc⟩ := hstage
      refine ⟨inp, hi, hps, hstake, ?_⟩
      cases hesc with
      | coming a ht ha hrow => exact .coming a (hsp.tasks_old h.money ht) ha hrow
      | refused a ht ha => exact .refused a (hsp.tasks_old h.money ht) ha
      | held a ht ha hsec => exact absurd (Task.grants_granted ha) (hguard b x t ps a hx hst ht)
    | _ => trivial
  · rintro id hun ⟨-, rec, rfl, hsec⟩
    have hnone := (h.fresh rec.id hun).absent
    rw [hsec.row] at hnone
    cases hnone

/-! ## One event -/

/-- What a run must meet for its starts and sweeps to stay apart. -/
def Orderly (g : Gateway) (e : Event) : Prop := g.StartsAlone e ∧ g.SweepsApart e

/-- **Every event that meets `Orderly` keeps the invariant.** -/
theorem step_sound (h : Sound g) (e : Event) (he : g.Orderly e) : Sound (g.step e) := by
  cases hs : e.starts with
  | false => exact h.finishes (step_finishes h.ids.numbered hs)
  | true =>
    cases e with
    | countdown i deal => exact onCountdown_sound h i deal he.1
    | checked b v deal => exact checked_sound h b v deal
    | resumeBegin b deal => exact resumeBegin_sound h b deal
    | sweep => exact sweep_sound h he.2
    | db t fate => exact h.unharmed (.refl _) rfl rfl (onDb_spares h.money h.swept t fate he.2)
    | resume t => exact h.unharmed (.refl _) rfl rfl (onResume_spares h.money h.swept t)
    | register u => exact h.unharmed (.refl _) rfl rfl (register_spares h.money h.swept u _)
    | walletMove u type delta ref =>
      exact h.unharmed (.refl _) rfl rfl (walletMove_spares h.money h.swept u type delta ref _)
    | _ => cases hs

/-- The tag of a process is on no row that earlier calls have left. -/
def NewTag (earlier : List (MoneyEvent User MatchId)) (tag : ℕ) : Prop :=
  ∀ id : MatchId, id.tag = tag → (run Money.step Money.empty earlier).db.find id = none

/-- The gateway boots soundly, under a new tag. -/
theorem boot_sound {earlier : List (MoneyEvent User MatchId)} {tag : ℕ} (hnew : NewTag earlier tag)
    (target rakeBps : ℕ) : Sound (boot earlier tag target rakeBps) := by
  refine ⟨⟨?_, ?_⟩, boot_moneyOK .., ?_, ?_, ?_, ?_, ?_, ?_, ?_⟩
  · intro i r hr; cases hr
  · intro i r id hr; cases hr
  · intro t a id ha; cases ha
  · intro id hid
    exact ⟨rfl, hnew id hid.1⟩
  · intro b x hx; cases hx
  · intro b x hx; cases hx
  · intro b x hx; cases hx
  · intro b b' x x' hx; cases hx
  · intro i r hl; cases hl.1

end Gateway

end Murlan
