import Murlan.Proof.MatchEnd
import Murlan.Proof.Start

/-!
# One escrow, and no sweep of it

* `FreePractice`: the practice rooms in play ask for no stake, if no start begins in one
  that does.
* `one_escrow`: if besides no start begins while another is under way in its room, the
  match of every live room is the one whose stakes are escrowed, and its row is active.
* `sweep_spares_live`: if sweeps and escrows keep apart as well, no sweep refunds a
  match that is live or about to start.
-/

namespace Murlan

/-- A practice room asks for no stake. -/
def Room.PracticeFree (r : Room) : Prop := r.practice = true → r.stakeCents = 0

theorem Room.PracticeFree.rests {r r' : Room} (h : r.PracticeFree) (hr : Room.Rests r r') : r'.PracticeFree := by
  intro hp
  rw [hr.stakeCents]
  rcases hr.free hp with hp | hno
  · exact h hp
  · exact hno

namespace Gateway

variable {g g' : Gateway} {id : MatchId} {b i t : ℕ} {r : Room} {x y : Begin}

/-! ## Practice rooms -/

/-- The room of a start has been opened, and asks for no stake if it is for practice. -/
structure Opened (g : Gateway) (x : Begin) : Prop where
  bound : x.roomId ≤ g.rooms.seq
  free : ∀ r, g.rooms.rooms x.roomId = some r → r.PracticeFree

/-- The practice rooms that are in a match, or about to be, ask for no stake. -/
structure FreePractice (g : Gateway) : Prop where
  live : ∀ i r, g.Live i r → r.PracticeFree
  begun : ∀ b x, g.begins b = some x → g.Opened x

theorem Opened.rests (h : g.Opened x) (hr : RoomManager.Rests g.rooms g'.rooms) : g'.Opened x := by
  refine ⟨h.bound.trans hr.seq, fun r' hr' => ?_⟩
  rcases hr.room _ r' hr' with ⟨r, hr₀, hrest⟩ | ⟨hlo, -⟩
  · exact (h.free r hr₀).rests hrest
  · have hle := h.bound
    omega

namespace FreePractice

/-- No start goes on, and no match begins. -/
theorem rests (h : FreePractice g) (hr : RoomManager.Rests g.rooms g'.rooms) (hb : g'.begins = g.begins) :
    FreePractice g' := by
  refine ⟨fun i r' hl => ?_, fun b x hx => ?_⟩
  · rcases hr.room i r' hl.1 with ⟨r, hr₀, hrest⟩ | ⟨-, -, hidle, -⟩
    · exact (h.live i r ⟨hr₀, hrest.live hl.2⟩).rests hrest
    · exact absurd hl.2 hidle
  · rw [hb] at hx
    exact (h.begun b x hx).rests hr

theorem withRooms (h : FreePractice g) {rm : RoomManager} (hr : RoomManager.Rests g.rooms rm) :
    FreePractice (g.withRooms rm) := h.rests hr rfl

theorem withMoney (h : FreePractice g) (m : Money User MatchId) : FreePractice (g.withMoney m) :=
  h.rests (.refl _) rfl

/-- A start returns. -/
theorem endBegin (h : FreePractice g) (b : ℕ) : FreePractice (g.endBegin b) :=
  ⟨h.live, fun b' x hx => (h.begun b' x (endBegin_begins hx).2).rests (.refl _)⟩

/-- A start awaits. -/
theorem setBegin (h : FreePractice g) (b : ℕ) (hy : g.Opened y) : FreePractice (g.setBegin b y) := by
  refine ⟨h.live, fun b' x hx => ?_⟩
  by_cases hb : b' = b
  · subst hb
    have hself : (g.setBegin b' y).begins b' = some y := Function.update_self ..
    rw [hself] at hx
    cases hx
    exact ⟨hy.bound, hy.free⟩
  · have hother : (g.setBegin b y).begins b' = g.begins b' := Function.update_of_ne hb ..
    rw [hother] at hx
    have hx' := h.begun b' x hx
    exact ⟨hx'.bound, hx'.free⟩

/-- A room gets a new match, or a new id for it. -/
theorem put (h : FreePractice g) {r : Room} (r' : Room) (hfree : r.PracticeFree)
    (hp : r'.practice = r.practice) (hs : r'.stakeCents = r.stakeCents) (hrooms : g'.rooms = g.rooms.put i r')
    (hb : g'.begins = g.begins) : FreePractice g' := by
  have hfree' : r'.PracticeFree := fun hprac => hs.trans (hfree (hp ▸ hprac))
  refine ⟨fun j y hl => ?_, fun b x hx => ?_⟩
  · have hl' := hl.1
    rw [hrooms] at hl'
    rcases RoomManager.put_cases hl' with ⟨-, rfl⟩ | ⟨-, hy⟩
    · exact hfree'
    · exact h.live j y ⟨hy, hl.2⟩
  · rw [hb] at hx
    have hx' := h.begun b x hx
    have hseq : g'.rooms.seq = g.rooms.seq := by rw [hrooms]; rfl
    refine ⟨hseq ▸ hx'.bound, fun y hy => ?_⟩
    rw [hrooms] at hy
    rcases RoomManager.put_cases hy with ⟨-, rfl⟩ | ⟨-, hy⟩
    · exact hfree'
    · exact hx'.free y hy

end FreePractice

theorem startFailed_free (h : FreePractice g) (hx : g.Opened x) (b : ℕ) : FreePractice (g.startFailed b x) := by
  unfold startFailed
  split
  · exact (h.withMoney _).setBegin b ⟨hx.bound, hx.free⟩
  · rw [unreadyUnlessLive_rooms]
    exact (h.withRooms (unreadyUnlessLive_quiet g x.roomId).departs.calm.rests.rooms.atRest).endBegin b

theorem undo_free (h : FreePractice g) (hx : g.Opened x) (b : ℕ) : FreePractice (g.undo b x) :=
  (h.withMoney (g.money.refund x.matchId)).setBegin b ⟨hx.bound, hx.free⟩

/-- A match starts by the rule for free practice. -/
theorem launch_free (h : FreePractice g) (hx : g.Opened x) (b : ℕ) (esc : Bool) (deal : ℕ → List (List Card)) :
    FreePractice (g.launch b x esc deal) := by
  unfold launch
  rcases g.rooms.startMatch_cases x.roomId deal with ⟨e, he⟩ | ⟨e, he⟩ | ⟨r, m, hr, -, -, -, he⟩
  · rw [he]
    exact startFailed_free h hx b
  · rw [he]
    simp only
    split
    · exact undo_free h hx b
    · exact (h.withRooms (g.rooms.setReadyAll_rests x.roomId false)).endBegin b
  · rw [he]
    have hgo : FreePractice (g.withRooms (g.rooms.put x.roomId ((r.withStatus .inMatch).withMatch m))) :=
      h.put ((r.withStatus .inMatch).withMatch m) (hx.free r hr) rfl rfl rfl rfl
    exact hgo.endBegin b

/-- So does the escrow. -/
theorem escrowStakes_free (h : FreePractice g) (hx : g.Opened x) (b : ℕ) (deal : ℕ → List (List Card)) :
    FreePractice (g.escrowStakes b x deal) := by
  unfold escrowStakes
  split
  · exact launch_free h hx ..
  · split
    · exact launch_free h hx ..
    · exact (h.withMoney _).setBegin b ⟨hx.bound, hx.free⟩

theorem checkFrom_free (h : FreePractice g) (hx : g.Opened x) (b seat : ℕ) (blocked : Bool)
    (deal : ℕ → List (List Card)) : FreePractice (g.checkFrom b x seat blocked deal) := by
  unfold checkFrom
  split
  · exact h.setBegin b ⟨hx.bound, hx.free⟩
  · split
    · exact h.endBegin b
    · exact escrowStakes_free h hx b deal

theorem checked_free (h : FreePractice g) (b : ℕ) (v : Verdict) (deal : ℕ → List (List Card)) :
    FreePractice (g.checked b v deal) := by
  unfold checked
  split
  · rename_i x hx
    have hopen := h.begun b x hx
    split
    · exact checkFrom_free h hopen ..
    · rename_i _ _ _ seat _ _
      have hrests : ∀ rooms, RoomManager.Rests g.rooms rooms →
          FreePractice ((g.withRooms rooms).checkFrom b x (seat + 1) true deal) :=
        fun rooms hr => checkFrom_free (h.withRooms hr) (hopen.rests hr) ..
      dsimp only
      split
      · exact hrests _ (g.rooms.setReady_rests ..)
      · exact hrests _ (.refl _)
    · exact startFailed_free h hopen b
    · exact h
  · exact h

theorem resumeBegin_free (h : FreePractice g) (b : ℕ) (deal : ℕ → List (List Card)) :
    FreePractice (g.resumeBegin b deal) := by
  unfold resumeBegin
  split
  · exact h
  rename_i x hx
  have hopen := h.begun b x hx
  split
  · exact h
  · split
    · unfold escrowed
      split
      · exact (h.withRooms (RoomManager.Rests.foldl (fun rm u => rm.setReady_rests u false) _ _)).endBegin b
      · simp only
        split
        · exact launch_free h hopen ..
        · exact undo_free h hopen b
    · exact startFailed_free h hopen b
    · exact h
  · split
    · exact (h.withRooms (g.rooms.setReadyAll_rests x.roomId false)).endBegin b
    · exact startFailed_free h hopen b
    · exact h
  · split
    · rw [unreadyUnlessLive_rooms]
      exact (h.withRooms (unreadyUnlessLive_quiet g x.roomId).departs.calm.rests.rooms.atRest).endBegin b
    · exact h

/-- A countdown that ends with everyone ready finds no practice room that asks for a stake. -/
def StartsFree (g : Gateway) : Event → Prop
  | .countdown i _ => g.countdowns i = true → g.rooms.allReady i = true →
      ∀ r, g.rooms.rooms i = some r → r.PracticeFree
  | _ => True

theorem onCountdown_free (h : FreePractice g) (hnum : g.Numbered) (i : ℕ) (deal : ℕ → List (List Card))
    (hguard : g.StartsFree (.countdown i deal)) : FreePractice (g.onCountdown i deal) := by
  have hclear : FreePractice (g.clearCountdown i) := h.rests (.refl _) rfl
  unfold onCountdown
  split
  · rename_i harmed
    cases hr : g.rooms.rooms i with
    | none =>
      have hsame : (g.clearCountdown i).beginMatch i deal = g.clearCountdown i := by
        unfold beginMatch
        rw [show (g.clearCountdown i).rooms.rooms i = none from hr]
      rw [hsame]
      exact hclear
    | some r =>
      have hr' : (g.clearCountdown i).rooms.rooms i = some r := hr
      unfold beginMatch
      rw [hr', assignMatchId_eq hr']
      simp only
      split
      · exact hclear
      · rename_i hready
        have hall : g.rooms.allReady i = true := by
          unfold RoomManager.allReady
          rw [hr]
          simpa using hready
        have hfree := hguard harmed hall r hr
        -- the id is new, the stake is not
        have hopen : ∀ g₁ : Gateway, g₁.rooms = g.rooms.put i (renamed g.rooms i r) →
            g₁.begins = g.begins → FreePractice g₁ ∧
              ∀ id stage, g₁.Opened { roomId := i, matchId := id, stage } := by
          intro g₁ hrooms hb
          refine ⟨h.put (renamed g.rooms i r) hfree rfl rfl hrooms hb, fun id stage => ⟨?_, fun y hy => ?_⟩⟩
          · rw [hrooms]
            exact hnum i r hr
          · rw [hrooms] at hy
            rcases RoomManager.put_cases hy with ⟨-, rfl⟩ | ⟨hne, -⟩
            · exact hfree
            · exact absurd rfl hne
        split
        · obtain ⟨hgo, hx⟩ := hopen { g.clearCountdown i with rooms := _, nextBegin := _, finalized := _ } rfl rfl
          exact checkFrom_free hgo (hx _ _) ..
        · obtain ⟨hgo, hx⟩ := hopen { g.clearCountdown i with rooms := _, nextBegin := _, finalized := _ } rfl rfl
          exact escrowStakes_free hgo (hx _ _) ..
  · exact h

/-- Every event keeps practice rooms free, when none starts with a stake. -/
theorem step_free (h : FreePractice g) (hnum : g.Numbered) {e : Event} (he : g.StartsFree e) :
    FreePractice (g.step e) := by
  cases hs : e.starts with
  | false =>
    rcases step_finishes hnum hs with hq | ⟨-, -, -, -, -, -, hrest, hb, -⟩
    · exact h.rests hq.rooms.atRest hq.begins
    · exact h.rests hrest.atRest hb
  | true =>
    cases e with
    | countdown i deal => exact onCountdown_free h hnum i deal he
    | checked b v deal => exact checked_free h b v deal
    | resumeBegin b deal => exact resumeBegin_free h b deal
    | sweep | db | resume | register | walletMove => exact h.withMoney _
    | _ => cases hs

/-! ## One escrow -/

/-- The services never read the list of active matches unless a sweep asks for it. -/
theorem step_noLists (h : Sound g) (hno : NoLists g.money) {e : Event} (he : e.isSweep = false) :
    NoLists (g.step e).money := by
  rcases (step_oneCall h.ids.numbered he).money with hm | ⟨c, hc, hm⟩
  · rw [hm]; exact hno
  · rw [hm]
    cases c with
    | escrow i =>
      show NoLists (g.money.escrow i)
      unfold Money.escrow
      split
      · exact hno.spawns (spawns_spawn ..) id
      · exact hno.spawns (spawns_claim _ rfl) id
    | settle i =>
      show NoLists (g.money.settle i)
      unfold Money.settle
      split
      · exact hno.spawns (spawns_spawn ..) id
      · exact hno.spawns (spawns_claim _ rfl) id
    | refund x =>
      show NoLists (g.money.refund x)
      unfold Money.refund
      split
      · exact hno.spawns (spawns_spawn ..) id
      · exact hno.spawns (spawns_claim _ rfl) id
    | recoverOrphanedMatches live => cases hc
    | db t fate => exact hno.calms (onDb_calms _ t fate)
    | resume t => exact hno.calms (onResume_calms h.money t)
    | register u =>
      show NoLists (g.money.register u)
      unfold Money.register
      split <;> exact hno
    | walletMove u type delta ref =>
      show NoLists (g.money.walletMove u type delta ref)
      unfold Money.walletMove
      split <;> exact hno
    | restart =>
      intro t a ha
      cases ha

/-- **One running match, one escrow.** The match id of a live room is the id of an
active row that holds the stakes of the players at the table; no start is under way in
a live room, and at most one in any other; and a match that ends with a winner settles
that row. -/
structure OneEscrow (g : Gateway) : Prop where
  pot : ∀ i r, g.Live i r → (r.practice = true ∧ r.stakeCents = 0) ∨ r.players = [] ∨
    ∃ id rec, r.matchId = some id ∧ g.money.db.find id = some rec ∧ rec.status = .active ∧
      rec.stakeCents = r.stakeCents ∧ ∀ p ∈ r.players, p ∈ rec.players
  start : ∀ b x r, g.begins b = some x → x.stage.isFailing = false → g.rooms.rooms x.roomId = some r →
    r.matchId = some x.matchId ∧ r.status ≠ .inMatch
  single : ∀ b b' x x', g.begins b = some x → g.begins b' = some x' → x.stage.isFailing = false →
    x'.stage.isFailing = false → x.roomId = x'.roomId → b = b'
  settles : ∀ i r id result, g.Live i r → r.matchId = some id → r.practice = false → id ∉ g.finalized →
    result.winnerSeats ≠ [] →
    (g.settleAndEmitMatchEnd i result).money = g.money.settle (result.settleInput id)

/-- What is sound has one escrow a match. -/
theorem Sound.oneEscrow (h : Sound g) (hfree : FreePractice g) : OneEscrow g where
  pot := by
    intro i r hl
    obtain ⟨id, hid, hpot⟩ := h.live i r hl
    rcases hpot with ⟨hno | hno, -⟩ | ⟨rec, hrec, hst, hps, hsec⟩
    · exact Or.inl ⟨hno, hfree.live i r hl hno⟩
    · exact Or.inr (Or.inl hno)
    · exact Or.inr (Or.inr ⟨id, rec, hid, hrec ▸ hsec.row, hsec.active, hst, hps⟩)
  start := fun b x r hx hf hr => (h.mine b x hx hf).room r hr
  single := h.alone
  settles := by
    intro i r id result hl hid hpr hnew hws
    obtain ⟨g₂, -, -, -, -, hcall⟩ := settleAndEmitMatchEnd_awaits hl.1 hid hpr hnew result
    rw [hcall, if_neg hws]
    rfl

/-- A run without a sweep whose starts do not overlap and leave staked practice rooms alone. -/
def Unswept (g : Gateway) (e : Event) : Prop := g.StartsAlone e ∧ g.StartsFree e ∧ e.isSweep = false

/-- Without a sweep nobody reads the list of active matches. -/
theorem orderly_of_unswept (hno : NoLists g.money) {e : Event} (he : g.Unswept e) :
    g.Orderly e := by
  obtain ⟨halone, -, hsweep⟩ := he
  refine ⟨halone, ?_⟩
  cases e with
  | sweep => cases hsweep
  | db t fate => exact fun _ _ _ => hno
  | _ => trivial

/-- With no sweep, a run is orderly. -/
theorem guarded_orderly (es : List Event) : ∀ {g : Gateway}, Sound g → NoLists g.money →
    Guarded step Unswept g es → Guarded step Orderly g es := by
  induction es with
  | nil => intro g _ _ _; trivial
  | cons e es ih =>
    intro g h hno hg
    have he := orderly_of_unswept hno hg.1
    exact ⟨he, ih (step_sound h e he) (step_noLists h hno hg.1.2.2) hg.2⟩

theorem boot_noLists (earlier : List (MoneyEvent User MatchId)) (tag target rakeBps : ℕ) :
    NoLists (boot earlier tag target rakeBps).money := by
  intro t a ha
  cases ha

theorem boot_free (earlier : List (MoneyEvent User MatchId)) (tag target rakeBps : ℕ) :
    FreePractice (boot earlier tag target rakeBps) := by
  refine ⟨fun i r hl => ?_, fun b x hx => ?_⟩
  · cases hl.1
  · cases hx

/-- **One running match, one escrow**, in every run without a sweep in which no start
begins while another is under way in its room, or in a practice room with a stake. -/
theorem one_escrow {earlier : List (MoneyEvent User MatchId)} {tag : ℕ} (hnew : NewTag earlier tag)
    (target rakeBps : ℕ) (es : List Event)
    (hg : Guarded step Unswept (boot earlier tag target rakeBps) es) :
    OneEscrow (run step (boot earlier tag target rakeBps) es) := by
  have hboot := boot_sound hnew target rakeBps
  have hno := boot_noLists earlier tag target rakeBps
  have hrun := guarded_inv (P := fun g => Sound g ∧ NoLists g.money ∧ FreePractice g)
    (fun g e ⟨h, hno, hfree⟩ he =>
      ⟨step_sound h e (orderly_of_unswept hno he), step_noLists h hno he.2.2, step_free hfree h.ids.numbered he.2.1⟩)
    ⟨hboot, hno, boot_free earlier tag target rakeBps⟩ es hg
  exact hrun.1.oneEscrow hrun.2.2

/-! ### A staked table -/

/-- A sorted deck, cut for two. -/
def evenDeal : ℕ → List (List Card) := fun _ => sortedDeal 2

/-- Two humans with money sit down at a staked table and are ready. -/
def stakedTable : List Event :=
  [.register (.human 0), .register (.human 1), .walletMove (.human 0) .deposit 1000 none,
    .walletMove (.human 1) .deposit 1000 none, .connect 0 0, .connect 1 1,
    .create 0 { type := .oneVOne, stakeCents := 100 }, .join 1 1 none, .ready 0 true, .ready 1 true]

/-- The checks of both, and their escrow up to its commit. -/
def stakedChecks : List Event :=
  [.checked 0 .allowed evenDeal, .checked 0 .allowed evenDeal, .db 0 .answered, .resume 0, .db 0 .answered,
    .resume 0, .db 0 .answered, .resume 0]

/-- The countdown ends once, and the match starts. -/
def stakedStart : List Event :=
  stakedTable ++ .countdown 1 evenDeal :: (stakedChecks ++ [.db 0 .answered, .resume 0, .resumeBegin 0 evenDeal])

/-- The staked table is started with no sweep. -/
theorem stakedStart_unswept : Guarded step Unswept (boot [] 0 21 500) stakedStart := by
  refine (guarded_append _ stakedTable _).2
    ⟨guarded_of_forall _ ?_, ⟨fun _ _ => ⟨?_, ?_⟩, fun _ _ => ?_, rfl⟩, guarded_of_forall _ ?_⟩
  · simp [stakedTable, Unswept, StartsAlone, StartsFree, Event.isSweep]
  · have hnone : (run step (boot [] 0 21 500) stakedTable).begins = fun _ => none := rfl
    intro b x hx
    rw [hnone] at hx
    cases hx
  · have hready : ((run step (boot [] 0 21 500) stakedTable).rooms.rooms 1).map Room.status = some .ready := by
      decide +kernel
    intro r hr
    rw [hr] at hready
    rw [Option.some.inj hready]
    simp
  · have hstaked : ((run step (boot [] 0 21 500) stakedTable).rooms.rooms 1).map Room.practice = some false := by
      decide +kernel
    intro r hr hp
    rw [hr] at hstaked
    rw [Option.some.inj hstaked] at hp
    cases hp
  · simp [stakedChecks, Unswept, StartsAlone, StartsFree, Event.isSweep]

theorem one_escrow_staked : OneEscrow (run step (boot [] 0 21 500) stakedStart) :=
  one_escrow (fun _ _ => rfl) 21 500 stakedStart stakedStart_unswept

/-- A second `room:ready` during the checks arms the countdown again, and the second
start renames the match between the first one's escrow and its start: the room is in a
match whose id has no row, and the row of the escrow is another. -/
theorem one_escrow_fails :
    let g := run step (boot [] 0 21 500)
      (stakedTable ++ .countdown 1 evenDeal :: .ready 0 true :: (stakedChecks ++
        [.db 0 .answered, .resume 0, .countdown 1 evenDeal, .resumeBegin 0 evenDeal]))
    (g.rooms.rooms 1).map (fun r => (r.status, r.matchId, r.practice, r.players.length)) =
        some (.inMatch, some ⟨0, 1, 2⟩, false, 2) ∧
      g.money.db.find ⟨0, 1, 2⟩ = none ∧
      (g.money.db.find ⟨0, 1, 1⟩).map MatchRecord.status = some .active := by
  decide +kernel

/-- A room keeps the practice flag its creator sends, whatever the stake: two players with
money for it play for nothing, and no row is written. -/
theorem staked_practice_unescrowed :
    let g := run step (boot [] 0 21 500)
      [.register (.human 0), .register (.human 1), .walletMove (.human 0) .deposit 1000 none,
        .walletMove (.human 1) .deposit 1000 none, .connect 0 0, .connect 1 1,
        .create 0 { type := .oneVOne, stakeCents := 100, practice := true }, .join 1 1 none, .ready 0 true,
        .ready 1 true, .countdown 1 evenDeal, .checked 0 .allowed evenDeal, .checked 0 .allowed evenDeal]
    (g.rooms.rooms 1).map (fun r => (r.status, r.stakeCents, r.players.length)) = some (.inMatch, 100, 2) ∧
      (g.rooms.rooms 1).map Room.matchId = some (some ⟨0, 1, 1⟩) ∧ g.money.db.find ⟨0, 1, 1⟩ = none := by
  decide +kernel

/-! ## No sweep of a live match -/

/-- The match is live, or its escrow has committed and its start goes on. -/
inductive InPlay (g : Gateway) (id : MatchId) : Prop where
  | live (i : ℕ) (r : Room) (hl : g.Live i r) (hid : r.matchId = some id)
  | starting (b : ℕ) (x : Begin) (t : ℕ) (ps : List (MatchPlayer User)) (a : Task User MatchId)
      (hx : g.begins b = some x) (hst : x.stage = .escrowing t ps) (hid : x.matchId = id)
      (ht : g.money.tasks t = some a) (ha : a.granted)

/-- The match that a sweep is refunding. -/
def sweeping (m : Money User MatchId) (t : ℕ) : Option MatchId :=
  match m.tasks t with
  | some (.refundFind id (some _) _) => some id
  | some (.refundCommit r (some _) _) => some r.id
  | _ => none

/-- A sweep on its way to a match threatens it. -/
theorem sweeping_threatens {m : Money User MatchId} (h : sweeping m t = some id) :
    ∃ a, m.tasks t = some a ∧ a.holds = some id ∧ a.threatens id := by
  unfold sweeping at h
  split at h <;> rename_i ha
  · cases h
    exact ⟨_, ha, rfl, Or.inl rfl⟩
  · cases h
    exact ⟨_, ha, rfl, Or.inl rfl⟩
  · cases h

/-- No sweep is on its way to a match in play. -/
theorem Sound.spares (h : Sound g) (hp : InPlay g id) : sweeping g.money t ≠ some id := by
  intro hsw
  obtain ⟨a, ha, hh, hth⟩ := sweeping_threatens hsw
  cases hp with
  | live i r hl hid =>
    obtain ⟨id', hid', hpot⟩ := h.live i r hl
    rw [hid] at hid'
    cases hid'
    rcases hpot with ⟨-, hun⟩ | ⟨rec, rfl, -, -, hsec⟩
    · have hin := h.money.claimed t a id ha hh
      rw [hun.free] at hin
      cases hin
    · exact hsec.calm t a ha hth
  | starting b x t' ps a' hx hst hid ht' ha' =>
    have hstage := h.stage b x hx (by rw [hst]; rfl)
    unfold StageOK at hstage
    rw [hst] at hstage
    obtain ⟨inp, hi, -, -, hesc⟩ := hstage
    have hsec : Secure g.money inp.record := by
      cases hesc with
      | coming c hc hce hrow =>
        rw [ht'] at hc
        cases hc
        unfold Task.escrows at hce
        unfold Task.granted at ha'
        split at ha' <;> first | exact hce.elim | exact ha'.elim
      | held c hc hcg hsec => exact hsec
      | refused c hc hcr =>
        rw [ht'] at hc
        cases hc
        unfold Task.refuses at hcr
        unfold Task.granted at ha'
        split at ha'
        · exact hcr.elim
        · rename_i res
          have hno : res.ok = false := hcr
          rw [hno] at ha'
          cases ha'
        · exact ha'.elim
    refine hsec.calm t a ha ?_
    show a.threatens inp.matchId
    rw [hi, hid]
    exact hth

/-- **No sweep refunds a match in play**, in every run in which no start begins while
another is under way in its room, no sweep starts between the commit of an escrow and
the end of its start, and no escrow commits while a sweep reads the active matches. -/
theorem sweep_spares_live {earlier : List (MoneyEvent User MatchId)} {tag : ℕ} (hnew : NewTag earlier tag)
    (target rakeBps : ℕ) (es : List Event)
    (hg : Guarded step Orderly (boot earlier tag target rakeBps) es) (t : ℕ) (id : MatchId)
    (hp : InPlay (run step (boot earlier tag target rakeBps) es) id) :
    sweeping (run step (boot earlier tag target rakeBps) es).money t ≠ some id :=
  (guarded_inv (P := Sound) (fun _ e h he => step_sound h e he) (boot_sound hnew target rakeBps) es hg).spares hp

/-- A sweep after the start finds the match live. -/
theorem stakedStart_orderly :
    Guarded step Orderly (boot [] 0 21 500) (stakedStart ++ [.sweep, .db 1 .answered, .resume 1]) := by
  have hboot : Sound (boot [] 0 21 500) := boot_sound (fun _ _ => rfl) 21 500
  have hord := guarded_orderly stakedStart hboot (boot_noLists [] 0 21 500) stakedStart_unswept
  have hsound := guarded_inv (P := Sound) (fun _ e h he => step_sound h e he) hboot stakedStart hord
  refine (guarded_append _ stakedStart _).2 ⟨hord, ⟨trivial, ?_⟩, ⟨trivial, ?_⟩, ⟨trivial, trivial⟩, trivial⟩
  · -- the only start has returned
    intro b x t ps a hx
    have hb : b < 1 := hsound.bound b x hx
    have hb0 : b = 0 := by omega
    subst hb0
    cases hx
  · rintro - id ⟨i, hi, -⟩
    cases hi

/-- A sweep of a server with one live match. -/
theorem sweep_spares_staked :
    sweeping (run step (boot [] 0 21 500) (stakedStart ++ [.sweep, .db 1 .answered, .resume 1])).money 1 ≠
      some ⟨0, 1, 1⟩ :=
  sweep_spares_live (fun _ _ => rfl) 21 500 _ stakedStart_orderly 1 ⟨0, 1, 1⟩
    (.live 1 _ ⟨(Option.some_get (show ((run step (boot [] 0 21 500)
      (stakedStart ++ [.sweep, .db 1 .answered, .resume 1])).rooms.rooms 1).isSome = true by decide +kernel)).symm,
      by decide +kernel⟩ (by decide +kernel))

/-- A sweep that starts before the commit of an escrow and reads the active matches
after it: it refunds the match that has started meanwhile. -/
theorem sweep_refunds_live :
    let g := run step (boot [] 0 21 500)
      (stakedTable ++ .countdown 1 evenDeal :: (stakedChecks ++
        [.sweep, .db 0 .answered, .resume 0, .db 1 .answered, .resumeBegin 0 evenDeal, .resume 1]))
    let g' := run step g [.db 1 .answered, .resume 1, .db 1 .answered]
    (g.rooms.rooms 1).map (fun r => (r.status, r.matchId)) = some (.inMatch, some ⟨0, 1, 1⟩) ∧
      sweeping g.money 1 = some ⟨0, 1, 1⟩ ∧
      (g'.rooms.rooms 1).map (fun r => (r.status, r.matchId)) = some (.inMatch, some ⟨0, 1, 1⟩) ∧
      (g'.money.db.find ⟨0, 1, 1⟩).map MatchRecord.status = some .cancelled := by
  decide +kernel

end Gateway

end Murlan
