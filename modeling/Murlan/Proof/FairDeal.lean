import Murlan.Base.Journal
import Murlan.Proof.Replay
import Murlan.Spec.FairDeal

/-!
# What a reveal reproduces

* `Kept`: the shuffles, the notes and the rows of a server that has dealt and revealed for a
  while. `b` tells of every shuffle how it was made and for which match.
* `step_kept`: every event keeps it, whatever the services answer and in whatever order.
* `reveals_reproduce`: every seed that is revealed had its hash sent to the room before its first
  deal, and deals again, for the server and for the browser, every game of its shuffle.
-/

namespace Murlan

namespace FairShuffle

/-- The hands of the game `k`. -/
def hands (H : Hashes) (fair : FairShuffle) (k : ℕ) : List (List Card) :=
  H.fairHands fair.serverSeed fair.clientSeed k fair.numPlayers

/-- The shuffle after `n` games. -/
def played (fair : FairShuffle) (n : ℕ) : FairShuffle := { fair with games := (List.range n).map fun i => ⟨i, i⟩ }

@[simp] theorem games_played (fair : FairShuffle) (n : ℕ) : (fair.played n).games.length = n := by simp [played]

theorem played_succ (fair : FairShuffle) (n : ℕ) :
    { fair.played n with games := (fair.played n).games ++ [⟨n, n⟩] } = fair.played (n + 1) := by
  simp [played, List.range_succ]

/-- What makes a shuffle verifiable. -/
structure Sound (H : Hashes) (fair : FairShuffle) : Prop where
  hash : fair.serverSeedHash = H.sha256Hex fair.serverSeed
  seed : 0 < fair.serverSeed.length
  players : fair.numPlayers = 2 ∨ fair.numPlayers = 3 ∨ fair.numPlayers = 4

variable {H : Hashes} {fair : FairShuffle}

theorem Sound.verifyDeal (h : fair.Sound H) (k : ℕ) :
    H.verifyDeal fair.serverSeed fair.clientSeed k fair.numPlayers = .ok (fair.hands H k) ∧
      H.reconstructDeal fair.serverSeed fair.clientSeed k fair.numPlayers = .ok (fair.hands H k) :=
  ⟨H.verifyDeal_eq .., H.reconstructDeal_eq _ _ _ h.players (size_ne_zero h.seed)⟩

theorem Sound.clientVerifyCommitment (h : fair.Sound H) :
    H.clientVerifyCommitment fair.serverSeed fair.serverSeedHash = true := by
  show (H.clientSha256Hex fair.serverSeed == fair.serverSeedHash) = true
  rw [clientSha256Hex_eq, h.hash]
  exact beq_self_eq_true _

/-- A shuffle that is made is sound. -/
theorem sound_create (type : MatchType) (clientSeed serverSeed : Option String) (srvBytes : Vector UInt8 32)
    (cliBytes : Vector UInt8 16) :
    (H.createFairShuffle (playersForType type) clientSeed serverSeed srvBytes cliBytes).Sound H := by
  refine ⟨rfl, seedOr_length (by omega) serverSeed srvBytes, ?_⟩
  show playersForType type = 2 ∨ playersForType type = 3 ∨ playersForType type = 4
  cases type with
  | oneVOne => exact .inl rfl
  | oneVOneVOne => exact .inr (.inl rfl)
  | twoVTwo => exact .inr (.inr rfl)

end FairShuffle

/-! ## The rows -/

namespace ReplayStore

variable {M : Type} [DecidableEq M] {s : ReplayStore M} {g row : GameRecord M} {m : M}

/-- A recorded game is a new row, not yet revealed. -/
theorem mem_recordGame (hnew : ∀ r ∈ s.games, r.matchId = g.matchId → r.index ≠ g.index) :
    row ∈ (s.recordGame g).games ↔ row ∈ s.games ∨ row = { g with revealed := false } := by
  unfold recordGame
  rw [if_neg]
  · simp
  · rw [List.any_eq_true]
    rintro ⟨r, hr, heq⟩
    simp only [decide_eq_true_eq] at heq
    exact hnew r hr heq.1 heq.2

/-- A revealed match has its rows shown. -/
theorem mem_revealMatch : row ∈ (s.revealMatch m).games ↔
    ∃ r ∈ s.games, row = if r.matchId = m then { r with revealed := true } else r := by
  unfold revealMatch
  simp only [List.mem_map]
  constructor
  · rintro ⟨r, hr, rfl⟩
    exact ⟨r, hr, rfl⟩
  · rintro ⟨r, hr, rfl⟩
    exact ⟨r, hr, rfl⟩

end ReplayStore

/-! ## What a server has dealt -/

/-- A shuffle as it was made, and the match it was made for. -/
structure Birth where
  match_ : FairMatch
  fair : FairShuffle

namespace Birth

/-- The match a shuffle was made for. -/
def matchId (b : Birth) : MatchId := b.match_.matchId

/-- The room it was made for. -/
def roomId (b : Birth) : ℕ := b.matchId.roomId

/-- The row of the game `k`. -/
def row (b : Birth) (k : ℕ) (revealed : Bool) : GameRecord MatchId := { b.fair.record b.matchId k with revealed }

end Birth

/-- A start goes on to its deal. -/
def FairEvent.Deals (e : FairEvent) : Prop := ∃ k room starts bytes, e = .deal k room starts bytes

/-- Whether an end publishes the seed when it goes on. -/
def FairStage.publishes (answer : EndAnswer) (room : EndRoom) : FairStage → Bool
  | .refunding | .voiding => answer ≠ .threw
  | .settling => answer = .done && (room.tournament && room.scoreboard)
  | .recording => room.scoreboard

namespace FairServer

variable {H : Hashes} {money : Bool} {b b' : ℕ → Birth} {s s' : FairServer} {i j k x : ℕ} {m : FairMatch}

/-- What is behind a note, with the notes before it. -/
def Told (H : Hashes) (b : ℕ → Birth) (next : ℕ) (pre : List FairNote) : FairNote → Prop
  | .commit .. => True
  | .deal i x k hands =>
    x < next ∧ (b x).roomId = i ∧ hands = (b x).fair.hands H k ∧ .commit i (b x).fair.serverSeedHash ∈ pre
  | .reveal i x r _ =>
    x < next ∧ (b x).roomId = i ∧
      ∃ n, 0 < n ∧ r = ((b x).fair.played n).reveal ∧ ∀ k < n, ∃ hands, .deal i x k hands ∈ pre

/-- Match ids are issued once. -/
structure Issued (b : ℕ → Birth) (s : FairServer) : Prop where
  ids : ∀ i id, s.matchIds i = some id → id.roomId = i ∧ id.seq ≤ s.matchSeq i
  starts : ∀ k x, s.starts k = some x → x.matchId.roomId = x.roomId ∧ x.matchId.seq ≤ s.matchSeq x.roomId ∧
    ∀ y < s.nextShuffle, (b y).matchId ≠ x.matchId
  once : ∀ k k' x x', s.starts k = some x → s.starts k' = some x' → x.matchId = x'.matchId → k = k'
  nextStart : ∀ k, s.nextStart ≤ k → s.starts k = none
  dealt : ∀ x < s.nextShuffle, (b x).matchId.seq ≤ s.matchSeq (b x).roomId
  inj : ∀ x < s.nextShuffle, ∀ y < s.nextShuffle, (b x).matchId = (b y).matchId → x = y

/-- The shuffles, the notes and the rows of a server. -/
structure Kept (H : Hashes) (b : ℕ → Birth) (s : FairServer) : Prop where
  issued : Issued b s
  sound : ∀ x < s.nextShuffle, (b x).fair.Sound H ∧ (b x).match_.shuffle = x ∧
    .commit (b x).roomId (b x).fair.serverSeedHash ∈ s.notes
  state : ∀ x < s.nextShuffle, ∃ n, s.shuffles x = some ((b x).fair.played n) ∧
    (∀ k < n, ∃ hands, .deal (b x).roomId x k hands ∈ s.notes) ∧
    ((b x).match_.practice = false → ∀ k < n, ∃ shown, (b x).row k shown ∈ s.games.games)
  rows : ∀ row ∈ s.games.games, ∃ x < s.nextShuffle, ∃ n, s.shuffles x = some ((b x).fair.played n) ∧
    ∃ k < n, ∃ shown, row = (b x).row k shown
  pending : ∀ i seed, truthy (s.fairness.pendingSeeds i) = some seed → .commit i (H.sha256Hex seed) ∈ s.notes
  byRoom : ∀ i x, s.fairness.byRoom i = some x → x < s.nextShuffle ∧ (b x).roomId = i ∧
    ∃ n, 0 < n ∧ s.shuffles x = some ((b x).fair.played n)
  live : ∀ i m, s.live i = some m → m.shuffle < s.nextShuffle ∧ (b m.shuffle).match_ = m ∧ m.matchId.roomId = i
  gone : ∀ i, s.closed i = true → s.live i = none ∧ s.matchIds i = none
  told : Justified (Told H b s.nextShuffle) s.notes

/-- A room that plays is there. -/
theorem Kept.open (h : Kept H b s) (hl : s.live i = some m) : s.closed i = false := by
  by_contra hc
  rw [(h.gone i (Bool.eq_true_of_not_eq_false hc)).1] at hl
  cases hl

/-! ## The next game -/

/-- A deal counts one game more. -/
theorem dealNext_eq (fair : FairShuffle) (n : ℕ) (h : s.shuffles m.shuffle = some (fair.played n)) :
    s.dealNext H i m =
      { s with
        shuffles := Function.update s.shuffles m.shuffle (some (fair.played (n + 1)))
        notes := s.notes ++ [.deal i m.shuffle n (fair.hands H n)]
        games := if m.practice then s.games else s.games.recordGame (fair.record m.matchId n) } := by
  have hrun := H.nextDeal_run (fair.played n)
  rw [FairShuffle.games_played, FairShuffle.played_succ] at hrun
  unfold dealNext
  simp only [h, hrun, FairShuffle.games_played]
  rfl

/-- The rows of a shuffle have the numbers of its games. -/
theorem Kept.index_lt (h : Kept H b s) {n : ℕ} (hx : x < s.nextShuffle) (hn : s.shuffles x = some ((b x).fair.played n))
    {row : GameRecord MatchId} (hrow : row ∈ s.games.games) (hid : row.matchId = (b x).matchId) : row.index < n := by
  obtain ⟨y, hy, n', hn', k, hk, shown, rfl⟩ := h.rows row hrow
  have hxy : y = x := h.issued.inj y hy x hx hid
  subst hxy
  rw [hn] at hn'
  have hlen := congrArg (fun o : Option FairShuffle => o.map fun fair => fair.games.length) hn'
  simp only [Option.map_some, FairShuffle.games_played, Option.some.injEq] at hlen
  rw [hlen]
  exact hk

/-- What was told stays told. -/
theorem Told.grow (hb : ∀ x < i, b' x = b x) (hij : i ≤ j) {pre : List FairNote} {n : FairNote} (h : Told H b i pre n) :
    Told H b' j pre n := by
  cases n with
  | commit i hash => trivial
  | deal i x k hands =>
    obtain ⟨hx, hrest⟩ := h
    refine ⟨by omega, ?_⟩
    rw [hb x hx]
    exact hrest
  | reveal i x r id =>
    obtain ⟨hx, hrest⟩ := h
    refine ⟨by omega, ?_⟩
    rw [hb x hx]
    exact hrest

/-- The dealer of a match deals one more game. -/
theorem dealNext_kept (h : Kept H b s) (hx : m.shuffle < s.nextShuffle) (hm : (b m.shuffle).match_ = m)
    (hi : m.matchId.roomId = i) : Kept H b (s.dealNext H i m) := by
  obtain ⟨n, hn, hdeals, hrows⟩ := h.state m.shuffle hx
  have hid : (b m.shuffle).matchId = m.matchId := by
    unfold Birth.matchId
    rw [hm]
  have hroom : (b m.shuffle).roomId = i := by
    unfold Birth.roomId
    rw [hid, hi]
  rw [dealNext_eq _ n hn]
  -- the new row, if the match is not practice
  have hmem : ∀ row, row ∈ (if m.practice then s.games else
      s.games.recordGame ((b m.shuffle).fair.record m.matchId n)).games ↔
      row ∈ s.games.games ∨ m.practice = false ∧ row = (b m.shuffle).row n false := by
    intro row
    cases hp : m.practice with
    | true => simp
    | false =>
      simp only [Bool.false_eq_true, if_false, true_and]
      rw [ReplayStore.mem_recordGame fun r hr hrm => ?_]
      · unfold Birth.row
        rw [hid]
      · have hlt := h.index_lt hx hn hr (hrm.trans hid.symm)
        exact Nat.ne_of_lt hlt
  refine
    { issued := ⟨h.issued.ids, h.issued.starts, h.issued.once, h.issued.nextStart, h.issued.dealt, h.issued.inj⟩
      sound := fun x hx => ?_
      state := fun x hx' => ?_
      rows := fun row hrow => ?_
      pending := fun i seed hs => List.mem_append_left _ (h.pending i seed hs)
      byRoom := fun i x hb => ?_
      live := h.live
      gone := h.gone
      told := justified_append.2 ⟨h.told, hx, hroom, rfl, ?_⟩ }
  · obtain ⟨hs, hnum, hc⟩ := h.sound x hx
    exact ⟨hs, hnum, List.mem_append_left _ hc⟩
  · obtain ⟨n', hn', hdeals', hrows'⟩ := h.state x hx'
    by_cases hxm : x = m.shuffle
    · subst hxm
      refine ⟨n + 1, Function.update_self .., fun k hk => ?_, fun hp k hk => ?_⟩
      · by_cases hkn : k = n
        · subst hkn
          exact ⟨_, List.mem_append_right _ (by rw [hroom]; exact List.mem_singleton_self _)⟩
        · obtain ⟨hands, hh⟩ := hdeals k (by omega)
          exact ⟨hands, List.mem_append_left _ hh⟩
      · by_cases hkn : k = n
        · subst hkn
          exact ⟨false, (hmem _).2 (.inr ⟨by rw [← hm]; exact hp, rfl⟩)⟩
        · obtain ⟨shown, hh⟩ := hrows hp k (by omega)
          exact ⟨shown, (hmem _).2 (.inl hh)⟩
    · refine ⟨n', ?_, fun k hk => ?_, fun hp k hk => ?_⟩
      · show Function.update s.shuffles m.shuffle _ x = _
        rw [Function.update_of_ne hxm]
        exact hn'
      · obtain ⟨hands, hh⟩ := hdeals' k hk
        exact ⟨hands, List.mem_append_left _ hh⟩
      · obtain ⟨shown, hh⟩ := hrows' hp k hk
        exact ⟨shown, (hmem _).2 (.inl hh)⟩
  · rcases (hmem row).1 hrow with hrow | ⟨-, rfl⟩
    · obtain ⟨x, hx', n', hn', k, hk, shown, rfl⟩ := h.rows row hrow
      by_cases hxm : x = m.shuffle
      · subst hxm
        have hlt : k < n := h.index_lt hx hn hrow rfl
        exact ⟨m.shuffle, hx, n + 1, Function.update_self .., k, by omega, shown, rfl⟩
      · refine ⟨x, hx', n', ?_, k, hk, shown, rfl⟩
        show Function.update s.shuffles m.shuffle _ x = _
        rw [Function.update_of_ne hxm]
        exact hn'
    · exact ⟨m.shuffle, hx, n + 1, Function.update_self .., n, by omega, false, rfl⟩
  · obtain ⟨hxn, hr, n', hpos, hn'⟩ := h.byRoom i x hb
    refine ⟨hxn, hr, ?_⟩
    by_cases hxm : x = m.shuffle
    · subst hxm
      exact ⟨n + 1, by omega, Function.update_self ..⟩
    · refine ⟨n', hpos, ?_⟩
      show Function.update s.shuffles m.shuffle _ x = _
      rw [Function.update_of_ne hxm]
      exact hn'
  · have hc := (h.sound m.shuffle hx).2.2
    rw [hroom] at hc
    exact hc

/-! ## The other steps -/

/-- What is neither dealt, sent nor issued does not matter, and a match may end. -/
theorem Kept.frame (h : Kept H b s) {live : ℕ → Option FairMatch} {countdowns : ℕ → Bool} {finalized : List MatchId}
    {endings : ℕ → Option FairEnding} {nextEnding : ℕ} {exits : List (FairMatch × EndExit)}
    (hl : ∀ i m, live i = some m → s.live i = some m) :
    Kept H b { s with live, countdowns, finalized, endings, nextEnding, exits } :=
  { h with
    issued := { h.issued with }
    live := fun i m hm => h.live i m (hl i m hm)
    gone := fun i hc => by
      refine ⟨Option.eq_none_iff_forall_ne_some.mpr fun m hm => ?_, (h.gone i hc).2⟩
      have hnone := (h.gone i hc).1
      rw [hl i m hm] at hnone
      cases hnone }

theorem Kept.withFairness (h : Kept H b s) {f : FairnessCoordinator}
    (hp : ∀ i seed, truthy (f.pendingSeeds i) = some seed → truthy (s.fairness.pendingSeeds i) = some seed)
    (hb : ∀ i x, f.byRoom i = some x → s.fairness.byRoom i = some x) : Kept H b { s with fairness := f } :=
  { h with
    issued := { h.issued with }
    pending := fun i seed hs => h.pending i seed (hp i seed hs)
    byRoom := fun i x hx => h.byRoom i x (hb i x hx) }

/-- A commitment is published. -/
theorem note_commit_kept (h : Kept H b s) (hash : String) : Kept H b (s.note (.commit i hash)) :=
  { h with
    issued := { h.issued with }
    sound := fun x hx => ⟨(h.sound x hx).1, (h.sound x hx).2.1, List.mem_append_left _ (h.sound x hx).2.2⟩
    state := fun x hx => by
      obtain ⟨n, hn, hdeals, hrows⟩ := h.state x hx
      refine ⟨n, hn, fun k hk => ?_, hrows⟩
      obtain ⟨hands, hh⟩ := hdeals k hk
      exact ⟨hands, List.mem_append_left _ hh⟩
    pending := fun i seed hs => List.mem_append_left _ (h.pending i seed hs)
    told := justified_append.2 ⟨h.told, trivial⟩ }

theorem update_none_some {α : Type} {f : ℕ → Option α} {a : α} (h : Function.update f i none j = some a) :
    f j = some a := by
  by_cases hj : j = i
  · rw [hj, Function.update_self] at h
    cases h
  · rw [Function.update_of_ne hj] at h
    exact h

theorem update_some_cases {α : Type} {f : ℕ → Option α} {a c : α} (h : Function.update f i (some a) j = some c) :
    j = i ∧ c = a ∨ j ≠ i ∧ f j = some c := by
  by_cases hj : j = i
  · rw [hj, Function.update_self, Option.some.injEq] at h
    exact .inl ⟨hj, h.symm⟩
  · exact .inr ⟨hj, (Function.update_of_ne hj ..).symm.trans h⟩

/-- A countdown that stops keeps the invariant. -/
theorem clearCountdown_kept (h : Kept H b s) (i : ℕ) : Kept H b (s.clearCountdown i) := by
  refine Kept.frame (Kept.withFairness h (f := s.fairness.abandonServerSeed i) (fun j seed hs => ?_)
    fun _ _ => id) fun _ _ => id
  by_cases hj : j = i
  · rw [hj] at hs
    unfold FairnessCoordinator.abandonServerSeed at hs
    simp only [Function.update_self] at hs
    cases hs
  · unfold FairnessCoordinator.abandonServerSeed at hs
    simp only [Function.update_of_ne hj] at hs
    exact hs

/-- A room that closes loses its match id and its match. -/
theorem closeRoom_kept (h : Kept H b s) (i : ℕ) : Kept H b (s.closeRoom i) := by
  have hkept := clearCountdown_kept h i
  exact
    { hkept with
      issued := { hkept.issued with ids := fun j id hj => hkept.issued.ids j id (update_none_some hj) }
      live := fun j m hm => hkept.live j m (update_none_some hm)
      gone := fun j hc => by
        by_cases hj : j = i
        · rw [hj]
          exact ⟨Function.update_self .., Function.update_self ..⟩
        · have hc' : s.closed j = true := (Function.update_of_ne hj ..).symm.trans hc
          obtain ⟨hlive, hid⟩ := h.gone j hc'
          exact ⟨(Function.update_of_ne hj ..).trans hlive, (Function.update_of_ne hj ..).trans hid⟩ }

theorem truthy_eq {seed seed' : String} (h : truthy (some seed) = some seed') : seed = seed' := by
  unfold truthy at h
  simp only at h
  split_ifs at h
  exact Option.some.inj h

theorem foldl_dropClientSeed (us : List User) : ∀ f : FairnessCoordinator,
    (us.foldl FairnessCoordinator.dropClientSeed f).byRoom = f.byRoom ∧
      (us.foldl FairnessCoordinator.dropClientSeed f).pendingSeeds = f.pendingSeeds := by
  induction us with
  | nil => exact fun f => ⟨rfl, rfl⟩
  | cons u us ih => exact fun f => ih (f.dropClientSeed u)

/-- A countdown that starts keeps it. -/
theorem maybeStartCountdown_kept (h : Kept H b s) (i : ℕ) (allReady : Bool) (seats : List (Option User))
    (bytes : Vector UInt8 32) : Kept H b (s.maybeStartCountdown H i allReady seats bytes) := by
  unfold maybeStartCountdown
  split
  · exact clearCountdown_kept h i
  split
  · exact h
  simp only
  generalize hf : (seats.filterMap id).foldl FairnessCoordinator.dropClientSeed
    (s.fairness.commitServerSeed i (hex bytes.toList)) = f
  obtain ⟨hbyRoom, hpending⟩ := foldl_dropClientSeed (seats.filterMap id) (s.fairness.commitServerSeed i (hex bytes.toList))
  rw [hf] at hbyRoom hpending
  have hnote := note_commit_kept (i := i) h (H.sha256Hex (hex bytes.toList))
  have hkept : Kept H b { s.note (.commit i (H.sha256Hex (hex bytes.toList))) with fairness := f } :=
    { hnote with
      issued := { hnote.issued with }
      pending := fun j seed hs => by
        rw [hpending] at hs
        unfold FairnessCoordinator.commitServerSeed at hs
        by_cases hj : j = i
        · rw [hj] at hs ⊢
          simp only [Function.update_self] at hs
          rw [← truthy_eq hs]
          exact List.mem_append_right _ (List.mem_singleton_self _)
        · simp only [Function.update_of_ne hj] at hs
          exact hnote.pending j seed hs
      byRoom := fun j x hx => hnote.byRoom j x (by rw [hbyRoom] at hx; exact hx) }
  exact hkept.frame fun _ _ => id

theorem onClientSeed_kept (h : Kept H b s) (u : User) (seed : String) : Kept H b (s.onClientSeed u seed) := by
  unfold onClientSeed
  split
  · exact h.withFairness (fun _ _ => id) fun _ _ => id
  · exact h

/-! ## A start -/

/-- The end of a countdown gives out one id. -/
theorem onCountdown_issued (h : Issued b s) (i : ℕ) (allReady : Bool) : Issued b (s.onCountdown i allReady) := by
  unfold onCountdown
  split
  · exact h
  simp only
  split
  · exact { h with }
  have hmono : ∀ j, s.matchSeq j ≤ Function.update s.matchSeq i (s.matchSeq i + 1) j := by
    intro j
    by_cases hj : j = i
    · rw [hj, Function.update_self]
      omega
    · rw [Function.update_of_ne hj]
  have hself : Function.update s.matchSeq i (s.matchSeq i + 1) i = s.matchSeq i + 1 := Function.update_self ..
  -- the new id is none of those that have been issued
  have hfresh : ∀ id : MatchId, id.seq ≤ s.matchSeq id.roomId → id ≠ ⟨0, i, s.matchSeq i + 1⟩ := by
    intro id hle heq
    rw [heq] at hle
    simp only at hle
    omega
  have hnew : ∀ k x, s.starts k = some x → x.matchId ≠ ⟨0, i, s.matchSeq i + 1⟩ := by
    intro k x hk
    obtain ⟨hroom, hseq, -⟩ := h.starts k x hk
    exact hfresh _ (hroom ▸ hseq)
  refine ⟨fun j id hj => ?_, fun k x hk => ?_, fun k k' x x' hk hk' heq => ?_, fun k hk => ?_, fun x hx => ?_, h.inj⟩
  · by_cases hji : j = i
    · simp only [hji, Function.update_self, Option.some.injEq] at hj
      rw [← hj, hji]
      exact ⟨rfl, hself.ge⟩
    · simp only [Function.update_of_ne hji] at hj
      obtain ⟨hroom, hseq⟩ := h.ids j id hj
      exact ⟨hroom, hseq.trans (hmono j)⟩
  · simp only at hk ⊢
    by_cases hkn : k = s.nextStart
    · rw [hkn, Function.update_self] at hk
      cases hk
      exact ⟨rfl, by rw [hself], fun y hy => hfresh _ (h.dealt y hy)⟩
    · rw [Function.update_of_ne hkn] at hk
      obtain ⟨hroom, hseq, hne⟩ := h.starts k x hk
      exact ⟨hroom, hseq.trans (hmono _), hne⟩
  · simp only at hk hk'
    by_cases hkn : k = s.nextStart
    · by_cases hkn' : k' = s.nextStart
      · rw [hkn, hkn']
      · rw [hkn, Function.update_self] at hk
        rw [Function.update_of_ne hkn'] at hk'
        cases hk
        exact absurd heq.symm (hnew k' x' hk')
    · rw [Function.update_of_ne hkn] at hk
      by_cases hkn' : k' = s.nextStart
      · rw [hkn', Function.update_self] at hk'
        cases hk'
        exact absurd heq (hnew k x hk)
      · rw [Function.update_of_ne hkn'] at hk'
        exact h.once k k' x x' hk hk' heq
  · have hkn : k ≠ s.nextStart := by
      simp only at hk
      omega
    show Function.update s.starts s.nextStart _ k = none
    rw [Function.update_of_ne hkn]
    simp only at hk
    exact h.nextStart k (by omega)
  · exact (h.dealt x hx).trans (hmono _)

/-- The end of a countdown keeps the invariant. -/
theorem onCountdown_kept (h : Kept H b s) (i : ℕ) (allReady : Bool) : Kept H b (s.onCountdown i allReady) := by
  have hissued := onCountdown_issued h.issued i allReady
  unfold onCountdown at hissued ⊢
  split
  · exact h
  rename_i hcount
  rw [if_neg hcount] at hissued
  simp only at hissued ⊢
  split
  · exact { h with issued := { h.issued with } }
  rename_i hready
  rw [if_neg hready] at hissued
  refine { h with issued := hissued, gone := fun j hc => ?_ }
  have hj : j ≠ i := by
    rintro rfl
    have hclosed : s.closed j = true := hc
    simp [hclosed] at hready
  exact ⟨(h.gone j hc).1, (Function.update_of_ne hj ..).trans (h.gone j hc).2⟩

/-- A start that is over leaves the ids given out. -/
theorem endStart_issued (h : Issued b s) (k : ℕ) : Issued b (s.endStart k) :=
  { h with
    starts := fun j x hx => h.starts j x (update_none_some hx)
    once := fun j j' x x' hx hx' => h.once j j' x x' (update_none_some hx) (update_none_some hx')
    nextStart := fun j hj => by
      show Function.update s.starts k none j = none
      by_cases hjk : j = k
      · rw [hjk, Function.update_self]
      · rw [Function.update_of_ne hjk]
        exact h.nextStart j hj }

theorem endStart_kept (h : Kept H b s) (k : ℕ) : Kept H b (s.endStart k) :=
  { h with issued := endStart_issued h.issued k }

/-! ## The first deal -/

/-- The shuffle of a start that goes on to its match, before it deals. -/
def register (s : FairServer) (k : ℕ) (x : FairStart) (fair : FairShuffle) (practice : Bool) : FairServer :=
  { s with
    shuffles := Function.update s.shuffles s.nextShuffle (some fair)
    nextShuffle := s.nextShuffle + 1
    live := Function.update s.live x.roomId (some { matchId := x.matchId, shuffle := s.nextShuffle, practice })
    starts := Function.update s.starts k none }

/-- The match that a start has led to, with its first game. -/
def firstDeal (H : Hashes) (s : FairServer) (k : ℕ) (x : FairStart) (fair : FairShuffle) (practice : Bool) : FairServer :=
  { s.register k x (fair.played 1) practice with
    notes := s.notes ++ [.deal x.roomId s.nextShuffle 0 (fair.hands H 0)]
    games := if practice then s.games else s.games.recordGame (fair.record x.matchId 0)
    fairness := s.fairness.recordDeal x.roomId s.nextShuffle }

/-- A seed that counts is not empty. -/
theorem truthy_length {o : Option String} {seed : String} (h : truthy o = some seed) : 0 < seed.length := by
  unfold truthy at h
  split at h
  · split_ifs at h with hne
    cases h
    refine Nat.pos_of_ne_zero fun h0 => hne ?_
    exact String.length_eq_zero_iff.1 h0
  · cases h

/-- The seed of a deal has been committed to by then. -/
theorem committedSeed_spec (h : Kept H b s) (i : ℕ) (bytes : DealBytes) : ∃ seed s₁, s.committedSeed H i bytes = (seed, s₁) ∧
    0 < seed.length ∧ .commit i (H.sha256Hex seed) ∈ s₁.notes ∧ (s₁ = s ∨ ∃ hash, s₁ = s.note (.commit i hash)) := by
  unfold committedSeed
  cases hp : truthy (s.fairness.pendingSeeds i) with
  | some seed => exact ⟨seed, s, rfl, truthy_length hp, h.pending i seed hp, .inl rfl⟩
  | none =>
    refine ⟨_, _, rfl, ?_, List.mem_append_right _ (List.mem_singleton_self _), .inr ⟨_, rfl⟩⟩
    rw [hex_length, Vector.length_toList]
    omega

/-- A start that may go on, with the shuffle it makes. -/
theorem deal_starts {y : FairStart} (hk : s.starts k = some y) (hl : s.live y.roomId = none)
    (hopen : s.closed y.roomId = false) (room : FairRoom) (bytes : DealBytes) {seed : String} {s₁ : FairServer}
    (hseed : s.committedSeed H y.roomId bytes = (seed, s₁)) :
    s.deal H k room true bytes = s₁.firstDeal H k y (H.createFairShuffle (playersForType room.type)
      (some (s.mixedSeed H room seed bytes)) (some seed) bytes.serverSeed bytes.combined) room.practice := by
  have hsame : s₁.nextShuffle = s.nextShuffle ∧ s₁.shuffles = s.shuffles := by
    unfold committedSeed at hseed
    split at hseed
    · cases hseed
      exact ⟨rfl, rfl⟩
    · cases hseed
      exact ⟨rfl, rfl⟩
  unfold deal
  simp only [hk, hseed, hl, hopen, and_self, if_true]
  generalize hfair : H.createFairShuffle (playersForType room.type) (some (s.mixedSeed H room seed bytes)) (some seed)
    bytes.serverSeed bytes.combined = fair
  have hzero : fair = fair.played 0 := by
    rw [← hfair]
    rfl
  rw [dealNext_eq fair 0 (by rw [← hzero]; exact Function.update_self ..)]
  unfold firstDeal register endStart
  simp only [hsame.1, Function.update_idem]

/-- **What a start does when it goes on.** -/
theorem deal_cases (h : Kept H b s) (k : ℕ) (room : FairRoom) (starts : Bool) (bytes : DealBytes) :
    s.deal H k room starts bytes = s ∨ ∃ x s₁, s.starts k = some x ∧ (s₁ = s ∨ ∃ hash, s₁ = s.note (.commit x.roomId hash)) ∧
      (s.deal H k room starts bytes = s₁.endStart k ∨ ∃ (fair : FairShuffle) (practice : Bool), fair.Sound H ∧
        s.closed x.roomId = false ∧ .commit x.roomId fair.serverSeedHash ∈ s₁.notes ∧
        s.deal H k room starts bytes = s₁.firstDeal H k x fair practice) := by
  cases hk : s.starts k with
  | none =>
    left
    unfold deal
    rw [hk]
  | some x =>
    obtain ⟨seed, s₁, hseed, hlen, hc, hs₁⟩ := committedSeed_spec h x.roomId bytes
    refine .inr ⟨x, s₁, rfl, hs₁, ?_⟩
    by_cases hgo : starts = true ∧ s.live x.roomId = none ∧ s.closed x.roomId = false
    · obtain ⟨rfl, hl, hopen⟩ := hgo
      refine .inr ⟨_, room.practice, FairShuffle.sound_create .., hopen, ?_, deal_starts hk hl hopen room bytes hseed⟩
      show .commit x.roomId (H.sha256Hex (seedOr (some seed) bytes.serverSeed)) ∈ s₁.notes
      have hor : seedOr (some seed) bytes.serverSeed = seed := if_pos hlen
      rw [hor]
      exact hc
    · left
      unfold deal
      simp only [hk, hseed, if_neg hgo]

/-- A shuffle is registered for the id it was made for. -/
theorem register_issued (h : Issued b s) {x : FairStart} (hk : s.starts k = some x) (hb : ∀ y < s.nextShuffle, b' y = b y)
    (hid : (b' s.nextShuffle).matchId = x.matchId) (fair : FairShuffle) (practice : Bool) :
    Issued b' (s.register k x fair practice) := by
  obtain ⟨hroom, hseq, hne⟩ := h.starts k x hk
  have hcases : ∀ y, y < s.nextShuffle + 1 → y < s.nextShuffle ∧ (b' y) = b y ∨ y = s.nextShuffle := by
    intro y hy
    by_cases hlt : y < s.nextShuffle
    · exact .inl ⟨hlt, hb y hlt⟩
    · exact .inr (by omega)
  have hstill := endStart_issued h k
  refine ⟨h.ids, fun j z hz => ?_, hstill.once, hstill.nextStart, fun y hy => ?_, fun y hy z hz heq => ?_⟩
  · obtain ⟨hzroom, hzseq, hzne⟩ := hstill.starts j z hz
    refine ⟨hzroom, hzseq, fun y hy => ?_⟩
    rcases hcases y hy with ⟨hlt, heq⟩ | rfl
    · rw [heq]
      exact hzne y hlt
    · rw [hid]
      intro heq
      have hz' : s.starts j = some z := update_none_some hz
      have hjk := h.once k j x z hk hz' heq
      rw [← hjk] at hz
      have hgone : (s.register k x fair practice).starts k = none := Function.update_self ..
      rw [hgone] at hz
      cases hz
  · show (b' y).matchId.seq ≤ s.matchSeq (b' y).roomId
    rcases hcases y hy with ⟨hlt, heq⟩ | rfl
    · rw [heq]
      exact h.dealt y hlt
    · unfold Birth.roomId
      rw [hid, hroom]
      exact hseq
  · rcases hcases y hy with ⟨hylt, hyeq⟩ | rfl
    · rcases hcases z hz with ⟨hzlt, hzeq⟩ | rfl
      · rw [hyeq, hzeq] at heq
        exact h.inj y hylt z hzlt heq
      · rw [hyeq, hid] at heq
        exact absurd heq (hne y hylt)
    · rcases hcases z hz with ⟨hzlt, hzeq⟩ | rfl
      · rw [hzeq, hid] at heq
        exact absurd heq.symm (hne z hzlt)
      · rfl

/-- A new shuffle, for a new match. -/
theorem register_kept (h : Kept H b s) {x : FairStart} (hk : s.starts k = some x) {fair : FairShuffle} (hsound : fair.Sound H)
    (hopen : s.closed x.roomId = false) (hcommit : .commit x.roomId fair.serverSeedHash ∈ s.notes) (practice : Bool) :
    Kept H (Function.update b s.nextShuffle ⟨⟨x.matchId, s.nextShuffle, practice⟩, fair⟩)
      (s.register k x (fair.played 0) practice) := by
  obtain ⟨hroom, -, hne⟩ := h.issued.starts k x hk
  have hself : Function.update b s.nextShuffle ⟨⟨x.matchId, s.nextShuffle, practice⟩, fair⟩ s.nextShuffle =
    ⟨⟨x.matchId, s.nextShuffle, practice⟩, fair⟩ := Function.update_self ..
  have hold : ∀ y < s.nextShuffle, Function.update b s.nextShuffle ⟨⟨x.matchId, s.nextShuffle, practice⟩, fair⟩ y = b y :=
    fun y hy => Function.update_of_ne (by omega) ..
  generalize Function.update b s.nextShuffle ⟨⟨x.matchId, s.nextShuffle, practice⟩, fair⟩ = b' at hself hold ⊢
  -- the shuffles are the old ones and the new one
  have hcases : ∀ y, y < s.nextShuffle + 1 → y < s.nextShuffle ∨ y = s.nextShuffle := fun y hy => by omega
  have hkeep : ∀ y < s.nextShuffle, (s.register k x (fair.played 0) practice).shuffles y = s.shuffles y :=
    fun y hy => Function.update_of_ne (by omega) ..
  refine
    { issued := register_issued h.issued hk hold (by rw [hself]; rfl) _ _
      sound := fun y hy => ?_
      state := fun y hy => ?_
      rows := fun row hrow => ?_
      pending := h.pending
      byRoom := fun j y hy => ?_
      live := fun j m hm => ?_
      gone := fun j hc => ?_
      told := h.told.mono fun pre n _ _ => Told.grow hold (Nat.le_succ _) }
  · rcases hcases y hy with hlt | rfl
    · rw [hold y hlt]
      exact h.sound y hlt
    · rw [hself]
      exact ⟨hsound, rfl, by
        show .commit x.matchId.roomId fair.serverSeedHash ∈ s.notes
        rw [hroom]
        exact hcommit⟩
  · rcases hcases y hy with hlt | rfl
    · rw [hold y hlt, hkeep y hlt]
      exact h.state y hlt
    · rw [hself]
      exact ⟨0, Function.update_self .., fun k hk => absurd hk (Nat.not_lt_zero k), fun _ k hk => absurd hk (Nat.not_lt_zero k)⟩
  · obtain ⟨y, hy, n, hn, hrest⟩ := h.rows row hrow
    refine ⟨y, Nat.lt_succ_of_lt hy, n, ?_, ?_⟩
    · rw [hold y hy, hkeep y hy]
      exact hn
    · rw [hold y hy]
      exact hrest
  · obtain ⟨hlt, hj, n, hpos, hn⟩ := h.byRoom j y hy
    refine ⟨Nat.lt_succ_of_lt hlt, ?_, n, hpos, ?_⟩
    · rw [hold y hlt]
      exact hj
    · rw [hold y hlt, hkeep y hlt]
      exact hn
  · by_cases hj : j = x.roomId
    · rw [hj] at hm ⊢
      -- the room plays the new match
      have hnow : (s.register k x (fair.played 0) practice).live x.roomId = some ⟨x.matchId, s.nextShuffle, practice⟩ :=
        Function.update_self ..
      rw [hnow] at hm
      cases hm
      exact ⟨Nat.lt_succ_self _, by rw [hself], hroom⟩
    · have hnow : (s.register k x (fair.played 0) practice).live j = s.live j := Function.update_of_ne hj ..
      rw [hnow] at hm
      obtain ⟨hlt, hmatch, hmroom⟩ := h.live j m hm
      exact ⟨Nat.lt_succ_of_lt hlt, by rw [hold _ hlt]; exact hmatch, hmroom⟩
  · have hj : j ≠ x.roomId := by
      rintro rfl
      rw [show s.closed x.roomId = true from hc] at hopen
      cases hopen
    exact ⟨(Function.update_of_ne hj ..).trans (h.gone j hc).1, (h.gone j hc).2⟩

theorem firstDeal_eq (x : FairStart) (fair : FairShuffle) (practice : Bool) : s.firstDeal H k x fair practice =
    { (s.register k x (fair.played 0) practice).dealNext H x.roomId ⟨x.matchId, s.nextShuffle, practice⟩ with
      fairness := s.fairness.recordDeal x.roomId s.nextShuffle } := by
  rw [dealNext_eq fair 0 (Function.update_self ..)]
  unfold firstDeal register
  simp only [Function.update_idem]

/-- The first deal of a match keeps the invariant. -/
theorem firstDeal_kept (h : Kept H b s) {x : FairStart} (hk : s.starts k = some x) {fair : FairShuffle} (hsound : fair.Sound H)
    (hopen : s.closed x.roomId = false) (hcommit : .commit x.roomId fair.serverSeedHash ∈ s.notes) (practice : Bool) :
    Kept H (Function.update b s.nextShuffle ⟨⟨x.matchId, s.nextShuffle, practice⟩, fair⟩)
      (s.firstDeal H k x fair practice) := by
  have hreg := register_kept h hk hsound hopen hcommit practice
  have hself : Function.update b s.nextShuffle ⟨⟨x.matchId, s.nextShuffle, practice⟩, fair⟩ s.nextShuffle =
    ⟨⟨x.matchId, s.nextShuffle, practice⟩, fair⟩ := Function.update_self ..
  have hroom := (h.issued.starts k x hk).1
  generalize Function.update b s.nextShuffle ⟨⟨x.matchId, s.nextShuffle, practice⟩, fair⟩ = b' at hreg hself ⊢
  have hdeal := dealNext_kept (m := ⟨x.matchId, s.nextShuffle, practice⟩) hreg (Nat.lt_succ_self _) (by rw [hself]) hroom
  rw [firstDeal_eq]
  have hbyRoom : ((s.register k x (fair.played 0) practice).dealNext H x.roomId ⟨x.matchId, s.nextShuffle, practice⟩).fairness =
      s.fairness ∧
      ((s.register k x (fair.played 0) practice).dealNext H x.roomId
        ⟨x.matchId, s.nextShuffle, practice⟩).shuffles s.nextShuffle =
        some (fair.played 1) := by
    rw [dealNext_eq fair 0 (Function.update_self ..)]
    exact ⟨rfl, Function.update_self ..⟩
  refine
    { hdeal with
      issued := { hdeal.issued with }
      pending := fun j seed hs => ?_
      byRoom := fun j y hy => ?_ }
  · by_cases hj : j = x.roomId
    · rw [hj] at hs
      unfold FairnessCoordinator.recordDeal at hs
      simp only [Function.update_self] at hs
      cases hs
    · unfold FairnessCoordinator.recordDeal at hs
      simp only [Function.update_of_ne hj] at hs
      refine hdeal.pending j seed ?_
      rw [hbyRoom.1]
      exact hs
  · by_cases hj : j = x.roomId
    · rw [hj] at hy ⊢
      unfold FairnessCoordinator.recordDeal at hy
      simp only [Function.update_self] at hy
      cases hy
      refine ⟨?_, ?_, 1, Nat.one_pos, ?_⟩
      · show s.nextShuffle < _
        rw [dealNext_eq fair 0 (Function.update_self ..)]
        exact Nat.lt_succ_self _
      · rw [hself]
        exact hroom
      · rw [hself]
        exact hbyRoom.2
    · unfold FairnessCoordinator.recordDeal at hy
      simp only [Function.update_of_ne hj] at hy
      refine hdeal.byRoom j y ?_
      rw [hbyRoom.1]
      exact hy

/-! ## The reveal -/

theorem revealFair_none (h : s.fairness.byRoom i = none) : s.revealFair i = s := by
  unfold revealFair
  rw [h]

/-- The reveal of a room's shuffle is published. -/
theorem revealFair_eq {fair : FairShuffle} (hx : s.fairness.byRoom i = some x) (hf : s.shuffles x = some fair) :
    s.revealFair i =
      { s with
        notes := s.notes ++ [.reveal i x fair.reveal (s.matchIds i)]
        games := (s.matchIds i).elim s.games s.games.revealMatch
        fairness := s.fairness.clearShuffle i } := by
  unfold revealFair
  simp only [hx, hf]

/-- A reveal marks rows, and does nothing else to them. -/
theorem mem_revealed (s : FairServer) (o : Option MatchId) {row : GameRecord MatchId} :
    row ∈ (o.elim s.games s.games.revealMatch).games ↔
      ∃ r ∈ s.games.games, row = if some r.matchId = o then { r with revealed := true } else r := by
  cases o with
  | none => simp
  | some id => simp [ReplayStore.mem_revealMatch]

/-- A reveal keeps the invariant. -/
theorem revealFair_kept (h : Kept H b s) (i : ℕ) : Kept H b (s.revealFair i) := by
  cases hx : s.fairness.byRoom i with
  | none =>
    rw [revealFair_none hx]
    exact h
  | some x =>
    obtain ⟨hlt, hroom, n, hpos, hn⟩ := h.byRoom i x hx
    rw [revealFair_eq hx hn]
    have hrow : ∀ (y k : ℕ) (shown : Bool), ∃ shown', (if some ((b y).row k shown).matchId = s.matchIds i then
        { (b y).row k shown with revealed := true } else (b y).row k shown) = (b y).row k shown' := by
      intro y k shown
      split_ifs
      · exact ⟨true, rfl⟩
      · exact ⟨shown, rfl⟩
    refine
      { issued := { h.issued with }
        sound := fun y hy => ⟨(h.sound y hy).1, (h.sound y hy).2.1, List.mem_append_left _ (h.sound y hy).2.2⟩
        state := fun y hy => ?_
        rows := fun row hr => ?_
        pending := fun j seed hs => List.mem_append_left _ (h.pending j seed hs)
        byRoom := fun j y hy => h.byRoom j y (update_none_some hy)
        live := h.live
        gone := h.gone
        told := justified_append.2 ⟨h.told, hlt, hroom, n, hpos, rfl, ?_⟩ }
    · obtain ⟨n', hn', hdeals, hrows⟩ := h.state y hy
      refine ⟨n', hn', fun k hk => ?_, fun hp k hk => ?_⟩
      · obtain ⟨hands, hh⟩ := hdeals k hk
        exact ⟨hands, List.mem_append_left _ hh⟩
      · obtain ⟨shown, hr⟩ := hrows hp k hk
        obtain ⟨shown', heq⟩ := hrow y k shown
        exact ⟨shown', (mem_revealed s _).2 ⟨_, hr, heq.symm⟩⟩
    · obtain ⟨r, hr', rfl⟩ := (mem_revealed s _).1 hr
      obtain ⟨y, hy, n', hn', k, hk, shown, rfl⟩ := h.rows r hr'
      obtain ⟨shown', heq⟩ := hrow y k shown
      exact ⟨y, hy, n', hn', k, hk, shown', heq⟩
    · intro k hk
      obtain ⟨n', hn', hdeals, -⟩ := h.state x hlt
      rw [hn] at hn'
      have hlen := congrArg (fun o : Option FairShuffle => o.map fun fair => fair.games.length) hn'
      simp only [Option.map_some, FairShuffle.games_played, Option.some.injEq] at hlen
      rw [← hroom]
      exact hdeals k (by omega)

/-! ## The end of a match -/

/-- How the end of the match `m` in room `i` may go on: it waits, or it returns. -/
inductive Ends (i : ℕ) (m : FairMatch) (s : FairServer) : Bool → FairServer → Prop
  | waits (stage : FairStage) : Ends i m s false (s.await i m stage)
  | publishes (e : EndExit) (he : e ∈ if s.closed i then [.voidedClosed] else [.voided, .announced]) :
    Ends i m s true ((s.revealFair i).exit m e)
  | quits (e : EndExit) (he : e ∈ [.refundFailed, .settledElsewhere, .settleFailed, .noScoreboard]) :
    Ends i m s false (s.exit m e)

theorem void_ends (s : FairServer) (i : ℕ) (m : FairMatch) : Ends i m s true (s.void i m) := by
  unfold void
  cases hc : s.closed i with
  | true => exact .publishes .voidedClosed (by rw [hc]; decide)
  | false => exact .publishes .voided (by rw [hc]; decide)

/-- Only a room that is there has a score board. -/
theorem announce_ends {room : EndRoom} (hopen : room.scoreboard = true → s.closed i = false) :
    Ends i m s room.scoreboard (s.announce i m room) := by
  unfold announce
  cases hb : room.scoreboard with
  | true => exact .publishes .announced (by rw [hopen hb]; decide)
  | false => exact .quits .noScoreboard (by decide)

theorem afterPayout_ends {room : EndRoom} (hopen : room.scoreboard = true → s.closed i = false) :
    Ends i m s (room.tournament && room.scoreboard) (s.afterPayout i m room) := by
  unfold afterPayout
  cases room.tournament with
  | true => exact announce_ends hopen
  | false => exact .waits .recording

theorem endRoom_scoreboard {room : EndRoom} (h : (s.endRoom i room).scoreboard = true) : s.closed i = false := by
  unfold endRoom at h
  by_contra hc
  rw [Bool.eq_true_of_not_eq_false hc] at h
  cases h

/-- An end of a match goes on to its last line. -/
theorem resumeEnding_ends {y : FairEnding} (hk : s.endings k = some y) (answer : EndAnswer) (room : EndRoom) :
    Ends y.roomId y.match_ (s.endEnding k) (y.stage.publishes answer (s.endRoom y.roomId room))
      (s.resumeEnding k answer room) := by
  unfold resumeEnding
  rw [hk]
  obtain ⟨i, m, stage⟩ := y
  have hopen : (s.endRoom i room).scoreboard = true → (s.endEnding k).closed i = false := endRoom_scoreboard
  cases stage with
  | refunding =>
    cases answer with
    | threw => exact .quits .refundFailed (by decide)
    | done => exact void_ends _ i m
    | null => exact void_ends _ i m
  | settling =>
    cases answer with
    | done => exact afterPayout_ends hopen
    | null => exact .quits .settledElsewhere (by decide)
    | threw => exact .quits .settleFailed (by decide)
  | recording => exact announce_ends hopen
  | voiding =>
    cases answer with
    | threw => exact .quits .refundFailed (by decide)
    | done => exact void_ends _ i m
    | null => exact void_ends _ i m

/-- A match that is no longer live, with what is finalized by then. -/
def ended (s : FairServer) (i : ℕ) (finalized : List MatchId) : FairServer :=
  { s with live := Function.update s.live i none, finalized }

/-- The ids that are finalized once the match of room `i` is. -/
def claimed (s : FairServer) (i : ℕ) : List MatchId :=
  let all := s.finalized ++ [s.finalizeKey i]
  if 10000 < all.length then all.tail else all

theorem claimFinalize_eq (s : FairServer) (i : ℕ) : s.claimFinalize i =
    if s.finalizeKey i ∈ s.finalized then none else some { s with finalized := s.claimed i } := rfl

/-- A match that is over is ended once, or was ended before. -/
theorem matchEnded_cases (h : Kept H b s) (money : Bool) (i : ℕ) (won : Bool) (room : EndRoom) :
    s.live i = none ∧ s.settleAndEmitMatchEnd money i won room = s ∨ ∃ m, s.live i = some m ∧
      (s.finalizeKey i ∈ s.finalized ∧
          s.settleAndEmitMatchEnd money i won room = (s.ended i s.finalized).exit m .alreadyFinalized ∨
        s.finalizeKey i ∉ s.finalized ∧
          ∃ p, Ends i m (s.ended i (s.claimed i)) p (s.settleAndEmitMatchEnd money i won room)) := by
  unfold settleAndEmitMatchEnd
  cases hl : s.live i with
  | none => exact .inl ⟨rfl, rfl⟩
  | some m =>
    refine .inr ⟨m, rfl, ?_⟩
    have hclaim : claimFinalize { s with live := Function.update s.live i none } i =
        if s.finalizeKey i ∈ s.finalized then none else some (s.ended i (s.claimed i)) := rfl
    simp only [hclaim]
    by_cases hin : s.finalizeKey i ∈ s.finalized
    · left
      simp only [hin, if_true]
      exact ⟨trivial, rfl⟩
    · right
      simp only [hin, if_false, not_false_eq_true, true_and]
      split_ifs
      · exact ⟨false, .waits .refunding⟩
      · exact ⟨true, void_ends _ i m⟩
      · exact ⟨false, .waits .settling⟩
      · exact ⟨_, afterPayout_ends fun _ => h.open hl⟩

/-- A void ends a live match, or does nothing. -/
theorem adminVoid_cases (money : Bool) (s : FairServer) (i : ℕ) : s.adminVoidMatch money i = s ∨ ∃ m, s.live i = some m ∧
    s.finalizeKey i ∉ s.finalized ∧ ∃ p, Ends i m (s.ended i (s.claimed i)) p (s.adminVoidMatch money i) := by
  unfold adminVoidMatch
  cases hl : s.live i with
  | none => exact .inl rfl
  | some m =>
    rw [claimFinalize_eq]
    by_cases hin : s.finalizeKey i ∈ s.finalized
    · left
      simp only [hin, if_true]
    · right
      refine ⟨m, rfl, hin, ?_⟩
      simp only [hin, if_false]
      split_ifs
      · exact ⟨false, .waits .voiding⟩
      · exact ⟨true, void_ends _ i m⟩

theorem Ends.kept (h : Kept H b s) {p : Bool} (he : Ends i m s p s') : Kept H b s' := by
  cases he with
  | waits stage => exact h.frame fun _ _ => id
  | publishes e _ => exact (revealFair_kept h i).frame fun _ _ => id
  | quits e _ => exact h.frame fun _ _ => id

theorem ended_kept (h : Kept H b s) (i : ℕ) (finalized : List MatchId) : Kept H b (s.ended i finalized) :=
  h.frame fun _ _ => update_none_some

/-- A deal keeps the invariant. -/
theorem deal_kept (h : Kept H b s) (k : ℕ) (room : FairRoom) (starts : Bool) (bytes : DealBytes) :
    ∃ b', Kept H b' (s.deal H k room starts bytes) := by
  rcases deal_cases h k room starts bytes with heq | ⟨x, s₁, hk, hs₁, hgo⟩
  · rw [heq]
    exact ⟨b, h⟩
  have h₁ : Kept H b s₁ ∧ s₁.starts k = some x := by
    rcases hs₁ with rfl | ⟨hash, rfl⟩
    · exact ⟨h, hk⟩
    · exact ⟨note_commit_kept h hash, hk⟩
  rcases hgo with heq | ⟨fair, practice, hsound, hopen, hcommit, heq⟩
  · rw [heq]
    exact ⟨b, endStart_kept h₁.1 k⟩
  · rw [heq]
    have hopen₁ : s₁.closed x.roomId = false := by
      rcases hs₁ with rfl | ⟨hash, rfl⟩
      · exact hopen
      · exact hopen
    exact ⟨_, firstDeal_kept h₁.1 h₁.2 hsound hopen₁ hcommit practice⟩

/-- **Every other event keeps** the shuffles, the notes and the rows, and adds no shuffle. -/
theorem step_kept (h : Kept H b s) {e : FairEvent} (hd : ¬ e.Deals) : Kept H b (s.step H money e) := by
  cases e with
  | check i allReady seats bytes => exact maybeStartCountdown_kept h i allReady seats bytes
  | close i => exact closeRoom_kept h i
  | clientSeed u seed => exact onClientSeed_kept h u seed
  | disconnect u => exact h.withFairness (fun _ _ => id) fun _ _ => id
  | countdown i allReady => exact onCountdown_kept h i allReady
  | deal k room starts bytes => exact absurd ⟨k, room, starts, bytes, rfl⟩ hd
  | giveUp k => exact endStart_kept h k
  | nextGame i =>
    show Kept H b (s.nextGame H i)
    unfold nextGame
    cases hl : s.live i with
    | none => exact h
    | some m =>
      obtain ⟨hlt, hm, hi⟩ := h.live i m hl
      exact dealNext_kept h hlt hm hi
  | matchEnded i won room =>
    show Kept H b (s.settleAndEmitMatchEnd money i won room)
    rcases matchEnded_cases h money i won room with ⟨-, heq⟩ | ⟨m, -, ⟨-, heq⟩ | ⟨-, p, hends⟩⟩
    · rw [heq]
      exact h
    · rw [heq]
      exact (ended_kept h i s.finalized).frame fun _ _ => id
    · exact hends.kept (ended_kept h i _)
  | adminVoid i =>
    show Kept H b (s.adminVoidMatch money i)
    rcases adminVoid_cases money s i with heq | ⟨m, -, -, p, hends⟩
    · rw [heq]
      exact h
    · exact hends.kept (ended_kept h i _)
  | resume k answer room =>
    show Kept H b (s.resumeEnding k answer room)
    cases hk : s.endings k with
    | none =>
      unfold resumeEnding
      rw [hk]
      exact h
    | some y => exact (resumeEnding_ends hk answer room).kept (h.frame fun _ _ => id)

theorem step_exists_kept (h : ∃ b, Kept H b s) (e : FairEvent) : ∃ b, Kept H b (s.step H money e) := by
  obtain ⟨b, h⟩ := h
  by_cases hd : e.Deals
  · obtain ⟨k, room, starts, bytes, rfl⟩ := hd
    exact deal_kept h k room starts bytes
  · exact ⟨b, step_kept h hd⟩

/-- A server starts with the invariant. -/
theorem boot_kept (b : ℕ → Birth) : Kept H b {} where
  issued :=
    { ids := fun _ _ h => by cases h
      starts := fun _ _ h => by cases h
      once := fun _ _ _ _ h => by cases h
      nextStart := fun _ _ => rfl
      dealt := fun x hx => absurd hx (Nat.not_lt_zero x)
      inj := fun x hx => absurd hx (Nat.not_lt_zero x) }
  sound x hx := absurd hx (Nat.not_lt_zero x)
  state x hx := absurd hx (Nat.not_lt_zero x)
  rows _ h := absurd h List.not_mem_nil
  pending _ _ h := by cases h
  byRoom _ _ h := by cases h
  live _ _ h := by cases h
  gone _ h := by cases h
  told := justified_nil

/-! ## What a reveal is worth -/

/-- What a player can check of a reveal among all notes: the hash, which the room had before the first deal of the shuffle,
and every deal of the shuffle, those of the games that are counted and any other. -/
def Verifiable (H : Hashes) (notes pre : List FairNote) : FairNote → Prop
  | .reveal i x r _ =>
    H.clientVerifyCommitment r.serverSeed r.serverSeedHash = true ∧ 0 < r.gameCount ∧
      (∀ k < r.gameCount, ∃ hands, .deal i x k hands ∈ pre) ∧
      ∀ before j k hands after, notes = before ++ .deal j x k hands :: after →
        j = i ∧ .commit i r.serverSeedHash ∈ before ∧
          H.verifyDeal r.serverSeed r.clientSeed k r.numPlayers = .ok hands ∧
          H.reconstructDeal r.serverSeed r.clientSeed k r.numPlayers = .ok hands
  | _ => True

/-- Every deal that was published can be verified. -/
theorem Kept.verifiable (h : Kept H b s) : Justified (Verifiable H s.notes) s.notes := by
  refine h.told.mono fun pre n _ _ htold => ?_
  cases n with
  | commit i hash => trivial
  | deal i x k hands => trivial
  | reveal i x r id =>
    obtain ⟨hx, hroom, n, hpos, rfl, hdeals⟩ := htold
    have hsound := (h.sound x hx).1
    have hcount : ((b x).fair.played n).reveal.gameCount = n := FairShuffle.games_played ..
    refine ⟨hsound.clientVerifyCommitment, by omega, fun k hk => hdeals k (by omega), fun before j k hands after hn => ?_⟩
    obtain ⟨-, hj, rfl, hcommit⟩ := h.told before (.deal j x k hands) after hn
    have hij : j = i := hj.symm.trans hroom
    obtain ⟨hserver, hclient⟩ := hsound.verifyDeal k
    rw [hij] at hcommit
    exact ⟨hij, hcommit, hserver, hclient⟩

theorem boot_exists_kept (H : Hashes) : ∃ b, Kept H b {} :=
  ⟨fun _ => ⟨⟨⟨0, 0, 0⟩, 0, false⟩, ⟨"", "", "", 0, []⟩⟩, boot_kept _⟩

/-- **Reveals reproduce the deals.** In every run, whatever the services answer and however starts and ends interleave: a
seed that is revealed has the hash that its room was sent before the first deal, and gives the hands of every game. -/
theorem reveals_reproduce (H : Hashes) (money : Bool) (es : List FairEvent) :
    let s := run (step H money) {} es
    Justified (Verifiable H s.notes) s.notes := by
  have hkeep : ∀ (s : FairServer) e, (∃ b, Kept H b s) → ∃ b, Kept H b (s.step H money e) := fun _ e h => step_exists_kept h e
  obtain ⟨b, h⟩ := run_inv hkeep (boot_exists_kept H) es
  exact h.verifiable

end FairServer

end Murlan
