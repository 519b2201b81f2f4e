import Mathlib.Algebra.Order.BigOperators.Group.List
import Murlan.Proof.Winner

/-!
# Score and target

* `gamePoints_sum`: a game gives out the points of all places, 1, 3 or 6.
* `Outcome.scores`: a call scores one game or none; when it scores one, the new scores and
  the target before it decide the new target and whether the match is over.
* `below_next`: no side reaches the target while the match goes on, whether the target is
  raised or not.
* `score_board`: all of it, in every state of a run.
-/

namespace Murlan

/-! ## The points of a game -/

/-- The points of all places together. -/
def pointsPerGame : MatchType → ℕ
  | .oneVOne => 1 | .oneVOneVOne => 3 | .twoVTwo => 6

/-- A score that was zero is set. -/
theorem sum_set_zero {v : ℕ} (l : List ℕ) : ∀ s, s < l.length → l.getD s 0 = 0 → (l.set s v).sum = l.sum + v := by
  induction l with
  | nil => intro s hs; cases hs
  | cons a l ih =>
    intro s hs h0
    cases s with
    | zero =>
      have ha : a = 0 := h0
      rw [List.set_cons_zero, List.sum_cons, List.sum_cons, ha]
      omega
    | succ s =>
      have hs' : s < l.length := by simpa using hs
      rw [List.set_cons_succ, List.sum_cons, List.sum_cons, ih s hs' h0]
      omega

/-- Points given to different seats that had none add up. -/
theorem sum_awards (scale : ℕ → ℕ) (order : List ℕ) : ∀ (k : ℕ) (pts : List ℕ), order.Nodup →
    (∀ s ∈ order, s < pts.length ∧ pts.getD s 0 = 0) →
    ((order.zipIdx k).foldl (fun pts p => pts.set p.1 (scale p.2)) pts).sum =
      pts.sum + ((List.range' k order.length).map scale).sum := by
  induction order with
  | nil => intro k pts _ _; simp
  | cons s order ih =>
    intro k pts hnd h
    obtain ⟨hs, hnd⟩ := List.nodup_cons.1 hnd
    obtain ⟨hlt, h0⟩ := h s List.mem_cons_self
    have hrest : ∀ t ∈ order, t < (pts.set s (scale k)).length ∧ (pts.set s (scale k)).getD t 0 = 0 := by
      intro t ht
      obtain ⟨htlt, ht0⟩ := h t (List.mem_cons_of_mem s ht)
      have hne : s ≠ t := by
        rintro rfl
        exact hs ht
      rw [List.length_set]
      refine ⟨htlt, ?_⟩
      rw [List.getD_eq_getElem?_getD, List.getElem?_set_ne hne, ← List.getD_eq_getElem?_getD]
      exact ht0
    rw [List.zipIdx_cons, List.foldl_cons, ih (k + 1) _ hnd hrest, sum_set_zero pts s hlt h0, List.length_cons,
      List.range'_succ, List.map_cons, List.sum_cons]
    omega

theorem foldl_set_length (f : ℕ × ℕ → ℕ) (l : List (ℕ × ℕ)) : ∀ pts : List ℕ,
    (l.foldl (fun pts p => pts.set p.1 (f p)) pts).length = pts.length := by
  induction l with
  | nil => exact fun _ => rfl
  | cons p l ih =>
    intro pts
    rw [List.foldl_cons, ih, List.length_set]

/-- **A game gives out the points of all places.** -/
theorem gamePoints_sum {type : MatchType} {order points : List ℕ} (ho : order.Perm (List.range (playersForType type)))
    (h : gamePoints type order = .ok points) :
    points.length = playersForType type ∧ points.sum = pointsPerGame type := by
  have hlen : order.length = playersForType type := by
    rw [ho.length_eq, List.length_range]
  rw [gamePoints_ok hlen] at h
  cases h
  refine ⟨by rw [foldl_set_length, List.length_replicate], ?_⟩
  have hnone : ∀ s ∈ order, s < (List.replicate (playersForType type) 0).length ∧
      (List.replicate (playersForType type) 0).getD s 0 = 0 := by
    intro s hs
    have hlt := List.mem_range.1 (ho.mem_iff.1 hs)
    rw [List.length_replicate]
    exact ⟨hlt, by rw [List.getD_eq_getElem?_getD, List.getElem?_replicate, if_pos hlt]; rfl⟩
  have hzero : (List.replicate (playersForType type) 0).sum = 0 := by simp
  rw [sum_awards (fun i => (placePoints type).getD i 0) order 0 _ (ho.nodup_iff.2 List.nodup_range) hnone, hlen,
    hzero, Nat.zero_add]
  cases type <;> rfl

/-- A list is its entries, in order. -/
theorem map_getD_range {α : Type*} (l : List α) (d : α) : (List.range l.length).map (fun s => l.getD s d) = l := by
  refine List.ext_getElem (by simp) fun i h₁ h₂ => ?_
  simp [h₂]

namespace Match

variable {m m' : Match} {c : Call} {r : MatchActionResult} {order points : List ℕ}

/-! ## The scores after a game -/

theorem scored_cumulative (m : Match) (order points : List ℕ) :
    (m.scored order points).cumulative = (List.range m.cumulative.length).map fun s =>
      m.cumulative.getD s 0 + points.getD s 0 := by
  refine List.ext_getElem (by simp [Match.scored]) fun i h₁ h₂ => ?_
  have hi : i < m.cumulative.length := by simpa using h₂
  simp [Match.scored, hi]

theorem scored_sum (m : Match) (order : List ℕ) (hlen : points.length = m.cumulative.length) :
    (m.scored order points).cumulative.sum = m.cumulative.sum + points.sum := by
  rw [scored_cumulative, List.sum_map_add, map_getD_range, ← hlen, map_getD_range]

theorem scored_getD (m : Match) (order points : List ℕ) {s : ℕ} (hs : s < m.cumulative.length) :
    (m.scored order points).cumulative.getD s 0 = m.cumulative.getD s 0 + points.getD s 0 := by
  rw [scored_cumulative, List.getD_eq_getElem _ _ (by simpa using hs)]
  simp

/-- The total of a team, as a sum. -/
theorem team_sum (perSeat team : List ℕ) :
    team.foldl (fun acc s => acc + perSeat.getD s 0) 0 = (team.map fun s => perSeat.getD s 0).sum := by
  have key : ∀ (l : List ℕ) (k : ℕ), l.foldl (fun acc s => acc + perSeat.getD s 0) k =
      k + (l.map fun s => perSeat.getD s 0).sum := by
    intro l
    induction l with
    | nil => intro k; rfl
    | cons s l ih =>
      intro k
      rw [List.foldl_cons, ih, List.map_cons, List.sum_cons]
      omega
  rw [key, Nat.zero_add]

/-- Part of the seats get part of the points. -/
theorem team_gain {team rest : List ℕ} (hperm : (team ++ rest).Perm (List.range points.length)) :
    (team.map fun s => points.getD s 0).sum ≤ points.sum := by
  have hall : ((team ++ rest).map fun s => points.getD s 0).sum = points.sum := by
    rw [(hperm.map _).sum_eq, map_getD_range]
  rw [List.map_append, List.sum_append] at hall
  omega

/-- **A side gains at most the points of the game.** -/
theorem scored_le (hb : Board m) (hlen : points.length = m.numPlayers) (order : List ℕ) {v : ℕ}
    (hv : v ∈ (m.scored order points).sideScores) : ∃ u ∈ m.sideScores, v ≤ u + points.sum := by
  have hscores : m.cumulative.length = m.numPlayers := hb.scores
  have hseat : ∀ s, s < m.numPlayers → points.getD s 0 ≤ points.sum := by
    intro s hs
    rw [List.getD_eq_getElem _ _ (by omega)]
    exact List.le_sum_of_mem (List.getElem_mem _)
  have hsingle : m.type ≠ .twoVTwo → v ∈ (m.scored order points).cumulative →
      ∃ u ∈ m.cumulative, v ≤ u + points.sum := by
    intro _ hv
    rw [scored_cumulative] at hv
    obtain ⟨s, hs, rfl⟩ := List.mem_map.1 hv
    rw [List.mem_range] at hs
    refine ⟨m.cumulative.getD s 0, ?_, Nat.add_le_add_left (hseat s (by omega)) _⟩
    rw [List.getD_eq_getElem _ _ hs]
    exact List.getElem_mem hs
  unfold sideScores at hv ⊢
  rw [show (m.scored order points).type = m.type from rfl] at hv
  cases htype : m.type with
  | oneVOne =>
    rw [htype] at hv
    exact hsingle (by rw [htype]; decide) hv
  | oneVOneVOne =>
    rw [htype] at hv
    exact hsingle (by rw [htype]; decide) hv
  -- a side is a team here: its total grows by what its two seats got
  | twoVTwo =>
    rw [htype] at hv
    have hn : m.numPlayers = 4 := by
      unfold Match.numPlayers
      rw [htype]
      rfl
    have hperm := hb.teams.perm
    have hlt : ∀ s, s ∈ m.teams.1 ∨ s ∈ m.teams.2 → s < m.cumulative.length := by
      intro s hs
      rw [hscores, hn]
      exact List.mem_range.1 (hperm.mem_iff.1 (List.mem_append.2 hs))
    have hteam : ∀ team rest : List ℕ, (team ++ rest).Perm (List.range 4) → (∀ s ∈ team, s < m.cumulative.length) →
        team.foldl (fun acc s => acc + (m.scored order points).cumulative.getD s 0) 0 ≤
          team.foldl (fun acc s => acc + m.cumulative.getD s 0) 0 + points.sum := by
      intro team rest hperm hteam
      have hseats : (team ++ rest).Perm (List.range points.length) := by
        rw [hlen, hn]
        exact hperm
      have hgain := team_gain hseats
      have hnew : (team.map fun s => (m.scored order points).cumulative.getD s 0) =
          team.map fun s => m.cumulative.getD s 0 + points.getD s 0 :=
        List.map_congr_left fun s hs => scored_getD m order points (hteam s hs)
      rw [team_sum, team_sum, hnew, List.sum_map_add]
      omega
    simp only [teamTotals, List.mem_cons, List.not_mem_nil, or_false] at hv ⊢
    rcases hv with rfl | rfl
    · exact ⟨_, Or.inl rfl, hteam _ _ hperm fun s hs => hlt s (Or.inl hs)⟩
    · exact ⟨_, Or.inr rfl, hteam _ _ (List.perm_append_comm.trans hperm) fun s hs => hlt s (Or.inr hs)⟩

/-! ## One call -/

/-- **A game has been scored** between `m` and `m'`: its points are on the board, and the
new scores with the old target decide what follows. -/
structure ScoredGame (m m' : Match) (evs : List MatchEvent) : Prop where
  sum : m'.cumulative.sum = m.cumulative.sum + pointsPerGame m.type
  gain : ∀ v ∈ m'.sideScores, ∃ u ∈ m.sideScores, v ≤ u + pointsPerGame m.type
  target : m'.target = (evaluateMatch m'.sideScores m.target).newTarget
  ended : m'.state = .matchOver ↔ (evaluateMatch m'.sideScores m.target).isOver = true
  winner : m'.state = .matchOver → ∃ seats, .matchEnded m'.leadingSide seats m'.sideScores ∈ evs ∧
    m'.matchWinner = some { side := m'.leadingSide, seats }

/-- A call that scores no game leaves the board as it is; it ends the match only if it is
the departure that decides it. -/
structure Unscored (m m' : Match) (c : Call) : Prop where
  cumulative : m'.cumulative = m.cumulative
  sideScores : m'.sideScores = m.sideScores
  target : m'.target = m.target
  ended : m'.state = .matchOver → m.state = .matchOver ∨
    ∃ s, c = .forfeit s ∧ (m.leave s).mustEndAfterForfeit = true

theorem Unscored.of_kept {g : SingleGame} (hk : Kept m m') (hr : Running m' g) : Unscored m m' c :=
  ⟨hk.cumulative, hk.sideScores, hk.target, fun h => by rw [hr.state] at h; cases h⟩

theorem no_score {evs : List MatchEvent} (h : ∀ e ∈ evs, e.Plain) : evs.countP MatchEvent.isScore = 0 := by
  rw [List.countP_eq_zero]
  intro e he
  rw [(h e he).2]
  decide

/-- What is scored in a match whose game has moved on is scored in the match before. -/
theorem ScoredGame.of_rest {m₁ : Match} {evs : List MatchEvent} (h : ScoredGame m₁ m' evs) (ht : m₁.type = m.type)
    (hscore : m₁.sideScores = m.sideScores) (htarget : m₁.target = m.target) (hcum : m₁.cumulative = m.cumulative) :
    ScoredGame m m' evs := by
  obtain ⟨hsum, hgain, h2, h3, h4⟩ := h
  rw [ht, hcum] at hsum
  rw [ht, hscore] at hgain
  rw [htarget] at h2 h3
  exact ⟨hsum, hgain, h2, h3, h4⟩

/-- The end of a game scores once. -/
theorem GameEnds.scored {r : List MatchEvent × Match} (hb : Board m) (ho : order.Perm (List.range m.numPlayers))
    (h : GameEnds m order r) : r.1.countP MatchEvent.isScore = 1 ∧ ScoredGame m r.2 r.1 := by
  have hpoints : ∀ points, gamePoints m.type order = .ok points →
      (m.scored order points).cumulative.sum = m.cumulative.sum + pointsPerGame m.type ∧
        ∀ v ∈ (m.scored order points).sideScores, ∃ u ∈ m.sideScores, v ≤ u + pointsPerGame m.type := by
    intro points hpts
    obtain ⟨hlen, hsum⟩ := gamePoints_sum ho hpts
    rw [← hsum]
    exact ⟨scored_sum m order (hlen.trans hb.scores.symm), fun v => scored_le hb hlen order⟩
  cases h with
  | won points ev hpts hev hover =>
    refine ⟨?_, (hpoints points hpts).1, (hpoints points hpts).2, ?_, iff_of_true rfl hover, fun _ => ⟨_, ?_, rfl⟩⟩
    · show (ev :: _).countP _ = 1
      rw [List.countP_cons_of_pos hev]
      rfl
    · have hkeep := evaluateMatch_raise (m.scored order points).sideScores m.target
      have hno : ¬ (evaluateMatch (m.scored order points).sideScores m.target).extended = true := by
        rw [evaluateMatch_extended]
        rw [evaluateMatch_over] at hover
        omega
      rw [if_neg hno] at hkeep
      exact hkeep.symm
    · exact List.mem_cons_of_mem _ List.mem_cons_self
  | next points evs target r hpts hevs hone htarget hover hnext hprep =>
    have hside : r.2.sideScores = (m.scored order points).sideScores := hnext.kept.sideScores
    have hgoes : r.2.state ≠ .matchOver := by
      rcases hnext.phase with ⟨g, hr, -⟩ | ⟨hands, l, hsw⟩
      · rw [hr.state]
        decide
      · rw [hsw.state]
        decide
    have hno : ¬ (evaluateMatch (m.scored order points).sideScores m.target).isOver = true := by
      rw [hover]
      decide
    refine ⟨?_, ?_, ?_, ?_, ?_, fun h => absurd h hgoes⟩
    · show (evs ++ r.1).countP _ = 1
      rw [List.countP_append, hone, no_score hnext.events]
    · rw [hnext.kept.cumulative]
      exact (hpoints points hpts).1
    · rw [hside]
      exact (hpoints points hpts).2
    · rw [hside, ← htarget]
      exact hnext.kept.target
    · rw [hside]
      exact iff_of_false hgoes hno

/-- **A call scores one game or none.** -/
theorem Outcome.scores (ho : Outcome m c r m') (h : MatchOK m) :
    (r.matchEvents.countP MatchEvent.isScore = 0 ∧ Unscored m m' c) ∨
      (r.matchEvents.countP MatchEvent.isScore = 1 ∧ m.state ≠ .matchOver ∧ ScoredGame m m' r.matchEvents) := by
  obtain ⟨htype, -, hscore, htarget, hcum, -⟩ := recorded_rest m c
  cases ho with
  | rejected c r hok hev => exact Or.inl ⟨by rw [hev]; rfl, rfl, rfl, rfl, Or.inl⟩
  | idle s hs hg => exact Or.inl ⟨rfl, rfl, rfl, rfl, Or.inl⟩
  | decided s hs hlt hg hend => exact Or.inl ⟨rfl, rfl, rfl, rfl, fun _ => Or.inr ⟨s, rfl, hend⟩⟩
  | moved c gc g evs hr hc hl hp =>
    exact Or.inl ⟨rfl, hcum, hscore, htarget, fun h => by rw [(hr.step hc hl hp).state] at h; cases h⟩
  | ended c gc g evs r hr hc hl hfin hends =>
    have hs : m.state ≠ .matchOver := by rw [hr.state]; decide
    obtain ⟨hb, hu⟩ := recorded_board h hs hl
    have hn : (g.step gc).numPlayers = ((m.recorded c).withGame (g.step gc)).numPlayers := by
      rw [step_numPlayers c hc, hr.seats]
      unfold Match.numPlayers
      rw [show ((m.recorded c).withGame (g.step gc)).type = (m.recorded c).type from rfl, htype]
    have hperm := (SingleGame.step_ok hr.toGameOK gc).final hfin
    rw [hn] at hperm
    have hb' : Board ((m.recorded c).withGame (g.step gc)) := ⟨hb.1, hb.2, hb.3, hb.4, hb.5⟩
    obtain ⟨hone, hscored⟩ := hends.scored hb' hperm
    exact Or.inr ⟨hone, hs, hscored.of_rest htype hscore htarget hcum⟩
  | returned s card r hs hev hkept hg =>
    obtain ⟨g, hg, -⟩ := hg
    exact Or.inl ⟨no_score hev, .of_kept hkept hg⟩
  | winnerLeft s r hs hl hev hkept hg =>
    obtain ⟨g, hg, -⟩ := hg
    have hrest : Unscored (m.leave s) r.2 (.forfeit s) := .of_kept hkept hg
    exact Or.inl ⟨no_score hev, hrest.cumulative, hrest.sideScores, hrest.target,
      fun h => by rw [hg.state] at h; cases h⟩
  | left s hands w l hsw hne hl =>
    exact Or.inl ⟨rfl, rfl, rfl, rfl, Or.inl⟩

/-- **A raised target is out of everybody's reach**, and so is one that was not raised while
nobody led at it alone. -/
theorem below_next {evs : List MatchEvent} (hs : ScoredGame m m' evs) (hbelow : ∀ v ∈ m.sideScores, v < m.target)
    (hgoes : m'.state ≠ .matchOver) : ∀ v ∈ m'.sideScores, v < m'.target := by
  intro v hv
  have hsix : pointsPerGame m.type ≤ 6 := by
    cases m.type <;> decide
  have hnot : ¬ (evaluateMatch m'.sideScores m.target).isOver = true := fun h => hgoes (hs.ended.2 h)
  rw [hs.target, evaluateMatch_raise]
  split
  · obtain ⟨u, hu, hle⟩ := hs.gain v hv
    have := hbelow u hu
    omega
  · rename_i hext
    rw [evaluateMatch_extended] at hext
    rw [evaluateMatch_over] at hnot
    have hle := le_maxScore hv
    -- somebody holds the highest score
    have hpos : 0 < m'.sideScores.count (maxScore m'.sideScores) :=
      List.count_pos_iff.2 (maxScore_mem (List.ne_nil_of_mem hv))
    by_contra hno
    omega

/-! ## Every run -/

/-- The number of games scored in a run. -/
def gamesScored (m : Match) (cs : List Call) : ℕ :=
  ((transcript m cs).flatMap fun r => r.matchEvents).countP MatchEvent.isScore

/-- The call scores a game. -/
def ScoresGame (m : Match) (c : Call) : Prop := ∃ e ∈ (m.answer c).1.matchEvents, e.isScore = true

/-- **Score and target** of a match after the calls `cs`. -/
structure ScoreBoard (m : Match) (cs : List Call) : Prop where
  below : (run step m cs).state ≠ .matchOver → ∀ v ∈ (run step m cs).sideScores, v < (run step m cs).target
  sum : (run step m cs).cumulative.sum = m.gamesScored cs * pointsPerGame m.type
  /-- The target moves by ten, and only when a game leaves two sides tied at one below it
  or higher. -/
  target : ∀ c, (run step m (cs ++ [c])).target = (run step m cs).target ∨
    (run step m (cs ++ [c])).target = (run step m cs).target + 10 ∧ (run step m cs).ScoresGame c ∧
      2 ≤ (run step m (cs ++ [c])).sideScores.count (maxScore (run step m (cs ++ [c])).sideScores) ∧
      (run step m cs).target ≤ maxScore (run step m (cs ++ [c])).sideScores + 1
  /-- A game ends the match exactly when one side leads alone at the target or above it. -/
  ends : ∀ c, (run step m cs).ScoresGame c → ((run step m (cs ++ [c])).state = .matchOver ↔
    (run step m (cs ++ [c])).sideScores.count (maxScore (run step m (cs ++ [c])).sideScores) = 1 ∧
      (run step m cs).target ≤ maxScore (run step m (cs ++ [c])).sideScores)
  /-- That side is the winner. -/
  winner : ∀ c, (run step m cs).ScoresGame c → (run step m (cs ++ [c])).state = .matchOver →
    ∃ seats, .matchEnded (run step m (cs ++ [c])).leadingSide seats (run step m (cs ++ [c])).sideScores ∈
        ((run step m cs).answer c).1.matchEvents ∧
      (run step m (cs ++ [c])).matchWinner = some { side := (run step m (cs ++ [c])).leadingSide, seats }
  /-- Nothing else ends a match but a departure that decides it. -/
  forfeit : ∀ c, (run step m cs).state ≠ .matchOver → ¬ (run step m cs).ScoresGame c →
    (run step m (cs ++ [c])).state = .matchOver →
    ∃ s, c = .forfeit s ∧ ((run step m cs).leave s).mustEndAfterForfeit = true

theorem gamesScored_cons (m : Match) (c : Call) (cs : List Call) :
    m.gamesScored (c :: cs) = (m.answer c).1.matchEvents.countP MatchEvent.isScore + (m.step c).gamesScored cs := by
  unfold gamesScored
  rw [transcript, List.flatMap_cons, List.countP_append]

/-- A call whose events count a score is one that scores a game. -/
theorem scoresGame_iff : m.ScoresGame c ↔ 0 < (m.answer c).1.matchEvents.countP MatchEvent.isScore :=
  List.countP_pos_iff.symm

/-- Until the end everyone is below the target. -/
theorem run_below (h : MatchOK m) (hbelow : m.state ≠ .matchOver → ∀ v ∈ m.sideScores, v < m.target) (cs : List Call) :
    (run step m cs).state ≠ .matchOver → ∀ v ∈ (run step m cs).sideScores, v < (run step m cs).target := by
  refine (run_inv (P := fun m => MatchOK m ∧ (m.state ≠ .matchOver → ∀ v ∈ m.sideScores, v < m.target))
    (fun m c hm => ⟨step_matchOK hm.1 c, fun hgoes => ?_⟩) ⟨h, hbelow⟩ cs).2
  -- a match that goes on was not over before
  have hbefore : m.state ≠ .matchOver := fun hover => hgoes (by rw [step, (answer_over hover c).2.2]; exact hover)
  rcases (answer_outcome hm.1 c).scores hm.1 with ⟨-, hno⟩ | ⟨-, -, hs⟩
  · intro v hv
    rw [step, hno.sideScores] at hv
    rw [step, hno.target]
    exact hm.2 hbefore v hv
  · exact below_next hs (hm.2 hbefore) hgoes

/-- The scores sum to the games. -/
theorem run_sum (cs : List Call) : ∀ m : Match, MatchOK m →
    (run step m cs).cumulative.sum = m.cumulative.sum + m.gamesScored cs * pointsPerGame m.type := by
  induction cs with
  | nil => intro m _; simp [gamesScored, transcript]
  | cons c cs ih =>
    intro m h
    have ho := answer_outcome h c
    have htype : (m.step c).type = m.type := ho.type
    have hstep : (m.step c).cumulative.sum = m.cumulative.sum +
        (m.answer c).1.matchEvents.countP MatchEvent.isScore * pointsPerGame m.type := by
      rcases ho.scores h with ⟨hnone, hno⟩ | ⟨hone, -, hs⟩
      · rw [hnone, step, hno.cumulative]
        omega
      · rw [hone, Nat.one_mul]
        exact hs.sum
    rw [run_cons, ih _ (step_matchOK h c), hstep, htype, gamesScored_cons, Nat.add_mul]
    omega

/-- A match starts with an empty board and the target it is given. -/
theorem create_board {o : MatchOptions} (hm : create o = .ok m) : m.type = o.type ∧ m.teams = o.teams ∧
    m.target = o.startTarget ∧ m.cumulative = List.replicate (playersForType o.type) 0 := by
  unfold create at hm
  cases hassert : (blank o).assertHandCount (o.deal 0) with
  | error e => rw [hassert] at hm; cases hm
  | ok u =>
    cases hgame : SingleGame.create (firstGame o) with
    | error e => rw [hassert, hgame] at hm; cases hm
    | ok g =>
      rw [hassert, hgame] at hm
      cases hm
      exact ⟨rfl, rfl, rfl, rfl⟩

end Match

open Match in
/-- **Score and target.** For every dealer that gives full hands, every starting target
from 1 on and every run: no side reaches the target while the match goes on, each game adds
1, 3 or 6 points, the target moves by ten and only on a tie, and a match that no departure
decides ends with the game that leaves one side alone at the target or above it. -/
theorem score_board {o : MatchOptions} (hd : FullDeals o.type o.deal) (ht : TeamsOK o.teams) (h1 : 1 ≤ o.startTarget)
    {m : Match} (hm : Match.create o = .ok m) (cs : List Match.Call) : m.ScoreBoard cs := by
  obtain ⟨m', hm', hok, -, -⟩ := create_spec hd ht
  rw [hm] at hm'
  cases hm'
  obtain ⟨htype, hteams, htarget, hcum⟩ := create_board hm
  have hzero : ∀ v ∈ m.sideScores, v < m.target := by
    intro v hv
    have hnone : v = 0 := by
      unfold sideScores at hv
      rw [hcum, teamTotals_zero] at hv
      split at hv
      · simpa using hv
      · exact List.eq_of_mem_replicate hv
    omega
  have hrun := run_matchOK hok cs
  have hlast : ∀ c, run Match.step m (cs ++ [c]) = ((run Match.step m cs).answer c).2 := by
    intro c
    rw [run_append]
    rfl
  refine ⟨run_below hok (fun _ => hzero) cs, ?_, fun c => ?_, fun c hs => ?_, fun c hs hover => ?_,
    fun c hgoes hno hover => ?_⟩
  · have hsum := run_sum cs m hok
    rw [hsum, hcum]
    simp
  · rw [hlast]
    rcases (answer_outcome hrun c).scores hrun with ⟨-, hno⟩ | ⟨hone, -, hs⟩
    · exact Or.inl hno.target
    · have hraise := evaluateMatch_raise ((run Match.step m cs).answer c).2.sideScores (run Match.step m cs).target
      rw [← hs.target] at hraise
      split at hraise
      · rename_i hext
        have hscores : (run Match.step m cs).ScoresGame c := scoresGame_iff.2 (by omega)
        exact Or.inr ⟨hraise, hscores, evaluateMatch_extended.1 hext⟩
      · exact Or.inl hraise
  · rw [hlast]
    rcases (answer_outcome hrun c).scores hrun with ⟨hnone, -⟩ | ⟨-, -, hscored⟩
    · have hpos := scoresGame_iff.1 hs
      omega
    · rw [hscored.ended, evaluateMatch_over]
  · rw [hlast] at hover ⊢
    rcases (answer_outcome hrun c).scores hrun with ⟨hnone, -⟩ | ⟨-, -, hscored⟩
    · have hpos := scoresGame_iff.1 hs
      omega
    · exact hscored.winner hover
  · rw [hlast] at hover
    rcases (answer_outcome hrun c).scores hrun with ⟨-, hkept⟩ | ⟨hone, -, -⟩
    · exact (hkept.ended hover).resolve_left hgoes
    · exact absurd (scoresGame_iff.2 (by omega)) hno

/-- Eleven games of three seats, the last one decides. -/
theorem score_board_eleven : (firstDealt sortedDeals).ScoreBoard (tenGames ++ firstPlace ++ secondPlace) :=
  score_board sortedDeals_full defaultTeams_ok (by decide) rfl _

end Murlan
