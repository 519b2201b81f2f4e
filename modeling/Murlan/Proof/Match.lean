import Mathlib.Data.List.GetD
import Murlan.Proof.Order
import Murlan.Spec.Match

/-!
# What a match keeps

The dealer returns full hands (`FullDeals`) and two teams share the seats
(`TeamsOK`); then no call of a run throws.

* `Board`: the score board, the seats that left, the dealer and the teams.
* `MatchOK`: the invariant of a match between calls, with the game or the switch it
  is at (`Running`, `Switching`).
* `Outcome`, `answer_outcome`: all that a call can do.
* `step_matchOK`, `run_matchOK`: every call and every run keep the invariant.
-/

namespace Murlan

/-- Every deal has one hand for each seat, of at least two cards. -/
structure FullDeals (type : MatchType) (deal : ℕ → List (List Card)) : Prop where
  length : ∀ k, (deal k).length = playersForType type
  two_le : ∀ k, ∀ h ∈ deal k, 2 ≤ h.length

/-- The two teams share the four seats, and neither is empty. -/
structure TeamsOK (teams : List ℕ × List ℕ) : Prop where
  fst : teams.1 ≠ []
  snd : teams.2 ≠ []
  perm : (teams.1 ++ teams.2).Perm (List.range 4)

theorem defaultTeams_ok : TeamsOK defaultTeams := ⟨by decide, by decide, by decide⟩

theorem two_le_playersForType (type : MatchType) : 2 ≤ playersForType type := by
  cases type <;> decide

/-! ## Moving a card -/

theorem moveCard_length (hands : List (List Card)) (giver taker idx : ℕ) (card : Card) :
    (moveCard hands giver taker idx card).length = hands.length := by
  unfold moveCard
  rw [List.length_modify, List.length_modify]

/-- What is in a modified list. -/
theorem mem_modify {α : Type*} {l : List α} {i : ℕ} {f : α → α} {b : α} (h : b ∈ l.modify i f) :
    b ∈ l ∨ ∃ a, l[i]? = some a ∧ b = f a := by
  obtain ⟨j, hj, rfl⟩ := List.mem_iff_getElem.1 h
  rw [List.length_modify] at hj
  rw [List.getElem_modify]
  split
  · rename_i hij
    exact Or.inr ⟨l[j], by rw [hij, List.getElem?_eq_getElem hj], rfl⟩
  · exact Or.inl (List.getElem_mem hj)

/-- A hand that gives one of its two cards away still has one. -/
theorem moveCard_ne_nil {hands : List (List Card)} {giver taker idx : ℕ} {card : Card}
    (hne : ∀ h ∈ hands, h ≠ []) (hg : 2 ≤ (hands.getD giver []).length) :
    ∀ h ∈ moveCard hands giver taker idx card, h ≠ [] := by
  have hgive : ∀ h ∈ hands.modify giver fun h => h.eraseIdx idx, h ≠ [] := by
    intro h hm
    rcases mem_modify hm with hm | ⟨a, ha, rfl⟩
    · exact hne h hm
    · rw [List.getD_eq_getElem?_getD, ha, Option.getD_some] at hg
      intro he
      have h0 : (a.eraseIdx idx).length = 0 := by rw [he]; rfl
      rw [List.length_eraseIdx] at h0
      split at h0 <;> omega
  intro h hm
  unfold moveCard at hm
  rcases mem_modify hm with hm | ⟨a, -, rfl⟩
  · exact hgive h hm
  · exact List.append_ne_nil_of_right_ne_nil _ (List.cons_ne_nil _ _)

/-- The hand that takes the card has at least two cards after it. -/
theorem moveCard_taker {hands : List (List Card)} {giver taker idx : ℕ} {card : Card}
    (h2 : ∀ h ∈ hands, 2 ≤ h.length) (ht : taker < hands.length) :
    2 ≤ ((moveCard hands giver taker idx card).getD taker []).length := by
  have hlt := (moveCard_length hands giver taker idx card).symm ▸ ht
  unfold moveCard at hlt ⊢
  rw [List.getD_eq_getElem _ _ hlt, List.getElem_modify, if_pos rfl, List.length_append, List.length_singleton,
    List.getElem_modify]
  have := h2 _ (List.getElem_mem ht)
  split
  · rw [List.length_eraseIdx]
    split <;> omega
  · omega

/-- The side that leads, the first among equals. -/
def Match.leadingSide (m : Match) : ℕ := m.sideScores.idxOf (maxScore m.sideScores)

/-- The event that ends a match. -/
def MatchEvent.isEnd : MatchEvent → Bool
  | .matchEnded _ _ _ => true
  | _ => false

/-- The event that scores a game. -/
def MatchEvent.isScore : MatchEvent → Bool
  | .gameScored _ _ _ _ _ => true
  | _ => false

/-- An event that neither scores a game nor ends the match. -/
def MatchEvent.Plain (e : MatchEvent) : Prop := e.isEnd = false ∧ e.isScore = false

theorem MatchEvent.not_end {e : MatchEvent} (h : e.isScore = true) : e.isEnd = false := by
  cases e with
  | gameScored => rfl
  | _ => cases h

namespace Match

variable {m m' : Match} {seat : ℕ}

/-! ## The board -/

/-- The score board, the seats that left, the dealer and the teams. -/
structure Board (m : Match) : Prop where
  teams : TeamsOK m.teams
  deals : FullDeals m.type m.deal
  scores : m.cumulative.length = m.numPlayers
  gone_nodup : m.goneSeats.Nodup
  gone_lt : ∀ s ∈ m.goneSeats, s < m.numPlayers

/-- What stays as it is while the next game is prepared. -/
structure Kept (m m' : Match) : Prop where
  type : m'.type = m.type
  teams : m'.teams = m.teams
  deal : m'.deal = m.deal
  cumulative : m'.cumulative = m.cumulative
  gone : m'.goneSeats = m.goneSeats
  target : m'.target = m.target

theorem Kept.trans {m₁ m₂ m₃ : Match} (h : Kept m₁ m₂) (h' : Kept m₂ m₃) : Kept m₁ m₃ :=
  ⟨h'.1.trans h.1, h'.2.trans h.2, h'.3.trans h.3, h'.4.trans h.4, h'.5.trans h.5, h'.6.trans h.6⟩

theorem Kept.numPlayers (h : Kept m m') : m'.numPlayers = m.numPlayers := by
  unfold Match.numPlayers; rw [h.type]

theorem Kept.board (h : Kept m m') (hb : Board m) : Board m' := by
  obtain ⟨h1, h2, h3, h4, h5, -⟩ := h
  refine ⟨?_, ?_, ?_, ?_, ?_⟩ <;> simp only [Match.numPlayers, h1, h2, h3, h4, h5]
  exacts [hb.1, hb.2, hb.3, hb.4, hb.5]

theorem Kept.sideScores (h : Kept m m') : m'.sideScores = m.sideScores := by
  unfold Match.sideScores
  rw [h.type, h.cumulative, h.teams]

theorem Kept.mustEnd (h : Kept m m') : m'.mustEndAfterForfeit = m.mustEndAfterForfeit := by
  unfold mustEndAfterForfeit presentOf remainingSeats Match.numPlayers
  rw [h.type, h.teams, h.gone]

theorem mem_remainingSeats {s : ℕ} : s ∈ m.remainingSeats ↔ s < m.numPlayers ∧ s ∉ m.goneSeats := by
  unfold remainingSeats
  rw [List.mem_filter, List.mem_range, decide_eq_true_iff]

theorem mem_presentOf {team : List ℕ} {s : ℕ} : s ∈ m.presentOf team ↔ s ∈ team ∧ s ∉ m.goneSeats := by
  unfold presentOf
  rw [List.mem_filter, decide_eq_true_iff]

/-- Seats present and seats that left are all the seats. -/
theorem remaining_length (hb : Board m) :
    m.remainingSeats.length + m.goneSeats.length = m.numPlayers := by
  have hperm : (m.remainingSeats ++ m.goneSeats).Perm (List.range m.numPlayers) := by
    rw [List.perm_ext_iff_of_nodup ?_ List.nodup_range]
    · intro s
      rw [List.mem_append, mem_remainingSeats, List.mem_range]
      constructor
      · rintro (h | h)
        · exact h.1
        · exact hb.gone_lt s h
      · intro hs
        by_cases hg : s ∈ m.goneSeats
        · exact Or.inr hg
        · exact Or.inl ⟨hs, hg⟩
    · refine List.nodup_append.2 ⟨List.nodup_range.filter _, hb.gone_nodup, ?_⟩
      rintro a ha b hb' rfl
      exact (mem_remainingSeats.1 ha).2 hb'
  have := hperm.length_eq
  rw [List.length_append, List.length_range] at this
  exact this

/-- **Two seats remain** unless a forfeit has decided the match. -/
theorem two_remain (hb : Board m) (hu : m.mustEndAfterForfeit = false) :
    m.goneSeats.length + 2 ≤ m.numPlayers := by
  have hlen := remaining_length hb
  unfold mustEndAfterForfeit at hu
  split at hu
  · rename_i ht
    -- one present seat of each team
    rw [Bool.or_eq_false_iff, decide_eq_false_iff_not, decide_eq_false_iff_not] at hu
    obtain ⟨a, ha⟩ := List.exists_mem_of_ne_nil _ hu.1
    obtain ⟨b, hb'⟩ := List.exists_mem_of_ne_nil _ hu.2
    rw [mem_presentOf] at ha hb'
    have hn : m.numPlayers = 4 := by unfold Match.numPlayers; rw [ht]; rfl
    have hnd := hb.teams.perm.nodup_iff.2 List.nodup_range
    have hab : a ≠ b := fun he =>
      (List.nodup_append.1 hnd).2.2 a ha.1 b hb'.1 he
    have hmem : ∀ s, s ∈ m.teams.1 ∨ s ∈ m.teams.2 → s < m.numPlayers := by
      intro s hs
      rw [hn]
      exact List.mem_range.1 (hb.teams.perm.mem_iff.1 (List.mem_append.2 hs))
    have hsub : [a, b] ⊆ m.remainingSeats := by
      intro s hs
      rw [mem_remainingSeats]
      rcases List.mem_cons.1 hs with rfl | hs
      · exact ⟨hmem s (Or.inl ha.1), ha.2⟩
      · rw [List.mem_singleton.1 hs]
        exact ⟨hmem b (Or.inr hb'.1), hb'.2⟩
    have := (List.subperm_of_subset (by simp [hab]) hsub).length_le
    rw [List.length_cons, List.length_singleton] at this
    omega
  · rw [decide_eq_false_iff_not] at hu
    omega

/-! ## Where a match stands -/

/-- A game of the match is running. -/
structure Running (m : Match) (g : SingleGame) : Prop extends g.GameOK where
  state : m.state = .playing
  game : m.game = some g
  seats : g.numPlayers = m.numPlayers
  playing : g.status = .playing
  gone_iff : ∀ s, s ∈ g.gone ↔ s ∈ m.goneSeats

/-- The match waits for the winner of the last game to return a card. -/
structure Switching (m : Match) (hands : List (List Card)) (winner loser : ℕ) : Prop where
  state : m.state = .awaitingSwitch
  hands_eq : m.pendingHands = some hands
  winner_eq : m.pendingWinner = some winner
  loser_eq : m.pendingLoser = some loser
  length : hands.length = m.numPlayers
  nonempty : ∀ h ∈ hands, h ≠ []
  winner_two : 2 ≤ (hands.getD winner []).length
  loser_lt : loser < m.numPlayers

/-- **The invariant of a match between calls.** -/
structure MatchOK (m : Match) : Prop extends Board m where
  undecided : m.state ≠ .matchOver → m.mustEndAfterForfeit = false
  unwon : m.state ≠ .matchOver → (evaluateMatch m.sideScores m.target).isOver = false
  phase : (∃ g, Running m g) ∨ (∃ hands w l, Switching m hands w l) ∨ m.state = .matchOver

/-! ## The next game -/

/-- The prepared hands can be played: one non-empty hand for each seat. -/
structure Playable (m : Match) (hands : List (List Card)) : Prop where
  hands_eq : m.pendingHands = some hands
  length : hands.length = m.numPlayers
  nonempty : ∀ h ∈ hands, h ≠ []

/-- **The prepared game starts**: nobody has played and the seats that left are out. -/
theorem beginPendingGame_spec {hands : List (List Card)} {leader : ℕ} (hb : Board m)
    (hu : m.mustEndAfterForfeit = false) (hh : Playable m hands) (hl : leader < m.numPlayers) :
    ∃ r, m.beginPendingGame leader = .ok r ∧ r.1.Plain ∧ Kept m r.2 ∧
      ∃ g, Running r.2 g ∧ g.Dealt := by
  obtain ⟨hcreate, hok⟩ := SingleGame.create_ok
    (o := { numPlayers := m.numPlayers, hands, leader }) hh.length
    (two_le_playersForType m.type) hh.nonempty hl
  set g₀ := SingleGame.fresh { numPlayers := m.numPlayers, hands, leader } with hg₀
  have hdealt : g₀.Dealt := ⟨hok, rfl, rfl, rfl⟩
  have hgone : g₀.gone = [] := rfl
  have hn : g₀.numPlayers = m.numPlayers := rfl
  obtain ⟨h1, h2, h3⟩ := SingleGame.forfeits_dealt m.goneSeats g₀ hdealt hb.gone_nodup
    (fun s hs => ⟨hb.gone_lt s hs, by rw [hgone]; exact List.not_mem_nil⟩)
    (by rw [hgone, hn, List.length_nil, Nat.zero_add]; exact two_remain hb hu)
  set g := m.goneSeats.foldl (fun g s => (g.forfeitSeat s).2) g₀ with hg
  refine ⟨(.gameStarted m.gameIndex (g.turn.getD leader), m.started g), ?_, ⟨rfl, rfl⟩,
    ⟨rfl, rfl, rfl, rfl, rfl, rfl⟩, g, ?_, h1⟩
  · unfold beginPendingGame
    rw [hh.hands_eq, Option.getD_some, hcreate]
    rfl
  · refine ⟨h1.toGameOK, rfl, rfl, h3.trans hn, h1.playing, fun s => ?_⟩
    rw [h2, hgone, List.nil_append]
    rfl

/-- What preparing the next game gives: no end of the match, and a game just dealt
or a switch that waits for `winner`. -/
structure NextGame (m : Match) (winner : ℕ) (r : List MatchEvent × Match) : Prop where
  events : ∀ e ∈ r.1, e.Plain
  kept : Kept m r.2
  phase : (∃ g, Running r.2 g ∧ g.Dealt) ∨ ∃ hands l, Switching r.2 hands winner l

/-- A game that starts at once is a next game, whatever is announced before it. -/
theorem NextGame.of_begin {hands : List (List Card)} {leader : ℕ} (winner : ℕ)
    (evs : List MatchEvent) (hb : Board m) (hu : m.mustEndAfterForfeit = false) (hh : Playable m hands)
    (hl : leader < m.numPlayers) (hevs : ∀ e ∈ evs, e.Plain) :
    ∃ r, m.beginPendingGame leader = .ok r ∧ NextGame m winner (evs ++ [r.1], r.2) := by
  obtain ⟨r, hr, hend, hkept, hg⟩ := beginPendingGame_spec hb hu hh hl
  refine ⟨r, hr, fun e he => ?_, hkept, Or.inl hg⟩
  rcases List.mem_append.1 he with he | he
  · exact hevs e he
  · rw [List.mem_singleton.1 he]; exact hend

theorem Kept.nextGame {m₁ : Match} {winner : ℕ} {r : List MatchEvent × Match} (h : Kept m m₁)
    (hr : NextGame m₁ winner r) : NextGame m winner r :=
  ⟨hr.events, h.trans hr.kept, hr.phase⟩

/-- **The switch** of a full deal. -/
theorem switchCards_spec {hands : List (List Card)} {winner loser : ℕ} (hb : Board m)
    (hu : m.mustEndAfterForfeit = false) (hlen : hands.length = m.numPlayers)
    (h2 : ∀ h ∈ hands, 2 ≤ h.length) (hw : winner < m.numPlayers) (hl : loser < m.numPlayers)
    (hpw : m.pendingWinner = some winner) (hpl : m.pendingLoser = some loser) :
    ∃ r, m.switchCards hands winner loser = .ok r ∧ NextGame m winner r := by
  have hne : ∀ h ∈ hands, h ≠ [] := by
    rintro h hm rfl
    have := h2 _ hm
    rw [List.length_nil] at this
    omega
  have hloser : 2 ≤ (hands.getD loser []).length := by
    have hlt : loser < hands.length := by omega
    rw [List.getD_eq_getElem _ _ hlt]
    exact h2 _ (List.getElem_mem hlt)
  have hholds : hands.getD loser [] ≠ [] := by
    intro he
    rw [he, List.length_nil] at hloser
    omega
  obtain ⟨i, hi, -⟩ := strongestIndexByPower_lt hholds
  simp only [switchCards, hi, bind, Except.bind, pure, Except.pure]
  set card := (hands.getD loser []).getD i (.joker .red) with hcard
  set hands' := moveCard hands loser winner i card with hhands
  set m₁ := m.giveStrongest hands winner loser i card with hm₁
  have hk : Kept m m₁ := ⟨rfl, rfl, rfl, rfl, rfl, rfl⟩
  have hlen' : hands'.length = m₁.numPlayers := (moveCard_length ..).trans hlen
  have hne' : ∀ h ∈ hands', h ≠ [] := moveCard_ne_nil hne hloser
  split
  · -- nothing the winner could return: the loser leads at once
    have hleads : loser < m₁.numPlayers := hl
    obtain ⟨r, hr, hnext⟩ := NextGame.of_begin winner
      [.cardSwitchAuto loser winner card, .cardSwitchReturn winner loser none]
      (hk.board hb) (hk.mustEnd.trans hu) ⟨rfl, hlen', hne'⟩ hleads
        (by simp [MatchEvent.Plain, MatchEvent.isEnd, MatchEvent.isScore])
    rw [hr]
    exact ⟨_, rfl, hk.nextGame hnext⟩
  · refine ⟨_, rfl, ?_, ⟨rfl, rfl, rfl, rfl, rfl, rfl⟩, Or.inr ⟨hands', loser, ?_⟩⟩
    · simp [MatchEvent.Plain, MatchEvent.isEnd, MatchEvent.isScore]
    · exact ⟨rfl, rfl, hpw, hpl, hlen', hne', moveCard_taker h2 (by omega), hl⟩

/-- **The next game is prepared** after a finished one. -/
theorem prepareNextGame_spec {order : List ℕ} (hb : Board m) (hu : m.mustEndAfterForfeit = false)
    (ho : order.Perm (List.range m.numPlayers)) :
    ∃ r, m.prepareNextGame order = .ok r ∧ NextGame m (order.headD 0) r := by
  have hn := two_le_playersForType m.type
  have hlen := ho.length_eq
  rw [List.length_range] at hlen
  have hmem : ∀ s ∈ order, s < m.numPlayers := fun s hs => List.mem_range.1 (ho.mem_iff.1 hs)
  have hone : order ≠ [] := by
    rintro rfl
    rw [List.length_nil] at hlen
    unfold Match.numPlayers at hlen
    omega
  have hw : order.headD 0 < m.numPlayers := by
    rw [List.headD_eq_head?_getD, List.head?_eq_some_head hone]
    exact hmem _ (List.head_mem hone)
  have hl : order.getLastD 0 < m.numPlayers := by
    rw [List.getLastD_eq_getLast?, List.getLast?_eq_some_getLast hone]
    exact hmem _ (List.getLast_mem hone)
  have hdeal : (m.deal m.dealt).length = m.numPlayers := hb.deals.length _
  have h2 := hb.deals.two_le m.dealt
  have hne : ∀ h ∈ m.deal m.dealt, h ≠ [] := by
    rintro h hm rfl
    have := h2 _ hm
    rw [List.length_nil] at this
    omega
  have hassert : m.assertHandCount (m.deal m.dealt) = .ok () := if_neg (not_not.2 hdeal)
  simp only [prepareNextGame, hassert, bind, Except.bind, pure, Except.pure]
  set m₁ := m.dealNext (order.headD 0) (order.getLastD 0) with hm₁
  have hk : Kept m m₁ := ⟨rfl, rfl, rfl, rfl, rfl, rfl⟩
  have hplay : Playable m₁ (m.deal m.dealt) := ⟨rfl, hdeal, hne⟩
  have hleads : order.headD 0 < m₁.numPlayers := hw
  split
  · obtain ⟨r, hr, hnext⟩ := NextGame.of_begin (order.headD 0) [] (hk.board hb)
      (hk.mustEnd.trans hu) hplay hleads (by simp)
    rw [hr]
    exact ⟨_, rfl, hk.nextGame hnext⟩
  · split
    · obtain ⟨r, hr, hnext⟩ := NextGame.of_begin (order.headD 0)
        [.noSwap (order.headD 0) (order.getLastD 0)] (hk.board hb)
        (hk.mustEnd.trans hu) hplay hleads (by simp [MatchEvent.Plain, MatchEvent.isEnd, MatchEvent.isScore])
      rw [hr]
      exact ⟨_, rfl, hk.nextGame hnext⟩
    · obtain ⟨r, hr, hnext⟩ := switchCards_spec
        (hk.board hb) (hk.mustEnd.trans hu) hdeal h2 hw hl rfl rfl
      exact ⟨r, hr, hk.nextGame hnext⟩

/-! ## The end of a game -/

/-- What the end of a game gives, once its points are on the board: the side that
leads alone has reached the target and the match ends, or the next game is prepared
under a target that may have risen. -/
inductive GameEnds (m : Match) (order : List ℕ) : List MatchEvent × Match → Prop
  | won (points : List ℕ) (ev : MatchEvent) : gamePoints m.type order = .ok points → ev.isScore = true →
      (evaluateMatch (m.scored order points).sideScores m.target).isOver = true →
      GameEnds m order (ev :: ((m.scored order points).endByScore (leadingSide (m.scored order points))).1,
        ((m.scored order points).endByScore (leadingSide (m.scored order points))).2)
  | next (points : List ℕ) (evs : List MatchEvent) (target : ℕ) (r : List MatchEvent × Match) :
      gamePoints m.type order = .ok points → (∀ e ∈ evs, e.isEnd = false) → evs.countP MatchEvent.isScore = 1 →
      target = (evaluateMatch (m.scored order points).sideScores m.target).newTarget →
      (evaluateMatch (m.scored order points).sideScores m.target).isOver = false →
      NextGame ((m.scored order points).extend target) (order.headD 0) r →
      ((m.scored order points).extend target).prepareNextGame order = .ok r → GameEnds m order (evs ++ r.1, r.2)

theorem Board.scored (hb : Board m) (order points : List ℕ) : Board (m.scored order points) := by
  have hlen : (m.scored order points).cumulative.length = m.cumulative.length := by
    simp [Match.scored]
  exact ⟨hb.1, hb.2, hlen.trans hb.3, hb.4, hb.5⟩

/-- The end of a game is scored. -/
theorem onGameEnd_spec {order : List ℕ} (hb : Board m) (hu : m.mustEndAfterForfeit = false)
    (ho : order.Perm (List.range m.numPlayers)) : ∃ r, m.onGameEnd order = .ok r ∧ GameEnds m order r := by
  have hlen : order.length = playersForType m.type := by
    rw [ho.length_eq, List.length_range]; rfl
  obtain ⟨points, hpts⟩ : ∃ points, gamePoints m.type order = .ok points := ⟨_, gamePoints_ok hlen⟩
  have hwin := evaluateMatch_winner (m.scored order points).sideScores m.target
  have hprep : ∀ target, ∃ r, ((m.scored order points).extend target).prepareNextGame order = .ok r ∧
      NextGame ((m.scored order points).extend target) (order.headD 0) r := fun target =>
    prepareNextGame_spec (m := (m.scored order points).extend target)
      ⟨hb.1, hb.2, (hb.scored order points).3, hb.4, hb.5⟩ hu ho
  simp only [onGameEnd, hpts, bind, Except.bind, pure, Except.pure]
  cases hover : (evaluateMatch (m.scored order points).sideScores m.target).isOver with
  | true =>
    rw [hover, if_pos rfl] at hwin
    rw [hwin]
    exact ⟨_, rfl, .won points _ hpts rfl hover⟩
  | false =>
    rw [hover, if_neg (by decide)] at hwin
    rw [hwin]
    simp only
    split
    · obtain ⟨r, hr, hnext⟩ := hprep (evaluateMatch (m.scored order points).sideScores m.target).newTarget
      rw [hr]
      exact ⟨_, rfl, .next points [_, _] _ r hpts (by simp [MatchEvent.isEnd]) rfl rfl hover hnext hr⟩
    · rename_i hext
      have htarget := evaluateMatch_raise (m.scored order points).sideScores m.target
      rw [if_neg hext] at htarget
      obtain ⟨r, hr, hnext⟩ := hprep m.target
      have hsame : (m.scored order points).extend m.target = m.scored order points := rfl
      rw [hsame] at hr
      rw [hr]
      exact ⟨_, rfl, .next points [_] m.target r hpts (by simp [MatchEvent.isEnd]) rfl htarget.symm hover hnext hr⟩

/-! ## All that a call can do -/

/-- The call a match passes to its game. -/
def Call.toGame : Call → Option SingleGame.Call
  | .play s cards => some (.play s cards)
  | .pass s => some (.pass s)
  | .forfeit s => some (.forfeitSeat s)
  | .switchGive _ _ => none

/-- The match once the departure that a call announces is recorded. -/
def recorded (m : Match) : Call → Match
  | .forfeit s => m.leave s
  | _ => m

/-- A departure that leaves the match undecided. -/
def Leaves (m : Match) (s : ℕ) : Prop :=
  s < m.numPlayers ∧ s ∉ m.goneSeats ∧ (m.leave s).mustEndAfterForfeit = false

/-- **All that a call can do** in a match that keeps its invariant. -/
inductive Outcome (m : Match) : Call → MatchActionResult → Match → Prop
  | rejected (c : Call) (r : MatchActionResult) : r.ok = false → r.matchEvents = [] → Outcome m c r m
  | idle (s : ℕ) : m.state ≠ .matchOver → s ∈ m.goneSeats → Outcome m (.forfeit s) (.accept [] []) m
  | decided (s : ℕ) : m.state ≠ .matchOver → s < m.numPlayers → s ∉ m.goneSeats →
      (m.leave s).mustEndAfterForfeit = true →
      Outcome m (.forfeit s) (.accept [] (m.leave s).endByForfeit.1) (m.leave s).endByForfeit.2
  | moved (c : Call) (gc : SingleGame.Call) (g : SingleGame) (evs : List GameEvent) : Running m g →
      c.toGame = some gc → (∀ s, c = .forfeit s → Leaves m s) → (g.step gc).status = .playing →
      Outcome m c (.accept evs []) ((m.recorded c).withGame (g.step gc))
  | ended (c : Call) (gc : SingleGame.Call) (g : SingleGame) (evs : List GameEvent)
      (r : List MatchEvent × Match) : Running m g → c.toGame = some gc →
      (∀ s, c = .forfeit s → Leaves m s) → (g.step gc).status = .finished →
      GameEnds ((m.recorded c).withGame (g.step gc)) (g.step gc).finishingOrder r →
      Outcome m c (.accept evs r.1) r.2
  | returned (s : ℕ) (card : Card) (r : List MatchEvent × Match) : m.state = .awaitingSwitch →
      (∀ e ∈ r.1, e.Plain) → Kept m r.2 → (∃ g, Running r.2 g ∧ g.Dealt) →
      Outcome m (.switchGive s card) (.accept [] r.1) r.2
  | winnerLeft (s : ℕ) (r : List MatchEvent × Match) : m.state = .awaitingSwitch → Leaves m s →
      (∀ e ∈ r.1, e.Plain) → Kept (m.leave s) r.2 → (∃ g, Running r.2 g ∧ g.Dealt) →
      Outcome m (.forfeit s) (.accept [] r.1) r.2
  | left (s : ℕ) (hands : List (List Card)) (w l : ℕ) : Switching m hands w l → s ≠ w → Leaves m s →
      Outcome m (.forfeit s) (.accept [] []) (m.leave s)

/-- A seat that leaves keeps the board in order. -/
theorem Board.leave (hb : Board m) {s : ℕ} (hs : s < m.numPlayers) (hg : s ∉ m.goneSeats) :
    Board (m.leave s) := by
  refine ⟨hb.1, hb.2, hb.3, ?_, ?_⟩
  · refine List.nodup_append.2 ⟨hb.gone_nodup, List.nodup_singleton _, ?_⟩
    rintro a h b hb' rfl
    rw [List.mem_singleton] at hb'
    exact hg (hb' ▸ h)
  · intro t ht
    rcases List.mem_append.1 ht with h | h
    · exact hb.gone_lt t h
    · rw [List.mem_singleton.1 h]; exact hs

/-- The answer after an accepted action: the game goes on, or its end is scored. -/
theorem afterGame_spec {g : SingleGame} (hb : Board m) (hu : m.mustEndAfterForfeit = false)
    (hg : g.GameOK) (hn : g.numPlayers = m.numPlayers) (evs : List GameEvent) :
    (g.status = .playing ∧ m.afterGame evs g = .ok (.accept evs [], m.withGame g)) ∨
      (g.status = .finished ∧ ∃ r, m.afterGame evs g = .ok (.accept evs r.1, r.2) ∧
        GameEnds (m.withGame g) g.finishingOrder r) := by
  rcases SingleGame.status_cases g with hp | hf
  · exact Or.inl ⟨hp, by simp [afterGame, SingleGame.isOver, hp]⟩
  · obtain ⟨r, hr, hends⟩ := onGameEnd_spec (m := m.withGame g) ⟨hb.1, hb.2, hb.3, hb.4, hb.5⟩ hu
      (hn ▸ hg.final hf)
    refine Or.inr ⟨hf, r, ?_, hends⟩
    simp only [afterGame, SingleGame.isOver, hf, decide_true, if_true, hr]
    rfl

/-- A call that the running game takes. -/
theorem game_outcome {g : SingleGame} {c : Call} {gc : SingleGame.Call}
    (hr : Running m g) (hc : c.toGame = some gc) (hl : ∀ s, c = .forfeit s → Leaves m s)
    (hb : Board (m.recorded c)) (hu : (m.recorded c).mustEndAfterForfeit = false)
    (hn : (m.recorded c).numPlayers = m.numPlayers) (hs : (g.step gc).numPlayers = g.numPlayers)
    (evs : List GameEvent) :
    ∃ r, (m.recorded c).afterGame evs (g.step gc) = .ok r ∧ Outcome m c r.1 r.2 := by
  have hok := SingleGame.step_ok hr.toGameOK gc
  rcases afterGame_spec hb hu hok (hs.trans (hr.seats.trans hn.symm)) evs with ⟨hp, he⟩ | ⟨hf, r, he, hends⟩
  · exact ⟨_, he, .moved c gc g evs hr hc hl hp⟩
  · exact ⟨_, he, .ended c gc g evs r hr hc hl hf hends⟩

/-- A play has its outcome. -/
theorem play_outcome (h : MatchOK m) (s : ℕ) (cards : List Card) :
    ∃ r, m.play s cards = .ok r ∧ Outcome m (.play s cards) r.1 r.2 := by
  rcases h.phase with ⟨g, hr⟩ | ⟨hands, w, l, hsw⟩ | hover
  · have hu := h.undecided (by rw [hr.state]; decide)
    unfold play
    rw [hr.state, hr.game]
    simp only
    split
    · exact game_outcome (c := .play s cards) hr rfl (fun t ht => by cases ht) h.toBoard hu rfl
        (SingleGame.play_frame g s cards).1 _
    · exact ⟨_, rfl, .rejected _ _ rfl rfl⟩
  · unfold play
    rw [hsw.state]
    exact ⟨_, rfl, .rejected _ _ rfl rfl⟩
  · unfold play
    rw [hover]
    exact ⟨_, rfl, .rejected _ _ rfl rfl⟩

/-- A pass has its outcome. -/
theorem pass_outcome (h : MatchOK m) (s : ℕ) :
    ∃ r, m.pass s = .ok r ∧ Outcome m (.pass s) r.1 r.2 := by
  rcases h.phase with ⟨g, hr⟩ | ⟨hands, w, l, hsw⟩ | hover
  · have hu := h.undecided (by rw [hr.state]; decide)
    unfold pass
    rw [hr.state, hr.game]
    simp only
    split
    · exact game_outcome (c := .pass s) hr rfl (fun t ht => by cases ht) h.toBoard hu rfl
        (SingleGame.pass_frame g s).1 _
    · exact ⟨_, rfl, .rejected _ _ rfl rfl⟩
  · unfold pass
    rw [hsw.state]
    exact ⟨_, rfl, .rejected _ _ rfl rfl⟩
  · unfold pass
    rw [hover]
    exact ⟨_, rfl, .rejected _ _ rfl rfl⟩

/-- A card given back has its outcome. -/
theorem switchGive_outcome (h : MatchOK m) (s : ℕ) (card : Card) :
    ∃ r, m.switchGive s card = .ok r ∧ Outcome m (.switchGive s card) r.1 r.2 := by
  rcases h.phase with ⟨g, hr⟩ | ⟨hands, w, l, hsw⟩ | hover
  · unfold switchGive
    rw [hr.state]
    exact ⟨_, rfl, .rejected _ _ rfl rfl⟩
  · have hu := h.undecided (by rw [hsw.state]; decide)
    unfold switchGive
    rw [hsw.state, hsw.hands_eq, hsw.winner_eq, hsw.loser_eq]
    simp only
    split
    · exact ⟨_, rfl, .rejected _ _ rfl rfl⟩
    split
    · exact ⟨_, rfl, .rejected _ _ rfl rfl⟩
    split
    · exact ⟨_, rfl, .rejected _ _ rfl rfl⟩
    split
    · exact ⟨_, rfl, .rejected _ _ rfl rfl⟩
    · rename_i idx hidx
      have hk : Kept m (m.giveBack hands w l idx card) := ⟨rfl, rfl, rfl, rfl, rfl, rfl⟩
      have hleads : l < (m.giveBack hands w l idx card).numPlayers := hsw.loser_lt
      obtain ⟨r, hr, hend, hkept, hg⟩ := beginPendingGame_spec
        (hk.board h.toBoard) (hk.mustEnd.trans hu)
        ⟨rfl, (moveCard_length ..).trans hsw.length, moveCard_ne_nil hsw.nonempty hsw.winner_two⟩
        hleads
      rw [hr]
      refine ⟨_, rfl, .returned s card ([.cardSwitchReturn w l (some card), r.1], r.2) hsw.state
        (List.forall_mem_cons.2 ⟨⟨rfl, rfl⟩, List.forall_mem_singleton.2 hend⟩) (hk.trans hkept) hg⟩
  · unfold switchGive
    rw [hover]
    exact ⟨_, rfl, .rejected _ _ rfl rfl⟩

/-- A forfeit has its outcome. -/
theorem forfeit_outcome (h : MatchOK m) (s : ℕ) :
    ∃ r, m.forfeit s = .ok r ∧ Outcome m (.forfeit s) r.1 r.2 := by
  unfold forfeit
  split
  · exact ⟨_, rfl, .rejected _ _ rfl rfl⟩
  rename_i hover
  split
  · exact ⟨_, rfl, .rejected _ _ rfl rfl⟩
  rename_i hlt
  rw [not_le] at hlt
  split
  · rename_i hg
    exact ⟨_, rfl, .idle s hover hg⟩
  rename_i hg
  simp only
  split
  · rename_i hend
    exact ⟨_, rfl, .decided s hover hlt hg hend⟩
  rename_i hend
  rw [Bool.not_eq_true] at hend
  have hleaves : Leaves m s := ⟨hlt, hg, hend⟩
  have hb := h.toBoard.leave hlt hg
  rcases h.phase with ⟨g, hr⟩ | ⟨hands, w, l, hsw⟩ | hover'
  · rw [show (m.leave s).state = .playing from hr.state, show (m.leave s).game = some g from hr.game]
    exact game_outcome (c := .forfeit s) hr rfl (fun t ht => by cases ht; exact hleaves) hb hend rfl
      (SingleGame.forfeitSeat_numPlayers g s) _
  · rw [show (m.leave s).state = .awaitingSwitch from hsw.state]
    simp only [onSwitchForfeit, show (m.leave s).pendingWinner = some w from hsw.winner_eq,
      show (m.leave s).pendingLoser = some l from hsw.loser_eq]
    split
    · have hleads : l < (m.leave s).numPlayers := hsw.loser_lt
      obtain ⟨r, hr, hev, hkept, hg'⟩ := beginPendingGame_spec (m := m.leave s) hb hend
        ⟨hsw.hands_eq, hsw.length, hsw.nonempty⟩ hleads
      rw [hr]
      refine ⟨_, rfl, .winnerLeft s ([.cardSwitchReturn s l none, r.1], r.2) hsw.state hleaves
        (List.forall_mem_cons.2 ⟨⟨rfl, rfl⟩, List.forall_mem_singleton.2 hev⟩) hkept hg'⟩
    · rename_i hne
      exact ⟨_, rfl, .left s hands w l hsw hne hleaves⟩
  · exact absurd hover' hover

/-- **No call throws, and each does one of the listed things.** -/
theorem apply_outcome (h : MatchOK m) (c : Call) :
    ∃ r, m.apply c = .ok r ∧ Outcome m c r.1 r.2 := by
  cases c with
  | play s cards => exact play_outcome h s cards
  | pass s => exact pass_outcome h s
  | switchGive s card => exact switchGive_outcome h s card
  | forfeit s => exact forfeit_outcome h s

theorem answer_outcome (h : MatchOK m) (c : Call) : Outcome m c (m.answer c).1 (m.answer c).2 := by
  obtain ⟨r, hr, ho⟩ := apply_outcome h c
  unfold answer
  rw [hr]
  exact ho

/-! ## The invariant -/

theorem MatchOK.of_kept {g : SingleGame} (h : MatchOK m) (hk : Kept m m') (hs : m.state ≠ .matchOver)
    (hr : Running m' g) : MatchOK m' where
  toBoard := hk.board h.toBoard
  undecided := fun _ => hk.mustEnd.trans (h.undecided hs)
  unwon := fun _ => by rw [hk.sideScores, hk.target]; exact h.unwon hs
  phase := Or.inl ⟨g, hr⟩

/-- The end of a game leaves the match over, or in its invariant at the next game. -/
theorem GameEnds.matchOK {order : List ℕ} {r : List MatchEvent × Match} (h : GameEnds m order r)
    (hb : Board m) (hu : m.mustEndAfterForfeit = false) : MatchOK r.2 := by
  cases h with
  | won points ev hpts hev hover =>
    have hb' := hb.scored order points
    exact ⟨⟨hb'.1, hb'.2, hb'.3, hb'.4, hb'.5⟩, fun h => absurd rfl h, fun h => absurd rfl h,
      Or.inr (Or.inr rfl)⟩
  | next points evs target r hpts hevs hone htarget hover hnext hprep =>
    have hs := hb.scored order points
    have hb' : Board ((m.scored order points).extend target) := ⟨hs.1, hs.2, hs.3, hs.4, hs.5⟩
    refine ⟨hnext.kept.board hb', fun _ => hnext.kept.mustEnd.trans hu, fun _ => ?_, ?_⟩
    · rw [hnext.kept.sideScores, hnext.kept.target]
      refine evaluateMatch_mono ?_ hover
      show m.target ≤ target
      rw [htarget]
      exact evaluateMatch_newTarget _ _
    · rcases hnext.phase with ⟨g, hg, -⟩ | ⟨hands, l, hsw⟩
      · exact Or.inl ⟨g, hg⟩
      · exact Or.inr (Or.inl ⟨hands, _, l, hsw⟩)

/-- The game and the match agree on who left. -/
theorem recorded_gone {g : SingleGame} {c : Call} {gc : SingleGame.Call} (hr : Running m g)
    (hc : c.toGame = some gc) (hl : ∀ s, c = .forfeit s → Leaves m s) :
    ∀ s, s ∈ (g.step gc).gone ↔ s ∈ (m.recorded c).goneSeats := by
  intro s
  cases c with
  | play t cards =>
    cases hc
    rw [show g.step (.play t cards) = (g.play t cards).2 from rfl, (SingleGame.play_frame g t cards).2]
    exact hr.gone_iff s
  | pass t =>
    cases hc
    rw [show g.step (.pass t) = (g.pass t).2 from rfl, (SingleGame.pass_frame g t).2]
    exact hr.gone_iff s
  | switchGive t card => cases hc
  | forfeit t =>
    cases hc
    obtain ⟨h1, h2, -⟩ := hl t rfl
    have hgone := SingleGame.forfeitSeat_gone hr.playing (hr.seats ▸ h1) (fun h => h2 ((hr.gone_iff t).1 h))
    rw [show g.step (.forfeitSeat t) = (g.forfeitSeat t).2 from rfl, hgone, List.mem_append, hr.gone_iff s]
    exact List.mem_append.symm

theorem step_numPlayers {g : SingleGame} (c : Call) {gc : SingleGame.Call} (hc : c.toGame = some gc) :
    (g.step gc).numPlayers = g.numPlayers := by
  cases c with
  | play t cards => cases hc; exact (SingleGame.play_frame g t cards).1
  | pass t => cases hc; exact (SingleGame.pass_frame g t).1
  | switchGive t card => cases hc
  | forfeit t => cases hc; exact SingleGame.forfeitSeat_numPlayers g t

theorem recorded_board {c : Call} (h : MatchOK m) (hs : m.state ≠ .matchOver)
    (hl : ∀ s, c = .forfeit s → Leaves m s) :
    Board (m.recorded c) ∧ (m.recorded c).mustEndAfterForfeit = false := by
  cases c with
  | forfeit s => exact ⟨h.toBoard.leave (hl s rfl).1 (hl s rfl).2.1, (hl s rfl).2.2⟩
  | _ => exact ⟨h.toBoard, h.undecided hs⟩

theorem recorded_rest (m : Match) (c : Call) : (m.recorded c).type = m.type ∧
    (m.recorded c).state = m.state ∧ (m.recorded c).sideScores = m.sideScores ∧
    (m.recorded c).target = m.target ∧ (m.recorded c).cumulative = m.cumulative ∧
    (m.recorded c).teams = m.teams := by
  cases c <;> exact ⟨rfl, rfl, rfl, rfl, rfl, rfl⟩

/-- The game a running match moved on to. -/
theorem Running.step {g : SingleGame} {c : Call} {gc : SingleGame.Call} (hr : Running m g)
    (hc : c.toGame = some gc) (hl : ∀ s, c = .forfeit s → Leaves m s)
    (hp : (g.step gc).status = .playing) :
    Running ((m.recorded c).withGame (g.step gc)) (g.step gc) := by
  obtain ⟨ht, hst, -⟩ := recorded_rest m c
  refine ⟨SingleGame.step_ok hr.toGameOK gc, hst.trans hr.state, rfl, ?_, hp, recorded_gone hr hc hl⟩
  rw [step_numPlayers c hc, hr.seats]
  unfold Match.numPlayers
  rw [show ((m.recorded c).withGame (g.step gc)).type = (m.recorded c).type from rfl, ht]

/-- **One call keeps the invariant of a match.** -/
theorem Outcome.matchOK {c : Call} {r : MatchActionResult} (ho : Outcome m c r m') (h : MatchOK m) :
    MatchOK m' := by
  cases ho with
  | rejected c r hok hev => exact h
  | idle s hs hg => exact h
  | decided s hs hlt hg hend =>
    have hb := h.toBoard.leave hlt hg
    exact ⟨⟨hb.1, hb.2, hb.3, hb.4, hb.5⟩, fun h => absurd rfl h, fun h => absurd rfl h,
      Or.inr (Or.inr rfl)⟩
  | moved c gc g evs hr hc hl hp =>
    have hs : m.state ≠ .matchOver := by rw [hr.state]; decide
    obtain ⟨hb, hu⟩ := recorded_board h hs hl
    obtain ⟨-, -, hscore, htarget, -, -⟩ := recorded_rest m c
    refine ⟨⟨hb.1, hb.2, hb.3, hb.4, hb.5⟩, fun _ => hu, fun _ => ?_, Or.inl ⟨_, hr.step hc hl hp⟩⟩
    have := h.unwon hs
    rw [← hscore, ← htarget] at this
    exact this
  | ended c gc g evs r hr hc hl hf hends =>
    have hs : m.state ≠ .matchOver := by rw [hr.state]; decide
    obtain ⟨hb, hu⟩ := recorded_board h hs hl
    exact hends.matchOK ⟨hb.1, hb.2, hb.3, hb.4, hb.5⟩ hu
  | returned s card r hs hev hk hg =>
    obtain ⟨g, hg, -⟩ := hg
    exact h.of_kept hk (by rw [hs]; decide) hg
  | winnerLeft s r hs hl hev hk hg =>
    obtain ⟨g, hg, -⟩ := hg
    have hs' : m.state ≠ .matchOver := by rw [hs]; decide
    refine ⟨hk.board (h.toBoard.leave hl.1 hl.2.1), fun _ => hk.mustEnd.trans hl.2.2, fun _ => ?_,
      Or.inl ⟨g, hg⟩⟩
    rw [hk.sideScores, hk.target]
    exact h.unwon hs'
  | left s hands w l hsw hne hl =>
    refine ⟨h.toBoard.leave hl.1 hl.2.1, fun _ => hl.2.2, fun _ => ?_, Or.inr (Or.inl ⟨hands, w, l, ?_⟩)⟩
    · exact h.unwon (by rw [hsw.state]; decide)
    · exact ⟨hsw.1, hsw.2, hsw.3, hsw.4, hsw.5, hsw.6, hsw.7, hsw.8⟩

theorem step_matchOK (h : MatchOK m) (c : Call) : MatchOK (m.step c) :=
  (answer_outcome h c).matchOK h

/-- **Every run keeps the invariant of a match.** -/
theorem run_matchOK (h : MatchOK m) (cs : List Call) : MatchOK (run step m cs) :=
  run_inv (P := MatchOK) (fun _ c hm => step_matchOK hm c) h cs

end Match

end Murlan
