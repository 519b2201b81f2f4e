import Mathlib.Data.List.Rotate
import Murlan.Proof.Match
import Murlan.Proof.Progress

/-!
# Who a match waits for

A seat that already holds first place of the running game may leave: it keeps the
place, and the next switch then waits for it. In a run without such a departure
(`KeepsWinner`) the match is `Fair`:

* `create_spec`: a match starts in its invariant.
* `Outcome.fair`, `run_fair`: every other call keeps the match fair.
* `match_waits_on_present`: the pending winner of a switch and the seat on turn of
  a game have not left.
-/

namespace Murlan

namespace Match

variable {m m' : Match} {c : Call} {r : MatchActionResult}

/-- The call is not the departure of the seat in first place of the running game. -/
def KeepsWinner (m : Match) : Call → Prop
  | .forfeit s => m.state = .playing → (m.game.bind fun g => g.finishingOrder.head?) ≠ some s
  | _ => True

instance (m : Match) : ∀ c, Decidable (m.KeepsWinner c)
  | .forfeit _ => inferInstanceAs (Decidable (_ → _))
  | .play _ _ => inferInstanceAs (Decidable True)
  | .pass _ => inferInstanceAs (Decidable True)
  | .switchGive _ _ => inferInstanceAs (Decidable True)

/-! ## The first game -/

/-- The first game of a match is one that `Opens` describes, but for shared cards. -/
theorem firstGame_spec {o : MatchOptions} (hd : FullDeals o.type o.deal) :
    SingleGame.create (firstGame o) = .ok (SingleGame.fresh (firstGame o)) ∧
      (SingleGame.fresh (firstGame o)).GameOK := by
  have h2 : 2 ≤ playersForType o.type := two_le_playersForType o.type
  have hlen : (o.deal 0).length = playersForType o.type := hd.length 0
  have hne : ∀ h ∈ o.deal 0, h ≠ [] := by
    rintro h hm rfl
    have := hd.two_le 0 _ hm
    rw [List.length_nil] at this
    omega
  have hne0 : o.deal 0 ≠ [] := by
    intro h
    rw [h, List.length_nil] at hlen
    omega
  have hopen : ((firstGame o).leader, (firstGame o).openingCard) = firstGameOpening o.startSuit (o.deal 0) := rfl
  have hlead : (firstGame o).leader < (o.deal 0).length := (firstGameOpening_spec hopen hne0).1
  exact SingleGame.create_ok hlen h2 hne (lt_of_lt_of_eq hlead hlen)

/-- At the start both teams have nothing. -/
theorem teamTotals_zero (n : ℕ) (teams : List ℕ × List ℕ) :
    teamTotals (List.replicate n 0) teams = (0, 0) := by
  have hsum : ∀ group : List ℕ, group.foldl (fun acc s => acc + (List.replicate n 0).getD s 0) 0 = 0 := by
    intro group
    have hget : ∀ s, (List.replicate n 0).getD s 0 = 0 := by
      intro s
      rw [List.getD_eq_getElem?_getD, List.getElem?_replicate]
      split <;> rfl
    induction group with
    | nil => rfl
    | cons s group ih => rw [List.foldl_cons, hget]; exact ih
  unfold teamTotals
  simp only [hsum]

/-- Before any points every side leads. -/
theorem blank_unwon (o : MatchOptions) (target : ℕ) :
    (evaluateMatch (blank o).sideScores target).isOver = false := by
  have hscores : ∃ k, (blank o).sideScores = List.replicate (k + 2) 0 := by
    unfold sideScores
    rw [show (blank o).type = o.type from rfl]
    cases ht : o.type with
    | oneVOne => exact ⟨0, by simp [blank, ht, playersForType]⟩
    | oneVOneVOne => exact ⟨1, by simp [blank, ht, playersForType]⟩
    | twoVTwo => exact ⟨0, by simp [blank, teamTotals_zero]⟩
  obtain ⟨k, hk⟩ := hscores
  by_contra h
  rw [Bool.not_eq_false, evaluateMatch_over, hk] at h
  have hmax : ∀ n, maxScore (List.replicate n 0) = 0 := by
    intro n
    induction n with
    | zero => rfl
    | succ n ih =>
      unfold maxScore at ih ⊢
      rw [List.replicate_succ, List.foldr_cons, ih]
      rfl
  rw [hmax, List.count_replicate_self] at h
  omega

/-- A match that nobody left is undecided. -/
theorem blank_undecided (hb : Board m) (hg : m.goneSeats = []) : m.mustEndAfterForfeit = false := by
  have hlen := remaining_length hb
  rw [hg, List.length_nil, Nat.add_zero] at hlen
  have hpres : ∀ team, m.presentOf team = team := by
    intro team
    unfold presentOf
    rw [hg]
    simp
  unfold mustEndAfterForfeit
  split
  · rw [hpres, hpres, Bool.or_eq_false_iff, decide_eq_false_iff_not, decide_eq_false_iff_not]
    exact ⟨hb.teams.fst, hb.teams.snd⟩
  · have := two_le_playersForType m.type
    rw [decide_eq_false_iff_not, hlen]
    unfold Match.numPlayers
    omega

/-- **A match starts in its invariant**, with its first game just dealt. -/
theorem create_spec {o : MatchOptions} (hd : FullDeals o.type o.deal) (ht : TeamsOK o.teams) :
    ∃ m, create o = .ok m ∧ MatchOK m ∧ (∃ g, Running m g ∧ g.Dealt) ∧ m.type = o.type := by
  obtain ⟨hcreate, hok⟩ := firstGame_spec hd
  have hassert : (blank o).assertHandCount (o.deal 0) = .ok () := if_neg (not_not.2 (hd.length 0))
  set g := SingleGame.fresh (firstGame o) with hg
  have hrun : Running { blank o with dealt := 1, game := some g } g :=
    ⟨hok, rfl, rfl, rfl, rfl, fun s => Iff.rfl⟩
  refine ⟨{ blank o with dealt := 1, game := some g }, ?_, ?_, ⟨g, hrun, hok, rfl, rfl, rfl⟩, rfl⟩
  · simp only [create, hassert, hcreate, bind, Except.bind, pure, Except.pure]
  · have hb : Board (blank o) :=
      ⟨ht, hd, List.length_replicate, List.nodup_nil, fun s hs => by cases hs⟩
    refine ⟨⟨hb.1, hb.2, hb.3, hb.4, hb.5⟩, fun _ => blank_undecided (m := blank o) hb rfl, fun _ => blank_unwon o _,
      Or.inl ⟨g, hrun⟩⟩

/-! ## Who a match waits for -/

/-- The seat in first place of a running game is present, and so is the seat a
switch waits for. -/
structure Fair (m : Match) : Prop where
  game : ∀ g, Running m g → g.Placed
  switch : m.state = .awaitingSwitch → ∀ w, m.pendingWinner = some w → w ∉ m.goneSeats

theorem Running.unique {g g' : SingleGame} (h : Running m g) (h' : Running m g') : g' = g := by
  have := h'.game
  rw [h.game] at this
  cases this
  rfl

theorem Fair.of_game {g : SingleGame} (hr : Running m g) (hp : g.Placed) : Fair m := by
  refine ⟨fun g' hr' => by rw [hr.unique hr']; exact hp, fun hs => ?_⟩
  rw [hr.state] at hs; cases hs

theorem Fair.of_over (h : m.state = .matchOver) : Fair m := by
  refine ⟨fun g hr => ?_, fun hs => ?_⟩
  · have := hr.state
    rw [h] at this; cases this
  · rw [h] at hs; cases hs

/-- A call to a running game keeps its places fair. -/
theorem placed_step {g : SingleGame} {gc : SingleGame.Call} (hr : Running m g) (hp : g.Placed)
    (hc : c.toGame = some gc) (hk : KeepsWinner m c) : (g.step gc).Placed := by
  cases c with
  | play s cards => cases hc; exact SingleGame.play_placed hr.toGameOK hp s cards
  | pass s => cases hc; exact SingleGame.pass_placed hr.toGameOK hp s
  | switchGive s card => cases hc
  | forfeit s =>
    cases hc
    have := hk hr.state
    rw [hr.game] at this
    exact SingleGame.forfeitSeat_placed hr.toGameOK hp this

/-- **One call keeps a match fair**, the departure of the seat in first place apart. -/
theorem Outcome.fair (ho : Outcome m c r m') (hf : Fair m) (hk : KeepsWinner m c) : Fair m' := by
  cases ho with
  | rejected c r hok hev => exact hf
  | idle s hs hg => exact hf
  | decided s hs hlt hg hend => exact Fair.of_over rfl
  | moved c gc g evs hr hc hl hp => exact Fair.of_game (hr.step hc hl hp) (placed_step hr (hf.game g hr) hc hk)
  | ended c gc g evs r hr hc hl hfin hends =>
    cases hends with
    | won points ev hpts hev hover => exact Fair.of_over rfl
    | next points evs target r hpts hevs hone htarget hover hnext hprep =>
      rcases hnext.phase with ⟨g', hr', hd⟩ | ⟨hands, l, hsw⟩
      · exact Fair.of_game hr' hd.placed
      · -- the switch waits for the seat that finished first
        refine ⟨fun g' hr' => ?_, fun _ w hw => ?_⟩
        · have := hr'.state
          rw [hsw.state] at this; cases this
        · rw [hsw.winner_eq] at hw
          cases hw
          have hperm := (SingleGame.step_ok hr.toGameOK gc).final hfin
          have hne : (g.step gc).finishingOrder ≠ [] := by
            intro h
            have h0 := hperm.length_eq
            have h2 := (SingleGame.step_ok hr.toGameOK gc).two_le
            rw [h, List.length_nil, List.length_range] at h0
            omega
          have hhead := (placed_step hr (hf.game g hr) hc hk).head
            ((g.step gc).finishingOrder.headD 0) (by
              rw [List.headD_eq_head?_getD, List.head?_eq_some_head hne]
              rfl)
          rw [hnext.kept.gone]
          exact fun h => hhead ((recorded_gone hr hc hl _).2 h)
  | returned s card r hs hev hkept hg =>
    obtain ⟨g, hr, hd⟩ := hg
    exact Fair.of_game hr hd.placed
  | winnerLeft s r hs hl hev hkept hg =>
    obtain ⟨g, hr, hd⟩ := hg
    exact Fair.of_game hr hd.placed
  | left s hands w l hsw hne hl =>
    refine ⟨fun g hr => ?_, fun _ w' hw => ?_⟩
    · have := hr.state
      rw [show (m.leave s).state = m.state from rfl, hsw.state] at this; cases this
    · have hw' : m.pendingWinner = some w' := hw
      intro hmem
      rcases List.mem_append.1 hmem with h | h
      · exact hf.switch hsw.state w' hw' h
      · rw [List.mem_singleton] at h
        rw [hsw.winner_eq] at hw'
        cases hw'
        exact hne h.symm

theorem step_fair (h : MatchOK m) (hf : Fair m) (hk : KeepsWinner m c) : Fair (m.step c) :=
  (answer_outcome h c).fair hf hk

theorem run_fair (h : MatchOK m) (hf : Fair m) (cs : List Call) (hk : Guarded step KeepsWinner m cs) :
    MatchOK (run step m cs) ∧ Fair (run step m cs) :=
  guarded_inv (P := fun m => MatchOK m ∧ Fair m)
    (fun _ c hm hk => ⟨step_matchOK hm.1 c, step_fair hm.1 hm.2 hk⟩) ⟨h, hf⟩ cs hk

end Match

open Match in
/-- **A match never waits on a player who left**, in a run in which no seat that
already holds first place of the running game leaves. -/
theorem match_waits_on_present {o : MatchOptions} (hd : FullDeals o.type o.deal) (ht : TeamsOK o.teams)
    {m : Match} (hm : Match.create o = .ok m) (cs : List Match.Call)
    (hk : Guarded Match.step Match.KeepsWinner m cs) :
    ((run Match.step m cs).state = .awaitingSwitch →
        ∃ w, (run Match.step m cs).pendingWinner = some w ∧ w ∉ (run Match.step m cs).goneSeats) ∧
      ((run Match.step m cs).state = .playing →
        ∃ g s, (run Match.step m cs).game = some g ∧ g.turn = some s ∧
          s ∉ (run Match.step m cs).goneSeats) := by
  obtain ⟨m', hm', hok, ⟨g, hr, hdealt⟩, -⟩ := create_spec hd ht
  rw [hm] at hm'
  cases hm'
  obtain ⟨h, hf⟩ := run_fair hok (Fair.of_game hr hdealt.placed) cs hk
  refine ⟨fun hs => ?_, fun hs => ?_⟩
  · rcases h.phase with ⟨g, hr⟩ | ⟨hands, w, l, hsw⟩ | hover
    · rw [hr.state] at hs; cases hs
    · exact ⟨w, hsw.winner_eq, hf.switch hs w hsw.winner_eq⟩
    · rw [hover] at hs; cases hs
  · rcases h.phase with ⟨g, hr⟩ | ⟨hands, w, l, hsw⟩ | hover
    · obtain ⟨s, hturn, ha⟩ := hr.turned hr.playing
      refine ⟨g, s, hr.game, hturn, fun hg => ?_⟩
      have := hr.gone_inactive s ((hr.gone_iff s).2 hg)
      rw [ha] at this; cases this
    · rw [hsw.state] at hs; cases hs
    · rw [hover] at hs; cases hs

/-- Three seats dealt the sorted deck; each deal hands the hands on by one seat. -/
def rotatingDeals : MatchOptions :=
  { type := .oneVOneVOne, deal := fun k => (sortedDeal 3).rotate k }

theorem rotatingDeals_full : FullDeals rotatingDeals.type rotatingDeals.deal := by
  refine ⟨fun k => List.length_rotate .., fun k h hh => ?_⟩
  have key : ∀ h ∈ sortedDeal 3, 2 ≤ h.length := by decide +kernel
  exact key h (List.mem_rotate.1 hh)

/-- A match on the first deal. -/
def firstDealt (o : MatchOptions) : Match :=
  { Match.blank o with dealt := 1, game := some (SingleGame.fresh (Match.firstGame o)) }

/-- The calls of a game of the sorted deck up to the first place of seat 0. -/
def firstPlace : List Match.Call :=
  [.play 0 (buildDeck.take 13), .pass 1, .pass 2, .play 0 ((buildDeck.drop 13).take 5)]

/-- The calls from there to the second place of seat 1, which ends the game. -/
def secondPlace : List Match.Call :=
  [.pass 1, .pass 2, .play 1 ((buildDeck.drop 26).take 10), .pass 2,
   .play 1 ((buildDeck.drop 18).take 7), .pass 2, .play 1 [.standard .r2 .H]]

/-- A whole game, and the switch after it. -/
theorem match_waits_on_present_game :
    ((run Match.step (firstDealt rotatingDeals) (firstPlace ++ secondPlace)).state = .awaitingSwitch →
        ∃ w, (run Match.step (firstDealt rotatingDeals) (firstPlace ++ secondPlace)).pendingWinner =
          some w ∧ w ∉ (run Match.step (firstDealt rotatingDeals) (firstPlace ++ secondPlace)).goneSeats) ∧
      ((run Match.step (firstDealt rotatingDeals) (firstPlace ++ secondPlace)).state = .playing →
        ∃ g s, (run Match.step (firstDealt rotatingDeals) (firstPlace ++ secondPlace)).game = some g ∧
          g.turn = some s ∧
          s ∉ (run Match.step (firstDealt rotatingDeals) (firstPlace ++ secondPlace)).goneSeats) :=
  match_waits_on_present rotatingDeals_full defaultTeams_ok rfl _ (by decide +kernel)

/-- Seat 0 takes first place and leaves; seat 1 ends the game and the switch waits
for seat 0. -/
theorem match_waits_on_gone_winner :
    ¬ ∀ (o : MatchOptions) (m : Match) (cs : List Match.Call), FullDeals o.type o.deal →
      TeamsOK o.teams → Match.create o = .ok m →
      ((run Match.step m cs).state = .awaitingSwitch →
        ∃ w, (run Match.step m cs).pendingWinner = some w ∧ w ∉ (run Match.step m cs).goneSeats) ∧
      ((run Match.step m cs).state = .playing →
        ∃ g s, (run Match.step m cs).game = some g ∧ g.turn = some s ∧
          s ∉ (run Match.step m cs).goneSeats) := by
  intro h
  obtain ⟨w, hw, hng⟩ := (h rotatingDeals (firstDealt rotatingDeals)
    (firstPlace ++ .forfeit 0 :: secondPlace) rotatingDeals_full defaultTeams_ok rfl).1 (by decide +kernel)
  have h0 : (run Match.step (firstDealt rotatingDeals)
      (firstPlace ++ .forfeit 0 :: secondPlace)).pendingWinner = some 0 := by decide +kernel
  rw [h0] at hw
  cases hw
  exact hng (by decide +kernel)

end Murlan
