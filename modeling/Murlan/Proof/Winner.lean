import Murlan.Proof.Waiting

/-!
# Who wins a match

A match can end on points, when a game ends by a play or by a departure, or by a
departure alone. With three seats the seat in first place of the running game may
leave and still win on points, with nobody left to pay; in a run without such a
departure:

* `forfeitWinner_sound`, `GameEnds.sound`: the winners are the present seats of the
  winning side, of which there is one.
* `match_winner_sound`: so it is for every end of a run, a match ends at most once,
  and nothing is accepted afterwards.
-/

namespace Murlan

namespace Match

variable {m m' : Match} {c : Call} {r : MatchActionResult}

/-- The answers to the calls of a run, in order. -/
def transcript (m : Match) : List Call → List MatchActionResult
  | [] => []
  | c :: cs => (m.answer c).1 :: transcript (m.step c) cs

/-- What a `matchEnded` event announces, read in the match after it: the winners of a
winning side are its present seats, of which there is one, and there is no winner
exactly when no seat is present. -/
structure SoundEnd (m : Match) (side : ℤ) (seats : List ℕ) : Prop where
  nonempty : 0 ≤ side → seats ≠ []
  present : 0 ≤ side → ∀ s, s ∈ seats ↔ s ∈ m.seatsOfSide side.toNat ∧ s ∉ m.goneSeats
  void : (side = -1 ∧ seats = []) ↔ m.remainingSeats = []

/-- A side with a present seat, all of whose present seats win. -/
theorem SoundEnd.of_present (side : ℕ) {seats : List ℕ} (hne : seats ≠ [])
    (hseats : ∀ s, s ∈ seats ↔ s ∈ m.seatsOfSide side ∧ s ∉ m.goneSeats) (hrem : m.remainingSeats ≠ []) :
    SoundEnd m side seats := by
  refine ⟨fun _ => hne, fun _ s => ?_, ⟨fun h => absurd h.2 hne, fun h => absurd h hrem⟩⟩
  rw [Int.toNat_natCast]
  exact hseats s

theorem remaining_ne_nil (hb : Board m) (hlt : m.goneSeats.length < m.numPlayers) :
    m.remainingSeats ≠ [] := by
  intro h
  have := remaining_length hb
  rw [h, List.length_nil] at this
  omega

theorem mustEnd_teams (ht : m.type = .twoVTwo) : m.mustEndAfterForfeit = false ↔
    m.presentOf m.teams.1 ≠ [] ∧ m.presentOf m.teams.2 ≠ [] := by
  unfold mustEndAfterForfeit
  rw [ht]
  simp only
  rw [Bool.or_eq_false_iff, decide_eq_false_iff_not, decide_eq_false_iff_not]

/-- **The winner when a forfeit decides the match** is the side that is left. -/
theorem forfeitWinner_sound (h : MatchOK m) (hs : m.state ≠ .matchOver) {s : ℕ}
    (hlt : s < m.numPlayers) (hg : s ∉ m.goneSeats) (hend : (m.leave s).mustEndAfterForfeit = true) :
    SoundEnd (m.leave s) (m.leave s).forfeitWinner.1 (m.leave s).forfeitWinner.2 := by
  have hu := h.undecided hs
  have htwo := two_remain h.toBoard hu
  have hb := h.toBoard.leave hlt hg
  have hglen : (m.leave s).goneSeats.length = m.goneSeats.length + 1 := by
    rw [show (m.leave s).goneSeats = m.goneSeats ++ [s] from rfl, List.length_append,
      List.length_singleton]
  have hn : (m.leave s).numPlayers = m.numPlayers := rfl
  have hrem := remaining_ne_nil hb (by omega)
  -- whoever else was present still is
  have hpres : ∀ team t, t ∈ m.presentOf team → t ≠ s → t ∈ (m.leave s).presentOf team := by
    intro team t ht hne
    rw [mem_presentOf] at ht ⊢
    refine ⟨ht.1, fun hmem => ?_⟩
    rcases List.mem_append.1 hmem with h1 | h1
    · exact ht.2 h1
    · exact hne (List.mem_singleton.1 h1)
  unfold forfeitWinner
  cases htype : m.type with
  | twoVTwo =>
    rw [show (m.leave s).type = .twoVTwo from htype]
    simp only
    obtain ⟨h1, h2⟩ := (mustEnd_teams htype).1 hu
    obtain ⟨a, ha⟩ := List.exists_mem_of_ne_nil _ h1
    obtain ⟨b, hb'⟩ := List.exists_mem_of_ne_nil _ h2
    have hnd := h.teams.perm.nodup_iff.2 List.nodup_range
    -- each team had somebody present, and only one of the two has left
    have hab : a ≠ b := (List.nodup_append.1 hnd).2.2 a (mem_presentOf.1 ha).1 b (mem_presentOf.1 hb').1
    have hside : ∀ side, (m.leave s).seatsOfSide side =
        if side = 0 then m.teams.1 else if side = 1 then m.teams.2 else [] := by
      intro side
      unfold seatsOfSide
      rw [show (m.leave s).type = .twoVTwo from htype]
      rfl
    split
    · rename_i ht
      exact SoundEnd.of_present 0 ht.1 (fun t => by rw [hside, if_pos rfl]; exact mem_presentOf) hrem
    · split
      · rename_i ht
        exact SoundEnd.of_present 1 ht.1 (fun t => by rw [hside]; exact mem_presentOf) hrem
      · -- one of the two teams has lost its last seat, and the other has not
        rename_i h01 h10
        exfalso
        have hend' : (m.leave s).presentOf m.teams.1 = [] ∨ (m.leave s).presentOf m.teams.2 = [] := by
          by_contra hno
          push Not at hno
          rw [(mustEnd_teams (m := m.leave s) htype).2 hno] at hend
          cases hend
        have hone : (m.leave s).presentOf m.teams.1 ≠ [] ∨ (m.leave s).presentOf m.teams.2 ≠ [] := by
          by_cases has : a = s
          · exact Or.inr (List.ne_nil_of_mem (hpres _ b hb' fun h => hab (has.trans h.symm)))
          · exact Or.inl (List.ne_nil_of_mem (hpres _ a ha has))
        rcases hend' with he | he
        · exact h10 ⟨hone.resolve_left (fun h => h he), he⟩
        · exact h01 ⟨hone.resolve_right (fun h => h he), he⟩
  | _ =>
    rw [show (m.leave s).type = _ from htype]
    simp only
    have hlen := remaining_length hb
    -- two were present and one has left
    have hless : (m.leave s).remainingSeats.length < 2 := by
      unfold mustEndAfterForfeit at hend
      rw [show (m.leave s).type = _ from htype] at hend
      exact of_decide_eq_true hend
    obtain ⟨t, ht⟩ := List.length_eq_one_iff.1 (show (m.leave s).remainingSeats.length = 1 by omega)
    rw [ht]
    refine SoundEnd.of_present t (List.cons_ne_nil _ _) (fun u => ?_) hrem
    unfold seatsOfSide
    rw [show (m.leave s).type = _ from htype]
    simp only [List.mem_singleton]
    refine ⟨fun hu => ⟨hu, ?_⟩, fun hu => hu.1⟩
    have : t ∈ (m.leave s).remainingSeats := by rw [ht]; exact List.mem_singleton_self t
    rw [hu]
    exact (mem_remainingSeats.1 this).2

/-! ## Winning on points -/

/-- The seat in last place of a three-seat game gets no points. -/
theorem gamePoints_last {front points : List ℕ} {w : ℕ}
    (h : gamePoints .oneVOneVOne (front ++ [w]) = .ok points) : points.getD w 0 = 0 := by
  have hlen : (front ++ [w]).length = playersForType .oneVOneVOne := by
    by_contra hne
    unfold gamePoints at h
    simp only at h
    rw [if_pos hne] at h
    cases h
  have hfront : front.length = 2 := by
    rw [List.length_append, List.length_singleton] at hlen
    exact Nat.succ_injective hlen
  rw [gamePoints_ok hlen] at h
  cases h
  rw [List.zipIdx_append, List.foldl_append, List.zipIdx_singleton, List.foldl_cons, List.foldl_nil]
  simp only [hfront, Nat.zero_add]
  rw [show (placePoints .oneVOneVOne).getD 2 0 = 0 from rfl, List.getD_eq_getElem?_getD,
    List.getElem?_set_self']
  cases (List.foldl _ _ _ : List ℕ)[w]? <;> rfl

/-- Scores only rise: a top score that some side held before is not shared by fewer
sides now. -/
theorem count_le_gain (gain : ℕ → ℕ) (b : ℕ) (l : List ℕ) : ∀ k,
    (∀ v ∈ (l.zipIdx k).map (fun p => p.1 + gain p.2), v ≤ b) →
    l.count b ≤ ((l.zipIdx k).map fun p => p.1 + gain p.2).count b := by
  induction l with
  | nil => intro k _; exact le_rfl
  | cons a l ih =>
    intro k h
    rw [List.zipIdx_cons, List.map_cons] at h ⊢
    have hrest := ih (k + 1) fun v hv => h v (List.mem_cons_of_mem _ hv)
    have hhead : a + gain k ≤ b := h _ List.mem_cons_self
    rw [List.count_cons, List.count_cons]
    by_cases hab : a = b
    · have hgain : a + gain k = b := by omega
      rw [hgain, hab]
      exact Nat.add_le_add_right hrest _
    · have hif : (if (a == b) = true then 1 else 0) = 0 := if_neg (by simpa using hab)
      rw [hif]
      exact Nat.le_trans hrest (Nat.le_add_right _ _)

/-- **A seat that left does not win a three-seat match on points**: it has gained
nothing in the game that ends, and it did not lead at the target before. -/
theorem leading_present {order points front : List ℕ} {w : ℕ}
    (ht : m.type = .oneVOneVOne) (hun : (evaluateMatch m.sideScores m.target).isOver = false)
    (ho : order = front ++ [w]) (hpts : gamePoints m.type order = .ok points)
    (hover : (evaluateMatch (m.scored order points).sideScores m.target).isOver = true) :
    (m.scored order points).leadingSide ≠ w := by
  intro hw
  have hold : m.sideScores = m.cumulative := by unfold sideScores; rw [ht]
  have hnew : (m.scored order points).sideScores =
      m.cumulative.zipIdx.map fun p => p.1 + points.getD p.2 0 := by
    unfold sideScores
    rw [show (m.scored order points).type = .oneVOneVOne from ht]
    rfl
  rw [ht, ho] at hpts
  have hzero := gamePoints_last hpts
  unfold leadingSide at hw
  rw [evaluateMatch_over] at hover
  rw [hnew] at hw hover
  set new := m.cumulative.zipIdx.map fun p => p.1 + points.getD p.2 0 with hnewdef
  set top := maxScore new with htop
  have hmem : top ∈ new := List.count_pos_iff.1 (by omega)
  have hwlt : w < new.length := hw ▸ List.idxOf_lt_length_of_mem hmem
  have hwlt' : w < m.cumulative.length := by
    rw [hnewdef, List.length_map, List.length_zipIdx] at hwlt
    exact hwlt
  -- the seat's own score has not changed
  have hwtop : m.cumulative[w] = top := by
    have h1 : new[w] = top := by
      have hidx : new.idxOf top < new.length := by rw [hw]; exact hwlt
      have := List.getElem_idxOf hidx
      simpa only [hw] using this
    rw [List.getD_eq_getElem?_getD] at hzero
    rw [← h1]
    simp [hnewdef, hzero]
  have hle : ∀ v ∈ new, v ≤ top := fun v hv => le_maxScore hv
  have hcount := count_le_gain (fun i => points.getD i 0) top m.cumulative 0 hle
  have hmax : maxScore m.cumulative = top := by
    apply le_antisymm
    · refine maxScore_le fun v hv => ?_
      obtain ⟨i, hi, rfl⟩ := List.mem_iff_getElem.1 hv
      have hi' : i < new.length := by rw [hnewdef, List.length_map, List.length_zipIdx]; exact hi
      have := hle _ (List.getElem_mem hi')
      simp only [hnewdef, List.getElem_map, List.getElem_zipIdx, Nat.zero_add] at this
      omega
    · rw [← hwtop]
      exact le_maxScore (List.getElem_mem hwlt')
  have hpos : 0 < m.cumulative.count top := List.count_pos_iff.2 (hwtop ▸ List.getElem_mem hwlt')
  have : (evaluateMatch m.sideScores m.target).isOver = true := by
    rw [evaluateMatch_over, hold, hmax]
    rw [← hnewdef] at hcount
    exact ⟨by omega, hover.2⟩
  rw [hun] at this; cases this

/-- **A match won on points** is won by a side with a present seat. -/
theorem endByScore_sound {order points : List ℕ} (hb : Board m) (hu : m.mustEndAfterForfeit = false)
    (hover : (evaluateMatch (m.scored order points).sideScores m.target).isOver = true)
    (h3 : m.type = .oneVOneVOne → (m.scored order points).leadingSide ∉ m.goneSeats) :
    SoundEnd m (m.scored order points).leadingSide
      ((m.scored order points).presentOf ((m.scored order points).seatsOfSide
        (m.scored order points).leadingSide)) := by
  have htwo := two_remain hb hu
  have hseats : (m.scored order points).seatsOfSide = m.seatsOfSide := rfl
  have hpres : (m.scored order points).presentOf = m.presentOf := rfl
  rw [hseats, hpres]
  have hlead : (m.scored order points).leadingSide < (m.scored order points).sideScores.length := by
    rw [evaluateMatch_over] at hover
    exact List.idxOf_lt_length_of_mem (List.count_pos_iff.1 (by omega))
  set side := (m.scored order points).leadingSide with hside
  refine SoundEnd.of_present side ?_ (fun s => mem_presentOf) (remaining_ne_nil hb (by omega))
  cases ht : m.type with
  | oneVOne =>
    have hn : m.numPlayers = 2 := by unfold Match.numPlayers; rw [ht]; rfl
    have hgone : m.goneSeats = [] := List.length_eq_zero_iff.1 (by omega)
    refine List.ne_nil_of_mem (a := side) (mem_presentOf.2 ⟨?_, ?_⟩)
    · unfold seatsOfSide; rw [ht]; exact List.mem_singleton_self side
    · rw [hgone]; exact List.not_mem_nil
  | oneVOneVOne =>
    refine List.ne_nil_of_mem (a := side) (mem_presentOf.2 ⟨?_, h3 ht⟩)
    unfold seatsOfSide; rw [ht]; exact List.mem_singleton_self side
  | twoVTwo =>
    have h2 : side < 2 := by
      unfold sideScores at hlead
      rw [show (m.scored order points).type = .twoVTwo from ht] at hlead
      exact hlead
    obtain ⟨h0, h1⟩ := (mustEnd_teams ht).1 hu
    unfold seatsOfSide
    rw [ht]
    simp only
    by_cases hs0 : side = 0
    · rw [if_pos hs0]; exact h0
    · rw [if_neg hs0, if_pos (by omega)]; exact h1

/-! ## Every end of a run -/

/-- The condition of `KeepsWinner`, where it matters for who wins. -/
def KeepsSeatWinner (m : Match) (c : Call) : Prop := m.type = .oneVOneVOne → KeepsWinner m c

instance (m : Match) (c : Call) : Decidable (m.KeepsSeatWinner c) := inferInstanceAs (Decidable (_ → _))

/-- A departed seat is last in the three-seat game that ends. -/
theorem gone_last {g : SingleGame} {gc : SingleGame.Call} (h : MatchOK m) (hr : Running m g)
    (hc : c.toGame = some gc) (hl : ∀ s, c = .forfeit s → Leaves m s) (hf : (g.step gc).status = .finished)
    (ht : m.type = .oneVOneVOne) (hp : (g.step gc).Placed) {w : ℕ} (hw : w ∈ (m.recorded c).goneSeats) :
    ∃ front, (g.step gc).finishingOrder = front ++ [w] := by
  have hs : m.state ≠ .matchOver := by rw [hr.state]; decide
  obtain ⟨hb, hu⟩ := recorded_board h hs hl
  have hn : (m.recorded c).numPlayers = 3 := by
    unfold Match.numPlayers
    rw [(recorded_rest m c).1, ht]
    rfl
  have hgn : (g.step gc).numPlayers = 3 := by
    rw [step_numPlayers c hc, hr.seats]
    unfold Match.numPlayers
    rw [ht]
    rfl
  have hlen : (m.recorded c).goneSeats.length ≤ 1 := by
    have := two_remain hb hu
    omega
  -- the game knows of the same departures, so of this one alone
  have hgone : (g.step gc).gone = [w] := by
    have hok := SingleGame.step_ok hr.toGameOK gc
    have hiff := recorded_gone hr hc hl
    have hsub : (g.step gc).gone ⊆ (m.recorded c).goneSeats := fun s hs => (hiff s).1 hs
    have hle := (List.subperm_of_subset hok.gone_nodup hsub).length_le
    have hmem := (hiff w).2 hw
    cases hg : (g.step gc).gone with
    | nil => rw [hg] at hmem; cases hmem
    | cons a l =>
      rw [hg, List.length_cons] at hle
      have hl0 : l = [] := List.length_eq_zero_iff.1 (by omega)
      rw [hg, hl0, List.mem_singleton] at hmem
      rw [hl0, hmem]
  obtain ⟨front, hfront⟩ := hp.last hgn hf
  rw [hgone] at hfront
  exact ⟨front, hfront⟩

/-- **Whatever ends a match announces the present seats of the winning side.** -/
theorem Outcome.end_sound (ho : Outcome m c r m') (h : MatchOK m)
    (hf : m.type = .oneVOneVOne → Fair m) (hk : KeepsSeatWinner m c) {side : ℤ} {seats scores : List ℕ}
    (he : .matchEnded side seats scores ∈ r.matchEvents) : SoundEnd m' side seats := by
  have hno : ∀ evs : List MatchEvent, (∀ e ∈ evs, e.isEnd = false) →
      .matchEnded side seats scores ∉ evs := by
    intro evs hevs hmem
    have := hevs _ hmem
    cases this
  cases ho with
  | rejected c r hok hev => rw [hev] at he; cases he
  | idle s hs hg => cases he
  | decided s hs hlt hg hend =>
    have hsound := forfeitWinner_sound h hs hlt hg hend
    cases List.mem_singleton.1 he
    exact ⟨hsound.1, hsound.2, hsound.3⟩
  | moved c gc g evs hr hc hl hp => cases he
  | ended c gc g evs r hr hc hl hfin hends =>
    have hs : m.state ≠ .matchOver := by rw [hr.state]; decide
    obtain ⟨hb, hu⟩ := recorded_board h hs hl
    obtain ⟨htype, -, hscore, htarget, -, -⟩ := recorded_rest m c
    have hb' : Board ((m.recorded c).withGame (g.step gc)) := ⟨hb.1, hb.2, hb.3, hb.4, hb.5⟩
    cases hends with
    | won points ev hpts hev hover =>
      rcases List.mem_cons.1 he with rfl | he
      · cases hev
      cases List.mem_singleton.1 he
      have hsound := endByScore_sound hb' hu hover fun ht hmem => by
        have ht' : m.type = .oneVOneVOne := htype.symm.trans ht
        have hplaced := placed_step hr ((hf ht').game g hr) hc (hk ht')
        obtain ⟨front, hfront⟩ := gone_last h hr hc hl hfin ht' hplaced hmem
        have hun := h.unwon hs
        rw [← hscore, ← htarget] at hun
        exact leading_present (m := (m.recorded c).withGame (g.step gc)) ht hun hfront hpts hover rfl
      exact ⟨hsound.1, hsound.2, hsound.3⟩
    | next points evs target r hpts hevs hone htarget hover hnext hprep =>
      rcases List.mem_append.1 he with he | he
      · exact absurd he (hno _ hevs)
      · exact absurd he (hno _ fun e he => (hnext.events e he).1)
  | returned s card r hs hev hkept hg => exact absurd he (hno _ fun e he => (hev e he).1)
  | winnerLeft s r hs hl hev hkept hg => exact absurd he (hno _ fun e he => (hev e he).1)
  | left s hands w l hsw hne hl => cases he

/-- A call ends a match at most once, and then the match is over. -/
theorem Outcome.end_count (ho : Outcome m c r m') :
    r.matchEvents.countP MatchEvent.isEnd = 0 ∨
      (r.matchEvents.countP MatchEvent.isEnd = 1 ∧ m'.state = .matchOver) := by
  have hno : ∀ evs : List MatchEvent, (∀ e ∈ evs, e.isEnd = false) → evs.countP MatchEvent.isEnd = 0 := by
    intro evs hevs
    rw [List.countP_eq_zero]
    intro e he
    rw [hevs e he]
    decide
  cases ho with
  | rejected c r hok hev => left; rw [hev]; rfl
  | idle s hs hg => left; rfl
  | decided s hs hlt hg hend => right; exact ⟨rfl, rfl⟩
  | moved c gc g evs hr hc hl hp => left; rfl
  | ended c gc g evs r hr hc hl hfin hends =>
    cases hends with
    | won points ev hpts hev hover =>
      right
      refine ⟨?_, rfl⟩
      show (ev :: (endByScore _ _).1).countP MatchEvent.isEnd = 1
      rw [List.countP_cons_of_neg (by rw [MatchEvent.not_end hev]; decide)]
      rfl
    | next points evs target r hpts hevs hone htarget hover hnext hprep =>
      left
      show (evs ++ r.1).countP MatchEvent.isEnd = 0
      rw [List.countP_append, hno _ hevs, hno _ fun e he => (hnext.events e he).1]
  | returned s card r hs hev hkept hg => left; exact hno _ fun e he => (hev e he).1
  | winnerLeft s r hs hl hev hkept hg => left; exact hno _ fun e he => (hev e he).1
  | left s hands w l hsw hne hl => left; rfl

/-- **A match that is over accepts nothing** and does not change. -/
theorem answer_over (hs : m.state = .matchOver) (c : Call) :
    (m.answer c).1.ok = false ∧ (m.answer c).1.matchEvents = [] ∧ (m.answer c).2 = m := by
  cases c with
  | play s cards => simp [answer, apply, play, hs, MatchActionResult.fail]
  | pass s => simp [answer, apply, pass, hs, MatchActionResult.fail]
  | switchGive s card => simp [answer, apply, switchGive, hs, MatchActionResult.fail]
  | forfeit s => simp [answer, apply, forfeit, hs, MatchActionResult.fail]

/-- Once the match is over nothing is accepted. -/
theorem transcript_over (cs : List Call) (hs : m.state = .matchOver) :
    ∀ r ∈ transcript m cs, r.ok = false ∧ r.matchEvents = [] := by
  induction cs with
  | nil => intro r hr; cases hr
  | cons c cs ih =>
    obtain ⟨h1, h2, h3⟩ := answer_over hs c
    intro r hr
    rcases List.mem_cons.1 hr with rfl | hr
    · exact ⟨h1, h2⟩
    · rw [show m.step c = m from h3] at hr
      exact ih r hr

/-- **A run ends a match at most once.** -/
theorem transcript_count (cs : List Call) : ∀ m : Match, MatchOK m →
    ((transcript m cs).flatMap fun r => r.matchEvents).countP MatchEvent.isEnd ≤ 1 := by
  induction cs with
  | nil => intro m _; exact Nat.zero_le 1
  | cons c cs ih =>
    intro m h
    have hrest := ih (m.step c) (step_matchOK h c)
    show ((m.answer c).1.matchEvents ++ (transcript (m.step c) cs).flatMap _).countP _ ≤ 1
    rw [List.countP_append]
    rcases (answer_outcome h c).end_count with h0 | ⟨h1, hover⟩
    · rw [h0, Nat.zero_add]; exact hrest
    · have hnone : (transcript (m.step c) cs).flatMap (fun r => r.matchEvents) = [] := by
        rw [List.flatMap_eq_nil_iff]
        exact fun r hr => (transcript_over cs hover r hr).2
      rw [hnone, h1]
      rfl

theorem Outcome.type (ho : Outcome m c r m') : m'.type = m.type := by
  have hrec := (recorded_rest m c).1
  cases ho with
  | ended c gc g evs r hr hc hl hfin hends =>
    cases hends with
    | won points ev hpts hev hover => exact hrec
    | next points evs target r hpts hevs hone htarget hover hnext hprep => exact hnext.kept.type.trans hrec
  | moved c gc g evs hr hc hl hp => exact hrec
  | returned s card r hs hev hkept hg => exact hkept.type
  | winnerLeft s r hs hl hev hkept hg => exact hkept.type
  | _ => rfl

/-- What a guarded run keeps: the invariant, and fair places with three seats. -/
theorem run_seatFair (h : MatchOK m) (hf : m.type = .oneVOneVOne → Fair m) (cs : List Call)
    (hk : Guarded step KeepsSeatWinner m cs) :
    MatchOK (run step m cs) ∧ ((run step m cs).type = .oneVOneVOne → Fair (run step m cs)) := by
  refine guarded_inv (P := fun m => MatchOK m ∧ (m.type = .oneVOneVOne → Fair m))
    (fun m c hm hk => ⟨step_matchOK hm.1 c, fun ht => ?_⟩) ⟨h, hf⟩ cs hk
  have ht' : m.type = .oneVOneVOne := (answer_outcome hm.1 c).type.symm.trans ht
  exact step_fair hm.1 (hm.2 ht') (hk ht')

end Match

open Match in
/-- **Winner soundness.** In a run in which no seat leaves a three-seat match while it
holds first place of the running game: the match ends at most once, whatever ends it
announces the present seats of the winning side, and no call is accepted afterwards. -/
theorem match_winner_sound {o : MatchOptions} (hd : FullDeals o.type o.deal) (ht : TeamsOK o.teams)
    {m : Match} (hm : Match.create o = .ok m) (cs : List Match.Call)
    (hk : Guarded Match.step Match.KeepsSeatWinner m cs) :
    ((transcript m cs).flatMap fun r => r.matchEvents).countP MatchEvent.isEnd ≤ 1 ∧
      ∀ pre c post, cs = pre ++ c :: post → ∀ side seats scores,
        .matchEnded side seats scores ∈ ((run Match.step m pre).answer c).1.matchEvents →
        SoundEnd (run Match.step m (pre ++ [c])) side seats ∧
          ∀ r ∈ transcript (run Match.step m (pre ++ [c])) post, r.ok = false := by
  obtain ⟨m', hm', hok, ⟨g, hr, hdealt⟩, -⟩ := create_spec hd ht
  rw [hm] at hm'
  cases hm'
  refine ⟨transcript_count cs m hok, ?_⟩
  rintro pre c post rfl side seats scores he
  obtain ⟨hpre, hkc⟩ := guarded_step hk
  obtain ⟨h, hf⟩ := run_seatFair hok (fun _ => Fair.of_game hr hdealt.placed) pre hpre
  have ho := answer_outcome h c
  have hrun : run Match.step m (pre ++ [c]) = ((run Match.step m pre).answer c).2 := by
    rw [run_append]; rfl
  rw [hrun]
  refine ⟨ho.end_sound h hf hkc he, fun r hr' => (transcript_over post ?_ r hr').1⟩
  rcases ho.end_count with h0 | ⟨-, hover⟩
  · rw [List.countP_eq_zero] at h0
    exact absurd rfl (h0 _ he)
  · exact hover

/-- Three seats dealt the sorted deck in every game. -/
def sortedDeals : MatchOptions := { type := .oneVOneVOne, deal := fun _ => sortedDeal 3 }

theorem sortedDeals_full : FullDeals sortedDeals.type sortedDeals.deal := by
  have hlen : (sortedDeal 3).length = 3 := by decide
  have htwo : ∀ h ∈ sortedDeal 3, 2 ≤ h.length := by decide +kernel
  exact ⟨fun _ => hlen, fun _ => htwo⟩

/-- Ten games, seat 0 first and seat 1 second in each: 20 points for seat 0. -/
def tenGames : List Match.Call := (List.replicate 10 (firstPlace ++ secondPlace)).flatten

open Match in
/-- Ten games and one more. -/
theorem match_winner_sound_ten :
    ((transcript (firstDealt sortedDeals) (tenGames ++ firstPlace ++ secondPlace)).flatMap
        fun r => r.matchEvents).countP MatchEvent.isEnd ≤ 1 ∧
      ∀ pre c post, tenGames ++ firstPlace ++ secondPlace = pre ++ c :: post → ∀ side seats scores,
        .matchEnded side seats scores ∈
          ((run Match.step (firstDealt sortedDeals) pre).answer c).1.matchEvents →
        SoundEnd (run Match.step (firstDealt sortedDeals) (pre ++ [c])) side seats ∧
          ∀ r ∈ transcript (run Match.step (firstDealt sortedDeals) (pre ++ [c])) post, r.ok = false :=
  match_winner_sound sortedDeals_full defaultTeams_ok rfl _ (by decide +kernel)

/-- Seat 0 takes first place of the eleventh game and leaves; seat 1 ends the game,
seat 0 has won with 22 points and there is nobody to pay. -/
theorem match_winner_gone :
    ¬ ∀ (o : MatchOptions) (m : Match) (pre : List Match.Call) (c : Match.Call) (side : ℤ)
        (seats scores : List ℕ), FullDeals o.type o.deal → TeamsOK o.teams → Match.create o = .ok m →
        .matchEnded side seats scores ∈ ((run Match.step m pre).answer c).1.matchEvents →
        Match.SoundEnd (run Match.step m (pre ++ [c])) side seats := by
  intro h
  exact (h sortedDeals (firstDealt sortedDeals) (tenGames ++ firstPlace ++ .forfeit 0 :: secondPlace.dropLast)
    (.play 1 [.standard .r2 .H]) 0 [] [22, 11, 0] sortedDeals_full defaultTeams_ok rfl
    (by decide +kernel)).nonempty le_rfl rfl

end Murlan
