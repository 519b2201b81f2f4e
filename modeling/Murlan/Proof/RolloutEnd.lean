import Murlan.Proof.BotSearch

/-!
# Rollouts end before their guard

* `Sim.Dealt`: a simulator of at most four hands with at most 54 cards.
* `Sim.rollout`: `rolloutStep` at the seat on turn, again and again.
* `Handed`: what an action leaves behind, with the turn, the lead, or the end of the game.
* `Sim.toGo`: the cards that are left, and below them the answers the pile still waits for.
  A play lowers the first, a pass the second.
* `rollout_finishes`: **fewer than `playoutGuard` steps end the game, and `playoutScore` gives
  the places of that end.**
-/

namespace Murlan

namespace Sim

variable {sim sim' base : Sim} {seat : ℕ} {combo : Combo}

/-- Whoever is in the game sits at the table and holds cards. -/
structure Holding (sim : Sim) : Prop where
  active_lt : ∀ s, sim.active s = true → s < sim.n
  active_hand : ∀ s, sim.active s = true → sim.hands s ≠ []

/-- **A simulator between moves**: somebody who is in the game is on turn, or nobody is in it. -/
structure Playable (sim : Sim) : Prop extends Holding sim where
  turn : ∀ t, sim.turn = some t → sim.active t = true
  ended : sim.turn = none → ∀ s, sim.active s = false

/-- The cards in all hands. -/
def cardsLeft (sim : Sim) : ℕ := ∑ s ∈ Finset.range sim.n, (sim.hands s).length

/-- **A simulator of hands** of at most 54 cards, for at most four seats. -/
structure Dealt (sim : Sim) : Prop extends Playable sim where
  seats : sim.n ≤ 4
  cards : sim.cardsLeft ≤ 54

/-- `rolloutStep` at the seat on turn, `k` times or until the game is fin. -/
def rollout : ℕ → Sim → Except String Sim
  | 0, sim => pure sim
  | k + 1, sim =>
    match sim.turn with
    | none => pure sim
    | some seat => sim.rolloutStep seat >>= rollout k

/-! ## What an action leaves behind -/

/-- The seat that may answer next is on turn, the one that leads next is, or the game is fin. -/
inductive Handed (base : Sim) : Sim → Prop
  | answers {t : ℕ} (hlt : t < base.n) (ht : base.active t = true) (hp : base.passed t = false) :
      Handed base { base with turn := some t }
  | leads {t : ℕ} (ht : base.active t = true) :
      Handed base { base with pile := none, owner := none, passed := fun _ => false, turn := some t }
  | ends (pile : Option Combo) (owner : Option ℕ) (passed : ℕ → Bool) (turn : Option ℕ) :
      Handed base (endGame { base with pile, owner, passed, turn })

/-- Who leads is in the game. -/
theorem trickLeader_active {t : ℕ} (h : sim.trickLeader = some t) : sim.active t = true := by
  unfold trickLeader at h
  cases ho : sim.owner with
  | none =>
    rw [ho] at h
    cases h
  | some w =>
    simp only [ho] at h
    split at h
    · rename_i hw
      cases h
      exact hw
    · exact (Cyclic.next_spec h).2

/-- A trick that is over leaves the hands. -/
theorem resolveTrick_handed (sim : Sim) : Handed sim sim.resolveTrick := by
  unfold resolveTrick
  simp only
  split
  · exact .ends none none (fun _ => false) sim.trickLeader
  · rename_i hgo
    push Not at hgo
    obtain ⟨t, ht⟩ := Option.ne_none_iff_exists'.1 hgo.1
    rw [ht]
    exact .leads (trickLeader_active ht)

/-- The turn that passes on leaves the hands. -/
theorem afterAction_handed (sim : Sim) (seat : ℕ) : Handed sim (sim.afterAction seat) := by
  unfold afterAction
  split
  · exact resolveTrick_handed sim
  simp only
  cases hnext : sim.nextEligible seat with
  | none => exact resolveTrick_handed sim
  | some t =>
    obtain ⟨hlt, hte⟩ := Cyclic.next_spec hnext
    rw [Bool.and_eq_true, Bool.not_eq_true'] at hte
    exact .answers hlt hte.1 hte.2

/-- **After a play**, with the seat in the game only if it has cards left. -/
theorem applyPlay_handed (sim : Sim) (seat : ℕ) (combo : Combo) :
    ((sim.putDown seat combo).hands seat ≠ [] ∧ Handed (sim.putDown seat combo) (sim.applyPlay seat combo)) ∨
      Handed ((sim.putDown seat combo).finishSeat seat) (sim.applyPlay seat combo) := by
  unfold applyPlay
  simp only
  split
  · refine Or.inr ?_
    split
    · exact .ends _ _ _ _
    · exact afterAction_handed _ seat
  · rename_i hmore
    exact Or.inl ⟨hmore, afterAction_handed _ seat⟩

/-! ## What stays -/

/-- Seats leave the game one by one, and whoever leaves it is added to the order. -/
structure Later (sim sim' : Sim) : Prop where
  n : sim'.n = sim.n
  active : ∀ s, sim'.active s = true → sim.active s = true
  order : ∃ l, sim'.order = sim.order ++ l ∧ ∀ s ∈ l, sim.active s = true
  placed : ∀ s, sim.active s = true → sim'.active s = true ∨ s ∈ sim'.order

/-- The table and the turn do not matter for who is in the game. -/
theorem Later.table (hn : sim'.n = sim.n) (ha : sim'.active = sim.active) (ho : sim'.order = sim.order) :
    Later sim sim' := by
  refine ⟨hn, fun s hs => ?_, ⟨[], by simp [ho], by simp⟩, fun s hs => Or.inl ?_⟩
  · rw [← ha]
    exact hs
  · rw [ha]
    exact hs

/-- Later than later is later. -/
theorem Later.trans {sim'' : Sim} (h : Later sim sim') (h' : Later sim' sim'') : Later sim sim'' := by
  obtain ⟨l, hl, hin⟩ := h.order
  obtain ⟨l', hl', hin'⟩ := h'.order
  refine ⟨h'.n.trans h.n, fun s hs => h.active s (h'.active s hs), ⟨l ++ l', ?_, ?_⟩, fun s hs => ?_⟩
  · rw [hl', hl, List.append_assoc]
  · intro s hs
    rcases List.mem_append.1 hs with hs | hs
    · exact hin s hs
    · exact h.active s (hin' s hs)
  · rcases h.placed s hs with ha | ho
    · exact h'.placed s ha
    · refine Or.inr ?_
      rw [hl']
      exact List.mem_append_left l' ho

/-- **A seat that is out of the game keeps its place.** -/
theorem Later.place (h : Later sim sim') (hs : sim.active seat = false) : sim'.place seat = sim.place seat := by
  obtain ⟨l, hl, hin⟩ := h.order
  have hnot : seat ∉ l := by
    intro hmem
    rw [hin seat hmem] at hs
    cases hs
  unfold Sim.place
  rw [hl, h.n]
  by_cases hmem : seat ∈ sim.order
  · rw [if_pos (List.mem_append_left l hmem), if_pos hmem, List.idxOf_append_of_mem hmem]
  · rw [if_neg hmem, if_neg (by simp [hmem, hnot])]

theorem endGame_later (h : ∀ s, sim.active s = true → s < sim.n) : Later sim sim.endGame := by
  refine ⟨rfl, fun s hs => ?_, ⟨_, rfl, fun s hs => (List.mem_filter.1 hs).2⟩, fun s hs => Or.inr ?_⟩
  · simp only [endGame] at hs
    split at hs
    · cases hs
    · exact hs
  · exact List.mem_append_right _ (List.mem_filter.2 ⟨List.mem_range.2 (h s hs), hs⟩)

theorem Handed.later (h : base.Holding) (hh : Handed base sim') : Later base sim' := by
  cases hh with
  | answers hlt ht hp => exact Later.table rfl rfl rfl
  | leads ht => exact Later.table rfl rfl rfl
  | ends pile owner passed turn =>
    have htable : Later base { base with pile, owner, passed, turn } := Later.table rfl rfl rfl
    exact htable.trans (endGame_later h.active_lt)

/-- With the hands as they were, somebody can play. -/
theorem Handed.playable (h : base.Holding) (hh : Handed base sim') : sim'.Playable := by
  have hlater := hh.later h
  cases hh with
  | @answers t hlt ht hp =>
    refine ⟨⟨h.active_lt, h.active_hand⟩, ?_, fun hno => by cases hno⟩
    rintro _ ⟨⟩
    exact ht
  | leads ht =>
    refine ⟨⟨h.active_lt, h.active_hand⟩, ?_, fun hno => by cases hno⟩
    rintro _ ⟨⟩
    exact ht
  | ends pile owner passed turn =>
    have hout : ∀ s, (endGame { base with pile, owner, passed, turn }).active s = false := by
      intro s
      by_contra hs
      rw [Bool.not_eq_false] at hs
      have hlt := h.active_lt s (hlater.active s hs)
      simp [endGame, hlt] at hs
    refine ⟨⟨fun s hs => ?_, fun s hs => ?_⟩, fun t ht => (by cases ht), fun _ => hout⟩
    · rw [hout s] at hs
      cases hs
    · rw [hout s] at hs
      cases hs

/-! ## What is lowered -/

/-- The seats that the pile still waits for, besides the one on turn. -/
def waiting (sim : Sim) : Finset ℕ :=
  (Finset.range sim.n).filter fun s => sim.active s = true ∧ sim.passed s = false ∧ some s ≠ sim.turn

theorem mem_waiting {s : ℕ} : s ∈ sim.waiting ↔
    s < sim.n ∧ sim.active s = true ∧ sim.passed s = false ∧ some s ≠ sim.turn := by
  unfold waiting
  rw [Finset.mem_filter, Finset.mem_range]

/-- The answers that may still be given to the pile. -/
def pending (sim : Sim) : ℕ := if sim.pile = none then 0 else sim.waiting.card + 1

/-- **What a step lowers**: a card weighs more than all answers to a pile. -/
def toGo (sim : Sim) : ℕ := (sim.n + 1) * sim.cardsLeft + sim.pending

/-- The seat that is on turn is not waited for. -/
theorem pending_le (h : sim.Holding) (hpile : sim.pile ≠ none) {t : ℕ} (ht : sim.turn = some t)
    (hact : sim.active t = true) : sim.pending ≤ sim.n := by
  have hlt : sim.waiting.card < (Finset.range sim.n).card := by
    refine Finset.card_lt_card ((Finset.filter_subset _ _).ssubset_of_mem_notMem
      (Finset.mem_range.2 (h.active_lt t hact)) fun hin => ?_)
    exact (mem_waiting.1 hin).2.2.2 ht.symm
  rw [Finset.card_range] at hlt
  rw [pending, if_neg hpile]
  omega

/-- **After a play** at most one answer of each other seat is waited for. -/
theorem Handed.toGo_le (h : base.Holding) (hh : Handed base sim') :
    sim'.turn = none ∨ sim'.toGo ≤ (base.n + 1) * base.cardsLeft + base.n := by
  cases hh with
  | @answers t hlt ht hp =>
    refine Or.inr (Nat.add_le_add_left ?_ _)
    by_cases hpile : base.pile = none
    · rw [pending, if_pos hpile]
      exact Nat.zero_le _
    · exact pending_le ⟨h.active_lt, h.active_hand⟩ hpile rfl ht
  | leads ht => exact Or.inr (Nat.add_le_add_left (Nat.zero_le _) _)
  | ends pile owner passed turn => exact Or.inl rfl

/-- **A pass** is one answer fewer to wait for. -/
theorem applyPass_toGo (ht : sim.turn = some seat) (hpile : sim.pile ≠ none) :
    (sim.applyPass seat).turn = none ∨ (sim.applyPass seat).toGo < sim.toGo := by
  have hpos : sim.pending = sim.waiting.card + 1 := by rw [pending, if_neg hpile]
  have hh := afterAction_handed { sim with passed := Function.update sim.passed seat true } seat
  unfold applyPass
  generalize afterAction { sim with passed := Function.update sim.passed seat true } seat = sim' at hh ⊢
  cases hh with
  | @answers t hlt hact hp =>
    refine Or.inr (Nat.add_lt_add_left ?_ _)
    -- the next seat was waited for; now it is on turn
    have hne : t ≠ seat := by
      rintro rfl
      simp at hp
    have hp' : sim.passed t = false := by simpa [Function.update_of_ne hne] using hp
    rw [hpos, pending, if_neg hpile, Nat.add_lt_add_iff_right]
    refine Finset.card_lt_card ((Finset.ssubset_iff_of_subset fun s hs => ?_).2 ⟨t, ?_, fun hin => ?_⟩)
    · obtain ⟨hs, ha, hps, -⟩ := mem_waiting.1 hs
      have hss : s ≠ seat := by
        rintro rfl
        simp at hps
      refine mem_waiting.2 ⟨hs, ha, by simpa [Function.update_of_ne hss] using hps, ?_⟩
      rw [ht]
      simpa using hss
    · refine mem_waiting.2 ⟨hlt, hact, hp', ?_⟩
      rw [ht]
      simpa using hne
    · exact (mem_waiting.1 hin).2.2.2 rfl
  | leads hact =>
    refine Or.inr (Nat.add_lt_add_left ?_ _)
    rw [hpos]
    exact Nat.succ_pos _
  | ends pile owner passed turn => exact Or.inl rfl

@[simp]
theorem putDown_hands : (sim.putDown seat combo).hands seat = removeCards (sim.hands seat) combo.cards :=
  Function.update_self ..

theorem putDown_hands_ne {s : ℕ} (hs : s ≠ seat) : (sim.putDown seat combo).hands s = sim.hands s :=
  Function.update_of_ne hs ..

/-- A play takes a card out of a hand. -/
theorem putDown_cardsLeft {cards : List Card} (hlt : seat < sim.n) (hne : cards ≠ [])
    (hsub : cards.Sublist (sim.hands seat)) (hcards : combo.cards = cards) :
    (sim.putDown seat combo).cardsLeft < sim.cardsLeft := by
  obtain ⟨c, hc⟩ := List.exists_mem_of_ne_nil _ hne
  have hfewer : (removeCards (sim.hands seat) combo.cards).length < (sim.hands seat).length :=
    List.length_filter_lt_length_iff_exists.2 ⟨c, hsub.subset hc, by simpa [hcards] using hc⟩
  refine Finset.sum_lt_sum (fun s _ => ?_) ⟨seat, Finset.mem_range.2 hlt, ?_⟩
  · by_cases hs : s = seat
    · rw [hs, putDown_hands]
      exact hfewer.le
    · rw [putDown_hands_ne hs]
  · rw [putDown_hands]
    exact hfewer

/-! ## A step -/

/-- A seat that is out is progress. -/
theorem finishSeat_later (hact : sim.active seat = true) : Later sim (sim.finishSeat seat) := by
  refine ⟨rfl, fun s hs => ?_, ⟨[seat], rfl, ?_⟩, fun s hs => ?_⟩
  · by_cases hss : s = seat
    · rw [hss]
      exact hact
    · simpa [finishSeat, Function.update_of_ne hss] using hs
  · intro s hs
    rw [List.mem_singleton.1 hs]
    exact hact
  · by_cases hss : s = seat
    · exact Or.inr (List.mem_append_right _ (List.mem_singleton.2 hss))
    · exact Or.inl (by simpa [finishSeat, Function.update_of_ne hss] using hs)

/-- What is left of the cards decides, whatever the pile then waits for. -/
theorem Handed.lowers (h : base.Holding) (hh : Handed base sim') (hn : base.n = sim.n)
    (hcards : base.cardsLeft < sim.cardsLeft) : sim'.turn = none ∨ sim'.toGo < sim.toGo := by
  refine (hh.toGo_le h).imp_right fun hle => ?_
  rw [hn] at hle
  have hfull : (sim.n + 1) * (base.cardsLeft + 1) ≤ (sim.n + 1) * sim.cardsLeft := Nat.mul_le_mul_left _ hcards
  rw [Nat.mul_add, Nat.mul_one] at hfull
  unfold toGo at hle ⊢
  omega

/-- **A play** with cards of the hand. -/
theorem applyPlay_lowers {cards : List Card} (h : sim.Playable) (hact : sim.active seat = true) (hne : cards ≠ [])
    (hsub : cards.Sublist (sim.hands seat)) (hcards : combo.cards = cards) :
    (sim.applyPlay seat combo).Playable ∧ Later sim (sim.applyPlay seat combo) ∧
      ((sim.applyPlay seat combo).turn = none ∨ (sim.applyPlay seat combo).toGo < sim.toGo) := by
  have hfewer : (sim.putDown seat combo).cardsLeft < sim.cardsLeft :=
    putDown_cardsLeft (h.active_lt seat hact) hne hsub hcards
  have hdown : Later sim (sim.putDown seat combo) := Later.table rfl rfl rfl
  rcases applyPlay_handed sim seat combo with ⟨hmore, hh⟩ | hh
  · have hbase : (sim.putDown seat combo).Holding := by
      refine ⟨h.active_lt, fun s hs => ?_⟩
      by_cases hss : s = seat
      · rw [hss]
        exact hmore
      · rw [putDown_hands_ne hss]
        exact h.active_hand s hs
    exact ⟨hh.playable hbase, hdown.trans (hh.later hbase), hh.lowers hbase rfl hfewer⟩
  · have hfin : Later (sim.putDown seat combo) ((sim.putDown seat combo).finishSeat seat) := finishSeat_later hact
    have hbase : ((sim.putDown seat combo).finishSeat seat).Holding := by
      refine ⟨fun s hs => h.active_lt s (hfin.active s hs), fun s hs => ?_⟩
      have hss : s ≠ seat := by
        rintro rfl
        simp [finishSeat] at hs
      have hsame : ((sim.putDown seat combo).finishSeat seat).hands s = sim.hands s := putDown_hands_ne hss
      rw [hsame]
      exact h.active_hand s (hfin.active s hs)
    exact ⟨hh.playable hbase, (hdown.trans hfin).trans (hh.later hbase), hh.lowers hbase rfl hfewer⟩

/-- **A step of a rollout** ends the game or lowers what is to go. -/
theorem rolloutStep_lowers (h : sim.Playable) (ht : sim.turn = some seat) :
    ∃ sim', sim.rolloutStep seat = .ok sim' ∧ sim'.Playable ∧ Later sim sim' ∧
      (sim'.turn = none ∨ sim'.toGo < sim.toGo) := by
  have hact := h.turn seat ht
  rcases rolloutStep_cases (h.active_hand seat hact) with ⟨cards, combo, hans, hcombo, he⟩ | ⟨hpile, he⟩
  · have hne : cards ≠ [] := by
      rintro rfl
      cases hcombo
    exact ⟨_, he, applyPlay_lowers h hact hne hans.sublist (identifyCombo_cards hcombo)⟩
  · have hh := afterAction_handed { sim with passed := Function.update sim.passed seat true } seat
    have hbase : Holding { sim with passed := Function.update sim.passed seat true } := ⟨h.active_lt, h.active_hand⟩
    have hpass : Later sim { sim with passed := Function.update sim.passed seat true } := Later.table rfl rfl rfl
    exact ⟨_, he, hh.playable hbase, hpass.trans (hh.later hbase), applyPass_toGo ht hpile⟩

/-! ## A whole rollout -/

theorem Playable.teamDone (h : sim.Playable) (ht : sim.turn = none) (me : ℕ) (mate : Option ℕ) :
    sim.teamDone me mate = true := by
  unfold Sim.teamDone
  cases mate with
  | none => simp [h.ended ht me]
  | some p => simp [h.ended ht me, h.ended ht p]

/-- The loop of `playoutScore` stops where it is. -/
theorem playout_stop {me : ℕ} {mate : Option ℕ} (hdone : sim.turn = none ∨ sim.teamDone me mate = true)
    (guard : ℕ) : sim.playout me mate guard = .ok sim := by
  cases guard with
  | zero => rfl
  | succ guard =>
    unfold playout
    cases ht : sim.turn with
    | none => rfl
    | some seat =>
      have hteam := hdone.resolve_left (by simp [ht])
      simp only [hteam, if_true]
      rfl

/-- **By induction on what is to go**: the rollout ends, and the loop of `playoutScore` stops
at the latest there, with the bot's team done. -/
theorem rollout_ends (m : ℕ) : ∀ {sim : Sim}, sim.Playable → sim.toGo < m →
    ∃ k ≤ m, ∃ fin, sim.rollout k = .ok fin ∧ fin.Playable ∧ fin.turn = none ∧ Later sim fin ∧
      ∀ me mate, ∃ last, (∀ guard, m ≤ guard → sim.playout me mate guard = .ok last) ∧
        last.teamDone me mate = true ∧ Later last fin := by
  induction m with
  | zero => exact fun _ hlt => absurd hlt (Nat.not_lt_zero _)
  | succ m ih =>
    intro sim h hlt
    cases ht : sim.turn with
    | none =>
      refine ⟨0, Nat.zero_le _, sim, rfl, h, ht, Later.table rfl rfl rfl, fun me mate => ?_⟩
      exact ⟨sim, fun guard _ => playout_stop (Or.inl ht) guard, h.teamDone ht me mate, Later.table rfl rfl rfl⟩
    | some seat =>
      obtain ⟨sim', he, h', hlater, hlow⟩ := rolloutStep_lowers h ht
      -- the rollout from the next state, which is over or has less to go
      have hrest : ∃ k ≤ m, ∃ fin, sim'.rollout k = .ok fin ∧ fin.Playable ∧ fin.turn = none ∧ Later sim' fin ∧
          ∀ me mate, ∃ last, (∀ guard, m ≤ guard → sim'.playout me mate guard = .ok last) ∧
            last.teamDone me mate = true ∧ Later last fin := by
        rcases hlow with hover | hless
        · refine ⟨0, Nat.zero_le _, sim', rfl, h', hover, Later.table rfl rfl rfl, fun me mate => ?_⟩
          exact ⟨sim', fun guard _ => playout_stop (Or.inl hover) guard, h'.teamDone hover me mate,
            Later.table rfl rfl rfl⟩
        · exact ih h' (by omega)
      obtain ⟨k, hk, fin, hfin, hpl, hnone, hlate, hplay⟩ := hrest
      refine ⟨k + 1, by omega, fin, ?_, hpl, hnone, hlater.trans hlate, fun me mate => ?_⟩
      · rw [rollout, ht]
        simp only [he]
        exact hfin
      by_cases hdone : sim.teamDone me mate = true
      · exact ⟨sim, fun guard _ => playout_stop (Or.inr hdone) guard, hdone, hlater.trans hlate⟩
      · obtain ⟨last, hlast, hteam, hl⟩ := hplay me mate
        refine ⟨last, fun guard hguard => ?_, hteam, hl⟩
        obtain ⟨guard, rfl⟩ : ∃ g, guard = g + 1 := ⟨guard - 1, by omega⟩
        rw [playout, ht]
        simp only [hdone, he]
        exact hlast guard (by omega)

/-- A rollout from at most 54 cards has at most 274 to go. -/
theorem Dealt.toGo_lt (h : sim.Dealt) : sim.toGo + 1 < playoutGuard := by
  have hcards : (sim.n + 1) * sim.cardsLeft ≤ (4 + 1) * 54 := Nat.mul_le_mul (by have := h.seats; omega) h.cards
  have hwaiting : sim.waiting.card ≤ sim.n := by
    have := Finset.card_filter_le (Finset.range sim.n)
      fun s => sim.active s = true ∧ sim.passed s = false ∧ some s ≠ sim.turn
    rwa [Finset.card_range] at this
  have hpending : sim.pending ≤ sim.n + 1 := by
    unfold pending
    split
    · omega
    · omega
  have hseats := h.seats
  unfold toGo playoutGuard
  omega

/-- Once its team is done, the score is that of the end of the game. -/
theorem teamDone_place {last fin : Sim} (hlater : Later last fin) {me : ℕ} {mate : Option ℕ}
    (hdone : last.teamDone me mate = true) :
    last.place me + (mate.map last.place).getD 0 = fin.place me + (mate.map fin.place).getD 0 := by
  unfold teamDone at hdone
  rw [Bool.and_eq_true, Bool.not_eq_true'] at hdone
  rw [hlater.place hdone.1]
  cases mate with
  | none => rfl
  | some p =>
    have hp : last.active p = false := by simpa using hdone.2
    simp only [Option.map_some, Option.getD_some, hlater.place hp]

end Sim

/-! ## The bot's searches -/

variable {sim : Sim}

/-- A game on turn gives the search such a simulator. -/
theorem ofGame_dealt {g : SingleGame} (hg : g.Seated) (hp : g.status = .playing) (hseats : g.numPlayers ≤ 4)
    (hcards : g.cardsLeft ≤ 54) (coop : Bool) : (Sim.ofGame g coop).Dealt := by
  obtain ⟨t, ht, hte⟩ := (hg.trick hp).turn
  refine ⟨⟨⟨hg.active_lt, hg.active_hand⟩, fun s hs => ?_, fun hno => ?_⟩, hseats, hcards⟩
  · have hst : some t = some s := ht.symm.trans hs
    cases hst
    exact (SingleGame.eligible_iff.1 hte).1
  · rw [show (Sim.ofGame g coop).turn = some t from ht] at hno
    cases hno

/-- **After any calls** of a game of at most four hands from one deck. -/
theorem run_dealt {o : GameOptions} {g : SingleGame} (hg : SingleGame.create o = .ok g) (hseats : o.numPlayers ≤ 4)
    (hdeck : o.hands.flatten.length ≤ 54) (cs : List SingleGame.Call)
    (hp : (run SingleGame.step g cs).status = .playing) (coop : Bool) :
    (Sim.ofGame (run SingleGame.step g cs) coop).Dealt := by
  have hseated := SingleGame.create_seated hg
  have hfewer : (run SingleGame.step g cs).Seated ∧ (run SingleGame.step g cs).cardsLeft ≤ 54 := by
    refine run_inv (P := fun g : SingleGame => g.Seated ∧ g.cardsLeft ≤ 54) (fun g c h => ⟨h.1.step c, ?_⟩) ⟨hseated, ?_⟩ cs
    · have := SingleGame.step_plays h.1 c
      omega
    · rw [SingleGame.create_cardsLeft hg]
      exact hdeck
  refine ofGame_dealt hfewer.1 hp ?_ hfewer.2 coop
  rw [SingleGame.run_numPlayers, (SingleGame.create_hands hg).2.1]
  exact hseats

/-- **What a rollout comes to** after `k` steps. -/
structure Sim.EndsAt (sim fin : Sim) (k : ℕ) : Prop where
  reached : sim.rollout k = .ok fin
  turn : fin.turn = none
  out : ∀ s, fin.active s = false
  /-- Everybody who was in the game has a place. -/
  placed : ∀ s, sim.active s = true → s ∈ fin.order
  /-- The loop of `playoutScore` does not come to its guard: it stops with the team done. -/
  stops : ∀ me mate, ∃ last, sim.playout me mate Sim.playoutGuard = .ok last ∧ last.teamDone me mate = true
  /-- The score is that of the end. -/
  score : ∀ me mate, sim.playoutScore me mate = .ok (fin.place me + (mate.map fin.place).getD 0)

/-- **Rollouts end before their guard**: from hands of at most 54 cards for at most four seats,
fewer than `playoutGuard` steps bring the game to its end, and that end is what is scored. -/
theorem rollout_finishes (h : sim.Dealt) : ∃ k < Sim.playoutGuard, ∃ fin, sim.EndsAt fin k := by
  have hguard := h.toGo_lt
  obtain ⟨k, hk, fin, hfin, hpl, hnone, hlater, hplay⟩ :=
    Sim.rollout_ends (sim.toGo + 1) h.toPlayable (Nat.lt_succ_self _)
  refine ⟨k, by omega, fin, hfin, hnone, hpl.ended hnone, fun s hs => ?_, fun me mate => ?_, fun me mate => ?_⟩
  · refine (hlater.placed s hs).resolve_left ?_
    rw [hpl.ended hnone s]
    exact Bool.false_ne_true
  · obtain ⟨last, hlast, hdone, -⟩ := hplay me mate
    exact ⟨last, hlast Sim.playoutGuard (by omega), hdone⟩
  · obtain ⟨last, hlast, hdone, hl⟩ := hplay me mate
    rw [Sim.playoutScore, hlast Sim.playoutGuard (by omega), ← Sim.teamDone_place hl hdone]
    rfl

theorem onePass_dealt : (Sim.ofGame onePass false).Dealt :=
  run_dealt (show SingleGame.create threeHands = .ok _ from rfl) (by decide) (by decide) _ (by decide +kernel) false

theorem rollout_finishes_onePass :
    ∃ k < Sim.playoutGuard, ∃ fin, (Sim.ofGame onePass false).EndsAt fin k :=
  rollout_finishes onePass_dealt

end Murlan
