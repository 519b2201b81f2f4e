import Murlan.Proof.Finite
import Murlan.Proof.Progress
import Murlan.Spec.BotSearch

/-!
# The bot's simulator and the game

* `Corresponds g sim`: the simulator is at the state of the game. While the game is being
  played this includes the table; once it is over only who holds what, and the order.
* `applyPass_corresponds`: a pass keeps it.
* `applyPlay_corresponds_iff`: a play keeps it exactly when nobody has passed since the last
  play, or the play ends the game. `SingleGame.play` forgets the passes, `applyPlay` does not.
* `rolloutStep_accepted`: the fast policy makes moves that the game accepts.
* `sim_follows_game`: one move, every run, and every rollout.
-/

namespace Murlan

variable {g : SingleGame} {sim : Sim} {seat : ℕ} {cards : List Card} {combo : Combo}

/-- The same seats hold the same cards, and the same have finished. -/
structure Holders (g : SingleGame) (sim : Sim) : Prop where
  seats : sim.n = g.numPlayers
  hands : ∀ s < g.numPlayers, sim.hands s = g.hands s
  active : ∀ s < g.numPlayers, sim.active s = g.active s
  order : sim.order = g.finishingOrder

/-- The same table. -/
structure Table (g : SingleGame) (sim : Sim) : Prop where
  pile : sim.pile = g.pile
  owner : sim.owner = g.pileOwner
  passed : ∀ s < g.numPlayers, sim.passed s = decide (s ∈ g.passed)

/-- **The simulator is at the state of the game**, in which nobody has left and the opening
has been played. -/
structure Corresponds (g : SingleGame) (sim : Sim) : Prop extends Holders g sim where
  stayed : g.gone = []
  opened : g.opened = true
  turn : sim.turn = g.turn
  table : g.status = .playing → Table g sim

/-- A simulator built from the game corresponds to it. -/
theorem ofGame_corresponds (coop : Bool) (hgone : g.gone = []) (hopened : g.opened = true) :
    Corresponds g (.ofGame g coop) := by
  refine ⟨⟨rfl, fun _ _ => rfl, fun _ _ => rfl, rfl⟩, hgone, hopened, rfl, fun _ => ⟨rfl, rfl, fun s hs => ?_⟩⟩
  simp [Sim.ofGame, boolFromSeats, hs]

/-! ## The methods -/

theorem Holders.activeCount (h : Holders g sim) : sim.activeCount = g.activeCount := by
  unfold Sim.activeCount SingleGame.activeCount
  rw [h.seats]
  refine List.countP_congr fun s hs => ?_
  rw [h.active s (List.mem_range.1 hs)]

theorem Holders.nextActiveAfter (h : Holders g sim) (a : ℕ) : sim.nextActiveAfter a = g.nextActiveAfter a := by
  unfold Sim.nextActiveAfter SingleGame.nextActiveAfter
  rw [h.seats]
  exact Cyclic.next_congr h.active

theorem Table.eligible (h : Holders g sim) (ht : Table g sim) {s : ℕ} (hs : s < g.numPlayers) :
    (sim.active s && !sim.passed s) = (g.active s && decide (s ∉ g.passed)) := by
  rw [h.active s hs, ht.passed s hs, decide_not]

theorem Table.nextEligible (h : Holders g sim) (ht : Table g sim) (a : ℕ) : sim.nextEligible a = g.nextEligible a := by
  unfold Sim.nextEligible SingleGame.nextEligible
  rw [h.seats]
  exact Cyclic.next_congr fun s hs => Table.eligible h ht hs

theorem Table.contenders (h : Holders g sim) (ht : Table g sim) :
    sim.contendersExcludingOwner = g.contendersExcludingOwner.length := by
  unfold Sim.contendersExcludingOwner SingleGame.contendersExcludingOwner
  rw [h.seats, ← List.countP_eq_length_filter]
  refine List.countP_congr fun s hs => ?_
  rw [ht.owner, Table.eligible h ht (List.mem_range.1 hs)]

/-- Both games end alike. -/
theorem endGame_corresponds (h : Holders g sim) (hgone : g.gone = []) (hopened : g.opened = true)
    (hp : g.status = .playing) : Corresponds g.endGame.2 sim.endGame := by
  have hne : g.status ≠ .finished := by rw [hp]; decide
  have hend : g.endGame = ([.gameEnded g.finalOrder], g.endGame.2) := by
    unfold SingleGame.endGame
    rw [if_neg hne]
  unfold SingleGame.endGame
  rw [if_neg hne]
  refine ⟨⟨h.seats, h.hands, fun s hs => ?_, ?_⟩, hgone, hopened, rfl, fun hp' => by cases hp'⟩
  · have hs' : s < sim.n := by rw [h.seats]; exact hs
    simp [Sim.endGame, hgone, show s < g.numPlayers from hs, hs']
  · have hfilter : (List.range sim.n).filter sim.active =
        (List.range g.numPlayers).filter fun s => g.active s && s ∉ g.gone := by
      rw [h.seats]
      refine List.filter_congr fun s hs => ?_
      rw [h.active s (List.mem_range.1 hs), hgone]
      simp
    simp only [Sim.endGame, SingleGame.finalOrder, hgone, List.reverse_nil, List.foldl_nil] at hfilter ⊢
    rw [hfilter, h.order]

/-- The trick is resolved: only who holds what and who owns the pile matters. -/
theorem resolveTrick_corresponds (h : Holders g sim) (howner : sim.owner = g.pileOwner) (hgone : g.gone = [])
    (hopened : g.opened = true) (hlt : ∀ w, g.pileOwner = some w → w < g.numPlayers) (hp : g.status = .playing) :
    Corresponds g.resolveTrick.2 sim.resolveTrick := by
  have hlead : sim.trickLeader = g.trickLeader := by
    unfold SingleGame.trickLeader Sim.trickLeader
    rw [howner]
    cases hw : g.pileOwner with
    | none => rfl
    | some w =>
      simp only
      rw [h.active w (hlt w hw), h.nextActiveAfter]
  let cleared : SingleGame := { g with pile := none, pileOwner := none, passed := [], turn := g.trickLeader }
  let cleared' : Sim := { sim with pile := none, owner := none, passed := fun _ => false, turn := g.trickLeader }
  have hc : Holders cleared cleared' := ⟨h.seats, h.hands, h.active, h.order⟩
  have hcount : cleared'.activeCount = cleared.activeCount := hc.activeCount
  have hgame : g.resolveTrick.2 = if g.trickLeader = none ∨ cleared.activeCount ≤ 1 then cleared.endGame.2 else cleared := by
    unfold SingleGame.resolveTrick
    simp only
    split
    · rfl
    · rfl
  have hsim : sim.resolveTrick =
      if g.trickLeader = none ∨ cleared'.activeCount ≤ 1 then cleared'.endGame else cleared' := by
    unfold Sim.resolveTrick
    rw [hlead]
  rw [hgame, hsim, hcount]
  split
  · exact endGame_corresponds hc hgone hopened hp
  · exact ⟨hc, hgone, hopened, rfl, fun _ => ⟨rfl, rfl, fun _ _ => by simp [cleared, cleared']⟩⟩

/-- The turn passes on alike in both games. -/
theorem afterAction_corresponds (h : Holders g sim) (ht : Table g sim) (hgone : g.gone = []) (hopened : g.opened = true)
    (hlt : ∀ w, g.pileOwner = some w → w < g.numPlayers) (hp : g.status = .playing) (seat : ℕ) :
    Corresponds (g.afterAction seat).2 (sim.afterAction seat) := by
  have hcount := ht.contenders h
  unfold SingleGame.afterAction Sim.afterAction
  by_cases hne : g.contendersExcludingOwner = []
  · rw [hne, List.length_nil] at hcount
    rw [if_pos hne, if_pos hcount]
    exact resolveTrick_corresponds h ht.owner hgone hopened hlt hp
  · have hpos : sim.contendersExcludingOwner ≠ 0 := by
      rw [hcount]
      exact fun h0 => hne (List.length_eq_zero_iff.1 h0)
    rw [if_neg hne, if_neg hpos]
    obtain ⟨t, hnext, -⟩ := SingleGame.nextEligible_of_contenders hne seat
    have hnext' : sim.nextEligible seat = some t := (ht.nextEligible h seat).trans hnext
    simp only [hnext, hnext', reduceCtorEq, if_false]
    exact ⟨⟨h.seats, h.hands, h.active, h.order⟩, hgone, hopened, rfl, fun _ => ⟨ht.pile, ht.owner, ht.passed⟩⟩

/-! ## The moves -/

/-- **A pass** keeps the simulator at the state of the game. -/
theorem applyPass_corresponds (hg : g.Seated) (h : Corresponds g sim) (hok : (g.pass seat).1.ok = true) :
    Corresponds (g.pass seat).2 (sim.applyPass seat) := by
  rcases SingleGame.pass_cases g seat with ⟨hno, -, -⟩ | ⟨hp, ht, hpile, -, he⟩
  · rw [hno] at hok
    cases hok
  have htable := h.table hp
  rw [he]
  unfold Sim.applyPass
  have hpassed : Table { g with passed := addSeat g.passed seat }
      { sim with passed := Function.update sim.passed seat true } := by
    refine ⟨htable.pile, htable.owner, fun s hs => ?_⟩
    by_cases hss : s = seat
    · rw [hss]
      simp [mem_addSeat]
    · simp [mem_addSeat, hss, htable.passed s hs]
  have hholders : Holders { g with passed := addSeat g.passed seat }
      { sim with passed := Function.update sim.passed seat true } := ⟨h.seats, h.hands, h.active, h.order⟩
  exact afterAction_corresponds hholders hpassed h.stayed h.opened
    (fun w hw => ((hg.trick hp).answers w hw).1) hp seat

/-- Cards leave the same hand in both games. -/
theorem putDown_holders (h : Holders g sim) (hcards : combo.cards = cards) :
    Holders (g.putDown seat cards combo) (sim.putDown seat combo) := by
  refine ⟨h.seats, fun s hs => ?_, h.active, h.order⟩
  unfold Sim.putDown SingleGame.putDown SingleGame.removeCards Sim.removeCards
  simp only
  by_cases hss : s = seat
  · subst hss
    rw [Function.update_self, Function.update_self, hcards, h.hands s hs]
  · rw [Function.update_of_ne hss, Function.update_of_ne hss]
    exact h.hands s hs

/-- A seat that is out is out in both games. -/
theorem finishSeat_holders (h : Holders g sim) : Holders (g.finishSeat seat) (sim.finishSeat seat) := by
  refine ⟨h.seats, h.hands, fun s hs => ?_, by rw [Sim.finishSeat, SingleGame.finishSeat, h.order]⟩
  unfold Sim.finishSeat SingleGame.finishSeat
  simp only
  by_cases hss : s = seat
  · rw [hss, Function.update_self, Function.update_self]
  · rw [Function.update_of_ne hss, Function.update_of_ne hss]
    exact h.active s hs

/-- The play leaves at most one seat with cards. -/
def SingleGame.lastPlay (g : SingleGame) (seat : ℕ) (cards : List Card) : Prop :=
  g.activeCount ≤ 1 ∨ (g.activeCount ≤ 2 ∧ g.hands seat ⊆ cards)

/-- The simulator follows the call: if it is a play, nobody has passed since the last one,
or it ends the game. -/
def SingleGame.Followed (g : SingleGame) : SingleGame.Call → Prop
  | .play seat cards => g.passed = [] ∨ g.lastPlay seat cards
  | .pass _ | .forfeitSeat _ => True

/-- The hand after the cards went down is empty when they were the whole hand. -/
theorem putDown_empty : (g.putDown seat cards combo).hands seat = [] ↔ g.hands seat ⊆ cards := by
  have hleft : (g.putDown seat cards combo).hands seat = (g.hands seat).filter fun c => c ∉ cards :=
    Function.update_self ..
  rw [hleft, List.filter_eq_nil_iff, List.subset_def]
  simp

/-- The one seat that holds cards. -/
theorem active_alone (hlt : ∀ s, g.active s = true → s < g.numPlayers) (ha : g.activeCount ≤ 1)
    (hact : g.active seat = true) {s : ℕ} (hs : g.active s = true) : s = seat := by
  by_contra hss
  have hnd : [s, seat].Nodup := by simpa using hss
  have hsub : [s, seat] ⊆ (List.range g.numPlayers).filter g.active := by
    intro t ht
    rcases List.mem_cons.1 ht with rfl | ht
    · exact List.mem_filter.2 ⟨List.mem_range.2 (hlt t hs), hs⟩
    · rw [List.mem_singleton.1 ht]
      exact List.mem_filter.2 ⟨List.mem_range.2 (hlt seat hact), hact⟩
  have hlen := (List.subperm_of_subset hnd hsub).length_le
  unfold SingleGame.activeCount at ha
  rw [List.countP_eq_length_filter] at ha
  simp only [List.length_cons, List.length_nil] at hlen
  omega

/-- A play that nobody is left to answer ends the game, in the simulator too. -/
theorem afterAction_alone (h : Holders g sim) (hlt : ∀ s, g.active s = true → s < g.numPlayers)
    (ho : g.pileOwner = some seat) (ho' : sim.owner = some seat) (hact : g.active seat = true)
    (ha : g.activeCount ≤ 1) (hgone : g.gone = []) (hopened : g.opened = true) (hp : g.status = .playing) :
    Corresponds (g.afterAction seat).2 (sim.afterAction seat) := by
  have hnone : g.contendersExcludingOwner = [] := by
    rw [List.eq_nil_iff_forall_not_mem]
    intro s hs
    obtain ⟨-, hso, hse⟩ := SingleGame.mem_contenders.1 hs
    exact hso (by rw [ho, active_alone hlt ha hact (SingleGame.eligible_iff.1 hse).1])
  have hnone' : sim.contendersExcludingOwner = 0 := by
    unfold Sim.contendersExcludingOwner
    rw [List.countP_eq_zero]
    intro s hs hin
    rw [h.seats, List.mem_range] at hs
    rw [Bool.and_eq_true, Bool.and_eq_true, decide_eq_true_eq, ho', h.active s hs] at hin
    exact hin.1 (by rw [active_alone hlt ha hact hin.2.1])
  unfold SingleGame.afterAction Sim.afterAction
  rw [if_pos hnone, if_pos hnone']
  refine resolveTrick_corresponds h (ho'.trans ho.symm) hgone hopened (fun w hw => ?_) hp
  rw [ho] at hw
  cases hw
  exact hlt seat hact

/-- With a seat left to answer, the play stays on the table and nobody has passed. -/
theorem afterAction_answered (hpassed : g.passed = []) (ho : g.pileOwner = some seat)
    (h2 : ∃ s, s < g.numPlayers ∧ g.active s = true ∧ s ≠ seat) :
    (g.afterAction seat).2.status = g.status ∧ (g.afterAction seat).2.pile = g.pile ∧
      (g.afterAction seat).2.passed = [] := by
  obtain ⟨s, hs, ha, hne⟩ := h2
  have hmem : s ∈ g.contendersExcludingOwner := by
    refine SingleGame.mem_contenders.2 ⟨hs, ?_, SingleGame.eligible_iff.2 ⟨ha, ?_⟩⟩
    · rw [ho]
      simpa using hne
    · rw [hpassed]
      exact List.not_mem_nil
  unfold SingleGame.afterAction
  rw [if_neg (List.ne_nil_of_mem hmem)]
  exact ⟨rfl, rfl, hpassed⟩

/-- The simulator's table after a move: cleared, or with the passes as they were. -/
theorem Sim.afterAction_table (sim : Sim) (seat : ℕ) :
    (sim.afterAction seat).pile = none ∨ (sim.afterAction seat).passed = sim.passed := by
  have hresolve : ∀ sim : Sim, sim.resolveTrick.pile = none := by
    intro sim
    unfold Sim.resolveTrick
    simp only
    split
    · rfl
    · rfl
  unfold Sim.afterAction
  split
  · exact Or.inl (hresolve sim)
  · simp only
    split
    · exact Or.inl (hresolve _)
    · exact Or.inr rfl

/-- A play that ends the game does not care who has passed. -/
theorem applyPlay_last (hg : g.Seated) (h : Corresponds g sim) (hp : g.status = .playing) (ht : g.turn = some seat)
    (hcards : combo.cards = cards) (hlast : g.lastPlay seat cards) :
    Corresponds (g.commitPlay seat cards combo).2 (sim.applyPlay seat combo) := by
  obtain ⟨t, ht', hte⟩ := (hg.trick hp).turn
  rw [ht] at ht'
  cases ht'
  have hact := (SingleGame.eligible_iff.1 hte).1
  have hlt := hg.active_lt seat hact
  have hdown : Holders (g.putDown seat cards combo) (sim.putDown seat combo) := putDown_holders h.toHolders hcards
  have hfin : Holders ((g.putDown seat cards combo).finishSeat seat) ((sim.putDown seat combo).finishSeat seat) :=
    finishSeat_holders hdown
  have hcount : ((g.putDown seat cards combo).finishSeat seat).activeCount + 1 = g.activeCount :=
    SingleGame.activeCount_update hlt hact rfl rfl
  rw [SingleGame.commitPlay_eq]
  unfold Sim.applyPlay
  simp only [hdown.hands seat hlt, hfin.activeCount]
  split
  · rename_i hempty
    have hle : ((g.putDown seat cards combo).finishSeat seat).activeCount ≤ 1 := by
      rcases hlast with hl | hl
      · omega
      · omega
    rw [if_pos hle, if_pos hle]
    exact endGame_corresponds hfin h.stayed rfl hp
  · rename_i hmore
    rcases hlast with hl | hl
    · exact afterAction_alone hdown hg.active_lt rfl rfl hact hl h.stayed rfl hp
    · exact absurd (putDown_empty.2 hl.2) hmore

/-- **A play after which nobody has passed** keeps the simulator at the state of the game. -/
theorem applyPlay_fresh (hg : g.Seated) (h : Corresponds g sim) (hp : g.status = .playing) (ht : g.turn = some seat)
    (hcards : combo.cards = cards) (hpassed : g.passed = []) :
    Corresponds (g.commitPlay seat cards combo).2 (sim.applyPlay seat combo) := by
  obtain ⟨t, ht', hte⟩ := (hg.trick hp).turn
  rw [ht] at ht'
  cases ht'
  have hact := (SingleGame.eligible_iff.1 hte).1
  have hlt := hg.active_lt seat hact
  have hdown : Holders (g.putDown seat cards combo) (sim.putDown seat combo) := putDown_holders h.toHolders hcards
  have hfin : Holders ((g.putDown seat cards combo).finishSeat seat) ((sim.putDown seat combo).finishSeat seat) :=
    finishSeat_holders hdown
  have hnobody : ∀ s < g.numPlayers, sim.passed s = decide (s ∈ ([] : List ℕ)) := by
    intro s hs
    rw [(h.table hp).passed s hs, hpassed]
  have howner : ∀ w, some seat = some w → w < g.numPlayers := by
    rintro w ⟨⟩
    exact hlt
  rw [SingleGame.commitPlay_eq]
  unfold Sim.applyPlay
  simp only [hdown.hands seat hlt, hfin.activeCount]
  split
  · split
    · exact endGame_corresponds hfin h.stayed rfl hp
    · exact afterAction_corresponds hfin ⟨rfl, rfl, hnobody⟩ h.stayed rfl howner hp seat
  · exact afterAction_corresponds hdown ⟨rfl, rfl, hnobody⟩ h.stayed rfl howner hp seat

/-- **A play over somebody's pass** parts the simulator from the game, unless it ends it:
in the game the passes are forgotten, in the simulator they stand. -/
theorem applyPlay_parts (hg : g.Seated) (h : Corresponds g sim) (hp : g.status = .playing) (ht : g.turn = some seat)
    (hcards : combo.cards = cards) (hpassed : g.passed ≠ []) (hlast : ¬ g.lastPlay seat cards) :
    ¬ Corresponds (g.commitPlay seat cards combo).2 (sim.applyPlay seat combo) := by
  obtain ⟨t, ht', hte⟩ := (hg.trick hp).turn
  rw [ht] at ht'
  cases ht'
  have hact := (SingleGame.eligible_iff.1 hte).1
  have hlt := hg.active_lt seat hact
  have hdown : Holders (g.putDown seat cards combo) (sim.putDown seat combo) := putDown_holders h.toHolders hcards
  have hfin : Holders ((g.putDown seat cards combo).finishSeat seat) ((sim.putDown seat combo).finishSeat seat) :=
    finishSeat_holders hdown
  have hcount : ((g.putDown seat cards combo).finishSeat seat).activeCount + 1 = g.activeCount :=
    SingleGame.activeCount_update hlt hact rfl rfl
  unfold SingleGame.lastPlay at hlast
  push Not at hlast
  obtain ⟨h2, hwhole⟩ := hlast
  -- somebody who has passed
  obtain ⟨v, hv⟩ := List.exists_mem_of_ne_nil _ hpassed
  have hvlt : v < g.numPlayers := hg.active_lt v ((hg.trick hp).passers v hv)
  have hvpassed : sim.passed v = true := by
    rw [(h.table hp).passed v hvlt]
    exact decide_eq_true hv
  have key : ∀ (g' : SingleGame) (sim' : Sim), g'.numPlayers = g.numPlayers → g'.pile = some combo →
      g'.passed = [] → g'.pileOwner = some seat → g'.status = .playing → sim'.passed = sim.passed →
      (∃ s, s < g'.numPlayers ∧ g'.active s = true ∧ s ≠ seat) →
      ¬ Corresponds (g'.afterAction seat).2 (sim'.afterAction seat) := by
    intro g' sim' hn hpile hpassed' ho hp' hsim hother hc
    obtain ⟨hst, hpl, hps⟩ := afterAction_answered hpassed' ho hother
    have htable := hc.table (hst.trans hp')
    rcases sim'.afterAction_table seat with hnone | hstands
    · have := htable.pile
      rw [hnone, hpl, hpile] at this
      cases this
    · have hvlt' : v < (g'.afterAction seat).2.numPlayers := by
        rw [(SingleGame.afterAction_advances g' seat).numPlayers, hn]
        exact hvlt
      have := htable.passed v hvlt'
      rw [hstands, hsim, hvpassed, hps] at this
      simp at this
  rw [SingleGame.commitPlay_eq]
  unfold Sim.applyPlay
  simp only [hdown.hands seat hlt, hfin.activeCount]
  split
  · rename_i hempty
    have h3 : 2 < g.activeCount := by
      by_contra hno
      exact hwhole (by omega) (putDown_empty.1 hempty)
    have hmore : ¬ ((g.putDown seat cards combo).finishSeat seat).activeCount ≤ 1 := by omega
    rw [if_neg hmore, if_neg hmore]
    exact key _ _ rfl rfl rfl rfl hp rfl (SingleGame.exists_active_ne (by omega) seat)
  · exact key _ _ rfl rfl rfl rfl hp rfl (SingleGame.exists_active_ne (g := g) (by omega) seat)

/-- **One move.** The simulator follows the game exactly on the calls `Followed` describes. -/
theorem act_corresponds_iff (hg : g.Seated) (h : Corresponds g sim) {c : SingleGame.Call} (hc : g.Accepts c) :
    Corresponds (g.step c) (sim.act c) ↔ g.Followed c := by
  cases c with
  | play seat cards =>
    have hok : (g.play seat cards).1.ok = true := hc
    rcases SingleGame.play_cases g seat cards with ⟨hno, -⟩ | ⟨combo, hp, ht, -, -, -, hcombo, he⟩
    · rw [hno] at hok
      cases hok
    have hcards := identifyCombo_cards hcombo
    have hstep : g.step (.play seat cards) = (g.commitPlay seat cards combo).2 := by
      rw [SingleGame.step, he]
    have hact : sim.act (.play seat cards) = sim.applyPlay seat combo := by
      rw [Sim.act, hcombo]
    rw [hstep, hact]
    constructor
    · intro hcor
      by_contra hno
      have hno' : ¬ (g.passed = [] ∨ g.lastPlay seat cards) := hno
      push Not at hno'
      exact applyPlay_parts hg h hp ht hcards hno'.1 hno'.2 hcor
    · rintro (hpassed | hlast)
      · exact applyPlay_fresh hg h hp ht hcards hpassed
      · exact applyPlay_last hg h hp ht hcards hlast
  | pass seat => exact iff_of_true (applyPass_corresponds hg h hc) trivial
  | forfeitSeat seat => exact absurd hc id

/-! ## The fast policy -/

/-- A lead, or an answer to the pile, with cards of the hand. -/
structure Answer (hand : List Card) (pile : Option Combo) (cards : List Card) : Prop where
  sublist : cards.Sublist hand
  combo : ∃ combo, identifyCombo cards = some combo ∧ ∀ cur, pile = some cur → beats combo cur = true

/-- Two or three cards of one rank are a combination. -/
theorem identifyCombo_group {r : Rank} (hrank : ∀ c ∈ cards, c.rank? = some r)
    (hlen : cards.length = 2 ∨ cards.length = 3) : ∃ combo, identifyCombo cards = some combo := by
  have hsame : allSameRank cards = true := by
    have hjoker : cards.any Card.isJoker = false := by
      rw [List.any_eq_false]
      intro c hc
      have := hrank c hc
      cases c with
      | standard r s => simp [Card.isJoker]
      | joker color => cases this
    unfold allSameRank
    rw [hjoker]
    cases cards with
    | nil => rfl
    | cons c cards =>
      simp only [Bool.false_eq_true, if_false, List.head?_cons, Option.bind_some, List.all_eq_true]
      intro d hd
      rw [hrank d hd, hrank c List.mem_cons_self]
      exact beq_self_eq_true _
  match cards, hlen with
  | [a, b], _ => exact ⟨_, if_neg (by simp [hsame])⟩
  | [a, b, c], _ => exact ⟨_, if_neg (by simp [hsame])⟩

/-- A group of `byRank` is a part of the hand, of one rank. -/
theorem mem_byRank {hand group : List Card} (h : group ∈ Sim.byRank hand) :
    group.Sublist hand ∧ ∃ r, ∀ c ∈ group, c.rank? = some r := by
  unfold Sim.byRank at h
  obtain ⟨r, -, rfl⟩ := List.mem_map.1 h
  refine ⟨List.filter_sublist, r, fun c hc => ?_⟩
  have := (List.mem_filter.1 hc).2
  simpa using this

/-- The lowest card is one of the hand's. -/
theorem lowestSingle_mem {hand : List Card} (hne : hand ≠ []) : ∃ c ∈ hand, Sim.lowestSingle hand = .ok c := by
  obtain ⟨c, hand, rfl⟩ := List.exists_cons_of_ne_nil hne
  have key : ∀ (l : List Card) (a : Card),
      l.foldl (fun a b => if singlePower b < singlePower a then b else a) a = a ∨
        l.foldl (fun a b => if singlePower b < singlePower a then b else a) a ∈ l := by
    intro l
    induction l with
    | nil => exact fun _ => Or.inl rfl
    | cons b l ih =>
      intro a
      rw [List.foldl_cons]
      split
      · rcases ih b with he | hin
        · exact Or.inr (by rw [he]; exact List.mem_cons_self)
        · exact Or.inr (List.mem_cons_of_mem b hin)
      · exact (ih a).imp_right (List.mem_cons_of_mem b)
  refine ⟨_, ?_, rfl⟩
  rcases key hand c with he | hin
  · rw [he]
    exact List.mem_cons_self
  · exact List.mem_cons_of_mem c hin

/-- The playout's lead may be played. -/
theorem rolloutLead_answer {hand : List Card} (hne : hand ≠ []) :
    ∃ cards, Sim.rolloutLead hand = .ok cards ∧ Answer hand none cards := by
  obtain ⟨low, hlow, he⟩ := lowestSingle_mem hne
  -- the best lead so far is one, whatever groups come
  have key : ∀ (groups : List (List Card)) (best : List Card × ℤ), (∀ group ∈ groups, group ∈ Sim.byRank hand) →
      Answer hand none best.1 → Answer hand none (groups.foldl Sim.betterLead best).1 := by
    intro groups
    induction groups with
    | nil => exact fun _ _ h => h
    | cons group groups ih =>
      intro best hin hbest
      refine ih _ (fun g hg => hin g (List.mem_cons_of_mem group hg)) ?_
      obtain ⟨hsub, r, hrank⟩ := mem_byRank (hin group List.mem_cons_self)
      unfold Sim.betterLead
      simp only
      split
      · exact hbest
      split
      · rename_i hmin _
        have hlen : (group.take (min group.length 3)).length = 2 ∨ (group.take (min group.length 3)).length = 3 := by
          rw [List.length_take]
          omega
        obtain ⟨combo, hcombo⟩ := identifyCombo_group (fun c hc => hrank c (List.mem_of_mem_take hc)) hlen
        exact ⟨(List.take_sublist _ _).trans hsub, combo, hcombo, fun cur hcur => nomatch hcur⟩
      · exact hbest
  refine ⟨_, by rw [Sim.rolloutLead, he]; rfl, key _ _ (fun _ hg => hg) ?_⟩
  exact ⟨List.singleton_sublist.2 hlow, _, rfl, fun cur hcur => nomatch hcur⟩

/-- The card kept in the search over singles may be played. -/
theorem betterSingle_answer {hand : List Card} {pile : Combo} (hpile : pile.type = .single) (l : List Card) :
    ∀ best : Option Card, (∀ c ∈ l, c ∈ hand) → (∀ c, best = some c → Answer hand (some pile) [c]) →
      ∀ c, l.foldl (Sim.betterSingle pile) best = some c → Answer hand (some pile) [c] := by
  induction l with
  | nil => exact fun _ _ h => h
  | cons d l ih =>
    intro best hin hbest
    refine ih _ (fun c hc => hin c (List.mem_cons_of_mem d hc)) fun c hc => ?_
    unfold Sim.betterSingle at hc
    split at hc
    · rename_i hgt
      cases hc
      rw [Bool.and_eq_true] at hgt
      refine ⟨List.singleton_sublist.2 (hin d List.mem_cons_self), _, rfl, ?_⟩
      rintro cur ⟨⟩
      simp [beats, hpile, hgt.1]
    · exact hbest c hc

/-- The group kept in the search over groups may be played. -/
theorem betterGroup_answer {hand : List Card} {pile : Combo} (groups : List (List Card)) :
    ∀ best : Option Combo, (∀ group ∈ groups, group ∈ Sim.byRank hand) →
      (∀ combo, best = some combo → Answer hand (some pile) combo.cards) →
      ∀ combo, groups.foldl (Sim.betterGroup pile) best = some combo → Answer hand (some pile) combo.cards := by
  induction groups with
  | nil => exact fun _ _ h => h
  | cons group groups ih =>
    intro best hin hbest
    refine ih _ (fun g hg => hin g (List.mem_cons_of_mem group hg)) fun combo hc => ?_
    obtain ⟨hsub, -⟩ := mem_byRank (hin group List.mem_cons_self)
    unfold Sim.betterGroup at hc
    split at hc
    · exact hbest combo hc
    split at hc
    · rename_i found hfound
      split at hc
      · rename_i hbeats
        cases hc
        rw [Bool.and_eq_true] at hbeats
        have hcards := identifyCombo_cards hfound
        rw [hcards]
        refine ⟨(List.take_sublist _ _).trans hsub, combo, hfound, ?_⟩
        rintro cur ⟨⟩
        exact hbeats.1
      · exact hbest combo hc
    · exact hbest combo hc

/-- **What the policy plays**: a lead, an answer, or nothing when there is a pile to answer. -/
theorem rolloutPlay_answer (hne : sim.hands seat ≠ []) :
    (∃ cards, sim.rolloutPlay seat = .ok (some cards) ∧ Answer (sim.hands seat) sim.pile cards) ∨
      (sim.rolloutPlay seat = .ok none ∧ sim.pile ≠ none) := by
  unfold Sim.rolloutPlay
  cases hpile : sim.pile with
  | none =>
    obtain ⟨cards, he, hans⟩ := rolloutLead_answer hne
    exact Or.inl ⟨cards, by simp only [he]; rfl, hans⟩
  | some pile =>
    have hgroup : (∃ cards, (pure (((Sim.byRank (sim.hands seat)).foldl (Sim.betterGroup pile) none).map Combo.cards) :
          Except String (Option (List Card))) = .ok (some cards) ∧ Answer (sim.hands seat) (some pile) cards) ∨
        ((pure (((Sim.byRank (sim.hands seat)).foldl (Sim.betterGroup pile) none).map Combo.cards) :
          Except String (Option (List Card))) = .ok none ∧ (some pile : Option Combo) ≠ none) := by
      cases hfold : (Sim.byRank (sim.hands seat)).foldl (Sim.betterGroup pile) none with
      | none => exact Or.inr ⟨rfl, by simp⟩
      | some combo =>
        exact Or.inl ⟨_, rfl, betterGroup_answer _ none (fun _ h => h) (fun _ h => nomatch h) combo hfold⟩
    simp only
    cases htype : pile.type with
    | single =>
      cases hfold : (sim.hands seat).foldl (Sim.betterSingle pile) none with
      | none => exact Or.inr ⟨rfl, by simp⟩
      | some c =>
        have hans := betterSingle_answer htype _ none (fun _ h => h) (fun _ h => nomatch h) c hfold
        exact Or.inl ⟨[c], rfl, hans⟩
    | pair => exact hgroup
    | triple => exact hgroup
    | kolor => exact Or.inr ⟨rfl, by simp⟩
    | bomb => exact Or.inr ⟨rfl, by simp⟩
    | flush => exact Or.inr ⟨rfl, by simp⟩

/-- The game accepts an answer with cards of the hand. -/
theorem play_accepted (hp : g.status = .playing) (ht : g.turn = some seat) (hopened : g.opened = true)
    (hnd : (g.hands seat).Nodup) (hans : Answer (g.hands seat) g.pile cards) : g.Accepts (.play seat cards) := by
  obtain ⟨hsub, combo, hcombo, hbeats⟩ := hans
  have hne : cards ≠ [] := by
    rintro rfl
    cases hcombo
  have hall : g.handHasAll seat cards = true := SingleGame.handHasAll_iff.2 ⟨hnd.sublist hsub, hsub.subset⟩
  have hmiss : g.missedOpening cards = none := by simp [SingleGame.missedOpening, SingleGame.openingPending, hopened]
  have hcheck : validatePlay cards g.pile = { ok := true, combo := some combo } := by
    unfold validatePlay
    rw [hcombo]
    cases hpile : g.pile with
    | none => rfl
    | some cur => simp [hbeats cur hpile]
  simp [SingleGame.Accepts, SingleGame.play, hp, ht, hne, hall, hmiss, hcheck, ActionResult.accept]

theorem pass_accepted (hp : g.status = .playing) (ht : g.turn = some seat) (hpile : g.pile ≠ none) :
    g.Accepts (.pass seat) := by
  simp [SingleGame.Accepts, SingleGame.pass, hp, ht, hpile, ActionResult.accept]

/-- A lone card that may go down is a lead or an answer. -/
theorem goesOut_answer (hout : sim.goesOut seat = true) : Answer (sim.hands seat) sim.pile (sim.hands seat) := by
  unfold Sim.goesOut at hout
  split at hout
  · rename_i c hh hpile
    rw [hh, hpile]
    exact ⟨List.Sublist.refl _, _, rfl, fun cur hcur => nomatch hcur⟩
  · rename_i c pile hh hpile
    rw [Bool.and_eq_true, decide_eq_true_eq] at hout
    rw [hh, hpile]
    refine ⟨List.Sublist.refl _, _, rfl, ?_⟩
    rintro cur ⟨⟩
    simp [beats, hout.1, hout.2]
  · cases hout

/-- **What a step of the rollout is**: a play of a lead or an answer, or a pass with a pile
on the table. -/
theorem rolloutStep_cases (hne : sim.hands seat ≠ []) :
    (∃ cards combo, Answer (sim.hands seat) sim.pile cards ∧ identifyCombo cards = some combo ∧
      sim.rolloutStep seat = .ok (sim.applyPlay seat combo)) ∨
    (sim.pile ≠ none ∧ sim.rolloutStep seat = .ok (sim.applyPass seat)) := by
  unfold Sim.rolloutStep
  by_cases hout : sim.goesOut seat = true
  · have hans := goesOut_answer hout
    obtain ⟨combo, hcombo, -⟩ := hans.combo
    refine Or.inl ⟨_, combo, hans, hcombo, ?_⟩
    rw [if_pos hout, hcombo]
    rfl
  rw [if_neg hout]
  by_cases hmate : sim.matesPile seat = true
  · refine Or.inr ⟨?_, by rw [if_pos hmate]; rfl⟩
    unfold Sim.matesPile at hmate
    rw [Bool.and_eq_true, Bool.and_eq_true, decide_eq_true_eq] at hmate
    exact hmate.1.2
  rw [if_neg hmate]
  rcases rolloutPlay_answer hne with ⟨cards, he, hans⟩ | ⟨he, hpile⟩
  · obtain ⟨combo, hcombo, -⟩ := hans.combo
    refine Or.inl ⟨cards, combo, hans, hcombo, ?_⟩
    rw [he]
    simp only [bind, Except.bind, hcombo]
    rfl
  · exact Or.inr ⟨hpile, by rw [he]; rfl⟩

/-- **A step of the rollout** is a move that the game accepts. -/
theorem rolloutStep_accepted (hg : g.Seated) (hnd : ∀ s, (g.hands s).Nodup) (h : Corresponds g sim)
    (ht : g.turn = some seat) : ∃ c, g.Accepts c ∧ sim.rolloutStep seat = .ok (sim.act c) := by
  have hp : g.status = .playing := by
    rcases SingleGame.status_cases g with hp | hf
    · exact hp
    · rw [hg.ended hf] at ht
      cases ht
  obtain ⟨t, ht', hte⟩ := (hg.trick hp).turn
  rw [ht] at ht'
  cases ht'
  have hact := (SingleGame.eligible_iff.1 hte).1
  have htable := h.table hp
  have hhand : sim.hands seat = g.hands seat := h.hands seat (hg.active_lt seat hact)
  have hne : sim.hands seat ≠ [] := hhand ▸ hg.active_hand seat hact
  rcases rolloutStep_cases hne with ⟨cards, combo, hans, hcombo, he⟩ | ⟨hpile, he⟩
  · rw [hhand, htable.pile] at hans
    refine ⟨.play seat cards, play_accepted hp ht h.opened (hnd seat) hans, ?_⟩
    rw [he, Sim.act, hcombo]
  · rw [htable.pile] at hpile
    exact ⟨.pass seat, pass_accepted hp ht hpile, he⟩

/-! ## Runs and rollouts -/

/-- A call that the game accepts and the simulator follows. -/
def SingleGame.Mirrored (g : SingleGame) (c : SingleGame.Call) : Prop := g.Accepts c ∧ g.Followed c

theorem run_corresponds (cs : List SingleGame.Call) : ∀ {g : SingleGame} {sim : Sim}, g.Seated → Corresponds g sim →
    Guarded SingleGame.step SingleGame.Mirrored g cs → Corresponds (run SingleGame.step g cs) (run Sim.act sim cs) := by
  induction cs with
  | nil => exact fun _ h _ => h
  | cons c cs ih =>
    intro g sim hg h hcs
    exact ih (hg.step c) ((act_corresponds_iff hg h hcs.1.1).2 hcs.1.2) hcs.2

/-- The next step of the rollout is an accepted call that the simulator does not follow. -/
def Astray (g : SingleGame) (sim : Sim) : Prop :=
  ∃ seat c, sim.turn = some seat ∧ sim.rolloutStep seat = .ok (sim.act c) ∧ g.Accepts c ∧ ¬ g.Followed c

/-- **A rollout** is a run of accepted calls, up to the first play over somebody's pass. -/
theorem playout_possible (me : ℕ) (mate : Option ℕ) (guard : ℕ) : ∀ {g : SingleGame} {sim : Sim}, g.Seated →
    (∀ s, (g.hands s).Nodup) → Corresponds g sim →
    ∃ cs k, Guarded SingleGame.step SingleGame.Mirrored g cs ∧ sim.playout me mate k = .ok (run Sim.act sim cs) ∧
      (k = guard ∨ k < guard ∧ Astray (run SingleGame.step g cs) (run Sim.act sim cs)) := by
  induction guard with
  | zero => exact fun _ _ _ => ⟨[], 0, trivial, rfl, Or.inl rfl⟩
  | succ guard ih =>
    intro g sim hg hnd h
    by_cases hstop : sim.turn = none ∨ sim.teamDone me mate = true
    · have hstill : sim.playout me mate (guard + 1) = .ok sim := by
        unfold Sim.playout
        cases ht : sim.turn with
        | none => rfl
        | some seat =>
          have hdone : sim.teamDone me mate = true := hstop.resolve_left (by simp [ht])
          simp only [hdone, if_true]
          rfl
      exact ⟨[], guard + 1, trivial, hstill, Or.inl rfl⟩
    · push Not at hstop
      obtain ⟨seat, ht⟩ := Option.ne_none_iff_exists'.1 hstop.1
      obtain ⟨c, hc, he⟩ := rolloutStep_accepted hg hnd h (h.turn.symm.trans ht)
      have hnext : ∀ k, sim.playout me mate (k + 1) = (sim.act c).playout me mate k := by
        intro k
        rw [Sim.playout, ht]
        simp only [hstop.2, he]
        rfl
      by_cases hfol : g.Followed c
      · have hnd' : ∀ s, ((g.step c).hands s).Nodup :=
          fun s => (hnd s).sublist (SingleGame.step_hands_sublist g c s)
        obtain ⟨cs, k, hcs, hk, hrest⟩ := ih (hg.step c) hnd' ((act_corresponds_iff hg h hc).2 hfol)
        refine ⟨c :: cs, k + 1, ⟨⟨hc, hfol⟩, hcs⟩, (hnext k).trans hk, ?_⟩
        rcases hrest with hall | ⟨hlt, hstray⟩
        · exact Or.inl (by omega)
        · exact Or.inr ⟨by omega, hstray⟩
      · exact ⟨[], 0, trivial, rfl, Or.inr ⟨by omega, seat, c, ht, he, hc, hfol⟩⟩

/-- The place of a seat in the finishing order so far, the last one if it is not in it. -/
def SingleGame.placeOf (g : SingleGame) (seat : ℕ) : ℕ :=
  if seat ∈ g.finishingOrder then g.finishingOrder.idxOf seat + 1 else g.numPlayers

/-- The score of a rollout is computed from the finishing order of the game it follows. -/
theorem playoutScore_of_corresponds {sim' : Sim} {me : ℕ} {mate : Option ℕ} (h : Corresponds g sim')
    (hplay : sim.playout me mate Sim.playoutGuard = .ok sim') :
    sim.playoutScore me mate = .ok (g.placeOf me + (mate.map g.placeOf).getD 0) := by
  have hplace : sim'.place = g.placeOf := by
    funext seat
    rw [Sim.place, SingleGame.placeOf, h.order, h.seats]
  rw [Sim.playoutScore, hplay, ← hplace]
  rfl

/-- **How far the simulator follows the game** from corresponding states. -/
structure Follows (o : GameOptions) (g : SingleGame) (sim : Sim) : Prop where
  /-- One move, exactly when. -/
  move : ∀ c, g.Accepts c → (Corresponds (g.step c) (sim.act c) ↔ g.Followed c)
  /-- Every run of such moves; the finishing order is then one of the game's. -/
  run : ∀ cs, Guarded SingleGame.step SingleGame.Mirrored g cs →
    Corresponds (Murlan.run SingleGame.step g cs) (Murlan.run Sim.act sim cs)
  /-- Every rollout, up to the first play that is not followed. -/
  rollout : (∀ h ∈ o.hands, h.Nodup) → ∀ me mate guard, ∃ cs k, Guarded SingleGame.step SingleGame.Mirrored g cs ∧
    sim.playout me mate k = .ok (Murlan.run Sim.act sim cs) ∧
    (k = guard ∨ k < guard ∧ Astray (Murlan.run SingleGame.step g cs) (Murlan.run Sim.act sim cs))
  /-- The score of a rollout that is followed to its end. -/
  score : ∀ me mate cs, Guarded SingleGame.step SingleGame.Mirrored g cs →
    sim.playout me mate Sim.playoutGuard = .ok (Murlan.run Sim.act sim cs) →
    sim.playoutScore me mate = .ok ((Murlan.run SingleGame.step g cs).placeOf me +
      (mate.map (Murlan.run SingleGame.step g cs).placeOf).getD 0)

/-- **The simulator follows the game** from every state of every run, but for a play over
somebody's pass that does not end the game. -/
theorem sim_follows_game {o : GameOptions} {g : SingleGame} (hg : SingleGame.create o = .ok g)
    (cs : List SingleGame.Call) {sim : Sim} (h : Corresponds (run SingleGame.step g cs) sim) :
    Follows o (run SingleGame.step g cs) sim := by
  have hseated := (SingleGame.create_seated hg).run cs
  refine ⟨fun c hc => act_corresponds_iff hseated h hc, fun cs' hcs' => run_corresponds cs' hseated h hcs',
    fun hnd me mate guard => ?_, fun me mate cs' hcs' hplay => ?_⟩
  · exact playout_possible me mate guard hseated ((SingleGame.create_held hnd hg).run cs).nodup h
  · exact playoutScore_of_corresponds (run_corresponds cs' hseated h hcs') hplay

/-- Seat 0 leads a 5 and seat 1 passes. -/
def onePass : SingleGame := run SingleGame.step (SingleGame.fresh threeHands) [.play 0 [.standard .r5 .S], .pass 1]

theorem onePass_corresponds : Corresponds onePass (.ofGame onePass false) :=
  ofGame_corresponds false (by decide +kernel) (by decide +kernel)

theorem sim_follows_game_onePass : Follows threeHands onePass (.ofGame onePass false) :=
  sim_follows_game (show SingleGame.create threeHands = .ok _ from rfl) _ onePass_corresponds

/-- Seat 2 plays over the pass: the game asks seat 1 again, the simulator does not. -/
theorem sim_keeps_the_pass :
    Corresponds onePass (.ofGame onePass false) ∧ onePass.Accepts (.play 2 [.standard .r7 .S]) ∧
      ¬ Corresponds (onePass.step (.play 2 [.standard .r7 .S]))
        ((Sim.ofGame onePass false).act (.play 2 [.standard .r7 .S])) := by
  refine ⟨onePass_corresponds, by decide +kernel, fun hc => ?_⟩
  have hasked := (hc.table (by decide +kernel)).passed 1 (by decide +kernel)
  revert hasked
  decide +kernel

end Murlan
