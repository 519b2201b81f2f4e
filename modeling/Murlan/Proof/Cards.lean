import Mathlib.Algebra.BigOperators.Group.Finset.Piecewise
import Mathlib.Algebra.BigOperators.Group.Finset.Basic
import Mathlib.Algebra.Order.Group.Multiset
import Mathlib.Data.List.GetD
import Mathlib.Tactic.Abel
import Murlan.Proof.Order
import Murlan.Proof.Trick

/-!
# Where the cards are

* `step_cards`: only an accepted play moves cards, and it moves the listed ones.
* `refused_nothing`: a call that is turned down changes nothing and says nothing.
* `card_conservation`: in every state of a run each hand is a part of the dealt one,
  and the hands and the cards on the table together are the dealt cards.
-/

namespace Murlan

/-- The cards that an event puts on the table. -/
def GameEvent.cards : GameEvent → List Card
  | .played _ combo => combo.cards
  | _ => []

/-- All cards of a deal are those of its seats. -/
theorem sum_hands (l : List (List Card)) :
    ∑ s ∈ Finset.range l.length, ((l.getD s [] : List Card) : Multiset Card) = (l.flatten : Multiset Card) := by
  induction l with
  | nil => simp
  | cons h l ih =>
    rw [List.length_cons, Finset.sum_range_succ']
    simp only [List.getD_cons_succ, List.getD_cons_zero, ih, List.flatten_cons]
    rw [add_comm, ← Multiset.coe_add]

namespace SingleGame

variable {g : SingleGame} {seat : ℕ} {cards : List Card} {combo : Combo}

/-- The cards of all hands together. -/
def inHands (g : SingleGame) : Multiset Card := ∑ s ∈ Finset.range g.numPlayers, (g.hands s : Multiset Card)

/-- All events of a run, in order. -/
def history : SingleGame → List Call → List GameEvent
  | _, [] => []
  | g, c :: cs => g.eventsOf c ++ (g.step c).history cs

/-- The cards that the calls of a run put on the table. -/
def playedCards (g : SingleGame) (cs : List Call) : List Card := (g.history cs).flatMap GameEvent.cards

/-- The call is turned down. -/
def Refuses (g : SingleGame) : Call → Prop
  | .play s cards => (g.play s cards).1.ok = false
  | .pass s => (g.pass s).1.ok = false
  | .forfeitSeat s => g.status = .finished ∨ g.numPlayers ≤ s ∨ s ∈ g.gone

/-- **A call that is turned down** leaves the game as it is and emits nothing. -/
theorem refused_nothing {c : Call} (h : g.Refuses c) : g.step c = g ∧ g.eventsOf c = [] := by
  cases c with
  | play s cards =>
    rcases play_cases g s cards with ⟨-, hev, he⟩ | ⟨combo, -, -, -, -, -, -, he⟩
    · exact ⟨he, hev⟩
    · have hno : (g.play s cards).1.ok = false := h
      rw [he] at hno
      cases hno
  | pass s =>
    rcases pass_cases g s with ⟨-, hev, he⟩ | ⟨-, -, -, hok, -⟩
    · exact ⟨he, hev⟩
    · have hno : (g.pass s).1.ok = false := h
      rw [hok] at hno
      cases hno
  | forfeitSeat s =>
    have hnil : g.forfeitSeat s = ([], g) := by
      unfold forfeitSeat
      rcases h with h | h | h
      · rw [if_pos h]
      · simp [h]
      · simp [h]
    exact ⟨by rw [step, hnil], by rw [eventsOf, hnil]⟩

/-! ## The cards of one call -/

/-- Events that put no card on the table. -/
def Silent (evs : List GameEvent) : Prop := ∀ e ∈ evs, e.cards = []

theorem Silent.nil : Silent [] := fun _ h => absurd h List.not_mem_nil

theorem Silent.cons {e : GameEvent} {evs : List GameEvent} (he : e.cards = []) (h : Silent evs) :
    Silent (e :: evs) := by
  intro e' he'
  rcases List.mem_cons.1 he' with rfl | he'
  · exact he
  · exact h e' he'

theorem Silent.append {evs evs' : List GameEvent} (h : Silent evs) (h' : Silent evs') : Silent (evs ++ evs') := by
  intro e he
  rcases List.mem_append.1 he with he | he
  · exact h e he
  · exact h' e he

theorem Silent.flatMap {evs : List GameEvent} (h : Silent evs) : evs.flatMap GameEvent.cards = [] :=
  List.flatMap_eq_nil_iff.2 h

theorem endGame_silent (g : SingleGame) : Silent g.endGame.1 := by
  unfold endGame
  split
  · exact .nil
  · exact .cons rfl .nil

theorem resolveTrick_silent (g : SingleGame) : Silent g.resolveTrick.1 := by
  unfold resolveTrick
  simp only
  split
  · exact .cons rfl (endGame_silent _)
  · exact .cons rfl .nil

theorem afterAction_silent (g : SingleGame) (seat : ℕ) : Silent (g.afterAction seat).1 := by
  unfold afterAction
  split
  · exact resolveTrick_silent g
  · exact .nil

/-- Passing the turn on plays no card. -/
theorem passOnTurn_silent (g : SingleGame) (seat : ℕ) : Silent (g.passOnTurn seat).1 := by
  unfold passOnTurn
  split
  · simp only
    split
    · exact endGame_silent _
    · exact .nil
  · split
    · exact resolveTrick_silent g
    · exact .nil

/-- Leaving plays no card. -/
theorem forfeitSeat_silent (g : SingleGame) (seat : ℕ) : Silent (g.forfeitSeat seat).1 := by
  have hend : ∀ r : List GameEvent × SingleGame, Silent r.1 →
      Silent (if !r.2.isOver && r.2.activeCount ≤ 1 then (r.1 ++ r.2.endGame.1, r.2.endGame.2) else r).1 := by
    intro r hr
    split
    · exact hr.append (endGame_silent _)
    · exact hr
  unfold forfeitSeat
  split
  · exact .nil
  split
  · exact .nil
  split
  · exact .nil
  simp only
  split
  · exact .nil
  · refine hend _ ?_
    split
    · exact passOnTurn_silent _ seat
    · exact .nil

/-- The cards that a committed play puts on the table are those of its combination. -/
theorem commitPlay_cards (g : SingleGame) (seat : ℕ) (cards : List Card) (combo : Combo) :
    (g.commitPlay seat cards combo).1.flatMap GameEvent.cards = combo.cards := by
  have hplayed : ∀ evs, Silent evs → (GameEvent.played seat combo :: evs).flatMap GameEvent.cards = combo.cards := by
    intro evs hevs
    rw [List.flatMap_cons, hevs.flatMap, List.append_nil]
    rfl
  unfold commitPlay
  simp only
  split
  · refine hplayed _ (.cons rfl ?_)
    split
    · exact endGame_silent _
    · exact afterAction_silent _ seat
  · exact hplayed _ (afterAction_silent _ seat)

theorem commitPlay_hands (g : SingleGame) (seat : ℕ) (cards : List Card) (combo : Combo) :
    (g.commitPlay seat cards combo).2.hands =
      Function.update g.hands seat ((g.hands seat).filter fun c => c ∉ cards) := by
  rcases commitPlay_advances g seat cards combo with ⟨-, h⟩ | ⟨-, h⟩
  · exact h.hands
  · exact h.hands

/-- **What a call does to the cards**: nothing, or it is an accepted play, which takes the
listed cards, all of them held, out of the hand and puts them on the table. -/
theorem step_cards (g : SingleGame) (c : Call) :
    ((g.step c).hands = g.hands ∧ Silent (g.eventsOf c) ∧
        ∀ s cards, c = .play s cards → (g.play s cards).1.ok = false) ∨
      ∃ s cards, c = .play s cards ∧ cards ≠ [] ∧ g.handHasAll s cards = true ∧
        (g.step c).hands = Function.update g.hands s ((g.hands s).filter fun c => c ∉ cards) ∧
        (g.eventsOf c).flatMap GameEvent.cards = cards := by
  cases c with
  | play s cards =>
    rcases play_cases g s cards with ⟨hno, hev, he⟩ | ⟨combo, -, -, hne, hall, -, hcombo, he⟩
    · refine Or.inl ⟨by rw [step, he], ?_, ?_⟩
      · rw [eventsOf, hev]
        exact .nil
      · rintro s' cards' ⟨⟩
        exact hno
    · refine Or.inr ⟨s, cards, rfl, hne, hall, ?_, ?_⟩
      · rw [step, he]
        exact commitPlay_hands g s cards combo
      · rw [eventsOf, he]
        exact (commitPlay_cards g s cards combo).trans (identifyCombo_cards hcombo)
  | pass s =>
    left
    rcases pass_cases g s with ⟨-, hev, he⟩ | ⟨hp, ht, hpile, -, he⟩
    · refine ⟨by rw [step, he], ?_, (by rintro _ _ ⟨⟩)⟩
      rw [eventsOf, hev]
      exact .nil
    · refine ⟨?_, ?_, (by rintro _ _ ⟨⟩)⟩
      · rw [step, he]
        exact (afterAction_advances _ s).hands
      · rw [eventsOf, pass_events hp ht hpile]
        exact .cons rfl (afterAction_silent _ s)
  | forfeitSeat s =>
    refine Or.inl ⟨?_, forfeitSeat_silent g s, (by rintro _ _ ⟨⟩)⟩
    rcases forfeitSeat_moves g s with ⟨-, he⟩ | ⟨-, -, -, ⟨-, he⟩ | ⟨-, h⟩⟩
    · rw [step, he]
    · rw [step, he]
    · exact h.hands

/-- A hand only loses cards. -/
theorem step_hands_sublist (g : SingleGame) (c : Call) (s : ℕ) : ((g.step c).hands s).Sublist (g.hands s) := by
  rcases step_cards g c with ⟨hh, -⟩ | ⟨v, cards, -, -, -, hh, -⟩
  · rw [hh]
  · rw [hh]
    by_cases hsv : s = v
    · rw [hsv, Function.update_self]
      exact List.filter_sublist
    · rw [Function.update_of_ne hsv]

theorem handHasAll_iff : g.handHasAll seat cards = true ↔ cards.Nodup ∧ cards ⊆ g.hands seat := by
  unfold handHasAll
  simp [List.subset_def]

/-- Cards of a duplicate-free hand and what the hand keeps without them. -/
theorem perm_removed {hand cards : List Card} (hh : hand.Nodup) (hc : cards.Nodup) (hsub : cards ⊆ hand) :
    hand.Perm (cards ++ hand.filter fun c => c ∉ cards) := by
  have htaken : (hand.filter fun c => c ∈ cards).Perm cards := by
    rw [List.perm_ext_iff_of_nodup (hh.filter _) hc]
    intro c
    rw [List.mem_filter, decide_eq_true_eq]
    exact ⟨fun h => h.2, fun h => ⟨hsub h, h⟩⟩
  have hsplit := List.filter_append_perm (fun c => decide (c ∈ cards)) hand
  simp only [← decide_not] at hsplit
  exact hsplit.symm.trans (htaken.append_right _)

/-! ## Every run -/

/-- Each hand is a part of the hand dealt to its seat, and the hands with the cards on the
table are all the cards dealt. -/
structure Held (o : GameOptions) (g : SingleGame) (table : List Card) : Prop where
  seats : g.numPlayers = o.hands.length
  nodup : ∀ s, (g.hands s).Nodup
  dealt : ∀ s, (g.hands s).Sublist (o.hands.getD s [])
  all : g.inHands + (table : Multiset Card) = (o.hands.flatten : Multiset Card)

/-- Taking cards out of one hand takes them out of the hands together. -/
theorem inHands_update {g' : SingleGame} {hand : List Card} (hn : g'.numPlayers = g.numPlayers)
    (hs : seat < g.numPlayers) (hh : g'.hands = Function.update g.hands seat hand)
    (hperm : (g.hands seat).Perm (cards ++ hand)) :
    g.inHands = g'.inHands + (cards : Multiset Card) := by
  have hmem : seat ∈ Finset.range g.numPlayers := Finset.mem_range.2 hs
  have hcoe : (g.hands seat : Multiset Card) = cards + hand := by
    rw [Multiset.coe_add]
    exact Multiset.coe_eq_coe.2 hperm
  have hrest : ∀ s ∈ (Finset.range g.numPlayers).erase seat, (g'.hands s : Multiset Card) = g.hands s := by
    intro s hs
    rw [hh, Function.update_of_ne (Finset.ne_of_mem_erase hs)]
  unfold inHands
  rw [hn, ← Finset.add_sum_erase _ _ hmem, ← Finset.add_sum_erase _ _ hmem, Finset.sum_congr rfl hrest, hcoe, hh,
    Function.update_self]
  abel

/-- A call moves cards from a hand to the table, and nowhere else. -/
theorem Held.step {o : GameOptions} {table : List Card} (h : Held o g table) (c : Call) :
    Held o (g.step c) (table ++ (g.eventsOf c).flatMap GameEvent.cards) := by
  have hn := step_numPlayers_eq g c
  have hnodup : ∀ s, ((g.step c).hands s).Nodup := fun s => (h.nodup s).sublist (step_hands_sublist g c s)
  have hdealt : ∀ s, ((g.step c).hands s).Sublist (o.hands.getD s []) :=
    fun s => (step_hands_sublist g c s).trans (h.dealt s)
  rcases step_cards g c with ⟨hh, hev, -⟩ | ⟨s, cards, -, hne, hall, hh, hev⟩
  · rw [hev.flatMap, List.append_nil]
    refine ⟨hn.trans h.seats, hnodup, hdealt, ?_⟩
    have hin : (g.step c).inHands = g.inHands := by
      unfold inHands
      rw [hn, hh]
    rw [hin]
    exact h.all
  · obtain ⟨hnd, hsub⟩ := handHasAll_iff.1 hall
    -- an empty hand could not have played, and outside the table all hands are empty
    have hs : s < g.numPlayers := by
      by_contra hno
      have hout : o.hands.getD s [] = [] := List.getD_eq_default _ _ (by rw [← h.seats]; omega)
      have hnil : g.hands s = [] := List.sublist_nil.1 (hout ▸ h.dealt s)
      rw [hnil] at hsub
      exact hne (List.subset_nil.1 hsub)
    rw [hev]
    refine ⟨hn.trans h.seats, hnodup, hdealt, ?_⟩
    have hin := inHands_update hn hs hh (perm_removed (h.nodup s) hnd hsub)
    rw [← h.all, hin, ← Multiset.coe_add]
    abel

/-- The same over a run. -/
theorem Held.run {o : GameOptions} (cs : List Call) : ∀ {g : SingleGame} {table : List Card}, Held o g table →
    Held o (run SingleGame.step g cs) (table ++ g.playedCards cs) := by
  induction cs with
  | nil => intro g table h; simpa [playedCards, history] using h
  | cons c cs ih =>
    intro g table h
    have := ih (h.step c)
    rw [List.append_assoc] at this
    rw [playedCards, history, List.flatMap_append]
    exact this

/-- The constructor's answer: the hands as they were dealt. -/
theorem create_hands {o : GameOptions} (hg : create o = .ok g) :
    o.hands.length = o.numPlayers ∧ g.numPlayers = o.numPlayers ∧ ∀ s, g.hands s = o.hands.getD s [] := by
  unfold create at hg
  split at hg
  · cases hg
  rename_i hlen
  split at hg
  · cases hg
  rw [not_not] at hlen
  split at hg
  · cases hg
    exact ⟨hlen, rfl, fun _ => rfl⟩
  · cases hg
    exact ⟨hlen, rfl, fun _ => rfl⟩

/-- At the start every card is in its hand. -/
theorem create_held {o : GameOptions} (hnd : ∀ h ∈ o.hands, h.Nodup) (hg : create o = .ok g) : Held o g [] := by
  obtain ⟨hlen, hn, hh⟩ := create_hands hg
  refine ⟨hn.trans hlen.symm, fun s => ?_, fun s => ?_, ?_⟩
  · rw [hh]
    by_cases hs : s < o.hands.length
    · rw [List.getD_eq_getElem _ _ hs]
      exact hnd _ (List.getElem_mem hs)
    · rw [List.getD_eq_default _ _ (by omega)]
      exact List.nodup_nil
  · rw [hh]
  · rw [Multiset.coe_nil, add_zero, ← sum_hands]
    unfold inHands
    rw [hn, ← hlen]
    exact Finset.sum_congr rfl fun s _ => by rw [hh]

/-- **Where the cards are** after the calls `cs` of a game dealt by `o`. -/
structure Accounted (o : GameOptions) (g : SingleGame) (cs : List Call) : Prop where
  nodup : ∀ s, ((run step g cs).hands s).Nodup
  owned : ∀ s, (run step g cs).hands s ⊆ o.hands.getD s []
  conserved : (run step g cs).inHands + (g.playedCards cs : Multiset Card) = (o.hands.flatten : Multiset Card)
  /-- An accepted play takes exactly the listed cards out of its seat's hand. -/
  takes : ∀ s cards, ((run step g cs).play s cards).1.ok = true →
    ((run step g cs).hands s).Perm (cards ++ ((run step g cs).play s cards).2.hands s) ∧
      ∀ t ≠ s, ((run step g cs).play s cards).2.hands t = (run step g cs).hands t
  refused : ∀ c, (run step g cs).Refuses c → (run step g cs).step c = run step g cs ∧ (run step g cs).eventsOf c = []

end SingleGame

/-- **Cards are conserved and owned**, in every state of every run, whatever the calls and
the cards they list. The hands need not even be disjoint. -/
theorem card_conservation {o : GameOptions} {g : SingleGame} (hnd : ∀ h ∈ o.hands, h.Nodup)
    (hg : SingleGame.create o = .ok g) (cs : List SingleGame.Call) : SingleGame.Accounted o g cs := by
  have hheld := (SingleGame.create_held hnd hg).run cs
  rw [List.nil_append] at hheld
  refine ⟨hheld.nodup, fun s => (hheld.dealt s).subset, hheld.all, fun s cards hok => ?_,
    fun c => SingleGame.refused_nothing⟩
  rcases SingleGame.step_cards (run SingleGame.step g cs) (.play s cards) with
    ⟨-, -, hno⟩ | ⟨s', cards', hc, -, hall, hh, -⟩
  · rw [hno s cards rfl] at hok
    cases hok
  · cases hc
    obtain ⟨hcnd, hsub⟩ := SingleGame.handHasAll_iff.1 hall
    have hhands : ((run SingleGame.step g cs).play s cards).2.hands = _ := hh
    rw [hhands, Function.update_self]
    exact ⟨SingleGame.perm_removed (hheld.nodup s) hcnd hsub, fun t ht => Function.update_of_ne ht ..⟩

/-- A card listed twice and somebody else's card are turned down before the first play. -/
theorem card_conservation_three :
    SingleGame.Accounted threeHands (SingleGame.fresh threeHands)
      [.play 0 [.standard .r5 .S, .standard .r5 .S], .play 0 [.standard .r6 .S], .play 0 [.standard .r5 .S],
        .play 1 [.standard .r8 .H], .forfeitSeat 2] :=
  card_conservation (by decide) rfl _

end Murlan
