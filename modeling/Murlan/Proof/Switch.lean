import Murlan.Proof.Cards
import Murlan.Proof.Score

/-!
# The card switch

Between two games the seat placed last gives its strongest card to the seat placed first,
which returns one of rank 3 to 10 (`prepareNextGame`, `switchGive`, `onSwitchForfeit` and
`beginPendingGame` of `packages/server/src/match/match.ts`).

* `forfeits_led`: the seats that left are taken out of a fresh deal and the lead goes to
  the first seat from the leader on that is there.
* `Moved`: one card has gone from a hand to another; `moveCard_moved`.
* `Stage`: where a deal stands between two games; `prepareNextGame_stage`, `pending_stage`
  give it for the deal and for each call made while the switch waits.
* `card_switch`: the contract of the switch, in every run.
-/

namespace Murlan

/-! ## The strongest card -/

/-- The scan has seen `pre`, and its best card is as strong as any of them. -/
theorem strongest_scan (rest : List Card) : ∀ (pre : List Card) (acc : ℕ × ℕ × ℕ), acc.2.2 = pre.length →
    (∃ b, pre[acc.1]? = some b ∧ singlePower b = acc.2.1) → (∀ x ∈ pre, singlePower x ≤ acc.2.1) →
    ∃ b, (pre ++ rest)[(rest.foldl strongestStep acc).1]? = some b ∧
      ∀ x ∈ pre ++ rest, singlePower x ≤ singlePower b := by
  induction rest with
  | nil =>
    rintro pre acc - ⟨b, hb, hpow⟩ hmax
    refine ⟨b, by simpa using hb, fun x hx => ?_⟩
    rw [hpow]
    exact hmax x (by simpa using hx)
  | cons c rest ih =>
    rintro pre acc hlen ⟨b, hb, hpow⟩ hmax
    rw [List.foldl_cons, List.append_cons]
    have hbest : acc.1 < pre.length := (List.getElem?_eq_some_iff.1 hb).1
    have hend : (pre ++ [c]).length = pre.length + 1 := by simp
    apply ih
    · unfold strongestStep
      split <;> simp [hlen]
    · unfold strongestStep
      split
      · exact ⟨c, by simp [hlen], rfl⟩
      · exact ⟨b, by rw [List.getElem?_append_left hbest]; exact hb, hpow⟩
    · intro x hx
      unfold strongestStep
      rcases List.mem_append.1 hx with hx | hx
      · have := hmax x hx
        split
        · simp only
          omega
        · exact this
      · rw [List.mem_singleton.1 hx]
        split
        · exact le_rfl
        · show singlePower c ≤ acc.2.1
          omega

/-- **The card of the scan is a strongest card of the hand.** -/
theorem strongestIndexByPower_max {hand : List Card} {i : ℕ} (h : strongestIndexByPower hand = .ok i) :
    ∃ c, hand[i]? = some c ∧ ∀ x ∈ hand, singlePower x ≤ singlePower c := by
  cases hand with
  | nil => cases h
  | cons c rest =>
    have hi : (rest.foldl strongestStep (0, singlePower c, 1)).1 = i := by
      cases h
      rfl
    rw [← hi]
    exact strongest_scan rest [c] (0, singlePower c, 1) rfl ⟨c, rfl, rfl⟩ (by simp)

/-! ## One card from hand to hand -/

/-- `d'` is the deal `d` with the card `c` moved from one hand to another. -/
structure Moved (d : List (List Card)) (giver taker : ℕ) (c : Card) (d' : List (List Card)) : Prop where
  length : d'.length = d.length
  given : (d.getD giver []).Perm (c :: d'.getD giver [])
  taken : (d'.getD taker []).Perm (c :: d.getD taker [])
  rest : ∀ s, s ≠ giver → s ≠ taker → d'.getD s [] = d.getD s []

variable {d d' : List (List Card)} {giver taker idx : ℕ} {c : Card}

/-- A hand that is changed, and the others. -/
theorem getD_modify (l : List (List Card)) (i j : ℕ) (f : List Card → List Card) (hi : i < l.length) :
    (l.modify i f).getD j [] = if j = i then f (l.getD i []) else l.getD j [] := by
  rw [List.getD_eq_getElem?_getD, List.getElem?_modify]
  split
  · rename_i h
    subst h
    rw [if_pos rfl, List.getElem?_eq_getElem hi, List.getD_eq_getElem _ _ hi]
    rfl
  · rename_i h
    rw [if_neg (Ne.symm h), List.getD_eq_getElem?_getD]
    simp

/-- A card moves from one hand to another. -/
theorem moveCard_moved (hg : giver < d.length) (ht : taker < d.length) (hne : giver ≠ taker)
    (hc : (d.getD giver [])[idx]? = some c) : Moved d giver taker c (moveCard d giver taker idx c) := by
  have ht' : taker < (d.modify giver fun h => h.eraseIdx idx).length := by rwa [List.length_modify]
  obtain ⟨hlt, hget⟩ := List.getElem?_eq_some_iff.1 hc
  have hcards : ∀ s, (moveCard d giver taker idx c).getD s [] =
      if s = taker then d.getD taker [] ++ [c] else if s = giver then (d.getD giver []).eraseIdx idx else d.getD s [] := by
    intro s
    unfold moveCard
    rw [getD_modify _ _ _ _ ht', getD_modify _ _ _ _ hg, getD_modify _ _ _ _ hg, if_neg hne.symm]
  refine ⟨moveCard_length .., ?_, ?_, fun s hsg hst => ?_⟩
  · rw [hcards, if_neg hne, if_pos rfl, ← hget]
    exact (List.getElem_cons_eraseIdx_perm hlt).symm
  · rw [hcards, if_pos rfl]
    exact List.perm_append_singleton _ _
  · rw [hcards, if_neg hst, if_neg hsg]

/-- **The cards in hands stay the same** when one moves. -/
theorem Moved.flatten (h : Moved d giver taker c d') (hg : giver < d.length) (ht : taker < d.length) (hne : giver ≠ taker) :
    d'.flatten.Perm d.flatten := by
  have hseat : ∀ s ∈ Finset.range d.length,
      ((d'.getD s [] : List Card) : Multiset Card) + (if s = giver then {c} else 0) =
        ((d.getD s [] : List Card) : Multiset Card) + (if s = taker then {c} else 0) := by
    intro s _
    by_cases hsg : s = giver
    · subst hsg
      rw [if_pos rfl, if_neg hne, add_zero, Multiset.coe_eq_coe.2 h.given, ← Multiset.cons_coe,
        ← Multiset.singleton_add, add_comm]
    · rw [if_neg hsg, add_zero]
      by_cases hst : s = taker
      · subst hst
        rw [if_pos rfl, Multiset.coe_eq_coe.2 h.taken, ← Multiset.cons_coe, ← Multiset.singleton_add, add_comm]
      · rw [if_neg hst, add_zero, h.rest s hsg hst]
  have hsum := Finset.sum_congr rfl hseat
  rw [Finset.sum_add_distrib, Finset.sum_add_distrib, Finset.sum_ite_eq', Finset.sum_ite_eq',
    if_pos (Finset.mem_range.2 hg), if_pos (Finset.mem_range.2 ht)] at hsum
  have hall := add_right_cancel hsum
  rw [← h.length, sum_hands, h.length, sum_hands] at hall
  exact Multiset.coe_eq_coe.1 hall

/-- A card there and a card back: each hand has its size again. -/
theorem Moved.sizes {given hands : List (List Card)} {w l : ℕ} {card back : Card} (h : Moved d l w card given)
    (h' : Moved given w l back hands) (s : ℕ) : (hands.getD s []).length = (d.getD s []).length := by
  have h1 := h.given.length_eq
  have h2 := h.taken.length_eq
  have h3 := h'.given.length_eq
  have h4 := h'.taken.length_eq
  simp only [List.length_cons] at h1 h2 h3 h4
  by_cases hw : s = w
  · rw [hw]
    omega
  · by_cases hl : s = l
    · rw [hl]
      omega
    · rw [h'.rest s hw hl, h.rest s hl hw]

/-! ## The lead of a game that has just begun -/

namespace SingleGame

variable {g : SingleGame} {seat leader : ℕ}

/-- The lead is with the first seat from `leader` on that has not left. -/
def Led (g : SingleGame) (leader : ℕ) : Prop :=
  g.turn = Cyclic.first g.numPlayers (fun s => s ∉ g.gone) leader

/-- After the deal, who is not gone is in the game. -/
theorem Dealt.active_iff (h : Dealt g) {s : ℕ} (hs : s < g.numPlayers) : g.active s = decide (s ∉ g.gone) := by
  by_cases hg : s ∈ g.gone
  · rw [h.gone_inactive s hg, decide_eq_false (not_not.2 hg)]
  · rw [decide_eq_true hg]
    rcases h.cover s hs with ha | ho | ha
    · exact ha
    · rw [h.order] at ho
      cases ho
    · exact absurd ha hg

theorem forfeitSeat_hands (g : SingleGame) (seat : ℕ) : (g.forfeitSeat seat).2.hands = g.hands := by
  rcases step_cards g (.forfeitSeat seat) with ⟨hh, -⟩ | ⟨_, _, hno, -⟩
  · exact hh
  · cases hno

/-- A seat that leaves a fresh deal hands the lead on to the next seat that is there. -/
theorem forfeitSeat_led (h : Dealt g) (hs : seat < g.numPlayers) (hg : seat ∉ g.gone)
    (h3 : g.gone.length + 3 ≤ g.numPlayers) (hl : g.Led leader) : (g.forfeitSeat seat).2.Led leader := by
  obtain ⟨hdealt, hgone⟩ := forfeitSeat_dealt h hs hg h3
  have hn := forfeitSeat_numPlayers g seat
  unfold Led
  rw [hn, hgone]
  -- leaving only takes candidates away
  have hless : ∀ s, decide (s ∉ g.gone ++ [seat]) = true → decide (s ∉ g.gone) = true := by
    intro s
    simp only [decide_eq_true_iff, List.mem_append, not_or]
    exact And.left
  have hout : decide (seat ∉ g.gone ++ [seat]) = false := by simp
  have hact : ∀ s < g.numPlayers, (g.deactivate seat).active s = decide (s ∉ g.gone ++ [seat]) := by
    intro s hlt
    show Function.update g.active seat false s = _
    by_cases he : s = seat
    · rw [he, Function.update_self, hout]
    · rw [Function.update_of_ne he, h.active_iff hlt]
      simp [he]
  -- the seat was there and playing, so it is the third case
  rcases forfeitSeat_cases g seat with ⟨hno, -⟩ | ⟨-, -, -, ha, -⟩ | ⟨-, -, -, -, he⟩
  · rcases hno with hno | hno | hno
    · rw [h.playing] at hno
      cases hno
    · omega
    · exact absurd hno hg
  · rw [h.active_iff hs, decide_eq_true hg] at ha
    cases ha
  · simp only at he
    split at he
    · -- the game would be over
      have hp := hdealt.playing
      rw [he, endGame_finished] at hp
      cases hp
    · rw [he]
      have hp := hdealt.playing
      rw [he] at hp
      unfold yieldTurn at hp ⊢
      -- was it the leaver's turn? then the lead moves on, otherwise it stays where it is
      by_cases ht : g.turn = some seat
      · rw [if_pos (by simpa using ht)] at hp ⊢
        unfold passOnTurn at hp ⊢
        rw [if_pos (show (g.deactivate seat).pile = none from h.pile)] at hp ⊢
        have hnext : (g.deactivate seat).nextActiveAfter seat =
            Cyclic.next g.numPlayers (fun s => s ∉ g.gone ++ [seat]) seat := Cyclic.next_congr hact
        rw [hnext] at hp ⊢
        cases hx : Cyclic.next g.numPlayers (fun s => s ∉ g.gone ++ [seat]) seat with
        | none =>
          rw [hx] at hp
          simp only [if_true] at hp
          rw [endGame_finished] at hp
          cases hp
        | some t => exact (Cyclic.first_move (hl.symm.trans ht) hout hless hx).symm
      · rw [if_neg (by simpa using ht)]
        show g.turn = _
        obtain ⟨t, hturn, hta⟩ := h.turned h.playing
        have htlt := h.active_lt t hta
        have hne : t ≠ seat := fun hts => ht (hts ▸ hturn)
        rw [h.active_iff htlt] at hta
        rw [hturn]
        refine (Cyclic.first_keep (hl.symm.trans hturn) ?_ hless).symm
        simpa [hne] using hta

/-- **The lead of a fresh deal** once the seats that left are out of it. -/
theorem forfeits_led (l : List ℕ) : ∀ g : SingleGame, Dealt g → l.Nodup → (∀ s ∈ l, s < g.numPlayers ∧ s ∉ g.gone) →
    g.gone.length + l.length + 2 ≤ g.numPlayers → g.Led leader →
    (l.foldl (fun g s => (g.forfeitSeat s).2) g).Led leader ∧
      (l.foldl (fun g s => (g.forfeitSeat s).2) g).hands = g.hands := by
  induction l with
  | nil => exact fun g _ _ _ _ hl => ⟨hl, rfl⟩
  | cons s l ih =>
    intro g h hnd hmem hlen hl
    obtain ⟨hs, hnd⟩ := List.nodup_cons.1 hnd
    obtain ⟨hlt, hg⟩ := hmem s List.mem_cons_self
    rw [List.length_cons] at hlen
    obtain ⟨hdealt, hgone⟩ := forfeitSeat_dealt h hlt hg (by omega)
    have hn := forfeitSeat_numPlayers g s
    have hrest : ∀ t ∈ l, t < (g.forfeitSeat s).2.numPlayers ∧ t ∉ (g.forfeitSeat s).2.gone := by
      intro t ht
      obtain ⟨ht1, ht2⟩ := hmem t (List.mem_cons_of_mem s ht)
      have hne : t ≠ s := by
        rintro rfl
        exact hs ht
      rw [hn, hgone]
      exact ⟨ht1, by simp [ht2, hne]⟩
    have hroom : (g.forfeitSeat s).2.gone.length + l.length + 2 ≤ (g.forfeitSeat s).2.numPlayers := by
      rw [hn, hgone, List.length_append, List.length_singleton]
      omega
    obtain ⟨h1, h2⟩ := ih _ hdealt hnd hrest hroom (forfeitSeat_led h hlt hg (by omega) hl)
    exact ⟨h1, h2.trans (forfeitSeat_hands g s)⟩

end SingleGame

namespace Match

variable {m m' : Match} {hands d : List (List Card)} {w l leader seat : ℕ} {card : Card}

/-! ## The start of the next game -/

/-- The hands of the running game, or of the deal that waits for its switch. -/
def handsInPlay (m : Match) : List (List Card) :=
  match m.state, m.game with
  | .playing, some g => (List.range g.numPlayers).map g.hands
  | _, _ => m.pendingHands.getD []

/-- The seat on turn in the running game. -/
def onTurn (m : Match) : Option ℕ := m.game.bind SingleGame.turn

/-- The first seat from `seat` on, in turn order, whose player is there. -/
def presentFrom (m : Match) (seat : ℕ) : Option ℕ := Cyclic.first m.numPlayers (fun s => s ∉ m.goneSeats) seat

/-- A game has just begun with these hands, led from `leader` on. -/
structure Begun (m : Match) (hands : List (List Card)) (leader : ℕ) : Prop where
  state : m.state = .playing
  hands : m.handsInPlay = hands
  led : m.onTurn = m.presentFrom leader

/-- **The prepared hands are played as they are**, and the lead is with the leader or, if it
has left, with the next seat that is there. -/
theorem beginPendingGame_begun (hb : Board m) (hu : m.mustEndAfterForfeit = false) (hh : Playable m hands)
    (hl : leader < m.numPlayers) {r : MatchEvent × Match} (hr : m.beginPendingGame leader = .ok r) :
    Begun r.2 hands leader ∧ r.2.goneSeats = m.goneSeats := by
  obtain ⟨hcreate, hok⟩ := SingleGame.create_ok (o := { numPlayers := m.numPlayers, hands, leader }) hh.length
    (two_le_playersForType m.type) hh.nonempty hl
  set g := SingleGame.fresh { numPlayers := m.numPlayers, hands, leader } with hg
  have hnone : g.gone = [] := rfl
  have hn : g.numPlayers = m.numPlayers := rfl
  have hled : g.Led leader := by
    unfold SingleGame.Led Cyclic.first
    rw [hnone, if_pos (by simp)]
    rfl
  have hseats : ∀ s ∈ m.goneSeats, s < g.numPlayers ∧ s ∉ g.gone := fun s hs =>
    ⟨hb.gone_lt s hs, by rw [hnone]; exact List.not_mem_nil⟩
  have hroom : g.gone.length + m.goneSeats.length + 2 ≤ g.numPlayers := by
    rw [hnone, hn, List.length_nil, Nat.zero_add]
    exact two_remain hb hu
  obtain ⟨-, hgone, hnum⟩ := SingleGame.forfeits_dealt m.goneSeats g ⟨hok, rfl, rfl, rfl⟩ hb.gone_nodup hseats hroom
  obtain ⟨hturn, hcards⟩ := SingleGame.forfeits_led m.goneSeats g ⟨hok, rfl, rfl, rfl⟩ hb.gone_nodup hseats hroom hled
  unfold beginPendingGame at hr
  rw [hh.hands_eq, Option.getD_some, hcreate] at hr
  cases hr
  refine ⟨⟨rfl, ?_, ?_⟩, rfl⟩
  · show (List.range _).map _ = hands
    rw [hnum, hcards, hn, ← hh.length]
    exact map_getD_range hands []
  · show SingleGame.turn _ = Cyclic.first m.numPlayers (fun s => s ∉ m.goneSeats) leader
    rw [hturn, hnum, hgone, hnone]
    rfl

/-! ## Where a deal stands between two games -/

/-- A strongest card of a hand. -/
structure Strongest (hand : List Card) (card : Card) : Prop where
  mem : card ∈ hand
  max : ∀ x ∈ hand, singlePower x ≤ singlePower card

/-- The seat placed last gives nothing: its player left or it was dealt both jokers. -/
def Spared (d : List (List Card)) (gone : List ℕ) (l : ℕ) : Prop :=
  l ∈ gone ∨ .joker .red ∈ d.getD l [] ∧ .joker .black ∈ d.getD l []

/-- The winner `w` has the loser's strongest card and owes a return. -/
structure Pending (m : Match) (d : List (List Card)) (w l : ℕ) (card : Card) (given : List (List Card)) : Prop where
  state : m.state = .awaitingSwitch
  hands_eq : m.pendingHands = some given
  winner_eq : m.pendingWinner = some w
  loser_eq : m.pendingLoser = some l
  received : m.pendingReceivedId = some card
  strongest : Strongest (d.getD l []) card
  moved : Moved d l w card given

/-- The cards after the switch: the loser's strongest card went to the winner, and a card of
rank 3 to 10 came back, unless the winner had none or had left. -/
inductive Exchanged (d : List (List Card)) (w l : ℕ) (left : Prop) (hands : List (List Card)) : Prop
  | returned (card back : Card) (given : List (List Card)) : Strongest (d.getD l []) card → Moved d l w card given →
      back ∈ d.getD w [] → isReturnEligible back = true → back ≠ card → Moved given w l back hands →
      (∀ s, (hands.getD s []).length = (d.getD s []).length) → Exchanged d w l left hands
  | nothing (card : Card) : Strongest (d.getD l []) card → Moved d l w card hands →
      (left ∨ ∀ c ∈ d.getD w [], isReturnEligible c = false) → Exchanged d w l left hands

/-- **Where the deal `d` stands** between a game that seat `w` won and seat `l` lost and the
start of the next. -/
inductive Stage (d : List (List Card)) (gone : List ℕ) (w l : ℕ) (m : Match) : Prop
  | spared : Spared d gone l → Begun m d w → Stage d gone w l m
  | pending (card : Card) (given : List (List Card)) : ¬ Spared d gone l → Pending m d w l card given →
      Stage d gone w l m
  | exchanged (hands : List (List Card)) : ¬ Spared d gone l → Exchanged d w l (w ∈ m.goneSeats) hands →
      Begun m hands l → Stage d gone w l m
  | ended : ¬ Spared d gone l → m.state = .matchOver → Stage d gone w l m

/-- Two jokers are the red and the black. -/
theorem two_jokers {hand : List Card} (hnd : hand.Nodup) :
    2 ≤ (hand.filter Card.isJoker).length ↔ .joker .red ∈ hand ∧ .joker .black ∈ hand := by
  have hmem : ∀ c ∈ hand.filter Card.isJoker, c ∈ hand ∧ (c = .joker .red ∨ c = .joker .black) := by
    intro c hc
    obtain ⟨h1, h2⟩ := List.mem_filter.1 hc
    refine ⟨h1, ?_⟩
    cases c with
    | standard r s => cases h2
    | joker col => cases col with
      | red => exact Or.inl rfl
      | black => exact Or.inr rfl
  have hnd' := hnd.filter Card.isJoker
  constructor
  · intro h2
    have hone : ∀ j : Card, (∀ c ∈ hand.filter Card.isJoker, c = j) → False := by
      intro j hj
      have hsub : hand.filter Card.isJoker ⊆ [j] := fun c hc => List.mem_singleton.2 (hj c hc)
      have hle := (hnd'.subperm hsub).length_le
      rw [List.length_singleton] at hle
      omega
    constructor
    · by_contra hno
      exact hone (.joker .black) fun c hc => (hmem c hc).2.resolve_left fun he => hno (he ▸ (hmem c hc).1)
    · by_contra hno
      exact hone (.joker .red) fun c hc => (hmem c hc).2.resolve_right fun he => hno (he ▸ (hmem c hc).1)
  · rintro ⟨hr, hb⟩
    have hsub : [.joker .red, .joker .black] ⊆ hand.filter Card.isJoker := by
      intro c hc
      simp only [List.mem_cons, List.not_mem_nil, or_false] at hc
      rcases hc with rfl | rfl
      · exact List.mem_filter.2 ⟨hr, rfl⟩
      · exact List.mem_filter.2 ⟨hb, rfl⟩
    exact (List.subperm_of_subset (by decide) hsub).length_le

theorem step_of_ok {c : Call} {r : MatchActionResult × Match} (h : m.apply c = .ok r) : m.step c = r.2 := by
  unfold step answer
  rw [h]

/-! ## The deal of the next game -/

theorem nonempty_of_two_le (h2 : ∀ h ∈ d, 2 ≤ h.length) : ∀ h ∈ d, h ≠ [] := by
  rintro h hm rfl
  have := h2 _ hm
  rw [List.length_nil] at this
  omega

theorem two_le_getD (h2 : ∀ h ∈ d, 2 ≤ h.length) {s : ℕ} (hs : s < d.length) : 2 ≤ (d.getD s []).length := by
  rw [List.getD_eq_getElem _ _ hs]
  exact h2 _ (List.getElem_mem hs)

theorem mem_getD {α : Type*} {l : List (List α)} {i : ℕ} {x : α} (h : x ∈ l.getD i []) :
    ∃ hi : i < l.length, x ∈ l[i] := by
  by_cases hi : i < l.length
  · rw [List.getD_eq_getElem _ _ hi] at h
    exact ⟨hi, h⟩
  · rw [List.getD_eq_default _ _ (by omega)] at h
    cases h

/-- No card is in two hands of a deal. -/
theorem hands_disjoint (hdis : d.flatten.Nodup) (hne : w ≠ l) {a b : Card} (ha : a ∈ d.getD w []) (hb : b ∈ d.getD l []) :
    a ≠ b := by
  rintro rfl
  obtain ⟨hw, haw⟩ := mem_getD ha
  obtain ⟨hl, hal⟩ := mem_getD hb
  have hpair := List.pairwise_iff_getElem.1 (List.nodup_flatten.1 hdis).2
  rcases Nat.lt_or_gt_of_ne hne with hlt | hlt
  · exact hpair w l hw hl hlt haw hal
  · exact hpair l w hl hw hlt hal haw

theorem hand_nodup (hdis : d.flatten.Nodup) (s : ℕ) : (d.getD s []).Nodup := by
  by_cases hs : s < d.length
  · rw [List.getD_eq_getElem _ _ hs]
    exact (List.nodup_flatten.1 hdis).1 _ (List.getElem_mem hs)
  · rw [List.getD_eq_default _ _ (by omega)]
    exact List.nodup_nil

theorem ok_of_bind {α β : Type} {x : Except String α} {f : α → Except String β} {b : β} (h : x >>= f = .ok b) :
    ∃ a, x = .ok a ∧ f a = .ok b := by
  cases x with
  | error e => cases h
  | ok a => exact ⟨a, rfl, h⟩

/-- **The loser's card goes to the winner**, who returns one or has none to return. -/
theorem switchCards_stage {gone : List ℕ} (hb : Board m) (hu : m.mustEndAfterForfeit = false)
    (hlen : d.length = m.numPlayers) (h2 : ∀ h ∈ d, 2 ≤ h.length) (hdis : d.flatten.Nodup) (hw : w < m.numPlayers)
    (hl : l < m.numPlayers) (hne : w ≠ l) (hpw : m.pendingWinner = some w) (hpl : m.pendingLoser = some l)
    (hns : ¬ Spared d gone l) {r : List MatchEvent × Match} (hr : m.switchCards d w l = .ok r) : Stage d gone w l r.2 := by
  have hloser := two_le_getD h2 (hlen ▸ hl)
  have hholds : d.getD l [] ≠ [] := by
    intro he
    rw [he, List.length_nil] at hloser
    omega
  obtain ⟨i, hi, -⟩ := strongestIndexByPower_lt hholds
  obtain ⟨card, hcard, hmax⟩ := strongestIndexByPower_max hi
  have hget : (d.getD l []).getD i (.joker .red) = card := by
    rw [List.getD_eq_getElem?_getD, hcard]
    rfl
  have hstrong : Strongest (d.getD l []) card := ⟨List.mem_of_getElem? hcard, hmax⟩
  have hmoved : Moved d l w card (moveCard d l w i card) := moveCard_moved (by omega) (by omega) hne.symm hcard
  have hk : Kept m (m.giveStrongest d w l i card) := ⟨rfl, rfl, rfl, rfl, rfl, rfl⟩
  unfold switchCards at hr
  obtain ⟨i', hi', hr⟩ := ok_of_bind hr
  rw [hi] at hi'
  cases hi'
  simp only [hget] at hr
  split at hr
  · rename_i hnone
    have hplay : Playable (m.giveStrongest d w l i card) (moveCard d l w i card) :=
      ⟨rfl, (moveCard_length ..).trans hlen, moveCard_ne_nil (nonempty_of_two_le h2) hloser⟩
    obtain ⟨r', hbegin, hr⟩ := ok_of_bind hr
    cases hr
    obtain ⟨hbegun, -⟩ := beginPendingGame_begun (hk.board hb) (hk.mustEnd.trans hu) hplay hl hbegin
    refine .exchanged _ hns (.nothing card hstrong hmoved (Or.inr fun c hc => ?_)) hbegun
    -- a card the winner was dealt is not the one it received
    by_contra helig
    rw [Bool.not_eq_false] at helig
    have hcne : c ≠ card := hands_disjoint hdis hne hc hstrong.mem
    have hheld : c ∈ (moveCard d l w i card).getD w [] := hmoved.taken.mem_iff.2 (List.mem_cons_of_mem card hc)
    have hin : c ∈ (m.giveStrongest d w l i card).returnable w := by
      unfold returnable eligibleReturnCards
      rw [List.mem_filter, List.mem_filter]
      exact ⟨⟨hheld, helig⟩, by simpa [giveStrongest] using hcne⟩
    rw [hnone] at hin
    cases hin
  · cases hr
    exact .pending card _ hns ⟨rfl, rfl, hpw, hpl, rfl, hstrong, hmoved⟩

/-- The first and the last of a list without repetition are different. -/
theorem ends_ne {order : List ℕ} (hnd : order.Nodup) (h2 : 2 ≤ order.length) (hw : order.head? = some w)
    (hl : order.getLast? = some l) : w ≠ l := by
  match order, h2 with
  | a :: b :: rest, _ =>
    cases hw
    rw [List.getLast?_cons_cons] at hl
    have hmem := List.mem_of_mem_getLast? hl
    rintro rfl
    exact (List.nodup_cons.1 hnd).1 hmem

/-- **The next deal** is played as it is, or the switch begins. -/
theorem prepareNextGame_stage {order : List ℕ} (hb : Board m) (hu : m.mustEndAfterForfeit = false)
    (hdis : (m.deal m.dealt).flatten.Nodup) (ho : order.Perm (List.range m.numPlayers)) (hw : order.head? = some w)
    (hl : order.getLast? = some l) {r : List MatchEvent × Match} (hr : m.prepareNextGame order = .ok r) :
    w < m.numPlayers ∧ l < m.numPlayers ∧ w ≠ l ∧ Stage (m.deal m.dealt) m.goneSeats w l r.2 := by
  have hmem : ∀ s ∈ order, s < m.numPlayers := fun s hs => List.mem_range.1 (ho.mem_iff.1 hs)
  have hwlt := hmem w (List.mem_of_mem_head? hw)
  have hllt := hmem l (List.mem_of_mem_getLast? hl)
  have hne : w ≠ l := ends_ne (ho.nodup_iff.2 List.nodup_range)
    (by rw [ho.length_eq, List.length_range]; exact two_le_playersForType m.type) hw hl
  refine ⟨hwlt, hllt, hne, ?_⟩
  have hhead : order.headD 0 = w := by
    rw [List.headD_eq_head?_getD, hw]
    rfl
  have hlast : order.getLastD 0 = l := by
    rw [List.getLastD_eq_getLast?, hl]
    rfl
  have hlen : (m.deal m.dealt).length = m.numPlayers := hb.deals.length _
  have h2 := hb.deals.two_le m.dealt
  unfold prepareNextGame at hr
  simp only [hhead, hlast] at hr
  obtain ⟨-, -, hr⟩ := ok_of_bind hr
  have hk : Kept m (m.dealNext w l) := ⟨rfl, rfl, rfl, rfl, rfl, rfl⟩
  have hplay : Playable (m.dealNext w l) (m.deal m.dealt) := ⟨rfl, hlen, nonempty_of_two_le h2⟩
  have hspare : ∀ {r' : MatchEvent × Match}, (m.dealNext w l).beginPendingGame w = .ok r' →
      Begun r'.2 (m.deal m.dealt) w := fun h =>
    (beginPendingGame_begun (hk.board hb) (hk.mustEnd.trans hu) hplay hwlt h).1
  have hjokers := two_jokers (hand_nodup hdis l)
  split at hr
  · rename_i hgone
    obtain ⟨r', hbegin, hr⟩ := ok_of_bind hr
    cases hr
    exact .spared (Or.inl hgone) (hspare hbegin)
  rename_i hgone
  split at hr
  · rename_i hboth
    obtain ⟨r', hbegin, hr⟩ := ok_of_bind hr
    cases hr
    exact .spared (Or.inr (hjokers.1 hboth)) (hspare hbegin)
  · rename_i hboth
    have hns : ¬ Spared (m.deal m.dealt) m.goneSeats l := by
      rintro (h | h)
      · exact hgone h
      · exact hboth (hjokers.2 h)
    exact switchCards_stage (hk.board hb) (hk.mustEnd.trans hu) hlen h2 hdis hwlt hllt hne rfl rfl hns hr

/-! ## While the switch waits -/

/-- The next game is led from the loser on, with the hands as they are after the switch. -/
theorem begin_exchanged {gone : List ℕ} {left : Prop} (hb : Board m) (hu : m.mustEndAfterForfeit = false)
    (hh : Playable m hands) (hl : l < m.numPlayers) (hns : ¬ Spared d gone l) (hleft : left → w ∈ m.goneSeats)
    (hx : Exchanged d w l left hands) {r : MatchEvent × Match} (hr : m.beginPendingGame l = .ok r) :
    Stage d gone w l r.2 := by
  obtain ⟨hbegun, hgone⟩ := beginPendingGame_begun hb hu hh hl hr
  refine .exchanged hands hns ?_ hbegun
  rw [hgone]
  cases hx with
  | returned card back given h1 h2 h3 h4 h5 h6 h7 => exact .returned card back given h1 h2 h3 h4 h5 h6 h7
  | nothing card h1 h2 h3 => exact .nothing card h1 h2 (h3.imp_left hleft)

/-- **A call made while the switch waits** leaves it waiting, completes it or, when the
winner leaves or too few are left, ends it without a return. -/
theorem pending_stage {gone : List ℕ} {given : List (List Card)} (h : MatchOK m) (hp : Pending m d w l card given)
    (hw : w < d.length) (hl : l < d.length) (hne : w ≠ l) (hns : ¬ Spared d gone l) (c : Call) :
    Stage d gone w l (m.step c) := by
  have hstay : Stage d gone w l m := .pending card given hns hp
  have hgoes : m.state ≠ .matchOver := by
    rw [hp.state]
    decide
  have hsw : Switching m given w l := by
    rcases h.phase with ⟨g, hr⟩ | ⟨hands, w', l', hsw⟩ | hover
    · have := hr.state
      rw [hp.state] at this
      cases this
    · have h1 := hsw.hands_eq
      have h2 := hsw.winner_eq
      have h3 := hsw.loser_eq
      rw [hp.hands_eq] at h1
      rw [hp.winner_eq] at h2
      rw [hp.loser_eq] at h3
      cases h1
      cases h2
      cases h3
      exact hsw
    · exact absurd hover hgoes
  have hu := h.undecided hgoes
  have hsame : m.step c = m → Stage d gone w l (m.step c) := fun he => by
    rw [he]
    exact hstay
  cases c with
  | play s cards =>
    apply hsame
    refine step_of_ok (r := (.fail "Nuk je në një lojë aktive." "not_in_match", m)) ?_
    simp only [apply, play, hp.state]
  | pass s =>
    apply hsame
    refine step_of_ok (r := (.fail "Nuk je në një lojë aktive." "not_in_match", m)) ?_
    simp only [apply, pass, hp.state]
  | switchGive s back =>
    obtain ⟨r, hr, -⟩ := switchGive_outcome h s back
    rw [step_of_ok (show m.apply (.switchGive s back) = .ok r from hr)]
    simp only [switchGive, hp.state, hp.hands_eq, hp.winner_eq, hp.loser_eq, hp.received] at hr
    split at hr
    · cases hr
      exact hstay
    split at hr
    · cases hr
      exact hstay
    rename_i helig
    split at hr
    · cases hr
      exact hstay
    rename_i hnot
    split at hr
    · cases hr
      exact hstay
    rename_i idx hidx
    obtain ⟨r', hbegin, hr⟩ := ok_of_bind hr
    cases hr
    have hk : Kept m (m.giveBack given w l idx back) := ⟨rfl, rfl, rfl, rfl, rfl, rfl⟩
    have hplay : Playable (m.giveBack given w l idx back) (moveCard given w l idx back) :=
      ⟨rfl, (moveCard_length ..).trans hsw.length, moveCard_ne_nil hsw.nonempty hsw.winner_two⟩
    have hget : (given.getD w [])[idx]? = some back := by
      obtain ⟨hlt, hx, -⟩ := List.findIdx?_eq_some_iff_getElem.1 hidx
      rw [List.getElem?_eq_getElem hlt, of_decide_eq_true hx]
    -- the card given back is not the one received, so it was dealt to the winner
    have hback : back ≠ card := fun he => hnot (by rw [he])
    have hmoved : Moved given w l back (moveCard given w l idx back) :=
      moveCard_moved (by rw [hp.moved.length]; exact hw) (by rw [hp.moved.length]; exact hl) hne hget
    have hdealt : back ∈ d.getD w [] :=
      (List.mem_cons.1 (hp.moved.taken.mem_iff.1 (List.mem_of_getElem? hget))).resolve_left hback
    have hx : Exchanged d w l False (moveCard given w l idx back) :=
      .returned card back given hp.strongest hp.moved hdealt (by simpa using helig) hback hmoved (hp.moved.sizes hmoved)
    exact begin_exchanged (hk.board h.toBoard) (hk.mustEnd.trans hu) hplay hsw.loser_lt hns False.elim hx hbegin
  | forfeit s =>
    obtain ⟨r, hr, -⟩ := forfeit_outcome h s
    rw [step_of_ok (show m.apply (.forfeit s) = .ok r from hr)]
    unfold forfeit at hr
    rw [if_neg hgoes] at hr
    split at hr
    · cases hr
      exact hstay
    rename_i hlt
    rw [not_le] at hlt
    split at hr
    · cases hr
      exact hstay
    rename_i hg
    simp only at hr
    split at hr
    · cases hr
      exact .ended hns rfl
    rename_i hend
    rw [Bool.not_eq_true] at hend
    rw [show (m.leave s).state = .awaitingSwitch from hp.state] at hr
    simp only [onSwitchForfeit, show (m.leave s).pendingWinner = some w from hp.winner_eq,
      show (m.leave s).pendingLoser = some l from hp.loser_eq] at hr
    split at hr
    · rename_i hsw'
      obtain ⟨r', hleft, hr⟩ := ok_of_bind hr
      cases hr
      obtain ⟨r'', hbegin, hr⟩ := ok_of_bind hleft
      cases hr
      have hplay : Playable (m.leave s) given := ⟨hp.hands_eq, hsw.length, hsw.nonempty⟩
      have hx : Exchanged d w l True given := .nothing card hp.strongest hp.moved (Or.inl trivial)
      refine begin_exchanged (h.toBoard.leave hlt hg) hend hplay hsw.loser_lt hns (fun _ => ?_) hx hbegin
      rw [← hsw']
      exact List.mem_append_right _ (List.mem_singleton_self s)
    · cases hr
      exact .pending card given hns ⟨hp.state, hp.hands_eq, hp.winner_eq, hp.loser_eq, hp.received, hp.strongest, hp.moved⟩

/-! ## Every run -/

/-- The calls are made while the switch waits. -/
def Waits : Match → List Call → Prop
  | _, [] => True
  | m, c :: cs => m.state = .awaitingSwitch ∧ (m.step c).Waits cs

/-- While the switch waits, its stage stays. -/
theorem run_stage {gone : List ℕ} (hw : w < d.length) (hl : l < d.length) (hne : w ≠ l) (cs : List Call) :
    ∀ m : Match, MatchOK m → Stage d gone w l m → m.Waits cs → Stage d gone w l (run step m cs) := by
  induction cs with
  | nil => exact fun m _ hs _ => hs
  | cons c cs ih =>
    intro m h hs hwaits
    obtain ⟨hawait, hrest⟩ := hwaits
    refine ih (m.step c) (step_matchOK h c) ?_ hrest
    cases hs with
    | spared _ hb =>
      have := hb.state
      rw [hawait] at this
      cases this
    | pending card given hns hp => exact pending_stage h hp hw hl hne hns c
    | exchanged hands _ _ hb =>
      have := hb.state
      rw [hawait] at this
      cases this
    | ended _ hover =>
      rw [hawait] at hover
      cases hover

theorem beginPendingGame_last {r : MatchEvent × Match} (hr : m.beginPendingGame leader = .ok r) :
    r.2.lastFinishingOrder = m.lastFinishingOrder := by
  obtain ⟨g, -, hr⟩ := ok_of_bind hr
  cases hr
  rfl

theorem switchCards_last {r : List MatchEvent × Match} (hr : m.switchCards d w l = .ok r) :
    r.2.lastFinishingOrder = m.lastFinishingOrder := by
  obtain ⟨i, -, hr⟩ := ok_of_bind hr
  simp only at hr
  split at hr
  · obtain ⟨r', hbegin, hr⟩ := ok_of_bind hr
    cases hr
    exact (beginPendingGame_last hbegin).trans rfl
  · cases hr
    rfl

theorem prepareNextGame_last {order : List ℕ} {r : List MatchEvent × Match} (hr : m.prepareNextGame order = .ok r) :
    r.2.lastFinishingOrder = m.lastFinishingOrder := by
  unfold prepareNextGame at hr
  simp only at hr
  obtain ⟨-, -, hr⟩ := ok_of_bind hr
  split at hr
  · obtain ⟨r', hbegin, hr⟩ := ok_of_bind hr
    cases hr
    exact (beginPendingGame_last hbegin).trans rfl
  split at hr
  · obtain ⟨r', hbegin, hr⟩ := ok_of_bind hr
    cases hr
    exact (beginPendingGame_last hbegin).trans rfl
  · exact (switchCards_last hr).trans rfl

theorem recorded_deal (m : Match) (c : Call) : (m.recorded c).deal = m.deal ∧ (m.recorded c).dealt = m.dealt := by
  cases c <;> exact ⟨rfl, rfl⟩

/-- **A game that does not end the match** is followed by the next deal, between its first
seat and its last. -/
theorem scored_stage {c : Call} (h : MatchOK m) (hdis : (m.deal m.dealt).flatten.Nodup) (hs : m.ScoresGame c)
    (hgoes : (m.step c).state ≠ .matchOver) :
    ∃ order w l, (m.step c).lastFinishingOrder = some order ∧ order.head? = some w ∧ order.getLast? = some l ∧
      w < m.numPlayers ∧ l < m.numPlayers ∧ w ≠ l ∧ Stage (m.deal m.dealt) (m.step c).goneSeats w l (m.step c) := by
  have hpos := scoresGame_iff.1 hs
  unfold step at hgoes ⊢
  generalize (m.answer c).2 = m', (m.answer c).1 = r, answer_outcome h c = ho at hgoes hpos ⊢
  cases ho with
  | rejected c r hok hev =>
    rw [hev] at hpos
    cases hpos
  | idle s hs hg => cases hpos
  | decided s hs hlt hg hend => cases hpos
  | moved c gc g evs hr hc hl hp => cases hpos
  -- only the end of a game scores
  | ended c gc g evs r hr hc hl hfin hends =>
    have hs : m.state ≠ .matchOver := by
      rw [hr.state]
      decide
    obtain ⟨hb, hu⟩ := recorded_board h hs hl
    obtain ⟨htype, -⟩ := recorded_rest m c
    obtain ⟨hdeal, hdealt⟩ := recorded_deal m c
    have hn : (m.recorded c).numPlayers = m.numPlayers := by
      unfold Match.numPlayers
      rw [htype]
    -- the order of a finished game is a permutation of the seats, so it has a first and a last
    have hperm := (SingleGame.step_ok hr.toGameOK gc).final hfin
    rw [step_numPlayers c hc, hr.seats, ← hn] at hperm
    have hlen := hperm.length_eq
    rw [List.length_range] at hlen
    have hne : (g.step gc).finishingOrder ≠ [] := by
      intro he
      have htwo := two_le_playersForType (m.recorded c).type
      rw [he, List.length_nil] at hlen
      unfold Match.numPlayers at hlen
      omega
    cases hends with
    | won points ev hpts hev hover => exact absurd rfl hgoes
    | next points evs' target r hpts hevs hone htarget hover hnext hprep =>
      have hb' : Board ((((m.recorded c).withGame (g.step gc)).scored (g.step gc).finishingOrder points).extend target) := by
        have hboard : Board ((m.recorded c).withGame (g.step gc)) := ⟨hb.1, hb.2, hb.3, hb.4, hb.5⟩
        have hscored := hboard.scored (g.step gc).finishingOrder points
        exact ⟨hscored.1, hscored.2, hscored.3, hscored.4, hscored.5⟩
      have hw := List.head?_eq_some_head hne
      have hlast := List.getLast?_eq_some_getLast hne
      have hdis' : ((m.recorded c).deal (m.recorded c).dealt).flatten.Nodup := by
        rw [hdeal, hdealt]
        exact hdis
      -- the next game is dealt and the two cards are up for exchange
      obtain ⟨h1, h2, h3, h4⟩ := prepareNextGame_stage hb' hu hdis' hperm hw hlast hprep
      refine ⟨_, _, _, prepareNextGame_last hprep, hw, hlast, hn ▸ h1, hn ▸ h2, h3, ?_⟩
      rw [hnext.kept.gone, ← hdeal, ← hdealt]
      exact h4
  | returned s card r hs hev hkept hg =>
    have hnone : (MatchActionResult.accept [] r.1).matchEvents.countP MatchEvent.isScore = 0 := no_score hev
    omega
  | winnerLeft s r hs hl hev hkept hg =>
    have hnone : (MatchActionResult.accept [] r.1).matchEvents.countP MatchEvent.isScore = 0 := no_score hev
    omega
  | left s hands w l hsw hne hl => cases hpos

/-- No call changes the dealer. -/
theorem Outcome.deal {c : Call} {r : MatchActionResult} (ho : Outcome m c r m') : m'.deal = m.deal := by
  have hrec := (recorded_deal m c).1
  cases ho with
  | ended c gc g evs r hr hc hl hfin hends =>
    cases hends with
    | won points ev hpts hev hover => exact hrec
    | next points evs target r hpts hevs hone htarget hover hnext hprep => exact hnext.kept.deal.trans hrec
  | moved c gc g evs hr hc hl hp => exact hrec
  | returned s card r hs hev hkept hg => exact hkept.deal
  | winnerLeft s r hs hl hev hkept hg => exact hkept.deal
  | _ => rfl

theorem create_deal {o : MatchOptions} (hm : create o = .ok m) : m.deal = o.deal := by
  obtain ⟨-, -, hm⟩ := ok_of_bind hm
  obtain ⟨g, -, hm⟩ := ok_of_bind hm
  cases hm
  rfl

theorem run_deal (cs : List Call) : ∀ m : Match, MatchOK m → (run step m cs).deal = m.deal := by
  induction cs with
  | nil => exact fun _ _ => rfl
  | cons c cs ih =>
    intro m h
    rw [run_cons, ih _ (step_matchOK h c)]
    exact (answer_outcome h c).deal

/-- **The switch of the deal `d`** between the seat `w` placed first and the seat `l` placed
last, in a state up to the start of the next game; `lastLeads` is how seat `l` leads. -/
structure CardSwitch (d : List (List Card)) (gone : List ℕ) (w l : ℕ) (lastLeads : Prop) (m : Match) : Prop where
  conserved : m.state ≠ .matchOver → m.handsInPlay.flatten.Perm d.flatten
  /-- Nothing moves and the first seat, or the next one that is there, leads. -/
  spared : Spared d gone l → Begun m d w
  /-- At the start the cards are exchanged and the last seat leads. -/
  exchanged : ¬ Spared d gone l → m.state = .playing → Exchanged d w l (w ∈ m.goneSeats) m.handsInPlay ∧ lastLeads

/-- **The contract of the card switch** in the match `m`. -/
structure SwitchContract (m : Match) (lastLeads : Match → ℕ → Prop) : Prop where
  /-- A game that does not end the match has a first and a last seat, and as long as the
  calls after it are made while the switch waits, the deal stands as agreed. -/
  switch : ∀ c, m.ScoresGame c → (m.step c).state ≠ .matchOver →
    ∃ order w l, (m.step c).lastFinishingOrder = some order ∧ order.head? = some w ∧ order.getLast? = some l ∧
      ∀ cs, (m.step c).Waits cs → CardSwitch (m.deal m.dealt) (m.step c).goneSeats w l
        (lastLeads (run step (m.step c) cs) l) (run step (m.step c) cs)
  refused : ∀ s card, (m.answer (.switchGive s card)).1.ok = false → (m.answer (.switchGive s card)).2 = m

/-- The stage gives the claim about the switch. -/
theorem Stage.cardSwitch {gone : List ℕ} (hw : w < d.length) (hl : l < d.length) (hne : w ≠ l) (h : Stage d gone w l m) :
    CardSwitch d gone w l (m.onTurn = m.presentFrom l) m := by
  cases h with
  | spared hs hb =>
    refine ⟨fun _ => ?_, fun _ => hb, fun hns => absurd hs hns⟩
    rw [hb.hands]
  | pending card given hns hp =>
    refine ⟨fun _ => ?_, fun hs => absurd hs hns, fun _ hplay => ?_⟩
    · have hcards : m.handsInPlay = given := by
        unfold handsInPlay
        rw [hp.state, hp.hands_eq]
        rfl
      rw [hcards]
      exact hp.moved.flatten hl hw hne.symm
    · rw [hp.state] at hplay
      cases hplay
  | exchanged hands hns hx hb =>
    rw [← hb.hands] at hx
    refine ⟨fun _ => ?_, fun hs => absurd hs hns, fun _ _ => ⟨hx, hb.led⟩⟩
    cases hx with
    | returned card back given h1 h2 h3 h4 h5 h6 h7 =>
      have hback := h6.flatten (by rw [h2.length]; exact hw) (by rw [h2.length]; exact hl) hne
      exact hback.trans (h2.flatten hl hw hne.symm)
    | nothing card h1 h2 h3 => exact h2.flatten hl hw hne.symm
  | ended hns hover =>
    refine ⟨fun hgoes => absurd hover hgoes, fun hs => absurd hs hns, fun _ hplay => ?_⟩
    rw [hover] at hplay
    cases hplay

/-- A return that is turned down changes nothing. -/
theorem switchGive_refused (h : MatchOK m) (s : ℕ) (card : Card) (hno : (m.answer (.switchGive s card)).1.ok = false) :
    (m.answer (.switchGive s card)).2 = m := by
  generalize (m.answer (.switchGive s card)).2 = m', (m.answer (.switchGive s card)).1 = r,
    answer_outcome h (.switchGive s card) = ho at hno ⊢
  cases ho with
  | rejected c r hok hev => rfl
  | moved c gc g evs hr hc hl hp => cases hc
  | ended c gc g evs r hr hc hl hfin hends => cases hc
  | returned s card r hs hev hkept hg => cases hno

end Match

open Match in
/-- **The card switch.** For every dealer that gives full, disjoint hands and every run: from
the deal to the start of the next game, whoever leaves meanwhile, the cards in hands stay the
same; they do not move if the last seat has left or holds both jokers, and the first seat
leads; otherwise the last seat's strongest card is exchanged and the last seat leads. A seat
that has left before the start passes the lead on. -/
theorem card_switch {o : MatchOptions} (hd : FullDeals o.type o.deal) (hdis : ∀ k, (o.deal k).flatten.Nodup)
    (ht : TeamsOK o.teams) {m : Match} (hm : Match.create o = .ok m) (cs : List Match.Call) :
    SwitchContract (run Match.step m cs) fun m l => m.onTurn = m.presentFrom l := by
  obtain ⟨m', hm', hok, -, -⟩ := create_spec hd ht
  rw [hm] at hm'
  cases hm'
  have hrun := run_matchOK hok cs
  have hdeal : (run Match.step m cs).deal = o.deal := (run_deal cs m hok).trans (create_deal hm)
  have hfull : ((run Match.step m cs).deal (run Match.step m cs).dealt).length = (run Match.step m cs).numPlayers :=
    hrun.deals.length _
  refine ⟨fun c hs hgoes => ?_, switchGive_refused hrun⟩
  obtain ⟨order, w, l, horder, hw, hl, hwlt, hllt, hne, hstage⟩ :=
    scored_stage hrun (by rw [hdeal]; exact hdis _) hs hgoes
  refine ⟨order, w, l, horder, hw, hl, fun cs' hwaits => ?_⟩
  rw [← hfull] at hwlt hllt
  exact (run_stage hwlt hllt hne cs' _ (step_matchOK hrun c) hstage hwaits).cardSwitch hwlt hllt hne

/-- The first game of the rotating deals up to the play that ends it. -/
def beforeLastPlay : List Match.Call := firstPlace ++ secondPlace.dropLast

theorem rotatingDeals_disjoint (k : ℕ) : (rotatingDeals.deal k).flatten.Nodup := by
  have hdeck : (sortedDeal 3).flatten.Nodup := by decide +kernel
  exact ((List.rotate_perm (sortedDeal 3) k).flatten.nodup_iff).2 hdeck

theorem card_switch_rotating : Match.SwitchContract (run Match.step (firstDealt rotatingDeals) beforeLastPlay)
    fun m l => m.onTurn = m.presentFrom l :=
  card_switch rotatingDeals_full rotatingDeals_disjoint defaultTeams_ok rfl beforeLastPlay

/-- Seat 2 is last and gives its card; it leaves while seat 0 owes the return. Seat 0 returns
the ten of diamonds and leads itself. -/
theorem last_seat_passes_the_lead :
    ¬ ∀ (o : MatchOptions) (m : Match) (cs : List Match.Call), FullDeals o.type o.deal →
      (∀ k, (o.deal k).flatten.Nodup) → TeamsOK o.teams → Match.create o = .ok m →
      Match.SwitchContract (run Match.step m cs) fun m l => m.onTurn = some l := by
  intro h
  obtain ⟨order, w, l, horder, hw, hl, hswitch⟩ := (h rotatingDeals (firstDealt rotatingDeals) beforeLastPlay rotatingDeals_full
    rotatingDeals_disjoint defaultTeams_ok rfl).switch (.play 1 [.standard .r2 .H])
    (Match.scoresGame_iff.2 (by decide +kernel)) (by decide +kernel)
  set m := (run Match.step (firstDealt rotatingDeals) beforeLastPlay).step (.play 1 [.standard .r2 .H]) with hm
  have hlast : m.lastFinishingOrder = some [0, 1, 2] := by decide +kernel
  rw [hlast] at horder
  cases horder
  cases hw
  cases hl
  have hwaits : m.Waits [.forfeit 2, .switchGive 0 (.standard .r10 .D)] :=
    ⟨by decide +kernel, by decide +kernel, trivial⟩
  have hgiven : ¬ Match.Spared ((run Match.step (firstDealt rotatingDeals) beforeLastPlay).deal
      (run Match.step (firstDealt rotatingDeals) beforeLastPlay).dealt) m.goneSeats 2 := by
    rintro (hgone | hboth)
    · exact absurd hgone (by decide +kernel)
    · exact absurd hboth (by decide +kernel)
  have hleads := ((hswitch _ hwaits).exchanged hgiven (by decide +kernel)).2
  exact absurd hleads (by decide +kernel)

end Murlan
