import Mathlib.Data.List.GetD
import Murlan.Proof.Order
import Murlan.Spec.Match

/-!
# Progress of a game

`Progress g`: unless the game is over, the seat on turn has an action the game
accepts. A game that a match builds (`Opens`) starts so, and every call keeps it
but one: the forfeit of the seat on turn while the opening card has not been
played (`KeepsOpener`). That forfeit moves the lead to a seat without the card,
whose plays all miss the opening card and which may not pass.

* `opening_step`: the opening card stays with the seat on turn.
* `progress_of_ok`: a game in its invariant, with the opening card at its place,
  has progress.
* `run_progress`: progress in every state of a run.
-/

namespace Murlan

/-- The game accepts the call. -/
def SingleGame.Accepts (g : SingleGame) : SingleGame.Call → Prop
  | .play s cards => (g.play s cards).1.ok = true
  | .pass s => (g.pass s).1.ok = true
  | .forfeitSeat _ => False

instance (g : SingleGame) : ∀ c, Decidable (g.Accepts c)
  | .play s cards => inferInstanceAs (Decidable ((g.play s cards).1.ok = true))
  | .pass s => inferInstanceAs (Decidable ((g.pass s).1.ok = true))
  | .forfeitSeat _ => inferInstanceAs (Decidable False)

/-- Unless the game is over, the seat on turn has an accepted action: a pass, or a
play of cards of its hand. -/
def SingleGame.Progress (g : SingleGame) : Prop :=
  g.isOver = false → ∃ s, g.turn = some s ∧
    (g.Accepts (.pass s) ∨ ∃ cards, cards ≠ [] ∧ cards ⊆ g.hands s ∧ g.Accepts (.play s cards))

/-- The options of a game that a match builds: non-empty hands that share no card,
and as leader and opening card what `firstGameOpening` or `beginPendingGame` gives. -/
structure Opens (o : GameOptions) : Prop where
  seats : 2 ≤ o.numPlayers
  length : o.hands.length = o.numPlayers
  nonempty : ∀ h ∈ o.hands, h ≠ []
  nodup : o.hands.flatten.Nodup
  opening : (∃ suit, (o.leader, o.openingCard) = firstGameOpening suit o.hands) ∨
    (o.leader < o.numPlayers ∧ o.openingCard = none)

/-- Everything a call needs to keep progress: it is not the forfeit of the seat on
turn while the opening card is still to be played. -/
def SingleGame.KeepsOpener (g : SingleGame) : SingleGame.Call → Prop
  | .forfeitSeat s => ¬ (g.openingPending.isSome = true ∧ g.turn = some s)
  | _ => True

instance (g : SingleGame) : ∀ c, Decidable (g.KeepsOpener c)
  | .forfeitSeat _ => inferInstanceAs (Decidable (¬ _))
  | .play _ _ => inferInstanceAs (Decidable True)
  | .pass _ => inferInstanceAs (Decidable True)

/-- The opener of a first game is a seat that holds the opening card. -/
theorem firstGameOpening_spec {suit : Suit} {hands : List (List Card)} {leader : ℕ} {card : Option Card}
    (h : (leader, card) = firstGameOpening suit hands) (hne : hands ≠ []) :
    leader < hands.length ∧ ∀ c, card = some c → c ∈ hands.getD leader [] := by
  unfold firstGameOpening at h
  simp only at h
  generalize hr : ([.r3, .r4, .r5, .r6, .r7, .r8, .r9, .r10, .J, .Q, .K, .A, .r2] : List Rank) = ranks at h
  cases hf : ranks.findSome? fun rank =>
      (hands.findIdx? fun h => Card.standard rank suit ∈ h).map fun holder =>
        (holder, some (Card.standard rank suit)) with
  | none =>
    rw [hf] at h
    cases h
    exact ⟨List.length_pos_iff.2 hne, fun c hc => by cases hc⟩
  | some p =>
    rw [hf] at h
    obtain ⟨rank, -, hrank⟩ := List.exists_of_findSome?_eq_some hf
    obtain ⟨holder, hh, rfl⟩ := Option.map_eq_some_iff.1 hrank
    cases h
    obtain ⟨hlt, hmem, -⟩ := List.findIdx?_eq_some_iff_getElem.1 hh
    refine ⟨hlt, fun c hc => ?_⟩
    cases hc
    rw [List.getD_eq_getElem _ _ hlt]
    exact of_decide_eq_true hmem

namespace SingleGame

variable {g g' : SingleGame}

/-- The opening card, while it is to be played, is in the hand of the seat on turn,
which leads. -/
def OpeningHeld (g : SingleGame) : Prop :=
  g.status = .playing → ∀ c, g.openingPending = some c →
    g.pile = none ∧ ∃ s, g.turn = some s ∧ c ∈ g.hands s

theorem openingPending_commitPlay (g : SingleGame) (seat : ℕ) (cards : List Card) (combo : Combo) :
    (g.commitPlay seat cards combo).2.openingPending = none := by
  have hput : (g.putDown seat cards combo).openingPending = none := rfl
  rcases commitPlay_advances g seat cards combo with ⟨-, h⟩ | ⟨-, h⟩
  · rw [h.opening, hput]
  · rw [h.opening]; exact hput

/-- **The opening card stays with the seat on turn** through every call that keeps
the opener. -/
theorem opening_step (ho : OpeningHeld g) (c : Call) (hk : g.KeepsOpener c) :
    OpeningHeld (g.step c) := by
  cases c with
  | play s cards =>
    rcases play_cases g s cards with ⟨-, -, he⟩ | ⟨combo, -, -, -, -, -, -, he⟩
    · simp only [step, he]; exact ho
    · intro _ c hc
      simp only [step, he, openingPending_commitPlay] at hc
      cases hc
  | pass s =>
    rcases pass_cases g s with ⟨-, -, he⟩ | ⟨hp, -, hpile, -, he⟩
    · simp only [step, he]; exact ho
    · -- with a pile on the table the game has opened
      intro _ c hc
      have hadv := afterAction_advances { g with passed := addSeat g.passed s } s
      simp only [step, he, hadv.opening] at hc
      exact absurd (ho hp c hc).1 hpile
  | forfeitSeat s =>
    intro hp' c hc
    rcases forfeitSeat_cases g s with ⟨-, he⟩ | ⟨hp, -, -, -, he⟩ | ⟨hp, hs, hg, ha, he⟩
    · simp only [step, he] at hp' hc ⊢
      exact ho hp' c hc
    · simp only [step, he] at hp' hc ⊢
      exact ho hp c hc
    · simp only at he
      have hpend : g.openingPending = some c := by
        rcases forfeitSeat_moves g s with ⟨-, hm⟩ | ⟨-, -, -, ⟨ha', -⟩ | ⟨-, hm⟩⟩
        · simp only [step, hm] at hc; exact hc
        · rw [ha] at ha'; cases ha'
        · simp only [step, hm.opening] at hc; exact hc
      obtain ⟨hpile, t, ht, hct⟩ := ho hp c hpend
      have hturn : g.turn ≠ some s := fun hts => hk ⟨by rw [hpend]; rfl, hts⟩
      have hyield : (g.deactivate s).yieldTurn (decide (g.turn = some s)) s = g.deactivate s := by
        unfold yieldTurn
        rw [if_neg (by rw [decide_eq_true_eq]; exact hturn)]
      rw [hyield] at he
      split at he
      · simp only [step, he, endGame_finished] at hp'
        cases hp'
      · simp only [step, he]
        exact ⟨hpile, t, ht, hct⟩

theorem handHasAll_singleton {s : ℕ} {c : Card} (h : c ∈ g.hands s) : g.handHasAll s [c] = true := by
  simp [handHasAll, h]

/-- The leader may play any card of its hand, if it is the opening card while that
is to be played. -/
theorem accepts_lead {s : ℕ} {c : Card} (hp : g.status = .playing) (ht : g.turn = some s)
    (hpile : g.pile = none) (hc : c ∈ g.hands s) (hopen : g.missedOpening [c] = none) :
    g.Accepts (.play s [c]) := by
  simp [Accepts, play, hp, ht, hpile, handHasAll_singleton hc, hopen, validatePlay_lead_single,
    ActionResult.accept]

/-- **Progress** of a game in its invariant whose opening card is at its place: the
seat on turn may pass on a pile, and lead a card when there is none. -/
theorem progress_of_ok (h : GameOK g) (ho : OpeningHeld g) : g.Progress := by
  intro hover
  have hp : g.status = .playing := by
    rcases status_cases g with hp | hf
    · exact hp
    · rw [isOver, hf] at hover; cases hover
  obtain ⟨s, ht, ha⟩ := h.turned hp
  refine ⟨s, ht, ?_⟩
  by_cases hpile : g.pile = none
  · right
    cases hpend : g.openingPending with
    | none =>
      obtain ⟨c, hc⟩ := List.exists_mem_of_ne_nil _ (h.active_hand s ha)
      refine ⟨[c], List.cons_ne_nil _ _, by simpa using hc, accepts_lead hp ht hpile hc ?_⟩
      rw [missedOpening, hpend]
    | some c =>
      obtain ⟨-, t, ht', hc⟩ := ho hp c hpend
      rw [ht] at ht'; cases ht'
      refine ⟨[c], List.cons_ne_nil _ _, by simpa using hc, accepts_lead hp ht hpile hc ?_⟩
      rw [missedOpening, hpend]
      simp
  · left
    simp [Accepts, pass, hp, ht, hpile, ActionResult.accept]

/-- A leader without the opening card, while that is to be played, has no action. -/
theorem stuck_of_missing {s : ℕ} {c : Card} (hp : g.status = .playing) (ht : g.turn = some s)
    (hpile : g.pile = none) (hpend : g.openingPending = some c) (hc : c ∉ g.hands s) :
    ¬ g.Progress := by
  intro h
  obtain ⟨t, ht', hact⟩ := h (by rw [isOver, hp]; rfl)
  rw [ht] at ht'; cases ht'
  rcases hact with hpass | ⟨cards, -, hsub, hplay⟩
  · rcases pass_cases g s with ⟨hno, -⟩ | ⟨-, -, hpile', -⟩
    · rw [Accepts, hno] at hpass; cases hpass
    · exact hpile' hpile
  · rcases play_cases g s cards with ⟨hno, -⟩ | ⟨-, -, -, -, -, hmiss, -⟩
    · rw [Accepts, hno] at hplay; cases hplay
    · rw [missedOpening, hpend] at hmiss
      simp only at hmiss
      split at hmiss
      · rename_i hmem
        exact hc (hsub hmem)
      · cases hmiss

/-- **The forfeit that `KeepsOpener` excludes stops the game** as soon as two other
seats remain: the lead goes to a seat without the opening card. -/
theorem stuck_of_opener_forfeit {s : ℕ} {c : Card} (h : Dealt g) (ht : g.turn = some s)
    (hpend : g.openingPending = some c) (honly : ∀ t, c ∈ g.hands t → t = s)
    (h3 : g.gone.length + 3 ≤ g.numPlayers) : ¬ (g.forfeitSeat s).2.Progress := by
  obtain ⟨t, ht', ha⟩ := h.turned h.playing
  rw [ht] at ht'; cases ht'
  have hg : s ∉ g.gone := fun hs => by
    have := h.gone_inactive s hs
    rw [ha] at this; cases this
  have hd := (forfeitSeat_dealt h (h.active_lt s ha) hg h3).1
  obtain ⟨u, hu, hua⟩ := hd.turned hd.playing
  rcases forfeitSeat_moves g s with ⟨h1, -⟩ | ⟨-, -, -, ⟨h1, -⟩ | ⟨-, hadv⟩⟩
  · rcases h1 with h1 | h1 | h1
    · rw [h.playing] at h1; cases h1
    · have := h.active_lt s ha
      omega
    · exact absurd h1 hg
  · rw [ha] at h1; cases h1
  · refine stuck_of_missing hd.playing hu hd.pile (hadv.opening.trans hpend) ?_
    rw [hadv.hands]
    intro hc
    have hus : u = s := honly u hc
    have : (g.forfeitSeat s).2.active s = false :=
      hd.gone_inactive s (by rw [hadv.gone]; exact List.mem_append_right _ (List.mem_singleton_self s))
    rw [hus, this] at hua
    cases hua

/-- Every run that keeps the opener keeps the invariant and the opening card's place. -/
theorem run_opening {o : GameOptions} (ho : Opens o) (hg : create o = .ok g) (cs : List Call)
    (hk : Guarded step KeepsOpener g cs) :
    GameOK (run step g cs) ∧ OpeningHeld (run step g cs) := by
  have hne : o.hands ≠ [] := by
    intro h
    have := ho.length
    rw [h, List.length_nil] at this
    have := ho.seats
    omega
  have hl : o.leader < o.numPlayers := by
    rcases ho.opening with ⟨suit, h⟩ | ⟨h, -⟩
    · rw [← ho.length]; exact (firstGameOpening_spec h hne).1
    · exact h
  obtain ⟨hcreate, hok⟩ := create_ok ho.length ho.seats ho.nonempty hl
  rw [hcreate] at hg
  cases hg
  have hheld : OpeningHeld (fresh o) := by
    intro _ c hc
    refine ⟨rfl, o.leader, rfl, ?_⟩
    rcases ho.opening with ⟨suit, h⟩ | ⟨-, h⟩
    · exact (firstGameOpening_spec h hne).2 c hc
    · have : o.openingCard = some c := hc
      rw [h] at this; cases this
  exact guarded_inv (P := fun g => GameOK g ∧ OpeningHeld g)
    (fun g c hg hk => ⟨step_ok hg.1 c, opening_step hg.2 c hk⟩) ⟨hok, hheld⟩ cs hk

end SingleGame

/-- **Progress of a game.** In every run of a game that a match builds whose steps
all keep the opener, the seat on turn has an action the game accepts. -/
theorem game_progress {o : GameOptions} (ho : Opens o) {g : SingleGame}
    (hg : SingleGame.create o = .ok g) (cs : List SingleGame.Call)
    (hk : Guarded SingleGame.step SingleGame.KeepsOpener g cs) :
    (run SingleGame.step g cs).Progress := by
  obtain ⟨hok, hheld⟩ := SingleGame.run_opening ho hg cs hk
  exact SingleGame.progress_of_ok hok hheld

/-- The sorted deck cut into `n` hands of 18. -/
def sortedDeal (n : ℕ) : List (List Card) :=
  (List.range n).map fun i => (buildDeck.drop (18 * i)).take 18

/-- The first game of three seats dealt the sorted deck: seat 0 opens with its 3♠. -/
def sortedOpening : GameOptions :=
  { numPlayers := 3, hands := sortedDeal 3, leader := 0, openingCard := some (.standard .r3 .S) }

theorem sortedOpening_opens : Opens sortedOpening :=
  ⟨by decide, by decide, by decide, by decide +kernel, Or.inl ⟨.S, by decide⟩⟩

theorem game_progress_sorted :
    (run SingleGame.step (SingleGame.fresh sortedOpening)
      [.play 0 [.standard .r3 .S], .forfeitSeat 1]).Progress :=
  game_progress sortedOpening_opens rfl _ (by decide +kernel)

/-- The opener leaves before its first play, two seats remain, and the new leader
can neither play nor pass. -/
theorem game_progress_fails :
    ¬ ∀ (o : GameOptions) (g : SingleGame) (cs : List SingleGame.Call), Opens o →
      SingleGame.create o = .ok g → (run SingleGame.step g cs).gone.length + 2 ≤ o.numPlayers →
      (run SingleGame.step g cs).Progress := by
  intro h
  refine SingleGame.stuck_of_missing (s := 1) (c := .standard .r3 .S) ?_ ?_ ?_ ?_ ?_
    (h sortedOpening _ [.forfeitSeat 0] sortedOpening_opens rfl (by decide +kernel)) <;> decide +kernel

end Murlan
