import Mathlib.Algebra.Order.BigOperators.Group.Finset
import Murlan.Proof.Cards

/-!
# Every game comes to an end

* `Seated`: the weakest invariant of a game between calls, for any deal, with empty hands
  too.
* `step_plays`, `step_passes`, `step_forfeits`: what an accepted call costs. A play takes
  a card out of a hand, a pass takes a seat out of those that may still answer the pile,
  and a forfeit a seat out of those that have not left.
* `step_ends`: a call emits `gameEnded` exactly when it ends the game.
* `game_finite`: the bounds, over every run, and the end of the game.
-/

namespace Murlan

/-- The event says that the game is over. -/
def GameEvent.isEnd : GameEvent → Bool
  | .gameEnded _ => true
  | _ => false

namespace SingleGame

variable {g g' : SingleGame} {seat : ℕ} {cards : List Card} {combo : Combo}

/-- An accepted play counts one. -/
def playWeight (g : SingleGame) : Call → ℕ
  | .play s cards => if (g.play s cards).1.ok then 1 else 0
  | .pass _ | .forfeitSeat _ => 0

/-- An accepted pass counts one. -/
def passWeight (g : SingleGame) : Call → ℕ
  | .pass s => if (g.pass s).1.ok then 1 else 0
  | .play _ _ | .forfeitSeat _ => 0

/-- A forfeit that is not turned down counts one. -/
def forfeitWeight (g : SingleGame) : Call → ℕ
  | .forfeitSeat s => if g.status = .finished ∨ g.numPlayers ≤ s ∨ s ∈ g.gone then 0 else 1
  | .play _ _ | .pass _ => 0

/-- A call that is not turned down counts one. -/
theorem weight_of_accepted {c : Call} (h : ¬ g.Refuses c) :
    1 ≤ g.playWeight c + g.passWeight c + g.forfeitWeight c := by
  cases c with
  | play s cards =>
    have hok : (g.play s cards).1.ok = true := by simpa [Refuses] using h
    simp only [playWeight, hok, if_true]
    omega
  | pass s =>
    have hok : (g.pass s).1.ok = true := by simpa [Refuses] using h
    simp only [passWeight, hok, if_true]
    omega
  | forfeitSeat s =>
    have hno : ¬ (g.status = .finished ∨ g.numPlayers ≤ s ∨ s ∈ g.gone) := h
    simp only [forfeitWeight, if_neg hno]
    omega

/-! ## The invariant of any deal -/

/-- **A game between calls**, whatever was dealt. -/
structure Seated (g : SingleGame) : Prop where
  active_lt : ∀ s, g.active s = true → s < g.numPlayers
  active_hand : ∀ s, g.active s = true → g.hands s ≠ []
  gone_lt : ∀ s ∈ g.gone, s < g.numPlayers
  gone_nodup : g.gone.Nodup
  trick : g.status = .playing → TrickOK g
  ended : g.status = .finished → g.turn = none

/-- The end of a game brings nobody back. -/
theorem endGame_active (g : SingleGame) (s : ℕ) (h : g.endGame.2.active s = true) : g.active s = true := by
  unfold endGame at h
  split at h
  · exact h
  · simp only at h
    split at h
    · cases h
    · exact h

theorem Advances.active (h : Advances g g') {s : ℕ} (hs : g'.active s = true) : g.active s = true := by
  rcases h with h | ⟨g₁, h, rfl⟩
  · rw [h.active] at hs
    exact hs
  · rw [← h.active]
    exact endGame_active g₁ s hs

/-- No call makes a seat active. -/
theorem step_active {c : Call} {s : ℕ} (h : (g.step c).active s = true) : g.active s = true := by
  cases c with
  | play v cards =>
    rcases play_cases g v cards with ⟨-, -, he⟩ | ⟨combo, -, -, -, -, -, -, he⟩
    · rwa [step, he] at h
    · rw [step, he] at h
      rcases commitPlay_advances g v cards combo with ⟨-, ha⟩ | ⟨-, ha⟩
      · exact ha.active h
      · exact (update_false_iff.1 (ha.active h)).2
  | pass v =>
    rcases pass_cases g v with ⟨-, -, he⟩ | ⟨-, -, -, -, he⟩
    · rwa [step, he] at h
    · rw [step, he] at h
      exact (afterAction_advances { g with passed := addSeat g.passed v } v).active h
  | forfeitSeat v =>
    rcases forfeitSeat_moves g v with ⟨-, he⟩ | ⟨-, -, -, ⟨-, he⟩ | ⟨-, ha⟩⟩
    · rwa [step, he] at h
    · rwa [step, he] at h
    · exact (update_false_iff.1 (ha.active h)).2

/-- Who has left after a call: one seat more after a forfeit that is not turned down. -/
theorem step_gone (g : SingleGame) (c : Call) :
    ((g.step c).gone = g.gone ∧ g.forfeitWeight c = 0) ∨
      ∃ s, s < g.numPlayers ∧ s ∉ g.gone ∧ (g.step c).gone = g.gone ++ [s] ∧ g.forfeitWeight c = 1 := by
  cases c with
  | play s cards => exact Or.inl ⟨(play_frame g s cards).2, rfl⟩
  | pass s => exact Or.inl ⟨(pass_frame g s).2, rfl⟩
  | forfeitSeat s =>
    rcases forfeitSeat_moves g s with ⟨hno, he⟩ | ⟨hp, hs, hg, hmove⟩
    · exact Or.inl ⟨by rw [step, he], by simp only [forfeitWeight, if_pos hno]⟩
    · refine Or.inr ⟨s, hs, hg, forfeitSeat_gone hp hs hg, ?_⟩
      have hno : ¬ (g.status = .finished ∨ g.numPlayers ≤ s ∨ s ∈ g.gone) := by
        rintro (h | h | h)
        · rw [hp] at h
          cases h
        · omega
        · exact hg h
      simp only [forfeitWeight, if_neg hno]

/-- A seat that is still active after a call still holds cards. -/
theorem step_active_hand (h : ∀ s, g.active s = true → g.hands s ≠ []) {c : Call} {s : ℕ}
    (hs : (g.step c).active s = true) : (g.step c).hands s ≠ [] := by
  have hbefore := h s (step_active hs)
  rcases step_cards g c with ⟨hh, -⟩ | ⟨v, cards, rfl, -, -, hh, -⟩
  · rw [hh]
    exact hbefore
  · by_cases hsv : s = v
    · subst hsv
      rcases play_cases g s cards with ⟨-, -, he⟩ | ⟨combo, -, -, -, -, -, -, he⟩
      · rw [step, he]
        exact hbefore
      · rw [step, he] at hs ⊢
        rcases commitPlay_advances g s cards combo with ⟨hmore, ha⟩ | ⟨-, ha⟩
        · rw [ha.hands]
          exact hmore
        · exact absurd rfl (update_false_iff.1 (ha.active hs)).1
    · rw [hh, Function.update_of_ne hsv]
      exact hbefore

/-- A method that ends a game leaves nobody on turn. -/
theorem Advances.ended (h : Advances g g') (hp : g.status = .playing) (hf : g'.status = .finished) : g'.turn = none := by
  rcases h with h | ⟨g₁, h, rfl⟩
  · rw [h.status, hp] at hf
    cases hf
  · have hne : g₁.status ≠ .finished := by
      rw [h.status, hp]
      decide
    unfold SingleGame.endGame
    rw [if_neg hne]

/-- Nobody is on turn in a game that is over. -/
theorem step_over (h : g.status = .finished → g.turn = none) {c : Call} (hf : (g.step c).status = .finished) :
    (g.step c).turn = none := by
  rcases status_cases g with hp | hover
  · cases c with
    | play s cards =>
      rcases play_cases g s cards with ⟨-, -, he⟩ | ⟨combo, -, -, -, -, -, -, he⟩
      · rw [step, he, hp] at hf
        cases hf
      · rw [step, he] at hf ⊢
        rcases commitPlay_advances g s cards combo with ⟨-, ha⟩ | ⟨-, ha⟩
        · exact ha.ended hp hf
        · exact ha.ended hp hf
    | pass s =>
      rcases pass_cases g s with ⟨-, -, he⟩ | ⟨-, -, -, -, he⟩
      · rw [step, he, hp] at hf
        cases hf
      · rw [step, he] at hf ⊢
        exact (afterAction_advances { g with passed := addSeat g.passed s } s).ended hp hf
    | forfeitSeat s =>
      rcases forfeitSeat_moves g s with ⟨-, he⟩ | ⟨-, -, -, ⟨-, he⟩ | ⟨-, ha⟩⟩
      · rw [step, he, hp] at hf
        cases hf
      · have hst : (g.step (.forfeitSeat s)).status = g.status := by rw [step, he]
        rw [hst, hp] at hf
        cases hf
      · exact ha.ended hp hf
  · -- every call is turned down
    have hrefused : g.Refuses c := by
      cases c with
      | play s cards => simp [Refuses, play, hover, ActionResult.fail]
      | pass s => simp [Refuses, pass, hover, ActionResult.fail]
      | forfeitSeat s => exact Or.inl hover
    rw [(refused_nothing hrefused).1]
    exact h hover

/-- A call keeps the seats in order. -/
theorem Seated.step (h : Seated g) (c : Call) : Seated (g.step c) := by
  have hn := step_numPlayers_eq g c
  refine ⟨fun s hs => ?_, fun s => step_active_hand h.active_hand, fun s hs => ?_, ?_,
    step_trick h.active_lt h.trick c, step_over h.ended⟩
  · rw [hn]
    exact h.active_lt s (step_active hs)
  · rw [hn]
    rcases step_gone g c with ⟨he, -⟩ | ⟨v, hv, -, he, -⟩
    · rw [he] at hs
      exact h.gone_lt s hs
    · rw [he] at hs
      rcases List.mem_append.1 hs with hs | hs
      · exact h.gone_lt s hs
      · rw [List.mem_singleton.1 hs]
        exact hv
  · rcases step_gone g c with ⟨he, -⟩ | ⟨v, -, hv, he, -⟩
    · rw [he]
      exact h.gone_nodup
    · rw [he]
      exact h.gone_nodup.append (List.nodup_singleton v) (by simpa using hv)

/-- A game starts with its seats in order. -/
theorem create_seated {o : GameOptions} (hg : create o = .ok g) : Seated g := by
  obtain ⟨hlen, -⟩ := create_hands hg
  have hhand : ∀ s, (fresh o).active s = true → (fresh o).hands s ≠ [] := by
    intro s hs
    simpa [fresh] using hs
  have hlt : ∀ s, (fresh o).active s = true → s < o.numPlayers := by
    intro s hs
    by_contra hno
    exact hhand s hs (List.getD_eq_default _ _ (by omega))
  unfold create at hg
  rw [if_neg (by omega)] at hg
  split at hg
  · cases hg
  split at hg
  · rename_i hact
    cases hg
    exact ⟨hlt, hhand, fun s hs => absurd hs List.not_mem_nil, List.nodup_nil,
      fun _ => .of_fresh rfl rfl rfl ⟨o.leader, rfl, hact⟩, (by intro hf; cases hf)⟩
  · cases hg
    refine ⟨hlt, hhand, fun s hs => absurd hs List.not_mem_nil, List.nodup_nil, fun hp => ?_, fun hf => ?_⟩
    · obtain ⟨t, ht⟩ : ∃ t, (fresh o).nextActiveAfter o.leader = some t := by
        by_contra hno
        have hnone : (fresh o).nextActiveAfter o.leader = none := by
          rw [← Option.not_isSome_iff_eq_none, Option.isSome_iff_exists]
          exact hno
        simp [hnone] at hp
      exact .of_fresh rfl rfl rfl ⟨t, ht, (Cyclic.next_spec ht).2⟩
    · by_contra hno
      simp only at hf hno
      rw [if_neg hno] at hf
      cases hf

/-! ## What the calls cost -/

/-- The number of cards in all hands. -/
def cardsLeft (g : SingleGame) : ℕ := ∑ s ∈ Finset.range g.numPlayers, (g.hands s).length

/-- **An accepted play takes a card out of a hand**; no call brings one in. -/
theorem step_plays (h : Seated g) (c : Call) : g.playWeight c + (g.step c).cardsLeft ≤ g.cardsLeft := by
  have hn := step_numPlayers_eq g c
  rcases step_cards g c with ⟨hh, -, hno⟩ | ⟨s, cards, rfl, hne, hall, hh, -⟩
  · have hw : g.playWeight c = 0 := by
      cases c with
      | play s cards => simp [playWeight, hno s cards rfl]
      | pass s => rfl
      | forfeitSeat s => rfl
    unfold cardsLeft
    rw [hw, hn, hh]
    omega
  · have hw : g.playWeight (.play s cards) ≤ 1 := by
      simp only [playWeight]
      split <;> omega
    obtain ⟨-, hsub⟩ := handHasAll_iff.1 hall
    obtain ⟨c, hc⟩ := List.exists_mem_of_ne_nil _ hne
    have hfewer : ((g.hands s).filter fun c => c ∉ cards).length < (g.hands s).length :=
      List.length_filter_lt_length_iff_exists.2 ⟨c, hsub hc, by simpa using hc⟩
    by_cases hs : s < g.numPlayers
    · have hlt : (g.step (.play s cards)).cardsLeft < g.cardsLeft := by
        unfold cardsLeft
        rw [hn, hh]
        refine Finset.sum_lt_sum (fun t _ => ?_) ⟨s, Finset.mem_range.2 hs, ?_⟩
        · by_cases ht : t = s
          · rw [ht, Function.update_self]
            exact List.length_filter_le _ _
          · rw [Function.update_of_ne ht]
        · rw [Function.update_self]
          exact hfewer
      omega
    · -- only a seat at the table is ever on turn
      have hrefused : (g.play s cards).1.ok = false := by
        rcases play_cases g s cards with ⟨hno, -⟩ | ⟨combo, hp, ht, -⟩
        · exact hno
        · obtain ⟨t, ht', hte⟩ := (h.trick hp).turn
          rw [ht] at ht'
          cases ht'
          exact absurd (h.active_lt s (eligible_iff.1 hte).1) hs
      obtain ⟨hsame, -⟩ := refused_nothing (g := g) (c := .play s cards) hrefused
      rw [hsame]
      simp [playWeight, hrefused]

/-- The seats that may still answer the pile, while one is on the table. -/
def answering (g : SingleGame) : ℕ :=
  if g.status = .playing ∧ g.pile ≠ none then g.contendersExcludingOwner.length else 0

theorem answering_pos (h : 0 < g.answering) : g.status = .playing ∧ g.pile ≠ none := by
  by_contra hno
  unfold answering at h
  rw [if_neg hno] at h
  omega

theorem contenders_nodup (g : SingleGame) : g.contendersExcludingOwner.Nodup := List.nodup_range.filter _

/-- The owner of the pile does not answer it. -/
theorem contenders_length (h : g.pileOwner = some seat) (hs : seat < g.numPlayers) :
    g.contendersExcludingOwner.length ≤ g.numPlayers - 1 := by
  have hnd : (seat :: g.contendersExcludingOwner).Nodup := by
    refine List.nodup_cons.2 ⟨fun hmem => ?_, contenders_nodup g⟩
    exact (mem_contenders.1 hmem).2.1 h.symm
  have hsub : seat :: g.contendersExcludingOwner ⊆ List.range g.numPlayers := by
    intro s hmem
    rcases List.mem_cons.1 hmem with rfl | hmem
    · exact List.mem_range.2 hs
    · exact List.mem_range.2 (mem_contenders.1 hmem).1
  have := (List.subperm_of_subset hnd hsub).length_le
  rw [List.length_cons, List.length_range] at this
  omega

/-- While the pile stays, who may answer it afterwards might have answered it before. -/
theorem samePile_contenders {c : Call} (hc : SamePile g c) :
    g.status = .playing ∧ g.pile ≠ none ∧ (g.step c).contendersExcludingOwner ⊆ g.contendersExcludingOwner := by
  have hn := step_numPlayers_eq g c
  obtain ⟨hfewer, -⟩ := step_answered hc
  have hsame : (g.step c).status = g.status ∧ (g.step c).pile = g.pile ∧ (g.step c).pileOwner = g.pileOwner := by
    rcases samePile_cases hc with he | ⟨s, t, -, -, -, he⟩ | ⟨s, -, he | ⟨t, he, -⟩⟩
    · rw [he]; exact ⟨rfl, rfl, rfl⟩
    · rw [he]; exact ⟨rfl, rfl, rfl⟩
    · rw [he]; exact ⟨rfl, rfl, rfl⟩
    · rw [he]; exact ⟨rfl, rfl, rfl⟩
  obtain ⟨hst, hpl, ho⟩ := hsame
  refine ⟨hst ▸ hc.2.1, hpl ▸ hc.2.2, fun s hs => ?_⟩
  rw [mem_contenders, hn, ho] at hs
  exact mem_contenders.2 ⟨hs.1, hs.2.1, hfewer s hs.2.2⟩

/-- The turn, while a pile is on the table, is with one who may answer it. -/
theorem turn_contender (h : TrickOK g) (hpile : g.pile ≠ none) (hlt : ∀ s, g.active s = true → s < g.numPlayers)
    (ht : g.turn = some seat) : seat ∈ g.contendersExcludingOwner := by
  obtain ⟨t, ht', hte⟩ := h.turn
  rw [ht] at ht'
  cases ht'
  obtain ⟨w, hw⟩ := Option.ne_none_iff_exists'.1 fun ho => hpile (h.pile.2 ho)
  refine mem_contenders.2 ⟨hlt _ (eligible_iff.1 hte).1, ?_, hte⟩
  rw [hw]
  intro heq
  exact ((h.answers w hw).2 _ ht).1 (Option.some.inj heq)

/-- Only one who may answer can pass. -/
theorem passWeight_le (h : Seated g) (c : Call) : g.passWeight c ≤ g.answering := by
  cases c with
  | play s cards => exact Nat.zero_le _
  | forfeitSeat s => exact Nat.zero_le _
  | pass s =>
    rcases pass_cases g s with ⟨hno, -, -⟩ | ⟨hp, ht, hpile, hok, -⟩
    · simp [passWeight, hno]
    · have hmem := turn_contender (h.trick hp) hpile h.active_lt ht
      have hw : g.passWeight (.pass s) = 1 := by simp [passWeight, hok]
      have hbefore : g.answering = g.contendersExcludingOwner.length := if_pos ⟨hp, hpile⟩
      rw [hw, hbefore]
      exact List.length_pos_of_mem hmem

/-- Who passes and leaves the pile where it is may not answer it any more. -/
theorem passed_out (hsame : SamePile g (.pass seat)) (hok : (g.pass seat).1.ok = true) :
    seat ∉ (g.step (.pass seat)).contendersExcludingOwner := by
  intro hmem
  have hin := (eligible_iff.1 (mem_contenders.1 hmem).2.2).2
  rcases pass_cases g seat with ⟨hno, -, -⟩ | ⟨-, -, -, -, he⟩
  · rw [hno] at hok
    cases hok
  · obtain ⟨-, hp, hpile⟩ := hsame
    simp only [step, he] at hp hpile hin
    obtain ⟨t, hs⟩ := afterAction_same _ seat hp hpile
    rw [hs] at hin
    exact hin (mem_addSeat.2 (Or.inr rfl))

/-- **An accepted pass takes a seat out of those that may still answer**; a play brings in
all seats but its own, and no other call brings one in. -/
theorem step_passes (h : Seated g) (c : Call) :
    g.passWeight c + (g.step c).answering ≤ (g.numPlayers - 1) * g.playWeight c + g.answering := by
  by_cases hplay : ∃ s cards, c = .play s cards ∧ (g.play s cards).1.ok = true
  · -- the seat that played owns the pile now
    obtain ⟨s, cards, rfl, hok⟩ := hplay
    have hw : g.playWeight (.play s cards) = 1 := by simp [playWeight, hok]
    have hown : (g.step (.play s cards)).answering ≤ g.numPlayers - 1 := by
      by_cases hpos : 0 < (g.step (.play s cards)).answering
      · obtain ⟨hp', hpile'⟩ := answering_pos hpos
        have htrick := (h.step (.play s cards)).trick hp'
        obtain ⟨w, hw⟩ := Option.ne_none_iff_exists'.1 fun ho => hpile' (htrick.pile.2 ho)
        unfold answering
        rw [if_pos ⟨hp', hpile'⟩, ← step_numPlayers_eq g (.play s cards)]
        exact contenders_length hw (htrick.answers w hw).1
      · omega
    rw [hw, show g.passWeight (.play s cards) = 0 from rfl, Nat.mul_one]
    omega
  · by_cases hpos : 0 < (g.step c).answering
    · obtain ⟨hp', hpile'⟩ := answering_pos hpos
      have hsame : SamePile g c := by
        refine ⟨fun s cards hc => ?_, hp', hpile'⟩
        by_contra hok
        exact hplay ⟨s, cards, hc, by simpa using hok⟩
      obtain ⟨hp, hpile, hsub⟩ := samePile_contenders hsame
      have hbefore : g.answering = g.contendersExcludingOwner.length := if_pos ⟨hp, hpile⟩
      have hafter : (g.step c).answering = (g.step c).contendersExcludingOwner.length := if_pos ⟨hp', hpile'⟩
      by_cases hpass : ∃ s, c = .pass s ∧ (g.pass s).1.ok = true
      · -- the seat that passed was one of them, and is not any more
        obtain ⟨s, rfl, hok⟩ := hpass
        have hw : g.passWeight (.pass s) = 1 := by simp [passWeight, hok]
        have hs : s ∈ g.contendersExcludingOwner := by
          rcases pass_cases g s with ⟨hno, -, -⟩ | ⟨-, ht, -, -, -⟩
          · rw [hno] at hok
            cases hok
          · exact turn_contender (h.trick hp) hpile h.active_lt ht
        have hout := passed_out hsame hok
        have hnd : (s :: (g.step (.pass s)).contendersExcludingOwner).Nodup :=
          List.nodup_cons.2 ⟨hout, contenders_nodup _⟩
        have hle := (List.subperm_of_subset hnd (List.cons_subset.2 ⟨hs, hsub⟩)).length_le
        rw [List.length_cons] at hle
        omega
      · have hw : g.passWeight c = 0 := by
          cases c with
          | play s cards => rfl
          | pass s =>
            have hok : ¬ (g.pass s).1.ok = true := fun hok => hpass ⟨s, rfl, hok⟩
            simp [passWeight, hok]
          | forfeitSeat s => rfl
        have hle := (List.subperm_of_subset (contenders_nodup _) hsub).length_le
        omega
    · have hle : g.passWeight c ≤ g.answering := passWeight_le h c
      omega

/-- The number of seats that have not left. -/
def staying (g : SingleGame) : ℕ := g.numPlayers - g.gone.length

/-- **A forfeit that counts takes a seat out of those that have not left.** -/
theorem step_forfeits (h : Seated g) (c : Call) : g.forfeitWeight c + (g.step c).staying ≤ g.staying := by
  have hlen : (g.step c).gone.length ≤ (g.step c).numPlayers := by
    have hsub : (g.step c).gone ⊆ List.range (g.step c).numPlayers :=
      fun s hs => List.mem_range.2 ((h.step c).gone_lt s hs)
    have := (List.subperm_of_subset (h.step c).gone_nodup hsub).length_le
    rwa [List.length_range] at this
  unfold staying
  rw [step_numPlayers_eq] at hlen ⊢
  rcases step_gone g c with ⟨he, hw⟩ | ⟨s, -, -, he, hw⟩
  · rw [hw, he]
    omega
  · rw [he, List.length_append, List.length_singleton] at hlen ⊢
    omega

/-- How many more calls can be accepted, at most. -/
def lifetime (g : SingleGame) : ℕ := g.numPlayers * g.cardsLeft + g.answering + g.staying

/-- **Every accepted call shortens the life of the game.** -/
theorem step_lifetime (h : Seated g) (c : Call) :
    g.playWeight c + g.passWeight c + g.forfeitWeight c + (g.step c).lifetime ≤ g.lifetime := by
  have hplays := step_plays h c
  have hpasses := step_passes h c
  have hforfeits := step_forfeits h c
  have hmul : g.numPlayers * (g.playWeight c + (g.step c).cardsLeft) ≤ g.numPlayers * g.cardsLeft :=
    Nat.mul_le_mul_left _ hplays
  have hpay : (g.numPlayers - 1) * g.playWeight c + g.playWeight c ≤ g.numPlayers * g.playWeight c := by
    rcases Nat.eq_zero_or_pos g.numPlayers with h0 | hpos
    · -- without seats there are no cards
      have hnone : g.cardsLeft = 0 := by simp [cardsLeft, h0]
      have hzero : g.playWeight c = 0 := by omega
      rw [hzero]
      simp
    · rw [Nat.sub_mul, Nat.one_mul]
      have := Nat.le_mul_of_pos_left (g.playWeight c) hpos
      omega
  unfold lifetime
  rw [step_numPlayers_eq]
  rw [Nat.mul_add] at hmul
  omega

/-! ## The end of a game -/

/-- One for a game that is over. -/
def overs (g : SingleGame) : ℕ := if g.status = .finished then 1 else 0

/-- A method that emits `gameEnded` exactly when it ends the game. -/
def EndsOnce (g : SingleGame) (r : List GameEvent × SingleGame) : Prop :=
  r.1.countP GameEvent.isEnd + g.overs = r.2.overs

theorem EndsOnce.quiet (hs : g'.status = g.status) : EndsOnce g ([], g') := by
  unfold EndsOnce overs
  rw [hs]
  simp

theorem EndsOnce.cons {r : List GameEvent × SingleGame} {e : GameEvent} (h : EndsOnce g r) (he : e.isEnd = false) :
    EndsOnce g (e :: r.1, r.2) := by
  unfold EndsOnce at h ⊢
  rw [List.countP_cons_of_neg (by rw [he]; decide)]
  exact h

theorem EndsOnce.single {e : GameEvent} (hs : g'.status = g.status) (he : e.isEnd = false) : EndsOnce g ([e], g') :=
  (EndsOnce.quiet hs).cons he

theorem EndsOnce.append {r r' : List GameEvent × SingleGame} (h : EndsOnce g r) (h' : EndsOnce r.2 r') :
    EndsOnce g (r.1 ++ r'.1, r'.2) := by
  unfold EndsOnce at h h' ⊢
  rw [List.countP_append, ← h', ← h]
  omega

/-- The same method on a game that is over just when this one is. -/
theorem EndsOnce.of_status {r : List GameEvent × SingleGame} (h : EndsOnce g' r) (hs : g'.status = g.status) :
    EndsOnce g r := by
  unfold EndsOnce overs at h ⊢
  rwa [hs] at h

theorem endGame_once (g : SingleGame) : EndsOnce g g.endGame := by
  unfold endGame
  split
  · exact .quiet rfl
  · rename_i hp
    simp [EndsOnce, overs, hp, GameEvent.isEnd]

theorem resolveTrick_once (g : SingleGame) : EndsOnce g g.resolveTrick := by
  unfold resolveTrick
  simp only
  split
  · exact ((endGame_once _).cons rfl).of_status rfl
  · exact .single rfl rfl

theorem afterAction_once (g : SingleGame) (seat : ℕ) : EndsOnce g (g.afterAction seat) := by
  unfold afterAction
  split
  · exact resolveTrick_once g
  · exact .quiet rfl

/-- Passing the turn on ends the game at most once. -/
theorem passOnTurn_once (g : SingleGame) (seat : ℕ) : EndsOnce g (g.passOnTurn seat) := by
  unfold passOnTurn
  split
  · simp only
    split
    · exact (endGame_once _).of_status rfl
    · exact .quiet rfl
  · split
    · exact resolveTrick_once g
    · exact .quiet rfl

/-- So does a play. -/
theorem commitPlay_once (g : SingleGame) (seat : ℕ) (cards : List Card) (combo : Combo) :
    EndsOnce g (g.commitPlay seat cards combo) := by
  unfold commitPlay
  simp only
  split
  · rw [List.cons_append, List.cons_append, List.nil_append]
    split
    · exact (((endGame_once _).cons rfl).cons rfl).of_status rfl
    · exact (((afterAction_once _ seat).cons rfl).cons rfl).of_status rfl
  · exact ((afterAction_once _ seat).cons rfl).of_status rfl

/-- So does a seat that leaves. -/
theorem forfeitSeat_once (g : SingleGame) (seat : ℕ) : EndsOnce g (g.forfeitSeat seat) := by
  have hend : ∀ r : List GameEvent × SingleGame, EndsOnce g r →
      EndsOnce g (if !r.2.isOver && r.2.activeCount ≤ 1 then (r.1 ++ r.2.endGame.1, r.2.endGame.2) else r) := by
    intro r hr
    split
    · exact hr.append (endGame_once _)
    · exact hr
  unfold forfeitSeat
  split
  · exact .quiet rfl
  split
  · exact .quiet rfl
  split
  · exact .quiet rfl
  simp only
  split
  · exact .quiet rfl
  · refine hend _ ?_
    split
    · exact (passOnTurn_once _ seat).of_status rfl
    · exact .quiet rfl

/-- **A call emits `gameEnded` exactly when it ends the game.** -/
theorem step_ends (g : SingleGame) (c : Call) : EndsOnce g (g.eventsOf c, g.step c) := by
  cases c with
  | play s cards =>
    rcases play_cases g s cards with ⟨-, hev, he⟩ | ⟨combo, -, -, -, -, -, -, he⟩
    · rw [eventsOf, step, hev, he]
      exact .quiet rfl
    · rw [eventsOf, step, he]
      exact commitPlay_once g s cards combo
  | pass s =>
    rcases pass_cases g s with ⟨-, hev, he⟩ | ⟨hp, ht, hpile, -, he⟩
    · rw [eventsOf, step, hev, he]
      exact .quiet rfl
    · rw [eventsOf, step, pass_events hp ht hpile, he]
      exact ((afterAction_once { g with passed := addSeat g.passed s } s).cons rfl).of_status rfl
  | forfeitSeat s => exact forfeitSeat_once g s

theorem run_ends (cs : List Call) : ∀ g : SingleGame, EndsOnce g (g.history cs, run step g cs) := by
  induction cs with
  | nil => exact fun _ => .quiet rfl
  | cons c cs ih => exact fun g => (step_ends g c).append (ih (g.step c))

/-! ## Every run -/

/-- **What the calls of a game can come to**, for `cards` cards in all hands. -/
structure Finite (g : SingleGame) (cards : ℕ) : Prop where
  plays : ∀ cs, total step playWeight g cs ≤ cards
  passes : ∀ cs, total step passWeight g cs ≤ (g.numPlayers - 1) * total step playWeight g cs
  forfeits : ∀ cs, total step forfeitWeight g cs ≤ g.numPlayers
  /-- The searches for the next seat find one. -/
  turn : ∀ cs, (run step g cs).status = .playing →
    ∃ t, (run step g cs).turn = some t ∧ t < g.numPlayers ∧ (run step g cs).active t = true
  /-- A game that is not over emits `gameEnded` once, when it ends. -/
  once : g.status = .playing → ∀ cs, (g.history cs).countP GameEvent.isEnd = (run step g cs).overs
  /-- Calls that are accepted until the game is over bring it to its end. -/
  ends : ∀ f : ℕ → Call, (∀ k, (after step g f k).status = .playing → ¬ (after step g f k).Refuses (f k)) →
    ∃ k ≤ g.numPlayers * cards + g.numPlayers, (after step g f k).status = .finished
  /-- As long as some call is always accepted, the game can be brought to its end. -/
  endable : (∀ cs, (run step g cs).status = .playing → ∃ c, ¬ (run step g cs).Refuses c) →
    ∀ cs, ∃ cs', (run step g (cs ++ cs')).status = .finished

theorem Seated.run (h : Seated g) (cs : List Call) : Seated (Murlan.run SingleGame.step g cs) :=
  run_inv (P := Seated) (fun _ c h => h.step c) h cs

theorem run_numPlayers (g : SingleGame) (cs : List Call) : (run step g cs).numPlayers = g.numPlayers :=
  run_inv (P := fun g' : SingleGame => g'.numPlayers = g.numPlayers) (fun g' c h => (step_numPlayers_eq g' c).trans h)
    rfl cs

theorem plays_le (h : Seated g) (cs : List Call) : total step playWeight g cs ≤ g.cardsLeft := by
  have := total_le_pot (P := Seated) (fun _ c h => h.step c) (fun _ c h => step_plays h c) h cs
  omega

/-- Between two plays every other seat passes once at most. -/
theorem passes_le (h : Seated g) (hpile : g.pile = none) (cs : List Call) :
    total step passWeight g cs ≤ (g.numPlayers - 1) * total step playWeight g cs := by
  have hpay : ∀ (g' : SingleGame) (c : Call), Seated g' ∧ g'.numPlayers = g.numPlayers →
      g'.passWeight c + (g'.step c).answering ≤ (g.numPlayers - 1) * g'.playWeight c + g'.answering := by
    rintro g' c ⟨h', hn⟩
    rw [← hn]
    exact step_passes h' c
  have hle := total_le (P := fun g' : SingleGame => Seated g' ∧ g'.numPlayers = g.numPlayers)
    (fun g' c h' => ⟨h'.1.step c, (step_numPlayers_eq g' c).trans h'.2⟩) hpay ⟨h, rfl⟩ cs
  have hstart : g.answering = 0 := if_neg fun h' => h'.2 hpile
  rw [total_mul] at hle
  omega

theorem forfeits_le (h : Seated g) (cs : List Call) : total step forfeitWeight g cs ≤ g.numPlayers := by
  have hpaid := total_le_pot (P := Seated) (fun _ c h => h.step c) (fun _ c h => step_forfeits h c) h cs
  have hstart : g.staying ≤ g.numPlayers := Nat.sub_le ..
  omega

/-- A run of accepted calls is no longer than the life of the game. -/
theorem accepted_length (h : Seated g) {cs : List Call} (hcs : Guarded step (fun g c => ¬ g.Refuses c) g cs) :
    cs.length ≤ g.lifetime := by
  have hlen := length_le_total (hcs.mono fun g c hc => weight_of_accepted hc)
  have hlife := total_le_pot (P := Seated) (fun _ c h => h.step c) (fun _ c h => step_lifetime h c) h cs
  omega

/-- Calls that are accepted bring the game to its end. -/
theorem Seated.ends (h : Seated g) (f : ℕ → Call)
    (hf : ∀ k, (after SingleGame.step g f k).status = .playing → ¬ (after SingleGame.step g f k).Refuses (f k)) :
    ∃ k ≤ g.lifetime, (after SingleGame.step g f k).status = .finished := by
  by_contra hno
  push Not at hno
  have hguard : Guarded SingleGame.step (fun g c => ¬ g.Refuses c) g ((List.range (g.lifetime + 1)).map f) := by
    refine guarded_range _ fun k hk => hf k ?_
    exact (status_cases _).resolve_right (hno k (by omega))
  have hlen := accepted_length h hguard
  rw [List.length_map, List.length_range] at hlen
  omega

/-- By induction on the life of the game: an accepted call shortens it. -/
theorem Seated.endable (life : ℕ) : ∀ {g : SingleGame}, Seated g → g.lifetime ≤ life →
    (∀ cs, (Murlan.run SingleGame.step g cs).status = .playing →
      ∃ c, ¬ (Murlan.run SingleGame.step g cs).Refuses c) →
    ∃ cs, (Murlan.run SingleGame.step g cs).status = .finished := by
  induction life with
  | zero =>
    intro g h hlife hav
    rcases status_cases g with hp | hf
    · obtain ⟨c, hc⟩ := hav [] hp
      have hweight := weight_of_accepted hc
      have hstep := step_lifetime h c
      rw [run_nil] at hweight
      omega
    · exact ⟨[], hf⟩
  | succ life ih =>
    intro g h hlife hav
    rcases status_cases g with hp | hf
    · obtain ⟨c, hc⟩ := hav [] hp
      have hweight := weight_of_accepted hc
      have hstep := step_lifetime h c
      rw [run_nil] at hweight
      obtain ⟨cs, hcs⟩ := ih (h.step c) (by omega) fun cs => hav (c :: cs)
      exact ⟨c :: cs, hcs⟩
    · exact ⟨[], hf⟩

/-- At the start every card dealt is left. -/
theorem create_cardsLeft {o : GameOptions} (hg : create o = .ok g) : g.cardsLeft = o.hands.flatten.length := by
  obtain ⟨hlen, hn, hh⟩ := create_hands hg
  have hsum : ∀ l : List (List Card), ∑ s ∈ Finset.range l.length, (l.getD s []).length = l.flatten.length := by
    intro l
    induction l with
    | nil => rfl
    | cons h l ih =>
      rw [List.length_cons, Finset.sum_range_succ', List.flatten_cons, List.length_append, ← ih]
      simp only [List.getD_cons_succ, List.getD_cons_zero]
      omega
  unfold cardsLeft
  rw [← hsum, hn, ← hlen]
  exact Finset.sum_congr rfl fun s _ => by rw [hh]

/-- A new game has no pile, and nobody has left it. -/
theorem create_table {o : GameOptions} (hg : create o = .ok g) : g.pile = none ∧ g.gone = [] := by
  unfold create at hg
  split at hg
  · cases hg
  split at hg
  · cases hg
  split at hg
  · cases hg
    exact ⟨rfl, rfl⟩
  · cases hg
    exact ⟨rfl, rfl⟩

end SingleGame

/-- **Every game comes to an end.** For every deal, whatever the calls: no more plays are
accepted than cards were dealt, no more passes than the others can answer each play with,
and no more forfeits than there are seats; and accepted calls lead to the one `gameEnded`. -/
theorem game_finite {o : GameOptions} {g : SingleGame} (hg : SingleGame.create o = .ok g) :
    g.Finite o.hands.flatten.length := by
  have h := SingleGame.create_seated hg
  obtain ⟨hpile, hgone⟩ := SingleGame.create_table hg
  have hcards := SingleGame.create_cardsLeft hg
  have hlife : g.lifetime = g.numPlayers * o.hands.flatten.length + g.numPlayers := by
    have hnone : g.answering = 0 := if_neg fun h' => h'.2 hpile
    have hall : g.staying = g.numPlayers := by
      unfold SingleGame.staying
      rw [hgone, List.length_nil]
      omega
    unfold SingleGame.lifetime
    rw [hnone, hall, hcards]
    omega
  refine ⟨fun cs => ?_, SingleGame.passes_le h hpile, SingleGame.forfeits_le h, fun cs hp => ?_, fun hp cs => ?_,
    fun f hf => ?_, fun hav cs => ?_⟩
  · have := SingleGame.plays_le h cs
    omega
  · have hrun := h.run cs
    obtain ⟨t, ht, hte⟩ := (hrun.trick hp).turn
    have hact := (SingleGame.eligible_iff.1 hte).1
    exact ⟨t, ht, SingleGame.run_numPlayers g cs ▸ hrun.active_lt t hact, hact⟩
  · have honce := SingleGame.run_ends cs g
    have hzero : g.overs = 0 := if_neg (by rw [hp]; decide)
    unfold SingleGame.EndsOnce at honce
    rwa [hzero, Nat.add_zero] at honce
  · rw [← hlife]
    exact h.ends f hf
  · have hrun := h.run cs
    obtain ⟨cs', hcs'⟩ := SingleGame.Seated.endable _ hrun (Nat.le_refl _) fun cs' => by
      rw [← run_append]
      exact hav (cs ++ cs')
    exact ⟨cs', by rw [run_append]; exact hcs'⟩

/-- A deal with an empty hand. -/
def unevenHands : GameOptions :=
  { numPlayers := 3, leader := 0, hands := [[.standard .r5 .S, .standard .r5 .H], [], [.joker .red]] }

theorem game_finite_uneven : (SingleGame.fresh unevenHands).Finite 3 :=
  game_finite (show SingleGame.create unevenHands = .ok _ from rfl)

end Murlan
