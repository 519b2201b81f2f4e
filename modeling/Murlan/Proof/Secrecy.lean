import Murlan.Proof.Cards

/-!
# What the table shows

Two games that differ only in the cards of their hands, with hands of equal sizes,
look the same from outside.

* `withHands`: the game with other cards in the hands; every method that does not look
  at a hand commutes with it.
* `SameTable`: two games that agree but for the cards in the hands; `step_sameTable`
  keeps it, with equal events.
* `public_view`: equal events and snapshots after every step of every run.
-/

namespace Murlan

namespace SingleGame

variable {g g' : SingleGame} {hands : ℕ → List Card} {seat : ℕ} {cards : List Card} {combo : Combo}

/-- The game with other cards in the hands. -/
def withHands (g : SingleGame) (hands : ℕ → List Card) : SingleGame := { g with hands := hands }

/-- What a method emits, and the game after it with other cards in the hands. -/
def reseated (hands : ℕ → List Card) (r : List GameEvent × SingleGame) : List GameEvent × SingleGame :=
  (r.1, r.2.withHands hands)

/-! ## The methods that look at no hand -/

/-- The end of a game does not look at hands. -/
theorem endGame_withHands (g : SingleGame) (hands : ℕ → List Card) :
    (g.withHands hands).endGame = reseated hands g.endGame := by
  have hst : (g.withHands hands).status = g.status := rfl
  unfold endGame
  rw [hst]
  split
  · rfl
  · rfl

/-- Nor does the end of a trick. -/
theorem resolveTrick_withHands (g : SingleGame) (hands : ℕ → List Card) :
    (g.withHands hands).resolveTrick = reseated hands g.resolveTrick := by
  let table : SingleGame := { g with pile := none, pileOwner := none, passed := [], turn := g.trickLeader }
  have hend := endGame_withHands table hands
  have hiff : (g.trickLeader = none ∨ (table.withHands hands).activeCount ≤ 1) ↔
      (g.trickLeader = none ∨ table.activeCount ≤ 1) := Iff.rfl
  show (if g.trickLeader = none ∨ (table.withHands hands).activeCount ≤ 1 then
      (GameEvent.trickWon g.pileOwner g.trickLeader :: (table.withHands hands).endGame.1, (table.withHands hands).endGame.2)
    else ([.trickWon g.pileOwner g.trickLeader], table.withHands hands)) =
    reseated hands (if g.trickLeader = none ∨ table.activeCount ≤ 1 then
      (GameEvent.trickWon g.pileOwner g.trickLeader :: table.endGame.1, table.endGame.2)
    else ([.trickWon g.pileOwner g.trickLeader], table))
  by_cases h : g.trickLeader = none ∨ table.activeCount ≤ 1
  · rw [if_pos (hiff.2 h), if_pos h, hend]
    rfl
  · rw [if_neg fun h' => h (hiff.1 h'), if_neg h]
    rfl

/-- Nor does the turn that passes on. -/
theorem afterAction_withHands (g : SingleGame) (hands : ℕ → List Card) (seat : ℕ) :
    (g.withHands hands).afterAction seat = reseated hands (g.afterAction seat) := by
  have hc : (g.withHands hands).contendersExcludingOwner = g.contendersExcludingOwner := rfl
  unfold afterAction
  rw [hc]
  split
  · exact resolveTrick_withHands g hands
  · rfl

/-- Nor does a seat that passes it on. -/
theorem passOnTurn_withHands (g : SingleGame) (hands : ℕ → List Card) (seat : ℕ) :
    (g.withHands hands).passOnTurn seat = reseated hands (g.passOnTurn seat) := by
  have hpile : (g.withHands hands).pile = g.pile := rfl
  have hnext : (g.withHands hands).nextActiveAfter seat = g.nextActiveAfter seat := rfl
  have hc : (g.withHands hands).contendersExcludingOwner = g.contendersExcludingOwner := rfl
  unfold passOnTurn
  rw [hpile]
  split
  · simp only [hnext]
    split
    · exact endGame_withHands { g with turn := g.nextActiveAfter seat } hands
    · rfl
  · rw [hc]
    split
    · exact resolveTrick_withHands g hands
    · rfl

/-- The end of a forfeit: a game left with one holder of cards ends. -/
theorem ending_withHands (r : List GameEvent × SingleGame) (hands : ℕ → List Card) :
    (if !(reseated hands r).2.isOver && (reseated hands r).2.activeCount ≤ 1 then
        ((reseated hands r).1 ++ (reseated hands r).2.endGame.1, (reseated hands r).2.endGame.2)
      else reseated hands r) =
    reseated hands (if !r.2.isOver && r.2.activeCount ≤ 1 then (r.1 ++ r.2.endGame.1, r.2.endGame.2) else r) := by
  have hend : (reseated hands r).2.endGame = reseated hands r.2.endGame := endGame_withHands r.2 hands
  have hover : (reseated hands r).2.isOver = r.2.isOver := rfl
  have hcount : (reseated hands r).2.activeCount = r.2.activeCount := rfl
  rw [hend, hover, hcount]
  split
  · rfl
  · rfl

/-- Nor does a seat that leaves. -/
theorem forfeitSeat_withHands (g : SingleGame) (hands : ℕ → List Card) (seat : ℕ) :
    (g.withHands hands).forfeitSeat seat = reseated hands (g.forfeitSeat seat) := by
  by_cases h1 : g.status = .finished
  · simp [forfeitSeat, withHands, reseated, h1]
  by_cases h2 : g.numPlayers ≤ seat
  · simp [forfeitSeat, withHands, reseated, h1, h2]
  by_cases h3 : seat ∈ g.gone
  · simp [forfeitSeat, withHands, reseated, h1, h2, h3]
  cases h4 : g.active seat with
  | false => simp [forfeitSeat, withHands, reseated, h1, h2, h3, h4]
  | true =>
    -- the seat is taken out, and its turn passes on in both games alike
    have hyield : (if g.turn = some seat then ((g.deactivate seat).withHands hands).passOnTurn seat
          else ([], (g.deactivate seat).withHands hands)) =
        reseated hands (if g.turn = some seat then (g.deactivate seat).passOnTurn seat
          else ([], g.deactivate seat)) := by
      split
      · exact passOnTurn_withHands _ hands seat
      · rfl
    have hrun : ∀ g : SingleGame, g.status ≠ .finished → ¬ g.numPlayers ≤ seat → seat ∉ g.gone →
        g.active seat = true → g.forfeitSeat seat =
          (let r := if g.turn = some seat then (g.deactivate seat).passOnTurn seat else ([], g.deactivate seat)
           if !r.2.isOver && r.2.activeCount ≤ 1 then (r.1 ++ r.2.endGame.1, r.2.endGame.2) else r) := by
      intro g h1 h2 h3 h4
      unfold forfeitSeat
      rw [if_neg h1, if_neg h2, if_neg h3]
      simp only [h4, Bool.not_true, Bool.false_eq_true, if_false]
      rfl
    have hturn : (g.withHands hands).turn = g.turn := rfl
    have hout : (g.withHands hands).deactivate seat = (g.deactivate seat).withHands hands := rfl
    rw [hrun g h1 h2 h3 h4, hrun (g.withHands hands) h1 h2 h3 h4, hturn, hout]
    simp only
    rw [hyield]
    exact ending_withHands _ hands

/-- Nor does a pass. -/
theorem pass_withHands (g : SingleGame) (hands : ℕ → List Card) (seat : ℕ) :
    (g.withHands hands).pass seat = ((g.pass seat).1, (g.pass seat).2.withHands hands) := by
  have hst : (g.withHands hands).status = g.status := rfl
  have hturn : (g.withHands hands).turn = g.turn := rfl
  have hpile : (g.withHands hands).pile = g.pile := rfl
  unfold pass
  rw [hst, hturn, hpile]
  split
  · rfl
  split
  · rfl
  split
  · rfl
  · have h := afterAction_withHands { g with passed := addSeat g.passed seat } hands seat
    simp only
    exact congrArg (fun r : List GameEvent × SingleGame => (ActionResult.accept (.passed seat :: r.1), r.2)) h

/-! ## A committed play -/

/-- What a committed play does depends on whether it empties the hand, and on nothing else
of the hands. -/
theorem commitPlay_withHands (g : SingleGame) (hands : ℕ → List Card) (seat : ℕ) (cards : List Card) (combo : Combo)
    (hempty : ((g.hands seat).filter fun c => c ∉ cards) = [] ↔ ((hands seat).filter fun c => c ∉ cards) = []) :
    (g.withHands hands).commitPlay seat cards combo =
      reseated (Function.update hands seat ((hands seat).filter fun c => c ∉ cards)) (g.commitPlay seat cards combo) := by
  set hands' := Function.update hands seat ((hands seat).filter fun c => c ∉ cards) with hhands'
  have hdown : (g.withHands hands).putDown seat cards combo = (g.putDown seat cards combo).withHands hands' := rfl
  have hfin : ((g.putDown seat cards combo).withHands hands').finishSeat seat =
      ((g.putDown seat cards combo).finishSeat seat).withHands hands' := rfl
  have hleft : (g.putDown seat cards combo).hands seat = (g.hands seat).filter fun c => c ∉ cards :=
    Function.update_self ..
  have hleft' : ((g.putDown seat cards combo).withHands hands').hands seat = (hands seat).filter fun c => c ∉ cards :=
    Function.update_self ..
  have hcount : (((g.putDown seat cards combo).finishSeat seat).withHands hands').activeCount =
      ((g.putDown seat cards combo).finishSeat seat).activeCount := rfl
  have horder : (((g.putDown seat cards combo).finishSeat seat).withHands hands').finishingOrder =
      ((g.putDown seat cards combo).finishSeat seat).finishingOrder := rfl
  unfold commitPlay
  simp only [hdown, hleft, hleft', hfin, hcount, horder, endGame_withHands, afterAction_withHands]
  by_cases he : ((g.hands seat).filter fun c => c ∉ cards) = []
  · rw [if_pos he, if_pos (hempty.1 he)]
    split
    · rfl
    · rfl
  · rw [if_neg he, if_neg fun h => he (hempty.2 h)]
    rfl

/-! ## Two games side by side -/

/-- Two games that agree but for the cards in the hands; the hands have equal sizes and
repeat no card. -/
structure SameTable (g g' : SingleGame) : Prop where
  rest : g' = g.withHands g'.hands
  sizes : ∀ s, (g'.hands s).length = (g.hands s).length
  nodup : ∀ s, (g.hands s).Nodup
  nodup' : ∀ s, (g'.hands s).Nodup

/-- An accepted play in both games, with what remains in the two hands. -/
theorem SameTable.taken (h : SameTable g g') (hall : g.handHasAll seat cards = true)
    (hall' : g'.handHasAll seat cards = true) :
    ((g'.hands seat).filter fun c => c ∉ cards).length = ((g.hands seat).filter fun c => c ∉ cards).length := by
  obtain ⟨hnd, hsub⟩ := handHasAll_iff.1 hall
  obtain ⟨hnd', hsub'⟩ := handHasAll_iff.1 hall'
  have hlen := (perm_removed (h.nodup seat) hnd hsub).length_eq
  have hlen' := (perm_removed (h.nodup' seat) hnd' hsub').length_eq
  have hsizes := h.sizes seat
  rw [List.length_append] at hlen hlen'
  omega

theorem SameTable.snapshot (h : SameTable g g') : g'.snapshot = g.snapshot := by
  have hcounts : ((List.range g.numPlayers).map fun s => (g'.hands s).length) =
      (List.range g.numPlayers).map fun s => (g.hands s).length :=
    List.map_congr_left fun s _ => h.sizes s
  rw [h.rest]
  unfold SingleGame.snapshot withHands
  simp only [hcounts]

/-- Games after a call that left both hands as they were. -/
theorem SameTable.kept (h : SameTable g g') {r : SingleGame} (hr : r.hands = g.hands) :
    SameTable r (r.withHands g'.hands) :=
  ⟨rfl, fun s => by rw [hr]; exact h.sizes s, fun s => by rw [hr]; exact h.nodup s, h.nodup'⟩

/-- The call, if it is a play, is accepted. -/
def PlayAccepted (g : SingleGame) : Call → Prop
  | .play s cards => (g.play s cards).1.ok = true
  | .pass _ | .forfeitSeat _ => True

instance (g : SingleGame) : ∀ c, Decidable (g.PlayAccepted c)
  | .play s cards => inferInstanceAs (Decidable ((g.play s cards).1.ok = true))
  | .pass _ | .forfeitSeat _ => inferInstanceAs (Decidable True)

/-- **One call, accepted in both games if it is a play**, shows the same in both. -/
theorem step_sameTable (h : SameTable g g') {c : Call} (hc : g.PlayAccepted c) (hc' : g'.PlayAccepted c) :
    g'.eventsOf c = g.eventsOf c ∧ SameTable (g.step c) (g'.step c) := by
  cases c with
  | play s cards =>
    have hok : (g.play s cards).1.ok = true := hc
    have hok' : (g'.play s cards).1.ok = true := hc'
    rcases play_cases g s cards with ⟨hno, -, -⟩ | ⟨combo, -, -, -, hall, -, hcombo, he⟩
    · rw [hno] at hok
      cases hok
    rcases play_cases g' s cards with ⟨hno, -, -⟩ | ⟨combo', -, -, -, hall', -, hcombo', he'⟩
    · rw [hno] at hok'
      cases hok'
    have hsame : combo' = combo := Option.some.inj (hcombo'.symm.trans hcombo)
    subst hsame
    have hlen := h.taken hall hall'
    have hcommit : g'.commitPlay s cards combo' =
        reseated (Function.update g'.hands s ((g'.hands s).filter fun c => c ∉ cards)) (g.commitPlay s cards combo') := by
      conv_lhs => rw [h.rest]
      refine commitPlay_withHands g g'.hands s cards combo' ?_
      rw [← List.length_eq_zero_iff, ← List.length_eq_zero_iff, hlen]
    rw [eventsOf, eventsOf, step, step, he, he', hcommit]
    refine ⟨rfl, rfl, fun t => ?_, fun t => ?_, fun t => ?_⟩
    · rw [commitPlay_hands]
      show (Function.update g'.hands s _ t).length = _
      by_cases ht : t = s
      · rw [ht, Function.update_self, Function.update_self]
        exact hlen
      · rw [Function.update_of_ne ht, Function.update_of_ne ht]
        exact h.sizes t
    · have hsub := step_hands_sublist g (.play s cards) t
      rw [step, he] at hsub
      exact (h.nodup t).sublist hsub
    · have hsub := step_hands_sublist g' (.play s cards) t
      rw [step, he', hcommit] at hsub
      exact (h.nodup' t).sublist hsub
  | pass s =>
    have hboth : g'.pass s = ((g.pass s).1, (g.pass s).2.withHands g'.hands) := by
      conv_lhs => rw [h.rest]
      exact pass_withHands g g'.hands s
    have hkept : (g.pass s).2.hands = g.hands := by
      rcases step_cards g (.pass s) with ⟨hh, -⟩ | ⟨_, _, hno, -⟩
      · exact hh
      · cases hno
    rw [eventsOf, eventsOf, step, step, hboth]
    exact ⟨rfl, h.kept hkept⟩
  | forfeitSeat s =>
    have hboth : g'.forfeitSeat s = reseated g'.hands (g.forfeitSeat s) := by
      conv_lhs => rw [h.rest]
      exact forfeitSeat_withHands g g'.hands s
    have hkept : (g.forfeitSeat s).2.hands = g.hands := by
      rcases step_cards g (.forfeitSeat s) with ⟨hh, -⟩ | ⟨_, _, hno, -⟩
      · exact hh
      · cases hno
    rw [eventsOf, eventsOf, step, step, hboth]
    exact ⟨rfl, h.kept hkept⟩

/-! ## Every run -/

/-- Two deals that look the same. -/
structure SameSizes (o o' : GameOptions) : Prop where
  numPlayers : o'.numPlayers = o.numPlayers
  leader : o'.leader = o.leader
  openingCard : o'.openingCard = o.openingCard
  sizes : o'.hands.map List.length = o.hands.map List.length

/-- Two deals of the same sizes look alike. -/
theorem create_sameTable {o o' : GameOptions} (hsame : SameSizes o o') (hnd : ∀ h ∈ o.hands, h.Nodup)
    (hnd' : ∀ h ∈ o'.hands, h.Nodup) (hg : create o = .ok g) (hg' : create o' = .ok g') : SameTable g g' := by
  have hheld := create_held hnd hg
  have hheld' := create_held hnd' hg'
  have hsizes : ∀ s, (o'.hands.getD s []).length = (o.hands.getD s []).length := by
    intro s
    have hmap : ∀ l : List (List Card), (l.map List.length).getD s 0 = (l.getD s []).length :=
      fun l => List.getD_map l [] List.length
    rw [← hmap, ← hmap, hsame.sizes]
  -- seats are active by the sizes of the hands, and these agree
  have hfresh : fresh o' = (fresh o).withHands (fresh o').hands := by
    have hact : (fresh o').active = (fresh o).active := by
      funext s
      have hiff : ∀ l : List Card, l.isEmpty = decide (l.length = 0) := by
        intro l
        cases l <;> simp
      unfold fresh
      simp only [hiff, hsizes s]
    unfold withHands fresh at *
    simp only at hact
    simp only [hact, hsame.numPlayers, hsame.leader, hsame.openingCard]
  -- so both games take the same branch of `create`
  have hrest : g' = g.withHands g'.hands := by
    have hlead : (fresh o').active o'.leader = (fresh o).active o.leader := by
      rw [hfresh, hsame.leader]
      rfl
    have hnext : (fresh o').nextActiveAfter o'.leader = (fresh o).nextActiveAfter o.leader := by
      rw [hfresh, hsame.leader]
      rfl
    unfold create at hg hg'
    rw [hsame.numPlayers, hlead, hnext] at hg'
    rw [hsame.leader] at hg'
    split at hg
    · cases hg
    split at hg'
    · cases hg'
    split at hg
    · cases hg
    rename_i hlt
    rw [if_neg hlt] at hg'
    split at hg
    · rename_i hact
      rw [if_pos hact] at hg'
      cases hg
      cases hg'
      exact hfresh
    · rename_i hact
      rw [if_neg hact] at hg'
      cases hg
      cases hg'
      rw [hfresh]
      rfl
  refine ⟨hrest, fun s => ?_, hheld.nodup, hheld'.nodup⟩
  rw [(create_hands hg).2.2, (create_hands hg').2.2]
  exact hsizes s

/-- What the table sees of a run: after each call its events and the snapshot. -/
def views : SingleGame → List Call → List (List GameEvent × GameSnapshot)
  | _, [] => []
  | g, c :: cs => (g.eventsOf c, (g.step c).snapshot) :: (g.step c).views cs

/-- The same accepted plays look alike all along. -/
theorem run_sameTable (cs : List Call) : ∀ {g g' : SingleGame}, SameTable g g' →
    Guarded step PlayAccepted g cs → Guarded step PlayAccepted g' cs → g'.views cs = g.views cs := by
  induction cs with
  | nil => intro g g' _ _ _; rfl
  | cons c cs ih =>
    intro g g' h hg hg'
    obtain ⟨hev, hnext⟩ := step_sameTable h hg.1 hg'.1
    rw [views, views, hev, hnext.snapshot, ih hnext hg.2 hg'.2]

end SingleGame

/-- **The table shows sizes and played cards only.** Two deals with equal sizes, leader and
opening card, and any calls whose plays are accepted in both: the snapshots at the start,
and the events and the snapshot after every call, are the same. -/
theorem public_view {o o' : GameOptions} {g g' : SingleGame} (hsame : SingleGame.SameSizes o o')
    (hnd : ∀ h ∈ o.hands, h.Nodup) (hnd' : ∀ h ∈ o'.hands, h.Nodup) (hg : SingleGame.create o = .ok g)
    (hg' : SingleGame.create o' = .ok g') (cs : List SingleGame.Call)
    (hcs : Guarded SingleGame.step SingleGame.PlayAccepted g cs)
    (hcs' : Guarded SingleGame.step SingleGame.PlayAccepted g' cs) :
    g'.snapshot = g.snapshot ∧ g'.views cs = g.views cs := by
  have h := SingleGame.create_sameTable hsame hnd hnd' hg hg'
  exact ⟨h.snapshot, SingleGame.run_sameTable cs h hcs hcs'⟩

/-- `threeHands` with other cards where no card is played. -/
def threeOtherHands : GameOptions :=
  { numPlayers := 3, leader := 0,
    hands := [[.standard .r5 .S, .joker .red], [.standard .r3 .D, .standard .K .H],
      [.standard .r7 .S, .standard .A .C]] }

/-- Two deals for three that look alike. -/
theorem public_view_three :
    (SingleGame.fresh threeOtherHands).snapshot = (SingleGame.fresh threeHands).snapshot ∧
      (SingleGame.fresh threeOtherHands).views [.play 0 [.standard .r5 .S], .pass 1, .play 2 [.standard .r7 .S],
          .forfeitSeat 0, .pass 1] =
        (SingleGame.fresh threeHands).views [.play 0 [.standard .r5 .S], .pass 1, .play 2 [.standard .r7 .S],
          .forfeitSeat 0, .pass 1] :=
  public_view (show SingleGame.SameSizes threeHands threeOtherHands from ⟨rfl, rfl, rfl, rfl⟩) (by decide)
    (by decide) rfl rfl _ (by decide +kernel) (by decide +kernel)

end Murlan
