import Mathlib.Data.List.Perm.Subperm
import Murlan.Base.Run
import Murlan.Spec.SingleGame

/-!
# What the game keeps

* `Core`: who is active, who finished and who left, in every state of a method.
* `GameOK`: the invariant of a game between calls; `create_ok`, `step_ok` and
  `run_ok` establish it for every run.
* `Advances`: what every method that moves the turn leaves unchanged.
* `play_cases`, `pass_cases`, `forfeitSeat_cases`: all that a call can do.
-/

namespace Murlan

/-! ## The abandoned seats at the end of the order -/

theorem mem_addSeat {l : List ℕ} {s t : ℕ} : t ∈ addSeat l s ↔ t ∈ l ∨ t = s := by
  unfold addSeat
  split
  · rename_i h
    exact ⟨Or.inl, fun h' => h'.elim id fun he => he ▸ h⟩
  · simp

/-- A seat is placed once. -/
theorem nodup_addSeat {l : List ℕ} {s : ℕ} (h : l.Nodup) : (addSeat l s).Nodup := by
  unfold addSeat
  split
  · exact h
  · rename_i hs
    rw [List.nodup_append]
    refine ⟨h, List.nodup_singleton s, ?_⟩
    rintro a ha b hb rfl
    rw [List.mem_singleton] at hb
    exact hs (hb ▸ ha)

/-- Seats placed in a row come last, in order. -/
theorem addSeat_foldl (l : List ℕ) : ∀ o : List ℕ,
    (∀ t, t ∈ l.foldl addSeat o ↔ t ∈ o ∨ t ∈ l) ∧ (o.Nodup → (l.foldl addSeat o).Nodup) ∧
      o <+: l.foldl addSeat o := by
  induction l with
  | nil => intro o; exact ⟨by simp, id, List.prefix_rfl⟩
  | cons s l ih =>
    intro o
    obtain ⟨h1, h2, h3⟩ := ih (addSeat o s)
    refine ⟨fun t => ?_, fun h => h2 (nodup_addSeat h), ?_⟩
    · rw [List.foldl_cons, h1, mem_addSeat, List.mem_cons]; tauto
    · refine List.IsPrefix.trans ?_ h3
      unfold addSeat
      split
      · exact List.prefix_rfl
      · exact List.prefix_append _ _

namespace SingleGame

variable {g g' : SingleGame} {seat : ℕ} {cards : List Card} {combo : Combo}

/-- Who is active, who finished and who left. -/
structure Core (g : SingleGame) : Prop where
  two_le : 2 ≤ g.numPlayers
  active_lt : ∀ s, g.active s = true → s < g.numPlayers
  active_hand : ∀ s, g.active s = true → g.hands s ≠ []
  gone_lt : ∀ s ∈ g.gone, s < g.numPlayers
  gone_nodup : g.gone.Nodup
  gone_inactive : ∀ s ∈ g.gone, g.active s = false
  order_lt : ∀ s ∈ g.finishingOrder, s < g.numPlayers
  order_nodup : g.finishingOrder.Nodup
  order_inactive : ∀ s ∈ g.finishingOrder, g.active s = false
  cover : ∀ s < g.numPlayers, g.active s = true ∨ s ∈ g.finishingOrder ∨ s ∈ g.gone

/-- A game still playing has an active seat on turn. -/
def Turned (g : SingleGame) : Prop :=
  g.status = .playing → ∃ s, g.turn = some s ∧ g.active s = true

/-- The order of a finished game lists every seat once. -/
def Final (g : SingleGame) : Prop :=
  g.status = .finished → g.finishingOrder.Perm (List.range g.numPlayers)

/-- **The invariant of a game between calls.** -/
structure GameOK (g : SingleGame) : Prop extends Core g where
  turned : Turned g
  two_active : g.status = .playing → 2 ≤ g.activeCount
  final : Final g

/-- `g'` is `g` but for the pile, its owner, the passes and the turn. -/
structure Retabled (g g' : SingleGame) : Prop where
  numPlayers : g'.numPlayers = g.numPlayers
  hands : g'.hands = g.hands
  active : g'.active = g.active
  order : g'.finishingOrder = g.finishingOrder
  gone : g'.gone = g.gone
  status : g'.status = g.status
  openingCard : g'.openingCard = g.openingCard
  opened : g'.opened = g.opened

/-- What every method that moves the turn does: it changes the table, and it may
end the game. -/
def Advances (g g' : SingleGame) : Prop :=
  Retabled g g' ∨ ∃ g₁, Retabled g g₁ ∧ g' = g₁.endGame.2

theorem Retabled.refl (g : SingleGame) : Retabled g g := ⟨rfl, rfl, rfl, rfl, rfl, rfl, rfl, rfl⟩

theorem Retabled.finalOrder (h : Retabled g g') : g'.finalOrder = g.finalOrder := by
  unfold SingleGame.finalOrder
  rw [h.gone, h.order, h.numPlayers, h.active]

theorem Retabled.activeCount (h : Retabled g g') : g'.activeCount = g.activeCount := by
  unfold SingleGame.activeCount
  rw [h.numPlayers, h.active]

theorem status_cases (g : SingleGame) : g.status = .playing ∨ g.status = .finished := by
  cases g.status <;> simp

/-! ## Counting the active seats -/

theorem update_false_iff {f : ℕ → Bool} {s t : ℕ} :
    Function.update f s false t = true ↔ t ≠ s ∧ f t = true := by
  by_cases h : t = s
  · subst h; simp
  · simp [h]

theorem update_false_of {f : ℕ → Bool} {s t : ℕ} (h : f t = false) :
    Function.update f s false t = false := by
  by_contra h'
  rw [Bool.not_eq_false, update_false_iff, h] at h'
  cases h'.2

/-- With two active seats there is one besides `t`. -/
theorem exists_active_ne (h2 : 2 ≤ g.activeCount) (t : ℕ) :
    ∃ s, s < g.numPlayers ∧ g.active s = true ∧ s ≠ t := by
  by_contra hno
  push Not at hno
  unfold activeCount at h2
  rw [List.countP_eq_length_filter] at h2
  have hsub : (List.range g.numPlayers).filter g.active ⊆ [t] := by
    intro s hs
    rw [List.mem_filter, List.mem_range] at hs
    rw [List.mem_singleton]
    exact hno s hs.1 hs.2
  have hnd : ((List.range g.numPlayers).filter g.active).Nodup := List.nodup_range.filter _
  have := (List.subperm_of_subset hnd hsub).length_le
  rw [List.length_singleton] at this
  omega

/-- Deactivating a seat that was active lowers the count by one. -/
theorem activeCount_update (hs : seat < g.numPlayers) (ha : g.active seat = true)
    (hn : g'.numPlayers = g.numPlayers) (hact : g'.active = Function.update g.active seat false) :
    g'.activeCount + 1 = g.activeCount := by
  unfold activeCount
  rw [hn, hact]
  have key : ∀ l : List ℕ, l.Nodup → seat ∈ l →
      l.countP (Function.update g.active seat false) + 1 = l.countP g.active := by
    intro l
    induction l with
    | nil => simp
    | cons t l ih =>
      intro hnd hmem
      rw [List.nodup_cons] at hnd
      rw [List.countP_cons, List.countP_cons]
      rcases List.mem_cons.1 hmem with rfl | hmem
      · have : l.countP (Function.update g.active seat false) = l.countP g.active := by
          apply List.countP_congr
          intro x hx
          rw [Function.update_of_ne (by rintro rfl; exact hnd.1 hx)]
        simp [ha, this]
      · have := ih hnd.2 hmem
        rw [Function.update_of_ne (by rintro rfl; exact hnd.1 hmem)]
        omega
  exact key _ List.nodup_range (List.mem_range.2 hs)

/-! ## The methods that move the turn -/

/-- The final order has every seat once. -/
theorem finalOrder_perm (hc : Core g) : g.finalOrder.Perm (List.range g.numPlayers) := by
  obtain ⟨hmem, hnd, -⟩ := addSeat_foldl g.gone.reverse
    (g.finishingOrder ++ (List.range g.numPlayers).filter fun s => g.active s && s ∉ g.gone)
  unfold finalOrder
  rw [List.perm_ext_iff_of_nodup (hnd ?_) List.nodup_range]
  · intro s
    rw [hmem, List.mem_append, List.mem_filter, List.mem_reverse, List.mem_range]
    constructor
    · rintro ((h | h) | h)
      · exact hc.order_lt s h
      · exact h.1
      · exact hc.gone_lt s h
    · intro hs
      by_cases hg : s ∈ g.gone
      · exact Or.inr hg
      · rcases hc.cover s hs with h | h | h
        · exact Or.inl (Or.inr ⟨hs, by simp [h, hg]⟩)
        · exact Or.inl (Or.inl h)
        · exact absurd h hg
  · rw [List.nodup_append]
    refine ⟨hc.order_nodup, List.nodup_range.filter _, ?_⟩
    rintro s hs t ht rfl
    have := hc.order_inactive s hs
    rw [List.mem_filter] at ht
    simp [this] at ht

theorem finalOrder_extends (g : SingleGame) : g.finishingOrder <+: g.finalOrder :=
  (List.prefix_append _ _).trans (addSeat_foldl _ _).2.2

theorem endGame_finished (g : SingleGame) : g.endGame.2.status = .finished := by
  unfold endGame
  split
  · assumption
  · rfl

/-- What ending a game leaves unchanged, and the order it fixes. -/
theorem endGame_frame (g : SingleGame) :
    g.endGame.2.numPlayers = g.numPlayers ∧ g.endGame.2.hands = g.hands ∧
      g.endGame.2.gone = g.gone ∧ g.endGame.2.openingCard = g.openingCard ∧
      g.endGame.2.opened = g.opened ∧
      (g.status = .playing → g.endGame.2.finishingOrder = g.finalOrder) := by
  unfold endGame
  split
  · rename_i h
    exact ⟨rfl, rfl, rfl, rfl, rfl, fun hp => by rw [h] at hp; cases hp⟩
  · exact ⟨rfl, rfl, rfl, rfl, rfl, fun _ => rfl⟩

theorem Advances.numPlayers (h : Advances g g') : g'.numPlayers = g.numPlayers := by
  rcases h with h | ⟨g₁, h, rfl⟩
  · exact h.numPlayers
  · exact (endGame_frame g₁).1.trans h.numPlayers

theorem Advances.hands (h : Advances g g') : g'.hands = g.hands := by
  rcases h with h | ⟨g₁, h, rfl⟩
  · exact h.hands
  · exact (endGame_frame g₁).2.1.trans h.hands

theorem Advances.gone (h : Advances g g') : g'.gone = g.gone := by
  rcases h with h | ⟨g₁, h, rfl⟩
  · exact h.gone
  · exact (endGame_frame g₁).2.2.1.trans h.gone

theorem Advances.opening (h : Advances g g') : g'.openingPending = g.openingPending := by
  unfold openingPending
  rcases h with h | ⟨g₁, h, rfl⟩
  · rw [h.opened, h.openingCard]
  · rw [(endGame_frame g₁).2.2.2.2.1, (endGame_frame g₁).2.2.2.1, h.opened, h.openingCard]

/-- A game that was playing has either kept its order or fixed the final one. -/
theorem Advances.order (h : Advances g g') (hp : g.status = .playing) :
    (g'.status = .playing ∧ g'.finishingOrder = g.finishingOrder) ∨
      (g'.status = .finished ∧ g'.finishingOrder = g.finalOrder) := by
  rcases h with h | ⟨g₁, h, rfl⟩
  · exact Or.inl ⟨h.status.trans hp, h.order⟩
  · refine Or.inr ⟨endGame_finished g₁, ?_⟩
    rw [(endGame_frame g₁).2.2.2.2.2 (h.status.trans hp), h.finalOrder]

/-- Ending a game that is still playing is part of the same move. -/
theorem Advances.endGame (h : Advances g g') (hp : g'.status = .playing) :
    Advances g g'.endGame.2 := by
  rcases h with h | ⟨g₁, h, rfl⟩
  · exact Or.inr ⟨g', h, rfl⟩
  · rw [endGame_finished] at hp; cases hp

/-- **Ending a game** gives a game in its invariant, with every seat placed. -/
theorem endGame_ok (hc : Core g) (hp : g.status = .playing) : GameOK g.endGame.2 := by
  have hperm := finalOrder_perm hc
  have hin : ∀ s, (if s < g.numPlayers ∧ s ∉ g.gone then false else g.active s) = false := by
    intro s
    split
    · rfl
    · rename_i h
      by_contra ha
      rw [Bool.not_eq_false] at ha
      have hlt := hc.active_lt s ha
      have hg : s ∈ g.gone := by
        by_contra hg
        exact h ⟨hlt, hg⟩
      rw [hc.gone_inactive s hg] at ha
      cases ha
  unfold endGame
  rw [if_neg (by rw [hp]; decide)]
  have hno : ∀ s, ¬ (if s < g.numPlayers ∧ s ∉ g.gone then false else g.active s) = true := by
    intro s; rw [hin]; decide
  exact
    { two_le := hc.two_le
      active_lt := fun s hs => absurd hs (hno s)
      active_hand := fun s hs => absurd hs (hno s)
      gone_lt := hc.gone_lt
      gone_nodup := hc.gone_nodup
      gone_inactive := fun s _ => hin s
      order_lt := fun s hs => List.mem_range.1 (hperm.mem_iff.1 hs)
      order_nodup := hperm.nodup_iff.2 List.nodup_range
      order_inactive := fun s _ => hin s
      cover := fun s hs => Or.inr (Or.inl (hperm.mem_iff.2 (List.mem_range.2 hs)))
      turned := fun h => by cases h
      two_active := fun h => by cases h
      final := fun _ => hperm }

/-- Changing the pile, its owner, the passes and the turn keeps the core. -/
theorem Core.retable (hc : Core g) (pile : Option Combo) (owner turn : Option ℕ)
    (passed : List ℕ) :
    Core { g with pile := pile, pileOwner := owner, passed := passed, turn := turn } :=
  ⟨hc.1, hc.2, hc.3, hc.4, hc.5, hc.6, hc.7, hc.8, hc.9, hc.10⟩

/-- Whoever leads is in the game. -/
theorem trickLeader_active {s : ℕ} (h : g.trickLeader = some s) : g.active s = true := by
  unfold trickLeader at h
  cases ho : g.pileOwner with
  | none => rw [ho] at h; cases h
  | some w =>
    rw [ho] at h
    simp only at h
    split at h
    · cases h; assumption
    · exact (Cyclic.next_spec h).2

/-- A trick that is over brings the game on. -/
theorem resolveTrick_advances (g : SingleGame) : Advances g g.resolveTrick.2 := by
  have h : Retabled g { g with pile := none, pileOwner := none, passed := [], turn := g.trickLeader } :=
    ⟨rfl, rfl, rfl, rfl, rfl, rfl, rfl, rfl⟩
  unfold resolveTrick
  simp only
  split
  · exact Or.inr ⟨_, h, rfl⟩
  · exact Or.inl h

/-- After a trick someone is to lead. -/
theorem resolveTrick_ok (hc : Core g) (hp : g.status = .playing) : GameOK g.resolveTrick.2 := by
  unfold resolveTrick
  simp only
  have hc' := hc.retable none none g.trickLeader []
  split
  · exact endGame_ok hc' hp
  · rename_i hno
    push Not at hno
    refine ⟨hc', fun _ => ?_, fun _ => hno.2, fun h => ?_⟩
    · obtain ⟨s, hs⟩ := Option.ne_none_iff_exists'.1 hno.1
      have ha : g.active s = true := trickLeader_active hs
      exact ⟨s, hs, ha⟩
    · rw [hp] at h; cases h

/-- A contender left: the search for the next seat finds one. -/
theorem nextEligible_of_contenders (h : g.contendersExcludingOwner ≠ []) (a : ℕ) :
    ∃ s, g.nextEligible a = some s ∧ g.active s = true := by
  obtain ⟨s, hs⟩ := List.exists_mem_of_ne_nil _ h
  unfold contendersExcludingOwner at hs
  rw [List.mem_filter, List.mem_range, Bool.and_eq_true] at hs
  obtain ⟨t, ht⟩ := Cyclic.next_isSome (p := fun s => g.active s && s ∉ g.passed) (a := a) hs.1 hs.2.2
  have := (Cyclic.next_spec ht).2
  rw [Bool.and_eq_true] at this
  exact ⟨t, ht, this.1⟩

theorem afterAction_advances (g : SingleGame) (seat : ℕ) : Advances g (g.afterAction seat).2 := by
  unfold afterAction
  split
  · exact resolveTrick_advances g
  · exact Or.inl ⟨rfl, rfl, rfl, rfl, rfl, rfl, rfl, rfl⟩

/-- After a move someone is to play, or the trick is over. -/
theorem afterAction_ok (hc : Core g) (hp : g.status = .playing) (h2 : 2 ≤ g.activeCount) (seat : ℕ) :
    GameOK (g.afterAction seat).2 := by
  unfold afterAction
  split
  · exact resolveTrick_ok hc hp
  · rename_i hne
    refine ⟨hc.retable _ _ _ _, fun _ => nextEligible_of_contenders hne seat, fun _ => h2, fun h => ?_⟩
    simp only [hp] at h
    cases h

/-! ## The calls -/

/-- A game built from non-empty hands starts in its invariant. -/
theorem create_ok {o : GameOptions} (hlen : o.hands.length = o.numPlayers) (h2 : 2 ≤ o.numPlayers)
    (hne : ∀ h ∈ o.hands, h ≠ []) (hl : o.leader < o.numPlayers) :
    create o = .ok (fresh o) ∧ GameOK (fresh o) := by
  have hact : ∀ s, (fresh o).active s = true ↔ s < o.numPlayers := by
    intro s
    rw [← hlen]
    by_cases hs : s < o.hands.length
    · have := hne _ (List.getElem_mem hs)
      simp [fresh, this, hs]
    · simp [fresh, hs]
  refine ⟨?_, ?_⟩
  · unfold create
    rw [if_neg (by omega), if_neg (by omega), if_pos ((hact _).2 hl)]
  · have hcount : (fresh o).activeCount = o.numPlayers := by
      have hn : (fresh o).numPlayers = o.numPlayers := rfl
      unfold activeCount
      rw [hn, List.countP_eq_length.2 fun s hs => (hact s).2 (List.mem_range.1 hs), List.length_range]
    exact
      { two_le := h2
        active_lt := fun s hs => (hact s).1 hs
        active_hand := fun s hs => by simpa [fresh] using hs
        gone_lt := fun s hs => by cases hs
        gone_nodup := List.nodup_nil
        gone_inactive := fun s hs => by cases hs
        order_lt := fun s hs => by cases hs
        order_nodup := List.nodup_nil
        order_inactive := fun s hs => by cases hs
        cover := fun s hs => Or.inl ((hact s).2 hs)
        turned := fun _ => ⟨o.leader, rfl, (hact _).2 hl⟩
        two_active := fun _ => by rw [hcount]; exact h2
        final := fun h => by cases h }

/-- So does every game that the constructor accepts on non-empty hands. -/
theorem created {o : GameOptions} (h2 : 2 ≤ o.numPlayers) (hne : ∀ h ∈ o.hands, h ≠ []) (hg : create o = .ok g) :
    g = fresh o ∧ o.hands.length = o.numPlayers ∧ GameOK g := by
  have hlen : o.hands.length = o.numPlayers := by
    by_contra hno
    unfold create at hg
    rw [if_pos hno] at hg
    cases hg
  have hl : o.leader < o.numPlayers := by
    by_contra hno
    unfold create at hg
    rw [if_neg (by omega), if_pos (by omega)] at hg
    cases hg
  obtain ⟨hcreate, hok⟩ := create_ok hlen h2 hne hl
  rw [hcreate] at hg
  cases hg
  exact ⟨rfl, hlen, hok⟩

theorem Core.putDown (hc : Core g) (ha : (g.putDown seat cards combo).hands seat ≠ []) :
    Core (g.putDown seat cards combo) := by
  refine ⟨hc.1, hc.2, fun s hs => ?_, hc.4, hc.5, hc.6, hc.7, hc.8, hc.9, hc.10⟩
  by_cases h : s = seat
  · rw [h]; exact ha
  · simpa [SingleGame.putDown, removeCards, h] using hc.active_hand s hs

/-- A seat that is out leaves the order of finish. -/
theorem Core.finishSeat (hc : Core g) (ha : g.active seat = true) (cards : List Card) (combo : Combo) :
    Core ((g.putDown seat cards combo).finishSeat seat) where
  two_le := hc.two_le
  active_lt := fun s hs => hc.active_lt s (update_false_iff.1 hs).2
  active_hand := fun s hs => by
    obtain ⟨h1, h2⟩ := update_false_iff.1 hs
    simpa [SingleGame.finishSeat, SingleGame.putDown, removeCards, h1] using hc.active_hand s h2
  gone_lt := hc.gone_lt
  gone_nodup := hc.gone_nodup
  gone_inactive := fun s hs => update_false_of (hc.gone_inactive s hs)
  order_lt := fun s hs => by
    rcases List.mem_append.1 hs with h | h
    · exact hc.order_lt s h
    · rw [List.mem_singleton.1 h]; exact hc.active_lt _ ha
  order_nodup := by
    refine List.nodup_append.2 ⟨hc.order_nodup, List.nodup_singleton _, ?_⟩
    rintro a h b hb rfl
    rw [List.mem_singleton] at hb
    have := hc.order_inactive a h
    rw [hb, ha] at this; cases this
  order_inactive := fun s hs => by
    rcases List.mem_append.1 hs with h | h
    · exact update_false_of (hc.order_inactive s h)
    · rw [List.mem_singleton.1 h]; exact Function.update_self ..
  cover := fun s hs => by
    by_cases h : s = seat
    · exact Or.inr (Or.inl (List.mem_append.2 (Or.inr (List.mem_singleton.2 h))))
    · rcases hc.cover s hs with h1 | h1 | h1
      · exact Or.inl (update_false_iff.2 ⟨h, h1⟩)
      · exact Or.inr (Or.inl (List.mem_append.2 (Or.inl h1)))
      · exact Or.inr (Or.inr h1)

/-- A play, case by case: cards left, one player left, or more. -/
theorem commitPlay_eq (g : SingleGame) (seat : ℕ) (cards : List Card) (combo : Combo) :
    (g.commitPlay seat cards combo).2 =
      if (g.putDown seat cards combo).hands seat = [] then
        if ((g.putDown seat cards combo).finishSeat seat).activeCount ≤ 1 then
          ((g.putDown seat cards combo).finishSeat seat).endGame.2
        else (((g.putDown seat cards combo).finishSeat seat).afterAction seat).2
      else ((g.putDown seat cards combo).afterAction seat).2 := by
  unfold commitPlay
  simp only
  split
  · split <;> rfl
  · rfl

/-- A committed play advances from the table with the cards on it, the seat
marked as finished when its hand is empty. -/
theorem commitPlay_advances (g : SingleGame) (seat : ℕ) (cards : List Card) (combo : Combo) :
    ((g.putDown seat cards combo).hands seat ≠ [] ∧
        Advances (g.putDown seat cards combo) (g.commitPlay seat cards combo).2) ∨
      ((g.putDown seat cards combo).hands seat = [] ∧
        Advances ((g.putDown seat cards combo).finishSeat seat) (g.commitPlay seat cards combo).2) := by
  rw [commitPlay_eq]
  split
  · rename_i he
    split
    · exact Or.inr ⟨he, Or.inr ⟨_, Retabled.refl _, rfl⟩⟩
    · exact Or.inr ⟨he, afterAction_advances _ seat⟩
  · rename_i he
    exact Or.inl ⟨he, afterAction_advances _ seat⟩

/-- A play keeps the invariant. -/
theorem commitPlay_ok (h : GameOK g) (hp : g.status = .playing) (ha : g.active seat = true) :
    GameOK (g.commitPlay seat cards combo).2 := by
  rw [commitPlay_eq]
  split
  · have hc := h.toCore.finishSeat ha cards combo
    split
    · exact endGame_ok hc hp
    · exact afterAction_ok hc hp (by omega) seat
  · rename_i hne
    exact afterAction_ok (h.toCore.putDown hne) hp (h.two_active hp) seat

/-- **All that a `play` can do**: it is rejected and nothing changes, or all its
checks passed and it is committed. -/
theorem play_cases (g : SingleGame) (seat : ℕ) (cards : List Card) :
    ((g.play seat cards).1.ok = false ∧ (g.play seat cards).1.events = [] ∧
        (g.play seat cards).2 = g) ∨
      ∃ combo, g.status = .playing ∧ g.turn = some seat ∧ cards ≠ [] ∧
        g.handHasAll seat cards = true ∧ g.missedOpening cards = none ∧
        identifyCombo cards = some combo ∧
        g.play seat cards =
          (.accept (g.commitPlay seat cards combo).1, (g.commitPlay seat cards combo).2) := by
  by_cases h1 : g.status = .finished
  · left; simp [play, h1, ActionResult.fail]
  by_cases h2 : some seat ≠ g.turn
  · left; simp [play, h1, h2, ActionResult.fail]
  by_cases h3 : cards = []
  · left; simp [play, h1, h2, h3, ActionResult.fail]
  by_cases h4 : g.handHasAll seat cards = true
  swap
  · left; simp [play, h1, h2, h3, h4, ActionResult.fail]
  cases h5 : g.missedOpening cards with
  | some c => left; simp [play, h1, h2, h3, h4, h5, ActionResult.fail]
  | none =>
    cases h6 : (validatePlay cards g.pile).ok with
    | false => left; simp [play, h1, h2, h3, h4, h5, h6, ActionResult.fail]
    | true =>
      obtain ⟨h7, h8⟩ := validatePlay_ok h6
      obtain ⟨combo, h9⟩ := Option.isSome_iff_exists.1 h8
      rw [h9] at h7
      rw [not_not] at h2
      refine Or.inr ⟨combo, (status_cases g).resolve_right h1, h2.symm, h3, h4, rfl, h9, ?_⟩
      simp [play, h1, h2, h3, h4, h5, h6, h7]

/-- **All that a `pass` can do.** -/
theorem pass_cases (g : SingleGame) (seat : ℕ) :
    ((g.pass seat).1.ok = false ∧ (g.pass seat).1.events = [] ∧ (g.pass seat).2 = g) ∨
      (g.status = .playing ∧ g.turn = some seat ∧ g.pile ≠ none ∧ (g.pass seat).1.ok = true ∧
        (g.pass seat).2 = ({ g with passed := addSeat g.passed seat }.afterAction seat).2) := by
  by_cases h1 : g.status = .finished
  · left; simp [pass, h1, ActionResult.fail]
  by_cases h2 : some seat ≠ g.turn
  · left; simp [pass, h1, h2, ActionResult.fail]
  by_cases h3 : g.pile = none
  · left; simp [pass, h1, h2, h3, ActionResult.fail]
  · rw [not_not] at h2
    refine Or.inr ⟨(status_cases g).resolve_right h1, h2.symm, h3, ?_, ?_⟩
    · simp [pass, h1, h2, h3, ActionResult.accept]
    · simp [pass, h1, h2, h3]

/-- A game after a seat that held cards was taken out of it. -/
def deactivate (g : SingleGame) (seat : ℕ) : SingleGame :=
  { g with gone := g.gone ++ [seat], active := Function.update g.active seat false,
           passed := g.passed.filter (· ≠ seat) }

/-- The turn passes on only if the seat was on turn. -/
def yieldTurn (g : SingleGame) (wasTurn : Bool) (seat : ℕ) : SingleGame :=
  if wasTurn then (g.passOnTurn seat).2 else g

/-- **All that a forfeit can do**: nothing, or it records a seat that has already
finished, or it takes the seat out, passes the turn on and ends a game left with
one holder of cards. -/
theorem forfeitSeat_cases (g : SingleGame) (seat : ℕ) :
    ((g.status = .finished ∨ g.numPlayers ≤ seat ∨ seat ∈ g.gone) ∧ (g.forfeitSeat seat).2 = g) ∨
      (g.status = .playing ∧ seat < g.numPlayers ∧ seat ∉ g.gone ∧ g.active seat = false ∧
        (g.forfeitSeat seat).2 = { g with gone := g.gone ++ [seat] }) ∨
      (g.status = .playing ∧ seat < g.numPlayers ∧ seat ∉ g.gone ∧ g.active seat = true ∧
        (g.forfeitSeat seat).2 =
          let r := (g.deactivate seat).yieldTurn (g.turn = some seat) seat
          if r.status = .playing ∧ r.activeCount ≤ 1 then r.endGame.2 else r) := by
  by_cases h1 : g.status = .finished
  · left; simp [forfeitSeat, h1]
  by_cases h2 : g.numPlayers ≤ seat
  · left; simp [forfeitSeat, h1, h2]
  by_cases h3 : seat ∈ g.gone
  · left; simp [forfeitSeat, h1, h2, h3]
  have hp := (status_cases g).resolve_right h1
  right
  cases h4 : g.active seat with
  | false =>
    left
    refine ⟨hp, by omega, h3, rfl, ?_⟩
    simp [forfeitSeat, h1, h2, h3, h4]
  | true =>
    right
    refine ⟨hp, by omega, h3, rfl, ?_⟩
    have hover : ∀ r : SingleGame, ((!r.isOver && decide (r.activeCount ≤ 1)) = true) ↔
        (r.status = .playing ∧ r.activeCount ≤ 1) := by
      intro r
      rcases status_cases r with h | h <;> simp [isOver, h]
    by_cases h5 : g.turn = some seat
    · simp only [forfeitSeat, h1, h2, h3, h4, h5, if_false, if_true, Bool.not_true, hover,
        Bool.false_eq_true, deactivate, yieldTurn, decide_true]
      split <;> rfl
    · simp only [forfeitSeat, h1, h2, h3, h4, h5, if_false, Bool.not_true, hover,
        Bool.false_eq_true, deactivate, yieldTurn, decide_false]
      split <;> rfl

/-- The turn that passes on brings the game on. -/
theorem passOnTurn_advances (g : SingleGame) (seat : ℕ) : Advances g (g.passOnTurn seat).2 := by
  have h : ∀ t, Retabled g { g with turn := t } := fun t => ⟨rfl, rfl, rfl, rfl, rfl, rfl, rfl, rfl⟩
  unfold passOnTurn
  split
  · simp only
    split
    · exact Or.inr ⟨_, h _, rfl⟩
    · exact Or.inl (h _)
  · split
    · exact resolveTrick_advances g
    · exact Or.inl (h _)

/-- Passing the turn on keeps the core, and a game still playing has its turn at
an active seat. -/
theorem passOnTurn_core (hc : Core g) (hp : g.status = .playing) (seat : ℕ) :
    GameOK (g.passOnTurn seat).2 ∨
      (Core (g.passOnTurn seat).2 ∧ (g.passOnTurn seat).2.status = .playing ∧
        Turned (g.passOnTurn seat).2) := by
  unfold passOnTurn
  split
  · simp only
    split
    · exact Or.inl (endGame_ok (hc.retable _ _ _ _) hp)
    · rename_i hno
      obtain ⟨t, ht⟩ := Option.ne_none_iff_exists'.1 hno
      exact Or.inr ⟨hc.retable _ _ _ _, hp, fun _ => ⟨t, ht, (Cyclic.next_spec ht).2⟩⟩
  · split
    · exact Or.inl (resolveTrick_ok hc hp)
    · rename_i hne
      exact Or.inr ⟨hc.retable _ _ _ _, hp, fun _ => nextEligible_of_contenders hne seat⟩

/-- Recording a departure keeps the core, once the seat is inactive. -/
theorem Core.deactivate (hc : Core g) (hs : seat < g.numPlayers) (hg : seat ∉ g.gone) :
    Core (g.deactivate seat) where
  two_le := hc.two_le
  active_lt := fun s h => hc.active_lt s (update_false_iff.1 h).2
  active_hand := fun s h => hc.active_hand s (update_false_iff.1 h).2
  gone_lt := fun s h => by
    rcases List.mem_append.1 h with h | h
    · exact hc.gone_lt s h
    · rw [List.mem_singleton.1 h]; exact hs
  gone_nodup := by
    refine List.nodup_append.2 ⟨hc.gone_nodup, List.nodup_singleton _, ?_⟩
    rintro a h b hb rfl
    rw [List.mem_singleton] at hb
    exact hg (hb ▸ h)
  gone_inactive := fun s h => by
    rcases List.mem_append.1 h with h | h
    · exact update_false_of (hc.gone_inactive s h)
    · rw [List.mem_singleton.1 h]; exact Function.update_self ..
  order_lt := hc.order_lt
  order_nodup := hc.order_nodup
  order_inactive := fun s h => update_false_of (hc.order_inactive s h)
  cover := fun s h => by
    by_cases he : s = seat
    · exact Or.inr (Or.inr (List.mem_append.2 (Or.inr (List.mem_singleton.2 he))))
    · rcases hc.cover s h with h1 | h1 | h1
      · exact Or.inl (update_false_iff.2 ⟨he, h1⟩)
      · exact Or.inr (Or.inl h1)
      · exact Or.inr (Or.inr (List.mem_append.2 (Or.inl h1)))

/-- A seat that has finished leaves: only the record of who left changes. -/
theorem GameOK.leave (h : GameOK g) (hp : g.status = .playing) (hs : seat < g.numPlayers)
    (hg : seat ∉ g.gone) (ha : g.active seat = false) :
    GameOK { g with gone := g.gone ++ [seat] } := by
  have hc := h.toCore.deactivate hs hg
  have hact : Function.update g.active seat false = g.active := by
    rw [← ha]; exact Function.update_eq_self seat g.active
  refine ⟨⟨h.two_le, h.active_lt, h.active_hand, hc.gone_lt, hc.gone_nodup, ?_, h.order_lt,
    h.order_nodup, h.order_inactive, ?_⟩, h.turned, h.two_active, fun h' => ?_⟩
  · intro s hs'
    rw [← hact]
    exact hc.gone_inactive s hs'
  · intro s hs'
    have := hc.cover s hs'
    simp only [SingleGame.deactivate, hact] at this
    exact this
  · rw [show ({ g with gone := g.gone ++ [seat] } : SingleGame).status = g.status from rfl, hp] at h'
    cases h'

theorem yieldTurn_advances (g : SingleGame) (b : Bool) (seat : ℕ) :
    Advances g (g.yieldTurn b seat) := by
  unfold yieldTurn
  split
  · exact passOnTurn_advances g seat
  · exact Or.inl (Retabled.refl g)

/-- Once the seat is out and its turn has passed on, the game is in its invariant
but for the count of active seats. -/
theorem yieldTurn_core (h : GameOK g) (hp : g.status = .playing) (hs : seat < g.numPlayers)
    (hg : seat ∉ g.gone) (b : Bool) (hb : b = true ↔ g.turn = some seat) :
    GameOK ((g.deactivate seat).yieldTurn b seat) ∨
      (Core ((g.deactivate seat).yieldTurn b seat) ∧
        ((g.deactivate seat).yieldTurn b seat).status = .playing ∧
        Turned ((g.deactivate seat).yieldTurn b seat)) := by
  have hc := h.toCore.deactivate hs hg
  unfold yieldTurn
  split
  · exact passOnTurn_core hc hp seat
  · rename_i hnb
    refine Or.inr ⟨hc, hp, fun _ => ?_⟩
    obtain ⟨t, ht, hta⟩ := h.turned hp
    refine ⟨t, ht, update_false_iff.2 ⟨?_, hta⟩⟩
    rintro rfl
    exact hnb (hb.2 ht)

/-- What a forfeit moves, in the form the invariants use. -/
theorem forfeitSeat_moves (g : SingleGame) (seat : ℕ) :
    ((g.status = .finished ∨ g.numPlayers ≤ seat ∨ seat ∈ g.gone) ∧ (g.forfeitSeat seat).2 = g) ∨
      (g.status = .playing ∧ seat < g.numPlayers ∧ seat ∉ g.gone ∧
        ((g.active seat = false ∧ (g.forfeitSeat seat).2 = { g with gone := g.gone ++ [seat] }) ∨
          (g.active seat = true ∧ Advances (g.deactivate seat) (g.forfeitSeat seat).2))) := by
  rcases forfeitSeat_cases g seat with h | ⟨hp, hs, hg, ha, he⟩ | ⟨hp, hs, hg, ha, he⟩
  · exact Or.inl h
  · exact Or.inr ⟨hp, hs, hg, Or.inl ⟨ha, he⟩⟩
  · refine Or.inr ⟨hp, hs, hg, Or.inr ⟨ha, ?_⟩⟩
    have hadv := yieldTurn_advances (g.deactivate seat) (g.turn = some seat) seat
    rw [he]
    simp only
    split
    · rename_i hr
      exact hadv.endGame hr.1
    · exact hadv

/-- A seat that leaves keeps the invariant. -/
theorem forfeitSeat_ok (h : GameOK g) (seat : ℕ) : GameOK (g.forfeitSeat seat).2 := by
  rcases forfeitSeat_cases g seat with ⟨-, he⟩ | ⟨hp, hs, hg, ha, he⟩ | ⟨hp, hs, hg, -, he⟩
  · rw [he]; exact h
  · rw [he]; exact h.leave hp hs hg ha
  · rw [he]
    simp only
    rcases yieldTurn_core h hp hs hg (g.turn = some seat) (by simp) with hok | ⟨hc, hp', ht⟩
    · split
      · rename_i hr
        exact endGame_ok hok.toCore hr.1
      · exact hok
    · split
      · exact endGame_ok hc hp'
      · rename_i hr
        refine ⟨hc, ht, fun _ => ?_, fun hf => ?_⟩
        · rw [not_and] at hr
          have := hr hp'
          omega
        · rw [hp'] at hf; cases hf

/-- **One call keeps the invariant of a game.** -/
theorem step_ok (h : GameOK g) (c : Call) : GameOK (g.step c) := by
  cases c with
  | play s cards =>
    rcases play_cases g s cards with ⟨-, -, he⟩ | ⟨combo, hp, ht, -, -, -, -, he⟩
    · simp only [step, he]; exact h
    · simp only [step, he]
      obtain ⟨t, ht', ha⟩ := h.turned hp
      rw [ht] at ht'; cases ht'
      exact commitPlay_ok h hp ha
  | pass s =>
    rcases pass_cases g s with ⟨-, -, he⟩ | ⟨hp, -, -, -, he⟩
    · simp only [step, he]; exact h
    · simp only [step, he]
      exact afterAction_ok (h.toCore.retable g.pile g.pileOwner g.turn (addSeat g.passed s)) hp
        (h.two_active hp) s
  | forfeitSeat s => exact forfeitSeat_ok h s

/-- **Every run keeps the invariant of a game.** -/
theorem run_ok (h : GameOK g) (cs : List Call) : GameOK (run step g cs) :=
  run_inv (P := GameOK) (fun _ c hg => step_ok hg c) h cs

end SingleGame

end Murlan
