import Murlan.Proof.Game

/-!
# Who finishes where

* `Placed`: the seat in first place has not left the game, and with three seats
  those that left take the last places. Every call keeps it but the forfeit of the
  seat that already holds first place (`play_placed`, `pass_placed`,
  `forfeitSeat_placed`).
* `play_gone`, `pass_gone`, `forfeitSeat_gone`: who has left after a call.
* `forfeits_fresh`: seats taken out of a game just dealt do not end it.
-/

namespace Murlan.SingleGame

variable {g g' : SingleGame} {seat : ℕ} {cards : List Card} {combo : Combo}

/-! ## Seats that left -/

/-- A play leaves the seats and those gone. -/
theorem play_frame (g : SingleGame) (seat : ℕ) (cards : List Card) :
    (g.play seat cards).2.numPlayers = g.numPlayers ∧ (g.play seat cards).2.gone = g.gone := by
  rcases play_cases g seat cards with ⟨-, -, he⟩ | ⟨combo, -, -, -, -, -, -, he⟩
  · rw [he]; exact ⟨rfl, rfl⟩
  · rw [he]
    rcases commitPlay_advances g seat cards combo with ⟨-, h⟩ | ⟨-, h⟩
    · exact ⟨h.numPlayers, h.gone⟩
    · exact ⟨h.numPlayers, h.gone⟩

theorem pass_frame (g : SingleGame) (seat : ℕ) :
    (g.pass seat).2.numPlayers = g.numPlayers ∧ (g.pass seat).2.gone = g.gone := by
  rcases pass_cases g seat with ⟨-, -, he⟩ | ⟨-, -, -, -, he⟩
  · rw [he]; exact ⟨rfl, rfl⟩
  · have h := afterAction_advances { g with passed := addSeat g.passed seat } seat
    rw [he]
    exact ⟨h.numPlayers, h.gone⟩

theorem forfeitSeat_numPlayers (g : SingleGame) (seat : ℕ) :
    (g.forfeitSeat seat).2.numPlayers = g.numPlayers := by
  rcases forfeitSeat_moves g seat with ⟨-, he⟩ | ⟨-, -, -, ⟨-, he⟩ | ⟨-, h⟩⟩
  · rw [he]
  · rw [he]
  · exact h.numPlayers

theorem step_numPlayers_eq (g : SingleGame) (c : Call) : (g.step c).numPlayers = g.numPlayers := by
  cases c with
  | play s cards => exact (play_frame g s cards).1
  | pass s => exact (pass_frame g s).1
  | forfeitSeat s => exact forfeitSeat_numPlayers g s

/-- **A forfeit in a running game adds its seat to those that left, and no other.** -/
theorem forfeitSeat_gone (hp : g.status = .playing) (hs : seat < g.numPlayers) (hg : seat ∉ g.gone) :
    (g.forfeitSeat seat).2.gone = g.gone ++ [seat] := by
  rcases forfeitSeat_moves g seat with ⟨h, -⟩ | ⟨-, -, -, ⟨-, he⟩ | ⟨-, h⟩⟩
  · rcases h with h | h | h
    · rw [hp] at h; cases h
    · omega
    · exact absurd h hg
  · rw [he]
  · exact h.gone

/-! ## First place -/

/-- The seat in first place has not left. -/
def HeadPresent (g : SingleGame) : Prop := ∀ s, g.finishingOrder.head? = some s → s ∉ g.gone

theorem head_kept {l l' : List ℕ} (h : l <+: l') (hne : l ≠ []) : l'.head? = l.head? := by
  obtain ⟨t, rfl⟩ := h
  cases l with
  | nil => exact absurd rfl hne
  | cons a l => rfl

/-- Ending a game puts a present seat first. -/
theorem finalOrder_head (hh : HeadPresent g)
    (hne : g.finishingOrder ≠ [] ∨ ∃ s < g.numPlayers, g.active s = true ∧ s ∉ g.gone) :
    ∀ s, g.finalOrder.head? = some s → s ∉ g.gone := by
  intro s hs
  by_cases ho : g.finishingOrder = []
  · obtain ⟨t, ht, hta, htg⟩ := hne.resolve_left (fun h => h ho)
    have hpre := (addSeat_foldl g.gone.reverse
      (g.finishingOrder ++ (List.range g.numPlayers).filter fun s => g.active s && s ∉ g.gone)).2.2
    have hmem : t ∈ (List.range g.numPlayers).filter fun s => g.active s && s ∉ g.gone := by
      rw [List.mem_filter, List.mem_range]
      exact ⟨ht, by simp [hta, htg]⟩
    rw [ho, List.nil_append] at hpre
    unfold finalOrder at hs
    rw [ho, List.nil_append, head_kept hpre (List.ne_nil_of_mem hmem)] at hs
    have hin := (List.mem_filter.1 (List.mem_of_mem_head? hs)).2
    rw [Bool.and_eq_true] at hin
    exact of_decide_eq_true hin.2
  · rw [head_kept (finalOrder_extends g) ho] at hs
    exact hh s hs

/-- The first in the order of finish was there. -/
theorem Advances.headPresent (h : Advances g g') (hp : g.status = .playing) (hh : HeadPresent g)
    (hne : g.finishingOrder ≠ [] ∨ ∃ s < g.numPlayers, g.active s = true ∧ s ∉ g.gone) :
    HeadPresent g' := by
  intro s hs
  rw [h.gone]
  rcases h.order hp with ⟨-, ho⟩ | ⟨-, ho⟩
  · rw [ho] at hs; exact hh s hs
  · rw [ho] at hs; exact finalOrder_head hh hne s hs

/-! ## Last place -/

/-- No seat that left has a place yet. -/
def GoneOut (g : SingleGame) : Prop := ∀ s ∈ g.gone, s ∉ g.finishingOrder

/-- In a finished game the seats that left hold the last places. -/
def GoneLast (g : SingleGame) : Prop :=
  g.status = .finished → ∃ front, g.finishingOrder = front ++ g.gone.reverse

/-- Seats placed in a row come in order. -/
theorem foldl_addSeat_disjoint (l : List ℕ) : ∀ o : List ℕ, l.Nodup → (∀ s ∈ l, s ∉ o) →
    l.foldl addSeat o = o ++ l := by
  induction l with
  | nil => intro o _ _; simp
  | cons s l ih =>
    intro o hnd hdis
    rw [List.nodup_cons] at hnd
    rw [List.foldl_cons, show addSeat o s = o ++ [s] from if_neg (hdis s List.mem_cons_self)]
    rw [ih _ hnd.2, List.append_assoc, List.singleton_append]
    intro t ht hmem
    rcases List.mem_append.1 hmem with h | h
    · exact hdis t (List.mem_cons_of_mem _ ht) h
    · rw [List.mem_singleton] at h
      exact hnd.1 (h ▸ ht)

/-- Those gone come last. -/
theorem Advances.goneLast (h : Advances g g') (hp : g.status = .playing) (hnd : g.gone.Nodup)
    (hout : GoneOut g) : GoneLast g' := by
  intro hf
  rcases h.order hp with ⟨hpl, -⟩ | ⟨-, ho⟩
  · rw [hpl] at hf; cases hf
  · refine ⟨g.finishingOrder ++ (List.range g.numPlayers).filter fun s => g.active s && s ∉ g.gone, ?_⟩
    rw [ho, h.gone]
    unfold finalOrder
    refine foldl_addSeat_disjoint _ _ (List.nodup_reverse.2 hnd) fun s hs hmem => ?_
    rw [List.mem_reverse] at hs
    rcases List.mem_append.1 hmem with h1 | h1
    · exact hout s hs h1
    · rw [List.mem_filter] at h1
      simp [hs] at h1

/-- Places taken and seats still active are distinct seats. -/
theorem order_length (hc : Core g) : g.finishingOrder.length + g.activeCount ≤ g.numPlayers := by
  unfold activeCount
  rw [List.countP_eq_length_filter, ← List.length_append]
  have hsub : g.finishingOrder ++ (List.range g.numPlayers).filter g.active ⊆ List.range g.numPlayers := by
    intro s hs
    rcases List.mem_append.1 hs with h | h
    · exact List.mem_range.2 (hc.order_lt s h)
    · exact (List.mem_filter.1 h).1
  have hnd : (g.finishingOrder ++ (List.range g.numPlayers).filter g.active).Nodup := by
    refine List.nodup_append.2 ⟨hc.order_nodup, List.nodup_range.filter _, ?_⟩
    rintro a h b hb rfl
    have := hc.order_inactive a h
    rw [List.mem_filter] at hb
    rw [this] at hb; cases hb.2
  have := (List.subperm_of_subset hnd hsub).length_le
  rwa [List.length_range] at this

/-- With three seats a running game has placed at most one of them. -/
theorem goneOut_of_three (h : GameOK g) (hp : g.status = .playing) (h3 : g.numPlayers = 3)
    (hh : HeadPresent g) : GoneOut g := by
  intro s hs hmem
  have h1 := order_length h.toCore
  have h2 := h.two_active hp
  cases ho : g.finishingOrder with
  | nil => rw [ho] at hmem; cases hmem
  | cons t l =>
    rw [ho, List.length_cons] at h1
    have hl : l = [] := List.length_eq_zero_iff.1 (by omega)
    rw [ho, hl, List.mem_singleton] at hmem
    exact hh s (by rw [ho, hmem]; rfl) hs

/-! ## Both, kept by every call but one -/

/-- The seat in first place is present, and with three seats those that left are last. -/
structure Placed (g : SingleGame) : Prop where
  head : HeadPresent g
  last : g.numPlayers = 3 → GoneLast g

/-- A play keeps the places. -/
theorem play_placed (h : GameOK g) (hg : Placed g) (seat : ℕ) (cards : List Card) :
    Placed (g.play seat cards).2 := by
  rcases play_cases g seat cards with ⟨-, -, he⟩ | ⟨combo, hp, ht, -, -, -, -, he⟩
  · rw [he]; exact hg
  rw [he]
  obtain ⟨t, ht', ha⟩ := h.turned hp
  rw [ht] at ht'; cases ht'
  have hng : seat ∉ g.gone := fun hs => by
    have := h.gone_inactive seat hs
    rw [ha] at this; cases this
  rcases commitPlay_advances g seat cards combo with ⟨-, hadv⟩ | ⟨-, hadv⟩
  · refine ⟨hadv.headPresent hp hg.head (Or.inr ⟨seat, h.active_lt seat ha, ha, hng⟩), fun h3 => ?_⟩
    have hout : GoneOut g := goneOut_of_three h hp (hadv.numPlayers.symm.trans h3) hg.head
    exact hadv.goneLast hp h.gone_nodup hout
  · refine ⟨hadv.headPresent hp ?_ (Or.inl ?_), fun h3 => ?_⟩
    · intro s hs
      have hs' : (g.finishingOrder ++ [seat]).head? = some s := hs
      rw [List.head?_append] at hs'
      cases ho : g.finishingOrder.head? with
      | none => rw [ho] at hs'; cases hs'; exact hng
      | some a => rw [ho] at hs'; cases hs'; exact hg.head s ho
    · exact List.append_ne_nil_of_right_ne_nil _ (List.cons_ne_nil _ _)
    · have hout : GoneOut g := goneOut_of_three h hp (hadv.numPlayers.symm.trans h3) hg.head
      refine hadv.goneLast hp h.gone_nodup fun s hs hmem => ?_
      rcases List.mem_append.1 hmem with h1 | h1
      · exact hout s hs h1
      · rw [List.mem_singleton] at h1
        exact hng (h1 ▸ hs)

/-- A pass keeps the places. -/
theorem pass_placed (h : GameOK g) (hg : Placed g) (seat : ℕ) : Placed (g.pass seat).2 := by
  rcases pass_cases g seat with ⟨-, -, he⟩ | ⟨hp, ht, -, -, he⟩
  · rw [he]; exact hg
  rw [he]
  obtain ⟨t, -, ha⟩ := h.turned hp
  have hng : t ∉ g.gone := fun hs => by
    have := h.gone_inactive t hs
    rw [ha] at this; cases this
  have hadv := afterAction_advances { g with passed := addSeat g.passed seat } seat
  refine ⟨hadv.headPresent hp hg.head (Or.inr ⟨t, h.active_lt t ha, ha, hng⟩), fun h3 => ?_⟩
  have hout : GoneOut g := goneOut_of_three h hp (hadv.numPlayers.symm.trans h3) hg.head
  exact hadv.goneLast hp h.gone_nodup hout

/-- **A forfeit keeps the places fair unless the seat already holds first place.** -/
theorem forfeitSeat_placed (h : GameOK g) (hg : Placed g) (hne : g.finishingOrder.head? ≠ some seat) :
    Placed (g.forfeitSeat seat).2 := by
  have hhead : ∀ s, g.finishingOrder.head? = some s → s ∉ g.gone ++ [seat] := by
    intro s hs hmem
    rcases List.mem_append.1 hmem with h1 | h1
    · exact hg.head s hs h1
    · rw [List.mem_singleton] at h1
      exact hne (h1 ▸ hs)
  rcases forfeitSeat_moves g seat with ⟨-, he⟩ | ⟨hp, hs, hns, ⟨-, he⟩ | ⟨ha, hadv⟩⟩
  · rw [he]; exact hg
  · rw [he]
    refine ⟨hhead, fun _ hf => ?_⟩
    rw [show ({ g with gone := g.gone ++ [seat] } : SingleGame).status = g.status from rfl, hp] at hf
    cases hf
  · obtain ⟨t, htlt, hta, htne⟩ := exists_active_ne (h.two_active hp) seat
    have hdeact : (g.deactivate seat).active t = true := update_false_iff.2 ⟨htne, hta⟩
    have hc := h.toCore.deactivate hs hns
    have htg : t ∉ (g.deactivate seat).gone := fun hmem => by
      have := hc.gone_inactive t hmem
      rw [hdeact] at this; cases this
    refine ⟨hadv.headPresent hp hhead (Or.inr ⟨t, htlt, hdeact, htg⟩), fun h3 => ?_⟩
    have hout : GoneOut g := goneOut_of_three h hp (hadv.numPlayers.symm.trans h3) hg.head
    refine hadv.goneLast hp hc.gone_nodup fun s hmem => ?_
    rcases List.mem_append.1 hmem with h1 | h1
    · exact hout s h1
    · rw [List.mem_singleton.1 h1]
      intro ho
      have := h.order_inactive seat ho
      rw [ha] at this; cases this

/-! ## Seats taken out of a fresh deal -/

/-- Nobody has played yet: every seat that has not left is active. -/
structure Dealt (g : SingleGame) : Prop extends GameOK g where
  playing : g.status = .playing
  pile : g.pile = none
  order : g.finishingOrder = []

theorem Dealt.placed (h : Dealt g) : Placed g := by
  refine ⟨fun s hs => ?_, fun _ hf => ?_⟩
  · rw [h.order] at hs; cases hs
  · rw [h.playing] at hf; cases hf

/-- Everyone dealt is in the game or gone. -/
theorem Dealt.activeCount (h : Dealt g) : g.activeCount + g.gone.length = g.numPlayers := by
  have hperm : ((List.range g.numPlayers).filter g.active ++ g.gone).Perm (List.range g.numPlayers) := by
    rw [List.perm_ext_iff_of_nodup ?_ List.nodup_range]
    · intro s
      rw [List.mem_append, List.mem_filter, List.mem_range]
      constructor
      · rintro (h1 | h1)
        · exact h1.1
        · exact h.gone_lt s h1
      · intro hs
        rcases h.cover s hs with h1 | h1 | h1
        · exact Or.inl ⟨hs, h1⟩
        · rw [h.order] at h1; cases h1
        · exact Or.inr h1
    · refine List.nodup_append.2 ⟨List.nodup_range.filter _, h.gone_nodup, ?_⟩
      rintro a ha b hb rfl
      have := h.gone_inactive a hb
      rw [List.mem_filter, this] at ha
      cases ha.2
  have := hperm.length_eq
  rw [List.length_append, List.length_range, ← List.countP_eq_length_filter] at this
  exact this

/-- A seat leaves a game just dealt to at least three. -/
theorem forfeitSeat_dealt (h : Dealt g) (hs : seat < g.numPlayers) (hg : seat ∉ g.gone)
    (h3 : g.gone.length + 3 ≤ g.numPlayers) :
    Dealt (g.forfeitSeat seat).2 ∧ (g.forfeitSeat seat).2.gone = g.gone ++ [seat] := by
  refine ⟨?_, forfeitSeat_gone h.playing hs hg⟩
  have hact : g.active seat = true := by
    rcases h.cover seat hs with h1 | h1 | h1
    · exact h1
    · rw [h.order] at h1; cases h1
    · exact absurd h1 hg
  have hcount := h.activeCount
  have hupd : (g.deactivate seat).activeCount + 1 = g.activeCount :=
    activeCount_update hs hact rfl rfl
  -- the turn passes on without ending the game
  obtain ⟨t, htlt, hta, htne⟩ := exists_active_ne (h.two_active h.playing) seat
  have hnext : (g.deactivate seat).nextActiveAfter seat ≠ none := by
    intro hn
    have := Cyclic.next_eq_none.1 hn t htlt
    rw [show (g.deactivate seat).active t = true from update_false_iff.2 ⟨htne, hta⟩] at this
    cases this
  have hre : Retabled (g.deactivate seat) ((g.deactivate seat).yieldTurn (g.turn = some seat) seat) ∧
      ((g.deactivate seat).yieldTurn (g.turn = some seat) seat).pile = none := by
    unfold yieldTurn passOnTurn
    split
    · rw [if_pos (show (g.deactivate seat).pile = none from h.pile)]
      simp only
      rw [if_neg hnext]
      exact ⟨⟨rfl, rfl, rfl, rfl, rfl, rfl, rfl, rfl⟩, h.pile⟩
    · exact ⟨Retabled.refl _, h.pile⟩
  have hok := forfeitSeat_ok h.toGameOK seat
  rcases forfeitSeat_cases g seat with ⟨h1, -⟩ | ⟨-, -, -, ha, -⟩ | ⟨-, -, -, -, he⟩
  · rcases h1 with h1 | h1 | h1
    · rw [h.playing] at h1; cases h1
    · omega
    · exact absurd h1 hg
  · rw [hact] at ha; cases ha
  · simp only at he
    rw [if_neg ?_] at he
    · exact ⟨hok, by rw [he]; exact hre.1.status.trans h.playing, by rw [he]; exact hre.2,
        by rw [he]; exact hre.1.order.trans h.order⟩
    · rintro ⟨-, hle⟩
      rw [hre.1.activeCount] at hle
      omega

/-- **Seats taken out of a fresh deal do not end it** while two seats remain. -/
theorem forfeits_dealt (l : List ℕ) : ∀ g : SingleGame, Dealt g → l.Nodup →
    (∀ s ∈ l, s < g.numPlayers ∧ s ∉ g.gone) → g.gone.length + l.length + 2 ≤ g.numPlayers →
    Dealt (l.foldl (fun g s => (g.forfeitSeat s).2) g) ∧
      (l.foldl (fun g s => (g.forfeitSeat s).2) g).gone = g.gone ++ l ∧
      (l.foldl (fun g s => (g.forfeitSeat s).2) g).numPlayers = g.numPlayers := by
  induction l with
  | nil => intro g h _ _ _; exact ⟨h, by simp, rfl⟩
  | cons s l ih =>
    intro g h hnd hl hlen
    rw [List.nodup_cons] at hnd
    rw [List.length_cons] at hlen
    obtain ⟨hs, hsg⟩ := hl s List.mem_cons_self
    obtain ⟨h1, h2⟩ := forfeitSeat_dealt h hs hsg (by omega)
    have hn := forfeitSeat_numPlayers g s
    obtain ⟨h3, h4, h5⟩ := ih (g.forfeitSeat s).2 h1 hnd.2
      (fun t ht => by
        obtain ⟨ht1, ht2⟩ := hl t (List.mem_cons_of_mem _ ht)
        refine ⟨by rw [hn]; exact ht1, ?_⟩
        rw [h2]
        intro hmem
        rcases List.mem_append.1 hmem with h6 | h6
        · exact ht2 h6
        · rw [List.mem_singleton] at h6
          exact hnd.1 (h6 ▸ ht))
      (by rw [h2, hn, List.length_append, List.length_singleton]; omega)
    refine ⟨h3, ?_, h5.trans hn⟩
    rw [List.foldl_cons, h4, h2, List.append_assoc, List.singleton_append]

end Murlan.SingleGame
