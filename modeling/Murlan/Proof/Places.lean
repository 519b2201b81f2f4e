import Mathlib.Data.List.GetD
import Murlan.Proof.Order

/-!
# The order of a finished game

* `emptied`, `departed`: the seats that emptied their hand in a run, and those that left
  it with cards, each in order.
* `Filed`: the places so far are those of the seats that emptied their hand, and ending
  the game puts the others behind them; `step_filed` keeps it.
* `finishing_order`: the order of every finished game.
-/

namespace Murlan

namespace SingleGame

variable {g g' : SingleGame} {seat : ℕ} {cards : List Card} {combo : Combo} {E L : List ℕ}

/-- The seat whose hand the call empties. -/
def emptiedBy (g : SingleGame) (c : Call) : List ℕ :=
  match c with
  | .play s _ => if g.hands s ≠ [] ∧ (g.step c).hands s = [] then [s] else []
  | _ => []

/-- The seat that leaves the game by the call while it holds cards. -/
def departedBy (g : SingleGame) (c : Call) : List ℕ :=
  match c with
  | .forfeitSeat s => if s ∉ g.gone ∧ s ∈ (g.step c).gone ∧ g.hands s ≠ [] then [s] else []
  | _ => []

/-- The seats that empty their hand in a run, in order. -/
def emptied (g : SingleGame) : List Call → List ℕ
  | [] => []
  | c :: cs => g.emptiedBy c ++ emptied (g.step c) cs

/-- The seats that leave with cards in a run, in order. -/
def departed (g : SingleGame) : List Call → List ℕ
  | [] => []
  | c :: cs => g.departedBy c ++ departed (g.step c) cs

/-- The seats that still hold cards and have not left. -/
def stayed (g : SingleGame) : List ℕ :=
  (List.range g.numPlayers).filter fun s => g.hands s ≠ [] && s ∉ g.gone

/-- **The places so far**, after the seats `E` emptied their hands and the seats `L`
left with cards. -/
structure Filed (g : SingleGame) (E L : List ℕ) : Prop where
  emptied : ∀ s, s < g.numPlayers → (g.hands s = [] ↔ s ∈ E)
  left : L = g.gone.filter fun s => g.hands s ≠ []
  order : g.status = .playing → g.finishingOrder = E
  final : g.status = .finished → g.finishingOrder = E ++ g.stayed ++ L.reverse

/-! ## Ending a game -/

/-- Seats placed in a row come in order, those placed before stay. -/
theorem foldl_addSeat_filter (l : List ℕ) : ∀ o : List ℕ, l.Nodup →
    l.foldl addSeat o = o ++ l.filter fun s => s ∉ o := by
  induction l with
  | nil => intro o _; simp
  | cons s l ih =>
    intro o hnd
    rw [List.nodup_cons] at hnd
    rw [List.foldl_cons, ih _ hnd.2]
    unfold addSeat
    by_cases hs : s ∈ o
    · rw [if_pos hs, List.filter_cons_of_neg (by simpa using hs)]
    · rw [if_neg hs, List.filter_cons_of_pos (by simpa using hs), List.append_assoc, List.singleton_append]
      congr 2
      refine List.filter_congr fun t ht => ?_
      have hts : t ≠ s := by
        rintro rfl
        exact hnd.1 ht
      simp [hts]

/-- The final order of a game that is still being played. -/
theorem Filed.finalOrder (h : Filed g E L) (hc : Core g) (hp : g.status = .playing) :
    g.finalOrder = E ++ g.stayed ++ L.reverse := by
  have hstayed : ((List.range g.numPlayers).filter fun s => g.active s && s ∉ g.gone) = g.stayed := by
    refine List.filter_congr fun s hs => ?_
    have hs := List.mem_range.1 hs
    by_cases hg : s ∈ g.gone
    · simp [hg]
    · have hiff : g.active s = true ↔ g.hands s ≠ [] := by
        refine ⟨hc.active_hand s, fun hne => ?_⟩
        rcases hc.cover s hs with ha | ho | hgo
        · exact ha
        · rw [h.order hp, ← h.emptied s hs] at ho
          exact absurd ho hne
        · exact absurd hgo hg
      cases ha : g.active s with
      | true => simp [hg, hiff.1 ha]
      | false =>
        have hnil : g.hands s = [] := by
          by_contra hne
          rw [hiff.2 hne] at ha
          cases ha
        simp [hnil]
  have hleft : (g.gone.reverse.filter fun s => s ∉ E ++ g.stayed) = L.reverse := by
    rw [h.left, List.filter_reverse]
    congr 1
    refine List.filter_congr fun s hs => ?_
    have hns : s ∉ g.stayed := by
      intro hmem
      unfold stayed at hmem
      rw [List.mem_filter] at hmem
      simp [hs] at hmem
    have hE := h.emptied s (hc.gone_lt s hs)
    by_cases hnil : g.hands s = []
    · simp [hnil, hE.1 hnil]
    · simp [hnil, hns, mt hE.2 hnil]
  unfold SingleGame.finalOrder
  rw [foldl_addSeat_filter _ _ (List.nodup_reverse.2 hc.gone_nodup), hstayed, h.order hp, hleft]

/-- Moving the turn changes no place, and ending the game fills the others. -/
theorem Filed.advances (h : Filed g E L) (hc : Core g) (hp : g.status = .playing) (ha : Advances g g') :
    Filed g' E L := by
  have hstayed : g'.stayed = g.stayed := by
    unfold stayed
    rw [ha.numPlayers, ha.hands, ha.gone]
  refine ⟨fun s hs => ?_, ?_, fun hp' => ?_, fun hf => ?_⟩
  · rw [ha.numPlayers] at hs
    rw [ha.hands]
    exact h.emptied s hs
  · rw [ha.hands, ha.gone]
    exact h.left
  · rcases ha.order hp with ⟨-, ho⟩ | ⟨hf, -⟩
    · rw [ho]
      exact h.order hp
    · rw [hf] at hp'
      cases hp'
  · rcases ha.order hp with ⟨hp', -⟩ | ⟨-, ho⟩
    · rw [hp'] at hf
      cases hf
    · rw [ho, hstayed]
      exact h.finalOrder hc hp

/-! ## The calls -/

theorem putDown_hands (g : SingleGame) (seat : ℕ) (cards : List Card) (combo : Combo) {s : ℕ} (hs : s ≠ seat) :
    (g.putDown seat cards combo).hands s = g.hands s := Function.update_of_ne hs ..

/-- Cards go down, and the hand is not empty yet. -/
theorem Filed.putDown (h : Filed g E L) (hok : GameOK g) (hp : g.status = .playing) (ha : g.active seat = true)
    (hmore : (g.putDown seat cards combo).hands seat ≠ []) : Filed (g.putDown seat cards combo) E L := by
  refine ⟨fun s hs => ?_, ?_, h.order, fun hf => ?_⟩
  · by_cases hss : s = seat
    · subst hss
      refine ⟨fun hnil => absurd hnil hmore, fun hmem => ?_⟩
      have hno := hok.order_inactive s (h.order hp ▸ hmem)
      rw [ha] at hno
      cases hno
    · rw [putDown_hands g seat cards combo hss]
      exact h.emptied s hs
  · rw [h.left]
    refine List.filter_congr fun s hs => ?_
    have hss : s ≠ seat := by
      rintro rfl
      rw [hok.gone_inactive s hs] at ha
      cases ha
    rw [putDown_hands g seat cards combo hss]
  · have hst : g.status = .finished := hf
    rw [hp] at hst
    cases hst

/-- Cards go down, and the hand is empty: the seat takes the next place. -/
theorem Filed.finishSeat (h : Filed g E L) (hok : GameOK g) (hp : g.status = .playing) (ha : g.active seat = true)
    (hempty : (g.putDown seat cards combo).hands seat = []) :
    Filed ((g.putDown seat cards combo).finishSeat seat) (E ++ [seat]) L := by
  refine ⟨fun s hs => ?_, ?_, fun _ => ?_, fun hf => ?_⟩
  · rw [List.mem_append, List.mem_singleton]
    by_cases hss : s = seat
    · subst hss
      exact ⟨fun _ => Or.inr rfl, fun _ => hempty⟩
    · rw [show ((g.putDown seat cards combo).finishSeat seat).hands s = g.hands s from
        putDown_hands g seat cards combo hss]
      rw [h.emptied s hs]
      simp [hss]
  · rw [h.left]
    refine List.filter_congr fun s hs => ?_
    have hss : s ≠ seat := by
      rintro rfl
      rw [hok.gone_inactive s hs] at ha
      cases ha
    rw [show ((g.putDown seat cards combo).finishSeat seat).hands s = g.hands s from
      putDown_hands g seat cards combo hss]
  · show g.finishingOrder ++ [seat] = _
    rw [h.order hp]
  · have hst : g.status = .finished := hf
    rw [hp] at hst
    cases hst

/-- A play files who is out. -/
theorem play_filed (h : Filed g E L) (hok : GameOK g) (seat : ℕ) (cards : List Card) :
    Filed (g.play seat cards).2 (E ++ g.emptiedBy (.play seat cards)) L := by
  rcases play_cases g seat cards with ⟨-, -, he⟩ | ⟨combo, hp, ht, -, -, -, -, he⟩
  · have hnone : g.emptiedBy (.play seat cards) = [] := by
      refine if_neg ?_
      simp only [step, he]
      exact fun hc => hc.1 hc.2
    rw [he, hnone, List.append_nil]
    exact h
  · obtain ⟨t, ht', ha⟩ := hok.turned hp
    rw [ht] at ht'
    cases ht'
    have hhand := hok.active_hand seat ha
    have hstep : g.step (.play seat cards) = (g.commitPlay seat cards combo).2 := by simp only [step, he]
    rcases commitPlay_advances g seat cards combo with ⟨hmore, hadv⟩ | ⟨hempty, hadv⟩
    · have hnone : g.emptiedBy (.play seat cards) = [] := by
        refine if_neg ?_
        rw [hstep, hadv.hands]
        exact fun hc => hmore hc.2
      rw [he, hnone, List.append_nil]
      exact (h.putDown hok hp ha hmore).advances (hok.toCore.putDown hmore) hp hadv
    · have hsome : g.emptiedBy (.play seat cards) = [seat] := by
        refine if_pos ⟨hhand, ?_⟩
        rw [hstep, hadv.hands]
        exact hempty
      rw [he, hsome]
      exact (h.finishSeat hok hp ha hempty).advances (hok.toCore.finishSeat ha cards combo) hp hadv

theorem pass_filed (h : Filed g E L) (hok : GameOK g) (seat : ℕ) : Filed (g.pass seat).2 E L := by
  rcases pass_cases g seat with ⟨-, -, he⟩ | ⟨hp, -, -, -, he⟩
  · rw [he]
    exact h
  · rw [he]
    have hsame : Filed { g with passed := addSeat g.passed seat } E L := ⟨h.emptied, h.left, h.order, h.final⟩
    exact hsame.advances (hok.toCore.retable g.pile g.pileOwner g.turn _) hp (afterAction_advances _ seat)

/-- A seat that leaves is filed last. -/
theorem forfeitSeat_filed (h : Filed g E L) (hok : GameOK g) (seat : ℕ) :
    Filed (g.forfeitSeat seat).2 E (L ++ g.departedBy (.forfeitSeat seat)) := by
  rcases forfeitSeat_moves g seat with ⟨-, he⟩ | ⟨hp, hs, hg, ⟨ha, he⟩ | ⟨ha, hadv⟩⟩
  · have hnone : g.departedBy (.forfeitSeat seat) = [] := by
      refine if_neg ?_
      simp only [step, he]
      exact fun hc => hc.1 hc.2.1
    rw [he, hnone, List.append_nil]
    exact h
  · -- the seat has a place already, and keeps it
    have hnil : g.hands seat = [] := by
      rcases hok.cover seat hs with h1 | h1 | h1
      · rw [ha] at h1
        cases h1
      · rw [h.order hp] at h1
        exact (h.emptied seat hs).2 h1
      · exact absurd h1 hg
    have hnone : g.departedBy (.forfeitSeat seat) = [] := if_neg fun hc => hc.2.2 hnil
    rw [he, hnone, List.append_nil]
    refine ⟨h.emptied, ?_, h.order, fun hf => ?_⟩
    · show L = (g.gone ++ [seat]).filter fun s => g.hands s ≠ []
      rw [List.filter_append, ← h.left, List.filter_cons_of_neg (by simp [hnil]), List.filter_nil, List.append_nil]
    · have hst : g.status = .finished := hf
      rw [hp] at hst
      cases hst
  · have hhand := hok.active_hand seat ha
    have hsome : g.departedBy (.forfeitSeat seat) = [seat] := by
      refine if_pos ⟨hg, ?_, hhand⟩
      show seat ∈ (g.forfeitSeat seat).2.gone
      rw [hadv.gone]
      exact List.mem_append_right _ (List.mem_singleton_self seat)
    rw [hsome]
    have hdeact : Filed (g.deactivate seat) E (L ++ [seat]) := by
      refine ⟨h.emptied, ?_, h.order, fun hf => ?_⟩
      · show L ++ [seat] = (g.gone ++ [seat]).filter fun s => g.hands s ≠ []
        rw [List.filter_append, ← h.left, List.filter_cons_of_pos (by simpa using hhand), List.filter_nil]
      · have hst : g.status = .finished := hf
        rw [hp] at hst
        cases hst
    exact hdeact.advances (hok.toCore.deactivate hs hg) hp hadv

/-- **One call files the seat that empties its hand, or leaves with cards.** -/
theorem step_filed (h : Filed g E L) (hok : GameOK g) (c : Call) :
    Filed (g.step c) (E ++ g.emptiedBy c) (L ++ g.departedBy c) := by
  cases c with
  | play s cards =>
    have := play_filed h hok s cards
    simpa only [step, departedBy, List.append_nil] using this
  | pass s =>
    have := pass_filed h hok s
    simpa only [step, emptiedBy, departedBy, List.append_nil] using this
  | forfeitSeat s =>
    have := forfeitSeat_filed h hok s
    simpa only [step, emptiedBy, List.append_nil] using this

/-- A run files everyone. -/
theorem run_filed (cs : List Call) : ∀ {g : SingleGame} {E L : List ℕ}, Filed g E L → GameOK g →
    Filed (run step g cs) (E ++ emptied g cs) (L ++ departed g cs) := by
  induction cs with
  | nil =>
    intro g E L h _
    simpa [emptied, departed] using h
  | cons c cs ih =>
    intro g E L h hok
    have hrun := ih (step_filed h hok c) (step_ok hok c)
    rw [List.append_assoc, List.append_assoc] at hrun
    exact hrun

theorem fresh_filed {o : GameOptions} (hlen : o.hands.length = o.numPlayers) (hne : ∀ h ∈ o.hands, h ≠ []) :
    Filed (fresh o) [] [] := by
  refine ⟨fun s hs => ?_, rfl, fun _ => rfl, fun hf => by cases hf⟩
  have hs : s < o.hands.length := hlen ▸ hs
  have hhand : (fresh o).hands s = o.hands[s] := List.getD_eq_getElem _ _ hs
  rw [hhand]
  simp [hne _ (List.getElem_mem hs)]

theorem departed_gone (h : Filed g E L) {s : ℕ} (hh : g.hands s ≠ []) : s ∈ g.gone ↔ s ∈ L := by
  rw [h.left, List.mem_filter]
  simp [hh]

end SingleGame

/-- **The order of a finished game**: every seat once; first those that emptied their
hand, in the order they did so; then those that stayed with cards; last those that
left with cards, the earliest to leave last, and so behind everyone else. -/
theorem finishing_order {o : GameOptions} {g : SingleGame} (h2 : 2 ≤ o.numPlayers) (hne : ∀ h ∈ o.hands, h ≠ [])
    (hg : SingleGame.create o = .ok g) (cs : List SingleGame.Call)
    (hf : (run SingleGame.step g cs).status = .finished) :
    let order := (run SingleGame.step g cs).finishingOrder
    let left := SingleGame.departed g cs
    order.Perm (List.range o.numPlayers) ∧
      order = SingleGame.emptied g cs ++
        ((List.range o.numPlayers).filter fun s => (run SingleGame.step g cs).hands s ≠ [] && s ∉ left) ++
        left.reverse ∧
      ∀ s ∈ left, ∀ t < o.numPlayers, t ∉ left → order.idxOf t < order.idxOf s := by
  intro order left
  obtain ⟨rfl, hlen, hok⟩ := SingleGame.created h2 hne hg
  have hfiled := SingleGame.run_filed cs (SingleGame.fresh_filed hlen hne) hok
  rw [List.nil_append, List.nil_append] at hfiled
  have hn : (run SingleGame.step (SingleGame.fresh o) cs).numPlayers = o.numPlayers :=
    run_inv (P := fun g : SingleGame => g.numPlayers = o.numPlayers)
      (fun g c h => (SingleGame.step_numPlayers_eq g c).trans h) rfl cs
  have hperm : order.Perm (List.range o.numPlayers) := by
    rw [← hn]
    exact (SingleGame.run_ok hok cs).final hf
  have horder : order = SingleGame.emptied (SingleGame.fresh o) cs ++
      ((List.range o.numPlayers).filter fun s => (run SingleGame.step (SingleGame.fresh o) cs).hands s ≠ [] &&
        s ∉ left) ++ left.reverse := by
    have hstayed : (run SingleGame.step (SingleGame.fresh o) cs).stayed = (List.range o.numPlayers).filter fun s =>
        (run SingleGame.step (SingleGame.fresh o) cs).hands s ≠ [] && s ∉ left := by
      unfold SingleGame.stayed
      rw [hn]
      refine List.filter_congr fun s _ => ?_
      by_cases hh : (run SingleGame.step (SingleGame.fresh o) cs).hands s = []
      · simp [hh]
      · simp [hh, SingleGame.departed_gone hfiled hh, left]
    rw [← hstayed]
    exact hfiled.final hf
  refine ⟨hperm, horder, fun s hs t ht hnt => ?_⟩
  -- `t` is in front of the tail that those who left make up, and `s` only in the tail
  have hnd : order.Nodup := hperm.nodup_iff.2 List.nodup_range
  have htmem : t ∈ order := hperm.mem_iff.2 (List.mem_range.2 ht)
  rw [horder] at hnd htmem ⊢
  have htfront := (List.mem_append.1 htmem).resolve_right fun h => hnt (List.mem_reverse.1 h)
  have hsfront := fun h => (List.nodup_append.1 hnd).2.2 s h s (List.mem_reverse.2 hs) rfl
  rw [List.idxOf_append_of_mem htfront, List.idxOf_append_of_notMem hsfront]
  exact (List.idxOf_lt_length_of_mem htfront).trans_le (Nat.le_add_right ..)

/-- Three seats: one empties its hand and leaves, one leaves with a card. -/
def threeDealt : GameOptions :=
  { numPlayers := 3, leader := 0,
    hands := [[.standard .r5 .S], [.standard .r6 .S, .standard .r8 .H], [.standard .r7 .S, .standard .r8 .S]] }

/-- One plays out, two leave. -/
theorem finishing_order_three :
    let cs : List SingleGame.Call := [.play 0 [.standard .r5 .S], .forfeitSeat 0, .forfeitSeat 1]
    let g := run SingleGame.step (SingleGame.fresh threeDealt) cs
    let left := SingleGame.departed (SingleGame.fresh threeDealt) cs
    g.finishingOrder.Perm (List.range 3) ∧
      g.finishingOrder = SingleGame.emptied (SingleGame.fresh threeDealt) cs ++
        ((List.range 3).filter fun s => g.hands s ≠ [] && s ∉ left) ++ left.reverse ∧
      ∀ s ∈ left, ∀ t < 3, t ∉ left → g.finishingOrder.idxOf t < g.finishingOrder.idxOf s :=
  finishing_order (o := threeDealt) (by decide) (by decide) rfl _ (by decide +kernel)

end Murlan
