import Murlan.Proof.LegalPlays
import Murlan.Proof.Shuffle

/-!
# The bot's move is legal

* `Yields`, `Total`: what an action returns, if it does, and that it does.
* `Chosen`: each policy, and the search, chooses one of the enumerated plays, or passes where it may.
* `Held`: in a game in which every seat on turn holds cards, a rollout comes to its end.
* `bot_moves_legal`: the enumeration is sound and empty only if nothing fits, the decision is legal,
  and there is one.
-/

namespace Murlan.Bot

open Murlan

variable {σ α β : Type}

/-! ## Actions -/

/-- Whatever the action returns has the property. -/
def Yields (P : α → Prop) (x : StateT σ (Except String) α) : Prop := ∀ s a s', x.run s = .ok (a, s') → P a

/-- The action returns, with a value that has the property. -/
def Total (P : α → Prop) (x : StateT σ (Except String) α) : Prop := ∀ s, ∃ a s', x.run s = .ok (a, s') ∧ P a

section

variable {P : α → Prop} {Q : β → Prop} {x : StateT σ (Except String) α} {f : α → StateT σ (Except String) β} {a : α}

theorem Yields.pure (h : P a) : Yields (σ := σ) P (Pure.pure a) := by
  intro s b s' hrun
  rw [StateT.run_pure] at hrun
  cases hrun
  exact h

/-- What the second program yields, the two yield. -/
theorem Yields.bind (h : ∀ a, Yields Q (f a)) : Yields Q (x >>= f) := by
  intro s b s' hrun
  rw [StateT.run_bind] at hrun
  cases hx : x.run s with
  | error e =>
    rw [hx] at hrun
    cases hrun
  | ok p =>
    rw [hx] at hrun
    exact h p.1 p.2 b s' hrun

/-- The second program may rely on what the first yields. -/
theorem Yields.bind_of (hx : Yields P x) (h : ∀ a, P a → Yields Q (f a)) : Yields Q (x >>= f) := by
  intro s b s' hrun
  rw [StateT.run_bind] at hrun
  cases hrun' : x.run s with
  | error e =>
    rw [hrun'] at hrun
    cases hrun
  | ok p =>
    rw [hrun'] at hrun
    exact h p.1 (hx s p.1 p.2 hrun') p.2 b s' hrun

/-- A pure result is what it is. -/
theorem Yields.lift {r : Except String α} (h : ∀ a, r = .ok a → P a) :
    Yields P (liftM r : StateT σ (Except String) α) := by
  intro s b s' hrun
  cases r with
  | error e => cases hrun
  | ok a =>
    cases hrun
    exact h _ rfl

theorem Total.pure (h : P a) : Total (σ := σ) P (Pure.pure a) := fun s => ⟨a, s, rfl, h⟩

theorem Total.bind (hx : Total P x) (h : ∀ a, P a → Total Q (f a)) : Total Q (x >>= f) := by
  intro s
  obtain ⟨a, s', hrun, ha⟩ := hx s
  obtain ⟨b, s'', hrun', hb⟩ := h a ha s'
  refine ⟨b, s'', ?_, hb⟩
  rw [StateT.run_bind, hrun]
  exact hrun'

theorem Total.lift {r : Except String α} (h : ∃ a, r = .ok a ∧ P a) :
    Total P (liftM r : StateT σ (Except String) α) := by
  obtain ⟨a, rfl, ha⟩ := h
  exact fun s => ⟨a, s, rfl, ha⟩

theorem Total.map {g : α → β} (hx : Total P x) (h : ∀ a, P a → Q (g a)) : Total Q (g <$> x) := by
  rw [← bind_pure_comp]
  exact hx.bind fun a ha => .pure (h a ha)

end

/-! ## Choices -/

variable {view : BotView} {plays : List Combo} {canPass : Bool} {combo : Combo}

/-- One of the plays, or a pass where it is allowed. -/
def Chosen (plays : List Combo) (canPass : Bool) : BotMove → Prop
  | .play cards => ∃ c ∈ plays, c.cards = cards
  | .pass => canPass = true

/-- A reduction that picks one of two picks an element. -/
theorem reduce_mem {T : Type} {f : T → T → T} (hf : ∀ a b, f a b = a ∨ f a b = b) {l : List T} {c : T}
    (h : reduce f l = some c) : c ∈ l := by
  cases l with
  | nil => cases h
  | cons a l =>
    rw [reduce, Option.some.injEq] at h
    subst h
    induction l generalizing a with
    | nil => exact List.mem_cons_self
    | cons b l ih =>
      rw [List.foldl_cons]
      rcases hf a b with he | he
      · rw [he]
        rcases List.mem_cons.1 (ih a) with hmem | hmem
        · exact List.mem_cons.2 (Or.inl hmem)
        · exact List.mem_cons_of_mem a (List.mem_cons_of_mem b hmem)
      · rw [he]
        exact List.mem_cons_of_mem a (ih b)

theorem reduce_isSome {T : Type} (f : T → T → T) {l : List T} (h : l ≠ []) : ∃ c, reduce f l = some c := by
  cases l with
  | nil => exact absurd rfl h
  | cons a l => exact ⟨_, rfl⟩

theorem ite_or {T : Type} (p : Prop) [Decidable p] (a b : T) : (if p then a else b) = a ∨ (if p then a else b) = b := by
  by_cases hp : p
  · exact Or.inl (if_pos hp)
  · exact Or.inr (if_neg hp)

theorem bestLead_mem {hand : List Card} (h : bestLead plays hand = some combo) : combo ∈ plays :=
  (List.mem_filter.1 (reduce_mem (fun _ _ => (ite_or _ _ _).symm) h)).1

theorem bestUnload_mem {hand : List Card} (h : bestUnload plays hand = some combo) : combo ∈ plays := by
  have hmem := reduce_mem (fun _ _ => (ite_or _ _ _).symm) h
  unfold unloadPool at hmem
  split at hmem
  · exact hmem
  · exact (List.mem_filter.1 hmem).1

theorem lockSingle_mem {hand seen : List Card} (h : lockSingle plays hand seen = some combo) : combo ∈ plays :=
  (List.mem_filter.1 (reduce_mem (fun _ _ => ite_or _ _ _) h)).1

theorem lowSingles_sub : lowSingles plays ⊆ plays := List.filter_sublist.subset

theorem mem_byCost : combo ∈ byCost plays ↔ combo ∈ plays := List.mem_insertionSort _

theorem cheapestNonTrump_mem (h : cheapestNonTrump plays = some combo) : combo ∈ plays :=
  mem_byCost.1 (List.mem_of_find?_eq_some h)

theorem head_byCost (hne : plays ≠ []) : ∃ c ∈ plays, (byCost plays).head? = some c := by
  cases hsort : byCost plays with
  | nil =>
    have hlen := congrArg List.length hsort
    rw [byCost, List.length_insertionSort, List.length_nil, List.length_eq_zero_iff] at hlen
    exact absurd hlen hne
  | cons c l => exact ⟨c, mem_byCost.1 (hsort ▸ List.mem_cons_self), rfl⟩

theorem playOf_chosen {r : Option Combo} (h : ∃ c ∈ plays, r = some c) :
    ∃ move, playOf r = .ok move ∧ Chosen plays canPass move := by
  obtain ⟨c, hc, rfl⟩ := h
  exact ⟨_, rfl, c, hc, rfl⟩

/-- The choice of the first, or else of the second. -/
theorem or_chosen {r r' : Option Combo} (h : ∀ c, r = some c → c ∈ plays) (h' : ∃ c ∈ plays, r' = some c) :
    ∃ c ∈ plays, r.or r' = some c := by
  cases r with
  | none => exact h'
  | some c => exact ⟨c, h c rfl, rfl⟩

/-- **The easy policy** always makes a choice. -/
theorem efficientHeuristic_chosen (hne : plays ≠ []) :
    ∃ move, efficientHeuristic view plays canPass = .ok move ∧ Chosen plays canPass move := by
  unfold efficientHeuristic
  split
  · exact playOf_chosen (or_chosen (fun c hc => bestLead_mem hc) (head_byCost hne))
  split
  · rename_i hsome
    obtain ⟨c, hc⟩ := Option.isSome_iff_exists.1 hsome
    exact playOf_chosen ⟨c, cheapestNonTrump_mem hc, hc⟩
  split
  · rename_i hpass
    exact ⟨.pass, rfl, hpass⟩
  · exact playOf_chosen (head_byCost hne)

/-- With few cards left, the lead is one of the plays. -/
theorem endgameLead_chosen (hne : plays ≠ []) : ∃ c ∈ plays, endgameLead view plays = some c := by
  have hunload : ∃ c ∈ plays, bestUnload plays view.hand = some c := by
    have hpool : unloadPool plays ≠ [] := by
      unfold unloadPool
      split
      · exact hne
      · assumption
    obtain ⟨c, hc⟩ := reduce_isSome _ hpool
    exact ⟨c, bestUnload_mem hc, hc⟩
  unfold endgameLead
  refine or_chosen (fun c hc => ?_) hunload
  rw [Option.or_eq_some_iff] at hc
  rcases hc with hc | ⟨-, hc⟩
  · split at hc
    · exact lowSingles_sub (reduce_mem (fun _ _ => (ite_or _ _ _).symm) hc)
    · cases hc
  · split at hc
    · obtain ⟨seen, -, hc⟩ := Option.bind_eq_some_iff.1 hc
      exact lockSingle_mem hc
    · cases hc

/-- **The endgame policy** always makes a choice. -/
theorem endgameHeuristic_chosen (hne : plays ≠ []) :
    ∃ move, endgameHeuristic view plays canPass = .ok move ∧ Chosen plays canPass move := by
  unfold endgameHeuristic
  split
  · exact playOf_chosen (endgameLead_chosen hne)
  split
  · rename_i hsome
    obtain ⟨c, hc⟩ := Option.isSome_iff_exists.1 hsome
    exact playOf_chosen ⟨c, cheapestNonTrump_mem hc, hc⟩
  split
  · exact playOf_chosen (head_byCost hne)
  split
  · rename_i hpass
    exact ⟨.pass, rfl, hpass⟩
  · exact playOf_chosen (head_byCost hne)

/-- A team move is one of the plays, or a pass that is allowed. -/
theorem teamMove_chosen {move : BotMove} (h : teamMove view plays canPass = some move) : Chosen plays canPass move := by
  unfold teamMove at h
  split at h
  · split at h
    · rename_i hmate
      cases h
      exact hmate.2.2
    split at h
    · obtain ⟨c, hc, rfl⟩ := Option.map_eq_some_iff.1 h
      unfold feedPartner at hc
      simp only at hc
      split at hc
      · exact ⟨c, lowSingles_sub (reduce_mem (fun _ _ => ite_or _ _ _) hc), rfl⟩
      · cases hc
    · cases h
  · cases h

/-! ## The search chooses -/

variable {me n : ℕ} {rng : StateT σ (Except String) ℚ}

/-- A candidate is one of the plays, or the pass where it is allowed. -/
def Candidate (plays : List Combo) (canPass : Bool) (cand : Cand) : Prop := Chosen plays canPass (moveOf cand)

/-- Every candidate is a move that may be made. -/
theorem candidates_chosen {k : ℕ} {cand : Cand} (h : cand ∈ candidates view plays canPass k) :
    Candidate plays canPass cand := by
  unfold candidates at h
  rcases List.mem_append.1 h with h | h
  · obtain ⟨c, hc, rfl⟩ := List.mem_map.1 h
    exact ⟨c, (List.mem_insertionSort _).1 (List.mem_of_mem_take hc), rfl⟩
  · split at h
    · rename_i hpass
      rw [List.mem_singleton.1 h]
      exact hpass
    · cases h

/-- Nothing, or a move that is chosen. -/
def Offers (plays : List Combo) (canPass : Bool) (r : Option BotMove) : Prop :=
  ∀ move, r = some move → Chosen plays canPass move

/-- The best candidate so far is one of the candidates. -/
def BestSo (plays : List Combo) (canPass : Bool) (best : Option (Cand × ℚ)) : Prop :=
  ∀ b, best = some b → Candidate plays canPass b.1

theorem betterCand_best {best : Option (Cand × ℚ)} {cand : Cand} (hcand : Candidate plays canPass cand)
    (h : BestSo plays canPass best) (avg : ℚ) : BestSo plays canPass (betterCand best cand avg) := by
  unfold betterCand
  split
  · rintro b ⟨⟩
    exact hcand
  · exact h

/-- The search offers one of its candidates. -/
theorem searchLoop_offers {sims : ℕ} (cands : List Cand) : ∀ best : Option (Cand × ℚ),
    (∀ cand ∈ cands, Candidate plays canPass cand) → BestSo plays canPass best →
    Yields (Offers plays canPass) (searchLoop view me n rng sims cands best) := by
  induction cands with
  | nil =>
    intro best _ hbest
    refine .pure fun move hmove => ?_
    obtain ⟨b, hb, rfl⟩ := Option.map_eq_some_iff.1 hmove
    exact hbest b hb
  | cons cand cands ih =>
    intro best hin hbest
    refine .bind fun total => ih _ (fun c hc => hin c (List.mem_cons_of_mem cand hc)) ?_
    exact betterCand_best (hin cand List.mem_cons_self) hbest _

theorem findOut_chosen {n : ℕ} {out : Combo} (h : (plays.find? fun c => goesOut c n) = some out) :
    Chosen plays canPass (.play out.cards) := ⟨out, List.mem_of_find?_eq_some h, rfl⟩

/-- **The search** offers one of the plays, or a pass where it is allowed. -/
theorem searchPlays_offers (opts : Budget) (plays : List Combo) (canPass : Bool) :
    Yields (Offers plays canPass) (searchPlays view me n rng opts plays canPass) := by
  unfold searchPlays
  split
  · refine .pure fun move hmove => ?_
    split at hmove
    · rename_i hpass
      cases hmove
      exact hpass
    · cases hmove
  split
  · rename_i out hout
    refine .pure fun move hmove => ?_
    cases hmove
    exact findOut_chosen hout
  · have hall : ∀ cand ∈ candidates view plays canPass opts.maxCandidates, Candidate plays canPass cand :=
      fun cand h => candidates_chosen h
    unfold search
    split
    · rename_i cand hone
      refine .pure fun move hmove => ?_
      cases hmove
      exact hall cand (hone ▸ List.mem_cons_self)
    · exact searchLoop_offers _ none hall fun b hb => nomatch hb

theorem chooseBestMove_offers (opts : Budget) : Yields
    (Offers (enumerateLegalPlays view.hand view.pile view.mustInclude) (view.canPass && view.pile ≠ none))
    (chooseBestMove view rng opts) := by
  unfold chooseBestMove
  split
  · exact searchPlays_offers opts _ _
  · exact .pure fun move hmove => nomatch hmove

/-- **The decision is one of the enumerated plays**, or a pass: where it is allowed, or where there
are no plays. -/
theorem decideBotMove_chosen (tier : BotTier) : Yields
    (fun move => Chosen (enumerateLegalPlays view.hand view.pile view.mustInclude) (view.canPass && view.pile ≠ none) move ∨
      enumerateLegalPlays view.hand view.pile view.mustInclude = [] ∧ move = .pass)
    (decideBotMove view tier rng) := by
  have hsearch : ∀ opts, Yields
      (Offers (enumerateLegalPlays view.hand view.pile view.mustInclude) (view.canPass && view.pile ≠ none))
      (chooseBestMove view rng opts) := fun opts => chooseBestMove_offers opts
  unfold decideBotMove
  revert hsearch
  generalize enumerateLegalPlays view.hand view.pile view.mustInclude = plays
  generalize (view.canPass && decide (view.pile ≠ none)) = canPass
  intro hsearch
  unfold decideAmong
  split
  · rename_i hnone
    exact .pure (Or.inr ⟨hnone, rfl⟩)
  rename_i hne
  split
  · rename_i out hout
    exact .pure (Or.inl (findOut_chosen hout))
  split
  · rename_i team hteam
    exact .pure (Or.inl (teamMove_chosen hteam))
  unfold soloMove
  split
  · refine .lift fun move hmove => Or.inl ?_
    obtain ⟨move', hmove', hchosen⟩ := efficientHeuristic_chosen hne
    rw [hmove', Except.ok.injEq] at hmove
    exact hmove ▸ hchosen
  · refine (hsearch _).bind_of fun r hr => ?_
    split
    · exact .pure (Or.inl (hr _ rfl))
    · refine .lift fun move hmove => Or.inl ?_
      obtain ⟨move', hmove', hchosen⟩ := endgameHeuristic_chosen hne
      rw [hmove', Except.ok.injEq] at hmove
      exact hmove ▸ hchosen

/-! ## The search comes to its end -/

/-- Whoever is in the game sits at the table and holds cards. -/
def Held (sim : Sim) : Prop := ∀ s, sim.active s = true → s < sim.n ∧ sim.hands s ≠ []

/-- And whoever is on turn is in the game. -/
def Ready (sim : Sim) : Prop := Held sim ∧ ∀ t, sim.turn = some t → sim.active t = true

variable {sim : Sim} {seat : ℕ}

theorem endGame_ready (h : Held sim) : Ready sim.endGame := by
  refine ⟨fun s hs => ?_, fun t ht => nomatch ht⟩
  simp only [Sim.endGame] at hs
  split at hs
  · cases hs
  · rename_i hlt
    exact absurd (h s hs).1 hlt

/-- A trick that is over leaves the copy ready. -/
theorem resolveTrick_ready (h : Held sim) : Ready sim.resolveTrick := by
  unfold Sim.resolveTrick
  simp only
  split
  · exact endGame_ready h
  · refine ⟨h, fun t ht => ?_⟩
    change sim.trickLeader = some t at ht
    unfold Sim.trickLeader at ht
    split at ht
    · split at ht
      · rename_i hactive
        cases ht
        exact hactive
      · exact (Cyclic.next_spec ht).2
    · cases ht

/-- The turn passes on to a copy that is ready. -/
theorem afterAction_ready (h : Held sim) (seat : ℕ) : Ready (sim.afterAction seat) := by
  unfold Sim.afterAction
  split
  · exact resolveTrick_ready h
  · simp only
    split
    · have hmoved : Held { sim with turn := sim.nextEligible seat } := h
      exact resolveTrick_ready hmoved
    · refine ⟨h, fun t ht => ?_⟩
      have hnext := (Cyclic.next_spec ht).2
      rw [Bool.and_eq_true] at hnext
      exact hnext.1

theorem applyPass_ready (h : Held sim) (seat : ℕ) : Ready (sim.applyPass seat) := by
  have hpassed : Held { sim with passed := Function.update sim.passed seat true } := h
  exact afterAction_ready hpassed seat

/-- A play leaves the copy ready. -/
theorem applyPlay_ready (h : Held sim) (seat : ℕ) (combo : Combo) : Ready (sim.applyPlay seat combo) := by
  have hother : ∀ s, s ≠ seat → (sim.putDown seat combo).hands s = sim.hands s := fun s hs => Function.update_of_ne hs ..
  unfold Sim.applyPlay
  simp only
  split
  · have hfin : Held ((sim.putDown seat combo).finishSeat seat) := by
      intro s hs
      have hne : s ≠ seat := by
        rintro rfl
        simp [Sim.finishSeat] at hs
      have hactive : sim.active s = true := by
        rw [← hs]
        exact (Function.update_of_ne hne ..).symm
      refine ⟨(h s hactive).1, ?_⟩
      rw [show ((sim.putDown seat combo).finishSeat seat).hands s = sim.hands s from hother s hne]
      exact (h s hactive).2
    split
    · exact endGame_ready hfin
    · exact afterAction_ready hfin seat
  · rename_i hleft
    refine afterAction_ready (fun s hs => ?_) seat
    refine ⟨(h s hs).1, ?_⟩
    by_cases hss : s = seat
    · rw [hss]
      exact hleft
    · rw [hother s hss]
      exact (h s hs).2

/-- **A step of a rollout** is made, and leaves the game ready for the next one. -/
theorem rolloutStep_ready (h : Held sim) (hne : sim.hands seat ≠ []) :
    ∃ sim', sim.rolloutStep seat = .ok sim' ∧ Ready sim' := by
  unfold Sim.rolloutStep
  by_cases hout : sim.goesOut seat = true
  · rw [if_pos hout]
    obtain ⟨c, hc⟩ : ∃ c, sim.hands seat = [c] := by
      unfold Sim.goesOut at hout
      split at hout
      · exact ⟨_, by assumption⟩
      · exact ⟨_, by assumption⟩
      · cases hout
    rw [hc]
    exact ⟨_, rfl, applyPlay_ready h seat _⟩
  rw [if_neg hout]
  by_cases hmate : sim.matesPile seat = true
  · rw [if_pos hmate]
    exact ⟨_, rfl, applyPass_ready h seat⟩
  rw [if_neg hmate]
  rcases rolloutPlay_answer hne with ⟨cards, he, hans⟩ | ⟨he, -⟩
  · obtain ⟨combo, hcombo, -⟩ := hans.combo
    refine ⟨sim.applyPlay seat combo, ?_, applyPlay_ready h seat combo⟩
    rw [he]
    simp only [bind, Except.bind, hcombo]
    rfl
  · exact ⟨_, by rw [he]; rfl, applyPass_ready h seat⟩

/-- A playout of a copy that is ready does not fail. -/
theorem playout_ready (me : ℕ) (mate : Option ℕ) (guard : ℕ) : ∀ {sim : Sim}, Ready sim →
    ∃ sim', sim.playout me mate guard = .ok sim' := by
  induction guard with
  | zero => exact fun _ => ⟨_, rfl⟩
  | succ guard ih =>
    intro sim h
    unfold Sim.playout
    split
    · exact ⟨_, rfl⟩
    · rename_i t ht
      split
      · exact ⟨_, rfl⟩
      · obtain ⟨sim', he, hready⟩ := rolloutStep_ready h.1 (h.1 t (h.2 t ht)).2
        rw [he]
        exact ih hready

theorem playoutScore_total (h : Ready sim) (me : ℕ) (mate : Option ℕ) : ∃ score, sim.playoutScore me mate = .ok score := by
  obtain ⟨sim', he⟩ := playout_ready me mate Sim.playoutGuard h
  unfold Sim.playoutScore
  rw [he]
  exact ⟨_, rfl⟩

/-- What `determinize` takes from the bag for a seat. -/
def share (view : BotView) (me seat : ℕ) : ℕ := if seat = me ∨ dealtTo view seat = false then 0 else countOf view seat

/-- The public state of the view is that of a game: the bot and everybody in the game sit at the
table and have cards left, and there are cards for all of them. -/
structure Public (view : BotView) (me n : ℕ) : Prop where
  seat : me < n
  active : ∀ active, view.active = some active → ∀ s, active.getD s false = true → s < n ∧ (s = me ∨ 0 < countOf view s)
  bag : ((List.range n).map (share view me)).sum ≤ (unseen view).length

/-- Every seat is dealt a hand. -/
theorem dealHands_length (bag : List Card) (seats : List ℕ) : ∀ i,
    (dealHands view me bag i seats).length = seats.length := by
  induction seats with
  | nil => exact fun _ => rfl
  | cons seat seats ih =>
    intro i
    unfold dealHands
    split
    · rw [List.length_cons, ih, List.length_cons]
    split
    · rw [List.length_cons, ih, List.length_cons]
    · rw [List.length_cons, ih, List.length_cons]

/-- As long as the bag lasts, every seat that is dealt cards gets some. -/
theorem dealHands_held {bag : List Card} (hhand : view.hand ≠ []) (seats : List ℕ) : ∀ i,
    i + (seats.map (share view me)).sum ≤ bag.length → ∀ j (hj : j < seats.length),
      (seats[j] = me ∨ dealtTo view seats[j] = true ∧ 0 < countOf view seats[j]) →
      (dealHands view me bag i seats).getD j [] ≠ [] := by
  induction seats with
  | nil => exact fun _ _ _ hj => absurd hj (Nat.not_lt_zero _)
  | cons seat seats ih =>
    intro i hsum j hj hseat
    rw [List.map_cons, List.sum_cons] at hsum
    have hlt : ∀ j, j + 1 < (seat :: seats).length → j < seats.length := fun j hj => Nat.lt_of_succ_lt_succ hj
    unfold dealHands
    by_cases hme : seat = me
    · have hshare : share view me seat = 0 := if_pos (Or.inl hme)
      rw [if_pos hme]
      cases j with
      | zero => exact hhand
      | succ j => exact ih i (by omega) j (hlt j hj) hseat
    rw [if_neg hme]
    by_cases hdealt : dealtTo view seat = true
    · have hshare : share view me seat = countOf view seat := if_neg (by simp [hme, hdealt])
      rw [if_neg (by simp [hdealt])]
      cases j with
      | zero =>
        have hpos : 0 < countOf view seat := by
          rcases hseat with he | he
          · exact absurd he hme
          · exact he.2
        intro hnil
        have hlen := congrArg List.length hnil
        rw [List.getD_cons_zero, List.length_take, List.length_drop, List.length_nil] at hlen
        omega
      | succ j => exact ih _ (by omega) j (hlt j hj) hseat
    · rw [Bool.not_eq_true] at hdealt
      have hshare : share view me seat = 0 := if_pos (Or.inr hdealt)
      rw [if_pos (by simp [hdealt])]
      cases j with
      | zero =>
        rcases hseat with he | he
        · exact absurd he hme
        · have hfalse : dealtTo view seat = true := he.1
          rw [hdealt] at hfalse
          cases hfalse
      | succ j => exact ih i (by omega) j (hlt j hj) hseat

/-- The sampled game can be played out. -/
theorem simOf_held (h : Public view me n) (hhand : view.hand ≠ []) {bag : List Card}
    (hbag : bag.length = (unseen view).length) :
    Held (simOf view me n (dealHands view me bag 0 (List.range n))) := by
  have hlen : (dealHands view me bag 0 (List.range n)).length = n :=
    (dealHands_length bag (List.range n) 0).trans List.length_range
  intro s hs
  simp only [simOf] at hs ⊢
  cases hactive : view.active with
  | none =>
    simp only [hactive, decide_eq_true_eq] at hs
    refine ⟨?_, hs⟩
    by_contra hge
    exact hs (List.getD_eq_default _ _ (by omega))
  | some active =>
    simp only [hactive] at hs
    obtain ⟨hlt, hcards⟩ := h.active active hactive s hs
    refine ⟨hlt, dealHands_held hhand (List.range n) 0 ?_ s (by rw [List.length_range]; exact hlt) ?_⟩
    · have := h.bag
      omega
    · rw [List.getElem_range]
      refine hcards.imp_right fun hpos => ⟨?_, hpos⟩
      rw [List.getD_eq_getElem?_getD] at hs
      unfold dealtTo
      rw [hactive, Option.bind_some]
      cases hget : active[s]? with
      | none => rfl
      | some b =>
        rw [hget] at hs
        exact hs

theorem draws_total (hrng : Total UnitValue rng) (k : ℕ) : Total (fun _ => True) (draws rng k) := by
  induction k with
  | zero => exact .pure trivial
  | succ k ih => exact hrng.bind fun _ _ => ih.bind fun _ _ => .pure trivial

/-- A view can be filled in. -/
theorem determinize_total (h : Public view me n) (hhand : view.hand ≠ []) (hrng : Total UnitValue rng) :
    Total (fun sim => Held sim ∧ sim.n = n) (determinize view me n rng) := by
  unfold determinize
  rw [shuffle_draws]
  have hbag : Total (fun bag : List Card => bag.length = (unseen view).length)
      ((fun rs => shuffleWith rs (unseen view)) <$> draws rng ((unseen view).length - 1)) :=
    (draws_total hrng _).map fun rs _ => (shuffleWith_perm rs _).length_eq
  exact hbag.bind fun bag hlen => .pure ⟨simOf_held h hhand hlen, rfl⟩

/-- A candidate can be scored. -/
theorem totalScore_total (h : Public view me n) (hhand : view.hand ≠ []) (hrng : Total UnitValue rng) (cand : Cand)
    (sims : ℕ) : Total (fun _ => True) (totalScore view me n rng cand sims) := by
  induction sims with
  | zero => exact .pure trivial
  | succ sims ih =>
    refine (determinize_total h hhand hrng).bind fun sim hsim => ?_
    have hscore : ∃ score, (tryCand sim me cand >>= fun sim => sim.playoutScore me view.partnerSeat) = .ok score := by
      cases cand with
      | none => exact playoutScore_total (applyPass_ready hsim.1 me) me _
      | some combo =>
        have hseat : me < sim.n := hsim.2 ▸ h.seat
        obtain ⟨score, he⟩ := playoutScore_total (applyPlay_ready hsim.1 me combo) me view.partnerSeat
        refine ⟨score, ?_⟩
        rw [tryCand, if_pos hseat]
        exact he
    obtain ⟨score, he⟩ := hscore
    have hlift : Total (fun _ => True) (liftM (tryCand sim me cand >>= fun sim => sim.playoutScore me view.partnerSeat) :
        StateT σ (Except String) ℕ) := .lift ⟨score, he, trivial⟩
    exact hlift.bind fun _ _ => ih.bind fun _ _ => .pure trivial

theorem searchLoop_total (h : Public view me n) (hhand : view.hand ≠ []) (hrng : Total UnitValue rng) (sims : ℕ)
    (cands : List Cand) : ∀ best : Option (Cand × ℚ),
      Total (fun _ => True) (searchLoop view me n rng sims cands best) := by
  induction cands with
  | nil => exact fun _ => .pure trivial
  | cons cand cands ih => exact fun _ => (totalScore_total h hhand hrng cand sims).bind fun _ _ => ih _

/-- The search returns when the public state of the view, as far as there is one, is that of a game. -/
theorem chooseBestMove_total (hpublic : ∀ me n, view.mySeat = some me → view.numPlayers = some n → Public view me n)
    (hhand : view.hand ≠ []) (hrng : Total UnitValue rng) (opts : Budget) :
    Total (fun _ => True) (chooseBestMove view rng opts) := by
  unfold chooseBestMove
  split
  · rename_i me n hme hn
    unfold searchPlays
    split
    · exact .pure trivial
    split
    · exact .pure trivial
    · unfold search
      split
      · exact .pure trivial
      · exact searchLoop_total (hpublic me n hme hn) hhand hrng _ _ none
  · exact .pure trivial

/-- **There is a decision.** The easy tier needs no public state and no rng. -/
theorem decideBotMove_total {tier : BotTier} (hhand : view.hand ≠ [])
    (h : tier ≠ .easy → (∀ me n, view.mySeat = some me → view.numPlayers = some n → Public view me n) ∧ Total UnitValue rng) :
    Total (fun _ => True) (decideBotMove view tier rng) := by
  have hsearch : tier ≠ .easy → ∀ opts, Total (fun _ => True) (chooseBestMove view rng opts) :=
    fun ht opts => chooseBestMove_total (h ht).1 hhand (h ht).2 opts
  unfold decideBotMove decideAmong
  split
  · exact .pure trivial
  rename_i hne
  split
  · exact .pure trivial
  split
  · exact .pure trivial
  unfold soloMove
  split
  · obtain ⟨move, he, -⟩ : ∃ move, efficientHeuristic view _ _ = .ok move ∧ _ := efficientHeuristic_chosen hne
    exact .lift ⟨move, he, trivial⟩
  · rename_i ht
    refine (hsearch ht _).bind fun r _ => ?_
    split
    · exact .pure trivial
    · obtain ⟨move, he, -⟩ : ∃ move, endgameHeuristic view _ _ = .ok move ∧ _ := endgameHeuristic_chosen hne
      exact .lift ⟨move, he, trivial⟩

/-! ## The law -/

/-- A view as the gateway builds it: the bot may pass exactly if there is a pile, and the card of the
opening is in the hand of the seat that leads. -/
structure Proper (view : BotView) : Prop where
  hand : view.hand ≠ []
  nodup : view.hand.Nodup
  pile : ∀ p, view.pile = some p → p.Identified
  canPass : view.canPass = true ↔ view.pile ≠ none
  opening : ∀ c, view.mustInclude = some c → c ∈ view.hand ∧ view.pile = none

/-- What the game accepts of a bot. -/
def Legal (view : BotView) : BotMove → Prop
  | .play cards => cards.Nodup ∧ cards ⊆ view.hand ∧ (validatePlay cards view.pile).ok = true ∧
      ∀ c, view.mustInclude = some c → c ∈ cards
  | .pass => view.pile ≠ none

/-- Somebody who leads has a play. -/
theorem lead_found (h : Proper view) (hpile : view.pile = none) :
    enumerateLegalPlays view.hand view.pile view.mustInclude ≠ [] := by
  obtain ⟨c, hc, hincl⟩ : ∃ c ∈ view.hand, ∀ m, view.mustInclude = some m → m = c := by
    cases hm : view.mustInclude with
    | none =>
      obtain ⟨c, hc⟩ := List.exists_mem_of_ne_nil _ h.hand
      exact ⟨c, hc, fun m hm' => nomatch hm'⟩
    | some m => exact ⟨m, (h.opening m hm).1, fun m' hm' => (Option.some.inj hm').symm⟩
  have hfit : Fits view.pile [c] := ⟨_, rfl, fun p hp => by rw [hpile] at hp; cases hp⟩
  obtain ⟨combo, hin, -⟩ := enumerate_found h.nodup (single_raw hc) hfit fun m hm =>
    List.mem_singleton.2 (hincl m hm)
  exact List.ne_nil_of_mem hin

/-- **Every decision is legal.** -/
theorem decideBotMove_legal (h : Proper view) (tier : BotTier) : Yields (Legal view) (decideBotMove view tier rng) := by
  intro s move s' hrun
  rcases decideBotMove_chosen tier s move s' hrun with hchosen | ⟨hnone, rfl⟩
  · cases move with
    | play cards =>
      obtain ⟨c, hc, rfl⟩ := hchosen
      obtain ⟨hdistinct, hsub, -, hok, hincl⟩ := enumerate_sound h.nodup hc
      exact ⟨hdistinct, hsub, by rw [hok], hincl⟩
    | pass =>
      have hpass : (view.canPass && decide (view.pile ≠ none)) = true := hchosen
      rw [Bool.and_eq_true, decide_eq_true_eq] at hpass
      exact hpass.2
  · exact fun hpile => lead_found h hpile hnone

/-- **The bot makes only legal moves, and lacks one only if there is none.** -/
theorem bot_moves_legal :
    (∀ (hand : List Card) (pile : Option Combo) (mustInclude : Option Card), hand.Nodup →
      (∀ p, pile = some p → p.Identified) → ∀ combo ∈ enumerateLegalPlays hand pile mustInclude,
        combo.cards.Nodup ∧ combo.cards ⊆ hand ∧ combo.cards ≠ [] ∧
        validatePlay combo.cards pile = { ok := true, combo := some combo } ∧
        ∀ card, mustInclude = some card → card ∈ combo.cards) ∧
    (∀ (hand : List Card) (pile : Option Combo), hand.Nodup → (∀ p, pile = some p → p.Identified) →
      (enumerateLegalPlays hand pile none = [] ↔
        ∀ cards, cards ≠ [] → cards.Nodup → cards ⊆ hand → (validatePlay cards pile).ok = false)) ∧
    (∀ (view : BotView) (tier : BotTier) (σ : Type) (rng : StateT σ (Except String) ℚ), Proper view →
      ∀ s move s', (decideBotMove view tier rng).run s = .ok (move, s') → Legal view move) ∧
    (∀ (view : BotView) (tier : BotTier) (σ : Type) (rng : StateT σ (Except String) ℚ), Proper view →
      (tier ≠ .easy → (∀ me n, view.mySeat = some me → view.numPlayers = some n → Public view me n) ∧
        Total UnitValue rng) →
      ∀ s, ∃ move s', (decideBotMove view tier rng).run s = .ok (move, s')) := by
  refine ⟨fun hand pile mustInclude hnd _ combo h => enumerate_sound hnd h, ?_,
    fun view tier σ rng h => decideBotMove_legal h tier, ?_⟩
  · intro hand pile hnd hpile
    refine (enumerate_empty hnd hpile).trans ⟨fun h cards _ hcards hsub => ?_, fun h cards hcards hsub hfit => ?_⟩
    · rw [Bool.eq_false_iff, Ne, validatePlay_fits]
      exact h cards hcards hsub
    · have hne : cards ≠ [] := by
        rintro rfl
        obtain ⟨combo, hc, -⟩ := hfit
        cases hc
      rw [← validatePlay_fits, h cards hne hcards hsub] at hfit
      cases hfit
  · intro view tier σ rng h hreturns s
    obtain ⟨move, s', hrun, -⟩ := decideBotMove_total h.hand hreturns s
    exact ⟨move, s', hrun⟩

/-- The opening lead: the 3 of spades has to be played, and the only other card is a King. -/
example : Proper
    { hand := [.standard .r3 .S, .standard .K .H], pile := none, canPass := false,
      mustInclude := some (.standard .r3 .S) } :=
  ⟨by decide, by decide, fun _ h => (nomatch h), by decide, fun c h => by cases h; decide⟩

/-- Three at the table: a single 5 lies on the pile, the bot holds a pair of 7s and a King, and the
others have two and four cards left. -/
def trickView : BotView where
  hand := [.standard .r7 .S, .standard .r7 .H, .standard .K .D]
  pile := identifyCombo [.standard .r5 .C]
  canPass := true
  opponentCounts := [2, 4]
  seen := some [.standard .r5 .C, .standard .r4 .C, .standard .A .S]
  mySeat := some 0
  numPlayers := some 3
  pileOwner := some 2
  passed := some []
  active := some [true, true, true]
  handCounts := some [3, 2, 4]
  finishingOrder := some []

/-- A generator that always draws one half. -/
def evenDraw : StateT Unit (Except String) ℚ := pure (1 / 2)

theorem trickView_proper : Proper trickView where
  hand := by decide
  nodup := by decide
  pile p hp := ⟨[.standard .r5 .C], hp⟩
  canPass := by decide
  opening c hc := by cases hc

/-- A view of a trick under way is a public one. -/
theorem trickView_public : Public trickView 0 3 where
  seat := by decide
  active active hactive s hs := by
    obtain rfl := Option.some.inj hactive
    have hlt : s < 3 := by
      by_contra hge
      rw [List.getD_eq_default _ _ (by simpa using hge)] at hs
      cases hs
    have hcards : ∀ s < 3, s = 0 ∨ 0 < countOf trickView s := by decide
    exact ⟨hlt, hcards s hlt⟩
  bag := by decide +kernel

/-- The bot that searches comes to a legal move at that table. -/
theorem bot_moves_legal_trick : ∃ move s',
    (decideBotMove trickView .hard evenDraw).run () = .ok (move, s') ∧ Legal trickView move := by
  have hrng : Total UnitValue evenDraw := .pure (by unfold UnitValue; decide +kernel)
  have hpublic : ∀ me n, trickView.mySeat = some me → trickView.numPlayers = some n → Public trickView me n := by
    intro me n hme hn
    obtain rfl := Option.some.inj hme
    obtain rfl := Option.some.inj hn
    exact trickView_public
  obtain ⟨move, s', hrun⟩ := bot_moves_legal.2.2.2 trickView .hard Unit evenDraw trickView_proper
    (fun _ => ⟨hpublic, hrng⟩) ()
  exact ⟨move, s', hrun, bot_moves_legal.2.2.1 trickView .hard Unit evenDraw trickView_proper () move s' hrun⟩

end Murlan.Bot
