import Mathlib.Data.List.Chain
import Mathlib.Logic.Relation
import Murlan.Proof.Cards
import Murlan.Proof.Combos

/-!
# Every trick climbs

`beats` is neither transitive nor total, but each play stands higher than the one it beats:
groups and kolors by their key, bombs above all of them, flushes above the bombs. Heights are
below `heights`, so

* `beats_height`, `climbing_length`: a chain of plays never returns, and has at most `heights`
  plays.
* `trick_climbs`: the plays of the trick on the table are such a chain in every state of a game.
-/

namespace Murlan

/-- The combination is one that `identifyCombo` returns. -/
def Combo.Identified (c : Combo) : Prop := ∃ cards, identifyCombo cards = some c

/-- The height of a combination in a trick. -/
def Combo.height (c : Combo) : ℕ :=
  match c.type with
  | .flush => 28 + c.topSeq.getD 0
  | .bomb => 15 + c.power.getD 0
  | .kolor => c.topSeq.getD 0
  | _ => c.power.getD 0

/-- One more than the height of a flush up to the Ace. -/
def heights : ℕ := 43

theorem rank_power_le (r : Rank) : r.power ≤ 12 := by cases r <;> decide

theorem singlePower_le (c : Card) : singlePower c ≤ 14 := by
  cases c with
  | joker j => cases j <;> decide
  | standard r s =>
    have := rank_power_le r
    simp only [singlePower]
    omega

/-- No run reads higher than the ace. -/
theorem readsAs_le {cards : List Card} {top : ℕ} (hne : cards ≠ []) (h : ReadsAs cards top) : top ≤ 14 := by
  obtain ⟨hstd, as, low, has, hf⟩ := readsAs_iff.1 h
  obtain ⟨v, hv⟩ := List.exists_mem_of_ne_nil _ (runVals_ne hstd hne has)
  have hlow := (hf.2 v).1 hv
  rcases List.mem_append.1 ((hf.2 top).2 (by omega)) with ht | ht
  · have := fixedVals_range ht
    omega
  · rcases has.2 top ht with rfl | rfl
    all_goals omega

/-- What the comparison of two combinations reads. -/
inductive Combo.Keyed (c : Combo) : Prop
  | lower (p : ℕ) (htype : c.type = .single ∨ c.type = .pair ∨ c.type = .triple) (hkey : c.power = some p) (hp : p ≤ 14)
  | bomb (p : ℕ) (htype : c.type = .bomb) (hkey : c.power = some p) (hp : p ≤ 12)
  | run (t : ℕ) (htype : c.type = .kolor ∨ c.type = .flush) (hkey : c.topSeq = some t) (ht : t ≤ 14)

section

variable {a b c : Combo}

/-- A combination that was read has its key. -/
theorem Combo.Identified.keyed (h : c.Identified) : c.Keyed := by
  obtain ⟨cards, h⟩ := h
  rcases identifyCombo_cases h with ⟨d, rfl, rfl⟩ | ⟨t, r, ht, hr, rfl⟩ | ⟨h5, top, htop, rfl⟩
  · exact .lower _ (Or.inl rfl) rfl (singlePower_le d)
  · have hpow := rank_power_le r
    rcases groupType_some ht with ⟨-, rfl⟩ | ⟨-, rfl⟩ | ⟨-, rfl⟩
    · exact .lower _ (Or.inr (Or.inl rfl)) rfl (by omega)
    · exact .lower _ (Or.inr (Or.inr rfl)) rfl (by omega)
    · exact .bomb _ rfl rfl hpow
  · have hne : cards ≠ [] := by
      rintro rfl
      simp at h5
    refine .run top ?_ rfl (readsAs_le hne (straightTop_reads htop).2)
    unfold runOf
    split
    · exact Or.inr rfl
    · exact Or.inl rfl

theorem Combo.Identified.height_lt (h : c.Identified) : c.height < heights := by
  unfold Combo.height heights
  rcases h.keyed with ⟨p, ht | ht | ht, hkey, hp⟩ | ⟨p, ht, hkey, hp⟩ | ⟨t, ht | ht, hkey, hp⟩
  all_goals
    simp only [ht, hkey, Option.getD_some]
    omega

/-- **A play stands higher** than the one it beats. -/
theorem beats_height (ha : a.Identified) (hb : b.Identified) (h : beats b a = true) : a.height < b.height := by
  unfold beats at h
  unfold Combo.height
  rcases hb.keyed with ⟨p, ht, hkey, hp⟩ | ⟨p, ht, hkey, hp⟩ | ⟨t, ht | ht, hkey, hp⟩
  · -- a single, a pair or a triple beats its own kind, by its power
    rcases ht with ht | ht | ht
    all_goals
      simp only [ht, hkey, reduceCtorEq, if_false, ne_eq, ite_not] at h
      split at h
      · rename_i htype
        cases hpow : a.power with
        | none => simp [hpow, keyGt] at h
        | some q =>
          simp only [hpow, keyGt, decide_eq_true_eq] at h
          simp only [ht, hkey, ← htype, Option.getD_some]
          exact h
      · cases h
  · -- a bomb beats whatever stands below the bombs, and lower bombs
    rcases ha.keyed with ⟨q, hat | hat | hat, hakey, hq⟩ | ⟨q, hat, hakey, hq⟩ | ⟨q, hat | hat, hakey, hq⟩
    all_goals simp [ht, hat, hkey, hakey, keyGt] at h ⊢
    all_goals omega
  · -- a kolor beats the kolor one below it
    rcases ha.keyed with ⟨q, hat | hat | hat, hakey, hq⟩ | ⟨q, hat, hakey, hq⟩ | ⟨q, hat | hat, hakey, hq⟩
    all_goals simp [ht, hat, hkey, hakey] at h ⊢
    omega
  · -- a flush beats every other type, and lower flushes of its length
    rcases ha.keyed with ⟨q, hat | hat | hat, hakey, hq⟩ | ⟨q, hat, hakey, hq⟩ | ⟨q, hat | hat, hakey, hq⟩
    all_goals simp [ht, hat, hkey, hakey, keyGt] at h ⊢
    all_goals omega

/-- Plays on a pile, the last one first: each is a combination that beats the one before it. -/
def Climbing (plays : List Combo) : Prop :=
  (∀ c ∈ plays, c.Identified) ∧ plays.IsChain fun b a => beats b a = true

theorem Climbing.nil : Climbing [] := ⟨by simp, .nil⟩

theorem Climbing.cons {plays : List Combo} (h : Climbing plays) (hc : c.Identified)
    (hbeats : ∀ cur, plays.head? = some cur → beats c cur = true) : Climbing (c :: plays) := by
  refine ⟨List.forall_mem_cons.2 ⟨hc, h.1⟩, ?_⟩
  rw [List.isChain_cons]
  exact ⟨hbeats, h.2⟩

theorem Climbing.heights {plays : List Combo} (h : Climbing plays) :
    (plays.map Combo.height).Pairwise (· > ·) := by
  obtain ⟨hid, hchain⟩ := h
  rw [← List.isChain_iff_pairwise, List.isChain_map]
  refine List.IsChain.imp_of_mem_imp (fun b a hb ha hbeats => ?_) hchain
  exact beats_height (hid a ha) (hid b hb) hbeats

/-- **A chain of plays is bounded**, whatever the cards. -/
theorem Climbing.length_le {plays : List Combo} (h : Climbing plays) : plays.length ≤ Murlan.heights := by
  have hnd : (plays.map Combo.height).Nodup := h.heights.imp fun hgt => Nat.ne_of_gt hgt
  have hsub : plays.map Combo.height ⊆ List.range Murlan.heights := by
    intro n hn
    obtain ⟨c, hc, rfl⟩ := List.mem_map.1 hn
    exact List.mem_range.2 (h.1 c hc).height_lt
  have := hnd.subperm hsub |>.length_le
  simpa using this

/-- `b` may be played on `a`. -/
def Answered (a b : Combo) : Prop := a.Identified ∧ b.Identified ∧ beats b a = true

theorem answered_height (h : Relation.TransGen Answered a b) : a.height < b.height := by
  induction h with
  | single h => exact beats_height h.1 h.2.1 h.2.2
  | tail _ h ih => exact lt_trans ih (beats_height h.1 h.2.1 h.2.2)

/-- No combination beats one that beat it, directly or through others. -/
theorem not_beats_back (h : Relation.TransGen Answered a b) : beats a b = false := by
  have hlt := answered_height h
  obtain ⟨d, hd, -⟩ := Relation.TransGen.head'_iff.1 h
  obtain ⟨e, -, he⟩ := Relation.TransGen.tail'_iff.1 h
  rw [Bool.eq_false_iff]
  intro hb
  have := beats_height he.2.1 hd.1 hb
  omega

end

/-! ## The trick on the table -/

/-- The plays of the trick on the table after some events, the last one first. -/
def trickPlays : List Combo → List GameEvent → List Combo
  | plays, [] => plays
  | plays, .played _ combo :: evs => trickPlays (combo :: plays) evs
  | _, .trickWon _ _ :: evs => trickPlays [] evs
  | plays, .passed _ :: evs => trickPlays plays evs
  | plays, .playerFinished _ _ :: evs => trickPlays plays evs
  | plays, .gameEnded _ :: evs => trickPlays plays evs

theorem trickPlays_append (evs evs' : List GameEvent) : ∀ plays,
    trickPlays plays (evs ++ evs') = trickPlays (trickPlays plays evs) evs' := by
  induction evs with
  | nil => exact fun _ => rfl
  | cons e evs ih =>
    intro plays
    cases e <;> exact ih _

namespace SingleGame

variable {g : SingleGame} {seat : ℕ} {cards : List Card} {combo : Combo} {plays : List Combo}

/-- While the game goes on, the pile is the last play of the trick. -/
def OnTable (plays : List Combo) (g : SingleGame) : Prop := g.status = .playing → g.pile = plays.head?

/-- Nothing is played, and the trick is kept or cleared together with the pile. -/
def Keeps (plays : List Combo) (r : List GameEvent × SingleGame) : Prop :=
  (trickPlays plays r.1 = plays ∨ trickPlays plays r.1 = []) ∧ OnTable (trickPlays plays r.1) r.2

theorem Keeps.quiet (h : OnTable plays g) : Keeps plays ([], g) := ⟨Or.inl rfl, h⟩

theorem OnTable.of_finished (h : g.status = .finished) : OnTable plays g := by
  intro hp
  rw [h] at hp
  cases hp

theorem endGame_keeps (g : SingleGame) (plays : List Combo) : Keeps plays g.endGame := by
  have hover := endGame_finished g
  refine ⟨Or.inl ?_, .of_finished hover⟩
  unfold endGame
  split
  · rfl
  · rfl

/-- A trick that is over keeps the order of its plays. -/
theorem resolveTrick_keeps (g : SingleGame) (plays : List Combo) : Keeps plays g.resolveTrick := by
  unfold resolveTrick
  simp only
  split
  · obtain ⟨hplays, -⟩ := endGame_keeps
      { g with pile := none, pileOwner := none, passed := [], turn := g.trickLeader } []
    refine ⟨Or.inr ?_, .of_finished (endGame_finished _)⟩
    rcases hplays with h | h
    · exact h
    · exact h
  · exact ⟨Or.inr rfl, fun _ => rfl⟩

theorem afterAction_keeps (h : OnTable plays g) (seat : ℕ) : Keeps plays (g.afterAction seat) := by
  unfold afterAction
  split
  · exact resolveTrick_keeps g plays
  · exact .quiet h

/-- So does the turn that passes on. -/
theorem passOnTurn_keeps (h : OnTable plays g) (seat : ℕ) : Keeps plays (g.passOnTurn seat) := by
  unfold passOnTurn
  split
  · simp only
    split
    · exact endGame_keeps _ plays
    · exact .quiet h
  · split
    · exact resolveTrick_keeps g plays
    · exact .quiet h

/-- Two steps in a row keep it. -/
theorem Keeps.append {r r' : List GameEvent × SingleGame} (h : Keeps plays r) (h' : ∀ plays, Keeps plays r') :
    Keeps plays (r.1 ++ r'.1, r'.2) := by
  obtain ⟨hplays, hon⟩ := h' (trickPlays plays r.1)
  refine ⟨?_, by rw [trickPlays_append]; exact hon⟩
  rw [trickPlays_append]
  rcases hplays with hp | hp
  · rw [hp]
    exact h.1
  · exact Or.inr hp

/-- So does a seat that leaves. -/
theorem forfeitSeat_keeps (h : OnTable plays g) (seat : ℕ) : Keeps plays (g.forfeitSeat seat) := by
  have hend : ∀ r : List GameEvent × SingleGame, Keeps plays r →
      Keeps plays (if !r.2.isOver && r.2.activeCount ≤ 1 then (r.1 ++ r.2.endGame.1, r.2.endGame.2) else r) := by
    intro r hr
    split
    · exact hr.append (endGame_keeps r.2)
    · exact hr
  unfold forfeitSeat
  split
  · exact .quiet h
  split
  · exact .quiet h
  split
  · exact .quiet h
  simp only
  split
  · exact .quiet h
  · refine hend _ ?_
    split
    · exact passOnTurn_keeps (g := g.deactivate seat) h seat
    · exact .quiet (g := g.deactivate seat) h

/-- So does a pass. -/
theorem pass_keeps (h : OnTable plays g) (seat : ℕ) : Keeps plays ((g.pass seat).1.events, (g.pass seat).2) := by
  unfold pass
  split
  · exact .quiet h
  split
  · exact .quiet h
  split
  · exact .quiet h
  · obtain ⟨hplays, hon⟩ := afterAction_keeps (g := { g with passed := addSeat g.passed seat }) h seat
    exact ⟨hplays, hon⟩

/-- A committed play is the next one of the trick. -/
theorem commitPlay_keeps (g : SingleGame) (plays : List Combo) (seat : ℕ) (cards : List Card) (combo : Combo) :
    ∃ plays', (plays' = combo :: plays ∨ plays' = []) ∧ trickPlays plays (g.commitPlay seat cards combo).1 = plays' ∧
      OnTable plays' (g.commitPlay seat cards combo).2 := by
  have hput : OnTable (combo :: plays) (g.putDown seat cards combo) := fun _ => rfl
  have keep : ∀ r, Keeps (combo :: plays) r →
      ∃ plays', (plays' = combo :: plays ∨ plays' = []) ∧ trickPlays (combo :: plays) r.1 = plays' ∧ OnTable plays' r.2 :=
    fun r hr => ⟨_, hr.1, rfl, hr.2⟩
  unfold commitPlay
  simp only
  split
  · have hr : Keeps (combo :: plays) (if ((g.putDown seat cards combo).finishSeat seat).activeCount ≤ 1 then
        ((g.putDown seat cards combo).finishSeat seat).endGame
        else ((g.putDown seat cards combo).finishSeat seat).afterAction seat) := by
      split
      · exact endGame_keeps _ _
      · exact afterAction_keeps (g := (g.putDown seat cards combo).finishSeat seat) hput seat
    exact keep _ hr
  · exact keep _ (afterAction_keeps hput seat)

/-- An accepted play beats the pile. -/
theorem play_beats (hok : (g.play seat cards).1.ok = true) (hc : identifyCombo cards = some combo) :
    ∀ cur, g.pile = some cur → beats combo cur = true := by
  intro cur hpile
  unfold play at hok
  split at hok
  · cases hok
  split at hok
  · cases hok
  split at hok
  · cases hok
  split at hok
  · cases hok
  split at hok
  · cases hok
  by_contra hno
  rw [Bool.not_eq_true] at hno
  simp [validatePlay, hc, hpile, hno, ActionResult.fail] at hok

/-- The plays of the trick climb, and the last of them lies on the table. -/
def TrickClimbs (plays : List Combo) (g : SingleGame) : Prop := Climbing plays ∧ OnTable plays g

/-- The plays of a trick climb. -/
theorem Keeps.climbs {r : List GameEvent × SingleGame} (h : Climbing plays) (hk : Keeps plays r) :
    TrickClimbs (trickPlays plays r.1) r.2 := by
  refine ⟨?_, hk.2⟩
  rcases hk.1 with hp | hp
  · rw [hp]
    exact h
  · rw [hp]
    exact .nil

/-- One call keeps the trick climbing. -/
theorem step_climbs (h : TrickClimbs plays g) (c : Call) : TrickClimbs (trickPlays plays (g.eventsOf c)) (g.step c) := by
  obtain ⟨hclimb, hon⟩ := h
  cases c with
  | play s cards =>
    rcases play_cases g s cards with ⟨-, hev, he⟩ | ⟨combo, hp, -, -, -, -, hc, he⟩
    · rw [eventsOf, step, hev, he]
      exact ⟨hclimb, hon⟩
    · have hok : (g.play s cards).1.ok = true := by rw [he]; rfl
      have hnext : Climbing (combo :: plays) :=
        hclimb.cons ⟨cards, hc⟩ fun cur hcur => play_beats hok hc cur (by rw [hon hp, hcur])
      obtain ⟨plays', hplays, htrick, hon'⟩ := commitPlay_keeps g plays s cards combo
      rw [eventsOf, step, he]
      refine ⟨?_, ?_⟩
      · rw [show trickPlays plays (ActionResult.accept (g.commitPlay s cards combo).1).events = plays' from htrick]
        rcases hplays with rfl | rfl
        · exact hnext
        · exact .nil
      · rw [show trickPlays plays (ActionResult.accept (g.commitPlay s cards combo).1).events = plays' from htrick]
        exact hon'
  | pass s => exact (pass_keeps hon s).climbs hclimb
  | forfeitSeat s => exact (forfeitSeat_keeps hon s).climbs hclimb

/-- **In every state of a run** the plays of the trick on the table climb. -/
theorem run_climbs (cs : List Call) : ∀ {g : SingleGame} {plays : List Combo}, TrickClimbs plays g →
    TrickClimbs (trickPlays plays (g.history cs)) (run step g cs) := by
  induction cs with
  | nil => exact fun h => h
  | cons c cs ih =>
    intro g plays h
    rw [history, trickPlays_append, run_cons]
    exact ih (step_climbs h c)

end SingleGame

/-- **Every trick is a strictly climbing, bounded chain.** -/
theorem trick_climbs :
    (∀ c : Combo, c.Identified → c.height < heights) ∧
    (∀ a b : Combo, a.Identified → b.Identified → beats b a = true → a.height < b.height) ∧
    (∀ a : Combo, a.Identified → beats a a = false) ∧
    (∀ a, ¬ Relation.TransGen Answered a a) ∧
    (∀ a b, Relation.TransGen Answered a b → beats a b = false) ∧
    (∀ plays, Climbing plays → plays.length ≤ heights) ∧
    ∀ o g cs, SingleGame.create o = .ok g →
      Climbing (trickPlays [] (g.history cs)) ∧ (trickPlays [] (g.history cs)).length ≤ heights := by
  refine ⟨fun c h => h.height_lt, fun a b ha hb h => beats_height ha hb h, ?_, ?_, fun a b h => not_beats_back h,
    fun plays h => h.length_le, ?_⟩
  · intro a ha
    rw [Bool.eq_false_iff]
    intro h
    exact absurd (beats_height ha ha h) (lt_irrefl _)
  · intro a h
    exact absurd (answered_height h) (lt_irrefl _)
  · intro o g cs hg
    have hstart : SingleGame.TrickClimbs [] g := by
      refine ⟨.nil, fun _ => ?_⟩
      unfold SingleGame.create at hg
      split at hg
      · cases hg
      split at hg
      · cases hg
      split at hg
      · cases hg
        rfl
      · cases hg
        rfl
    obtain ⟨hclimb, -⟩ := SingleGame.run_climbs cs hstart
    exact ⟨hclimb, hclimb.length_le⟩

end Murlan
