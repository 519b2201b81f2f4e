import Murlan.Proof.Game

/-!
# Turns and tricks

* `TrickOK`: where the turn stands between the owner of the pile and those who have
  passed, in a game between calls; `step_trick` keeps it.
* `trickWon_iff`: a call resolves the trick exactly when it is the turn's pass, or its
  forfeit, and everyone else has passed.
* `step_answered`: who has passed, or is out, is not asked again about the same pile.
* `turn_invariant`: all of it, in every state of a run.
-/

namespace Murlan

namespace SingleGame

variable {g g' : SingleGame} {seat w t : ℕ} {cards : List Card} {combo : Combo}

/-- A seat that may still answer the pile. -/
def eligible (g : SingleGame) (s : ℕ) : Bool := g.active s && s ∉ g.passed

theorem eligible_iff : g.eligible seat = true ↔ g.active seat = true ∧ seat ∉ g.passed := by
  unfold eligible
  rw [Bool.and_eq_true, decide_eq_true_eq]

/-- **Where the turn stands**, in a game that is being played. -/
structure TrickOK (g : SingleGame) : Prop where
  pile : g.pile = none ↔ g.pileOwner = none
  clear : g.pile = none → g.passed = []
  passers : ∀ s ∈ g.passed, g.active s = true
  turn : ∃ t, g.turn = some t ∧ g.eligible t = true
  answers : ∀ w, g.pileOwner = some w → w < g.numPlayers ∧
    ∀ t, g.turn = some t → t ≠ w ∧ Cyclic.Reaches g.numPlayers g.eligible w t

/-! ## The methods that move the turn -/

theorem mem_contenders {s : ℕ} : s ∈ g.contendersExcludingOwner ↔
    s < g.numPlayers ∧ some s ≠ g.pileOwner ∧ g.eligible s = true := by
  unfold contendersExcludingOwner eligible
  rw [List.mem_filter, List.mem_range]
  simp

/-- The turn goes on from the owner of the pile, or from a seat that has answered. -/
theorem nextEligible_reaches (hw : g.pileOwner = some w) (hlt : w < g.numPlayers)
    (hne : g.contendersExcludingOwner ≠ [])
    (hat : seat = w ∨ Cyclic.Reaches g.numPlayers g.eligible w seat ∧ g.eligible seat = false) :
    ∃ t, g.nextEligible seat = some t ∧ g.eligible t = true ∧ t ≠ w ∧
      Cyclic.Reaches g.numPlayers g.eligible w t := by
  obtain ⟨s, hs⟩ := List.exists_mem_of_ne_nil _ hne
  obtain ⟨hslt, hsw, hse⟩ := mem_contenders.1 hs
  have hsw : s ≠ w := by
    rintro rfl
    exact hsw hw.symm
  obtain ⟨t, ht⟩ : ∃ t, Cyclic.next g.numPlayers g.eligible seat = some t := Cyclic.next_isSome hslt hse
  have hreach : Cyclic.Reaches g.numPlayers g.eligible w t := by
    rcases hat with rfl | ⟨hr, hno⟩
    · exact Cyclic.next_reaches ht
    · exact hr.next hno ht
  exact ⟨t, ht, (Cyclic.next_spec ht).2, hreach.ne_self hlt hslt hse hsw, hreach⟩

/-- A new trick: nobody has passed, and its leader is on turn. -/
theorem TrickOK.of_fresh (hpile : g.pile = none) (howner : g.pileOwner = none) (hpassed : g.passed = [])
    (hturn : ∃ t, g.turn = some t ∧ g.active t = true) : TrickOK g := by
  obtain ⟨t, ht, ha⟩ := hturn
  refine ⟨by simp [hpile, howner], fun _ => hpassed, ?_, ⟨t, ht, ?_⟩, ?_⟩
  · rw [hpassed]
    simp
  · rw [eligible_iff, hpassed]
    exact ⟨ha, List.not_mem_nil⟩
  · intro w hw
    rw [howner] at hw
    cases hw

/-- A new trick is in order. -/
theorem resolveTrick_trick (hp : g.resolveTrick.2.status = .playing) : TrickOK g.resolveTrick.2 := by
  unfold resolveTrick at hp ⊢
  simp only at hp ⊢
  split at hp
  · rw [endGame_finished] at hp
    cases hp
  · rename_i hno
    rw [if_neg hno]
    push Not at hno
    obtain ⟨t, ht⟩ := Option.ne_none_iff_exists'.1 hno.1
    have hlead : g.trickLeader = some t := ht
    have ha : g.active t = true := trickLeader_active hlead
    exact .of_fresh rfl rfl rfl ⟨t, hlead, ha⟩

/-- The pile stays, and the next seat that may answer it is on turn. -/
theorem TrickOK.of_next (hpile : g.pile ≠ none) (hw : g.pileOwner = some w) (hlt : w < g.numPlayers)
    (hpassers : ∀ s ∈ g.passed, g.active s = true) (hne : g.contendersExcludingOwner ≠ [])
    (hat : seat = w ∨ Cyclic.Reaches g.numPlayers g.eligible w seat ∧ g.eligible seat = false) :
    TrickOK { g with turn := g.nextEligible seat } := by
  obtain ⟨t, ht, he, htw, hreach⟩ := nextEligible_reaches hw hlt hne hat
  refine ⟨by simp [hpile, hw], fun h => absurd h hpile, hpassers, ⟨t, ht, he⟩, ?_⟩
  intro v hv
  have hvw : v = w := Option.some.inj (hv.symm.trans hw)
  subst hvw
  refine ⟨hlt, fun t' ht' => ?_⟩
  have htt : t = t' := Option.some.inj (ht.symm.trans ht')
  subst htt
  exact ⟨htw, hreach⟩

/-- The turn that passes on keeps the trick in order. -/
theorem afterAction_trick (hpile : g.pile ≠ none) (hw : g.pileOwner = some w) (hlt : w < g.numPlayers)
    (hpassers : ∀ s ∈ g.passed, g.active s = true)
    (hat : seat = w ∨ Cyclic.Reaches g.numPlayers g.eligible w seat ∧ g.eligible seat = false)
    (hp : (g.afterAction seat).2.status = .playing) : TrickOK (g.afterAction seat).2 := by
  unfold afterAction at hp ⊢
  split at hp
  · rename_i hno
    rw [if_pos hno]
    exact resolveTrick_trick hp
  · rename_i hne
    rw [if_neg hne]
    exact .of_next hpile hw hlt hpassers hne hat

/-- So does a seat that passes it on. -/
theorem passOnTurn_trick (hpile : g.pile = none ↔ g.pileOwner = none) (hclear : g.pile = none → g.passed = [])
    (hpassers : ∀ s ∈ g.passed, g.active s = true)
    (hat : ∀ w, g.pileOwner = some w → w < g.numPlayers ∧
      Cyclic.Reaches g.numPlayers g.eligible w seat ∧ g.eligible seat = false)
    (hp : (g.passOnTurn seat).2.status = .playing) : TrickOK (g.passOnTurn seat).2 := by
  unfold passOnTurn at hp ⊢
  split at hp
  · rename_i hnone
    rw [if_pos hnone]
    simp only at hp ⊢
    split at hp
    · rw [endGame_finished] at hp
      cases hp
    · rename_i hno
      rw [if_neg hno]
      obtain ⟨t, ht⟩ := Option.ne_none_iff_exists'.1 hno
      exact .of_fresh hnone (hpile.1 hnone) (hclear hnone) ⟨t, ht, (Cyclic.next_spec ht).2⟩
  · rename_i hsome
    rw [if_neg hsome]
    split at hp
    · rename_i hno
      rw [if_pos hno]
      exact resolveTrick_trick hp
    · rename_i hne
      rw [if_neg hne]
      obtain ⟨w, hw⟩ := Option.ne_none_iff_exists'.1 fun h => hsome (hpile.2 h)
      obtain ⟨hlt, hr⟩ := hat w hw
      exact .of_next hsome hw hlt hpassers hne (Or.inr hr)

/-! ## The calls -/

/-- So does a play. -/
theorem commitPlay_trick (hlt : seat < g.numPlayers) (hp : (g.commitPlay seat cards combo).2.status = .playing) :
    TrickOK (g.commitPlay seat cards combo).2 := by
  rw [commitPlay_eq] at hp ⊢
  have hnobody : ∀ s ∈ ([] : List ℕ), (g.putDown seat cards combo).active s = true := by simp
  split at hp
  · rename_i hempty
    rw [if_pos hempty]
    split at hp
    · rw [endGame_finished] at hp
      cases hp
    · rename_i hmore
      rw [if_neg hmore]
      refine afterAction_trick (w := seat) ?_ rfl hlt ?_ (Or.inl rfl) hp
      · simp [SingleGame.finishSeat, SingleGame.putDown]
      · simp [SingleGame.finishSeat, SingleGame.putDown]
  · rename_i hmore
    rw [if_neg hmore]
    refine afterAction_trick (w := seat) ?_ rfl hlt ?_ (Or.inl rfl) hp
    · simp [SingleGame.putDown]
    · exact hnobody

/-- So does a pass. -/
theorem pass_trick (h : TrickOK g) (hp : (g.pass seat).2.status = .playing) : TrickOK (g.pass seat).2 := by
  rcases pass_cases g seat with ⟨-, -, he⟩ | ⟨-, ht, hpile, -, he⟩
  · rw [he]
    exact h
  · rw [he] at hp ⊢
    obtain ⟨t, ht', hte⟩ := h.turn
    rw [ht] at ht'
    cases ht'
    obtain ⟨w, hw⟩ := Option.ne_none_iff_exists'.1 fun ho => hpile (h.pile.2 ho)
    obtain ⟨hlt, hans⟩ := h.answers w hw
    -- the seat has passed, so it may no longer answer
    have hfewer : ∀ s, ({ g with passed := addSeat g.passed seat } : SingleGame).eligible s = true →
        g.eligible s = true := by
      intro s hs
      rw [eligible_iff] at hs ⊢
      exact ⟨hs.1, fun hmem => hs.2 (mem_addSeat.2 (Or.inl hmem))⟩
    refine afterAction_trick (w := w) hpile hw hlt ?_ (Or.inr ⟨(hans seat ht).2.mono hfewer, ?_⟩) hp
    · intro s hs
      rcases mem_addSeat.1 hs with hs | rfl
      · exact h.passers s hs
      · exact (eligible_iff.1 hte).1
    · by_contra hno
      rw [Bool.not_eq_false, eligible_iff] at hno
      exact hno.2 (mem_addSeat.2 (Or.inr rfl))

/-- Fewer seats may answer when one is taken out. -/
theorem eligible_deactivate (g : SingleGame) (seat s : ℕ) (h : (g.deactivate seat).eligible s = true) :
    s ≠ seat ∧ g.eligible s = true := by
  obtain ⟨ha, hno⟩ := eligible_iff.1 h
  obtain ⟨hne, ha⟩ := update_false_iff.1 ha
  refine ⟨hne, eligible_iff.2 ⟨ha, fun hmem => hno ?_⟩⟩
  exact List.mem_filter.2 ⟨hmem, by simpa using hne⟩

theorem deactivate_passers (h : TrickOK g) (seat : ℕ) :
    ∀ s ∈ (g.deactivate seat).passed, (g.deactivate seat).active s = true := by
  intro s hs
  obtain ⟨hs, hne⟩ := List.mem_filter.1 hs
  exact update_false_iff.2 ⟨by simpa using hne, h.passers s hs⟩

/-- A seat is taken out, and its turn, if it was on turn, passes on. -/
theorem yieldTurn_trick (h : TrickOK g) (hp : ((g.deactivate seat).yieldTurn (g.turn = some seat) seat).status =
    .playing) : TrickOK ((g.deactivate seat).yieldTurn (g.turn = some seat) seat) := by
  have hfewer : ∀ s, (g.deactivate seat).eligible s = true → g.eligible s = true :=
    fun s hs => (eligible_deactivate g seat s hs).2
  have hclear : (g.deactivate seat).pile = none → (g.deactivate seat).passed = [] := by
    intro hnone
    show g.passed.filter _ = []
    rw [h.clear hnone]
    rfl
  unfold yieldTurn at hp ⊢
  split at hp
  · rename_i hturn
    rw [if_pos hturn]
    have hturn : g.turn = some seat := by simpa using hturn
    refine passOnTurn_trick h.pile hclear (deactivate_passers h seat) (fun w hw => ?_) hp
    obtain ⟨hlt, hans⟩ := h.answers w hw
    refine ⟨hlt, (hans seat hturn).2.mono hfewer, ?_⟩
    by_contra hno
    rw [Bool.not_eq_false] at hno
    exact (eligible_deactivate g seat seat hno).1 rfl
  · rename_i hturn
    rw [if_neg hturn]
    have hturn : g.turn ≠ some seat := by simpa using hturn
    obtain ⟨t, ht, hte⟩ := h.turn
    have hne : t ≠ seat := by
      rintro rfl
      exact hturn ht
    obtain ⟨ha, hno⟩ := eligible_iff.1 hte
    refine ⟨h.pile, hclear, deactivate_passers h seat, ⟨t, ht, eligible_iff.2 ⟨?_, ?_⟩⟩, fun w hw => ?_⟩
    · exact update_false_iff.2 ⟨hne, ha⟩
    · exact fun hmem => hno (List.mem_filter.1 hmem).1
    · obtain ⟨hlt, hans⟩ := h.answers w hw
      exact ⟨hlt, fun t' ht' => ⟨(hans t' ht').1, (hans t' ht').2.mono hfewer⟩⟩

/-- So does a seat that leaves. -/
theorem forfeitSeat_trick (h : TrickOK g) (hp : (g.forfeitSeat seat).2.status = .playing) :
    TrickOK (g.forfeitSeat seat).2 := by
  rcases forfeitSeat_cases g seat with ⟨-, he⟩ | ⟨-, -, -, -, he⟩ | ⟨-, -, -, -, he⟩
  · rw [he]
    exact h
  · rw [he]
    exact ⟨h.pile, h.clear, h.passers, h.turn, h.answers⟩
  · rw [he] at hp ⊢
    simp only at hp ⊢
    split at hp
    · rw [endGame_finished] at hp
      cases hp
    · rename_i hno
      rw [if_neg hno]
      exact yieldTurn_trick h hp

/-- **One call keeps the turn where it belongs.** -/
theorem step_trick (hlt : ∀ s, g.active s = true → s < g.numPlayers) (h : g.status = .playing → TrickOK g) (c : Call)
    (hp : (g.step c).status = .playing) : TrickOK (g.step c) := by
  cases c with
  | play s cards =>
    rcases play_cases g s cards with ⟨-, -, he⟩ | ⟨combo, hpl, ht, -, -, -, -, he⟩
    · simp only [step, he] at hp ⊢
      exact h hp
    · simp only [step, he] at hp ⊢
      obtain ⟨t, ht', hte⟩ := (h hpl).turn
      rw [ht] at ht'
      cases ht'
      exact commitPlay_trick (hlt s (eligible_iff.1 hte).1) hp
  | pass s =>
    rcases status_cases g with hpl | hf
    · exact pass_trick (h hpl) hp
    · have he : (g.pass s).2 = g := by simp [pass, hf]
      simp only [step, he, hf] at hp
      cases hp
  | forfeitSeat s =>
    rcases status_cases g with hpl | hf
    · exact forfeitSeat_trick (h hpl) hp
    · have he : (g.forfeitSeat s).2 = g := by simp [forfeitSeat, hf]
      simp only [step, he, hf] at hp
      cases hp

/-! ## When a trick is won -/

/-- The events that a call emits. -/
def eventsOf (g : SingleGame) : Call → List GameEvent
  | .play s cards => (g.play s cards).1.events
  | .pass s => (g.pass s).1.events
  | .forfeitSeat s => (g.forfeitSeat s).1

/-- The call resolves the trick on the table. -/
def Resolves (g : SingleGame) (c : Call) : Prop := ∃ w next, GameEvent.trickWon w next ∈ g.eventsOf c

theorem endGame_events {w next : Option ℕ} : GameEvent.trickWon w next ∉ g.endGame.1 := by
  unfold endGame
  split <;> simp

theorem resolveTrick_events (g : SingleGame) : ∃ w next, GameEvent.trickWon w next ∈ g.resolveTrick.1 := by
  unfold resolveTrick
  simp only
  split
  · exact ⟨_, _, List.mem_cons_self⟩
  · exact ⟨_, _, List.mem_cons_self⟩

/-- A trick is won exactly when nobody is left against its owner. -/
theorem afterAction_events (g : SingleGame) (seat : ℕ) :
    (∃ w next, GameEvent.trickWon w next ∈ (g.afterAction seat).1) ↔ g.contendersExcludingOwner = [] := by
  unfold afterAction
  split
  · rename_i hno
    exact ⟨fun _ => hno, fun _ => resolveTrick_events g⟩
  · rename_i hne
    exact ⟨fun ⟨_, _, h⟩ => absurd h List.not_mem_nil, fun h => absurd h hne⟩

/-- Nobody is left when everyone else has passed. -/
theorem contenders_nil (hc : Core g) : g.contendersExcludingOwner = [] ↔
    ∀ s, g.active s = true → some s ≠ g.pileOwner → s ∈ g.passed := by
  rw [List.eq_nil_iff_forall_not_mem]
  constructor
  · intro h s ha ho
    by_contra hno
    exact h s (mem_contenders.2 ⟨hc.active_lt s ha, ho, eligible_iff.2 ⟨ha, hno⟩⟩)
  · intro h s hs
    obtain ⟨-, ho, he⟩ := mem_contenders.1 hs
    exact (eligible_iff.1 he).2 (h s (eligible_iff.1 he).1 ho)

/-- After a play somebody else may answer, so no trick is won. -/
theorem commitPlay_events (h2 : 2 ≤ g.activeCount) {w next : Option ℕ} :
    GameEvent.trickWon w next ∉ (g.commitPlay seat cards combo).1 := by
  -- somebody else is active, and nobody has passed
  have hopen : ∀ g₁ : SingleGame, g₁.pileOwner = some seat → g₁.passed = [] → 2 ≤ g₁.activeCount →
      GameEvent.trickWon w next ∉ (g₁.afterAction seat).1 := by
    intro g₁ ho hpassed hcount hmem
    have hno := (afterAction_events g₁ seat).1 ⟨w, next, hmem⟩
    obtain ⟨s, hs, ha, hne⟩ := exists_active_ne hcount seat
    have hin : s ∈ g₁.contendersExcludingOwner := by
      refine mem_contenders.2 ⟨hs, ?_, eligible_iff.2 ⟨ha, ?_⟩⟩
      · rw [ho]
        simpa using hne
      · rw [hpassed]
        exact List.not_mem_nil
    rw [hno] at hin
    cases hin
  unfold commitPlay
  simp only
  split
  · simp only [List.mem_append, List.mem_cons, List.not_mem_nil, reduceCtorEq, false_or, or_false]
    split
    · exact endGame_events
    · exact hopen _ rfl rfl (by omega)
  · simp only [List.mem_cons, reduceCtorEq, false_or]
    exact hopen (g.putDown seat cards combo) rfl rfl h2

theorem pass_events (hp : g.status = .playing) (ht : g.turn = some seat) (hpile : g.pile ≠ none) :
    (g.pass seat).1.events = .passed seat :: ({ g with passed := addSeat g.passed seat }.afterAction seat).1 := by
  simp [pass, hp, ht, hpile, ActionResult.accept]

theorem passOnTurn_events (g : SingleGame) (seat : ℕ) :
    (∃ w next, GameEvent.trickWon w next ∈ (g.passOnTurn seat).1) ↔
      g.pile ≠ none ∧ g.contendersExcludingOwner = [] := by
  unfold passOnTurn
  split
  · rename_i hnone
    simp only
    split
    · exact ⟨fun ⟨_, _, h⟩ => absurd h endGame_events, fun h => absurd hnone h.1⟩
    · exact ⟨fun ⟨_, _, h⟩ => absurd h List.not_mem_nil, fun h => absurd hnone h.1⟩
  · rename_i hsome
    split
    · rename_i hno
      exact ⟨fun _ => ⟨hsome, hno⟩, fun _ => resolveTrick_events g⟩
    · rename_i hne
      exact ⟨fun ⟨_, _, h⟩ => absurd h List.not_mem_nil, fun h => absurd h.2 hne⟩

/-- Only the forfeit of an active seat that is on turn can win a trick. -/
theorem forfeitSeat_events (hp : g.status = .playing) (hs : seat < g.numPlayers) (hg : seat ∉ g.gone)
    (ha : g.active seat = true) :
    (∃ w next, GameEvent.trickWon w next ∈ (g.forfeitSeat seat).1) ↔
      g.turn = some seat ∧ g.pile ≠ none ∧ (g.deactivate seat).contendersExcludingOwner = [] := by
  have hrest : ∀ r : List GameEvent × SingleGame, ∀ w next,
      GameEvent.trickWon w next ∈ (if (!r.2.isOver && decide (r.2.activeCount ≤ 1)) = true then
        (r.1 ++ r.2.endGame.1, r.2.endGame.2) else r).1 ↔ GameEvent.trickWon w next ∈ r.1 := by
    intro r w next
    split
    · simp [endGame_events]
    · rfl
  have hne : g.status ≠ .finished := by rw [hp]; decide
  unfold forfeitSeat
  rw [if_neg hne, if_neg (by omega), if_neg hg]
  simp only [ha, Bool.not_true, Bool.false_eq_true, if_false]
  simp only [hrest]
  by_cases hturn : g.turn = some seat
  · simp only [hturn, if_true, true_and]
    exact passOnTurn_events (g.deactivate seat) seat
  · simp only [if_neg hturn]
    exact ⟨fun ⟨_, _, h⟩ => absurd h List.not_mem_nil, fun h => absurd h.1 hturn⟩

/-- **A trick is won exactly when the last of those asked passes, or leaves.** -/
theorem trickWon_iff (hok : GameOK g) (h : TrickOK g) (hp : g.status = .playing) (c : Call) :
    g.Resolves c ↔ g.pile ≠ none ∧ ∃ t, g.turn = some t ∧ (c = .pass t ∨ c = .forfeitSeat t) ∧
      ∀ s, g.active s = true → s ≠ t → some s ≠ g.pileOwner → s ∈ g.passed := by
  cases c with
  | play s cards =>
    -- a play wins no trick
    refine iff_of_false ?_ fun ⟨_, t, _, hc, _⟩ => by rcases hc with hc | hc <;> cases hc
    rintro ⟨w, next, hmem⟩
    unfold eventsOf at hmem
    rcases play_cases g s cards with ⟨-, he, -⟩ | ⟨combo, -, -, -, -, -, -, he⟩
    · simp only [he] at hmem
      cases hmem
    · simp only [he] at hmem
      exact commitPlay_events (hok.two_active hp) hmem
  | pass s =>
    unfold Resolves eventsOf
    rcases pass_cases g s with ⟨hno, he, -⟩ | ⟨-, ht, hpile, -, -⟩
    · simp only [he]
      refine iff_of_false (fun ⟨_, _, h⟩ => absurd h List.not_mem_nil) ?_
      rintro ⟨hpile, t, ht, hc | hc, -⟩
      · cases hc
        simp [pass, hp, ht, hpile, ActionResult.accept] at hno
      · cases hc
    -- the pass is counted before the rest are looked at
    · have hc : Core { g with passed := addSeat g.passed s } := hok.toCore.retable g.pile g.pileOwner g.turn _
      have hiff : (∃ w next, GameEvent.trickWon w next ∈
          ({ g with passed := addSeat g.passed s }.afterAction s).1) ↔
          ∀ v, g.active v = true → some v ≠ g.pileOwner → v ∈ addSeat g.passed s :=
        (afterAction_events _ s).trans (contenders_nil hc)
      simp only [pass_events hp ht hpile, List.mem_cons, reduceCtorEq, false_or]
      rw [hiff]
      constructor
      · intro hall
        refine ⟨hpile, s, ht, Or.inl rfl, fun v hv hne ho => ?_⟩
        exact (mem_addSeat.1 (hall v hv ho)).resolve_right hne
      · rintro ⟨-, t, ht', hc | hc, hall⟩
        · cases hc
          intro v hv ho
          by_cases hvs : v = s
          · exact mem_addSeat.2 (Or.inr hvs)
          · exact mem_addSeat.2 (Or.inl (hall v hv hvs ho))
        · cases hc
  | forfeitSeat s =>
    unfold Resolves eventsOf
    by_cases hin : s < g.numPlayers ∧ s ∉ g.gone ∧ g.active s = true
    · obtain ⟨hs, hg, ha⟩ := hin
      -- whoever leaves is out before the rest are looked at
      have hc := hok.toCore.deactivate hs hg
      simp only
      rw [forfeitSeat_events hp hs hg ha, contenders_nil hc]
      constructor
      · rintro ⟨ht, hpile, hall⟩
        refine ⟨hpile, s, ht, Or.inr rfl, fun v hv hne ho => ?_⟩
        exact (List.mem_filter.1 (hall v (update_false_iff.2 ⟨hne, hv⟩) ho)).1
      · rintro ⟨hpile, t, ht, hc | hc, hall⟩
        · cases hc
        · cases hc
          refine ⟨ht, hpile, fun v hv ho => ?_⟩
          obtain ⟨hne, hv⟩ := update_false_iff.1 hv
          exact List.mem_filter.2 ⟨hall v hv hne ho, by simpa using hne⟩
    · refine iff_of_false ?_ ?_
      · rintro ⟨w, next, hmem⟩
        -- a seat that is not in the game leaves without a word
        have hnil : (g.forfeitSeat s).1 = [] := by
          have hne : g.status ≠ .finished := by rw [hp]; decide
          unfold forfeitSeat
          rw [if_neg hne]
          split
          · rfl
          split
          · rfl
          · rename_i hs hg
            have ha : g.active s = false := by
              by_contra ha
              exact hin ⟨by omega, hg, by simpa using ha⟩
            simp [ha]
        simp only [hnil] at hmem
        cases hmem
      · rintro ⟨-, t, ht, hc | hc, -⟩
        · cases hc
        · cases hc
          obtain ⟨t, ht', he⟩ := h.turn
          rw [ht] at ht'
          cases ht'
          have ha := (eligible_iff.1 he).1
          refine hin ⟨hok.active_lt s ha, fun hg => ?_, ha⟩
          rw [hok.gone_inactive s hg] at ha
          cases ha

/-! ## Nobody is asked twice -/

/-- No card is played, and the pile stays on the table. -/
def SamePile (g : SingleGame) (c : Call) : Prop :=
  (∀ s cards, c = .play s cards → (g.play s cards).1.ok = false) ∧ (g.step c).status = .playing ∧
    (g.step c).pile ≠ none

theorem resolveTrick_over (g : SingleGame) :
    g.resolveTrick.2.status = .finished ∨ g.resolveTrick.2.pile = none := by
  unfold resolveTrick
  simp only
  split
  · exact Or.inl (endGame_finished _)
  · exact Or.inr rfl

/-- While the pile stays on the table, passing the turn on changes only the turn. -/
theorem afterAction_same (g : SingleGame) (seat : ℕ) (hp : (g.afterAction seat).2.status = .playing)
    (hpile : (g.afterAction seat).2.pile ≠ none) : ∃ t, (g.afterAction seat).2 = { g with turn := t } := by
  unfold afterAction at hp hpile ⊢
  split at hp
  · rename_i hno
    rw [if_pos hno] at hpile
    rcases resolveTrick_over g with hf | hn
    · rw [hf] at hp
      cases hp
    · exact absurd hn hpile
  · rename_i hne
    rw [if_neg hne]
    exact ⟨_, rfl⟩

theorem passOnTurn_same (g : SingleGame) (seat : ℕ) (hp : (g.passOnTurn seat).2.status = .playing)
    (hpile : (g.passOnTurn seat).2.pile ≠ none) : ∃ t, (g.passOnTurn seat).2 = { g with turn := t } := by
  unfold passOnTurn at hp hpile ⊢
  split at hp
  · rename_i hnone
    rw [if_pos hnone] at hpile ⊢
    simp only at hp hpile ⊢
    split at hp
    · rw [endGame_finished] at hp
      cases hp
    · rename_i hno
      rw [if_neg hno]
      exact ⟨_, rfl⟩
  · rename_i hsome
    rw [if_neg hsome] at hpile ⊢
    split at hp
    · rename_i hno
      rw [if_pos hno] at hpile
      rcases resolveTrick_over g with hf | hn
      · rw [hf] at hp
        cases hp
      · exact absurd hn hpile
    · rename_i hne
      rw [if_neg hne]
      exact ⟨_, rfl⟩

/-- **All that a call can do while the pile stays on the table**: nothing, or the turn's
pass, or a forfeit, after which the turn may have gone on. -/
theorem samePile_cases {c : Call} (hc : SamePile g c) :
    g.step c = g ∨
      (∃ s t, c = .pass s ∧ g.turn = some s ∧ (g.pass s).1.ok = true ∧
        g.step c = { g with passed := addSeat g.passed s, turn := t }) ∨
      ∃ s, c = .forfeitSeat s ∧ (g.step c = { g with gone := g.gone ++ [s] } ∨
        ∃ t, g.step c = { g.deactivate s with turn := t } ∧ (g.turn ≠ some s → t = g.turn)) := by
  obtain ⟨hplay, hp, hpile⟩ := hc
  cases c with
  | play s cards =>
    rcases play_cases g s cards with ⟨-, -, he⟩ | ⟨combo, -, -, -, -, -, -, he⟩
    · exact Or.inl (by rw [step, he])
    · have hno := hplay s cards rfl
      rw [he] at hno
      cases hno
  | pass s =>
    simp only [step] at hp hpile ⊢
    rcases pass_cases g s with ⟨-, -, he⟩ | ⟨-, ht, -, hok, he⟩
    · exact Or.inl he
    · rw [he] at hp hpile
      obtain ⟨t, hsame⟩ := afterAction_same _ _ hp hpile
      exact Or.inr (Or.inl ⟨s, t, rfl, ht, hok, he.trans hsame⟩)
  | forfeitSeat s =>
    simp only [step] at hp hpile ⊢
    rcases forfeitSeat_cases g s with ⟨-, he⟩ | ⟨-, -, -, -, he⟩ | ⟨-, -, -, -, he⟩
    · exact Or.inl he
    · exact Or.inr (Or.inr ⟨s, rfl, Or.inl he⟩)
    · refine Or.inr (Or.inr ⟨s, rfl, Or.inr ?_⟩)
      rw [he] at hp hpile ⊢
      simp only at hp hpile ⊢
      split at hp
      · rw [endGame_finished] at hp
        cases hp
      · rename_i hmore
        rw [if_neg hmore] at hpile ⊢
        unfold yieldTurn at hp hpile ⊢
        split at hp
        · rename_i hturn
          rw [if_pos hturn] at hpile ⊢
          obtain ⟨t, hsame⟩ := passOnTurn_same _ _ hp hpile
          exact ⟨t, hsame, fun hno => absurd (by simpa using hturn) hno⟩
        · rename_i hturn
          rw [if_neg hturn]
          exact ⟨g.turn, rfl, fun _ => rfl⟩

/-- **While the pile stays on the table, who has answered it stays so**, and so does the
seat whose turn has gone. -/
theorem step_answered {c : Call} (hc : SamePile g c) :
    (∀ s, (g.step c).eligible s = true → g.eligible s = true) ∧
      ∀ s, g.turn = some s → (g.step c).turn = some s ∨ (g.step c).eligible s = false := by
  rcases samePile_cases hc with he | ⟨s, t, -, ht, -, he⟩ | ⟨s, -, he | ⟨t, he, hkept⟩⟩
  · rw [he]
    exact ⟨fun _ => id, fun _ => Or.inl⟩
  · rw [he]
    refine ⟨fun v hv => ?_, fun v hv => Or.inr ?_⟩
    · obtain ⟨ha, hno⟩ := eligible_iff.1 hv
      exact eligible_iff.2 ⟨ha, fun hmem => hno (mem_addSeat.2 (Or.inl hmem))⟩
    · rw [ht] at hv
      cases hv
      by_contra hin
      rw [Bool.not_eq_false] at hin
      exact (eligible_iff.1 hin).2 (mem_addSeat.2 (Or.inr rfl))
  · rw [he]
    exact ⟨fun _ => id, fun _ => Or.inl⟩
  · have hsame : (g.step c).eligible = (g.deactivate s).eligible := by
      rw [he]
      rfl
    rw [hsame]
    refine ⟨fun v hv => (eligible_deactivate g s v hv).2, fun v hv => ?_⟩
    by_cases hvs : v = s
    · right
      by_contra hin
      rw [Bool.not_eq_false] at hin
      exact (eligible_deactivate g s v hin).1 hvs
    · left
      have hturn : g.turn ≠ some s := by
        rw [hv]
        simpa using hvs
      rw [he, ← hv]
      exact hkept hturn

/-- Who may not answer the pile any more may not for as long as it is on the table. -/
theorem run_answered (cs : List Call) : ∀ {g : SingleGame} {s : ℕ}, Guarded step SamePile g cs →
    g.eligible s = false → (run step g cs).eligible s = false := by
  induction cs with
  | nil => exact fun _ h => h
  | cons c cs ih =>
    intro g s hg h
    refine ih hg.2 ?_
    by_contra he
    rw [Bool.not_eq_false] at he
    rw [(step_answered hg.1).1 s he] at h
    cases h

/-- The turn is still where it was, or the seat may not answer any more. -/
theorem run_asked (cs : List Call) : ∀ {g : SingleGame} {s : ℕ}, Guarded step SamePile g cs →
    g.turn = some s → (run step g cs).turn = some s ∨ (run step g cs).eligible s = false := by
  induction cs with
  | nil => exact fun _ h => Or.inl h
  | cons c cs ih =>
    intro g s hg h
    rcases (step_answered hg.1).2 s h with ht | hno
    · exact ih hg.2 ht
    · exact Or.inr (run_answered cs hg.2 hno)

/-! ## Every run -/

/-- **Turns and tricks** of a game that is being played: who is on turn, what has
passed since the last play, and when the trick is won. -/
structure TurnInv (g : SingleGame) : Prop where
  turn : ∃ t, g.turn = some t ∧ g.active t = true ∧ t ∉ g.gone ∧ t ∉ g.passed
  pile : g.pile = none ↔ g.pileOwner = none
  clear : g.pile = none → g.passed = []
  between : ∀ w t, g.pileOwner = some w → g.turn = some t → t ≠ w ∧
    ∀ s, Cyclic.Between g.numPlayers w t s → g.active s = true → s ∈ g.passed
  contender : ∀ w, g.pileOwner = some w → ∃ s, g.active s = true ∧ s ≠ w ∧ s ∉ g.passed
  passers : ∀ s ∈ g.passed, g.active s = true
  two : 2 ≤ g.activeCount
  /-- While no card is played and the pile stays, a seat whose turn has gone is not
  asked again. -/
  once : ∀ s cs cs', g.turn = some s → Guarded step SamePile g (cs ++ cs') →
    (run step g cs).turn ≠ some s → (run step g (cs ++ cs')).turn ≠ some s
  /-- The trick is won when everyone else has passed since the last play, and only then. -/
  resolves : ∀ c, g.Resolves c ↔ g.pile ≠ none ∧ ∃ t, g.turn = some t ∧ (c = .pass t ∨ c = .forfeitSeat t) ∧
    ∀ s, g.active s = true → s ≠ t → some s ≠ g.pileOwner → s ∈ g.passed

/-- The invariant of every call. -/
def Tricked (g : SingleGame) : Prop := GameOK g ∧ (g.status = .playing → TrickOK g)

theorem run_tricked (h : Tricked g) (cs : List Call) : Tricked (run step g cs) :=
  run_inv (P := Tricked) (fun _ c h => ⟨step_ok h.1 c, step_trick h.1.active_lt h.2 c⟩) h cs

theorem guarded_playing (cs : List Call) : ∀ {g : SingleGame}, g.status = .playing → Guarded step SamePile g cs →
    (run step g cs).status = .playing := by
  induction cs with
  | nil => exact fun h _ => h
  | cons c cs ih => exact fun _ hg => ih hg.1.2.1 hg.2

/-- The invariant gives the claim about turns. -/
theorem Tricked.turnInv (h : Tricked g) (hp : g.status = .playing) : TurnInv g := by
  have htrick := h.2 hp
  obtain ⟨t, ht, he⟩ := htrick.turn
  obtain ⟨ha, hno⟩ := eligible_iff.1 he
  refine ⟨⟨t, ht, ha, fun hg => ?_, hno⟩, htrick.pile, htrick.clear, fun w t' hw ht' => ?_, fun w hw => ?_,
    htrick.passers, h.1.two_active hp, fun s cs cs' hs hg hgone => ?_, trickWon_iff h.1 htrick hp⟩
  · rw [h.1.gone_inactive t hg] at ha
    cases ha
  · obtain ⟨-, hans⟩ := htrick.answers w hw
    obtain ⟨hne, hreach⟩ := hans t' ht'
    refine ⟨hne, fun s hs hact => ?_⟩
    by_contra hnp
    have := hreach.between hs
    rw [eligible_iff.2 ⟨hact, hnp⟩] at this
    cases this
  · exact ⟨t, ha, ((htrick.answers w hw).2 t ht).1, hno⟩
  · -- once the turn has gone the seat has answered, and answered it stays
    obtain ⟨hg₁, hg₂⟩ := (guarded_append g cs cs').1 hg
    have hout := (run_asked cs hg₁ hs).resolve_left hgone
    have hout' := run_answered cs' hg₂ hout
    rw [← run_append] at hout'
    obtain ⟨t', ht', he'⟩ := (run_tricked h (cs ++ cs')).2 (guarded_playing _ hp hg) |>.turn
    intro hback
    rw [ht'] at hback
    cases hback
    rw [hout'] at he'
    cases he'

theorem create_tricked {o : GameOptions} (h2 : 2 ≤ o.numPlayers) (hne : ∀ h ∈ o.hands, h ≠ [])
    (hg : create o = .ok g) : Tricked g := by
  obtain ⟨rfl, -, hok⟩ := created h2 hne hg
  refine ⟨hok, fun hp => ?_⟩
  exact .of_fresh rfl rfl rfl (hok.turned hp)

end SingleGame

/-- **Turns and tricks**, in every state of every run that is not finished. -/
theorem turn_invariant {o : GameOptions} {g : SingleGame} (h2 : 2 ≤ o.numPlayers) (hne : ∀ h ∈ o.hands, h ≠ [])
    (hg : SingleGame.create o = .ok g) (cs : List SingleGame.Call)
    (hp : (run SingleGame.step g cs).status = .playing) : (run SingleGame.step g cs).TurnInv :=
  (SingleGame.run_tricked (SingleGame.create_tricked h2 hne hg) cs).turnInv hp

/-- Three seats with two cards each. -/
def threeHands : GameOptions :=
  { numPlayers := 3, leader := 0,
    hands := [[.standard .r5 .S, .standard .r9 .S], [.standard .r6 .S, .standard .r8 .H],
      [.standard .r7 .S, .standard .r8 .S]] }

/-- Seat 0 leads a 5, seat 1 passes and seat 2 plays a 7: seat 0 is on turn. -/
theorem turn_invariant_three :
    (run SingleGame.step (SingleGame.fresh threeHands)
      [.play 0 [.standard .r5 .S], .pass 1, .play 2 [.standard .r7 .S]]).TurnInv :=
  turn_invariant (o := threeHands) (by decide) (by decide) rfl _ (by decide +kernel)

end Murlan
