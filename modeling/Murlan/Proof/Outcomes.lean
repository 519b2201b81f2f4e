import Murlan.Proof.Tournament

/-!
# Engine outcomes stand

What the gateway recorded for a pairing is what a manual report of it must name. The record
lives in the process: it is dropped when a tournament ends, before the write that ends it.

* `Stands`: the pairing can no longer be reported, or its outcome is still recorded.
* `tournament_step_stands`: what every event keeps that does not drop the record of a
  tournament whose row stays in play.
* `recorded_outcome_stands`: over every run of such events, no manual report of the pairing
  with another winner is accepted.
-/

namespace Murlan

variable {U : Type}

/-- Pairings may still be decided. -/
def TournamentStatus.inPlay : TournamentStatus → Bool
  | .registering | .running => true
  | .awaitingConfirmation | .finished | .cancelled => false

/-- The row of the tournament is out of play for good, or the outcome is recorded. -/
def Stands (w : Tournaments U) (id round index : ℕ) (v : U) : Prop :=
  (id < w.seq ∧ ∀ t, w.rows id = some t → t.status.inPlay = false) ∨
    w.recordedOutcomes id round index = some v

/-- A row is stored under its own number. -/
def Numbered (w : Tournaments U) : Prop := ∀ id t, w.rows id = some t → t.id = id ∧ id < w.seq

/-- The invariant of a run: rows are numbered, and the outcome stands where `P` says so. -/
structure Keeping (P : Prop) (id round index : ℕ) (v : U) (w : Tournaments U) : Prop where
  numbered : Numbered w
  stands : P → Stands w id round index v

variable {P : Prop} {id round index : ℕ} {v : U} {w w' : Tournaments U} {t t' : Tournament U}

theorem Tournaments.rows_setRow (w : Tournaments U) (t : Tournament U) (j : ℕ) :
    (w.setRow t).rows j = if j = t.id then some t else w.rows j :=
  Function.update_apply w.rows t.id (some t) j

/-- A row written back keeps the numbers. -/
theorem Numbered.setRow (h : Numbered w) (hid : t'.id < w.seq) : Numbered (w.setRow t') := by
  intro j x hj
  rw [Tournaments.rows_setRow] at hj
  by_cases hji : j = t'.id
  · rw [if_pos hji] at hj
    cases hj
    exact ⟨hji.symm, by show j < w.seq; omega⟩
  · rw [if_neg hji] at hj
    exact h j x hj

namespace Keeping

/-- Money moves, and new numbers are given out. -/
theorem same (h : Keeping P id round index v w) (hrows : w'.rows = w.rows) (hseq : w.seq ≤ w'.seq)
    (houtcomes : w'.recordedOutcomes = w.recordedOutcomes) : Keeping P id round index v w' := by
  refine ⟨?_, ?_⟩
  · intro j x hj
    rw [hrows] at hj
    obtain ⟨hid, hlt⟩ := h.numbered j x hj
    exact ⟨hid, by omega⟩
  · intro hP
    rcases h.stands hP with ⟨hlt, hclosed⟩ | hrec
    · left
      rw [hrows]
      exact ⟨by omega, hclosed⟩
    · right
      rw [houtcomes]
      exact hrec

/-- A row changes, and does not come back into play. -/
theorem setRow (h : Keeping P id round index v w) (hid : t'.id < w.seq)
    (hplay : t'.id = id → id < w.seq → (∀ t, w.rows id = some t → t.status.inPlay = false) →
      t'.status.inPlay = false) : Keeping P id round index v (w.setRow t') := by
  refine ⟨h.numbered.setRow hid, ?_⟩
  intro hP
  rcases h.stands hP with ⟨hlt, hclosed⟩ | hrec
  · refine .inl ⟨hlt, ?_⟩
    intro x hx
    rw [Tournaments.rows_setRow] at hx
    by_cases hi : id = t'.id
    · rw [if_pos hi] at hx
      cases hx
      exact hplay hi.symm hlt hclosed
    · rw [if_neg hi] at hx
      exact hclosed x hx
  · exact .inr hrec

/-- The row of a tournament that was read. -/
theorem setRow_read (h : Keeping P id round index v w) (hrow : w.rows t.id = some t)
    (t' : Tournament U) (hid : t'.id = t.id)
    (hplay : t.status.inPlay = false → t'.status.inPlay = false) :
    Keeping P id round index v (w.setRow t') := by
  refine h.setRow ?_ ?_
  · rw [hid]
    exact (h.numbered _ t hrow).2
  · intro heq _ hclosed
    refine hplay (hclosed t ?_)
    rw [← heq, hid]
    exact hrow

/-- A deleted row keeps what was recorded of others. -/
theorem delete (h : Keeping P id round index v w) (i : ℕ) :
    Keeping P id round index v { w with rows := Function.update w.rows i none } := by
  have hold : ∀ j x, Function.update w.rows i none j = some x → w.rows j = some x := by
    intro j x hj
    by_cases hji : j = i
    · subst hji
      rw [Function.update_self] at hj
      cases hj
    · rwa [Function.update_of_ne hji] at hj
  refine ⟨fun j x hj => h.numbered j x (hold j x hj), ?_⟩
  intro hP
  rcases h.stands hP with ⟨hlt, hclosed⟩ | hrec
  · exact .inl ⟨hlt, fun x hx => hclosed x (hold id x hx)⟩
  · exact .inr hrec

end Keeping

/-- The records of one tournament are dropped. -/
def Tournaments.cleared (w : Tournaments U) (i : ℕ) : Tournaments U :=
  { w with recordedOutcomes := Function.update w.recordedOutcomes i fun _ _ => none }

/-- The records of tournament `i` may have been dropped, if what follows does not fail. -/
structure Dropped (P fails : Prop) (id round index : ℕ) (v : U) (i : ℕ) (w : Tournaments U) : Prop where
  numbered : Numbered w
  lt_seq : i < w.seq
  stands : P → i ≠ id ∨ fails → Stands w id round index v

namespace Dropped

variable {fails : Prop} {i : ℕ}

/-- What is dropped depends on three parts of the world. -/
theorem same (h : Dropped P fails id round index v i w) (hrows : w'.rows = w.rows)
    (hseq : w'.seq = w.seq) (houtcomes : w'.recordedOutcomes = w.recordedOutcomes) :
    Dropped P fails id round index v i w' := by
  refine ⟨?_, ?_, ?_⟩
  · unfold Numbered
    rw [hrows, hseq]
    exact h.numbered
  · rw [hseq]
    exact h.lt_seq
  · unfold Stands
    rw [hrows, hseq, houtcomes]
    exact h.stands

theorem failed (h : Dropped P fails id round index v i w) (hf : fails) : Keeping P id round index v w :=
  ⟨h.numbered, fun hP => h.stands hP (.inr hf)⟩

/-- A row that is written out of play makes the outcome stand, whatever was dropped. -/
theorem close (h : Dropped P fails id round index v i w) (t' : Tournament U) (hid : t'.id = i)
    (hclosed : t'.status.inPlay = false) : Keeping P id round index v (w.setRow t') := by
  have hlt := h.lt_seq
  refine ⟨h.numbered.setRow (by omega), ?_⟩
  intro hP
  by_cases hi : i = id
  · left
    refine ⟨by show id < w.seq; omega, ?_⟩
    intro x hx
    rw [Tournaments.rows_setRow, if_pos (by omega)] at hx
    cases hx
    exact hclosed
  · rcases h.stands hP (.inl hi) with ⟨hlt', hc⟩ | hrec
    · refine .inl ⟨hlt', fun x hx => hc x ?_⟩
      rwa [Tournaments.rows_setRow, if_neg (by omega)] at hx
    · exact .inr hrec

end Dropped

/-- The records of one tournament are dropped. -/
theorem Keeping.clear (h : Keeping P id round index v w) (fails : Prop) (hrow : w.rows t.id = some t)
    (hok : P → t.id = id → t.status.inPlay = true → ¬ fails) :
    Dropped P fails id round index v t.id (w.cleared t.id) := by
  refine ⟨h.numbered, (h.numbered _ t hrow).2, ?_⟩
  intro hP hcase
  by_cases hi : t.id = id
  · have hfails : fails := hcase.resolve_left fun hne => hne hi
    have hclosed : t.status.inPlay = false := by
      cases hplay : t.status.inPlay with
      | false => rfl
      | true => exact absurd hfails (hok hP hi hplay)
    refine .inl ⟨hi ▸ (h.numbered _ t hrow).2, fun x hx => ?_⟩
    have hx' : w.rows t.id = some x := by
      rw [hi]
      exact hx
    rw [hrow] at hx'
    cases hx'
    exact hclosed
  · rcases h.stands hP with hclosed | hrec
    · exact .inl hclosed
    · right
      show Function.update w.recordedOutcomes t.id (fun _ _ => none) id round index = some v
      rw [Function.update_of_ne (Ne.symm hi)]
      exact hrec

/-- A tournament gets a new number. -/
theorem Keeping.create (h : Keeping P id round index v w) (hid : t.id = w.seq) :
    Keeping P id round index v (Tournaments.setRow { w with seq := w.seq + 1 } t) := by
  refine ⟨?_, ?_⟩
  · refine Numbered.setRow (fun j x hj => ?_) (by show t.id < w.seq + 1; omega)
    obtain ⟨hj', hlt⟩ := h.numbered j x hj
    exact ⟨hj', Nat.lt_succ_of_lt hlt⟩
  · intro hP
    rcases h.stands hP with ⟨hlt, hclosed⟩ | hrec
    · refine .inl ⟨Nat.lt_succ_of_lt hlt, fun x hx => hclosed x ?_⟩
      rwa [Tournaments.rows_setRow, if_neg (by omega)] at hx
    · exact .inr hrec

/-! ## What drops a record -/

/-- The payout of a champion, with the row, does not take effect. -/
def TournamentService.payoutFails (s : TournamentService) (fault : TournamentQuery U → Fault)
    (t : Tournament U) (winnerId : U) : Bool :=
  if s.uow then fault (.payout winnerId (t.finished winnerId)) = .before
  else (0 < t.prize ∧ fault (.credit winnerId t.prize (.prize t.id)) ≠ .none) ∨
    (0 < t.rake ∧ fault (.recordRake t.rake (.rake t.id)) ≠ .none) ∨
    fault (.save (t.finished winnerId)) = .before

variable [DecidableEq U]

/-- The event drops the recorded outcome of the pairing, or replaces it, and leaves the
tournament in play: a restart, a record of another winner, a cancellation whose last write
fails, a report of the final whose payout fails. -/
def Tournaments.forgets (s : TournamentService) (w : Tournaments U) (id round index : ℕ) (v : U) :
    TournamentEvent U → Bool
  | .restart => true
  | .recordRoomOutcome i r k u => i = id ∧ r = round ∧ k = index ∧ u ≠ v
  | .call (.cancel i) fault =>
    match w.rows i with
    | none => false
    | some t => i = id ∧ t.status.inPlay = true ∧ fault (.save t.cancelled) = .before
  | .call (.reportResult i r k winnerId _ auto) fault =>
    match w.rows i with
    | none => false
    | some t =>
      match t.report r k winnerId (if auto then none else w.recordedOutcomes i r k) with
      | .error _ => false
      | .ok t' =>
        match t'.champion? r with
        | none => false
        | some champion => i = id && !s.parks t' auto && s.payoutFails fault t' champion
  | _ => false

/-! ## One call -/

section Calls

variable {fault : TournamentQuery U → Fault} {s : TournamentService}

/-- A new tournament keeps the record. -/
theorem create_keeps (h : Keeping P id round index v w) (buyInCents capacity now : ℤ) :
    Safe (Keeping P id round index v) fault (s.create buyInCents capacity now) w := by
  unfold TournamentService.create
  refine .throwIf h _ _ fun _ => .throwIf h _ _ fun _ => ?_
  have hnew : Keeping P id round index v { w with seq := w.seq + 1 } := h.same rfl (Nat.le_succ _) rfl
  have hcreated := h.create (t :=
    { id := w.seq, buyInCents := buyInCents.toNat, capacity := capacity.toNat, rakeBps := s.rakeBps,
      createdAt := now }) rfl
  exact Safe.ask h .newId hnew (Safe.ask hnew (.create _) hcreated (.pure hcreated _))

/-- A registration under way keeps the record. -/
theorem registerSaga_keeps (h : Keeping P id round index v w) (hrow : w.rows t.id = some t)
    (hs : t.status = .registering) (u : U) :
    Safe (Keeping P id round index v) fault (TournamentService.registerSaga t u) w := by
  have hplay : t.status.inPlay = false → (t.apply u).status.inPlay = false := by
    rw [hs]
    intro hc
    cases hc
  -- the row is written, or the debit is given back
  have hsave : ∀ w', Keeping P id round index v w' → w'.rows t.id = some t → ∀ catches,
      (∀ e w'', Keeping P id round index v w'' → Safe (Keeping P id round index v) fault (catches e) w'') →
      Safe (Keeping P id round index v) fault ((TournamentService.save (t.apply u)).tryCatch catches) w' := by
    intro w' hw' hrow' catches hcatch
    have hsaved := hw'.setRow_read hrow' _ (t.apply_fields u).1 hplay
    unfold Safe Async.Keeps
    rw [Async.wp_tryCatch]
    exact wp_reply (.save (t.apply u)) hsaved (fun _ _ => hcatch _ _ hw') fun _ _ => hcatch _ _ hsaved
  unfold TournamentService.registerSaga
  by_cases hb : 0 < t.buyInCents
  · simp only [if_pos hb]
    have hdebited : Keeping P id round index v (Tournaments.answer (.debit t.id u t.buyInCents) w).2 :=
      h.same rfl (le_refl _) rfl
    refine Safe.ask h (.debit t.id u t.buyInCents) hdebited (hsave _ hdebited hrow _ ?_)
    intro e w'' hw''
    have hback : Keeping P id round index v
        (Tournaments.answer (.credit u t.buyInCents (.rollback t.id u)) w'').2 :=
      hw''.same rfl (le_refl _) rfl
    unfold Safe Async.Keeps
    rw [Async.wp_bind, Async.ignore, Async.wp_tryCatch]
    exact wp_reply (.credit u t.buyInCents (.rollback t.id u)) hback (fun _ _ => hw'') fun _ _ => hback
  · simp only [if_neg hb]
    exact hsave w h hrow _ fun e w'' hw'' => .throw hw'' e

/-- A registration keeps the record. -/
theorem register_keeps (h : Keeping P id round index v w) (i : ℕ) (u : U) :
    Safe (Keeping P id round index v) fault (s.register i u) w := by
  unfold TournamentService.register
  refine Safe.get h i (.throw h _) fun t hrow => ?_
  refine .throwIf h _ _ fun hs => .throwIf h _ _ fun _ => .throwIf h _ _ fun _ => ?_
  have hs : t.status = .registering := by simpa using hs
  obtain rfl : t.id = i := (h.numbered i t hrow).1
  have hrest : Safe (Keeping P id round index v) fault (TournamentService.registerSaga t u >>=
      fun _ => Pure.pure (t.apply u)) w := by
    unfold Safe Async.Keeps
    rw [Async.wp_bind]
    exact registerSaga_keeps h hrow hs u
  by_cases hb : s.uow = true ∧ 0 < t.buyInCents
  · rw [if_pos hb]
    have hescrow : Keeping P id round index v (Tournaments.answer (.escrow u (t.apply u)) w).2 := by
      refine (h.setRow_read hrow _ (t.apply_fields u).1 ?_).same rfl (le_refl _) rfl
      rw [hs]
      intro hc
      cases hc
    exact Safe.ask h (.escrow u (t.apply u)) hescrow (.pure hescrow _)
  · rw [if_neg hb]
    exact hrest

/-- Refunds keep the record. -/
theorem refundAll_keeps (h : Keeping P id round index v w) (hrow : w.rows t.id = some t) :
    (TournamentService.refundAll t).wp (.store (Tournaments.reply fault))
      (fun _ w' => Keeping P id round index v w' ∧ w'.rows t.id = some t)
      (fun _ => Keeping P id round index v) w := by
  unfold TournamentService.refundAll
  split
  · refine Async.wp_forM
      (I := fun _ w' => Keeping P id round index v w' ∧ w'.rows t.id = some t) ?_ ⟨h, hrow⟩
    rintro done u rest - w' ⟨hw', hrow'⟩
    have hbooked : Keeping P id round index v
        (Tournaments.answer (.credit u t.buyInCents (.refund t.id u)) w').2 := hw'.same rfl (le_refl _) rfl
    exact wp_reply (.credit u t.buyInCents (.refund t.id u)) ⟨hbooked, hrow'⟩ (fun _ _ => hw')
      fun _ _ => hbooked
  · exact ⟨h, hrow⟩

/-- A cancelled tournament forgets its own record only. -/
theorem cancel_keeps (h : Keeping P id round index v w) (i : ℕ)
    (hok : P → w.forgets s id round index v (.call (.cancel i) fault) = false) :
    Safe (Keeping P id round index v) fault (TournamentService.cancel i) w := by
  unfold TournamentService.cancel
  refine Safe.get h i (.throw h _) fun t hrow => ?_
  refine .throwIf h _ _ fun _ => ?_
  obtain rfl : t.id = i := (h.numbered i t hrow).1
  have hsave : P → t.id = id → t.status.inPlay = true → ¬ fault (.save t.cancelled) = .before := by
    intro hP hi hplay hf
    have hno := hok hP
    unfold Tournaments.forgets at hno
    simp only [hrow] at hno
    simp [hi, hplay, hf] at hno
  refine Async.Keeps.bind (refundAll_keeps h hrow) ?_
  rintro - w' ⟨hw', hrow'⟩
  have hdropped := hw'.clear _ hrow' hsave
  refine Safe.askMemory (.clearRecordedOutcomes t.id) rfl ?_
  have hclosed := hdropped.close t.cancelled rfl rfl
  unfold Safe Async.Keeps
  rw [Async.wp_bind]
  exact wp_reply (.save t.cancelled) hclosed (fun _ hf => hdropped.failed hf) fun _ _ => hclosed

/-- A deleted tournament was over. -/
theorem adminDelete_keeps (h : Keeping P id round index v w) (i : ℕ) :
    Safe (Keeping P id round index v) fault (TournamentService.adminDelete i) w := by
  unfold TournamentService.adminDelete
  refine Safe.get h i (.pure h _) fun t hrow => ?_
  refine .throwIf h _ _ fun hs => ?_
  obtain rfl : t.id = i := (h.numbered i t hrow).1
  have hcleared : Keeping P id round index v (w.cleared t.id) := by
    refine (h.clear True hrow ?_).failed trivial
    intro _ _ hplay _
    cases hst : t.status <;> simp [hst, TournamentStatus.sweepable, TournamentStatus.inPlay] at hs hplay
  have hdeleted := hcleared.delete t.id
  refine Safe.ask h (.clearRecordedOutcomes t.id) hcleared ?_
  exact wp_reply (.delete t.id) hdeleted (fun _ _ => hcleared) fun _ _ => hdeleted

/-- The sweep keeps the record, unless it cancels the tournament. -/
theorem sweepStale_keeps (h : Keeping P id round index v w) (now maxAgeMs : ℤ) :
    Safe (Keeping P id round index v) fault (TournamentService.sweepStale now maxAgeMs) w := by
  unfold TournamentService.sweepStale
  refine Safe.ask h .listAll h ?_
  refine Async.wp_foldlM (I := Keeping P id round index v) ?_ h
  intro voided snap _ w' hw'
  show Safe _ fault (TournamentService.sweepOne (now - maxAgeMs) voided snap) w'
  unfold TournamentService.sweepOne
  split
  · exact .pure hw' _
  · refine Safe.get hw' snap.id (.pure hw' _) fun t hrow => ?_
    dsimp only
    split
    · exact .pure hw' _
    · have hid : t.id = snap.id := (hw'.numbered _ t hrow).1
      rw [← hid] at hrow
      refine Async.Keeps.bind (refundAll_keeps hw' hrow) ?_
      rintro - x ⟨hx, hrow'⟩
      have hsaved := hx.setRow_read hrow' t.cancelled rfl fun _ => rfl
      exact Safe.ask hx (.save t.cancelled) hsaved (.pure hsaved _)

/-- Prize and rake move money only; where one fails, so does the payout. -/
theorem payoutChampion_drops (fault : TournamentQuery U → Fault) {fails : Prop}
    (h : Dropped P fails id round index v t.id w) (u : U)
    (hprize : 0 < t.prize → fault (.credit u t.prize (.prize t.id)) ≠ .none → fails)
    (hrake : 0 < t.rake → fault (.recordRake t.rake (.rake t.id)) ≠ .none → fails) :
    (TournamentService.payoutChampion u t).wp (.store (Tournaments.reply fault))
      (fun _ => Dropped P fails id round index v t.id) (fun _ => Keeping P id round index v) w := by
  have hrecord : ∀ w', Dropped P fails id round index v t.id w' → 0 < t.rake →
      (Async.await (TournamentQuery.recordRake t.rake (.rake t.id)) : Organiser U Unit).wp
        (.store (Tournaments.reply fault)) (fun _ => Dropped P fails id round index v t.id)
        (fun _ => Keeping P id round index v) w' := by
    intro w' hw' hr
    have hbooked : Dropped P fails id round index v t.id
        (Tournaments.answer (.recordRake t.rake (.rake t.id)) w').2 := hw'.same rfl rfl rfl
    refine wp_reply (.recordRake t.rake (.rake t.id)) hbooked ?_ ?_
    · intro _ hf
      exact hw'.failed (hrake hr (by rw [hf]; decide))
    · intro _ hf
      exact hbooked.failed (hrake hr (by rw [hf]; decide))
  have hrest : ∀ w', Dropped P fails id round index v t.id w' →
      (if 0 < t.rake then .await (TournamentQuery.recordRake t.rake (.rake t.id)) else pure () :
        Organiser U Unit).wp
        (.store (Tournaments.reply fault)) (fun _ => Dropped P fails id round index v t.id)
        (fun _ => Keeping P id round index v) w' := by
    intro w' hw'
    by_cases hr : 0 < t.rake
    · rw [if_pos hr]
      exact hrecord w' hw' hr
    · rw [if_neg hr]
      exact hw'
  unfold TournamentService.payoutChampion
  by_cases hp : 0 < t.prize
  · simp only [if_pos hp]
    have hbooked : Dropped P fails id round index v t.id
        (Tournaments.answer (.credit u t.prize (.prize t.id)) w).2 := h.same rfl rfl rfl
    rw [Async.wp_bind]
    refine wp_reply (.credit u t.prize (.prize t.id)) (hrest _ hbooked) ?_ ?_
    · intro _ hf
      exact h.failed (hprize hp (by rw [hf]; decide))
    · intro _ hf
      exact hbooked.failed (hprize hp (by rw [hf]; decide))
  · simp only [if_neg hp]
    exact hrest w h

/-- The champion is paid. Where that fails, the caller has seen to it that the outcome stands. -/
theorem finish_keeps (h : Keeping P id round index v w) (hrow : w.rows t.id = some t) (t' : Tournament U)
    (hid : t'.id = t.id) (u : U)
    (hok : P → t.id = id → t.status.inPlay = true → ¬ s.payoutFails fault t' u = true) :
    Safe (Keeping P id round index v) fault (s.finish t' u) w := by
  unfold TournamentService.finish
  have hdropped := h.clear _ hrow hok
  rw [← hid] at hdropped
  refine Safe.askMemory (.clearRecordedOutcomes t'.id) rfl ?_
  show Safe _ fault _ (w.cleared t'.id)
  by_cases huow : s.uow = true
  · rw [if_pos huow]
    have hpaid : Keeping P id round index v
        (Tournaments.answer (.payout u (t'.finished u)) (w.cleared t'.id)).2 := by
      exact (hdropped.close (t'.finished u) rfl rfl).same rfl (le_refl _) rfl
    unfold Safe Async.Keeps
    rw [Async.wp_bind]
    refine wp_reply (.payout u (t'.finished u)) hpaid (fun _ hf => hdropped.failed ?_) fun _ _ => hpaid
    simp [TournamentService.payoutFails, huow, hf]
  · rw [if_neg huow]
    -- the prize and the rake, then the row
    have hpay := payoutChampion_drops fault hdropped u
      (fun hp hf => by simp [TournamentService.payoutFails, huow, hp, hf])
      (fun hr hf => by simp [TournamentService.payoutFails, huow, hr, hf])
    unfold Safe Async.Keeps
    rw [Async.wp_bind]
    refine Async.wp_mono hpay ?_ fun _ _ he => he
    rintro - w' hw'
    have hsaved := hw'.close (t'.finished u) rfl rfl
    rw [Async.wp_bind]
    refine wp_reply (.save (t'.finished u)) hsaved (fun _ hf => hw'.failed ?_) fun _ _ => hsaved
    simp [TournamentService.payoutFails, huow, hf]

/-- A winner who moves on keeps the record. -/
theorem advance_keeps (h : Keeping P id round index v w) (hrow : w.rows t.id = some t)
    (hs : t.status = .running) (r k : ℕ) (winner : U) (admin : Option U) (auto : Bool)
    (hok : P → t.id = id → ∀ champion, (t.decideMatch r k winner).champion? r = some champion →
      s.parks (t.decideMatch r k winner) auto = false →
        ¬ s.payoutFails fault (t.decideMatch r k winner) champion = true) :
    Safe (Keeping P id round index v) fault (s.advance (t.decideMatch r k winner) r admin auto) w := by
  have hplay : ∀ {x : Tournament U}, t.status.inPlay = false → x.status.inPlay = false := by
    rw [hs]
    intro x hc
    cases hc
  unfold TournamentService.advance
  split
  · rename_i champion hchampion
    by_cases hparks : s.parks (t.decideMatch r k winner) auto = true
    · rw [if_pos hparks]
      have hsaved := h.setRow_read hrow ((t.decideMatch r k winner).park champion admin) rfl hplay
      exact Safe.ask h (.save _) hsaved (.pure hsaved _)
    · rw [if_neg hparks]
      exact finish_keeps h hrow (t.decideMatch r k winner) rfl champion fun hP hi _ =>
        hok hP hi champion hchampion (by simpa using hparks)
  · have hid : ((t.decideMatch r k winner).nextRound r).id = t.id := by
      unfold Tournament.nextRound
      dsimp only
      split <;> rfl
    have hsaved := h.setRow_read hrow _ hid hplay
    exact Safe.ask h (.save _) hsaved (.pure hsaved _)

/-- A report keeps the record, unless it ends the tournament. -/
theorem reportResult_keeps (h : Keeping P id round index v w) (i r k : ℕ) (winner : U) (admin : Option U)
    (auto : Bool)
    (hok : P → w.forgets s id round index v (.call (.reportResult i r k winner admin auto) fault) = false) :
    Safe (Keeping P id round index v) fault (s.reportResult i r k winner admin auto) w := by
  unfold TournamentService.reportResult
  unfold Tournaments.forgets at hok
  refine Safe.get h i (.throw h _) fun t hrow => ?_
  simp only [hrow] at hok
  obtain rfl : t.id = i := (h.numbered i t hrow).1
  -- what the service remembers is read, and nothing changes
  have hadvance : ∀ recorded, recorded = (if auto then none else w.recordedOutcomes t.id r k) →
      Safe (Keeping P id round index v) fault (match t.report r k winner recorded with
        | .error e => throw e
        | .ok t => s.advance t r admin auto) w := by
    rintro recorded rfl
    cases hreport : t.report r k winner (if auto then none else w.recordedOutcomes t.id r k) with
    | error e => exact .throw h e
    | ok t' =>
      simp only [hreport] at hok
      obtain ⟨hrunning, rfl, -⟩ := report_ok hreport
      refine advance_keeps h hrow hrunning r k winner admin auto ?_
      intro hP hi champion hchampion hparks hfails
      have hno := hok hP
      simp only [hchampion, hparks, hfails, hi] at hno
      simp at hno
  unfold TournamentService.recordedFor
  cases auto with
  | true => exact hadvance none rfl
  | false => exact Safe.ask h (.recordedOutcome t.id r k) h (hadvance _ rfl)

/-- A confirmation keeps the record. -/
theorem confirmChampion_keeps (h : Keeping P id round index v w) (i : ℕ) (admin : U) :
    Safe (Keeping P id round index v) fault (s.confirmChampion i admin) w := by
  unfold TournamentService.confirmChampion
  refine Safe.get h i (.throw h _) fun t hrow => ?_
  obtain rfl : t.id = i := (h.numbered i t hrow).1
  dsimp only
  split
  · exact .throw h _
  · rename_i champion hconfirm
    refine finish_keeps h hrow { t with pendingWinnerId := none, reportedByAdminId := none } rfl champion ?_
    -- a parked champion is out of play already
    intro _ _ hplay
    unfold TournamentService.confirmable at hconfirm
    split at hconfirm
    · rename_i hawaits _
      rw [hawaits] at hplay
      cases hplay
    · cases hconfirm

end Calls

/-! ## Every run -/

/-- **Every event that does not drop the record of a tournament in play keeps the outcome.** -/
theorem tournament_step_stands {s : TournamentService} (h : Keeping P id round index v w)
    (e : TournamentEvent U) (hok : P → w.forgets s id round index v e = false) :
    Keeping P id round index v (w.step s e) := by
  cases e with
  | call c fault =>
    refine Async.Keeps.exec (I := Keeping P id round index v) ?_
    cases c with
    | create buyInCents capacity now => exact (create_keeps h buyInCents capacity now).map _
    | register i u => exact (register_keeps h i u).map _
    | reportResult i r k winner admin auto =>
      exact (reportResult_keeps h i r k winner admin auto hok).map _
    | confirmChampion i admin => exact (confirmChampion_keeps h i admin).map _
    | cancel i => exact (cancel_keeps h i hok).map _
    | adminDelete i => exact (adminDelete_keeps h i).map _
    | sweepStale now maxAgeMs => exact (sweepStale_keeps h now maxAgeMs).map _
  | restart =>
    refine ⟨h.numbered, fun hP => ?_⟩
    cases hok hP
  | recordRoomOutcome i r k u =>
    refine ⟨h.numbered, fun hP => ?_⟩
    rcases h.stands hP with hclosed | hrec
    · exact .inl hclosed
    · right
      have hno := hok hP
      show (if id = i ∧ round = r ∧ index = k then some u else w.recordedOutcomes id round index) = some v
      split
      · rename_i hkey
        obtain ⟨rfl, rfl, rfl⟩ := hkey
        simp only [Tournaments.forgets, true_and, decide_eq_false_iff_not, not_not] at hno
        rw [hno]
      · exact hrec

/-- A manual report that names another winner than the record is refused. -/
theorem report_refused {u : U} (hne : u ≠ v) (hrow : w.rows id = some t)
    (h : Stands w id round index v) :
    ∃ e, t.report round index u (w.recordedOutcomes id round index) = .error e := by
  cases hreport : t.report round index u (w.recordedOutcomes id round index) with
  | error e => exact ⟨e, rfl⟩
  | ok t' =>
    obtain ⟨hrunning, -, hsame⟩ := report_ok hreport
    rcases h with ⟨-, hclosed⟩ | hrec
    · have hplay := hclosed t hrow
      rw [hrunning] at hplay
      cases hplay
    · rw [hrec] at hsame
      simp [Ne.symm hne] at hsame

/-- **An outcome that the gateway recorded stands**: whatever calls are made and whatever fails
in them, as long as none drops the record while the tournament stays in play, a manual report
of the pairing with another winner is refused and changes nothing. -/
theorem recorded_outcome_stands (s : TournamentService) (before after : List (TournamentEvent U))
    (id round index : ℕ) (v : U)
    (hafter : Guarded (Tournaments.step s) (fun w e => w.forgets s id round index v e = false)
      ((run (Tournaments.step s) {} before).step s (.recordRoomOutcome id round index v)) after)
    (u : U) (hne : u ≠ v) (admin : Option U) (fault : TournamentQuery U → Fault) :
    let w := run (Tournaments.step s) {} (before ++ .recordRoomOutcome id round index v :: after)
    ∃ e, w.call s (.reportResult id round index u admin false) fault = (.error e, w) := by
  intro w
  have hempty : Numbered ({} : Tournaments U) := by
    intro j t hj
    cases hj
  have hboot : Keeping False id round index v ({} : Tournaments U) := ⟨hempty, False.elim⟩
  have hbefore : Keeping False id round index v (run (Tournaments.step s) {} before) :=
    run_inv (P := Keeping False id round index v)
      (fun _ e hw => tournament_step_stands hw e False.elim) hboot before
  have hrecorded : Keeping True id round index v
      ((run (Tournaments.step s) {} before).step s (.recordRoomOutcome id round index v)) :=
    ⟨hbefore.numbered, fun _ => .inr (if_pos ⟨rfl, rfl, rfl⟩)⟩
  have hw : Keeping True id round index v w := by
    have hrun := guarded_inv (P := Keeping True id round index v)
      (fun _ e hw he => tournament_step_stands hw e fun _ => he) hrecorded after hafter
    have heq : w = run (Tournaments.step s)
        ((run (Tournaments.step s) {} before).step s (.recordRoomOutcome id round index v)) after := by
      show run _ _ _ = _
      rw [run_append, run_cons]
    rw [heq]
    exact hrun
  -- the report reads the row and the record, and throws
  have hthrows : (s.reportResult id round index u admin false).wp (.store (Tournaments.reply fault))
      (fun _ _ => False) (fun _ w' => w' = w) w := by
    unfold TournamentService.reportResult
    refine wp_get rfl rfl fun t hrow => ?_
    obtain ⟨e, he⟩ := report_refused hne hrow (hw.stands trivial)
    dsimp only
    rw [Async.wp_bind]
    refine wp_reply (.recordedOutcome id round index) ?_ (fun _ _ => rfl) fun _ _ => rfl
    dsimp only [Tournaments.answer]
    rw [he]
    rfl
  have hcall : ((TournamentCall.reportResult id round index u admin false).program s).wp
      (.store (Tournaments.reply fault)) (fun _ _ => False) (fun _ w' => w' = w) w := by
    show (s.reportResult id round index u admin false >>= fun t =>
      Pure.pure (TournamentReceipt.tournament t)).wp _ _ _ w
    rw [Async.wp_bind]
    exact Async.wp_mono hthrows (fun _ _ hF => hF.elim) fun _ _ hw' => hw'
  have hexec := Async.exec_of_wp hcall
  unfold Tournaments.call
  cases hres : ((TournamentCall.reportResult id round index u admin false).program s).exec
      (Tournaments.reply fault) w with
  | mk r w' =>
    rw [hres] at hexec
    cases r with
    | ok a => exact hexec.elim
    | error e =>
      obtain rfl : w' = w := hexec
      exact ⟨e, rfl⟩

/-- A tournament of two that is running. -/
def twoPlayers : List (TournamentEvent ℕ) :=
  [.call (.create 100 2 0) fun _ => .none, .call (.register 0 7) fun _ => .none,
    .call (.register 0 8) fun _ => .none]

/-- A sweep whose last write fails drops no record. -/
def failedSweep : List (TournamentEvent ℕ) :=
  [.call (.sweepStale 10 5) fun q => match q with
    | .save _ => .before
    | _ => .none]

/-- A sweep that fails leaves the record: the other result is refused. -/
theorem recorded_outcome_stands_swept :
    ∃ e, (run (Tournaments.step tenPercent) {}
        (twoPlayers ++ .recordRoomOutcome 0 0 0 7 :: failedSweep)).call tenPercent
          (.reportResult 0 0 0 8 none false) (fun _ => .none) =
      (.error e, run (Tournaments.step tenPercent) {}
        (twoPlayers ++ .recordRoomOutcome 0 0 0 7 :: failedSweep)) :=
  recorded_outcome_stands tenPercent twoPlayers failedSweep 0 0 0 7 (by decide +kernel) 8 (by decide)
    none fun _ => .none

/-- The payout of the recorded winner fails: then a manual report of the other is accepted. -/
theorem recorded_outcome_overturned :
    ((run (Tournaments.step tenPercent) {}
      (twoPlayers ++ [.recordRoomOutcome 0 0 0 7,
        .call (.reportResult 0 0 0 7 none true) fun q => match q with
          | .payout _ _ => .before
          | _ => .none,
        .call (.reportResult 0 0 0 8 (some 9) false) fun _ => .none])).rows 0).map
      (fun t => (t.status, t.winnerId)) = some (.finished, some 8) := by
  decide +kernel

end Murlan
