import Murlan.Proof.Bracket

/-!
# Brackets over runs

What every event makes of the row of a tournament, whatever fails in it, and from it what
every run makes of the bracket.

* `RowFate`: a row stays, is opened, is deleted, is cancelled, or takes one `RowStep`.
* `tournament_step_fated`: every event gives every row one of these fates.
* `bracket_invariant`: **the bracket of every tournament of every run** is in order, what is
  decided in it stays decided, and its decided pairings are the reports accepted so far.
-/

namespace Murlan

open Tournament (RowStep StaysIn)

variable {U : Type} {w w' w'' : Tournaments U} {t t' : Tournament U} {id k : ℕ}

/-- At the end of a call that writes the row `t'`: it is written, or nothing is. -/
structure Ends (w : Tournaments U) (t' : Tournament U) (w' : Tournaments U) : Prop where
  seq : w'.seq = w.seq
  rows : w'.rows = w.rows ∨ w'.rows = Function.update w.rows t'.id (some t')

theorem Ends.refl (w : Tournaments U) (t' : Tournament U) : Ends w t' w := ⟨rfl, Or.inl rfl⟩

/-- Money moves, or the service remembers something. -/
theorem Ends.same (h : Ends w t' w') (hs : w''.seq = w'.seq) (hr : w''.rows = w'.rows) : Ends w t' w'' := by
  refine ⟨hs.trans h.seq, ?_⟩
  rw [hr]
  exact h.rows

/-- The row written is the one the call ends with. -/
theorem Ends.write (h : Ends w t' w') (hs : w''.seq = w'.seq) (hr : w''.rows = (w'.setRow t').rows) :
    w''.seq = w.seq ∧ w''.rows = Function.update w.rows t'.id (some t') := by
  refine ⟨hs.trans h.seq, ?_⟩
  rw [hr]
  show Function.update w'.rows t'.id (some t') = _
  rcases h.rows with hr | hr
  · rw [hr]
  · rw [hr, Function.update_idem]

theorem Ends.written (h : Ends w t' w') (hs : w''.seq = w'.seq) (hr : w''.rows = (w'.setRow t').rows) : Ends w t' w'' :=
  ⟨(h.write hs hr).1, Or.inr (h.write hs hr).2⟩

/-- A cancellation or a sweep: rows stay, or are cancelled. -/
def Voids (w w' : Tournaments U) : Prop :=
  w'.seq = w.seq ∧ ∀ j, w'.rows j = w.rows j ∨ ∃ t, w.rows j = some t ∧ w'.rows j = some t.cancelled

theorem Voids.same (h : Voids w w') (hs : w''.seq = w'.seq) (hr : w''.rows = w'.rows) : Voids w w'' := by
  refine ⟨hs.trans h.1, ?_⟩
  rw [hr]
  exact h.2

/-- The row of an open tournament is cancelled: it has not been before. -/
theorem Voids.cancel (h : Voids w w') (hn : Numbered w) (hrow : w'.rows id = some t) (hs : t.status.sweepable = true) :
    Voids w (w'.setRow t.cancelled) := by
  have hold : w.rows id = some t := by
    rcases h.2 id with hsame | ⟨x, -, hx⟩
    · exact hsame ▸ hrow
    · rw [hrow] at hx
      cases hx
      cases hs
  have hid : t.cancelled.id = id := (hn id t hold).1
  refine ⟨h.1, fun j => ?_⟩
  rw [Tournaments.rows_setRow, hid]
  by_cases hj : j = id
  · subst hj
    exact Or.inr ⟨t, hold, if_pos rfl⟩
  · rw [if_neg hj]
    exact h.2 j

/-! ## One call -/

section Calls

variable [DecidableEq U] {fault : TournamentQuery U → Fault} {s : TournamentService}

/-- A registration ends with the player in the row, or without. -/
theorem registerSaga_ends (t : Tournament U) (u : U) (w : Tournaments U) :
    Safe (Ends w (t.apply u)) fault (TournamentService.registerSaga t u) w := by
  have hsave : ∀ w', Ends w (t.apply u) w' → ∀ catches,
      (∀ e w'', Ends w (t.apply u) w'' → Safe (Ends w (t.apply u)) fault (catches e) w'') →
      Safe (Ends w (t.apply u)) fault ((TournamentService.save (t.apply u)).tryCatch catches) w' := by
    intro w' hw' catches hcatch
    have hsaved : Ends w (t.apply u) (Tournaments.answer (.save (t.apply u)) w').2 := hw'.written rfl rfl
    unfold Safe Async.Keeps
    rw [Async.wp_tryCatch]
    exact wp_reply (.save (t.apply u)) hsaved (fun _ _ => hcatch _ _ hw') fun _ _ => hcatch _ _ hsaved
  unfold TournamentService.registerSaga
  by_cases hb : 0 < t.buyInCents
  · simp only [if_pos hb]
    have hdebited : Ends w (t.apply u) (Tournaments.answer (.debit t.id u t.buyInCents) w).2 :=
      (Ends.refl w _).same rfl rfl
    refine Safe.ask (.refl w _) (.debit t.id u t.buyInCents) hdebited (hsave _ hdebited _ ?_)
    intro e w'' hw''
    have hback : Ends w (t.apply u) (Tournaments.answer (.credit u t.buyInCents (.rollback t.id u)) w'').2 :=
      hw''.same rfl rfl
    unfold Safe Async.Keeps
    rw [Async.wp_bind, Async.ignore, Async.wp_tryCatch]
    exact wp_reply (.credit u t.buyInCents (.rollback t.id u)) hback (fun _ _ => hw'') fun _ _ => hback
  · simp only [if_neg hb]
    exact hsave w (.refl w _) _ fun e w'' hw'' => .throw hw'' e

/-- What a call on one tournament leaves behind. -/
def Rewrites (k : ℕ) (w : Tournaments U) (id : ℕ) (w' : Tournaments U) : Prop :=
  w'.seq = w.seq ∧ (w'.rows = w.rows ∨ ∃ t t', w.rows id = some t ∧ RowStep k t t' ∧
    w'.rows = Function.update w.rows id (some t'))

theorem Rewrites.refl (k : ℕ) (w : Tournaments U) (id : ℕ) : Rewrites k w id w := ⟨rfl, Or.inl rfl⟩

theorem Ends.rewrites (h : Ends w t' w') (hrow : w.rows id = some t) (hid : t'.id = id) (hstep : RowStep k t t') :
    Rewrites k w id w' := by
  refine ⟨h.seq, h.rows.imp_right fun hr => ⟨t, t', hrow, hstep, ?_⟩⟩
  rw [hr, hid]

/-- A registration rewrites its own row. -/
theorem register_rewrites (h : Numbered w) (id : ℕ) (u : U) : Safe (Rewrites 0 w id) fault (s.register id u) w := by
  unfold TournamentService.register
  refine Safe.get (.refl 0 w id) id (.throw (.refl 0 w id) _) fun t hrow => ?_
  refine .throwIf (.refl 0 w id) _ _ fun hs => .throwIf (.refl 0 w id) _ _ fun hu => .throwIf (.refl 0 w id) _ _ fun hlt => ?_
  have hid : (t.apply u).id = id := (t.apply_fields u).1.trans (h id t hrow).1
  have hstep : RowStep 0 t (t.apply u) := .registers (by simpa using hs) hu (by omega)
  have hends : ∀ w', Ends w (t.apply u) w' → Rewrites 0 w id w' := fun w' hw' => hw'.rewrites hrow hid hstep
  by_cases hescrow : s.uow ∧ 0 < t.buyInCents
  · rw [if_pos hescrow]
    have hw' : Ends w (t.apply u) (Tournaments.answer (.escrow u (t.apply u)) w).2 := (Ends.refl w _).written rfl rfl
    exact Safe.ask (.refl 0 w id) (.escrow u (t.apply u)) (hends _ hw') (.pure (hends _ hw') _)
  · rw [if_neg hescrow]
    refine Async.Keeps.bind (Async.wp_mono (registerSaga_ends t u w)
      (fun _ w' hw' => hends w' hw') fun _ w' hw' => hends w' hw') ?_
    exact fun _ w' hw' => .pure hw' _

/-- Prize and rake move money only. -/
theorem payoutChampion_ends (c : U) (hw : Ends w t' w') :
    (TournamentService.payoutChampion c t).wp (.store (Tournaments.reply fault)) (fun _ => Ends w t')
      (fun _ => Ends w t') w' := by
  have hrake : ∀ w'', Ends w t' w'' →
      (if 0 < t.rake then .await (TournamentQuery.recordRake t.rake (.rake t.id)) else pure () : Organiser U Unit).wp
        (.store (Tournaments.reply fault)) (fun _ => Ends w t') (fun _ => Ends w t') w'' := by
    intro w'' hw''
    by_cases hr : 0 < t.rake
    · rw [if_pos hr]
      have hbooked : Ends w t' (Tournaments.answer (.recordRake t.rake (.rake t.id)) w'').2 := hw''.same rfl rfl
      exact wp_reply (.recordRake t.rake (.rake t.id)) hbooked (fun _ _ => hw'') fun _ _ => hbooked
    · rw [if_neg hr]
      exact hw''
  unfold TournamentService.payoutChampion
  by_cases hp : 0 < t.prize
  · simp only [if_pos hp]
    have hpaid : Ends w t' (Tournaments.answer (.credit c t.prize (.prize t.id)) w').2 := hw.same rfl rfl
    rw [Async.wp_bind]
    exact wp_reply (.credit c t.prize (.prize t.id)) (hrake _ hpaid) (fun _ _ => hw) fun _ _ => hpaid
  · simp only [if_neg hp]
    exact hrake w' hw

/-- A call that returns has written the row. -/
def Saved (w : Tournaments U) (t' : Tournament U) (w' : Tournaments U) : Prop :=
  w'.seq = w.seq ∧ w'.rows = Function.update w.rows t'.id (some t')

theorem save_saves (t' : Tournament U) (h : Ends w t' w') :
    (TournamentService.save t' >>= fun _ => pure t').wp (.store (Tournaments.reply fault)) (fun _ => Saved w t')
      (fun _ => Ends w t') w' := by
  have hsaved : Ends w t' (Tournaments.answer (.save t') w').2 := h.written rfl rfl
  rw [Async.wp_bind]
  exact wp_reply (.save t') (h.write rfl rfl) (fun _ _ => h) fun _ _ => hsaved

/-- A tournament that finishes saves its champion. -/
theorem finish_saves (t : Tournament U) (c : U) (w : Tournaments U) :
    (s.finish t c).wp (.store (Tournaments.reply fault)) (fun _ => Saved w (t.finished c))
      (fun _ => Ends w (t.finished c)) w := by
  have hcleared : Ends w (t.finished c) (Tournaments.answer (.clearRecordedOutcomes t.id) w).2 :=
    (Ends.refl w _).same rfl rfl
  unfold TournamentService.finish TournamentService.clearRecordedOutcomes
  rw [Async.wp_bind]
  refine wp_reply (.clearRecordedOutcomes t.id) ?_ (fun _ _ => .refl w _) fun _ _ => hcleared
  by_cases huow : s.uow = true
  · rw [if_pos huow, Async.wp_bind]
    have hpaid : Saved w (t.finished c) (Tournaments.answer (.payout c (t.finished c))
        (Tournaments.answer (.clearRecordedOutcomes t.id) w).2).2 := hcleared.write rfl rfl
    exact wp_reply (.payout c (t.finished c)) hpaid (fun _ _ => hcleared) fun _ _ => ⟨hpaid.1, Or.inr hpaid.2⟩
  · rw [if_neg huow, Async.wp_bind]
    refine Async.wp_mono (payoutChampion_ends c hcleared) ?_ fun _ _ he => he
    intro _ w' hw'
    exact save_saves (t.finished c) hw'

/-- What a report leaves behind: one that returns has written the row. -/
def Reports (w : Tournaments U) (id : ℕ) (w' : Tournaments U) : Prop :=
  w'.seq = w.seq ∧ ∃ t t', w.rows id = some t ∧ RowStep 1 t t' ∧ w'.rows = Function.update w.rows id (some t')

theorem Saved.reports (h : Saved w t' w') (hrow : w.rows id = some t) (hid : t'.id = id) (hstep : RowStep 1 t t') :
    Reports w id w' := by
  refine ⟨h.1, t, t', hrow, hstep, ?_⟩
  rw [h.2, hid]

/-- A winner moves on as the report says. -/
theorem advance_reports {r i : ℕ} {u : U} {recorded : Option U} (hrow : w.rows id = some t) (hid : t'.id = id)
    (hr : t.report r i u recorded = .ok t') (admin : Option U) (auto : Bool) :
    (s.advance t' r admin auto).wp (.store (Tournaments.reply fault)) (fun _ => Reports w id)
      (fun _ => Rewrites 1 w id) w := by
  unfold TournamentService.advance
  split
  · rename_i c hc
    by_cases hparks : s.parks t' auto = true
    · rw [if_pos hparks]
      refine Async.wp_mono (save_saves (t'.park c admin) (.refl w _)) ?_ ?_
      · exact fun _ _ h => h.reports hrow hid (.parks hr hc admin)
      · exact fun _ _ h => h.rewrites hrow hid (.parks hr hc admin)
    · rw [if_neg hparks]
      refine Async.wp_mono (finish_saves t' c w) ?_ ?_
      · exact fun _ _ h => h.reports hrow hid (.pays hr hc)
      · exact fun _ _ h => h.rewrites hrow hid (.pays hr hc)
  · rename_i hc
    have hnext : (t'.nextRound r).id = id := (t'.nextRound_id r).trans hid
    refine Async.wp_mono (save_saves (t'.nextRound r) (.refl w _)) ?_ ?_
    · exact fun _ _ h => h.reports hrow hnext (.reports hr hc)
    · exact fun _ _ h => h.rewrites hrow hnext (.reports hr hc)

/-- A report decides one slot at most. -/
theorem reportResult_reports (h : Numbered w) (id r i : ℕ) (u : U) (admin : Option U) (auto : Bool) :
    (s.reportResult id r i u admin auto).wp (.store (Tournaments.reply fault)) (fun _ => Reports w id)
      (fun _ => Rewrites 1 w id) w := by
  unfold TournamentService.reportResult
  refine wp_get (.refl 1 w id) (.refl 1 w id) fun t hrow => ?_
  dsimp only
  rw [Async.wp_bind]
  refine recordedFor_wp (fun recorded => ?_) id r i auto
  cases hr : t.report r i u recorded with
  | error e => exact .refl 1 w id
  | ok t' =>
    have hid : t'.id = id := by
      obtain ⟨-, rfl, -⟩ := report_ok hr
      exact (h id t hrow).1
    exact advance_reports hrow hid hr admin auto

/-- Only a tournament that waits is confirmed. -/
theorem confirmable_ok {admin c : U} (h : TournamentService.confirmable t admin = .ok c) :
    t.status = .awaitingConfirmation ∧ t.pendingWinnerId = some c := by
  unfold TournamentService.confirmable at h
  split at h
  · rename_i hs hp
    split at h
    · cases h
    · cases h
      exact ⟨hs, hp⟩
  · cases h

/-- A confirmation rewrites its own row. -/
theorem confirmChampion_rewrites (h : Numbered w) (id : ℕ) (admin : U) :
    Safe (Rewrites 0 w id) fault (s.confirmChampion id admin) w := by
  unfold TournamentService.confirmChampion
  refine Safe.get (.refl 0 w id) id (.throw (.refl 0 w id) _) fun t hrow => ?_
  dsimp only
  split
  · exact .throw (.refl 0 w id) _
  · rename_i c hconfirm
    obtain ⟨hs, hc⟩ := confirmable_ok hconfirm
    have hid : t.id = id := (h id t hrow).1
    refine Async.wp_mono (finish_saves { t with pendingWinnerId := none, reportedByAdminId := none } c w) ?_ ?_
    · intro _ w' hw'
      exact Ends.rewrites ⟨hw'.1, Or.inr hw'.2⟩ hrow hid (.confirms hs hc)
    · intro _ w' hw'
      exact hw'.rewrites hrow hid (.confirms hs hc)

/-- Refunds change no row. -/
theorem refundAll_voids (t : Tournament U) (h : Voids w w') :
    (TournamentService.refundAll t).wp (.store (Tournaments.reply fault))
      (fun _ w'' => Voids w w'' ∧ w''.rows = w'.rows) (fun _ => Voids w) w' := by
  unfold TournamentService.refundAll
  split
  · refine Async.wp_forM (I := fun _ w'' => Voids w w'' ∧ w''.rows = w'.rows) ?_ ⟨h, rfl⟩
    rintro done u rest - x ⟨hx, hrows⟩
    have hbooked : Voids w (Tournaments.answer (.credit u t.buyInCents (.refund t.id u)) x).2 := hx.same rfl rfl
    exact wp_reply (.credit u t.buyInCents (.refund t.id u)) ⟨hbooked, hrows⟩ (fun _ _ => hx) fun _ _ => hbooked
  · exact ⟨h, rfl⟩

/-- A cancelled tournament is void. -/
theorem cancel_voids (h : Numbered w) (id : ℕ) : Safe (Voids w) fault (TournamentService.cancel id) w := by
  have hw : Voids w w := ⟨rfl, fun _ => Or.inl rfl⟩
  unfold TournamentService.cancel
  refine Safe.get hw id (.throw hw _) fun t hrow => ?_
  refine .throwIf hw _ _ fun hs => ?_
  refine Async.Keeps.bind (refundAll_voids t hw) ?_
  rintro - x ⟨hx, hrows⟩
  have hcleared : Voids w (Tournaments.answer (.clearRecordedOutcomes t.id) x).2 := hx.same rfl rfl
  have hrow' : (Tournaments.answer (.clearRecordedOutcomes t.id) x).2.rows id = some t := hrows ▸ hrow
  have hsaved := hcleared.cancel h hrow' (by simpa using hs)
  exact Safe.ask hx (.clearRecordedOutcomes t.id) hcleared (Safe.ask hcleared (.save t.cancelled) hsaved (.pure hsaved _))

/-- The sweep voids what it cancels. -/
theorem sweepStale_voids (h : Numbered w) (now maxAgeMs : ℤ) :
    Safe (Voids w) fault (TournamentService.sweepStale now maxAgeMs) w := by
  have hw : Voids w w := ⟨rfl, fun _ => Or.inl rfl⟩
  unfold TournamentService.sweepStale
  refine Safe.ask hw .listAll hw (Async.wp_foldlM (I := Voids w) ?_ hw)
  intro voided snap _ w' hw'
  show Safe _ fault (TournamentService.sweepOne (now - maxAgeMs) voided snap) w'
  unfold TournamentService.sweepOne
  split
  · exact .pure hw' _
  · refine Safe.get hw' snap.id (.pure hw' _) fun t hrow => ?_
    dsimp only
    split
    · exact .pure hw' _
    · rename_i hs
      refine Async.Keeps.bind (refundAll_voids t hw') ?_
      rintro - x ⟨hx, hrows⟩
      have hsaved := hx.cancel h (hrows ▸ hrow) (by simpa using hs)
      exact Safe.ask hx (.save t.cancelled) hsaved (.pure hsaved _)

end Calls

/-! ## Every event -/

theorem numbered_boot : Numbered ({} : Tournaments U) := by
  intro id t hrow
  cases hrow

theorem Numbered.fresh (h : Numbered w) : w.rows w.seq = none := by
  cases hrow : w.rows w.seq with
  | none => rfl
  | some t => exact absurd (h _ t hrow).2 (lt_irrefl _)

variable [DecidableEq U]

/-- What becomes of the row of tournament `id`, with the number of reports that it takes; rows
are numbered up to `seq`. Whether it may be cancelled is `voids`. -/
inductive RowFate (seq id : ℕ) (voids : Prop) : ℕ → Option (Tournament U) → Option (Tournament U) → Prop
  | stays (row : Option (Tournament U)) : RowFate seq id voids 0 row row
  | opens {t : Tournament U} (hid : seq ≤ id) (h : t.Bracketed) (hd : t.decided = 0) (hs : t.status = .registering) :
      RowFate seq id voids 0 none (some t)
  | deletes (t : Tournament U) : RowFate seq id voids 0 (some t) none
  | steps {k : ℕ} {t t' : Tournament U} (h : RowStep k t t') : RowFate seq id voids k (some t) (some t')
  | cancels (hv : voids) (t : Tournament U) : RowFate seq id voids 0 (some t) (some t.cancelled)

/-- What an event makes of all rows. -/
structure Fated (voids : Prop) (k : ℕ → ℕ) (w w' : Tournaments U) : Prop where
  seq : w.seq ≤ w'.seq
  numbered : Numbered w'
  fate : ∀ j, RowFate w.seq j voids (k j) (w.rows j) (w'.rows j)

theorem Fated.same (h : Numbered w) (hs : w.seq ≤ w'.seq) (hr : w'.rows = w.rows) {voids : Prop} :
    Fated voids (fun _ => 0) w w' := by
  refine ⟨hs, fun j t hj => ?_, fun j => ?_⟩
  · rw [hr] at hj
    exact ⟨(h j t hj).1, by have := (h j t hj).2; omega⟩
  · rw [hr]
    exact .stays _

/-- One row is written, or deleted. -/
theorem Fated.update (h : Numbered w) (hs : w.seq ≤ w'.seq) {row : Option (Tournament U)} {voids : Prop}
    (hr : w'.rows = Function.update w.rows id row) (hid : ∀ t ∈ row, t.id = id ∧ id < w'.seq)
    (hfate : RowFate w.seq id voids k (w.rows id) row) : Fated voids (fun j => if j = id then k else 0) w w' := by
  refine ⟨hs, fun j t hj => ?_, fun j => ?_⟩
  · rw [hr, Function.update_apply] at hj
    by_cases hji : j = id
    · subst hji
      rw [if_pos rfl] at hj
      exact hid t hj
    · rw [if_neg hji] at hj
      have hold := h j t hj
      exact ⟨hold.1, by omega⟩
  · rw [hr, Function.update_apply]
    by_cases hji : j = id
    · subst hji
      rw [if_pos rfl, if_pos rfl]
      exact hfate
    · rw [if_neg hji, if_neg hji]
      exact .stays _

theorem Fated.update_zero {voids : Prop} (h : Fated voids (fun j => if j = id then 0 else 0) w w') :
    Fated voids (fun _ => 0) w w' := by
  simpa using h

theorem Numbered.step (h : Numbered w) (hs : w'.seq = w.seq) (hrow : w.rows id = some t) (hstep : RowStep k t t') :
    t'.id = id ∧ id < w'.seq := by
  obtain ⟨hid, hlt⟩ := h id t hrow
  exact ⟨hstep.id_eq.trans hid, by omega⟩

theorem Rewrites.fated (hw : Rewrites 0 w id w') (h : Numbered w) {voids : Prop} : Fated voids (fun _ => 0) w w' := by
  obtain ⟨hs, hr | ⟨t, t', hrow, hstep, hr⟩⟩ := hw
  · exact .same h (by omega) hr
  · refine (Fated.update h (by omega) hr ?_ ?_).update_zero
    · rintro x ⟨⟩
      exact h.step hs hrow hstep
    · rw [hrow]
      exact .steps hstep

theorem Reports.fated (hw : Reports w id w') (h : Numbered w) {voids : Prop} :
    Fated voids (fun j => if j = id then 1 else 0) w w' := by
  obtain ⟨hs, t, t', hrow, hstep, hr⟩ := hw
  refine Fated.update h (by omega) hr ?_ ?_
  · rintro x ⟨⟩
    exact h.step hs hrow hstep
  · rw [hrow]
    exact .steps hstep

theorem Voids.fated (hw : Voids w w') (h : Numbered w) {voids : Prop} (hv : voids) : Fated voids (fun _ => 0) w w' := by
  obtain ⟨hs, hrows⟩ := hw
  refine ⟨by omega, fun j t hj => ?_, fun j => ?_⟩
  · rw [hs]
    rcases hrows j with hsame | ⟨x, hx, hcancelled⟩
    · exact h j t (hsame ▸ hj)
    · rw [hcancelled] at hj
      cases hj
      exact h j x hx
  · rcases hrows j with hsame | ⟨x, hx, hcancelled⟩
    · rw [hsame]
      exact .stays _
    · rw [hx, hcancelled]
      exact .cancels hv x

/-- A new row. -/
theorem create_fated {s : TournamentService} {fault : TournamentQuery U → Fault} (h : Numbered w)
    (hfresh : w.rows w.seq = none) (buyInCents capacity now : ℤ) {voids : Prop} :
    Safe (Fated voids (fun _ => 0) w) fault (s.create buyInCents capacity now) w := by
  have hsame : Fated voids (fun _ => 0) w w := .same h (by rfl) (by rfl)
  unfold TournamentService.create
  refine .throwIf hsame _ _ fun hcapacity => .throwIf hsame _ _ fun _ => ?_
  have hnew : Fated voids (fun _ => 0) w { w with seq := w.seq + 1 } := .same h (by exact Nat.le_succ _) (by rfl)
  refine Safe.ask hsame .newId hnew ?_
  have hsize : capacity.toNat = 2 ∨ capacity.toNat = 4 ∨ capacity.toNat = 8 := by
    have hmem : capacity ∈ validCapacities := Decidable.not_not.1 hcapacity
    simp only [validCapacities, List.mem_cons, List.not_mem_nil, or_false] at hmem
    omega
  let t : Tournament U :=
    { id := w.seq, buyInCents := buyInCents.toNat, capacity := capacity.toNat, rakeBps := s.rakeBps, createdAt := now }
  have hbracketed : t.Bracketed := by
    refine ⟨hsize, List.nodup_nil, .filling ?_ rfl (Or.inl rfl)⟩
    show 0 < capacity.toNat
    omega
  have hcreated : Fated voids (fun _ => 0) w (Tournaments.setRow { w with seq := w.seq + 1 } t) := by
    refine (Fated.update h (Nat.le_succ _) rfl ?_ ?_).update_zero
    · rintro x ⟨⟩
      exact ⟨rfl, Nat.lt_succ_self _⟩
    · rw [hfresh]
      exact .opens (le_refl _) hbracketed rfl rfl
  exact Safe.ask hnew (.create t) hcreated (.pure hcreated t)

theorem adminDelete_fated {fault : TournamentQuery U → Fault} (h : Numbered w) (id : ℕ) {voids : Prop} :
    Safe (Fated voids (fun _ => 0) w) fault (TournamentService.adminDelete id) w := by
  have hsame : Fated voids (fun _ => 0) w w := .same h (by rfl) (by rfl)
  unfold TournamentService.adminDelete
  refine Safe.get hsame id (.pure hsame _) fun t hrow => ?_
  refine .throwIf hsame _ _ fun _ => ?_
  have hid : t.id = id := (h id t hrow).1
  have hcleared : Fated voids (fun _ => 0) w (Tournaments.answer (.clearRecordedOutcomes t.id) w).2 :=
    .same h (by rfl) (by rfl)
  have hdeleted : Fated voids (fun _ => 0) w
      (Tournaments.answer (.delete t.id) (Tournaments.answer (.clearRecordedOutcomes t.id) w).2).2 := by
    have hrows : (Tournaments.answer (.delete t.id) (Tournaments.answer (.clearRecordedOutcomes t.id) w).2).2.rows =
        Function.update w.rows id none := by rw [← hid]; rfl
    refine (Fated.update h (by rfl) hrows (by rintro x ⟨⟩) ?_).update_zero
    rw [hrow]
    exact .deletes t
  refine Safe.ask hsame (.clearRecordedOutcomes t.id) hcleared ?_
  exact wp_reply (.delete t.id) hdeleted (fun _ _ => hcleared) fun _ _ => hdeleted

/-- The event may cancel tournaments. -/
def TournamentEvent.voids : TournamentEvent U → Bool
  | .call (.cancel _) _ | .call (.sweepStale _ _) _ => true
  | _ => false

/-- Whether a report of the tournament is accepted: it is answered with the row, or it fails
once the row is written. -/
def Tournaments.accepts (s : TournamentService) (id : ℕ) (w : Tournaments U) : TournamentEvent U → ℕ
  | .call (.reportResult i round index winnerId admin auto) fault =>
    let r := w.call s (.reportResult i round index winnerId admin auto) fault
    if i = id ∧ (r.1.isOk = true ∨ r.2.rows id ≠ w.rows id) then 1 else 0
  | _ => 0

/-- A report that is answered is accepted; one that fails is accepted if the row changed. -/
theorem report_fated {α : Type} {voids : Prop} (h : Numbered w) (r : Except TournamentError α)
    (hr : match r with
      | .ok _ => Reports w id w'
      | .error _ => Rewrites 1 w id w') :
    Fated voids (fun j => if id = j ∧ (r.isOk = true ∨ w'.rows j ≠ w.rows j) then 1 else 0) w w' := by
  have haccepted : Reports w id w' → (r.isOk = true ∨ w'.rows id ≠ w.rows id) →
      Fated voids (fun j => if id = j ∧ (r.isOk = true ∨ w'.rows j ≠ w.rows j) then 1 else 0) w w' := by
    intro hw hseen
    have hcount : (fun j => if id = j ∧ (r.isOk = true ∨ w'.rows j ≠ w.rows j) then 1 else 0) =
        fun j => if j = id then 1 else 0 := by
      funext j
      by_cases hj : j = id
      · subst hj
        rw [if_pos ⟨rfl, hseen⟩, if_pos rfl]
      · rw [if_neg fun hc => hj hc.1.symm, if_neg hj]
    rw [hcount]
    exact hw.fated h
  cases r with
  | ok a => exact haccepted hr (Or.inl rfl)
  | error e =>
    obtain ⟨hs, hsame | ⟨t, t', hrow, hstep, hwritten⟩⟩ := hr
    · have hcount : (fun j => if id = j ∧ ((Except.error e : Except TournamentError α).isOk = true ∨ w'.rows j ≠ w.rows j)
          then 1 else 0) = fun _ => 0 := by
        funext j
        rw [hsame, if_neg]
        rintro ⟨-, hok | hne⟩
        · cases hok
        · exact hne rfl
      rw [hcount]
      exact .same h (by omega) hsame
    · refine haccepted ⟨hs, t, t', hrow, hstep, hwritten⟩ (Or.inr ?_)
      rw [hwritten, Function.update_self, hrow]
      intro heq
      exact hstep.ne (Option.some.inj heq)

/-- **What every event makes of the rows**, whatever fails in it. -/
theorem tournament_step_fated (s : TournamentService) (h : Numbered w) (hfresh : w.rows w.seq = none)
    (e : TournamentEvent U) :
    Fated (e.voids = true) (fun id => Tournaments.accepts s id w e) w (w.step s e) := by
  cases e with
  | restart => exact .same h (by rfl) (by rfl)
  | recordRoomOutcome id round index winnerId => exact .same h (by rfl) (by rfl)
  | call c fault =>
    cases c with
    | create buyInCents capacity now => exact Async.Keeps.exec ((create_fated h hfresh buyInCents capacity now).map _)
    | register id u =>
      exact (Async.Keeps.exec ((register_rewrites h id u).map _)).fated h
    | confirmChampion id admin =>
      exact (Async.Keeps.exec ((confirmChampion_rewrites h id admin).map _)).fated h
    | cancel id => exact (Async.Keeps.exec ((cancel_voids h id).map _)).fated h rfl
    | adminDelete id => exact Async.Keeps.exec ((adminDelete_fated h id).map _)
    | sweepStale now maxAgeMs => exact (Async.Keeps.exec ((sweepStale_voids h now maxAgeMs).map _)).fated h rfl
    | reportResult id round index winnerId admin auto =>
      have hwp : ((TournamentCall.reportResult id round index winnerId admin auto).program s).wp
          (.store (Tournaments.reply fault)) (fun _ => Reports w id) (fun _ => Rewrites 1 w id) w := by
        show (s.reportResult id round index winnerId admin auto >>= fun t =>
          Pure.pure (TournamentReceipt.tournament t)).wp _ _ _ w
        rw [Async.wp_bind]
        exact reportResult_reports h id round index winnerId admin auto
      have hexec := Async.exec_of_wp hwp
      show Fated _ (fun j => if id = j ∧ ((w.call s _ fault).1.isOk = true ∨ (w.call s _ fault).2.rows j ≠ w.rows j)
        then 1 else 0) w (w.call s _ fault).2
      unfold Tournaments.call
      cases hres : ((TournamentCall.reportResult id round index winnerId admin auto).program s).exec
          (Tournaments.reply fault) w with
      | mk r w' =>
        rw [hres] at hexec
        cases r with
        | ok a => exact report_fated h (.ok a) hexec
        | error e => exact report_fated h (.error e) hexec

/-! ## Every run -/

theorem tournaments_numbered (s : TournamentService) (es : List (TournamentEvent U)) :
    Numbered (run (Tournaments.step s) {} es) :=
  run_inv (P := Numbered) (fun _ e h => (tournament_step_fated s h h.fresh e).numbered) numbered_boot es

/-- The invariant of tournament `id` once `n` reports of it are accepted. -/
structure Tallied (id : ℕ) (w : Tournaments U) (n : ℕ) : Prop where
  numbered : Numbered w
  unused : w.seq ≤ id → n = 0
  row : ∀ t, w.rows id = some t → t.Bracketed ∧ t.decided = n

/-- The slots decided are the reports accepted. -/
theorem Tallied.step (s : TournamentService) {n : ℕ} (h : Tallied id w n) (e : TournamentEvent U) :
    Tallied id (w.step s e) (n + Tournaments.accepts s id w e) := by
  have hfated := tournament_step_fated s h.numbered h.numbered.fresh e
  have hseq := hfated.seq
  have hfate := hfated.fate id
  have hstays : w.rows id = none → Tournaments.accepts s id w e = 0 := by
    intro hnone
    rw [hnone] at hfate
    generalize (w.step s e).rows id = row' at hfate
    generalize Tournaments.accepts s id w e = k at hfate
    cases hfate <;> rfl
  refine ⟨hfated.numbered, fun hid => ?_, fun t' hrow' => ?_⟩
  · -- a number that is not given out has no row
    have hnone : w.rows id = none := by
      cases hrow : w.rows id with
      | none => rfl
      | some t =>
        have hlt := (h.numbered id t hrow).2
        omega
    rw [h.unused (by omega), hstays hnone]
  · rw [hrow'] at hfate
    generalize hrow : w.rows id = row at hfate
    generalize Tournaments.accepts s id w e = k at hfate
    cases hfate with
    | stays => exact h.row t' hrow
    | opens hid hb hd =>
      have hzero := h.unused hid
      exact ⟨hb, by omega⟩
    | steps hstep =>
      obtain ⟨hb, hd⟩ := h.row _ hrow
      exact ⟨hstep.bracketed hb, by rw [(hstep.decided hb).1, hd]⟩
    | cancels _ t =>
      obtain ⟨hb, hd⟩ := h.row _ hrow
      exact ⟨hb.cancel, hd⟩

/-- What is decided in `t` stays in the row of tournament `id`, and the number is not used again. -/
structure Upheld (id : ℕ) (t : Tournament U) (w : Tournaments U) : Prop where
  numbered : Numbered w
  used : id < w.seq
  row : ∀ t', w.rows id = some t' → t'.Bracketed ∧ StaysIn t t'

/-- What was reported stays. -/
theorem Upheld.step (s : TournamentService) (h : Upheld id t w) (e : TournamentEvent U) :
    Upheld id t (w.step s e) := by
  have hused := h.used
  have hfated := tournament_step_fated s h.numbered h.numbered.fresh e
  have hseq := hfated.seq
  have hfate := hfated.fate id
  refine ⟨hfated.numbered, by omega, fun t' hrow' => ?_⟩
  rw [hrow'] at hfate
  generalize hrow : w.rows id = row at hfate
  generalize Tournaments.accepts s id w e = k at hfate
  cases hfate with
  | stays => exact h.row t' hrow
  | opens hid => omega
  | steps hstep =>
    obtain ⟨hb, hkept⟩ := h.row _ hrow
    exact ⟨hstep.bracketed hb, fun m hm hsome => (hstep.decided hb).2 m (hkept m hm hsome) hsome⟩
  | cancels _ x =>
    obtain ⟨hb, hkept⟩ := h.row _ hrow
    exact ⟨hb.cancel, hkept⟩

/-- No row is cancelled before an event cancels. -/
structure Uncancelled (w : Tournaments U) : Prop where
  numbered : Numbered w
  row : ∀ id t, w.rows id = some t → t.status ≠ .cancelled

/-- Only a cancellation cancels. -/
theorem Uncancelled.step (s : TournamentService) (h : Uncancelled w) (e : TournamentEvent U) (he : e.voids = false) :
    Uncancelled (w.step s e) := by
  have hfated := tournament_step_fated s h.numbered h.numbered.fresh e
  refine ⟨hfated.numbered, fun id t' hrow' => ?_⟩
  have hfate := hfated.fate id
  rw [hrow'] at hfate
  generalize hrow : w.rows id = row at hfate
  generalize Tournaments.accepts s id w e = k at hfate
  cases hfate with
  | stays => exact h.row id t' hrow
  | opens _ _ _ hs =>
    rw [hs]
    exact nofun
  | steps hstep => exact hstep.not_cancelled
  | cancels hv =>
    rw [he] at hv
    cases hv

/-- **The bracket of every tournament of every run**, whatever calls are made in whatever order
and whatever fails in them: it is in order, its decided pairings are the accepted reports so
far, none of them changes later, and without a cancellation it is not cancelled, so that it is
over with the last of `capacity - 1` reports. -/
theorem bracket_invariant (s : TournamentService) (es : List (TournamentEvent U)) (id : ℕ) (t : Tournament U)
    (h : (run (Tournaments.step s) {} es).rows id = some t) :
    BracketOK t ∧ t.decided = total (Tournaments.step s) (Tournaments.accepts s id) {} es ∧
      ((∀ e ∈ es, e.voids = false) → t.status ≠ .cancelled) ∧
      ∀ more t', (run (Tournaments.step s) {} (es ++ more)).rows id = some t' → StaysIn t t' := by
  have hboot : Tallied id ({} : Tournaments U) 0 := ⟨numbered_boot, fun _ => rfl, nofun⟩
  have hrun := run_total (P := Tallied id) (fun _ _ e hw => hw.step s e) hboot es
  obtain ⟨hb, hd⟩ := hrun.row t h
  rw [Nat.zero_add] at hd
  refine ⟨hb.ok, hd, fun hes => ?_, fun more t' hrow' => ?_⟩
  · have hguard : Guarded (Tournaments.step s) (fun _ e => e.voids = false) ({} : Tournaments U) es :=
      guarded_of_forall _ fun e he _ => hes e he
    have hnone : Uncancelled ({} : Tournaments U) := ⟨numbered_boot, nofun⟩
    exact (guarded_inv (P := Uncancelled) (fun _ e hw he => hw.step s e he) hnone es hguard).row id t h
  · rw [run_append] at hrow'
    have hused := (hrun.numbered id t h).2
    have hstart : Upheld id t (run (Tournaments.step s) {} es) := by
      refine ⟨hrun.numbered, hused, fun x hx => ?_⟩
      rw [h] at hx
      cases hx
      exact ⟨hb, fun m hm _ => hm⟩
    exact (run_inv (fun _ e hw => hw.step s e) hstart more).row t' hrow' |>.2

/-- Four players; a pairing is reported twice, a report fails once it is written, and the final
waits for a second admin. -/
def fourPlayers : List (TournamentEvent ℕ) :=
  [.call (.create 100 4 0) fun _ => .none, .call (.register 0 5) fun _ => .none, .call (.register 0 6) fun _ => .none,
    .call (.register 0 7) fun _ => .none, .call (.register 0 8) fun _ => .none,
    .call (.reportResult 0 0 1 8 none false) fun _ => .none, .call (.reportResult 0 0 1 7 none false) fun _ => .none,
    .call (.reportResult 0 0 0 5 none false) fun q => match q with
      | .save _ => .after
      | _ => .none,
    .call (.reportResult 0 1 0 8 (some 9) false) fun _ => .none]

/-- Four players, the final won and not yet confirmed. -/
def finalOf4 : Tournament ℕ :=
  { id := 0, buyInCents := 100, capacity := 4, status := .awaitingConfirmation, playerIds := [5, 6, 7, 8],
    bracket := [{ round := 0, index := 0, aUserId := some 5, bUserId := some 6, winnerId := some 5 },
      { round := 0, index := 1, aUserId := some 7, bUserId := some 8, winnerId := some 8 },
      { round := 1, index := 0, aUserId := some 5, bUserId := some 8, winnerId := some 8 }],
    prizePoolCents := 400, rakeBps := 1000, pendingWinnerId := some 8, reportedByAdminId := some 9, createdAt := 0 }

theorem bracket_invariant_awaiting :
    BracketOK finalOf4 ∧
      total (Tournaments.step { tenPercent with dualControl := true })
        (Tournaments.accepts { tenPercent with dualControl := true } 0) {} fourPlayers = 3 := by
  have hrun := bracket_invariant { tenPercent with dualControl := true } fourPlayers 0 finalOf4 (by decide +kernel)
  exact ⟨hrun.1, hrun.2.1.symm.trans (by decide)⟩

end Murlan
