import Murlan.Proof.Registration
import Murlan.Proof.Sweeps
import Murlan.Proof.Withdrawals

/-!
# The tick of the recovery sweeps

* `recoverOne_rowLoop`, `war_sweepOne_rowLoop`, `countReversal_rowLoop`: what the other passes do of one item.
* `sweep_isolates_iff`: when a tick closes all that it could close.
* `stuck_match_starves`: what one orphaned match can hold up.
-/

namespace Murlan

variable {U M : Type}

/-! ## Stale club wars -/

section Wars

variable [DecidableEq U] {f : Refused U M} {s s' : ClubWars U} {x : ClubWar U} {cutoff : ℤ}

/-- A credit of the list is refused, or is of nothing. -/
def ClubWar.Unpaid (refused : ClubWarRef U → Bool) (us : List U) (amountCents : ℕ) (ref : U → ClubWarRef U) : Prop :=
  ∃ u ∈ us, amountCents = 0 ∨ refused (ref u) = true

/-- Some stake of the war cannot be refunded. -/
def ClubWar.Unrefunded (refused : ClubWarRef U → Bool) (w : ClubWar U) : Prop :=
  w.stakeCents ≠ 0 ∧ ClubWar.Unpaid refused w.players w.stakeCents (.refund w.id)

/-- The payout of a war that has its result is refused. -/
def ClubWar.Unsettled (refused : ClubWarRef U → Bool) (w : ClubWar U) : Prop :=
  (w.stakeCents ≠ 0 ∧ w.prizePoolCents ≠ 0) ∧
    match w.winnerClubId with
    | none => w.Unrefunded refused
    | some _ => ClubWar.Unpaid refused w.winners w.per (.share w.id)

/-- What the sweep still has to pay for the war is refused. -/
def ClubWar.Stuck (refused : ClubWarRef U → Bool) (w : ClubWar U) : Prop :=
  if w.status = .running ∧ w.decided then w.decideWinner.Unsettled refused else w.Unrefunded refused

/-- A war that the sweep has to end. -/
def ClubWar.Stale (cutoff : ℤ) (w : ClubWar U) : Prop := w.status.active = true ∧ w.createdAt ≤ cutoff

/-- The row of a listed war was created when the list says. -/
def ClubWars.Lists (x : ClubWar U) (s : ClubWars U) : Prop :=
  s.Numbered ∧ ∀ w, s.rows x.id = some w → w.createdAt = x.createdAt

/-- The rows are the same. -/
def ClubWars.SameRows (s s' : ClubWars U) : Prop := s'.rows = s.rows

omit [DecidableEq U] in
theorem ClubWars.sameRows_refl (s : ClubWars U) : ClubWars.SameRows s s := rfl

omit [DecidableEq U] in
theorem ClubWars.SameRows.trans {s'' : ClubWars U} (h : ClubWars.SameRows s s') (h' : ClubWars.SameRows s' s'') :
    ClubWars.SameRows s s'' := by
  unfold ClubWars.SameRows at *
  rw [h', h]

/-- A credit fails exactly if it is zero or refused. -/
theorem war_credit_checks (u : U) (a : ℕ) (ref : ClubWarRef U) (s : ClubWars U) :
    Async.Checks (ClubWars.reply f.warFault) ClubWars.SameRows (a = 0 ∨ f.war ref = true)
      (ClubWarService.credit u a ref) s := by
  have hcheck : (Async.throwIf (a = 0) ClubWarError.amountNotPositive : Captain U Unit).exec (ClubWars.reply f.warFault) s =
      (if a = 0 then .error .amountNotPositive else .ok (), s) := Async.exec_throwIf _ _ _
  unfold ClubWarService.credit
  by_cases ha : a = 0
  · rw [if_pos ha] at hcheck
    exact .throws (Async.exec_bind_error hcheck _) rfl (Or.inl ha)
  · rw [if_neg ha] at hcheck
    have hfault : f.warFault (.credit u a ref) = if f.war ref then .before else .none := rfl
    by_cases hno : f.war ref = true
    · rw [if_pos hno] at hfault
      have hreply : ClubWars.reply f.warFault (.credit u a ref) s = (.error .store, s) := Async.faulty_before hfault _ _
      exact .throws ((Async.exec_bind_ok hcheck _).trans ((Async.exec_await _ s).trans hreply)) rfl (Or.inr hno)
    · rw [if_neg hno] at hfault
      have hreply : ClubWars.reply f.warFault (.credit u a ref) s = (.ok (), { s with purse := s.purse.credit ref a }) :=
        Async.faulty_none hfault _ _
      exact .ends ((Async.exec_bind_ok hcheck _).trans ((Async.exec_await _ s).trans hreply)) rfl (by simp [ha, hno])

/-- Credits one after another. -/
theorem war_credits_check (us : List U) (a : ℕ) (ref : U → ClubWarRef U) (s : ClubWars U) :
    Async.Checks (ClubWars.reply f.warFault) ClubWars.SameRows (ClubWar.Unpaid f.war us a ref)
      (us.forM fun u => ClubWarService.credit u a (ref u)) s :=
  .forM ClubWars.sameRows_refl (fun _ _ _ => ClubWars.SameRows.trans) (fun u s => war_credit_checks u a (ref u) s) us s

/-- The refunds fail exactly if one of them does. -/
theorem war_refundAll_checks (w : ClubWar U) (s : ClubWars U) :
    Async.Checks (ClubWars.reply f.warFault) ClubWars.SameRows (w.Unrefunded f.war) (ClubWarService.refundAll w) s := by
  unfold ClubWarService.refundAll
  by_cases hstake : w.stakeCents = 0
  · rw [if_pos hstake]
    exact .ends rfl rfl fun h => h.1 hstake
  · rw [if_neg hstake]
    exact (war_credits_check w.players w.stakeCents (ClubWarRef.refund w.id) s).congr ⟨fun h => ⟨hstake, h⟩, fun h => h.2⟩

/-- The shares of a war and the rake, which is not refused. -/
theorem payoutSplit_checks (w : ClubWar U) (s : ClubWars U) :
    Async.Checks (ClubWars.reply f.warFault) ClubWars.SameRows (ClubWar.Unpaid f.war w.winners w.per (.share w.id))
      (ClubWarService.payoutSplit w) s := by
  unfold ClubWarService.payoutSplit
  obtain ⟨s₁, hrows, ⟨hpaid, hrun⟩ | ⟨hunpaid, e, hrun⟩⟩ :=
    war_credits_check (f := f) w.winners w.per (ClubWarRef.share w.id) s
  · by_cases hrake : 0 < w.rake
    · rw [if_pos hrake]
      have hbook : (Async.await (ClubWarQuery.recordRake w.rake (.rake w.id)) : Captain U Unit).exec
          (ClubWars.reply f.warFault) s₁ = (.ok (), { s₁ with purse := s₁.purse.credit (.rake w.id) w.rake }) := rfl
      exact .ends ((Async.exec_bind_ok hrun _).trans hbook) hrows hpaid
    · rw [if_neg hrake]
      exact .ends (Async.exec_bind_ok hrun _) hrows hpaid
  · exact .throws (Async.exec_bind_error hrun _) hrows hunpaid

/-- The payout fails exactly if a part of it does. -/
theorem payoutSettled_checks (w : ClubWar U) (s : ClubWars U) :
    Async.Checks (ClubWars.reply f.warFault) ClubWars.SameRows (w.Unsettled f.war) (ClubWarService.payoutSettled w) s := by
  unfold ClubWarService.payoutSettled ClubWar.Unsettled
  by_cases hnothing : w.stakeCents = 0 ∨ w.prizePoolCents = 0
  · rw [if_pos hnothing]
    exact .ends rfl rfl fun h => hnothing.elim h.1.1 h.1.2
  · rw [if_neg hnothing]
    push Not at hnothing
    cases w.winnerClubId with
    | none => exact (war_refundAll_checks w s).congr ⟨fun h => ⟨hnothing, h⟩, fun h => h.2⟩
    | some c => exact (payoutSplit_checks w s).congr ⟨fun h => ⟨hnothing, h⟩, fun h => h.2⟩

/-- The row that the sweep leaves of a war. -/
def ClubWar.swept (w : ClubWar U) : ClubWar U :=
  if w.status = .running ∧ w.decided then w.decideWinner.finished else w.cancelled

omit [DecidableEq U] in
theorem ClubWar.swept_id (w : ClubWar U) : w.swept.id = w.id := by
  unfold ClubWar.swept
  split_ifs
  · rfl
  · rfl

omit [DecidableEq U] in
theorem ClubWar.swept_not_stale (w : ClubWar U) : ¬w.swept.Stale cutoff := by
  unfold ClubWar.swept
  rintro ⟨hactive, -⟩
  split_ifs at hactive
  · cases hactive
  · cases hactive

omit [DecidableEq U] in
theorem ClubWar.swept_createdAt (w : ClubWar U) : w.swept.createdAt = w.createdAt := by
  unfold ClubWar.swept
  split_ifs
  · rfl
  · rfl

/-- What the sweep does of an active war. -/
def ClubWarService.sweepActive (swept : List ℕ) (w : ClubWar U) : Captain U (List ℕ) :=
  if w.status = .running ∧ w.decided then settle w.decideWinner >>= fun _ => pure (swept ++ [w.id])
  else refundAll w >>= fun _ => save w.cancelled >>= fun _ => pure (swept ++ [w.id])

/-- A war is swept unless it is stuck. -/
theorem sweepActive_exec (ids : List ℕ) (w : ClubWar U) (s : ClubWars U) :
    ∃ s₁, ClubWars.SameRows s s₁ ∧
      ((¬w.Stuck f.war ∧ (ClubWarService.sweepActive ids w).exec (ClubWars.reply f.warFault) s =
          (.ok (ids ++ [w.id]), s₁.setRow w.swept)) ∨
        (w.Stuck f.war ∧ ∃ e, (ClubWarService.sweepActive ids w).exec (ClubWars.reply f.warFault) s = (.error e, s₁))) := by
  unfold ClubWarService.sweepActive ClubWar.Stuck ClubWar.swept
  by_cases hdecided : w.status = .running ∧ w.decided = true
  · simp only [if_pos hdecided]
    obtain ⟨s₁, hrows, ⟨hpaid, hrun⟩ | ⟨hunpaid, e, hrun⟩⟩ := payoutSettled_checks (f := f) w.decideWinner s
    · have hsettle : (ClubWarService.settle w.decideWinner).exec (ClubWars.reply f.warFault) s =
          (.ok (), s₁.setRow w.decideWinner.finished) := Async.exec_bind_ok hrun _
      exact ⟨s₁, hrows, Or.inl ⟨hpaid, Async.exec_bind_ok hsettle _⟩⟩
    · have hsettle : (ClubWarService.settle w.decideWinner).exec (ClubWars.reply f.warFault) s = (.error e, s₁) :=
        Async.exec_bind_error hrun _
      exact ⟨s₁, hrows, Or.inr ⟨hunpaid, e, Async.exec_bind_error hsettle _⟩⟩
  · simp only [if_neg hdecided]
    obtain ⟨s₁, hrows, ⟨hpaid, hrun⟩ | ⟨hunpaid, e, hrun⟩⟩ := war_refundAll_checks (f := f) w s
    · exact ⟨s₁, hrows, Or.inl ⟨hpaid, Async.exec_bind_ok hrun _⟩⟩
    · exact ⟨s₁, hrows, Or.inr ⟨hunpaid, e, Async.exec_bind_error hrun _⟩⟩

/-- A stale war is read again. -/
theorem war_sweepOne_read (ids : List ℕ) (hx : x.createdAt ≤ cutoff) (s : ClubWars U) :
    (ClubWarService.sweepOne cutoff ids x).exec (ClubWars.reply f.warFault) s =
      match s.rows x.id with
      | none => (.ok ids, s)
      | some w =>
        if !w.status.active then (.ok ids, s) else (ClubWarService.sweepActive ids w).exec (ClubWars.reply f.warFault) s := by
  have hget : (ClubWarService.get x.id : Captain U _).exec (ClubWars.reply f.warFault) s = (.ok (s.rows x.id), s) := rfl
  unfold ClubWarService.sweepOne
  rw [if_neg (not_lt.mpr hx), Async.exec_bind_ok hget]
  cases s.rows x.id with
  | none => rfl
  | some w =>
    simp only
    split
    · rfl
    · rfl

/-- The pass over the wars is a loop over rows. -/
theorem war_sweepOne_rowLoop (f : Refused U M) (cutoff : ℤ) :
    Async.RowLoop (ClubWars.reply f.warFault) ClubWars.rows (ClubWarService.sweepOne cutoff) (fun ids k => ids ++ [k]) True
      ClubWar.id (fun x => x.createdAt ≤ cutoff) (ClubWar.Stale cutoff) (ClubWar.Stuck f.war) ClubWars.Lists := by
  refine ⟨fun ids x s hs hdue => ⟨ids, ?_, fun _ => rfl⟩, fun ids x s w hs hx hrow hstale hfree => ?_,
    fun ids x s w hs hx hrow hstale hstuck => ?_⟩
  · by_cases hx : x.createdAt ≤ cutoff
    · rw [war_sweepOne_read ids hx]
      cases hrow : s.rows x.id with
      | none => rfl
      | some w =>
        have hclosed : w.status.active = false := by
          by_contra hno
          exact hdue ⟨hx, w, hrow, by simpa using hno, (hs.2 w hrow).trans_le hx⟩
        simp only [hclosed, Bool.not_false, if_true]
    · unfold ClubWarService.sweepOne
      rw [if_pos (not_le.mp hx)]
      rfl
  · have hid : w.id = x.id := hs.1 _ _ hrow
    obtain ⟨s₁, hrows, ⟨-, hrun⟩ | ⟨hstuck, -⟩⟩ := sweepActive_exec (f := f) ids w s
    · have hset : ∀ k, (s₁.setRow w.swept).rows k = if k = x.id then some w.swept else s.rows k := by
        intro k
        show Function.update s₁.rows w.swept.id (some w.swept) k = _
        rw [Function.update_apply, hrows, w.swept_id, hid]
      refine ⟨s₁.setRow w.swept, w.swept, ?_, w.swept_not_stale, fun k hk => ?_, ?_, fun y hy => ⟨?_, fun w' hw' => ?_⟩⟩
      · rw [war_sweepOne_read ids hx, hrow]
        simp only [hstale.1, Bool.not_true, Bool.false_eq_true, if_false]
        rw [hrun, hid]
      · rw [hset, if_neg hk]
      · rw [hset, if_pos rfl]
      · intro k w' hw'
        rw [hset] at hw'
        split at hw'
        · rename_i hk
          cases hw'
          rw [w.swept_id, hid, hk]
        · exact hs.1 k w' hw'
      · rw [hset] at hw'
        split at hw'
        · rename_i hyx
          cases hw'
          rw [w.swept_createdAt]
          exact hy.2 w (hyx ▸ hrow)
        · exact hy.2 w' hw'
    · exact absurd hstuck hfree
  · obtain ⟨s₁, hrows, ⟨hfree, -⟩ | ⟨-, e, hrun⟩⟩ := sweepActive_exec (f := f) ids w s
    · exact absurd hstuck hfree
    · refine ⟨e, s₁, ?_, fun k => by rw [hrows]⟩
      rw [war_sweepOne_read ids hx, hrow]
      simp only [hstale.1, Bool.not_true, Bool.false_eq_true, if_false]
      exact hrun

end Wars

/-! ## Orphaned matches -/

section Orphans

variable [DecidableEq M] {f : Refused U M} {rows : List (MatchRecord U M)} {live : List M}

/-- The row of a match. -/
def matchRow (rows : List (MatchRecord U M)) (k : M) : Option (MatchRecord U M) := rows.find? (·.id = k)

/-- The refund of a seat is refused. -/
def MatchRecord.Stuck (f : Refused U M) (r : MatchRecord U M) : Prop :=
  0 < r.stakeCents ∧ r.players.any (fun p => f.matchSeat r.id p.seat) = true

theorem matchRow_id {k : M} {r : MatchRecord U M} (h : matchRow rows k = some r) : r.id = k := by
  have := List.find?_some h
  simpa using this

/-- A cancelled match is found cancelled. -/
theorem matchRow_cancel (rows : List (MatchRecord U M)) (id k : M) :
    matchRow (rows.map fun x => if x.id = id then x.cancelled else x) k =
      (matchRow rows k).map fun x => if x.id = id then x.cancelled else x := by
  have hid : ∀ x : MatchRecord U M, (if x.id = id then x.cancelled else x).id = x.id := by
    intro x
    split_ifs
    · rfl
    · rfl
  have hsame : ((fun x : MatchRecord U M => decide (x.id = k)) ∘ fun x => if x.id = id then x.cancelled else x) =
      fun x => decide (x.id = k) := by
    funext x
    simp only [Function.comp_apply, hid]
  unfold matchRow
  rw [List.find?_map, hsame]

theorem refundRow_some (id : M) (r : MatchRecord U M) : OrphanQuery.refundRow f rows id (some r) =
    if r.status ≠ .active then (.ok (), rows)
    else if 0 < r.stakeCents ∧ r.players.any (fun p => f.matchSeat id p.seat) = true then (.error .amountTooLarge, rows)
    else (.ok (), rows.map fun x => if x.id = id then x.cancelled else x) := rfl

/-- An orphan's refund, then its id. -/
theorem recoverOne_exec {m : MatchRecord U M} (hm : m.id ∉ live) (ids : List M) (rows : List (MatchRecord U M)) :
    (recoverOne live ids m).exec (OrphanQuery.reply f) rows =
      match OrphanQuery.refundRow f rows m.id (matchRow rows m.id) with
      | (.ok (), rows') => (.ok (ids ++ [m.id]), rows')
      | (.error e, rows') => (.error e, rows') := by
  have hrefund : (Async.await (OrphanQuery.refund m.id) : Recovery U M Unit).exec (OrphanQuery.reply f) rows =
      OrphanQuery.refundRow f rows m.id (matchRow rows m.id) := Async.exec_await _ _
  unfold recoverOne
  rw [if_neg hm]
  generalize OrphanQuery.refundRow f rows m.id (matchRow rows m.id) = r at hrefund
  match r with
  | (.ok (), rows') => exact Async.exec_bind_ok hrefund _
  | (.error e, rows') => exact Async.exec_bind_error hrefund _

/-- The recovery of matches is a loop over rows. -/
theorem recoverOne_rowLoop (f : Refused U M) (live : List M) :
    Async.RowLoop (OrphanQuery.reply f) matchRow (recoverOne live) (fun ids k => ids ++ [k]) False MatchRecord.id
      (fun m => m.id ∉ live) (fun r => r.status = .active) (MatchRecord.Stuck f) fun _ _ => True := by
  refine ⟨fun ids m rows _ hdue => ?_, fun ids m rows r _ hm hrow hactive hfree => ?_,
    fun ids m rows r _ hm hrow hactive hstuck => ?_⟩
  · by_cases hm : m.id ∈ live
    · refine ⟨ids, ?_, fun h => h.elim⟩
      unfold recoverOne
      rw [if_pos hm]
      rfl
    · refine ⟨ids ++ [m.id], ?_, fun h => h.elim⟩
      rw [recoverOne_exec hm]
      cases hrow : matchRow rows m.id with
      | none => rfl
      | some r =>
        have hclosed : r.status ≠ .active := fun ha => hdue ⟨hm, r, hrow, ha⟩
        rw [refundRow_some, if_pos hclosed]
  · have hid : r.id = m.id := matchRow_id hrow
    refine ⟨rows.map fun x => if x.id = m.id then x.cancelled else x, r.cancelled, ?_, ?_,
      fun k hk => ?_, ?_, fun _ _ => trivial⟩
    · rw [recoverOne_exec hm, hrow, refundRow_some, if_neg (by simp [hactive]), if_neg (by rw [← hid]; exact hfree)]
    · intro h
      cases h
    · rw [matchRow_cancel]
      cases hk' : matchRow rows k with
      | none => rfl
      | some x =>
        have hx : x.id ≠ m.id := by rw [matchRow_id hk']; exact hk
        simp [hx]
    · rw [matchRow_cancel, hrow]
      simp [hid]
  · have hid : r.id = m.id := matchRow_id hrow
    refine ⟨.amountTooLarge, rows, ?_, fun _ => rfl⟩
    rw [recoverOne_exec hm, hrow, refundRow_some, if_neg (by simp [hactive]), if_pos (by rw [← hid]; exact hstuck)]

end Orphans

/-! ## Failed payouts -/

section Payouts

variable {d : WithdrawalDesk U} {r : BinanceWithdrawalStatus}

/-- The desk in a tick; only credits are refused. -/
def payoutReply (f : Refused U M) (history : List BinanceWithdrawalStatus) (q : Desk U) (d : WithdrawalDesk U) :
    Except WithdrawalError q.Answer × WithdrawalDesk U :=
  Desk.reply { fault := f.deskFault q, history } d q

/-- Rows are stored under their ids. -/
def WithdrawalDesk.Filed (d : WithdrawalDesk U) : Prop := ∀ k wd, d.rows k = some wd → wd.id = k

theorem WithdrawalDesk.Filed.same {d' : WithdrawalDesk U} (h : d.Filed) (hrows : d'.rows = d.rows) : d'.Filed := by
  unfold WithdrawalDesk.Filed
  rw [hrows]
  exact h

theorem WithdrawalDesk.Filed.setRow (h : d.Filed) (wd : WithdrawalRecord U) : (d.setRow wd).Filed := by
  intro k x hx
  have hx' : Function.update d.rows wd.id (some wd) k = some x := hx
  rw [Function.update_apply] at hx'
  split at hx'
  · rename_i hk
    cases hx'
    exact hk.symm
  · exact h k x hx'

theorem book_rows (d : WithdrawalDesk U) (u : U) (a : ℕ) (ref : RefundRef) : (d.book u a ref).rows = d.rows := by
  unfold WithdrawalDesk.book
  split_ifs
  · rfl
  · rfl

theorem WithdrawalDesk.Filed.resolve (h : d.Filed) {id : ℕ} {status : WithdrawalStatus} {audit : WithdrawalResolution U}
    {wd : WithdrawalRecord U} {d' : WithdrawalDesk U} (hd : d.resolve id status audit = some (wd, d')) : d'.Filed := by
  unfold WithdrawalDesk.resolve at hd
  split at hd
  · cases hd
  · split at hd
    · cases hd
      exact h.setRow _
    · cases hd

theorem Desk.answer_filed (reply : DeskReply) (h : d.Filed) (q : Desk U) : (q.answer reply d).2.Filed := by
  cases q with
  | findWithdrawal id =>
    simp only [Desk.answer]
    split
    · exact h
    · split
      · exact h.same rfl
      · exact h
  | hold userId amountCents destination =>
    simp only [Desk.answer]
    split
    · exact (h.setRow _).same rfl
    · exact h
  | setStatusIfPending id status audit =>
    simp only [Desk.answer]
    split
    · exact h
    · exact h.resolve ‹_›
  | rejectAndRefund id audit userId amountCents =>
    simp only [Desk.answer]
    split
    · exact h
    · exact (h.resolve ‹_›).same (book_rows ..)
  | credit userId amountCents ref => exact h.same (book_rows ..)
  | markReversed id =>
    simp only [Desk.answer, WithdrawalDesk.reverse]
    split
    · exact h
    · split
      · exact h.setRow _
      · exact h
  | setAudit id audit =>
    simp only [Desk.answer]
    split
    · exact h
    · exact h.setRow _
  | find id => exact h
  | send id a address => exact h.same rfl
  | outcome id => exact h.same rfl
  | listRecent => exact h
  | notify => exact h

/-- Withdrawals are filed under their ids. -/
theorem desk_filed [DecidableEq U] (setup : WithdrawalSetup) (es : List (DeskEvent U)) :
    (run (WithdrawalDesk.step setup) {} es).Filed := by
  have hboot : ({} : WithdrawalDesk U).Filed := by
    intro k wd hrow
    cases hrow
  refine run_inv (fun d e h => ?_) hboot es
  cases e with
  | start op => exact h.same rfl
  | execute k reply =>
    simp only [WithdrawalDesk.step]
    split
    · exact h
    · split
      · exact h
      · exact h
      · rename_i q _ _
        have hreply : (q.reply reply d).2.Filed := by
          unfold Desk.reply
          split
          · exact Desk.answer_filed reply h q
          · exact h
          · exact Desk.answer_filed reply h q
        exact hreply.same rfl

/-- The desk after a reversal. -/
def WithdrawalDesk.reversed (d : WithdrawalDesk U) (wd : WithdrawalRecord U) (id : ℕ) : WithdrawalDesk U :=
  (({ d with found := d.found ++ [id] } : WithdrawalDesk U).book wd.userId wd.amountCents (.reversal id)).reverse id

/-- A record with no completed withdrawal changes nothing. -/
theorem reconcileOne_missing (f : Refused U M) (history : List BinanceWithdrawalStatus) (hr : r.status ∈ binanceWithdrawFailed)
    (hrow : ∀ wd, d.rows r.withdrawOrderId = some wd → wd.status ≠ .completed) :
    (WithdrawalService.reconcileOne r : Clerk U Bool).exec (payoutReply f history) d = (.ok false, d) := by
  unfold WithdrawalService.reconcileOne
  rw [if_neg (not_not.mpr hr)]
  have hfind : (Async.await (Desk.findWithdrawal r.withdrawOrderId) : Clerk U _).exec (payoutReply f history) d =
      (.ok (d.rows r.withdrawOrderId), d) := by
    rw [Async.exec_await]
    cases hwd : d.rows r.withdrawOrderId with
    | none => simp [payoutReply, Desk.reply, Desk.answer, Refused.deskFault, hwd]
    | some wd => simp [payoutReply, Desk.reply, Desk.answer, Refused.deskFault, hwd, hrow wd hwd]
  rw [Async.exec_bind_ok hfind]
  cases hwd : d.rows r.withdrawOrderId with
  | none => rfl
  | some wd =>
    simp only [if_pos (hrow wd hwd)]
    rfl

/-- A completed payout that the provider has failed: its credit is booked and its row reversed, or the credit is refused. -/
theorem reconcileOne_found (f : Refused U M) (history : List BinanceWithdrawalStatus)
    (hr : r.status ∈ binanceWithdrawFailed) {wd : WithdrawalRecord U}
    (hrow : d.rows r.withdrawOrderId = some wd) (hcompleted : wd.status = .completed) :
    (WithdrawalService.reconcileOne r : Clerk U Bool).exec (payoutReply f history) d =
      if f.reversal r.withdrawOrderId then (.error .store, { d with found := d.found ++ [r.withdrawOrderId] })
      else (.ok true, d.reversed wd r.withdrawOrderId) := by
  unfold WithdrawalService.reconcileOne
  rw [if_neg (not_not.mpr hr)]
  have hfind : (Async.await (Desk.findWithdrawal r.withdrawOrderId) : Clerk U _).exec (payoutReply f history) d =
      (.ok (some wd), { d with found := d.found ++ [r.withdrawOrderId] }) := by
    rw [Async.exec_await]
    simp [payoutReply, Desk.reply, Desk.answer, Refused.deskFault, hrow, hcompleted]
  have hnotify : ∀ d : WithdrawalDesk U,
      (Async.await Desk.notify : Clerk U Unit).exec (payoutReply f history) d = (.ok (), d) :=
    fun _ => rfl
  rw [Async.exec_bind_ok hfind]
  generalize hd₁ : ({ d with found := d.found ++ [r.withdrawOrderId] } : WithdrawalDesk U) = d₁
  simp only [hcompleted, ne_eq, not_true_eq_false, if_false]
  have hcredit : ∀ d : WithdrawalDesk U, (WithdrawalService.credit wd.userId wd.amountCents (.reversal r.withdrawOrderId)).exec
      (payoutReply f history) d = if f.reversal r.withdrawOrderId then (.error .store, d)
        else (.ok (), d.book wd.userId wd.amountCents (.reversal r.withdrawOrderId)) := by
    intro d
    unfold WithdrawalService.credit
    rw [Async.exec_await]
    by_cases hno : f.reversal r.withdrawOrderId = true
    · simp [payoutReply, Desk.reply, Refused.deskFault, hno]
    · simp [payoutReply, Desk.reply, Desk.answer, Refused.deskFault, hno]
  have hrest : ((WithdrawalService.credit wd.userId wd.amountCents (.reversal r.withdrawOrderId) : Clerk U Unit) >>= fun _ =>
      WithdrawalService.markReversed r.withdrawOrderId >>= fun _ => Async.await Desk.notify >>= fun _ => pure true).exec
        (payoutReply f history) d₁ = if f.reversal r.withdrawOrderId then (.error .store, d₁)
          else (.ok true, (d₁.book wd.userId wd.amountCents (.reversal r.withdrawOrderId)).reverse r.withdrawOrderId) := by
    have hown := hcredit d₁
    by_cases hno : f.reversal r.withdrawOrderId = true
    · rw [if_pos hno] at hown ⊢
      exact Async.exec_bind_error hown _
    · rw [if_neg hno] at hown ⊢
      exact Async.exec_bind_ok hown _
  unfold WithdrawalDesk.reversed
  rw [hd₁]
  by_cases hamount : r.amountCents ≠ wd.amountCents
  · rw [if_pos hamount, Async.exec_bind_ok (hnotify d₁)]
    exact hrest
  · rw [if_neg hamount]
    exact hrest

/-- A reversed withdrawal is rejected, the others stay. -/
theorem reversed_rows {wd : WithdrawalRecord U} {id : ℕ} (hrow : d.rows id = some wd) (hid : wd.id = id)
    (hcompleted : wd.status = .completed) :
    ∃ wd', wd'.id = id ∧ wd'.status = .rejected ∧ ∀ k, (d.reversed wd id).rows k = if k = id then some wd' else d.rows k := by
  refine ⟨{ wd with status := .rejected, failureReason := some "payout failed on-chain (auto-reversed)" }, hid, rfl,
    fun k => ?_⟩
  unfold WithdrawalDesk.reversed WithdrawalDesk.reverse
  rw [book_rows]
  simp only [hrow, hcompleted, if_true]
  show Function.update _ wd.id _ k = _
  rw [Function.update_apply, book_rows, hid]

/-- A row of the history, counted. -/
def countReversal (n : ℕ) (r : BinanceWithdrawalStatus) : Clerk U ℕ := do
  let reversed ← WithdrawalService.reconcileOne r
  pure (n + if reversed then 1 else 0)

/-- The pass over the payouts is a loop over rows. -/
theorem countReversal_rowLoop (f : Refused U M) (history : List BinanceWithdrawalStatus) :
    Async.RowLoop (payoutReply f history) WithdrawalDesk.rows countReversal (fun n _ => n + 1) True
      BinanceWithdrawalStatus.withdrawOrderId (fun r => r.status ∈ binanceWithdrawFailed)
      (fun wd : WithdrawalRecord U => wd.status = .completed) (fun wd => f.reversal wd.id = true) fun _ d => d.Filed := by
  refine ⟨fun n r d hd hdue => ⟨n, ?_, fun _ => rfl⟩, fun n r d wd hd hr hrow hcompleted hfree => ?_,
    fun n r d wd hd hr hrow hcompleted hstuck => ?_⟩
  · unfold countReversal
    by_cases hr : r.status ∈ binanceWithdrawFailed
    · have hno : ∀ wd, d.rows r.withdrawOrderId = some wd → wd.status ≠ .completed :=
        fun wd hrow hcompleted => hdue ⟨hr, wd, hrow, hcompleted⟩
      exact Async.exec_bind_ok (reconcileOne_missing f history hr hno) _
    · have hskip : (WithdrawalService.reconcileOne r : Clerk U Bool).exec (payoutReply f history) d = (.ok false, d) := by
        unfold WithdrawalService.reconcileOne
        rw [if_pos hr]
        rfl
      exact Async.exec_bind_ok hskip _
  · have hid := hd _ _ hrow
    obtain ⟨wd', hid', hrejected, hrows⟩ := reversed_rows hrow hid hcompleted
    have hrun := reconcileOne_found f history hr hrow hcompleted
    rw [if_neg (by rw [← hid]; exact hfree)] at hrun
    refine ⟨d.reversed wd r.withdrawOrderId, wd', Async.exec_bind_ok hrun _, ?_, fun k hk => ?_, ?_, fun _ _ k x hx => ?_⟩
    · rw [hrejected]
      intro h
      cases h
    · rw [hrows, if_neg hk]
    · rw [hrows, if_pos rfl]
    · rw [hrows] at hx
      split at hx
      · rename_i hk
        cases hx
        rw [hid', hk]
      · exact hd k x hx
  · have hid := hd _ _ hrow
    have hrun := reconcileOne_found f history hr hrow hcompleted
    rw [if_pos (by rw [← hid]; exact hstuck)] at hrun
    exact ⟨.store, _, Async.exec_bind_error hrun _, fun _ => rfl⟩

/-- The reconciler is the loop that counts. -/
theorem reconcileAll_exec (f : Refused U M) (history : List BinanceWithdrawalStatus)
    (records : List BinanceWithdrawalStatus) (d : WithdrawalDesk U) (n : ℕ) :
    ((records.foldlM countReversal n).exec (payoutReply f history) d).2 =
        ((WithdrawalService.reconcileAll records).exec (payoutReply f history) d).2 ∧
      ((records.foldlM countReversal n).exec (payoutReply f history) d).1.isOk =
        ((WithdrawalService.reconcileAll records).exec (payoutReply f history) d).1.isOk := by
  induction records generalizing d n with
  | nil => exact ⟨rfl, rfl⟩
  | cons r records ih =>
    have hall : (WithdrawalService.reconcileAll (r :: records) : Clerk U ℕ) =
        WithdrawalService.reconcileOne r >>= fun reversed =>
        WithdrawalService.reconcileAll records >>= fun count => pure (count + if reversed then 1 else 0) := rfl
    rw [List.foldlM_cons, hall, countReversal, Async.exec_bind, Async.exec_bind, Async.exec_bind]
    cases h : (WithdrawalService.reconcileOne r : Clerk U Bool).exec (payoutReply f history) d with
    | mk res d₁ =>
      cases res with
      | error e => exact ⟨rfl, rfl⟩
      | ok reversed =>
        obtain ⟨hstate, hok⟩ := ih d₁ (n + if reversed then 1 else 0)
        simp only [Async.exec_pure]
        rw [hstate, hok, Async.exec_bind]
        cases h' : (WithdrawalService.reconcileAll records : Clerk U ℕ).exec (payoutReply f history) d₁ with
        | mk res d₂ =>
          cases res with
          | error e => exact ⟨rfl, rfl⟩
          | ok count => exact ⟨rfl, rfl⟩

end Payouts

/-! ## The tick -/

section Tick

variable [DecidableEq U] [DecidableEq M] {f : Refused U M} {w : SweepWorld U M} {live : List M} {now maxAgeMs : ℤ}

/-- The rows are as the services leave them. -/
structure SweepWorld.Reached (w : SweepWorld U M) : Prop where
  tournaments : ∃ s es, w.tournaments = run (Tournaments.step s) {} es
  wars : ∃ v es, w.wars = run (ClubWars.step v) {} es
  desk : ∃ setup es, w.desk = run (WithdrawalDesk.step setup) {} es

/-- The recovery of matches, as a loop over items. -/
abbrev orphanItems (f : Refused U M) (live : List M) : Async.Items (MatchRecord U M) M (List (MatchRecord U M)) :=
  Async.rowItems matchRow MatchRecord.id (fun m => m.id ∉ live) (fun r => r.status = .active) (MatchRecord.Stuck f)

/-- The pass over the wars, as a loop over items. -/
abbrev warItems (refused : ClubWarRef U → Bool) (cutoff : ℤ) : Async.Items (ClubWar U) ℕ (ClubWars U) :=
  Async.rowItems ClubWars.rows ClubWar.id (fun x => x.createdAt ≤ cutoff) (ClubWar.Stale cutoff) (ClubWar.Stuck refused)

/-- The pass over the payouts, as a loop over items. -/
abbrev payoutItems (reversal : ℕ → Bool) : Async.Items BinanceWithdrawalStatus ℕ (WithdrawalDesk U) :=
  Async.rowItems WithdrawalDesk.rows BinanceWithdrawalStatus.withdrawOrderId (fun r => r.status ∈ binanceWithdrawFailed)
    (fun wd => wd.status = .completed) fun wd => reversal wd.id = true

/-- What the passes list. -/
def SweepWorld.orphans (w : SweepWorld U M) : List (MatchRecord U M) := w.matchRows.filter (·.status = .active)

/-- The wars the pass lists. -/
def ClubWars.listed (s : ClubWars U) : List (ClubWar U) := ((List.range s.seq).filterMap s.rows).filter fun w => w.status.active

omit [DecidableEq U] in
theorem passMatches_passed (w : SweepWorld U M) (f : Refused U M) (live : List M) :
    Async.Passed (orphanItems f live) w.orphans w.matchRows (w.passMatches f live).2.matchRows (w.passMatches f live).1 := by
  have hrun : (recoverOrphanedMatches live).exec (OrphanQuery.reply f) w.matchRows =
      (w.orphans.foldlM (recoverOne live) []).exec (OrphanQuery.reply f) w.matchRows := rfl
  unfold SweepWorld.passMatches
  rw [hrun]
  exact (recoverOne_rowLoop f live).isolated.passed w.orphans [] w.matchRows fun _ _ => trivial

omit [DecidableEq M] in
/-- The pass over the tournaments closes what it reaches. -/
theorem passTournaments_passed (hw : Numbered w.tournaments) (f : Refused U M) (now maxAgeMs : ℤ) :
    Async.Passed (tournamentItems f.tournament (now - maxAgeMs)) w.tournaments.stored w.tournaments
      (w.passTournaments f now maxAgeMs).2.tournaments (w.passTournaments f now maxAgeMs).1 := by
  have hrun : (TournamentService.sweepStale now maxAgeMs).exec (Tournaments.reply f.tournamentFault) w.tournaments =
      (w.tournaments.stored.foldlM (TournamentService.sweepOne (now - maxAgeMs)) []).exec
        (Tournaments.reply f.tournamentFault) w.tournaments := rfl
  unfold SweepWorld.passTournaments
  rw [hrun]
  refine (sweepOne_rowLoop (Tournaments.reply_credits f) (now - maxAgeMs)).isolated.passed _ _ _
    fun x hx => ⟨hw, fun t ht => ?_⟩
  rw [hw.mem_stored.mp hx] at ht
  cases ht
  rfl

omit [DecidableEq M] in
/-- The pass over the wars closes what it reaches. -/
theorem passWars_passed (hw : w.wars.Numbered) (f : Refused U M) (now maxAgeMs : ℤ) :
    Async.Passed (warItems f.war (now - maxAgeMs)) w.wars.listed w.wars
      (w.passWars f now maxAgeMs).2.wars (w.passWars f now maxAgeMs).1 := by
  have hrun : (ClubWarService.sweepStaleWars now maxAgeMs).exec (ClubWars.reply f.warFault) w.wars =
      (w.wars.listed.foldlM (ClubWarService.sweepOne (now - maxAgeMs)) []).exec (ClubWars.reply f.warFault) w.wars := rfl
  unfold SweepWorld.passWars
  rw [hrun]
  refine (war_sweepOne_rowLoop f (now - maxAgeMs)).isolated.passed _ _ _ fun x hx => ⟨hw, fun t ht => ?_⟩
  obtain ⟨k, -, hk⟩ := List.mem_filterMap.mp (List.mem_of_mem_filter hx)
  rw [hw k x hk, hk] at ht
  cases ht
  rfl

omit [DecidableEq U] [DecidableEq M] in
/-- The pass over the payouts closes what it reaches. -/
theorem passPayouts_passed (hw : w.desk.Filed) (f : Refused U M) :
    Async.Passed (payoutItems f.reversal) w.history w.desk (w.passPayouts f).2.desk (w.passPayouts f).1 := by
  have hrun : (WithdrawalService.reconcileFailedWithdrawals : Clerk U ℕ).exec (payoutReply f w.history) w.desk =
      (WithdrawalService.reconcileAll w.history).exec (payoutReply f w.history) w.desk := rfl
  have hpassed := (countReversal_rowLoop f w.history).isolated.passed w.history 0 w.desk fun _ _ => hw
  obtain ⟨hstate, hok⟩ := reconcileAll_exec f w.history w.history w.desk 0
  rw [hstate, hok] at hpassed
  unfold SweepWorld.passPayouts
  show Async.Passed _ _ _ ((WithdrawalService.reconcileFailedWithdrawals : Clerk U ℕ).exec (payoutReply f w.history) w.desk).2
    ((WithdrawalService.reconcileFailedWithdrawals : Clerk U ℕ).exec (payoutReply f w.history) w.desk).1.isOk
  rw [hrun]
  exact hpassed

/-- Every item that could be recovered in the tick from `w` is recovered in `w'`. -/
structure SweepWorld.Recovered (f : Refused U M) (live : List M) (cutoff : ℤ) (w w' : SweepWorld U M) : Prop where
  orphans : (orphanItems f live).Recovered w.orphans w.matchRows w'.matchRows
  tournaments : (tournamentItems f.tournament cutoff).Recovered w.tournaments.stored w.tournaments w'.tournaments
  wars : (warItems f.war cutoff).Recovered w.wars.listed w.wars w'.wars
  payouts : (payoutItems f.reversal).Recovered w.history w.desk w'.desk

/-- A refund of an orphaned match is refused. -/
def SweepWorld.OrphanStuck (f : Refused U M) (live : List M) (w : SweepWorld U M) : Prop :=
  (orphanItems f live).Fails w.orphans w.matchRows

/-- A refund of a stale tournament is refused. -/
def SweepWorld.TournamentStuck (f : Refused U M) (cutoff : ℤ) (w : SweepWorld U M) : Prop :=
  (tournamentItems f.tournament cutoff).Fails w.tournaments.stored w.tournaments

/-- No item that could be recovered stands behind one that is refused: neither in its own pass, nor in a pass after the
matches or the tournaments. -/
structure SweepWorld.Unblocked (f : Refused U M) (live : List M) (cutoff : ℤ) (w : SweepWorld U M) : Prop where
  orphans : (orphanItems f live).Clear w.orphans w.matchRows
  tournaments : (tournamentItems f.tournament cutoff).ClearBehind w.tournaments.stored w.tournaments (w.OrphanStuck f live)
  wars : (warItems f.war cutoff).ClearBehind w.wars.listed w.wars (w.OrphanStuck f live ∨ w.TournamentStuck f cutoff)
  payouts : (payoutItems f.reversal).ClearBehind w.history w.desk (w.OrphanStuck f live ∨ w.TournamentStuck f cutoff)

/-- The second pass does not depend on the first. -/
theorem SweepWorld.Reached.passed_second (hw : w.Reached) (f : Refused U M) (live : List M) (now maxAgeMs : ℤ) :
    Async.Passed (tournamentItems f.tournament (now - maxAgeMs)) w.tournaments.stored w.tournaments
      ((w.passMatches f live).2.passTournaments f now maxAgeMs).2.tournaments
      ((w.passMatches f live).2.passTournaments f now maxAgeMs).1 := by
  obtain ⟨s, es, hrun⟩ := hw.tournaments
  have hnumbered : Numbered (w.passMatches f live).2.tournaments := by
    show Numbered w.tournaments
    rw [hrun]
    exact tournaments_numbered s es
  exact passTournaments_passed hnumbered f now maxAgeMs

/-- What ends a tick early, and what it leaves then. -/
theorem sweepTick_cases (hw : w.Reached) (f : Refused U M) (live : List M) (now maxAgeMs : ℤ) :
    (w.OrphanStuck f live ∧ w.sweepTick f live now maxAgeMs = (w.passMatches f live).2) ∨
      (¬w.OrphanStuck f live ∧ w.TournamentStuck f (now - maxAgeMs) ∧
        w.sweepTick f live now maxAgeMs = ((w.passMatches f live).2.passTournaments f now maxAgeMs).2) ∨
      (¬w.OrphanStuck f live ∧ ¬w.TournamentStuck f (now - maxAgeMs) ∧ w.sweepTick f live now maxAgeMs =
        ((((w.passMatches f live).2.passTournaments f now maxAgeMs).2.passWars f now maxAgeMs).2.passPayouts f).2) := by
  have hfirst := (passMatches_passed w f live).ok_iff
  have hsecond := (hw.passed_second f live now maxAgeMs).ok_iff
  unfold SweepWorld.sweepTick
  by_cases hmatched : (w.passMatches f live).1 = true
  · have hno : ¬w.OrphanStuck f live := hfirst.mp hmatched
    simp only [hmatched, Bool.not_true, Bool.false_eq_true, if_false]
    by_cases hswept : ((w.passMatches f live).2.passTournaments f now maxAgeMs).1 = true
    · simp only [hswept, Bool.not_true, Bool.false_eq_true, if_false]
      exact Or.inr (Or.inr ⟨hno, hsecond.mp hswept, trivial⟩)
    · have hstuck : w.TournamentStuck f (now - maxAgeMs) := by
        by_contra h
        exact hswept (hsecond.mpr h)
      simp only [hswept, Bool.not_false, if_true]
      exact Or.inr (Or.inl ⟨hno, hstuck, trivial⟩)
  · have hstuck : w.OrphanStuck f live := by
      by_contra h
      exact hmatched (hfirst.mpr h)
    simp only [hmatched, Bool.not_false, if_true]
    exact Or.inl ⟨hstuck, trivial⟩

/-- **When a tick recovers all that it could.** -/
theorem sweep_isolates_iff (hw : w.Reached) (f : Refused U M) (live : List M) (now maxAgeMs : ℤ) :
    w.Recovered f live (now - maxAgeMs) (w.sweepTick f live now maxAgeMs) ↔ w.Unblocked f live (now - maxAgeMs) := by
  have hfirst := passMatches_passed w f live
  have hsecond := hw.passed_second f live now maxAgeMs
  obtain ⟨v, es, hwars⟩ := hw.wars
  have hnumbered : w.wars.Numbered := by
    rw [hwars]
    exact club_wars_numbered v es
  obtain ⟨setup, es', hdesk⟩ := hw.desk
  have hfiled : w.desk.Filed := by
    rw [hdesk]
    exact desk_filed setup es'
  -- the four passes, each run on what the one before it left
  set w₁ := (w.passMatches f live).2 with hw₁
  set w₂ := (w₁.passTournaments f now maxAgeMs).2 with hw₂
  have hthird : Async.Passed (warItems f.war (now - maxAgeMs)) w.wars.listed w.wars (w₂.passWars f now maxAgeMs).2.wars
      (w₂.passWars f now maxAgeMs).1 := passWars_passed (w := w₂) hnumbered f now maxAgeMs
  have hfourth : Async.Passed (payoutItems f.reversal) w.history w.desk ((w₂.passWars f now maxAgeMs).2.passPayouts f).2.desk
      ((w₂.passWars f now maxAgeMs).2.passPayouts f).1 := passPayouts_passed (w := (w₂.passWars f now maxAgeMs).2) hfiled f
  -- what each store is at the end: as its own pass left it, if the tick came that far
  have horphans : (w.sweepTick f live now maxAgeMs).matchRows = w₁.matchRows := by
    rcases sweepTick_cases hw f live now maxAgeMs with ⟨-, h⟩ | ⟨-, -, h⟩ | ⟨-, -, h⟩
    · rw [h]
    · rw [h]
      rfl
    · rw [h]
      rfl
  have htournaments : (w.OrphanStuck f live → (w.sweepTick f live now maxAgeMs).tournaments = w.tournaments) ∧
      (¬w.OrphanStuck f live → (w.sweepTick f live now maxAgeMs).tournaments = w₂.tournaments) := by
    rcases sweepTick_cases hw f live now maxAgeMs with ⟨ho, h⟩ | ⟨ho, -, h⟩ | ⟨ho, -, h⟩
    · exact ⟨fun _ => by rw [h]; rfl, fun hno => absurd ho hno⟩
    · exact ⟨fun hyes => absurd hyes ho, fun _ => by rw [h]⟩
    · exact ⟨fun hyes => absurd hyes ho, fun _ => by rw [h]; rfl⟩
  have hlast : (w.OrphanStuck f live ∨ w.TournamentStuck f (now - maxAgeMs) →
        (w.sweepTick f live now maxAgeMs).wars = w.wars ∧ (w.sweepTick f live now maxAgeMs).desk = w.desk) ∧
      (¬(w.OrphanStuck f live ∨ w.TournamentStuck f (now - maxAgeMs)) →
        (w.sweepTick f live now maxAgeMs).wars = (w₂.passWars f now maxAgeMs).2.wars ∧
          (w.sweepTick f live now maxAgeMs).desk = ((w₂.passWars f now maxAgeMs).2.passPayouts f).2.desk) := by
    rcases sweepTick_cases hw f live now maxAgeMs with ⟨ho, h⟩ | ⟨ho, ht, h⟩ | ⟨ho, ht, h⟩
    · exact ⟨fun _ => by rw [h]; exact ⟨rfl, rfl⟩, fun hno => absurd (Or.inl ho) hno⟩
    · exact ⟨fun _ => by rw [h]; exact ⟨rfl, rfl⟩, fun hno => absurd (Or.inr ht) hno⟩
    · exact ⟨fun hyes => absurd hyes (by simp [ho, ht]), fun _ => by rw [h]; exact ⟨rfl, rfl⟩⟩
  -- store by store
  have h₁ := Async.Items.recovered_iff_clear hfirst.left
  have h₂ := Async.Items.recovered_iff_clearBehind htournaments.1 fun hno => by
    rw [htournaments.2 hno]
    exact hsecond.left
  have h₃ := Async.Items.recovered_iff_clearBehind (fun h => (hlast.1 h).1) fun hno => by
    rw [(hlast.2 hno).1]
    exact hthird.left
  have h₄ := Async.Items.recovered_iff_clearBehind (fun h => (hlast.1 h).2) fun hno => by
    rw [(hlast.2 hno).2]
    exact hfourth.left
  constructor
  · rintro ⟨r₁, r₂, r₃, r₄⟩
    rw [horphans] at r₁
    exact ⟨h₁.mp r₁, h₂.mp r₂, h₃.mp r₃, h₄.mp r₄⟩
  · rintro ⟨c₁, c₂, c₃, c₄⟩
    refine ⟨?_, h₂.mpr c₂, h₃.mpr c₃, h₄.mpr c₄⟩
    rw [horphans]
    exact h₁.mpr c₁

/-- What the last two passes throw is caught: when only credits of club wars are refused, a tick that
gets to every war it could end recovers everything. -/
theorem unblocked_of_wars (f : Refused U M) (hmatch : ∀ id seat, f.matchSeat id seat = false)
    (htournament : ∀ ref, f.tournament ref = false) (hreversal : ∀ id, f.reversal id = false) (w : SweepWorld U M)
    (live : List M) (cutoff : ℤ) (hwars : (warItems f.war cutoff).Clear w.wars.listed w.wars) :
    w.Unblocked f live cutoff := by
  have h₁ : ∀ x ∈ w.orphans, (orphanItems f live).Fine x w.matchRows := by
    rintro x - - - ⟨r, -, -, hany⟩
    obtain ⟨p, -, hp⟩ := List.any_eq_true.mp hany
    rw [hmatch] at hp
    cases hp
  have h₂ : ∀ x ∈ w.tournaments.stored, (tournamentItems f.tournament cutoff).Fine x w.tournaments := by
    rintro x - - - ⟨t, -, -, u, -, hu⟩
    rw [htournament] at hu
    cases hu
  have h₄ : ∀ x ∈ w.history, (payoutItems (U := U) f.reversal).Fine x w.desk := by
    rintro x - - - ⟨r, -, hr⟩
    rw [hreversal] at hr
    cases hr
  have hfirst : ¬w.OrphanStuck f live := fun h => Async.Items.fails_iff.mp h h₁
  have hsecond : ¬w.TournamentStuck f cutoff := fun h => Async.Items.fails_iff.mp h h₂
  have hnone : ¬(w.OrphanStuck f live ∨ w.TournamentStuck f cutoff) := fun h => h.elim hfirst hsecond
  exact ⟨Async.Items.clear_of_fine h₁, ⟨fun h => absurd h hfirst, fun _ => Async.Items.clear_of_fine h₂⟩,
    ⟨fun h => absurd h hnone, fun _ => hwars⟩, ⟨fun h => absurd h hnone, fun _ => Async.Items.clear_of_fine h₄⟩⟩

/-- A match of two that no server runs, a tournament with one of its players, a war of one against
one, and a payout that the provider has failed. -/
def busyWorld : SweepWorld ℕ ℕ where
  matchRows := [{ id := 0, type := .oneVOne, stakeCents := 100, rakeBps := 0, potCents := 200, players := [⟨0, 7⟩, ⟨1, 8⟩] }]
  tournaments := run (Tournaments.step tenPercent) {}
    [.call (.create 100 2 0) fun _ => .none, .call (.register 0 7) fun _ => .none]
  wars := run (ClubWars.step fivePercent) {}
    [⟨.create 1 2 100 2 0, fun _ => .none⟩, ⟨.register 0 7 .a, fun _ => .none⟩, ⟨.register 0 8 .b, fun _ => .none⟩]
  desk := run (WithdrawalDesk.step chainSetup) {} (onChainFailure.take 8)
  history := [⟨0, 5, 1000⟩]

theorem busyWorld_reached : busyWorld.Reached :=
  ⟨⟨tenPercent, _, rfl⟩, ⟨fivePercent, _, rfl⟩, ⟨chainSetup, _, rfl⟩⟩

/-- A refused refund of the war leaves only the war open; a refused refund of the match leaves the
tournament open behind it. -/
theorem sweep_isolates_refused :
    let f : Refused ℕ ℕ := { war := fun _ => true }
    let g : Refused ℕ ℕ := { matchSeat := fun _ seat => seat = 1 }
    let w' := busyWorld.sweepTick f [] 10 5
    (w'.matchRows.map (·.status) = [.cancelled] ∧ (w'.tournaments.rows 0).map (·.status) = some .cancelled ∧
      (w'.wars.rows 0).map (·.status) = (busyWorld.wars.rows 0).map (·.status) ∧
      (w'.desk.rows 0).map (·.status) = some .rejected) ∧
    busyWorld.Recovered f [] 5 w' ∧ ¬busyWorld.Recovered g [] 5 (busyWorld.sweepTick g [] 10 5) := by
  refine ⟨by decide +kernel, ?_, fun hall => ?_⟩
  · refine (sweep_isolates_iff busyWorld_reached { war := fun _ => true } [] 10 5).mpr
      (unblocked_of_wars _ (fun _ _ => rfl) (fun _ => rfl) (fun _ => rfl) busyWorld [] 5 ?_)
    -- the only war cannot be refunded
    intro x hx hclosable
    have hid : ∀ x ∈ busyWorld.wars.listed, x.id = 0 := by decide +kernel
    have hrow : ∀ r ∈ busyWorld.wars.rows 0, r.status = .registering ∧ r.stakeCents ≠ 0 ∧ 7 ∈ r.players := by
      decide +kernel
    obtain ⟨r, hr, -⟩ := hclosable.1.2
    obtain ⟨hstatus, hstake, hplayer⟩ := hrow r (hid x hx ▸ hr)
    refine absurd ⟨r, hr, ?_⟩ hclosable.2
    unfold ClubWar.Stuck
    rw [if_neg (by simp [hstatus])]
    exact ⟨hstake, 7, hplayer, .inr rfl⟩
  · have hblocked := (sweep_isolates_iff busyWorld_reached { matchSeat := fun _ seat => seat = 1 } [] 10 5).mp hall
    have hstuck : busyWorld.OrphanStuck { matchSeat := fun _ seat => seat = 1 } [] :=
      ⟨_, List.mem_cons_self, ⟨List.not_mem_nil, _, rfl, rfl⟩, _, rfl, by decide, by decide⟩
    obtain ⟨t, ht, hrow, hstale⟩ : ∃ t ∈ busyWorld.tournaments.stored, busyWorld.tournaments.rows t.id = some t ∧
        t.status.sweepable = true ∧ t.createdAt ≤ 5 := by
      decide +kernel
    refine hblocked.tournaments.1 hstuck t ht ⟨⟨hstale, t, hrow, hstale⟩, ?_⟩
    rintro ⟨t', -, -, u, -, hu⟩
    cases hu

/-- One tick of the timer. -/
structure Tick (M : Type) where
  live : List M
  now : ℤ
  maxAgeMs : ℤ

/-- One tick. -/
def SweepWorld.step (f : Refused U M) (w : SweepWorld U M) (t : Tick M) : SweepWorld U M :=
  w.sweepTick f t.live t.now t.maxAgeMs

/-- The refund of the orphaned match `k` is refused. -/
def SweepWorld.Holds (f : Refused U M) (k : M) (w : SweepWorld U M) : Prop :=
  ∃ r, matchRow w.matchRows k = some r ∧ r.status = .active ∧ r.Stuck f

omit [DecidableEq U] in
theorem SweepWorld.Holds.orphanStuck {k : M} (h : w.Holds f k) (hlive : k ∉ live) :
    ∃ r : MatchRecord U M, r.id = k ∧ (orphanItems f live).Due w.matchRows r ∧ (orphanItems f live).Bad k w.matchRows ∧
      w.OrphanStuck f live := by
  obtain ⟨r, hrow, hactive, hstuck⟩ := h
  have hid : r.id = k := matchRow_id hrow
  have hdue : (orphanItems f live).Due w.matchRows r := by
    refine ⟨?_, r, ?_, hactive⟩
    · show r.id ∉ live
      rw [hid]
      exact hlive
    · show matchRow w.matchRows r.id = some r
      rw [hid, hrow]
  have hbad : (orphanItems f live).Bad k w.matchRows := ⟨r, hrow, hstuck⟩
  refine ⟨r, hid, hdue, hbad, r, ?_, hdue, ?_⟩
  · exact List.mem_filter.mpr ⟨List.mem_of_find?_eq_some hrow, by simp [hactive]⟩
  · show (orphanItems f live).Bad r.id w.matchRows
    rw [hid]
    exact hbad

/-- A tick ends with the matches, and the refused one stays. -/
theorem SweepWorld.Holds.step {k : M} (h : w.Holds f k) (t : Tick M) (hlive : k ∉ t.live) :
    (w.step f t).Holds f k ∧ (w.step f t).tournaments = w.tournaments ∧ (w.step f t).wars = w.wars ∧
      (w.step f t).desk = w.desk := by
  obtain ⟨r, hid, hdue, hbad, hstuck⟩ := h.orphanStuck hlive
  have hpassed := passMatches_passed w f t.live
  have hended : (w.passMatches f t.live).1 = false := by
    rw [Bool.eq_false_iff]
    exact fun hok => hpassed.ok_iff.mp hok hstuck
  have hstep : w.step f t = (w.passMatches f t.live).2 := by
    unfold SweepWorld.step SweepWorld.sweepTick
    simp only [hended, Bool.not_false, if_true]
  rw [hstep]
  refine ⟨?_, rfl, rfl, rfl⟩
  have hopen : (orphanItems f t.live).Open k (w.passMatches f t.live).2.matchRows := by
    subst hid
    exact (hpassed.left r.id).mpr ⟨hdue.2, Async.Items.not_reached_of_bad hdue hbad⟩
  obtain ⟨r₁, hrow₁, hactive₁⟩ := hopen
  obtain ⟨r₂, hrow₂, hstuck₂⟩ := (hpassed.stays k ⟨r₁, hrow₁, hactive₁⟩).mpr hbad
  have hsame : r₁ = r₂ := Option.some.inj (hrow₁.symm.trans hrow₂)
  subst hsame
  exact ⟨r₁, hrow₁, hactive₁, hstuck₂⟩

/-- **One refused refund starves the other sweeps**: as long as the match is not live again, no tick of any number of them
voids a tournament, ends a war or gives back a payout. -/
theorem stuck_match_starves {k : M} (h : w.Holds f k) (ticks : List (Tick M)) (hlive : ∀ t ∈ ticks, k ∉ t.live) :
    (run (SweepWorld.step f) w ticks).Holds f k ∧ (run (SweepWorld.step f) w ticks).tournaments = w.tournaments ∧
      (run (SweepWorld.step f) w ticks).wars = w.wars ∧ (run (SweepWorld.step f) w ticks).desk = w.desk := by
  induction ticks generalizing w with
  | nil => exact ⟨h, rfl, rfl, rfl⟩
  | cons t ticks ih =>
    obtain ⟨hstays, htournaments, hwars, hdesk⟩ := h.step t (hlive t List.mem_cons_self)
    obtain ⟨hend, h₁, h₂, h₃⟩ := ih hstays fun t' ht' => hlive t' (List.mem_cons_of_mem t ht')
    exact ⟨hend, h₁.trans htournaments, h₂.trans hwars, h₃.trans hdesk⟩

/-- A match of two that no server runs. -/
def orphanedMatch : SweepWorld ℕ ℕ :=
  { matchRows := [{ id := 0, type := .oneVOne, stakeCents := 100, rakeBps := 0, potCents := 200, players := [⟨0, 7⟩, ⟨1, 8⟩] }]
    tournaments := run (Tournaments.step tenPercent) {} openTournament }

theorem stuck_match_starves_twice :
    (run (SweepWorld.step { matchSeat := fun _ seat => seat = 1 }) orphanedMatch [⟨[], 10, 5⟩, ⟨[], 20, 5⟩]).tournaments =
      orphanedMatch.tournaments :=
  have hholds : orphanedMatch.Holds { matchSeat := fun _ seat => seat = 1 } 0 :=
    ⟨{ id := 0, type := .oneVOne, stakeCents := 100, rakeBps := 0, potCents := 200, players := [⟨0, 7⟩, ⟨1, 8⟩] },
      rfl, rfl, by decide, by decide⟩
  (stuck_match_starves hholds [⟨[], 10, 5⟩, ⟨[], 20, 5⟩] (by simp)).2.1

end Tick

end Murlan
