import Murlan.Base.Saga
import Murlan.Proof.ClubWar
import Murlan.Proof.Reports

/-!
# Registration without a unit of work

A tournament and a club war debit the buy-in, save the row, and credit the debit back where
that fails: a saga, whose credit has one reference for a user and a tournament or a war.

* `Tournaments.seller`, `ClubWars.seller`: the attempts of one user.
* `tournament_rules`, `club_war_rules`: both keep the rules of a saga.
* `registration_all_or_nothing`: when a registration is all or nothing.
-/

namespace Murlan

open Saga (Failures Stage Seller owed)

variable {U : Type} [DecidableEq U]

/-! ## Tournaments -/

/-- A debit or a save that fails does not take effect. -/
def TournamentQuery.failing (f : Failures) : TournamentQuery U → Fault
  | .debit _ _ _ => if f.debit then .before else .none
  | .save _ => if f.save then .before else .none
  | _ => .none

/-- Who is credited; `paid` says who got the prizes. -/
def TournamentRef.owner (paid : ℕ → Option U) : TournamentRef U → Option U
  | .refund _ u | .rollback _ u => some u
  | .prize id => paid id
  | .rake _ => none

/-- The user may still join. -/
def Tournament.joinable (t : Tournament U) (u : U) : Bool :=
  t.status = .registering ∧ u ∉ t.playerIds ∧ t.playerIds.length < t.capacity

namespace Tournaments

/-- The user has a place. -/
def isRegistered (w : Tournaments U) (id : ℕ) (u : U) : Prop := ∃ t, w.rows id = some t ∧ u ∈ t.playerIds

/-- What a place costs. -/
def buyIn (w : Tournaments U) (id : ℕ) : ℕ := ((w.rows id).map fun t => t.buyInCents).getD 0

/-- The attempts of a user to register for a tournament. -/
def seller (s : TournamentService) (paid : ℕ → Option U) (id : ℕ) (u : U) : Seller (Tournaments U) Failures where
  attempt w f := ((w.call s (.register id u) (TournamentQuery.failing f)).1.isOk,
    (w.call s (.register id u) (TournamentQuery.failing f)).2)
  registered w := w.isRegistered id u
  balance w := w.purse.balance (TournamentRef.owner paid) u

/-- How far an attempt gets. A free tournament needs no debit. -/
def stage (w : Tournaments U) (id : ℕ) (u : U) (f : Failures) : Stage :=
  match w.rows id with
  | none => .refused
  | some t =>
    if !t.joinable u then .refused
    else if 0 < t.buyInCents ∧ f.debit then .unpaid
    else if f.save then .unsaved
    else .seated

end Tournaments

section Tournament

variable {s : TournamentService} {w : Tournaments U} {t : Tournament U} {id : ℕ} {u : U} {f : Failures}

/-- The state after the debit. -/
def Tournaments.charged (w : Tournaments U) (t : Tournament U) (u : U) : Tournaments U :=
  { w with purse := w.purse.debitIf t.id u t.buyInCents }

/-- The state after the debit was given back. -/
def Tournaments.returned (w : Tournaments U) (t : Tournament U) (u : U) : Tournaments U :=
  { w with purse := w.purse.creditIf (.rollback t.id u) t.buyInCents }

theorem debit_exec (f : Failures) (id : ℕ) (u : U) (a : ℕ) (w : Tournaments U) :
    (Async.await (TournamentQuery.debit id u a) : Organiser U Unit).exec
        (Tournaments.reply (TournamentQuery.failing f)) w =
      if f.debit then (.error .store, w) else (.ok (), { w with purse := w.purse.debit id u a }) := by
  rw [Async.exec_await]
  unfold Tournaments.reply Async.faulty TournamentQuery.failing TournamentQuery.inMemory
  cases f.debit <;> rfl

theorem save_exec (f : Failures) (t : Tournament U) (w : Tournaments U) :
    (TournamentService.save t).exec (Tournaments.reply (TournamentQuery.failing f)) w =
      if f.save then (.error .store, w) else (.ok (), w.setRow t) := by
  unfold TournamentService.save
  rw [Async.exec_await]
  unfold Tournaments.reply Async.faulty TournamentQuery.failing TournamentQuery.inMemory
  cases f.save <;> rfl

/-- The row is saved, or the debit given back. -/
theorem saveOrReturn_exec (t : Tournament U) (u : U) (f : Failures) (w : Tournaments U) :
    ((TournamentService.save (t.apply u)).tryCatch fun e => do
        if 0 < t.buyInCents then (TournamentService.credit u t.buyInCents (.rollback t.id u)).ignore
        throw e).exec (Tournaments.reply (TournamentQuery.failing f)) w =
      if f.save then (.error .store, w.returned t u) else (.ok (), w.setRow (t.apply u)) := by
  rw [Async.exec_tryCatch, save_exec]
  cases hs : f.save with
  | false => rfl
  | true =>
    unfold Tournaments.returned Purse.creditIf
    by_cases hb : 0 < t.buyInCents
    · simp only [if_pos hb]
      rfl
    · simp only [if_neg hb]
      rfl

/-- A registration, by what fails in it. -/
theorem registerSaga_exec (t : Tournament U) (u : U) (f : Failures) (w : Tournaments U) :
    (TournamentService.registerSaga t u).exec (Tournaments.reply (TournamentQuery.failing f)) w =
      if 0 < t.buyInCents ∧ f.debit then (.error .store, w)
      else if f.save then (.error .store, (w.charged t u).returned t u)
      else (.ok (), (w.charged t u).setRow (t.apply u)) := by
  unfold TournamentService.registerSaga Tournaments.charged Purse.debitIf
  by_cases hb : 0 < t.buyInCents
  · have hdebit := debit_exec f t.id u t.buyInCents w
    cases hd : f.debit with
    | true =>
      rw [hd, if_pos rfl] at hdebit
      simp only [if_pos hb]
      rw [Async.exec_bind_error hdebit, if_pos ⟨hb, trivial⟩]
    | false =>
      rw [hd, if_neg nofun] at hdebit
      have hsave := saveOrReturn_exec t u f { w with purse := w.purse.debit t.id u t.buyInCents }
      simp only [if_pos hb] at hsave ⊢
      rw [Async.exec_bind_ok hdebit, if_neg (fun h => nomatch h.2)]
      exact hsave
  · have hsave := saveOrReturn_exec t u f w
    simp only [if_neg hb] at hsave ⊢
    rw [if_neg fun h => hb h.1]
    exact hsave

/-- The row is read, and the user refused or debited. -/
theorem register_exec (huow : s.uow = false) (id : ℕ) (u : U) (f : Failures) (w : Tournaments U) :
    ∃ e, (s.register id u).exec (Tournaments.reply (TournamentQuery.failing f)) w =
      match w.rows id with
      | none => (.error .notFound, w)
      | some t =>
        if t.joinable u then (TournamentService.registerSaga t u >>= fun _ => pure (t.apply u)).exec
          (Tournaments.reply (TournamentQuery.failing f)) w
        else (.error e, w) := by
  have hget : (TournamentService.get id).exec (Tournaments.reply (TournamentQuery.failing f)) w = (.ok (w.rows id), w) := by
    unfold TournamentService.get
    rw [Async.exec_await]
    rfl
  unfold TournamentService.register
  rw [Async.exec_bind_ok hget]
  cases hrow : w.rows id with
  | none => exact ⟨.notFound, rfl⟩
  | some t =>
    dsimp only
    by_cases hs : t.status = .registering
    · by_cases hu : u ∈ t.playerIds
      · refine ⟨.alreadyIn, ?_⟩
        simp [Tournament.joinable, Async.exec_bind, Async.exec_throwIf, hs, hu]
      · by_cases hl : t.playerIds.length < t.capacity
        · refine ⟨.full, ?_⟩
          have hle : ¬ t.capacity ≤ t.playerIds.length := by omega
          simp [Tournament.joinable, Async.exec_bind, Async.exec_throwIf, hs, hu, hl, hle, huow]
        · refine ⟨.full, ?_⟩
          have hle : t.capacity ≤ t.playerIds.length := by omega
          simp [Tournament.joinable, Async.exec_bind, Async.exec_throwIf, hs, hu, hl, hle]
    · refine ⟨.closed, ?_⟩
      simp [Tournament.joinable, Async.exec_bind, Async.exec_throwIf, hs]

/-- What an attempt does at each stage. -/
theorem seller_attempt (huow : s.uow = false) (paid : ℕ → Option U) (id : ℕ) (u : U) (f : Failures) (w : Tournaments U) :
    (Tournaments.seller s paid id u).attempt w f = match w.rows id, w.stage id u f with
      | some t, .unsaved => (false, (w.charged t u).returned t u)
      | some t, .seated => (true, (w.charged t u).setRow (t.apply u))
      | _, _ => (false, w) := by
  obtain ⟨e, hexec⟩ := register_exec huow id u f w
  have hcall : w.call s (.register id u) (TournamentQuery.failing f) =
      (TournamentReceipt.tournament <$> s.register id u).exec (Tournaments.reply (TournamentQuery.failing f)) w := rfl
  unfold Tournaments.seller Tournaments.stage
  dsimp only
  rw [hcall, Async.exec_map]
  cases hrow : w.rows id with
  | none =>
    rw [hrow] at hexec
    rw [hexec]
    rfl
  | some t =>
    rw [hrow] at hexec
    dsimp only at hexec ⊢
    cases hj : t.joinable u with
    | false =>
      rw [hj, if_neg nofun] at hexec
      rw [hexec]
      rfl
    | true =>
      rw [hj, if_pos rfl, Async.exec_bind, registerSaga_exec] at hexec
      rw [hexec]
      by_cases hd : 0 < t.buyInCents ∧ f.debit = true
      · simp only [if_pos hd]
        rfl
      · simp only [if_neg hd]
        cases hsave : f.save <;> rfl

/-- Where neither debit nor save is reached, or the debit fails, nothing happens. -/
theorem seller_nothing (huow : s.uow = false) (paid : ℕ → Option U)
    (h : w.stage id u f = .refused ∨ w.stage id u f = .unpaid) : (Tournaments.seller s paid id u).attempt w f = (false, w) := by
  rw [seller_attempt huow]
  rcases h with hst | hst
  · rw [hst]
    cases w.rows id <;> rfl
  · rw [hst]
    cases w.rows id <;> rfl

theorem stage_congr {w v : Tournaments U} (h : v.rows id = w.rows id) : v.stage id u f = w.stage id u f := by
  unfold Tournaments.stage
  rw [h]

omit [DecidableEq U] in
theorem buyIn_eq (h : w.rows id = some t) : w.buyIn id = t.buyInCents := by
  unfold Tournaments.buyIn
  rw [h]
  rfl

/-- An attempt that is not refused found the row. -/
theorem stage_row (h : w.stage id u f ≠ .refused) : ∃ t, w.rows id = some t := by
  unfold Tournaments.stage at h
  cases hrow : w.rows id with
  | none => simp [hrow] at h
  | some t => exact ⟨t, rfl⟩

/-- **A tournament keeps the rules of a saga.** -/
theorem tournament_rules (huow : s.uow = false) (paid : ℕ → Option U) (u : U)
    (hid : ∀ t, w.rows id = some t → t.id = id) :
    (Tournaments.seller s paid id u).Rules (w.buyIn id) (w.stage id u) w (fun v => v.rows id = w.rows id)
      fun v => .rollback id u ∈ v.purse.book.refs := by
  refine ⟨rfl, fun v hv => ?_, fun v f hreg => ?_, fun v f hv hst => ?_, fun v f hv hst => ?_, fun v f hv hst => ?_,
    fun v f hv hst => ?_⟩
  · show v.isRegistered id u ↔ w.isRegistered id u
    unfold Tournaments.isRegistered
    rw [hv]
  · obtain ⟨t, hrow, hu⟩ := hreg
    have hst : v.stage id u f = .refused := by
      unfold Tournaments.stage Tournament.joinable
      simp [hrow, hu]
    exact seller_nothing huow paid (Or.inl hst)
  · exact seller_nothing huow paid (Or.inl ((stage_congr hv).trans hst))
  · exact seller_nothing huow paid (Or.inr ((stage_congr hv).trans hst))
  · obtain ⟨t, hrow⟩ := stage_row (show w.stage id u f ≠ .refused by rw [hst]; exact nofun)
    have hrow' : v.rows id = some t := hv.trans hrow
    have hattempt : (Tournaments.seller s paid id u).attempt v f = (false, (v.charged t u).returned t u) := by
      rw [seller_attempt huow, stage_congr hv, hst, hrow']
    rw [hattempt, buyIn_eq hrow]
    obtain rfl := hid t hrow
    refine ⟨rfl, hv, fun hp => Purse.mem_creditIf_self _ _ (by omega), ?_⟩
    show ((v.purse.debitIf t.id u t.buyInCents).creditIf (.rollback t.id u) t.buyInCents).balance
      (TournamentRef.owner paid) u = v.purse.balance (TournamentRef.owner paid) u - _
    have howner : TournamentRef.owner paid (.rollback t.id u) = some u := rfl
    rw [Purse.balance_creditIf _ _ howner, Purse.balance_debitIf, Purse.book_debitIf]
    split <;> omega
  · obtain ⟨t, hrow⟩ := stage_row (show w.stage id u f ≠ .refused by rw [hst]; exact nofun)
    have hrow' : v.rows id = some t := hv.trans hrow
    obtain ⟨hid', -, -, hplayers, -⟩ := t.apply_fields u
    have hattempt : (Tournaments.seller s paid id u).attempt v f = (true, (v.charged t u).setRow (t.apply u)) := by
      rw [seller_attempt huow, stage_congr hv, hst, hrow']
    rw [hattempt, buyIn_eq hrow]
    refine ⟨rfl, ⟨t.apply u, ?_, ?_⟩, ?_, Purse.balance_debitIf ..⟩
    · rw [Tournaments.rows_setRow, hid', hid t hrow, if_pos rfl]
    · rw [hplayers]
      exact List.mem_append_right _ (List.mem_singleton_self u)
    · show _ ∈ (v.purse.debitIf t.id u t.buyInCents).book.refs ↔ _
      rw [Purse.book_debitIf]

end Tournament

/-! ## Club wars -/

/-- A debit or a save that fails does not take effect. -/
def ClubWarQuery.failing (f : Failures) : ClubWarQuery U → Fault
  | .debit _ _ _ => if f.debit then .before else .none
  | .save _ => if f.save then .before else .none
  | _ => .none

/-- Who is credited. -/
def ClubWarRef.owner : ClubWarRef U → Option U
  | .refund _ u | .rollback _ u | .share _ u => some u
  | .rake _ => none

/-- The user may still join the side. -/
def ClubWar.joinable (w : ClubWar U) (u : U) (side : WarSide) : Bool :=
  w.status = .registering ∧ u ∉ w.players ∧ (w.roster side).length < w.size

namespace ClubWars

/-- The user is on a roster. -/
def isRegistered (s : ClubWars U) (id : ℕ) (u : U) : Prop := ∃ w, s.rows id = some w ∧ u ∈ w.players

/-- What a place on a roster costs. -/
def stake (s : ClubWars U) (id : ℕ) : ℕ := ((s.rows id).map fun w => w.stakeCents).getD 0

/-- What a call answers, and the state after it. -/
def call (v : ClubWarService) (s : ClubWars U) (c : ClubWarCall U) (fault : ClubWarQuery U → Fault) :
    Except ClubWarError (ClubWarReceipt U) × ClubWars U :=
  (c.program v).exec (ClubWars.reply fault) s

/-- The attempts of a user to register for a club war, each for one side. -/
def seller (v : ClubWarService) (id : ℕ) (u : U) : Seller (ClubWars U) (WarSide × Failures) where
  attempt s a := ((s.call v (.register id u a.1) (ClubWarQuery.failing a.2)).1.isOk,
    (s.call v (.register id u a.1) (ClubWarQuery.failing a.2)).2)
  registered s := s.isRegistered id u
  balance s := s.purse.balance ClubWarRef.owner u

/-- How far an attempt gets. A free war needs no debit. -/
def stage (s : ClubWars U) (id : ℕ) (u : U) (a : WarSide × Failures) : Stage :=
  match s.rows id with
  | none => .refused
  | some w =>
    if !w.joinable u a.1 then .refused
    else if 0 < w.stakeCents ∧ a.2.debit then .unpaid
    else if a.2.save then .unsaved
    else .seated

end ClubWars

section ClubWar

variable {v : ClubWarService} {s s' : ClubWars U} {w : ClubWar U} {id : ℕ} {u : U} {a : WarSide × Failures} {f : Failures}

/-- The state after the debit. -/
def ClubWars.charged (s : ClubWars U) (w : ClubWar U) (u : U) : ClubWars U :=
  { s with purse := s.purse.debitIf w.id u w.stakeCents }

/-- The state after the debit was given back. -/
def ClubWars.returned (s : ClubWars U) (w : ClubWar U) (u : U) : ClubWars U :=
  { s with purse := s.purse.creditIf (.rollback w.id u) w.stakeCents }

theorem debitWar_exec (f : Failures) (id : ℕ) (u : U) (a : ℕ) (s : ClubWars U) :
    (Async.await (ClubWarQuery.debit id u a) : Captain U Unit).exec (ClubWars.reply (ClubWarQuery.failing f)) s =
      if f.debit then (.error .store, s) else (.ok (), { s with purse := s.purse.debit id u a }) := by
  rw [Async.exec_await]
  unfold ClubWars.reply Async.faulty ClubWarQuery.failing
  cases f.debit <;> rfl

theorem saveWar_exec (f : Failures) (w : ClubWar U) (s : ClubWars U) :
    (ClubWarService.save w).exec (ClubWars.reply (ClubWarQuery.failing f)) s =
      if f.save then (.error .store, s) else (.ok (), s.setRow w) := by
  unfold ClubWarService.save
  rw [Async.exec_await]
  unfold ClubWars.reply Async.faulty ClubWarQuery.failing
  cases f.save <;> rfl

/-- The row is saved, or the debit given back. -/
theorem saveWarOrReturn_exec (w : ClubWar U) (side : WarSide) (u : U) (f : Failures) (s : ClubWars U) :
    ((ClubWarService.save (w.seat side u)).tryCatch fun e => do
        if 0 < w.stakeCents then (ClubWarService.credit u w.stakeCents (.rollback w.id u)).ignore
        throw e).exec (ClubWars.reply (ClubWarQuery.failing f)) s =
      if f.save then (.error .store, s.returned w u) else (.ok (), s.setRow (w.seat side u)) := by
  rw [Async.exec_tryCatch, saveWar_exec]
  cases hs : f.save with
  | false => rfl
  | true =>
    unfold ClubWars.returned Purse.creditIf
    by_cases hb : 0 < w.stakeCents
    · -- a stake is an amount the wallet takes
      have hcredit : (ClubWarService.credit u w.stakeCents (.rollback w.id u)).exec
          (ClubWars.reply (ClubWarQuery.failing f)) s =
            (.ok (), { s with purse := s.purse.credit (.rollback w.id u) w.stakeCents }) := by
        have hne : w.stakeCents ≠ 0 := by omega
        unfold ClubWarService.credit
        rw [Async.exec_bind, Async.exec_throwIf, if_neg hne]
        exact Async.exec_await _ s
      simp only [if_pos hb]
      show (((ClubWarService.credit u w.stakeCents (.rollback w.id u)).ignore >>= fun _ => throw ClubWarError.store :
        Captain U Unit)).exec _ s = _
      have hignore : (ClubWarService.credit u w.stakeCents (.rollback w.id u)).ignore.exec
          (ClubWars.reply (ClubWarQuery.failing f)) s =
            (.ok (), { s with purse := s.purse.credit (.rollback w.id u) w.stakeCents }) := by
        unfold Async.ignore
        rw [Async.exec_tryCatch, hcredit]
      rw [Async.exec_bind_ok hignore]
      rfl
    · simp only [if_neg hb]
      rfl

/-- A registration for a war, by what fails in it. -/
theorem warSaga_exec (w : ClubWar U) (side : WarSide) (u : U) (f : Failures) (s : ClubWars U) :
    (ClubWarService.registerSaga w side u).exec (ClubWars.reply (ClubWarQuery.failing f)) s =
      if 0 < w.stakeCents ∧ f.debit then (.error .store, s)
      else if f.save then (.error .store, (s.charged w u).returned w u)
      else (.ok (), (s.charged w u).setRow (w.seat side u)) := by
  unfold ClubWarService.registerSaga ClubWars.charged Purse.debitIf
  by_cases hb : 0 < w.stakeCents
  · have hdebit := debitWar_exec f w.id u w.stakeCents s
    cases hd : f.debit with
    | true =>
      rw [hd, if_pos rfl] at hdebit
      simp only [if_pos hb]
      rw [Async.exec_bind_error hdebit, if_pos ⟨hb, trivial⟩]
    | false =>
      rw [hd, if_neg nofun] at hdebit
      have hsave := saveWarOrReturn_exec w side u f { s with purse := s.purse.debit w.id u w.stakeCents }
      simp only [if_pos hb] at hsave ⊢
      rw [Async.exec_bind_ok hdebit, if_neg (fun h => nomatch h.2)]
      exact hsave
  · have hsave := saveWarOrReturn_exec w side u f s
    simp only [if_neg hb] at hsave ⊢
    rw [if_neg fun h => hb h.1]
    exact hsave

/-- The row is read, and the user refused or debited. -/
theorem registerWar_exec (huow : v.uow = false) (id : ℕ) (u : U) (side : WarSide) (f : Failures) (s : ClubWars U) :
    ∃ e, (v.register id u side).exec (ClubWars.reply (ClubWarQuery.failing f)) s =
      match s.rows id with
      | none => (.error .notFound, s)
      | some w =>
        if w.joinable u side then (ClubWarService.registerSaga w side u >>= fun _ => pure (w.seat side u)).exec
          (ClubWars.reply (ClubWarQuery.failing f)) s
        else (.error e, s) := by
  have hget : (ClubWarService.get id).exec (ClubWars.reply (ClubWarQuery.failing f)) s = (.ok (s.rows id), s) := by
    unfold ClubWarService.get
    rw [Async.exec_await]
    rfl
  unfold ClubWarService.register
  rw [Async.exec_bind_ok hget]
  cases hrow : s.rows id with
  | none => exact ⟨.notFound, rfl⟩
  | some w =>
    dsimp only
    have hplayers : u ∈ w.players ↔ u ∈ w.rosterA ∨ u ∈ w.rosterB := List.mem_append
    by_cases hs : w.status = .registering
    · by_cases hu : u ∈ w.rosterA ∨ u ∈ w.rosterB
      · refine ⟨.already, ?_⟩
        simp [ClubWar.joinable, Async.exec_bind, Async.exec_throwIf, hs, hu, hplayers]
      · by_cases hl : (w.roster side).length < w.size
        · refine ⟨.full, ?_⟩
          have hle : ¬ w.size ≤ (w.roster side).length := by omega
          simp [ClubWar.joinable, Async.exec_bind, Async.exec_throwIf, hs, hu, hplayers, hl, hle, huow]
        · refine ⟨.full, ?_⟩
          have hle : w.size ≤ (w.roster side).length := by omega
          simp [ClubWar.joinable, Async.exec_bind, Async.exec_throwIf, hs, hu, hplayers, hl, hle]
    · refine ⟨.closed, ?_⟩
      simp [ClubWar.joinable, Async.exec_bind, Async.exec_throwIf, hs]

/-- What an attempt does at each stage. -/
theorem warSeller_attempt (huow : v.uow = false) (id : ℕ) (u : U) (a : WarSide × Failures) (s : ClubWars U) :
    (ClubWars.seller v id u).attempt s a = match s.rows id, s.stage id u a with
      | some w, .unsaved => (false, (s.charged w u).returned w u)
      | some w, .seated => (true, (s.charged w u).setRow (w.seat a.1 u))
      | _, _ => (false, s) := by
  obtain ⟨e, hexec⟩ := registerWar_exec huow id u a.1 a.2 s
  have hcall : s.call v (.register id u a.1) (ClubWarQuery.failing a.2) =
      (ClubWarReceipt.war <$> v.register id u a.1).exec (ClubWars.reply (ClubWarQuery.failing a.2)) s := rfl
  unfold ClubWars.seller ClubWars.stage
  dsimp only
  rw [hcall, Async.exec_map]
  cases hrow : s.rows id with
  | none =>
    rw [hrow] at hexec
    rw [hexec]
    rfl
  | some w =>
    rw [hrow] at hexec
    dsimp only at hexec ⊢
    cases hj : w.joinable u a.1 with
    | false =>
      rw [hj, if_neg nofun] at hexec
      rw [hexec]
      rfl
    | true =>
      rw [hj, if_pos rfl, Async.exec_bind, warSaga_exec] at hexec
      rw [hexec]
      by_cases hd : 0 < w.stakeCents ∧ a.2.debit = true
      · simp only [if_pos hd]
        rfl
      · simp only [if_neg hd]
        cases hsave : a.2.save <;> rfl

/-- An attempt refused or unpaid changes nothing. -/
theorem warSeller_nothing (huow : v.uow = false) (h : s.stage id u a = .refused ∨ s.stage id u a = .unpaid) :
    (ClubWars.seller v id u).attempt s a = (false, s) := by
  rw [warSeller_attempt huow]
  rcases h with hst | hst
  · rw [hst]
    cases s.rows id <;> rfl
  · rw [hst]
    cases s.rows id <;> rfl

theorem warStage_congr (h : s'.rows id = s.rows id) : s'.stage id u a = s.stage id u a := by
  unfold ClubWars.stage
  rw [h]

omit [DecidableEq U] in
theorem stake_eq (h : s.rows id = some w) : s.stake id = w.stakeCents := by
  unfold ClubWars.stake
  rw [h]
  rfl

theorem warStage_row (h : s.stage id u a ≠ .refused) : ∃ w, s.rows id = some w := by
  unfold ClubWars.stage at h
  cases hrow : s.rows id with
  | none => simp [hrow] at h
  | some w => exact ⟨w, rfl⟩

/-- **A club war keeps the rules of a saga.** -/
theorem club_war_rules (huow : v.uow = false) (u : U) (hid : ∀ w, s.rows id = some w → w.id = id) :
    (ClubWars.seller v id u).Rules (s.stake id) (s.stage id u) s (fun s' => s'.rows id = s.rows id)
      fun s' => .rollback id u ∈ s'.purse.book.refs := by
  refine ⟨rfl, fun s' hs => ?_, fun s' a hreg => ?_, fun s' a hs hst => ?_, fun s' a hs hst => ?_, fun s' a hs hst => ?_,
    fun s' a hs hst => ?_⟩
  · show s'.isRegistered id u ↔ s.isRegistered id u
    unfold ClubWars.isRegistered
    rw [hs]
  · obtain ⟨w, hrow, hu⟩ := hreg
    have hst : s'.stage id u a = .refused := by
      unfold ClubWars.stage ClubWar.joinable
      simp [hrow, hu]
    exact warSeller_nothing huow (Or.inl hst)
  · exact warSeller_nothing huow (Or.inl ((warStage_congr hs).trans hst))
  · exact warSeller_nothing huow (Or.inr ((warStage_congr hs).trans hst))
  · obtain ⟨w, hrow⟩ := warStage_row (show s.stage id u a ≠ .refused by rw [hst]; exact nofun)
    have hrow' : s'.rows id = some w := hs.trans hrow
    have hattempt : (ClubWars.seller v id u).attempt s' a = (false, (s'.charged w u).returned w u) := by
      rw [warSeller_attempt huow, warStage_congr hs, hst, hrow']
    rw [hattempt, stake_eq hrow]
    obtain rfl := hid w hrow
    refine ⟨rfl, hs, fun hp => Purse.mem_creditIf_self _ _ (by omega), ?_⟩
    show ((s'.purse.debitIf w.id u w.stakeCents).creditIf (.rollback w.id u) w.stakeCents).balance
      ClubWarRef.owner u = s'.purse.balance ClubWarRef.owner u - _
    have howner : ClubWarRef.owner (.rollback w.id u) = some u := rfl
    rw [Purse.balance_creditIf _ _ howner, Purse.balance_debitIf, Purse.book_debitIf]
    split <;> omega
  · obtain ⟨w, hrow⟩ := warStage_row (show s.stage id u a ≠ .refused by rw [hst]; exact nofun)
    have hrow' : s'.rows id = some w := hs.trans hrow
    obtain ⟨hid', -, -, -⟩ := w.seat_fields a.1 u
    have hattempt : (ClubWars.seller v id u).attempt s' a = (true, (s'.charged w u).setRow (w.seat a.1 u)) := by
      rw [warSeller_attempt huow, warStage_congr hs, hst, hrow']
    rw [hattempt, stake_eq hrow]
    refine ⟨rfl, ⟨w.seat a.1 u, ?_, ?_⟩, ?_, Purse.balance_debitIf ..⟩
    · show Function.update s'.rows (w.seat a.1 u).id _ id = _
      rw [hid', hid w hrow, Function.update_self]
    · exact (w.seat_players a.1 u).mem_iff.2 List.mem_cons_self
    · show _ ∈ (s'.purse.debitIf w.id u w.stakeCents).book.refs ↔ _
      rw [Purse.book_debitIf]

/-- A row is stored under its own number. -/
def ClubWars.Numbered (s : ClubWars U) : Prop := ∀ id w, s.rows id = some w → w.id = id

omit [DecidableEq U] in
theorem ClubWars.Numbered.setRow (h : s.Numbered) (w : ClubWar U) : (s.setRow w).Numbered := by
  intro id x hx
  have hx' : Function.update s.rows w.id (some w) id = some x := hx
  rw [Function.update_apply] at hx'
  split at hx'
  · rename_i hid
    cases hx'
    exact hid.symm
  · exact h id x hx'

/-- Every answer keeps it, and so does every call. -/
theorem club_wars_numbered (v : ClubWarService) (es : List (ClubWarEvent U)) :
    (run (ClubWars.step v) {} es).Numbered := by
  have hboot : ClubWars.Numbered ({} : ClubWars U) := fun _ _ => nofun
  refine run_inv (fun s e h => Async.Keeps.exec (Async.Keeps.of_answer ?_ _ h)) hboot es
  intro q s h
  cases q with
  | create w => exact h.setRow _
  | save w => exact h.setRow w
  | escrow u w => exact h.setRow w
  | get => exact h
  | listActive => exact h
  | debit => exact h
  | credit => exact h
  | recordRake => exact h

end ClubWar

/-! ## All or nothing -/

/-- **When registration is all or nothing**: for a tournament and for a club war, after any run
and for any attempts of a user, exactly when the entry is free, or at most one attempt up to
the one that succeeds is debited and not saved; none, if its debit was given back before. -/
theorem registration_all_or_nothing :
    (∀ (s : TournamentService), s.uow = false → ∀ (es : List (TournamentEvent U)) (paid : ℕ → Option U) (id : ℕ) (u : U)
      (attempts : List Failures), let w := run (Tournaments.step s) {} es
      (Tournaments.seller s paid id u).AllOrNothing (w.buyIn id) w attempts ↔
        w.buyIn id = 0 ∨ owed (attempts.map (w.stage id u)) ≤ if .rollback id u ∈ w.purse.book.refs then 0 else 1) ∧
    ∀ (v : ClubWarService), v.uow = false → ∀ (es : List (ClubWarEvent U)) (id : ℕ) (u : U)
      (attempts : List (WarSide × Failures)), let w := run (ClubWars.step v) {} es
      (ClubWars.seller v id u).AllOrNothing (w.stake id) w attempts ↔
        w.stake id = 0 ∨ owed (attempts.map (w.stage id u)) ≤ if .rollback id u ∈ w.purse.book.refs then 0 else 1 := by
  constructor
  · intro s huow es paid id u attempts w
    have hid : ∀ t, w.rows id = some t → t.id = id := fun t hrow => (tournaments_numbered s es id t hrow).1
    have hiff := (tournament_rules huow paid u hid).allOrNothing_iff attempts
    rwa [Int.natCast_eq_zero] at hiff
  · intro v huow es id u attempts w
    have hid : ∀ x, w.rows id = some x → x.id = id := club_wars_numbered v es id
    have hiff := (club_war_rules huow u hid).allOrNothing_iff attempts
    rwa [Int.natCast_eq_zero] at hiff

/-- The debit goes through, the save does not. -/
def unsaved : Failures := ⟨false, true⟩

/-- A tournament of two at 100, without a unit of work. -/
def inMemory : TournamentService := { tenPercent with uow := false }

/-- A tournament of two is opened. -/
def openTournament : List (TournamentEvent ℕ) := [.call (.create 100 2 0) fun _ => .none]

/-- A war at 100, without a unit of work. -/
def inMemoryWars : ClubWarService := { fivePercent with uow := false }

/-- A war of one against one is opened. -/
def openWar : List (ClubWarEvent ℕ) := [{ call := .create 1 2 100 1 0 }]

theorem registration_all_or_nothing_retried :
    (Tournaments.seller inMemory (fun _ => none) 0 7).AllOrNothing 100 (run (Tournaments.step inMemory) {} openTournament)
        [unsaved, ⟨true, false⟩, ⟨false, false⟩, unsaved] ∧
      (ClubWars.seller inMemoryWars 0 7).AllOrNothing 100 (run (ClubWars.step inMemoryWars) {} openWar)
        [(.a, unsaved), (.a, ⟨true, false⟩), (.b, ⟨false, false⟩), (.b, unsaved)] :=
  ⟨(registration_all_or_nothing.1 inMemory rfl openTournament (fun _ => none) 0 7 _).2 (Or.inr (by decide +kernel)),
    (registration_all_or_nothing.2 inMemoryWars rfl openWar 0 7 _).2 (Or.inr (by decide +kernel))⟩

/-- The save fails twice: the second buy-in is not given back, for its reference is used. -/
theorem second_refund_lost :
    ¬ (Tournaments.seller inMemory (fun _ => none) 0 7).AllOrNothing 100
        (run (Tournaments.step inMemory) {} openTournament) [unsaved, unsaved] ∧
      ¬ (ClubWars.seller inMemoryWars 0 7).AllOrNothing 100 (run (ClubWars.step inMemoryWars) {} openWar)
        [(.a, unsaved), (.a, unsaved)] := by
  constructor
  · intro h
    have hsame := h.balance (List.prefix_refl ([unsaved] ++ [unsaved])) (by decide +kernel)
    exact absurd hsame (by decide +kernel)
  · intro h
    have hsame := h.balance (List.prefix_refl ([(WarSide.a, unsaved)] ++ [(WarSide.a, unsaved)])) (by decide +kernel)
    exact absurd hsame (by decide +kernel)

end Murlan
