import Murlan.Spec.Tournament

/-!
# A tournament's money

The invariant of the tournaments over every run of calls, any of whose writes may fail.
`Kept w id t` relates what was moved for a tournament to its row `t`: every player paid one
buy-in; while the tournament is open and when it is cancelled only refunds were credited,
when it is finished only the prize and the rake.

* `Kept.credited_le`, `Kept.credited_eq`: what follows for the totals.
* `TournamentsOK.change`: a call moves money for its own tournament only.
* `tournament_never_overpays`: over every run in which no champion is paid after a refund.
-/

namespace Murlan

variable {U : Type}

theorem TournamentStatus.sweepable_iff {s : TournamentStatus} :
    s.sweepable = true ↔ s ≠ .finished ∧ s ≠ .cancelled := by
  cases s <;> simp [TournamentStatus.sweepable]

namespace Tournament

variable (t : Tournament U) (u : U)

/-- A player who joins adds a buy-in to the pool, and the tournament stays open. -/
theorem apply_fields : (t.apply u).id = t.id ∧ (t.apply u).buyInCents = t.buyInCents ∧
    (t.apply u).rakeBps = t.rakeBps ∧ (t.apply u).playerIds = t.playerIds ++ [u] ∧
    (t.apply u).prizePoolCents = t.prizePoolCents + t.buyInCents := by
  unfold Tournament.apply
  dsimp only
  split <;> exact ⟨rfl, rfl, rfl, rfl, rfl⟩

theorem apply_sweepable (hs : t.status = .registering) : (t.apply u).status.sweepable = true := by
  unfold Tournament.apply
  dsimp only
  split
  · rfl
  · rw [hs]
    rfl

end Tournament

/-- The prize and the rake are the pool. -/
theorem Tournament.prize_add_rake {t : Tournament U} (h : t.rakeBps ≤ 10000) :
    t.prize + t.rake = t.prizePoolCents := by
  have hmul : t.prizePoolCents * t.rakeBps ≤ 10000 * t.prizePoolCents := by
    rw [Nat.mul_comm]
    exact Nat.mul_le_mul_right _ h
  have hrake : t.rake ≤ t.prizePoolCents := Nat.div_le_of_le_mul hmul
  unfold Tournament.prize
  omega

variable [DecidableEq U]

/-- A tournament's row and the purse agree. -/
structure Kept (p : Purse U (TournamentRef U)) (id : ℕ) (t : Tournament U) : Prop where
  id_eq : t.id = id
  rate : t.rakeBps ≤ 10000
  players : t.playerIds.Nodup
  paid : p.debited id = t.buyInCents * t.playerIds.length
  pool : t.status.sweepable = true → t.prizePoolCents = t.buyInCents * t.playerIds.length
  refund : ∀ u, .refund id u ∈ p.book.refs →
    u ∈ t.playerIds ∧ p.book.amount (.refund id u) = t.buyInCents
  rollback : ∀ u, .rollback id u ∉ p.book.refs
  unpaid : t.status ≠ .finished → .prize id ∉ p.book.refs ∧ .rake id ∉ p.book.refs
  finished : t.status = .finished → (∀ u, .refund id u ∉ p.book.refs) ∧
    p.book.amount (.prize id) + p.book.amount (.rake id) = t.buyInCents * t.playerIds.length
  cancelled : t.status = .cancelled → 0 < t.buyInCents → ∀ u ∈ t.playerIds, .refund id u ∈ p.book.refs

/-- The invariant of the tournaments. -/
structure TournamentsOK (w : Tournaments U) : Prop where
  row : ∀ id t, w.rows id = some t → id < w.seq ∧ Kept w.purse id t
  gone : ∀ id, w.rows id = none → Untouched TournamentRef.id w.purse id ∨
    ∃ t, t.status.sweepable = false ∧ Kept w.purse id t
  fresh : ∀ id, w.seq ≤ id → w.rows id = none ∧ Untouched TournamentRef.id w.purse id

/-- The row agrees with any purse with the same money for it. -/
theorem Kept.same {p p' : Purse U (TournamentRef U)} {id : ℕ} {t : Tournament U} (hk : Kept p id t)
    (h : SameMoney TournamentRef.id p p' id) : Kept p' id t := by
  refine ⟨hk.id_eq, hk.rate, hk.players, ?_, hk.pool, ?_, ?_, ?_, ?_, ?_⟩
  · rw [h.debited]
    exact hk.paid
  · intro u hu
    rw [h.amount _ rfl]
    exact hk.refund u ((h.refs _ rfl).mp hu)
  · intro u hu
    exact hk.rollback u ((h.refs _ rfl).mp hu)
  · intro hs
    rw [h.refs _ rfl, h.refs _ rfl]
    exact hk.unpaid hs
  · intro hs
    obtain ⟨hrefund, hsum⟩ := hk.finished hs
    refine ⟨fun u hu => hrefund u ((h.refs _ rfl).mp hu), ?_⟩
    rw [h.amount _ rfl, h.amount _ rfl]
    exact hsum
  · intro hs hb u hu
    exact (h.refs _ rfl).mpr (hk.cancelled hs hb u hu)

namespace Kept

variable {p : Purse U (TournamentRef U)} {id : ℕ} {t : Tournament U}

/-- What was credited is the refunds, the prize and the rake. -/
theorem credited_sum (h : Kept p id t) :
    p.credited TournamentRef.id id = (t.playerIds.map fun u => p.book.amount (.refund id u)).sum +
      (p.book.amount (.prize id) + p.book.amount (.rake id)) := by
  have hnodup : (t.playerIds.map (TournamentRef.refund id) ++ [TournamentRef.prize id, TournamentRef.rake id]).Nodup := by
    rw [List.nodup_append]
    refine ⟨h.players.map fun u v huv => by simpa using huv, by simp, ?_⟩
    rintro r hr s hs rfl
    obtain ⟨u, -, rfl⟩ := List.mem_map.mp hr
    simp at hs
  have hkind : ∀ r ∈ p.book.refs,
      r.id = id ↔ r ∈ t.playerIds.map (TournamentRef.refund id) ++ [TournamentRef.prize id, TournamentRef.rake id] := by
    intro r hr
    constructor
    · rintro rfl
      cases r with
      | refund i u => exact List.mem_append_left _ (List.mem_map.mpr ⟨u, (h.refund u hr).1, rfl⟩)
      | rollback i u => exact absurd hr (h.rollback u)
      | prize i => simp [TournamentRef.id]
      | rake i => simp [TournamentRef.id]
    · intro hmem
      rcases List.mem_append.mp hmem with hmem | hmem
      · obtain ⟨u, -, rfl⟩ := List.mem_map.mp hmem
        rfl
      · simp only [List.mem_cons, List.not_mem_nil, or_false] at hmem
        rcases hmem with rfl | rfl <;> rfl
  unfold Purse.credited
  rw [Book.total_eq_sum p.book _ hnodup hkind, List.map_append, List.sum_append, List.map_map]
  simp [Function.comp_def]

theorem refund_le (h : Kept p id t) (u : U) : p.book.amount (.refund id u) ≤ t.buyInCents := by
  by_cases hu : .refund id u ∈ p.book.refs
  · rw [(h.refund u hu).2]
  · rw [Book.amount_of_not_mem hu]
    omega

/-- **No more is credited than was debited.** -/
theorem credited_le (h : Kept p id t) : p.credited TournamentRef.id id ≤ p.debited id := by
  rw [h.credited_sum, h.paid]
  by_cases hs : t.status = .finished
  · obtain ⟨hrefund, hsum⟩ := h.finished hs
    have hzero : (t.playerIds.map fun u => p.book.amount (.refund id u)).sum = 0 :=
      Book.sum_amounts_zero fun u _ => hrefund u
    omega
  · obtain ⟨hprize, hrake⟩ := h.unpaid hs
    rw [Book.amount_of_not_mem hprize, Book.amount_of_not_mem hrake]
    exact Book.sum_amounts_le fun u _ => h.refund_le u

/-- **A tournament that ended has given back everything.** -/
theorem credited_eq (h : Kept p id t) (hs : t.status = .finished ∨ t.status = .cancelled) :
    p.credited TournamentRef.id id = p.debited id := by
  rw [h.credited_sum, h.paid]
  rcases hs with hs | hs
  · obtain ⟨hrefund, hsum⟩ := h.finished hs
    have hzero : (t.playerIds.map fun u => p.book.amount (.refund id u)).sum = 0 :=
      Book.sum_amounts_zero fun u _ => hrefund u
    omega
  · obtain ⟨hprize, hrake⟩ := h.unpaid (by rw [hs]; decide)
    rw [Book.amount_of_not_mem hprize, Book.amount_of_not_mem hrake]
    have hall : ∀ u ∈ t.playerIds, p.book.amount (.refund id u) = t.buyInCents := by
      intro u hu
      by_cases hb : 0 < t.buyInCents
      · exact (h.refund u (h.cancelled hs hb u hu)).2
      · have := h.refund_le u
        omega
    exact Book.sum_amounts_eq hall

theorem not_both (h : Kept p id t) {u : U} (hu : .refund id u ∈ p.book.refs) :
    .prize id ∉ p.book.refs ∧ .rake id ∉ p.book.refs := by
  refine h.unpaid fun hs => ?_
  exact (h.finished hs).1 u hu

end Kept

/-! ## The row of an open tournament -/

namespace Kept

variable {p : Purse U (TournamentRef U)} {id : ℕ} {t t' : Tournament U}

/-- An open tournament's row changes, but not who paid what. -/
theorem reopen (h : Kept p id t) (hs : t.status.sweepable = true) (hs' : t'.status.sweepable = true)
    (hid : t'.id = t.id) (hbuyIn : t'.buyInCents = t.buyInCents) (hplayers : t'.playerIds = t.playerIds)
    (hpool : t'.prizePoolCents = t.prizePoolCents) (hrake : t'.rakeBps = t.rakeBps) : Kept p id t' := by
  obtain ⟨hfinished, hcancelled⟩ := TournamentStatus.sweepable_iff.mp hs
  obtain ⟨hfinished', hcancelled'⟩ := TournamentStatus.sweepable_iff.mp hs'
  refine ⟨hid.trans h.id_eq, hrake ▸ h.rate, hplayers ▸ h.players, ?_, ?_, ?_, h.rollback, ?_, ?_, ?_⟩
  · rw [hbuyIn, hplayers]
    exact h.paid
  · intro _
    rw [hbuyIn, hplayers, hpool]
    exact h.pool hs
  · intro u hu
    rw [hbuyIn, hplayers]
    exact h.refund u hu
  · intro _
    exact h.unpaid hfinished
  · intro hf
    exact absurd hf hfinished'
  · intro hc
    exact absurd hc hcancelled'

theorem decideMatch (h : Kept p id t) (hs : t.status.sweepable = true) (round index : ℕ) (u : U) :
    Kept p id (t.decideMatch round index u) :=
  h.reopen hs hs rfl rfl rfl rfl rfl

theorem nextRound (h : Kept p id t) (hs : t.status.sweepable = true) (round : ℕ) :
    Kept p id (t.nextRound round) := by
  unfold Tournament.nextRound
  dsimp only
  split
  · exact h.reopen hs hs rfl rfl rfl rfl rfl
  · exact h

theorem park (h : Kept p id t) (hs : t.status.sweepable = true) (champion : U) (admin : Option U) :
    Kept p id (t.park champion admin) :=
  h.reopen hs rfl rfl rfl rfl rfl rfl

/-- A cancelled tournament has given everything back. -/
theorem cancel (h : Kept p id t) (hs : t.status.sweepable = true)
    (hall : 0 < t.buyInCents → ∀ u ∈ t.playerIds, .refund id u ∈ p.book.refs) :
    Kept p id t.cancelled := by
  obtain ⟨hfinished, -⟩ := TournamentStatus.sweepable_iff.mp hs
  exact { h with
    pool := fun hc => by cases hc
    unpaid := fun _ => h.unpaid hfinished
    finished := fun hf => by cases hf
    cancelled := fun _ => hall }

end Kept

/-- A new row stands for nothing yet. -/
theorem Untouched.kept {p : Purse U (TournamentRef U)} {id : ℕ} {t : Tournament U}
    (h : Untouched TournamentRef.id p id)
    (hid : t.id = id) (hrate : t.rakeBps ≤ 10000) (hplayers : t.playerIds = [])
    (hpool : t.prizePoolCents = 0) (hs : t.status = .registering) : Kept p id t := by
  have hno : ∀ r : TournamentRef U, r.id = id → r ∉ p.book.refs := fun r hr hmem => h.refs r hmem hr
  refine ⟨hid, hrate, by simp [hplayers], by simp [h.debited, hplayers], by simp [hpool, hplayers], ?_,
    fun u => hno _ rfl, fun _ => ⟨hno _ rfl, hno _ rfl⟩, ?_, ?_⟩
  · intro u hu
    exact absurd hu (hno _ rfl)
  · intro hf
    rw [hs] at hf
    cases hf
  · intro hc
    rw [hs] at hc
    cases hc

/-- A player joins once the buy-in is paid. -/
theorem Kept.apply {p p' : Purse U (TournamentRef U)} {id : ℕ} {t : Tournament U} (h : Kept p id t)
    (hs : t.status = .registering) {u : U} (hu : u ∉ t.playerIds) (hbook : p'.book = p.book)
    (hpaid : p'.debited id = p.debited id + t.buyInCents) : Kept p' id (t.apply u) := by
  obtain ⟨hid, hbuyIn, hrate, hplayers, hpool⟩ := t.apply_fields u
  have hopen := t.apply_sweepable u hs
  have hsweep : t.status.sweepable = true := by
    rw [hs]
    rfl
  have hlen : t.buyInCents * (t.playerIds ++ [u]).length =
      t.buyInCents * t.playerIds.length + t.buyInCents := by
    rw [List.length_append, Nat.mul_add]
    simp
  obtain ⟨hfinished, hcancelled⟩ := TournamentStatus.sweepable_iff.mp hopen
  refine ⟨hid.trans h.id_eq, hrate ▸ h.rate, ?_, ?_, ?_, ?_, ?_, ?_, ?_, ?_⟩
  · rw [hplayers, List.nodup_append]
    refine ⟨h.players, by simp, ?_⟩
    rintro v hv x hx rfl
    obtain rfl : v = u := by simpa using hx
    exact hu hv
  · rw [hpaid, h.paid, hbuyIn, hplayers, hlen]
  · intro _
    rw [hpool, h.pool hsweep, hbuyIn, hplayers, hlen]
  · intro v hv
    rw [hbook] at hv ⊢
    obtain ⟨hmem, hamount⟩ := h.refund v hv
    rw [hplayers, hbuyIn]
    exact ⟨List.mem_append_left _ hmem, hamount⟩
  · rw [hbook]
    exact h.rollback
  · intro _
    rw [hbook]
    exact h.unpaid (by rw [hs]; decide)
  · intro hf
    exact absurd hf hfinished
  · intro hc
    exact absurd hc hcancelled

/-! ## What a call may change -/

namespace TournamentsOK

variable {w w' : Tournaments U} {id : ℕ} {t : Tournament U}

/-- A change of one tournament's row and money. -/
theorem change (h : TournamentsOK w) (t' : Tournament U) (hid : id < w.seq) (hseq : w'.seq = w.seq)
    (hrows : ∀ j, j ≠ id → w'.rows j = w.rows j)
    (hmoney : ∀ j, j ≠ id → SameMoney TournamentRef.id w.purse w'.purse j)
    (hrow : w'.rows id = some t') (hkept : Kept w'.purse id t') : TournamentsOK w' := by
  refine ⟨?_, ?_, ?_⟩
  · intro j x hj
    by_cases hji : j = id
    · subst hji
      rw [hrow] at hj
      cases hj
      exact ⟨by omega, hkept⟩
    · rw [hrows j hji] at hj
      obtain ⟨hlt, hx⟩ := h.row j x hj
      exact ⟨by omega, hx.same (hmoney j hji)⟩
  · intro j hj
    have hji : j ≠ id := by
      rintro rfl
      rw [hrow] at hj
      cases hj
    rw [hrows j hji] at hj
    rcases h.gone j hj with hu | ⟨x, hx, hk⟩
    · exact .inl (hu.same (hmoney j hji))
    · exact .inr ⟨x, hx, hk.same (hmoney j hji)⟩
  · intro j hj
    have hji : j ≠ id := by omega
    obtain ⟨hnone, hu⟩ := h.fresh j (by omega)
    rw [hrows j hji]
    exact ⟨hnone, hu.same (hmoney j hji)⟩

/-- A row is written, and money moves for its tournament only. -/
theorem write (h : TournamentsOK w) {p : Purse U (TournamentRef U)} {t' : Tournament U} (hid : id < w.seq)
    (hmoney : ∀ j, j ≠ id → SameMoney TournamentRef.id w.purse p j) (hkept : Kept p id t') :
    TournamentsOK { w.setRow t' with purse := p } := by
  have heq : t'.id = id := hkept.id_eq
  refine h.change t' hid rfl ?_ hmoney ?_ hkept
  · intro j hj
    exact Function.update_of_ne (by omega) _ _
  · show Function.update w.rows t'.id (some t') id = some t'
    rw [heq, Function.update_self]

/-- Only the row changes. -/
theorem setRow (h : TournamentsOK w) {t' : Tournament U} (hid : id < w.seq) (hkept : Kept w.purse id t') :
    TournamentsOK (w.setRow t') :=
  h.write hid (fun _ _ => .refl w.purse) hkept

/-- No money moves, and at most rows of tournaments that ended are deleted. -/
theorem rows_le (h : TournamentsOK w) (hseq : w.seq ≤ w'.seq) (hpurse : w'.purse = w.purse)
    (hrows : ∀ j, w'.rows j = w.rows j ∨
      (w'.rows j = none ∧ ∃ t, w.rows j = some t ∧ t.status.sweepable = false)) :
    TournamentsOK w' := by
  refine ⟨?_, ?_, ?_⟩
  · intro j x hj
    rw [hpurse]
    rcases hrows j with heq | ⟨hnone, -⟩
    · rw [heq] at hj
      obtain ⟨hlt, hx⟩ := h.row j x hj
      exact ⟨by omega, hx⟩
    · rw [hnone] at hj
      cases hj
  · intro j hj
    rw [hpurse]
    rcases hrows j with heq | ⟨-, x, hx, hs⟩
    · rw [heq] at hj
      exact h.gone j hj
    · exact .inr ⟨x, hs, (h.row j x hx).2⟩
  · intro j hj
    rw [hpurse]
    obtain ⟨hnone, hu⟩ := h.fresh j (by omega)
    refine ⟨?_, hu⟩
    rcases hrows j with heq | ⟨hnone', -⟩
    · rw [heq, hnone]
    · exact hnone'

/-- What is in the process does not matter. -/
theorem recordedOutcomes (h : TournamentsOK w) (o : ℕ → ℕ → ℕ → Option U) :
    TournamentsOK { w with recordedOutcomes := o } :=
  h.rows_le (le_refl w.seq) rfl fun _ => .inl rfl

theorem newId (h : TournamentsOK w) : TournamentsOK { w with seq := w.seq + 1 } :=
  h.rows_le (Nat.le_succ w.seq) rfl fun _ => .inl rfl

/-- The row of a tournament that ended is deleted. -/
theorem delete (h : TournamentsOK w) (hrow : w.rows id = some t) (hs : t.status.sweepable = false) :
    TournamentsOK { w with rows := Function.update w.rows id none } := by
  refine h.rows_le (le_refl w.seq) rfl fun j => ?_
  by_cases hj : j = id
  · subst hj
    exact .inr ⟨Function.update_self .., t, hrow, hs⟩
  · exact .inl (Function.update_of_ne hj _ _)

/-- A buy-in is refunded while the tournament is open. -/
theorem refund (h : TournamentsOK w) (hrow : w.rows id = some t) (hs : t.status.sweepable = true) {u : U}
    (hu : u ∈ t.playerIds) :
    TournamentsOK { w with purse := w.purse.credit (.refund id u) t.buyInCents } := by
  obtain ⟨hid, hk⟩ := h.row id t hrow
  obtain ⟨hfinished, hcancelled⟩ := TournamentStatus.sweepable_iff.mp hs
  refine h.change t hid rfl (fun _ _ => rfl) ?_ hrow ?_
  · intro j hj
    exact SameMoney.credit (r := TournamentRef.refund id u) (fun hne => hj hne.symm) _
  · have hother : ∀ r, r ≠ .refund id u → r ∉ w.purse.book.refs →
        r ∉ (w.purse.book.credit (.refund id u) t.buyInCents).refs := by
      intro r hr hno hmem
      rcases Book.mem_refs_credit.mp hmem with hmem | hmem
      · exact hno hmem
      · exact hr hmem
    refine ⟨hk.id_eq, hk.rate, hk.players, hk.paid, hk.pool, ?_, ?_, ?_, ?_, ?_⟩
    · intro v hv
      exact Book.credit_family (P := fun v a => v ∈ t.playerIds ∧ a = t.buyInCents) hk.refund ⟨hu, rfl⟩
        (by simp) v hv
    · intro v
      exact hother _ (by simp) (hk.rollback v)
    · intro hf
      exact ⟨hother _ (by simp) (hk.unpaid hf).1, hother _ (by simp) (hk.unpaid hf).2⟩
    · intro hf
      exact absurd hf hfinished
    · intro hc
      exact absurd hc hcancelled

/-- The unit of work of a registration. -/
theorem escrow (h : TournamentsOK w) (hrow : w.rows id = some t) (hs : t.status = .registering) {u : U}
    (hu : u ∉ t.playerIds) : TournamentsOK (Tournaments.answer (.escrow u (t.apply u)) w).2 := by
  obtain ⟨hid, hk⟩ := h.row id t hrow
  obtain ⟨hid', hbuyIn, -⟩ := t.apply_fields u
  have heq : (t.apply u).id = id := hid'.trans hk.id_eq
  refine h.write hid ?_ (hk.apply hs hu rfl ?_)
  · intro j hj
    exact .debit (by omega) _ _
  · rw [Purse.debited_debit, if_pos heq, hbuyIn]

/-- The unit of work of a payout, when nothing was refunded. -/
theorem payout (h : TournamentsOK w) (hrow : w.rows id = some t) (hs : t.status.sweepable = true)
    (hrefund : ∀ u, .refund id u ∉ w.purse.book.refs) (t' : Tournament U) (hid' : t'.id = t.id)
    (hbuyIn : t'.buyInCents = t.buyInCents) (hplayers : t'.playerIds = t.playerIds)
    (hpool : t'.prizePoolCents = t.prizePoolCents) (hrake : t'.rakeBps = t.rakeBps)
    (hfin : t'.status = .finished) (u : U) : TournamentsOK (Tournaments.answer (.payout u t') w).2 := by
  obtain ⟨hid, hk⟩ := h.row id t hrow
  obtain ⟨hfinished, -⟩ := TournamentStatus.sweepable_iff.mp hs
  obtain ⟨hprize, hrakeRef⟩ := hk.unpaid hfinished
  have heq : t'.id = id := hid'.trans hk.id_eq
  obtain ⟨p, hp⟩ : ∃ p, p = (w.purse.creditIf (.prize id) t'.prize).creditIf (.rake id) t'.rake := ⟨_, rfl⟩
  have hanswer : (Tournaments.answer (.payout u t') w).2 = { w.setRow t' with purse := p } := by
    rw [hp, ← heq]
    rfl
  have hother : ∀ r : TournamentRef U, r ≠ .prize id → r ≠ .rake id →
      (r ∈ p.book.refs ↔ r ∈ w.purse.book.refs) := by
    intro r hpr hr
    rw [hp, Purse.refs_creditIf hr, Purse.refs_creditIf hpr]
  -- both amounts are new, so both are booked
  have hsum : p.book.amount (.prize id) + p.book.amount (.rake id) = t'.prizePoolCents := by
    have hnew : .rake id ∉ (w.purse.creditIf (.prize id) t'.prize).book.refs := by
      rw [Purse.refs_creditIf (by simp)]
      exact hrakeRef
    rw [hp, Purse.amount_creditIf_ne (by simp), Purse.amount_creditIf_self hprize,
      Purse.amount_creditIf_self hnew]
    exact Tournament.prize_add_rake (hrake ▸ hk.rate)
  have hkept : Kept p id t' := by
    refine ⟨heq, hrake ▸ hk.rate, hplayers ▸ hk.players, ?_, ?_, ?_, ?_, ?_, ?_, ?_⟩
    · rw [hp, Purse.debited_creditIf, Purse.debited_creditIf, hbuyIn, hplayers]
      exact hk.paid
    · intro hopen
      rw [hfin] at hopen
      cases hopen
    · intro v hv
      exact absurd ((hother _ (by simp) (by simp)).mp hv) (hrefund v)
    · intro v hv
      exact hk.rollback v ((hother _ (by simp) (by simp)).mp hv)
    · intro hne
      exact absurd hfin hne
    · intro _
      refine ⟨fun v hv => hrefund v ((hother _ (by simp) (by simp)).mp hv), ?_⟩
      rw [hsum, hpool, hk.pool hs, hbuyIn, hplayers]
    · intro hc
      rw [hfin] at hc
      cases hc
  rw [hanswer]
  refine h.write hid ?_ hkept
  intro j hj
  rw [hp]
  exact (SameMoney.creditIf (r := TournamentRef.prize id) (Ne.symm hj) _).trans
    (SameMoney.creditIf (r := TournamentRef.rake id) (Ne.symm hj) _)

end TournamentsOK

/-! ## One call -/

section Calls

variable {fault : TournamentQuery U → Fault} {α : Type}

/-- A query is answered, or fails before or after it took effect. -/
theorem wp_reply (q : TournamentQuery U) {post : q.Answer → Tournaments U → Prop}
    {err : TournamentError → Tournaments U → Prop} {w : Tournaments U}
    (hok : post (Tournaments.answer q w).1 (Tournaments.answer q w).2)
    (hbefore : q.inMemory = false → fault q = .before → err .store w)
    (hafter : q.inMemory = false → fault q = .after → err .store (Tournaments.answer q w).2) :
    (Async.await q : Organiser U q.Answer).wp (.store (Tournaments.reply fault)) post err w := by
  refine Async.wp_await_faulty q (fun _ => hok) ?_ ?_
  · intro hf
    cases hm : q.inMemory with
    | true => simp [hm] at hf
    | false => exact hbefore hm (by simpa [hm] using hf)
  · intro hf
    cases hm : q.inMemory with
    | true => simp [hm] at hf
    | false => exact hafter hm (by simpa [hm] using hf)

/-- The row of a tournament is read. -/
theorem wp_get {w : Tournaments U} {id : ℕ} {post : α → Tournaments U → Prop}
    {err : TournamentError → Tournaments U → Prop} {f : Option (Tournament U) → Organiser U α} (herr : err .store w)
    (hnone : (f none).wp (.store (Tournaments.reply fault)) post err w)
    (hsome : ∀ t, w.rows id = some t → (f (some t)).wp (.store (Tournaments.reply fault)) post err w) :
    (TournamentService.get id >>= f).wp (.store (Tournaments.reply fault)) post err w := by
  unfold TournamentService.get
  rw [Async.wp_bind]
  refine wp_reply (.get id) ?_ (fun _ _ => herr) fun _ _ => herr
  show (f (w.rows id)).wp _ post err w
  cases hrow : w.rows id with
  | none => exact hnone
  | some t => exact hsome t hrow

/-- What the service remembers is read, and nothing changes. -/
theorem recordedFor_wp {w : Tournaments U} {post : Option U → Tournaments U → Prop}
    {err : TournamentError → Tournaments U → Prop}
    (h : ∀ recorded, post recorded w) (id r i : ℕ) (auto : Bool) :
    (TournamentService.recordedFor id r i auto).wp (.store (Tournaments.reply fault)) post err w := by
  unfold TournamentService.recordedFor
  cases auto with
  | true => exact h none
  | false => exact wp_reply (.recordedOutcome id r i) (h _) (fun hm => by cases hm) fun hm => by cases hm

/-- The call keeps the invariant, wherever it ends or fails. -/
abbrev Safe (I : Tournaments U → Prop) (fault : TournamentQuery U → Fault) (p : Organiser U α)
    (w : Tournaments U) : Prop :=
  p.Keeps (Tournaments.reply fault) I w

theorem Safe.ask {I : Tournaments U → Prop} {w : Tournaments U} (h : I w) (q : TournamentQuery U)
    {f : q.Answer → Organiser U α} (hq : I (Tournaments.answer q w).2)
    (hf : Safe I fault (f (Tournaments.answer q w).1) (Tournaments.answer q w).2) :
    Safe I fault (Async.await q >>= f) w :=
  Async.Keeps.ask h q hq hf

/-- The row of a tournament is read. -/
theorem Safe.get {I : Tournaments U → Prop} {w : Tournaments U} (h : I w) (id : ℕ)
    {f : Option (Tournament U) → Organiser U α} (hnone : Safe I fault (f none) w)
    (hsome : ∀ t, w.rows id = some t → Safe I fault (f (some t)) w) :
    Safe I fault (TournamentService.get id >>= f) w := by
  refine Safe.ask h (.get id) h ?_
  show Safe I fault (f (w.rows id)) w
  cases hrow : w.rows id with
  | none => exact hnone
  | some t => exact hsome t hrow

/-- What the service keeps in the process does not fail. -/
theorem Safe.askMemory {I : Tournaments U → Prop} {w : Tournaments U} (q : TournamentQuery U)
    (hm : q.inMemory = true) {f : q.Answer → Organiser U α}
    (hf : Safe I fault (f (Tournaments.answer q w).1) (Tournaments.answer q w).2) :
    Safe I fault (Async.await q >>= f) w :=
  Async.Keeps.ask_of_none q (if_pos hm) hf

variable {w : Tournaments U} {s : TournamentService}

/-- A new tournament costs nobody anything. -/
theorem create_safe (h : TournamentsOK w) (buyInCents capacity now : ℤ) :
    Safe TournamentsOK fault (s.create buyInCents capacity now) w := by
  unfold TournamentService.create
  refine .throwIf h _ _ fun _ => .throwIf h _ _ fun _ => ?_
  refine Safe.ask h .newId h.newId ?_
  obtain ⟨hnone, hu⟩ := h.fresh w.seq (le_refl _)
  have hnew := hu.kept
    (t := { id := w.seq, buyInCents := buyInCents.toNat, capacity := capacity.toNat,
            rakeBps := s.rakeBps, createdAt := now }) rfl s.rakeBps_le rfl rfl rfl
  have hcreated := h.newId.setRow (Nat.lt_succ_self w.seq) hnew
  exact Safe.ask h.newId (.create _) hcreated (.pure hcreated _)

/-- A registration takes the price and no more. -/
theorem register_safe (huow : s.uow = true) (h : TournamentsOK w) (id : ℕ) (u : U) :
    Safe TournamentsOK fault (s.register id u) w := by
  unfold TournamentService.register
  refine Safe.get h id (.throw h _) fun t hrow => ?_
  refine .throwIf h _ _ fun hs => .throwIf h _ _ fun hu => .throwIf h _ _ fun _ => ?_
  have hs : t.status = .registering := by simpa using hs
  obtain ⟨hid, hk⟩ := h.row id t hrow
  by_cases hb : 0 < t.buyInCents
  · rw [if_pos ⟨huow, hb⟩]
    have hescrow := h.escrow hrow hs hu
    exact Safe.ask h (.escrow u (t.apply u)) hescrow (.pure hescrow _)
  · rw [if_neg (fun hc => hb hc.2)]
    -- a free entry only writes the row
    have hsaved : TournamentsOK (w.setRow (t.apply u)) := by
      refine h.setRow hid (hk.apply hs hu rfl ?_)
      omega
    unfold TournamentService.registerSaga
    simp only [if_neg hb]
    show Safe TournamentsOK fault (((TournamentService.save (t.apply u)).tryCatch fun e => throw e) >>=
      fun _ => Pure.pure (t.apply u)) w
    unfold Safe Async.Keeps
    rw [Async.wp_bind, Async.wp_tryCatch]
    exact wp_reply (.save (t.apply u)) hsaved (fun _ _ => h) fun _ _ => hsaved

/-- The refunds of an open tournament: each buy-in, as far as they get. -/
theorem refundAll_wp (h : TournamentsOK w) {t : Tournament U} (hrow : w.rows t.id = some t)
    (hs : t.status.sweepable = true) :
    (TournamentService.refundAll t).wp (.store (Tournaments.reply fault))
      (fun _ w' => TournamentsOK w' ∧ w'.rows t.id = some t ∧
        (0 < t.buyInCents → ∀ u ∈ t.playerIds, .refund t.id u ∈ w'.purse.book.refs))
      (fun _ => TournamentsOK) w := by
  unfold TournamentService.refundAll
  by_cases hb : 0 < t.buyInCents
  · rw [if_pos hb]
    refine Async.wp_mono (Async.wp_forM (I := fun done w' => TournamentsOK w' ∧ w'.rows t.id = some t ∧
      ∀ u ∈ done, .refund t.id u ∈ w'.purse.book.refs) ?_ ⟨h, hrow, by simp⟩) ?_ fun _ _ he => he
    · rintro done u rest hplayers w' ⟨hw', hrow', hdone⟩
      have hu : u ∈ t.playerIds := by
        rw [hplayers]
        simp
      have hrefunded := hw'.refund hrow' hs hu
      refine wp_reply (.credit u t.buyInCents (.refund t.id u)) ⟨hrefunded, hrow', ?_⟩
        (fun _ _ => hw') fun _ _ => hrefunded
      intro v hv
      show TournamentRef.refund t.id v ∈ (w'.purse.book.credit (.refund t.id u) t.buyInCents).refs
      rw [Book.mem_refs_credit]
      rcases List.mem_append.mp hv with hv | hv
      · exact .inl (hdone v hv)
      · right
        simpa using hv
    · rintro - w' ⟨hw', hrow', hall⟩
      exact ⟨hw', hrow', fun _ => hall⟩
  · rw [if_neg hb]
    exact ⟨h, hrow, fun hb' => absurd hb' hb⟩

/-- The row of a tournament whose buy-ins are all refunded is cancelled. -/
theorem cancelled_ok (h : TournamentsOK w) {t : Tournament U} (hrow : w.rows t.id = some t)
    (hs : t.status.sweepable = true)
    (hall : 0 < t.buyInCents → ∀ u ∈ t.playerIds, .refund t.id u ∈ w.purse.book.refs) :
    TournamentsOK (w.setRow t.cancelled) := by
  obtain ⟨hid, hk⟩ := h.row t.id t hrow
  exact h.setRow hid (hk.cancel hs hall)

/-- A cancelled tournament gives back what it took. -/
theorem cancel_safe (h : TournamentsOK w) (id : ℕ) : Safe TournamentsOK fault (TournamentService.cancel id) w := by
  unfold TournamentService.cancel
  refine Safe.get h id (.throw h _) fun t hrow => ?_
  refine .throwIf h _ _ fun hs => ?_
  have hs : t.status.sweepable = true := by simpa using hs
  obtain rfl : t.id = id := (h.row id t hrow).2.id_eq
  refine Async.Keeps.bind (refundAll_wp h hrow hs) ?_
  rintro - w' ⟨hw', hrow', hall⟩
  have hcleared := hw'.recordedOutcomes (Function.update w'.recordedOutcomes t.id fun _ _ => none)
  have hsaved := cancelled_ok hcleared hrow' hs hall
  exact Safe.ask hw' (.clearRecordedOutcomes t.id) hcleared
    (Safe.ask hcleared (.save t.cancelled) hsaved (.pure hsaved _))

/-- A deleted row was over. -/
theorem adminDelete_safe (h : TournamentsOK w) (id : ℕ) :
    Safe TournamentsOK fault (TournamentService.adminDelete id) w := by
  unfold TournamentService.adminDelete
  refine Safe.get h id (.pure h _) fun t hrow => ?_
  refine .throwIf h _ _ fun hs => ?_
  obtain rfl : t.id = id := (h.row id t hrow).2.id_eq
  have hcleared := h.recordedOutcomes (Function.update w.recordedOutcomes t.id fun _ _ => none)
  have hdeleted := hcleared.delete hrow (by simpa using hs)
  refine Safe.ask h (.clearRecordedOutcomes t.id) hcleared ?_
  exact wp_reply (.delete t.id) hdeleted (fun _ _ => hcleared) fun _ _ => hdeleted

/-- The sweep gives back what the tournaments took. -/
theorem sweepStale_safe (h : TournamentsOK w) (now maxAgeMs : ℤ) :
    Safe TournamentsOK fault (TournamentService.sweepStale now maxAgeMs) w := by
  unfold TournamentService.sweepStale
  refine Safe.ask h .listAll h ?_
  refine Async.wp_foldlM (I := TournamentsOK) ?_ h
  intro voided snap _ w' hw'
  show Safe TournamentsOK fault (TournamentService.sweepOne (now - maxAgeMs) voided snap) w'
  unfold TournamentService.sweepOne
  split
  · exact .pure hw' _
  · refine Safe.get hw' snap.id (.pure hw' _) fun t hrow => ?_
    dsimp only
    split
    · exact .pure hw' _
    · rename_i hs
      have hs : t.status.sweepable = true := by simpa using hs
      have hid : t.id = snap.id := (hw'.row _ t hrow).2.id_eq
      rw [← hid] at hrow
      refine Async.Keeps.bind (refundAll_wp hw' hrow hs) ?_
      rintro - v ⟨hv, hrow', hall⟩
      have hsaved := cancelled_ok hv hrow' hs hall
      exact Safe.ask hv (.save t.cancelled) hsaved (.pure hsaved _)

/-- The champion of an open tournament of which nothing was refunded is paid. -/
theorem finish_safe (huow : s.uow = true) (h : TournamentsOK w) {t : Tournament U} {id : ℕ}
    (hrow : w.rows id = some t) (hs : t.status.sweepable = true)
    (hrefund : ∀ u, .refund id u ∉ w.purse.book.refs) (t' : Tournament U) (hid : t'.id = t.id)
    (hbuyIn : t'.buyInCents = t.buyInCents) (hplayers : t'.playerIds = t.playerIds)
    (hpool : t'.prizePoolCents = t.prizePoolCents) (hrake : t'.rakeBps = t.rakeBps) (u : U) :
    Safe TournamentsOK fault (s.finish t' u) w := by
  unfold TournamentService.finish
  have hcleared := h.recordedOutcomes (Function.update w.recordedOutcomes t'.id fun _ _ => none)
  refine Safe.ask h (.clearRecordedOutcomes t'.id) hcleared ?_
  rw [if_pos huow]
  have hpaid := hcleared.payout hrow hs hrefund (t'.finished u) hid hbuyIn hplayers hpool hrake rfl u
  exact Safe.ask hcleared (.payout u (t'.finished u)) hpaid (.pure hpaid _)

/-- What a report leads to. -/
theorem advance_safe (huow : s.uow = true) (h : TournamentsOK w) {t t' : Tournament U} {id round : ℕ}
    {auto : Bool} (hrow : w.rows id = some t) (hs : t.status.sweepable = true)
    (ht' : ∃ index winner, t' = t.decideMatch round index winner) (admin : Option U)
    (hpays : (t'.champion? round).isSome = true → s.parks t' auto = false →
      ∀ u, .refund id u ∉ w.purse.book.refs) :
    Safe TournamentsOK fault (s.advance t' round admin auto) w := by
  obtain ⟨index, winner, rfl⟩ := ht'
  obtain ⟨hid, hk⟩ := h.row id t hrow
  have hdecided := hk.decideMatch hs round index winner
  unfold TournamentService.advance
  split
  · rename_i champion hchampion
    by_cases hparks : s.parks (t.decideMatch round index winner) auto = true
    · rw [if_pos hparks]
      have hsaved := h.setRow hid (hdecided.park hs champion admin)
      exact Safe.ask h (.save _) hsaved (.pure hsaved _)
    · rw [if_neg hparks]
      exact finish_safe huow h hrow hs (hpays (by rw [hchampion]; rfl) (by simpa using hparks))
        (t.decideMatch round index winner) rfl rfl rfl rfl rfl champion
  · have hsaved := h.setRow hid (hdecided.nextRound hs round)
    exact Safe.ask h (.save _) hsaved (.pure hsaved _)

/-- An accepted report names a winner of a match of a running tournament. -/
theorem report_ok {t t' : Tournament U} {round index : ℕ} {winner : U} {recorded : Option U}
    (h : t.report round index winner recorded = .ok t') :
    t.status = .running ∧ t' = t.decideMatch round index winner ∧
      recorded.any (fun v => v ≠ winner) = false := by
  unfold Tournament.report at h
  split at h
  · cases h
  rename_i hs
  split at h
  · cases h
  split at h
  · cases h
  split at h
  · cases h
  split at h
  · cases h
  · rename_i hrec
    cases h
    exact ⟨by simpa using hs, rfl, by simpa using hrec⟩

end Calls

/-! ## Every run -/

/-- Some buy-in of the tournament was refunded. -/
def Tournaments.refunded (w : Tournaments U) (t : Tournament U) : Bool :=
  t.playerIds.any fun u => .refund t.id u ∈ w.purse.book.refs

/-- The event pays the champion of a tournament of which some buy-in was refunded: a report
that decides a final which does not wait for a second admin, or a confirmation. -/
def Tournaments.paysRefunded (s : TournamentService) (w : Tournaments U) : TournamentEvent U → Bool
  | .call (.reportResult id round index winnerId _ auto) _ =>
    match w.rows id with
    | none => false
    | some t =>
      match t.report round index winnerId (if auto then none else w.recordedOutcomes id round index) with
      | .error _ => false
      | .ok t' => (t'.champion? round).isSome && !s.parks t' auto && w.refunded t
  | .call (.confirmChampion id admin) _ =>
    match w.rows id with
    | none => false
    | some t =>
      match TournamentService.confirmable t admin with
      | .error _ => false
      | .ok _ => w.refunded t
  | _ => false

/-- A tournament not refunded has no refund booked. -/
theorem Kept.not_refunded {w : Tournaments U} {id : ℕ} {t : Tournament U} (h : Kept w.purse id t)
    (hr : w.refunded t = false) (u : U) : .refund id u ∉ w.purse.book.refs := by
  intro hu
  have hmem := (h.refund u hu).1
  obtain rfl := h.id_eq
  unfold Tournaments.refunded at hr
  rw [List.any_eq_false] at hr
  simpa [hu] using hr u hmem

section Steps

variable {fault : TournamentQuery U → Fault} {w : Tournaments U} {s : TournamentService}

/-- A report pays out at most the pool, unless the tournament was refunded. -/
theorem reportResult_safe (huow : s.uow = true) (h : TournamentsOK w) (id round index : ℕ) (winner : U)
    (admin : Option U) (auto : Bool)
    (hpays : w.paysRefunded s (.call (.reportResult id round index winner admin auto) fault) = false) :
    Safe TournamentsOK fault (s.reportResult id round index winner admin auto) w := by
  unfold TournamentService.reportResult
  unfold Tournaments.paysRefunded at hpays
  refine Safe.get h id (.throw h _) fun t hrow => ?_
  simp only [hrow] at hpays
  have hk := (h.row id t hrow).2
  -- what the service remembers is read, and nothing changes
  have hadvance : ∀ recorded, recorded = (if auto then none else w.recordedOutcomes id round index) →
      Safe TournamentsOK fault (match t.report round index winner recorded with
        | .error e => throw e
        | .ok t => s.advance t round admin auto) w := by
    rintro recorded rfl
    cases hreport : t.report round index winner
        (if auto then none else w.recordedOutcomes id round index) with
    | error e => exact .throw h e
    | ok t' =>
      simp only [hreport] at hpays
      obtain ⟨hrunning, ht', -⟩ := report_ok hreport
      have hs : t.status.sweepable = true := by
        rw [hrunning]
        rfl
      refine advance_safe huow h hrow hs ⟨index, winner, ht'⟩ admin fun hchampion hparks => ?_
      rw [hchampion, hparks] at hpays
      exact hk.not_refunded (by simpa using hpays)
  unfold TournamentService.recordedFor
  cases auto with
  | true => exact hadvance none rfl
  | false => exact Safe.ask h (.recordedOutcome id round index) h (hadvance _ rfl)

/-- So does a confirmation. -/
theorem confirmChampion_safe (huow : s.uow = true) (h : TournamentsOK w) (id : ℕ) (admin : U)
    (hpays : w.paysRefunded s (.call (.confirmChampion id admin) fault) = false) :
    Safe TournamentsOK fault (s.confirmChampion id admin) w := by
  unfold TournamentService.confirmChampion
  unfold Tournaments.paysRefunded at hpays
  refine Safe.get h id (.throw h _) fun t hrow => ?_
  simp only [hrow] at hpays
  have hk := (h.row id t hrow).2
  dsimp only
  split
  · exact .throw h _
  · rename_i champion hconfirm
    simp only [hconfirm] at hpays
    have hs : t.status.sweepable = true := by
      unfold TournamentService.confirmable at hconfirm
      split at hconfirm
      · rename_i hawaits _
        rw [hawaits]
        rfl
      · cases hconfirm
    exact finish_safe huow h hrow hs (hk.not_refunded hpays)
      { t with pendingWinnerId := none, reportedByAdminId := none } rfl rfl rfl rfl rfl champion

/-- **Every event that does not pay after a refund keeps the tournaments in order.** -/
theorem tournament_step_ok (huow : s.uow = true) (h : TournamentsOK w) (e : TournamentEvent U)
    (he : w.paysRefunded s e = false) : TournamentsOK (w.step s e) := by
  cases e with
  | recordRoomOutcome id round index winner => exact h.recordedOutcomes _
  | restart => exact h.recordedOutcomes _
  | call c fault =>
    have hsafe : Safe TournamentsOK fault (c.program s) w := by
      cases c with
      | create buyInCents capacity now => exact (create_safe h buyInCents capacity now).map _
      | register id u => exact (register_safe huow h id u).map _
      | reportResult id round index winner admin auto =>
        exact (reportResult_safe huow h id round index winner admin auto he).map _
      | confirmChampion id admin => exact (confirmChampion_safe huow h id admin he).map _
      | cancel id => exact (cancel_safe h id).map _
      | adminDelete id => exact (adminDelete_safe h id).map _
      | sweepStale now maxAgeMs => exact (sweepStale_safe h now maxAgeMs).map _
    exact hsafe.exec

end Steps

theorem tournaments_boot_ok : TournamentsOK ({} : Tournaments U) := by
  have hu : ∀ id, Untouched TournamentRef.id ({} : Purse U (TournamentRef U)) id :=
    fun id => ⟨rfl, by simp [Book.refs]⟩
  refine ⟨?_, ?_, ?_⟩
  · intro id t hrow
    cases hrow
  · intro id _
    exact .inl (hu id)
  · intro id _
    exact ⟨rfl, hu id⟩

/-- **A tournament never pays out more than it escrowed**, over every run in which no champion
is paid after a refund: no more is credited than was debited, refunds and a payout exclude
each other, and a tournament that ended has credited exactly what was debited. -/
theorem tournament_never_overpays (s : TournamentService) (huow : s.uow = true)
    (es : List (TournamentEvent U))
    (hes : Guarded (Tournaments.step s) (fun w e => w.paysRefunded s e = false) {} es) (id : ℕ) :
    let w := run (Tournaments.step s) {} es
    w.purse.credited TournamentRef.id id ≤ w.purse.debited id ∧
    (∀ u, .refund id u ∈ w.purse.book.refs → .prize id ∉ w.purse.book.refs ∧ .rake id ∉ w.purse.book.refs) ∧
    ∀ t, w.rows id = some t → t.status = .finished ∨ t.status = .cancelled →
      w.purse.credited TournamentRef.id id = w.purse.debited id := by
  intro w
  have h : TournamentsOK w :=
    guarded_inv (P := TournamentsOK) (fun _ e hw he => tournament_step_ok huow hw e he)
      tournaments_boot_ok es hes
  refine ⟨?_, ?_, ?_⟩
  · cases hrow : w.rows id with
    | some t => exact (h.row id t hrow).2.credited_le
    | none =>
      rcases h.gone id hrow with hu | ⟨t, -, hk⟩
      · rw [hu.credited]
        omega
      · exact hk.credited_le
  · intro u hu
    cases hrow : w.rows id with
    | some t => exact (h.row id t hrow).2.not_both hu
    | none =>
      rcases h.gone id hrow with hun | ⟨t, -, hk⟩
      · exact absurd rfl (hun.refs _ hu)
      · exact hk.not_both hu
  · intro t hrow hs
    exact (h.row id t hrow).2.credited_eq hs

/-- A rake of 10%, with a unit of work. -/
def tenPercent : TournamentService := { rakeBps := 1000, uow := true }

/-- Two players; the sweep fails before the second refund and is done again. -/
def refundedInTwo : List (TournamentEvent ℕ) :=
  [.call (.create 100 2 0) fun _ => .none, .call (.register 0 7) fun _ => .none,
    .call (.register 0 8) fun _ => .none,
    .call (.sweepStale 10 5) fun q => match q with
      | .credit 8 _ _ => .before
      | _ => .none,
    .call (.sweepStale 10 5) fun _ => .none]

theorem tournament_never_overpays_swept :
    (run (Tournaments.step tenPercent) {} refundedInTwo).purse.credited TournamentRef.id 0 =
      (run (Tournaments.step tenPercent) {} refundedInTwo).purse.debited 0 :=
  (tournament_never_overpays tenPercent rfl refundedInTwo (by decide +kernel) 0).2.2
    (((({ id := 0, buyInCents := 100, capacity := 2, rakeBps := 1000, createdAt := 0 } :
      Tournament ℕ).apply 7).apply 8).cancelled) (by decide +kernel) (.inr rfl)

/-- A cancellation fails before the second refund; then the final is decided and the champion
gets the whole pool. -/
def paidAfterRefund : List (TournamentEvent ℕ) :=
  [.call (.create 100 2 0) fun _ => .none, .call (.register 0 7) fun _ => .none,
    .call (.register 0 8) fun _ => .none,
    .call (.cancel 0) fun q => match q with
      | .credit 8 _ _ => .before
      | _ => .none,
    .call (.reportResult 0 0 0 7 none true) fun _ => .none]

theorem tournament_overpays :
    (run (Tournaments.step tenPercent) {} paidAfterRefund).purse.credited TournamentRef.id 0 = 300 ∧
      (run (Tournaments.step tenPercent) {} paidAfterRefund).purse.debited 0 = 200 ∧
      ((run (Tournaments.step tenPercent) {} paidAfterRefund).rows 0).map (fun t => t.status) =
        some .finished := by
  decide +kernel

end Murlan
