import Mathlib.Algebra.BigOperators.Group.Finset.Piecewise
import Mathlib.Algebra.Order.BigOperators.Group.Finset
import Murlan.Proof.Custody
import Murlan.Spec.AutoPayout

/-!
# The caps on automatic payouts

* `Desk.answer_moves`: what a query of the desk does to the rows.
* `Till.protocol`, `WithdrawCall.conforms`: in the order of the route, the automatic send
  claims only what the sums have cleared.
* `TillOK`: the invariant. A sum that was read stays a bound, as long as no other withdrawal
  of the chain is claimed.
* `autoPayout_caps`: no window of 24 hours is paid above a cap, over all runs.
-/

namespace Murlan

variable {U : Type}

/-! ## Rows -/

namespace WithdrawalDesk

/-- A row has the number it is stored under, below the next one. -/
def Numbered (d : WithdrawalDesk U) : Prop := ∀ id r, d.rows id = some r → r.id = id ∧ id < d.seq

end WithdrawalDesk

/-- What may become of a row. -/
structure RowMove (r r' : WithdrawalRecord U) : Prop where
  id : r'.id = r.id
  userId : r'.userId = r.userId
  amountCents : r'.amountCents = r.amountCents
  destination : r'.destination = r.destination
  status : (r'.status = r.status ∧ r'.resolvedByAdminId = r.resolvedByAdminId) ∨
    (r.status = .pending ∧ r'.status ≠ .pending) ∨ (r.status = .completed ∧ r'.status = .rejected)

namespace RowMove

variable {r r' : WithdrawalRecord U}

theorem refl (r : WithdrawalRecord U) : RowMove r r := ⟨rfl, rfl, rfl, rfl, .inl ⟨rfl, rfl⟩⟩

theorem of_pending (h : RowMove r r') (hpending : r'.status = .pending) : r.status = .pending := by
  rcases h.status with ⟨hs, -⟩ | ⟨hs, -⟩ | ⟨-, hs⟩
  · rw [← hs, hpending]
  · exact hs
  · rw [hpending] at hs
    cases hs

theorem rejected (h : RowMove r r') (hrejected : r.status = .rejected) : r'.status = .rejected := by
  rcases h.status with ⟨hs, -⟩ | ⟨hs, -⟩ | ⟨-, hs⟩
  · rw [hs, hrejected]
  · rw [hrejected] at hs
    cases hs
  · exact hs

/-- Moves of a row compose. -/
theorem trans {r'' : WithdrawalRecord U} (h : RowMove r r') (h' : RowMove r' r'') : RowMove r r'' := by
  refine ⟨h'.id.trans h.id, h'.userId.trans h.userId, h'.amountCents.trans h.amountCents,
    h'.destination.trans h.destination, ?_⟩
  rcases h'.status with ⟨hs', ha'⟩ | ⟨hs', hne⟩ | ⟨hs', hrejected⟩
  · rcases h.status with ⟨hs, ha⟩ | ⟨hs, hne⟩ | ⟨hs, hrejected⟩
    · exact .inl ⟨hs'.trans hs, ha'.trans ha⟩
    · exact .inr (.inl ⟨hs, by rwa [hs']⟩)
    · exact .inr (.inr ⟨hs, hs'.trans hrejected⟩)
  · exact .inr (.inl ⟨h.of_pending hs', hne⟩)
  · rcases h.status with ⟨hs, -⟩ | ⟨hs, -⟩ | ⟨-, hs⟩
    · exact .inr (.inr ⟨hs.symm.trans hs', hrejected⟩)
    · exact .inr (.inl ⟨hs, by rw [hrejected]; decide⟩)
    · rw [hs] at hs'
      cases hs'

theorem stamp (audit : WithdrawalResolution U) (h : audit.resolvedByAdminId = none) :
    RowMove r (r.stamp audit) := by
  refine ⟨rfl, rfl, rfl, rfl, .inl ⟨rfl, ?_⟩⟩
  simp [WithdrawalRecord.stamp, h]

theorem resolve {status : WithdrawalStatus} (audit : WithdrawalResolution U) (hpending : r.status = .pending)
    (hne : status ≠ .pending) : RowMove r (r.resolve status audit) :=
  ⟨rfl, rfl, rfl, rfl, .inr (.inl ⟨hpending, hne⟩)⟩

end RowMove

/-- What may become of the rows: they move, and one may be new. -/
structure Moves (d d' : WithdrawalDesk U) : Prop where
  old : ∀ id r, d.rows id = some r → ∃ r', d'.rows id = some r' ∧ RowMove r r'
  new : ∀ id r', d'.rows id = some r' →
    (∃ r, d.rows id = some r) ∨
      (id = d.seq ∧ d.seq < d'.seq ∧ r'.id = id ∧ r'.status = .pending ∧ r'.resolvedByAdminId = none)
  seq : d.seq ≤ d'.seq

namespace Moves

variable {d d' : WithdrawalDesk U}

theorem of_rows (hrows : d'.rows = d.rows) (hseq : d'.seq = d.seq) : Moves d d' := by
  refine ⟨fun id r hr => ⟨r, by rw [hrows, hr], RowMove.refl r⟩, fun id r' hr' => .inl ⟨r', ?_⟩, hseq.ge⟩
  rw [← hrows, hr']

/-- A row that moves, moves the desk. -/
theorem setRow {id : ℕ} {r r' : WithdrawalRecord U} (hr : d.rows id = some r) (hid : r.id = id)
    (hmove : RowMove r r') : Moves d (d.setRow r') := by
  have hrows := Custody.rows_setRow d r'
  have hid' : r'.id = id := by rw [hmove.id, hid]
  refine ⟨?_, ?_, Nat.le_refl _⟩
  · intro j x hx
    by_cases hj : j = id
    · subst hj
      rw [hr] at hx
      cases hx
      exact ⟨r', by rw [hrows, hid', if_pos rfl], hmove⟩
    · exact ⟨x, by rw [hrows, hid', if_neg hj, hx], RowMove.refl x⟩
  · intro j x hx
    by_cases hj : j = id
    · exact .inl ⟨r, by rw [hj, hr]⟩
    · rw [hrows, hid', if_neg hj] at hx
      exact .inl ⟨x, hx⟩

/-- Rows stay under their own ids. -/
theorem numbered (h : Moves d d') (hd : d.Numbered) : d'.Numbered := by
  intro id r' hr'
  rcases h.new id r' hr' with ⟨r, hr⟩ | ⟨rfl, hlt, hid, -⟩
  · obtain ⟨x, hx, hmove⟩ := h.old id r hr
    rw [hr'] at hx
    cases hx
    obtain ⟨hid, hlt⟩ := hd id r hr
    exact ⟨hmove.id.trans hid, hlt.trans_le h.seq⟩
  · exact ⟨hid, hlt⟩

/-- A row that is there moved to where it is. -/
theorem back (h : Moves d d') {id : ℕ} {r' : WithdrawalRecord U} (hr' : d'.rows id = some r')
    {r : WithdrawalRecord U} (hr : d.rows id = some r) : RowMove r r' := by
  obtain ⟨x, hx, hmove⟩ := h.old id r hr
  rw [hr'] at hx
  cases hx
  exact hmove

end Moves

/-- No row goes back to pending, and no admin is stamped on a row without its status. -/
def Desk.Plain : Desk U → Prop
  | .setStatusIfPending _ status _ => status ≠ .pending
  | .setAudit _ audit => audit.resolvedByAdminId = none
  | _ => True

namespace WithdrawalDesk

theorem book_seq (d : WithdrawalDesk U) (u : U) (a : ℕ) (ref : RefundRef) : (d.book u a ref).seq = d.seq := by
  unfold book
  split <;> rfl

/-- To resolve a withdrawal is a move. -/
theorem resolve_moves {d : WithdrawalDesk U} (hd : d.Numbered) {id : ℕ} {status : WithdrawalStatus}
    (audit : WithdrawalResolution U) (hne : status ≠ .pending) {r : WithdrawalRecord U}
    {d' : WithdrawalDesk U} (h : d.resolve id status audit = some (r, d')) :
    Moves d d' ∧ d'.seq = d.seq := by
  unfold resolve at h
  cases hr : d.rows id with
  | none => simp [hr] at h
  | some x =>
    by_cases hpending : x.status = .pending
    · simp only [hr, hpending, if_true, Option.some.injEq, Prod.mk.injEq] at h
      obtain ⟨-, rfl⟩ := h
      exact ⟨Moves.setRow hr (hd id x hr).1 (RowMove.resolve audit hpending hne), rfl⟩
    · simp [hr, hpending] at h

/-- To reverse a withdrawal is a move, and opens no row. -/
theorem reverse_moves {d : WithdrawalDesk U} (hd : d.Numbered) (id : ℕ) :
    Moves d (d.reverse id) ∧ (d.reverse id).seq = d.seq := by
  unfold reverse
  cases hr : d.rows id with
  | none => exact ⟨Moves.of_rows rfl rfl, rfl⟩
  | some r =>
    by_cases hcompleted : r.status = .completed
    · simp only [hcompleted, if_true]
      refine ⟨Moves.setRow hr (hd id r hr).1 ⟨rfl, rfl, rfl, rfl, .inr (.inr ⟨hcompleted, rfl⟩)⟩, rfl⟩
    · simp only [if_neg hcompleted]
      exact ⟨Moves.of_rows rfl rfl, trivial⟩

/-- To open a withdrawal is a move. -/
theorem hold_moves {d : WithdrawalDesk U} (hd : d.Numbered) {r : WithdrawalRecord U} (hid : r.id = d.seq)
    (hpending : r.status = .pending) (hadmin : r.resolvedByAdminId = none) : Moves d { d.setRow r with seq := d.seq + 1 } := by
  have hrows : ∀ id, (d.setRow r).rows id = if id = d.seq then some r else d.rows id := by
    intro id
    rw [Custody.rows_setRow, hid]
  refine ⟨?_, ?_, Nat.le_succ _⟩
  · intro id x hx
    have hlt := (hd id x hx).2
    exact ⟨x, by rw [← hx]; exact (hrows id).trans (if_neg (by omega)), RowMove.refl x⟩
  · intro id x hx
    by_cases hj : id = d.seq
    · have hx' : (d.setRow r).rows id = some x := hx
      rw [hrows, if_pos hj] at hx'
      cases hx'
      exact .inr ⟨hj, Nat.lt_succ_self _, by rw [hid, hj], hpending, hadmin⟩
    · have hx' : (d.setRow r).rows id = some x := hx
      rw [hrows, if_neg hj] at hx'
      exact .inl ⟨x, hx'⟩

end WithdrawalDesk

/-- **What a query of the desk does to the rows.** -/
theorem Desk.answer_moves (reply : DeskReply) {d : WithdrawalDesk U} (hd : d.Numbered) (q : Desk U)
    (hq : q.Plain) : Moves d (q.answer reply d).2 := by
  cases q with
  | find id => exact Moves.of_rows rfl rfl
  | findWithdrawal id =>
    simp only [Desk.answer]
    split
    · exact Moves.of_rows rfl rfl
    split
    · exact Moves.of_rows rfl rfl
    · exact Moves.of_rows rfl rfl
  | hold userId amountCents destination =>
    simp only [Desk.answer]
    split
    · exact WithdrawalDesk.hold_moves hd rfl rfl rfl
    · exact Moves.of_rows rfl rfl
  | setStatusIfPending id status audit =>
    simp only [Desk.answer]
    split
    · exact Moves.of_rows rfl rfl
    · rename_i h
      exact (WithdrawalDesk.resolve_moves hd audit hq h).1
  | rejectAndRefund id audit userId amountCents =>
    simp only [Desk.answer]
    split
    · exact Moves.of_rows rfl rfl
    rename_i r d' h
    obtain ⟨hmoves, -⟩ := WithdrawalDesk.resolve_moves hd audit (by decide) h
    have hrows := WithdrawalDesk.book_rows d' userId amountCents (.refund id)
    have hseq := WithdrawalDesk.book_seq d' userId amountCents (.refund id)
    refine ⟨fun j r hr => ?_, fun j r' hr' => ?_, ?_⟩
    · rw [hrows]
      exact hmoves.old j r hr
    · rw [hseq]
      exact hmoves.new j r' (by rw [← hrows]; exact hr')
    · rw [hseq]
      exact hmoves.seq
  | credit userId amountCents ref =>
    exact Moves.of_rows (WithdrawalDesk.book_rows ..) (WithdrawalDesk.book_seq ..)
  | markReversed id => exact (WithdrawalDesk.reverse_moves hd id).1
  | setAudit id audit =>
    simp only [Desk.answer]
    split
    · exact Moves.of_rows rfl rfl
    · rename_i r hr
      exact Moves.setRow hr (hd id r hr).1 (RowMove.stamp audit hq)
  | send id amountCents address => exact Moves.of_rows rfl rfl
  | outcome id => exact Moves.of_rows rfl rfl
  | listRecent => exact Moves.of_rows rfl rfl
  | notify => exact Moves.of_rows rfl rfl

/-- The row a request is answered with is the user's, and stored. -/
theorem Desk.answer_hold {reply : DeskReply} {d : WithdrawalDesk U} {userId : U} {amountCents : ℕ}
    {destination : String} {r : WithdrawalRecord U}
    (h : ((Desk.hold userId amountCents destination).answer reply d).1 = some r) :
    r.userId = userId ∧ ((Desk.hold userId amountCents destination).answer reply d).2.rows r.id = some r := by
  simp only [Desk.answer] at h ⊢
  split at h
  · rename_i hfunded
    obtain rfl := Option.some.inj h
    rw [if_pos hfunded]
    exact ⟨rfl, Function.update_self ..⟩
  · cases h

/-! ## Sums of rows -/

namespace WithdrawServer

variable {s s' : WithdrawServer U}

theorem counted_none {p : ℕ → WithdrawalRecord U → Prop} [∀ id r, Decidable (p id r)] {id : ℕ}
    (h : s.desk.rows id = none) : s.counted p id = 0 := by
  unfold counted
  rw [h]

theorem counted_some {p : ℕ → WithdrawalRecord U → Prop} [∀ id r, Decidable (p id r)] {id : ℕ}
    {r : WithdrawalRecord U} (h : s.desk.rows id = some r) :
    s.counted p id = if p id r then r.amountCents else 0 := by
  unfold counted
  rw [h]

/-- Rows that count in a later sum counted in the earlier one, one row apart. -/
theorem sumRows_le_add {p p' : ℕ → WithdrawalRecord U → Prop} [∀ id r, Decidable (p id r)]
    [∀ id r, Decidable (p' id r)] (hs : s.desk.Numbered) (b a : ℕ)
    (h : ∀ id r', s'.desk.rows id = some r' → p' id r' → (id = b ∧ r'.amountCents ≤ a) ∨
      ∃ r, s.desk.rows id = some r ∧ r'.amountCents ≤ r.amountCents ∧ p id r) :
    s'.sumRows p' ≤ s.sumRows p + a := by
  have hterm : ∀ id ∈ Finset.range s'.desk.seq,
      s'.counted p' id ≤ s.counted p id + if id = b then a else 0 := by
    intro id _
    cases hr' : s'.desk.rows id with
    | none =>
      rw [counted_none hr']
      exact Nat.zero_le _
    | some r' =>
      rw [counted_some hr']
      split
      · rename_i hp'
        rcases h id r' hr' hp' with ⟨rfl, ha⟩ | ⟨r, hr, ha, hp⟩
        · rw [if_pos rfl]
          omega
        · rw [counted_some hr, if_pos hp]
          omega
      · exact Nat.zero_le _
  have hrest : ∑ id ∈ Finset.range s'.desk.seq, s.counted p id ≤ s.sumRows p := by
    refine Finset.sum_le_sum_of_ne_zero fun id _ hne => ?_
    rw [Finset.mem_range]
    by_contra hge
    refine hne (counted_none ?_)
    cases hr : s.desk.rows id with
    | none => rfl
    | some r => exact absurd (hs id r hr).2 hge
  have hone : ∑ id ∈ Finset.range s'.desk.seq, (if id = b then a else 0) ≤ a := by
    rw [Finset.sum_ite_eq']
    split
    · exact Nat.le_refl _
    · exact Nat.zero_le _
  have hsum := Finset.sum_le_sum hterm
  rw [Finset.sum_add_distrib] at hsum
  exact hsum.trans (Nat.add_le_add hrest hone)

theorem sumRows_le {p p' : ℕ → WithdrawalRecord U → Prop} [∀ id r, Decidable (p id r)]
    [∀ id r, Decidable (p' id r)] (hs : s.desk.Numbered)
    (h : ∀ id r', s'.desk.rows id = some r' → p' id r' →
      ∃ r, s.desk.rows id = some r ∧ r'.amountCents ≤ r.amountCents ∧ p id r) :
    s'.sumRows p' ≤ s.sumRows p :=
  sumRows_le_add hs 0 0 fun id r' hr' hp' => .inr (h id r' hr' hp')

/-- A row that only the larger sum counts. -/
theorem sumRows_add_le {p q : ℕ → WithdrawalRecord U → Prop} [∀ id r, Decidable (p id r)]
    [∀ id r, Decidable (q id r)] (hs : s.desk.Numbered) {b : ℕ} {r : WithdrawalRecord U}
    (hb : s.desk.rows b = some r) (hnot : ¬ p b r) (hq : q b r)
    (h : ∀ id r, s.desk.rows id = some r → p id r → q id r) :
    s.sumRows p + r.amountCents ≤ s.sumRows q := by
  have hone : ∑ id ∈ Finset.range s.desk.seq, (if id = b then r.amountCents else 0) = r.amountCents := by
    rw [Finset.sum_ite_eq', if_pos (Finset.mem_range.mpr (hs b r hb).2)]
  have hadd : s.sumRows p + r.amountCents = ∑ id ∈ Finset.range s.desk.seq,
      (s.counted p id + if id = b then r.amountCents else 0) := by
    rw [Finset.sum_add_distrib, hone, sumRows]
  rw [hadd]
  refine Finset.sum_le_sum fun id _ => ?_
  by_cases hid : id = b
  · subst hid
    rw [counted_some hb, counted_some hb, if_neg hnot, if_pos hq, if_pos rfl]
    omega
  · rw [if_neg hid, Nat.add_zero]
    cases hx : s.desk.rows id with
    | none =>
      rw [counted_none hx]
      exact Nat.zero_le _
    | some x =>
      rw [counted_some hx, counted_some hx]
      split
      · rename_i hp
        rw [if_pos (h id x hx hp)]
      · exact Nat.zero_le _

/-- The amounts of the withdrawals claimed by the automatic send and not reversed, by when
they were created and claimed. -/
def standing (s : WithdrawServer U) (p : ℕ → ℕ → WithdrawalRecord U → Prop)
    [∀ created claimed r, Decidable (p created claimed r)] : ℕ :=
  s.sumRows fun id r => r.status ≠ .rejected ∧ ∃ c ∈ s.claims id, p (s.createdAt id) c.time r

/-- No user, no row. -/
theorem standing_of_isEmpty [IsEmpty U] (s : WithdrawServer U) (p : ℕ → ℕ → WithdrawalRecord U → Prop)
    [∀ created claimed r, Decidable (p created claimed r)] : s.standing p = 0 := by
  unfold standing sumRows
  refine Finset.sum_eq_zero fun id _ => ?_
  cases hr : s.desk.rows id with
  | none => exact counted_none hr
  | some r => exact isEmptyElim r.userId

/-- A looser condition lets more stand. -/
theorem standing_mono {p q : ℕ → ℕ → WithdrawalRecord U → Prop}
    [∀ created claimed r, Decidable (p created claimed r)]
    [∀ created claimed r, Decidable (q created claimed r)] (hs : s.desk.Numbered)
    (h : ∀ id r c, s.desk.rows id = some r → s.claims id = some c → p (s.createdAt id) c.time r →
      q (s.createdAt id) c.time r) : s.standing p ≤ s.standing q := by
  refine sumRows_le hs fun id r hr hp => ?_
  obtain ⟨hstatus, c, hc, hpc⟩ := hp
  exact ⟨r, hr, Nat.le_refl _, hstatus, c, hc, h id r c hr hc hpc⟩

end WithdrawServer

/-! ## What the route knows -/

/-- What a withdraw task knows: the row it created, the start of the last 24 hours, the sums
it read (`none` for a failed read), and whether it has tried to claim the row. -/
structure Errand (U : Type) where
  row : Option (WithdrawalRecord U) := none
  since : Option ℕ := none
  sums : Cap → Option (Option ℕ) := fun _ => none
  claimed : Bool := false

/-- What counts against a cap before the withdrawal: the user's sum includes it. -/
def Cap.before (cap : Cap) (n amountCents : ℕ) : ℕ :=
  match cap with
  | .user => n - amountCents
  | .global | .destination => n

/-- The sum behind a cap has been read, or its read has failed. -/
def Errand.learn (g : Errand U) (cap : Cap) (r : Except WithdrawalError ℕ) : Errand U :=
  { g with sums := Function.update g.sums cap (some r.toOption) }

/-- Every cap that is on leaves room for the withdrawal. -/
def Errand.Cleared (cfg : AutoWithdraw) (g : Errand U) (amountCents : ℕ) : Prop :=
  ∀ cap, 0 < cfg.cap cap → ∃ n, g.sums cap = some (some n) ∧ cap.before n amountCents + amountCents ≤ cfg.cap cap

/-- Whose withdrawal a request is. -/
def WithdrawCall.userId : WithdrawCall U → Option U
  | .withdraw userId _ _ _ => some userId
  | _ => none

namespace Till

/-- What an answer adds to what the request knows. -/
def next : (q : Till U) → Except WithdrawalError q.Answer → Errand U → Errand U
  | .desk false (.hold _ _ _), .ok (some r), g => { g with row := some r }
  | .desk true (.setStatusIfPending _ _ _), _, g => { g with claimed := true }
  | .clock, .ok n, g => { g with since := some (n - dayMs) }
  | .sum (.sumUserSince _ _), r, g => g.learn .user r
  | .sum (.autoPaidSince _ none), r, g => g.learn .global r
  | .sum (.autoPaidSince _ (some _)), r, g => g.learn .destination r
  | _, _, g => g

/-- A new row is the user's. -/
def Honest : (q : Till U) → Except WithdrawalError q.Answer → Prop
  | .desk _ (.hold userId _ _), .ok (some r) => r.userId = userId
  | _, _ => True

theorem honest_error (auto : Bool) (q : Desk U) (e : WithdrawalError) : (Till.desk auto q).Honest (.error e) := by
  cases q with
  | _ => trivial

/-- The desk's answers are honest. -/
theorem honest_answer (reply : DeskReply) (d : WithdrawalDesk U) (auto : Bool) (q : Desk U) :
    (Till.desk auto q).Honest (.ok (q.answer reply d).1) := by
  cases q with
  | hold userId amountCents destination =>
    simp only [Desk.answer]
    split
    · exact (rfl : userId = userId)
    · trivial
  | _ => trivial

/-- Only a new row teaches the task anything. -/
theorem next_ok (auto : Bool) (q : Desk U) (a : q.Answer) (g : Errand U)
    (h : ∀ u m d, q ≠ .hold u m d) : (Till.desk auto q).next (.ok a) g = (Till.desk auto q).next (.error .store) g := by
  cases auto with
  | false =>
    cases q with
    | hold u m d => exact absurd rfl (h u m d)
    | _ => rfl
  | true =>
    cases q with
    | _ => rfl

/-- The sum of a cap is read once, after the row and the time. -/
def mayRead (g : Errand U) (cap : Cap) (since : ℕ) (p : WithdrawalRecord U → Prop) : Prop :=
  g.claimed = false ∧ g.since = some since ∧ g.sums cap = none ∧ ∃ r, g.row = some r ∧ p r

/-- What a request may ask, by what it knows. -/
def may (cfg : AutoWithdraw) (op : WithdrawCall U) : Till U → Errand U → Prop
  | .desk auto (.hold userId _ _), g => auto = false ∧ op.userId = some userId ∧ ∀ cap, g.sums cap = none
  | .desk auto (.setStatusIfPending id status audit), g =>
    status ≠ .pending ∧ (auto = true → status = .completed ∧ audit.resolvedByAdminId = none ∧
      ∃ r, g.row = some r ∧ r.id = id ∧ g.since ≠ none ∧ g.Cleared cfg r.amountCents)
  | .desk _ q, _ => q.Plain
  | .clock, g => ∀ cap, g.sums cap = none
  | .sum (.sumUserSince userId since), g => mayRead g .user since fun r => r.userId = userId
  | .sum (.autoPaidSince since none), g => mayRead g .global since fun _ => True
  | .sum (.autoPaidSince since (some a)), g => mayRead g .destination since fun r => r.destination = a
  | .sum (.transferredInSince _ _), _ => True

/-- A request asks what it may, and learns from honest answers. -/
def protocol (cfg : AutoWithdraw) (op : WithdrawCall U) :
    Async.Protocol (Till U) Till.Answer WithdrawalError (Errand U) where
  may := may cfg op
  reply q r g g' := g' = q.next r g ∧ q.Honest r

end Till

/-! ### The operations -/

/-- The program keeps to the protocol and ends in `post`, or fails. -/
abbrev Yields {α : Type} (cfg : AutoWithdraw) (op : WithdrawCall U) (post : α → Errand U → Prop)
    (p : Teller U α) (g : Errand U) : Prop :=
  p.wp (Till.protocol cfg op) post (fun _ _ => True) g

/-- The program keeps to the protocol, whatever it returns. -/
abbrev Conforms {α : Type} (cfg : AutoWithdraw) (op : WithdrawCall U) (p : Teller U α) (g : Errand U) : Prop :=
  Yields cfg op (fun _ _ => True) p g

/-- A query of the desk that creates nothing; the automatic send touches only its own row. -/
def Desk.Decides (auto : Bool) (id : ℕ) : Desk U → Prop
  | .hold _ _ _ => False
  | .setStatusIfPending i status audit =>
    status ≠ .pending ∧ (auto = true → i = id ∧ status = .completed ∧ audit.resolvedByAdminId = none)
  | q => q.Plain

section Asks

variable {auto : Bool} {n : ℕ}

theorem asks_stamp (id : ℕ) (audit : WithdrawalResolution U) (h : audit.resolvedByAdminId = none) :
    ((WithdrawalService.setAudit id audit).ignore).Asks (Desk.Decides auto n) := by
  refine Async.Asks.ignore ?_
  exact .await (q := Desk.setAudit id audit) h

/-- An approval asks only what a decision may. -/
theorem approve_asks (id : ℕ) (audit : WithdrawalResolution U) :
    (WithdrawalService.approve id audit).Asks (Desk.Decides false n) := by
  refine .bind (.await trivial) ?_
  rintro (_ | r)
  · trivial
  refine .bind (.await ⟨by decide, nofun⟩) ?_
  rintro (_ | r)
  · trivial
  · trivial

theorem payout_asks (id amountCents : ℕ) (address : String) :
    (WithdrawalService.payout (U := U) id amountCents address).Asks (Desk.Decides auto n) :=
  .bind (.await trivial) fun _ => .await trivial

/-- The automatic send claims its own row and no other. -/
theorem autoPayout_asks (isValidTronAddress : String → Bool) (id : ℕ) :
    (WithdrawalService.autoPayout (U := U) isValidTronAddress id).Asks (Desk.Decides true id) := by
  refine .bind (.await trivial) ?_
  rintro (_ | r)
  · trivial
  dsimp only
  split
  · trivial
  split
  · trivial
  refine .bind (.await ⟨by decide, fun _ => ⟨rfl, rfl, rfl⟩⟩) ?_
  rintro (_ | claimed)
  · trivial
  refine .bind (.tryCatch (payout_asks ..) fun _ => trivial) fun r => ?_
  split
  · exact .bind (asks_stamp _ _ rfl) fun _ => trivial
  split
  · exact .bind (asks_stamp _ _ rfl) fun _ => trivial
  split
  · exact .bind (asks_stamp _ _ rfl) fun _ => trivial
  · exact .bind (.ignore (.bind (.await trivial) fun _ => .await trivial)) fun _ => trivial

/-- The reconciler asks only what a decision may. -/
theorem reconcileOne_asks (r : BinanceWithdrawalStatus) :
    (WithdrawalService.reconcileOne (U := U) r).Asks (Desk.Decides false n) := by
  unfold WithdrawalService.reconcileOne
  split
  · trivial
  refine .bind (.await trivial) ?_
  rintro (_ | wd)
  · trivial
  dsimp only
  split
  · trivial
  have hrest : (do
      WithdrawalService.credit wd.userId wd.amountCents (.reversal r.withdrawOrderId)
      WithdrawalService.markReversed r.withdrawOrderId
      Async.await Desk.notify
      pure true : Clerk U Bool).Asks (Desk.Decides false n) :=
    .bind (.await trivial) fun _ => .bind (.await trivial) fun _ => .bind (.await trivial) fun _ => trivial
  split
  · exact .bind (.await trivial) fun _ => hrest
  · exact hrest

theorem reconcileAll_asks (records : List BinanceWithdrawalStatus) :
    (WithdrawalService.reconcileAll (U := U) records).Asks (Desk.Decides false n) := by
  induction records with
  | nil => trivial
  | cons r records ih => exact .bind (reconcileOne_asks r) fun _ => .bind ih fun _ => trivial

variable [DecidableEq U]

/-- A rejection asks only what a decision may. -/
theorem reject_asks (uow : Bool) (id : ℕ) (audit : WithdrawalResolution U) :
    (WithdrawalService.reject uow id audit).Asks (Desk.Decides false n) := by
  refine .bind (.await trivial) ?_
  rintro (_ | r)
  · trivial
  refine .bind (.throwIf _ _) fun _ => ?_
  refine .bind (.throwIf _ _) fun _ => ?_
  cases uow with
  | true =>
    refine .bind (.await trivial) ?_
    rintro (_ | claimed)
    · trivial
    · trivial
  | false =>
    refine .bind (.await ⟨by decide, nofun⟩) ?_
    rintro (_ | claimed)
    · trivial
    · exact .bind (.await trivial) fun _ => trivial

/-- A payout by hand asks only what a decision may. -/
theorem payoutNow_asks (isValidTronAddress : String → Bool) (provider : Bool) (id : ℕ) (admin : Option U) :
    (WithdrawalService.payoutNow isValidTronAddress provider id admin).Asks (Desk.Decides false n) := by
  refine .bind (.await trivial) ?_
  rintro (_ | r)
  · trivial
  refine .bind (.throwIf _ _) fun _ => ?_
  refine .bind (.throwIf _ _) fun _ => ?_
  refine .bind (.throwIf _ _) fun _ => ?_
  cases provider with
  | false => exact approve_asks id _
  | true =>
    refine .bind (.await ⟨by decide, nofun⟩) ?_
    rintro (_ | claimed)
    · trivial
    refine .bind (payout_asks ..) fun r => ?_
    split
    · exact .bind (asks_stamp _ _ rfl) fun _ => trivial
    split
    · exact .bind (asks_stamp _ _ rfl) fun _ => trivial
    split
    · exact .bind (asks_stamp _ _ rfl) fun _ => trivial
    · exact .bind (.await trivial) fun _ => .bind (.await trivial) fun _ => trivial

end Asks

section Conforms

variable {cfg : AutoWithdraw} {op : WithdrawCall U} {α β : Type} {post : β → Errand U → Prop}

theorem till_ask {q : Till U} {f : q.Answer → Teller U β} {g : Errand U} (hmay : q.may cfg op g)
    (hok : ∀ r, Yields cfg op post (f r) (q.next (.ok r) g)) : Yields cfg op post (Async.await q >>= f) g := by
  refine (Async.wp_bind _ _ _).mpr ((Async.wp_await _ _).mpr ⟨hmay, ?_, fun _ _ _ => trivial⟩)
  rintro r g' ⟨rfl, -⟩
  exact hok r

/-- A sum is known once it was read, whether the read failed or not. -/
theorem sumOrInfinity_ask {q : RollingSum U} {f : Option ℕ → Teller U β} {g : Errand U}
    (hmay : (Till.sum q).may cfg op g)
    (hok : ∀ r : Except WithdrawalError ℕ, Yields cfg op post (f r.toOption) ((Till.sum q).next r g)) :
    Yields cfg op post (WithdrawRoute.sumOrInfinity q >>= f) g := by
  refine (Async.wp_bind _ _ _).mpr ((Async.wp_tryCatch _ _ _).mpr ?_)
  refine (Async.wp_bind _ _ _).mpr ((Async.wp_await _ _).mpr ⟨hmay, ?_, ?_⟩)
  · rintro r g' ⟨rfl, -⟩
    exact hok (.ok r)
  · rintro e g' ⟨rfl, -⟩
    exact hok (.error e)

/-- An operation that creates nothing keeps to the protocol, and to what was known of a row. -/
theorem onDesk_conforms {auto : Bool} {id : ℕ} {p : Clerk U α} (hp : p.Asks (Desk.Decides auto id))
    {J : Errand U → Prop}
    (hJ : auto = true → ∀ g, J g → (∃ r, g.row = some r ∧ r.id = id ∧ g.since ≠ none ∧
      g.Cleared cfg r.amountCents) ∧ J { g with claimed := true }) {g : Errand U} (hg : J g) :
    (onDesk auto p).wp (Till.protocol cfg op) (fun _ => J) (fun _ => J) g := by
  show (p.lift (Till.desk auto)).wp (Till.protocol cfg op) _ _ g
  rw [Async.wp_lift]
  refine hp.wp (fun q g hq hg => ?_) hg
  have hkeep : ∀ r g', (Till.protocol cfg op).reply (Till.desk auto q) r g g' → J g' := by
    rintro r g' ⟨rfl, -⟩
    cases auto with
    | false =>
      cases q with
      | hold => exact hq.elim
      | _ => exact hg
    | true =>
      cases q with
      | setStatusIfPending => exact (hJ rfl g hg).2
      | _ => exact hg
  refine ⟨?_, hkeep⟩
  cases q with
  | hold => exact hq.elim
  | setStatusIfPending i status audit =>
    refine ⟨hq.1, fun hauto => ?_⟩
    obtain ⟨rfl, hstatus, haudit⟩ := hq.2 hauto
    exact ⟨hstatus, haudit, (hJ hauto g hg).1⟩
  | setAudit i audit => exact hq
  | _ => trivial

/-- After the request, the route knows its row. -/
theorem request_conforms (limits : WithdrawalLimits) {userId : U} (amountCents : ℤ) (destination : String)
    {f : WithdrawalRecord U → Teller U β} {g : Errand U} (hop : op.userId = some userId)
    (hsums : ∀ cap, g.sums cap = none)
    (hok : ∀ r, r.userId = userId → Yields cfg op post (f r) { g with row := some r }) :
    Yields cfg op post (onDesk false (WithdrawalService.request limits userId amountCents destination) >>= f) g := by
  refine (Async.wp_bind _ _ _).mpr ((Async.wp_lift _ _ _).mpr ?_)
  unfold WithdrawalService.request
  refine (Async.wp_bind _ _ _).mpr ((Async.wp_throwIf _ _ _).mpr ⟨fun _ => trivial, fun _ => ?_⟩)
  refine (Async.wp_bind _ _ _).mpr ((Async.wp_throwIf _ _ _).mpr ⟨fun _ => trivial, fun _ => ?_⟩)
  refine (Async.wp_bind _ _ _).mpr ((Async.wp_throwIf _ _ _).mpr ⟨fun _ => trivial, fun _ => ?_⟩)
  refine (Async.wp_bind _ _ _).mpr ((Async.wp_throwIf _ _ _).mpr ⟨fun _ => trivial, fun _ => ?_⟩)
  refine (Async.wp_bind _ _ _).mpr ((Async.wp_await _ _).mpr ⟨⟨rfl, hop, hsums⟩, ?_, fun _ _ _ => trivial⟩)
  rintro (_ | r) g' ⟨rfl, huser⟩
  · trivial
  · exact hok r huser

/-- The triage lets a withdrawal through only below every cap that is on. -/
theorem classify_auto {input : TriageInput} (h : (classifyWithdrawal input cfg).1 = .auto) :
    aboveCap (cfg.cap .user) input.priorTodayCents input.amountCents = false ∧
    aboveCap (cfg.cap .global) input.globalTodayCents input.amountCents = false ∧
    aboveCap (cfg.cap .destination) input.destTodayCents input.amountCents = false ∧
    0 < cfg.autoWithdrawMaxCents := by
  have hreasons : triageReasons input cfg = [] := by
    by_contra hne
    have hmanual : (classifyWithdrawal input cfg).1 = .manual := if_neg hne
    rw [hmanual] at h
    cases h
  simp only [triageReasons, List.append_eq_nil_iff] at hreasons
  obtain ⟨⟨⟨⟨hmax, huser⟩, hglobal⟩, hdest⟩, -⟩ := hreasons
  refine ⟨?_, ?_, ?_, ?_⟩
  · by_contra hc
    simp [hc] at huser
  · by_contra hc
    simp [hc] at hglobal
  · by_contra hc
    simp [hc] at hdest
  · by_contra hc
    have hzero : cfg.autoWithdrawMaxCents = 0 := by omega
    simp [hzero] at hmax

theorem aboveCap_false {cap a : ℕ} {today : Option ℕ} (h : aboveCap cap today a = false) (hcap : 0 < cap) :
    ∃ n, today = some n ∧ n + a ≤ cap := by
  unfold aboveCap at h
  simp only [hcap, decide_true, Bool.true_and] at h
  cases today with
  | none => simp at h
  | some n => exact ⟨n, rfl, by simpa using h⟩

/-- Processing claims the row only if the sums the task has read leave room for it. -/
theorem process_conforms {r : WithdrawalRecord U} {input : TriageInput} {g : Errand U}
    (hrow : g.row = some r) (hsince : g.since ≠ none)
    (hcleared : (classifyWithdrawal input cfg).1 = .auto → cfg.payoutLeader && cfg.payout →
      g.Cleared cfg r.amountCents) :
    Conforms cfg op (WithdrawRoute.processWithdrawal cfg r.id input) g := by
  unfold WithdrawRoute.processWithdrawal
  have hend : ∀ sent g, Conforms cfg op
      (WithdrawRoute.report (classifyWithdrawal input cfg).1 sent : Teller U ProcessOutcome) g := by
    intro sent g
    refine till_ask trivial fun _ => ?_
    cases sent with
    | none => trivial
    | some r => trivial
  dsimp only
  split
  · rename_i hauto
    have hsend : (onDesk true (WithdrawalService.autoPayout cfg.setup.isValidTronAddress r.id)).wp
        (Till.protocol cfg op) (fun _ _ => True) (fun _ _ => True) g := by
      refine Async.wp_mono (onDesk_conforms (autoPayout_asks ..)
        (J := fun g => g.row = some r ∧ g.since ≠ none ∧ g.Cleared cfg r.amountCents) ?_
        ⟨hrow, hsince, hcleared hauto.1 hauto.2⟩) (fun _ _ _ => trivial) fun _ _ _ => trivial
      rintro - g ⟨hr, hs, hc⟩
      exact ⟨⟨r, hr, rfl, hs, hc⟩, hr, hs, hc⟩
    refine (Async.wp_bind _ _ _).mpr ((Async.wp_tryCatch _ _ _).mpr (Async.wp_mono hsend ?_ ?_))
    · intro a g' _
      exact hend _ g'
    · intro e g' _
      exact (Async.wp_pure _ _).mpr (hend _ g')
  · exact hend none g

/-- `g'` knows what `g` knows, and the sum of one cap. -/
structure Learned (cfg : AutoWithdraw) (cap : Cap) (x : Option ℕ) (g g' : Errand U) : Prop where
  row : g'.row = g.row
  since : g'.since = g.since
  claimed : g'.claimed = g.claimed
  other : ∀ c, c ≠ cap → g'.sums c = g.sums c
  known : 0 < cfg.cap cap → g'.sums cap = some x

theorem learned (cap : Cap) (r : Except WithdrawalError ℕ) (g : Errand U) :
    Learned cfg cap r.toOption g (g.learn cap r) :=
  ⟨rfl, rfl, rfl, fun _ hc => Function.update_of_ne hc _ _, fun _ => Function.update_self ..⟩

/-- A capped sum is known when its cap is on. -/
theorem cappedSum_ask (cap : Cap) (q : RollingSum U) {f : Option ℕ → Teller U β} {g : Errand U}
    (hmay : (Till.sum q).may cfg op g) (hnext : ∀ r, (Till.sum q).next r g = g.learn cap r)
    (hok : ∀ x g', Learned cfg cap x g g' → Yields cfg op post (f x) g') :
    Yields cfg op post (WithdrawRoute.cappedSum (cfg.cap cap) q >>= f) g := by
  unfold WithdrawRoute.cappedSum
  split
  · refine sumOrInfinity_ask hmay fun r => ?_
    rw [hnext]
    exact hok _ _ (learned cap r g)
  · rename_i hoff
    exact hok (some 0) g ⟨rfl, rfl, rfl, fun _ _ => rfl, fun hon => absurd hon hoff⟩

/-- The shared sums are known in either order. -/
theorem sharedSums_ask {dayAgo : ℕ} {r : WithdrawalRecord U} {destFirst : Bool}
    {f : Option ℕ × Option ℕ → Teller U β} {g : Errand U} (hrow : g.row = some r)
    (hsince : g.since = some dayAgo) (hclaimed : g.claimed = false) (hglobal : g.sums .global = none)
    (hdest : g.sums .destination = none)
    (hok : ∀ x y g₁ g₂, (Learned cfg .global x g g₁ ∧ Learned cfg .destination y g₁ g₂) ∨
      (Learned cfg .destination y g g₁ ∧ Learned cfg .global x g₁ g₂) → Yields cfg op post (f (x, y)) g₂) :
    Yields cfg op post (WithdrawRoute.sharedSums cfg dayAgo r.destination destFirst >>= f) g := by
  unfold WithdrawRoute.sharedSums
  cases destFirst with
  | true =>
    refine (Async.wp_bind _ _ _).mpr ?_
    refine cappedSum_ask .destination (.autoPaidSince dayAgo (some r.destination)) ?_ (fun _ => rfl) ?_
    · exact ⟨hclaimed, hsince, hdest, r, hrow, rfl⟩
    intro y g₁ h₁
    refine cappedSum_ask .global (.autoPaidSince dayAgo none) ?_ (fun _ => rfl) ?_
    · exact ⟨by rw [h₁.claimed, hclaimed], by rw [h₁.since, hsince],
        by rw [h₁.other _ (by decide), hglobal], r, by rw [h₁.row, hrow], trivial⟩
    intro x g₂ h₂
    exact hok x y g₁ g₂ (.inr ⟨h₁, h₂⟩)
  | false =>
    refine (Async.wp_bind _ _ _).mpr ?_
    refine cappedSum_ask .global (.autoPaidSince dayAgo none) ?_ (fun _ => rfl) ?_
    · exact ⟨hclaimed, hsince, hglobal, r, hrow, trivial⟩
    intro x g₁ h₁
    refine cappedSum_ask .destination (.autoPaidSince dayAgo (some r.destination)) ?_ (fun _ => rfl) ?_
    · exact ⟨by rw [h₁.claimed, hclaimed], by rw [h₁.since, hsince],
        by rw [h₁.other _ (by decide), hdest], r, by rw [h₁.row, hrow], rfl⟩
    intro y g₂ h₂
    exact hok x y g₁ g₂ (.inl ⟨h₁, h₂⟩)

/-- **The withdraw route keeps to the protocol.** -/
theorem critical_conforms (userId : U) (amountCents : ℤ) (destination : String) (destFirst : Bool)
    (hop : op.userId = some userId) :
    Conforms cfg op (WithdrawRoute.critical cfg userId amountCents destination destFirst) {} := by
  unfold WithdrawRoute.critical
  refine request_conforms _ _ _ hop (fun _ => rfl) fun r huser => ?_
  refine till_ask (fun _ => rfl) fun now => ?_
  refine sumOrInfinity_ask ⟨rfl, rfl, rfl, r, rfl, huser⟩ fun prior => ?_
  -- whatever processing does, the request is answered
  have hprocess : ∀ input g, g.row = some r → g.since ≠ none →
      ((classifyWithdrawal input cfg).1 = .auto → cfg.payoutLeader && cfg.payout →
        g.Cleared cfg r.amountCents) →
      Conforms cfg op (do
        Async.ignore do
          let _ ← WithdrawRoute.processWithdrawal cfg r.id input
          pure ()
        pure r : Teller U (WithdrawalRecord U)) g := by
    intro input g hrow hsince hcleared
    refine (Async.wp_bind _ _ _).mpr ((Async.wp_tryCatch _ _ _).mpr ((Async.wp_bind _ _ _).mpr ?_))
    exact Async.wp_mono (process_conforms hrow hsince hcleared) (fun _ _ _ => trivial) fun _ _ _ => trivial
  dsimp only
  split
  · refine sharedSums_ask rfl rfl rfl rfl rfl fun x y g₁ g₂ hlearned => ?_
    refine sumOrInfinity_ask trivial fun received => ?_
    have hrow : g₂.row = some r := by
      rcases hlearned with ⟨h₁, h₂⟩ | ⟨h₁, h₂⟩
      · rw [h₂.row, h₁.row]; rfl
      · rw [h₂.row, h₁.row]; rfl
    have hsince : g₂.since = some (now - dayMs) := by
      rcases hlearned with ⟨h₁, h₂⟩ | ⟨h₁, h₂⟩
      · rw [h₂.since, h₁.since]; rfl
      · rw [h₂.since, h₁.since]; rfl
    have huserSum : g₂.sums .user = some prior.toOption := by
      rcases hlearned with ⟨h₁, h₂⟩ | ⟨h₁, h₂⟩
      · rw [h₂.other _ (by decide), h₁.other _ (by decide)]; rfl
      · rw [h₂.other _ (by decide), h₁.other _ (by decide)]; rfl
    refine hprocess _ g₂ hrow (by rw [hsince]; nofun) ?_
    intro hauto _ cap hcap
    obtain ⟨huser', hglobal, hdest, -⟩ := classify_auto hauto
    cases cap with
    | user =>
      obtain ⟨n, hn, hle⟩ := aboveCap_false huser' hcap
      obtain ⟨m, hm, rfl⟩ := Option.map_eq_some_iff.mp hn
      exact ⟨m, by rw [huserSum, hm], hle⟩
    | global =>
      obtain ⟨n, hn, hle⟩ := aboveCap_false hglobal hcap
      refine ⟨n, ?_, hle⟩
      rcases hlearned with ⟨h₁, h₂⟩ | ⟨h₁, h₂⟩
      · rw [h₂.other _ (by decide), h₁.known hcap, ← hn]
      · rw [h₂.known hcap, ← hn]
    | destination =>
      obtain ⟨n, hn, hle⟩ := aboveCap_false hdest hcap
      refine ⟨n, ?_, hle⟩
      rcases hlearned with ⟨h₁, h₂⟩ | ⟨h₁, h₂⟩
      · rw [h₂.known hcap, ← hn]
      · rw [h₂.other _ (by decide), h₁.known hcap, ← hn]
  · rename_i hoff
    refine hprocess _ _ rfl (by simp [Till.next, Errand.learn]) ?_
    intro hauto hsend
    refine absurd ?_ hoff
    obtain ⟨-, -, -, hmax⟩ := classify_auto hauto
    simp only [AutoWithdraw.autoCouldFire]
    simp only [Bool.and_eq_true] at hsend
    simp [hsend.1, hsend.2, hmax]

/-- **Every call of the server keeps to the protocol.** -/
theorem WithdrawCall.conforms [DecidableEq U] (cfg : AutoWithdraw) (op : WithdrawCall U) :
    Conforms cfg op (op.program cfg) {} := by
  have admin : ∀ p : Clerk U (WithdrawalReceipt U), p.Asks (Desk.Decides false 0) →
      Conforms cfg op (onDesk false p) {} := fun p hp =>
    onDesk_conforms hp (J := fun _ => True) nofun trivial
  cases op with
  | withdraw userId amountCents destination destFirst =>
    refine (Async.wp_bind _ _ _).mpr (Async.wp_mono
      (critical_conforms userId amountCents destination destFirst rfl) ?_ fun _ _ _ => trivial)
    intro r g _
    trivial
  | approve id audit => exact admin _ (.bind (approve_asks id audit) fun _ => trivial)
  | reject id audit => exact admin _ (.bind (reject_asks _ id audit) fun _ => trivial)
  | payoutNow provider id by_ => exact admin _ (.bind (payoutNow_asks _ provider id by_) fun _ => trivial)
  | reconcile =>
    refine admin _ (.bind ?_ fun _ => trivial)
    exact .bind (.await trivial) fun records => reconcileAll_asks records

end Conforms

/-! ## The invariant -/

/-- Which rows a cap is about: the user's, all, those to one destination. -/
def Cap.Concerns (cap : Cap) (u : U) (a : String) (r : WithdrawalRecord U) : Prop :=
  match cap with
  | .user => r.userId = u
  | .global => True
  | .destination => r.destination = a

instance [DecidableEq U] (cap : Cap) (u : U) (a : String) (r : WithdrawalRecord U) :
    Decidable (cap.Concerns u a r) := by
  unfold Cap.Concerns
  cases cap
  all_goals infer_instance

/-- The time a sum dates a row by: when it was created, or when it was completed. -/
def Cap.dated (cap : Cap) (created claimed : ℕ) : ℕ :=
  match cap with
  | .user => created
  | .global | .destination => claimed

namespace WithdrawServer

variable [DecidableEq U]

/-- What stands of what a cap is about, from a time on. -/
def standingSince (s : WithdrawServer U) (cap : Cap) (u : U) (a : String) (since : ℕ) : ℕ :=
  s.standing fun created claimed r => since ≤ cap.dated created claimed ∧ cap.Concerns u a r

/-- What stands in the 24 hours from `t` on. -/
def standingIn (s : WithdrawServer U) (cap : Cap) (u : U) (a : String) (t : ℕ) : ℕ :=
  s.standing fun created claimed r =>
    t ≤ cap.dated created claimed ∧ claimed ≤ t + dayMs ∧ cap.Concerns u a r

end WithdrawServer

section Invariant

variable [DecidableEq U]

/-- What task `k` knows. While its row is pending, a sum that was read is a bound on what
stands; the user's sum is one if it includes the row. -/
structure ErrandOK (cfg : AutoWithdraw) (s : WithdrawServer U) (k : ℕ) (op : WithdrawCall U)
    (g : Errand U) : Prop where
  row : ∀ r, g.row = some r → op.userId = some r.userId ∧ ∃ r', s.desk.rows r.id = some r' ∧ RowMove r r'
  since : ∀ d, g.since = some d → d ≤ s.now - dayMs
  sums : ∀ cap n r d, 0 < cfg.cap cap → g.sums cap = some (some n) → g.row = some r → g.since = some d →
    (∃ r', s.desk.rows r.id = some r' ∧ r'.status = .pending) → (cap = .user → d ≤ s.createdAt r.id) →
    s.standingSince cap r.userId r.destination d ≤ cap.before n r.amountCents
  missed : ∀ cap, (k, cap) ∈ s.failed → g.sums cap = some none
  claims : ∀ id c, s.claims id = some c → c.task = k → g.claimed = true

/-- The invariant of the payout server. -/
structure TillOK (cfg : AutoWithdraw) (s : WithdrawServer U) (n : ℕ)
    (know : ℕ → Option (WithdrawCall U × Errand U)) : Prop where
  numbered : s.desk.Numbered
  fresh : ∀ id r, s.desk.rows id = some r → r.status = .pending → r.resolvedByAdminId = none
  claimed : ∀ id c, s.claims id = some c → c.task < n ∧ c.time ≤ s.now ∧
    ∃ r, s.desk.rows id = some r ∧ r.status ≠ .pending ∧
      (r.status = .completed → s.resolvedAt id = some c.time ∧ r.resolvedByAdminId = none)
  caps : ∀ cap, 0 < cfg.cap cap → ∀ u a t, s.standingIn cap u a t ≤ cfg.cap cap
  missed : ∀ k cap, (k, cap) ∈ s.failed → k < n
  routed : ∀ id c, s.claims id = some c → ∀ cap, 0 < cfg.cap cap → (c.task, cap) ∉ s.failed
  errand : ∀ k op g, know k = some (op, g) → ErrandOK cfg s k op g

/-- Time goes on and rows move. -/
structure Ages (s s' : WithdrawServer U) : Prop where
  moves : Moves s.desk s'.desk
  created : ∀ id r, s.desk.rows id = some r → s'.createdAt id = s.createdAt id
  resolved : ∀ id r r', s.desk.rows id = some r → s'.desk.rows id = some r' → r'.status = r.status →
    s'.resolvedAt id = s.resolvedAt id
  now : s.now ≤ s'.now
  failed : s'.failed = s.failed

namespace Ages

variable {cfg : AutoWithdraw} {s s' : WithdrawServer U} {n : ℕ}
  {know : ℕ → Option (WithdrawCall U × Errand U)}

omit [DecidableEq U] in
/-- What stands after a while stood before, where nothing new is claimed. -/
theorem standing_le (h : Ages s s') (hs : s.desk.Numbered)
    (hclaimed : ∀ id c, s.claims id = some c → ∃ r, s.desk.rows id = some r) (hclaims : s'.claims = s.claims)
    {p : ℕ → ℕ → WithdrawalRecord U → Prop} [∀ created claimed r, Decidable (p created claimed r)]
    (hp : ∀ {r r'} created claimed, RowMove r r' → p created claimed r' → p created claimed r) :
    s'.standing p ≤ s.standing p := by
  refine WithdrawServer.sumRows_le hs fun id r' hr' hcount => ?_
  obtain ⟨hstatus, c, hc, hpc⟩ := hcount
  rw [hclaims] at hc
  obtain ⟨r, hr⟩ := hclaimed id c hc
  have hmove := h.moves.back hr' hr
  refine ⟨r, hr, hmove.amountCents.le, fun hrejected => hstatus (hmove.rejected hrejected), c, hc, ?_⟩
  rw [h.created id r hr] at hpc
  exact hp _ _ hmove hpc

omit [DecidableEq U] in
theorem concerns (cap : Cap) {u : U} {a : String} {r r' : WithdrawalRecord U} (h : RowMove r r') :
    cap.Concerns u a r' ↔ cap.Concerns u a r := by
  cases cap with
  | user => exact Eq.congr_left h.userId
  | global => exact Iff.rfl
  | destination => exact Eq.congr_left h.destination

theorem standingSince_le (h : Ages s s') (hs : TillOK cfg s n know) (hclaims : s'.claims = s.claims)
    (cap : Cap) (u : U) (a : String) (since : ℕ) :
    s'.standingSince cap u a since ≤ s.standingSince cap u a since := by
  refine h.standing_le hs.numbered (fun id c hc => ?_) hclaims fun created claimed hmove hp => ?_
  · obtain ⟨-, -, r, hr, -⟩ := hs.claimed id c hc
    exact ⟨r, hr⟩
  · exact ⟨hp.1, (concerns cap hmove).mp hp.2⟩

theorem standingIn_le (h : Ages s s') (hs : TillOK cfg s n know) (hclaims : s'.claims = s.claims)
    (cap : Cap) (u : U) (a : String) (t : ℕ) : s'.standingIn cap u a t ≤ s.standingIn cap u a t := by
  refine h.standing_le hs.numbered (fun id c hc => ?_) hclaims fun created claimed hmove hp => ?_
  · obtain ⟨-, -, r, hr, -⟩ := hs.claimed id c hc
    exact ⟨r, hr⟩
  · exact ⟨hp.1, hp.2.1, (concerns cap hmove).mp hp.2.2⟩

omit [DecidableEq U] in
/-- A task's row is where it was, and pending only if it was. -/
theorem row (h : Ages s s') {op : WithdrawCall U} {r : WithdrawalRecord U}
    (hrow : op.userId = some r.userId ∧ ∃ r', s.desk.rows r.id = some r' ∧ RowMove r r') :
    op.userId = some r.userId ∧ ∃ r', s'.desk.rows r.id = some r' ∧ RowMove r r' := by
  obtain ⟨hop, r', hr', hmove⟩ := hrow
  obtain ⟨r'', hr'', hmove'⟩ := h.moves.old r.id r' hr'
  exact ⟨hop, r'', hr'', hmove.trans hmove'⟩

/-- What a task knows stays true if what its sums are about does not grow. -/
theorem errand (h : Ages s s') {k : ℕ} {op : WithdrawCall U} {g : Errand U} (hg : ErrandOK cfg s k op g)
    (hclaims : ∀ id c, s'.claims id = some c → c.task = k → g.claimed = true)
    (hle : ∀ cap r d, 0 < cfg.cap cap → g.row = some r →
      (∃ r', s'.desk.rows r.id = some r' ∧ r'.status = .pending) →
      s'.standingSince cap r.userId r.destination d ≤ s.standingSince cap r.userId r.destination d) :
    ErrandOK cfg s' k op g := by
  refine ⟨fun r hr => h.row (hg.row r hr), fun d hd => ?_, ?_, ?_, hclaims⟩
  · have hold := hg.since d hd
    have hnow := h.now
    omega
  · intro cap m r d hcap hsum hrow hsince hpending hcreated
    refine (hle cap r d hcap hrow hpending).trans (hg.sums cap m r d hcap hsum hrow hsince ?_ ?_)
    · obtain ⟨-, x, hx, -⟩ := hg.row r hrow
      obtain ⟨r', hr', hstatus⟩ := hpending
      exact ⟨x, hx, (h.moves.back hr' hx).of_pending hstatus⟩
    · intro huser
      obtain ⟨-, x, hx, -⟩ := hg.row r hrow
      rw [← h.created r.id x hx]
      exact hcreated huser
  · rw [h.failed]
    exact hg.missed

/-- A pending row has no admin. -/
theorem fresh (h : Ages s s') (hs : TillOK cfg s n know) {id : ℕ} {r' : WithdrawalRecord U}
    (hr' : s'.desk.rows id = some r') (hpending : r'.status = .pending) : r'.resolvedByAdminId = none := by
  rcases h.moves.new id r' hr' with ⟨r, hr⟩ | ⟨-, -, -, -, hadmin⟩
  · have hmove := h.moves.back hr' hr
    have hold := hs.fresh id r hr (hmove.of_pending hpending)
    rcases hmove.status with ⟨-, ha⟩ | ⟨-, hne⟩ | ⟨-, hrejected⟩
    · rw [ha, hold]
    · exact absurd hpending hne
    · rw [hpending] at hrejected
      cases hrejected
  · exact hadmin

/-- A claimed row keeps the time of its claim while it is completed. -/
theorem claimed (h : Ages s s') (hs : TillOK cfg s n know) {id : ℕ} {c : AutoClaim} (hc : s.claims id = some c) :
    c.task < n ∧ c.time ≤ s'.now ∧ ∃ r, s'.desk.rows id = some r ∧ r.status ≠ .pending ∧
      (r.status = .completed → s'.resolvedAt id = some c.time ∧ r.resolvedByAdminId = none) := by
  obtain ⟨htask, htime, r, hr, hne, hcompleted⟩ := hs.claimed id c hc
  obtain ⟨r', hr', hmove⟩ := h.moves.old id r hr
  refine ⟨htask, htime.trans h.now, r', hr', fun hp => hne (hmove.of_pending hp), fun hcomp => ?_⟩
  rcases hmove.status with ⟨hsame, hadmin⟩ | ⟨hp, -⟩ | ⟨-, hrejected⟩
  · obtain ⟨hat, hnone⟩ := hcompleted (hsame ▸ hcomp)
    exact ⟨by rw [h.resolved id r r' hr hr' hsame, hat], by rw [hadmin, hnone]⟩
  · exact absurd hp hne
  · rw [hcomp] at hrejected
    cases hrejected

/-- The invariant holds on, where nothing new is claimed. -/
theorem ok (h : Ages s s') (hs : TillOK cfg s n know) (hclaims : s'.claims = s.claims) :
    TillOK cfg s' n know := by
  refine ⟨h.moves.numbered hs.numbered, ?_, ?_, ?_, ?_, ?_, ?_⟩
  · exact fun id r' => h.fresh hs
  · intro id c hc
    rw [hclaims] at hc
    exact h.claimed hs hc
  · intro cap hcap u a t
    exact (h.standingIn_le hs hclaims cap u a t).trans (hs.caps cap hcap u a t)
  · rw [h.failed]
    exact hs.missed
  · rw [h.failed, hclaims]
    exact hs.routed
  · intro k op g hk
    refine h.errand (hs.errand k op g hk) ?_ fun cap r d _ _ _ => h.standingSince_le hs hclaims cap _ _ d
    rw [hclaims]
    exact (hs.errand k op g hk).claims

end Ages

/-- Two withdrawals are on one chain if they are the same user's, or if a shared cap is on. -/
theorem linked_withdraw (cfg : AutoWithdraw) {op op' : WithdrawCall U} {u u' : U} (hop : op.userId = some u)
    (hop' : op'.userId = some u') (h : cfg.globalCapsOn = true ∨ u' = u) :
    (withdrawRuntime cfg).linked op' op = true := by
  cases op with
  | withdraw v _ _ _ =>
    cases op' with
    | withdraw v' _ _ _ =>
      cases hop
      cases hop'
      rw [Runtime.linked_iff]
      rcases h with hon | rfl
      · exact ⟨none, by simp [withdrawRuntime, WithdrawCall.chain, hon],
          by simp [withdrawRuntime, WithdrawCall.chain, hon]⟩
      · exact ⟨_, rfl, rfl⟩
    | _ => cases hop'
  | _ => cases hop

/-- The automatic send of task `k` completes the pending row `id`. -/
structure Claiming (s s' : WithdrawServer U) (k id : ℕ) (r r' : WithdrawalRecord U) : Prop where
  ages : Ages s s'
  row : s.desk.rows id = some r
  pending : r.status = .pending
  row' : s'.desk.rows id = some r'
  completed : r'.status = .completed
  admin : r'.resolvedByAdminId = none
  resolvedAt : s'.resolvedAt id = some s.now
  now : s'.now = s.now
  claims : s'.claims = Function.update s.claims id (some { task := k, time := s.now })

namespace Claiming

variable {cfg : AutoWithdraw} {s s' : WithdrawServer U} {n k id : ℕ} {r r' : WithdrawalRecord U}
  {know : ℕ → Option (WithdrawCall U × Errand U)}

omit [DecidableEq U] in
/-- What stands then stood before, or is the row. -/
theorem standing_le_add (h : Claiming s s' k id r r') (hs : s.desk.Numbered)
    (hclaimed : ∀ id c, s.claims id = some c → ∃ r, s.desk.rows id = some r)
    {p q : ℕ → ℕ → WithdrawalRecord U → Prop} [∀ created claimed r, Decidable (p created claimed r)]
    [∀ created claimed r, Decidable (q created claimed r)]
    (hp : ∀ {x x'} created claimed, RowMove x x' → p created claimed x' → q created claimed x) :
    s'.standing p ≤ s.standing q + if p (s.createdAt id) s.now r' then r.amountCents else 0 := by
  have hmove := h.ages.moves.back h.row' h.row
  refine WithdrawServer.sumRows_le_add hs id _ fun j x' hx' hcount => ?_
  obtain ⟨hstatus, c, hc, hpc⟩ := hcount
  rw [h.claims] at hc
  by_cases hj : j = id
  · subst hj
    rw [Function.update_self] at hc
    cases hc
    rw [h.row'] at hx'
    cases hx'
    rw [h.ages.created j r h.row] at hpc
    rw [if_pos hpc]
    exact .inl ⟨rfl, hmove.amountCents.le⟩
  · rw [Function.update_of_ne hj] at hc
    obtain ⟨x, hx⟩ := hclaimed j c hc
    have hmove' := h.ages.moves.back hx' hx
    rw [h.ages.created j x hx] at hpc
    exact .inr ⟨x, hx, hmove'.amountCents.le, fun hrejected => hstatus (hmove'.rejected hrejected), c, hc,
      hp _ _ hmove' hpc⟩

/-- A claim that its sums have cleared keeps every window below its cap. -/
theorem caps (h : Claiming s s' k id r r') (hs : TillOK cfg s n know) {op : WithdrawCall U} {g : Errand U}
    {r₀ : WithdrawalRecord U} {d : ℕ} (hg : ErrandOK cfg s k op g) (hrow : g.row = some r₀) (hid : r₀.id = id)
    (hsince : g.since = some d) (hcleared : g.Cleared cfg r₀.amountCents) (cap : Cap) (hcap : 0 < cfg.cap cap)
    (u : U) (a : String) (t : ℕ) : s'.standingIn cap u a t ≤ cfg.cap cap := by
  have hclaimed : ∀ id c, s.claims id = some c → ∃ r, s.desk.rows id = some r := by
    intro id c hc
    obtain ⟨-, -, r, hr, -⟩ := hs.claimed id c hc
    exact ⟨r, hr⟩
  have hmove := h.ages.moves.back h.row' h.row
  have hd := hg.since d hsince
  obtain ⟨-, x, hx, hmove₀⟩ := hg.row r₀ hrow
  rw [hid, h.row] at hx
  cases hx
  by_cases hcount : t ≤ cap.dated (s.createdAt id) s.now ∧ s.now ≤ t + dayMs ∧ cap.Concerns u a r'
  · -- the others in the window were completed, or created, since the sum's start
    have hdt : d ≤ t := by omega
    obtain ⟨m, hm, hroom⟩ := hcleared cap hcap
    have hbound := hg.sums cap m r₀ d hcap hm hrow hsince
      ⟨r, by rw [hid]; exact h.row, h.pending⟩ (by
        rintro rfl
        rw [hid]
        exact hdt.trans hcount.1)
    have hscope : ∀ x : WithdrawalRecord U, cap.Concerns u a x → cap.Concerns r₀.userId r₀.destination x := by
      intro x hx
      have hself := (Ages.concerns cap (u := u) (a := a) (hmove₀.trans hmove)).mp hcount.2.2
      cases cap with
      | user => exact hx.trans hself.symm
      | global => trivial
      | destination => exact hx.trans hself.symm
    have hle := h.standing_le_add hs.numbered hclaimed
      (p := fun created claimed r => t ≤ cap.dated created claimed ∧ claimed ≤ t + dayMs ∧ cap.Concerns u a r)
      (q := fun created claimed r => d ≤ cap.dated created claimed ∧ cap.Concerns r₀.userId r₀.destination r)
      fun created claimed hmove hp =>
        ⟨hdt.trans hp.1, hscope _ ((Ages.concerns cap hmove).mp hp.2.2)⟩
    rw [if_pos hcount] at hle
    refine hle.trans ?_
    rw [hmove₀.amountCents]
    exact (Nat.add_le_add_right hbound _).trans hroom
  · have hle := h.standing_le_add hs.numbered hclaimed
      (p := fun created claimed r => t ≤ cap.dated created claimed ∧ claimed ≤ t + dayMs ∧ cap.Concerns u a r)
      (q := fun created claimed r => t ≤ cap.dated created claimed ∧ claimed ≤ t + dayMs ∧ cap.Concerns u a r)
      fun created claimed hmove hp => ⟨hp.1, hp.2.1, (Ages.concerns cap hmove).mp hp.2.2⟩
    rw [if_neg hcount] at hle
    exact hle.trans (hs.caps cap hcap u a t)

/-- What another task has read is not about a withdrawal of another chain. -/
theorem other (h : Claiming s s' k id r r') (hs : TillOK cfg s n know) {op op' : WithdrawCall U}
    {g' : Errand U} {r₀ : WithdrawalRecord U} {j : ℕ} (hrow : op.userId = some r₀.userId) (hmove : RowMove r₀ r)
    (hg' : ErrandOK cfg s j op' g') (hjk : j ≠ k)
    (hlinked : (withdrawRuntime cfg).linked op' op = true → g' = {}) : ErrandOK cfg s' j op' g' := by
  refine h.ages.errand hg' ?_ ?_
  · intro i c hc htask
    rw [h.claims] at hc
    by_cases hi : i = id
    · subst hi
      rw [Function.update_self] at hc
      cases hc
      exact absurd htask.symm hjk
    · rw [Function.update_of_ne hi] at hc
      exact hg'.claims i c hc htask
  intro cap r₁ d hcap hr₁ _
  have hclaimed : ∀ id c, s.claims id = some c → ∃ r, s.desk.rows id = some r := by
    intro id c hc
    obtain ⟨-, -, r, hr, -⟩ := hs.claimed id c hc
    exact ⟨r, hr⟩
  obtain ⟨hop', -⟩ := hg'.row r₁ hr₁
  have hunlinked : ¬ (cfg.globalCapsOn = true ∨ r₁.userId = r₀.userId) := by
    intro hlink
    rw [hlinked (linked_withdraw cfg hrow hop' hlink)] at hr₁
    cases hr₁
  -- without a shared cap it is a withdrawal of another user
  have hother : cap = .user ∧ r₁.userId ≠ r₀.userId := by
    refine ⟨?_, fun heq => hunlinked (.inr heq)⟩
    cases cap with
    | user => rfl
    | global => exact absurd (.inl (by simp [AutoWithdraw.globalCapsOn, hcap])) hunlinked
    | destination => exact absurd (.inl (by simp [AutoWithdraw.globalCapsOn, hcap])) hunlinked
  obtain ⟨rfl, hne⟩ := hother
  have hle := h.standing_le_add hs.numbered hclaimed
    (p := fun created claimed r => d ≤ Cap.user.dated created claimed ∧ Cap.user.Concerns r₁.userId r₁.destination r)
    (q := fun created claimed r => d ≤ Cap.user.dated created claimed ∧ Cap.user.Concerns r₁.userId r₁.destination r)
    fun created claimed hmove hp => ⟨hp.1, (Ages.concerns .user hmove).mp hp.2⟩
  rw [if_neg] at hle
  · exact hle
  · rintro ⟨-, huser⟩
    have hmove' := hmove.trans (h.ages.moves.back h.row' h.row)
    exact hne (huser.symm.trans hmove'.userId)

/-- **The invariant after a claim.** -/
theorem ok (h : Claiming s s' k id r r') (hs : TillOK cfg s n know) (hkn : k < n) {op : WithdrawCall U}
    {g : Errand U} {r₀ : WithdrawalRecord U} (hk : know k = some (op, g)) (hrow : g.row = some r₀) (hid : r₀.id = id)
    (hsince : g.since ≠ none) (hcleared : g.Cleared cfg r₀.amountCents)
    (hothers : ∀ j op' g', j ≠ k → know j = some (op', g') → (withdrawRuntime cfg).linked op' op = true → g' = {}) :
    TillOK cfg s' n (Function.update know k (some (op, { g with claimed := true }))) := by
  obtain ⟨d, hd⟩ := Option.ne_none_iff_exists'.mp hsince
  have hg := hs.errand k op g hk
  obtain ⟨hop, x, hx, hmove⟩ := hg.row r₀ hrow
  rw [hid, h.row] at hx
  cases hx
  refine ⟨h.ages.moves.numbered hs.numbered, ?_, ?_, ?_, ?_, ?_, ?_⟩
  · exact fun j y => h.ages.fresh hs
  · intro j c hc
    rw [h.claims] at hc
    by_cases hj : j = id
    · subst hj
      rw [Function.update_self] at hc
      cases hc
      refine ⟨hkn, h.now.ge, r', h.row', ?_, fun _ => ⟨h.resolvedAt, h.admin⟩⟩
      rw [h.completed]
      decide
    · rw [Function.update_of_ne hj] at hc
      exact h.ages.claimed hs hc
  · exact h.caps hs hg hrow hid hd hcleared
  · rw [h.ages.failed]
    exact hs.missed
  · intro j c hc cap hcap hmem
    rw [h.ages.failed] at hmem
    rw [h.claims] at hc
    by_cases hj : j = id
    · subst hj
      rw [Function.update_self] at hc
      cases hc
      obtain ⟨m, hm, -⟩ := hcleared cap hcap
      rw [hg.missed cap hmem] at hm
      cases hm
    · rw [Function.update_of_ne hj] at hc
      exact hs.routed j c hc cap hcap hmem
  · intro j op' g' hj
    by_cases hjk : j = k
    · subst hjk
      rw [Function.update_self] at hj
      cases hj
      refine ⟨fun x hx => h.ages.row (hg.row x hx), fun e he => ?_, ?_, ?_, fun _ _ _ _ => rfl⟩
      · rw [h.now]
        exact hg.since e he
      · -- its row is no longer pending
        intro cap m x e _ _ hx _ hpending
        obtain ⟨y, hy, hstatus⟩ := hpending
        have hxr : x = r₀ := Option.some.inj (hx.symm.trans hrow)
        rw [hxr, hid, h.row'] at hy
        cases hy
        rw [h.completed] at hstatus
        cases hstatus
      · rw [h.ages.failed]
        exact hg.missed
    · rw [Function.update_of_ne hjk] at hj
      exact h.other hs hop hmove (hs.errand j op' g' hj) hjk (hothers j op' g' hjk hj)

end Claiming

/-! ### One answer -/

namespace TillOK

variable {cfg : AutoWithdraw} {s : WithdrawServer U} {n k : ℕ} {know : ℕ → Option (WithdrawCall U × Errand U)}
  {op : WithdrawCall U} {g : Errand U}

/-- What is known may be replaced by what is true. -/
theorem learns (h : TillOK cfg s n know) {g' : Errand U} (hg : ErrandOK cfg s k op g') :
    TillOK cfg s n (Function.update know k (some (op, g'))) := by
  refine { h with errand := fun j op' g'' hj => ?_ }
  by_cases hjk : j = k
  · subst hjk
    rw [Function.update_self] at hj
    cases hj
    exact hg
  · rw [Function.update_of_ne hjk] at hj
    exact h.errand j op' g'' hj

omit [DecidableEq U] in
theorem plain_of_may {auto : Bool} {q : Desk U} (h : (Till.desk auto q).may cfg op g) : q.Plain := by
  cases q with
  | setStatusIfPending => exact h.1
  | setAudit => exact h
  | _ => trivial

/-- A query of the desk ages the server, whatever it answers. -/
theorem stamped_ages (h : TillOK cfg s n know) (reply : DeskReply) (auto : Bool) {q : Desk U} (hq : q.Plain) :
    Ages s ((s.claim k auto q).stamped (q.answer reply s.desk).2) := by
  have hmoves := Desk.answer_moves reply h.numbered q hq
  have hsame : (s.claim k auto q).desk = s.desk ∧ (s.claim k auto q).createdAt = s.createdAt ∧
      (s.claim k auto q).resolvedAt = s.resolvedAt ∧ (s.claim k auto q).now = s.now ∧
      (s.claim k auto q).failed = s.failed := by
    unfold WithdrawServer.claim
    split
    · split
      · exact ⟨rfl, rfl, rfl, rfl, rfl⟩
      · exact ⟨rfl, rfl, rfl, rfl, rfl⟩
    · exact ⟨rfl, rfl, rfl, rfl, rfl⟩
  obtain ⟨hdesk, hcreated, hresolved, hnow, hfailed⟩ := hsame
  refine ⟨hmoves, ?_, ?_, hnow.ge, hfailed⟩
  · intro id r hr
    have hlt := (h.numbered id r hr).2
    simp only [WithdrawServer.stamped, hdesk, hcreated]
    rw [if_neg (by omega)]
  · intro id r r' hr hr' hstatus
    have hr'' : (q.answer reply s.desk).2.rows id = some r' := hr'
    simp only [WithdrawServer.stamped, hdesk, hresolved, hr, hr'']
    rw [if_neg (fun hne => hne hstatus.symm)]

omit [DecidableEq U] in
/-- A query of the desk claims nothing, or is the claim of the automatic send. -/
theorem claim_cases (s : WithdrawServer U) (k : ℕ) (auto : Bool) (q : Desk U) :
    (s.claim k auto q).claims = s.claims ∨
    ∃ id audit r, auto = true ∧ q = .setStatusIfPending id .completed audit ∧ s.desk.rows id = some r ∧
      r.status = .pending ∧
      s.claim k auto q = { s with claims := Function.update s.claims id (some { task := k, time := s.now }) } := by
  unfold WithdrawServer.claim
  split
  · rename_i id audit
    by_cases hclaim : auto = true ∧ (s.desk.rows id).any (fun r => r.status = .pending) = true
    · obtain ⟨r, hr, hpending⟩ := (Option.any_eq_true _ _).mp hclaim.2
      rw [if_pos hclaim]
      exact .inr ⟨id, audit, r, hclaim.1, rfl, hr, by simpa using hpending, rfl⟩
    · rw [if_neg hclaim]
      exact .inl rfl
  · exact .inl rfl

/-- A task that has tried to claim knows no less. -/
theorem touch_errand (hg : ErrandOK cfg s k op g) (auto : Bool) (q : Desk U) :
    ErrandOK cfg s k op ((Till.desk auto q).next (.error .store) g) := by
  cases auto with
  | false =>
    cases q with
    | _ => exact hg
  | true =>
    cases q with
    | setStatusIfPending id status audit => exact ⟨hg.row, hg.since, hg.sums, hg.missed, fun _ _ _ _ => rfl⟩
    | _ => exact hg

/-- The invariant after a query of the desk: what the task knows of its claim, it knows even if
the answer is lost. -/
theorem answer_desk (h : TillOK cfg s n know) (hkn : k < n) (hk : know k = some (op, g))
    (hothers : ∀ j op' g', j ≠ k → know j = some (op', g') → (withdrawRuntime cfg).linked op' op = true → g' = {})
    {auto : Bool} {q : Desk U} (hmay : (Till.desk auto q).may cfg op g) (reply : TillReply) :
    TillOK cfg ((Till.desk auto q).answer reply k s).2 n
      (Function.update know k (some (op, (Till.desk auto q).next (.error .store) g))) := by
  have hages := h.stamped_ages (k := k) reply.toDeskReply auto (plain_of_may hmay)
  rcases claim_cases s k auto q with hsame | ⟨id, audit, r, rfl, rfl, hr, hpending, hclaim⟩
  · have hok := hages.ok h hsame
    exact hok.learns (touch_errand (hok.errand k op g hk) auto q)
  · obtain ⟨-, haudit, r₀, hrow, hid, hsince, hcleared⟩ := hmay.2 rfl
    have hdesk : ((Desk.setStatusIfPending id .completed audit).answer reply.toDeskReply s.desk).2 =
        s.desk.setRow (r.resolve .completed audit) := by
      simp [Desk.answer, WithdrawalDesk.resolve, hr, hpending]
    have hself : (s.desk.setRow (r.resolve .completed audit)).rows id = some (r.resolve .completed audit) := by
      rw [Custody.rows_setRow]
      exact if_pos (h.numbered id r hr).1.symm
    have hclaiming : Claiming s ((Till.desk true (.setStatusIfPending id .completed audit)).answer reply k s).2 k id
        r (r.resolve .completed audit) := by
      refine ⟨hages, hr, hpending, ?_, rfl, ?_, ?_, ?_, ?_⟩
      · show ((Desk.setStatusIfPending id .completed audit).answer reply.toDeskReply s.desk).2.rows id = _
        rw [hdesk]
        exact hself
      · simp [WithdrawalRecord.resolve, WithdrawalRecord.stamp, haudit, h.fresh id r hr hpending]
      · simp only [Till.answer, WithdrawServer.stamped, hclaim, hdesk, hr, hself]
        rw [if_pos]
        rw [hpending]
        exact WithdrawalStatus.noConfusion
      · show (s.claim k true (.setStatusIfPending id .completed audit)).now = s.now
        rw [hclaim]
      · show (s.claim k true (.setStatusIfPending id .completed audit)).claims = _
        rw [hclaim]
    exact hclaiming.ok h hkn hk hrow hid hsince hcleared hothers

/-- A sum that is read is a bound, if what stands is below it. -/
theorem learn_errand (hg : ErrandOK cfg s k op g) {cap : Cap} {r : Except WithdrawalError ℕ}
    (hfresh : g.sums cap = none)
    (hbound : ∀ m x d, r = .ok m → 0 < cfg.cap cap → g.row = some x → g.since = some d →
      (∃ x', s.desk.rows x.id = some x' ∧ x'.status = .pending) → (cap = .user → d ≤ s.createdAt x.id) →
      s.standingSince cap x.userId x.destination d ≤ cap.before m x.amountCents) :
    ErrandOK cfg s k op (g.learn cap r) := by
  refine ⟨hg.row, hg.since, ?_, ?_, hg.claims⟩
  · intro c m x d hcap hsum hrow hsince
    by_cases hc : c = cap
    · subst hc
      have hm : r.toOption = some m := by simpa [Errand.learn] using hsum
      cases r with
      | error e => cases hm
      | ok m' =>
        cases hm
        exact hbound m x d rfl hcap hrow hsince
    · refine hg.sums c m x d hcap ?_ hrow hsince
      rw [← hsum]
      exact (Function.update_of_ne hc _ _).symm
  · intro c hmem
    have hold := hg.missed c hmem
    by_cases hc : c = cap
    · subst hc
      rw [hfresh] at hold
      cases hold
    · rw [← hold]
      exact Function.update_of_ne hc _ _

/-- A failed read of a sum is remembered by the task. -/
theorem miss_errand (hg : ErrandOK cfg s k op g) (cap : Cap) (e : WithdrawalError) (hfresh : g.sums cap = none) :
    ErrandOK cfg { s with failed := s.failed ++ [(k, cap)] } k op (g.learn cap (.error e)) := by
  have hlearned := learn_errand (r := .error e) hg hfresh fun _ _ _ hm => (by cases hm)
  refine ⟨hlearned.row, hlearned.since, hlearned.sums, ?_, hlearned.claims⟩
  intro c hmem
  rcases List.mem_append.mp hmem with hmem | hmem
  · exact hlearned.missed c hmem
  · obtain ⟨-, rfl⟩ : k = k ∧ c = cap := by simpa using hmem
    exact Function.update_self ..

/-- A sum that cannot be read is noted as failed. -/
theorem miss (h : TillOK cfg s n know) (hkn : k < n) (hk : know k = some (op, g)) (cap : Cap) (e : WithdrawalError)
    (hclaimed : g.claimed = false) (hfresh : g.sums cap = none) :
    TillOK cfg { s with failed := s.failed ++ [(k, cap)] } n
      (Function.update know k (some (op, g.learn cap (.error e)))) := by
  have hg := h.errand k op g hk
  refine ⟨h.numbered, h.fresh, h.claimed, h.caps, ?_, ?_, ?_⟩
  · intro j c hmem
    rcases List.mem_append.mp hmem with hmem | hmem
    · exact h.missed j c hmem
    · obtain ⟨rfl, -⟩ : j = k ∧ c = cap := by simpa using hmem
      exact hkn
  · intro id c hc cap' hcap hmem
    rcases List.mem_append.mp hmem with hmem | hmem
    · exact h.routed id c hc cap' hcap hmem
    · obtain ⟨htask, -⟩ : c.task = k ∧ cap' = cap := by simpa using hmem
      have htrue := hg.claims id c hc htask
      rw [hclaimed] at htrue
      cases htrue
  · intro j op' g' hj
    by_cases hjk : j = k
    · subst hjk
      rw [Function.update_self] at hj
      cases hj
      exact miss_errand hg cap e hfresh
    · rw [Function.update_of_ne hjk] at hj
      have hg' := h.errand j op' g' hj
      refine ⟨hg'.row, hg'.since, hg'.sums, fun c hmem => ?_, hg'.claims⟩
      rcases List.mem_append.mp hmem with hmem | hmem
      · exact hg'.missed c hmem
      · obtain ⟨rfl, -⟩ : j = k ∧ c = cap := by simpa using hmem
        exact absurd rfl hjk

/-! What the sums say of what stands. -/

/-- The user's own cap held when the payout was decided. -/
theorem standingSince_user_le (h : TillOK cfg s n know) {x x' : WithdrawalRecord U} {d : ℕ}
    (hx : s.desk.rows x.id = some x') (hmove : RowMove x x') (hpending : x'.status = .pending)
    (hd : d ≤ s.createdAt x.id) :
    s.standingSince .user x.userId x.destination d ≤ s.sumUserSince x.userId d - x.amountCents := by
  have hadd : s.standingSince .user x.userId x.destination d + x'.amountCents ≤ s.sumUserSince x.userId d := by
    refine WithdrawServer.sumRows_add_le h.numbered hx ?_ ?_ ?_
    · rintro ⟨-, c, hc, -⟩
      obtain ⟨-, -, r, hr, hne, -⟩ := h.claimed x.id c hc
      rw [hx] at hr
      cases hr
      exact hne hpending
    · exact ⟨hmove.userId, by rw [hpending]; decide, hd⟩
    · rintro id r hr ⟨hstatus, c, -, hsince, huser⟩
      exact ⟨huser, hstatus, hsince⟩
  rw [hmove.amountCents] at hadd
  omega

/-- What was claimed and not reversed is completed, since the time of its claim. -/
theorem standingSince_paid_le (h : TillOK cfg s n know) (cap : Cap) (hcap : cap ≠ .user) (u : U) (a : String)
    (d : ℕ) (destination : Option String)
    (hdest : ∀ r : WithdrawalRecord U, cap.Concerns u a r → destination = none ∨ destination = some r.destination) :
    s.standingSince cap u a d ≤ s.autoPaidSince d destination := by
  refine WithdrawServer.sumRows_le h.numbered ?_
  rintro id r hr ⟨hstatus, c, hc, hsince, hconcerns⟩
  obtain ⟨-, -, r', hr', hne, hcompleted⟩ := h.claimed id c hc
  rw [hr] at hr'
  cases hr'
  have hcomp : r.status = .completed := by
    cases hs : r.status with
    | pending => exact absurd hs hne
    | completed => rfl
    | rejected => exact absurd hs hstatus
  obtain ⟨hat, hadmin⟩ := hcompleted hcomp
  refine ⟨r, hr, Nat.le_refl _, hcomp, ?_, hadmin, hdest r hconcerns⟩
  rw [hat]
  cases cap with
  | user => exact absurd rfl hcap
  | global => exact hsince
  | destination => exact hsince

/-- The answer to a request for a new row, which the task then knows. -/
theorem hold_errand (hg : ErrandOK cfg s k op g) {r : WithdrawalRecord U} (hop : op.userId = some r.userId)
    (hr : s.desk.rows r.id = some r) (hsums : ∀ cap, g.sums cap = none) :
    ErrandOK cfg s k op { g with row := some r } := by
  refine ⟨?_, hg.since, ?_, hg.missed, hg.claims⟩
  · intro x hx
    cases hx
    exact ⟨hop, r, hr, RowMove.refl r⟩
  · intro cap m x d _ hsum
    rw [hsums cap] at hsum
    cases hsum

/-- A sum of a cap is read, or the read fails. -/
theorem read (h : TillOK cfg s n know) (hkn : k < n) (hk : know k = some (op, g)) {q : RollingSum U} {cap : Cap}
    {since : ℕ} {p : WithdrawalRecord U → Prop} (hmay : Till.mayRead g cap since p)
    (hnext : ∀ r, (Till.sum q).next r g = g.learn cap r) (hhonest : ∀ r, (Till.sum q).Honest r)
    (hstore : ∀ w, ((Till.sum q).answer w k s).2 = s)
    (hmiss : s.miss k (.sum q) = { s with failed := s.failed ++ [(k, cap)] }) (w : TillReply)
    (hbound : ∀ x x', g.row = some x → p x → s.desk.rows x.id = some x' → RowMove x x' → x'.status = .pending →
      (cap = .user → since ≤ s.createdAt x.id) → s.standingSince cap x.userId x.destination since ≤
        cap.before ((Till.sum q).answer w k s).1 x.amountCents) :
    ∃ g', (Till.protocol cfg op).reply (.sum q) (Till.reply w k (.sum q) s).1 g g' ∧
      TillOK cfg (Till.reply w k (.sum q) s).2 n (Function.update know k (some (op, g'))) := by
  obtain ⟨hclaimed, hsince, hfresh, x₀, hrow, hp⟩ := hmay
  have hg := h.errand k op g hk
  have hfail : ∀ e : WithdrawalError, TillOK cfg (s.miss k (.sum q)) n
      (Function.update know k (some (op, (Till.sum q).next (.error e) g))) := by
    intro e
    rw [hmiss, hnext]
    exact h.miss hkn hk cap e hclaimed hfresh
  refine ⟨_, ⟨rfl, hhonest _⟩, ?_⟩
  cases hfault : w.fault with
  | none =>
    simp only [Till.reply, hfault]
    rw [hnext, hstore]
    refine h.learns (learn_errand hg hfresh ?_)
    intro m x d hm _ hx hd hpending hcreated
    have hxx : x = x₀ := Option.some.inj (hx.symm.trans hrow)
    have hdd : d = since := Option.some.inj (hd.symm.trans hsince)
    subst hxx hdd
    obtain ⟨x', hx', hstatus⟩ := hpending
    obtain ⟨-, y, hy, hmove⟩ := hg.row x hx
    rw [hx'] at hy
    cases hy
    cases hm
    exact hbound x x' hx hp hx' hmove hstatus hcreated
  | before =>
    simp only [Till.reply, hfault]
    exact hfail _
  | after =>
    simp only [Till.reply, hfault]
    rw [hstore]
    exact hfail _

/-- **One answer.** -/
theorem answered (h : TillOK cfg s n know) (hkn : k < n) (hk : know k = some (op, g))
    (hothers : ∀ j op' g', j ≠ k → know j = some (op', g') → (withdrawRuntime cfg).linked op' op = true → g' = {})
    (w : TillReply) (q : Till U) (hmay : q.may cfg op g) :
    ∃ g', (Till.protocol cfg op).reply q (Till.reply w k q s).1 g g' ∧
      TillOK cfg (Till.reply w k q s).2 n (Function.update know k (some (op, g'))) := by
  have hg := h.errand k op g hk
  cases q with
  | clock =>
    refine ⟨_, ⟨rfl, trivial⟩, h.learns ?_⟩
    refine ⟨hg.row, ?_, ?_, hg.missed, hg.claims⟩
    · intro d hd
      exact (Option.some.inj hd).ge
    -- the clock is read before any sum
    · intro cap m x d _ hsum
      have hnone := hmay cap
      rw [show g.sums cap = some (some m) from hsum] at hnone
      cases hnone
  | sum q =>
    cases q with
    | sumUserSince u since =>
      refine h.read hkn hk hmay (fun _ => rfl) (fun _ => trivial) (fun _ => rfl) rfl w ?_
      rintro x x' _ rfl hx' hmove hpending hcreated
      exact h.standingSince_user_le hx' hmove hpending (hcreated rfl)
    | autoPaidSince since destination =>
      cases destination with
      | none =>
        refine h.read hkn hk hmay (fun _ => rfl) (fun _ => trivial) (fun _ => rfl) rfl w ?_
        intro x _ _ _ _ _ _ _
        exact h.standingSince_paid_le .global nofun _ _ _ _ fun _ _ => .inl rfl
      | some a =>
        refine h.read hkn hk hmay (fun _ => rfl) (fun _ => trivial) (fun _ => rfl) rfl w ?_
        rintro x _ _ rfl _ _ _ _
        exact h.standingSince_paid_le .destination nofun _ _ _ _ fun _ hr => .inr (congrArg some hr.symm)
    -- what came in by transfer is read and not used
    | transferredInSince u since =>
      refine ⟨_, ⟨rfl, trivial⟩, ?_⟩
      cases hfault : w.fault with
      | none =>
        simp only [Till.reply, hfault]
        exact h.learns hg
      | before =>
        simp only [Till.reply, hfault]
        exact h.learns hg
      | after =>
        simp only [Till.reply, hfault]
        exact h.learns hg
  | desk auto q =>
    have hdesk := h.answer_desk hkn hk hothers hmay w
    cases hfault : w.fault with
    | before =>
      refine ⟨(Till.desk auto q).next (.error .store) g, ?_, ?_⟩
      · simp only [Till.reply, hfault]
        exact ⟨rfl, Till.honest_error auto q _⟩
      · simp only [Till.reply, hfault]
        exact h.learns (touch_errand hg auto q)
    | after =>
      refine ⟨(Till.desk auto q).next (.error .store) g, ?_, ?_⟩
      · simp only [Till.reply, hfault]
        exact ⟨rfl, Till.honest_error auto q _⟩
      · simp only [Till.reply, hfault]
        exact hdesk
    | none =>
      refine ⟨(Till.desk auto q).next (.ok (q.answer w.toDeskReply s.desk).1) g, ?_, ?_⟩
      · simp only [Till.reply, hfault]
        exact ⟨rfl, Till.honest_answer _ _ auto q⟩
      · simp only [Till.reply, hfault]
        -- the row that is held becomes the request's own
        by_cases hhold : ∃ u m d, q = .hold u m d
        · obtain ⟨u, m, d, rfl⟩ := hhold
          obtain ⟨rfl, hop, hsums⟩ := hmay
          cases hanswer : ((Desk.hold u m d).answer w.toDeskReply s.desk).1 with
          | none => exact hdesk
          | some r =>
            obtain ⟨huser, hrow⟩ := Desk.answer_hold hanswer
            have hg' := hdesk.errand k op g (Function.update_self ..)
            have hlearns := hdesk.learns (hold_errand hg' (by rw [hop, huser]) hrow hsums)
            rwa [Function.update_idem] at hlearns
        · rw [Till.next_ok auto q _ g fun u m d heq => hhold ⟨u, m, d, heq⟩]
          exact hdesk

/-- A request enters knowing nothing. -/
theorem opened (h : TillOK cfg s n know) (op : WithdrawCall U) :
    TillOK cfg s (n + 1) (Function.update know n (some (op, {}))) := by
  have hmissed : ∀ k cap, (k, cap) ∈ s.failed → k < n + 1 := fun k cap hmem => (h.missed k cap hmem).trans (Nat.lt_succ_self n)
  have hclaimed : ∀ id c, s.claims id = some c → c.task < n := fun id c hc => (h.claimed id c hc).1
  have hold : TillOK cfg s (n + 1) know := by
    refine { h with claimed := fun id c hc => ?_, missed := hmissed }
    obtain ⟨htask, hrest⟩ := h.claimed id c hc
    exact ⟨htask.trans (Nat.lt_succ_self n), hrest⟩
  refine hold.learns ⟨fun r hr => ?_, fun d hd => ?_, fun cap m r d _ hsum => ?_, fun cap hmem => ?_, fun id c hc htask => ?_⟩
  · cases hr
  · cases hd
  · cases hsum
  · exact absurd (h.missed n cap hmem) (Nat.lt_irrefl n)
  · exact absurd (htask ▸ hclaimed id c hc) (Nat.lt_irrefl n)

/-- What an ended request knew is dropped. -/
theorem closed (h : TillOK cfg s n know) (k : ℕ) : TillOK cfg s n (Function.update know k none) := by
  refine { h with errand := fun j op g hj => ?_ }
  by_cases hjk : j = k
  · subst hjk
    rw [Function.update_self] at hj
    cases hj
  · rw [Function.update_of_ne hjk] at hj
    exact h.errand j op g hj

/-- Time passes. -/
theorem drifted (h : TillOK cfg s n know) (ms : ℕ) : TillOK cfg { s with now := s.now + ms } n know := by
  have hages : Ages s { s with now := s.now + ms } :=
    ⟨Moves.of_rows rfl rfl, fun _ _ _ => rfl, fun _ _ _ _ _ _ => rfl, Nat.le_add_right _ _, rfl⟩
  exact hages.ok h rfl

end TillOK

/-- The server's operations, what they know and the invariant. -/
theorem till_rules (cfg : AutoWithdraw) :
    Runtime.Rules (withdrawRuntime (U := U) cfg) (Till.protocol cfg) (fun _ _ => {}) (fun _ _ _ => True)
      (fun _ _ _ => True) (TillOK cfg) (fun _ _ _ => True) where
  conforms _ := WithdrawCall.conforms cfg
  opened op h _ := h.opened op
  closed h _ _ := h.closed _
  answered w q h hkn hk hothers hmay := by
    refine h.answered hkn hk (fun j op' g' hjk hj hlink => ?_) w q hmay
    obtain ⟨-, -, hg'⟩ := hothers j op' g' hjk hj hlink
    exact hg'
  drifted d h := h.drifted d
  returned _ _ _ _ := trivial
  lasts_answer _ _ _ _ _ _ _ _ := trivial
  lasts_drift _ _ _ _ := trivial

/-- A server starts with the invariant. -/
theorem till_boot (cfg : AutoWithdraw) : TillOK cfg ({} : WithdrawServer U) 0 fun _ => none := by
  refine ⟨fun id r hr => ?_, fun id r hr => ?_, fun id c hc => ?_, fun cap _ u a t => ?_, fun k cap hmem => ?_,
    fun id c hc => ?_, fun k op g hk => ?_⟩
  · cases hr
  · cases hr
  · cases hc
  · exact Nat.zero_le _
  · exact absurd hmem List.not_mem_nil
  · cases hc
  · cases hk

/-! ## The caps -/

/-- What the caps promise of a server: in no 24 hours is more paid automatically than the
global cap allows, nor to one destination than its cap allows, nor of what a user asked for
in them than the daily cap allows; and no withdrawal of a request that could not read the sum
of a cap is paid automatically. -/
structure AutoCaps (cfg : AutoWithdraw) (s : WithdrawServer U) : Prop where
  global : 0 < cfg.globalAutoWithdrawCapCents → ∀ t,
    s.standing (fun _ claimed _ => t ≤ claimed ∧ claimed ≤ t + dayMs) ≤ cfg.globalAutoWithdrawCapCents
  destination : 0 < cfg.destAutoWithdrawCapCents → ∀ t a,
    s.standing (fun _ claimed r => t ≤ claimed ∧ claimed ≤ t + dayMs ∧ r.destination = a) ≤
      cfg.destAutoWithdrawCapCents
  user : 0 < cfg.dailyAutoWithdrawCapCents → ∀ t u,
    s.standing (fun created claimed r => t ≤ created ∧ claimed ≤ t + dayMs ∧ r.userId = u) ≤
      cfg.dailyAutoWithdrawCapCents
  failed : ∀ id c, s.claims id = some c → ∀ cap, 0 < cfg.cap cap → (c.task, cap) ∉ s.failed

/-- The invariant gives the caps. -/
theorem TillOK.autoCaps {cfg : AutoWithdraw} {s : WithdrawServer U} {n : ℕ}
    {know : ℕ → Option (WithdrawCall U × Errand U)} (h : TillOK cfg s n know) : AutoCaps cfg s where
  global hcap t := by
    rcases isEmpty_or_nonempty U with hU | ⟨⟨u⟩⟩
    · rw [WithdrawServer.standing_of_isEmpty]
      exact Nat.zero_le _
    · refine le_trans ?_ (h.caps .global hcap u "" t)
      exact WithdrawServer.standing_mono h.numbered fun id r c _ _ hp => ⟨hp.1, hp.2, trivial⟩
  destination hcap t a := by
    rcases isEmpty_or_nonempty U with hU | ⟨⟨u⟩⟩
    · rw [WithdrawServer.standing_of_isEmpty]
      exact Nat.zero_le _
    · exact h.caps .destination hcap u a t
  user hcap t u := h.caps .user hcap u "" t
  failed := h.routed

/-- **The caps hold**, over all interleavings of the server's operations, with every outcome
of the provider and any call failing. -/
theorem autoPayout_caps (cfg : AutoWithdraw) (es : List (PoolEvent (WithdrawCall U) TillReply ℕ)) :
    AutoCaps cfg (run (withdrawRuntime cfg).step { store := {} } es).store := by
  obtain ⟨n, know, h⟩ := (till_rules cfg).inv (till_boot cfg) es
  exact h.autoCaps

end Invariant

/-! ### What the caps do not promise -/

namespace WithdrawServer

/-- The withdrawal was claimed in the 24 hours from `t` on, whatever became of it. -/
def ClaimedIn (s : WithdrawServer U) (t id : ℕ) : Prop := ∃ c ∈ s.claims id, t ≤ c.time ∧ c.time ≤ t + dayMs

instance (s : WithdrawServer U) (t id : ℕ) : Decidable (s.ClaimedIn t id) :=
  inferInstanceAs (Decidable (∃ c ∈ s.claims id, _))

end WithdrawServer

/-- Every claim counts, a user's rows by when they were claimed, and every failed read. -/
structure CapsOnClaims [DecidableEq U] (cfg : AutoWithdraw) (s : WithdrawServer U) : Prop where
  global : 0 < cfg.globalAutoWithdrawCapCents → ∀ t,
    s.sumRows (fun id _ => s.ClaimedIn t id) ≤ cfg.globalAutoWithdrawCapCents
  destination : 0 < cfg.destAutoWithdrawCapCents → ∀ t a,
    s.sumRows (fun id r => s.ClaimedIn t id ∧ r.destination = a) ≤ cfg.destAutoWithdrawCapCents
  user : 0 < cfg.dailyAutoWithdrawCapCents → ∀ t u,
    s.sumRows (fun id r => s.ClaimedIn t id ∧ r.userId = u ∧ r.status ≠ .rejected) ≤
      cfg.dailyAutoWithdrawCapCents
  failed : ∀ id c, s.claims id = some c → ∀ cap, (c.task, cap) ∉ s.failed

/-- A request of 10 dollars, and the answers its task gets. -/
def tenDollars (task : ℕ) (replies : List TillReply) : List (PoolEvent (WithdrawCall ℕ) TillReply ℕ) :=
  .start (.withdraw 0 1000 "TJRabPrwbZy45sbavfcjinPJC18kjpRTv8" false) :: replies.map (.execute task)

/-- Payouts of at most ten dollars, with a daily and a global cap. -/
def tenDollarCaps (daily global : ℕ) : AutoWithdraw where
  setup := { uow := true, isValidTronAddress := fun _ => true }
  autoWithdrawMaxCents := 1000
  dailyAutoWithdrawCapCents := daily
  globalAutoWithdrawCapCents := global

/-- The server after some events. -/
def tenDollarServer (cfg : AutoWithdraw) (es : List (PoolEvent (WithdrawCall ℕ) TillReply ℕ)) : WithdrawServer ℕ :=
  (run (withdrawRuntime cfg).step { store := {} } es).store

/-- A send that failed is reversed and no longer counts; the user's sum goes by when a row was
created, so a row created long before its claim is missed; and with no daily cap a failed
read of the user's sum decides nothing. -/
theorem caps_on_every_claim_exceeded :
    ¬ CapsOnClaims (tenDollarCaps 0 1000) (tenDollarServer (tenDollarCaps 0 1000)
      (tenDollars 0 (List.replicate 12 { payout := { ok := false } }) ++ tenDollars 1 (List.replicate 7 {}))) ∧
    ¬ CapsOnClaims (tenDollarCaps 1000 0) (tenDollarServer (tenDollarCaps 1000 0)
      (tenDollars 0 [{}] ++ .drift 10 :: List.replicate 9 (.execute 0 {}) ++
        .drift (dayMs - 5) :: tenDollars 1 (List.replicate 6 {}))) ∧
    ¬ CapsOnClaims (tenDollarCaps 0 0) (tenDollarServer (tenDollarCaps 0 0)
      (tenDollars 0 ({} :: {} :: { fault := .before } :: List.replicate 3 {}))) := by
  refine ⟨fun h => ?_, fun h => ?_, fun h => ?_⟩
  · have hle := h.global (by decide) 0
    revert hle
    decide +kernel
  · have hle := h.user (by decide) 10 0
    revert hle
    decide +kernel
  · have hnot := h.failed 0 ⟨0, 0⟩ (by decide +kernel) .user
    revert hnot
    decide +kernel

end Murlan
