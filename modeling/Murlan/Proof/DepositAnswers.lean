import Murlan.Proof.Deposits

/-!
# The deposits of a user and what an answer leaves of them

`DepositsOK`: a user's deposits in the ledger and what is known of the calls. A row that is not
committed belongs to an unfinished call, and a deposit in some phase has a row in the same phase.
`booked_le_cap`: the row of a deposit that was judged still fits, also when midnight has passed, for
then it is the first of its day. `DepositsOK.answered_deposit`, `DepositsOK.answered_beside`: every
answer keeps the invariant, as long as the other deposits of the user have not begun.
-/

namespace Murlan

/-! ## The invariant -/

section Invariant

variable {U M : Type} [DecidableEq U] [DecidableEq M]

omit [DecidableEq U] in
/-- The reference is on a committed row. -/
def Vault.booked (s : Vault U M) (ref : ProviderRef M) : Bool :=
  s.rows.any fun r => r.committed && decide (r.tx.providerRef = some ref)

/-- What the phase of a deposit says of the ledger. -/
def CappedDeposit.Holds (u : U) (s : Vault U M) (k : ℕ) (d : CappedDeposit M) (since : ℕ) : DepositPhase → Prop
  | .begun | .closed => True
  | .unbooked => since ≤ s.asked k ∧ s.asked k ≤ s.now ∧ ∀ r ∈ s.deposits u, r.createdAt ≤ s.asked k
  | .found => s.booked d.providerRef = true
  | .judged ms => ms ≤ s.now ∧ (∀ r ∈ s.deposits u, r.createdAt ≤ ms) ∧
      s.bookedOn u (ResponsibleGaming.dayIndex ms) + d.amountCents ≤ d.depositCapCents
  | .refused ms => since ≤ ms ∧ ms ≤ s.now ∧ (∀ r ∈ s.deposits u, r.committed = true) ∧
      d.depositCapCents < s.bookedOn u (ResponsibleGaming.dayIndex ms) + d.amountCents
  | .booked ms => s.bookedOn u (ResponsibleGaming.dayIndex ms) ≤ d.depositCapCents
  | .credited ms => s.bookedOn u (ResponsibleGaming.dayIndex ms) ≤ d.depositCapCents ∧
      ∀ r ∈ s.deposits u, r.task = some k → r.credited = true

namespace DepositorOp

variable {u : U}

omit [DecidableEq U] [DecidableEq M] in
/-- The reference of a deposit. -/
def ref : DepositorOp M u → Option (ProviderRef M)
  | .deposit d => some d.providerRef
  | .beside _ _ => none

omit [DecidableEq U] [DecidableEq M] in
/-- A deposit's protocol; another call asks nothing that concerns the user's deposits. -/
def protocol (uow : Bool) : DepositorOp M u → Async.Protocol (WalletQuery U M) WalletQuery.Answer (ServiceError U) DepositSeen
  | .deposit d => d.protocol uow u
  | .beside _ _ => { may := fun q _ => WalletOp.Harmless u q, reply := fun _ _ g g' => g' = g }

omit [DecidableEq U] [DecidableEq M] in
/-- What holds when the call returns. -/
def Returns (uow : Bool) : DepositorOp M u → MoveResult U M → DepositSeen → Prop
  | .deposit _, r, g => CappedDeposit.Credits r g ∧ CappedDeposit.Free uow g
  | .beside _ _, _, _ => True

omit [DecidableEq U] [DecidableEq M] in
/-- What holds when the call throws. -/
def Throws (uow : Bool) : DepositorOp M u → ServiceError U → DepositSeen → Prop
  | .deposit d, e, g => CappedDeposit.Blames uow d e g ∧ CappedDeposit.Free uow g
  | .beside _ _, _, _ => True

omit [DecidableEq U] in
/-- What is so when the call starts. -/
def init (s : Vault U M) (op : DepositorOp M u) : DepositSeen :=
  { since := s.now, replay := op.ref.any s.booked, account := (s.balance u).isSome }

/-- What the phase of a call says of the ledger. -/
def PhaseOK (s : Vault U M) (k : ℕ) : DepositorOp M u → DepositSeen → Prop
  | .beside _ _, g => g.phase = .begun
  | .deposit d, g => d.Holds u s k g.since g.phase

/-- What the call has seen is still so. -/
structure Known (s : Vault U M) (k : ℕ) (op : DepositorOp M u) (g : DepositSeen) : Prop where
  since : g.since ≤ s.now
  account : g.account = true → (s.balance u).isSome
  replay : g.replay = true → ∀ ref, op.ref = some ref → s.booked ref = true
  phase : op.PhaseOK s k g

omit [DecidableEq M] in
/-- A row of an unfinished call: a deposit is in the phase of its row, another call has no deposit of the user. -/
def Owns : DepositorOp M u → DepositSeen → LedgerRow U M → Prop
  | .deposit _, g, r => r.isDepositOf u = true ∧ (g.phase = .booked r.createdAt ∨ g.phase = .credited r.createdAt ∨
      (g.phase = .closed ∧ r.committed = true ∧ r.credited = true))
  | .beside _ _, _, r => r.isDepositOf u = false

end DepositorOp

omit [DecidableEq M] in
/-- A deposit owns its row from the phase that writes it. -/
theorem DepositorOp.Owns.phase {u : U} {d : CappedDeposit M} {g : DepositSeen} {r : LedgerRow U M}
    (h : (DepositorOp.deposit (u := u) d).Owns g r) : g.phase.rowless = false := by
  obtain ⟨-, hp | hp | ⟨hp, -⟩⟩ := h
  · rw [hp]
    rfl
  · rw [hp]
    rfl
  · rw [hp]
    rfl

omit [DecidableEq M] in
/-- The time of a row of a deposit that has not ended. -/
theorem DepositorOp.Owns.time {u : U} {d : CappedDeposit M} {g : DepositSeen} {r : LedgerRow U M} {ms : ℕ}
    (h : (DepositorOp.deposit (u := u) d).Owns g r) (hphase : g.phase = .booked ms ∨ g.phase = .credited ms) :
    r.createdAt = ms := by
  obtain ⟨-, hp | hp | ⟨hp, -⟩⟩ := h
  · rcases hphase with hp' | hp'
    · rw [hp] at hp'
      cases hp'
      rfl
    · rw [hp] at hp'
      cases hp'
  · rcases hphase with hp' | hp'
    · rw [hp] at hp'
      cases hp'
    · rw [hp] at hp'
      cases hp'
      rfl
  · rcases hphase with hp' | hp'
    · rw [hp] at hp'
      cases hp'
    · rw [hp] at hp'
      cases hp'

/-- The user's deposits: none is younger than the clock or negative; with a unit of work a committed one is credited,
and one that is not committed belongs to an unfinished call. -/
structure DepositsOK (uow : Bool) (u : U) (s : Vault U M) (n : ℕ) (know : ℕ → Option (DepositorOp M u × DepositSeen)) :
    Prop where
  times : ∀ r ∈ s.deposits u, r.createdAt ≤ s.now
  gains : ∀ r ∈ s.deposits u, 0 ≤ r.tx.amountCents
  direct : uow = false → ∀ r ∈ s.rows, r.committed = true
  settled : uow = true → ∀ r ∈ s.deposits u, r.committed = true → r.credited = true
  pending : ∀ r ∈ s.deposits u, r.committed = false → ∃ k op g, r.task = some k ∧ know k = some (op, g)
  owned : ∀ r ∈ s.rows, ∀ k, r.task = some k → k < n ∧ ∀ op g, know k = some (op, g) → op.Owns g r
  known : ∀ k op g, know k = some (op, g) → op.Known s k g

variable {uow : Bool} {u : U} {s s' : Vault U M} {n k : ℕ} {know : ℕ → Option (DepositorOp M u × DepositSeen)}
  {op : DepositorOp M u} {g g' : DepositSeen}

omit [DecidableEq U] in
/-- What is booked stays booked. -/
theorem Vault.Goes.booked (h : Vault.Goes k s s') {ref : ProviderRef M} (href : s.booked ref = true) :
    s'.booked ref = true := by
  obtain ⟨r, hr, hr'⟩ := List.any_eq_true.mp href
  simp only [Bool.and_eq_true, decide_eq_true_eq] at hr'
  obtain ⟨r', hmem, hlater⟩ := h.stays r hr hr'.1
  refine List.any_eq_true.mpr ⟨r', hmem, ?_⟩
  simp only [Bool.and_eq_true, decide_eq_true_eq]
  exact ⟨hlater.committed hr'.1, by rw [hlater.tx]; exact hr'.2⟩

/-- What an answer must leave for the invariant to go on: the rows of the call, and what is known of it. -/
theorem DepositsOK.answer (h : DepositsOK uow u s n know) (hlt : k < n) (hk : know k = some (op, g)) (w : Fault)
    {q : WalletQuery U M} (hgain : ∀ tx, q.row = some tx → ¬ WalletOp.Elsewhere u tx → 0 ≤ tx.amountCents)
    (hothers : ∀ j op' g', j ≠ k → know j = some (op', g') → op'.PhaseOK (s.answer uow w k q).2 j g')
    (howns : ∀ r ∈ (s.answer uow w k q).2.rows, r.task = some k → op.Owns g' r)
    (hsettled : uow = true → ∀ r ∈ (s.answer uow w k q).2.deposits u, r.task = some k → r.committed = true → r.credited = true)
    (hsame : g'.since = g.since ∧ g'.replay = g.replay ∧ g'.account = g.account)
    (hphase : op.PhaseOK (s.answer uow w k q).2 k g') :
    DepositsOK uow u (s.answer uow w k q).2 n (Function.update know k (some (op, g'))) := by
  have hgoes := s.answer_goes uow w k q
  have hcomes := s.answer_comes uow w k q
  -- what a call has seen is about rows that only move forward, so an answer keeps it
  have hknown : ∀ j op' g₀, know j = some (op', g₀) → ∀ g₁ : DepositSeen,
      g₁.since = g₀.since ∧ g₁.replay = g₀.replay ∧ g₁.account = g₀.account →
      op'.PhaseOK (s.answer uow w k q).2 j g₁ → op'.Known (s.answer uow w k q).2 j g₁ := by
    intro j op' g₀ hj g₁ hg hphase'
    have hold := h.known j op' g₀ hj
    refine ⟨?_, fun haccount => ?_, fun hreplay ref href => ?_, hphase'⟩
    · rw [hgoes.now, hg.1]
      exact hold.since
    · exact hgoes.account u (hold.account (by rw [← hg.2.2]; exact haccount))
    · exact hgoes.booked (hold.replay (by rw [← hg.2.1]; exact hreplay) ref href)
  refine ⟨?_, ?_, ?_, ?_, ?_, ?_, ?_⟩
  -- the rows' times: a new row carries the current one
  · intro r' hr'
    obtain ⟨hmem, hdep⟩ := Vault.mem_deposits.mp hr'
    rw [hgoes.now]
    rcases hcomes r' hmem with ⟨r, hr, hlater⟩ | ⟨tx, -, rfl⟩
    · rw [hlater.createdAt]
      exact h.times r (Vault.mem_deposits.mpr ⟨hr, hlater.deposit ▸ hdep⟩)
    · exact Nat.le_refl _
  · intro r' hr'
    obtain ⟨hmem, hdep⟩ := Vault.mem_deposits.mp hr'
    rcases hcomes r' hmem with ⟨r, hr, hlater⟩ | ⟨tx, htx, rfl⟩
    · rw [hlater.tx]
      exact h.gains r (Vault.mem_deposits.mpr ⟨hr, hlater.deposit ▸ hdep⟩)
    · refine hgain tx htx fun helse => ?_
      obtain ⟨haccount, htype⟩ := LedgerRow.isDepositOf_iff.mp hdep
      exact helse haccount htype
  · intro hdirect r' hr'
    rcases hcomes r' hr' with ⟨r, hr, hlater⟩ | ⟨tx, -, rfl⟩
    · exact hlater.committed (h.direct hdirect r hr)
    · simp [Vault.newRow, hdirect]
  -- in a unit of work a committed row's credit has taken effect; only `k`'s rows move
  · intro huow r' hr' hcommitted
    obtain ⟨hmem, hdep⟩ := Vault.mem_deposits.mp hr'
    rcases hcomes r' hmem with ⟨r, hr, hlater⟩ | ⟨tx, -, rfl⟩
    · by_cases htask : r.task = some k
      · exact hsettled huow r' hr' (hlater.task.trans htask) hcommitted
      · rw [hlater.other htask] at hcommitted ⊢
        exact h.settled huow r (Vault.mem_deposits.mpr ⟨hr, hlater.deposit ▸ hdep⟩) hcommitted
    · simp [Vault.newRow, huow] at hcommitted
  -- an uncommitted row still has its call
  · intro r' hr' hopen
    obtain ⟨hmem, hdep⟩ := Vault.mem_deposits.mp hr'
    have hstill : ∀ j x, know j = some x → ∃ y, Function.update know k (some (op, g')) j = some y := by
      intro j x hj
      by_cases hjk : j = k
      · subst hjk
        exact ⟨_, Function.update_self ..⟩
      · exact ⟨x, by rw [Function.update_of_ne hjk]; exact hj⟩
    rcases hcomes r' hmem with ⟨r, hr, hlater⟩ | ⟨tx, -, rfl⟩
    · have hopen' : r.committed = false := by
        by_contra hcommitted
        rw [hlater.committed (by simpa using hcommitted)] at hopen
        cases hopen
      obtain ⟨j, op', g₀, htask, hj⟩ := h.pending r (Vault.mem_deposits.mpr ⟨hr, hlater.deposit ▸ hdep⟩) hopen'
      obtain ⟨⟨op₁, g₁⟩, hy⟩ := hstill j _ hj
      exact ⟨j, op₁, g₁, hlater.task.trans htask, hy⟩
    · exact ⟨k, op, g', rfl, Function.update_self ..⟩
  -- each call owns its rows: `k` by the hypothesis, another's are untouched
  · intro r' hr' j htask
    by_cases hjk : j = k
    · subst hjk
      refine ⟨hlt, fun op' g₁ hj => ?_⟩
      rw [Function.update_self] at hj
      cases hj
      exact howns r' hr' htask
    · rw [Function.update_of_ne hjk]
      rcases hcomes r' hr' with ⟨r, hr, hlater⟩ | ⟨tx, -, rfl⟩
      · have htask' : r.task = some j := hlater.task.symm.trans htask
        rw [hlater.other fun hrk => hjk (Option.some.inj (htask'.symm.trans hrk))]
        exact h.owned r hr j htask'
      · exact absurd (Option.some.inj htask).symm hjk
  · intro j op' g₁ hj
    by_cases hjk : j = k
    · subst hjk
      rw [Function.update_self] at hj
      cases hj
      exact hknown j op g hk g' hsame hphase
    · rw [Function.update_of_ne hjk] at hj
      exact hknown j op' g₁ hj g₁ ⟨rfl, rfl, rfl⟩ (hothers j op' g₁ hjk hj)

/-- A call that has no deposit of the user, and inserts none, leaves them all as they are. -/
theorem answer_deposits (uow : Bool) (w : Fault) {q : WalletQuery U M} (hq : WalletOp.Harmless u q)
    (hown : ∀ r ∈ s.deposits u, r.task ≠ some k) : (s.answer uow w k q).2.deposits u = s.deposits u := by
  rcases s.answer_rows uow w k q with hrows | ⟨tx, htx, hrows⟩ | ⟨-, hrows⟩ | ⟨-, hrows⟩ | ⟨-, hrows⟩
  · unfold Vault.deposits
    rw [hrows]
  · have hnot : (s.newRow uow k tx).isDepositOf u = false := by
      by_contra hdep
      obtain ⟨haccount, htype⟩ := LedgerRow.isDepositOf_iff.mp (by simpa using hdep)
      exact hq tx htx haccount htype
    unfold Vault.deposits
    rw [hrows, List.filter_append]
    simp [hnot]
  · exact Vault.deposits_map_self (.mark k) hrows hown
  · exact Vault.deposits_map_self (.commit k) hrows hown
  · unfold Vault.deposits
    rw [hrows]
    show ((s.rows.filter fun r => r.committed || decide (r.task ≠ some k)).filter fun r => r.isDepositOf u) = _
    rw [List.filter_filter]
    refine List.filter_congr fun r hr => ?_
    by_cases hdep : r.isDepositOf u = true
    · simp [hdep, hown r (Vault.mem_deposits.mpr ⟨hr, hdep⟩)]
    · simp [hdep]

/-- What a deposit holds depends on four parts of the vault. -/
theorem CappedDeposit.Holds.congr {d : CappedDeposit M} {since : ℕ} {p : DepositPhase} (h : d.Holds u s k since p)
    (hdeposits : s'.deposits u = s.deposits u) (hnow : s'.now = s.now) (hasked : s'.asked k = s.asked k)
    (hbooked : ∀ ref, s.booked ref = true → s'.booked ref = true) : d.Holds u s' k since p := by
  have hsum : ∀ day, s'.bookedOn u day = s.bookedOn u day := by
    intro day
    unfold Vault.bookedOn
    rw [hdeposits]
  cases p with
  | begun => trivial
  | closed => trivial
  | found => exact hbooked _ h
  | _ =>
    simp only [CappedDeposit.Holds, hdeposits, hnow, hasked, hsum] at h ⊢
    exact h

theorem DepositorOp.PhaseOK.congr (h : op.PhaseOK s k g) (hdeposits : s'.deposits u = s.deposits u) (hnow : s'.now = s.now)
    (hasked : s'.asked k = s.asked k) (hbooked : ∀ ref, s.booked ref = true → s'.booked ref = true) :
    op.PhaseOK s' k g := by
  cases op with
  | beside op hop => exact h
  | deposit d => exact CappedDeposit.Holds.congr h hdeposits hnow hasked hbooked

theorem DepositorOp.PhaseOK.of_begun (h : g.phase = .begun) : op.PhaseOK s k g := by
  cases op with
  | beside op hop => exact h
  | deposit d =>
    show d.Holds u s k g.since g.phase
    rw [h]
    trivial

/-- **A call beside the deposits** keeps the invariant. -/
theorem DepositsOK.answered_beside {o : WalletOp U M} {ho : o.Beside u} (h : DepositsOK uow u s n know) (hlt : k < n)
    (hk : know k = some (.beside o ho, g)) (w : Fault) {q : WalletQuery U M} (hq : WalletOp.Harmless u q) :
    DepositsOK uow u (s.answer uow w k q).2 n (Function.update know k (some (.beside o ho, g))) := by
  have hgoes := s.answer_goes uow w k q
  have hown : ∀ r ∈ s.rows, r.task = some k → r.isDepositOf u = false :=
    fun r hr htask => (h.owned r hr k htask).2 _ _ hk
  have hdeposits := answer_deposits uow w hq fun r hr htask => by
    obtain ⟨hmem, hdep⟩ := Vault.mem_deposits.mp hr
    rw [hown r hmem htask] at hdep
    cases hdep
  have hown' : ∀ r ∈ (s.answer uow w k q).2.rows, r.task = some k → r.isDepositOf u = false := by
    intro r' hr' htask
    rcases s.answer_comes uow w k q r' hr' with ⟨r, hr, hlater⟩ | ⟨tx, htx, rfl⟩
    · rw [hlater.deposit]
      exact hown r hr (hlater.task.symm.trans htask)
    · by_contra hdep
      obtain ⟨haccount, htype⟩ := LedgerRow.isDepositOf_iff.mp (by simpa using hdep)
      exact hq tx htx haccount htype
  refine h.answer hlt hk w (fun tx htx helse => absurd (hq tx htx) helse) ?_ hown' ?_ ⟨rfl, rfl, rfl⟩ (h.known k _ g hk).phase
  · intro j op' g' hjk hj
    exact (h.known j op' g' hj).phase.congr hdeposits hgoes.now (hgoes.asked j hjk) fun ref => hgoes.booked
  · intro _ r hr htask
    obtain ⟨hmem, hdep⟩ := Vault.mem_deposits.mp hr
    rw [hown' r hmem htask] at hdep
    cases hdep

section Deposit

variable {d : CappedDeposit M}

omit [DecidableEq U] [DecidableEq M] in
/-- A deposit writes no negative row. -/
theorem CappedDeposit.May.gain {q : WalletQuery U M} (h : d.May uow u g q) {tx : Transaction U M} (htx : q.row = some tx) :
    0 ≤ tx.amountCents := by
  cases q with
  | commit => cases htx
  | rollback => cases htx
  | statement q =>
    cases q with
    | append tx => exact h.elim
    | appendIdempotent ref tx =>
      obtain ⟨-, rfl, hpos, -⟩ := h
      cases htx
      exact hpos.le
    | _ => cases htx

omit [DecidableEq U] [DecidableEq M] in
/-- The row is inserted once. -/
theorem CappedDeposit.May.rowless {ref : ProviderRef M} {tx : Transaction U M}
    (h : d.May uow u g (.statement (.appendIdempotent ref tx))) : g.phase.rowless = true := by
  obtain ⟨-, -, -, hp | ⟨ms, hp⟩⟩ := h
  · rw [hp]
    rfl
  · rw [hp]
    rfl

/-- The deposits are the same and the statement is sent now: what the phase says still holds. -/
theorem CappedDeposit.Holds.sent (h : DepositsOK uow u s n know) (hk : know k = some (.deposit d, g))
    (hdeposits : s'.deposits u = s.deposits u) (hgoes : Vault.Goes k s s') (hasked : s'.asked k = s.now) :
    d.Holds u s' k g.since g.phase := by
  have hold := h.known k _ g hk
  have hphase : d.Holds u s k g.since g.phase := hold.phase
  have hsum : ∀ day, s'.bookedOn u day = s.bookedOn u day := by
    intro day
    unfold Vault.bookedOn
    rw [hdeposits]
  cases hp : g.phase with
  | begun => trivial
  | closed => trivial
  | unbooked =>
    show g.since ≤ s'.asked k ∧ s'.asked k ≤ s'.now ∧ ∀ r ∈ s'.deposits u, r.createdAt ≤ s'.asked k
    rw [hasked, hgoes.now, hdeposits]
    exact ⟨hold.since, Nat.le_refl _, h.times⟩
  | found =>
    rw [hp] at hphase
    exact hgoes.booked hphase
  | _ =>
    rw [hp] at hphase
    simp only [CappedDeposit.Holds, hdeposits, hgoes.now, hsum] at hphase ⊢
    exact hphase

/-- The rows stay as they are. -/
theorem DepositsOK.unchanged (h : DepositsOK uow u s n know) (hlt : k < n) (hk : know k = some (.deposit d, g))
    (hothers : ∀ j op' g', j ≠ k → know j = some (op', g') → g'.phase = .begun) (w : Fault) {q : WalletQuery U M}
    (hmay : d.May uow u g q) (hrows : (s.answer uow w k q).2.rows = s.rows)
    (hown : ∀ r, (DepositorOp.deposit (u := u) d).Owns g r → (DepositorOp.deposit (u := u) d).Owns g' r)
    (hsame : g'.since = g.since ∧ g'.replay = g.replay ∧ g'.account = g.account)
    (hphase : d.Holds u (s.answer uow w k q).2 k g'.since g'.phase) :
    DepositsOK uow u (s.answer uow w k q).2 n (Function.update know k (some (.deposit d, g'))) := by
  refine h.answer hlt hk w (fun tx htx _ => hmay.gain htx) (fun j op' g₁ hjk hj => .of_begun (hothers j op' g₁ hjk hj)) ?_ ?_
    hsame hphase
  · intro r hr htask
    rw [hrows] at hr
    exact hown r ((h.owned r hr k htask).2 _ _ hk)
  · intro huow r hr _ hcommitted
    unfold Vault.deposits at hr
    rw [hrows] at hr
    exact h.settled huow r hr hcommitted

/-- A statement that fails without effect. -/
theorem DepositsOK.failed (h : DepositsOK uow u s n know) (hlt : k < n) (hk : know k = some (.deposit d, g))
    (hothers : ∀ j op' g', j ≠ k → know j = some (op', g') → g'.phase = .begun) (w : Fault) {q : Statement U M}
    (hmay : d.May uow u g (.statement q)) (hrows : (s.answer uow w k (.statement q)).2.rows = s.rows) :
    DepositsOK uow u (s.answer uow w k (.statement q)).2 n (Function.update know k (some (.deposit d, g))) := by
  refine h.unchanged hlt hk hothers w hmay hrows (fun _ hr => hr) ⟨rfl, rfl, rfl⟩ ?_
  refine .sent h hk ?_ (s.answer_goes uow w k _) (s.answer_asked uow w k q)
  unfold Vault.deposits
  rw [hrows]

/-- What is left of an answer to a deposit: what it has learnt, and the invariant. -/
def DepositAnswered (uow : Bool) (d : CappedDeposit M) (g : DepositSeen) (s : Vault U M) (n k : ℕ)
    (know : ℕ → Option (DepositorOp M u × DepositSeen)) (w : Fault) (q : WalletQuery U M) : Prop :=
  ∃ g', (Fails uow (s.answer uow w k q).1 g ∧ d.Learns g g' q (s.answer uow w k q).1) ∧
    DepositsOK uow u (s.answer uow w k q).2 n (Function.update know k (some (.deposit d, g')))

omit [DecidableEq U] [DecidableEq M] in
theorem fails_ok {α : Type} (a : α) : Fails uow (.ok a : Except (ServiceError U) α) g := fun _ he => by cases he

omit [DecidableEq U] [DecidableEq M] in
theorem fails_store {α : Type} (h : g.replay = true → uow = true) :
    Fails uow (.error .store : Except (ServiceError U) α) g := by
  intro e he
  cases he
  exact ⟨rfl, h⟩

section Queries

variable (h : DepositsOK uow u s n know) (hlt : k < n) (hk : know k = some (.deposit d, g))
  (hothers : ∀ j op' g', j ≠ k → know j = some (op', g') → g'.phase = .begun) (w : Fault)

include h hlt hk hothers

/-- A statement that fails without effect. -/
theorem deposit_failed {q : Statement U M} (hmay : d.May uow u g (.statement q)) (hfails : g.replay = true → uow = true)
    (herr : ∀ e, d.Learns g g (.statement q) (.error e)) {s₁ : Vault U M}
    (heq : s.answer uow w k (.statement q) = (.error .store, s₁)) (hrows : s₁.rows = s.rows) :
    DepositAnswered uow d g s n k know w (.statement q) := by
  refine ⟨g, ⟨?_, ?_⟩, h.failed hlt hk hothers w hmay (by rw [heq]; exact hrows)⟩
  · rw [heq]
    exact fails_store hfails
  · rw [heq]
    exact herr .store

/-- A statement that only reads, and fails in a database only. -/
theorem deposit_read {q : Statement U M} (hmay : d.May uow u g (.statement q)) (hstore : (s.statement uow k q).2.rows = s.rows)
    {r : q.Answer} (hr : (s.statement uow k q).1 = .ok r) (herr : ∀ e, d.Learns g g (.statement q) (.error e))
    (hok : s.answer uow w k (.statement q) = (.ok r, (s.statement uow k q).2.sent k) →
      ∃ g', d.Learns g g' (.statement q) (.ok r) ∧
        DepositsOK uow u (s.answer uow w k (.statement q)).2 n (Function.update know k (some (.deposit d, g')))) :
    DepositAnswered uow d g s n k know w (.statement q) := by
  rcases s.answer_statement uow w k q with heq | ⟨huow, heq | heq⟩
  · rw [hr] at heq
    obtain ⟨g', hlearns, hinv⟩ := hok heq
    refine ⟨g', ⟨?_, ?_⟩, hinv⟩
    · rw [heq]
      exact fails_ok r
    · rw [heq]
      exact hlearns
  · exact deposit_failed h hlt hk hothers w hmay (fun _ => huow) herr heq rfl
  · exact deposit_failed h hlt hk hothers w hmay (fun _ => huow) herr heq hstore

/-- The user is read. -/
theorem deposit_findById {v : U} (hmay : d.May uow u g (.statement (.findById v))) :
    DepositAnswered uow d g s n k know w (.statement (.findById v)) := by
  have hv : v = u := hmay.1
  subst hv
  refine deposit_read h hlt hk hothers w hmay rfl rfl (fun e => ⟨rfl, fun he => by cases he⟩) fun heq => ⟨g, ⟨rfl, ?_⟩, ?_⟩
  · intro hnone
    by_contra haccount
    have hsome := (h.known k _ g hk).account (by simpa using haccount)
    have hfor : s.balanceFor k v = none := Except.ok.inj hnone
    unfold Vault.balanceFor at hfor
    rw [Option.map_eq_none_iff] at hfor
    rw [hfor] at hsome
    cases hsome
  · exact h.failed hlt hk hothers w hmay (by rw [heq]; rfl)

theorem deposit_lock {v : U} (hmay : d.May uow u g (.statement (.advisoryXactLock v))) :
    DepositAnswered uow d g s n k know w (.statement (.advisoryXactLock v)) := by
  refine deposit_read h hlt hk hothers w hmay rfl rfl (fun e => rfl) fun heq => ⟨g, rfl, ?_⟩
  exact h.failed hlt hk hothers w hmay (by rw [heq]; rfl)

omit hlt hothers in
/-- A deposit whose row is not inserted yet has no row. -/
theorem no_rows (hphase : g.phase.rowless = true) : ∀ r ∈ s.rows, r.task ≠ some k := by
  intro r hr htask
  have howns := (h.owned r hr k htask).2 _ _ hk
  rw [howns.phase] at hphase
  cases hphase

omit h hlt hk hothers [DecidableEq U] in
/-- Without rows of its own, a call finds a reference exactly if it is on a committed row. -/
theorem findRow_isSome (hrows : ∀ r ∈ s.rows, r.task ≠ some k) (ref : ProviderRef M) :
    (s.findRow k ref).isSome = s.booked ref := by
  unfold Vault.findRow Vault.booked Vault.visible
  rw [Bool.eq_iff_iff, List.find?_isSome, List.any_eq_true]
  simp only [List.mem_filter, and_assoc]
  refine exists_congr fun r => and_congr_right fun hr => ?_
  simp [hrows r hr]

/-- The reference is looked up. -/
theorem deposit_findByProviderRef {ref : ProviderRef M} (hmay : d.May uow u g (.statement (.findByProviderRef ref))) :
    DepositAnswered uow d g s n k know w (.statement (.findByProviderRef ref)) := by
  obtain ⟨rfl, hbegun⟩ := id hmay
  have hrowless : g.phase.rowless = true := by
    rw [hbegun]
    rfl
  have hnone := no_rows h hk hrowless
  have hfind := findRow_isSome hnone d.providerRef
  have hold := h.known k _ g hk
  refine deposit_read h hlt hk hothers w hmay rfl rfl (fun e => rfl) fun heq => ?_
  have hrows : (s.answer uow w k (.statement (.findByProviderRef d.providerRef))).2.rows = s.rows := by
    rw [heq]
    rfl
  have hown : ∀ g' : DepositSeen, ∀ r, (DepositorOp.deposit (u := u) d).Owns g r →
    (DepositorOp.deposit (u := u) d).Owns g' r := by
    intro g' r hr
    rw [hr.phase] at hrowless
    cases hrowless
  have hgoes := s.answer_goes uow w k (.statement (.findByProviderRef d.providerRef))
  cases hrow : s.findRow k d.providerRef with
  | none =>
    refine ⟨{ g with phase := .unbooked }, ⟨?_, rfl⟩, ?_⟩
    · by_contra hreplay
      have hbooked := hold.replay (by simpa using hreplay) d.providerRef rfl
      rw [← hfind, hrow] at hbooked
      cases hbooked
    · refine h.unchanged hlt hk hothers w hmay hrows (hown _) ⟨rfl, rfl, rfl⟩ ?_
      show g.since ≤ (s.answer uow w k _).2.asked k ∧ (s.answer uow w k _).2.asked k ≤ (s.answer uow w k _).2.now ∧
        ∀ r ∈ (s.answer uow w k _).2.deposits u, r.createdAt ≤ (s.answer uow w k _).2.asked k
      rw [s.answer_asked, hgoes.now]
      refine ⟨hold.since, Nat.le_refl _, fun r hr => h.times r ?_⟩
      unfold Vault.deposits at hr ⊢
      rw [hrows] at hr
      exact hr
  | some row =>
    refine ⟨{ g with phase := .found }, rfl, ?_⟩
    refine h.unchanged hlt hk hothers w hmay hrows (hown _) ⟨rfl, rfl, rfl⟩ ?_
    refine hgoes.booked ?_
    rw [← hfind, hrow]
    rfl

/-- The check: what it sums is what is booked. -/
theorem deposit_depositsToday {v : U} (hmay : d.May uow u g (.statement (.depositsToday v))) :
    DepositAnswered uow d g s n k know w (.statement (.depositsToday v)) := by
  obtain ⟨rfl, hunbooked, hnew⟩ := id hmay
  have hold := h.known k _ g hk
  have hphase : d.Holds v s k g.since g.phase := hold.phase
  rw [hunbooked] at hphase
  obtain ⟨hsince, hasked, htimes⟩ := hphase
  have hrowless : g.phase.rowless = true := by
    rw [hunbooked]
    rfl
  have hnone := no_rows h hk hrowless
  -- all deposits are committed: an open one would belong to an unfinished call
  have hseen : ∀ r ∈ s.deposits v, r.committed = true ∨ r.task = some k := by
    intro r hr
    by_contra hnot
    obtain ⟨hopen, htask⟩ := not_or.mp hnot
    obtain ⟨j, op', g', hj, hknow⟩ := h.pending r hr (by simpa using hopen)
    obtain ⟨hmem, hdep⟩ := Vault.mem_deposits.mp hr
    have howns := (h.owned r hmem j hj).2 _ _ hknow
    have hjk : j ≠ k := fun hjk => htask (hjk ▸ hj)
    have hbegun := hothers j op' g' hjk hknow
    cases op' with
    | beside o ho =>
      have hno : r.isDepositOf v = false := howns
      rw [hdep] at hno
      cases hno
    | deposit d' =>
      have hrow := howns.phase
      rw [hbegun] at hrow
      cases hrow
  have hused := Vault.depositsSince_eq hseen htimes
  refine deposit_read h hlt hk hothers w hmay rfl rfl (fun e => rfl) fun heq => ?_
  have hrows : (s.answer uow w k (.statement (.depositsToday v))).2.rows = s.rows := by
    rw [heq]
    rfl
  have hgoes := s.answer_goes uow w k (.statement (.depositsToday v))
  have hdeposits : (s.answer uow w k (.statement (.depositsToday v))).2.deposits v = s.deposits v := by
    unfold Vault.deposits
    rw [hrows]
  have hsum : ∀ day, (s.answer uow w k (.statement (.depositsToday v))).2.bookedOn v day = s.bookedOn v day := by
    intro day
    unfold Vault.bookedOn
    rw [hdeposits]
  refine ⟨_, ⟨s.asked k, rfl⟩, h.unchanged hlt hk hothers w hmay hrows ?_ ⟨rfl, rfl, rfl⟩ ?_⟩
  · intro r hr
    rw [hr.phase] at hrowless
    cases hrowless
  · rw [hused]
    dsimp only
    split
    · rename_i hwithin
      refine ⟨by rw [hgoes.now]; exact hasked, ?_, ?_⟩
      · rw [hdeposits]
        exact htimes
      · rw [hsum]
        exact hwithin
    · rename_i habove
      refine ⟨hsince, by rw [hgoes.now]; exact hasked, ?_, ?_⟩
      · rw [hdeposits]
        intro r hr
        exact (hseen r hr).resolve_right (hnone r (Vault.mem_deposits.mp hr).1)
      · rw [hsum]
        exact not_le.mp habove

omit h hlt hk hothers [DecidableEq M] in
/-- The row of a deposit that was judged: on the day of the check it is within the cap, and on a later day it is alone. -/
theorem booked_le_cap {ms : ℕ} {row : LedgerRow U M} (hjudged : ms ≤ s.now)
    (htimes : ∀ r ∈ s.deposits u, r.createdAt ≤ ms) (hgains : ∀ r ∈ s.deposits u, 0 ≤ r.tx.amountCents)
    (hwithin : s.bookedOn u (ResponsibleGaming.dayIndex ms) + d.amountCents ≤ d.depositCapCents)
    (hdep : row.isDepositOf u = true)
    (hamount : row.tx.amountCents = d.amountCents) (htime : row.createdAt = s.now) (hrows : s'.rows = s.rows ++ [row]) :
    s'.bookedOn u (ResponsibleGaming.dayIndex s.now) ≤ d.depositCapCents := by
  have hdeposits : s'.deposits u = s.deposits u ++ [row] := by
    unfold Vault.deposits
    rw [hrows, List.filter_append]
    simp [hdep]
  have hday : row.day = ResponsibleGaming.dayIndex s.now := congrArg ResponsibleGaming.dayIndex htime
  have hsum : s'.bookedOn u (ResponsibleGaming.dayIndex s.now) =
    s.bookedOn u (ResponsibleGaming.dayIndex s.now) + d.amountCents := by
    unfold Vault.bookedOn
    rw [hdeposits, amountOf_append, amountOf_cons, amountOf_nil, hday, hamount]
    simp
  rw [hsum]
  have hle : ResponsibleGaming.dayIndex ms ≤ ResponsibleGaming.dayIndex s.now := Nat.div_le_div_right hjudged
  rcases Nat.eq_or_lt_of_le hle with heq | hlt
  · rw [← heq]
    exact hwithin
  · have hfirst : s.bookedOn u (ResponsibleGaming.dayIndex s.now) = 0 := by
      refine amountOf_eq_zero fun r hr => ?_
      have hrday : r.day ≤ ResponsibleGaming.dayIndex ms := Nat.div_le_div_right (htimes r hr)
      exact decide_eq_false (by omega)
    have hpos : 0 ≤ s.bookedOn u (ResponsibleGaming.dayIndex ms) := amountOf_nonneg fun r hr _ => hgains r hr
    omega

/-- The row of a deposit that was judged is inserted; the answer may not have come through. -/
theorem DepositsOK.inserted (hmay : d.May uow u g (.statement (d.insertion u))) {ms : ℕ} (hjudged : g.phase = .judged ms)
    (hrows : (s.answer uow w k (.statement (d.insertion u))).2.rows = s.rows ++ [s.newRow uow k (d.row u)]) :
    DepositsOK uow u (s.answer uow w k (.statement (d.insertion u))).2 n
      (Function.update know k (some (.deposit d, { g with phase := .booked s.now }))) := by
  have hholds : d.Holds u s k g.since g.phase := (h.known k _ g hk).phase
  rw [hjudged] at hholds
  obtain ⟨hms, htimes, hwithin⟩ := hholds
  have hnone := no_rows h hk (by rw [hjudged]; rfl)
  have hdep : (s.newRow uow k (d.row u)).isDepositOf u = true := LedgerRow.isDepositOf_iff.mpr ⟨rfl, rfl⟩
  refine h.answer hlt hk w (fun tx htx _ => hmay.gain htx) (fun j op' g₁ hjk hj => .of_begun (hothers j op' g₁ hjk hj))
    ?_ ?_ ⟨rfl, rfl, rfl⟩ (booked_le_cap hms htimes h.gains hwithin hdep rfl rfl hrows)
  · intro r hr htask
    rw [hrows] at hr
    rcases List.mem_append.mp hr with hr | hr
    · exact absurd htask (hnone r hr)
    · rw [List.mem_singleton.mp hr]
      exact ⟨hdep, .inl rfl⟩
  · intro huow r hr htask hcommitted
    have hmem := (Vault.mem_deposits.mp hr).1
    rw [hrows] at hmem
    rcases List.mem_append.mp hmem with hmem | hmem
    · exact absurd htask (hnone r hmem)
    · rw [List.mem_singleton.mp hmem] at hcommitted
      simp [Vault.newRow, huow] at hcommitted

/-- The reference is booked: no row is inserted. -/
theorem deposit_replayed (hmay : d.May uow u g (.statement (d.insertion u))) {row : LedgerRow U M}
    (hrow : s.findRow k d.providerRef = some row) : DepositAnswered uow d g s n k know w (.statement (d.insertion u)) := by
  have hstatement : s.statement uow k (d.insertion u) = (.ok (row.tx, false), s) := by
    simp only [CappedDeposit.insertion, Vault.statement, hrow]
  refine deposit_read h hlt hk hothers w hmay (by rw [hstatement]) (by rw [hstatement]) (fun e => .inl rfl) fun heq => ?_
  refine ⟨{ g with phase := .closed }, rfl, h.unchanged hlt hk hothers w hmay ?_ ?_ ⟨rfl, rfl, rfl⟩ trivial⟩
  · rw [heq, hstatement]
    rfl
  · intro r hr
    have hrow := hr.phase
    rw [hmay.rowless] at hrow
    cases hrow

/-- The reference is new: the row is inserted, or another call has inserted the reference and has not committed. -/
theorem deposit_new (hmay : d.May uow u g (.statement (d.insertion u))) (hrow : s.findRow k d.providerRef = none)
    (hreplay : g.replay = false) {ms : ℕ} (hjudged : g.phase = .judged ms) :
    DepositAnswered uow d g s n k know w (.statement (d.insertion u)) := by
  have hfails : g.replay = true → uow = true := by
    intro hr
    rw [hreplay] at hr
    cases hr
  have hlost : ∀ s₁ : Vault U M, s₁.rows = s.rows →
      s.answer uow w k (.statement (d.insertion u)) = (.error .store, s₁) →
      DepositAnswered uow d g s n k know w (.statement (d.insertion u)) :=
    fun s₁ hrows heq => deposit_failed h hlt hk hothers w hmay hfails (fun _ => .inl rfl) heq hrows
  by_cases href : s.hasRef d.providerRef = true
  · have hstatement : s.statement uow k (d.insertion u) = (.error .store, s) := by
      simp only [CappedDeposit.insertion, Vault.statement, hrow, href, if_true]
    rcases s.answer_statement uow w k (d.insertion u) with heq | ⟨-, heq | heq⟩
    · rw [hstatement] at heq
      exact hlost (s.sent k) rfl heq
    · exact hlost (s.sent k) rfl heq
    · rw [hstatement] at heq
      exact hlost (s.sent k) rfl heq
  · have hstatement : s.statement uow k (d.insertion u) = (.ok (d.row u, true), s.insert uow k (d.row u)) := by
      simp only [CappedDeposit.insertion, Vault.statement, hrow, href]
      rfl
    have hinserted := h.inserted hlt hk hothers w hmay hjudged
    rcases s.answer_statement uow w k (d.insertion u) with heq | ⟨-, heq | heq⟩
    · rw [hstatement] at heq
      refine ⟨{ g with phase := .booked s.now }, ⟨?_, ?_⟩, hinserted (by rw [heq]; rfl)⟩
      · rw [heq]
        exact fails_ok _
      · rw [heq]
        exact ⟨hreplay, s.now, rfl⟩
    · exact hlost (s.sent k) rfl heq
    · rw [hstatement] at heq
      refine ⟨{ g with phase := .booked s.now }, ⟨?_, ?_⟩, hinserted (by rw [heq]; rfl)⟩
      · rw [heq]
        exact fails_store hfails
      · rw [heq]
        exact .inr ⟨s.now, rfl⟩

/-- The row is written, or found. -/
theorem deposit_appendIdempotent {ref : ProviderRef M} {tx : Transaction U M}
    (hmay : d.May uow u g (.statement (.appendIdempotent ref tx))) :
    DepositAnswered uow d g s n k know w (.statement (.appendIdempotent ref tx)) := by
  obtain ⟨rfl, rfl, -, hphase⟩ := id hmay
  have hold := h.known k _ g hk
  have hholds : d.Holds u s k g.since g.phase := hold.phase
  cases hrow : s.findRow k d.providerRef with
  | some row => exact deposit_replayed h hlt hk hothers w hmay hrow
  | none =>
    have hunbooked : s.booked d.providerRef = false := by
      rw [← findRow_isSome (no_rows h hk hmay.rowless) d.providerRef, hrow]
      rfl
    have hreplay : g.replay = false := by
      by_contra hreplay
      have hbooked := hold.replay (by simpa using hreplay) d.providerRef rfl
      rw [hunbooked] at hbooked
      cases hbooked
    rcases hphase with hfound | ⟨ms, hjudged⟩
    · rw [hfound] at hholds
      have hbooked : s.booked d.providerRef = true := hholds
      rw [hunbooked] at hbooked
      cases hbooked
    · exact deposit_new h hlt hk hothers w hmay hrow hreplay hjudged

omit h hlt hk hothers in
/-- A balance moves, or nothing does. -/
theorem adjustBalance_cases (s : Vault U M) (uow : Bool) (k : ℕ) (v : U) (x : ℤ) :
    s.statement uow k (.adjustBalance v x) = (.ok none, s) ∨ s.statement uow k (.adjustBalance v x) = (.error .store, s) ∨
      ∃ b, s.statement uow k (.adjustBalance v x) = (.ok (some b), s.move uow k v x) := by
  simp only [Vault.statement]
  split
  · exact .inl rfl
  · split
    · exact .inl rfl
    · split
      · exact .inr (.inl rfl)
      · exact .inr (.inr ⟨_, rfl⟩)

/-- The balance was changed, and the row is marked; the answer may not have come through. -/
theorem DepositsOK.marked {q : WalletQuery U M} (hmay : d.May uow u g q) {ms : ℕ} (hbooked : g.phase = .booked ms)
    (hrows : (s.answer uow w k q).2.rows = s.mark k) (hg : g' = g ∨ g' = { g with phase := .credited ms }) :
    DepositsOK uow u (s.answer uow w k q).2 n (Function.update know k (some (.deposit d, g'))) := by
  have hold := h.known k _ g hk
  have hcap : d.Holds u s k g.since g.phase := hold.phase
  rw [hbooked] at hcap
  have hsum := Vault.bookedOn_map (u := u) (LedgerRow.Later.mark k) hrows (ResponsibleGaming.dayIndex ms)
  have hmarked : ∀ r ∈ (s.answer uow w k q).2.rows, r.task = some k → r.credited = true := by
    intro r' hr' htask
    rw [hrows] at hr'
    obtain ⟨r, -, rfl⟩ := List.mem_map.mp hr'
    by_cases hr : r.task = some k
    · rw [if_pos hr]
    · rw [if_neg hr] at htask
      exact absurd htask hr
  refine h.answer hlt hk w (fun tx htx _ => hmay.gain htx)
    (fun j op' g₁ hjk hj => .of_begun (hothers j op' g₁ hjk hj)) ?_ ?_ ?_ ?_
  · intro r' hr' htask
    rw [hrows] at hr'
    obtain ⟨r, hr, hlater⟩ : ∃ r ∈ s.rows, r.Later k r' := by
      obtain ⟨r, hr, rfl⟩ := List.mem_map.mp hr'
      exact ⟨r, hr, .mark k r⟩
    have howns := (h.owned r hr k (hlater.task.symm.trans htask)).2 _ _ hk
    refine ⟨by rw [hlater.deposit]; exact howns.1, ?_⟩
    rw [hlater.createdAt, howns.time (.inl hbooked)]
    rcases hg with rfl | rfl
    · exact .inl hbooked
    · exact .inr (.inl rfl)
  · intro _ r hr htask _
    exact hmarked r (Vault.mem_deposits.mp hr).1 htask
  · rcases hg with rfl | rfl
    · exact ⟨rfl, rfl, rfl⟩
    · exact ⟨rfl, rfl, rfl⟩
  · have hcap' : (s.answer uow w k q).2.bookedOn u (ResponsibleGaming.dayIndex ms) ≤ d.depositCapCents := by
      rw [hsum]
      exact hcap
    rcases hg with rfl | rfl
    · show d.Holds u _ k g'.since g'.phase
      rw [hbooked]
      exact hcap'
    · exact ⟨hcap', fun r hr htask => hmarked r (Vault.mem_deposits.mp hr).1 htask⟩

/-- The balance is moved. -/
theorem deposit_adjustBalance {v : U} {x : ℤ} (hmay : d.May uow u g (.statement (.adjustBalance v x))) :
    DepositAnswered uow d g s n k know w (.statement (.adjustBalance v x)) := by
  obtain ⟨⟨ms, hbooked⟩, hnew⟩ := id hmay
  have hfails : g.replay = true → uow = true := by
    intro hr
    rw [hnew] at hr
    cases hr
  have hlost : ∀ s₁ : Vault U M, s₁.rows = s.rows →
      s.answer uow w k (.statement (.adjustBalance v x)) = (.error .store, s₁) →
      DepositAnswered uow d g s n k know w (.statement (.adjustBalance v x)) :=
    fun s₁ hrows heq => deposit_failed h hlt hk hothers w hmay hfails (fun _ => rfl) heq hrows
  have hmoved : ((s.move uow k v x).sent k).rows = s.mark k := by
    unfold Vault.move
    split
    · rfl
    · rfl
  rcases adjustBalance_cases s uow k v x with hst | hst | ⟨b, hst⟩
  · exact deposit_read h hlt hk hothers w hmay (r := none) (by rw [hst]) (by rw [hst]) (fun _ => rfl) fun heq =>
      ⟨g, rfl, h.failed hlt hk hothers w hmay (by rw [heq, hst]; rfl)⟩
  · rcases s.answer_statement uow w k (.adjustBalance v x) with heq | ⟨-, heq | heq⟩
    · rw [hst] at heq
      exact hlost (s.sent k) rfl heq
    · exact hlost (s.sent k) rfl heq
    · rw [hst] at heq
      exact hlost (s.sent k) rfl heq
  · rcases s.answer_statement uow w k (.adjustBalance v x) with heq | ⟨-, heq | heq⟩
    · rw [hst] at heq
      refine ⟨{ g with phase := .credited ms }, ⟨?_, ?_⟩, ?_⟩
      · rw [heq]
        exact fails_ok _
      · rw [heq]
        exact ⟨ms, rfl⟩
      · exact h.marked hlt hk hothers w hmay hbooked (by rw [heq]; exact hmoved) (.inr rfl)
    · exact hlost (s.sent k) rfl heq
    · rw [hst] at heq
      refine ⟨g, ⟨?_, ?_⟩, ?_⟩
      · rw [heq]
        exact fails_store hfails
      · rw [heq]
        exact rfl
      · exact h.marked hlt hk hothers w hmay hbooked (by rw [heq]; exact hmoved) (.inl rfl)

/-- The transaction has ended: the rows that are left are committed and credited. -/
theorem DepositsOK.ended {q : WalletQuery U M} (hmay : d.May uow u g q)
    (hrows : ∀ r' ∈ (s.answer uow w k q).2.rows, r'.task = some k →
      r'.isDepositOf u = true ∧ r'.committed = true ∧ r'.credited = true) :
    DepositsOK uow u (s.answer uow w k q).2 n (Function.update know k (some (.deposit d, { g with phase := .closed }))) := by
  refine h.answer hlt hk w (fun tx htx _ => hmay.gain htx) (fun j op' g₁ hjk hj => .of_begun (hothers j op' g₁ hjk hj)) ?_ ?_
    ⟨rfl, rfl, rfl⟩ trivial
  · intro r hr htask
    obtain ⟨hdep, hcommitted, hcredited⟩ := hrows r hr htask
    exact ⟨hdep, .inr (.inr ⟨rfl, hcommitted, hcredited⟩)⟩
  · intro _ r hr htask _
    exact (hrows r (Vault.mem_deposits.mp hr).1 htask).2.2

omit hlt hothers in
/-- What a rollback leaves of a call is what it has committed. -/
theorem rollback_rows (huow : uow = true) : ∀ r ∈ (s.rollback k).rows, r.task = some k →
    r.isDepositOf u = true ∧ r.committed = true ∧ r.credited = true := by
  intro r hr htask
  obtain ⟨hr, hleft⟩ := List.mem_filter.mp (show r ∈ s.rows.filter fun r => r.committed || decide (r.task ≠ some k) from hr)
  have hcommitted : r.committed = true := by simpa [htask] using hleft
  obtain ⟨hdep, -⟩ := (h.owned r hr k htask).2 _ _ hk
  exact ⟨hdep, hcommitted, h.settled huow r (Vault.mem_deposits.mpr ⟨hr, hdep⟩) hcommitted⟩

/-- The deposit commits. -/
theorem deposit_commit (hmay : d.May uow u g .commit) : DepositAnswered uow d g s n k know w .commit := by
  obtain ⟨huow, hphase⟩ := id hmay
  have hold := h.known k _ g hk
  have hholds : d.Holds u s k g.since g.phase := hold.phase
  have hcommit : ∀ r' ∈ (s.commit k).rows, r'.task = some k →
      r'.isDepositOf u = true ∧ r'.committed = true ∧ r'.credited = true := by
    intro r' hr' htask
    obtain ⟨r, hr, rfl⟩ := List.mem_map.mp hr'
    have hlater := LedgerRow.Later.commit k r
    have htask' : r.task = some k := hlater.task.symm.trans htask
    obtain ⟨hdep, howns⟩ := (h.owned r hr k htask').2 _ _ hk
    have hcredited : r.credited = true := by
      rcases hphase with hp | ⟨ms, hp⟩
      · rw [hp] at howns
        obtain hbad | hbad | ⟨-, -, hcredited⟩ := howns
        · cases hbad
        · cases hbad
        · exact hcredited
      · rw [hp] at hholds
        exact hholds.2 r (Vault.mem_deposits.mpr ⟨hr, hdep⟩) htask'
    refine ⟨by rw [hlater.deposit]; exact hdep, ?_, hlater.credited hcredited⟩
    rw [if_pos htask']
  have hfails : ∀ r, r = .ok () ∨ r = .error .store → Fails uow (r : Except (ServiceError U) Unit) g := by
    rintro r (rfl | rfl)
    · exact fails_ok _
    · exact fails_store fun _ => huow
  cases w with
  | none => exact ⟨_, ⟨hfails _ (.inl rfl), rfl⟩, h.ended hlt hk hothers .none hmay hcommit⟩
  | before => exact ⟨_, ⟨hfails _ (.inr rfl), rfl⟩, h.ended hlt hk hothers .before hmay (rollback_rows h hk huow)⟩
  | after => exact ⟨_, ⟨hfails _ (.inr rfl), rfl⟩, h.ended hlt hk hothers .after hmay hcommit⟩

/-- The deposit is rolled back. -/
theorem deposit_rollback (hmay : d.May uow u g .rollback) : DepositAnswered uow d g s n k know w .rollback := by
  have huow : uow = true := hmay
  have hfails : Fails uow (s.answer uow w k .rollback).1 g := by
    intro e he
    refine ⟨?_, fun _ => huow⟩
    have hfst : (if w = .none then .ok () else .error .store : Except (ServiceError U) Unit) = .error e := he
    split at hfst
    · cases hfst
    · cases hfst
      rfl
  refine ⟨g.rolledBack, ⟨hfails, rfl⟩, ?_⟩
  have hended := h.ended hlt hk hothers w hmay (rollback_rows h hk huow)
  unfold DepositSeen.rolledBack
  split
  · rename_i ms hrefused
    -- a deposit that is refused has no row
    have hnone := no_rows h hk (by rw [hrefused]; rfl)
    have hrows : (s.answer uow w k .rollback).2.rows = s.rows := by
      refine List.filter_eq_self.mpr fun r hr => ?_
      simp [hnone r hr]
    have hphase : d.Holds u s k g.since g.phase := (h.known k _ g hk).phase
    refine h.unchanged hlt hk hothers w hmay hrows (fun _ hr => hr) ⟨rfl, rfl, rfl⟩ ?_
    refine hphase.congr ?_ rfl rfl fun ref => (s.answer_goes uow w k .rollback).booked
    unfold Vault.deposits
    rw [hrows]
  · exact hended

/-- **Every answer to a deposit** keeps the invariant, and tells it what the protocol says. -/
theorem DepositsOK.answered_deposit (q : WalletQuery U M) (hmay : d.May uow u g q) :
    DepositAnswered uow d g s n k know w q := by
  cases q with
  | commit => exact deposit_commit h hlt hk hothers w hmay
  | rollback => exact deposit_rollback h hlt hk hothers w hmay
  | statement q =>
    cases q with
    | findById v => exact deposit_findById h hlt hk hothers w hmay
    | adjustBalance v x => exact deposit_adjustBalance h hlt hk hothers w hmay
    | append tx => exact hmay.elim
    | appendIdempotent ref tx => exact deposit_appendIdempotent h hlt hk hothers w hmay
    | findByProviderRef ref => exact deposit_findByProviderRef h hlt hk hothers w hmay
    | depositsToday v => exact deposit_depositsToday h hlt hk hothers w hmay
    | advisoryXactLock v => exact deposit_lock h hlt hk hothers w hmay
    | recordAudit => exact hmay.elim

end Queries

end Deposit

end Invariant

end Murlan
