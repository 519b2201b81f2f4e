import Murlan.Spec.WalletServer

/-!
# What a statement does to the repositories

Of a balance, only an update changes it (`statement_cases`). A row of the ledger keeps its
transaction and its time; its own call marks it, commits it or takes it back (`answer_rows`,
`answer_comes`); a committed row stays (`answer_goes`).
-/

namespace Murlan

/-- The row that an answer may insert. -/
def WalletQuery.row {U M : Type} : WalletQuery U M → Option (Transaction U M)
  | .statement (.append tx) => some tx
  | .statement (.appendIdempotent ref tx) => some { tx with providerRef := some ref }
  | _ => none

/-- A row later: only its own call changes it, and never takes back a flag. -/
structure LedgerRow.Later {U M : Type} (k : ℕ) (r r' : LedgerRow U M) : Prop where
  tx : r'.tx = r.tx
  createdAt : r'.createdAt = r.createdAt
  task : r'.task = r.task
  other : r.task ≠ some k → r' = r
  committed : r.committed = true → r'.committed = true
  credited : r.credited = true → r'.credited = true

namespace LedgerRow.Later

variable {U M : Type} {k : ℕ} {r r' : LedgerRow U M}

theorem refl (k : ℕ) (r : LedgerRow U M) : Later k r r := ⟨rfl, rfl, rfl, fun _ => rfl, id, id⟩

theorem mark (k : ℕ) (r : LedgerRow U M) : Later k r (if r.task = some k then { r with credited := true } else r) := by
  by_cases h : r.task = some k
  · rw [if_pos h]
    exact ⟨rfl, rfl, rfl, fun hne => absurd h hne, id, fun _ => rfl⟩
  · rw [if_neg h]
    exact refl k r

theorem commit (k : ℕ) (r : LedgerRow U M) : Later k r (if r.task = some k then { r with committed := true } else r) := by
  by_cases h : r.task = some k
  · rw [if_pos h]
    exact ⟨rfl, rfl, rfl, fun hne => absurd h hne, fun _ => rfl, id⟩
  · rw [if_neg h]
    exact refl k r

end LedgerRow.Later

namespace Vault

variable {U M : Type} [DecidableEq U] [DecidableEq M] {s : Vault U M} {uow : Bool} {k : ℕ}

/-- The row that a call inserts. -/
def newRow (s : Vault U M) (uow : Bool) (k : ℕ) (tx : Transaction U M) : LedgerRow U M :=
  { tx, createdAt := s.now, task := some k, committed := !uow, credited := false }

/-- Where a row comes from after an answer: it was there, or it is inserted. -/
def Comes (s : Vault U M) (uow : Bool) (k : ℕ) (q : WalletQuery U M) (r' : LedgerRow U M) : Prop :=
  (∃ r ∈ s.rows, r.Later k r') ∨ ∃ tx, q.row = some tx ∧ r' = s.newRow uow k tx

/-- A statement leaves balances and their changes alone, or it is an update. -/
theorem statement_cases (uow : Bool) (k : ℕ) (q : Statement U M) :
    ((s.statement uow k q).2.balance = s.balance ∧ (s.statement uow k q).2.moves = s.moves) ∨
      ∃ u d b, q = .adjustBalance u d ∧ s.balanceFor k u = some b ∧ s.heldByOther k u = false ∧
        (s.statement uow k q).2 = s.move uow k u d := by
  cases q with
  | findById u => exact .inl ⟨rfl, rfl⟩
  | findByProviderRef ref => exact .inl ⟨rfl, rfl⟩
  | depositsToday u => exact .inl ⟨rfl, rfl⟩
  | advisoryXactLock u => exact .inl ⟨rfl, rfl⟩
  | recordAudit => exact .inl ⟨rfl, rfl⟩
  | append tx =>
    left
    simp only [statement]
    split
    · exact ⟨rfl, rfl⟩
    · exact ⟨rfl, rfl⟩
  | appendIdempotent ref tx =>
    left
    simp only [statement]
    split
    · exact ⟨rfl, rfl⟩
    · split
      · exact ⟨rfl, rfl⟩
      · exact ⟨rfl, rfl⟩
  | adjustBalance u d =>
    simp only [statement]
    split
    · exact .inl ⟨rfl, rfl⟩
    · rename_i b hb
      split
      · exact .inl ⟨rfl, rfl⟩
      · split
        · exact .inl ⟨rfl, rfl⟩
        · rename_i hheld
          exact .inr ⟨u, d, b, rfl, hb, by simpa using hheld, rfl⟩

/-- Other statements read no balance. -/
theorem statement_read (s : Vault U M) (k : ℕ) {q : Statement U M} (hq : ∀ u, q ≠ .findById u) :
    (s.statement uow k q).2.read = s.read := by
  cases q with
  | findById u => exact absurd rfl (hq u)
  | findByProviderRef ref => rfl
  | depositsToday u => rfl
  | advisoryXactLock u => rfl
  | recordAudit => rfl
  | append tx =>
    simp only [statement]
    split
    · rfl
    · rfl
  | appendIdempotent ref tx =>
    simp only [statement]
    split
    · rfl
    · split
      · rfl
      · rfl
  | adjustBalance u d =>
    simp only [statement]
    split
    · rfl
    · split
      · rfl
      · split
        · rfl
        · unfold move
          split
          · rfl
          · rfl

/-- What a statement does to the rows. -/
theorem statement_rows (s : Vault U M) (uow : Bool) (k : ℕ) (q : Statement U M) :
    (s.statement uow k q).2.rows = s.rows ∨
      (∃ tx, (WalletQuery.statement q).row = some tx ∧ (s.statement uow k q).2.rows = s.rows ++ [s.newRow uow k tx]) ∨
      ((∃ v d, q = .adjustBalance v d) ∧ (s.statement uow k q).2.rows = s.mark k) := by
  cases q with
  | findById v => exact .inl rfl
  | findByProviderRef ref => exact .inl rfl
  | depositsToday v => exact .inl rfl
  | advisoryXactLock v => exact .inl rfl
  | recordAudit => exact .inl rfl
  | append tx =>
    simp only [statement]
    split
    · exact .inl rfl
    · exact .inr (.inl ⟨tx, rfl, rfl⟩)
  | appendIdempotent ref tx =>
    simp only [statement]
    split
    · exact .inl rfl
    · split
      · exact .inl rfl
      · exact .inr (.inl ⟨_, rfl, rfl⟩)
  | adjustBalance v d =>
    simp only [statement]
    split
    · exact .inl rfl
    · split
      · exact .inl rfl
      · split
        · exact .inl rfl
        · refine .inr (.inr ⟨⟨v, d, rfl⟩, ?_⟩)
          unfold move
          split
          · rfl
          · rfl

/-- What an answer does to the rows. -/
theorem answer_rows (s : Vault U M) (uow : Bool) (w : Fault) (k : ℕ) (q : WalletQuery U M) :
    (s.answer uow w k q).2.rows = s.rows ∨
      (∃ tx, q.row = some tx ∧ (s.answer uow w k q).2.rows = s.rows ++ [s.newRow uow k tx]) ∨
      ((∃ v d, q = .statement (.adjustBalance v d)) ∧ (s.answer uow w k q).2.rows = s.mark k) ∨
      (q = .commit ∧ (s.answer uow w k q).2.rows = (s.commit k).rows) ∨
      ((q = .commit ∨ q = .rollback) ∧ (s.answer uow w k q).2.rows = (s.rollback k).rows) := by
  cases q with
  | commit =>
    cases w with
    | none => exact .inr (.inr (.inr (.inl ⟨rfl, rfl⟩)))
    | before => exact .inr (.inr (.inr (.inr ⟨.inl rfl, rfl⟩)))
    | after => exact .inr (.inr (.inr (.inl ⟨rfl, rfl⟩)))
  | rollback => exact .inr (.inr (.inr (.inr ⟨.inr rfl, rfl⟩)))
  | statement q =>
    have hstatement : (s.statement uow k q).2.rows = s.rows ∨
        (∃ tx, (WalletQuery.statement q).row = some tx ∧ (s.statement uow k q).2.rows = s.rows ++ [s.newRow uow k tx]) ∨
        ((∃ v d, WalletQuery.statement q = .statement (.adjustBalance v d)) ∧ (s.statement uow k q).2.rows = s.mark k) ∨
        (WalletQuery.statement q = .commit ∧ (s.statement uow k q).2.rows = (s.commit k).rows) ∨
        ((WalletQuery.statement q = .commit ∨ WalletQuery.statement q = .rollback) ∧
          (s.statement uow k q).2.rows = (s.rollback k).rows) := by
      rcases s.statement_rows uow k q with hsame | hnew | ⟨⟨v, d, rfl⟩, hmark⟩
      · exact .inl hsame
      · exact .inr (.inl hnew)
      · exact .inr (.inr (.inl ⟨⟨v, d, rfl⟩, hmark⟩))
    simp only [answer]
    split
    · exact hstatement
    · exact .inl rfl
    · exact hstatement

/-- Every row comes from a call. -/
theorem answer_comes (s : Vault U M) (uow : Bool) (w : Fault) (k : ℕ) (q : WalletQuery U M) :
    ∀ r' ∈ (s.answer uow w k q).2.rows, s.Comes uow k q r' := by
  intro r' hr'
  rcases s.answer_rows uow w k q with hrows | ⟨tx, hq, hrows⟩ | ⟨-, hrows⟩ | ⟨-, hrows⟩ | ⟨-, hrows⟩
  · rw [hrows] at hr'
    exact .inl ⟨r', hr', .refl k r'⟩
  · rw [hrows] at hr'
    rcases List.mem_append.mp hr' with hold | hnew
    · exact .inl ⟨r', hold, .refl k r'⟩
    · exact .inr ⟨tx, hq, List.mem_singleton.mp hnew⟩
  · rw [hrows] at hr'
    obtain ⟨r, hr, rfl⟩ := List.mem_map.mp hr'
    exact .inl ⟨r, hr, .mark k r⟩
  · rw [hrows] at hr'
    obtain ⟨r, hr, rfl⟩ := List.mem_map.mp hr'
    exact .inl ⟨r, hr, .commit k r⟩
  · rw [hrows] at hr'
    exact .inl ⟨r', (List.mem_filter.mp hr').1, .refl k r'⟩

/-- The committed rows stay, the time stays, the accounts stay, and of the times at which statements were sent only
that of the call changes. -/
structure Goes (k : ℕ) (s s' : Vault U M) : Prop where
  now : s'.now = s.now
  asked : ∀ j, j ≠ k → s'.asked j = s.asked j
  account : ∀ v, (s.balance v).isSome → (s'.balance v).isSome
  stays : ∀ r ∈ s.rows, r.committed = true → ∃ r' ∈ s'.rows, r.Later k r'

/-- A statement takes no time. -/
theorem statement_clock (s : Vault U M) (uow : Bool) (k : ℕ) (q : Statement U M) :
    (s.statement uow k q).2.now = s.now ∧ (s.statement uow k q).2.asked = s.asked := by
  cases q with
  | findById v => exact ⟨rfl, rfl⟩
  | findByProviderRef ref => exact ⟨rfl, rfl⟩
  | depositsToday v => exact ⟨rfl, rfl⟩
  | advisoryXactLock v => exact ⟨rfl, rfl⟩
  | recordAudit => exact ⟨rfl, rfl⟩
  | append tx =>
    simp only [statement]
    split
    · exact ⟨rfl, rfl⟩
    · exact ⟨rfl, rfl⟩
  | appendIdempotent ref tx =>
    simp only [statement]
    split
    · exact ⟨rfl, rfl⟩
    · split
      · exact ⟨rfl, rfl⟩
      · exact ⟨rfl, rfl⟩
  | adjustBalance v d =>
    simp only [statement]
    split
    · exact ⟨rfl, rfl⟩
    · split
      · exact ⟨rfl, rfl⟩
      · split
        · exact ⟨rfl, rfl⟩
        · unfold move
          split
          · exact ⟨rfl, rfl⟩
          · exact ⟨rfl, rfl⟩

omit [DecidableEq M] in
/-- A move keeps accounts. -/
theorem move_account (s : Vault U M) (uow : Bool) (k : ℕ) (u : U) (d : ℤ) {v : U} (h : (s.balance v).isSome) :
    ((s.move uow k u d).balance v).isSome := by
  unfold move
  split
  · exact h
  · show (Function.update s.balance u ((s.balance u).map fun b => b + d) v).isSome = true
    by_cases hv : v = u
    · subst hv
      rw [Function.update_self, Option.isSome_map]
      exact h
    · rw [Function.update_of_ne hv]
      exact h

omit [DecidableEq M] in
theorem commit_account (s : Vault U M) (k : ℕ) {v : U} (h : (s.balance v).isSome) : ((s.commit k).balance v).isSome := by
  show ((s.balance v).map _).isSome = true
  rw [Option.isSome_map]
  exact h

/-- **What every answer keeps.** -/
theorem answer_goes (s : Vault U M) (uow : Bool) (w : Fault) (k : ℕ) (q : WalletQuery U M) :
    Goes k s (s.answer uow w k q).2 := by
  -- a committed row outlives every answer; a rollback drops open rows only
  have hstays : ∀ r ∈ s.rows, r.committed = true → ∃ r' ∈ (s.answer uow w k q).2.rows, r.Later k r' := by
    intro r hr hcommitted
    rcases s.answer_rows uow w k q with hrows | ⟨tx, -, hrows⟩ | ⟨-, hrows⟩ | ⟨-, hrows⟩ | ⟨-, hrows⟩
    · exact ⟨r, by rw [hrows]; exact hr, .refl k r⟩
    · exact ⟨r, by rw [hrows]; exact List.mem_append_left _ hr, .refl k r⟩
    · exact ⟨_, by rw [hrows]; exact List.mem_map_of_mem hr, .mark k r⟩
    · exact ⟨_, by rw [hrows]; exact List.mem_map_of_mem hr, .commit k r⟩
    · exact ⟨r, by rw [hrows]; exact List.mem_filter.mpr ⟨hr, by simp [hcommitted]⟩, .refl k r⟩
  have hsent : ∀ s' : Vault U M, s'.asked = s.asked → ∀ j, j ≠ k → (s'.sent k).asked j = s.asked j := by
    intro s' hs' j hj
    show Function.update s'.asked k s'.now j = s.asked j
    rw [Function.update_of_ne hj, hs']
  -- accounts are never closed
  have hbalance : ∀ q : Statement U M, ∀ v, (s.balance v).isSome → ((s.statement uow k q).2.balance v).isSome := by
    intro q v hv
    rcases s.statement_cases uow k q with ⟨hsame, -⟩ | ⟨u, d, b, -, -, -, hmove⟩
    · rw [hsame]
      exact hv
    · rw [hmove]
      exact s.move_account uow k u d hv
  refine ⟨?_, ?_, ?_, hstays⟩
  · cases q with
    -- a fault before a commit leaves the store, one after it hides the answer only
    | commit => cases w with
      | none => rfl
      | before => rfl
      | after => rfl
    | rollback => rfl
    | statement q =>
      simp only [answer]
      split
      · exact (s.statement_clock uow k q).1
      · rfl
      · exact (s.statement_clock uow k q).1
  · cases q with
    | commit => cases w with
      | none => exact fun _ _ => rfl
      | before => exact fun _ _ => rfl
      | after => exact fun _ _ => rfl
    | rollback => exact fun _ _ => rfl
    | statement q =>
      simp only [answer]
      split
      · exact hsent _ (s.statement_clock uow k q).2
      · exact hsent s rfl
      · exact hsent _ (s.statement_clock uow k q).2
  · cases q with
    | commit => cases w with
      | none => exact fun v hv => s.commit_account k hv
      | before => exact fun v hv => hv
      | after => exact fun v hv => s.commit_account k hv
    | rollback => exact fun v hv => hv
    | statement q =>
      simp only [answer]
      split
      · exact hbalance q
      · exact fun v hv => hv
      · exact hbalance q

/-- A statement is answered, or in a database it fails, before or after it took effect; then the call goes on. -/
theorem answer_statement (s : Vault U M) (uow : Bool) (w : Fault) (k : ℕ) (q : Statement U M) :
    s.answer uow w k (.statement q) = ((s.statement uow k q).1, (s.statement uow k q).2.sent k) ∨
      (uow = true ∧ (s.answer uow w k (.statement q) = (.error .store, s.sent k) ∨
        s.answer uow w k (.statement q) = (.error .store, (s.statement uow k q).2.sent k))) := by
  cases uow with
  | false => exact .inl rfl
  | true =>
    cases w with
    | none => exact .inl rfl
    | before => exact .inr ⟨rfl, .inl rfl⟩
    | after => exact .inr ⟨rfl, .inr rfl⟩

theorem answer_asked (s : Vault U M) (uow : Bool) (w : Fault) (k : ℕ) (q : Statement U M) :
    (s.answer uow w k (.statement q)).2.asked k = s.now := by
  have hsent : ∀ s' : Vault U M, s'.now = s.now → (s'.sent k).asked k = s.now := by
    intro s' hs'
    show Function.update s'.asked k s'.now k = s.now
    rw [Function.update_self, hs']
  rcases s.answer_statement uow w k q with h | ⟨-, h | h⟩
  · rw [h]
    exact hsent _ (s.statement_clock uow k q).1
  · rw [h]
    exact hsent s rfl
  · rw [h]
    exact hsent _ (s.statement_clock uow k q).1

end Vault

end Murlan
