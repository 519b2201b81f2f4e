import Murlan.Proof.Conservation
import Murlan.Proof.Pot

/-!
# Balances follow the ledger

The contract of a match speaks of rows of the ledger. In every run of the match services the
balance of a user is the sum of the user's rows (`Money.balance_rows`), so what the rows say of a
match is what its players have paid and received.

* `Db.Even`: the balances are the sums of the rows. Each movement of the wallet keeps it, hence
  each transaction of a match (`escrowTx_even`, `settleTx_even`, `refundTx_even`) and each step.
-/

set_option linter.unusedSectionVars false

namespace Murlan

variable {U M : Type} [DecidableEq U] [DecidableEq M] {db db' : Db U M} {r : MatchRecord U M}

/-- The rows of a user. -/
def Db.userRows (db : Db U M) (u : U) : List (Transaction U M) := db.ledger.filter fun tx => tx.account = .user u

/-- Every balance is the sum of its user's rows; nobody without a balance has rows that count. -/
def Db.Even (db : Db U M) : Prop := ∀ u, db.getBalance u = signedSum (db.userRows u)

namespace Db.Even

/-- What touches no balance and no row of a user. -/
theorem congr (h : db.Even) (hb : db'.balance = db.balance) (hrows : ∀ u, db'.userRows u = db.userRows u) : db'.Even := by
  intro u
  rw [hrows, ← h u]
  unfold Db.getBalance
  rw [hb]

/-- A balance moves together with a row, in either order. -/
theorem move (h : db.Even) {u : U} {b delta : ℤ} {tx : Transaction U M} (hu : db.balance u = some b)
    (hacc : tx.account = .user u) (hamount : tx.amountCents = delta)
    (hb : db'.balance = Function.update db.balance u (some (b + delta))) (hl : db'.ledger = db.ledger ++ [tx]) : db'.Even := by
  intro v
  have hrows : db'.userRows v = db.userRows v ++ if v = u then [tx] else [] := by
    unfold Db.userRows
    rw [hl, List.filter_append]
    congr 1
    split
    · rename_i hv
      rw [hv, List.filter_cons_of_pos (by simp [hacc]), List.filter_nil]
    · rename_i hv
      rw [List.filter_cons_of_neg (by simpa [hacc] using fun heq => hv heq.symm), List.filter_nil]
  have hold := h v
  rw [hrows, signedSum_append, ← hold]
  unfold Db.getBalance
  rw [hb]
  by_cases hv : v = u
  · rw [if_pos hv, hv, Function.update_self, hu]
    simp [signedSum, hamount]
  · rw [if_neg hv, Function.update_of_ne hv]
    simp [signedSum]

/-- A new balance is empty, and so far its user has no rows that count. -/
theorem register (h : db.Even) {u : U} (hu : db.balance u = none) (hb : db'.balance = Function.update db.balance u (some 0))
    (hl : db'.ledger = db.ledger) : db'.Even := by
  intro v
  have hrows : db'.userRows v = db.userRows v := by
    unfold Db.userRows
    rw [hl]
  rw [hrows, ← h v]
  unfold Db.getBalance
  rw [hb]
  by_cases hv : v = u
  · rw [hv, Function.update_self, hu]
    rfl
  · rw [Function.update_of_ne hv]

end Db.Even

/-! ## The movements -/

/-- A change of a balance that goes through. -/
theorem adjustBalance_eq {u : U} {delta : ℤ} (h : db.adjustBalance u delta = some db') :
    ∃ b, db.balance u = some b ∧ db' = { db with balance := Function.update db.balance u (some (b + delta)) } := by
  unfold Db.adjustBalance at h
  split at h
  · cases h
  · rename_i b hb
    split at h
    · cases h
    · cases h
      exact ⟨b, hb, rfl⟩

/-- A debit moves the balance with its row. -/
theorem debit_even {u : U} {amount : ℕ} {opts : DebitOptions M} (he : db.Even) (h : db.debit u amount opts = .ok db') :
    db'.Even := by
  unfold Db.debit at h
  obtain ⟨-, -, h⟩ := bind_ok h
  split at h
  · cases h
  · rename_i db₁ hadj
    obtain ⟨b, hb, rfl⟩ := adjustBalance_eq hadj
    cases h
    exact he.move hb rfl rfl rfl rfl

/-- A credit moves the balance with its row. -/
theorem applyCredit_even {u : U} {current : ℤ} {amount : ℕ} {tx : Transaction U M} (he : db.Even)
    (hacc : tx.account = .user u) (hamount : tx.amountCents = amount)
    (h : (db.append tx).applyCredit u current amount = .ok db') : db'.Even := by
  unfold Db.applyCredit at h
  split at h
  · cases h
  · split at h
    · cases h
    · rename_i hadj
      obtain ⟨b, hb, rfl⟩ := adjustBalance_eq hadj
      cases h
      exact he.move hb hacc hamount rfl rfl

/-- A credit: a new row with its balance, or nothing where the reference is known. -/
theorem credit_even {u : U} {amount : ℕ} {opts : CreditOptions M} (he : db.Even) (h : db.credit u amount opts = .ok db') :
    db'.Even := by
  unfold Db.credit at h
  obtain ⟨-, -, h⟩ := bind_ok h
  split at h
  · cases h
  · simp only at h
    split at h
    · rename_i ref _
      unfold Db.appendIdempotent at h
      cases hknown : db.hasRef ref with
      | true =>
        simp only [hknown, if_true, Bool.not_false] at h
        cases h
        exact he
      | false =>
        simp only [hknown, Bool.false_eq_true, if_false, Bool.not_true] at h
        exact applyCredit_even he rfl rfl h
    · exact applyCredit_even he rfl rfl h

theorem recordRake_even {amount : ℕ} {id : M} {ref : ProviderRef M} (he : db.Even) : (db.recordRake amount id ref).Even := by
  unfold Db.recordRake Db.appendIdempotent
  split
  · exact he
  · refine he.congr rfl fun u => ?_
    show (db.ledger ++ [_]).filter _ = db.ledger.filter _
    rw [List.filter_append, List.filter_cons_of_neg (by simp), List.filter_nil, List.append_nil]

theorem create_even {record : MatchRecord U M} (he : db.Even) : (db.create record).Even := by
  unfold Db.create
  split
  · exact he.congr rfl fun _ => rfl
  · exact he.congr rfl fun _ => rfl

/-- A loop whose steps keep something keeps it. -/
theorem foldlM_keeps {α : Type} {P : Db U M → Prop} {f : Db U M → α → Except (WalletError U) (Db U M)}
    (hf : ∀ db a db', P db → f db a = .ok db' → P db') (l : List α) :
    ∀ db db' : Db U M, P db → l.foldlM f db = .ok db' → P db' := by
  induction l with
  | nil =>
    intro db db' hp h
    cases h
    exact hp
  | cons a l ih =>
    intro db db' hp h
    rw [List.foldlM_cons] at h
    obtain ⟨db₁, h₁, h₂⟩ := bind_ok h
    exact ih db₁ db' (hf db a db₁ hp h₁) h₂

/-! ## The transactions of a match -/

theorem escrowTx_even {i : EscrowInput U M} (he : db.Even) (h : escrowTx i db = .ok db') : db'.Even := by
  unfold escrowTx at h
  simp only at h
  split at h
  · exact foldlM_keeps (fun _ _ _ hp hs => debit_even hp hs) _ _ _ (create_even he) h
  · cases h
    exact create_even he

/-- A payout keeps balances and rows even. -/
theorem payoutOf_even {payout : Payout} (he : db.Even) (h : payoutOf r db payout = .ok db') : db'.Even := by
  unfold payoutOf at h
  split at h
  · cases h
  · split at h
    · exact credit_even he h
    · cases h
      exact he

/-- A settlement keeps balances and rows even. -/
theorem settleTx_even {s : Settlement} {winnerSeats : List ℕ} (he : db.Even) (h : settleTx r s winnerSeats db = .ok db') :
    db'.Even := by
  unfold settleTx at h
  obtain ⟨paid, hpaid, h⟩ := bind_ok h
  cases h
  have hpaidEven : paid.Even := by
    unfold payWinners at hpaid
    split at hpaid
    · obtain ⟨db₁, h₁, hrake⟩ := bind_ok hpaid
      have he₁ := foldlM_keeps (fun _ _ _ hp hs => payoutOf_even hp hs) _ _ _ he h₁
      cases hrake
      split
      · exact recordRake_even he₁
      · exact he₁
    · cases hpaid
      exact he
  exact hpaidEven.congr rfl fun _ => rfl

/-- A refund keeps balances and rows even. -/
theorem refundTx_even (he : db.Even) (h : refundTx r db = .ok db') : db'.Even := by
  unfold refundTx at h
  obtain ⟨refunded, href, h⟩ := bind_ok h
  cases h
  have hrefunded : refunded.Even := by
    unfold returnStakes at href
    split at href
    · exact foldlM_keeps (fun _ _ _ hp hs => credit_even hp hs) _ _ _ he href
    · cases href
      exact he
  exact hrefunded.congr rfl fun _ => rfl

/-! ## Every run -/

namespace Money

variable {m : Money U M}

theorem commit_even (he : db.Even) (fate : Fate) {tx : Db U M → Except (WalletError U) (Db U M)}
    (htx : ∀ db', tx db = .ok db' → db'.Even) : (Money.commit db fate tx).1.Even := by
  obtain ⟨-, h | ⟨db', hok, h⟩⟩ := MoneyOK.commit_cases db fate tx
  · rw [h]
    exact he
  · rw [h]
    exact htx db' hok

/-- Every statement keeps balances and rows even. -/
theorem onDb_even (he : m.db.Even) (t : ℕ) (fate : Fate) : (m.onDb t fate).db.Even := by
  unfold Money.onDb
  split
  · exact he
  · exact he
  · exact commit_even he fate fun _ h => escrowTx_even he h
  · exact he
  · exact commit_even he fate fun _ h => settleTx_even he h
  · exact he
  · exact commit_even he fate fun _ h => refundTx_even he h
  · exact he
  · exact he

/-- Every event keeps balances and rows even. -/
theorem step_even (he : m.db.Even) (e : MoneyEvent U M) : (m.step e).db.Even := by
  cases e with
  | escrow i =>
    show (m.escrow i).db.Even
    unfold Money.escrow
    split <;> exact he
  | settle i =>
    show (m.settle i).db.Even
    unfold Money.settle
    split <;> exact he
  | refund id =>
    show (m.refund id).db.Even
    unfold Money.refund
    split <;> exact he
  | recoverOrphanedMatches live => exact he
  | db t fate => exact onDb_even he t fate
  | resume t =>
    show (m.onResume t).db.Even
    rw [onResume_db]
    exact he
  | register u =>
    show (m.register u).db.Even
    unfold Money.register
    split
    · exact he
    · rename_i hnew
      exact he.register (Option.not_isSome_iff_eq_none.mp hnew) rfl rfl
  | walletMove u type delta ref =>
    show (m.walletMove u type delta ref).db.Even
    unfold Money.walletMove
    split
    · exact he
    · rename_i hadj
      obtain ⟨b, hb, rfl⟩ := adjustBalance_eq hadj
      exact he.move hb rfl rfl rfl rfl
  | restart => exact he

/-- **Balances move with rows.** In every run of the match services every balance is the sum of
its user's rows in the ledger. -/
theorem balance_rows (es : List (MoneyEvent U M)) (u : U) :
    (run Money.step Money.empty es).db.getBalance u = signedSum ((run Money.step Money.empty es).db.userRows u) :=
  run_inv (P := fun m : Money U M => m.db.Even) (fun _ e he => step_even he e) (fun _ => rfl) es u

end Money

end Murlan
