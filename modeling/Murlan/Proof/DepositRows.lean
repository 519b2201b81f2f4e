import Mathlib.Algebra.Order.BigOperators.Group.List
import Murlan.Proof.Vault

/-!
# The deposits in the ledger

A user's deposits of a UTC day, all of them (`bookedOn`) and those that are credited
(`depositedOn`). `depositsSince_eq`: what the cap is checked against, when no row is younger than
the check.
-/

namespace Murlan

namespace LedgerRow

variable {U M : Type} [DecidableEq U]

/-- The row is a deposit of the user. -/
def isDepositOf (r : LedgerRow U M) (u : U) : Bool := r.tx.account = .user u && r.tx.type = .deposit

theorem isDepositOf_iff {r : LedgerRow U M} {u : U} :
    r.isDepositOf u = true ↔ r.tx.account = .user u ∧ r.tx.type = .deposit := by
  simp only [isDepositOf, Bool.and_eq_true, decide_eq_true_eq]

omit [DecidableEq U] in
/-- The UTC day of the row. -/
def day (r : LedgerRow U M) : ℕ := ResponsibleGaming.dayIndex r.createdAt

theorem Later.deposit {k : ℕ} {r r' : LedgerRow U M} {u : U} (h : r.Later k r') : r'.isDepositOf u = r.isDepositOf u := by
  unfold isDepositOf
  rw [h.tx]

end LedgerRow

section Sums

variable {U M : Type} {rows rows' : List (LedgerRow U M)} {p q : LedgerRow U M → Bool}

/-- The amounts of the rows that meet a condition. -/
def amountOf (rows : List (LedgerRow U M)) (p : LedgerRow U M → Bool) : ℤ := ((rows.filter p).map fun r => r.tx.amountCents).sum

@[simp] theorem amountOf_nil : amountOf [] p = 0 := rfl

theorem amountOf_cons (r : LedgerRow U M) :
    amountOf (r :: rows) p = (if p r then r.tx.amountCents else 0) + amountOf rows p := by
  unfold amountOf
  rw [List.filter_cons]
  split
  · simp
  · simp

theorem amountOf_append : amountOf (rows ++ rows') p = amountOf rows p + amountOf rows' p := by
  simp [amountOf]

theorem amountOf_congr (h : ∀ r ∈ rows, p r = q r) : amountOf rows p = amountOf rows q := by
  unfold amountOf
  rw [List.filter_congr h]

theorem amountOf_map {f : LedgerRow U M → LedgerRow U M} (hf : ∀ r, (f r).tx = r.tx) :
    amountOf (rows.map f) p = amountOf rows fun r => p (f r) := by
  induction rows with
  | nil => rfl
  | cons r rows ih => rw [List.map_cons, amountOf_cons, amountOf_cons, ih, hf]

theorem amountOf_nonneg (h : ∀ r ∈ rows, p r = true → 0 ≤ r.tx.amountCents) : 0 ≤ amountOf rows p := by
  refine List.sum_nonneg fun x hx => ?_
  obtain ⟨r, hr, rfl⟩ := List.mem_map.mp hx
  obtain ⟨hr, hp⟩ := List.mem_filter.mp hr
  exact h r hr hp

/-- A looser condition sums to more. -/
theorem amountOf_le (hpq : ∀ r ∈ rows, p r = true → q r = true) (h : ∀ r ∈ rows, 0 ≤ r.tx.amountCents) :
    amountOf rows p ≤ amountOf rows q := by
  induction rows with
  | nil => exact Int.le_refl 0
  | cons r rows ih =>
    rw [amountOf_cons, amountOf_cons]
    have hrest := ih (fun x hx => hpq x (List.mem_cons_of_mem r hx)) fun x hx => h x (List.mem_cons_of_mem r hx)
    have hr := h r List.mem_cons_self
    have hhead := hpq r List.mem_cons_self
    by_cases hp : p r = true
    · rw [if_pos hp, if_pos (hhead hp)]
      omega
    · rw [if_neg hp]
      split
      · omega
      · omega

theorem amountOf_eq_zero (h : ∀ r ∈ rows, p r = false) : amountOf rows p = 0 := by
  unfold amountOf
  rw [List.filter_eq_nil_iff.mpr fun r hr => by simp [h r hr]]
  rfl

end Sums

namespace Vault

variable {U M : Type} [DecidableEq U] {s : Vault U M} {u : U}

/-- The user's deposits. -/
def deposits (s : Vault U M) (u : U) : List (LedgerRow U M) := s.rows.filter fun r => r.isDepositOf u

theorem mem_deposits {r : LedgerRow U M} : r ∈ s.deposits u ↔ r ∈ s.rows ∧ r.isDepositOf u = true := List.mem_filter

/-- A user's deposits of a day. -/
def bookedOn (s : Vault U M) (u : U) (day : ℕ) : ℤ := amountOf (s.deposits u) fun r => decide (r.day = day)

/-- A user's deposits of a day that are credited. -/
def depositedOn (s : Vault U M) (u : U) (day : ℕ) : ℤ :=
  amountOf (s.deposits u) fun r => decide (r.day = day) && r.committed && r.credited

theorem depositedOn_le (h : ∀ r ∈ s.deposits u, 0 ≤ r.tx.amountCents) (day : ℕ) :
    s.depositedOn u day ≤ s.bookedOn u day := by
  refine amountOf_le (fun r _ hr => ?_) h
  simp only [Bool.and_eq_true] at hr
  exact hr.1.1

/-- Where all deposits of the day are credited, the two sums are one. -/
theorem depositedOn_eq {day : ℕ}
    (h : ∀ r ∈ s.deposits u, r.day = day → r.committed = true ∧ r.credited = true) :
    s.depositedOn u day = s.bookedOn u day := by
  refine amountOf_congr fun r hr => ?_
  by_cases hday : r.day = day
  · obtain ⟨hcommitted, hcredited⟩ := h r hr hday
    simp [hday, hcommitted, hcredited]
  · simp [hday]

/-- Since the start of the day is on the day. -/
theorem startOfDay_le_iff {ms t : ℕ} (h : t ≤ ms) :
    ResponsibleGaming.startOfDayMs ms ≤ t ↔ ResponsibleGaming.dayIndex t = ResponsibleGaming.dayIndex ms := by
  have hmono : ResponsibleGaming.dayIndex t ≤ ResponsibleGaming.dayIndex ms := Nat.div_le_div_right h
  unfold ResponsibleGaming.startOfDayMs
  have hle : ResponsibleGaming.dayIndex ms * ResponsibleGaming.DAY_MS ≤ t ↔
      ResponsibleGaming.dayIndex ms ≤ ResponsibleGaming.dayIndex t :=
    (Nat.le_div_iff_mul_le (by decide)).symm
  rw [hle]
  omega

/-- The sum that the cap is checked against, when the call sees all deposits and none is younger than the check. -/
theorem depositsSince_eq {k ms : ℕ} (hseen : ∀ r ∈ s.deposits u, r.committed = true ∨ r.task = some k)
    (htimes : ∀ r ∈ s.deposits u, r.createdAt ≤ ms) :
    s.depositsSince k u (ResponsibleGaming.startOfDayMs ms) = s.bookedOn u (ResponsibleGaming.dayIndex ms) := by
  unfold depositsSince bookedOn amountOf deposits visible
  congr 2
  rw [List.filter_filter, List.filter_filter]
  refine List.filter_congr fun r hr => ?_
  by_cases hdep : r.isDepositOf u = true
  · have hmem := mem_deposits.mpr ⟨hr, hdep⟩
    have hvisible : (r.committed || decide (r.task = some k)) = true := by
      rcases hseen r hmem with hcommitted | htask
      · simp [hcommitted]
      · simp [htask]
    have hday := startOfDay_le_iff (htimes r hmem)
    have hdep' := LedgerRow.isDepositOf_iff.mp hdep
    simp only [hvisible, hdep, hdep'.1, hdep'.2, true_and, Bool.and_true, hday]
    rfl
  · have hnot : ¬(r.tx.account = .user u ∧ r.tx.type = .deposit) := fun h => hdep (LedgerRow.isDepositOf_iff.mpr h)
    simp only [hdep, Bool.and_false]
    have hfalse : decide (r.tx.account = .user u ∧ r.tx.type = .deposit ∧ ResponsibleGaming.startOfDayMs ms ≤ r.createdAt) =
        false := decide_eq_false fun h => hnot ⟨h.1, h.2.1⟩
    rw [hfalse]
    rfl

section Map

variable {s' : Vault U M} {k : ℕ} {f : LedgerRow U M → LedgerRow U M}

/-- Rows that are only flagged are the same deposits. -/
theorem deposits_map (hf : ∀ r, LedgerRow.Later k r (f r)) (hrows : s'.rows = s.rows.map f) :
    s'.deposits u = (s.deposits u).map f := by
  unfold deposits
  rw [hrows, List.filter_map]
  congr 1
  exact List.filter_congr fun r _ => (hf r).deposit

theorem deposits_map_self (hf : ∀ r, LedgerRow.Later k r (f r)) (hrows : s'.rows = s.rows.map f)
    (hown : ∀ r ∈ s.deposits u, r.task ≠ some k) : s'.deposits u = s.deposits u := by
  rw [deposits_map hf hrows]
  exact (List.map_congr_left fun r hr => (hf r).other (hown r hr)).trans (List.map_id _)

theorem bookedOn_map (hf : ∀ r, LedgerRow.Later k r (f r)) (hrows : s'.rows = s.rows.map f) (day : ℕ) :
    s'.bookedOn u day = s.bookedOn u day := by
  unfold bookedOn
  rw [deposits_map hf hrows, amountOf_map fun r => (hf r).tx]
  refine amountOf_congr fun r _ => ?_
  unfold LedgerRow.day
  rw [(hf r).createdAt]

/-- Rows of the day whose flags stay the same make the same sum. -/
theorem depositedOn_map (hf : ∀ r, LedgerRow.Later k r (f r)) (hrows : s'.rows = s.rows.map f) {day : ℕ}
    (hflags : ∀ r ∈ s.deposits u, r.day = day → r.task = some k → (f r).committed = r.committed ∧ (f r).credited = r.credited) :
    s'.depositedOn u day = s.depositedOn u day := by
  unfold depositedOn
  rw [deposits_map hf hrows, amountOf_map fun r => (hf r).tx]
  refine amountOf_congr fun r hr => ?_
  have hday : (f r).day = r.day := by
    unfold LedgerRow.day
    rw [(hf r).createdAt]
  rw [hday]
  by_cases hrday : r.day = day
  · by_cases htask : r.task = some k
    · obtain ⟨hcommitted, hcredited⟩ := hflags r hr hrday htask
      rw [hcommitted, hcredited]
    · rw [(hf r).other htask]
  · simp [hrday]

end Map

end Vault

end Murlan
