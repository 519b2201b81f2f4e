import Mathlib.Tactic.Ring
import Murlan.Base.Book

/-!
# Money paid into pots

What is paid into numbered pots and credited out of them under unique references, each of
which belongs to a pot (`pot r`).

* `SameMoney`: two purses agree on one pot; whatever moves for another pot keeps it.
* `Untouched`: nothing was moved for the pot.
* `balance`: what a user has out of all pots.
-/

namespace Murlan

/-- What a user paid into a pot. -/
structure Debit (U : Type*) where
  pot : ℕ
  userId : U
  amountCents : ℕ
  deriving DecidableEq, Repr

/-- What has been taken in, and what has been booked out. -/
structure Purse (U R : Type*) where
  debits : List (Debit U) := []
  book : Book R := {}

namespace Purse

variable {U R : Type*}

/-- An amount is taken from a user, for a pot. -/
def debit (p : Purse U R) (pot : ℕ) (userId : U) (amountCents : ℕ) : Purse U R :=
  { p with debits := p.debits ++ [⟨pot, userId, amountCents⟩] }

/-- What was paid into a pot. -/
def debited (p : Purse U R) (pot : ℕ) : ℕ :=
  ((p.debits.filter fun d => d.pot = pot).map fun d => d.amountCents).sum

/-- An amount of zero is not debited. -/
def debitIf (p : Purse U R) (pot : ℕ) (userId : U) (amountCents : ℕ) : Purse U R :=
  if 0 < amountCents then p.debit pot userId amountCents else p

theorem book_debitIf (p : Purse U R) (i : ℕ) (u : U) (a : ℕ) : (p.debitIf i u a).book = p.book := by
  unfold debitIf
  split <;> rfl

theorem debited_debit (p : Purse U R) (i : ℕ) (u : U) (a j : ℕ) :
    (p.debit i u a).debited j = p.debited j + if i = j then a else 0 := by
  unfold debited debit
  rw [List.filter_append, List.map_append, List.sum_append]
  by_cases h : i = j <;> simp [h]

variable [DecidableEq R]

/-- An amount is booked out, once a reference. -/
def credit (p : Purse U R) (r : R) (amountCents : ℕ) : Purse U R :=
  { p with book := p.book.credit r amountCents }

/-- An amount of zero is not booked. -/
def creditIf (p : Purse U R) (r : R) (amountCents : ℕ) : Purse U R :=
  if 0 < amountCents then p.credit r amountCents else p

/-- What was credited out of a pot. -/
def credited (p : Purse U R) (pot : R → ℕ) (id : ℕ) : ℕ := p.book.total fun r => pot r = id

/-- What a user has out of the pots; `owner` says whose a reference is. -/
def balance [DecidableEq U] (p : Purse U R) (owner : R → Option U) (u : U) : ℤ :=
  p.book.total (fun r => owner r = some u) - ((p.debits.filter fun d => d.userId = u).map fun d => d.amountCents).sum

variable {p : Purse U R} {r r' : R} {a : ℕ}

section Balance

variable [DecidableEq U] {owner : R → Option U} {u : U}

omit [DecidableEq R] in
/-- A debit takes its amount from the balance. -/
theorem balance_debitIf (p : Purse U R) (owner : R → Option U) (i : ℕ) (u : U) (a : ℕ) :
    (p.debitIf i u a).balance owner u = p.balance owner u - a := by
  unfold debitIf
  by_cases ha : 0 < a
  · rw [if_pos ha]
    unfold balance debit
    rw [List.filter_append, List.map_append, List.sum_append]
    simp only [List.filter_cons, List.filter_nil, decide_true, if_true, List.map_cons, List.map_nil, List.sum_cons,
      List.sum_nil]
    push_cast
    ring
  · have hzero : a = 0 := by omega
    rw [if_neg ha, hzero, Int.natCast_zero, Int.sub_zero]

/-- The credit counts, unless its reference is used. -/
theorem balance_creditIf (p : Purse U R) (a : ℕ) (howner : owner r = some u) :
    (p.creditIf r a).balance owner u = p.balance owner u + if r ∈ p.book.refs then 0 else (a : ℤ) := by
  unfold creditIf
  by_cases ha : 0 < a
  · rw [if_pos ha]
    by_cases hr : r ∈ p.book.refs
    · rw [if_pos hr, Int.add_zero]
      unfold credit
      rw [Book.credit_of_mem hr]
    · rw [if_neg hr]
      unfold balance credit
      rw [Book.total_credit hr, if_pos howner]
      push_cast
      ring
  · have hzero : a = 0 := by omega
    rw [if_neg ha, hzero, Int.natCast_zero, ite_self, Int.add_zero]

end Balance

theorem mem_creditIf_self (p : Purse U R) (r : R) (ha : 0 < a) : r ∈ (p.creditIf r a).book.refs := by
  unfold creditIf
  rw [if_pos ha]
  exact Book.mem_refs_credit.2 (Or.inr rfl)

theorem debited_creditIf (j : ℕ) : (p.creditIf r a).debited j = p.debited j := by
  unfold creditIf
  split <;> rfl

theorem refs_creditIf (hne : r' ≠ r) : r' ∈ (p.creditIf r a).book.refs ↔ r' ∈ p.book.refs := by
  unfold creditIf
  split
  · show r' ∈ (p.book.credit r a).refs ↔ _
    rw [Book.mem_refs_credit]
    simp [hne]
  · rfl

theorem amount_creditIf_ne (hne : r' ≠ r) : (p.creditIf r a).book.amount r' = p.book.amount r' := by
  unfold creditIf
  split
  · exact Book.amount_credit_ne hne
  · rfl

/-- What is not booked counts as zero, so the amount is right in both cases. -/
theorem amount_creditIf_self (h : r ∉ p.book.refs) : (p.creditIf r a).book.amount r = a := by
  unfold creditIf
  split
  · show (p.book.credit r a).amount r = a
    rw [Book.amount_credit h, if_pos rfl]
  · rw [Book.amount_of_not_mem h]
    omega

end Purse

section Pots

variable {U R : Type*} [DecidableEq R] {pot : R → ℕ} {p p' p'' : Purse U R} {id : ℕ}

/-- The same was moved for the pot. -/
structure SameMoney (pot : R → ℕ) (p p' : Purse U R) (id : ℕ) : Prop where
  debited : p'.debited id = p.debited id
  refs : ∀ r, pot r = id → (r ∈ p'.book.refs ↔ r ∈ p.book.refs)
  amount : ∀ r, pot r = id → p'.book.amount r = p.book.amount r

namespace SameMoney

theorem refl (p : Purse U R) : SameMoney pot p p id := ⟨rfl, fun _ _ => Iff.rfl, fun _ _ => rfl⟩

theorem trans (h : SameMoney pot p p' id) (h' : SameMoney pot p' p'' id) : SameMoney pot p p'' id := by
  refine ⟨h'.debited.trans h.debited, ?_, ?_⟩
  · intro r hr
    rw [h'.refs r hr, h.refs r hr]
  · intro r hr
    rw [h'.amount r hr, h.amount r hr]

/-- A debit for another pot. -/
theorem debit {i : ℕ} (hne : i ≠ id) (u : U) (a : ℕ) : SameMoney pot p (p.debit i u a) id := by
  refine ⟨?_, fun _ _ => Iff.rfl, fun _ _ => rfl⟩
  rw [Purse.debited_debit, if_neg hne, Nat.add_zero]

/-- A credit out of another pot. -/
theorem credit {r : R} (hne : pot r ≠ id) (a : ℕ) : SameMoney pot p (p.credit r a) id := by
  have hother : ∀ s, pot s = id → s ≠ r := by
    rintro s hs rfl
    exact hne hs
  refine ⟨rfl, ?_, ?_⟩
  · intro s hs
    show s ∈ (p.book.credit r a).refs ↔ _
    rw [Book.mem_refs_credit]
    simp [hother s hs]
  · intro s hs
    exact Book.amount_credit_ne (hother s hs)

theorem creditIf {r : R} (hne : pot r ≠ id) (a : ℕ) : SameMoney pot p (p.creditIf r a) id := by
  unfold Purse.creditIf
  split
  · exact credit hne a
  · exact refl p

end SameMoney

/-- Nothing was moved for the pot. -/
structure Untouched (pot : R → ℕ) (p : Purse U R) (id : ℕ) : Prop where
  debited : p.debited id = 0
  refs : ∀ r ∈ p.book.refs, pot r ≠ id

namespace Untouched

theorem same (h : Untouched pot p id) (hs : SameMoney pot p p' id) : Untouched pot p' id := by
  refine ⟨hs.debited.trans h.debited, ?_⟩
  intro r hr hid
  exact h.refs r ((hs.refs r hid).mp hr) hid

theorem credited (h : Untouched pot p id) : p.credited pot id = 0 := by
  unfold Purse.credited
  rw [Book.total_eq_sum p.book [] List.nodup_nil]
  · rfl
  · intro r hr
    simp [h.refs r hr]

end Untouched

end Pots

end Murlan
