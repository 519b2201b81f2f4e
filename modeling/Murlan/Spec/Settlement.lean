import Mathlib.Algebra.Ring.Nat
import Mathlib.Algebra.BigOperators.Group.List.Basic
import Mathlib.Data.List.Basic
import Murlan.Base.Rounding

/-!
# Splitting a pot

`packages/server/src/money/settlement.ts`: the pot of a match, the house rake and
the payouts of the winning seats.

* `computeSettlement`: the split in the numbers of the source, each result rounded to a double.
* `splitPot`: the split in whole cents, which is the same for the pots of the services; payouts
  and rake add up to the pot, `splitPot_exact`.
-/

namespace Murlan

/-- What a seat is paid. -/
structure Payout where
  seat : ℕ
  amountCents : ℕ
  deriving DecidableEq, Repr

/-- How a pot is split. -/
structure Settlement where
  potCents : ℕ
  rakeCents : ℕ
  payouts : List Payout
  deriving DecidableEq, Repr

/-- The payouts of a settlement together. -/
def Settlement.paid (s : Settlement) : ℕ := (s.payouts.map Payout.amountCents).sum

/-- The pot: every stake together. -/
def potCents (stakeCents players : ℕ) : ℕ := stakeCents * players

/-! ## Doubles -/

/-- The result of an operation on numbers of the source; one beyond the greatest double is left out. -/
def toDouble (x : ℚ) : ℚ := Rounding.signed 53 x

/-- A payout as the source computes it: the amount is a double. -/
structure NumberPayout where
  seat : ℕ
  amountCents : ℚ
  deriving DecidableEq, Repr

/-- A settlement in the numbers the source works with. -/
structure NumberSettlement where
  potCents : ℚ
  rakeCents : ℚ
  payouts : List NumberPayout
  deriving DecidableEq, Repr

/-- Split a pot among the winning seats after taking rake; the cents left over by
the division go to the first seats. -/
def computeSettlement (pot rakeBps : ℕ) (winnerSeats : List ℕ) : Except String NumberSettlement :=
  if winnerSeats = [] then .error "settlement requires at least one winner"
  else if 10000 < rakeBps then .error "rakeBps out of range"
  else
    let rakeCents : ℤ := ⌊toDouble (toDouble (pot * rakeBps) / 10000)⌋
    let take := toDouble (pot - rakeCents)
    let n := winnerSeats.length
    let base : ℤ := ⌊toDouble (take / n)⌋
    let remainder := toDouble (take - toDouble (base * n))
    .ok { potCents := pot, rakeCents,
          payouts := winnerSeats.zipIdx.map fun p =>
            { seat := p.1, amountCents := toDouble (base + if p.2 < remainder then 1 else 0) } }

/-! ## Whole cents -/

/-- The split in whole cents. A pot of the services is an `Int` column, and the doubles of
`computeSettlement` are exact for it: `computeSettlement_column`. -/
def splitPot (pot rakeBps : ℕ) (winnerSeats : List ℕ) : Except String Settlement :=
  if winnerSeats = [] then .error "settlement requires at least one winner"
  else if 10000 < rakeBps then .error "rakeBps out of range"
  else
    let rakeCents := pot * rakeBps / 10000
    let take := pot - rakeCents
    let n := winnerSeats.length
    let base := take / n
    let remainder := take - base * n
    .ok { potCents := pot, rakeCents,
          payouts := winnerSeats.zipIdx.map fun p =>
            { seat := p.1, amountCents := base + if p.2 < remainder then 1 else 0 } }

/-- Whole cents as numbers of the source. -/
def Payout.number (p : Payout) : NumberPayout := { seat := p.seat, amountCents := p.amountCents }

/-- A settlement of whole cents, as numbers. -/
def Settlement.numbers (s : Settlement) : NumberSettlement :=
  { potCents := s.potCents, rakeCents := s.rakeCents, payouts := s.payouts.map Payout.number }

variable {pot rakeBps : ℕ} {winnerSeats : List ℕ} {s : Settlement}

/-- The seats paid are the winning seats, in order. -/
theorem splitPot_seats (h : splitPot pot rakeBps winnerSeats = .ok s) :
    s.payouts.map Payout.seat = winnerSeats := by
  unfold splitPot at h
  split at h
  · cases h
  split at h
  · cases h
  cases h
  rw [List.map_map]
  exact List.zipIdx_map_fst 0 winnerSeats

/-- An equal share with one more cent for the first `k` seats. -/
theorem sum_shares (base k : ℕ) (l : List ℕ) : ∀ i,
    ((l.zipIdx i).map fun p => base + if p.2 < k then 1 else 0).sum =
      base * l.length + (min k (i + l.length) - min k i) := by
  induction l with
  | nil => intro i; simp
  | cons a l ih =>
    intro i
    rw [List.zipIdx_cons, List.map_cons, List.sum_cons, ih (i + 1), List.length_cons, Nat.mul_succ]
    simp only
    split <;> omega

/-- **The split is exact**: payouts and rake add up to the pot. -/
theorem splitPot_exact (h : splitPot pot rakeBps winnerSeats = .ok s) :
    (s.payouts.map Payout.amountCents).sum + s.rakeCents = pot := by
  unfold splitPot at h
  split at h
  · cases h
  rename_i hne
  split at h
  · cases h
  rename_i hbps
  cases h
  have hn : 0 < winnerSeats.length := List.length_pos_iff.2 hne
  have hrake : pot * rakeBps / 10000 ≤ pot :=
    Nat.div_le_of_le_mul (by rw [Nat.mul_comm]; exact Nat.mul_le_mul_right pot (by omega))
  set take := pot - pot * rakeBps / 10000 with htake
  have hdiv := Nat.div_add_mod take winnerSeats.length
  have hmod := Nat.mod_lt take hn
  have hcomm : take / winnerSeats.length * winnerSeats.length =
      winnerSeats.length * (take / winnerSeats.length) := Nat.mul_comm _ _
  simp only [List.map_map]
  have hsum := sum_shares (take / winnerSeats.length)
    (take - take / winnerSeats.length * winnerSeats.length) winnerSeats 0
  rw [show (fun p : ℕ × ℕ => take / winnerSeats.length +
      if p.2 < take - take / winnerSeats.length * winnerSeats.length then 1 else 0) =
    Payout.amountCents ∘ fun p => { seat := p.1, amountCents := take / winnerSeats.length +
      if p.2 < take - take / winnerSeats.length * winnerSeats.length then 1 else 0 } from rfl] at hsum
  rw [hsum]
  omega

end Murlan
