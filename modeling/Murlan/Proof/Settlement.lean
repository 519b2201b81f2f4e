import Mathlib.Data.List.Nodup
import Murlan.Spec.Settlement

/-!
# Shares of a pot

* `shareOf_eq`: the share of a place in closed form, monotone in what is split.
* `computeSettlement_eq`: as long as the product of the pot and the rake is exact, so is the
  split; `computeSettlement_column`: for every pot that its column holds.
* `settlement_shares`: one payout for each winner, shares that differ by a cent at most,
  nothing lost, and a larger pot pays nobody less.
* `settlement_rounds`: a pot of which more than all is raked.
-/

namespace Murlan

/-- What the place `i` of `n` gets of `take`. -/
def shareOf (take n i : ℕ) : ℕ := take / n + if i < take - take / n * n then 1 else 0

/-- A share, in closed form. -/
theorem shareOf_eq {take n i : ℕ} (hi : i < n) : shareOf take n i = (take + (n - 1 - i)) / n := by
  have hn : 0 < n := by omega
  have hdiv : n * (take / n) + take % n = take := Nat.div_add_mod take n
  have hmod : take % n < n := Nat.mod_lt take hn
  have hrest : take - take / n * n = take % n := by
    rw [Nat.mul_comm]
    omega
  have hsum : take + (n - 1 - i) = take % n + (n - 1 - i) + n * (take / n) := by omega
  unfold shareOf
  rw [hrest, hsum, Nat.add_mul_div_left _ _ hn, Nat.add_comm]
  congr 1
  split
  · have hone : (take % n + (n - 1 - i)) / n = 1 := by
      rw [Nat.div_eq_of_lt_le (k := 1)]
      · omega
      · omega
    exact hone.symm
  · exact (Nat.div_eq_of_lt (by omega)).symm

theorem shareOf_mono {take take' n i : ℕ} (h : take ≤ take') (hi : i < n) :
    shareOf take n i ≤ shareOf take' n i := by
  rw [shareOf_eq hi, shareOf_eq hi]
  exact Nat.div_le_div_right (by omega)

/-- Shares differ by one cent at most. -/
theorem shareOf_le_succ (take n i j : ℕ) : shareOf take n i ≤ shareOf take n j + 1 := by
  unfold shareOf
  split
  · split
    · omega
    · omega
  · split
    · omega
    · omega

/-- The house takes at most one cent of a cent. -/
theorem take_mono (pot : ℕ) {rakeBps : ℕ} (hbps : rakeBps ≤ 10000) :
    pot - pot * rakeBps / 10000 ≤ pot + 1 - (pot + 1) * rakeBps / 10000 := by
  have hmul : (pot + 1) * rakeBps = pot * rakeBps + rakeBps := Nat.succ_mul pot rakeBps
  have hstep : (pot + 1) * rakeBps / 10000 ≤ pot * rakeBps / 10000 + 1 := by omega
  omega

variable {pot rakeBps : ℕ} {winnerSeats : List ℕ}

theorem rake_le (hbps : rakeBps ≤ 10000) : pot * rakeBps / 10000 ≤ pot := by
  refine Nat.div_le_of_le_mul ?_
  rw [Nat.mul_comm]
  exact Nat.mul_le_mul_right pot hbps

/-- The split, if there are winners and the rake is in range. -/
theorem splitPot_ok (hbps : rakeBps ≤ 10000) (hne : winnerSeats ≠ []) :
    splitPot pot rakeBps winnerSeats =
      .ok { potCents := pot
            rakeCents := pot * rakeBps / 10000
            payouts := winnerSeats.zipIdx.map fun p =>
              { seat := p.1
                amountCents := shareOf (pot - pot * rakeBps / 10000) winnerSeats.length p.2 } } := by
  unfold splitPot
  rw [if_neg hne, if_neg (by omega)]
  rfl

/-! ## Exact doubles -/

theorem toDouble_natCast {n : ℕ} (h : n ≤ 2 ^ 53) : toDouble n = n := Rounding.signed_natCast (by decide) h

theorem floor_toDouble_div {a b : ℕ} (hb : 0 < b) (ha : a ≤ 2 ^ 53) : ⌊toDouble ((a : ℚ) / b)⌋ = (a / b : ℕ) := by
  have hnonneg : ¬(a : ℚ) / b < 0 := not_lt.mpr (by positivity)
  rw [toDouble, Rounding.signed, if_neg hnonneg]
  exact Rounding.floor_round_div (by decide) hb ha

theorem toDouble_sub {a b : ℕ} (hb : b ≤ a) (ha : a ≤ 2 ^ 53) : toDouble ((a : ℚ) - b) = (a - b : ℕ) := by
  rw [← Nat.cast_sub hb]
  exact toDouble_natCast ((Nat.sub_le a b).trans ha)

/-- One more cent goes to the first places only, so that no share exceeds the whole. -/
theorem shareOf_le (take : ℕ) {n i : ℕ} (hn : 0 < n) : shareOf take n i ≤ take := by
  have hmul : take / n * n ≤ take := Nat.div_mul_le_self take n
  have hbase : take / n ≤ take / n * n := Nat.le_mul_of_pos_right _ hn
  unfold shareOf
  split
  · omega
  · omega

/-- **The doubles are exact** as long as the pot and its product with the rake are. -/
theorem computeSettlement_eq (hpot : pot ≤ 2 ^ 53) (hprod : pot * rakeBps ≤ 2 ^ 53) :
    computeSettlement pot rakeBps winnerSeats = (splitPot pot rakeBps winnerSeats).map Settlement.numbers := by
  by_cases hne : winnerSeats = []
  · simp [computeSettlement, splitPot, hne, Except.map]
  by_cases hbps : 10000 < rakeBps
  · simp [computeSettlement, splitPot, hne, hbps, Except.map]
  have hn : 0 < winnerSeats.length := List.length_pos_iff.mpr hne
  rw [splitPot_ok (by omega) hne, computeSettlement, if_neg hne, if_neg hbps]
  have hle : pot * rakeBps / 10000 ≤ pot := rake_le (by omega)
  have hrake : ⌊toDouble (toDouble ((pot : ℚ) * rakeBps) / 10000)⌋ = ((pot * rakeBps / 10000 : ℕ) : ℤ) := by
    rw [← Nat.cast_mul, toDouble_natCast hprod]
    exact floor_toDouble_div (by decide) hprod
  have htake : toDouble ((pot : ℚ) - ((pot * rakeBps / 10000 : ℕ) : ℤ)) = (pot - pot * rakeBps / 10000 : ℕ) := by
    rw [Int.cast_natCast]
    exact toDouble_sub hle hpot
  have htop : pot - pot * rakeBps / 10000 ≤ 2 ^ 53 := (Nat.sub_le _ _).trans hpot
  simp only [hrake, htake]
  generalize pot - pot * rakeBps / 10000 = take at htop
  generalize winnerSeats.length = n at hn
  have hmul : take / n * n ≤ take := Nat.div_mul_le_self take n
  have hbase : toDouble (((take / n : ℕ) : ℤ) * (n : ℚ)) = (take / n * n : ℕ) := by
    rw [Int.cast_natCast, ← Nat.cast_mul]
    exact toDouble_natCast (hmul.trans htop)
  rw [floor_toDouble_div hn htop, hbase, toDouble_sub hmul htop]
  have hamount : ∀ i : ℕ, toDouble (((take / n : ℕ) : ℤ) + if (i : ℚ) < (take - take / n * n : ℕ) then 1 else 0) =
      (shareOf take n i : ℕ) := by
    intro i
    have hshare : ((take / n : ℕ) : ℚ) + (if (i : ℚ) < (take - take / n * n : ℕ) then 1 else 0) = (shareOf take n i : ℕ) := by
      unfold shareOf
      simp only [Nat.cast_lt]
      split
      · push_cast; rfl
      · push_cast; rfl
    rw [Int.cast_natCast, hshare]
    exact toDouble_natCast ((shareOf_le take hn).trans htop)
  simp only [hamount, Except.map, Settlement.numbers, List.map_map]
  rfl

/-- **The doubles are exact** for every pot that its column holds. -/
theorem computeSettlement_column (hpot : pot < 2 ^ 31) :
    computeSettlement pot rakeBps winnerSeats = (splitPot pot rakeBps winnerSeats).map Settlement.numbers := by
  rcases Nat.lt_or_ge 10000 rakeBps with hbps | hbps
  · -- refused by both
    by_cases hne : winnerSeats = []
    · simp [computeSettlement, splitPot, hne, Except.map]
    · simp [computeSettlement, splitPot, hne, hbps, Except.map]
  · refine computeSettlement_eq (by omega) ?_
    calc pot * rakeBps ≤ 2 ^ 31 * 10000 := Nat.mul_le_mul hpot.le hbps
      _ ≤ 2 ^ 53 := by norm_num

/-! ## The split of a pot -/

theorem computeSettlement_ok {s : Settlement} (hpot : pot ≤ 2 ^ 53) (hprod : pot * rakeBps ≤ 2 ^ 53)
    (h : splitPot pot rakeBps winnerSeats = .ok s) : computeSettlement pot rakeBps winnerSeats = .ok s.numbers := by
  rw [computeSettlement_eq hpot hprod, h]
  rfl

theorem seats_numbers (s : Settlement) : s.numbers.payouts.map (·.seat) = s.payouts.map Payout.seat := by
  rw [Settlement.numbers, List.map_map]
  rfl

theorem sum_numbers (s : Settlement) : (s.numbers.payouts.map (·.amountCents)).sum = s.paid := by
  rw [Settlement.paid, Settlement.numbers, List.map_map]
  induction s.payouts with
  | nil => rfl
  | cons p payouts ih =>
    rw [List.map_cons, List.map_cons, List.sum_cons, List.sum_cons, Nat.cast_add, ih]
    rfl

theorem numbers_exact {s : Settlement} (h : splitPot pot rakeBps winnerSeats = .ok s) :
    s.numbers.rakeCents + (s.numbers.payouts.map (·.amountCents)).sum = pot := by
  have hexact : s.paid + s.rakeCents = pot := splitPot_exact h
  rw [sum_numbers, add_comm]
  show (s.paid : ℚ) + s.rakeCents = pot
  exact_mod_cast hexact

/-- **Settlement is exact**, for a pot whose product with the rake is exact; the next pot pays nobody less
if its product is exact, too. -/
theorem settlement_shares (hpot : pot ≤ 2 ^ 53) (hprod : pot * rakeBps ≤ 2 ^ 53) (hbps : rakeBps ≤ 10000)
    (hne : winnerSeats ≠ []) (hnodup : winnerSeats.Nodup) :
    ∃ s, computeSettlement pot rakeBps winnerSeats = .ok s ∧
      (∃ rake : ℕ, s.rakeCents = rake ∧ rake ≤ pot) ∧ s.payouts.map (·.seat) = winnerSeats ∧
      (∀ p ∈ s.payouts, ∃ cents : ℕ, p.amountCents = cents) ∧
      (∀ p ∈ s.payouts, ∀ q ∈ s.payouts, p.amountCents ≤ q.amountCents + 1) ∧
      s.rakeCents + (s.payouts.map (·.amountCents)).sum = pot ∧
      (pot + 1 ≤ 2 ^ 53 → (pot + 1) * rakeBps ≤ 2 ^ 53 →
        ∃ s', computeSettlement (pot + 1) rakeBps winnerSeats = .ok s' ∧
          ∀ p ∈ s.payouts, ∀ p' ∈ s'.payouts, p.seat = p'.seat → p.amountCents ≤ p'.amountCents) := by
  have hok : splitPot pot rakeBps winnerSeats = .ok _ := splitPot_ok hbps hne
  refine ⟨_, computeSettlement_ok hpot hprod hok, ⟨_, rfl, rake_le hbps⟩, ?_, fun p hp => ?_,
    fun p hp q hq => ?_, ?_, fun hpot' hprod' => ?_⟩
  · rw [seats_numbers]
    exact splitPot_seats hok
  · obtain ⟨x, -, rfl⟩ := List.mem_map.mp hp
    exact ⟨x.amountCents, rfl⟩
  · obtain ⟨x, hx, rfl⟩ := List.mem_map.mp hp
    obtain ⟨y, hy, rfl⟩ := List.mem_map.mp hq
    obtain ⟨i, -, rfl⟩ := List.mem_map.mp hx
    obtain ⟨j, -, rfl⟩ := List.mem_map.mp hy
    have hle := shareOf_le_succ (pot - pot * rakeBps / 10000) winnerSeats.length i.2 j.2
    show ((shareOf _ _ _ : ℕ) : ℚ) ≤ (shareOf _ _ _ : ℕ) + 1
    exact_mod_cast hle
  · exact numbers_exact hok
  · have hok' : splitPot (pot + 1) rakeBps winnerSeats = .ok _ := splitPot_ok hbps hne
    refine ⟨_, computeSettlement_ok hpot' hprod' hok', fun p hp p' hp' hseat => ?_⟩
    obtain ⟨x, hx, rfl⟩ := List.mem_map.mp hp
    obtain ⟨x', hx', rfl⟩ := List.mem_map.mp hp'
    obtain ⟨⟨seat, i⟩, hi, rfl⟩ := List.mem_map.mp hx
    obtain ⟨⟨seat', i'⟩, hi', rfl⟩ := List.mem_map.mp hx'
    obtain rfl : seat = seat' := hseat
    rw [List.mem_zipIdx_iff_getElem?] at hi hi'
    obtain ⟨hlt, hget⟩ := List.getElem?_eq_some_iff.mp hi
    obtain ⟨hlt', hget'⟩ := List.getElem?_eq_some_iff.mp hi'
    -- the seats are distinct, so both payouts are of one place
    obtain rfl : i = i' := (List.Nodup.getElem_inj_iff hnodup).mp (hget.trans hget'.symm)
    have hle := shareOf_mono (take_mono pot hbps) hlt
    show ((shareOf _ _ _ : ℕ) : ℚ) ≤ (shareOf _ _ _ : ℕ)
    exact_mod_cast hle

/-- A pot of 100 for three. -/
theorem settlement_shares_three :
    ∃ s, computeSettlement 100 500 [0, 2, 1] = .ok s ∧
      (∃ rake : ℕ, s.rakeCents = rake ∧ rake ≤ 100) ∧ s.payouts.map (·.seat) = [0, 2, 1] ∧
      (∀ p ∈ s.payouts, ∃ cents : ℕ, p.amountCents = cents) ∧
      (∀ p ∈ s.payouts, ∀ q ∈ s.payouts, p.amountCents ≤ q.amountCents + 1) ∧
      s.rakeCents + (s.payouts.map (·.amountCents)).sum = (100 : ℕ) ∧
      (100 + 1 ≤ 2 ^ 53 → (100 + 1) * 500 ≤ 2 ^ 53 →
        ∃ s', computeSettlement (100 + 1) 500 [0, 2, 1] = .ok s' ∧
          ∀ p ∈ s.payouts, ∀ p' ∈ s'.payouts, p.seat = p'.seat → p.amountCents ≤ p'.amountCents) :=
  settlement_shares (by decide) (by decide) (by decide) (by decide) (by decide)

/-- **Products are rounded**: a pot of which one cent more than all is raked, and one whose winner gets
less when it is raised by a cent. -/
theorem settlement_rounds :
    computeSettlement 7428960296177270 10000 [0] =
        .ok { potCents := 7428960296177270, rakeCents := 7428960296177271, payouts := [{ seat := 0, amountCents := -1 }] } ∧
      computeSettlement 16073857391049 10000 [0] =
        .ok { potCents := 16073857391049, rakeCents := 16073857391048, payouts := [{ seat := 0, amountCents := 1 }] } ∧
      computeSettlement 16073857391050 10000 [0] =
        .ok { potCents := 16073857391050, rakeCents := 16073857391050, payouts := [{ seat := 0, amountCents := 0 }] } := by
  decide +kernel

end Murlan
