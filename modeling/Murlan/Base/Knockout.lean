import Mathlib.Data.List.Basic
import Mathlib.Data.Nat.Basic
import Mathlib.Tactic.Ring

/-!
# Knockouts

In a knockout the players of a round stand at its slots. Pairing `i` of round `r` is played
by the slots `2 * i` and `2 * i + 1` of the round, and its winner stands at slot `i` of the
next one. `winner r i` is the winner of that pairing, once it is decided.

* `slot`: who stands at a slot, from the seeding and the winners.
* `Fair`: the seeds differ, and a pairing is won by one of its two players.
* `Fair.slot_inj`: in a fair knockout no player stands at two slots of a round.
* `Fair.wins`: a pairing of the last round is decided.
* `pairs n r`: how many pairings round `r` of `n` players has; `sum_pairs`: how many there
  are up to round `r`.
-/

namespace Murlan.Knockout

variable {α : Type*} {seed : ℕ → Option α} {winner : ℕ → ℕ → Option α} {r r' i j : ℕ} {u : α}

/-- Who stands at a slot of a round. -/
def slot (seed : ℕ → Option α) (winner : ℕ → ℕ → Option α) : ℕ → ℕ → Option α
  | 0, j => seed j
  | r + 1, j => winner r j

/-- The seeds differ, and only who plays a pairing wins it. -/
structure Fair (seed : ℕ → Option α) (winner : ℕ → ℕ → Option α) : Prop where
  seeds : ∀ i j u, seed i = some u → seed j = some u → i = j
  plays : ∀ r i u, winner r i = some u → slot seed winner r (2 * i) = some u ∨ slot seed winner r (2 * i + 1) = some u

/-- **No player stands at two slots of a round.** -/
theorem Fair.slot_inj (h : Fair seed winner) :
    ∀ r i j u, slot seed winner r i = some u → slot seed winner r j = some u → i = j := by
  intro r
  induction r with
  | zero => exact h.seeds
  | succ r ih =>
    -- a player who stands twice won twice, and so stood twice in the round before
    intro i j u hi hj
    have hplayed : ∀ k, slot seed winner (r + 1) k = some u → ∃ l, slot seed winner r l = some u ∧ l / 2 = k := by
      intro k hk
      rcases h.plays r k u hk with hl | hl
      · exact ⟨2 * k, hl, by omega⟩
      · exact ⟨2 * k + 1, hl, by omega⟩
    obtain ⟨l, hl, rfl⟩ := hplayed i hi
    obtain ⟨m, hm, rfl⟩ := hplayed j hj
    rw [ih l m u hl hm]

/-- Pairing `i` of round `r` is decided. -/
def wins (winner : ℕ → ℕ → Option α) (r i : ℕ) (u : α) : ℕ → ℕ → Option α :=
  fun r' i' => if r' = r ∧ i' = i then some u else winner r' i'

theorem wins_self (winner : ℕ → ℕ → Option α) (r i : ℕ) (u : α) : wins winner r i u r i = some u :=
  if_pos ⟨rfl, rfl⟩

theorem wins_of_ne (hr : r' ≠ r) : wins winner r i u r' j = winner r' j := if_neg fun h => hr h.1

/-- The rounds up to the pairing's own are seated as before. -/
theorem slot_wins (hr : r' ≤ r) : slot seed (wins winner r i u) r' j = slot seed winner r' j := by
  cases r' with
  | zero => rfl
  | succ r' => exact wins_of_ne (by omega)

/-- **One of its players wins a pairing** of the last round. -/
theorem Fair.wins (h : Fair seed winner) (hlater : ∀ r' i', r < r' → winner r' i' = none)
    (hu : slot seed winner r (2 * i) = some u ∨ slot seed winner r (2 * i + 1) = some u) :
    Fair seed (wins winner r i u) := by
  refine ⟨h.seeds, fun r' i' v hv => ?_⟩
  by_cases hthis : r' = r ∧ i' = i
  · obtain ⟨rfl, rfl⟩ := hthis
    rw [wins_self] at hv
    cases hv
    rw [slot_wins (le_refl r'), slot_wins (le_refl r')]
    exact hu
  · have hold : winner r' i' = some v := by
      unfold Knockout.wins at hv
      rwa [if_neg hthis] at hv
    have hle : r' ≤ r := by
      by_contra hlt
      rw [hlater r' i' (by omega)] at hold
      cases hold
    rw [slot_wins hle, slot_wins hle]
    exact h.plays r' i' v hold

/-! ## How many pairings -/

/-- The pairings of round `r` of a knockout of `n` players. -/
def pairs (n r : ℕ) : ℕ := n / 2 ^ (r + 1)

theorem pairs_zero (n : ℕ) : pairs n 0 = n / 2 := by
  unfold pairs
  rw [Nat.zero_add, Nat.pow_one]

theorem pairs_succ (n r : ℕ) : pairs n (r + 1) = pairs n r / 2 := by
  unfold pairs
  rw [Nat.div_div_eq_div_mul, ← Nat.pow_succ]

theorem pairs_pos {n : ℕ} (h : 0 < pairs n r) (hle : r' ≤ r) : 0 < pairs n r' := by
  have hpow : 2 ^ (r' + 1) ≤ 2 ^ (r + 1) := Nat.pow_le_pow_right (by omega) (by omega)
  have hdiv : n / 2 ^ (r + 1) ≤ n / 2 ^ (r' + 1) := Nat.div_le_div_left hpow (Nat.pow_pos (by omega))
  unfold pairs at h ⊢
  omega

/-- A round that is not the last has twice the pairings of the next. -/
theorem pairs_double (d r : ℕ) (h : 1 < pairs (2 ^ d) r) : pairs (2 ^ d) r = 2 * pairs (2 ^ d) (r + 1) := by
  have hlt : r + 1 < d := by
    by_contra hge
    have hle : 2 ^ d ≤ 2 ^ (r + 1) := Nat.pow_le_pow_right (by omega) (by omega)
    have hone : 2 ^ d / 2 ^ (r + 1) ≤ 1 := Nat.div_le_of_le_mul (by omega)
    unfold pairs at h
    omega
  obtain ⟨k, rfl⟩ : ∃ k, d = r + 2 + k := ⟨d - (r + 2), by omega⟩
  have hpow : 0 < 2 ^ (r + 1) := Nat.pow_pos (by omega)
  have hfirst : pairs (2 ^ (r + 2 + k)) r = 2 ^ (k + 1) := by
    unfold pairs
    rw [show r + 2 + k = k + 1 + (r + 1) by omega, Nat.pow_add, Nat.mul_div_cancel _ hpow]
  rw [pairs_succ, hfirst, Nat.pow_succ]
  omega

/-- **The pairings up to round `r`**, and as many as that round has again, make up the
players. -/
theorem sum_pairs (d : ℕ) : ∀ r, 0 < pairs (2 ^ d) r →
    ((List.range (r + 1)).map (pairs (2 ^ d))).sum + pairs (2 ^ d) r = 2 ^ d := by
  intro r
  induction r with
  | zero =>
    intro h
    have hd : d ≠ 0 := by
      rintro rfl
      simp [pairs] at h
    obtain ⟨k, rfl⟩ : ∃ k, d = k + 1 := ⟨d - 1, by omega⟩
    have hhalf : pairs (2 ^ (k + 1)) 0 = 2 ^ k := by
      rw [pairs_zero, Nat.pow_succ]
      omega
    have hone : ((List.range (0 + 1)).map (pairs (2 ^ (k + 1)))).sum = pairs (2 ^ (k + 1)) 0 := by
      rw [Nat.zero_add, List.range_one, List.map_cons, List.map_nil, List.sum_cons, List.sum_nil, Nat.add_zero]
    rw [hone, hhalf, Nat.pow_succ]
    omega
  | succ r ih =>
    intro h
    have hhalf := pairs_succ (2 ^ d) r
    have hmore : 1 < pairs (2 ^ d) r := by omega
    have hdouble := pairs_double d r hmore
    have hsum := ih (by omega)
    rw [List.range_succ, List.map_append, List.sum_append]
    simp only [List.map_cons, List.map_nil, List.sum_cons, List.sum_nil]
    omega

end Murlan.Knockout
