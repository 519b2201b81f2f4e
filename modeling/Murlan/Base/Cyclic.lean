import Mathlib.Data.List.Basic
import Mathlib.Data.List.Find
import Mathlib.Data.Nat.ModEq
import Mathlib.Tactic.Ring

/-!
# The next index round a table

`Cyclic.next n p a` walks the indices after `a` modulo `n`, once round the table
(ending with `a` itself), and returns the first that satisfies `p`.

* `next_spec`: what a returned index satisfies.
* `next_isSome`: the search finds an index as soon as one below `n` satisfies `p`.
* `Reaches`: a walk from `a` to `t` that meets no index satisfying `p` on its way;
  `next_reaches` and `Reaches.next`: a search ends one, and goes on with one.
* `Between`: the indices strictly between two others.
* `first n p a`: `a` itself, or the next index; `first_keep` and `first_move` follow it
  while `p` loses indices one by one.
-/

namespace Murlan.Cyclic

variable {n a s : ℕ} {p q : ℕ → Bool}

/-- The first index after `a`, in cyclic order below `n`, that satisfies `p`. -/
def next (n : ℕ) (p : ℕ → Bool) (a : ℕ) : Option ℕ :=
  ((List.range n).map fun i => (a + (i + 1)) % n).find? p

theorem next_spec (h : next n p a = some s) : s < n ∧ p s = true := by
  unfold next at h
  refine ⟨?_, List.find?_some h⟩
  obtain ⟨i, hi, rfl⟩ := List.mem_map.1 (List.mem_of_find?_eq_some h)
  exact Nat.mod_lt _ (by have := List.mem_range.1 hi; omega)

/-- Every index below `n` is met on one walk round the table. -/
theorem mem_walk (a : ℕ) (hs : s < n) : s ∈ (List.range n).map fun i => (a + (i + 1)) % n := by
  have hn : 0 < n := by omega
  have ha := Nat.mod_lt a hn
  rw [List.mem_map]
  -- the offset of `s` from `a + 1`
  refine ⟨(s + (n - 1 - a % n)) % n, List.mem_range.2 (Nat.mod_lt _ hn), ?_⟩
  have hsum : a + (s + (n - 1 - a % n) + 1) = s + n * (a / n + 1) := by
    have := Nat.div_add_mod a n
    have h3 : n * (a / n + 1) = n * (a / n) + n := by ring
    omega
  calc (a + ((s + (n - 1 - a % n)) % n + 1)) % n = (a + (s + (n - 1 - a % n) + 1)) % n := by
        rw [← Nat.add_mod_mod a, Nat.mod_add_mod, Nat.add_mod_mod]
    _ = s := by rw [hsum, Nat.add_mul_mod_self_left, Nat.mod_eq_of_lt hs]

theorem next_isSome (hs : s < n) (hp : p s = true) : ∃ t, next n p a = some t := by
  unfold next
  rw [← Option.isSome_iff_exists, List.find?_isSome]
  exact ⟨s, mem_walk a hs, hp⟩

/-- Nothing is next exactly if nothing qualifies. -/
theorem next_eq_none : next n p a = none ↔ ∀ s, s < n → p s = false := by
  constructor
  · intro h s hs
    by_contra hp
    obtain ⟨t, ht⟩ := next_isSome (a := a) hs (by simpa using hp)
    rw [h] at ht; cases ht
  · intro h
    cases hx : next n p a with
    | none => rfl
    | some t =>
      obtain ⟨h1, h2⟩ := next_spec hx
      rw [h t h1] at h2; cases h2

/-- Only the indices below `n` matter. -/
theorem next_congr (h : ∀ s < n, p s = q s) : next n p a = next n q a := by
  unfold next
  refine List.find?_congr fun s hs => ?_
  obtain ⟨i, hi, rfl⟩ := List.mem_map.1 hs
  rw [List.mem_range] at hi
  exact h _ (Nat.mod_lt _ (by omega))

/-! ## Walks -/

/-- The walk visits every place once. -/
theorem walk_injective (a : ℕ) {i j : ℕ} (hi : i < n) (hj : j < n) (h : (a + (i + 1)) % n = (a + (j + 1)) % n) :
    i = j := by
  have hmod : i + (a + 1) ≡ j + (a + 1) [MOD n] := by
    unfold Nat.ModEq
    rw [show i + (a + 1) = a + (i + 1) by omega, show j + (a + 1) = a + (j + 1) by omega]
    exact h
  have hij : i % n = j % n := Nat.ModEq.add_right_cancel' (a + 1) hmod
  rwa [Nat.mod_eq_of_lt hi, Nat.mod_eq_of_lt hj] at hij

/-- The walk from `a` comes to `t`, and meets no index that satisfies `p` before. -/
def Reaches (n : ℕ) (p : ℕ → Bool) (a t : ℕ) : Prop :=
  ∃ j < n, t = (a + (j + 1)) % n ∧ ∀ i < j, p ((a + (i + 1)) % n) = false

/-- The index `s` is met on the walk from `a` before `t` is. -/
def Between (n a t s : ℕ) : Prop :=
  ∃ j < n, t = (a + (j + 1)) % n ∧ ∃ i < j, s = (a + (i + 1)) % n

/-- The walk stops sooner when more qualify. -/
theorem Reaches.mono {t : ℕ} (h : Reaches n p a t) (hpq : ∀ s, q s = true → p s = true) : Reaches n q a t := by
  obtain ⟨j, hj, ht, hno⟩ := h
  refine ⟨j, hj, ht, fun i hi => ?_⟩
  by_contra hq
  rw [Bool.not_eq_false] at hq
  have := hno i hi
  rw [hpq _ hq] at this
  cases this

theorem Reaches.between {t : ℕ} (h : Reaches n p a t) (hs : Between n a t s) : p s = false := by
  obtain ⟨j, hj, ht, hno⟩ := h
  obtain ⟨j', hj', ht', i, hi, rfl⟩ := hs
  have hjj : j = j' := walk_injective a hj hj' (ht.symm.trans ht')
  exact hno i (hjj ▸ hi)

/-- A search ends a walk. -/
theorem next_reaches (h : next n p a = some s) : Reaches n p a s := by
  unfold next at h
  obtain ⟨-, j, hj, hs, hno⟩ := List.find?_eq_some_iff_getElem.1 h
  rw [List.length_map, List.length_range] at hj
  refine ⟨j, hj, ?_, fun i hi => ?_⟩
  · rw [← hs]
    simp
  · have := hno i hi
    simpa using this

/-- A search from the end of a walk goes on with it. -/
theorem Reaches.next {b t : ℕ} (h : Reaches n p a b) (hb : p b = false) (ht : next n p b = some t) :
    Reaches n p a t := by
  obtain ⟨j, hj, rfl, hno⟩ := h
  obtain ⟨k, hk, ht', hno'⟩ := next_reaches ht
  have hp := (next_spec ht).2
  have hoff : ∀ i, ((a + (j + 1)) % n + (i + 1)) % n = (a + (j + 1 + i + 1)) % n := by
    intro i
    rw [Nat.mod_add_mod]
    congr 1
    omega
  -- all that the walk has met so far fails `p`
  have hswept : ∀ i ≤ j, p ((a + (i + 1)) % n) = false := by
    intro i hi
    rcases Nat.lt_or_eq_of_le hi with hi | rfl
    · exact hno i hi
    · exact hb
  rw [hoff] at ht'
  by_cases hlt : j + 1 + k < n
  · refine ⟨j + 1 + k, hlt, ht', fun i hi => ?_⟩
    by_cases hij : i ≤ j
    · exact hswept i hij
    · have := hno' (i - (j + 1)) (by omega)
      rw [hoff, show j + 1 + (i - (j + 1)) + 1 = i + 1 by omega] at this
      exact this
  · exfalso
    have hback : (a + (j + 1 + k + 1)) % n = (a + (j + 1 + k - n + 1)) % n := by
      rw [show a + (j + 1 + k + 1) = a + (j + 1 + k - n + 1) + n by omega, Nat.add_mod_right]
    rw [ht', hback, hswept (j + 1 + k - n) (by omega)] at hp
    cases hp

/-- A walk that leaves out an index other than `a` has not come back to `a`. -/
theorem Reaches.ne_self {t : ℕ} (h : Reaches n p a t) (ha : a < n) (hs : s < n) (hp : p s = true) (hne : s ≠ a) :
    t ≠ a := by
  rintro rfl
  obtain ⟨j, hj, ht, hno⟩ := h
  obtain ⟨i, hi, hsi⟩ := List.mem_map.1 (mem_walk t hs)
  rw [List.mem_range] at hi
  have hjn : j = n - 1 := by
    refine walk_injective t hj (by omega) (ht.symm.trans ?_)
    rw [show n - 1 + 1 = n by omega, Nat.add_mod_right, Nat.mod_eq_of_lt ha]
  by_cases hij : i < j
  · have := hno i hij
    rw [hsi, hp] at this
    cases this
  · have hi' : i = n - 1 := by omega
    rw [hi', show n - 1 + 1 = n by omega, Nat.add_mod_right, Nat.mod_eq_of_lt ha] at hsi
    exact hne hsi.symm

/-- A walk that ends at an index satisfying `p` is a search. -/
theorem Reaches.next_eq {t : ℕ} (h : Reaches n p a t) (hp : p t = true) : Cyclic.next n p a = some t := by
  obtain ⟨j, hj, rfl, hno⟩ := h
  unfold Cyclic.next
  rw [List.find?_eq_some_iff_getElem]
  refine ⟨hp, j, by simpa using hj, by simp, fun i hi => ?_⟩
  simpa using hno i hi

/-! ## The first index from a place on -/

/-- The first index from `a` on, in cyclic order below `n`, that satisfies `p`. -/
def first (n : ℕ) (p : ℕ → Bool) (a : ℕ) : Option ℕ := if p a then some a else next n p a

/-- The first index stays the first while it satisfies what the others may lose. -/
theorem first_keep (h : first n p a = some s) (hs : q s = true) (hqp : ∀ s, q s = true → p s = true) :
    first n q a = some s := by
  unfold first at h ⊢
  split at h
  · cases h
    rw [if_pos hs]
  · rename_i hpa
    have hqa : ¬ q a = true := fun hqa => hpa (hqp a hqa)
    rw [if_neg hqa]
    exact ((next_reaches h).mono hqp).next_eq hs

/-- Once the first index fails, the next one after it is the first. -/
theorem first_move {t : ℕ} (h : first n p a = some s) (hs : q s = false) (hqp : ∀ s, q s = true → p s = true)
    (ht : next n q s = some t) : first n q a = some t := by
  unfold first at h ⊢
  split at h
  · cases h
    rw [hs, if_neg Bool.false_ne_true]
    exact ht
  · rename_i hpa
    have hqa : ¬ q a = true := fun hqa => hpa (hqp a hqa)
    rw [if_neg hqa]
    exact (((next_reaches h).mono hqp).next hs ht).next_eq (next_spec ht).2

end Murlan.Cyclic
