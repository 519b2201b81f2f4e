import Mathlib.Algebra.Ring.Nat
import Mathlib.Data.List.Nodup

/-!
# Credits under unique references

A book holds amounts under references, each reference once: a credit whose reference is
booked already changes nothing.

* `amount_credit`, `mem_refs_credit`: what a credit changes.
* `total_eq_sum`: the total over a kind of references is the sum of the amounts under the
  references of that kind, each counted once.
-/

namespace Murlan

/-- Amounts under references, no reference twice. -/
structure Book (R : Type*) where
  entries : List (R × ℕ) := []
  nodup : (entries.map Prod.fst).Nodup := by simp

namespace Book

theorem sum_add {α : Type*} (rs : List α) (f g : α → ℕ) :
    (rs.map fun r => f r + g r).sum = (rs.map f).sum + (rs.map g).sum := by
  induction rs with
  | nil => rfl
  | cons r rs ih =>
    simp only [List.map_cons, List.sum_cons, ih]
    omega

variable {R : Type*} [DecidableEq R]

/-- The references booked so far. -/
def refs (b : Book R) : List R := b.entries.map Prod.fst

/-- What is booked under a reference; nothing is zero. -/
def amount (b : Book R) (r : R) : ℕ := ((b.entries.find? fun e => e.1 = r).map Prod.snd).getD 0

/-- What is booked under the references of a kind. -/
def total (b : Book R) (p : R → Prop) [DecidablePred p] : ℕ :=
  ((b.entries.filter fun e => p e.1).map Prod.snd).sum

/-- Book an amount, once. -/
def credit (b : Book R) (r : R) (a : ℕ) : Book R :=
  if h : r ∈ b.refs then b
  else
    { entries := b.entries ++ [(r, a)]
      nodup := by
        rw [List.map_append]
        exact List.Nodup.append b.nodup (by simp) (by simpa [refs] using h) }

variable {b : Book R} {r s : R} {a : ℕ}

theorem credit_of_mem (h : r ∈ b.refs) : b.credit r a = b := dif_pos h

theorem entries_credit (h : r ∉ b.refs) : (b.credit r a).entries = b.entries ++ [(r, a)] := by
  rw [credit, dif_neg h]

/-- A credit adds its reference, at most. -/
theorem mem_refs_credit : s ∈ (b.credit r a).refs ↔ s ∈ b.refs ∨ s = r := by
  by_cases h : r ∈ b.refs
  · rw [credit_of_mem h]
    constructor
    · exact .inl
    · rintro (hs | rfl)
      · exact hs
      · exact h
  · simp [refs, entries_credit h]

theorem amount_of_not_mem (h : r ∉ b.refs) : b.amount r = 0 := by
  have hnone : b.entries.find? (fun e => e.1 = r) = none := by
    rw [List.find?_eq_none]
    rintro e he hr
    exact h (List.mem_map.mpr ⟨e, he, by simpa using hr⟩)
  rw [amount, hnone]
  rfl

/-- A new credit sets its own amount and no other. -/
theorem amount_credit (h : r ∉ b.refs) :
    (b.credit r a).amount s = if s = r then a else b.amount s := by
  by_cases hs : s = r
  · subst hs
    have hnone : b.entries.find? (fun e => e.1 = s) = none := by
      rw [List.find?_eq_none]
      rintro e he hr
      exact h (List.mem_map.mpr ⟨e, he, by simpa using hr⟩)
    simp [amount, entries_credit h, List.find?_append, hnone]
  · have hlast : ([(r, a)] : List (R × ℕ)).find? (fun e => e.1 = s) = none := by
      simp [Ne.symm hs]
    simp [amount, entries_credit h, List.find?_append, hlast, hs]

theorem amount_credit_ne (h : s ≠ r) : (b.credit r a).amount s = b.amount s := by
  by_cases hr : r ∈ b.refs
  · rw [credit_of_mem hr]
  · rw [amount_credit hr, if_neg h]

/-- A new credit counts under its own kind. -/
theorem total_credit (h : r ∉ b.refs) (p : R → Prop) [DecidablePred p] :
    (b.credit r a).total p = b.total p + if p r then a else 0 := by
  unfold total
  rw [entries_credit h, List.filter_append, List.map_append, List.sum_append]
  by_cases hr : p r
  · simp [hr]
  · simp [hr]

/-- One reference of a list contributes. -/
theorem sum_ite_ref {rs : List R} (hrs : rs.Nodup) (r : R) (a : ℕ) :
    (rs.map fun s => if s = r then a else 0).sum = if r ∈ rs then a else 0 := by
  induction rs with
  | nil => simp
  | cons s rs ih =>
    rw [List.nodup_cons] at hrs
    rw [List.map_cons, List.sum_cons, ih hrs.2]
    by_cases hs : s = r
    · subst hs
      simp [hrs.1]
    · simp [hs, Ne.symm hs]

/-- Each reference of the list contributes its amount, and no other entry of its kind exists. -/
theorem sum_find {p : R → Prop} [DecidablePred p] {rs : List R} (hrs : rs.Nodup) :
    ∀ {es : List (R × ℕ)}, (es.map Prod.fst).Nodup → (∀ e ∈ es, p e.1 ↔ e.1 ∈ rs) →
      ((es.filter fun e => p e.1).map Prod.snd).sum =
        (rs.map fun r => ((es.find? fun e => e.1 = r).map Prod.snd).getD 0).sum := by
  intro es
  induction es with
  | nil => simp
  | cons e es ih =>
    intro hnodup hkind
    rw [List.map_cons, List.nodup_cons] at hnodup
    have hrest := ih hnodup.2 fun e' he' => hkind e' (List.mem_cons_of_mem _ he')
    have hnone : es.find? (fun e' => e'.1 = e.1) = none := by
      rw [List.find?_eq_none]
      rintro e' he' hr
      exact hnodup.1 (List.mem_map.mpr ⟨e', he', by simpa using hr⟩)
    -- the head counts under its own reference only
    have hsplit : ∀ r, (((e :: es).find? fun e => e.1 = r).map Prod.snd).getD 0 =
        (if r = e.1 then e.2 else 0) + ((es.find? fun e => e.1 = r).map Prod.snd).getD 0 := by
      intro r
      by_cases hr : r = e.1
      · subst hr
        simp [hnone]
      · simp [Ne.symm hr, hr]
    simp only [hsplit, sum_add, sum_ite_ref hrs, ← hrest]
    have hhead := hkind e (by simp)
    by_cases hp : p e.1
    · simp [hp, hhead.mp hp]
    · have hmem : e.1 ∉ rs := fun hmem => hp (hhead.mpr hmem)
      simp [hp, hmem]

/-- **The total over a kind of references**: the amounts under them, each once. -/
theorem total_eq_sum (b : Book R) {p : R → Prop} [DecidablePred p] (rs : List R) (hrs : rs.Nodup)
    (hkind : ∀ r ∈ b.refs, p r ↔ r ∈ rs) : b.total p = (rs.map b.amount).sum :=
  sum_find hrs b.nodup fun e he => hkind e.1 (List.mem_map.mpr ⟨e, he, rfl⟩)

/-! ## Amounts under a family of references -/

section Family

variable {α : Type*} {us : List α} {f : α → R}

/-- A credit to one of a family keeps what is known of the family. -/
theorem credit_family {P : α → ℕ → Prop} {x : α} {a : ℕ}
    (h : ∀ u, f u ∈ b.refs → P u (b.amount (f u))) (hx : P x a) (hf : ∀ u, f u = f x → u = x) :
    ∀ u, f u ∈ (b.credit (f x) a).refs → P u ((b.credit (f x) a).amount (f u)) := by
  intro u hu
  by_cases hold : f x ∈ b.refs
  · rw [credit_of_mem hold] at hu ⊢
    exact h u hu
  · rw [amount_credit hold]
    rcases mem_refs_credit.mp hu with hmem | heq
    · have hne : f u ≠ f x := by
        intro heq
        rw [heq] at hmem
        exact hold hmem
      rw [if_neg hne]
      exact h u hmem
    · rw [if_pos heq, hf u heq]
      exact hx

/-- Small amounts sum to a small amount. -/
theorem sum_amounts_le (h : ∀ u ∈ us, b.amount (f u) ≤ a) :
    (us.map fun u => b.amount (f u)).sum ≤ a * us.length := by
  induction us with
  | nil => simp
  | cons u us ih =>
    have hu := h u (by simp)
    have hrest := ih fun v hv => h v (List.mem_cons_of_mem u hv)
    rw [List.map_cons, List.sum_cons, List.length_cons, Nat.mul_succ]
    omega

/-- Equal amounts sum to a product. -/
theorem sum_amounts_eq (h : ∀ u ∈ us, b.amount (f u) = a) :
    (us.map fun u => b.amount (f u)).sum = a * us.length := by
  induction us with
  | nil => simp
  | cons u us ih =>
    have hu := h u (by simp)
    have hrest := ih fun v hv => h v (List.mem_cons_of_mem u hv)
    rw [List.map_cons, List.sum_cons, List.length_cons, Nat.mul_succ]
    omega

theorem sum_amounts_zero (h : ∀ u ∈ us, f u ∉ b.refs) : (us.map fun u => b.amount (f u)).sum = 0 := by
  have hsum := sum_amounts_eq (a := 0) fun u hu => amount_of_not_mem (h u hu)
  rwa [Nat.zero_mul] at hsum

end Family

end Book

end Murlan
