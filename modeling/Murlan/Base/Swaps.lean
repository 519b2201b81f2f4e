import Mathlib.Algebra.BigOperators.Fin
import Mathlib.Data.Fintype.BigOperators
import Mathlib.Data.Nat.Factorial.BigOperators

/-!
# Shuffling by swaps

`swapDown js i arr` swaps, for each place from `i` down to 1, the place `k` with the place
`js k`.

* `swapDown_perm`: the result has the same elements.
* `swapDown_bijective`: if the elements are distinct and `js k` is at most `k`, every arrangement
  of them comes from exactly one choice of the `js k`, of which there are as many as arrangements
  (`card_choices`).
-/

namespace Murlan

/-- Swap the places `i` and `j`. -/
def swapAt {T : Type} (arr : List T) (i j : ℕ) : List T :=
  match arr[i]?, arr[j]? with
  | some x, some y => (arr.set i y).set j x
  | _, _ => arr

variable {T : Type} {arr t : List T} {i j k : ℕ} {js js' : ℕ → ℕ}

/-- Every place from `i` down to 1 is swapped with the one chosen for it. -/
def swapDown (js : ℕ → ℕ) : ℕ → List T → List T
  | 0, arr => arr
  | i + 1, arr => swapDown js i (swapAt arr (i + 1) (js (i + 1)))

theorem swapAt_eq (hi : i < arr.length) (hj : j < arr.length) :
    swapAt arr i j = (arr.set i arr[j]).set j arr[i] := by
  simp [swapAt, hi, hj]

theorem swapAt_perm (arr : List T) (i j : ℕ) : (swapAt arr i j).Perm arr := by
  by_cases hi : i < arr.length
  · by_cases hj : j < arr.length
    · rw [swapAt_eq hi hj]
      exact List.set_set_perm hi hj
    · simp [swapAt, hi, hj]
  · simp [swapAt, hi]

/-- A swap, place by place. -/
theorem swapAt_getElem? (hi : i < arr.length) (hj : j < arr.length) (k : ℕ) :
    (swapAt arr i j)[k]? = if k = j then arr[i]? else if k = i then arr[j]? else arr[k]? := by
  rw [swapAt_eq hi hj, List.getElem?_set, List.getElem?_set]
  by_cases hkj : k = j
  · subst hkj
    simp [hi, hj]
  · rw [if_neg (Ne.symm hkj), if_neg hkj]
    by_cases hki : k = i
    · subst hki
      simp [hi, hj]
    · rw [if_neg (Ne.symm hki), if_neg hki]

theorem swapDown_perm (js : ℕ → ℕ) (i : ℕ) : ∀ arr : List T, (swapDown js i arr).Perm arr := by
  induction i with
  | zero => exact fun arr => List.Perm.refl arr
  | succ i ih => exact fun arr => (ih _).trans (swapAt_perm arr (i + 1) _)

/-- Only the choices for the places from `i` down to 1 matter. -/
theorem swapDown_congr (h : ∀ k, 1 ≤ k → k ≤ i → js k = js' k) (arr : List T) :
    swapDown js i arr = swapDown js' i arr := by
  induction i generalizing arr with
  | zero => rfl
  | succ i ih =>
    rw [swapDown, swapDown, h (i + 1) (by omega) (by omega)]
    exact ih (fun k h1 hk => h k h1 (by omega)) _

/-- The places from 1 to `i` are swapped with no higher one. -/
def Bounded (js : ℕ → ℕ) (i : ℕ) : Prop := ∀ k, 1 ≤ k → k ≤ i → js k ≤ k

theorem Bounded.pred (h : Bounded js (i + 1)) : Bounded js i := fun k h1 hk => h k h1 (by omega)

/-- A place is final once it has been swapped. -/
theorem swapDown_above (hb : Bounded js i) (hi : i < arr.length) (hk : i < k) :
    (swapDown js i arr)[k]? = arr[k]? := by
  induction i generalizing arr with
  | zero => rfl
  | succ i ih =>
    have hj := hb (i + 1) (by omega) (by omega)
    have hlen : (swapAt arr (i + 1) (js (i + 1))).length = arr.length := (swapAt_perm arr _ _).length_eq
    rw [swapDown, ih hb.pred (by omega) (by omega), swapAt_getElem? hi (by omega), if_neg (by omega), if_neg (by omega)]

/-- The place `i` gets the element of the chosen place. -/
theorem swapDown_top (hb : Bounded js (i + 1)) (hi : i + 1 < arr.length) :
    (swapDown js (i + 1) arr)[i + 1]? = arr[js (i + 1)]? := by
  have hj := hb (i + 1) (by omega) (by omega)
  have hlen : (swapAt arr (i + 1) (js (i + 1))).length = arr.length := (swapAt_perm arr _ _).length_eq
  rw [swapDown, swapDown_above hb.pred (by omega) (by omega), swapAt_getElem? hi (by omega)]
  split
  · rename_i h
    rw [← h]
  · simp

/-- **Different choices give different arrangements.** -/
theorem swapDown_injective (hnd : arr.Nodup) (hi : i < arr.length) (hb : Bounded js i) (hb' : Bounded js' i)
    (h : swapDown js i arr = swapDown js' i arr) : ∀ k, 1 ≤ k → k ≤ i → js k = js' k := by
  induction i generalizing arr with
  | zero =>
    intro k h1 hk
    omega
  | succ i ih =>
    have htop : js (i + 1) = js' (i + 1) := by
      have hj := hb (i + 1) (by omega) (by omega)
      have hget := swapDown_top hb hi
      rw [h, swapDown_top hb' hi] at hget
      exact ((List.getElem?_inj (by omega) hnd).1 hget.symm)
    have hp := swapAt_perm arr (i + 1) (js (i + 1))
    have hndp : (swapAt arr (i + 1) (js (i + 1))).Nodup := hp.nodup_iff.2 hnd
    have hrest : ∀ k, 1 ≤ k → k ≤ i → js k = js' k := by
      refine ih hndp (by rw [hp.length_eq]; omega) hb.pred hb'.pred ?_
      rw [swapDown, swapDown, ← htop] at h
      exact h
    intro k h1 hk
    by_cases hki : k = i + 1
    · rw [hki, htop]
    · exact hrest k h1 (by omega)

/-- Lists with the same distinct elements that agree but for the first place. -/
theorem eq_of_tail (hnd : arr.Nodup) (hp : t.Perm arr) (h : ∀ k, 0 < k → t[k]? = arr[k]?) : t = arr := by
  cases arr with
  | nil => exact hp.eq_nil
  | cons a l =>
    cases t with
    | nil => exact absurd hp.symm.eq_nil (by simp)
    | cons b l' =>
      have htail : l' = l := by
        refine List.ext_getElem? fun k => ?_
        have := h (k + 1) (by omega)
        rwa [List.getElem?_cons_succ, List.getElem?_cons_succ] at this
      subst htail
      have hnd' := hp.nodup_iff.2 hnd
      have hmem := hp.mem_iff.1 (List.mem_cons_self (a := b) (l := l'))
      rcases List.mem_cons.1 hmem with hba | hbl
      · rw [hba]
      · exact absurd hbl (List.nodup_cons.1 hnd').1

/-- **Every arrangement is reached** that keeps the places above `i`. -/
theorem swapDown_surjective (hnd : arr.Nodup) (hp : t.Perm arr) (hi : i < arr.length)
    (h : ∀ k, i < k → t[k]? = arr[k]?) : ∃ js, Bounded js i ∧ swapDown js i arr = t := by
  induction i generalizing arr with
  | zero => exact ⟨fun _ => 0, fun k h1 hk => by omega, (eq_of_tail hnd hp h).symm⟩
  | succ i ih =>
    have hlen := hp.length_eq
    have hndt := hp.nodup_iff.2 hnd
    -- the element that belongs to the place `i + 1` lies there or below
    obtain ⟨j, hj, hget⟩ := List.mem_iff_getElem.1 (hp.mem_iff.1 (List.getElem_mem (l := t) (n := i + 1) (by omega)))
    have hget' : arr[j]? = t[i + 1]? := by
      rw [List.getElem?_eq_getElem hj, hget, List.getElem?_eq_getElem]
    have hle : j ≤ i + 1 := by
      by_contra hgt
      rw [← h j (by omega)] at hget'
      exact absurd ((List.getElem?_inj (by omega) hndt).1 hget') (by omega)
    have hpa := swapAt_perm arr (i + 1) j
    have hndp : (swapAt arr (i + 1) j).Nodup := hpa.nodup_iff.2 hnd
    obtain ⟨js, hb, hdown⟩ := ih hndp (hp.trans hpa.symm)
      (by rw [hpa.length_eq]; omega) (by
        intro k hk
        rw [swapAt_getElem? hi hj]
        by_cases hki : k = i + 1
        · subst hki
          split
          · rename_i hij
            rw [← hget', ← hij]
          · rw [if_pos rfl, hget']
        · rw [if_neg (by omega), if_neg hki]
          exact h k (by omega))
    refine ⟨Function.update js (i + 1) j, ?_, ?_⟩
    · intro k h1 hk
      by_cases hki : k = i + 1
      · subst hki
        rw [Function.update_self]
        exact hle
      · rw [Function.update_of_ne hki]
        exact hb k h1 (by omega)
    · rw [swapDown, Function.update_self, ← hdown]
      refine swapDown_congr (fun k h1 hk => ?_) _
      rw [Function.update_of_ne (by omega)]

/-! ## Choices -/

/-- The choices for the places from `n` down to 1: at most `k` for the place `k`. -/
abbrev Choices (n : ℕ) : Type := ∀ i : Fin n, Fin (i + 2)

/-- The choice for each place. -/
def Choices.at {n : ℕ} (c : Choices n) (k : ℕ) : ℕ := if h : k - 1 < n then (c ⟨k - 1, h⟩ : ℕ) else 0

theorem Choices.bounded {n : ℕ} (c : Choices n) : Bounded c.at n := by
  intro k h1 hk
  rw [Choices.at, dif_pos (by omega)]
  have := (c ⟨k - 1, by omega⟩).isLt
  simp only at this
  omega

theorem card_choices (n : ℕ) : Fintype.card (Choices n) = (n + 1).factorial := by
  rw [Fintype.card_pi]
  simp only [Fintype.card_fin]
  rw [Fin.prod_univ_eq_prod_range (fun i => i + 2) n, ← Finset.prod_range_add_one_eq_factorial,
    Finset.prod_range_succ']
  simp

/-- The arrangement that a choice leads to. -/
def arrangement (arr : List T) (c : Choices (arr.length - 1)) : {l : List T // l.Perm arr} :=
  ⟨swapDown c.at (arr.length - 1) arr, swapDown_perm _ _ _⟩

/-- **Every arrangement of distinct elements comes from exactly one choice.** -/
theorem swapDown_bijective (hnd : arr.Nodup) : Function.Bijective (arrangement arr) := by
  by_cases hne : arr.length = 0
  · have hnil := List.length_eq_zero_iff.1 hne
    subst hnil
    refine ⟨fun c c' _ => funext fun i => i.elim0, ?_⟩
    rintro ⟨l, hl⟩
    refine ⟨fun i => i.elim0, Subtype.ext ?_⟩
    exact hl.eq_nil.symm
  · have hi : arr.length - 1 < arr.length := by omega
    constructor
    · intro c c' h
      have heq := swapDown_injective hnd hi c.bounded c'.bounded (congrArg Subtype.val h)
      funext ⟨k, hk⟩
      have := heq (k + 1) (by omega) (by omega)
      simp only [Choices.at, Nat.add_sub_cancel, hk, dif_pos] at this
      exact Fin.ext this
    · rintro ⟨l, hl⟩
      obtain ⟨js, hb, hdown⟩ := swapDown_surjective hnd hl hi (fun k hk => by
        rw [List.getElem?_eq_none (by rw [hl.length_eq]; omega), List.getElem?_eq_none (by omega)])
      refine ⟨fun k => ⟨js (k + 1), by have := hb (k + 1) (by omega) (by omega); omega⟩, Subtype.ext ?_⟩
      refine Eq.trans (swapDown_congr (fun k h1 hk => ?_) arr) hdown
      rw [Choices.at, dif_pos (by omega)]
      simp only [Nat.sub_add_cancel h1]

end Murlan
