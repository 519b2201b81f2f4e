import Mathlib.Data.Nat.Digits.Lemmas

/-!
# Numerals with leading zeros

A list of digits, the most significant one first, is given by how many zeros it leads with and by
the number it denotes.

* `recode b b' l`: the digits in base `b'` of what `l` denotes in base `b`, behind as many zeros as
  `l` leads with.
* `recode_recode`: there and back again every list of digits is itself.
* `toDigits_byte`: a byte as two hexadecimal digits.
-/

namespace Murlan

namespace Numerals

/-- The number that a list of digits denotes. -/
def value (b : ℕ) (l : List ℕ) : ℕ := Nat.ofDigits b l.reverse

/-- How many zeros a list leads with. -/
def leading (l : List ℕ) : ℕ := (l.takeWhile (· = 0)).length

/-- A numeral in one base as one in another; leading zeros stay. -/
def recode (b b' : ℕ) (l : List ℕ) : List ℕ := List.replicate (leading l) 0 ++ (Nat.digits b' (value b l)).reverse

variable {b b' : ℕ} {l : List ℕ}

@[simp] theorem value_nil (b : ℕ) : value b [] = 0 := rfl

theorem value_append_singleton (b : ℕ) (l : List ℕ) (d : ℕ) : value b (l ++ [d]) = b * value b l + d := by
  unfold value
  rw [List.reverse_append, List.reverse_singleton, List.singleton_append, Nat.ofDigits_cons, Nat.add_comm]

theorem value_cons (b : ℕ) (d : ℕ) (l : List ℕ) : value b (d :: l) = value b l + b ^ l.length * d := by
  unfold value
  rw [Nat.ofDigits_reverse_cons]

theorem value_zeros_append (b k : ℕ) (l : List ℕ) : value b (List.replicate k 0 ++ l) = value b l := by
  unfold value
  rw [List.reverse_append, List.reverse_replicate, Nat.ofDigits_append_replicate_zero]

theorem value_reverse_digits (b n : ℕ) : value b (Nat.digits b n).reverse = n := by
  unfold value
  rw [List.reverse_reverse, Nat.ofDigits_digits]

theorem value_lt (hb : 1 < b) (hl : ∀ d ∈ l, d < b) : value b l < b ^ l.length := by
  unfold value
  have hlt := Nat.ofDigits_lt_base_pow_length (l := l.reverse) hb fun d hd => hl d (List.mem_reverse.mp hd)
  rwa [List.length_reverse] at hlt

/-- Zeros put in front are the leading ones. -/
theorem leading_zeros_append (k : ℕ) (h : l.head? ≠ some 0) : leading (List.replicate k 0 ++ l) = k := by
  unfold leading
  have hnone : l.takeWhile (· = 0) = [] := by
    cases l with
    | nil => rfl
    | cons d l =>
      refine List.takeWhile_cons_of_neg ?_
      simpa using h
  rw [List.takeWhile_append_of_pos (by simp), hnone, List.append_nil, List.length_replicate]

/-- The digits of a number do not lead with a zero. -/
theorem head_reverse_digits (b n : ℕ) : (Nat.digits b n).reverse.head? ≠ some 0 := by
  rw [List.head?_reverse]
  intro hlast
  have hne : Nat.digits b n ≠ [] := by
    intro hnil
    rw [hnil] at hlast
    cases hlast
  have hn : n ≠ 0 := Nat.digits_ne_nil_iff_ne_zero.mp hne
  rw [List.getLast?_eq_some_getLast hne] at hlast
  exact Nat.getLast_digit_ne_zero b hn (Option.some.inj hlast)

theorem value_recode (b b' : ℕ) (l : List ℕ) : value b' (recode b b' l) = value b l := by
  unfold recode
  rw [value_zeros_append, value_reverse_digits]

theorem leading_recode (b b' : ℕ) (l : List ℕ) : leading (recode b b' l) = leading l :=
  leading_zeros_append _ (head_reverse_digits _ _)

/-- A list of digits is the zeros it leads with and the digits of what it denotes. -/
theorem recode_self (hb : 1 < b) (hl : ∀ d ∈ l, d < b) : recode b b l = l := by
  induction l with
  | nil => simp [recode, leading]
  | cons d l ih =>
    by_cases hd : d = 0
    · subst hd
      have hrest := ih fun x hx => hl x (List.mem_cons_of_mem _ hx)
      have hvalue : value b (0 :: l) = value b l := value_zeros_append b 1 l
      have hleading : leading (0 :: l) = leading l + 1 := by simp [leading]
      unfold recode at hrest ⊢
      rw [hvalue, hleading, List.replicate_succ, List.cons_append, hrest]
    · have hleading : leading (d :: l) = 0 := by simp [leading, hd]
      unfold recode value
      rw [hleading, List.replicate_zero, List.nil_append, Nat.digits_ofDigits b hb, List.reverse_reverse]
      · exact fun x hx => hl x (List.mem_reverse.mp hx)
      · intro hne
        rw [List.getLast_reverse]
        exact hd

theorem digits_lt_of_mem_recode (hb' : 1 < b') {d : ℕ} (h : d ∈ recode b b' l) : d < b' := by
  unfold recode at h
  rcases List.mem_append.mp h with h | h
  · rw [List.eq_of_mem_replicate h]
    omega
  · exact Nat.digits_lt_base hb' (List.mem_reverse.mp h)

/-- **There and back.** -/
theorem recode_recode (hb : 1 < b) (hl : ∀ d ∈ l, d < b) : recode b' b (recode b b' l) = l := by
  calc
    recode b' b (recode b b' l)
        = List.replicate (leading (recode b b' l)) 0 ++ (Nat.digits b (value b' (recode b b' l))).reverse := rfl
    _ = recode b b l := by
      rw [value_recode, leading_recode]
      rfl
    _ = l := recode_self hb hl

/-! ## Two hexadecimal digits -/

/-- A byte in base 16, with the zero that a short one is padded with. -/
theorem toDigits_byte {n : ℕ} (h : n < 256) :
    List.replicate (2 - (Nat.toDigits 16 n).length) '0' ++ Nat.toDigits 16 n =
      [Nat.digitChar (n / 16), Nat.digitChar (n % 16)] := by
  have hhigh : n / 16 < 16 := by omega
  by_cases hn : n < 16
  · have hzero : n / 16 = 0 := by omega
    rw [Nat.toDigits_of_lt_base hn, hzero, Nat.mod_eq_of_lt hn]
    rfl
  · rw [Nat.toDigits_of_base_le (by decide) (by omega), Nat.toDigits_of_lt_base hhigh]
    rfl

end Numerals

end Murlan
