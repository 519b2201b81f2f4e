import Murlan.Proof.Quests
import Murlan.Spec.WeekKey

/-!
# Week keys name weeks from the year 100 on

`Date.UTC` takes the years 1 to 99 for 1901 to 1999, so that the key of an instant in one of them
is the key of the instant that has the same date 1900 years later (`named`). Those dates fall on
other days of the week.

* `key_iff`: two instants have the same key exactly if their named days are in one week.
* `weekKey_tells`: when this tells weeks apart.
* `isoWeekKey_nat`: from 1970 on, the key is the one the quests are picked by.
-/

namespace Murlan.Calendar

open Gregorian

variable {a b d w v : ℤ}

/-- The day that the key of a day is taken from. -/
def named (d : ℤ) : ℤ := if yearOf d ≤ 99 then d + 693960 else d

/-- Early years, as the source shifts them. -/
theorem yearStart_later {y : ℤ} (h1 : 1 ≤ y) (h99 : y ≤ 99) :
    yearStart (1900 + y) = yearStart y + 693960 ∧ leapYear (1900 + y) = leapYear y := by
  constructor
  · unfold yearStart
    omega
  · unfold leapYear
    have h4 : (1900 + y) % 4 = y % 4 := by omega
    have h100 : (1900 + y) % 100 = y % 100 := by omega
    have hne : y % 100 ≠ 0 := by omega
    rw [h4, h100]
    simp [hne]

/-- `Date.UTC` of the date of a day. -/
theorem dateUTC_civil (h1 : 1 ≤ yearOf d) : dateUTC (civil d).1 (civil d).2.1 (civil d).2.2 = named d := by
  unfold dateUTC named
  rw [show (civil d).1 = yearOf d from rfl]
  unfold fullYear
  by_cases h99 : yearOf d ≤ 99
  · obtain ⟨hstart, hleap⟩ := yearStart_later h1 h99
    rw [if_pos ⟨by omega, h99⟩, if_pos h99, makeDay_civil_year hleap, hstart]
    omega
  · rw [if_neg (by omega), if_neg h99]
    exact makeDay_civil d

/-- The Thursday of the week of a day. -/
theorem thursday_eq (d : ℤ) :
    setUTCDate d ((civil d).2.2 + 4 - if utcDay d = 0 then 7 else utcDay d) = 7 * weekNumber d := by
  have hday := makeDay_civil d
  unfold setUTCDate
  rw [show (civil d).2.2 + 4 - (if utcDay d = 0 then 7 else utcDay d) =
    (civil d).2.2 + (4 - if utcDay d = 0 then 7 else utcDay d) by omega, makeDay_add, hday]
  unfold utcDay weekNumber
  split
  · omega
  · omega

/-- The key of the week with a number. -/
def keyOf (w : ℤ) : String :=
  String.ofList (decimal (yearOf (7 * w)) ++
    '-' :: 'W' :: (decimal ((7 * w - dateUTC (yearOf (7 * w)) 0 1 + 1 + 6) / 7)).leftpad 2 '0')

theorem isoWeekKey_named (h1 : 1 ≤ getUTCFullYear a) : isoWeekKey a = keyOf (weekNumber (named (dayOf a))) := by
  unfold isoWeekKey keyOf
  simp only
  rw [dateUTC_civil h1, thursday_eq]

/-! ## A key is of one week -/

theorem decimal_nonneg {n : ℤ} (h : 0 ≤ n) : decimal n = Nat.toDigits 10 n.toNat := if_neg (by omega)

theorem toDigits_injective {m n : ℕ} (h : Nat.toDigits 10 m = Nat.toDigits 10 n) : m = n := by
  have hval := congrArg (fun l => Nat.ofDigitChars 10 l 0) h
  simpa only [Nat.ofDigitChars_ten_toDigits] using hval

/-- A week number is told by its text, with a sign or with a zero in front. -/
theorem decimal_padded_injective {m n : ℤ} (h : (decimal m).leftpad 2 '0' = (decimal n).leftpad 2 '0') : m = n := by
  have hlong : ∀ k : ℤ, k < 0 → (decimal k).leftpad 2 '0' = '-' :: Nat.toDigits 10 k.natAbs := by
    intro k hk
    have hlen := Nat.length_toDigits_pos (b := 10) (n := k.natAbs)
    unfold decimal List.leftpad
    rw [if_pos hk, List.length_cons, show 2 - ((Nat.toDigits 10 k.natAbs).length + 1) = 0 by omega]
    rfl
  have hshort : ∀ k : ℤ, 0 ≤ k → (decimal k).leftpad 2 '0' = padded 2 k.toNat := by
    intro k hk
    rw [decimal_nonneg hk]
    rfl
  rcases lt_or_ge m 0 with hm | hm
  · rcases lt_or_ge n 0 with hn | hn
    · rw [hlong m hm, hlong n hn, List.cons.injEq] at h
      have := toDigits_injective h.2
      omega
    · rw [hlong m hm, hshort n hn] at h
      exact absurd (h ▸ List.mem_cons_self) (dash_notMem_padded 2 n.toNat)
  · rcases lt_or_ge n 0 with hn | hn
    · rw [hshort m hm, hlong n hn] at h
      exact absurd (h ▸ List.mem_cons_self) (dash_notMem_padded 2 m.toNat)
    · rw [hshort m hm, hshort n hn] at h
      have := padded_injective 2 h
      omega

/-- **Different weeks have different keys.** -/
theorem keyOf_injective (hw : 0 ≤ yearOf (7 * w)) (hv : 0 ≤ yearOf (7 * v)) (h : keyOf w = keyOf v) : w = v := by
  have hlist := String.ofList_injective h
  rw [decimal_nonneg hw, decimal_nonneg hv] at hlist
  obtain ⟨hyear, hrest⟩ : Nat.toDigits 10 (yearOf (7 * w)).toNat = Nat.toDigits 10 (yearOf (7 * v)).toNat ∧
      (decimal ((7 * w - dateUTC (yearOf (7 * w)) 0 1 + 1 + 6) / 7)).leftpad 2 '0' =
        (decimal ((7 * v - dateUTC (yearOf (7 * v)) 0 1 + 1 + 6) / 7)).leftpad 2 '0' := by
    have key : ∀ {x y : List Char} {m n : ℕ}, Nat.toDigits 10 m ++ '-' :: 'W' :: x = Nat.toDigits 10 n ++ '-' :: 'W' :: y →
        Nat.toDigits 10 m = Nat.toDigits 10 n ∧ x = y := by
      intro x y m n h
      have htake : ∀ (x : List Char) (n : ℕ),
          (Nat.toDigits 10 n ++ '-' :: 'W' :: x).takeWhile (· ≠ '-') = Nat.toDigits 10 n := by
        intro x n
        have hall : ∀ c ∈ Nat.toDigits 10 n, decide (c ≠ '-') = true := by
          intro c hc
          rw [decide_eq_true_eq]
          rintro rfl
          exact dash_notMem_toDigits n hc
        rw [List.takeWhile_append_of_pos hall]
        simp
      have hd : Nat.toDigits 10 m = Nat.toDigits 10 n := by
        rw [← htake x m, h, htake y n]
      rw [hd] at h
      exact ⟨hd, by simpa using h⟩
    exact key hlist
  have hyear' : yearOf (7 * w) = yearOf (7 * v) := by
    have := toDigits_injective hyear
    omega
  have hweek := decimal_padded_injective hrest
  rw [hyear'] at hweek
  omega

/-- The year of the Thursday of a named day is not negative. -/
theorem named_year (h1 : 1 ≤ yearOf d) : 0 ≤ yearOf (7 * weekNumber (named d)) := by
  have hstart := le_yearOf.1 h1
  rw [le_yearOf]
  unfold named weekNumber
  have h0 : yearStart 0 = -719528 := by decide
  have h1' : yearStart 1 = -719162 := by decide
  split
  · omega
  · omega

/-- **Two instants have the same key** exactly if their named days are in one week. -/
theorem key_iff (ha : 1 ≤ getUTCFullYear a) (hb : 1 ≤ getUTCFullYear b) :
    isoWeekKey a = isoWeekKey b ↔ weekNumber (named (dayOf a)) = weekNumber (named (dayOf b)) := by
  rw [isoWeekKey_named ha, isoWeekKey_named hb]
  constructor
  · exact keyOf_injective (named_year ha) (named_year hb)
  · intro h
    rw [h]

/-! ## From 1970 on -/

theorem yearStart_nat {y : ℕ} (h : 1970 ≤ y) : yearStart y = dayFromYear y := by
  unfold yearStart dayFromYear
  omega

/-- The two calendars agree. -/
theorem yearOf_nat (day : ℕ) : yearOf day = yearFromDay day := by
  have hle := dayFromYear_yearFromDay day
  have hge : 1970 ≤ yearFromDay day := by
    have h0 : dayFromYear 1970 ≤ day := by
      have : dayFromYear 1970 = 0 := by decide
      omega
    exact Nat.le_findGreatest (by omega) h0
  have hlt : day < dayFromYear (yearFromDay day + 1) := by
    by_cases hbound : yearFromDay day + 1 ≤ 1970 + day / 365
    · have := Nat.findGreatest_is_greatest (P := fun y => dayFromYear y ≤ day) (n := 1970 + day / 365)
        (k := yearFromDay day + 1) (Nat.lt_succ_self _) hbound
      omega
    · unfold dayFromYear
      omega
  refine yearOf_eq ?_ ?_
  · rw [yearStart_nat hge]
    exact_mod_cast hle
  · have hcast : (yearFromDay day : ℤ) + 1 = ((yearFromDay day + 1 : ℕ) : ℤ) := by push_cast; rfl
    rw [hcast, yearStart_nat (by omega)]
    exact_mod_cast hlt

/-- **From 1970 on** the key is the one that `Murlan.isoWeekKey` gives. -/
theorem isoWeekKey_nat (now : ℕ) : isoWeekKey now = Murlan.isoWeekKey now := by
  have hday : dayOf now = (dayIndex now : ℕ) := by
    unfold dayOf dayIndex
    push_cast
    rfl
  have hyear : 1970 ≤ yearOf (dayOf now) := by
    rw [le_yearOf, hday]
    have : yearStart 1970 = 0 := by decide
    omega
  have hweek : weekNumber (dayOf now) = (weekOf now : ℕ) := by
    rw [hday]
    unfold weekNumber weekOf
    omega
  rw [isoWeekKey_named (by unfold getUTCFullYear; omega), show named (dayOf now) = dayOf now from if_neg (by omega), hweek,
    isoWeekKey_eq]
  unfold keyOf weekKey
  have hthu : (7 * (weekOf now : ℕ) : ℤ) = ((7 * weekOf now : ℕ) : ℤ) := by push_cast; rfl
  rw [hthu, yearOf_nat]
  set y := yearFromDay (7 * weekOf now) with hy
  have hge : 1970 ≤ y := by
    have h0 : yearStart 1970 = 0 := by decide
    have : (1970 : ℤ) ≤ yearOf ((7 * weekOf now : ℕ) : ℤ) := by
      rw [le_yearOf]
      omega
    rw [yearOf_nat] at this
    omega
  have hstart : dateUTC (y : ℤ) 0 1 = dayFromYear y := by
    unfold dateUTC fullYear
    rw [if_neg (by omega), ← yearStart_nat hge]
    simp [makeDay]
  have hle := dayFromYear_yearFromDay (7 * weekOf now)
  rw [← hy] at hle
  rw [hstart, decimal_nonneg (by omega), decimal_nonneg (by omega), Int.toNat_natCast]
  unfold padded
  congr 6
  omega

/-! ## When keys tell weeks apart -/

/-- Both instants fall in one week, Monday to Sunday. -/
def SameWeek (a b : ℤ) : Prop := weekNumber (dayOf a) = weekNumber (dayOf b)

/-- Both instants fall in one week when weeks begin on Sunday. -/
def SameSundayWeek (a b : ℤ) : Prop := (dayOf a + 4) / 7 = (dayOf b + 4) / 7

/-- An instant in one of the years that `Date.UTC` moves. -/
def Moved (a : ℤ) : Prop := getUTCFullYear a ≤ 99

/-- The instant `b` falls in the week of the date of `a`, 1900 years later. -/
def InNamesakesWeek (a b : ℤ) : Prop := weekNumber (dayOf a + 693960) = weekNumber (dayOf b)

/-- Neither instant is moved, or both are and their week does not depend on its first day, or one is
and neither its week nor that of its namesake is the other's. -/
def ToldApart (a b : ℤ) : Prop :=
  (¬ Moved a ∧ ¬ Moved b) ∨ (Moved a ∧ Moved b ∧ (SameSundayWeek a b ↔ SameWeek a b)) ∨
  (Moved a ∧ ¬ Moved b ∧ ¬ InNamesakesWeek a b ∧ ¬ SameWeek a b) ∨
  (¬ Moved a ∧ Moved b ∧ ¬ InNamesakesWeek b a ∧ ¬ SameWeek a b)

/-- The week of a day is not the one of its namesake. -/
theorem namesake_apart (h : InNamesakesWeek a b) : ¬ SameWeek a b := by
  unfold InNamesakesWeek SameWeek weekNumber at *
  omega

theorem named_moved (h : Moved a) : named (dayOf a) = dayOf a + 693960 := if_pos h

theorem named_unmoved (h : ¬ Moved a) : named (dayOf a) = dayOf a := if_neg h

/-- **Week keys name weeks** exactly of the pairs of instants that are told apart. -/
theorem weekKey_tells (a b : ℤ) (ha : 1 ≤ getUTCFullYear a ∧ getUTCFullYear a ≤ 9998)
    (hb : 1 ≤ getUTCFullYear b ∧ getUTCFullYear b ≤ 9998) :
    ((isoWeekKey a = isoWeekKey b ↔ SameWeek a b) ↔ ToldApart a b) := by
  rw [key_iff ha.1 hb.1]
  unfold ToldApart
  by_cases hma : Moved a
  · rw [named_moved hma]
    by_cases hmb : Moved b
    · rw [named_moved hmb]
      have hsunday : weekNumber (dayOf a + 693960) = weekNumber (dayOf b + 693960) ↔ SameSundayWeek a b := by
        unfold weekNumber SameSundayWeek
        omega
      rw [hsunday]
      simp [hma, hmb]
    · rw [named_unmoved hmb]
      have hapart : InNamesakesWeek a b → ¬ SameWeek a b := namesake_apart
      rw [show (weekNumber (dayOf a + 693960) = weekNumber (dayOf b)) = InNamesakesWeek a b from rfl]
      simp only [hma, hmb, not_true_eq_false, false_and, and_false, true_and, not_false_eq_true, or_false, false_or]
      tauto
  · rw [named_unmoved hma]
    by_cases hmb : Moved b
    · rw [named_moved hmb]
      have hapart : InNamesakesWeek b a → ¬ SameWeek b a := namesake_apart
      have hcomm : (weekNumber (dayOf a) = weekNumber (dayOf b + 693960)) ↔ InNamesakesWeek b a := eq_comm
      have hsame : SameWeek a b ↔ SameWeek b a := eq_comm
      rw [hcomm, hsame]
      simp only [hma, hmb, not_true_eq_false, false_and, and_false, true_and, not_false_eq_true, false_or]
      tauto
    · rw [named_unmoved hmb]
      simp [hma, hmb, SameWeek]

theorem weekKey_tells_2026 : (1 ≤ getUTCFullYear 1782000000000 ∧ getUTCFullYear 1782000000000 ≤ 9998) ∧
    ((isoWeekKey 1782000000000 = isoWeekKey 1782086400000 ↔ SameWeek 1782000000000 1782086400000) ↔
      ToldApart 1782000000000 1782086400000) :=
  ⟨by decide, weekKey_tells 1782000000000 1782086400000 (by decide) (by decide)⟩

/-- The first of January of the years 1 and 1901 have one key, and Monday and Sunday of the first
week of the year 1 have two. -/
theorem weekKey_year_one :
    (getUTCFullYear (-62135596800000) = 1 ∧ getUTCFullYear (-2177452800000) = 1901) ∧
    isoWeekKey (-62135596800000) = isoWeekKey (-2177452800000) ∧ ¬ SameWeek (-62135596800000) (-2177452800000) ∧
    getUTCFullYear (-62135078400000) = 1 ∧ SameWeek (-62135596800000) (-62135078400000) ∧
    isoWeekKey (-62135596800000) ≠ isoWeekKey (-62135078400000) := by
  have hne : ¬ SameWeek (-62135596800000) (-2177452800000) := by
    unfold SameWeek
    decide
  have hsame : SameWeek (-62135596800000) (-62135078400000) := by
    unfold SameWeek
    decide
  exact ⟨by decide, by decide +kernel, hne, by decide, hsame, by decide +kernel⟩

end Murlan.Calendar
