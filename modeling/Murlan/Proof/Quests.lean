import Mathlib.Data.List.Basic
import Murlan.Spec.Quests

/-!
# Keys of days, weeks and milestones

* `isoWeekKey_eq`: the key of a week is a function of the number of the week, and
  `weekKey_injective`: of one week only.
* `milestoneFor_level`: a milestone is of its own level, and gives XP.
-/

namespace Murlan

/-- The key of the week with a number. -/
def weekKey (w : ℕ) : String :=
  String.ofList (Nat.toDigits 10 (yearFromDay (7 * w)) ++
    '-' :: 'W' :: padded 2 ((7 * w - dayFromYear (yearFromDay (7 * w)) + 1 + 6) / 7))

/-- The first ten characters of the date of a day. -/
def dayKey (day : ℕ) : String := String.ofList ((isoDate day).take 10)

theorem utcDayKey_eq (now : ℕ) : utcDayKey now = dayKey (dayIndex now) := rfl

theorem isoThursday_eq (day : ℕ) : isoThursday day = 7 * ((day + 3) / 7) := by
  unfold isoThursday
  simp only
  split
  · omega
  · omega

theorem isoWeekKey_eq (now : ℕ) : isoWeekKey now = weekKey (weekOf now) := by
  unfold isoWeekKey weekKey weekOf
  rw [isoThursday_eq]

theorem weekOf_mono {a b : ℕ} (h : a ≤ b) : weekOf a ≤ weekOf b := by
  unfold weekOf dayIndex
  omega

/-! ## A key is of one week -/

theorem dash_notMem_toDigits (n : ℕ) : '-' ∉ Nat.toDigits 10 n := by
  intro h
  have hdigit := Nat.isDigit_of_mem_toDigits (by decide) (by decide) h
  revert hdigit
  decide

theorem ofDigitChars_padded (width n : ℕ) : Nat.ofDigitChars 10 (padded width n) 0 = n := by
  unfold padded List.leftpad
  rw [Nat.ofDigitChars_append, Nat.ofDigitChars_replicate_zero, Nat.mul_zero, Nat.ofDigitChars_ten_toDigits]

theorem padded_injective (width : ℕ) : Function.Injective (padded width) := by
  intro m n h
  have hval := congrArg (fun l => Nat.ofDigitChars 10 l 0) h
  simpa only [ofDigitChars_padded] using hval

theorem dash_notMem_padded (width n : ℕ) : '-' ∉ padded width n := by
  unfold padded List.leftpad
  rw [List.mem_append, not_or]
  refine ⟨?_, dash_notMem_toDigits n⟩
  intro h
  exact absurd (List.eq_of_mem_replicate h) (by decide)

theorem dayFromYear_yearFromDay (day : ℕ) : dayFromYear (yearFromDay day) ≤ day := by
  have hepoch : dayFromYear 1970 ≤ day := by
    have : dayFromYear 1970 = 0 := by decide
    omega
  exact Nat.findGreatest_spec (P := fun y => dayFromYear y ≤ day) (by omega) hepoch

/-- Different weeks have different keys. -/
theorem weekKey_injective : Function.Injective weekKey := by
  intro v w h
  have hlist := String.ofList_injective h
  have hdash : '-' ∉ 'W' :: padded 2 ((7 * v - dayFromYear (yearFromDay (7 * v)) + 1 + 6) / 7) := by
    rw [List.mem_cons, not_or]
    exact ⟨by decide, dash_notMem_padded _ _⟩
  obtain ⟨hyear, -, hrest⟩ := (List.append_cons_inj_of_notMem (dash_notMem_toDigits _) hdash).mp hlist
  have hyear' : yearFromDay (7 * v) = yearFromDay (7 * w) := by
    have hval := congrArg (fun l => Nat.ofDigitChars 10 l 0) hyear
    simpa only [Nat.ofDigitChars_ten_toDigits] using hval
  have hweek := padded_injective 2 (List.cons.inj hrest).2
  have hv := dayFromYear_yearFromDay (7 * v)
  have hw := dayFromYear_yearFromDay (7 * w)
  rw [hyear'] at hweek hv
  -- two Thursdays of one year, less than a week apart
  omega

/-! ## Milestones -/

/-- A milestone is its level's, and worth something. -/
theorem milestoneFor_level {lvl : ℕ} {m : MilestoneDef} (h : milestoneFor lvl = some m) :
    m.level = lvl ∧ 0 < m.bonusXp := by
  unfold milestoneFor at h
  split at h
  · cases h
  · obtain rfl := Option.some.inj h
    cases hfind : milestones.find? (·.level = lvl) with
    | none => exact ⟨rfl, by simp only [Option.getD_none]; omega⟩
    | some d =>
      have hlevel : d.level = lvl := by simpa using List.find?_some hfind
      refine ⟨hlevel, ?_⟩
      have hall : ∀ d ∈ milestones, 0 < d.bonusXp := by decide
      exact hall d (List.mem_of_find?_eq_some hfind)

end Murlan
