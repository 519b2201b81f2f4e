import Mathlib.Algebra.Group.Nat.Defs
import Mathlib.Data.Nat.Find
import Mathlib.Data.Nat.Sqrt
import Murlan.Base.Swaps

/-!
# Rotating quests and milestones

`rewards/quests.ts` and `profile/level.ts`: the pools, the seeded choice of the quests of
a day and of a week, the keys of the UTC day and of the ISO week, the anchors that a
period's progress is counted from, and the level of an amount of XP. Times are in
milliseconds since 1970.
-/

namespace Murlan

/-! ## Levels and milestones -/

/-- `levelInfo(xp).level` -/
def levelOf (xp : ℕ) : ℕ := Nat.sqrt (xp / 100) + 1

/-- What a quest counts. -/
inductive QuestMetric where
  | gamesPlayed | wins | level | currentStreak
  deriving DecidableEq, Repr

/-- A quest of the catalogue. -/
structure QuestDef where
  id : String
  goal : ℕ
  metric : QuestMetric
  rewardXp : ℕ
  deriving DecidableEq, Repr

/-- How many quests a day has. -/
def dailyCount : ℕ := 3

/-- How many quests a week has. -/
def weeklyCount : ℕ := 3

/-- The daily quests to pick from. -/
def dailyPool : List QuestDef :=
  [⟨"d_play2", 2, .gamesPlayed, 30⟩,
   ⟨"d_play4", 4, .gamesPlayed, 45⟩,
   ⟨"d_play6", 6, .gamesPlayed, 60⟩,
   ⟨"d_win1", 1, .wins, 40⟩,
   ⟨"d_win2", 2, .wins, 55⟩,
   ⟨"d_win3", 3, .wins, 70⟩,
   ⟨"d_streak2", 2, .currentStreak, 50⟩,
   ⟨"d_streak3", 3, .currentStreak, 80⟩]

/-- The weekly quests to pick from. -/
def weeklyPool : List QuestDef :=
  [⟨"w_play20", 20, .gamesPlayed, 150⟩,
   ⟨"w_play40", 40, .gamesPlayed, 250⟩,
   ⟨"w_win10", 10, .wins, 200⟩,
   ⟨"w_win20", 20, .wins, 350⟩,
   ⟨"w_streak5", 5, .currentStreak, 300⟩,
   ⟨"w_level", 1, .level, 400⟩]

/-- What a level is worth. -/
structure MilestoneDef where
  level : ℕ
  cosmeticId : Option String
  bonusXp : ℕ
  deriving DecidableEq, Repr

/-- How many levels apart the milestones are. -/
def milestoneStep : ℕ := 5

/-- The milestones, lowest first. -/
def milestones : List MilestoneDef :=
  [⟨5, some "cb_ivory", 100⟩,
   ⟨10, some "felt_charcoal", 150⟩,
   ⟨15, some "cb_ocean", 200⟩,
   ⟨20, some "felt_forest", 250⟩,
   ⟨25, some "cb_emerald", 300⟩,
   ⟨30, some "felt_sapphire", 400⟩]

/-- The milestone of a level; past the table it is XP alone. -/
def milestoneFor (level : ℕ) : Option MilestoneDef :=
  if level < milestoneStep ∨ level % milestoneStep ≠ 0 then none
  else some ((milestones.find? (·.level = level)).getD ⟨level, none, 200 + level * 10⟩)

/-! ## Seeded choice -/

/-- FNV-1a. -/
def hashSeed (s : String) : UInt32 :=
  s.toList.foldl (fun h c => (h ^^^ c.val) * 0x01000193) 0x811c9dc5

/-- One call of `mulberry32`: the number, in units of 2⁻³², and the next state. -/
def mulberry32 (a : UInt32) : UInt32 × UInt32 :=
  let a := a + 0x6d2b79f5
  let t := (a ^^^ (a >>> 15)) * (1 ||| a)
  let t := (t + (t ^^^ (t >>> 7)) * (61 ||| t)) ^^^ t
  (t ^^^ (t >>> 14), a)

/-- The first `count` places of a seeded shuffle. -/
def pickSeeded {T : Type} (pool : List T) (count : ℕ) (seed : UInt32) : List T :=
  let n := min count pool.length
  let shuffled := (List.range n).foldl
    (fun (acc : List T × UInt32) i =>
      let drawn := mulberry32 acc.2
      (swapAt acc.1 i (i + drawn.1.toNat * (pool.length - i) / 2 ^ 32), drawn.2))
    (pool, seed)
  shuffled.1.take n

/-! ## Days and weeks -/

/-- The UTC day an instant falls on. -/
def dayIndex (ms : ℕ) : ℕ := ms / 86400000

/-- The day a year from 1970 on begins with. -/
def dayFromYear (y : ℕ) : ℕ := 365 * (y - 1970) + (y - 1969) / 4 - (y - 1901) / 100 + (y - 1601) / 400

/-- The year of a day. -/
def yearFromDay (day : ℕ) : ℕ := Nat.findGreatest (fun y => dayFromYear y ≤ day) (1970 + day / 365)

/-- Gregorian leap years. -/
def isLeap (y : ℕ) : Bool := y % 4 = 0 && (y % 100 ≠ 0 || y % 400 = 0)

/-- The lengths of a year's months. -/
def monthLengths (y : ℕ) : List ℕ :=
  [31, if isLeap y then 29 else 28, 31, 30, 31, 30, 31, 31, 30, 31, 30, 31]

/-- How many of the lengths a number of days fills, and the days left. -/
def splitDays : List ℕ → ℕ → ℕ × ℕ
  | [], d => (0, d)
  | m :: ms, d => if d < m then (0, d) else ((splitDays ms (d - m)).1 + 1, (splitDays ms (d - m)).2)

/-- `padStart(width, '0')` -/
def padded (width n : ℕ) : List Char := (Nat.toDigits 10 n).leftpad width '0'

/-- The date of `toISOString`; a year of more than four digits has a sign and six. -/
def isoDate (day : ℕ) : List Char :=
  let y := yearFromDay day
  let (month, d) := splitDays (monthLengths y) (day - dayFromYear y)
  (if y < 10000 then padded 4 y else '+' :: padded 6 y) ++
    '-' :: padded 2 (month + 1) ++ '-' :: padded 2 (d + 1)

/-- The first ten characters of `toISOString`. -/
def utcDayKey (now : ℕ) : String := String.ofList ((isoDate (dayIndex now)).take 10)

/-- The Thursday of the ISO week of a day; 1970 began with a Thursday. -/
def isoThursday (day : ℕ) : ℕ :=
  let utcDay := (day + 4) % 7
  let isoDay := if utcDay = 0 then 7 else utcDay
  day + 4 - isoDay

/-- The ISO week of an instant, as text. -/
def isoWeekKey (now : ℕ) : String :=
  let thursday := isoThursday (dayIndex now)
  let weekYear := yearFromDay thursday
  let week := (thursday - dayFromYear weekYear + 1 + 6) / 7
  String.ofList (Nat.toDigits 10 weekYear ++ '-' :: 'W' :: padded 2 week)

/-- The number of the ISO week of a time, from the week 1970 began in. -/
def weekOf (now : ℕ) : ℕ := (dayIndex now + 3) / 7

/-- The quests of the day, picked by its key. -/
def dailyQuestsFor (now : ℕ) : List QuestDef :=
  pickSeeded dailyPool dailyCount (hashSeed ("daily:" ++ utcDayKey now))

/-- The quests of the week, picked by its key. -/
def weeklyQuestsFor (now : ℕ) : List QuestDef :=
  pickSeeded weeklyPool weeklyCount (hashSeed ("weekly:" ++ isoWeekKey now))

/-- What a claimed daily quest is remembered by. -/
def dailyClaimKey (now : ℕ) (questId : String) : String := utcDayKey now ++ ":" ++ questId

/-- What a claimed weekly quest is remembered by. -/
def weeklyClaimKey (now : ℕ) (questId : String) : String := isoWeekKey now ++ ":" ++ questId

/-- The stats at the start of a period. -/
structure PeriodAnchor where
  period : String
  games : ℕ
  wins : ℕ
  deriving DecidableEq, Repr

example : utcDayKey 1782000000000 = "2026-06-21" ∧ isoWeekKey 1782000000000 = "2026-W25" := by
  decide +kernel

end Murlan
