import Murlan.Base.Pool
import Murlan.Spec.Quests

/-!
# Engagement rewards

`rewards/rewardsService.ts` with `rewards/achievements.ts`, and what else writes a user's
badges: the profile read of `profile/profileService.ts` and the season badges of
`ranked/rankedService.ts`. One user's requests run side by side; `withUserLock` puts some
of them on one chain. Everything awaited is a call of the user repository or the wallet.
-/

namespace Murlan

/-! ## The user's row -/

/-- What the rewards read of a user and write. -/
structure RewardUser where
  xp : ℕ := 0
  xpSpent : ℕ := 0
  gamesPlayed : ℕ := 0
  wins : ℕ := 0
  currentStreak : ℕ := 0
  biggestPotCents : ℕ := 0
  lastDailyClaim : Option ℕ := none
  dailyStreak : ℕ := 0
  cosmetics : List String := []
  claimedChallenges : List String := []
  claimedDailies : List String := []
  claimedWeeklies : List String := []
  collectedMilestones : List ℕ := []
  dailyAnchor : Option PeriodAnchor := none
  weeklyAnchor : Option PeriodAnchor := none
  badges : List String := []
  lastVipGift : Option String := none
  deriving DecidableEq, Repr

/-- The columns `setRewards` writes. -/
structure RewardsPatch where
  lastDailyClaim : Option ℕ := none
  dailyStreak : Option ℕ := none
  cosmetics : Option (List String) := none
  claimedChallenges : Option (List String) := none
  claimedDailies : Option (List String) := none
  claimedWeeklies : Option (List String) := none
  collectedMilestones : Option (List ℕ) := none
  dailyAnchor : Option PeriodAnchor := none
  weeklyAnchor : Option PeriodAnchor := none
  badges : Option (List String) := none
  lastVipGift : Option String := none
  deriving DecidableEq, Repr

namespace RewardUser

/-- The fields a patch names are written. -/
def setRewards (u : RewardUser) (patch : RewardsPatch) : RewardUser :=
  { u with
    lastDailyClaim := patch.lastDailyClaim <|> u.lastDailyClaim
    dailyStreak := patch.dailyStreak.getD u.dailyStreak
    cosmetics := patch.cosmetics.getD u.cosmetics
    claimedChallenges := patch.claimedChallenges.getD u.claimedChallenges
    claimedDailies := patch.claimedDailies.getD u.claimedDailies
    claimedWeeklies := patch.claimedWeeklies.getD u.claimedWeeklies
    collectedMilestones := patch.collectedMilestones.getD u.collectedMilestones
    dailyAnchor := patch.dailyAnchor <|> u.dailyAnchor
    weeklyAnchor := patch.weeklyAnchor <|> u.weeklyAnchor
    badges := patch.badges.getD u.badges
    lastVipGift := patch.lastVipGift <|> u.lastVipGift }

/-- Experience is added. -/
def addXp (u : RewardUser) (deltaXp : ℕ) : RewardUser := { u with xp := u.xp + deltaXp }

/-- The stats after a match. -/
def applyMatchResult (u : RewardUser) (won : Bool) (potCents xpGain : ℕ) : RewardUser :=
  { u with
    gamesPlayed := u.gamesPlayed + 1
    wins := u.wins + if won then 1 else 0
    xp := u.xp + xpGain
    currentStreak := if won then u.currentStreak + 1 else 0
    biggestPotCents := max u.biggestPotCents potCents }

end RewardUser

/-- `{ ok, code }` -/
structure GrantResult where
  ok : Bool
  code : Option String := none
  deriving DecidableEq, Repr

namespace RewardUser

/-- The repository's `purchaseCosmetic`: an item joins the list, its cost is taken off the experience. -/
def purchaseCosmetic (u : RewardUser) (cosmeticId : String) (cost : ℕ) : GrantResult × RewardUser :=
  if cosmeticId ∈ u.cosmetics then ({ ok := false, code := some "owned" }, u)
  else if u.xp < cost then ({ ok := false, code := some "insufficient_xp" }, u)
  else ({ ok := true }, { u with xp := u.xp - cost, cosmetics := u.cosmetics ++ [cosmeticId] })

/-- The repository's `purchaseCosmeticXp`: the cost counts as spent, the experience itself stays. -/
def purchaseCosmeticXp (u : RewardUser) (cosmeticId : String) (costXp : ℕ) : GrantResult × RewardUser :=
  if cosmeticId ∈ u.cosmetics then ({ ok := true }, u)
  else if u.xp - u.xpSpent < costXp then ({ ok := false, code := some "insufficient_xp" }, u)
  else ({ ok := true }, { u with xpSpent := u.xpSpent + costXp, cosmetics := u.cosmetics ++ [cosmeticId] })

end RewardUser

/-! ## Quests and achievements of a user -/

/-- `effectiveAnchor`: the stored anchor if it is of this period, else the stats of now. -/
def effectiveAnchor (u : RewardUser) (period : String) (stored : Option PeriodAnchor) : PeriodAnchor :=
  match stored with
  | some a => if a.period = period then a else ⟨period, u.gamesPlayed, u.wins⟩
  | none => ⟨period, u.gamesPlayed, u.wins⟩

/-- `metricValue` and `questMetricValue` -/
def metricValue (u : RewardUser) : QuestMetric → ℕ
  | .gamesPlayed => u.gamesPlayed
  | .wins => u.wins
  | .level => levelOf u.xp
  | .currentStreak => u.currentStreak

/-- Games and wins count from the anchor. -/
def questPeriodProgress (u : RewardUser) (m : QuestMetric) (baseline : PeriodAnchor) : ℕ :=
  match m with
  | .gamesPlayed => u.gamesPlayed - baseline.games
  | .wins => u.wins - baseline.wins
  | m => metricValue u m

/-- What an achievement counts. -/
inductive AchievementMetric where
  | wins | gamesPlayed | currentStreak | level | biggestPotCents
  deriving DecidableEq, Repr

/-- An achievement of the catalogue. -/
structure Achievement where
  id : String
  metric : AchievementMetric
  threshold : ℕ
  deriving DecidableEq, Repr

/-- The achievements. -/
def achievements : List Achievement :=
  [⟨"first_win", .wins, 1⟩,
   ⟨"wins_10", .wins, 10⟩,
   ⟨"wins_100", .wins, 100⟩,
   ⟨"games_1000", .gamesPlayed, 1000⟩,
   ⟨"streak_5", .currentStreak, 5⟩,
   ⟨"streak_10", .currentStreak, 10⟩,
   ⟨"level_10", .level, 10⟩,
   ⟨"level_25", .level, 25⟩,
   ⟨"pot_100", .biggestPotCents, 10000⟩]

/-- How far a user is along an achievement. -/
def achievementValue (u : RewardUser) : AchievementMetric → ℕ
  | .wins => u.wins
  | .gamesPlayed => u.gamesPlayed
  | .currentStreak => u.currentStreak
  | .level => levelOf u.xp
  | .biggestPotCents => u.biggestPotCents

/-- The badges met and not held. -/
def newlyEarnedAchievements (u : RewardUser) : List String :=
  (achievements.filter fun a => a.id ∉ u.badges ∧ a.threshold ≤ achievementValue u a.metric).map (·.id)

/-- The badges of a season. -/
inductive SeasonBadgeKind where
  | finalist | top3 | champion
  deriving DecidableEq, Repr

/-- A badge's name in its id. -/
def SeasonBadgeKind.name : SeasonBadgeKind → String
  | .finalist => "finalist"
  | .top3 => "top3"
  | .champion => "champion"

/-- The id of a season's badge. -/
def seasonBadgeId (seasonNumber : ℕ) (kind : SeasonBadgeKind) : String :=
  "season_" ++ toString seasonNumber ++ "_" ++ kind.name

/-- The badges of a place in the final standings, the first being 0. -/
def seasonBadges (seasonNumber rank : ℕ) : List String :=
  [seasonBadgeId seasonNumber .finalist] ++
  (if rank < 3 then [seasonBadgeId seasonNumber .top3] else []) ++
  (if rank = 0 then [seasonBadgeId seasonNumber .champion] else [])

/-! ## The catalog -/

/-- An item of the shop. -/
structure Cosmetic where
  id : String
  cost : ℕ
  costXp : ℕ := 0
  featured : Bool := false
  deriving DecidableEq, Repr

/-- The item is bought with experience. -/
def Cosmetic.isXpPriced (c : Cosmetic) : Bool := 0 < c.costXp

/-- The shop's catalogue. -/
def cosmetics : List Cosmetic :=
  [{ id := "cb_classic", cost := 0 },
   { id := "cb_ivory", cost := 0, costXp := 150 },
   { id := "cb_ocean", cost := 0, costXp := 250 },
   { id := "cb_crimson", cost := 0, costXp := 250 },
   { id := "cb_emerald", cost := 0, costXp := 350 },
   { id := "cb_sunset", cost := 0, costXp := 350 },
   { id := "cb_sapphire", cost := 0, costXp := 500 },
   { id := "cb_violet", cost := 0, costXp := 500 },
   { id := "cb_rose", cost := 0, costXp := 800 },
   { id := "cb_jade", cost := 0, costXp := 1200 },
   { id := "cb_gold", cost := 300 },
   { id := "cb_carbon", cost := 500 },
   { id := "cb_royal", cost := 600, featured := true },
   { id := "cb_platinum", cost := 800, featured := true },
   { id := "felt_red", cost := 0 },
   { id := "felt_charcoal", cost := 0, costXp := 150 },
   { id := "felt_forest", cost := 0, costXp := 250 },
   { id := "felt_teal", cost := 0, costXp := 250 },
   { id := "felt_sand", cost := 0, costXp := 250 },
   { id := "felt_emerald", cost := 0, costXp := 350 },
   { id := "felt_sapphire", cost := 0, costXp := 500 },
   { id := "felt_plum", cost := 0, costXp := 500 },
   { id := "felt_amber", cost := 0, costXp := 800 },
   { id := "felt_wine", cost := 450 },
   { id := "felt_obsidian", cost := 600 },
   { id := "felt_midnight", cost := 700, featured := true },
   { id := "felt_royalblue", cost := 900, featured := true },
   { id := "cb_mint", cost := 0, costXp := 250 },
   { id := "cb_slate", cost := 0, costXp := 250 },
   { id := "cb_coral", cost := 0, costXp := 350 },
   { id := "cb_lava", cost := 0, costXp := 500 },
   { id := "cb_onyx", cost := 500 },
   { id := "cb_aurora", cost := 700, featured := true },
   { id := "felt_moss", cost := 0, costXp := 250 },
   { id := "felt_cocoa", cost := 0, costXp := 250 },
   { id := "felt_steel", cost := 0, costXp := 350 },
   { id := "felt_rosewood", cost := 0, costXp := 500 },
   { id := "felt_onyx", cost := 600 },
   { id := "felt_aurora", cost := 700, featured := true }]

/-- The day's discount, in percent. -/
def dealPct : ℕ := 20

/-- `Math.round` of the price less the discount. -/
def dealPriceCents (cost : ℕ) : ℕ := (cost * (100 - dealPct) + 50) / 100

/-- The paid item on offer today. -/
def dailyDealId (now : ℕ) : Option String :=
  let paid := cosmetics.filter fun c => 0 < c.cost
  paid[dayIndex now % paid.length]?.map (·.id)

/-- What a weekly gift is picked from. -/
def vipGiftPool : List String :=
  ["cb_ocean", "felt_forest", "cb_emerald", "felt_teal", "cb_sunset",
   "felt_plum", "cb_mint", "felt_moss", "cb_sapphire", "felt_amber"]

/-- The experience a gift is worth when everything in the pool is owned. -/
def vipGiftXp : ℕ := 120

/-- A place picked by the week's key. -/
def weekIndex (weekKey : String) (mod : ℕ) : ℕ := (hashSeed weekKey).toNat % mod

/-- A challenge of the catalogue. -/
structure ChallengeDef where
  id : String
  goal : ℕ
  metric : QuestMetric
  rewardXp : ℕ
  deriving DecidableEq, Repr

/-- The challenges. -/
def challenges : List ChallengeDef :=
  [⟨"play3", 3, .gamesPlayed, 30⟩,
   ⟨"win1", 1, .wins, 40⟩,
   ⟨"win5", 5, .wins, 90⟩,
   ⟨"level3", 3, .level, 60⟩,
   ⟨"streak3", 3, .currentStreak, 70⟩,
   ⟨"play10", 10, .gamesPlayed, 120⟩,
   ⟨"play25", 25, .gamesPlayed, 250⟩,
   ⟨"win10", 10, .wins, 180⟩,
   ⟨"win25", 25, .wins, 400⟩,
   ⟨"level5", 5, .level, 150⟩,
   ⟨"level10", 10, .level, 350⟩,
   ⟨"streak5", 5, .currentStreak, 140⟩]

/-- 25 to 55. -/
def dailyReward (streak : ℕ) : ℕ := 25 + 5 * min (max streak 1 - 1) 6

/-! ## What is awaited -/

/-- A reward that is claimed once: of a UTC day, of an ISO week, or for ever. -/
inductive RewardKey where
  | daily (day : ℕ)
  | challenge (id : String)
  | dailyQuest (day : ℕ) (id : String)
  | weeklyQuest (week : ℕ) (id : String)
  | level (level : ℕ)
  | vipGift (week : ℕ)
  deriving DecidableEq, Repr

/-- What a claim granted: its key and its experience. -/
structure Reward where
  key : RewardKey
  xp : ℕ
  deriving DecidableEq, Repr

/-- What a call is for: it gives a reward, or records it as claimed. -/
inductive RewardMark where
  | granted (r : Reward)
  | recorded (r : Reward)
  deriving DecidableEq, Repr

/-- A call of the repository or the wallet. The marks are no part of what it does. -/
inductive RewardQuery where
  | findById
  | setRewards (patch : RewardsPatch) (marks : List RewardMark)
  | addXp (deltaXp : ℕ) (marks : List RewardMark)
  | purchaseCosmetic (cosmeticId : String) (cost : ℕ)
  | purchaseCosmeticXp (cosmeticId : String) (costXp : ℕ)
  | debit (cents : ℕ)
  | credit (cents : ℕ)
  -- debit and grant in one transaction
  | charge (cents : ℕ) (cosmeticId : String)

/-- What each call of the repository or the wallet answers with. -/
@[reducible] def RewardQuery.Answer : RewardQuery → Type
  | .findById | .setRewards _ _ | .addXp _ _ => Option RewardUser
  | .purchaseCosmetic _ _ | .purchaseCosmeticXp _ _ | .charge _ _ => GrantResult
  | .debit _ | .credit _ => Unit

/-- What a call may throw. -/
inductive RewardError where
  | insufficientFunds
  | grantRejected (code : Option String)
  | wallet
  deriving DecidableEq, Repr

/-- A program of the service. -/
abbrev RewardProgram (α : Type) := Async RewardQuery RewardQuery.Answer RewardError α

/-! ## The service -/

/-- How the service is set up. -/
structure RewardsConfig where
  enabled : Bool := true
  -- whether the store has transactions
  uow : Bool := true

/-- A quest or a challenge as it is shown. -/
structure QuestRow where
  id : String
  goal : ℕ
  progress : ℕ
  done : Bool
  claimed : Bool
  rewardXp : ℕ
  deriving DecidableEq, Repr

/-- An achievement as the status shows it. -/
structure AchievementRow where
  id : String
  goal : ℕ
  progress : ℕ
  earned : Bool
  deriving DecidableEq, Repr

/-- A shop item as the status shows it. -/
structure ShopRow where
  item : Cosmetic
  owned : Bool
  deriving DecidableEq, Repr

/-- The status route's answer. -/
structure RewardsStatus where
  enabled : Bool
  xp : ℕ
  level : ℕ
  spendableXp : ℕ
  canClaim : Bool
  streak : ℕ
  dailyRewardXp : ℕ
  challenges : List QuestRow
  dailyQuests : List QuestRow
  weeklyQuests : List QuestRow
  levelReward : Option MilestoneDef
  achievements : List AchievementRow
  shop : List ShopRow
  dailyDeal : Option (String × ℕ)
  deriving DecidableEq, Repr

/-- What a request returns: `missing` is `null`. -/
inductive RewardReceipt where
  | missing
  | status (s : RewardsStatus)
  | profile (badges : List String)
  | archived
  | claimed (rewardXp : ℕ) (streak : Option ℕ)
  | milestone (m : MilestoneDef)
  | gift (ok : Bool) (code cosmeticId : Option String) (bonusXp : Option ℕ)
  | purchase (r : GrantResult)

namespace RewardsService

/-- An item is owned when it is free or in the list. -/
def owns (u : RewardUser) (c : Cosmetic) : Bool :=
  (c.cost = 0 && !c.isXpPriced) || u.cosmetics.contains c.id

/-- A quest as the status shows it. -/
def questRow (q : QuestDef) (progress : ℕ) (claimed : Bool) : QuestRow :=
  let progress := min progress q.goal
  { id := q.id, goal := q.goal, progress, done := q.goal ≤ progress, claimed, rewardXp := q.rewardXp }

/-- The quests of a period as the status shows them. -/
def questRows (u : RewardUser) (quests : List QuestDef) (baseline : PeriodAnchor) (claimedKeys : List String)
    (claimKeyFor : String → String) : List QuestRow :=
  quests.map fun q =>
    questRow q (questPeriodProgress u q.metric baseline) (claimedKeys.contains (claimKeyFor q.id))

/-- The anchors of the periods of now that are not stored. -/
def anchorPatch (u : RewardUser) (now : ℕ) : RewardsPatch :=
  { dailyAnchor :=
      if u.dailyAnchor.any (·.period = utcDayKey now) then none
      else some (effectiveAnchor u (utcDayKey now) u.dailyAnchor)
    weeklyAnchor :=
      if u.weeklyAnchor.any (·.period = isoWeekKey now) then none
      else some (effectiveAnchor u (isoWeekKey now) u.weeklyAnchor) }

/-- The anchors of now, stored where they rolled over. -/
def resolveAnchors (u : RewardUser) (now : ℕ) : RewardProgram (PeriodAnchor × PeriodAnchor) := do
  let daily := effectiveAnchor u (utcDayKey now) u.dailyAnchor
  let weekly := effectiveAnchor u (isoWeekKey now) u.weeklyAnchor
  if (anchorPatch u now).dailyAnchor.isSome ∨ (anchorPatch u now).weeklyAnchor.isSome then do
    let _ ← Async.await (RewardQuery.setRewards (anchorPatch u now) [])
    pure (daily, weekly)
  else pure (daily, weekly)

/-- The lowest milestone reached and not collected. -/
def pendingMilestone (u : RewardUser) : Option MilestoneDef :=
  ((List.range (levelOf u.xp / milestoneStep)).map fun i => milestoneStep * (i + 1)).findSome? fun lvl =>
    if lvl ∈ u.collectedMilestones then none else milestoneFor lvl

/-- The achievements met are added to the badges that were read; the row after it. -/
def grantAchievements (u : RewardUser) : RewardProgram RewardUser := do
  let newly := newlyEarnedAchievements u
  if newly = [] then pure u
  else do
    let updated ← Async.tryCatch
      (Async.await (RewardQuery.setRewards { badges := some (u.badges ++ newly) } []))
      fun _ => pure none
    pure (updated.getD u)

/-- The streak after a claim, and whether it can be claimed. -/
def dailyClaim (u : RewardUser) (now : ℕ) : Bool × ℕ :=
  let today := dayIndex now
  let lastDay := u.lastDailyClaim.map dayIndex
  (!lastDay.any (today ≤ ·), if lastDay.map (· + 1) = some today then u.dailyStreak + 1 else 1)

/-- The status of a user at an instant. -/
def statusOf (cfg : RewardsConfig) (u : RewardUser) (now : ℕ) (daily weekly : PeriodAnchor) :
    RewardsStatus :=
  let (canClaim, nextStreak) := dailyClaim u now
  { enabled := cfg.enabled
    xp := u.xp
    level := levelOf u.xp
    spendableXp := u.xp - u.xpSpent
    canClaim
    streak := u.dailyStreak
    dailyRewardXp := dailyReward (if canClaim then nextStreak else u.dailyStreak)
    challenges := challenges.map fun c =>
      questRow ⟨c.id, c.goal, c.metric, c.rewardXp⟩ (metricValue u c.metric) (u.claimedChallenges.contains c.id)
    dailyQuests := questRows u (dailyQuestsFor now) daily u.claimedDailies (dailyClaimKey now)
    weeklyQuests := questRows u (weeklyQuestsFor now) weekly u.claimedWeeklies (weeklyClaimKey now)
    levelReward := pendingMilestone u
    achievements := achievements.map fun a =>
      { id := a.id, goal := a.threshold, progress := min (achievementValue u a.metric) a.threshold
        earned := u.badges.contains a.id }
    shop := cosmetics.map fun c => { item := c, owned := owns u c }
    dailyDeal := do
      let id ← dailyDealId now
      let c ← cosmetics.find? (·.id = id)
      pure (c.id, dealPriceCents c.cost) }

/-- The status route: achievements earned by now are granted on the way. -/
def status (cfg : RewardsConfig) (now : ℕ) : RewardProgram RewardReceipt := do
  match ← Async.await RewardQuery.findById with
  | none => pure .missing
  | some u => do
    let u ← grantAchievements u
    let (daily, weekly) ← resolveAnchors u now
    pure (.status (statusOf cfg u now daily weekly))

/-- `getProfile` of the profile service. -/
def getProfile : RewardProgram RewardReceipt := do
  match ← Async.await RewardQuery.findById with
  | none => pure .missing
  | some u => do
    let u ← grantAchievements u
    pure (.profile u.badges)

/-- `grantSeasonBadges` of the ranked service, for the user on a place. -/
def grantSeasonBadges (seasonNumber rank : ℕ) : RewardProgram RewardReceipt := do
  match ← Async.await RewardQuery.findById with
  | none => pure .archived
  | some u => do
    let add := (seasonBadges seasonNumber rank).filter (· ∉ u.badges)
    if add = [] then pure .archived
    else do
      Async.ignore do
        let _ ← Async.await (RewardQuery.setRewards { badges := some (u.badges ++ add) } [])
      pure .archived

/-- The XP first, then the record of the claim. -/
def grantThenRecord (r : Reward) (patch : RewardsPatch) : RewardProgram Unit := do
  let _ ← Async.await (RewardQuery.addXp r.xp [.granted r])
  let _ ← Async.await (RewardQuery.setRewards patch [.recorded r])

/-- The daily bonus, once a day. -/
def claimDaily (now : ℕ) : RewardProgram RewardReceipt := do
  match ← Async.await RewardQuery.findById with
  | none => pure .missing
  | some u =>
    let (canClaim, streak) := dailyClaim u now
    if canClaim then do
      let rewardXp := dailyReward streak
      grantThenRecord ⟨.daily (dayIndex now), rewardXp⟩ { lastDailyClaim := some now, dailyStreak := some streak }
      pure (.claimed rewardXp (some streak))
    else pure .missing

/-- A challenge's reward, once. -/
def claimChallenge (challengeId : String) : RewardProgram RewardReceipt :=
  match challenges.find? (·.id = challengeId) with
  | none => pure .missing
  | some d => do
    match ← Async.await RewardQuery.findById with
    | none => pure .missing
    | some u =>
      if d.id ∈ u.claimedChallenges then pure .missing
      else if metricValue u d.metric < d.goal then pure .missing
      else do
        grantThenRecord ⟨.challenge d.id, d.rewardXp⟩ { claimedChallenges := some (u.claimedChallenges ++ [d.id]) }
        pure (.claimed d.rewardXp none)

/-- `if (!def) return null;` -/
def whenFound (found : Option QuestDef) (claim : QuestDef → RewardProgram RewardReceipt) :
    RewardProgram RewardReceipt :=
  match found with
  | none => pure .missing
  | some d => claim d

/-- A daily quest's reward, once a day. -/
def claimDailyQuest (questId : String) (now : ℕ) : RewardProgram RewardReceipt :=
  whenFound ((dailyQuestsFor now).find? (·.id = questId)) fun d => do
    match ← Async.await RewardQuery.findById with
    | none => pure .missing
    | some u =>
      let key := dailyClaimKey now d.id
      if key ∈ u.claimedDailies then pure .missing
      else do
        let (daily, _) ← resolveAnchors u now
        if questPeriodProgress u d.metric daily < d.goal then pure .missing
        else do
          grantThenRecord ⟨.dailyQuest (dayIndex now) d.id, d.rewardXp⟩
            { claimedDailies := some (u.claimedDailies ++ [key]) }
          pure (.claimed d.rewardXp none)

/-- A weekly quest's reward, once a week. -/
def claimWeeklyQuest (questId : String) (now : ℕ) : RewardProgram RewardReceipt :=
  whenFound ((weeklyQuestsFor now).find? (·.id = questId)) fun d => do
    match ← Async.await RewardQuery.findById with
    | none => pure .missing
    | some u =>
      let key := weeklyClaimKey now d.id
      if key ∈ u.claimedWeeklies then pure .missing
      else do
        let (_, weekly) ← resolveAnchors u now
        if questPeriodProgress u d.metric weekly < d.goal then pure .missing
        else do
          grantThenRecord ⟨.weeklyQuest (weekOf now) d.id, d.rewardXp⟩
            { claimedWeeklies := some (u.claimedWeeklies ++ [key]) }
          pure (.claimed d.rewardXp none)

/-- The next milestone's reward. -/
def claimLevelReward : RewardProgram RewardReceipt := do
  match ← Async.await RewardQuery.findById with
  | none => pure .missing
  | some u =>
    match pendingMilestone u with
    | none => pure .missing
    | some m =>
      if m.level ∈ u.collectedMilestones then pure .missing
      else do
        let r : Reward := ⟨.level m.level, m.bonusXp⟩
        -- recorded first
        let _ ← Async.await (RewardQuery.setRewards
          { collectedMilestones := some (u.collectedMilestones ++ [m.level]) } [.recorded r])
        if 0 < m.bonusXp then do
          let _ ← Async.await (RewardQuery.addXp m.bonusXp [.granted r])
        match m.cosmeticId with
        | none => pure (.milestone m)
        | some id =>
          if cosmetics.any (·.id = id) ∧ id ∉ u.cosmetics then do
            Async.ignore do
              let _ ← Async.await (RewardQuery.purchaseCosmetic id 0)
            pure (.milestone m)
          else pure (.milestone m)

/-- The first of the pool that is not owned, from the place of the week on. -/
def vipGiftFor (u : RewardUser) (week : String) : Option String :=
  let start := weekIndex week vipGiftPool.length
  (vipGiftPool.rotateLeft start).find? (· ∉ u.cosmetics)

/-- The weekly gift of a subscriber. -/
def claimVipGift (cfg : RewardsConfig) (isVip : Bool) (now : ℕ) : RewardProgram RewardReceipt :=
  if cfg.enabled = false then pure (.gift false (some "disabled") none none)
  else if isVip = false then pure (.gift false (some "not_vip") none none)
  else do
    match ← Async.await RewardQuery.findById with
    | none => pure (.gift false (some "not_found") none none)
    | some u =>
      let week := isoWeekKey now
      if u.lastVipGift = some week then pure (.gift false (some "already") none none)
      else
        match vipGiftFor u week with
        | some id => do
          let r : Reward := ⟨.vipGift (weekOf now), 0⟩
          let _ ← Async.await (RewardQuery.setRewards
            { cosmetics := some (u.cosmetics ++ [id]), lastVipGift := some week } [.recorded r, .granted r])
          pure (.gift true none (some id) none)
        | none => do
          let r : Reward := ⟨.vipGift (weekOf now), vipGiftXp⟩
          let _ ← Async.await (RewardQuery.setRewards { lastVipGift := some week } [.recorded r])
          let _ ← Async.await (RewardQuery.addXp vipGiftXp [.granted r])
          pure (.gift true none none (some vipGiftXp))

/-- `refundPurchase` -/
def refundPurchase (cents : ℕ) : RewardProgram Unit := Async.ignore (Async.await (RewardQuery.credit cents))

/-- Charge and grant in one transaction. -/
def buyAtomic (cosmeticId : String) (charge : ℕ) : RewardProgram GrantResult :=
  Async.tryCatch (Async.await (RewardQuery.charge charge cosmeticId)) fun
    | .insufficientFunds => pure { ok := false, code := some "insufficient_funds" }
    | .grantRejected code => pure { ok := false, code }
    | .wallet => throw .wallet

/-- Charge, then grant; a charge without a grant is refunded. -/
def buyFallback (cosmeticId : String) (charge : ℕ) : RewardProgram GrantResult := do
  let charged ← Async.tryCatch (do
    let _ ← Async.await (RewardQuery.debit charge)
    pure true) fun e => if e = .insufficientFunds then pure false else throw e
  if charged then do
    let granted ← Async.tryCatch (Async.await (RewardQuery.purchaseCosmetic cosmeticId 0)) fun e => do
      refundPurchase charge
      throw e
    if granted.ok then pure granted
    else do
      refundPurchase charge
      pure granted
  else pure { ok := false, code := some "insufficient_funds" }

/-- A shop purchase: the charge, then the item. -/
def buy (cfg : RewardsConfig) (cosmeticId : String) (now : ℕ) : RewardProgram RewardReceipt :=
  match cosmetics.find? (·.id = cosmeticId) with
  | none => pure (.purchase { ok := false, code := some "not_found" })
  | some c =>
    if c.isXpPriced then pure (.purchase { ok := false, code := some "wrong_currency" })
    else if c.cost = 0 then pure (.purchase { ok := false, code := some "owned" })
    else do
      match ← Async.await RewardQuery.findById with
      | none => pure (.purchase { ok := false, code := some "not_found" })
      | some u =>
        if cosmeticId ∈ u.cosmetics then pure (.purchase { ok := false, code := some "owned" })
        else do
          let charge := if some cosmeticId = dailyDealId now then dealPriceCents c.cost else c.cost
          let granted ← if cfg.uow then buyAtomic cosmeticId charge else buyFallback cosmeticId charge
          pure (.purchase granted)

/-- A purchase with experience. -/
def buyXp (cosmeticId : String) : RewardProgram RewardReceipt :=
  match cosmetics.find? (·.id = cosmeticId) with
  | none => pure (.purchase { ok := false, code := some "not_found" })
  | some c =>
    if c.isXpPriced then do
      match ← Async.await RewardQuery.findById with
      | none => pure (.purchase { ok := false, code := some "not_found" })
      | some u =>
        if cosmeticId ∈ u.cosmetics then pure (.purchase { ok := false, code := some "owned" })
        else do
          let granted ← Async.await (RewardQuery.purchaseCosmeticXp cosmeticId c.costXp)
          pure (.purchase granted)
    else pure (.purchase { ok := false, code := some "wrong_currency" })

end RewardsService

/-! ## One user's requests -/

/-- The calls of the service. -/
inductive RewardCall where
  | status
  | getProfile
  | grantSeasonBadges (seasonNumber rank : ℕ)
  | claimDaily
  | claimChallenge (id : String)
  | claimDailyQuest (id : String)
  | claimWeeklyQuest (id : String)
  | claimLevelReward
  | claimVipGift (isVip : Bool)
  | buy (cosmeticId : String)
  | buyXp (cosmeticId : String)
  deriving DecidableEq, Repr

/-- The row of the user and the clock. The lists are no table: they record which rewards
were given and which were recorded as claimed, `matchXp` what matches added. -/
structure RewardServer where
  user : RewardUser := {}
  now : ℕ := 0
  granted : List Reward := []
  recorded : List Reward := []
  matchXp : ℕ := 0
  deriving DecidableEq, Repr

/-- What a call granted or recorded is noted. -/
def RewardServer.mark (s : RewardServer) (marks : List RewardMark) : RewardServer :=
  { s with
    granted := s.granted ++ marks.filterMap fun | .granted r => some r | .recorded _ => none
    recorded := s.recorded ++ marks.filterMap fun | .recorded r => some r | .granted _ => none }

/-- How the wallet answers a charge. -/
inductive WalletReply where
  | funded | insufficient | down
  deriving DecidableEq, Repr

/-- The answer to a call. The wallet is the environment's. -/
def RewardQuery.answer (w : WalletReply) (s : RewardServer) :
    (q : RewardQuery) → Except RewardError q.Answer × RewardServer
  | .findById => (.ok (some s.user), s)
  | .setRewards patch marks =>
    (.ok (some (s.user.setRewards patch)), { s.mark marks with user := s.user.setRewards patch })
  | .addXp deltaXp marks =>
    (.ok (some (s.user.addXp deltaXp)), { s.mark marks with user := s.user.addXp deltaXp })
  | .purchaseCosmetic id cost =>
    (.ok (s.user.purchaseCosmetic id cost).1, { s with user := (s.user.purchaseCosmetic id cost).2 })
  | .purchaseCosmeticXp id costXp =>
    (.ok (s.user.purchaseCosmeticXp id costXp).1, { s with user := (s.user.purchaseCosmeticXp id costXp).2 })
  | .debit _ | .credit _ =>
    match w with
    | .funded => (.ok (), s)
    | .insufficient => (.error .insufficientFunds, s)
    | .down => (.error .wallet, s)
  | .charge _ id =>
    match w with
    | .funded =>
      let (granted, user) := s.user.purchaseCosmetic id 0
      if granted.ok then (.ok granted, { s with user }) else (.error (.grantRejected granted.code), s)
    | .insufficient => (.error .insufficientFunds, s)
    | .down => (.error .wallet, s)

/-- The routes read the clock when they call. -/
def RewardCall.program (cfg : RewardsConfig) (s : RewardServer) : RewardCall → RewardProgram RewardReceipt
  | .status => RewardsService.status cfg s.now
  | .getProfile => RewardsService.getProfile
  | .grantSeasonBadges seasonNumber rank => RewardsService.grantSeasonBadges seasonNumber rank
  | .claimDaily => RewardsService.claimDaily s.now
  | .claimChallenge id => RewardsService.claimChallenge id
  | .claimDailyQuest id => RewardsService.claimDailyQuest id s.now
  | .claimWeeklyQuest id => RewardsService.claimWeeklyQuest id s.now
  | .claimLevelReward => RewardsService.claimLevelReward
  | .claimVipGift isVip => RewardsService.claimVipGift cfg isVip s.now
  | .buy cosmeticId => RewardsService.buy cfg cosmeticId s.now
  | .buyXp cosmeticId => RewardsService.buyXp cosmeticId

/-- `withUserLock` -/
def RewardCall.chain : RewardCall → Option Unit
  | .status | .getProfile | .grantSeasonBadges _ _ | .buyXp _ => none
  | _ => some ()

/-- What happens between the requests: the clock moves, a match ends. -/
inductive RewardDrift where
  | tick (ms : ℕ)
  | applyMatchResult (won : Bool) (potCents xpGain : ℕ)
  deriving DecidableEq, Repr

/-- What the rest of the server does between two awaits. -/
def RewardServer.drift (s : RewardServer) : RewardDrift → RewardServer
  | .tick ms => { s with now := s.now + ms }
  | .applyMatchResult won potCents xpGain =>
    { s with user := s.user.applyMatchResult won potCents xpGain, matchXp := s.matchXp + xpGain }

/-- The service as programs on one user's row. -/
def rewardRuntime (cfg : RewardsConfig) :
    Runtime RewardServer RewardQuery RewardQuery.Answer RewardError RewardReceipt RewardCall Unit
      WalletReply RewardDrift where
  program := RewardCall.program cfg
  chain := RewardCall.chain
  answer := fun w _ q s => q.answer w s
  drift := fun d s => s.drift d

end Murlan
