import Mathlib.Algebra.BigOperators.Group.List.Basic
import Murlan.Proof.Keepsakes

/-!
# Rewards are claimed once

* `Marks.recorded_add`, `Marks.not_free`: what the row records of a reward stays, and a
  reward that is recorded is not free.
* `RewardCall.follows`: a claim gives a reward it read as free, and records it, each once.
* `ClaimsOK`: the invariant. Of the claims on the chain only the first has begun, so the row
  is as it read it, and what was given and what was recorded differ by its reward at most.
* `rewards_claimed_once`: no reward is given twice, over all runs.
-/

namespace Murlan

/-! ## What the row records -/

/-- The columns that record claims. -/
structure Marks where
  lastDaily : Option ℕ
  challenges : List String
  dailies : List String
  weeklies : List String
  milestones : List ℕ
  lastVipGift : Option String

/-- What the row says was claimed. -/
def RewardUser.marks (u : RewardUser) : Marks :=
  { lastDaily := u.lastDailyClaim
    challenges := u.claimedChallenges
    dailies := u.claimedDailies
    weeklies := u.claimedWeeklies
    milestones := u.collectedMilestones
    lastVipGift := u.lastVipGift }

namespace Marks

/-- The marks after a patch. -/
def patch (m : Marks) (p : RewardsPatch) : Marks :=
  { lastDaily := p.lastDailyClaim <|> m.lastDaily
    challenges := p.claimedChallenges.getD m.challenges
    dailies := p.claimedDailies.getD m.dailies
    weeklies := p.claimedWeeklies.getD m.weeklies
    milestones := p.collectedMilestones.getD m.milestones
    lastVipGift := p.lastVipGift <|> m.lastVipGift }

@[simp] theorem marks_setRewards (u : RewardUser) (p : RewardsPatch) :
    (u.setRewards p).marks = u.marks.patch p := rfl

/-- What a claim checks. -/
def Free (m : Marks) : RewardKey → Prop
  | .daily day => ∀ t, m.lastDaily = some t → dayIndex t < day
  | .challenge id => id ∉ m.challenges
  | .dailyQuest day id => dayKey day ++ ":" ++ id ∉ m.dailies
  | .weeklyQuest week id => weekKey week ++ ":" ++ id ∉ m.weeklies
  | .level level => level ∉ m.milestones
  | .vipGift week => m.lastVipGift ≠ some (weekKey week)

/-- The row records the reward, and no gift of a week after `week`. -/
def Recorded (m : Marks) (week : ℕ) : RewardKey → Prop
  | .daily day => ∃ t, m.lastDaily = some t ∧ day ≤ dayIndex t
  | .challenge id => id ∈ m.challenges
  | .dailyQuest day id => dayKey day ++ ":" ++ id ∈ m.dailies
  | .weeklyQuest week id => weekKey week ++ ":" ++ id ∈ m.weeklies
  | .level level => level ∈ m.milestones
  | .vipGift w => ∃ v, w ≤ v ∧ v ≤ week ∧ m.lastVipGift = some (weekKey v)

/-- What a claim writes. -/
def Adds (m m' : Marks) : RewardKey → Prop
  | .daily day => ∃ t, dayIndex t = day ∧ m' = { m with lastDaily := some t }
  | .challenge id => m' = { m with challenges := m.challenges ++ [id] }
  | .dailyQuest day id => m' = { m with dailies := m.dailies ++ [dayKey day ++ ":" ++ id] }
  | .weeklyQuest week id => m' = { m with weeklies := m.weeklies ++ [weekKey week ++ ":" ++ id] }
  | .level level => m' = { m with milestones := m.milestones ++ [level] }
  | .vipGift week => m' = { m with lastVipGift := some (weekKey week) }

variable {m m' : Marks} {key : RewardKey} {week : ℕ}

/-- A gift is of the week it is claimed in. -/
def Timely (week : ℕ) : RewardKey → Prop
  | .vipGift w => w = week
  | _ => True

/-- What is recorded is not free to claim. -/
theorem not_free (h : m.Recorded week key) (htimely : Timely week key) : ¬ m.Free key := by
  intro hfree
  cases key with
  | daily day =>
    obtain ⟨t, ht, hday⟩ := h
    have hlt := hfree t ht
    omega
  | vipGift w =>
    obtain rfl : w = week := htimely
    obtain ⟨v, hwv, hvw, hlast⟩ := h
    obtain rfl : w = v := by omega
    exact hfree hlast
  | challenge id | dailyQuest day id | weeklyQuest week id | level level => exact hfree h

/-- A claim records its own key. -/
theorem recorded_self (h : Adds m m' key) (htimely : Timely week key) {week' : ℕ} (hle : week ≤ week') :
    m'.Recorded week' key := by
  cases key with
  | daily day =>
    obtain ⟨t, ht, rfl⟩ := h
    exact ⟨t, rfl, ht.ge⟩
  | vipGift w =>
    obtain rfl : w = week := htimely
    obtain rfl := h
    exact ⟨w, Nat.le_refl w, hle, rfl⟩
  | challenge id | dailyQuest day id | weeklyQuest week id | level level =>
    obtain rfl := h
    exact List.mem_append_right _ (List.mem_singleton_self _)

/-- What the row records it records after another claim. -/
theorem recorded_add {other : RewardKey} (h : Adds m m' key) (hfree : m.Free key) (htimely : Timely week key)
    (hother : m.Recorded week other) {week' : ℕ} (hweek : m.Recorded week' other) (hle : week ≤ week') :
    m'.Recorded week' other := by
  cases key with
  | daily day =>
    obtain ⟨t, ht, rfl⟩ := h
    cases other with
    | daily day' =>
      obtain ⟨t', ht', hday⟩ := hother
      have hlt := hfree t' ht'
      exact ⟨t, rfl, by omega⟩
    | challenge _ | dailyQuest _ _ | weeklyQuest _ _ | level _ | vipGift _ => exact hweek
  | vipGift w =>
    obtain rfl : w = week := htimely
    obtain rfl := h
    cases other with
    | vipGift w' =>
      obtain ⟨v, hwv, hvw, -⟩ := hother
      exact ⟨w, by omega, hle, rfl⟩
    | daily _ | challenge _ | dailyQuest _ _ | weeklyQuest _ _ | level _ => exact hweek
  | challenge id =>
    obtain rfl := h
    cases other with
    | challenge _ => exact List.mem_append_left _ hweek
    | daily _ | dailyQuest _ _ | weeklyQuest _ _ | level _ | vipGift _ => exact hweek
  | dailyQuest day id =>
    obtain rfl := h
    cases other with
    | dailyQuest _ _ => exact List.mem_append_left _ hweek
    | daily _ | challenge _ | weeklyQuest _ _ | level _ | vipGift _ => exact hweek
  | weeklyQuest w id =>
    obtain rfl := h
    cases other with
    | weeklyQuest _ _ => exact List.mem_append_left _ hweek
    | daily _ | challenge _ | dailyQuest _ _ | level _ | vipGift _ => exact hweek
  | level lvl =>
    obtain rfl := h
    cases other with
    | level _ => exact List.mem_append_left _ hweek
    | daily _ | challenge _ | dailyQuest _ _ | weeklyQuest _ _ | vipGift _ => exact hweek

theorem recorded_mono (h : m.Recorded week key) {week' : ℕ} (hle : week ≤ week') : m.Recorded week' key := by
  cases key with
  | vipGift w =>
    obtain ⟨v, hwv, hvw, hlast⟩ := h
    exact ⟨v, hwv, by omega, hlast⟩
  | daily _ | challenge _ | dailyQuest _ _ | weeklyQuest _ _ | level _ => exact h

end Marks

/-! ## The order of a claim -/

/-- Where a request is: the row it read, the reward given and not recorded, or the other way. -/
inductive ClaimPhase where
  | idle
  | read (m : Marks)
  | paid (m : Marks) (r : Reward)
  | owed (r : Reward)
  | settled

namespace ClaimPhase

/-- No reward is half claimed. -/
def Quiet : ClaimPhase → Prop
  | .paid _ _ | .owed _ => False
  | _ => True

/-- How an answer moves a claim. -/
def after : (q : RewardQuery) → Except RewardError q.Answer → ClaimPhase → ClaimPhase
  | .findById, .ok (some u), _ => .read u.marks
  | .addXp _ [.granted r], _, .read m => .paid m r
  | .setRewards _ [.recorded _], _, .paid _ _ => .settled
  | .setRewards _ [.recorded r], _, .read _ => .owed r
  | .addXp _ [.granted _], _, .owed _ => .settled
  | .setRewards _ [.recorded _, .granted _], _, .read _ => .settled
  | _, _, p => p

end ClaimPhase

namespace RewardQuery

/-- A call that gives no reward and records none. -/
def Plain : RewardQuery → Prop
  | .setRewards patch marks => marks = [] ∧ ∀ m : Marks, m.patch patch = m
  | .purchaseCosmetic _ cost => cost = 0
  | .findById | .addXp _ _ => False
  | _ => True

/-- A call of the repository is answered. -/
def Answered : (q : RewardQuery) → Except RewardError q.Answer → Prop
  | .findById, r | .setRewards _ _, r | .addXp _ _, r => ∃ u, r = .ok (some u)
  | .purchaseCosmetic _ _, r | .purchaseCosmeticXp _ _, r => ∃ res, r = .ok res
  | _, _ => True

end RewardQuery

/-- What a request is known to have done, and when it began. -/
structure Claimant where
  now : ℕ
  phase : ClaimPhase

/-- What a request may ask; only a claim on the chain gives rewards. -/
inductive ClaimMay (onChain : Prop) (now : ℕ) : RewardQuery → ClaimPhase → Prop where
  | read {p} (h : p.Quiet) : ClaimMay onChain now .findById p
  | plain {q p} (h : q.Plain) : ClaimMay onChain now q p
  | grant {m r} (hchain : onChain) (hfree : m.Free r.key) (htimely : Marks.Timely (weekOf now) r.key) :
    ClaimMay onChain now (.addXp r.xp [.granted r]) (.read m)
  | record {m r patch} (hchain : onChain) (hadds : m.Adds (m.patch patch) r.key) :
    ClaimMay onChain now (.setRewards patch [.recorded r]) (.paid m r)
  | recordFirst {m r patch} (hchain : onChain) (hfree : m.Free r.key)
    (htimely : Marks.Timely (weekOf now) r.key) (hadds : m.Adds (m.patch patch) r.key) :
    ClaimMay onChain now (.setRewards patch [.recorded r]) (.read m)
  | grantAfter {r} (hchain : onChain) : ClaimMay onChain now (.addXp r.xp [.granted r]) (.owed r)
  | both {m r patch} (hchain : onChain) (hfree : m.Free r.key) (htimely : Marks.Timely (weekOf now) r.key)
    (hadds : m.Adds (m.patch patch) r.key) (hxp : r.xp = 0) :
    ClaimMay onChain now (.setRewards patch [.recorded r, .granted r]) (.read m)

/-- A claim asks what its phase lets it. -/
def claimProtocol (op : RewardCall) : Async.Protocol RewardQuery RewardQuery.Answer RewardError Claimant where
  may q g := ClaimMay (op.chain = some ()) g.now q g.phase
  reply q r g g' := q.Answered r ∧ g' = { g with phase := g.phase.after q r }

/-- A plain call leaves the claim where it was. -/
theorem ClaimPhase.after_plain {q : RewardQuery} (h : q.Plain) (r : Except RewardError q.Answer) (p : ClaimPhase) :
    p.after q r = p := by
  cases q with
  | findById | addXp _ _ => exact h.elim
  | setRewards patch marks =>
    obtain ⟨rfl, -⟩ := h
    rfl
  | purchaseCosmetic _ _ | purchaseCosmeticXp _ _ | debit _ | credit _ | charge _ _ => rfl

/-! ## Requests that give nothing -/

/-- A read, or a call that gives no reward. -/
def RewardQuery.Calm (q : RewardQuery) : Prop := q = .findById ∨ q.Plain

section Calm

variable {op : RewardCall} {α : Type}

/-- A calm call leaves a quiet claim quiet. -/
theorem ClaimPhase.quiet_after {q : RewardQuery} (h : q.Calm) (r : Except RewardError q.Answer) {p : ClaimPhase}
    (hp : p.Quiet) :
    (p.after q r).Quiet := by
  rcases h with rfl | h
  · match r with
    | .ok (some u) => trivial
    | .ok none | .error e => exact hp
  · rw [ClaimPhase.after_plain h]
    exact hp

/-- A program of calm calls stays quiet. -/
theorem wp_calm {p : RewardProgram α} (h : p.Asks RewardQuery.Calm) {g : Claimant} (hg : g.phase.Quiet) :
    p.wp (claimProtocol op) (fun _ g => g.phase.Quiet) (fun _ g => g.phase.Quiet) g := by
  refine h.wp (J := fun g : Claimant => g.phase.Quiet) ?_ hg
  intro q g hq hg
  refine ⟨?_, ?_⟩
  · rcases hq with rfl | hq
    · exact .read hg
    · exact .plain hq
  · rintro r g' ⟨-, rfl⟩
    exact ClaimPhase.quiet_after hq r hg

/-- Plain calls leave a request where it is. -/
theorem wp_plain {p : RewardProgram α} (h : p.Asks RewardQuery.Plain) (g : Claimant) :
    p.wp (claimProtocol op) (fun _ g' => g' = g) (fun _ g' => g' = g) g := by
  refine h.wp (J := fun g' : Claimant => g' = g) ?_ rfl
  rintro q _ hq rfl
  refine ⟨.plain hq, ?_⟩
  rintro r g' ⟨-, rfl⟩
  rw [ClaimPhase.after_plain hq]

end Calm

namespace RewardsService

variable {u : RewardUser} {now : ℕ} {ok : RewardQuery → Prop}

theorem plain_anchorPatch : (RewardQuery.setRewards (anchorPatch u now) []).Plain := ⟨rfl, fun _ => rfl⟩

theorem plain_badges {l : List String} : (RewardQuery.setRewards { badges := some l } []).Plain :=
  ⟨rfl, fun _ => rfl⟩

theorem asks_resolveAnchors : (resolveAnchors u now).Asks RewardQuery.Plain := by
  unfold resolveAnchors
  simp only
  split
  · exact Async.Asks.bind (Async.Asks.await plain_anchorPatch) fun _ => trivial
  · trivial

theorem asks_grantAchievements : (grantAchievements u).Asks RewardQuery.Plain := by
  unfold grantAchievements
  simp only
  split
  · trivial
  · exact Async.Asks.bind (Async.Asks.tryCatch (Async.Asks.await plain_badges) fun _ => trivial) fun _ => trivial

theorem asks_read {f : Option RewardUser → RewardProgram RewardReceipt} (h : ∀ u, (f u).Asks RewardQuery.Calm) :
    (Async.bind (Async.await RewardQuery.findById) f : RewardProgram RewardReceipt).Asks RewardQuery.Calm :=
  Async.Asks.bind (Async.Asks.await (.inl rfl)) h

theorem Asks.calm {α : Type} {p : RewardProgram α} (h : p.Asks RewardQuery.Plain) : p.Asks RewardQuery.Calm := by
  induction p with
  | pure a => trivial
  | throw e => trivial
  | ask q next ih => exact ⟨.inr h.1, fun r => ih r (h.2 r)⟩

theorem asks_status (cfg : RewardsConfig) : (status cfg now).Asks RewardQuery.Calm := by
  unfold status
  refine asks_read fun found => ?_
  cases found with
  | none => trivial
  | some u =>
    refine Async.Asks.bind (Asks.calm asks_grantAchievements) fun u' => ?_
    exact Async.Asks.bind (Asks.calm asks_resolveAnchors) fun _ => trivial

theorem asks_getProfile : getProfile.Asks RewardQuery.Calm := by
  unfold getProfile
  refine asks_read fun found => ?_
  cases found with
  | none => trivial
  | some u => exact Async.Asks.bind (Asks.calm asks_grantAchievements) fun _ => trivial

theorem asks_grantSeasonBadges (seasonNumber rank : ℕ) : (grantSeasonBadges seasonNumber rank).Asks RewardQuery.Calm := by
  unfold grantSeasonBadges
  refine asks_read fun found => ?_
  cases found with
  | none => trivial
  | some u =>
    simp only
    split
    · trivial
    · refine Async.Asks.bind (Async.Asks.ignore ?_) fun _ => trivial
      exact Async.Asks.bind (Async.Asks.await (.inr plain_badges)) fun _ => trivial

theorem asks_refundPurchase (charge : ℕ) : (refundPurchase charge).Asks RewardQuery.Plain :=
  Async.Asks.ignore (Async.Asks.await trivial)

theorem asks_buyAtomic (id : String) (charge : ℕ) : (buyAtomic id charge).Asks RewardQuery.Plain := by
  refine Async.Asks.tryCatch (Async.Asks.await trivial) fun e => ?_
  cases e with
  | insufficientFunds | grantRejected _ | wallet => trivial

theorem asks_buyFallback (id : String) (charge : ℕ) : (buyFallback id charge).Asks RewardQuery.Plain := by
  unfold buyFallback
  refine Async.Asks.bind (Async.Asks.tryCatch ?_ ?_) fun charged => ?_
  · exact Async.Asks.bind (Async.Asks.await trivial) fun _ => trivial
  · intro e
    split
    · trivial
    · trivial
  · split
    · refine Async.Asks.bind (Async.Asks.tryCatch (Async.Asks.await rfl) ?_) fun granted => ?_
      · exact fun e => Async.Asks.bind (asks_refundPurchase charge) fun _ => trivial
      · split
        · trivial
        · exact Async.Asks.bind (asks_refundPurchase charge) fun _ => trivial
    · trivial

theorem asks_buy (cfg : RewardsConfig) (id : String) : (buy cfg id now).Asks RewardQuery.Calm := by
  unfold buy
  generalize cosmetics.find? (fun c => c.id = id) = found
  cases found with
  | none => trivial
  | some c =>
  simp only
  split
  · trivial
  split
  · trivial
  refine asks_read fun found => ?_
  cases found with
  | none => trivial
  | some u =>
  simp only
  split
  · trivial
  split
  · exact Async.Asks.bind (Asks.calm (asks_buyAtomic id _)) fun _ => trivial
  · exact Async.Asks.bind (Asks.calm (asks_buyFallback id _)) fun _ => trivial

theorem asks_buyXp (id : String) : (buyXp id).Asks RewardQuery.Calm := by
  unfold buyXp
  generalize cosmetics.find? (fun c => c.id = id) = found
  cases found with
  | none => trivial
  | some c =>
  simp only
  split
  · refine asks_read fun found => ?_
    cases found with
    | none => trivial
    | some u =>
      simp only
      split
      · trivial
      · exact Async.Asks.bind (Async.Asks.await (.inr trivial)) fun _ => trivial
  · trivial

/-! ## Claims -/

/-- A claim ends with no reward half claimed. -/
def Follows (op : RewardCall) (p : RewardProgram RewardReceipt) (g : Claimant) : Prop :=
  p.wp (claimProtocol op) (fun _ g => g.phase.Quiet) (fun _ g => g.phase.Quiet) g

variable {op : RewardCall} {g : Claimant} {m : Marks}

/-- A claim reads the row first. -/
theorem follows_read {f : Option RewardUser → RewardProgram RewardReceipt} (hg : g.phase.Quiet)
    (hnext : ∀ u, Follows op (f (some u)) { g with phase := .read u.marks }) :
    Follows op (Async.await RewardQuery.findById >>= f) g := by
  unfold Follows
  rw [Async.wp_bind, Async.wp_await]
  refine ⟨.read hg, ?_, ?_⟩
  · rintro r g' ⟨⟨u, hr⟩, rfl⟩
    obtain rfl := Except.ok.inj hr
    exact hnext u
  · rintro e g' ⟨⟨u, hr⟩, -⟩
    cases hr

theorem follows_resolveAnchors {f : PeriodAnchor × PeriodAnchor → RewardProgram RewardReceipt} (hg : g.phase.Quiet)
    (hnext : ∀ a, Follows op (f a) g) : Follows op (resolveAnchors u now >>= f) g := by
  unfold Follows
  rw [Async.wp_bind]
  refine Async.wp_mono (wp_plain asks_resolveAnchors g) ?_ ?_
  · rintro a _ rfl
    exact hnext a
  · rintro e _ rfl
    exact hg

/-- A claim records what it has paid. -/
theorem follows_setRewards {patch : RewardsPatch} {marks : List RewardMark}
    {f : Option RewardUser → RewardProgram RewardReceipt}
    (hmay : ClaimMay (op.chain = some ()) g.now (.setRewards patch marks) g.phase)
    (hnext : ∀ u, Follows op (f u) { g with phase := g.phase.after (.setRewards patch marks) (.ok u) }) :
    Follows op (Async.await (RewardQuery.setRewards patch marks) >>= f) g := by
  unfold Follows
  rw [Async.wp_bind, Async.wp_await]
  refine ⟨hmay, ?_, ?_⟩
  · rintro r g' ⟨-, rfl⟩
    exact hnext r
  · rintro e g' ⟨⟨u, hr⟩, -⟩
    cases hr

/-- A claim pays what was free. -/
theorem follows_addXp {xp : ℕ} {marks : List RewardMark} {f : Option RewardUser → RewardProgram RewardReceipt}
    (hmay : ClaimMay (op.chain = some ()) g.now (.addXp xp marks) g.phase)
    (hnext : ∀ u, Follows op (f u) { g with phase := g.phase.after (.addXp xp marks) (.ok u) }) :
    Follows op (Async.await (RewardQuery.addXp xp marks) >>= f) g := by
  unfold Follows
  rw [Async.wp_bind, Async.wp_await]
  refine ⟨hmay, ?_, ?_⟩
  · rintro r g' ⟨-, rfl⟩
    exact hnext r
  · rintro e g' ⟨⟨u, hr⟩, -⟩
    cases hr

/-- A claim pays, then records. -/
theorem follows_grantThenRecord {r : Reward} {patch : RewardsPatch} {f : Unit → RewardProgram RewardReceipt}
    (hchain : op.chain = some ()) (hphase : g.phase = .read m) (hfree : m.Free r.key)
    (htimely : Marks.Timely (weekOf g.now) r.key) (hadds : m.Adds (m.patch patch) r.key)
    (hnext : Follows op (f ()) { g with phase := .settled }) : Follows op (grantThenRecord r patch >>= f) g := by
  obtain ⟨now, phase⟩ := g
  obtain rfl : phase = .read m := hphase
  unfold Follows grantThenRecord
  rw [Async.wp_bind]
  rw [Async.wp_bind, Async.wp_await]
  refine ⟨.grant hchain hfree htimely, ?_, ?_⟩
  · rintro _ g' ⟨-, rfl⟩
    rw [Async.wp_bind, Async.wp_await]
    refine ⟨.record hchain hadds, ?_, ?_⟩
    · rintro _ g' ⟨-, rfl⟩
      exact hnext
    · rintro e g' ⟨⟨u, hr⟩, -⟩
      cases hr
  · rintro e g' ⟨⟨u, hr⟩, -⟩
    cases hr

theorem free_of_dailyClaim (h : (dailyClaim u now).1 = true) : u.marks.Free (.daily (dayIndex now)) := by
  intro t ht
  have hlast : u.lastDailyClaim = some t := ht
  simp only [dailyClaim, hlast, Option.map_some, Option.any_some, Bool.not_eq_true', decide_eq_false_iff_not,
    Nat.not_le] at h
  exact h

/-- The daily bonus. -/
theorem follows_claimDaily (hg : g.phase.Quiet) : Follows .claimDaily (claimDaily g.now) g := by
  unfold claimDaily
  refine follows_read hg fun u => ?_
  simp only
  split
  · rename_i hcan
    refine follows_grantThenRecord rfl rfl (free_of_dailyClaim hcan) trivial ⟨g.now, rfl, rfl⟩ ?_
    trivial
  · trivial

/-- A challenge. -/
theorem follows_claimChallenge (id : String) (hg : g.phase.Quiet) :
    Follows (.claimChallenge id) (claimChallenge id) g := by
  unfold claimChallenge
  generalize challenges.find? (fun d => d.id = id) = found
  cases found with
  | none => exact hg
  | some d =>
  refine follows_read hg fun u => ?_
  simp only
  split
  · trivial
  split
  · trivial
  rename_i hfree _
  refine follows_grantThenRecord rfl rfl hfree trivial rfl ?_
  trivial

theorem follows_whenFound {found : Option QuestDef} {claim : QuestDef → RewardProgram RewardReceipt}
    (hg : g.phase.Quiet) (h : ∀ d, Follows op (claim d) g) : Follows op (whenFound found claim) g := by
  cases found with
  | none => exact hg
  | some d => exact h d

theorem follows_claimDailyQuest (id : String) (hg : g.phase.Quiet) :
    Follows (.claimDailyQuest id) (claimDailyQuest id g.now) g := by
  unfold claimDailyQuest
  refine follows_whenFound hg fun d => ?_
  refine follows_read hg fun u => ?_
  have hkey : dailyClaimKey g.now d.id = dayKey (dayIndex g.now) ++ ":" ++ d.id := by
    rw [dailyClaimKey, utcDayKey_eq]
  rw [hkey]
  simp only
  split
  · trivial
  rename_i hfree
  refine follows_resolveAnchors trivial fun anchors => ?_
  obtain ⟨daily, weekly⟩ := anchors
  simp only
  split
  · trivial
  refine follows_grantThenRecord rfl rfl hfree trivial rfl ?_
  trivial

theorem follows_claimWeeklyQuest (id : String) (hg : g.phase.Quiet) :
    Follows (.claimWeeklyQuest id) (claimWeeklyQuest id g.now) g := by
  unfold claimWeeklyQuest
  refine follows_whenFound hg fun d => ?_
  refine follows_read hg fun u => ?_
  have hkey : weeklyClaimKey g.now d.id = weekKey (weekOf g.now) ++ ":" ++ d.id := by
    rw [weeklyClaimKey, isoWeekKey_eq]
  rw [hkey]
  simp only
  split
  · trivial
  rename_i hfree
  refine follows_resolveAnchors trivial fun anchors => ?_
  obtain ⟨daily, weekly⟩ := anchors
  simp only
  split
  · trivial
  refine follows_grantThenRecord rfl rfl hfree trivial rfl ?_
  trivial

/-- A milestone. -/
theorem follows_claimLevelReward (hg : g.phase.Quiet) : Follows .claimLevelReward claimLevelReward g := by
  unfold claimLevelReward
  refine follows_read hg fun u => ?_
  simp only
  split
  · trivial
  rename_i lvl hpending
  split
  · trivial
  rename_i hfree
  obtain ⟨-, hfor⟩ := pendingMilestone_some hpending
  obtain ⟨-, hpos⟩ := milestoneFor_level hfor
  refine follows_setRewards (.recordFirst rfl hfree trivial rfl) fun _ => ?_
  rw [if_pos hpos]
  refine follows_addXp (.grantAfter (r := ⟨.level lvl.level, lvl.bonusXp⟩) rfl) fun _ => ?_
  split
  · trivial
  · split
    · refine wp_calm ?_ trivial
      refine Async.Asks.bind (Async.Asks.ignore ?_) fun _ => trivial
      exact Async.Asks.bind (Async.Asks.await (.inr rfl)) fun _ => trivial
    · trivial

/-- The weekly gift. -/
theorem follows_claimVipGift (cfg : RewardsConfig) (isVip : Bool) (hg : g.phase.Quiet) :
    Follows (.claimVipGift isVip) (claimVipGift cfg isVip g.now) g := by
  unfold claimVipGift
  split
  · exact hg
  split
  · exact hg
  refine follows_read hg fun u => ?_
  rw [isoWeekKey_eq]
  simp only
  split
  · trivial
  rename_i hfree
  generalize vipGiftFor u (weekKey (weekOf g.now)) = found
  cases found with
  | none =>
    refine follows_setRewards (.recordFirst rfl hfree rfl rfl) fun _ => ?_
    refine follows_addXp (.grantAfter (r := ⟨.vipGift (weekOf g.now), vipGiftXp⟩) rfl) fun _ => ?_
    trivial
  | some id =>
    refine follows_setRewards (.both rfl hfree rfl rfl rfl) fun _ => ?_
    trivial

/-- **A claim gives what it read as free, and records it, each once**; other requests give
nothing. -/
theorem follows (cfg : RewardsConfig) (s : RewardServer) (op : RewardCall) :
    Follows op (op.program cfg s) { now := s.now, phase := .idle } := by
  cases op with
  | status =>
    show Follows .status (status cfg s.now) _
    exact wp_calm (asks_status cfg) trivial
  | getProfile => exact wp_calm asks_getProfile trivial
  | grantSeasonBadges seasonNumber rank => exact wp_calm (asks_grantSeasonBadges seasonNumber rank) trivial
  | claimDaily => exact follows_claimDaily (g := ⟨s.now, .idle⟩) trivial
  | claimChallenge id => exact follows_claimChallenge id trivial
  | claimDailyQuest id => exact follows_claimDailyQuest (g := ⟨s.now, .idle⟩) id trivial
  | claimWeeklyQuest id => exact follows_claimWeeklyQuest (g := ⟨s.now, .idle⟩) id trivial
  | claimLevelReward => exact follows_claimLevelReward trivial
  | claimVipGift isVip => exact follows_claimVipGift (g := ⟨s.now, .idle⟩) cfg isVip trivial
  | buy id =>
    show Follows (.buy id) (buy cfg id s.now) _
    exact wp_calm (asks_buy cfg id) trivial
  | buyXp id => exact wp_calm (asks_buyXp id) trivial

end RewardsService

/-! ## The invariant -/

/-- What each claim under way knows. -/
abbrev ClaimKnowledge := ℕ → Option (RewardCall × Claimant)

/-- Where a request is fits the row and the chain. -/
def PhaseOK (u : RewardUser) (op : RewardCall) (g : Claimant) : Prop :=
  match g.phase with
  | .idle | .settled => True
  | .read m => op.chain = some () → m = u.marks
  | .paid m r =>
    op.chain = some () ∧ m = u.marks ∧ m.Free r.key ∧ Marks.Timely (weekOf g.now) r.key
  | .owed _ => op.chain = some ()

/-- Requests are known in the order they began, and none began later than now. -/
structure ClaimsInOrder (now n : ℕ) (know : ClaimKnowledge) : Prop where
  below : ∀ j x, know j = some x → j < n
  began : ∀ j op g, know j = some (op, g) → g.now ≤ now
  order : ∀ i j op g op' g', i < j → know i = some (op, g) → know j = some (op', g') → g.now ≤ g'.now

/-- A time a claim may still be made with: now, or when one on the chain began. -/
def Upcoming (now : ℕ) (know : ClaimKnowledge) (t : ℕ) : Prop :=
  t = now ∨ ∃ j op g, know j = some (op, g) ∧ op.chain = some () ∧ g.now = t

/-- What was given was recorded, up to the one reward that is half claimed. -/
def Balanced (granted recorded : List Reward) (know : ClaimKnowledge) : Prop :=
  ((∀ j op g, know j = some (op, g) → g.phase.Quiet) ∧ granted = recorded) ∨
    ∃ k op g, know k = some (op, g) ∧
      (∀ j op' g', j ≠ k → know j = some (op', g') → g'.phase.Quiet) ∧
        ((∃ m r, g.phase = .paid m r ∧ granted = recorded ++ [r]) ∨
          ∃ r, g.phase = .owed r ∧ recorded = granted ++ [r])

/-- The rewards recorded in the run or before it, at `t₀`. -/
def ClaimTaken (u₀ : RewardUser) (t₀ : ℕ) (recorded : List Reward) (key : RewardKey) : Prop :=
  key ∈ recorded.map (·.key) ∨ u₀.marks.Recorded (weekOf t₀) key

/-- The invariant of the claims. -/
structure ClaimsOK (u₀ : RewardUser) (t₀ : ℕ) (s : RewardServer) (n : ℕ) (know : ClaimKnowledge) : Prop where
  ordered : ClaimsInOrder s.now n know
  recorded : ∀ key, ClaimTaken u₀ t₀ s.recorded key → ∀ t, Upcoming s.now know t →
    s.user.marks.Recorded (weekOf t) key
  nodup : (s.recorded.map (·.key)).Nodup
  fresh : ∀ key, u₀.marks.Recorded (weekOf t₀) key → key ∉ s.recorded.map (·.key)
  phase : ∀ j op g, know j = some (op, g) → PhaseOK s.user op g
  balance : Balanced s.granted s.recorded know
  xp : s.user.xp = u₀.xp + s.matchXp + (s.granted.map (·.xp)).sum

/-- XP is given for a reward. -/
def RewardServer.give (s : RewardServer) (r : Reward) : RewardServer :=
  { s with user := s.user.addXp r.xp, granted := s.granted ++ [r] }

namespace ClaimsOK

variable {u₀ : RewardUser} {t₀ : ℕ} {s s' : RewardServer} {n k : ℕ} {know : ClaimKnowledge}
  {op : RewardCall} {g : Claimant}

/-- What is known after a step of the request `k`. -/
theorem know_update {x y : RewardCall × Claimant} {j : ℕ} (h : Function.update know k (some x) j = some y) :
    (j = k ∧ y = x) ∨ (j ≠ k ∧ know j = some y) := by
  by_cases hjk : j = k
  · subst hjk
    rw [Function.update_self] at h
    exact .inl ⟨rfl, (Option.some.inj h).symm⟩
  · rw [Function.update_of_ne hjk] at h
    exact .inr ⟨hjk, h⟩

/-- A claim that goes on stays in line. -/
theorem inOrder_update {now : ℕ} (h : ClaimsInOrder now n know) (hk : know k = some (op, g)) (phase : ClaimPhase) :
    ClaimsInOrder now n (Function.update know k (some (op, { g with phase }))) := by
  have hback : ∀ j op' g', Function.update know k (some (op, { g with phase })) j = some (op', g') →
      ∃ g'', know j = some (op', g'') ∧ g''.now = g'.now := by
    intro j op' g' hj
    rcases know_update hj with ⟨rfl, heq⟩ | ⟨-, hj⟩
    · cases heq
      exact ⟨g, hk, rfl⟩
    · exact ⟨g', hj, rfl⟩
  refine ⟨?_, ?_, ?_⟩
  · rintro j ⟨op', g'⟩ hj
    obtain ⟨g'', hj', -⟩ := hback j op' g' hj
    exact h.below j _ hj'
  · intro j op' g' hj
    obtain ⟨g'', hj', hnow⟩ := hback j op' g' hj
    rw [← hnow]
    exact h.began j op' g'' hj'
  · intro i j op₁ g₁ op₂ g₂ hij hi hj
    obtain ⟨g₁', hi', hnow₁⟩ := hback i op₁ g₁ hi
    obtain ⟨g₂', hj', hnow₂⟩ := hback j op₂ g₂ hj
    rw [← hnow₁, ← hnow₂]
    exact h.order i j op₁ g₁' op₂ g₂' hij hi' hj'

theorem upcoming_update {now t : ℕ} (hk : know k = some (op, g)) {phase : ClaimPhase}
    (h : Upcoming now (Function.update know k (some (op, { g with phase }))) t) : Upcoming now know t := by
  rcases h with rfl | ⟨j, op', g', hj, hchain, rfl⟩
  · exact .inl rfl
  · rcases know_update hj with ⟨rfl, heq⟩ | ⟨-, hj⟩
    · cases heq
      exact .inr ⟨_, op, g, hk, hchain, rfl⟩
    · exact .inr ⟨j, op', g', hj, hchain, rfl⟩

/-- The other claims on the chain have not begun. -/
def First (know : ClaimKnowledge) (k : ℕ) : Prop :=
  ∀ j op' g', j ≠ k → know j = some (op', g') → op'.chain = some () → k < j ∧ g'.phase = .idle

/-- A claim that is first is no later than those that may still be made. -/
theorem first_le {now t : ℕ} (h : ClaimsInOrder now n know) (hk : know k = some (op, g)) (hfirst : First know k)
    (ht : Upcoming now know t) : g.now ≤ t := by
  rcases ht with rfl | ⟨j, op', g', hj, hchain, rfl⟩
  · exact h.began k op g hk
  · by_cases hjk : j = k
    · subst hjk
      rw [hk] at hj
      cases hj
      exact Nat.le_refl _
    · exact h.order k j op g op' g' (hfirst j op' g' hjk hj hchain).1 hk hj

/-- If the claim that is first is on the chain, no other request has half claimed a reward. -/
theorem quiet_others (h : ClaimsOK u₀ t₀ s n know) (hfirst : First know k) {j : ℕ} {op' : RewardCall}
    {g' : Claimant} (hjk : j ≠ k) (hj : know j = some (op', g')) : g'.phase.Quiet := by
  have hphase := h.phase j op' g' hj
  unfold PhaseOK at hphase
  cases hp : g'.phase with
  | idle | settled | read m => trivial
  | paid m r =>
    rw [hp] at hphase
    have hidle := (hfirst j op' g' hjk hj hphase.1).2
    rw [hp] at hidle
    cases hidle
  | owed r =>
    rw [hp] at hphase
    have hidle := (hfirst j op' g' hjk hj hphase).2
    rw [hp] at hidle
    cases hidle

/-- What was given and recorded before the claim that is first, from where it is. -/
theorem balance_first (h : ClaimsOK u₀ t₀ s n know) (hk : know k = some (op, g)) (hfirst : First know k) :
    match g.phase with
    | .paid _ r => s.granted = s.recorded ++ [r]
    | .owed r => s.recorded = s.granted ++ [r]
    | _ => s.granted = s.recorded := by
  rcases h.balance with ⟨hquiet, heq⟩ | ⟨k', op', g', hk', hrest, hmid⟩
  · have hq := hquiet k op g hk
    cases hp : g.phase with
    | idle | settled | read m => exact heq
    | paid m r | owed r => rw [hp] at hq; exact hq.elim
  · have hkk : k' = k := by
      by_contra hne
      have hq := h.quiet_others hfirst hne hk'
      rcases hmid with ⟨m, r, hp, -⟩ | ⟨r, hp, -⟩
      · rw [hp] at hq
        exact hq
      · rw [hp] at hq
        exact hq
    subst hkk
    rw [hk] at hk'
    cases hk'
    rcases hmid with ⟨m, r, hp, heq⟩ | ⟨r, hp, heq⟩
    · rw [hp]
      exact heq
    · rw [hp]
      exact heq

/-- With every claim quiet, what was granted is recorded. -/
theorem balanced_quiet {granted recorded : List Reward} (hothers : ∀ j op' g', j ≠ k → know j = some (op', g') → g'.phase.Quiet)
    {phase : ClaimPhase} (hphase : phase.Quiet) (heq : granted = recorded) :
    Balanced granted recorded (Function.update know k (some (op, { g with phase }))) := by
  refine .inl ⟨?_, heq⟩
  intro j op' g' hj
  rcases know_update hj with ⟨rfl, h⟩ | ⟨hjk, hj⟩
  · cases h
    exact hphase
  · exact hothers j op' g' hjk hj

/-- One claim is halfway: what it owes is known. -/
theorem balanced_half {granted recorded : List Reward} (hothers : ∀ j op' g', j ≠ k → know j = some (op', g') → g'.phase.Quiet)
    {phase : ClaimPhase} (hmid : (∃ m r, phase = .paid m r ∧ granted = recorded ++ [r]) ∨
      ∃ r, phase = .owed r ∧ recorded = granted ++ [r]) :
    Balanced granted recorded (Function.update know k (some (op, { g with phase }))) := by
  refine .inr ⟨k, op, { g with phase }, Function.update_self .., ?_, hmid⟩
  intro j op' g' hjk hj
  rw [Function.update_of_ne hjk] at hj
  exact hothers j op' g' hjk hj

/-! ### One answer -/

/-- The row, the clock and what was given and recorded are as before. -/
structure Same (s s' : RewardServer) : Prop where
  marks : s'.user.marks = s.user.marks
  xp : s'.user.xp = s.user.xp
  now : s'.now = s.now
  granted : s'.granted = s.granted
  recorded : s'.recorded = s.recorded
  matchXp : s'.matchXp = s.matchXp

theorem phaseOK_congr {u u' : RewardUser} (hmarks : u'.marks = u.marks) (h : PhaseOK u op g) : PhaseOK u' op g := by
  unfold PhaseOK at h ⊢
  rw [hmarks]
  exact h

/-- A call that changes nothing of this. -/
theorem congr (h : ClaimsOK u₀ t₀ s n know) (hs : Same s s') : ClaimsOK u₀ t₀ s' n know where
  ordered := by
    rw [hs.now]
    exact h.ordered
  recorded := by
    rw [hs.recorded, hs.now, hs.marks]
    exact h.recorded
  nodup := by
    rw [hs.recorded]
    exact h.nodup
  fresh := by
    rw [hs.recorded]
    exact h.fresh
  phase j op g hj := phaseOK_congr hs.marks (h.phase j op g hj)
  balance := by
    rw [hs.granted, hs.recorded]
    exact h.balance
  xp := by
    rw [hs.xp, hs.matchXp, hs.granted]
    exact h.xp

/-- A request reads the row. -/
theorem reads (h : ClaimsOK u₀ t₀ s n know) (hk : know k = some (op, g)) (hquiet : g.phase.Quiet) :
    ClaimsOK u₀ t₀ s n (Function.update know k (some (op, { g with phase := .read s.user.marks }))) where
  ordered := inOrder_update h.ordered hk _
  recorded key hkey t ht := h.recorded key hkey t (upcoming_update hk ht)
  nodup := h.nodup
  fresh := h.fresh
  phase j op' g' hj := by
    rcases know_update hj with ⟨rfl, heq⟩ | ⟨-, hj⟩
    · cases heq
      exact fun _ => rfl
    · exact h.phase j op' g' hj
  balance := by
    rcases h.balance with ⟨hall, heq⟩ | ⟨k', op', g', hk', hrest, hmid⟩
    · exact balanced_quiet (fun j op' g' _ hj => hall j op' g' hj) trivial heq
    · have hkk : k' ≠ k := by
        rintro rfl
        rw [hk] at hk'
        cases hk'
        rcases hmid with ⟨m, r, hp, -⟩ | ⟨r, hp, -⟩
        · rw [hp] at hquiet
          exact hquiet
        · rw [hp] at hquiet
          exact hquiet
      refine .inr ⟨k', op', g', by rwa [Function.update_of_ne hkk], ?_, hmid⟩
      intro j op'' g'' hjk hj
      rcases know_update hj with ⟨-, heq⟩ | ⟨-, hj⟩
      · cases heq
        trivial
      · exact hrest j op'' g'' hjk hj
  xp := h.xp

theorem give_xp (h : ClaimsOK u₀ t₀ s n know) (r : Reward) :
    s.user.xp + r.xp = u₀.xp + s.matchXp + ((s.granted ++ [r]).map (·.xp)).sum := by
  have hxp := h.xp
  rw [List.map_append, List.sum_append, List.map_singleton, List.sum_singleton]
  omega

/-- The first claim on the chain gives the XP of a reward it read as free. -/
theorem gives (h : ClaimsOK u₀ t₀ s n know) (hk : know k = some (op, g)) (hfirst : First know k)
    (hchain : op.chain = some ()) {m : Marks} (hphase : g.phase = .read m) {r : Reward} (hfree : m.Free r.key)
    (htimely : Marks.Timely (weekOf g.now) r.key) :
    ClaimsOK u₀ t₀ (s.give r) n (Function.update know k (some (op, { g with phase := .paid m r }))) where
  ordered := inOrder_update h.ordered hk _
  recorded key hkey t ht := h.recorded key hkey t (upcoming_update hk ht)
  nodup := h.nodup
  fresh := h.fresh
  phase j op' g' hj := by
    rcases know_update hj with ⟨rfl, heq⟩ | ⟨-, hj⟩
    · cases heq
      have hread := h.phase _ op g hk
      unfold PhaseOK at hread
      rw [hphase] at hread
      exact ⟨hchain, hread hchain, hfree, htimely⟩
    · exact phaseOK_congr rfl (h.phase j op' g' hj)
  balance := by
    have hbal := h.balance_first hk hfirst
    rw [hphase] at hbal
    refine balanced_half (fun j op' g' hjk hj => h.quiet_others hfirst hjk hj) (.inl ⟨m, r, rfl, ?_⟩)
    show s.granted ++ [r] = s.recorded ++ [r]
    rw [hbal]
  xp := h.give_xp r

/-- The XP of a reward recorded before. -/
theorem gives_after (h : ClaimsOK u₀ t₀ s n know) (hk : know k = some (op, g)) (hfirst : First know k)
    {r : Reward} (hphase : g.phase = .owed r) :
    ClaimsOK u₀ t₀ (s.give r) n (Function.update know k (some (op, { g with phase := .settled }))) where
  ordered := inOrder_update h.ordered hk _
  recorded key hkey t ht := h.recorded key hkey t (upcoming_update hk ht)
  nodup := h.nodup
  fresh := h.fresh
  phase j op' g' hj := by
    rcases know_update hj with ⟨rfl, heq⟩ | ⟨-, hj⟩
    · cases heq
      trivial
    · exact phaseOK_congr rfl (h.phase j op' g' hj)
  balance := by
    have hbal := h.balance_first hk hfirst
    rw [hphase] at hbal
    refine balanced_quiet (fun j op' g' hjk hj => h.quiet_others hfirst hjk hj) trivial ?_
    exact hbal.symm
  xp := h.give_xp r

/-- The reward that is recorded was not taken, and the row records it with the others. -/
theorem takes (h : ClaimsOK u₀ t₀ s n know) (hk : know k = some (op, g)) (hfirst : First know k)
    (hchain : op.chain = some ()) {r : Reward} (hfree : s.user.marks.Free r.key)
    (htimely : Marks.Timely (weekOf g.now) r.key) {m' : Marks} (hadds : s.user.marks.Adds m' r.key) :
    ¬ ClaimTaken u₀ t₀ s.recorded r.key ∧
      ∀ key, ClaimTaken u₀ t₀ (s.recorded ++ [r]) key → ∀ t, Upcoming s.now know t → m'.Recorded (weekOf t) key := by
  have hself : Upcoming s.now know g.now := .inr ⟨k, op, g, hk, hchain, rfl⟩
  refine ⟨fun htaken => Marks.not_free (h.recorded _ htaken _ hself) htimely hfree, ?_⟩
  intro key hkey t ht
  have hle := weekOf_mono (first_le h.ordered hk hfirst ht)
  have hold : ClaimTaken u₀ t₀ s.recorded key ∨ key = r.key := by
    rcases hkey with hmem | hstart
    · rw [List.map_append, List.mem_append] at hmem
      rcases hmem with hmem | hmem
      · exact .inl (.inl hmem)
      · exact .inr (by simpa using hmem)
    · exact .inl (.inr hstart)
  rcases hold with htaken | rfl
  · exact Marks.recorded_add hadds hfree htimely (h.recorded _ htaken _ hself) (h.recorded _ htaken _ ht) hle
  · exact Marks.recorded_self hadds htimely hle

theorem nodup_append (h : ClaimsOK u₀ t₀ s n know) {r : Reward} (hnew : ¬ ClaimTaken u₀ t₀ s.recorded r.key) :
    ((s.recorded ++ [r]).map (·.key)).Nodup := by
  rw [List.map_append, List.map_singleton, List.nodup_append]
  refine ⟨h.nodup, by simp, ?_⟩
  intro key hkey key' hkey' heq
  rw [List.mem_singleton] at hkey'
  exact hnew (.inl (by rw [← hkey', ← heq]; exact hkey))

theorem fresh_append (h : ClaimsOK u₀ t₀ s n know) {r : Reward} (hnew : ¬ ClaimTaken u₀ t₀ s.recorded r.key) {key : RewardKey}
    (hkey : u₀.marks.Recorded (weekOf t₀) key) : key ∉ (s.recorded ++ [r]).map (·.key) := by
  rw [List.map_append, List.mem_append, not_or]
  refine ⟨h.fresh key hkey, ?_⟩
  intro hmem
  obtain rfl : key = r.key := by simpa using hmem
  exact hnew (.inr hkey)

/-- The first claim on the chain records a reward, `granted` being what is given after it. -/
theorem records (h : ClaimsOK u₀ t₀ s n know) (hk : know k = some (op, g)) (hfirst : First know k)
    (hchain : op.chain = some ()) {r : Reward} (hfree : s.user.marks.Free r.key)
    (htimely : Marks.Timely (weekOf g.now) r.key) {patch : RewardsPatch}
    (hadds : s.user.marks.Adds (s.user.marks.patch patch) r.key) {phase : ClaimPhase} {granted : List Reward}
    (hphase : phase = .settled ∧ granted = s.recorded ++ [r] ∨ phase = .owed r ∧ granted = s.recorded)
    (hxp : (granted.map (·.xp)).sum = (s.granted.map (·.xp)).sum) :
    ClaimsOK u₀ t₀
      { s with user := s.user.setRewards patch, granted := granted, recorded := s.recorded ++ [r] } n
      (Function.update know k (some (op, { g with phase }))) := by
  obtain ⟨hnew, hrecorded⟩ := h.takes hk hfirst hchain hfree htimely hadds
  refine ⟨inOrder_update h.ordered hk _, ?_, h.nodup_append hnew, fun key => h.fresh_append hnew, ?_, ?_, ?_⟩
  · intro key hkey t ht
    exact hrecorded key hkey t (upcoming_update hk ht)
  · intro j op' g' hj
    rcases know_update hj with ⟨rfl, heq⟩ | ⟨hjk, hj⟩
    · cases heq
      rcases hphase with ⟨rfl, -⟩ | ⟨rfl, -⟩
      · trivial
      · exact hchain
    · -- the others on the chain have not read the row
      have hold := h.phase j op' g' hj
      have hq := h.quiet_others hfirst hjk hj
      unfold PhaseOK at hold ⊢
      cases hp : g'.phase with
      | idle | settled => trivial
      | paid m r | owed r =>
        rw [hp] at hq
        exact hq.elim
      | read m =>
        intro hchain'
        have hidle := (hfirst j op' g' hjk hj hchain').2
        rw [hp] at hidle
        cases hidle
  · rcases hphase with ⟨rfl, heq⟩ | ⟨rfl, heq⟩
    · exact balanced_quiet (fun j op' g' hjk hj => h.quiet_others hfirst hjk hj) trivial heq
    · refine balanced_half (fun j op' g' hjk hj => h.quiet_others hfirst hjk hj) (.inr ⟨r, rfl, ?_⟩)
      show s.recorded ++ [r] = granted ++ [r]
      rw [heq]
  · show s.user.xp = _
    rw [h.xp, hxp]

theorem same_answer {q : RewardQuery} (hq : q.Plain) (w : WalletReply) : Same s (q.answer w s).2 := by
  have hrefl : Same s s := ⟨rfl, rfl, rfl, rfl, rfl, rfl⟩
  have hbuy : ∀ id, Same s { s with user := (s.user.purchaseCosmetic id 0).2 } := by
    intro id
    unfold RewardUser.purchaseCosmetic
    split
    · exact hrefl
    · split
      · exact hrefl
      · exact ⟨rfl, rfl, rfl, rfl, rfl, rfl⟩
  cases q with
  | findById | addXp _ _ => exact hq.elim
  | setRewards patch marks =>
    obtain ⟨rfl, hpatch⟩ := hq
    exact ⟨hpatch s.user.marks, rfl, rfl, List.append_nil _, List.append_nil _, rfl⟩
  | purchaseCosmetic id cost =>
    obtain rfl : cost = 0 := hq
    exact hbuy id
  | purchaseCosmeticXp id costXp =>
    show Same s { s with user := (s.user.purchaseCosmeticXp id costXp).2 }
    unfold RewardUser.purchaseCosmeticXp
    split
    · exact hrefl
    · split
      · exact hrefl
      · exact ⟨rfl, rfl, rfl, rfl, rfl, rfl⟩
  | debit cents | credit cents => cases w <;> exact hrefl
  | charge cents id =>
    cases w with
    | insufficient | down => exact hrefl
    | funded =>
      simp only [RewardQuery.answer]
      split
      · exact hbuy id
      · exact hrefl

theorem answered_answer (q : RewardQuery) (w : WalletReply) : q.Answered (q.answer w s).1 := by
  cases q with
  | findById => exact ⟨s.user, rfl⟩
  | setRewards patch marks => exact ⟨s.user.setRewards patch, rfl⟩
  | addXp deltaXp marks => exact ⟨s.user.addXp deltaXp, rfl⟩
  | purchaseCosmetic id cost => exact ⟨_, rfl⟩
  | purchaseCosmeticXp id costXp => exact ⟨_, rfl⟩
  | debit _ | credit _ | charge _ _ => trivial

/-- **One answer** keeps the invariant. -/
theorem answered (h : ClaimsOK u₀ t₀ s n know) (hk : know k = some (op, g))
    (hfirst : op.chain = some () → First know k) (w : WalletReply) {q : RewardQuery}
    (hmay : ClaimMay (op.chain = some ()) g.now q g.phase) :
    ClaimsOK u₀ t₀ (q.answer w s).2 n
      (Function.update know k (some (op, { g with phase := g.phase.after q (q.answer w s).1 }))) := by
  obtain ⟨now, phase⟩ := g
  have hread : ∀ {m}, phase = .read m → op.chain = some () → m = s.user.marks := by
    rintro m rfl hchain
    exact h.phase k op _ hk hchain
  generalize hphase : phase = phase' at hmay
  have hmay' : ClaimMay (op.chain = some ()) now q phase' := hmay
  cases hmay' with
  | read hquiet =>
    subst hphase
    exact h.reads hk hquiet
  | plain hplain =>
    subst hphase
    simp only [ClaimPhase.after_plain hplain]
    rw [Function.update_eq_self_iff.mpr hk.symm]
    exact h.congr (same_answer hplain w)
  -- credit first, record after: the credit of an unclaimed reward
  | grant hchain hfree htimely =>
    subst hphase
    have hgives := h.gives hk (hfirst hchain) hchain rfl hfree htimely
    refine hgives.congr ⟨rfl, rfl, rfl, rfl, ?_, rfl⟩
    exact List.append_nil _
  -- and its record
  | @record m r patch hchain hadds =>
    subst hphase
    have hbal := h.balance_first hk (hfirst hchain)
    obtain ⟨-, rfl, hfree, htimely⟩ := h.phase k op _ hk
    have hrec := h.records hk (hfirst hchain) hchain hfree htimely hadds (.inl ⟨rfl, hbal⟩) rfl
    refine hrec.congr ⟨rfl, rfl, rfl, ?_, rfl, rfl⟩
    exact List.append_nil _
  -- record first: what was read is still what stands, as the call heads the chain
  | @recordFirst m r patch hchain hfree htimely hadds =>
    obtain rfl := hread hphase hchain
    subst hphase
    have hbal := h.balance_first hk (hfirst hchain)
    have hrec := h.records hk (hfirst hchain) hchain hfree htimely hadds (.inr ⟨rfl, hbal⟩) rfl
    refine hrec.congr ⟨rfl, rfl, rfl, ?_, rfl, rfl⟩
    exact List.append_nil _
  | grantAfter hchain =>
    subst hphase
    have hgives := h.gives_after hk (hfirst hchain) rfl
    refine hgives.congr ⟨rfl, rfl, rfl, rfl, ?_, rfl⟩
    exact List.append_nil _
  -- one write that records and credits at once
  | @both m r patch hchain hfree htimely hadds hxp =>
    obtain rfl := hread hphase hchain
    subst hphase
    have hbal : s.granted = s.recorded := h.balance_first hk (hfirst hchain)
    refine h.records hk (hfirst hchain) hchain hfree htimely hadds
      (.inl ⟨rfl, ?_⟩) ?_
    · show s.granted ++ [r] = s.recorded ++ [r]
      rw [hbal]
    · show ((s.granted ++ [r]).map (·.xp)).sum = _
      simp [hxp]

/-! ### Begin, end, and what happens in between -/

/-- A claim enters. -/
theorem opened (h : ClaimsOK u₀ t₀ s n know) (hnone : know n = none) (op : RewardCall) :
    ClaimsOK u₀ t₀ s (n + 1) (Function.update know n (some (op, { now := s.now, phase := .idle }))) := by
  refine ⟨⟨?_, ?_, ?_⟩, ?_, h.nodup, h.fresh, ?_, ?_, h.xp⟩
  · intro j x hj
    rcases know_update hj with ⟨rfl, -⟩ | ⟨-, hj⟩
    · omega
    · have hlt := h.ordered.below j x hj
      omega
  · intro j op' g' hj
    rcases know_update hj with ⟨-, heq⟩ | ⟨-, hj⟩
    · cases heq
      exact Nat.le_refl _
    · exact h.ordered.began j op' g' hj
  · intro i j op₁ g₁ op₂ g₂ hij hi hj
    rcases know_update hj with ⟨rfl, heq⟩ | ⟨hjn, hj⟩
    · cases heq
      rcases know_update hi with ⟨rfl, -⟩ | ⟨-, hi⟩
      · omega
      · exact h.ordered.began i op₁ g₁ hi
    · have hlt := h.ordered.below j _ hj
      rcases know_update hi with ⟨rfl, -⟩ | ⟨-, hi⟩
      · omega
      · exact h.ordered.order i j op₁ g₁ op₂ g₂ hij hi hj
  · intro key hkey t ht
    refine h.recorded key hkey t ?_
    rcases ht with rfl | ⟨j, op', g', hj, hchain, rfl⟩
    · exact .inl rfl
    · rcases know_update hj with ⟨-, heq⟩ | ⟨-, hj⟩
      · cases heq
        exact .inl rfl
      · exact .inr ⟨j, op', g', hj, hchain, rfl⟩
  · intro j op' g' hj
    rcases know_update hj with ⟨-, heq⟩ | ⟨-, hj⟩
    · cases heq
      trivial
    · exact h.phase j op' g' hj
  · rcases h.balance with ⟨hall, heq⟩ | ⟨k, op', g', hk, hrest, hmid⟩
    · exact balanced_quiet (g := { now := s.now, phase := .idle }) (fun j op' g' _ hj => hall j op' g' hj) trivial heq
    · have hkn : k ≠ n := by
        rintro rfl
        rw [hnone] at hk
        cases hk
      refine .inr ⟨k, op', g', by rwa [Function.update_of_ne hkn], ?_, hmid⟩
      intro j op'' g'' hjk hj
      rcases know_update hj with ⟨-, heq⟩ | ⟨-, hj⟩
      · cases heq
        trivial
      · exact hrest j op'' g'' hjk hj

/-- A request that ends has no reward half claimed. -/
theorem closed (h : ClaimsOK u₀ t₀ s n know) (hk : know k = some (op, g)) (hquiet : g.phase.Quiet) :
    ClaimsOK u₀ t₀ s n (Function.update know k none) := by
  have hback : ∀ j x, Function.update know k none j = some x → j ≠ k ∧ know j = some x := by
    intro j x hj
    by_cases hjk : j = k
    · subst hjk
      rw [Function.update_self] at hj
      cases hj
    · rw [Function.update_of_ne hjk] at hj
      exact ⟨hjk, hj⟩
  refine ⟨⟨?_, ?_, ?_⟩, ?_, h.nodup, h.fresh, ?_, ?_, h.xp⟩
  · exact fun j x hj => h.ordered.below j x (hback j x hj).2
  · exact fun j op' g' hj => h.ordered.began j op' g' (hback j _ hj).2
  · exact fun i j op₁ g₁ op₂ g₂ hij hi hj =>
      h.ordered.order i j op₁ g₁ op₂ g₂ hij (hback i _ hi).2 (hback j _ hj).2
  · intro key hkey t ht
    refine h.recorded key hkey t ?_
    rcases ht with rfl | ⟨j, op', g', hj, hchain, rfl⟩
    · exact .inl rfl
    · exact .inr ⟨j, op', g', (hback j _ hj).2, hchain, rfl⟩
  · exact fun j op' g' hj => h.phase j op' g' (hback j _ hj).2
  · rcases h.balance with ⟨hall, heq⟩ | ⟨k', op', g', hk', hrest, hmid⟩
    · exact .inl ⟨fun j op' g' hj => hall j op' g' (hback j _ hj).2, heq⟩
    · have hkk : k' ≠ k := by
        rintro rfl
        rw [hk] at hk'
        cases hk'
        rcases hmid with ⟨m, r, hp, -⟩ | ⟨r, hp, -⟩
        · rw [hp] at hquiet
          exact hquiet
        · rw [hp] at hquiet
          exact hquiet
      refine .inr ⟨k', op', g', by rwa [Function.update_of_ne hkk], ?_, hmid⟩
      exact fun j op'' g'' hjk hj => hrest j op'' g'' hjk (hback j _ hj).2

/-- The rest of the server keeps the claims in order. -/
theorem drifted (h : ClaimsOK u₀ t₀ s n know) (d : RewardDrift) : ClaimsOK u₀ t₀ (s.drift d) n know := by
  cases d with
  | tick ms =>
    refine ⟨⟨h.ordered.below, ?_, h.ordered.order⟩, ?_, h.nodup, h.fresh, h.phase, h.balance, h.xp⟩
    · intro j op g hj
      have hle := h.ordered.began j op g hj
      show g.now ≤ s.now + ms
      omega
    · intro key hkey t ht
      rcases ht with rfl | ht
      · exact Marks.recorded_mono (h.recorded key hkey s.now (.inl rfl)) (weekOf_mono (Nat.le_add_right _ _))
      · exact h.recorded key hkey t (.inr ht)
  | applyMatchResult won potCents xpGain =>
    refine ⟨h.ordered, h.recorded, h.nodup, h.fresh, ?_, h.balance, ?_⟩
    · exact fun j op g hj => phaseOK_congr rfl (h.phase j op g hj)
    · show s.user.xp + xpGain = u₀.xp + (s.matchXp + xpGain) + (s.granted.map (·.xp)).sum
      rw [h.xp]
      omega

/-- A server starts with the claims in order. -/
theorem boot (u₀ : RewardUser) (t₀ : ℕ) : ClaimsOK u₀ t₀ { user := u₀, now := t₀ } 0 fun _ => none where
  ordered :=
    { below := fun _ _ h => by cases h
      began := fun _ _ _ h => by cases h
      order := fun _ _ _ _ _ _ _ h => by cases h }
  recorded := by
    rintro key (hmem | hstart) t (rfl | ⟨_, _, _, hj, -⟩)
    · cases hmem
    · cases hmem
    · exact hstart
    · cases hj
  nodup := List.nodup_nil
  fresh := fun _ _ => List.not_mem_nil
  phase := fun _ _ _ h => by cases h
  balance := .inl ⟨fun _ _ _ h => (by cases h), rfl⟩
  xp := rfl

end ClaimsOK

/-- The claims follow the rules of a pool. -/
theorem claim_rules (cfg : RewardsConfig) (u₀ : RewardUser) (t₀ : ℕ) :
    Runtime.Rules (rewardRuntime cfg) claimProtocol (fun s _ => { now := s.now, phase := .idle })
      (fun _ _ g => g.phase.Quiet) (fun _ _ g => g.phase.Quiet) (ClaimsOK u₀ t₀) (fun _ _ _ => True) where
  conforms s op := RewardsService.follows cfg s op
  opened op h hnone := h.opened hnone op
  closed h hk hend := h.closed hk (by rcases hend with ⟨_, hq⟩ | ⟨_, hq⟩ <;> exact hq)
  answered := by
    intro s n know k op g w q h _ hk hothers hmay
    refine ⟨_, ⟨ClaimsOK.answered_answer q w, rfl⟩, h.answered hk (fun hchain j op' g' hjk hj hchain' => ?_) w hmay⟩
    have hlink := (rewardRuntime cfg).linked_iff.mpr ⟨(), hchain', hchain⟩
    obtain ⟨hlt, s₀, rfl⟩ := hothers j op' g' hjk hj hlink
    exact ⟨hlt, rfl⟩
  drifted d h := h.drifted d
  returned _ _ _ _ := trivial
  lasts_answer _ _ _ _ _ _ _ _ := trivial
  lasts_drift _ _ _ _ := trivial

/-- **Every reward is claimed at most once**: over all runs no reward is given or recorded
twice, none that the row recorded at the start is given again, the XP is that of the matches
and of what was given, and this is what was recorded, up to one claim that is under way. -/
theorem rewards_claimed_once (cfg : RewardsConfig) (u : RewardUser) (now : ℕ) (es : List RewardEvent) :
    let p := run (rewardRuntime cfg).step { store := { user := u, now } } es
    let s := p.store
    ((s.granted.map (·.key)).Nodup ∧ (s.recorded.map (·.key)).Nodup ∧
      ∀ key, u.marks.Recorded (weekOf now) key → key ∉ s.granted.map (·.key)) ∧
    (∀ r ∈ s.recorded, s.user.marks.Recorded (weekOf s.now) r.key) ∧
    (∀ t t', isoWeekKey t = isoWeekKey t' ↔ weekOf t = weekOf t') ∧
    s.user.xp = u.xp + s.matchXp + (s.granted.map (·.xp)).sum ∧
    (s.granted = s.recorded ∨ ∃ r, s.granted = s.recorded ++ [r] ∨ s.recorded = s.granted ++ [r]) ∧
    ((∀ t ∈ p.tasks, t.program.finished = true) → s.granted = s.recorded) := by
  intro p s
  obtain ⟨know, hattuned⟩ := (claim_rules cfg u now).attuned_run (ClaimsOK.boot u now) es
  have h : ClaimsOK u now s p.tasks.length know := hattuned.inv
  have hgranted : (s.granted.map (·.key)).Nodup ∧
      ∀ key, u.marks.Recorded (weekOf now) key → key ∉ s.granted.map (·.key) := by
    rcases h.balance with ⟨-, heq⟩ | ⟨k, op, g, hk, -, ⟨m, r, hp, heq⟩ | ⟨r, hp, heq⟩⟩
    · rw [heq]
      exact ⟨h.nodup, h.fresh⟩
    · -- the reward that is given and not recorded is free
      have hphase := h.phase k op g hk
      unfold PhaseOK at hphase
      rw [hp] at hphase
      obtain ⟨hchain, rfl, hfree, htimely⟩ := hphase
      have hself : Upcoming s.now know g.now := .inr ⟨k, op, g, hk, hchain, rfl⟩
      have hnew : ¬ ClaimTaken u now s.recorded r.key :=
        fun htaken => Marks.not_free (h.recorded _ htaken _ hself) htimely hfree
      rw [heq]
      exact ⟨h.nodup_append hnew, fun key => h.fresh_append hnew⟩
    · have hnodup := h.nodup
      have hfresh := h.fresh
      rw [heq, List.map_append] at hnodup hfresh
      exact ⟨(List.nodup_append.mp hnodup).1, fun key hkey hmem => hfresh key hkey (List.mem_append_left _ hmem)⟩
  refine ⟨⟨hgranted.1, h.nodup, hgranted.2⟩, ?_, ?_, h.xp, ?_, ?_⟩
  · intro r hr
    exact h.recorded r.key (.inl (List.mem_map_of_mem hr)) s.now (.inl rfl)
  · intro t t'
    rw [isoWeekKey_eq, isoWeekKey_eq]
    exact weekKey_injective.eq_iff
  · rcases h.balance with ⟨-, heq⟩ | ⟨k, op, g, hk, -, ⟨m, r, -, heq⟩ | ⟨r, -, heq⟩⟩
    · exact .inl heq
    · exact .inr ⟨r, .inl heq⟩
    · exact .inr ⟨r, .inr heq⟩
  · intro hdone
    rcases h.balance with ⟨-, heq⟩ | ⟨k, op, g, hk, -⟩
    · exact heq
    · -- a claim that is half made has not ended
      have hlt := h.ordered.below k _ hk
      have ht := List.getElem?_eq_getElem hlt
      have hok := hattuned.task k _ ht
      rw [hk] at hok
      have hunfinished := hok.unfinished.1
      rw [hdone _ (List.getElem_mem hlt)] at hunfinished
      cases hunfinished

end Murlan
