import Murlan.Proof.Quests
import Murlan.Spec.Rewards

/-!
# Rewards a user owns

* `RewardQuery.answer_keeps`, `RewardQuery.answer_owns`: what a call leaves to the user, and
  what it may add.
* `RewardsService.conforms`: a write back of a whole list follows the read it was made from,
  and what a request returns it has seen owned.
* `owned_rewards_kept`: as long as nothing is added that a write back waiting then would
  drop, everything owned stays owned; `owned_rewards_lost` is a purchase that is dropped.
-/

namespace Murlan

/-- A cosmetic or a badge. -/
inductive Keepsake where
  | cosmetic (id : String)
  | badge (id : String)
  deriving DecidableEq, Repr

namespace RewardUser

/-- The user has the item. -/
def Owns (u : RewardUser) : Keepsake → Prop
  | .cosmetic id => id ∈ u.cosmetics
  | .badge id => id ∈ u.badges

instance (u : RewardUser) : ∀ item, Decidable (u.Owns item)
  | .cosmetic id => inferInstanceAs (Decidable (id ∈ u.cosmetics))
  | .badge id => inferInstanceAs (Decidable (id ∈ u.badges))

end RewardUser

/-- What a request returned as owned: a purchase, a gift, the badges shown. -/
def RewardReceipt.items (op : RewardCall) : RewardReceipt → List Keepsake
  | .milestone m => (m.cosmeticId.map Keepsake.cosmetic).toList
  | .gift true _ cosmeticId _ => (cosmeticId.map Keepsake.cosmetic).toList
  | .purchase r =>
    match op with
    | .buy id | .buyXp id => if r.ok then [.cosmetic id] else []
    | _ => []
  | .profile badges => badges.map Keepsake.badge
  | .status s => (s.achievements.filter (·.earned)).map fun a => Keepsake.badge a.id
  | _ => []

namespace RewardQuery

/-- The call leaves the item to a user who has it. -/
def Keeps : RewardQuery → Keepsake → Prop
  | .setRewards patch _, .cosmetic id => ∀ l, patch.cosmetics = some l → id ∈ l
  | .setRewards patch _, .badge id => ∀ l, patch.badges = some l → id ∈ l
  | _, _ => True

/-- What the call may add to the row. -/
def adds (w : WalletReply) (u : RewardUser) : RewardQuery → List Keepsake
  | .setRewards patch _ =>
    (patch.cosmetics.getD []).map Keepsake.cosmetic ++ (patch.badges.getD []).map Keepsake.badge
  | .purchaseCosmetic id cost => if id ∉ u.cosmetics ∧ cost ≤ u.xp then [.cosmetic id] else []
  | .purchaseCosmeticXp id costXp =>
    if id ∉ u.cosmetics ∧ costXp ≤ u.xp - u.xpSpent then [.cosmetic id] else []
  | .charge _ id => if id ∉ u.cosmetics ∧ w = .funded then [.cosmetic id] else []
  | _ => []

variable {w : WalletReply} {s : RewardServer} {q : RewardQuery} {item : Keepsake}

/-- A purchase takes no item away. -/
theorem owns_purchaseCosmetic {u : RewardUser} {id : String} {cost : ℕ} (h : u.Owns item) :
    (u.purchaseCosmetic id cost).2.Owns item := by
  unfold RewardUser.purchaseCosmetic
  split
  · exact h
  · split
    · exact h
    · cases item with
      | cosmetic id' => exact List.mem_append_left _ h
      | badge id' => exact h

/-- Nor does one with experience. -/
theorem owns_purchaseCosmeticXp {u : RewardUser} {id : String} {costXp : ℕ} (h : u.Owns item) :
    (u.purchaseCosmeticXp id costXp).2.Owns item := by
  unfold RewardUser.purchaseCosmeticXp
  split
  · exact h
  · split
    · exact h
    · cases item with
      | cosmetic id' => exact List.mem_append_left _ h
      | badge id' => exact h

/-- A patch keeps what it writes again. -/
theorem owns_setRewards {u : RewardUser} {patch : RewardsPatch} {marks : List RewardMark} (h : u.Owns item)
    (hkeeps : (RewardQuery.setRewards patch marks).Keeps item) : (u.setRewards patch).Owns item := by
  cases item with
  | cosmetic id =>
    show id ∈ patch.cosmetics.getD u.cosmetics
    cases hl : patch.cosmetics with
    | none => exact h
    | some l => exact hkeeps l hl
  | badge id =>
    show id ∈ patch.badges.getD u.badges
    cases hl : patch.badges with
    | none => exact h
    | some l => exact hkeeps l hl

/-- What a call keeps stays with the user. -/
theorem answer_keeps (h : s.user.Owns item) (hkeeps : q.Keeps item) : (q.answer w s).2.user.Owns item := by
  cases q with
  | findById => exact h
  | setRewards patch marks => exact owns_setRewards h hkeeps
  | addXp deltaXp marks => cases item <;> exact h
  | purchaseCosmetic id cost => exact owns_purchaseCosmetic h
  | purchaseCosmeticXp id costXp => exact owns_purchaseCosmeticXp h
  | debit cents => cases w <;> exact h
  | credit cents => cases w <;> exact h
  | charge cents id =>
    cases w with
    | funded =>
      simp only [answer]
      split
      · exact owns_purchaseCosmetic h
      · exact h
    | insufficient => exact h
    | down => exact h

/-- A purchase adds its item at most. -/
theorem of_owns_purchaseCosmetic {u : RewardUser} {id : String} {cost : ℕ}
    (h : (u.purchaseCosmetic id cost).2.Owns item) :
    u.Owns item ∨ (id ∉ u.cosmetics ∧ cost ≤ u.xp ∧ item = .cosmetic id) := by
  unfold RewardUser.purchaseCosmetic at h
  split at h
  · exact .inl h
  · split at h
    · exact .inl h
    · cases item with
      | badge id' => exact .inl h
      | cosmetic id' =>
        rcases List.mem_append.mp h with hold | hnew
        · exact .inl hold
        · refine .inr ⟨‹_›, by omega, ?_⟩
          rw [List.mem_singleton.mp hnew]

/-- So does one with experience. -/
theorem of_owns_purchaseCosmeticXp {u : RewardUser} {id : String} {costXp : ℕ}
    (h : (u.purchaseCosmeticXp id costXp).2.Owns item) :
    u.Owns item ∨ (id ∉ u.cosmetics ∧ costXp ≤ u.xp - u.xpSpent ∧ item = .cosmetic id) := by
  unfold RewardUser.purchaseCosmeticXp at h
  split at h
  · exact .inl h
  · split at h
    · exact .inl h
    · cases item with
      | badge id' => exact .inl h
      | cosmetic id' =>
        rcases List.mem_append.mp h with hold | hnew
        · exact .inl hold
        · refine .inr ⟨‹_›, by omega, ?_⟩
          rw [List.mem_singleton.mp hnew]

/-- What is owned after a call was owned before, or the call added it. -/
theorem answer_owns (h : (q.answer w s).2.user.Owns item) : s.user.Owns item ∨ item ∈ q.adds w s.user := by
  cases q with
  | findById => exact .inl h
  | setRewards patch marks =>
    unfold adds
    cases item with
    | cosmetic id =>
      have h' : id ∈ patch.cosmetics.getD s.user.cosmetics := h
      cases hl : patch.cosmetics with
      | none => rw [hl] at h'; exact .inl h'
      | some l =>
        rw [hl] at h'
        exact .inr (List.mem_append_left _ (List.mem_map_of_mem (by rw [hl]; exact h')))
    | badge id =>
      have h' : id ∈ patch.badges.getD s.user.badges := h
      cases hl : patch.badges with
      | none => rw [hl] at h'; exact .inl h'
      | some l =>
        rw [hl] at h'
        exact .inr (List.mem_append_right _ (List.mem_map_of_mem (by rw [hl]; exact h')))
  | addXp deltaXp marks => cases item <;> exact .inl h
  | purchaseCosmetic id cost =>
    rcases of_owns_purchaseCosmetic h with hold | ⟨hid, hcost, rfl⟩
    · exact .inl hold
    · exact .inr (by simp [adds, hid, hcost])
  | purchaseCosmeticXp id costXp =>
    rcases of_owns_purchaseCosmeticXp h with hold | ⟨hid, hcost, rfl⟩
    · exact .inl hold
    · exact .inr (by simp [adds, hid, hcost])
  | debit cents => cases w <;> exact .inl h
  | credit cents => cases w <;> exact .inl h
  | charge cents id =>
    cases w with
    | insufficient => exact .inl h
    | down => exact .inl h
    | funded =>
      simp only [answer] at h
      split at h
      · rcases of_owns_purchaseCosmetic h with hold | ⟨hid, -, rfl⟩
        · exact .inl hold
        · exact .inr (by simp [adds, hid])
      · exact .inl h

end RewardQuery

/-! ## What a request knows -/

/-- The row, if the last call read it, and what was seen owned. -/
structure Seen where
  row : Option RewardUser := none
  got : Keepsake → Prop := fun _ => False

namespace Seen

/-- A whole list is written only over the row just read, and holds what that row has. -/
def May : RewardQuery → Seen → Prop
  | .setRewards patch marks, g =>
    (patch.cosmetics = none ∧ patch.badges = none) ∨
      ∃ u, g.row = some u ∧ ∀ item, u.Owns item → (RewardQuery.setRewards patch marks).Keeps item
  | .purchaseCosmetic _ cost, _ => cost = 0
  | _, _ => True

/-- What an answer tells about the row. -/
def Reply : (q : RewardQuery) → Except RewardError q.Answer → Seen → Prop
  | .findById, .ok (some u), g => g.row = some u ∧ ∀ item, u.Owns item → g.got item
  | .findById, _, _ => False
  | .setRewards patch _, .ok (some u), g =>
    (∀ item, u.Owns item → g.got item) ∧ ∀ l, patch.cosmetics = some l → ∀ id ∈ l, g.got (.cosmetic id)
  | .addXp _ _, .ok (some u), g => ∀ item, u.Owns item → g.got item
  | .setRewards _ _, _, _ | .addXp _ _, _, _ => False
  | .purchaseCosmetic id _, .ok _, g => g.got (.cosmetic id)
  | .purchaseCosmetic _ _, _, _ => False
  | .purchaseCosmeticXp id _, .ok r, g | .charge _ id, .ok r, g => r.ok = true → g.got (.cosmetic id)
  | _, _, _ => True

end Seen

/-- A request asks what leaves its items alone, and forgets none that it got. -/
def keepsakeProtocol : Async.Protocol RewardQuery RewardQuery.Answer RewardError Seen where
  may := Seen.May
  reply q r g g' := Seen.Reply q r g' ∧ ∀ item, g.got item → g'.got item

namespace Seen

variable {α : Type} {post : α → Seen → Prop} {g : Seen}

theorem call {q : RewardQuery} {post : q.Answer → Seen → Prop} {err : RewardError → Seen → Prop}
    (hmay : May q g) (hok : ∀ r g', Reply q (.ok r) g' → (∀ item, g.got item → g'.got item) → post r g')
    (herr : ∀ e g', Reply q (.error e) g' → (∀ item, g.got item → g'.got item) → err e g') :
    (Async.await q).wp keepsakeProtocol post err g := by
  rw [Async.wp_await]
  exact ⟨hmay, fun r g' h => hok r g' h.1 h.2, fun e g' h => herr e g' h.1 h.2⟩

/-- A call and what follows it. -/
theorem await {q : RewardQuery} {f : q.Answer → RewardProgram α} (hmay : May q g)
    (hnext : ∀ r g', Reply q (.ok r) g' → (∀ item, g.got item → g'.got item) →
      (f r).wp keepsakeProtocol post (fun _ _ => True) g') :
    (Async.await q >>= f).wp keepsakeProtocol post (fun _ _ => True) g := by
  rw [Async.wp_bind]
  exact call hmay hnext fun _ _ _ _ => trivial

/-- A row that was read is known, and so are its items. -/
theorem read {f : Option RewardUser → RewardProgram α}
    (hnext : ∀ u g', g'.row = some u → (∀ item, u.Owns item → g'.got item) →
      (f (some u)).wp keepsakeProtocol post (fun _ _ => True) g') :
    (Async.await RewardQuery.findById >>= f).wp keepsakeProtocol post (fun _ _ => True) g := by
  refine await trivial ?_
  rintro (_ | u) g' hreply -
  · exact hreply.elim
  · exact hnext u g' hreply.1 hreply.2

/-- A call whose answer is dropped. -/
theorem write {q : RewardQuery} {f : q.Answer → RewardProgram α} (hmay : May q g)
    (hnext : ∀ r g', (∀ item, g.got item → g'.got item) →
      (f r).wp keepsakeProtocol post (fun _ _ => True) g') :
    (Async.await q >>= f).wp keepsakeProtocol post (fun _ _ => True) g :=
  await hmay fun r g' _ hgot => hnext r g' hgot

/-- A call whose failure is dropped too. -/
theorem ignored {q : RewardQuery} {f : Unit → RewardProgram α} (hmay : May q g)
    (hnext : ∀ r g', Reply q r g' → (∀ item, g.got item → g'.got item) →
      (f ()).wp keepsakeProtocol post (fun _ _ => True) g') :
    ((Async.ignore do let _ ← Async.await q) >>= f).wp keepsakeProtocol post (fun _ _ => True) g := by
  unfold Async.ignore
  rw [Async.wp_bind, Async.wp_tryCatch, Async.wp_bind]
  exact call hmay (fun r => hnext (.ok r)) fun e => hnext (.error e)

end Seen

namespace RewardsService

variable {α : Type} {post : α → Seen → Prop} {g : Seen} {u : RewardUser}

/-- The anchors are no items. -/
theorem wp_resolveAnchors {now : ℕ} {f : PeriodAnchor × PeriodAnchor → RewardProgram α}
    (hnext : ∀ a g', (∀ item, g.got item → g'.got item) →
      (f a).wp keepsakeProtocol post (fun _ _ => True) g') :
    (resolveAnchors u now >>= f).wp keepsakeProtocol post (fun _ _ => True) g := by
  rw [Async.wp_bind]
  unfold resolveAnchors
  simp only
  split
  · refine Seen.write (Or.inl ⟨rfl, rfl⟩) ?_
    intro r g' hgot
    exact hnext _ g' hgot
  · exact hnext _ g fun _ h => h

/-- Experience is no item. -/
theorem wp_grantThenRecord {r : Reward} {patch : RewardsPatch} {f : Unit → RewardProgram α}
    (hcosmetics : patch.cosmetics = none) (hbadges : patch.badges = none)
    (hnext : ∀ g', (∀ item, g.got item → g'.got item) →
      (f ()).wp keepsakeProtocol post (fun _ _ => True) g') :
    (grantThenRecord r patch >>= f).wp keepsakeProtocol post (fun _ _ => True) g := by
  rw [Async.wp_bind]
  unfold grantThenRecord
  refine Seen.write trivial ?_
  intro _ g' hgot
  refine Seen.write (Or.inl ⟨hcosmetics, hbadges⟩) ?_
  intro _ g'' hgot'
  exact hnext g'' fun item h => hgot' item (hgot item h)

/-- A list of badges that begins with the badges read. -/
theorem may_badges {add : List String} (hrow : g.row = some u) :
    Seen.May (.setRewards { badges := some (u.badges ++ add) } []) g := by
  refine .inr ⟨u, hrow, ?_⟩
  intro item hitem
  cases item with
  | cosmetic id => exact nofun
  | badge id =>
    intro l hl
    obtain rfl := Option.some.inj hl
    exact List.mem_append_left _ hitem

/-- The badges that are earned join those of the row. -/
theorem wp_grantAchievements {f : RewardUser → RewardProgram α} (hrow : g.row = some u)
    (hgot : ∀ item, u.Owns item → g.got item)
    (hnext : ∀ u' g', (∀ item, u'.Owns item → g'.got item) →
      (f u').wp keepsakeProtocol post (fun _ _ => True) g') :
    (grantAchievements u >>= f).wp keepsakeProtocol post (fun _ _ => True) g := by
  rw [Async.wp_bind]
  unfold grantAchievements
  simp only
  split
  · exact hnext u g hgot
  · rw [Async.wp_bind, Async.wp_tryCatch]
    refine Seen.call (may_badges hrow) ?_ ?_
    · rintro (_ | u') g' hreply -
      · exact hreply.elim
      · exact hnext u' g' hreply.1
    · intro e g' hreply _
      exact hreply.elim

/-- What is returned was seen owned. -/
def Shows (op : RewardCall) (r : RewardReceipt) (g : Seen) : Prop := ∀ item ∈ r.items op, g.got item

variable {op : RewardCall}

theorem shows_nil {r : RewardReceipt} (h : r.items op = []) : Shows op r g := by
  unfold Shows
  rw [h]
  exact nofun

variable {cfg : RewardsConfig} {now : ℕ}

/-- The status shows what is owned. -/
theorem wp_status : (status cfg now).wp keepsakeProtocol (Shows op) (fun _ _ => True) g := by
  unfold status
  refine Seen.read ?_
  intro u g₁ hrow hgot
  refine wp_grantAchievements hrow hgot ?_
  intro u' g₂ hgot'
  refine wp_resolveAnchors ?_
  rintro ⟨daily, weekly⟩ g₃ hgot''
  intro item hitem
  obtain ⟨row, hrow, rfl⟩ := List.mem_map.mp hitem
  obtain ⟨hrow, hearned⟩ := List.mem_filter.mp hrow
  obtain ⟨a, -, rfl⟩ := List.mem_map.mp hrow
  have hbadge : a.id ∈ u'.badges := by simpa using hearned
  exact hgot'' _ (hgot' (.badge a.id) hbadge)

/-- The profile shows what is owned. -/
theorem wp_getProfile : getProfile.wp keepsakeProtocol (Shows op) (fun _ _ => True) g := by
  unfold getProfile
  refine Seen.read ?_
  intro u g₁ hrow hgot
  refine wp_grantAchievements hrow hgot ?_
  intro u' g₂ hgot' item hitem
  obtain ⟨id, hid, rfl⟩ := List.mem_map.mp hitem
  exact hgot' (.badge id) hid

/-- A season's badges join those of the row. -/
theorem wp_grantSeasonBadges (seasonNumber rank : ℕ) :
    (grantSeasonBadges seasonNumber rank).wp keepsakeProtocol (Shows op) (fun _ _ => True) g := by
  unfold grantSeasonBadges
  refine Seen.read ?_
  intro u g₁ hrow _
  simp only
  split
  · exact shows_nil rfl
  · refine Seen.ignored (may_badges hrow) ?_
    intro _ g₂ _ _
    exact shows_nil rfl

theorem wp_claimDaily : (claimDaily now).wp keepsakeProtocol (Shows op) (fun _ _ => True) g := by
  unfold claimDaily
  refine Seen.read ?_
  intro u g₁ _ _
  simp only
  split
  · refine wp_grantThenRecord rfl rfl ?_
    intro g₂ _
    exact shows_nil rfl
  · exact shows_nil rfl

theorem wp_claimChallenge (id : String) :
    (claimChallenge id).wp keepsakeProtocol (Shows op) (fun _ _ => True) g := by
  unfold claimChallenge
  generalize challenges.find? (fun d => d.id = id) = found
  cases found with
  | none => exact shows_nil rfl
  | some d =>
  refine Seen.read ?_
  intro u g₁ _ _
  simp only
  split
  · exact shows_nil rfl
  split
  · exact shows_nil rfl
  refine wp_grantThenRecord rfl rfl ?_
  intro g₂ _
  exact shows_nil rfl

theorem wp_whenFound {found : Option QuestDef} {claim : QuestDef → RewardProgram RewardReceipt}
    (h : ∀ d, (claim d).wp keepsakeProtocol (Shows op) (fun _ _ => True) g) :
    (whenFound found claim).wp keepsakeProtocol (Shows op) (fun _ _ => True) g := by
  cases found with
  | none => exact shows_nil rfl
  | some d => exact h d

theorem wp_claimDailyQuest (id : String) :
    (claimDailyQuest id now).wp keepsakeProtocol (Shows op) (fun _ _ => True) g := by
  unfold claimDailyQuest
  refine wp_whenFound fun d => ?_
  refine Seen.read ?_
  intro u g₁ _ _
  simp only
  split
  · exact shows_nil rfl
  refine wp_resolveAnchors ?_
  rintro ⟨daily, weekly⟩ g₂ _
  simp only
  split
  · exact shows_nil rfl
  refine wp_grantThenRecord rfl rfl ?_
  intro g₃ _
  exact shows_nil rfl

theorem wp_claimWeeklyQuest (id : String) :
    (claimWeeklyQuest id now).wp keepsakeProtocol (Shows op) (fun _ _ => True) g := by
  unfold claimWeeklyQuest
  refine wp_whenFound fun d => ?_
  refine Seen.read ?_
  intro u g₁ _ _
  simp only
  split
  · exact shows_nil rfl
  refine wp_resolveAnchors ?_
  rintro ⟨daily, weekly⟩ g₂ _
  simp only
  split
  · exact shows_nil rfl
  refine wp_grantThenRecord rfl rfl ?_
  intro g₃ _
  exact shows_nil rfl

theorem shows_milestone {m : MilestoneDef} (h : ∀ id, m.cosmeticId = some id → g.got (.cosmetic id)) :
    Shows op (.milestone m) g := by
  intro item hitem
  cases hid : m.cosmeticId with
  | none => simp [RewardReceipt.items, hid] at hitem
  | some id =>
    obtain rfl : item = .cosmetic id := by simpa [RewardReceipt.items, hid] using hitem
    exact h id hid

/-- A milestone's item is in the catalogue. -/
theorem milestoneFor_cosmetic {lvl : ℕ} {m : MilestoneDef} {id : String} (h : milestoneFor lvl = some m)
    (hid : m.cosmeticId = some id) : cosmetics.any (·.id = id) = true := by
  have hall : ∀ d ∈ milestones, ∀ id, d.cosmeticId = some id → cosmetics.any (·.id = id) = true := by decide
  unfold milestoneFor at h
  split at h
  · cases h
  · obtain rfl := Option.some.inj h
    cases hfind : milestones.find? (·.level = lvl) with
    | none => simp [hfind] at hid
    | some d =>
      rw [hfind] at hid
      exact hall d (List.mem_of_find?_eq_some hfind) id hid

theorem pendingMilestone_some {m : MilestoneDef} (h : pendingMilestone u = some m) :
    m.level ∉ u.collectedMilestones ∧ milestoneFor m.level = some m := by
  obtain ⟨lvl, -, hlvl⟩ := List.exists_of_findSome?_eq_some h
  split at hlvl
  · cases hlvl
  · obtain ⟨rfl, -⟩ := milestoneFor_level hlvl
    exact ⟨‹_›, hlvl⟩

/-- A milestone's item is granted. -/
theorem wp_claimLevelReward : claimLevelReward.wp keepsakeProtocol (Shows op) (fun _ _ => True) g := by
  unfold claimLevelReward
  refine Seen.read ?_
  intro u g₁ _ hgot
  simp only
  split
  · exact shows_nil rfl
  rename_i m hm
  split
  · exact shows_nil rfl
  refine Seen.write (Or.inl ⟨rfl, rfl⟩) ?_
  intro _ g₂ hgot₂
  obtain ⟨-, hfor⟩ := pendingMilestone_some hm
  obtain ⟨-, hpos⟩ := milestoneFor_level hfor
  rw [if_pos hpos]
  refine Seen.write trivial ?_
  intro _ g₃ hgot₃
  split
  · rename_i hid
    exact shows_milestone fun id h => by simp [hid] at h
  · rename_i id hid
    split
    · refine Seen.ignored rfl ?_
      rintro (e | r) g₄ hreply _
      · exact hreply.elim
      · refine shows_milestone fun id' hid' => ?_
        obtain rfl := Option.some.inj (hid.symm.trans hid')
        exact hreply
    · rename_i hskip
      -- the cosmetic is not granted because the row read had it
      have howned : id ∈ u.cosmetics := by
        by_contra hnot
        exact hskip ⟨milestoneFor_cosmetic hfor hid, hnot⟩
      refine shows_milestone fun id' hid' => ?_
      obtain rfl := Option.some.inj (hid.symm.trans hid')
      exact hgot₃ _ (hgot₂ _ (hgot (.cosmetic id) howned))

/-- The week's gift is granted. -/
theorem wp_claimVipGift (isVip : Bool) :
    (claimVipGift cfg isVip now).wp keepsakeProtocol (Shows op) (fun _ _ => True) g := by
  unfold claimVipGift
  split
  · exact shows_nil rfl
  split
  · exact shows_nil rfl
  refine Seen.read ?_
  intro u g₁ hrow _
  simp only
  split
  · exact shows_nil rfl
  generalize vipGiftFor u (isoWeekKey now) = found
  cases found with
  | none =>
    refine Seen.write (Or.inl ⟨rfl, rfl⟩) ?_
    intro _ g₂ _
    refine Seen.write trivial ?_
    intro _ g₃ _
    exact shows_nil rfl
  | some id =>
    refine Seen.await (Or.inr ⟨u, hrow, ?_⟩) ?_
    · intro item hitem
      cases item with
      | badge id' => exact nofun
      | cosmetic id' =>
        intro l hl
        obtain rfl := Option.some.inj hl
        exact List.mem_append_left _ hitem
    · rintro (_ | u') g₂ hreply _
      · exact hreply.elim
      · intro item hitem
        obtain rfl : item = .cosmetic id := by simpa [RewardReceipt.items] using hitem
        exact hreply.2 _ rfl id (by simp)

/-- What is owned if a purchase succeeded. -/
def Bought (id : String) (r : GrantResult) (g : Seen) : Prop := r.ok = true → g.got (.cosmetic id)

theorem bought_false {id : String} {code : Option String} : Bought id { ok := false, code } g := nofun

/-- A purchase in one transaction grants its item. -/
theorem wp_buyAtomic (id : String) (charge : ℕ) :
    (buyAtomic id charge).wp keepsakeProtocol (Bought id) (fun _ _ => True) g := by
  unfold buyAtomic
  rw [Async.wp_tryCatch]
  refine Seen.call trivial (fun r g' hreply _ => hreply) ?_
  intro e g' _ _
  cases e with
  | insufficientFunds => exact bought_false
  | grantRejected code => exact bought_false
  | wallet => trivial

theorem wp_refundPurchase {charge : ℕ} {f : Unit → RewardProgram α}
    (hnext : ∀ g', (∀ item, g.got item → g'.got item) →
      (f ()).wp keepsakeProtocol post (fun _ _ => True) g') :
    (refundPurchase charge >>= f).wp keepsakeProtocol post (fun _ _ => True) g := by
  unfold refundPurchase Async.ignore
  rw [Async.wp_bind, Async.wp_tryCatch]
  exact Seen.call trivial (fun _ g' _ hgot => hnext g' hgot) fun _ g' _ hgot => hnext g' hgot

/-- A purchase without one grants its item, or gives the money back. -/
theorem wp_buyFallback (id : String) (charge : ℕ) :
    (buyFallback id charge).wp keepsakeProtocol (Bought id) (fun _ _ => True) g := by
  unfold buyFallback
  rw [Async.wp_bind, Async.wp_tryCatch, Async.wp_bind]
  refine Seen.call trivial ?_ ?_
  · intro _ g₁ _ _
    show ((Async.tryCatch _ _) >>= _).wp _ _ _ _
    rw [Async.wp_bind, Async.wp_tryCatch]
    refine Seen.call rfl ?_ ?_
    · intro r g₂ hreply _
      split
      · exact fun _ => hreply
      · rename_i hnot
        refine wp_refundPurchase ?_
        intro g₃ _
        exact fun hok => absurd hok hnot
    · intro e g₂ hreply _
      exact hreply.elim
  · intro e g₁ _ _
    split
    · exact bought_false
    · trivial

theorem shows_purchase {id : String} (hop : op = .buy id ∨ op = .buyXp id) {r : GrantResult} (h : Bought id r g) :
    Shows op (.purchase r) g := by
  intro item hitem
  have hitems : item ∈ (if r.ok then [Keepsake.cosmetic id] else []) := by
    rcases hop with rfl | rfl
    · exact hitem
    · exact hitem
  split at hitems
  · obtain rfl := List.mem_singleton.mp hitems
    exact h ‹_›
  · cases hitems

theorem wp_buy (id : String) :
    (buy cfg id now).wp keepsakeProtocol (Shows (.buy id)) (fun _ _ => True) g := by
  unfold buy
  generalize cosmetics.find? (fun c => c.id = id) = found
  cases found with
  | none => exact shows_nil rfl
  | some c =>
  simp only
  split
  · exact shows_nil rfl
  split
  · exact shows_nil rfl
  refine Seen.read ?_
  intro u g₁ _ _
  simp only
  split
  · exact shows_nil rfl
  generalize (if some id = dailyDealId now then dealPriceCents c.cost else c.cost) = charge
  split
  · rw [Async.wp_bind]
    refine Async.wp_mono (wp_buyAtomic id charge) ?_ fun _ _ h => h
    intro r g₂ hr
    exact shows_purchase (.inl rfl) hr
  · rw [Async.wp_bind]
    refine Async.wp_mono (wp_buyFallback id charge) ?_ fun _ _ h => h
    intro r g₂ hr
    exact shows_purchase (.inl rfl) hr

theorem wp_buyXp (id : String) : (buyXp id).wp keepsakeProtocol (Shows (.buyXp id)) (fun _ _ => True) g := by
  unfold buyXp
  generalize cosmetics.find? (fun c => c.id = id) = found
  cases found with
  | none => exact shows_nil rfl
  | some c =>
  simp only
  split
  · refine Seen.read ?_
    intro u g₁ _ _
    simp only
    split
    · exact shows_nil rfl
    refine Seen.await trivial ?_
    intro r g₂ hreply _
    exact shows_purchase (.inr rfl) hreply
  · exact shows_nil rfl

/-- A write back of a whole list follows the read it was made from, and what is returned was
seen owned. -/
theorem conforms (cfg : RewardsConfig) (s : RewardServer) (op : RewardCall) :
    (op.program cfg s).wp keepsakeProtocol (Shows op) (fun _ _ => True) {} := by
  cases op with
  | status => exact wp_status
  | getProfile => exact wp_getProfile
  | grantSeasonBadges seasonNumber rank => exact wp_grantSeasonBadges seasonNumber rank
  | claimDaily => exact wp_claimDaily
  | claimChallenge id => exact wp_claimChallenge id
  | claimDailyQuest id => exact wp_claimDailyQuest id
  | claimWeeklyQuest id => exact wp_claimWeeklyQuest id
  | claimLevelReward => exact wp_claimLevelReward
  | claimVipGift isVip => exact wp_claimVipGift isVip
  | buy id => exact wp_buy id
  | buyXp id => exact wp_buyXp id

end RewardsService

/-! ## Requests side by side -/

namespace Seen

variable {w : WalletReply} {s : RewardServer} {q : RewardQuery} {g : Seen}

/-- A write back made from the row as it is keeps all that is owned. -/
theorem keeps_of_may (hmay : May q g) (hrow : ∀ u, g.row = some u → u = s.user) {item : Keepsake}
    (h : s.user.Owns item) : q.Keeps item := by
  cases q with
  | setRewards patch marks =>
    rcases hmay with ⟨hcosmetics, hbadges⟩ | ⟨u, hu, hkeeps⟩
    · cases item with
      | cosmetic id =>
        intro l hl
        rw [hcosmetics] at hl
        cases hl
      | badge id =>
        intro l hl
        rw [hbadges] at hl
        cases hl
    · obtain rfl := hrow u hu
      exact hkeeps item h
  | _ => cases item <;> trivial

/-- What a request may say it has seen after a call. -/
theorem reply_answer (hmay : May q g) :
    Reply q (q.answer w s).1 { row := some (q.answer w s).2.user, got := (q.answer w s).2.user.Owns } := by
  cases q with
  | findById => exact ⟨rfl, fun _ h => h⟩
  | setRewards patch marks =>
    refine ⟨fun _ h => h, ?_⟩
    intro l hl id hid
    show id ∈ patch.cosmetics.getD s.user.cosmetics
    rw [hl]
    exact hid
  | addXp deltaXp marks => exact fun _ h => h
  | purchaseCosmetic id cost =>
    obtain rfl : cost = 0 := hmay
    show id ∈ (s.user.purchaseCosmetic id 0).2.cosmetics
    unfold RewardUser.purchaseCosmetic
    split
    · exact ‹_›
    · simp
  | purchaseCosmeticXp id costXp =>
    show (s.user.purchaseCosmeticXp id costXp).1.ok = true → id ∈ (s.user.purchaseCosmeticXp id costXp).2.cosmetics
    unfold RewardUser.purchaseCosmeticXp
    split
    · exact fun _ => ‹_›
    · split
      · exact nofun
      · simp
  | debit cents | credit cents =>
    cases w <;> trivial
  | charge cents id =>
    cases w with
    | insufficient | down => trivial
    | funded =>
      simp only [RewardQuery.answer]
      split
      · intro hok
        unfold RewardUser.purchaseCosmetic at hok ⊢
        split at hok
        · cases hok
        · rename_i hnot
          simp [hnot, RewardUser.Owns]
      · trivial

/-- What an answer tells is still told to one who got more. -/
theorem Reply.mono {r : Except RewardError q.Answer} {row : Option RewardUser} {got got' : Keepsake → Prop}
    (h : Reply q r { row, got }) (hgot : ∀ item, got item → got' item) : Reply q r { row, got := got' } := by
  cases q with
  | findById =>
    match r with
    | .ok (some u) => exact ⟨h.1, fun item hitem => hgot item (h.2 item hitem)⟩
    | .ok none | .error e => exact h.elim
  | setRewards patch marks =>
    match r with
    | .ok (some u) => exact ⟨fun item hitem => hgot item (h.1 item hitem), fun l hl id hid => hgot _ (h.2 l hl id hid)⟩
    | .ok none | .error e => exact h.elim
  | addXp deltaXp marks =>
    match r with
    | .ok (some u) => exact fun item hitem => hgot item (h item hitem)
    | .ok none | .error e => exact h.elim
  | purchaseCosmetic id cost =>
    match r with
    | .ok _ => exact hgot _ h
    | .error e => exact h.elim
  | purchaseCosmeticXp id costXp =>
    match r with
    | .ok _ => exact fun hok => hgot _ (h hok)
    | .error e => trivial
  | charge cents id =>
    match r with
    | .ok _ => exact fun hok => hgot _ (h hok)
    | .error e => trivial
  | debit cents | credit cents => trivial

end Seen

/-- The requests of one user, as programs. -/
abbrev RewardPool := Pool RewardServer RewardQuery RewardQuery.Answer RewardError RewardReceipt RewardCall

/-- What happens to them. -/
abbrev RewardEvent := PoolEvent RewardCall WalletReply RewardDrift

namespace RewardPool

/-- A call that is answered adds nothing that a write back waiting then would drop. -/
def Spares (cfg : RewardsConfig) (p : RewardPool) : RewardEvent → Prop
  | .execute k w => ∀ t q, p.tasks[k]? = some t → t.program.pending = some q →
      (rewardRuntime cfg).waits p.tasks k t.op = false → ∀ item ∈ q.adds w p.store.user,
        ∀ j t' q', j ≠ k → p.tasks[j]? = some t' → t'.program.pending = some q' → q'.Keeps item
  | _ => True

/-- Every write back that waits keeps what is owned, and what a request has seen is owned. -/
structure Secure (p : RewardPool) : Prop where
  ready : ∀ (j : ℕ) t q, p.tasks[j]? = some t → t.program.pending = some q →
    ∀ item, p.store.user.Owns item → q.Keeps item
  backed : ∀ (j : ℕ) t, p.tasks[j]? = some t → ∃ g,
    t.program.wp keepsakeProtocol (RewardsService.Shows t.op) (fun _ _ => True) g ∧
      ∀ item, g.got item → p.store.user.Owns item

variable {cfg : RewardsConfig} {p : RewardPool}

/-- A step takes nothing away. -/
def Grows (u u' : RewardUser) : Prop := ∀ item, u.Owns item → u'.Owns item

/-- No event takes an item away. -/
theorem step_grows (h : Secure p) (e : RewardEvent) :
    Grows p.store.user ((rewardRuntime cfg).step p e).store.user := by
  cases e with
  | start op => exact fun _ howns => howns
  | drift d =>
    cases d with
    | tick ms => exact fun _ howns => howns
    | applyMatchResult won potCents xpGain => exact fun item howns => by cases item <;> exact howns
  | execute k w =>
    rcases (rewardRuntime cfg).execute_cases p k w with hsame | ⟨t, q, next, hk, hp, -, hstep⟩
    · rw [hsame]
      exact fun _ howns => howns
    · rw [hstep]
      intro item howns
      exact RewardQuery.answer_keeps howns (h.ready k t q hk (by rw [hp]; rfl) item howns)

/-- A program that begins has nothing to write back. -/
theorem secure_start (h : Secure p) (op : RewardCall) : Secure ((rewardRuntime cfg).step p (.start op)) := by
  have hnew := RewardsService.conforms cfg p.store op
  have hold : ∀ (j : ℕ) t, (p.tasks ++ [⟨op, op.program cfg p.store⟩])[j]? = some t →
      p.tasks[j]? = some t ∨ t = ⟨op, op.program cfg p.store⟩ := by
    intro j t hj
    rcases Nat.lt_or_ge j p.tasks.length with hlt | hge
    · rw [List.getElem?_append_left hlt] at hj
      exact .inl hj
    · rw [List.getElem?_append_right hge] at hj
      exact .inr (List.mem_singleton.mp (List.mem_of_getElem? hj))
  constructor
  · intro j t q hj hq item howns
    rcases hold j t hj with hj | rfl
    · exact h.ready j t q hj hq item howns
    · cases hprog : op.program cfg p.store with
      | pure a => simp [hprog, Async.pending] at hq
      | throw e => simp [hprog, Async.pending] at hq
      | ask q' next =>
        obtain rfl : q' = q := by simpa [hprog, Async.pending] using hq
        rw [hprog] at hnew
        exact Seen.keeps_of_may hnew.1 (fun u hu => by cases hu) howns
  · intro j t hj
    rcases hold j t hj with hj | rfl
    · exact h.backed j t hj
    · exact ⟨{}, hnew, fun item hitem => hitem.elim⟩

/-- An answer keeps the items that were got. -/
theorem secure_execute (h : Secure p) (k : ℕ) (w : WalletReply) (hspares : Spares cfg p (.execute k w)) :
    Secure ((rewardRuntime cfg).step p (.execute k w)) := by
  have hgrows : Grows p.store.user ((rewardRuntime cfg).step p (.execute k w)).store.user := step_grows h (.execute k w)
  rcases (rewardRuntime cfg).execute_cases p k w with hsame | ⟨t, q, next, hk, hp, hwait, hstep⟩
  · rw [hsame]
    exact h
  have hpending : t.program.pending = some q := by rw [hp]; rfl
  have hlt : k < p.tasks.length := (List.getElem?_eq_some_iff.mp hk).1
  rw [hstep] at hgrows ⊢
  -- what the task that is answered has seen now
  obtain ⟨g, hwp, hgot⟩ := h.backed k t hk
  rw [hp] at hwp
  obtain ⟨hmay, hnext⟩ := hwp
  have hwp' := hnext (q.answer w p.store).1
    { row := some (q.answer w p.store).2.user, got := (q.answer w p.store).2.user.Owns }
    ⟨Seen.reply_answer hmay, fun item hitem => hgrows item (hgot item hitem)⟩
  constructor
  · intro j t' q' hj hq' item howns
    by_cases hjk : j = k
    · subst hjk
      rw [List.getElem?_set_self hlt] at hj
      obtain rfl := Option.some.inj hj
      cases hprog : next (q.answer w p.store).1 with
      | pure a =>
        have hnone : (next (q.answer w p.store).1).pending = some q' := hq'
        simp [hprog, Async.pending] at hnone
      | throw e =>
        have hnone : (next (q.answer w p.store).1).pending = some q' := hq'
        simp [hprog, Async.pending] at hnone
      | ask q'' next' =>
        have hsome : (next (q.answer w p.store).1).pending = some q' := hq'
        obtain rfl : q'' = q' := by simpa [hprog, Async.pending] using hsome
        rw [hprog] at hwp'
        exact Seen.keeps_of_may (s := (q.answer w p.store).2) hwp'.1 (fun u hu => (Option.some.inj hu).symm) howns
    · rw [List.getElem?_set_ne (Ne.symm hjk)] at hj
      rcases RewardQuery.answer_owns howns with hold | hadds
      · exact h.ready j t' q' hj hq' item hold
      · exact hspares t q hk hpending hwait item hadds j t' q' hjk hj hq'
  · intro j t' hj
    by_cases hjk : j = k
    · subst hjk
      rw [List.getElem?_set_self hlt] at hj
      obtain rfl := Option.some.inj hj
      exact ⟨_, hwp', fun _ hitem => hitem⟩
    · rw [List.getElem?_set_ne (Ne.symm hjk)] at hj
      obtain ⟨g', hwp'', hgot'⟩ := h.backed j t' hj
      exact ⟨g', hwp'', fun item hitem => hgrows item (hgot' item hitem)⟩

/-- The rest of the server does too. -/
theorem secure_drift (h : Secure p) (d : RewardDrift) : Secure ((rewardRuntime cfg).step p (.drift d)) := by
  have hgrows : Grows p.store.user ((rewardRuntime cfg).step p (.drift d)).store.user := step_grows h (.drift d)
  constructor
  · intro j t q hj hq item howns
    refine h.ready j t q hj hq item ?_
    cases d with
    | tick ms => exact howns
    | applyMatchResult won potCents xpGain => cases item <;> exact howns
  · intro j t hj
    obtain ⟨g, hwp, hgot⟩ := h.backed j t hj
    exact ⟨g, hwp, fun item hitem => hgrows item (hgot item hitem)⟩

theorem secure_step (e : RewardEvent) (h : Secure p) (hspares : Spares cfg p e) :
    Secure ((rewardRuntime cfg).step p e) := by
  cases e with
  | start op => exact secure_start h op
  | execute k w => exact secure_execute h k w hspares
  | drift d => exact secure_drift h d

theorem secure_boot (u : RewardUser) (now : ℕ) : Secure { store := { user := u, now } } :=
  ⟨fun j t q hj => by simp at hj, fun j t hj => by simp at hj⟩

/-- What the finished requests returned as owned. -/
def returned (p : RewardPool) : List Keepsake :=
  p.tasks.flatMap fun t =>
    match t.program with
    | .pure a => a.items t.op
    | _ => []

/-- What was returned as owned is owned. -/
theorem returned_owned (h : Secure p) : ∀ item ∈ returned p, p.store.user.Owns item := by
  intro item hitem
  obtain ⟨t, ht, hitem⟩ := List.mem_flatMap.mp hitem
  obtain ⟨j, hj⟩ := List.mem_iff_getElem?.mp ht
  obtain ⟨g, hwp, hgot⟩ := h.backed j t hj
  cases hp : t.program with
  | pure a =>
    rw [hp] at hwp hitem
    exact hgot item (hwp item hitem)
  | throw e => simp [hp] at hitem
  | ask q next => simp [hp] at hitem

/-- What was owned is owned after the rest of the run. -/
theorem run_grows {es : List RewardEvent} (h : Secure p)
    (hg : Guarded (rewardRuntime cfg).step (Spares cfg) p es) :
    Grows p.store.user (run (rewardRuntime cfg).step p es).store.user := by
  have hstep : ∀ p' e, Secure p' ∧ Grows p.store.user p'.store.user → Spares cfg p' e →
      Secure ((rewardRuntime cfg).step p' e) ∧ Grows p.store.user ((rewardRuntime cfg).step p' e).store.user := by
    rintro p' e ⟨hsecure, hgrows⟩ hspares
    exact ⟨secure_step e hsecure hspares, fun item howns => step_grows hsecure e item (hgrows item howns)⟩
  exact (guarded_inv (P := fun p' => Secure p' ∧ Grows p.store.user p'.store.user) hstep
    ⟨h, fun _ howns => howns⟩ es hg).2

/-! ### XP spent and XP earned -/

/-- No more XP is spent than was earned, and only free cosmetics are granted for it. -/
structure Thrifty (p : RewardPool) : Prop where
  spent : p.store.user.xpSpent ≤ p.store.user.xp
  free : ∀ (j : ℕ) t, p.tasks[j]? = some t → ∃ g,
    t.program.wp keepsakeProtocol (RewardsService.Shows t.op) (fun _ _ => True) g

/-- No more experience is spent than there is. -/
theorem spent_answer {w : WalletReply} {s : RewardServer} {q : RewardQuery} {g : Seen} (hmay : Seen.May q g)
    (h : s.user.xpSpent ≤ s.user.xp) : (q.answer w s).2.user.xpSpent ≤ (q.answer w s).2.user.xp := by
  have hfree : ∀ id, (s.user.purchaseCosmetic id 0).2.xpSpent ≤ (s.user.purchaseCosmetic id 0).2.xp := by
    intro id
    unfold RewardUser.purchaseCosmetic
    split
    · exact h
    · exact h
  cases q with
  | findById => exact h
  | setRewards patch marks => exact h
  | addXp deltaXp marks =>
    show s.user.xpSpent ≤ s.user.xp + deltaXp
    omega
  | purchaseCosmetic id cost =>
    obtain rfl : cost = 0 := hmay
    exact hfree id
  | purchaseCosmeticXp id costXp =>
    show (s.user.purchaseCosmeticXp id costXp).2.xpSpent ≤ (s.user.purchaseCosmeticXp id costXp).2.xp
    unfold RewardUser.purchaseCosmeticXp
    split
    · exact h
    · split
      · exact h
      · simp only
        omega
  | debit cents | credit cents => cases w <;> exact h
  | charge cents id =>
    cases w with
    | insufficient | down => exact h
    | funded =>
      simp only [RewardQuery.answer]
      split
      · exact hfree id
      · exact h

/-- Every event keeps it so. -/
theorem thrifty_step (h : Thrifty p) (e : RewardEvent) : Thrifty ((rewardRuntime cfg).step p e) := by
  cases e with
  | start op =>
    refine ⟨h.spent, fun j t hj => ?_⟩
    have hj' : (p.tasks ++ [⟨op, op.program cfg p.store⟩])[j]? = some t := hj
    rcases List.mem_append.mp (List.mem_of_getElem? hj') with hold | hnew
    · obtain ⟨i, hi⟩ := List.mem_iff_getElem?.mp hold
      exact h.free i t hi
    · obtain rfl := List.mem_singleton.mp hnew
      exact ⟨{}, RewardsService.conforms cfg p.store op⟩
  | drift d =>
    cases d with
    | tick ms => exact ⟨h.spent, h.free⟩
    | applyMatchResult won potCents xpGain =>
      refine ⟨?_, h.free⟩
      have hspent := h.spent
      show p.store.user.xpSpent ≤ p.store.user.xp + xpGain
      omega
  | execute k w =>
    rcases (rewardRuntime cfg).execute_cases p k w with hsame | ⟨t, q, next, hk, hp, -, hstep⟩
    · rw [hsame]
      exact h
    rw [hstep]
    obtain ⟨g, hwp⟩ := h.free k t hk
    rw [hp] at hwp
    obtain ⟨hmay, hnext⟩ := hwp
    refine ⟨spent_answer hmay h.spent, fun j t' hj => ?_⟩
    by_cases hjk : j = k
    · subst hjk
      rw [List.getElem?_set_self (List.getElem?_eq_some_iff.mp hk).1] at hj
      obtain rfl := Option.some.inj hj
      -- whatever was seen before, it is enough to have seen everything now
      refine ⟨{ row := some (q.answer w p.store).2.user, got := fun _ => True }, hnext _ _ ⟨?_, fun _ _ => trivial⟩⟩
      exact (Seen.reply_answer hmay).mono fun _ _ => trivial
    · rw [List.getElem?_set_ne (Ne.symm hjk)] at hj
      exact h.free j t' hj

theorem thrifty_run (h : Thrifty p) (es : List RewardEvent) : Thrifty (run (rewardRuntime cfg).step p es) :=
  run_inv (P := Thrifty) (fun _ e h => thrifty_step h e) h es

end RewardPool

open RewardPool in
/-- **Owned rewards are kept**, in every run that spares the write backs that wait, and no
more XP is ever spent than earned. -/
theorem owned_rewards_kept (cfg : RewardsConfig) {u : RewardUser} (hxp : u.xpSpent ≤ u.xp) (now : ℕ)
    {es fs : List RewardEvent}
    (hg : Guarded (rewardRuntime cfg).step (Spares cfg) { store := { user := u, now } } (es ++ fs)) :
    let p := run (rewardRuntime cfg).step { store := { user := u, now } } es
    let p' := run (rewardRuntime cfg).step p fs
    Grows p.store.user p'.store.user ∧ (∀ item ∈ returned p, p'.store.user.Owns item) ∧
      p'.store.user.xpSpent ≤ p'.store.user.xp := by
  intro p p'
  obtain ⟨hes, hfs⟩ := (guarded_append _ es fs).mp hg
  have hsecure : Secure p := guarded_inv (fun _ e h he => secure_step e h he) (secure_boot u now) es hes
  have hgrows : Grows p.store.user p'.store.user := run_grows hsecure hfs
  have hthrifty : Thrifty p' := thrifty_run (thrifty_run ⟨hxp, fun j t hj => by simp at hj⟩ es) fs
  exact ⟨hgrows, fun item hitem => hgrows item (returned_owned hsecure item hitem), hthrifty.spent⟩

/-- A gift is claimed while another cosmetic is bought: both read the row, then both write. -/
def giftDuringPurchase : List RewardEvent :=
  [.start (.claimVipGift true), .start (.buyXp "cb_ivory"), .execute 1 .funded, .execute 0 .funded, .execute 0 .funded,
   .execute 1 .funded]

/-- A whole list is written back. -/
def RewardQuery.writesBack : RewardQuery → Bool
  | .setRewards _ _ => true
  | _ => false

theorem RewardQuery.keeps_of_writesBack {q : RewardQuery} (h : q.writesBack = false) (item : Keepsake) : q.Keeps item := by
  cases q with
  | setRewards patch week => cases h
  | _ => cases item <;> trivial

/-- No other request waits with a write back. -/
theorem RewardPool.spares_calm {cfg : RewardsConfig} {p : RewardPool} {k : ℕ} {w : WalletReply}
    (h : ∀ j < p.tasks.length, j ≠ k → ((p.tasks[j]?.bind fun t => t.program.pending).any RewardQuery.writesBack) = false) :
    RewardPool.Spares cfg p (.execute k w) := by
  intro t q _ _ _ item _ j t' q' hjk hj hq'
  have hlt := (List.getElem?_eq_some_iff.mp hj).1
  have hcalm := h j hlt hjk
  rw [hj, Option.bind_some, hq', Option.any_some] at hcalm
  exact q'.keeps_of_writesBack hcalm item

/-- A gift beside a purchase loses nothing. -/
theorem giftDuringPurchase_spares :
    Guarded (rewardRuntime {}).step (RewardPool.Spares {}) { store := { user := { xp := 500 } } }
    (giftDuringPurchase ++ [.drift (.tick 1)]) := by
  refine ⟨trivial, trivial, ?_, ?_, ?_, ?_, trivial, trivial⟩
  · exact RewardPool.spares_calm (by decide +kernel)
  · exact RewardPool.spares_calm (by decide +kernel)
  · exact RewardPool.spares_calm (by decide +kernel)
  · exact RewardPool.spares_calm (by decide +kernel)

open RewardPool in
/-- Both are owned ever after. -/
theorem owned_rewards_kept_gift :
    let p := run (rewardRuntime {}).step { store := { user := { xp := 500 } } } giftDuringPurchase
    let p' := run (rewardRuntime {}).step p [.drift (.tick 1)]
    Grows p.store.user p'.store.user ∧ (∀ item ∈ returned p, p'.store.user.Owns item) ∧
      p'.store.user.xpSpent ≤ p'.store.user.xp ∧ .cosmetic "cb_ivory" ∈ returned p ∧ 2 ≤ (returned p).length := by
  obtain ⟨hgrows, howned, hspent⟩ :=
    owned_rewards_kept {} (u := { xp := 500 }) (by decide) 0 giftDuringPurchase_spares
  exact ⟨hgrows, howned, hspent, by decide +kernel, by decide +kernel⟩

/-- A gift is claimed, and between its read and its write another cosmetic is bought. -/
def purchaseDuringGift : List RewardEvent :=
  [.start (.claimVipGift true), .execute 0 .funded, .start (.buyXp "cb_ivory"), .execute 1 .funded,
   .execute 1 .funded]

open RewardPool in
/-- **A purchase is lost**: it succeeded and was paid for, the gift's write drops it. -/
theorem owned_rewards_lost :
    let p := run (rewardRuntime {}).step { store := { user := { xp := 500 } } } purchaseDuringGift
    let p' := run (rewardRuntime {}).step p [.execute 0 .funded]
    Keepsake.cosmetic "cb_ivory" ∈ returned p ∧ p.store.user.Owns (.cosmetic "cb_ivory") ∧
      ¬ p'.store.user.Owns (.cosmetic "cb_ivory") ∧ p'.store.user.xpSpent = 150 := by
  decide +kernel

end Murlan
