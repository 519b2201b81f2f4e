import Mathlib.Algebra.BigOperators.Group.List.Basic
import Mathlib.Algebra.Order.BigOperators.Group.List
import Mathlib.Tactic.Linarith
import Murlan.Base.Run
import Murlan.Spec.LossCap

/-!
# The daily loss cap

* `dayNet`: the net gambling result of a user on a day; what the two ways of reading the
  ledger give.
* `LossCheck.Passed`: what a check that allowed a bet says, as long as no bet of its user has
  been debited since.
* `loss_cap_holds`: in every run in which no other bet of the player is debited between a check
  and its debit, each of his bets finds a result above the cap, and no day ends further
  below it than the last stake.
* `loss_cap_exceeded`: two registrations side by side.
-/

namespace Murlan

open ResponsibleGaming

variable {U R : Type} [DecidableEq U]

/-! ## The result of a day -/

/-- The row counts on the day. -/
def StakeRow.onDay (t : StakeRow U) (u : U) (d : ℕ) : Bool :=
  t.userId = u && isGamble t.type && ResponsibleGaming.dayIndex t.createdAt == d

/-- The bets and payouts of a user on a day. -/
def dayNet (ledger : List (StakeRow U)) (u : U) (d : ℕ) : ℤ :=
  ((ledger.filter (·.onDay u d)).map (·.amountCents)).sum

/-- The stake of the user's last bet on a day. -/
def lastStake (ledger : List (StakeRow U)) (u : U) (d : ℕ) : ℤ :=
  (((ledger.filter fun t => t.onDay u d && t.type == .bet).getLast?).map (-·.amountCents)).getD 0

theorem dayNet_append (ledger : List (StakeRow U)) (t : StakeRow U) (u : U) (d : ℕ) :
    dayNet (ledger ++ [t]) u d = dayNet ledger u d + if t.onDay u d then t.amountCents else 0 := by
  unfold dayNet
  rw [List.filter_append, List.map_append, List.sum_append]
  cases h : t.onDay u d with
  | true => simp [h]
  | false => simp [h]

theorem lastStake_append_bet (ledger : List (StakeRow U)) {t : StakeRow U} {u : U} {d : ℕ} (h : t.onDay u d = true)
    (hbet : t.type = .bet) : lastStake (ledger ++ [t]) u d = -t.amountCents := by
  simp [lastStake, h, hbet]

theorem lastStake_append_of_not (ledger : List (StakeRow U)) {t : StakeRow U} {u : U} {d : ℕ}
    (h : (t.onDay u d && t.type == .bet) = false) : lastStake (ledger ++ [t]) u d = lastStake ledger u d := by
  unfold lastStake
  rw [List.filter_append, List.filter_cons_of_neg (by simp [h]), List.filter_nil, List.append_nil]

/-- The row scan. -/
theorem netResultToday_eq (ledger : List (StakeRow U)) (u : U) (now : ℕ) :
    netResultToday (listTransactions ledger u) now = dayNet ledger u (ResponsibleGaming.dayIndex now) := by
  unfold netResultToday listTransactions dayNet
  rw [List.filter_filter]
  congr 2
  refine List.filter_congr fun t _ => ?_
  unfold StakeRow.onDay
  rw [Bool.and_comm, Bool.and_assoc]

/-- The aggregate, while the day lasts. -/
theorem sumGamblesSince_eq {ledger : List (StakeRow U)} {now : ℕ} (hpast : ∀ t ∈ ledger, t.createdAt ≤ now) (u : U)
    {at_ : ℕ} (hday : ResponsibleGaming.dayIndex now = ResponsibleGaming.dayIndex at_) :
    sumGamblesSince ledger u (startOfDayMs at_) = dayNet ledger u (ResponsibleGaming.dayIndex at_) := by
  unfold sumGamblesSince dayNet
  congr 2
  refine List.filter_congr fun t ht => ?_
  have hle : ResponsibleGaming.dayIndex t.createdAt ≤ ResponsibleGaming.dayIndex at_ := by
    rw [← hday]
    exact Nat.div_le_div_right (hpast t ht)
  have hsince : startOfDayMs at_ ≤ t.createdAt ↔ ResponsibleGaming.dayIndex at_ ≤ ResponsibleGaming.dayIndex t.createdAt :=
    (Nat.le_div_iff_mul_le (by decide)).symm
  unfold StakeRow.onDay
  rw [Bool.eq_iff_iff]
  simp only [hsince, decide_eq_true_eq, Bool.and_eq_true, beq_iff_eq]
  constructor
  · rintro ⟨h₁, h₂, h₃⟩
    exact ⟨⟨h₁, h₂⟩, Nat.le_antisymm hle h₃⟩
  · rintro ⟨⟨h₁, h₂⟩, h₃⟩
    exact ⟨h₁, h₂, h₃.ge⟩

/-- A day without a bet. -/
theorem dayNet_nonneg {ledger : List (StakeRow U)} (hpay : ∀ t ∈ ledger, t.type = .payout → 0 ≤ t.amountCents) {u : U}
    {d : ℕ} (hnone : ∀ t ∈ ledger, t.onDay u d = true → t.type ≠ .bet) : 0 ≤ dayNet ledger u d := by
  refine List.sum_nonneg fun x hx => ?_
  obtain ⟨t, ht, rfl⟩ := List.mem_map.mp hx
  obtain ⟨ht, hday⟩ := List.mem_filter.mp ht
  refine hpay t ht ?_
  have hgamble : isGamble t.type = true := by
    simp only [StakeRow.onDay, Bool.and_eq_true] at hday
    exact hday.1.2
  simp only [isGamble, Bool.or_eq_true, beq_iff_eq] at hgamble
  exact hgamble.resolve_left (hnone t ht hday)

/-! ## What a check says -/

namespace LossCheck

/-- The ledger only grows, and the user's bets in it are as old as the check, unless he has bet since. -/
structure Fresh (s : Casino U R) (c : LossCheck U) : Prop where
  past : c.at_ ≤ s.now
  bets : c.bets ≤ s.bets c.userId
  older : s.bets c.userId = c.bets → ∀ t ∈ s.ledger, t.userId = c.userId → t.type = .bet → t.createdAt ≤ c.at_

/-- A check that allowed a bet: the day's result is above the cap, unless the user has bet since. -/
structure Passed (s : Casino U R) (limit : ℕ+) (c : LossCheck U) : Prop extends Fresh s c where
  above : s.bets c.userId = c.bets → ResponsibleGaming.dayIndex s.now = ResponsibleGaming.dayIndex c.at_ →
    -(limit : ℤ) < dayNet s.ledger c.userId (ResponsibleGaming.dayIndex c.at_)

/-- A check of a user with a limit has passed it. -/
def Stands (cfg : Stakes U) (s : Casino U R) (c : LossCheck U) : Prop :=
  ∀ limit, cfg.dailyLossLimitCents c.userId = some limit → c.Passed s limit

end LossCheck

namespace Casino

variable {s : Casino U R}

/-- A row that may be appended: what is won is not negative. -/
def Booked (type : TransactionType) (cents : ℤ) : Prop := type = .payout → 0 ≤ cents

theorem bets_append (s : Casino U R) (v : U) (type : TransactionType) (cents : ℤ) (u : U) :
    (s.append v type cents).bets u = s.bets u + if v = u ∧ type = .bet then 1 else 0 := by
  by_cases h : v = u ∧ type = .bet
  · simp [append, bets, h, List.countP_append]
  · simp only [append, bets, List.countP_append, h, if_false]
    simp [h]

end Casino

namespace LossCheck

variable {s : Casino U R} {c : LossCheck U} {limit : ℕ+}

/-- Another row keeps a check fresh. -/
theorem Fresh.append (h : c.Fresh s) (v : U) (type : TransactionType) (cents : ℤ) : c.Fresh (s.append v type cents) := by
  have hbets := s.bets_append v type cents c.userId
  refine ⟨h.past, by have := h.bets; omega, fun heq t ht huser hbet => ?_⟩
  have hle := h.bets
  by_cases hnew : v = c.userId ∧ type = .bet
  · rw [hbets, if_pos hnew] at heq
    omega
  · rw [hbets, if_neg hnew] at heq
    rcases List.mem_append.mp ht with ht | ht
    · exact h.older heq t ht huser hbet
    · rw [List.mem_singleton.mp ht] at huser hbet
      exact absurd ⟨huser, hbet⟩ hnew

/-- A check that passed stays so, as losses are booked against it. -/
theorem Passed.append (h : c.Passed s limit) (v : U) (type : TransactionType) (cents : ℤ)
    (hbooked : Casino.Booked type cents) : c.Passed (s.append v type cents) limit := by
  refine ⟨h.toFresh.append v type cents, fun heq hday => ?_⟩
  have hbets := s.bets_append v type cents c.userId
  have hle := h.bets
  by_cases hnew : v = c.userId ∧ type = .bet
  · rw [hbets, if_pos hnew] at heq
    omega
  · rw [hbets, if_neg hnew] at heq
    have habove := h.above heq hday
    show -(limit : ℤ) < dayNet (s.ledger ++ [⟨v, type, cents, s.now⟩]) c.userId (ResponsibleGaming.dayIndex c.at_)
    rw [dayNet_append]
    -- another row of the user's day is a payout
    split
    · rename_i hon
      simp only [StakeRow.onDay, isGamble, Bool.and_eq_true, Bool.or_eq_true, beq_iff_eq, decide_eq_true_eq] at hon
      have hpay : type = .payout := hon.1.2.resolve_left fun hbet => hnew ⟨hon.1.1, hbet⟩
      have hcents := hbooked hpay
      simp only
      omega
    · omega

theorem Fresh.clock (h : c.Fresh s) (ms : ℕ) : c.Fresh { s with now := s.now + ms } :=
  ⟨h.past.trans (Nat.le_add_right _ _), h.bets, h.older⟩

theorem Passed.clock (h : c.Passed s limit) (ms : ℕ) : c.Passed { s with now := s.now + ms } limit := by
  refine ⟨h.toFresh.clock ms, fun heq hday => h.above heq ?_⟩
  have h₁ : ResponsibleGaming.dayIndex c.at_ ≤ ResponsibleGaming.dayIndex s.now := Nat.div_le_div_right h.past
  have h₂ : ResponsibleGaming.dayIndex s.now ≤ ResponsibleGaming.dayIndex (s.now + ms) :=
    Nat.div_le_div_right (Nat.le_add_right _ _)
  have hday' : ResponsibleGaming.dayIndex (s.now + ms) = ResponsibleGaming.dayIndex c.at_ := hday
  omega

end LossCheck

/-! ## The store and the tasks -/

/-- The ledger has no future, winnings are not negative, a user sits once, and no day of `u` has
gone further below his cap than his last stake. -/
structure Casino.Kept (cfg : Stakes U) (u : U) (s : Casino U R) : Prop where
  past : ∀ t ∈ s.ledger, t.createdAt ≤ s.now
  pay : ∀ t ∈ s.ledger, t.type = .payout → 0 ≤ t.amountCents
  seated : ∀ r v, some v ∈ s.seats r → s.roomOf v = some r
  once : ∀ r, ((s.seats r).filterMap id).Nodup
  within : ∀ limit : ℕ+, cfg.dailyLossLimitCents u = some limit →
    ∀ d, -((limit : ℤ) - 1) - lastStake s.ledger u d ≤ dayNet s.ledger u d

/-- What a bet under way has checked is still so. -/
def BetPhase.Sound (cfg : Stakes U) (s : Casino U R) : BetPhase U → Prop
  | .sumByTypesSince _ limit c | .listTransactions _ limit c =>
    c.Fresh s ∧ cfg.dailyLossLimitCents c.userId = some limit
  | .debit players => players.Nodup
  | _ => True

/-- The players the next step of a bet debits. -/
def BetPhase.players : BetPhase U → List U
  | .debit players => players
  | _ => []

/-- What a task has checked. -/
structure BetTask.Sound (cfg : Stakes U) (s : Casino U R) (t : BetTask U R) : Prop where
  passed : ∀ c ∈ t.passed, c.Stands cfg s
  phase : t.phase.Sound cfg s

/-- A debit of `u` whose player was checked by the same bet, and has not been debited since. -/
def BetTask.Undisturbed (u : U) (s : Casino U R) (t : BetTask U R) (w : Bool) : Prop :=
  w = true → u ∈ t.phase.players → ∃ c ∈ t.passed, c.userId = u ∧ c.bets = s.bets u

instance (u : U) (s : Casino U R) (t : BetTask U R) (w : Bool) : Decidable (t.Undisturbed u s w) :=
  inferInstanceAs (Decidable (w = true → u ∈ t.phase.players → _))

variable {cfg : Stakes U} {s s' : Casino U R} {u : U}

/-! ### What the others keep -/

/-- What keeps every check keeps every task. -/
theorem BetTask.Sound.mono {t : BetTask U R} (h : t.Sound cfg s) (hfresh : ∀ c : LossCheck U, c.Fresh s → c.Fresh s')
    (hpassed : ∀ (c : LossCheck U) limit, c.Passed s limit → c.Passed s' limit) : t.Sound cfg s' := by
  refine ⟨fun c hc limit hlimit => hpassed c limit (h.passed c hc limit hlimit), ?_⟩
  have hphase := h.phase
  cases hp : t.phase with
  | sumByTypesSince seat limit check =>
    rw [hp] at hphase
    exact ⟨hfresh _ hphase.1, hphase.2⟩
  | listTransactions seat limit check =>
    rw [hp] at hphase
    exact ⟨hfresh _ hphase.1, hphase.2⟩
  | debit players =>
    rw [hp] at hphase
    exact hphase
  | _ => trivial

theorem sound_append {t : BetTask U R} (h : t.Sound cfg s) (v : U) (type : TransactionType) {cents : ℤ}
    (hbooked : Casino.Booked type cents) : t.Sound cfg (s.append v type cents) :=
  h.mono (fun _ hc => hc.append v type cents) fun _ _ hc => hc.append v type cents hbooked

omit [DecidableEq U] in
/-- What every stake keeps, a debit keeps. -/
theorem debit_induction {P : Casino U R → Prop} {cents : ℕ} (h : ∀ s v, P s → P (s.append v .bet (-cents)))
    (players : List U) : ∀ {s}, P s → P (s.debit players cents) := by
  induction players with
  | nil => exact fun hs => hs
  | cons v players ih => exact fun hs => ih (h _ v hs)

theorem booked_bet (cents : ℤ) : Casino.Booked .bet cents := fun h => by cases h

/-- The rest of the server keeps what was checked. -/
theorem sound_drift [DecidableEq R] {t : BetTask U R} (h : t.Sound cfg s) (e : CasinoEvent U R) : t.Sound cfg (s.drift e) := by
  have hseats : ∀ seats roomOf, t.Sound cfg { s with seats, roomOf } := fun _ _ =>
    h.mono (fun _ hc => ⟨hc.past, hc.bets, hc.older⟩) fun _ _ hc => ⟨⟨hc.past, hc.bets, hc.older⟩, hc.above⟩
  cases e with
  | clock ms => exact h.mono (fun _ hc => hc.clock ms) fun _ _ hc => hc.clock ms
  | sit v r i =>
    simp only [Casino.drift]
    split
    · exact hseats _ _
    · exact h
  | leave v =>
    simp only [Casino.drift]
    cases s.roomOf v with
    | none => exact h
    | some r => exact hseats _ _
  | payout v cents => exact sound_append h v .payout fun _ => Int.natCast_nonneg cents
  | book v type cents =>
    simp only [Casino.drift]
    split
    · exact h
    · rename_i hgamble
      refine sound_append h v type fun hpay => ?_
      subst hpay
      exact absurd rfl hgamble

/-! ### What a task's own step keeps -/

omit [DecidableEq U] in
theorem passed_gateFrom (cfg : Stakes U) (s : Casino U R) (t : BetTask U R) (seat : ℕ) :
    (t.gateFrom cfg s seat).passed = t.passed := by
  unfold BetTask.gateFrom
  split
  · rfl
  · rfl

/-- Nobody is debited twice by one bet. -/
theorem players_nodup (h : s.Kept cfg u) (op : BetOp U R) : (op.players cfg s).Nodup := by
  refine List.Nodup.filter _ ?_
  cases op with
  | tryBeginMatch r stake => exact h.once r
  | _ => exact List.nodup_singleton _

/-- The next gate starts from what was checked. -/
theorem sound_gateFrom (hs : s.Kept cfg u) {t : BetTask U R} (h : ∀ c ∈ t.passed, c.Stands cfg s) (seat : ℕ) :
    (t.gateFrom cfg s seat).Sound cfg s := by
  refine ⟨by rw [passed_gateFrom]; exact h, ?_⟩
  unfold BetTask.gateFrom
  split
  · trivial
  · cases t.blocked with
    | true => trivial
    | false => exact players_nodup hs t.op

theorem sound_fail (hs : s.Kept cfg u) {t : BetTask U R} (h : ∀ c ∈ t.passed, c.Stands cfg s) (seat : ℕ) :
    (t.fail cfg s seat).Sound cfg s :=
  sound_gateFrom (t := { t with blocked := true }) hs h _

/-- A gate passes what it has checked. -/
theorem sound_judge (hs : s.Kept cfg u) {t : BetTask U R} (h : ∀ c ∈ t.passed, c.Stands cfg s) (seat : ℕ)
    {limit : ℕ+} {check : LossCheck U}
    (hfresh : check.Fresh s) (hlimit : cfg.dailyLossLimitCents check.userId = some limit) {net : ℤ}
    (hnet : ResponsibleGaming.dayIndex s.now = ResponsibleGaming.dayIndex check.at_ →
      net = dayNet s.ledger check.userId (ResponsibleGaming.dayIndex check.at_)) :
    (t.judge cfg s seat limit check net).Sound cfg s := by
  unfold BetTask.judge
  split
  · exact sound_fail hs h _
  · rename_i habove
    refine sound_gateFrom hs (fun c hc => ?_) _
    rcases List.mem_append.mp hc with hc | hc
    · exact h c hc
    · obtain rfl := List.mem_singleton.mp hc
      intro limit' hlimit'
      obtain rfl := Option.some.inj (hlimit.symm.trans hlimit')
      refine ⟨hfresh, fun _ hday => ?_⟩
      rw [← hnet hday]
      omega

/-- A task after its own step, before the debit. -/
theorem sound_resume [DecidableEq R] {t : BetTask U R} (hs : s.Kept cfg u) (h : t.Sound cfg s) (w : Bool)
    (hphase : ∀ players, t.phase ≠ .debit players) :
    ((wagers cfg).resume w t s).1.Sound cfg s ∧ ((wagers cfg).resume w t s).2 = s := by
  have hpassed := h.passed
  have hsound := h.phase
  unfold wagers
  simp only
  cases hp : t.phase with
  | checkAccount seat =>
    simp only
    split
    · exact ⟨sound_fail hs hpassed _, rfl⟩
    · split
      · exact ⟨⟨hpassed, trivial⟩, rfl⟩
      · exact ⟨⟨hpassed, trivial⟩, rfl⟩
  | checkCompliance seat =>
    simp only
    split
    · exact ⟨sound_fail hs hpassed _, rfl⟩
    · exact ⟨⟨hpassed, trivial⟩, rfl⟩
  | getLimits seat userId =>
    simp only
    split
    · rename_i v limit hlimit
      refine ⟨⟨hpassed, ⟨Nat.le_refl _, Nat.le_refl _, fun _ r hr _ _ => hs.past r hr⟩, hlimit⟩, rfl⟩
    · exact ⟨sound_gateFrom hs hpassed _, rfl⟩
  | sumByTypesSince seat limit check =>
    rw [hp] at hsound
    simp only
    split
    · exact ⟨sound_judge hs hpassed seat hsound.1 hsound.2 fun hday => sumGamblesSince_eq hs.past _ hday, rfl⟩
    · exact ⟨⟨hpassed, hsound⟩, rfl⟩
  | listTransactions seat limit check =>
    rw [hp] at hsound
    exact ⟨sound_judge hs hpassed seat hsound.1 hsound.2 fun _ => netResultToday_eq _ _ _, rfl⟩
  | debit players => exact absurd hp (hphase players)
  | ended => exact ⟨h, rfl⟩

/-! ### The store -/

/-- A row that does not take `u` below his cap. -/
theorem kept_append (h : s.Kept cfg u) (v : U) (type : TransactionType) {cents : ℤ} (hbooked : Casino.Booked type cents)
    (habove : v = u → type = .bet → ∀ limit : ℕ+, cfg.dailyLossLimitCents u = some limit →
      -(limit : ℤ) < dayNet s.ledger u (ResponsibleGaming.dayIndex s.now)) : (s.append v type cents).Kept cfg u where
  past t ht := by
    rcases List.mem_append.mp ht with ht | ht
    · exact h.past t ht
    · rw [List.mem_singleton.mp ht]
      exact Nat.le_refl _
  pay t ht hpay := by
    rcases List.mem_append.mp ht with ht | ht
    · exact h.pay t ht hpay
    · rw [List.mem_singleton.mp ht] at hpay ⊢
      exact hbooked hpay
  seated := h.seated
  once := h.once
  within limit hlimit d := by
    have hd := h.within limit hlimit d
    simp only [Casino.append]
    rw [dayNet_append]
    by_cases hon : StakeRow.onDay (⟨v, type, cents, s.now⟩ : StakeRow U) u d = true
    · rw [if_pos hon]
      have hparts := hon
      simp only [StakeRow.onDay, isGamble, Bool.and_eq_true, Bool.or_eq_true, beq_iff_eq, decide_eq_true_eq] at hparts
      obtain ⟨⟨hv, hbet | hpay⟩, hday⟩ := hparts
      · rw [lastStake_append_bet _ hon hbet]
        have hnet := habove hv hbet limit hlimit
        rw [hday] at hnet
        simp only
        omega
      · rw [lastStake_append_of_not _ (by simp [hpay])]
        have hcents := hbooked hpay
        simp only
        omega
    · rw [if_neg hon, lastStake_append_of_not _ (by simp [hon])]
      omega

/-- The players are debited once each, so only the first debit of `u` counts. -/
theorem kept_debit {players : List U} (hnodup : players.Nodup) {cents : ℕ} (h : s.Kept cfg u)
    (habove : u ∈ players → ∀ limit : ℕ+, cfg.dailyLossLimitCents u = some limit →
      -(limit : ℤ) < dayNet s.ledger u (ResponsibleGaming.dayIndex s.now)) : (s.debit players cents).Kept cfg u := by
  induction players generalizing s with
  | nil => exact h
  | cons v players ih =>
    obtain ⟨hv, hrest⟩ := List.nodup_cons.mp hnodup
    refine ih hrest (kept_append h v .bet (booked_bet _) ?_) ?_
    · rintro rfl -
      exact habove List.mem_cons_self
    · intro hu limit hlimit
      have hne : v ≠ u := fun heq => hv (heq ▸ hu)
      have hnet := habove (List.mem_cons_of_mem v hu) limit hlimit
      simp only [Casino.append]
      rw [dayNet_append, if_neg (by simp [StakeRow.onDay, hne])]
      omega

/-- A bet of `u` that meets the condition finds the day's result above the cap. -/
theorem above_of_undisturbed (h : s.Kept cfg u) {t : BetTask U R} (ht : t.Sound cfg s) {w : Bool}
    (hok : t.Undisturbed u s w) (hw : w = true) (hu : u ∈ t.phase.players)
    {limit : ℕ+} (hlimit : cfg.dailyLossLimitCents u = some limit) :
    -(limit : ℤ) < dayNet s.ledger u (ResponsibleGaming.dayIndex s.now) := by
  obtain ⟨c, hc, rfl, hbets⟩ := hok hw hu
  have hpassed := ht.passed c hc limit hlimit
  by_cases hday : ResponsibleGaming.dayIndex s.now = ResponsibleGaming.dayIndex c.at_
  · rw [hday]
    exact hpassed.above hbets.symm hday
  · -- the check was made on an earlier day, and the user has not bet on this one
    have hnonneg : 0 ≤ dayNet s.ledger c.userId (ResponsibleGaming.dayIndex s.now) := by
      refine dayNet_nonneg h.pay fun r hr hon hbet => ?_
      simp only [StakeRow.onDay, Bool.and_eq_true, decide_eq_true_eq, beq_iff_eq] at hon
      have hold : ResponsibleGaming.dayIndex r.createdAt ≤ ResponsibleGaming.dayIndex c.at_ :=
        Nat.div_le_div_right (hpassed.older hbets.symm r hr hon.1.1 hbet)
      have hlater : ResponsibleGaming.dayIndex c.at_ ≤ ResponsibleGaming.dayIndex s.now :=
        Nat.div_le_div_right hpassed.past
      omega
    have hpos := limit.pos
    omega

omit [DecidableEq U] in
/-- A player who sits down is seated once. -/
theorem once_set {seats : List (Option U)} (h : (seats.filterMap id).Nodup) {v : U} (hv : some v ∉ seats) (i : ℕ) :
    ((seats.set i (some v)).filterMap id).Nodup := by
  induction seats generalizing i with
  | nil => simp
  | cons o seats ih =>
    have hv' : some v ∉ seats := fun hmem => hv (List.mem_cons_of_mem o hmem)
    cases i with
    | zero =>
      have htail : (seats.filterMap id).Nodup := by
        cases o with
        | none => simpa using h
        | some x => exact (List.nodup_cons.mp (by simpa using h)).2
      simpa using ⟨hv', htail⟩
    | succ i =>
      cases o with
      | none => simpa using ih (by simpa using h) hv' i
      | some x =>
        have hx := List.nodup_cons.mp (show (x :: seats.filterMap id).Nodup by simpa using h)
        have hne : x ≠ v := fun heq => hv (heq ▸ List.mem_cons_self)
        have hmem : x ∉ (seats.set i (some v)).filterMap id := by
          intro hmem
          obtain ⟨o, ho, hid⟩ := List.mem_filterMap.mp hmem
          obtain rfl : o = some x := hid
          rcases List.mem_or_eq_of_mem_set ho with ho | ho
          · exact hx.1 (List.mem_filterMap.mpr ⟨some x, ho, rfl⟩)
          · exact hne (Option.some.inj ho)
        simpa using ⟨by simpa using hmem, ih hx.2 hv' i⟩

/-- The rest of the server keeps the cap. -/
theorem kept_drift [DecidableEq R] (h : s.Kept cfg u) (e : CasinoEvent U R) : (s.drift e).Kept cfg u := by
  cases e with
  | clock ms => exact ⟨fun t ht => (h.past t ht).trans (Nat.le_add_right _ _), h.pay, h.seated, h.once, h.within⟩
  | sit v r i =>
    simp only [Casino.drift]
    split
    · rename_i hfree
      -- whoever sits down has no seat elsewhere
      have hout : ∀ r', some v ∉ s.seats r' := by
        intro r' hmem
        rw [h.seated r' v hmem] at hfree
        exact absurd hfree.1 (by simp)
      refine ⟨h.past, h.pay, fun r' x hx => ?_, fun r' => ?_, h.within⟩
      · simp only at hx ⊢
        have hcases : some x = some v ∨ some x ∈ s.seats r' := by
          by_cases hr : r' = r
          · subst hr
            rw [Function.update_self] at hx
            exact (List.mem_or_eq_of_mem_set hx).symm
          · rw [Function.update_of_ne hr] at hx
            exact .inr hx
        by_cases hxv : x = v
        · subst hxv
          rw [Function.update_self]
          by_cases hr : r' = r
          · rw [hr]
          · rw [Function.update_of_ne hr] at hx
            exact absurd hx (hout r')
        · rw [Function.update_of_ne hxv]
          exact h.seated r' x (hcases.resolve_left fun heq => hxv (Option.some.inj heq))
      · simp only
        by_cases hr : r' = r
        · subst hr
          rw [Function.update_self]
          exact once_set (h.once r') (hout r') i
        · rw [Function.update_of_ne hr]
          exact h.once r'
    · exact h
  | leave v =>
    simp only [Casino.drift]
    cases hv : s.roomOf v with
    | none => exact h
    | some r =>
      -- his seats are emptied, the others are as they were
      have hmap : ((s.seats r).map fun o => if o = some v then none else o).filterMap id =
          ((s.seats r).filterMap id).filter (· ≠ v) := by
        induction s.seats r with
        | nil => rfl
        | cons o seats ih =>
          cases o with
          | none => simpa using ih
          | some x =>
            by_cases hx : x = v
            · simpa [hx] using ih
            · simpa [hx] using ih
      refine ⟨h.past, h.pay, fun r' x hx => ?_, fun r' => ?_, h.within⟩
      · simp only at hx ⊢
        by_cases hr : r' = r
        · subst hr
          rw [Function.update_self] at hx
          obtain ⟨o, ho, heq⟩ := List.mem_map.mp hx
          split at heq
          · cases heq
          · rename_i hne
            subst heq
            have hxv : x ≠ v := fun hxv => hne (congrArg some hxv)
            rw [Function.update_of_ne hxv]
            exact h.seated r' x ho
        · rw [Function.update_of_ne hr] at hx
          have hroom := h.seated r' x hx
          have hxv : x ≠ v := by
            rintro rfl
            exact hr (Option.some.inj (hroom.symm.trans hv))
          rw [Function.update_of_ne hxv]
          exact hroom
      · simp only
        by_cases hr : r' = r
        · subst hr
          rw [Function.update_self, hmap]
          exact (h.once r').filter _
        · rw [Function.update_of_ne hr]
          exact h.once r'
  | payout v cents => exact kept_append h v .payout (fun _ => Int.natCast_nonneg cents) fun _ hbet => by cases hbet
  | book v type cents =>
    simp only [Casino.drift]
    split
    · exact h
    · rename_i hgamble
      refine kept_append h v type ?_ ?_
      · rintro rfl
        exact absurd rfl hgamble
      · rintro - rfl
        exact absurd rfl hgamble

/-! ## Runs -/

section Runs

variable [DecidableEq R]

theorem resume_debit {t : BetTask U R} {players : List U} (hphase : t.phase = .debit players) (w : Bool)
    (s : Casino U R) :
    (wagers cfg).resume w t s =
      ({ t with phase := .ended }, if w then s.debit players t.op.stakeCents else s) := by
  simp [wagers, hphase]

/-- One step of a task, and what it keeps of the others. -/
theorem steady_wagers (cfg : Stakes U) (u : U) :
    (wagers (R := R) cfg).Steady (BetTask.Undisturbed u) (Casino.Kept cfg u) (BetTask.Sound cfg) where
  entered s op hs := by
    simp only [wagers]
    split
    · exact ⟨fun _ hc => (List.not_mem_nil hc).elim, trivial⟩
    · exact sound_gateFrom hs (fun _ hc => (List.not_mem_nil hc).elim) 0
  resumed s t w hs ht hok := by
    by_cases hphase : ∃ players, t.phase = .debit players
    · obtain ⟨players, hphase⟩ := hphase
      have hnodup : players.Nodup := by
        have h := ht.phase
        rwa [hphase] at h
      rw [resume_debit hphase]
      simp only
      split
      · rename_i hw
        refine ⟨kept_debit hnodup hs fun hu limit hlimit =>
          above_of_undisturbed hs ht hok hw (by rw [hphase]; exact hu) hlimit, ?_, trivial⟩
        have hsound : ({ t with phase := .ended } : BetTask U R).Sound cfg s := ⟨ht.passed, trivial⟩
        exact (debit_induction (P := fun s => BetTask.Sound cfg s { t with phase := .ended })
          (fun _ v h => sound_append h v .bet (booked_bet _)) _ hsound).passed
      · exact ⟨hs, ht.passed, trivial⟩
    · obtain ⟨hsound, hsame⟩ := sound_resume hs ht w (not_exists.mp hphase)
      rw [hsame]
      exact ⟨hs, hsound⟩
  others s t w other hs ht _ hother := by
    by_cases hphase : ∃ players, t.phase = .debit players
    · obtain ⟨players, hphase⟩ := hphase
      rw [resume_debit hphase]
      simp only
      split
      · exact debit_induction (P := fun s => other.Sound cfg s) (fun _ v h => sound_append h v .bet (booked_bet _)) _ hother
      · exact hother
    · rw [(sound_resume hs ht w (not_exists.mp hphase)).2]
      exact hother
  drifted _ e hs := kept_drift hs e
  drifted_task _ e _ _ ht := sound_drift ht e

omit [DecidableEq R] in
/-- A debit of others is no bet of the player's. -/
theorem bets_debit_of_not_mem {players : List U} (hu : u ∉ players) (cents : ℕ) :
    (s.debit players cents).bets u = s.bets u := by
  induction players generalizing s with
  | nil => rfl
  | cons v players ih =>
    have hne : v ≠ u := fun heq => hu (heq ▸ List.mem_cons_self)
    have hrest := ih (s := s.append v .bet (-cents)) fun hmem => hu (List.mem_cons_of_mem v hmem)
    rw [s.bets_append, if_neg (fun h => hne h.1)] at hrest
    exact hrest

/-- Only a debit of `u` adds to his bets. -/
theorem bets_drift (e : CasinoEvent U R) : (s.drift e).bets u = s.bets u := by
  cases e with
  | clock ms => rfl
  | sit v r i =>
    simp only [Casino.drift]
    split
    · rfl
    · rfl
  | leave v =>
    simp only [Casino.drift]
    cases s.roomOf v with
    | none => rfl
    | some r => rfl
  | payout v cents => simp [Casino.drift, s.bets_append]
  | book v type cents =>
    simp only [Casino.drift]
    split
    · rfl
    · rename_i hgamble
      rw [s.bets_append, if_neg]
      · rfl
      · rintro ⟨-, rfl⟩
        exact hgamble rfl

/-- The day's result a bet of `u` finds, in the step that debits it. -/
theorem above_of_step {st : Crew.State (Casino U R) (BetTask U R)} (hs : st.store.Kept cfg u)
    (ht : ∀ t ∈ st.tasks, t.Sound cfg st.store) {e : Crew.Event (BetOp U R) Bool (CasinoEvent U R)}
    (hok : Crew.Meets (BetTask.Undisturbed u) st e) {limit : ℕ+} (hlimit : cfg.dailyLossLimitCents u = some limit)
    (hbet : st.store.bets u < ((wagers cfg).step st e).store.bets u) :
    -(limit : ℤ) < dayNet st.store.ledger u (ResponsibleGaming.dayIndex st.store.now) := by
  cases e with
  | enter op => exact absurd hbet (Nat.lt_irrefl _)
  | drift e =>
    have hsame : ((wagers cfg).step st (.drift e)).store.bets u = st.store.bets u := bets_drift e
    omega
  | resume k w =>
    rcases (wagers cfg).resume_cases st k w with hsame | ⟨t, hk, hstep⟩
    · rw [hsame] at hbet
      exact absurd hbet (Nat.lt_irrefl _)
    · have htask := ht t (List.mem_of_getElem? hk)
      rw [hstep] at hbet
      by_cases hphase : ∃ players, t.phase = .debit players
      · obtain ⟨players, hphase⟩ := hphase
        rw [resume_debit hphase] at hbet
        by_cases hw : w = true
        · by_cases hu : u ∈ players
          · exact above_of_undisturbed hs htask (hok t hk) hw (by rw [hphase]; exact hu) hlimit
          · rw [if_pos hw] at hbet
            have hsame := bets_debit_of_not_mem (s := st.store) hu t.op.stakeCents
            simp only at hbet
            omega
        · rw [if_neg hw] at hbet
          exact absurd hbet (Nat.lt_irrefl _)
      · rw [(sound_resume hs htask w (not_exists.mp hphase)).2] at hbet
        exact absurd hbet (Nat.lt_irrefl _)

/-- **The daily loss cap holds** in every run in which every debit of the player is preceded by a
check of the same bet since which none of his bets was debited: each of his bets finds the
day's result above the cap, and on no day does the loss exceed what is below the cap by more
than his last stake. -/
theorem loss_cap_holds (cfg : Stakes U) {u : U} {limit : ℕ+} (hlimit : cfg.dailyLossLimitCents u = some limit)
    {s : Casino U R} (hs : s.Kept cfg u) (es : List (Crew.Event (BetOp U R) Bool (CasinoEvent U R)))
    (hg : Guarded (wagers cfg).step (Crew.Meets (BetTask.Undisturbed u)) ⟨s, []⟩ es) :
    Guarded (wagers cfg).step (fun st e => st.store.bets u < ((wagers cfg).step st e).store.bets u →
        -(limit : ℤ) < st.store.net u st.store.now) ⟨s, []⟩ es ∧
      ∀ d, -dayNet (run (wagers cfg).step ⟨s, []⟩ es).store.ledger u d ≤
        (limit : ℤ) - 1 + lastStake (run (wagers cfg).step ⟨s, []⟩ es).store.ledger u d := by
  have hboot : s.Kept cfg u ∧ ∀ t ∈ ([] : List (BetTask U R)), t.Sound cfg s := ⟨hs, by simp⟩
  constructor
  · have hboth : Guarded (wagers cfg).step (fun st e => Crew.Meets (BetTask.Undisturbed u) st e ∧
        (st.store.bets u < ((wagers cfg).step st e).store.bets u → -(limit : ℤ) < st.store.net u st.store.now))
        ⟨s, []⟩ es := by
      refine (guarded_congr ?_ (fun _ _ hinv hok => (steady_wagers cfg u).step hinv hok) hboot es).mp hg
      intro st e hinv
      refine ⟨fun hok => ⟨hok, fun hbet => ?_⟩, fun h => h.1⟩
      rw [Casino.net, netResultToday_eq]
      exact above_of_step hinv.1 hinv.2 hok hlimit hbet
    exact hboth.mono fun _ _ h => h.2
  · intro d
    have hkept := ((steady_wagers cfg u).guarded hboot es hg).1
    have hwithin := hkept.within limit hlimit d
    omega

end Runs

/-- A player (0) with a cap of 100. -/
def capped : Stakes ℕ := { dailyLossLimitCents := fun _ => some 100 }

/-- With no bet, the cap is kept. -/
theorem kept_capped : Casino.Kept capped 0 ({} : Casino ℕ ℕ) where
  past _ h := by cases h
  pay _ h := by cases h
  seated _ _ h := by cases h
  once _ := .nil
  within limit h d := by
    have hpos := limit.pos
    simp only [dayNet, lastStake, List.filter_nil, List.map_nil, List.sum_nil, List.getLast?_nil, Option.map_none,
      Option.getD_none]
    omega

/-- A bet's three awaits, answered. -/
def gates (k : ℕ) : List (Crew.Event (BetOp ℕ ℕ) Bool (CasinoEvent ℕ ℕ)) :=
  [.resume k true, .resume k true, .resume k true]

/-- One registration of 100 after the other: the second is refused. -/
theorem loss_cap_holds_registrations :
    let es := [.enter (.registerTournament 0 100)] ++ gates 0 ++
      [.resume 0 true, .enter (.registerTournament 0 100)] ++ gates 1 ++ [.resume 1 true]
    (run (wagers capped).step ⟨{}, []⟩ es).store.bets 0 = 1 ∧
      ∀ d, -dayNet (run (wagers capped).step ⟨{}, []⟩ es).store.ledger 0 d ≤
        (100 : ℤ) - 1 + lastStake (run (wagers capped).step ⟨{}, []⟩ es).store.ledger 0 d := by
  exact ⟨by decide, (loss_cap_holds capped rfl kept_capped _ (by decide)).2⟩

/-- Two registrations of 100 side by side: both read the empty ledger before either is debited. -/
theorem loss_cap_exceeded :
    let es := [.enter (.registerTournament 0 100), .enter (.registerTournament 0 100)] ++ gates 0 ++ gates 1 ++
      [.resume 0 true, .resume 1 true]
    dayNet (run (wagers capped).step ⟨({} : Casino ℕ ℕ), []⟩ es).store.ledger 0 0 = -200 ∧
      ¬ Guarded (wagers capped).step (fun st e => st.store.bets 0 < ((wagers capped).step st e).store.bets 0 →
        -(100 : ℤ) < st.store.net 0 st.store.now) ⟨({} : Casino ℕ ℕ), []⟩ es := by
  decide

end Murlan
