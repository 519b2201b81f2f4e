import Murlan.Proof.DepositWebhook

/-!
# A retried deposit webhook

* `Replays`: a delivery of a payment that is booked. `Replays.resume`: it stays one, and is answered as a
  replay, unless `checkDeposit` finds the day's deposits, its own among them, beyond the limit.
* `answers`: no request is stuck. Each link of a chain settles, in the order in which they joined.
* `webhook_replay_iff`: when a retried webhook is answered as a replay.
-/

namespace Murlan

variable {U P T : Type} [DecidableEq U] [DecidableEq P] [DecidableEq T]

namespace DepositDesk

variable {s s' : DepositDesk U P T} {t u : DepositTask U P T} {own : Option ℕ}

/-! ## A delivery that comes after its credit -/

/-- The credit of a payment. -/
def creditOf (p : P) (intent : DepositIntent U) : DepositCredit U P T :=
  { userId := intent.userId, amountCents := intent.amountCents, providerRef := .payment p }

/-- Where such a delivery may stand: it never adds up the deposits of the day within `credit`, and never moves
the balance. -/
def Replaying (s : DepositDesk U P T) (p : P) (intent : DepositIntent U) : DepositWait U P T → Prop
  | .findIntent d => d.providerRef = p ∧ d.amountCents = intent.amountCents
  | .checkLimit c | .checkDeposits c _ _ | .getLimits c | .queued c _ | .findById c _ | .findByProviderRef c _ _
  | .appendIdempotent c _ | .balanceOf c => c = creditOf p intent
  | .sumDeposits _ _ _ _ | .adjustBalance _ => False
  | .answered reply => (∃ b, reply = .ok true b) ∨ (reply = .intentExpired ∧ intent.createdAt + INTENT_TTL_MS < s.now)

/-- The delivery repeats a payment that is booked. -/
structure Replays (p : P) (intent : DepositIntent U) (s : DepositDesk U P T) (t : DepositTask U P T) : Prop where
  recorded : s.intents p = some intent
  booked : s.hasRef (.payment p) = true
  wait : s.Replaying p intent t.wait

/-- Where `checkDeposit` counts the deposits of the day, they and the deposit are within the limit. -/
def withinLimit (cfg : DepositServer) (s : DepositDesk U P T) (t : DepositTask U P T) : Bool :=
  match t.wait with
  | .checkDeposits c limit at_ => decide (s.depositsTodayCents cfg c.userId at_ + c.amountCents ≤ limit)
  | _ => true

variable {p : P} {intent : DepositIntent U} {cfg : DepositServer}

omit [DecidableEq U] [DecidableEq P] [DecidableEq T] in
/-- A replay stays one as time goes on. -/
theorem Replaying.later (hnow : s.now ≤ s'.now) {w : DepositWait U P T} (h : s.Replaying p intent w) :
    s'.Replaying p intent w := by
  cases w with
  | answered reply =>
    rcases h with hok | ⟨hexpired, hlate⟩
    · exact .inl hok
    · exact .inr ⟨hexpired, hlate.trans_le hnow⟩
  | _ => exact h

omit [DecidableEq U] in
/-- The user of a booked payment is known, and its amount is one that is accepted. -/
theorem Booked.payment (hs : s.Booked) (hintent : s.intents p = some intent) (href : s.hasRef (.payment p) = true) :
    Creditable intent.amountCents ∧ ∃ b, s.balance intent.userId = some b := by
  obtain ⟨r, hr, hr'⟩ := hasRef_iff.mp href
  obtain ⟨intent', hintent', huser, hamount⟩ := hs.payments r hr p hr'
  obtain rfl := Option.some.inj (hintent.symm.trans hintent')
  exact ⟨hamount ▸ hs.amounts r hr, Option.isSome_iff_exists.mp (huser ▸ hs.users r hr)⟩

/-- **Step.** Within the limit a delivery of a booked payment stays one that will be answered as a replay. -/
theorem Replays.resume (hs : s.Booked) (h : s.Replays p intent t) (hok : s.withinLimit cfg t = true) :
    (t.resume s cfg).2.Replays p intent (t.resume s cfg).1 := by
  obtain ⟨hamount, b, hbalance⟩ := hs.payment h.recorded h.booked
  have hgrows := DepositTask.resume_grows t s cfg
  refine ⟨hgrows.intents p intent h.recorded, hgrows.hasRef h.booked, ?_⟩
  refine Replaying.later hgrows.now ?_
  -- the amount was accepted once, so it is again
  have hcredit : ∀ cap, s.Replaying p intent (t.credit s (creditOf p intent) cap).1.wait := by
    intro cap
    have haccepted : 0 < (creditOf (T := T) p intent).amountCents ∧ (creditOf (T := T) p intent).amountCents ≤ maxAmountCents :=
      hamount
    unfold DepositTask.credit
    rw [if_pos haccepted]
    cases cap <;> exact rfl
  have hwait := h.wait
  unfold DepositTask.resume
  split
  · rename_i d heq
    rw [heq] at hwait
    obtain ⟨rfl, hsame⟩ := hwait
    rw [h.recorded]
    dsimp only
    rw [if_neg (not_not.mpr hsame)]
    split
    · exact .inr ⟨rfl, ‹_›⟩
    · split
      · exact rfl
      · exact hcredit none
  · rename_i c heq
    rw [heq] at hwait
    split <;> exact hwait
  -- the limit is looked at before the reference is
  · rename_i c limit at_ heq
    rw [heq] at hwait
    unfold withinLimit at hok
    rw [heq] at hok
    rw [if_neg (Nat.not_lt.mpr (of_decide_eq_true hok))]
    exact hwait
  · rename_i c heq
    rw [heq] at hwait
    obtain rfl := hwait
    exact hcredit _
  · rename_i c cap heq
    split
    · exact h.wait
    · split
      · rw [heq] at hwait
        exact hwait
      · exact h.wait
  · rename_i c cap heq
    rw [heq] at hwait
    obtain rfl := hwait
    have hb : s.balance (creditOf (T := T) p intent).userId = some b := hbalance
    rw [hb]
    cases cap <;> exact rfl
  · rename_i c cap current heq
    rw [heq] at hwait
    obtain rfl := hwait
    rw [if_pos (show s.hasRef (creditOf p intent).providerRef = true from h.booked)]
    exact rfl
  · rename_i heq
    rw [heq] at hwait
    exact hwait.elim
  · rename_i c current heq
    rw [heq] at hwait
    obtain rfl := hwait
    unfold DepositTask.append
    rw [if_pos (show s.hasRef (creditOf p intent).providerRef = true from h.booked)]
    exact rfl
  · rename_i heq
    rw [heq] at hwait
    exact hwait.elim
  · rename_i c heq
    rw [heq] at hwait
    obtain rfl := hwait
    exact .inl ⟨_, rfl⟩
  · exact h.wait

omit [DecidableEq U] in
theorem Replays.grows (h : s.Replays p intent u) (hg : s.Grows own s') : s'.Replays p intent u :=
  ⟨hg.intents p intent h.recorded, hg.hasRef h.booked, h.wait.later hg.now⟩

omit [DecidableEq U] [DecidableEq P] [DecidableEq T] in
@[simp] theorem answer_unchanged (reply : DepositReply) :
    (t.answer s reply).2.balance = s.balance ∧ (t.answer s reply).2.ledger = s.ledger := by
  unfold DepositTask.answer
  dsimp only
  split <;> exact ⟨rfl, rfl⟩

/-- It changes neither a balance nor the ledger. -/
theorem Replays.unchanged (h : s.Replays p intent t) (cfg : DepositServer) :
    (t.resume s cfg).2.balance = s.balance ∧ (t.resume s cfg).2.ledger = s.ledger := by
  have hcredit : ∀ c cap, (t.credit s c cap).2.balance = s.balance ∧ (t.credit s c cap).2.ledger = s.ledger := by
    intro c cap
    unfold DepositTask.credit
    split
    · cases cap <;> exact ⟨rfl, rfl⟩
    · exact answer_unchanged _
  have hwait := h.wait
  unfold DepositTask.resume
  split
  · split
    · exact answer_unchanged _
    · split
      · exact answer_unchanged _
      · split
        · exact answer_unchanged _
        · split
          · exact ⟨rfl, rfl⟩
          · exact hcredit _ _
  · split <;> exact ⟨rfl, rfl⟩
  · split
    · exact answer_unchanged _
    · exact ⟨rfl, rfl⟩
  · exact hcredit _ _
  · split
    · exact ⟨rfl, rfl⟩
    · split <;> exact ⟨rfl, rfl⟩
  · split
    · exact answer_unchanged _
    · exact ⟨rfl, rfl⟩
    · exact ⟨rfl, rfl⟩
  · split <;> exact ⟨rfl, rfl⟩
  · split
    · exact answer_unchanged _
    · exact ⟨rfl, rfl⟩
  · rename_i c current heq
    rw [heq] at hwait
    obtain rfl := hwait
    unfold DepositTask.append
    rw [if_pos (show s.hasRef (creditOf p intent).providerRef = true from h.booked)]
    exact ⟨rfl, rfl⟩
  · rename_i heq
    rw [heq] at hwait
    exact hwait.elim
  · exact answer_unchanged _
  · exact ⟨rfl, rfl⟩

theorem resume_answered {reply : DepositReply} (h : t.wait = .answered reply) (cfg : DepositServer) :
    t.resume s cfg = (t, s) := by
  unfold DepositTask.resume
  rw [h]

/-- The deposits of the day and the deposit exceed the limit: the request is refused. -/
theorem resume_refused (h : ¬s.withinLimit cfg t = true) : (t.resume s cfg).1.wait = .answered .depositLimit := by
  unfold withinLimit at h
  split at h
  · rename_i c limit at_ hwait
    unfold DepositTask.resume
    rw [hwait]
    dsimp only
    rw [if_pos (Nat.lt_of_not_le fun hle => h (decide_eq_true hle))]
    rfl
  · exact absurd rfl h

/-- What a delivery of a booked payment keeps while it meets no limit. -/
theorem replays_followed (cfg : DepositServer) (p : P) (intent : DepositIntent U) :
    (depositDesk (T := T) cfg).Followed (fun s t _ => s.withinLimit cfg t = true) Booked Bound (Replays p intent) where
  own _ _ _ hs _ h hok := h.resume hs hok
  others s t _ _ _ _ h := h.grows (DepositTask.resume_grows t s cfg)
  drifted s d _ h := h.grows (drift_grows s d)

/-- A refused request stays refused. -/
theorem refused_followed (cfg : DepositServer) : (depositDesk (U := U) (P := P) (T := T) cfg).Followed (fun _ _ _ => True)
    Booked Bound (fun _ t => t.wait = .answered .depositLimit) where
  own s t _ _ _ h _ := by
    show (t.resume s cfg).1.wait = _
    rw [resume_answered h cfg]
    exact h
  others _ _ _ _ _ _ h := h
  drifted _ _ _ h := h

/-! ## Every request can be answered -/

omit [DecidableEq U] [DecidableEq P] [DecidableEq T] in
theorem answer_link (reply : DepositReply) :
    (t.answer s reply).1.link = t.link ∧ (t.answer s reply).2.depositChain.count = s.depositChain.count := by
  unfold DepositTask.answer
  refine ⟨rfl, ?_⟩
  dsimp only
  split
  · rfl
  · exact PromiseChains.settle_count

/-- A request keeps its link, or takes the next one as it joins. -/
theorem resume_link (t : DepositTask U P T) (s : DepositDesk U P T) (cfg : DepositServer) :
    (t.resume s cfg).1.link = t.link ∧ (t.resume s cfg).2.depositChain.count = s.depositChain.count ∨
      t.wait.stage < 4 ∧ (t.resume s cfg).1.link = some s.depositChain.count ∧
        (t.resume s cfg).2.depositChain.count = s.depositChain.count + 1 := by
  -- only a capped credit joins the chain
  have hcredit : ∀ c cap, t.wait.stage < 4 →
      (t.credit s c cap).1.link = t.link ∧ (t.credit s c cap).2.depositChain.count = s.depositChain.count ∨
        t.wait.stage < 4 ∧ (t.credit s c cap).1.link = some s.depositChain.count ∧
          (t.credit s c cap).2.depositChain.count = s.depositChain.count + 1 := by
    intro c cap hstage
    unfold DepositTask.credit
    split
    · cases cap with
      | none => exact .inl ⟨rfl, rfl⟩
      | some cap => exact .inr ⟨hstage, rfl, rfl⟩
    · exact .inl (answer_link _)
  unfold DepositTask.resume
  split
  · rename_i hwait
    split
    · exact .inl (answer_link _)
    · split
      · exact .inl (answer_link _)
      · split
        · exact .inl (answer_link _)
        · split
          · exact .inl ⟨rfl, rfl⟩
          · exact hcredit _ _ (by rw [hwait]; simp)
  · split <;> exact .inl ⟨rfl, rfl⟩
  · split
    · exact .inl (answer_link _)
    · exact .inl ⟨rfl, rfl⟩
  · rename_i hwait
    exact hcredit _ _ (by rw [hwait]; simp)
  · split
    · exact .inl ⟨rfl, rfl⟩
    · split
      · exact .inl ⟨rfl, PromiseChains.start_count⟩
      · exact .inl ⟨rfl, rfl⟩
  · split
    · exact .inl (answer_link _)
    · exact .inl ⟨rfl, rfl⟩
    · exact .inl ⟨rfl, rfl⟩
  · split <;> exact .inl ⟨rfl, rfl⟩
  · split
    · exact .inl (answer_link _)
    · exact .inl ⟨rfl, rfl⟩
  · unfold DepositTask.append
    split
    · exact .inl ⟨rfl, rfl⟩
    · split
      · split <;> exact .inl (answer_link _)
      · split
        · split
          · exact .inl (answer_link _)
          · rename_i moved hmoved
            exact .inl ⟨rfl, (answer_link _).2.trans (by rw [adjustBalance_eq hmoved]; rfl)⟩
        · exact .inl ⟨rfl, rfl⟩
  · split
    · exact .inl (answer_link _)
    · rename_i moved hmoved
      exact .inl ⟨rfl, (answer_link _).2.trans (by rw [adjustBalance_eq hmoved])⟩
  · exact .inl (answer_link _)
  · exact .inl ⟨rfl, rfl⟩

/-- A request that is not waiting for its link gets on. -/
theorem resume_stage (t : DepositTask U P T) (s : DepositDesk U P T) (cfg : DepositServer) (hopen : t.wait.stage ≠ 10)
    (hready : t.wait.stage = 4 → ∃ i, t.link = some i ∧ s.depositChain.ready i = true) :
    t.wait.stage < (t.resume s cfg).1.wait.stage := by
  -- an answer is the last stage
  have hanswer : ∀ s' reply, t.wait.stage < (t.answer s' reply).1.wait.stage := by
    intro s' reply
    have hle := t.wait.stage_le
    show t.wait.stage < 10
    omega
  have hcredit : ∀ c cap, t.wait.stage < 4 → t.wait.stage < (t.credit s c cap).1.wait.stage := by
    intro c cap hstage
    unfold DepositTask.credit
    split
    · cases cap with
      | none => exact hstage.trans (by simp)
      | some cap => exact hstage
    · exact hanswer s _
  unfold DepositTask.resume
  split
  -- one goal for each wait: each goes on or answers
  · rename_i hwait
    split
    · exact hanswer s _
    · split
      · exact hanswer s _
      · split
        · exact hanswer s _
        · split
          · rw [hwait]
            simp
          · exact hcredit _ _ (by rw [hwait]; simp)
  · rename_i hwait
    rw [hwait]
    split <;> simp
  · rename_i hwait
    split
    · exact hanswer s _
    · rw [hwait]
      simp
  · rename_i hwait
    exact hcredit _ _ (by rw [hwait]; simp)
  · rename_i hwait
    obtain ⟨i, hlink, hi⟩ := hready (by rw [hwait]; rfl)
    rw [hlink]
    dsimp only
    rw [if_pos hi, hwait]
    simp
  · rename_i hwait
    split
    · exact hanswer s _
    · rw [hwait]
      simp
    · rw [hwait]
      simp
  · rename_i hwait
    rw [hwait]
    split <;> simp
  · rename_i hwait
    split
    · exact hanswer s _
    · rw [hwait]
      simp
  · rename_i hwait
    unfold DepositTask.append
    split
    · rw [hwait]
      simp
    · split
      · exact hanswer _ _
      · split
        · split
          · exact hanswer s _
          · exact hanswer _ _
        · rw [hwait]
          simp
  · split
    · exact hanswer s _
    · exact hanswer _ _
  · exact hanswer s _
  · rename_i hwait
    exact absurd (by rw [hwait]; rfl) hopen

/-- A link that has not settled. -/
def Owes (s : DepositDesk U P T) (i : ℕ) : Prop := i < s.depositChain.count ∧ s.depositChain.settled i = false

/-- The request that holds a link. -/
def Serves (t : DepositTask U P T) (i : ℕ) : Prop := t.link = some i

/-- The desk, its requests, and a request for each link that has not settled. -/
structure Fit (s : Crew.State (DepositDesk U P T) (DepositTask U P T)) : Prop where
  holds : Crew.Holds Booked Bound Apart s
  covered : Crew.Covered Owes Serves s

omit [DecidableEq T] in
theorem drift_count (s : DepositDesk U P T) (d : DepositDrift U P) :
    (s.drift d).depositChain.count = s.depositChain.count := by
  unfold drift
  split
  · rfl
  · split <;> rfl
  · rfl
  · split
    · rfl
    · rename_i hmoved
      rw [adjustBalance_eq hmoved]
  · exact PromiseChains.prune_count

/-- Every link owed has a delivery that serves it. -/
theorem repaid (cfg : DepositServer) : (depositDesk (U := U) (P := P) (T := T) cfg).Repaid (fun _ _ _ => True)
    Booked Bound Owes Serves where
  resumed s t w i _ ht _ howes := by
    have hgrows := DepositTask.resume_grows t s cfg
    show Serves (t.resume s cfg).1 i ∨ _
    have howes' : Owes (t.resume s cfg).2 i := howes
    by_cases hown : t.link = some i
    · rcases resume_link t s cfg with ⟨hlink, -⟩ | ⟨hstage, -, -⟩
      · exact .inl (hlink.trans hown)
      · exact absurd (ht.link i hown).2.1 (by omega)
    · rcases Nat.lt_or_ge i s.depositChain.count with hlt | hge
      · exact .inr ⟨⟨hlt, (hgrows.settled i hlt hown).symm.trans howes'.2⟩, hown⟩
      · -- a link that is new is that of the request
        rcases resume_link t s cfg with ⟨-, hcount⟩ | ⟨-, hlink, hcount⟩
        · exact absurd howes'.1 (by omega)
        · have hi : i = s.depositChain.count := by
            have := howes'.1
            omega
          exact .inl (hlink.trans (by rw [hi]))
  drifted s d i howes := by
    obtain ⟨hlt, hopen⟩ : Owes (s.drift d) i := howes
    rw [drift_count] at hlt
    exact ⟨hlt, ((drift_grows s d).settled i hlt (by simp)).symm.trans hopen⟩

/-- **Step.** -/
theorem Fit.step {S : Crew.State (DepositDesk U P T) (DepositTask U P T)} (h : Fit S) (cfg : DepositServer)
    (e : Crew.Event (DepositOp U P T) Unit (DepositDrift U P)) : Fit ((depositDesk cfg).step S e) := by
  have hok : Crew.Meets (fun _ _ _ => True) S e := by cases e <;> simp [Crew.Meets]
  exact ⟨(paired cfg).step h.holds (Crew.meetsBeside_of_meets hok), (repaid cfg).step h.holds.store h.holds.task h.covered hok⟩

theorem Fit.run {S : Crew.State (DepositDesk U P T) (DepositTask U P T)} (h : Fit S) (cfg : DepositServer)
    (es : List (Crew.Event (DepositOp U P T) Unit (DepositDrift U P))) : Fit (run (depositDesk cfg).step S es) :=
  run_inv (fun _ e h => h.step cfg e) h es

/-- Only requests go on. -/
def Resumes (_ : Crew.State (DepositDesk U P T) (DepositTask U P T))
    (e : Crew.Event (DepositOp U P T) Unit (DepositDrift U P)) : Prop := ∃ k, e = .resume k ()

variable {S S' : Crew.State (DepositDesk U P T) (DepositTask U P T)} {k : ℕ}

/-- A request that goes on, as the only one. -/
theorem reaches_resume (cfg : DepositServer) (hk : S.tasks[k]? = some t) :
    ∃ S', Reaches (depositDesk cfg).step Resumes S S' ∧ S'.tasks[k]? = some (t.resume S.store cfg).1 := by
  refine ⟨_, Reaches.single (e := .resume k ()) ⟨k, rfl⟩, ?_⟩
  rw [Crew.resume_eq _ hk]
  exact List.getElem?_set_self (List.getElem?_eq_some_iff.mp hk).1

theorem Fit.reaches (h : Fit S) {cfg : DepositServer} (hreach : Reaches (depositDesk cfg).step Resumes S S') : Fit S' :=
  hreach.inv (fun _ e h _ => h.step cfg e) h

/-- A request that holds its link, or has none, gets its answer. -/
theorem answered_of_held (cfg : DepositServer) (h : Fit S) (hk : S.tasks[k]? = some t) (hstage : 5 ≤ t.wait.stage) :
    ∃ S' t', Reaches (depositDesk cfg).step Resumes S S' ∧ S'.tasks[k]? = some t' ∧ t'.wait.stage = 10 ∧ t'.link = t.link := by
  obtain ⟨n, hn⟩ : ∃ n, n = 10 - t.wait.stage := ⟨_, rfl⟩
  induction n using Nat.strong_induction_on generalizing S t with
  | _ n ih =>
    have hle := t.wait.stage_le
    by_cases hdone : t.wait.stage = 10
    · exact ⟨S, t, .refl S, hk, hdone, rfl⟩
    · obtain ⟨S₁, hreach, hk₁⟩ := reaches_resume cfg hk
      have hmore := resume_stage t S.store cfg hdone (fun h4 => absurd h4 (by omega))
      have hlink : (t.resume S.store cfg).1.link = t.link := by
        rcases resume_link t S.store cfg with ⟨hlink, -⟩ | ⟨hearly, -⟩
        · exact hlink
        · omega
      obtain ⟨S', t', hreach', hk', hten, hlink'⟩ := ih _ (by omega) (h.reaches hreach) hk₁ (by omega) rfl
      exact ⟨S', t', hreach.trans hreach', hk', hten, hlink'.trans hlink⟩

/-- A link whose turn it is settles. -/
theorem settles_of_turn (cfg : DepositServer) {i : ℕ} (h : Fit S) (hi : i < S.store.depositChain.count)
    (hturn : ∀ p, S.store.depositChain.prev i = some p → S.store.depositChain.settled p = true) :
    ∃ S', Reaches (depositDesk cfg).step Resumes S S' ∧ S'.store.depositChain.settled i = true := by
  cases hopen : S.store.depositChain.settled i with
  | true => exact ⟨S, .refl S, hopen⟩
  | false =>
    obtain ⟨t, ht, hlink⟩ := h.covered i ⟨hi, hopen⟩
    obtain ⟨k, hk⟩ := List.mem_iff_getElem?.mp ht
    have hlink : t.link = some i := hlink
    -- once the request holds the link, its answer settles it
    have hheld : ∀ {S₁ : Crew.State (DepositDesk U P T) (DepositTask U P T)} {t₁}, Fit S₁ → S₁.tasks[k]? = some t₁ →
        t₁.link = some i → 5 ≤ t₁.wait.stage →
        ∃ S', Reaches (depositDesk cfg).step Resumes S₁ S' ∧ S'.store.depositChain.settled i = true := by
      intro S₁ t₁ h₁ hk₁ hlink₁ hstage₁
      obtain ⟨S', t', hreach, hk', hten, hlink'⟩ := answered_of_held cfg h₁ hk₁ hstage₁
      have hbound := (h₁.reaches hreach).holds.task t' (List.mem_of_getElem? hk')
      exact ⟨S', hreach, (hbound.link i (hlink'.trans hlink₁)).2.2.2.mpr hten⟩
    obtain ⟨-, hfour, hbegun, hsettled⟩ := (h.holds.task t ht).link i hlink
    rcases Nat.lt_or_eq_of_le hfour with hfive | hfour
    · exact hheld h hk hlink hfive
    · have hidle : S.store.depositChain.begun i = false := by
        rw [← Bool.not_eq_true, hbegun]
        omega
      have hready : S.store.depositChain.ready i = true := by
        unfold PromiseChains.ready
        rw [decide_eq_true hi, hidle]
        cases hprev : S.store.depositChain.prev i with
        | none => rfl
        | some p => exact hturn p hprev
      obtain ⟨S₁, hreach, hk₁⟩ := reaches_resume cfg hk
      have hmore := resume_stage t S.store cfg (by omega) (fun _ => ⟨i, hlink, hready⟩)
      have hlink₁ : (t.resume S.store cfg).1.link = some i := by
        rcases resume_link t S.store cfg with ⟨hsame, -⟩ | ⟨hearly, -⟩
        · exact hsame.trans hlink
        · omega
      obtain ⟨S', hreach', hdone⟩ := hheld (h.reaches hreach) hk₁ hlink₁ (by omega)
      exact ⟨S', hreach.trans hreach', hdone⟩

/-- Every link settles: by induction on the order in which they joined. -/
theorem settles (cfg : DepositServer) (i : ℕ) (h : Fit S) (hi : i < S.store.depositChain.count) :
    ∃ S', Reaches (depositDesk cfg).step Resumes S S' ∧ S'.store.depositChain.settled i = true := by
  induction i using Nat.strong_induction_on generalizing S with
  | _ i ih =>
    cases hprev : S.store.depositChain.prev i with
    | none => exact settles_of_turn cfg h hi fun p hp => absurd (hprev.symm.trans hp) (by simp)
    | some p =>
      have hbefore := h.holds.store.ordered.earlier i p hprev
      obtain ⟨S₁, hreach, hsettled⟩ := ih p hbefore h (hbefore.trans hi)
      -- the link before it stays the one before it
      have hkept : i < S₁.store.depositChain.count ∧ S₁.store.depositChain.prev i = some p := by
        refine hreach.inv (P := fun S => i < S.store.depositChain.count ∧ S.store.depositChain.prev i = some p)
          (fun S e hS hok => ?_) ⟨hi, hprev⟩
        obtain ⟨k, rfl⟩ := hok
        rcases (depositDesk cfg).resume_cases S k () with hsame | ⟨t, -, hstep⟩
        · rw [hsame]
          exact hS
        · rw [hstep]
          have hgrows := DepositTask.resume_grows t S.store cfg
          exact ⟨hS.1.trans_le hgrows.count, (hgrows.prev i hS.1).trans hS.2⟩
      obtain ⟨S', hreach', hdone⟩ := settles_of_turn cfg (h.reaches hreach) hkept.1 fun q hq => by
        obtain rfl := Option.some.inj (hkept.2.symm.trans hq)
        exact hsettled
      exact ⟨S', hreach.trans hreach', hdone⟩

/-- A link is kept. -/
theorem link_followed (cfg : DepositServer) (i : ℕ) : (depositDesk (U := U) (P := P) (T := T) cfg).Followed (fun _ _ _ => True)
    Booked Bound (fun _ t => t.link = some i) where
  own s t _ _ ht hlink _ := by
    show (t.resume s cfg).1.link = some i
    rcases resume_link t s cfg with ⟨hsame, -⟩ | ⟨hearly, -⟩
    · exact hsame.trans hlink
    · exact absurd (ht.link i hlink).2.1 (by omega)
  others _ _ _ _ _ _ h := h
  drifted _ _ _ h := h

/-- **No request is stuck.** The requests can go on so that a given one is answered. -/
theorem answers (cfg : DepositServer) (h : Fit S) (hk : S.tasks[k]? = some t) :
    ∃ S' t' reply, Reaches (depositDesk cfg).step Resumes S S' ∧ S'.tasks[k]? = some t' ∧ t'.wait = .answered reply := by
  obtain ⟨n, hn⟩ : ∃ n, n = 10 - t.wait.stage := ⟨_, rfl⟩
  induction n using Nat.strong_induction_on generalizing S t with
  | _ n ih =>
    have hle := t.wait.stage_le
    by_cases hdone : t.wait.stage = 10
    · obtain ⟨reply, hreply⟩ := DepositWait.answered_of_stage hdone
      exact ⟨S, t, reply, .refl S, hk, hreply⟩
    · by_cases hqueued : t.wait.stage = 4
      · have hbound := h.holds.task t (List.mem_of_getElem? hk)
        obtain ⟨i, hlink⟩ := Option.ne_none_iff_exists'.mp (hbound.queued hqueued)
        obtain ⟨S₁, hreach, hsettled⟩ := settles cfg i h (hbound.link i hlink).1
        obtain ⟨es, hes, rfl⟩ := id hreach
        have hall : Guarded (depositDesk cfg).step (Crew.MeetsAt (fun _ _ _ => True) k) S es :=
          guarded_of_forall _ fun e _ s => by cases e <;> simp [Crew.MeetsAt]
        obtain ⟨t₁, hk₁, hlink₁⟩ := (link_followed cfg i).guarded (paired cfg) h.holds ⟨t, hk, hlink⟩ hall
        have hten := (((h.reaches hreach).holds.task t₁ (List.mem_of_getElem? hk₁)).link i hlink₁).2.2.2.mp hsettled
        obtain ⟨reply, hreply⟩ := DepositWait.answered_of_stage hten
        exact ⟨_, t₁, reply, hreach, hk₁, hreply⟩
      · obtain ⟨S₁, hreach, hk₁⟩ := reaches_resume cfg hk
        have hmore := resume_stage t S.store cfg hdone (fun h4 => absurd h4 hqueued)
        obtain ⟨S', t', reply, hreach', hk', hreply⟩ := ih _ (by omega) (h.reaches hreach) hk₁ rfl
        exact ⟨S', t', reply, hreach.trans hreach', hk', hreply⟩

/-! ## Every run -/

omit [DecidableEq U] [DecidableEq P] [DecidableEq T] in
theorem fit_boot (now : ℕ) (balance : U → Option ℤ) (limits : U → Option ℕ) :
    Fit (boot (P := P) (T := T) now balance limits) where
  holds :=
    { store := by
        refine ⟨PromiseChains.ordered_empty, List.nodup_nil, ?_, ?_, ?_⟩ <;>
          exact fun r hr => absurd hr List.not_mem_nil
      task := fun t ht => absurd ht List.not_mem_nil
      pair := fun i j t u _ hi => by cases hi }
  covered := fun i hi => absurd hi.1 (Nat.not_lt_zero i)

omit [DecidableEq U] in
/-- No two rows have one reference. -/
theorem Booked.once (hs : s.Booked) (ref : DepositRef P T) :
    (s.ledger.filter fun r => r.providerRef = ref).length ≤ 1 := by
  have hcount := List.nodup_iff_count_le_one.mp hs.refs ref
  rw [List.count, List.countP_map, List.countP_eq_length_filter] at hcount
  refine le_of_eq_of_le (congrArg List.length (List.filter_congr fun r _ => ?_)) hcount
  exact (beq_eq_decide r.providerRef ref).symm

/-- **A retried webhook.** Over every run of webhooks, claims, limits and other movements, in any order of their
steps: a payment is credited once at most, to the user and with the amount of its intent. A delivery that comes after
the credit changes neither a balance nor the ledger, and the requests can always go on so that it is answered. It is
answered as a replay, or as expired after the intent's lifetime, exactly if at its look at the day's deposits
they, with the deposit counted once more, are within the limit. -/
theorem webhook_replay_iff (cfg : DepositServer) (now : ℕ) (balance : U → Option ℤ) (limits : U → Option ℕ)
    (es : List (Crew.Event (DepositOp U P T) Unit (DepositDrift U P))) :
    let S := run (depositDesk cfg).step (boot now balance limits) es
    ∀ p intent, S.store.intents p = some intent →
      ((S.store.ledger.filter fun r => r.providerRef = .payment p).length ≤ 1 ∧
        ∀ r ∈ S.store.ledger, r.providerRef = .payment p → r.userId = intent.userId ∧ r.amountCents = intent.amountCents) ∧
      (S.store.hasRef (.payment p) = true → ∀ fs,
        let k := S.tasks.length
        let S₀ := (depositDesk cfg).step S (.enter (intent.delivery p))
        let S' := run (depositDesk cfg).step S₀ fs
        (∀ gs hs, fs = gs ++ .resume k () :: hs →
          ((depositDesk cfg).step (run (depositDesk cfg).step S₀ gs) (.resume k ())).store.balance =
              (run (depositDesk cfg).step S₀ gs).store.balance ∧
            ((depositDesk cfg).step (run (depositDesk cfg).step S₀ gs) (.resume k ())).store.ledger =
              (run (depositDesk cfg).step S₀ gs).store.ledger) ∧
        (∃ S'' t reply, Reaches (depositDesk cfg).step Resumes S' S'' ∧ S''.tasks[k]? = some t ∧ t.wait = .answered reply) ∧
        ((∀ t reply, S'.tasks[k]? = some t → t.wait = .answered reply →
            (∃ b, reply = .ok true b) ∨ reply = .intentExpired ∧ intent.createdAt + INTENT_TTL_MS < S'.store.now) ↔
          Guarded (depositDesk cfg).step (Crew.MeetsAt (fun s t _ => s.withinLimit cfg t = true) k) S₀ fs)) := by
  intro S p intent hintent
  -- what every reached state satisfies
  have hfit : Fit S := (fit_boot now balance limits).run cfg es
  have hbooked := hfit.holds.store
  refine ⟨⟨hbooked.once _, fun r hr href => ?_⟩, fun href fs => ?_⟩
  · obtain ⟨intent', hintent', hsame⟩ := hbooked.payments r hr p href
    obtain rfl := Option.some.inj (hintent.symm.trans hintent')
    exact hsame
  · intro k S₀ S'
    have hfit₀ : Fit S₀ := hfit.step cfg _
    -- the repeated delivery starts out as one
    have hnew : ∃ t, S₀.tasks[k]? = some t ∧ S₀.store.Replays p intent t := by
      refine ⟨_, List.getElem?_concat_length, hintent, href, ?_⟩
      exact ⟨rfl, rfl⟩
    -- it stays one, or it has been refused by the limit
    have hdecides := fun gs => (replays_followed cfg p intent).decides (refused_followed cfg) (paired cfg)
      (fun s t w _ _ _ hnot => resume_refused hnot) gs hfit₀.holds hnew
    refine ⟨fun gs hs _ => ?_, ?_, ?_⟩
    · -- a delivery that was refused is at rest
      have hsame : ∀ t, (run (depositDesk cfg).step S₀ gs).tasks[k]? = some t →
          (t.resume (run (depositDesk cfg).step S₀ gs).store cfg).2.balance = (run (depositDesk cfg).step S₀ gs).store.balance ∧
            (t.resume (run (depositDesk cfg).step S₀ gs).store cfg).2.ledger =
              (run (depositDesk cfg).step S₀ gs).store.ledger := by
        intro t ht
        rcases hdecides gs with ⟨-, u, hu, hreplays⟩ | ⟨-, u, hu, hrefused⟩
        · obtain rfl := Option.some.inj (ht.symm.trans hu)
          exact hreplays.unchanged cfg
        · obtain rfl := Option.some.inj (ht.symm.trans hu)
          rw [resume_answered hrefused cfg]
          exact ⟨rfl, rfl⟩
      rcases (depositDesk cfg).resume_cases (run (depositDesk cfg).step S₀ gs) k () with hidle | ⟨t, ht, hstep⟩
      · rw [hidle]
        exact ⟨rfl, rfl⟩
      · rw [hstep]
        exact hsame t ht
    · rcases hdecides fs with ⟨-, t, ht, -⟩ | ⟨-, t, ht, -⟩
      · exact answers cfg (hfit₀.run cfg fs) ht
      · exact answers cfg (hfit₀.run cfg fs) ht
    · rcases hdecides fs with ⟨hg, u, hu, hreplays⟩ | ⟨hg, u, hu, hrefused⟩
      · refine iff_of_true (fun t reply ht hreply => ?_) hg
        obtain rfl := Option.some.inj (ht.symm.trans hu)
        have hwait := hreplays.wait
        rw [hreply] at hwait
        exact hwait
      · refine iff_of_false (fun hall => ?_) hg
        rcases hall u .depositLimit hu hrefused with ⟨b, hb⟩ | ⟨hb, -⟩
        · cases hb
        · cases hb

/-- Under a limit of 150 a payment of 60, delivered twice, is answered as a replay. -/
theorem webhook_replay_within :
    let es : List (Crew.Event (DepositOp ℕ ℕ ℕ) Unit (DepositDrift ℕ ℕ)) :=
      [.drift (.save 1 7 6000), .drift (.setLimits 7 (some 15000)), .enter (DepositIntent.delivery ⟨7, 6000, 0⟩ 1)] ++
        List.replicate 9 (.resume 0 ())
    let S := run (depositDesk {}).step (DepositDesk.boot 0 (fun _ => some 0) fun _ => none) es
    let S' := run (depositDesk {}).step ((depositDesk {}).step S (.enter (DepositIntent.delivery ⟨7, 6000, 0⟩ 1)))
      (List.replicate 9 (.resume 1 ()))
    (∃ t reply, S'.tasks[1]? = some t ∧ t.wait = .answered reply) ∧
      ∀ t reply, S'.tasks[1]? = some t → t.wait = .answered reply →
        (∃ b, reply = .ok true b) ∨ reply = .intentExpired ∧ 0 + INTENT_TTL_MS < S'.store.now :=
  ⟨⟨{ wait := .answered (.ok true 6000), link := some 1 }, .ok true 6000, by decide +kernel, rfl⟩,
    (((webhook_replay_iff {} 0 (fun _ => some 0) (fun _ => none) _ 1 ⟨7, 6000, 0⟩ (by decide +kernel)).2
      (by decide +kernel) (List.replicate 9 (.resume 1 ()))).2.2.mpr (by decide +kernel))⟩

/-- A limit of 100, a payment of 60 that is credited, and its webhook once more: the deposits of the day contain the
payment by then, and the webhook is refused. -/
theorem replay_refused :
    let es : List (Crew.Event (DepositOp ℕ ℕ ℕ) Unit (DepositDrift ℕ ℕ)) :=
      [.drift (.save 1 7 6000), .drift (.setLimits 7 (some 10000)), .enter (DepositIntent.delivery ⟨7, 6000, 0⟩ 1)] ++
        List.replicate 9 (.resume 0 ())
    let S := run (depositDesk {}).step (DepositDesk.boot 0 (fun _ => some 0) fun _ => none) es
    let S' := run (depositDesk {}).step S (.enter (DepositIntent.delivery ⟨7, 6000, 0⟩ 1) :: List.replicate 3 (.resume 1 ()))
    S.store.intents 1 = some ⟨7, 6000, 0⟩ ∧ S.tasks.map (·.wait) = [.answered (.ok false 6000)] ∧
      S.store.hasRef (.payment 1) = true ∧ S'.store.now ≤ INTENT_TTL_MS ∧
      S'.tasks.map (·.wait) = [.answered (.ok false 6000), .answered .depositLimit] := by
  decide +kernel

end DepositDesk

end Murlan
