import Murlan.Spec.LoginThrottle

/-!
# How often a password may be tried

`Counted` says what the record of a key holds: how many wrong passwords have been verified since
the last right one or the last idle hour, when the last was, and the lock that it set.

* `login_bound_iff`: in every run a login is refused only while a lock is running; and no wrong
  password is verified while one is running exactly if every attempt meets `Calm`.
* `calm_of_apart`: attempts of a key that do not overlap are calm.
* `locks_overtaken`: six attempts that are tested before the first of them is verified.
-/

namespace Murlan

namespace LoginThrottle

variable {K : Type*} {s : LoginThrottle K} {key : K} {t : ℕ}

/-- A lock of the key is running at `t`. -/
def Running (s : LoginThrottle K) (key : K) (t : ℕ) : Prop :=
  ∃ last, (s.counted key t).head? = some last ∧ s.maxFailures ≤ (s.counted key t).length ∧
    t < last + s.penalty (s.counted key t).length

/-! ## Wrong passwords that count -/

theorem counted_cons {last : ℕ} {rest : List ℕ} (hwrong : s.wrong key = last :: rest) (hrecent : t - last < lockoutMaxMs) :
    s.counted key t = last :: rest := by
  unfold counted
  rw [hwrong]
  exact if_neg (Nat.not_le_of_lt hrecent)

theorem counted_idle {last : ℕ} {rest : List ℕ} (hwrong : s.wrong key = last :: rest) (hidle : lockoutMaxMs ≤ t - last) :
    s.counted key t = [] := by
  unfold counted
  rw [hwrong]
  exact if_pos hidle

theorem counted_congr {s' : LoginThrottle K} (h : s'.wrong key = s.wrong key) (t : ℕ) :
    s'.counted key t = s.counted key t := by
  unfold counted
  rw [h]

/-- What counts is all that was wrong, or nothing. -/
theorem counted_cases (s : LoginThrottle K) (key : K) (t : ℕ) :
    s.counted key t = [] ∨ ∃ last rest, s.wrong key = last :: rest ∧ t - last < lockoutMaxMs ∧
      s.counted key t = last :: rest := by
  cases hwrong : s.wrong key with
  | nil =>
    refine .inl ?_
    unfold counted
    rw [hwrong]
  | cons last rest =>
    by_cases hidle : lockoutMaxMs ≤ t - last
    · exact .inl (counted_idle hwrong hidle)
    · exact .inr ⟨last, rest, rfl, Nat.lt_of_not_le hidle, counted_cons hwrong (Nat.lt_of_not_le hidle)⟩

/-- What no longer counts does not count later. -/
theorem counted_later {t' : ℕ} (hlater : t ≤ t') (hnone : s.counted key t = []) : s.counted key t' = [] := by
  rcases s.counted_cases key t' with hnone' | ⟨last, rest, hwrong, hrecent, -⟩
  · exact hnone'
  · rw [counted_cons hwrong (by omega)] at hnone
    exact absurd hnone (by simp)

variable [DecidableEq K]

/-- What the records say of the wrong passwords; an attempt that has not been overtaken has no
lock to wait for. -/
structure Counted (s : LoginThrottle K) : Prop where
  record : ∀ key r, s.loginFailures.lookup key = some r → ∃ last rest, s.wrong key = last :: rest ∧
    r.count = (last :: rest).length ∧ r.lastFailureAt = last ∧
    r.lockedUntil = if s.maxFailures ≤ r.count then last + s.penalty r.count else 0
  forgotten : ∀ key, s.loginFailures.lookup key = none → s.counted key s.now = []
  past : ∀ key last rest, s.wrong key = last :: rest → last ≤ s.now
  untouched : ∀ id key, s.waiting id = some (key, false) → ∀ r, s.loginFailures.lookup key = some r →
    r.lockedUntil ≤ s.now

/-- The lock in the record of a key is the one that its wrong passwords call for. -/
theorem Counted.locked_iff (h : s.Counted) (ht : s.now ≤ t) :
    (∃ r, s.loginFailures.lookup key = some r ∧ t < r.lockedUntil) ↔ s.Running key t := by
  constructor
  · rintro ⟨r, hr, hlocked⟩
    obtain ⟨last, rest, hwrong, hcount, -, huntil⟩ := h.record key r hr
    by_cases hmany : s.maxFailures ≤ r.count
    · rw [if_pos hmany] at huntil
      have hcap : s.penalty r.count ≤ lockoutMaxMs := min_le_left _ _
      have hpositive : 0 < lockoutMaxMs := by decide
      have hcounts := counted_cons hwrong (t := t) (by omega)
      refine ⟨last, by rw [hcounts]; rfl, ?_, ?_⟩
      · rw [hcounts, ← hcount]
        exact hmany
      · rw [hcounts, ← hcount, ← huntil]
        exact hlocked
    · rw [if_neg hmany] at huntil
      omega
  · rintro ⟨last, hlast, hmany, hrunning⟩
    cases hr : s.loginFailures.lookup key with
    | none =>
      rw [counted_later ht (h.forgotten key hr)] at hlast
      cases hlast
    | some r =>
      obtain ⟨last', rest, hwrong, hcount, -, huntil⟩ := h.record key r hr
      rcases s.counted_cases key t with hnone | ⟨last'', rest', hwrong', -, hcounts⟩
      · rw [hnone] at hlast
        cases hlast
      · obtain ⟨rfl, rfl⟩ := List.cons.inj (hwrong.symm.trans hwrong')
        rw [hcounts] at hlast hmany hrunning
        obtain rfl := Option.some.inj hlast
        rw [← hcount] at hmany hrunning
        refine ⟨r, rfl, ?_⟩
        rw [huntil, if_pos hmany]
        exact hrunning

/-- What is counted after one more failure. -/
theorem Counted.counting (h : s.Counted) (key : K) (ht : s.now ≤ t) :
    (s.counting key t).count = (s.counted key t).length + 1 ∧ (s.counting key t).lastFailureAt = t ∧
      ((s.counting key t).count < s.maxFailures → (s.counting key t).lockedUntil = 0) := by
  unfold LoginThrottle.counting
  cases hr : s.loginFailures.lookup key with
  | none =>
    rw [counted_later ht (h.forgotten key hr)]
    exact ⟨rfl, rfl, fun _ => rfl⟩
  | some r =>
    obtain ⟨last, rest, hwrong, hcount, hlast, huntil⟩ := h.record key r hr
    dsimp only
    rw [hlast]
    by_cases hidle : lockoutMaxMs ≤ t - last
    · rw [if_pos hidle, counted_idle hwrong hidle]
      exact ⟨rfl, rfl, fun _ => rfl⟩
    · rw [if_neg hidle, counted_cons hwrong (Nat.lt_of_not_le hidle)]
      refine ⟨congrArg (· + 1) hcount, rfl, fun hfew => ?_⟩
      -- the cap has not been reached before either
      have hfew' : r.count + 1 < s.maxFailures := hfew
      dsimp only
      rw [huntil, if_neg (by omega)]

/-- The record after one more failure. -/
theorem Counted.failed (h : s.Counted) (key : K) (ht : s.now ≤ t) :
    (s.failed key t).count = (s.counted key t).length + 1 ∧ (s.failed key t).lastFailureAt = t ∧
      (s.failed key t).lockedUntil =
        if s.maxFailures ≤ (s.failed key t).count then t + s.penalty (s.failed key t).count else 0 := by
  obtain ⟨hcount, hlast, hfew⟩ := h.counting key ht
  unfold LoginThrottle.failed
  dsimp only
  split
  · exact ⟨hcount, hlast, rfl⟩
  · rename_i hless
    exact ⟨hcount, hlast, hfew (Nat.lt_of_not_le hless)⟩

/-! ## One event -/

/-- A key is locked by its record. -/
theorem loginThrottled_iff (s : LoginThrottle K) (key : K) (now later : ℕ) :
    (s.loginThrottled key now later).1 = true ↔ ∃ r, s.loginFailures.lookup key = some r ∧ now < r.lockedUntil := by
  unfold loginThrottled
  split
  · rename_i hnone
    simp [hnone]
  · rename_i r hr
    split
    · rename_i hlocked
      exact ⟨fun _ => ⟨r, hr, hlocked⟩, fun _ => rfl⟩
    · rename_i hfree
      have hnot : ¬∃ r, s.loginFailures.lookup key = some r ∧ now < r.lockedUntil := by
        rintro ⟨r', hr', hlocked⟩
        obtain rfl := Option.some.inj (hr.symm.trans hr')
        exact hfree hlocked
      split <;> exact ⟨fun h => absurd h Bool.false_ne_true, fun h => absurd h hnot⟩

/-- The lock test forgets at most the record of the key, once it has decayed. -/
theorem lookup_loginThrottled (s : LoginThrottle K) (key k : K) (now later : ℕ) :
    (s.loginThrottled key now later).2.lookup k = s.loginFailures.lookup k ∨
      ((s.loginThrottled key now later).2.lookup k = none ∧
        ∃ r, s.loginFailures.lookup k = some r ∧ lockoutMaxMs ≤ later - r.lastFailureAt) := by
  unfold loginThrottled
  split
  · exact .inl rfl
  · rename_i r hr
    split
    · exact .inl rfl
    · split
      · rename_i hidle
        by_cases heq : k = key
        · subst heq
          exact .inr ⟨AList.lookup_erase _ _, r, hr, hidle⟩
        · exact .inl (AList.lookup_erase_ne heq)
      · exact .inl rfl

/-- Time passes, and records that have decayed are forgotten. -/
theorem Counted.later (h : s.Counted) (now : ℕ) (hnow : s.now ≤ now) {loginFailures : AList fun _ : K => LoginFailure}
    (hkept : ∀ k, loginFailures.lookup k = s.loginFailures.lookup k ∨ (loginFailures.lookup k = none ∧
      ∃ r, s.loginFailures.lookup k = some r ∧ lockoutMaxMs ≤ now - r.lastFailureAt)) :
    Counted { s with now := now, loginFailures := loginFailures } where
  record k r hr := by
    rcases hkept k with hsame | ⟨hnone, -⟩
    · exact h.record k r (hsame.symm.trans hr)
    · exact absurd (hr.symm.trans hnone) (by simp)
  forgotten k hnone := by
    show s.counted k now = []
    rcases hkept k with hsame | ⟨-, r, hr, hidle⟩
    · exact counted_later hnow (h.forgotten k (hsame.symm.trans hnone))
    · obtain ⟨last, rest, hwrong, -, hlast, -⟩ := h.record k r hr
      exact counted_idle hwrong (hlast ▸ hidle)
  past k last rest hwrong := (h.past k last rest hwrong).trans hnow
  untouched id k hk r hr := by
    rcases hkept k with hsame | ⟨hnone, -⟩
    · exact (h.untouched id k hk r (hsame.symm.trans hr)).trans hnow
    · exact absurd (hr.symm.trans hnone) (by simp)

/-- An attempt keeps the count. -/
theorem Counted.attempt (h : s.Counted) (id : ℕ) (key : K) (first second : ℕ) :
    (s.step (.attempt id key first second)).Counted := by
  have hnext := h.later (s.now + first + second) (by omega) fun k => s.lookup_loginThrottled key k (s.now + first) _
  unfold LoginThrottle.step
  dsimp only
  split
  · rename_i hpassed
    refine { hnext with untouched := fun id' k hk r hr => ?_ }
    dsimp only at hk hr
    rw [Function.update_apply] at hk
    by_cases heq : id' = id
    · -- the key of an attempt that passes is not locked
      rw [if_pos heq] at hk
      obtain ⟨rfl, -⟩ := Prod.mk.inj (Option.some.inj hk)
      have hfree : ¬∃ r, s.loginFailures.lookup key = some r ∧ s.now + first < r.lockedUntil := by
        rw [← loginThrottled_iff s key _ (s.now + first + second)]
        simp only [Bool.and_eq_true, Bool.not_eq_true'] at hpassed
        simp [hpassed.1]
      rcases s.lookup_loginThrottled key key (s.now + first) (s.now + first + second) with hsame | ⟨hnone, -⟩
      · have hunlocked : ¬s.now + first < r.lockedUntil := fun hlocked => hfree ⟨r, hsame.symm.trans hr, hlocked⟩
        show r.lockedUntil ≤ s.now + first + second
        omega
      · exact absurd (hr.symm.trans hnone) (by simp)
    · rw [if_neg heq] at hk
      exact hnext.untouched id' k hk r hr
  · exact hnext

/-- A right password: the record of the key is deleted. -/
theorem Counted.cleared (h : s.Counted) (id : ℕ) (key : K) {now : ℕ} (hnow : s.now ≤ now) :
    Counted { s with
      now := now
      loginFailures := s.loginFailures.erase key
      waiting := Function.update s.waiting id none
      wrong := Function.update s.wrong key [] } := by
  have hwrong : ∀ k, k ≠ key → Function.update s.wrong key [] k = s.wrong k := fun k hne => Function.update_of_ne hne _ _
  have hlookup : ∀ k r, (s.loginFailures.erase key).lookup k = some r → k ≠ key ∧ s.loginFailures.lookup k = some r := by
    intro k r hr
    by_cases heq : k = key
    · rw [heq, AList.lookup_erase] at hr
      cases hr
    · rw [AList.lookup_erase_ne heq] at hr
      exact ⟨heq, hr⟩
  refine ⟨fun k r hr => ?_, fun k hnone => ?_, fun k last rest hk => ?_, fun id' k hk r hr => ?_⟩
  · obtain ⟨hne, hr⟩ := hlookup k r hr
    dsimp only
    rw [hwrong k hne]
    exact h.record k r hr
  · dsimp only at hnone
    by_cases heq : k = key
    · unfold counted
      dsimp only
      rw [heq, Function.update_self]
    · rw [AList.lookup_erase_ne heq] at hnone
      exact (counted_congr (hwrong k heq) now).trans (counted_later hnow (h.forgotten k hnone))
  · dsimp only at hk
    by_cases heq : k = key
    · rw [heq, Function.update_self] at hk
      cases hk
    · rw [hwrong k heq] at hk
      exact (h.past k last rest hk).trans hnow
  · obtain ⟨-, hr⟩ := hlookup k r hr
    dsimp only at hk
    rw [Function.update_apply] at hk
    split at hk
    · cases hk
    · exact (h.untouched id' k hk r hr).trans hnow

/-- What a recorded failure leaves of the records. -/
theorem lookup_record (s : LoginThrottle K) (key k : K) {now : ℕ} (hkey : (s.failed key now).lastFailureAt = now) :
    (s.recordLoginFailure key now).lookup k = (if k = key then some (s.failed key now) else s.loginFailures.lookup k) ∨
      (k ≠ key ∧ (s.recordLoginFailure key now).lookup k = none ∧
        ∃ r, s.loginFailures.lookup k = some r ∧ lockoutMaxMs ≤ now - r.lastFailureAt) := by
  have hinsert : (s.loginFailures.insert key (s.failed key now)).lookup k =
      if k = key then some (s.failed key now) else s.loginFailures.lookup k := by
    split
    · rename_i heq
      rw [heq]
      exact AList.lookup_insert _
    · rename_i hne
      exact AList.lookup_insert_ne hne
  unfold recordLoginFailure
  cases hafter : (Entries.prune loginFailuresMax
      (fun _ r => !(decide (lockoutMaxMs ≤ now - r.lastFailureAt) && decide (r.lockedUntil ≤ now)))
      (s.loginFailures.insert key (s.failed key now))).lookup k with
  | some r =>
    have hbefore := Entries.prune_le hafter
    exact .inl (hbefore.symm.trans hinsert)
  | none =>
    cases hbefore : (s.loginFailures.insert key (s.failed key now)).lookup k with
    | none => exact .inl (hbefore.symm.trans hinsert)
    | some r =>
      have hdropped := Entries.prune_drops hbefore hafter
      rw [Bool.not_eq_false', Bool.and_eq_true, decide_eq_true_iff] at hdropped
      rw [hinsert] at hbefore
      by_cases heq : k = key
      · -- the failure has just been recorded
        rw [if_pos heq] at hbefore
        obtain rfl := Option.some.inj hbefore
        have hidle := hdropped.1
        rw [hkey, Nat.sub_self] at hidle
        exact absurd hidle (by decide)
      · rw [if_neg heq] at hbefore
        exact .inr ⟨heq, rfl, r, hbefore, hdropped.1⟩

/-- An attempt left unmarked was so before, and its key was not armed. -/
theorem overtake_false {s : LoginThrottle K} {key k : K} {armed : Bool} {id : ℕ}
    (h : s.overtake key armed id = some (k, false)) : s.waiting id = some (k, false) ∧ (k = key → armed = false) := by
  unfold overtake at h
  obtain ⟨⟨k', b⟩, hwaiting, heq⟩ := Option.map_eq_some_iff.mp h
  obtain ⟨rfl, hmark⟩ := Prod.mk.inj heq
  rw [Bool.or_eq_false_iff, Bool.and_eq_false_iff, decide_eq_false_iff_not] at hmark
  obtain ⟨rfl, harmed⟩ := hmark
  exact ⟨hwaiting, fun hk => harmed.resolve_left fun hne => hne hk⟩

/-- A wrong password: a failure is recorded. -/
theorem Counted.recorded (h : s.Counted) (id : ℕ) (key : K) {now : ℕ} (hnow : s.now ≤ now) :
    Counted { s with
      now := now
      loginFailures := s.recordLoginFailure key now
      waiting := Function.update (s.overtake key (decide (s.maxFailures ≤ (s.failed key now).count))) id none
      wrong := Function.update s.wrong key (now :: s.counted key now) } := by
  obtain ⟨hcount, hlast, huntil⟩ := h.failed key hnow
  have hrest : ∀ k, k ≠ key → Function.update s.wrong key (now :: s.counted key now) k = s.wrong k := fun k hne =>
    Function.update_of_ne hne _ _
  refine ⟨fun k r hr => ?_, fun k hnone => ?_, fun k last rest hk => ?_, fun id' k hk r hr => ?_⟩
  · dsimp only at hr ⊢
    rcases s.lookup_record key k hlast with hsome | ⟨-, hnone, -⟩
    · by_cases heq : k = key
      · rw [hsome, if_pos heq] at hr
        obtain rfl := Option.some.inj hr
        rw [heq, Function.update_self]
        exact ⟨now, s.counted key now, rfl, hcount, hlast, huntil⟩
      · rw [hsome, if_neg heq] at hr
        rw [hrest k heq]
        exact h.record k r hr
    · exact absurd (hr.symm.trans hnone) (by simp)
  · dsimp only at hnone
    rcases s.lookup_record key k hlast with hsome | ⟨hne, -, r, hr, hidle⟩
    · by_cases heq : k = key
      · rw [hsome, if_pos heq] at hnone
        cases hnone
      · rw [hsome, if_neg heq] at hnone
        exact (counted_congr (hrest k heq) now).trans (counted_later hnow (h.forgotten k hnone))
    · obtain ⟨last, rest, hwrong, -, hlast', -⟩ := h.record k r hr
      exact (counted_congr (hrest k hne) now).trans (counted_idle hwrong (hlast' ▸ hidle))
  · dsimp only at hk ⊢
    by_cases heq : k = key
    · rw [heq, Function.update_self] at hk
      exact Nat.le_of_eq (List.cons.inj hk).1.symm
    · rw [hrest k heq] at hk
      exact (h.past k last rest hk).trans hnow
  · dsimp only at hk hr ⊢
    rw [Function.update_apply] at hk
    split at hk
    · cases hk
    · obtain ⟨hwaiting, harmed⟩ := overtake_false hk
      rcases s.lookup_record key k hlast with hsome | ⟨-, hnone, -⟩
      · by_cases heq : k = key
        · -- no lock was set, so there is none
          rw [hsome, if_pos heq] at hr
          obtain rfl := Option.some.inj hr
          rw [huntil, if_neg (of_decide_eq_false (harmed heq))]
          exact Nat.zero_le _
        · rw [hsome, if_neg heq] at hr
          exact (h.untouched id' k hwaiting r hr).trans hnow
      · exact absurd (hr.symm.trans hnone) (by simp)

/-- **Step.** The records say what was wrong after every event. -/
theorem Counted.step (h : s.Counted) (e : LoginEvent K) : (s.step e).Counted := by
  cases e with
  | attempt id key first second => exact h.attempt id key first second
  | verified id ok wait =>
    unfold LoginThrottle.step
    dsimp only
    split
    · exact h.later (s.now + wait) (by omega) fun k => .inl rfl
    · rename_i key mark hwaiting
      split
      · exact h.cleared id key (by omega)
      · exact h.recorded id key (by omega)
  | lost id =>
    refine { h with untouched := fun id' k hk r hr => ?_ }
    have hk' : Function.update s.waiting id none id' = some (k, false) := hk
    rw [Function.update_apply] at hk'
    split at hk'
    · cases hk'
    · exact h.untouched id' k hk' r hr

/-! ## Every run -/

/-- The server before the first login. -/
def fresh (maxFailures windowMs : ℕ) : LoginThrottle K := { maxFailures := maxFailures, windowMs := windowMs }

theorem counted_fresh (maxFailures windowMs : ℕ) : Counted (fresh maxFailures windowMs : LoginThrottle K) where
  record _ _ hr := by
    rw [show (fresh maxFailures windowMs : LoginThrottle K).loginFailures = ∅ from rfl, AList.lookup_empty] at hr
    cases hr
  forgotten _ _ := rfl
  past _ _ _ h := by cases h
  untouched _ _ h := by cases h

/-- The password of an attempt is not verified as wrong while a lock is running that was set
after the lock of the attempt was tested. -/
def Calm (s : LoginThrottle K) : LoginEvent K → Prop
  | .verified id false wait => ∀ key, s.waiting id = some (key, true) → ∀ r, s.loginFailures.lookup key = some r →
      r.lockedUntil ≤ s.now + wait
  | _ => True

/-- No wrong password is verified while a lock is running. -/
def Bounded (s : LoginThrottle K) : LoginEvent K → Prop
  | .verified id false wait => ∀ key mark, s.waiting id = some (key, mark) → ¬s.Running key (s.now + wait)
  | _ => True

/-- A login is refused only while a lock is running. -/
def Justified (s : LoginThrottle K) : LoginEvent K → Prop
  | .attempt _ key first second => (s.loginThrottled key (s.now + first) (s.now + first + second)).1 = true →
      s.Running key (s.now + first)
  | _ => True

/-- The bound holds exactly while attempts are calm. -/
theorem Counted.bounded_iff (h : s.Counted) (e : LoginEvent K) : s.Calm e ↔ s.Bounded e := by
  cases e with
  | verified id ok wait =>
    cases ok with
    | true => exact Iff.rfl
    | false =>
      have hnow : s.now ≤ s.now + wait := Nat.le_add_right _ _
      constructor
      · intro hcalm key mark hwaiting hrunning
        obtain ⟨r, hr, hlocked⟩ := (h.locked_iff hnow).mpr hrunning
        cases mark with
        | false => exact absurd ((h.untouched id key hwaiting r hr).trans hnow) (Nat.not_le_of_lt hlocked)
        | true => exact absurd (hcalm key hwaiting r hr) (Nat.not_le_of_lt hlocked)
      · intro hbounded key hwaiting r hr
        by_contra hlocked
        exact hbounded key true hwaiting ((h.locked_iff hnow).mp ⟨r, hr, Nat.lt_of_not_le hlocked⟩)
  | _ => exact Iff.rfl

theorem Counted.justified (h : s.Counted) (e : LoginEvent K) : s.Justified e := by
  cases e with
  | attempt id key first second =>
    intro hrefused
    exact (h.locked_iff (Nat.le_add_right _ _)).mp ((loginThrottled_iff s key _ _).mp hrefused)
  | _ => trivial

/-- **The bound on logins.** For any cap and any window, a run of logins in any order of their
parts verifies no wrong password of a key while a lock of the key is running exactly if each of
its events is calm; and in every run a login is refused only while a lock is running. -/
theorem login_bound_iff (maxFailures windowMs : ℕ) (es : List (LoginEvent K)) :
    (Guarded step Calm (fresh maxFailures windowMs) es ↔
      ∀ fs e gs, es = fs ++ e :: gs → Bounded (run step (fresh maxFailures windowMs) fs) e) ∧
    ∀ fs e gs, es = fs ++ e :: gs → Justified (run step (fresh maxFailures windowMs) fs) e := by
  have hcounted : ∀ fs, Counted (run step (fresh maxFailures windowMs : LoginThrottle K) fs) :=
    run_inv (fun s e h => h.step e) (counted_fresh maxFailures windowMs)
  refine ⟨?_, fun fs e gs _ => (hcounted fs).justified e⟩
  rw [guarded_iff_forall]
  constructor
  · intro h fs e gs heq
    exact ((hcounted fs).bounded_iff e).mp (h fs e gs heq)
  · intro h fs e gs heq
    exact ((hcounted fs).bounded_iff e).mpr (h fs e gs heq)

/-! ## Attempts that do not overlap -/

/-- A key is tried only when no other attempt of it is under way. -/
def Apart (s : LoginThrottle K) : LoginEvent K → Prop
  | .attempt _ key _ _ => ∀ id mark, s.waiting id ≠ some (key, mark)
  | _ => True

/-- One attempt of each key at most is under way, and no lock was set since its test. -/
structure Alone (s : LoginThrottle K) : Prop where
  unmarked : ∀ id key mark, s.waiting id = some (key, mark) → mark = false
  single : ∀ id id' key mark mark', s.waiting id = some (key, mark) → s.waiting id' = some (key, mark') → id = id'

omit [DecidableEq K] in
theorem alone_congr {s' : LoginThrottle K} (h : s.Alone) (hwaiting : s'.waiting = s.waiting) : s'.Alone where
  unmarked := by
    rw [hwaiting]
    exact h.unmarked
  single := by
    rw [hwaiting]
    exact h.single

omit [DecidableEq K] in
/-- An attempt that is over leaves the others alone. -/
theorem alone_done {s' : LoginThrottle K} (h : s.Alone) (id : ℕ)
    (hwaiting : ∀ id', id' ≠ id → s'.waiting id' = s.waiting id') (hdone : s'.waiting id = none) : s'.Alone := by
  have hother : ∀ id' a, s'.waiting id' = some a → s.waiting id' = some a := by
    intro id' a ha
    have hne : id' ≠ id := by
      rintro rfl
      rw [hdone] at ha
      cases ha
    rw [← hwaiting id' hne]
    exact ha
  exact ⟨fun id' key mark hw => h.unmarked id' key mark (hother id' _ hw),
    fun i j key mark mark' hi hj => h.single i j key mark mark' (hother i _ hi) (hother j _ hj)⟩

/-- An attempt with no other under way is alone. -/
theorem Alone.attempt (h : s.Alone) {id : ℕ} {key : K} {first second : ℕ}
    (hapart : ∀ id mark, s.waiting id ≠ some (key, mark)) : (s.step (.attempt id key first second)).Alone := by
  unfold LoginThrottle.step
  dsimp only
  split
  · have hcases : ∀ i k mark, Function.update s.waiting id (some (key, false)) i = some (k, mark) →
        (i = id ∧ k = key ∧ mark = false) ∨ (s.waiting i = some (k, mark) ∧ k ≠ key) := by
      intro i k mark hi
      rw [Function.update_apply] at hi
      split at hi
      · rename_i heq
        obtain ⟨rfl, rfl⟩ := Prod.mk.inj (Option.some.inj hi)
        exact .inl ⟨heq, rfl, rfl⟩
      · refine .inr ⟨hi, ?_⟩
        rintro rfl
        exact hapart i mark hi
    refine ⟨fun i k mark hi => ?_, fun i j k mark mark' hi hj => ?_⟩
    · rcases hcases i k mark hi with ⟨-, -, hmark⟩ | ⟨hi, -⟩
      · exact hmark
      · exact h.unmarked i k mark hi
    · rcases hcases i k mark hi with ⟨rfl, rfl, -⟩ | ⟨hi, hne⟩
      · rcases hcases j k mark' hj with ⟨rfl, -, -⟩ | ⟨-, hne⟩
        · rfl
        · exact absurd rfl hne
      · rcases hcases j k mark' hj with ⟨-, rfl, -⟩ | ⟨hj, -⟩
        · exact absurd rfl hne
        · exact h.single i j k mark mark' hi hj
  · exact alone_congr h rfl

/-- **Step.** Nobody overtakes an attempt that is alone. -/
theorem Alone.step (h : s.Alone) (e : LoginEvent K) (hapart : s.Apart e) : (s.step e).Alone := by
  cases e with
  | attempt id key first second => exact h.attempt hapart
  | lost id =>
    exact alone_done h id (fun id' hne => Function.update_of_ne hne _ _) (Function.update_self _ _ _)
  | verified id ok wait =>
    unfold LoginThrottle.step
    dsimp only
    cases hw : s.waiting id with
    | none => exact alone_congr h rfl
    | some a =>
      obtain ⟨key, mark⟩ := a
      dsimp only
      split
      · exact alone_done h id (fun id' hne => Function.update_of_ne hne _ _) (Function.update_self _ _ _)
      · refine alone_done h id (fun id' hne => ?_) (Function.update_self _ _ _)
        dsimp only
        rw [Function.update_of_ne hne]
        unfold overtake
        cases hw' : s.waiting id' with
        | none => rfl
        | some a' =>
          -- the attempts that are under way are of other keys
          have hkey : a'.1 ≠ key := by
            rintro rfl
            exact hne (h.single id' id a'.1 a'.2 mark hw' hw)
          simp [hkey]

/-- **Attempts that do not overlap meet the condition of the bound.** -/
theorem calm_of_apart {maxFailures windowMs : ℕ} {es : List (LoginEvent K)}
    (h : Guarded step Apart (fresh maxFailures windowMs) es) : Guarded step Calm (fresh maxFailures windowMs) es := by
  have halone : Alone (fresh maxFailures windowMs : LoginThrottle K) := by
    constructor
    · intro id key mark hw
      cases hw
    · intro id id' key mark mark' hw
      cases hw
  rw [guarded_iff_forall] at h ⊢
  intro fs e gs heq
  have hbefore : Guarded step Apart (fresh maxFailures windowMs) fs := by
    rw [guarded_iff_forall]
    intro fs' e' gs' heq'
    exact h fs' e' (gs' ++ e :: gs) (by rw [heq, heq', List.append_assoc, List.cons_append])
  have hat := guarded_inv (fun _ e hs hok => hs.step e hok) halone fs hbefore
  cases e with
  | verified id ok wait =>
    cases ok with
    | true => trivial
    | false =>
      intro key hw
      exact absurd (hat.unmarked id key true hw) (by decide)
  | _ => trivial

/-- Six attempts of one key pass the lock test before the first password is verified; the fifth
failure sets a lock, and the sixth password is verified all the same. -/
theorem locks_overtaken : ¬Bounded (run step (fresh 5 600000 : LoginThrottle ℕ)
    ((List.range 6).map (fun i => .attempt i 0 0 0) ++ (List.range 5).map fun i => .verified i false 0))
    (.verified 5 false 0) := by
  generalize hs : run step (fresh 5 600000 : LoginThrottle ℕ)
    ((List.range 6).map (fun i => .attempt i 0 0 0) ++ (List.range 5).map fun i => .verified i false 0) = s
  have hwaiting : s.waiting 5 = some (0, true) := by
    rw [← hs]
    decide +kernel
  have hcounted : s.counted 0 s.now = [0, 0, 0, 0, 0] := by
    rw [← hs]
    decide +kernel
  have hmax : s.maxFailures = 5 := by
    rw [← hs]
    decide +kernel
  have hnow : s.now < 0 + s.penalty 5 := by
    rw [← hs]
    decide +kernel
  intro h
  refine h 0 true hwaiting ⟨0, ?_, ?_, ?_⟩
  · rw [Nat.add_zero, hcounted]
    rfl
  · rw [Nat.add_zero, hcounted, hmax]
    exact Nat.le_refl 5
  · rw [Nat.add_zero, hcounted]
    exact hnow

end LoginThrottle

end Murlan
