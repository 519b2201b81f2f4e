import Mathlib.Data.List.Induction
import Mathlib.Tactic.Linarith
import Murlan.Base.Run

/-!
# Sagas under one reference

A seat is bought in two steps: the price is debited, then the seat is written. Where the
write fails, the debit is credited back, under a reference that is credited once only. Who
fails may try again.

* `Stage`: how far an attempt gets; `Buyer.attempt`: what it leaves of the buyer.
* `guarded_iff_owed`: no credit is lost exactly when at most one is owed before the seat is
  had, or none if the reference is used already.
* `Seller`: a system that takes attempts; `Seller.AllOrNothing`: who fails has lost nothing, who
  succeeds has paid one price.
* `Seller.Follows.allOrNothing_iff`: when that holds of a seller that does with its state what
  `Buyer.attempt` does with the buyer.
-/

namespace Murlan.Saga

/-- What fails in an attempt. -/
structure Failures where
  debit : Bool
  save : Bool
  deriving DecidableEq, Repr

/-- How far an attempt gets: it is refused, its debit fails, its write fails, or neither. -/
inductive Stage where
  | refused | unpaid | unsaved | seated
  deriving DecidableEq, Repr

/-- One who wants a seat. What was debited and not credited back is counted in prices. -/
structure Buyer where
  seated : Bool := false
  refunded : Bool := false
  spent : ℕ := 0
  deriving DecidableEq, Repr

namespace Buyer

/-- An attempt of one who has a seat is refused. -/
def attempt (b : Buyer) (st : Stage) : Buyer :=
  if b.seated then b
  else match st with
    | .refused | .unpaid => b
    | .unsaved => if b.refunded then { b with spent := b.spent + 1 } else { b with refunded := true }
    | .seated => { b with seated := true, spent := b.spent + 1 }

/-- The credit of the attempt is lost: its reference is used. -/
def Loses (b : Buyer) (st : Stage) : Prop := b.seated = false ∧ b.refunded = true ∧ st = .unsaved

/-- One price is paid for a seat, and nothing for none. -/
def Square (b : Buyer) : Prop := b.spent = if b.seated then 1 else 0

/-- An attempt leaves the buyer square unless it loses the price. -/
theorem attempt_square {b : Buyer} (h : b.Square) (st : Stage) : (b.attempt st).Square ↔ ¬ b.Loses st := by
  unfold Square at h
  cases hs : b.seated with
  | true => simp [attempt, Loses, Square, hs, h]
  | false =>
    rw [hs] at h
    cases st with
    | refused => simp [attempt, Loses, Square, hs, h]
    | unpaid => simp [attempt, Loses, Square, hs, h]
    | seated => simp [attempt, Loses, Square, hs, h]
    | unsaved => cases hr : b.refunded <;> simp [attempt, Loses, Square, hs, h, hr]

/-- A buyer has a seat from an attempt that got that far. -/
theorem attempt_seated (b : Buyer) (st : Stage) :
    (b.attempt st).seated = true ↔ b.seated = true ∨ st = .seated := by
  cases hs : b.seated with
  | true => simp [attempt, hs]
  | false =>
    cases st with
    | refused => simp [attempt, hs]
    | unpaid => simp [attempt, hs]
    | seated => simp [attempt, hs]
    | unsaved => cases hr : b.refunded <;> simp [attempt, hs, hr]

end Buyer

/-- The debits that have to be credited back before the seat is had. -/
def owed (sts : List Stage) : ℕ := (sts.takeWhile fun st => st ≠ .seated).count .unsaved

theorem owed_cons (st : Stage) (sts : List Stage) :
    owed (st :: sts) = match st with
      | .seated => 0
      | .unsaved => owed sts + 1
      | .refused | .unpaid => owed sts := by
  unfold owed
  cases st <;> simp

/-- The credits that are still possible. -/
def Buyer.left (b : Buyer) : ℕ := if b.refunded then 0 else 1

/-- **No credit is lost exactly when no more are owed than are possible.** -/
theorem guarded_iff_owed : ∀ (sts : List Stage) (b : Buyer),
    Guarded Buyer.attempt (fun b st => ¬ b.Loses st) b sts ↔ b.seated = true ∨ owed sts ≤ b.left := by
  intro sts
  induction sts with
  | nil => intro b; simp [owed]
  | cons st sts ih =>
    intro b
    rw [guarded_cons, ih, owed_cons]
    cases hs : b.seated with
    | true => simp [Buyer.attempt, Buyer.Loses, hs]
    | false =>
      cases st with
      | refused => simp [Buyer.attempt, Buyer.Loses, hs]
      | unpaid => simp [Buyer.attempt, Buyer.Loses, hs]
      | seated => simp [Buyer.attempt, Buyer.Loses, hs]
      | unsaved => cases hr : b.refunded <;> simp [Buyer.attempt, Buyer.Loses, Buyer.left, hs, hr]

/-! ## Sellers -/

/-- A system that takes attempts of one user: whether an attempt succeeds, and the state after
it; whether the user is registered, and the balance. -/
structure Seller (σ α : Type*) where
  attempt : σ → α → Bool × σ
  registered : σ → Prop
  balance : σ → ℤ

variable {σ α : Type*}

namespace Seller

/-- The state after some attempts. -/
def after (d : Seller σ α) (w : σ) (as : List α) : σ := run (fun v a => (d.attempt v a).2) w as

/-- **All or nothing**: who fails is not registered by it and has what he had before; who
succeeds is registered and has paid one price in all. -/
def AllOrNothing (d : Seller σ α) (price : ℤ) (w : σ) (as : List α) : Prop :=
  ∀ bs a, bs ++ [a] <+: as →
    let v := d.after w bs
    let r := d.attempt v a
    if r.1 then d.registered r.2 ∧ d.balance r.2 = d.balance w - price
    else (d.registered r.2 → d.registered v) ∧ d.balance r.2 = d.balance v

/-- Who fails has what he had before. -/
theorem AllOrNothing.balance {d : Seller σ α} {price : ℤ} {w : σ} {as bs : List α} {a : α}
    (h : d.AllOrNothing price w as) (hpre : bs ++ [a] <+: as) (hno : (d.attempt (d.after w bs) a).1 = false) :
    d.balance (d.attempt (d.after w bs) a).2 = d.balance (d.after w bs) := by
  have hlast := h bs a hpre
  simp only [hno] at hlast
  exact hlast.2

/-- The attempts from `w` on do what `Buyer.attempt` does: `R` relates the states to the buyer. -/
structure Follows (d : Seller σ α) (price : ℤ) (stage : α → Stage) (w : σ) (R : Buyer → σ → Prop) : Prop where
  attempt : ∀ b v a, R b v → R (b.attempt (stage a)) (d.attempt v a).2
  answer : ∀ b v a, R b v → ((d.attempt v a).1 = true ↔ b.seated = false ∧ stage a = .seated)
  registered : ∀ b v, R b v → (d.registered v ↔ b.seated = true ∨ d.registered w)
  balance : ∀ b v, R b v → d.balance v = d.balance w - price * b.spent

namespace Follows

variable {d : Seller σ α} {price : ℤ} {stage : α → Stage} {w : σ} {R : Buyer → σ → Prop}

theorem after (h : d.Follows price stage w R) {b : Buyer} {v : σ} (hb : R b v) (as : List α) :
    R (run Buyer.attempt b (as.map stage)) (d.after v as) := by
  induction as generalizing b v with
  | nil => exact hb
  | cons a as ih => exact ih (h.attempt b v a hb)

/-- An attempt that fails leaves the seat as it was. -/
theorem failed (h : d.Follows price stage w R) {b : Buyer} {v : σ} {a : α} (hb : R b v)
    (ha : (d.attempt v a).1 = false) : (b.attempt (stage a)).seated = b.seated := by
  have hno : ¬ (b.seated = false ∧ stage a = .seated) := by
    intro hyes
    rw [(h.answer b v a hb).2 hyes] at ha
    cases ha
  rw [Bool.eq_iff_iff, Buyer.attempt_seated]
  constructor
  · rintro (hs | hst)
    · exact hs
    · exact Bool.eq_true_of_not_eq_false fun hs => hno ⟨hs, hst⟩
  · exact Or.inl

/-- One attempt is all or nothing exactly when it leaves the buyer square. -/
theorem attempt_iff (h : d.Follows price stage w R) {b : Buyer} {v : σ} (hb : R b v) (hsquare : price = 0 ∨ b.Square)
    (a : α) :
    (if (d.attempt v a).1 then d.registered (d.attempt v a).2 ∧ d.balance (d.attempt v a).2 = d.balance w - price
      else (d.registered (d.attempt v a).2 → d.registered v) ∧ d.balance (d.attempt v a).2 = d.balance v) ↔
      price = 0 ∨ (b.attempt (stage a)).Square := by
  have hb' := h.attempt b v a hb
  have hbalance := h.balance b v hb
  have hbalance' := h.balance _ _ hb'
  have hreg := h.registered b v hb
  have hreg' := h.registered _ _ hb'
  cases ha : (d.attempt v a).1 with
  | true =>
    -- he has the seat, and what he spent must be one price
    have hst := ((h.answer b v a hb).1 ha).2
    have hseated : (b.attempt (stage a)).seated = true := (b.attempt_seated _).2 (Or.inr hst)
    rw [if_pos rfl, hreg', hbalance', Buyer.Square, hseated, if_pos rfl]
    constructor
    · rintro ⟨-, hpaid⟩
      by_cases hp : price = 0
      · exact Or.inl hp
      · right
        have hone : price * ((b.attempt (stage a)).spent : ℤ) = price * 1 := by linarith
        exact_mod_cast mul_left_cancel₀ hp hone
    · rintro (hp | hone)
      · exact ⟨Or.inl rfl, by simp [hp]⟩
      · exact ⟨Or.inl rfl, by simp [hone]⟩
  | false =>
    -- he has what he had, and must have spent what he had spent
    have hseated := h.failed hb ha
    rw [if_neg (by simp), hreg', hreg, hseated, hbalance', hbalance]
    constructor
    · rintro ⟨-, hsame⟩
      rcases hsquare with hp | hsquare
      · exact Or.inl hp
      · by_cases hp : price = 0
        · exact Or.inl hp
        · right
          have heq : price * ((b.attempt (stage a)).spent : ℤ) = price * b.spent := by linarith
          have hspent : (b.attempt (stage a)).spent = b.spent := by exact_mod_cast mul_left_cancel₀ hp heq
          unfold Buyer.Square at hsquare ⊢
          rw [hspent, hseated, hsquare]
    · intro hsquare'
      refine ⟨id, ?_⟩
      rcases hsquare with hp | hsquare
      · simp [hp]
      · rcases hsquare' with hp | hsquare'
        · simp [hp]
        · unfold Buyer.Square at hsquare hsquare'
          rw [hsquare', hsquare, hseated]

/-- **When a seller is all or nothing**: a seat that costs something needs no more credits back
than its reference can give. -/
theorem allOrNothing_iff (h : d.Follows price stage w R) {refunded : Bool} (hw : R { refunded } w) (as : List α) :
    d.AllOrNothing price w as ↔ price = 0 ∨ owed (as.map stage) ≤ if refunded then 0 else 1 := by
  have hstart : Buyer.Square { refunded } := rfl
  have howed : (∀ sts, sts <+: as.map stage → (run Buyer.attempt { refunded } sts).Square) ↔
      owed (as.map stage) ≤ if refunded then 0 else 1 := by
    have hstep : ∀ b st, True → Buyer.Square b → ((b.attempt st).Square ↔ ¬ b.Loses st) :=
      fun _ st _ hb => Buyer.attempt_square hb st
    rw [← guarded_iff (fun _ _ _ => trivial) hstep trivial hstart, guarded_iff_owed]
    simp [Buyer.left]
  have hnext : ∀ bs a, run Buyer.attempt { refunded } ((bs ++ [a]).map stage) =
      (run Buyer.attempt { refunded } (bs.map stage)).attempt (stage a) := by
    intro bs a
    rw [List.map_append, run_append]
    rfl
  rw [← howed]
  constructor
  · intro hall
    by_cases hp : price = 0
    · exact Or.inl hp
    · right
      intro sts hsts
      obtain ⟨bs, hbs, rfl⟩ := List.prefix_map_iff.1 hsts
      clear hsts
      induction bs using List.reverseRecOn with
      | nil => exact hstart
      | append_singleton bs a ih =>
        have hold := ih ((List.prefix_append bs [a]).trans hbs)
        rw [hnext]
        exact ((h.attempt_iff (h.after hw bs) (Or.inr hold) a).1 (hall bs a hbs)).resolve_left hp
  · intro hall bs a hpre
    have hsquares : ∀ cs, cs <+: as → price = 0 ∨ (run Buyer.attempt { refunded } (cs.map stage)).Square :=
      fun cs hcs => hall.imp_right fun hsts => hsts _ (hcs.map stage)
    refine (h.attempt_iff (h.after hw bs) (hsquares bs ((List.prefix_append bs [a]).trans hpre)) a).2 ?_
    rw [← hnext]
    exact hsquares _ hpre

end Follows

/-- What a seller does at each stage while the row is `kept` as it is in `w`, where `used` says
that the reference is credited already. Who is registered is refused. -/
structure Rules (d : Seller σ α) (price : ℤ) (stage : α → Stage) (w : σ) (kept used : σ → Prop)
    [DecidablePred used] : Prop where
  start : kept w
  row : ∀ v, kept v → (d.registered v ↔ d.registered w)
  registered : ∀ v a, d.registered v → d.attempt v a = (false, v)
  refused : ∀ v a, kept v → stage a = .refused → d.attempt v a = (false, v)
  unpaid : ∀ v a, kept v → stage a = .unpaid → d.attempt v a = (false, v)
  unsaved : ∀ v a, kept v → stage a = .unsaved → (d.attempt v a).1 = false ∧ kept (d.attempt v a).2 ∧
    (price ≠ 0 → used (d.attempt v a).2) ∧
      d.balance (d.attempt v a).2 = d.balance v - if used v then price else 0
  seated : ∀ v a, kept v → stage a = .seated → (d.attempt v a).1 = true ∧ d.registered (d.attempt v a).2 ∧
    (used (d.attempt v a).2 ↔ used v) ∧ d.balance (d.attempt v a).2 = d.balance v - price

namespace Rules

variable {d : Seller σ α} {price : ℤ} {stage : α → Stage} {w : σ} {kept used : σ → Prop} [DecidablePred used]

/-- How a state stands to the buyer. -/
structure Stands (d : Seller σ α) (price : ℤ) (w : σ) (kept used : σ → Prop) (b : Buyer) (v : σ) : Prop where
  row : b.seated = false → kept v
  registered : b.seated = true → d.registered v
  used : price ≠ 0 → (used v ↔ b.refunded = true)
  balance : d.balance v = d.balance w - price * b.spent

/-- An attempt whose write fails: the debit is credited back, or the credit is lost. -/
theorem unsaved_stands (h : d.Rules price stage w kept used) {b : Buyer} {v : σ} (hb : Stands d price w kept used b v)
    (hs : b.seated = false) {a : α} (hst : stage a = .unsaved) :
    Stands d price w kept used (b.attempt .unsaved) (d.attempt v a).2 := by
  obtain ⟨-, hrow, hused, hbalance⟩ := h.unsaved v a (hb.row hs) hst
  have hold := hb.balance
  cases hr : b.refunded with
  | true =>
    have hnow : b.attempt .unsaved = { b with spent := b.spent + 1 } := by simp [Buyer.attempt, hs, hr]
    have hlost : (if used v then price else 0) = price := by
      by_cases hp : price = 0
      · simp [hp]
      · exact if_pos ((hb.used hp).2 hr)
    rw [hnow]
    refine ⟨fun _ => hrow, fun hseated => ?_, fun hp => ?_, ?_⟩
    · rw [show b.seated = true from hseated] at hs
      cases hs
    · exact iff_of_true (hused hp) hr
    · rw [hbalance, hold, hlost]
      push_cast
      ring
  | false =>
    have hnow : b.attempt .unsaved = { b with refunded := true } := by simp [Buyer.attempt, hs, hr]
    have hback : (if used v then price else 0) = 0 := by
      by_cases hp : price = 0
      · simp [hp]
      · refine if_neg fun hyes => ?_
        rw [(hb.used hp).1 hyes] at hr
        cases hr
    rw [hnow]
    refine ⟨fun _ => hrow, fun hseated => ?_, fun hp => ?_, ?_⟩
    · rw [show b.seated = true from hseated] at hs
      cases hs
    · exact iff_of_true (hused hp) rfl
    · rw [hbalance, hold, hback, Int.sub_zero]

/-- A desk with the rules follows its buyers. -/
theorem follows (h : d.Rules price stage w kept used) : d.Follows price stage w (Stands d price w kept used) := by
  have hkey : ∀ b v a, Stands d price w kept used b v → Stands d price w kept used (b.attempt (stage a)) (d.attempt v a).2 ∧
      ((d.attempt v a).1 = true ↔ b.seated = false ∧ stage a = .seated) := by
    intro b v a hb
    have hrefused : d.attempt v a = (false, v) → b.attempt (stage a) = b → ¬ (b.seated = false ∧ stage a = .seated) →
        Stands d price w kept used (b.attempt (stage a)) (d.attempt v a).2 ∧
          ((d.attempt v a).1 = true ↔ b.seated = false ∧ stage a = .seated) := by
      intro hv hsame hno
      rw [hv, hsame]
      exact ⟨hb, iff_of_false nofun hno⟩
    cases hs : b.seated with
    | true =>
      rw [hs] at hrefused
      exact hrefused (h.registered v a (hb.registered hs)) (by simp [Buyer.attempt, hs]) nofun
    | false =>
      have hrow := hb.row hs
      rw [hs] at hrefused
      cases hst : stage a with
      | refused =>
        rw [hst] at hrefused
        exact hrefused (h.refused v a hrow hst) (by simp [Buyer.attempt]) nofun
      | unpaid =>
        rw [hst] at hrefused
        exact hrefused (h.unpaid v a hrow hst) (by simp [Buyer.attempt]) nofun
      | unsaved =>
        refine ⟨h.unsaved_stands hb hs hst, iff_of_false ?_ nofun⟩
        rw [(h.unsaved v a hrow hst).1]
        exact nofun
      | seated =>
        obtain ⟨hyes, hreg, hused, hbalance⟩ := h.seated v a hrow hst
        refine ⟨?_, iff_of_true hyes ⟨rfl, rfl⟩⟩
        have hnow : b.attempt .seated = { b with seated := true, spent := b.spent + 1 } := by
          simp [Buyer.attempt, hs]
        rw [hnow]
        refine ⟨nofun, fun _ => hreg, fun hp => hused.trans (hb.used hp), ?_⟩
        rw [hbalance, hb.balance]
        push_cast
        ring
  refine ⟨fun b v a hb => (hkey b v a hb).1, fun b v a hb => (hkey b v a hb).2, fun b v hb => ?_, fun b v hb => hb.balance⟩
  cases hs : b.seated with
  | true => exact iff_of_true (hb.registered hs) (Or.inl rfl)
  | false =>
    rw [h.row v (hb.row hs)]
    simp

/-- **When a seller that keeps the rules is all or nothing.** -/
theorem allOrNothing_iff (h : d.Rules price stage w kept used) (as : List α) :
    d.AllOrNothing price w as ↔ price = 0 ∨ owed (as.map stage) ≤ if used w then 0 else 1 := by
  have hstart : Stands d price w kept used { refunded := decide (used w) } w := by
    refine ⟨fun _ => h.start, nofun, fun _ => ?_, ?_⟩
    · rw [decide_eq_true_iff]
    · simp
  rw [h.follows.allOrNothing_iff hstart]
  simp only [decide_eq_true_eq]

end Rules

end Seller

end Murlan.Saga
