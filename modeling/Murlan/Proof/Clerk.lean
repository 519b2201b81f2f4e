import Murlan.Spec.WithdrawalDesk

/-!
# What a withdrawal operation may do

The stages an operation goes through with the withdrawal it works on. `Desk.protocol`
says at which stage each query may be asked: a withdrawal is sent only by the
operation whose compare-and-set completed it, refunded only after a refusal or by the
one that rejected it, reversed only after the credit.

* `WithdrawalOperation.conforms`: every operation keeps to the protocol.
-/

namespace Murlan

variable {U : Type}

/-- `read`: the row was read; `claimed`: set to completed by this operation; `sending`: the
provider was called; `refused`: it answered with a definite failure; `refunded`: the refund
is booked; `voided`: set to rejected by this operation; `found`: read as completed by a
sweep; `reversed`: the reversal is booked; `done`: nothing more to do. -/
inductive Phase where
  | read | claimed | sending | refused | refunded | voided | found | reversed | done
  deriving DecidableEq, Repr

/-- How far an operation is with a withdrawal, and what it has read of it. -/
structure Stage (U : Type) where
  phase : Phase
  id : ℕ
  userId : U
  amountCents : ℕ

/-- The stage, in another phase. -/
def Stage.to (s : Stage U) (phase : Phase) : Stage U := { s with phase := phase }

@[simp] theorem Stage.to_phase (s : Stage U) (p : Phase) : (s.to p).phase = p := rfl

@[simp] theorem Stage.to_id (s : Stage U) (p : Phase) : (s.to p).id = s.id := rfl

@[simp] theorem Stage.to_userId (s : Stage U) (p : Phase) : (s.to p).userId = s.userId := rfl

@[simp] theorem Stage.to_amountCents (s : Stage U) (p : Phase) :
    (s.to p).amountCents = s.amountCents := rfl

/-- The stage a booked credit leads to. -/
def Phase.credited : Phase → Phase
  | .refused => .refunded
  | .found => .reversed
  | p => p

/-- The stage an answer leads to. -/
def Desk.next : (q : Desk U) → Except WithdrawalError q.Answer → Option (Stage U) → Option (Stage U)
  | .find id, .ok (some r), _ => some ⟨.read, id, r.userId, r.amountCents⟩
  | .findWithdrawal id, .ok (some r), _ =>
    if r.status = .completed then some ⟨.found, id, r.userId, r.amountCents⟩ else none
  | .findWithdrawal _, .ok none, _ => none
  | .setStatusIfPending _ .completed _, .ok (some _), g => g.map fun s => s.to .claimed
  | .setStatusIfPending _ _ _, .ok (some _), g => g.map fun s => s.to .voided
  | .rejectAndRefund _ _ _ _, .ok (some _), g => g.map fun s => s.to .voided
  | .send _ _ _, .ok _, g => g.map fun s => s.to .sending
  | .send _ _ _, .error _, g => g.map fun s => s.to .done
  | .outcome _, .ok r, g => g.map fun s => s.to (if r.refused then .refused else .done)
  | .outcome _, .error _, g => g.map fun s => s.to .done
  | .credit _ _ _, .ok _, g => g.map fun s => s.to s.phase.credited
  | .markReversed _, _, g => g.map fun s => s.to .done
  | _, _, g => g

/-- The stage at which a query may be asked. -/
def Desk.may (sweeps : Bool) : Desk U → Option (Stage U) → Prop
  | .setStatusIfPending id status _, g =>
    status ≠ .pending ∧ ∃ s, g = some s ∧ s.phase = .read ∧ s.id = id
  | .rejectAndRefund id _ u a, g => g = some ⟨.read, id, u, a⟩
  | .credit u a (.refund id), g => g = some ⟨.refused, id, u, a⟩ ∨ g = some ⟨.voided, id, u, a⟩
  | .credit u a (.reversal id), g => g = some ⟨.found, id, u, a⟩
  | .markReversed id, g => ∃ s, g = some s ∧ (s.phase = .refunded ∨ s.phase = .reversed) ∧ s.id = id
  | .send id _ _, g => ∃ s, g = some s ∧ s.phase = .claimed ∧ s.id = id
  | .outcome id, g => ∃ s, g = some s ∧ s.phase = .sending ∧ s.id = id
  | .findWithdrawal _, _ => sweeps = true
  | _, _ => True

/-- A clerk asks what its stage lets it, and every answer moves the stage. -/
def Desk.protocol (sweeps : Bool) :
    Async.Protocol (Desk U) Desk.Answer WithdrawalError (Option (Stage U)) where
  may := Desk.may sweeps
  reply q r g g' := g' = q.next r g

/-- What is known when the operation returns: a rejected withdrawal is void. -/
def WithdrawalOperation.post : WithdrawalOperation U → Option (Stage U) → Prop
  | .reject id _, g => ∃ s, g = some s ∧ s.phase = .voided ∧ s.id = id
  | _, _ => True

/-- The operation is the reconciler's. -/
def WithdrawalOperation.sweeps : WithdrawalOperation U → Bool
  | .reconcile => true
  | _ => false

section Rules

variable {α β : Type} {sweeps : Bool} {post : β → Option (Stage U) → Prop}
  {err : WithdrawalError → Option (Stage U) → Prop} {g : Option (Stage U)}

/-- A clerk asks by right and goes on with every answer. -/
theorem wp_ask {q : Desk U} {f : q.Answer → Clerk U β} (hmay : q.may sweeps g)
    (hok : ∀ r, (f r).wp (Desk.protocol sweeps) post err (q.next (.ok r) g))
    (herr : ∀ e, err e (q.next (.error e) g)) :
    (Async.await q >>= f).wp (Desk.protocol sweeps) post err g := by
  rw [Async.wp_bind, Async.wp_await]
  refine ⟨hmay, ?_, ?_⟩
  · rintro r g' rfl
    exact hok r
  · rintro e g' rfl
    exact herr e

theorem wp_guard {c : Prop} [Decidable c] {e : WithdrawalError} {f : Unit → Clerk U β}
    (herr : c → err e g) (hok : ¬ c → (f ()).wp (Desk.protocol sweeps) post err g) :
    (Async.throwIf c e >>= f).wp (Desk.protocol sweeps) post err g := by
  rw [Async.wp_bind, Async.wp_throwIf]
  exact ⟨herr, hok⟩

/-- A stamp whose failure is ignored changes no stage. -/
theorem wp_stamp {id : ℕ} {audit : WithdrawalResolution U} {f : Unit → Clerk U β}
    (h : (f ()).wp (Desk.protocol sweeps) post err g) :
    ((WithdrawalService.setAudit id audit).ignore >>= f).wp (Desk.protocol sweeps) post err g := by
  rw [Async.wp_bind, Async.ignore, Async.wp_tryCatch, WithdrawalService.setAudit]
  refine (Async.wp_await (Desk.setAudit id audit) g).mpr ⟨trivial, ?_, ?_⟩
  · rintro r g' rfl
    exact h
  · rintro e g' rfl
    exact h

end Rules

/-! ## The operations -/

namespace WithdrawalService

/-- Whatever an operation throws, it is over. -/
abbrev Conforms {α : Type} (sweeps : Bool) (post : α → Option (Stage U) → Prop) (p : Clerk U α)
    (g : Option (Stage U)) : Prop :=
  p.wp (Desk.protocol sweeps) post (fun _ _ => True) g

/-- A request keeps to the protocol. -/
theorem request_conforms (limits : WithdrawalLimits) (userId : U) (amountCents : ℤ)
    (destination : String) :
    Conforms false (fun _ _ => True) (request limits userId amountCents destination) none := by
  refine wp_guard (fun _ => trivial) fun _ => ?_
  refine wp_guard (fun _ => trivial) fun _ => ?_
  refine wp_guard (fun _ => trivial) fun _ => ?_
  refine wp_guard (fun _ => trivial) fun _ => ?_
  refine wp_ask trivial ?_ fun _ => trivial
  rintro (_ | rec)
  · trivial
  · trivial

/-- An approval keeps to the protocol. -/
theorem approve_conforms (id : ℕ) (audit : WithdrawalResolution U) (g : Option (Stage U)) :
    Conforms false (fun _ _ => True) (approve id audit) g := by
  refine wp_ask trivial ?_ fun _ => trivial
  rintro (_ | rec)
  · trivial
  · refine wp_ask ⟨by decide, _, rfl, rfl, rfl⟩ ?_ fun _ => trivial
    rintro (_ | claimed)
    · trivial
    · trivial

section

variable [DecidableEq U]

/-- A rejection keeps to the protocol, and ends with the withdrawal voided. -/
theorem reject_conforms (uow : Bool) (id : ℕ) (audit : WithdrawalResolution U) :
    Conforms false (fun _ g => ∃ s, g = some s ∧ s.phase = .voided ∧ s.id = id)
      (reject uow id audit) none := by
  refine wp_ask trivial ?_ fun _ => trivial
  rintro (_ | rec)
  · trivial
  refine wp_guard (fun _ => trivial) fun _ => ?_
  refine wp_guard (fun _ => trivial) fun _ => ?_
  cases uow with
  | true =>
    refine wp_ask rfl ?_ fun _ => trivial
    rintro (_ | claimed)
    · trivial
    · exact ⟨_, rfl, rfl, rfl⟩
  | false =>
    refine wp_ask ⟨by decide, _, rfl, rfl, rfl⟩ ?_ fun _ => trivial
    rintro (_ | claimed)
    · trivial
    · refine wp_ask (.inr rfl) ?_ fun _ => trivial
      intro _
      exact ⟨_, rfl, rfl, rfl⟩

/-- The provider's answer leads to a refund only when it is a refusal. -/
theorem payoutNow_conforms (isValidTronAddress : String → Bool) (provider : Bool) (id : ℕ)
    (resolvedByAdminId : Option U) :
    Conforms false (fun _ _ => True) (payoutNow isValidTronAddress provider id resolvedByAdminId)
      none := by
  refine wp_ask trivial ?_ fun _ => trivial
  rintro (_ | rec)
  · trivial
  refine wp_guard (fun _ => trivial) fun _ => ?_
  refine wp_guard (fun _ => trivial) fun _ => ?_
  refine wp_guard (fun _ => trivial) fun _ => ?_
  cases provider with
  | false => exact approve_conforms id _ _
  | true =>
    refine wp_ask ⟨by decide, _, rfl, rfl, rfl⟩ ?_ fun _ => trivial
    rintro (_ | claimed)
    · trivial
    refine (Async.wp_bind _ _ _).mpr (wp_ask ⟨_, rfl, rfl, rfl⟩ ?_ fun _ => trivial)
    intro _
    refine (Async.wp_await _ _).mpr ⟨⟨_, rfl, rfl, rfl⟩, ?_, fun _ _ _ => trivial⟩
    rintro r g' rfl
    dsimp only
    split
    · exact wp_stamp trivial
    split
    · exact wp_stamp trivial
    split
    · exact wp_stamp trivial
    · rename_i hok hduplicate hambiguous
      have hrefused : r.refused = true := by simp [PayoutResult.refused, hok, hduplicate, hambiguous]
      refine wp_ask (.inl ?_) ?_ fun _ => trivial
      · simp [Desk.next, Stage.to, hrefused]
      intro _
      refine wp_ask ⟨_, rfl, .inl ?_, rfl⟩ ?_ fun _ => trivial
      · simp [Stage.to, hrefused, Phase.credited]
      intro _
      trivial

end

/-- A provider that throws is treated as ambiguous, and a refund that fails ends nothing. -/
theorem autoPayout_conforms (isValidTronAddress : String → Bool) (id : ℕ) :
    Conforms (U := U) false (fun _ _ => True) (autoPayout isValidTronAddress id) none := by
  refine wp_ask trivial ?_ fun _ => trivial
  rintro (_ | rec)
  · trivial
  dsimp only
  split
  · trivial
  split
  · trivial
  refine wp_ask ⟨by decide, _, rfl, rfl, rfl⟩ ?_ fun _ => trivial
  rintro (_ | claimed)
  · trivial
  -- the rest is safe after a refusal, or with an answer that is none
  rw [Async.wp_bind, Async.wp_tryCatch]
  refine wp_ask ⟨_, rfl, rfl, rfl⟩ ?_ ?_
  · intro _
    refine (Async.wp_await _ _).mpr ⟨⟨_, rfl, rfl, rfl⟩, ?_, ?_⟩
    · rintro r g' rfl
      split
      · exact wp_stamp trivial
      split
      · exact wp_stamp trivial
      split
      · exact wp_stamp trivial
      · rename_i hok hduplicate hambiguous
        have hrefused : r.refused = true := by simp [PayoutResult.refused, hok, hduplicate, hambiguous]
        rw [Async.wp_bind, Async.ignore, Async.wp_tryCatch]
        refine wp_ask (.inl ?_) ?_ fun _ => trivial
        · simp [Desk.next, Stage.to, hrefused]
        intro _
        refine (Async.wp_await _ _).mpr ⟨⟨_, rfl, .inl ?_, rfl⟩, fun _ _ _ => trivial, fun _ _ _ => trivial⟩
        simp [Stage.to, hrefused, Phase.credited]
    · rintro e g' rfl
      exact wp_stamp trivial
  · intro e
    exact wp_stamp trivial

/-- A record is reconciled by the protocol. -/
theorem reconcileOne_conforms (r : BinanceWithdrawalStatus) (g : Option (Stage U)) :
    Conforms true (fun _ _ => True) (reconcileOne r) g := by
  unfold reconcileOne
  split
  · trivial
  refine wp_ask rfl ?_ fun _ => trivial
  rintro (_ | wd)
  · trivial
  dsimp only
  split
  · trivial
  rename_i hcompleted
  have hstatus : wd.status = .completed := by simpa using hcompleted
  -- with or without the notice of a different amount
  have hrest : ∀ g', g' = some ⟨.found, r.withdrawOrderId, wd.userId, wd.amountCents⟩ →
      Conforms true (fun _ _ => True) (do
        credit wd.userId wd.amountCents (.reversal r.withdrawOrderId)
        markReversed r.withdrawOrderId
        Async.await Desk.notify
        pure true) g' := by
    rintro g' rfl
    refine wp_ask rfl ?_ fun _ => trivial
    intro _
    refine wp_ask ⟨_, rfl, .inr rfl, rfl⟩ ?_ fun _ => trivial
    intro _
    refine wp_ask trivial ?_ fun _ => trivial
    intro _
    trivial
  split
  · refine wp_ask trivial ?_ fun _ => trivial
    intro _
    exact hrest _ (if_pos hstatus)
  · exact hrest _ (if_pos hstatus)

/-- All records are. -/
theorem reconcileAll_conforms (records : List BinanceWithdrawalStatus) (g : Option (Stage U)) :
    Conforms true (fun _ _ => True) (reconcileAll records) g := by
  induction records generalizing g with
  | nil => trivial
  | cons r records ih =>
    refine (Async.wp_bind _ _ _).mpr (Async.wp_mono (reconcileOne_conforms r g) ?_ fun _ _ _ => trivial)
    intro reversed g' _
    refine (Async.wp_bind _ _ _).mpr (Async.wp_mono (ih g') ?_ fun _ _ _ => trivial)
    intro count g'' _
    trivial

end WithdrawalService

variable [DecidableEq U]

/-- **Every withdrawal operation keeps to the protocol.** -/
theorem WithdrawalOperation.conforms (setup : WithdrawalSetup) (op : WithdrawalOperation U) :
    (op.program setup).wp (Desk.protocol op.sweeps) (fun _ g => op.post g) (fun _ _ => True) none := by
  have close : ∀ {α : Type} {p : Clerk U α} {receipt : α → WithdrawalReceipt U} {sweeps : Bool}
      (post : Option (Stage U) → Prop),
      WithdrawalService.Conforms sweeps (fun _ g => post g) p none →
      WithdrawalService.Conforms sweeps (fun _ g => post g) (p >>= fun a => pure (receipt a)) none := by
    intro α p receipt sweeps post h
    exact (Async.wp_bind _ _ _).mpr (Async.wp_mono h (fun _ _ h => h) fun _ _ h => h)
  cases op with
  | request userId amountCents destination =>
    exact close _ (WithdrawalService.request_conforms setup.limits userId amountCents destination)
  | approve id audit => exact close _ (WithdrawalService.approve_conforms id audit none)
  | reject id audit => exact close _ (WithdrawalService.reject_conforms setup.uow id audit)
  | payoutNow provider id admin =>
    exact close _ (WithdrawalService.payoutNow_conforms setup.isValidTronAddress provider id admin)
  | autoPayout id => exact close _ (WithdrawalService.autoPayout_conforms setup.isValidTronAddress id)
  | reconcile =>
    refine close (fun _ => True) (wp_ask trivial ?_ fun _ => trivial)
    intro records
    exact WithdrawalService.reconcileAll_conforms records _

end Murlan
