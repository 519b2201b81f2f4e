import Murlan.Proof.DepositRows

/-!
# What a deposit knows

A capped deposit of a user asks the repositories step by step, and its phase (`DepositPhase`) says
what the answers have told it: whether its reference is booked, that it is within the cap, when its
row was inserted. `CappedDeposit.conforms`: what it may ask in which phase (`May`), and what its
end says (`Credits`, `Blames`). `WalletOp.beside_asks`: the other calls insert no deposit of the user.
-/

namespace Murlan

/-- How far a deposit is: its reference is not booked, or it is; the cap was checked, at this
time; its row was inserted, at this time, and the balance was changed. -/
inductive DepositPhase where
  | begun | unbooked | found
  | judged (ms : ℕ)
  | refused (ms : ℕ)
  | booked (ms : ℕ)
  | credited (ms : ℕ)
  | closed

/-- In these phases a deposit has no row, or only one that no transaction can take back. -/
def DepositPhase.settled : DepositPhase → Bool
  | .booked _ | .credited _ => false
  | _ => true

/-- In these phases a deposit has no row. -/
def DepositPhase.rowless : DepositPhase → Bool
  | .booked _ | .credited _ | .closed => false
  | _ => true

/-- What is known of a call: when it was started, whether its reference was booked then and the
user had an account. -/
structure DepositSeen where
  since : ℕ
  replay : Bool := false
  account : Bool := false
  phase : DepositPhase := .begun

/-- A rollback takes the row back. -/
def DepositSeen.rolledBack (g : DepositSeen) : DepositSeen :=
  match g.phase with
  | .refused _ => g
  | _ => { g with phase := .closed }

/-- Only the repositories fail, for a replay only those of a unit of work. -/
def Fails {U α : Type} (uow : Bool) (r : Except (ServiceError U) α) (g : DepositSeen) : Prop :=
  ∀ e, r = .error e → e = .store ∧ (g.replay = true → uow = true)

namespace CappedDeposit

variable {U M : Type}

/-- An amount that is accepted. -/
def Valid (d : CappedDeposit M) : Prop := 0 < d.amountCents ∧ d.amountCents ≤ maxAmountCents

/-- The row of the deposit. -/
def row (u : U) (d : CappedDeposit M) : Transaction U M :=
  { WalletService.creditRow u d.amountCents d.options with providerRef := some d.providerRef }

/-- The statement that inserts it. -/
abbrev insertion (u : U) (d : CappedDeposit M) : Statement U M :=
  .appendIdempotent d.providerRef (WalletService.creditRow u d.amountCents d.options)

/-- What a capped deposit may ask, by its phase. -/
def May (uow : Bool) (u : U) (d : CappedDeposit M) (g : DepositSeen) : WalletQuery U M → Prop
  | .statement (.findById v) => v = u ∧ (g.phase = .begun ∨ g.phase = .closed)
  | .statement (.advisoryXactLock _) => g.phase = .begun
  | .statement (.findByProviderRef ref) => ref = d.providerRef ∧ g.phase = .begun
  | .statement (.depositsToday v) => v = u ∧ g.phase = .unbooked ∧ g.replay = false
  | .statement (.appendIdempotent ref tx) =>
    ref = d.providerRef ∧ tx = WalletService.creditRow u d.amountCents d.options ∧ 0 < d.amountCents ∧
      (g.phase = .found ∨ ∃ ms, g.phase = .judged ms)
  | .statement (.adjustBalance _ _) => (∃ ms, g.phase = .booked ms) ∧ g.replay = false
  | .statement (.append _) | .statement .recordAudit => False
  | .commit => uow = true ∧ (g.phase = .closed ∨ ∃ ms, g.phase = .credited ms)
  | .rollback => uow = true

/-- What an answer says. -/
def Learns (d : CappedDeposit M) (g g' : DepositSeen) : (q : WalletQuery U M) → Except (ServiceError U) q.Answer → Prop
  | .statement (.findById _), r => g' = g ∧ (r = .ok none → g.account = false)
  | .statement (.findByProviderRef _), .ok none => g.replay = false ∧ g' = { g with phase := .unbooked }
  | .statement (.findByProviderRef _), .ok (some _) => g' = { g with phase := .found }
  | .statement (.depositsToday _), .ok used =>
    ∃ ms, g' = { g with phase := if used + d.amountCents ≤ d.depositCapCents then .judged ms else .refused ms }
  | .statement (.appendIdempotent _ _), .ok (_, true) => g.replay = false ∧ ∃ ms, g' = { g with phase := .booked ms }
  | .statement (.appendIdempotent _ _), .ok (_, false) => g' = { g with phase := .closed }
  | .statement (.appendIdempotent _ _), .error _ => g' = g ∨ ∃ ms, g' = { g with phase := .booked ms }
  | .statement (.adjustBalance _ _), .ok (some _) => ∃ ms, g' = { g with phase := .credited ms }
  | .commit, _ => g' = { g with phase := .closed }
  | .rollback, _ => g' = g.rolledBack
  | _, _ => g' = g

/-- The protocol of a capped deposit. -/
def protocol (uow : Bool) (u : U) (d : CappedDeposit M) :
    Async.Protocol (WalletQuery U M) WalletQuery.Answer (ServiceError U) DepositSeen where
  may q g := d.May uow u g q
  reply q r g g' := Fails uow r g ∧ d.Learns g g' q r

variable {uow : Bool} {u : U} {d : CappedDeposit M} {g g' : DepositSeen}

/-- An answer changes the phase only. -/
theorem Learns.same {q : WalletQuery U M} {r : Except (ServiceError U) q.Answer} (h : d.Learns g g' q r) :
    g'.since = g.since ∧ g'.replay = g.replay ∧ g'.account = g.account := by
  unfold Learns at h
  split at h
  · rw [h.1]
    exact ⟨rfl, rfl, rfl⟩
  · rw [h.2]
    exact ⟨rfl, rfl, rfl⟩
  · rw [h]
    exact ⟨rfl, rfl, rfl⟩
  · obtain ⟨ms, rfl⟩ := h
    exact ⟨rfl, rfl, rfl⟩
  · obtain ⟨-, ms, rfl⟩ := h
    exact ⟨rfl, rfl, rfl⟩
  · rw [h]
    exact ⟨rfl, rfl, rfl⟩
  · rcases h with rfl | ⟨ms, rfl⟩
    · exact ⟨rfl, rfl, rfl⟩
    · exact ⟨rfl, rfl, rfl⟩
  · obtain ⟨ms, rfl⟩ := h
    exact ⟨rfl, rfl, rfl⟩
  · rw [h]
    exact ⟨rfl, rfl, rfl⟩
  · rw [h]
    unfold DepositSeen.rolledBack
    split
    · exact ⟨rfl, rfl, rfl⟩
    · exact ⟨rfl, rfl, rfl⟩
  · rw [h]
    exact ⟨rfl, rfl, rfl⟩

/-! ## What a deposit knows -/

/-- The protocol of the statements. -/
def statements (uow : Bool) (u : U) (d : CappedDeposit M) :
    Async.Protocol (Statement U M) Statement.Answer (ServiceError U) DepositSeen where
  may q := (protocol uow u d).may (.statement q)
  reply q := (protocol uow u d).reply (.statement q)

/-- What a deposit returns: a replay is idempotent. -/
def Credits (r : MoveResult U M) (g : DepositSeen) : Prop :=
  (g.replay = true → r.idempotent = true) ∧ (g.phase = .closed ∨ ∃ ms, g.phase = .credited ms)

/-- Why a deposit fails: above the cap, or not a valid replay, or in the database. -/
def Blames (uow : Bool) (d : CappedDeposit M) (e : ServiceError U) (g : DepositSeen) : Prop :=
  (∀ v used a c, e = .depositCapExceeded v used a c → ∃ ms, g.phase = .refused ms) ∧
    (d.Valid → g.replay = true → g.account = true → uow = true ∧ e = .store)

/-- A transaction that has ended has no row of its own. -/
def Free (uow : Bool) (g : DepositSeen) : Prop := uow = true → g.phase.settled = true

theorem Blames.of_store (hfails : g.replay = true → uow = true) : Blames uow d (.store : ServiceError U) g :=
  ⟨fun _ _ _ _ h => (by cases h), fun _ hreplay _ => ⟨hfails hreplay, rfl⟩⟩

theorem Blames.of_new {e : ServiceError U} (hnew : g.replay = false)
    (hcap : ∀ v used a c, e = .depositCapExceeded v used a c → ∃ ms, g.phase = .refused ms) : Blames uow d e g := by
  refine ⟨hcap, fun _ hreplay => ?_⟩
  rw [hnew] at hreplay
  cases hreplay

section Programs

variable {α : Type} {post : α → DepositSeen → Prop}

/-- One statement: what fails is the repositories' fault. -/
theorem await_wp {q : Statement U M} {post : q.Answer → DepositSeen → Prop} (hmay : d.May uow u g (.statement q))
    (h : ∀ r g', d.Learns g g' (.statement q) (.ok r) → post r g') :
    (Async.await q : Service U M q.Answer).wp (statements uow u d) post (Blames uow d) g := by
  refine (Async.wp_await _ _).mpr ⟨hmay, fun r g' hr => h r g' hr.2, ?_⟩
  intro e g' hr
  obtain ⟨rfl, hreplay⟩ := hr.1 e rfl
  obtain ⟨-, hsame, -⟩ := hr.2.same
  refine .of_store fun h' => hreplay ?_
  rw [← hsame]
  exact h'

theorem Blames.of_invalid {e : WalletError U} (hinvalid : ¬d.Valid) : Blames uow d (.wallet e) g :=
  ⟨fun _ _ _ _ h => (by cases h), fun hvalid => absurd hvalid hinvalid⟩

/-- The check of the amount passes or throws. -/
theorem assertAmount_wp {post : Unit → DepositSeen → Prop} {err : ServiceError U → DepositSeen → Prop}
    (herr : ∀ e : WalletError U, ¬d.Valid → err (.wallet e) g) (h : d.Valid → post () g) :
    (WalletService.assertAmount d.amountCents : Service U M Unit).wp (statements uow u d) post err g := by
  unfold WalletService.assertAmount
  rw [Async.wp_bind, Async.wp_throwIf]
  refine ⟨fun hle => herr _ fun hvalid => ?_, fun hpos => ?_⟩
  · have hgt := hvalid.1
    omega
  rw [Async.wp_throwIf]
  refine ⟨fun hlt => herr _ fun hvalid => ?_, fun hle => h ⟨not_le.mp hpos, not_lt.mp hle⟩⟩
  have hle := hvalid.2
  omega

/-- The check: the reference is booked, or the deposit is within the cap. -/
theorem assertDepositCap_wp (hbegun : g.phase = .begun) :
    (WalletService.assertDepositCap u d.amountCents d.providerRef (some d.depositCapCents) : Service U M Unit).wp
      (statements uow u d)
      (fun _ g' => g'.replay = g.replay ∧ g'.account = g.account ∧
        (g'.phase = .found ∨ (g.replay = false ∧ ∃ ms, g'.phase = .judged ms))) (Blames uow d) g := by
  unfold WalletService.assertDepositCap
  refine (Async.wp_bind _ _ _).mpr (await_wp ⟨rfl, hbegun⟩ fun found g' hfound => ?_)
  cases found with
  | some row =>
    obtain rfl := hfound
    exact ⟨rfl, rfl, .inl rfl⟩
  | none =>
    obtain ⟨hnew, rfl⟩ := hfound
    refine (Async.wp_bind _ _ _).mpr (await_wp ⟨rfl, rfl, hnew⟩ fun used g' hused => ?_)
    obtain ⟨ms, rfl⟩ := hused
    rw [Async.wp_throwIf]
    refine ⟨fun habove => .of_new hnew fun _ _ _ _ _ => ⟨ms, if_neg (not_le.mpr habove)⟩, fun hwithin => ?_⟩
    exact ⟨rfl, rfl, .inr ⟨hnew, ms, if_pos (not_lt.mp hwithin)⟩⟩

/-- A deposit with a reference keeps to the protocol. -/
theorem creditOnce_wp {current : ℤ} (hvalid : d.Valid) (hbegun : g.phase = .begun) :
    (WalletService.creditOnce u current d.amountCents d.options d.providerRef (some d.depositCapCents) :
      Service U M (MoveResult U M)).wp (statements uow u d) Credits (Blames uow d) g := by
  unfold WalletService.creditOnce
  refine (Async.wp_bind _ _ _).mpr (Async.wp_mono (assertDepositCap_wp hbegun) ?_ fun _ _ h => h)
  rintro _ g₁ ⟨-, -, hphase⟩
  have hmay : g₁.phase = .found ∨ ∃ ms, g₁.phase = .judged ms := hphase.imp_right fun h => h.2
  refine (Async.wp_bind _ _ _).mpr (await_wp ⟨rfl, rfl, hvalid.1, hmay⟩ ?_)
  rintro ⟨row, created⟩ g₂ hbooked
  cases created with
  | false =>
    obtain rfl := hbooked
    refine (Async.wp_bind _ _ _).mpr (await_wp ⟨rfl, .inr rfl⟩ fun balance g' hbalance => ?_)
    rw [hbalance.1]
    exact ⟨fun _ => rfl, .inl rfl⟩
  | true =>
    obtain ⟨hnew, ms, rfl⟩ := hbooked
    refine (Async.wp_bind _ _ _).mpr ?_
    unfold WalletService.assertCeiling
    rw [Async.wp_throwIf]
    refine ⟨fun _ => .of_new hnew fun _ _ _ _ h => (by cases h), fun _ => ?_⟩
    refine (Async.wp_bind _ _ _).mpr (await_wp ⟨⟨ms, rfl⟩, hnew⟩ fun moved g' hmoved => ?_)
    cases moved with
    | none =>
      obtain rfl := hmoved
      exact .of_new hnew fun _ _ _ _ h => (by cases h)
    | some balanceCents =>
      obtain ⟨ms', rfl⟩ := hmoved
      refine ⟨fun hreplay => ?_, .inr ⟨ms', rfl⟩⟩
      have hreplay' : g₁.replay = true := hreplay
      rw [hnew] at hreplay'
      cases hreplay'

/-- The wiring adds nothing. -/
theorem run_wp {w : Wiring} {lockKey : Option U} {body : Service U M (MoveResult U M)} (hbegun : g.phase = .begun)
    (h : body.wp (statements uow u d) Credits (Blames uow d) g) :
    (WalletService.run w lockKey body).wp (statements uow u d) Credits (Blames uow d) g := by
  unfold WalletService.run
  split
  · rename_i v
    have hmay : d.May uow u g (.statement (.advisoryXactLock v)) := hbegun
    refine (Async.wp_bind _ _ _).mpr (await_wp hmay fun r g' hlock => ?_)
    obtain rfl := hlock
    exact h
  · exact h

/-- A deposit keeps to the protocol. -/
theorem credit_wp {w : Wiring} (hbegun : g.phase = .begun) :
    (WalletService.credit w u d.amountCents d.options (some d.depositCapCents) : Service U M (MoveResult U M)).wp
      (statements uow u d) Credits (Blames uow d) g := by
  unfold WalletService.credit
  refine (Async.wp_bind _ _ _).mpr (assertAmount_wp (fun _ => .of_invalid) fun hvalid => run_wp hbegun ?_)
  refine (Async.wp_bind _ _ _).mpr (await_wp ⟨rfl, .inl hbegun⟩ fun found g' hfound => ?_)
  obtain ⟨rfl, hnone⟩ := hfound
  cases found with
  | none =>
    refine ⟨fun _ _ _ _ h => (by cases h), fun _ _ haccount => ?_⟩
    rw [hnone rfl] at haccount
    cases haccount
  | some current => exact creditOnce_wp hvalid hbegun

end Programs

/-- A deposit rolled back blames the same. -/
theorem rolledBack_ok {e : ServiceError U} (h : Blames uow d e g) : Blames uow d e g.rolledBack ∧ Free uow g.rolledBack := by
  unfold DepositSeen.rolledBack
  split
  · rename_i ms hphase
    refine ⟨h, fun _ => ?_⟩
    rw [hphase]
    rfl
  · rename_i hphase
    refine ⟨⟨fun v used a c he => ?_, h.2⟩, fun _ => rfl⟩
    obtain ⟨ms, hms⟩ := h.1 v used a c he
    exact absurd hms (hphase ms)

/-- In a transaction what the body has left open is committed or rolled back. -/
theorem transaction_wp {fn : WalletProgram U M (MoveResult U M)} (huow : uow = true)
    (h : fn.wp (protocol uow u d) Credits (Blames uow d) g) :
    (WalletOp.transaction fn).wp (protocol uow u d) (fun r g' => Credits r g' ∧ Free uow g')
      (fun e g' => Blames uow d e g' ∧ Free uow g') g := by
  have hclosed : ∀ g' : DepositSeen, Free uow { g' with phase := .closed } := fun _ _ => rfl
  unfold WalletOp.transaction
  refine (Async.wp_bind _ _ _).mpr ((Async.wp_tryCatch _ _ _).mpr (Async.wp_mono h ?_ ?_))
  · rintro result g₁ ⟨hreplay, hphase⟩
    refine (Async.wp_bind _ _ _).mpr ((Async.wp_await _ _).mpr ⟨⟨huow, hphase⟩, ?_, ?_⟩)
    · rintro r g₂ ⟨-, rfl⟩
      exact ⟨⟨hreplay, .inl rfl⟩, hclosed g₁⟩
    · rintro e g₂ ⟨hfails, rfl⟩
      obtain ⟨rfl, hstore⟩ := hfails e rfl
      exact ⟨.of_store hstore, hclosed g₁⟩
  · intro e g₁ hblame
    refine (Async.wp_bind _ _ _).mpr ((Async.wp_tryCatch _ _ _).mpr ((Async.wp_await _ _).mpr ⟨huow, ?_, ?_⟩))
    · rintro r g₂ ⟨-, rfl⟩
      exact rolledBack_ok hblame
    · rintro e' g₂ ⟨-, rfl⟩
      exact rolledBack_ok hblame

/-- **What a deposit asks, and what it says at its end.** -/
theorem conforms (hbegun : g.phase = .begun) :
    ((DepositorOp.deposit (u := u) d).call.program uow).wp (protocol uow u d)
      (fun r g' => Credits r g' ∧ Free uow g') (fun e g' => Blames uow d e g' ∧ Free uow g') g := by
  have hbody : ∀ w : Wiring, (WalletOp.onRepositories ((DepositorOp.deposit (u := u) d).call.body w)).wp (protocol uow u d)
      Credits (Blames uow d) g := by
    intro w
    exact (Async.wp_lift _ _ _).mpr (credit_wp hbegun)
  unfold WalletOp.program
  split
  · rename_i huow
    refine (Async.wp_bind _ _ _).mpr ((Async.wp_lift _ _ _).mpr (assertAmount_wp (fun e hinvalid => ?_) fun _ => ?_))
    · refine ⟨.of_invalid hinvalid, fun _ => ?_⟩
      rw [hbegun]
      rfl
    · exact transaction_wp huow (hbody .own)
  · rename_i huow
    have hdirect : ∀ g' : DepositSeen, Free uow g' := fun g' h => absurd h huow
    exact Async.wp_mono (hbody .direct) (fun r g' h => ⟨h, hdirect g'⟩) fun e g' h => ⟨h, hdirect g'⟩

/-- Only the check refuses a deposit, unless a transaction is rolled back. -/
theorem Learns.refused {q : WalletQuery U M} {r : Except (ServiceError U) q.Answer} (h : d.Learns g g' q r)
    (hmay : d.May uow u g q) {ms : ℕ} (hrefused : g'.phase = .refused ms) :
    (∃ v, q = .statement (.depositsToday v)) ∨ uow = true := by
  -- a phase that stays is not one of refusal
  have hsame : g' = g → g.phase ≠ .refused ms → False := by
    rintro rfl hnot
    exact hnot hrefused
  cases q with
  | commit => exact .inr hmay.1
  | rollback => exact .inr hmay
  | statement q =>
    left
    cases q with
    | depositsToday v => exact ⟨v, rfl⟩
    | append tx => exact hmay.elim
    | recordAudit => exact hmay.elim
    | findById v =>
      refine (hsame h.1 ?_).elim
      rcases hmay.2 with hp | hp
      · simp [hp]
      · simp [hp]
    | advisoryXactLock v =>
      have hp : g.phase = .begun := hmay
      exact (hsame h (by simp [hp])).elim
    | findByProviderRef ref =>
      cases r with
      | error e => exact (hsame h (by simp [hmay.2])).elim
      | ok found =>
        cases found with
        | none =>
          rw [h.2] at hrefused
          cases hrefused
        | some row =>
          rw [show g' = { g with phase := .found } from h] at hrefused
          cases hrefused
    | appendIdempotent ref tx =>
      cases r with
      | error e =>
        rcases h with hg | ⟨ms', rfl⟩
        · refine (hsame hg ?_).elim
          rcases hmay.2.2.2 with hp | ⟨ms', hp⟩
          · simp [hp]
          · simp [hp]
        · cases hrefused
      | ok res =>
        obtain ⟨row, created⟩ := res
        cases created with
        | false =>
          rw [show g' = { g with phase := .closed } from h] at hrefused
          cases hrefused
        | true =>
          obtain ⟨-, ms', rfl⟩ := h
          cases hrefused
    | adjustBalance v x =>
      obtain ⟨⟨ms', hp⟩, -⟩ := hmay
      cases r with
      | error e => exact (hsame h (by simp [hp])).elim
      | ok moved =>
        cases moved with
        | none => exact (hsame h (by simp [hp])).elim
        | some b =>
          obtain ⟨ms'', rfl⟩ := h
          cases hrefused

end CappedDeposit

/-! ## The calls beside them -/

namespace WalletOp

variable {U M : Type} {u : U}

/-- The row is no deposit of the user. -/
def Elsewhere (u : U) (tx : Transaction U M) : Prop := tx.account = .user u → tx.type ≠ .deposit

/-- The query inserts no deposit of the user. -/
def Harmless (u : U) (q : WalletQuery U M) : Prop := ∀ tx, q.row = some tx → Elsewhere u tx

section Asks

variable {v : U} {amountCents current : ℤ}

theorem harmless_none {q : WalletQuery U M} (h : q.row = none) : Harmless u q := by
  intro tx htx
  rw [h] at htx
  cases htx

theorem assertAmount_asks :
    (WalletService.assertAmount amountCents : Service U M Unit).Asks fun q => Harmless u (.statement q) :=
  .bind (.throwIf _ _) fun _ => .throwIf _ _

theorem run_asks {w : Wiring} {lockKey : Option U} {body : Service U M (MoveResult U M)}
    (h : body.Asks fun q => Harmless u (.statement q)) :
    (WalletService.run w lockKey body).Asks fun q => Harmless u (.statement q) := by
  unfold WalletService.run
  split
  · exact .bind (.await (harmless_none rfl)) fun _ => h
  · exact h

/-- The check of another user's cap asks nothing of this one's. -/
theorem assertDepositCap_asks {ref : ProviderRef M} {cap : Option ℤ} :
    (WalletService.assertDepositCap v amountCents ref cap : Service U M Unit).Asks fun q => Harmless u (.statement q) := by
  cases cap with
  | none => trivial
  | some c =>
    refine .bind (.await (harmless_none rfl)) fun found => ?_
    cases found with
    | some row => trivial
    | none => exact .bind (.await (harmless_none rfl)) fun _ => .throwIf _ _

/-- Another user's credit asks nothing of this one's deposits. -/
theorem creditOnce_asks {opts : CreditOptions M} {ref : ProviderRef M} {cap : Option ℤ}
    (h : Elsewhere u (WalletService.creditRow v amountCents opts)) :
    (WalletService.creditOnce v current amountCents opts ref cap).Asks fun q => Harmless u (.statement q) := by
  have hrow : Harmless u (.statement (.appendIdempotent ref (WalletService.creditRow v amountCents opts))) := by
    intro tx htx
    cases htx
    exact h
  refine .bind assertDepositCap_asks fun _ => .bind (.await hrow) fun inserted => ?_
  split
  · refine .bind (.throwIf _ _) fun _ => .bind (.await (harmless_none rfl)) fun moved => ?_
    cases moved with
    | none => trivial
    | some b => trivial
  · exact .bind (.await (harmless_none rfl)) fun _ => trivial

/-- So with a credit without a reference. -/
theorem creditPlain_asks {w : Wiring} {opts : CreditOptions M}
    (h : Elsewhere u (WalletService.creditRow v amountCents opts)) :
    (WalletService.creditPlain w v current amountCents opts).Asks fun q => Harmless u (.statement q) := by
  have hrow : ∀ tx : Transaction U M, Elsewhere u tx → Harmless u (.statement (.append tx)) := by
    intro tx htx tx' htx'
    cases htx'
    exact htx
  refine .bind (.throwIf _ _) fun _ => .bind (.await (hrow _ h)) fun _ => .bind (.await (harmless_none rfl)) fun moved => ?_
  cases moved with
  | some b => trivial
  | none =>
    dsimp only
    split
    · refine .bind (.ignore (.await (hrow _ ?_))) fun _ => trivial
      exact h
    · trivial

/-- So with any credit. -/
theorem credit_asks {w : Wiring} {opts : CreditOptions M} {cap : Option ℤ}
    (h : Elsewhere u (WalletService.creditRow v amountCents opts)) :
    (WalletService.credit w v amountCents opts cap).Asks fun q => Harmless u (.statement q) := by
  refine .bind assertAmount_asks fun _ => run_asks (.bind (.await (harmless_none rfl)) fun found => ?_)
  cases found with
  | none => trivial
  | some current =>
    dsimp only
    split
    · exact creditOnce_asks h
    · exact creditPlain_asks h

/-- So with a debit. -/
theorem debit_asks {w : Wiring} {opts : DebitOptions M} (h : Elsewhere u (WalletService.debitRow v amountCents opts)) :
    (WalletService.debit w v amountCents opts).Asks fun q => Harmless u (.statement q) := by
  have hrow : Harmless u (.statement (.append (WalletService.debitRow v amountCents opts))) := by
    intro tx htx
    cases htx
    exact h
  refine .bind assertAmount_asks fun _ => run_asks (.bind (.await (harmless_none rfl)) fun moved => ?_)
  cases moved with
  | none => exact .bind (.await (harmless_none rfl)) fun _ => trivial
  | some b =>
    refine .tryCatch (.bind (.await hrow) fun _ => trivial) fun e => ?_
    dsimp only
    split
    · exact .bind (.await (harmless_none rfl)) fun _ => trivial
    · trivial

/-- So with every call beside. -/
theorem beside_asks {uow : Bool} {op : WalletOp U M} (h : op.Beside u) : (op.program uow).Asks (Harmless u) := by
  have hbody : ∀ w : Wiring, (onRepositories (op.body w)).Asks (Harmless u) := by
    intro w
    refine .lift _ ?_
    cases op with
    | credit v amountCents opts cap =>
      refine credit_asks fun haccount => ?_
      cases haccount
      exact (h rfl).1
    | debit v amountCents opts =>
      refine debit_asks fun haccount => ?_
      cases haccount
      exact h rfl
  unfold program
  split
  · refine .bind (.lift _ assertAmount_asks) fun _ => .bind (.tryCatch (hbody .own) fun e => ?_) fun result => ?_
    · exact .bind (.ignore (.await (harmless_none rfl))) fun _ => trivial
    · exact .bind (.await (harmless_none rfl)) fun _ => trivial
  · exact hbody .direct

end Asks

end WalletOp

end Murlan
