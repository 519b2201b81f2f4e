import Murlan.Proof.Vault

/-!
# The balance ceiling

A credit compares the ceiling with the balance it has read, appends its row, and then adds to
whatever the balance is. So a balance stays below the ceiling as long as no credit adds to one
that has grown since it was read (`Fresh`).

* `conforms`: what a call has read when it asks for a credit leaves room for it.
* `Within`: of the transactions that are open at most one has changed a balance, and what it
  sees is within the ceiling.
-/

namespace Murlan

namespace Vault

variable {U M : Type} [DecidableEq U] {s : Vault U M} {j k : ℕ} {u : U}

/-- A call that moved nothing has moved nothing of the user. -/
theorem movedBy_eq_zero (h : ∀ m ∈ s.moves, m.userId = u → m.task ≠ k) : s.movedBy k u = 0 := by
  have hnone : (s.moves.filter fun m => m.task = k ∧ m.userId = u) = [] := by
    refine List.filter_eq_nil_iff.mpr fun m hm => ?_
    simp only [decide_eq_true_eq, not_and]
    exact fun htask huser => h m hm huser htask
  unfold movedBy
  rw [hnone]
  rfl

/-- What another transaction sees is not changed by the end of one. -/
theorem movedBy_filter (hjk : j ≠ k) (s' : Vault U M) (hs : s'.moves = s.moves.filter fun m => m.task ≠ k) :
    s'.movedBy j u = s.movedBy j u := by
  unfold movedBy
  rw [hs, List.filter_filter]
  have hsame : (s.moves.filter fun m => decide (m.task = j ∧ m.userId = u) && decide (m.task ≠ k)) =
      s.moves.filter fun m => m.task = j ∧ m.userId = u := by
    refine List.filter_congr fun m _ => ?_
    by_cases hm : m.task = j
    · simp [hm, hjk]
    · simp [hm]
  rw [hsame]

/-- A move adds its amount to its own call and user. -/
theorem movedBy_append (s' : Vault U M) {d : ℤ} {v : U} (hs : s'.moves = s.moves ++ [⟨k, v, d⟩]) :
    s'.movedBy j u = s.movedBy j u + if j = k ∧ u = v then d else 0 := by
  unfold movedBy
  rw [hs, List.filter_append, List.map_append, List.sum_append]
  by_cases h : j = k ∧ u = v
  · obtain ⟨rfl, rfl⟩ := h
    simp
  · have h' : ¬(k = j ∧ v = u) := fun hkv => h ⟨hkv.1.symm, hkv.2.symm⟩
    simp [h, h']

theorem balanceFor_eq_some {b : ℤ} :
    s.balanceFor k u = some b ↔ ∃ b₀, s.balance u = some b₀ ∧ b = b₀ + s.movedBy k u := by
  unfold balanceFor
  rw [Option.map_eq_some_iff]
  exact exists_congr fun b₀ => and_congr_right fun _ => eq_comm

variable [DecidableEq M]

/-- A credit that is asked for fits under the ceiling. -/
def Fitting (s : Vault U M) (k : ℕ) : WalletQuery U M → Prop
  | .statement (.adjustBalance u d) => ∀ b, s.balanceFor k u = some b → 0 < d → b + d ≤ balanceCeilingCents
  | _ => True

omit [DecidableEq M] in
/-- At most one open transaction has changed a balance, and what it sees is within the ceiling. -/
structure Within (uow : Bool) (s : Vault U M) : Prop where
  direct : uow = false → s.moves = []
  account : ∀ m ∈ s.moves, (s.balance m.userId).isSome
  alone : ∀ m ∈ s.moves, ∀ m' ∈ s.moves, m.userId = m'.userId → m.task = m'.task
  stored : ∀ u b, s.balance u = some b → b ≤ balanceCeilingCents
  seen : ∀ k u b, s.balanceFor k u = some b → b ≤ balanceCeilingCents

namespace Within

variable {uow : Bool}

omit [DecidableEq M] in
/-- The ceiling depends on balances and open moves. -/
theorem congr (h : Within uow s) {s' : Vault U M} (hbalance : s'.balance = s.balance) (hmoves : s'.moves = s.moves) :
    Within uow s' := by
  have hsees : ∀ k u, s'.balanceFor k u = s.balanceFor k u := by
    intro k u
    unfold balanceFor movedBy
    rw [hbalance, hmoves]
  refine ⟨?_, ?_, ?_, ?_, ?_⟩
  · rw [hmoves]
    exact h.direct
  · rw [hmoves, hbalance]
    exact h.account
  · rw [hmoves]
    exact h.alone
  · rw [hbalance]
    exact h.stored
  · intro k u b hb
    rw [hsees] at hb
    exact h.seen k u b hb

omit [DecidableEq M] in
/-- With no open move, the balances decide. -/
theorem of_balance {balance : U → Option ℤ} (rows : List (LedgerRow U M)) (now : ℕ)
    (h : ∀ u b, balance u = some b → b ≤ balanceCeilingCents) : Within uow { balance, rows, now } := by
  refine ⟨fun _ => rfl, ?_, ?_, h, ?_⟩
  · intro m hm
    cases hm
  · intro m hm
    cases hm
  · intro k u b hb
    obtain ⟨b₀, hb₀, rfl⟩ := balanceFor_eq_some.mp hb
    rw [movedBy_eq_zero (by intro m hm; cases hm), Int.add_zero]
    exact h u b₀ hb₀

omit [DecidableEq M] in
/-- A move with room under the ceiling keeps it. -/
theorem move (h : Within uow s) {d : ℤ} (hheld : s.heldByOther k u = false) (hsome : (s.balance u).isSome)
    (hroom : ∀ b, s.balanceFor k u = some b → b + d ≤ balanceCeilingCents) : Within uow (s.move uow k u d) := by
  cases uow with
  | false =>
    -- without transactions the balance is written at once
    have hmoves := h.direct rfl
    have hmoved : ∀ s' : Vault U M, s'.moves = s.moves → ∀ (j : ℕ) (v : U), s'.movedBy j v = 0 := by
      intro s' hs' j v
      refine movedBy_eq_zero fun m hm => ?_
      rw [hs', hmoves] at hm
      cases hm
    have hstored : ∀ v b, (s.move false k u d).balance v = some b → b ≤ balanceCeilingCents := by
      intro v b hb
      have hb' : Function.update s.balance u ((s.balance u).map fun b => b + d) v = some b := hb
      by_cases hv : v = u
      · subst hv
        rw [Function.update_self] at hb'
        obtain ⟨b₀, hb₀, rfl⟩ := Option.map_eq_some_iff.mp hb'
        have hsees : s.balanceFor k v = some b₀ := by
          refine balanceFor_eq_some.mpr ⟨b₀, hb₀, ?_⟩
          rw [hmoved s rfl, Int.add_zero]
        exact hroom b₀ hsees
      · rw [Function.update_of_ne hv] at hb'
        exact h.stored v b hb'
    refine ⟨fun _ => hmoves, fun m hm => ?_, h.alone, hstored, ?_⟩
    · have hm' : m ∈ s.moves := hm
      rw [hmoves] at hm'
      cases hm'
    · intro j v b hb
      obtain ⟨b₀, hb₀, rfl⟩ := balanceFor_eq_some.mp hb
      rw [hmoved (s.move false k u d) rfl, Int.add_zero]
      exact hstored v b₀ hb₀
  | true =>
    -- the row lock: any open move of this user is this call's own
    have hothers : ∀ m ∈ s.moves, m.userId = u → m.task = k := by
      intro m hm huser
      by_contra htask
      have hany : s.heldByOther k u = true := by
        refine List.any_eq_true.mpr ⟨m, hm, ?_⟩
        simp [htask, huser]
      rw [hany] at hheld
      cases hheld
    refine ⟨fun hdirect => (by cases hdirect), ?_, ?_, h.stored, ?_⟩
    · intro m hm
      rcases List.mem_append.mp (show m ∈ s.moves ++ [⟨k, u, d⟩] from hm) with hm | hm
      · exact h.account m hm
      · rw [List.mem_singleton.mp hm]
        exact hsome
    · intro m hm m' hm' huser
      have hnew : ∀ m, m ∈ s.moves ++ [⟨k, u, d⟩] → m.userId = u → m.task = k := by
        intro m hm hmu
        rcases List.mem_append.mp hm with hm | hm
        · exact hothers m hm hmu
        · rw [List.mem_singleton.mp hm]
      have hold : ∀ m, m ∈ s.moves ++ [⟨k, u, d⟩] → m.userId ≠ u → m ∈ s.moves := by
        intro m hm hmu
        rcases List.mem_append.mp hm with hm | hm
        · exact hm
        · rw [List.mem_singleton.mp hm] at hmu
          exact absurd rfl hmu
      by_cases hmu : m.userId = u
      · rw [hnew m hm hmu, hnew m' hm' (huser ▸ hmu)]
      · exact h.alone m (hold m hm hmu) m' (hold m' hm' (huser ▸ hmu)) huser
    · intro j v b hb
      obtain ⟨b₀, hb₀, rfl⟩ := balanceFor_eq_some.mp hb
      rw [movedBy_append (k := k) (v := u) (d := d) (s := s) _ rfl]
      by_cases hjk : j = k ∧ v = u
      · obtain ⟨rfl, rfl⟩ := hjk
        -- the call sees its own move
        have hle := hroom _ (balanceFor_eq_some.mpr ⟨b₀, hb₀, rfl⟩)
        simp only [and_self, if_true]
        omega
      · have hle := h.seen j v _ (balanceFor_eq_some.mpr ⟨b₀, hb₀, rfl⟩)
        rw [if_neg hjk]
        omega

omit [DecidableEq M] in
/-- A call that ends keeps the ceiling. -/
theorem ended (h : Within uow s) {s' : Vault U M} (hmoves : s'.moves = s.moves.filter fun m => m.task ≠ k)
    (hbalance : ∀ u b, s'.balance u = some b → b ≤ balanceCeilingCents)
    (hothers : ∀ m ∈ s'.moves, s'.balance m.userId = s.balance m.userId) : Within uow s' := by
  have hsub : ∀ m ∈ s'.moves, m ∈ s.moves ∧ m.task ≠ k := by
    intro m hm
    rw [hmoves] at hm
    obtain ⟨hm, htask⟩ := List.mem_filter.mp hm
    exact ⟨hm, by simpa using htask⟩
  refine ⟨fun hdirect => ?_, fun m hm => ?_, ?_, hbalance, ?_⟩
  · rw [hmoves, h.direct hdirect]
    rfl
  · rw [hothers m hm]
    exact h.account m (hsub m hm).1
  · intro m hm m' hm' huser
    exact h.alone m (hsub m hm).1 m' (hsub m' hm').1 huser
  · intro j v b hb
    obtain ⟨b₀, hb₀, rfl⟩ := balanceFor_eq_some.mp hb
    by_cases hmoved : ∃ m ∈ s'.moves, m.userId = v ∧ m.task = j
    · obtain ⟨m, hm, rfl, rfl⟩ := hmoved
      have hjk : m.task ≠ k := (hsub m hm).2
      rw [movedBy_filter hjk s' hmoves]
      rw [hothers m hm] at hb₀
      exact h.seen _ _ _ (balanceFor_eq_some.mpr ⟨b₀, hb₀, rfl⟩)
    · rw [movedBy_eq_zero fun m hm huser htask => hmoved ⟨m, hm, huser, htask⟩, Int.add_zero]
      exact hbalance v b₀ hb₀

omit [DecidableEq M] in
/-- A commit keeps the ceiling. -/
theorem commit (h : Within uow s) (k : ℕ) : Within uow (s.commit k) := by
  refine h.ended (k := k) rfl (fun u b hb => h.seen k u b hb) ?_
  intro m hm
  obtain ⟨hm, htask⟩ := List.mem_filter.mp (show m ∈ s.moves.filter fun m => m.task ≠ k from hm)
  have hnone : s.movedBy k m.userId = 0 := by
    refine movedBy_eq_zero fun m' hm' huser htask' => ?_
    rw [h.alone m' hm' m hm huser] at htask'
    simp [htask'] at htask
  show s.balanceFor k m.userId = s.balance m.userId
  unfold balanceFor
  rw [hnone]
  simp

omit [DecidableEq M] in
theorem rollback (h : Within uow s) (k : ℕ) : Within uow (s.rollback k) :=
  h.ended (k := k) rfl h.stored fun _ _ => rfl

/-- A statement that fits keeps the ceiling. -/
theorem statement (h : Within uow s) {q : Statement U M} (hq : s.Fitting k (.statement q)) :
    Within uow (s.statement uow k q).2 := by
  rcases s.statement_cases uow k q with ⟨hbalance, hmoves⟩ | ⟨u, d, b, rfl, hb, hheld, hmove⟩
  · exact h.congr hbalance hmoves
  · rw [hmove]
    obtain ⟨b₀, hb₀, -⟩ := balanceFor_eq_some.mp hb
    refine h.move hheld (by rw [hb₀]; rfl) fun b' hb' => ?_
    by_cases hd : 0 < d
    · exact hq b' hb' hd
    · have hle := h.seen k u b' hb'
      omega

/-- **Every answer keeps the balances within the ceiling**, as long as every credit fits under it. -/
theorem answer (h : Within uow s) (w : Fault) {q : WalletQuery U M} (hq : s.Fitting k q) :
    Within uow (s.answer uow w k q).2 := by
  have hsent : ∀ {s' : Vault U M}, Within uow s' → Within uow (s'.sent k) := fun h' => h'.congr rfl rfl
  cases q with
  | statement q =>
    simp only [Vault.answer]
    split
    · exact hsent (h.statement hq)
    · exact hsent h
    · exact hsent (h.statement hq)
  | commit =>
    cases w with
    | none => exact h.commit k
    | before => exact h.rollback k
    | after => exact h.commit k
  | rollback => exact h.rollback k

omit [DecidableEq M] in
/-- The rest of the server keeps the ceiling. -/
theorem drift (h : Within uow s) (e : VaultEvent U) : Within uow (s.drift e) := by
  cases e with
  | clock ms => exact h.congr rfl rfl
  | createUser u =>
    simp only [Vault.drift]
    split
    · exact h
    · rename_i hnew
      have hnone : s.balance u = none := by simpa using hnew
      have hmoves : ∀ m ∈ s.moves, m.userId ≠ u := by
        intro m hm huser
        have hsome := h.account m hm
        rw [huser, hnone] at hsome
        cases hsome
      have hother : ∀ v, v ≠ u → Function.update s.balance u (some 0) v = s.balance v :=
        fun v hv => Function.update_of_ne hv ..
      have hstored : ∀ v b, Function.update s.balance u (some 0) v = some b → b ≤ balanceCeilingCents := by
        intro v b hb
        by_cases hv : v = u
        · subst hv
          rw [Function.update_self] at hb
          cases hb
          decide
        · rw [hother v hv] at hb
          exact h.stored v b hb
      refine ⟨h.direct, fun m hm => ?_, h.alone, hstored, ?_⟩
      · show (Function.update s.balance u (some 0) m.userId).isSome = true
        rw [hother _ (hmoves m hm)]
        exact h.account m hm
      · intro j v b hb
        obtain ⟨b₀, hb₀, rfl⟩ := balanceFor_eq_some.mp hb
        by_cases hv : v = u
        · subst hv
          have hzero : s.movedBy j v = 0 := movedBy_eq_zero fun m hm huser _ => hmoves m hm huser
          show b₀ + s.movedBy j v ≤ balanceCeilingCents
          rw [hzero, Int.add_zero]
          exact hstored v b₀ hb₀
        · have hb₀' : s.balance v = some b₀ := (hother v hv).symm.trans hb₀
          exact h.seen j v _ (balanceFor_eq_some.mpr ⟨b₀, hb₀', rfl⟩)

end Within

end Vault

/-! ## What a call has read -/

namespace WalletOp

variable {U M : Type}

/-- What is known is the balance that was read last: a credit is asked for if it fits on top of it. The in-memory
ledger does not refuse a row without a reference. -/
def protocol (uow : Bool) : Async.Protocol (WalletQuery U M) WalletQuery.Answer (ServiceError U) (Option ℤ) where
  may q g :=
    match q with
    | .statement (.adjustBalance _ d) => 0 < d → ∃ c, g = some c ∧ c + d ≤ balanceCeilingCents
    | _ => True
  reply q r g g' :=
    match q, r with
    | .statement (.findById _), r => ∀ b, r = .ok b → g' = b
    | .statement (.append tx), r => g' = g ∧ (uow = false → tx.providerRef = none → r = .ok ())
    | _, _ => g' = g

/-- The protocol of the statements. -/
def statements (uow : Bool) : Async.Protocol (Statement U M) Statement.Answer (ServiceError U) (Option ℤ) where
  may q := (protocol uow).may (.statement q)
  reply q := (protocol uow).reply (.statement q)

variable {uow : Bool} {g : Option ℤ} {userId : U} {current amountCents : ℤ}

/-- A program may be run from what is known, whatever comes of it. -/
def Runs {Q : Type} {R : Q → Type} {α : Type} (P : Async.Protocol Q R (ServiceError U) (Option ℤ))
    (p : Async Q R (ServiceError U) α) (g : Option ℤ) : Prop :=
  p.wp P (fun _ _ => True) (fun _ _ => True) g

theorem assertAmount_wp {post : Unit → Option ℤ → Prop} (h : 0 < amountCents → post () g) :
    (WalletService.assertAmount amountCents : Service U M Unit).wp (statements uow) post (fun _ _ => True) g := by
  unfold WalletService.assertAmount
  rw [Async.wp_bind, Async.wp_throwIf]
  refine ⟨fun _ => trivial, fun hpos => ?_⟩
  rw [Async.wp_throwIf]
  exact ⟨fun _ => trivial, fun _ => h (not_le.mp hpos)⟩

/-- The wiring adds nothing to what the body asks. -/
theorem run_wp {w : Wiring} {lockKey : Option U} {body : Service U M (MoveResult U M)} (h : Runs (statements uow) body g) :
    Runs (statements uow) (WalletService.run w lockKey body) g := by
  unfold WalletService.run
  split
  · refine (Async.wp_bind _ _ _).mpr ((Async.wp_await _ _).mpr ⟨trivial, ?_, fun _ _ _ => trivial⟩)
    rintro r g' rfl
    exact h
  · exact h

theorem ceiling_wp {α : Type} {f : Unit → Service U M α}
    (h : current + amountCents ≤ balanceCeilingCents → Runs (statements uow) (f ()) g) :
    Runs (statements uow) (WalletService.assertCeiling userId current amountCents >>= f) g := by
  refine (Async.wp_bind _ _ _).mpr ?_
  unfold WalletService.assertCeiling
  rw [Async.wp_throwIf]
  exact ⟨fun _ => trivial, fun hle => h (not_lt.mp hle)⟩

/-- A statement after which the same balance is known. -/
theorem step_wp {α : Type} {q : Statement U M} {f : q.Answer → Service U M α} (hmay : (statements uow).may q g)
    (hsame : ∀ r g', (statements uow).reply q r g g' → g' = g) (h : ∀ r, Runs (statements uow) (f r) g) :
    Runs (statements uow) (Async.await q >>= f) g := by
  refine (Async.wp_bind _ _ _).mpr ((Async.wp_await _ _).mpr ⟨hmay, ?_, fun _ _ _ => trivial⟩)
  intro r g' hr
  rw [hsame _ _ hr]
  exact h r

/-- The check of the cap passes or throws. -/
theorem depositCap_wp {α : Type} {ref : ProviderRef M} {cap : Option ℤ} {f : Unit → Service U M α}
    (h : Runs (statements uow) (f ()) g) :
    Runs (statements uow) (WalletService.assertDepositCap userId amountCents ref cap >>= f) g := by
  have hkeep : (WalletService.assertDepositCap userId amountCents ref cap).wp (statements uow)
      (fun _ g' => g' = g) (fun _ _ => True) g := by
    cases cap with
    | none => exact rfl
    | some c =>
      unfold WalletService.assertDepositCap
      refine (Async.wp_bind _ _ _).mpr ((Async.wp_await _ _).mpr ⟨trivial, ?_, fun _ _ _ => trivial⟩)
      rintro found g' rfl
      cases found with
      | some row => exact rfl
      | none =>
        refine (Async.wp_bind _ _ _).mpr ((Async.wp_await _ _).mpr ⟨trivial, ?_, fun _ _ _ => trivial⟩)
        rintro used g' rfl
        rw [Async.wp_throwIf]
        exact ⟨fun _ => trivial, fun _ => rfl⟩
  refine (Async.wp_bind _ _ _).mpr (Async.wp_mono hkeep ?_ fun _ _ h' => h')
  rintro _ g' rfl
  exact h

/-- The increment of a credit whose ceiling was checked, and whatever is answered to it. -/
theorem increment_wp {α : Type} (hfits : current + amountCents ≤ balanceCeilingCents)
    {f : Option ℤ → Service U M α} (h : ∀ r, Runs (statements uow) (f r) (some current)) :
    Runs (statements uow) (WalletService.adjustBalance userId amountCents >>= f) (some current) := by
  refine step_wp (fun _ => ⟨current, rfl, hfits⟩) ?_ h
  rintro r g' rfl
  rfl

theorem append_wp {α : Type} {tx : Transaction U M} {f : Unit → Service U M α} (h : Runs (statements uow) (f ()) g) :
    Runs (statements uow) (WalletService.append tx >>= f) g := by
  refine step_wp trivial ?_ fun _ => h
  intro r g' hr
  exact hr.1

/-- A credit with a reference asks what fits. -/
theorem creditOnce_wp {opts : CreditOptions M} {ref : ProviderRef M} {cap : Option ℤ} :
    Runs (statements uow) (WalletService.creditOnce userId current amountCents opts ref cap) (some current) := by
  unfold WalletService.creditOnce
  refine depositCap_wp (step_wp trivial ?_ fun inserted => ?_)
  · rintro r g' rfl
    rfl
  split
  · refine ceiling_wp fun hfits => increment_wp hfits fun r => ?_
    cases r with
    | none => trivial
    | some b => trivial
  · refine (Async.wp_bind _ _ _).mpr ((Async.wp_await _ _).mpr ⟨trivial, ?_, fun _ _ _ => trivial⟩)
    intro b g' _
    trivial

/-- A credit without a reference asks what fits. -/
theorem creditPlain_wp {w : Wiring} {opts : CreditOptions M} :
    Runs (statements uow) (WalletService.creditPlain w userId current amountCents opts) (some current) := by
  unfold WalletService.creditPlain
  refine ceiling_wp fun hfits => append_wp (increment_wp hfits fun r => ?_)
  cases r with
  | some b => trivial
  | none =>
    dsimp only
    split
    · -- the reversing row
      refine (Async.wp_bind _ _ _).mpr ((Async.wp_tryCatch _ _ _).mpr ((Async.wp_await _ _).mpr ⟨trivial, ?_, ?_⟩))
      · intro _ _ _
        trivial
      · intro _ _ _
        trivial
    · trivial

/-- A credit asks what fits. -/
theorem credit_wp {w : Wiring} {opts : CreditOptions M} {cap : Option ℤ} :
    Runs (statements uow) (WalletService.credit w userId amountCents opts cap) g := by
  unfold WalletService.credit
  refine (Async.wp_bind _ _ _).mpr (assertAmount_wp fun _ => run_wp ?_)
  refine (Async.wp_bind _ _ _).mpr ((Async.wp_await _ _).mpr ⟨trivial, ?_, fun _ _ _ => trivial⟩)
  intro found g' hfound
  rw [show g' = found from hfound found rfl]
  cases found with
  | none => trivial
  | some current =>
    dsimp only
    split
    · exact creditOnce_wp
    · exact creditPlain_wp

/-- On the bare repositories the row of a debit is not refused, so nothing is given back. -/
theorem debit_wp {w : Wiring} (hw : w = .direct → uow = false) {opts : DebitOptions M} :
    Runs (statements uow) (WalletService.debit w userId amountCents opts) g := by
  unfold WalletService.debit
  refine (Async.wp_bind _ _ _).mpr (assertAmount_wp fun hpos => run_wp ?_)
  refine step_wp (fun hd => by omega) ?_ fun r => ?_
  · rintro r g' rfl
    rfl
  cases r with
  | none =>
    refine (Async.wp_bind _ _ _).mpr ((Async.wp_await _ _).mpr ⟨trivial, ?_, fun _ _ _ => trivial⟩)
    intro b g' _
    trivial
  | some b =>
    refine (Async.wp_tryCatch _ _ _).mpr ((Async.wp_bind _ _ _).mpr ((Async.wp_await _ _).mpr ⟨trivial, ?_, ?_⟩))
    · intro _ _ _
      trivial
    · rintro e g' ⟨rfl, hnever⟩
      dsimp only
      split
      · rename_i hdirect
        cases hnever (hw hdirect) rfl
      · trivial

/-- Every operation keeps to the protocol. -/
theorem conforms (op : WalletOp U M) (g : Option ℤ) : Runs (protocol uow) (op.program uow) g := by
  have hbody : ∀ w : Wiring, (w = .direct → uow = false) → Runs (protocol uow) (onRepositories (op.body w)) g := by
    intro w hw
    refine (Async.wp_lift _ _ _).mpr ?_
    cases op with
    | credit userId amountCents opts cap => exact credit_wp
    | debit userId amountCents opts => exact debit_wp hw
  unfold program
  split
  · rename_i huow
    refine (Async.wp_bind _ _ _).mpr ((Async.wp_lift _ _ _).mpr (assertAmount_wp fun _ => ?_))
    refine (Async.wp_bind _ _ _).mpr ((Async.wp_tryCatch _ _ _).mpr (Async.wp_mono (hbody .own (by intro h; cases h)) ?_ ?_))
    · intro result g' _
      refine (Async.wp_bind _ _ _).mpr ((Async.wp_await _ _).mpr ⟨trivial, ?_, fun _ _ _ => trivial⟩)
      intro _ _ _
      trivial
    · intro e g' _
      refine (Async.wp_bind _ _ _).mpr ((Async.wp_tryCatch _ _ _).mpr ((Async.wp_await _ _).mpr ⟨trivial, ?_, ?_⟩))
      · intro _ _ _
        trivial
      · intro _ _ _
        trivial
  · rename_i huow
    exact hbody .direct fun _ => by simpa using huow

end WalletOp

/-! ## The server -/

section Server

variable {U M : Type} [DecidableEq U] [DecidableEq M] {uow : Bool}

namespace Vault

/-- What an answer leaves as the balance that was read last. -/
theorem answer_read (uow : Bool) (s : Vault U M) (w : Fault) (k : ℕ) (q : WalletQuery U M) :
    ∃ c, (s.answer uow w k q).2.read = Function.update s.read k c ∧
      (WalletOp.protocol uow).reply q (s.answer uow w k q).1 (s.read k) c := by
  have hself : Function.update s.read k (s.read k) = s.read := Function.update_eq_self k s.read
  have hkept : ∀ q : Statement U M, (∀ u, q ≠ .findById u) → (s.answer uow w k (.statement q)).2.read = s.read := by
    intro q hq
    simp only [answer]
    split
    · exact s.statement_read k hq
    · rfl
    · exact s.statement_read k hq
  cases q with
  | commit =>
    refine ⟨s.read k, ?_, rfl⟩
    rw [hself]
    cases w with
    | none => rfl
    | before => rfl
    | after => rfl
  | rollback => exact ⟨s.read k, hself.symm, rfl⟩
  | statement q =>
    cases q with
    | findById u =>
      simp only [answer]
      split
      · refine ⟨s.balanceFor k u, rfl, ?_⟩
        intro b hb
        exact Except.ok.inj hb
      · refine ⟨s.read k, hself.symm, ?_⟩
        intro b hb
        cases hb
      · refine ⟨s.balanceFor k u, rfl, ?_⟩
        intro b hb
        cases hb
    | append tx =>
      refine ⟨s.read k, (hkept _ fun _ h => by cases h).trans hself.symm, rfl, fun huow href => ?_⟩
      simp [answer, statement, huow, href]
    | findByProviderRef ref => exact ⟨s.read k, (hkept _ fun _ h => by cases h).trans hself.symm, rfl⟩
    | depositsToday u => exact ⟨s.read k, (hkept _ fun _ h => by cases h).trans hself.symm, rfl⟩
    | advisoryXactLock u => exact ⟨s.read k, (hkept _ fun _ h => by cases h).trans hself.symm, rfl⟩
    | recordAudit => exact ⟨s.read k, (hkept _ fun _ h => by cases h).trans hself.symm, rfl⟩
    | appendIdempotent ref tx => exact ⟨s.read k, (hkept _ fun _ h => by cases h).trans hself.symm, rfl⟩
    | adjustBalance u d => exact ⟨s.read k, (hkept _ fun _ h => by cases h).trans hself.symm, rfl⟩

end Vault

/-- What is known of a call is the balance it has read; a call that has not begun has read none. -/
structure Remembers (s : Vault U M) (n : ℕ) (know : ℕ → Option (WalletOp U M × Option ℤ)) : Prop where
  known : ∀ k op g, know k = some (op, g) → s.read k = g
  beyond : ∀ k, n ≤ k → s.read k = none

/-- The wallet follows the rules of a pool. -/
theorem ceiling_rules :
    Runtime.Rules (walletServer (U := U) (M := M) uow id) (fun _ => WalletOp.protocol uow) (fun _ _ => none)
      (fun _ _ _ => True) (fun _ _ _ => True) Remembers (fun _ _ _ => True) where
  conforms _ op := op.conforms none
  opened := by
    intro s n know op h hn
    refine ⟨fun k op' g hk => ?_, fun k hk => h.beyond k (by omega)⟩
    by_cases hkn : k = n
    · subst hkn
      rw [Function.update_self] at hk
      cases hk
      exact h.beyond k (Nat.le_refl k)
    · rw [Function.update_of_ne hkn] at hk
      exact h.known k op' g hk
  closed := by
    intro s n know k op g h _ _
    refine ⟨fun j op' g' hj => ?_, h.beyond⟩
    by_cases hjk : j = k
    · subst hjk
      rw [Function.update_self] at hj
      cases hj
    · rw [Function.update_of_ne hjk] at hj
      exact h.known j op' g' hj
  answered := by
    intro s n know k op g w q h hlt hk _ _
    -- what a call has read is noted under its own number
    obtain ⟨c, hread, hreply⟩ := s.answer_read uow w k q
    rw [h.known k op g hk] at hreply
    refine ⟨c, hreply, fun j op' g' hj => ?_, fun j hj => ?_⟩
    · show (s.answer uow w k q).2.read j = g'
      rw [hread]
      by_cases hjk : j = k
      · subst hjk
        rw [Function.update_self] at hj ⊢
        cases hj
        rfl
      · rw [Function.update_of_ne hjk] at hj ⊢
        exact h.known j op' g' hj
    · show (s.answer uow w k q).2.read j = none
      rw [hread, Function.update_of_ne (by omega)]
      exact h.beyond j hj
  drifted := by
    intro s n know e h
    have hread : (s.drift e).read = s.read := by
      cases e with
      | clock ms => rfl
      | createUser u =>
        simp only [Vault.drift]
        split
        · rfl
        · rfl
    refine ⟨fun k op g hk => ?_, fun k hk => ?_⟩
    · show (s.drift e).read k = g
      rw [hread]
      exact h.known k op g hk
    · show (s.drift e).read k = none
      rw [hread]
      exact h.beyond k hk
  returned _ _ _ _ := trivial
  lasts_answer _ _ _ _ _ _ _ _ := trivial
  lasts_drift _ _ _ _ := trivial

/-- The wallet's calls, as programs on one vault. -/
abbrev WalletPool (U M : Type) :=
  Pool (Vault U M) (WalletQuery U M) WalletQuery.Answer (ServiceError U) (MoveResult U M) (WalletOp U M)

omit [DecidableEq U] [DecidableEq M] in
/-- The user of the credit that a task waits for. -/
def creditAsked (p : WalletPool U M) (k : ℕ) : Option U :=
  match p.tasks[k]?.bind (·.program.pending) with
  | some (.statement (.adjustBalance u d)) => if 0 < d then some u else none
  | _ => none

omit [DecidableEq M] in
/-- The balance is more than what the call has read. -/
def Vault.grown (s : Vault U M) (k : ℕ) (u : U) : Bool :=
  match s.balanceFor k u, s.read k with
  | some b, some c => c < b
  | _, _ => false

omit [DecidableEq M] in
/-- The event is no credit to a balance that has grown since the call read it. -/
def Fresh (p : WalletPool U M) : PoolEvent (WalletOp U M) Fault (VaultEvent U) → Prop
  | .execute k _ => (creditAsked p k).any (p.store.grown k) = false
  | _ => True

omit [DecidableEq M] in
instance (p : WalletPool U M) (e : PoolEvent (WalletOp U M) Fault (VaultEvent U)) : Decidable (Fresh p e) :=
  match e with
  | .execute k _ => inferInstanceAs (Decidable ((creditAsked p k).any (p.store.grown k) = false))
  | .start _ | .drift _ => isTrue trivial

/-- The balances are within the ceiling, and it is known what the calls have read. -/
def CeilingOK (uow : Bool) (p : WalletPool U M) : Prop :=
  p.store.Within uow ∧ ∃ know, Runtime.Rules.Attuned (walletServer uow id) (fun _ => WalletOp.protocol uow)
    (fun _ _ => none) (fun _ _ _ => True) (fun _ _ _ => True) Remembers (fun _ _ _ => True) p know

/-- A fresh event keeps the ceiling. -/
theorem CeilingOK.step {p : WalletPool U M} (h : CeilingOK uow p) {e : PoolEvent (WalletOp U M) Fault (VaultEvent U)}
    (he : Fresh p e) : CeilingOK uow ((walletServer uow id).step p e) := by
  obtain ⟨hwithin, know, hknow⟩ := h
  refine ⟨?_, ceiling_rules.attuned_step hknow e⟩
  cases e with
  | start op => exact hwithin
  | drift d => exact hwithin.drift d
  | execute k w =>
    rcases (walletServer uow id).execute_cases p k w with hsame | ⟨t, q, next, ht, hp, -, hstep⟩
    · rw [hsame]
      exact hwithin
    rw [hstep]
    refine hwithin.answer w ?_
    obtain ⟨g, hg, hmay⟩ := hknow.may ht hp
    unfold Vault.Fitting
    split
    · rename_i u d
      intro b hb hd
      -- what the call has read leaves room, and the balance has not grown
      obtain ⟨c, rfl, hfits⟩ := hmay hd
      have hasked : creditAsked p k = some u := by
        unfold creditAsked
        simp [ht, hp, Async.pending, hd]
      have hread : p.store.read k = some c := hknow.inv.known k t.op _ hg
      have hle : b ≤ c := by
        have hgrown : p.store.grown k u = false := by
          have hany : (creditAsked p k).any (p.store.grown k) = false := he
          rw [hasked] at hany
          exact hany
        unfold Vault.grown at hgrown
        rw [hb, hread] at hgrown
        simpa using hgrown
      omega
    · trivial

/-- **The balance ceiling**: no stored balance exceeds it after any run in which no credit is added to a
balance that has grown since the call read it, with and without a unit of work. -/
theorem balance_ceiling (uow : Bool) {balance : U → Option ℤ} (hboot : ∀ u b, balance u = some b → b ≤ balanceCeilingCents)
    (rows : List (LedgerRow U M)) (now : ℕ) (es : List (PoolEvent (WalletOp U M) Fault (VaultEvent U)))
    (hfresh : Guarded (walletServer uow id).step Fresh { store := { balance, rows, now } } es) (u : U) (b : ℤ)
    (hb : (run (walletServer uow id).step { store := { balance, rows, now } } es).store.balance u = some b) :
    b ≤ balanceCeilingCents := by
  have hstart : CeilingOK uow { store := { balance, rows, now } } := by
    refine ⟨.of_balance rows now hboot, ceiling_rules.attuned_run ⟨fun k op g hk => ?_, fun _ _ => rfl⟩ []⟩
    cases hk
  have hend := guarded_inv (P := CeilingOK uow) (fun p e h he => h.step he) hstart es hfresh
  exact hend.1.stored u b hb

end Server

/-! ### Two credits at once -/

/-- A credit of 10,000.00. -/
def topUp : WalletOp Unit Unit := .credit () 1000000 { type := .adminAdjust } none

/-- The balance is 10,000.00 below the ceiling. -/
def almostFull : Vault Unit Unit := { balance := fun _ => some 1999000000 }

theorem almostFull_within : ∀ u b, almostFull.balance u = some b → b ≤ balanceCeilingCents := by
  intro u b hb
  cases hb
  decide

/-- Both credits read the balance before one of them changes it. -/
def topUps (uow : Bool) : List (PoolEvent (WalletOp Unit Unit) Fault (VaultEvent Unit)) :=
  [.start topUp, .start topUp, .execute 0 .none, .execute 1 .none, .execute 0 .none, .execute 1 .none, .execute 0 .none] ++
    (if uow then [.execute 0 .none] else []) ++ [.execute 1 .none] ++ if uow then [.execute 1 .none] else []

/-- The guard lets both credits pass: the balance ends above the ceiling. -/
theorem topUps_exceed :
    (∀ u b, almostFull.balance u = some b → b ≤ balanceCeilingCents) ∧
      (run (walletServer false id).step { store := almostFull } (topUps false)).store.balance () = some 2001000000 ∧
      (run (walletServer true id).step { store := almostFull } (topUps true)).store.balance () = some 2001000000 ∧
      balanceCeilingCents < 2001000000 :=
  ⟨almostFull_within, by decide +kernel, by decide +kernel, by decide⟩

/-- One credit after the other: the second is refused. -/
def topUpTwice : List (PoolEvent (WalletOp Unit Unit) Fault (VaultEvent Unit)) :=
  [.start topUp, .start topUp, .execute 0 .none, .execute 0 .none, .execute 0 .none, .execute 1 .none]

theorem balance_ceiling_topUpTwice :
    (run (walletServer false id).step { store := almostFull } topUpTwice).store.balance () = some 2000000000 ∧
      (2000000000 : ℤ) ≤ balanceCeilingCents := by
  have hend : (run (walletServer false id).step { store := almostFull } topUpTwice).store.balance () = some 2000000000 := by
    decide +kernel
  exact ⟨hend, balance_ceiling false almostFull_within [] 0 topUpTwice (by decide +kernel) () _ hend⟩

end Murlan
