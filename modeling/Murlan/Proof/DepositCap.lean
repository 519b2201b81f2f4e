import Murlan.Proof.DepositAnswers

/-!
# The daily deposit cap

Capped deposits of one user, one after the other on his chain, beside any other calls of the
wallet. `deposit_cap`: the deposits credited on a day stay within the cap, a replay is answered as
idempotent, and a deposit is refused only above the cap, if every row that is summed is credited: a
row whose deposit was refused at the ceiling, after it was appended, is not.
-/

namespace Murlan

section Server

variable {U M : Type} [DecidableEq U] [DecidableEq M]

variable {uow : Bool} {u : U} {s s' : Vault U M} {n k : ℕ} {know : ℕ → Option (DepositorOp M u × DepositSeen)}
  {op : DepositorOp M u} {g g' : DepositSeen}

/-- A call enters with what is so. -/
theorem DepositsOK.opened (h : DepositsOK uow u s n know) (op : DepositorOp M u) (hn : know n = none) :
    DepositsOK uow u s (n + 1) (Function.update know n (some (op, op.init s))) := by
  refine ⟨h.times, h.gains, h.direct, h.settled, fun r hr hopen => ?_, fun r hr k htask => ?_, fun k op' g hk => ?_⟩
  · obtain ⟨k, op', g, htask, hk⟩ := h.pending r hr hopen
    refine ⟨k, op', g, htask, ?_⟩
    rw [Function.update_of_ne fun hkn => ?_]
    · exact hk
    · rw [hkn, hn] at hk
      cases hk
  · obtain ⟨hlt, howns⟩ := h.owned r hr k htask
    refine ⟨by omega, fun op' g hk => howns op' g ?_⟩
    rw [Function.update_of_ne (by omega)] at hk
    exact hk
  · by_cases hkn : k = n
    · subst hkn
      rw [Function.update_self] at hk
      cases hk
      refine ⟨Nat.le_refl _, id, fun hreplay ref href => ?_, .of_begun rfl⟩
      have hany : op.ref.any s.booked = true := hreplay
      rw [href] at hany
      exact hany
    · rw [Function.update_of_ne hkn] at hk
      exact h.known k op' g hk

/-- What an ended call knew is dropped. -/
theorem DepositsOK.closed (h : DepositsOK uow u s n know) (hk : know k = some (op, g))
    (hend : (∃ r, op.Returns uow r g) ∨ ∃ e, op.Throws uow e g) :
    DepositsOK uow u s n (Function.update know k none) := by
  refine ⟨h.times, h.gains, h.direct, h.settled, fun r hr hopen => ?_, fun r hr j htask => ?_, fun j op' g' hj => ?_⟩
  · obtain ⟨j, op', g', htask, hj⟩ := h.pending r hr hopen
    refine ⟨j, op', g', htask, ?_⟩
    rw [Function.update_of_ne fun hjk => ?_]
    · exact hj
    · -- a call that has ended has no open row
      subst hjk
      obtain ⟨hmem, hdep⟩ := Vault.mem_deposits.mp hr
      have howns := (h.owned r hmem j htask).2 _ _ hk
      have huow : uow = true := by
        by_contra hdirect
        rw [h.direct (by simpa using hdirect) r hmem] at hopen
        cases hopen
      cases op with
      | beside o ho =>
        have hno : r.isDepositOf u = false := howns
        rw [hdep] at hno
        cases hno
      | deposit d =>
        have hfree : CappedDeposit.Free uow g := by
          rcases hend with ⟨_, -, hfree⟩ | ⟨_, -, hfree⟩
          · exact hfree
          · exact hfree
        have hsettled := hfree huow
        obtain ⟨-, hp | hp | ⟨-, hcommitted, -⟩⟩ := howns
        · rw [hp] at hsettled
          cases hsettled
        · rw [hp] at hsettled
          cases hsettled
        · rw [hopen] at hcommitted
          cases hcommitted
  · obtain ⟨hlt, howns⟩ := h.owned r hr j htask
    refine ⟨hlt, fun op' g' hj => ?_⟩
    by_cases hjk : j = k
    · subst hjk
      rw [Function.update_self] at hj
      cases hj
    · rw [Function.update_of_ne hjk] at hj
      exact howns op' g' hj
  · by_cases hjk : j = k
    · subst hjk
      rw [Function.update_self] at hj
      cases hj
    · rw [Function.update_of_ne hjk] at hj
      exact h.known j op' g' hj

/-- The rest of the server keeps the invariant. -/
theorem DepositsOK.drifted (h : DepositsOK uow u s n know) (e : VaultEvent U) : DepositsOK uow u (s.drift e) n know := by
  -- neither the clock nor a new user writes a row
  have hrows : (s.drift e).rows = s.rows := by
    cases e with
    | clock ms => rfl
    | createUser v =>
      simp only [Vault.drift]
      split
      · rfl
      · rfl
  have hnow : s.now ≤ (s.drift e).now := by
    cases e with
    | clock ms => exact Nat.le_add_right _ _
    | createUser v =>
      simp only [Vault.drift]
      split
      · exact Nat.le_refl _
      · exact Nat.le_refl _
  have hasked : (s.drift e).asked = s.asked := by
    cases e with
    | clock ms => rfl
    | createUser v =>
      simp only [Vault.drift]
      split
      · rfl
      · rfl
  have haccount : (s.balance u).isSome → ((s.drift e).balance u).isSome := by
    intro hsome
    cases e with
    | clock ms => exact hsome
    | createUser v =>
      simp only [Vault.drift]
      split
      · exact hsome
      · rename_i hnew
        by_cases hv : u = v
        · subst hv
          exact absurd hsome hnew
        · show (Function.update s.balance v (some 0) u).isSome = true
          rw [Function.update_of_ne hv]
          exact hsome
  have hdeposits : (s.drift e).deposits u = s.deposits u := by
    unfold Vault.deposits
    rw [hrows]
  have hbooked : ∀ ref, (s.drift e).booked ref = s.booked ref := by
    intro ref
    unfold Vault.booked
    rw [hrows]
  have hsum : ∀ day, (s.drift e).bookedOn u day = s.bookedOn u day := by
    intro day
    unfold Vault.bookedOn
    rw [hdeposits]
  refine ⟨?_, ?_, ?_, ?_, ?_, ?_, fun k op g hk => ?_⟩
  · rw [hdeposits]
    exact fun r hr => (h.times r hr).trans hnow
  · rw [hdeposits]
    exact h.gains
  · rw [hrows]
    exact h.direct
  · rw [hdeposits]
    exact h.settled
  · rw [hdeposits]
    exact h.pending
  · rw [hrows]
    exact h.owned
  -- what a call under way has seen is about rows and an earlier time
  · have hold := h.known k op g hk
    refine ⟨hold.since.trans hnow, fun ha => haccount (hold.account ha), fun hr ref href => ?_, ?_⟩
    · rw [hbooked]
      exact hold.replay hr ref href
    · have hphase := hold.phase
      cases op with
      | beside o ho => exact hphase
      | deposit d =>
        show d.Holds u (s.drift e) k g.since g.phase
        have hphase' : d.Holds u s k g.since g.phase := hphase
        cases hp : g.phase with
        | begun => trivial
        | closed => trivial
        | _ =>
          rw [hp] at hphase'
          simp only [CappedDeposit.Holds, hdeposits, hasked, hsum, hbooked] at hphase' ⊢
          grind

/-- The calls beside and of one user's deposits. -/
abbrev DepositPool (M : Type) {U : Type} (u : U) :=
  Pool (Vault U M) (WalletQuery U M) WalletQuery.Answer (ServiceError U) (MoveResult U M) (DepositorOp M u)

/-- The wallet, for the deposits of one user and other calls. -/
def depositServer (uow : Bool) (u : U) :=
  walletServer (U := U) (M := M) uow (DepositorOp.call (u := u))

/-- **The rules of the wallet**, as the deposits of one user see them. -/
theorem deposit_rules (uow : Bool) (u : U) :
    Runtime.Rules (depositServer (M := M) uow u) (DepositorOp.protocol uow) DepositorOp.init
      (DepositorOp.Returns uow) (DepositorOp.Throws uow) (DepositsOK uow u) (fun _ _ _ => True) where
  conforms s op := by
    cases op with
    | deposit d => exact CappedDeposit.conforms rfl
    | beside o ho =>
      refine Async.Asks.wp (J := fun _ => True) (WalletOp.beside_asks ho) (fun q g hq _ => ⟨hq, fun _ _ _ => trivial⟩) trivial
  opened op h hn := h.opened op hn
  closed h hk hend := h.closed hk hend
  answered := by
    intro s n know k op g w q h hlt hk hothers hmay
    cases op with
    | beside o ho => exact ⟨g, rfl, h.answered_beside hlt hk w hmay⟩
    | deposit d =>
      refine h.answered_deposit hlt hk (fun j op' g' hjk hj => ?_) w q hmay
      cases op' with
      | beside o ho => exact (h.known j _ g' hj).phase
      | deposit d' =>
        have hlink : (depositServer (M := M) uow u).linked (.deposit d') (.deposit d) = true :=
          (Runtime.linked_iff _).mpr ⟨u, rfl, rfl⟩
        obtain ⟨-, s₀, rfl⟩ := hothers j _ g' hjk hj hlink
        rfl
  drifted e h := h.drifted e
  returned _ _ _ _ := trivial
  lasts_answer _ _ _ _ _ _ _ _ := trivial
  lasts_drift _ _ _ _ := trivial

/-! ## What is credited -/

/-- **An answer that credits a deposit of a day** answers a call whose row is of that day, and is within its cap. -/
theorem DepositsOK.credits (h : DepositsOK uow u s n know) (hk : know k = some (op, g)) (w : Fault) {q : WalletQuery U M}
    (hmay : (op.protocol uow).may q g) {day : ℕ}
    (hne : (s.answer uow w k q).2.depositedOn u day ≠ s.depositedOn u day) :
    ∃ d, op = .deposit d ∧ (s.answer uow w k q).2.bookedOn u day ≤ d.depositCapCents := by
  cases op with
  | beside o ho =>
    have hdeposits := answer_deposits uow w hmay fun r hr htask => by
      obtain ⟨hmem, hdep⟩ := Vault.mem_deposits.mp hr
      have hno : r.isDepositOf u = false := (h.owned r hmem k htask).2 _ _ hk
      rw [hno] at hdep
      cases hdep
    refine absurd ?_ hne
    unfold Vault.depositedOn
    rw [hdeposits]
  | deposit d =>
    refine ⟨d, rfl, ?_⟩
    have hholds : d.Holds u s k g.since g.phase := (h.known k _ g hk).phase
    have howns := fun r (hr : r ∈ s.deposits u) htask => (h.owned r (Vault.mem_deposits.mp hr).1 k htask).2 _ _ hk
    -- a row that is flagged is of the day of the phase, or has both flags already
    have hflagged : ∀ {f : LedgerRow U M → LedgerRow U M} (_ : ∀ r, LedgerRow.Later k r (f r))
        (_ : (s.answer uow w k q).2.rows = s.rows.map f) {ms : ℕ}
        (_ : s.bookedOn u (ResponsibleGaming.dayIndex ms) ≤ d.depositCapCents)
        (_ : ∀ r ∈ s.deposits u, r.task = some k → r.createdAt = ms),
        (s.answer uow w k q).2.bookedOn u day ≤ d.depositCapCents := by
      intro f hf hrows ms hcap htimes
      by_cases hday : day = ResponsibleGaming.dayIndex ms
      · rw [hday, Vault.bookedOn_map hf hrows]
        exact hcap
      · refine absurd (Vault.depositedOn_map hf hrows fun r hr hrday htask => ?_) hne
        refine absurd (hrday.symm.trans ?_) hday
        unfold LedgerRow.day
        rw [htimes r hr htask]
    rcases s.answer_rows uow w k q with hrows | ⟨tx, htx, hrows⟩ | ⟨⟨v, x, rfl⟩, hrows⟩ | ⟨rfl, hrows⟩ | ⟨-, hrows⟩
    · refine absurd ?_ hne
      unfold Vault.depositedOn Vault.deposits
      rw [hrows]
    · refine absurd ?_ hne
      unfold Vault.depositedOn Vault.deposits
      rw [hrows, List.filter_append, amountOf_append]
      have hnew : amountOf ([s.newRow uow k tx].filter fun r => r.isDepositOf u)
          (fun r => decide (r.day = day) && r.committed && r.credited) = 0 := by
        refine amountOf_eq_zero fun r hr => ?_
        rw [List.mem_singleton.mp (List.mem_filter.mp hr).1]
        simp [Vault.newRow]
      rw [hnew, Int.add_zero]
    · obtain ⟨⟨ms, hbooked⟩, -⟩ := hmay
      rw [hbooked] at hholds
      exact hflagged (.mark k) hrows hholds fun r hr htask => (howns r hr htask).time (.inl hbooked)
    · obtain ⟨-, hclosed | ⟨ms, hcredited⟩⟩ := hmay
      · refine absurd (Vault.depositedOn_map (.commit k) hrows fun r hr _ htask => ?_) hne
        obtain ⟨-, hp | hp | ⟨-, hrcommitted, hrcredited⟩⟩ := howns r hr htask
        · rw [hclosed] at hp
          cases hp
        · rw [hclosed] at hp
          cases hp
        · rw [if_pos htask]
          exact ⟨hrcommitted.symm, rfl⟩
      · rw [hcredited] at hholds
        exact hflagged (.commit k) hrows hholds.1 fun r hr htask => (howns r hr htask).time (.inr hcredited)
    · -- what a rollback takes back is not committed
      refine absurd ?_ hne
      unfold Vault.depositedOn Vault.deposits amountOf
      rw [hrows]
      show ((((s.rows.filter fun r => r.committed || decide (r.task ≠ some k)).filter _).filter _).map _).sum = _
      rw [List.filter_filter, List.filter_filter, List.filter_filter]
      congr 2
      refine List.filter_congr fun r _ => ?_
      cases r.committed with
      | true => simp
      | false => simp

/-! ## The cap -/

omit [DecidableEq U] [DecidableEq M] in
/-- The task waits for the sum of the day's deposits. -/
def checkAsked (p : DepositPool M u) (k : ℕ) : Bool :=
  match p.tasks[k]?.bind (·.program.pending) with
  | some (.statement (.depositsToday _)) => true
  | _ => false

variable (uow u) in
/-- Without a unit of work, every deposit of the day that a check sums is credited. -/
def Counted (p : DepositPool M u) : PoolEvent (DepositorOp M u) Fault (VaultEvent U) → Prop
  | .execute k _ => checkAsked p k = true → uow = true ∨
      ∀ r ∈ p.store.deposits u, r.day = ResponsibleGaming.dayIndex (p.store.asked k) → r.credited = true
  | _ => True

/-- The repositories when the server starts: their rows are booked. -/
structure Vault.Booted (s : Vault U M) (u : U) : Prop where
  rows : ∀ r ∈ s.rows, r.task = none ∧ r.committed = true ∧ r.credited = true ∧ r.createdAt ≤ s.now
  gains : ∀ r ∈ s.deposits u, 0 ≤ r.tx.amountCents

/-- A fresh vault has the invariant. -/
theorem Vault.Booted.ok (h : s.Booted u) : DepositsOK uow u s 0 fun _ => none where
  times r hr := (h.rows r (Vault.mem_deposits.mp hr).1).2.2.2
  gains := h.gains
  direct _ r hr := (h.rows r hr).2.1
  settled _ r hr _ := (h.rows r (Vault.mem_deposits.mp hr).1).2.2.1
  pending r hr hopen := by
    rw [(h.rows r (Vault.mem_deposits.mp hr).1).2.1] at hopen
    cases hopen
  owned r hr k htask := by
    rw [(h.rows r hr).1] at htask
    cases htask
  known k op g hk := by cases hk

section Refused

variable {p : DepositPool M u}

/-- **A refusal**: at a time since the call was started, the day's deposits and its amount are above its cap. -/
theorem deposit_refused {d : CappedDeposit M} {since : ℕ} (hp : Runtime.Rules.Attuned (depositServer uow u)
      (DepositorOp.protocol uow) DepositorOp.init (DepositorOp.Returns uow) (DepositorOp.Throws uow) (DepositsOK uow u)
      (fun _ _ _ => True) p know)
    (hk : Runtime.Rules.Stands (DepositorOp.Returns uow) (DepositorOp.Throws uow) (fun g => g.since = since) p know k
      (.deposit d))
    (hbefore : (p.tasks[k]?.bind (·.program.thrown)) = none) {e : PoolEvent (DepositorOp M u) Fault (VaultEvent U)}
    {v : U} {used a c : ℤ}
    (hafter : (((depositServer uow u).step p e).tasks[k]?.bind (·.program.thrown)) =
      some (.depositCapExceeded v used a c))
    (hcounted : Counted uow u p e) :
    ∃ ms, since ≤ ms ∧ ms ≤ ((depositServer uow u).step p e).store.now ∧ d.depositCapCents <
      ((depositServer uow u).step p e).store.depositedOn u (ResponsibleGaming.dayIndex ms) + d.amountCents := by
  have hL : ∀ (q : WalletQuery U M) r (g g' : DepositSeen), g.since = since →
      ((DepositorOp.deposit (u := u) d).protocol uow).reply q r g g' → g'.since = since := by
    intro q r g g' hg hr
    rw [hr.2.same.1]
    exact hg
  obtain ⟨w, q, next, g, g', know', rfl, ⟨t, ht, hask⟩, hstore, hg, hmay, hreply, hinv, hg', ⟨hblames, -⟩, hsince⟩ :=
    (deposit_rules uow u).thrown_at hL hp hk hbefore hafter
  obtain ⟨ms, hms⟩ := hblames.1 v used a c rfl
  cases uow with
  | true =>
    have hholds : d.Holds u _ k g'.since g'.phase := (hinv.known k _ g' hg').phase
    rw [hms] at hholds
    obtain ⟨hfrom, hto, hcommitted, habove⟩ := hholds
    refine ⟨ms, hsince ▸ hfrom, hto, ?_⟩
    rw [Vault.depositedOn_eq fun r hr _ => ⟨hcommitted r hr, hinv.settled rfl r hr (hcommitted r hr)⟩]
    exact habove
  | false =>
    -- without a transaction the check itself throws
    obtain ⟨v', rfl⟩ | hbad := hreply.2.refused hmay hms
    · have hchecked : checkAsked p k = true := by
        unfold checkAsked
        simp [ht, hask, Async.pending]
      have hcredited := (hcounted hchecked).resolve_left (by decide)
      obtain ⟨rfl, hunbooked, -⟩ := hmay
      have hholds : d.Holds v' p.store k g.since g.phase := (hp.inv.known k _ g hg).phase
      rw [hunbooked] at hholds
      obtain ⟨hfrom, hto, htimes⟩ := hholds
      have hcommitted : ∀ r ∈ p.store.deposits v', r.committed = true :=
        fun r hr => hp.inv.direct rfl r (Vault.mem_deposits.mp hr).1
      have hused := Vault.depositsSince_eq (k := k) (fun r hr => .inl (hcommitted r hr)) htimes
      obtain ⟨ms', hlearnt⟩ : d.Learns g g' (.statement (.depositsToday v')) (.ok (p.store.depositsSince k v'
        (ResponsibleGaming.startOfDayMs (p.store.asked k)))) := hreply.2
      rw [hused] at hlearnt
      have habove : ¬ p.store.bookedOn v' (ResponsibleGaming.dayIndex (p.store.asked k)) + d.amountCents ≤
        d.depositCapCents := by
        intro hwithin
        rw [if_pos hwithin] at hlearnt
        rw [hlearnt] at hms
        cases hms
      have hsame : g.since = since := by
        rw [hlearnt] at hsince
        exact hsince
      refine ⟨p.store.asked k, hsame ▸ hfrom, ?_, ?_⟩
      · rw [hstore]
        exact hto
      · rw [hstore]
        show d.depositCapCents < p.store.depositedOn v' (ResponsibleGaming.dayIndex (p.store.asked k)) + d.amountCents
        rw [Vault.depositedOn_eq fun r hr hday => ⟨hcommitted r hr, hcredited r hr hday⟩]
        omega
    · cases hbad

end Refused

/-- The calls after a run of the server. -/
def served (uow : Bool) (s₀ : Vault U M) (es : List (PoolEvent (DepositorOp M u) Fault (VaultEvent U))) : DepositPool M u :=
  run (depositServer uow u).step { store := s₀ } es

/-- What is known of the calls fits them. -/
def DepositKnown (uow : Bool) (p : DepositPool M u) (know : ℕ → Option (DepositorOp M u × DepositSeen)) : Prop :=
  Runtime.Rules.Attuned (depositServer uow u) (DepositorOp.protocol uow) DepositorOp.init (DepositorOp.Returns uow)
    (DepositorOp.Throws uow) (DepositsOK uow u) (fun _ _ _ => True) p know

theorem served_known (uow : Bool) {s₀ : Vault U M} (hs : s₀.Booted u)
    (es : List (PoolEvent (DepositorOp M u) Fault (VaultEvent U))) : ∃ know, DepositKnown uow (served uow s₀ es) know :=
  (deposit_rules uow u).attuned_run hs.ok es

/-- **A deposit from its start on**: what is known when it starts, as far as no answer changes it. -/
theorem served_stands (uow : Bool) {s₀ : Vault U M} (hs : s₀.Booted u)
    (es fs : List (PoolEvent (DepositorOp M u) Fault (VaultEvent U))) (d : CappedDeposit M) {L : DepositSeen → Prop}
    (hL : ∀ g g', L g → g'.since = g.since ∧ g'.replay = g.replay ∧ g'.account = g.account → L g')
    (hstart : L ((DepositorOp.deposit d).init (u := u) (served uow s₀ es).store)) :
    ∃ know, DepositKnown uow (served uow s₀ (es ++ .start (.deposit d) :: fs)) know ∧
      Runtime.Rules.Stands (DepositorOp.Returns uow) (DepositorOp.Throws uow) L
        (served uow s₀ (es ++ .start (.deposit d) :: fs)) know (served uow s₀ es).tasks.length (.deposit d) := by
  obtain ⟨know, hknow⟩ := served_known uow hs es
  obtain ⟨know', hknow', hstands⟩ := (deposit_rules uow u).stands_start hknow hstart
  have hrun : served uow s₀ (es ++ .start (.deposit d) :: fs) =
      run (depositServer uow u).step ((depositServer uow u).step (served uow s₀ es) (.start (.deposit d))) fs := by
    unfold served
    rw [run_append, run_cons]
  rw [hrun]
  refine (deposit_rules uow u).stands_run (fun q r g g' hg hr => ?_) hknow' hstands fs
  have hreply : (d.protocol uow u).reply q r g g' := hr
  exact hL g g' hg hreply.2.same

/-- **One step**: what it credits on a day is within the cap of the deposit that it answers. -/
theorem credits_within_cap {p : DepositPool M u} {know : ℕ → Option (DepositorOp M u × DepositSeen)}
    (hp : DepositKnown uow p know) (e : PoolEvent (DepositorOp M u) Fault (VaultEvent U)) {day : ℕ}
    (hne : ((depositServer uow u).step p e).store.depositedOn u day ≠ p.store.depositedOn u day) :
    ∃ k w t d, e = .execute k w ∧ p.tasks[k]? = some t ∧ t.op = .deposit d ∧
      ((depositServer uow u).step p e).store.depositedOn u day ≤ d.depositCapCents := by
  cases e with
  | start op => exact absurd rfl hne
  | drift e =>
    refine absurd ?_ hne
    cases e with
    | clock ms => rfl
    | createUser v =>
      show (p.store.drift (.createUser v)).depositedOn u day = p.store.depositedOn u day
      simp only [Vault.drift]
      split
      · rfl
      · rfl
  | execute k w =>
    obtain ⟨know', -, ⟨hsame, -⟩ | ⟨t, q, next, g, g', ha⟩⟩ := (deposit_rules uow u).attuned_execute hp k w
    · rw [hsame] at hne
      exact absurd rfl hne
    · rw [ha.step] at hne ⊢
      obtain ⟨d, hd, hle⟩ := hp.inv.credits ha.known w ha.may hne
      exact ⟨k, w, t, d, rfl, ha.task, hd, (Vault.depositedOn_le ha.inv.gains day).trans hle⟩

/-- **The daily deposit cap of a user**, in every run with any other calls. Whenever the deposits credited on a day
change, they are within the cap of the deposit that is credited; a valid deposit whose reference was credited before it
was started is answered as idempotent, unless the database fails; a deposit is refused only if the day's deposits and its
amount are above its cap, where every deposit that its check sums is credited; and no call is stuck on the chain. -/
theorem deposit_cap (uow : Bool) {s₀ : Vault U M} (hs : s₀.Booted u)
    (es : List (PoolEvent (DepositorOp M u) Fault (VaultEvent U))) :
    (∀ e day, (served uow s₀ (es ++ [e])).store.depositedOn u day ≠ (served uow s₀ es).store.depositedOn u day →
      ∃ k w t d, e = .execute k w ∧ (served uow s₀ es).tasks[k]? = some t ∧ t.op = .deposit d ∧
        (served uow s₀ (es ++ [e])).store.depositedOn u day ≤ d.depositCapCents) ∧
    (∀ d fs t, d.Valid → ((served uow s₀ es).store.balance u).isSome →
      (∃ r ∈ (served uow s₀ es).store.rows, r.committed = true ∧ r.credited = true ∧ r.tx.providerRef = some d.providerRef) →
      (served uow s₀ (es ++ .start (.deposit d) :: fs)).tasks[(served uow s₀ es).tasks.length]? = some t →
      (∀ r, t.program.returned = some r → r.idempotent = true) ∧
        ∀ e, t.program.thrown = some e → uow = true ∧ e = .store) ∧
    (∀ d fs e v used a c,
      ((served uow s₀ (es ++ .start (.deposit d) :: fs)).tasks[(served uow s₀ es).tasks.length]?.bind (·.program.thrown)) =
        none →
      ((served uow s₀ (es ++ .start (.deposit d) :: fs ++ [e])).tasks[(served uow s₀ es).tasks.length]?.bind
        (·.program.thrown)) = some (.depositCapExceeded v used a c) →
      Counted uow u (served uow s₀ (es ++ .start (.deposit d) :: fs)) e →
      ∃ ms, (served uow s₀ es).store.now ≤ ms ∧ ms ≤ (served uow s₀ (es ++ .start (.deposit d) :: fs ++ [e])).store.now ∧
        d.depositCapCents <
          (served uow s₀ (es ++ .start (.deposit d) :: fs ++ [e])).store.depositedOn u
            (ResponsibleGaming.dayIndex ms) + d.amountCents) ∧
    ∀ w, ∃ ks : List ℕ, ∀ t ∈ (served uow s₀ (es ++ ks.map fun k => .execute k w)).tasks, t.program.finished = true := by
  have hsnoc : ∀ es' e, served uow s₀ (es' ++ [e]) = (depositServer uow u).step (served uow s₀ es') e := by
    intro es' e
    unfold served
    rw [run_append]
    rfl
  refine ⟨fun e day hne => ?_, fun d fs t hvalid haccount hcredited ht => ?_,
    fun d fs e v used a c hbefore hafter hcounted => ?_, fun w => ?_⟩
  -- what the invariant says of the event
  · obtain ⟨know, hknow⟩ := served_known uow hs es
    rw [hsnoc] at hne ⊢
    exact credits_within_cap hknow e hne
  · obtain ⟨r, hr, hcommitted, -, href⟩ := hcredited
    have hbooked : (served uow s₀ es).store.booked d.providerRef = true := by
      refine List.any_eq_true.mpr ⟨r, hr, ?_⟩
      simp [hcommitted, href]
    -- the deposit is followed from its start: its reference stays booked
    obtain ⟨know, -, t', ht', -, hend⟩ := served_stands uow hs es fs d (L := fun g => g.replay = true ∧ g.account = true)
      (fun g g' hg hsame => ⟨hsame.2.1.trans hg.1, hsame.2.2.trans hg.2⟩) ⟨hbooked, haccount⟩
    obtain rfl := Option.some.inj (ht'.symm.trans ht)
    refine ⟨fun r' hr' => ?_, fun e he => ?_⟩
    · cases hp : t'.program with
      | pure r₀ =>
        rw [hp] at hr' hend
        cases hr'
        obtain ⟨g, ⟨hreplay, -⟩, hreturns⟩ := hend
        exact hreturns.1.1 hreplay
      | throw e =>
        rw [hp] at hr'
        cases hr'
      | ask q next =>
        rw [hp] at hr'
        cases hr'
    · cases hp : t'.program with
      | pure r₀ =>
        rw [hp] at he
        cases he
      | throw e₀ =>
        rw [hp] at he hend
        cases he
        obtain ⟨g, ⟨hreplay, haccount⟩, hthrows⟩ := hend
        exact hthrows.1.2 hvalid hreplay haccount
      | ask q next =>
        rw [hp] at he
        cases he
  -- here it is followed with the time it started at
  · obtain ⟨know, hknow, hstands⟩ := served_stands uow hs es fs d (L := fun g => g.since = (served uow s₀ es).store.now)
      (fun g g' hg hsame => hsame.1.trans hg) rfl
    rw [hsnoc] at hafter ⊢
    exact deposit_refused hknow hstands hbefore hafter hcounted
  -- no call waits on one that waits on it
  · obtain ⟨ks, hks⟩ := (depositServer uow u).drains w (served uow s₀ es)
    refine ⟨ks, ?_⟩
    unfold served
    rw [run_append]
    exact hks

end Server

/-! ### A deposit that is refused at the ceiling -/

/-- A deposit of 60.00, with a cap of 100.00 a day. -/
def firstDeposit : DepositorOp Unit () :=
  .deposit { amountCents := 6000, providerRef := .other "tron:1", depositCapCents := 10000 }

/-- A deposit of 45.00, with the same cap. -/
def secondDeposit : DepositorOp Unit () :=
  .deposit { amountCents := 4500, providerRef := .other "tron:2", depositCapCents := 10000 }

/-- The first deposit does not fit under the ceiling. -/
def lastCents : Vault Unit Unit := { balance := fun _ => some 1999995000 }

/-- One after the other; the first has appended its row when it is refused. -/
def twoDeposits : List (PoolEvent (DepositorOp Unit ()) Fault (VaultEvent Unit)) :=
  [.start firstDeposit, .execute 0 .none, .execute 0 .none, .execute 0 .none, .execute 0 .none,
    .start secondDeposit, .execute 1 .none, .execute 1 .none, .execute 1 .none]

/-- Nothing was deposited on any day, and 45.00 are refused with a cap of 100.00. -/
theorem deposit_refused_below_cap :
    lastCents.Booted () ∧
      ((served false lastCents twoDeposits).tasks[1]?.bind (·.program.thrown)) =
        some (.depositCapExceeded () 6000 4500 10000) ∧
      ∀ day, ¬(10000 : ℤ) < (served false lastCents twoDeposits).store.depositedOn () day + 4500 := by
  refine ⟨⟨fun r hr => (by cases hr), fun r hr => (by cases hr)⟩, by decide +kernel, fun day => ?_⟩
  have hnone : ∀ r ∈ (served false lastCents twoDeposits).store.rows, r.credited = false := by decide +kernel
  have hzero : (served false lastCents twoDeposits).store.depositedOn () day = 0 := by
    refine amountOf_eq_zero fun r hr => ?_
    simp [hnone r (Vault.mem_deposits.mp hr).1]
  rw [hzero]
  decide

/-- A vault where every balance is zero. -/
def emptyVault : Vault Unit Unit := { balance := fun _ => some 0 }

theorem emptyVault_booted : emptyVault.Booted () where
  rows r hr := by cases hr
  gains r hr := by cases hr

/-- The first deposit alone, up to its increment. -/
def firstAlone : List (PoolEvent (DepositorOp Unit ()) Fault (VaultEvent Unit)) :=
  [.start firstDeposit, .execute 0 .none, .execute 0 .none, .execute 0 .none, .execute 0 .none]

/-- The first deposit has been credited. -/
def firstCredited : List (PoolEvent (DepositorOp Unit ()) Fault (VaultEvent Unit)) := firstAlone ++ [.execute 0 .none]

/-- The deposit is within the cap; sent again it is answered as a replay; the second one is refused, as it would take the
day above the cap. -/
theorem deposit_cap_firstAlone :
    ((served false emptyVault firstCredited).store.depositedOn () 0 = 6000 ∧
      ∃ (k : ℕ) (t : _) (d : CappedDeposit Unit), (served false emptyVault firstAlone).tasks[k]? = some t ∧ t.op = .deposit d ∧
        (6000 : ℤ) ≤ d.depositCapCents) ∧
    (∃ t r, (served false emptyVault (firstCredited ++ .start firstDeposit :: .replicate 4 (.execute 1 .none))).tasks[1]? =
      some t ∧ t.program.returned = some r ∧ r.idempotent = true) ∧
    ((served false emptyVault (firstCredited ++ .start secondDeposit :: .replicate 3 (.execute 1 .none))).tasks[1]?.bind
      (·.program.thrown)) = some (.depositCapExceeded () 6000 4500 10000) ∧
    ∃ ms, (10000 : ℤ) < (served false emptyVault (firstCredited ++ .start secondDeposit ::
      .replicate 3 (.execute 1 .none))).store.depositedOn () (ResponsibleGaming.dayIndex ms) + 4500 := by
  have hend : (served false emptyVault firstCredited).store.depositedOn () 0 = 6000 := by decide +kernel
  have hrefused : ((served false emptyVault (firstCredited ++ .start secondDeposit ::
      .replicate 3 (.execute 1 .none))).tasks[1]?.bind (·.program.thrown)) =
      some (.depositCapExceeded () 6000 4500 10000) := by decide +kernel
  refine ⟨⟨hend, ?_⟩, ?_, hrefused, ?_⟩
  · obtain ⟨k, w, t, d, -, ht, hd, hle⟩ := (deposit_cap false emptyVault_booted firstAlone).1 (.execute 0 .none) 0
      (by decide +kernel)
    exact ⟨k, t, d, ht, hd, hend ▸ hle⟩
  · have hreturned : ((served false emptyVault (firstCredited ++ .start firstDeposit ::
        .replicate 4 (.execute 1 .none))).tasks[1]?.bind (·.program.returned)).isSome = true := by decide +kernel
    obtain ⟨r, hr⟩ := Option.isSome_iff_exists.mp hreturned
    obtain ⟨t, ht, hr⟩ := Option.bind_eq_some_iff.mp hr
    have hreplay := (deposit_cap false emptyVault_booted firstCredited).2.1
      { amountCents := 6000, providerRef := .other "tron:1", depositCapCents := 10000 } (.replicate 4 (.execute 1 .none)) t
      ⟨by decide, by decide⟩ (by decide +kernel) (by decide +kernel) ht
    exact ⟨t, r, ht, hr, hreplay.1 r hr⟩
  · have hall : ∀ r ∈ (served false emptyVault (firstCredited ++ .start secondDeposit ::
        .replicate 2 (.execute 1 .none))).store.rows, r.credited = true := by decide +kernel
    obtain ⟨ms, -, -, habove⟩ := (deposit_cap false emptyVault_booted firstCredited).2.2.1
      { amountCents := 4500, providerRef := .other "tron:2", depositCapCents := 10000 } (.replicate 2 (.execute 1 .none))
      (.execute 1 .none) () 6000 4500 10000 (by decide +kernel) hrefused
      fun _ => .inr fun r hr _ => hall r (Vault.mem_deposits.mp hr).1
    exact ⟨ms, habove⟩

end Murlan
