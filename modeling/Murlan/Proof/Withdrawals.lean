import Murlan.Proof.Custody

/-!
# Withdrawals are sent at most once, and given back at most once

Over every run of the withdrawal desk: any number of operations on any withdrawals,
every answer of the provider, every failure before or after a call took effect.

* `step_ok`: each event keeps the desk in order (`DeskOK`).
* `withdrawal_sent_once`: a withdrawal is sent at most once, never both sent and
  rejected, and its status moves only forward.
* `withdrawal_refunded_once`: when no sweep reads as completed a withdrawal the provider
  refused, what is given back for a withdrawal is nothing or its amount.
-/

namespace Murlan

variable {U : Type}

/-- Whether the task is a sweep of the reconciler. -/
def WithdrawalDesk.sweeps (d : WithdrawalDesk U) (k : ℕ) : Bool :=
  match d.tasks k with
  | none => false
  | some t => t.operation.sweeps

/-- The invariant of the desk. -/
structure DeskOK (d : WithdrawalDesk U) (st : ℕ → Option (Stage U)) (voids : Set ℕ) : Prop where
  custody : Custody d st voids d.sweeps
  fresh : ∀ k, d.next ≤ k → d.tasks k = none
  idle : ∀ k, d.tasks k = none → st k = none
  program : ∀ k t, d.tasks k = some t →
    t.program.wp (Desk.protocol t.operation.sweeps) (fun _ g => t.operation.post g) (fun _ _ => True) (st k)

/-- The tasks are no part of what custody is about, but for who sweeps. -/
theorem Custody.withTasks {d : WithdrawalDesk U} {st : ℕ → Option (Stage U)} {voids : Set ℕ}
    {sweeps sweeps' : ℕ → Bool} (h : Custody d st voids sweeps) (tasks : ℕ → Option (WithdrawalTask U))
    (next : ℕ) (hsweeps : ∀ k s, st k = some s → sweeps' k = sweeps k) :
    Custody { d with tasks := tasks, next := next } st voids sweeps' := by
  have hclean : ∀ {id}, Clean d id → Clean { d with tasks := tasks, next := next } id :=
    fun h => ⟨h.sends, h.outcomes, h.reversal, h.found⟩
  refine ⟨h.row, ?_, ?_, h.refund, h.reversal, h.sends, h.outcomes, h.refs, h.amount, h.known, ?_,
    h.owner⟩
  · intro id hid
    obtain ⟨hc, hr, hv⟩ := h.pending id hid
    exact ⟨hclean hc, hr, hv⟩
  · intro id hid
    obtain ⟨hc, hr⟩ := h.void id hid
    exact ⟨hclean hc, hr⟩
  · intro k s hk
    rw [hsweeps k s hk]
    exact (h.fits k s hk).mono (fun ht => ⟨ht.resolved, ht.not_void⟩) (fun _ h => h) (fun _ h => h)
      (fun _ h => h) (fun _ h => h) (fun _ h => h) fun _ h => h

theorem setTask_tasks (d : WithdrawalDesk U) (k j : ℕ) (t : WithdrawalTask U) :
    (d.setTask k t).tasks j = if j = k then some t else d.tasks j :=
  Function.update_apply d.tasks k (some t) j

/-- A query changes the rows and the records of what happened, not the tasks. -/
theorem Desk.answer_tasks (reply : DeskReply) (d : WithdrawalDesk U) (q : Desk U) :
    (q.answer reply d).2.tasks = d.tasks ∧ (q.answer reply d).2.next = d.next := by
  cases q with
  | find id => exact ⟨rfl, rfl⟩
  | listRecent => exact ⟨rfl, rfl⟩
  | notify => exact ⟨rfl, rfl⟩
  | send id a address => exact ⟨rfl, rfl⟩
  | outcome id => exact ⟨rfl, rfl⟩
  | credit u a ref => exact d.book_tasks u a ref
  | findWithdrawal id =>
    simp only [Desk.answer]
    split
    · exact ⟨rfl, rfl⟩
    · dsimp only
      split <;> exact ⟨rfl, rfl⟩
  | hold u a destination =>
    simp only [Desk.answer]
    split <;> exact ⟨rfl, rfl⟩
  | setStatusIfPending id status audit =>
    simp only [Desk.answer]
    rcases Custody.resolve_cases d id status audit with hnone | ⟨r, -, -, hsome⟩
    · rw [hnone]
      exact ⟨rfl, rfl⟩
    · rw [hsome]
      exact ⟨rfl, rfl⟩
  | rejectAndRefund id audit u a =>
    simp only [Desk.answer]
    rcases Custody.resolve_cases d id .rejected audit with hnone | ⟨r, -, -, hsome⟩
    · rw [hnone]
      exact ⟨rfl, rfl⟩
    · rw [hsome]
      exact WithdrawalDesk.book_tasks _ u a _
  | markReversed id =>
    simp only [Desk.answer, WithdrawalDesk.reverse]
    split
    · exact ⟨rfl, rfl⟩
    · split <;> exact ⟨rfl, rfl⟩
  | setAudit id audit =>
    simp only [Desk.answer]
    split <;> exact ⟨rfl, rfl⟩

namespace DeskOK

variable {d : WithdrawalDesk U} {st : ℕ → Option (Stage U)} {voids : Set ℕ}

/-- A task gets the answer to its query. -/
theorem execute (h : DeskOK d st voids) {k : ℕ} {t : WithdrawalTask U} (hk : d.tasks k = some t)
    {q : Desk U} {next : Except WithdrawalError q.Answer → Clerk U (WithdrawalReceipt U)}
    (hprog : t.program = .ask q next) (reply : DeskReply) :
    ∃ st' voids', DeskOK ((q.reply reply d).2.setTask k { t with program := next (q.reply reply d).1 })
      st' voids' := by
  have hwp := h.program k t hk
  rw [hprog] at hwp
  obtain ⟨hmay, hnext⟩ := hwp
  have hsweeps : d.sweeps k = t.operation.sweeps := by
    unfold WithdrawalDesk.sweeps
    rw [hk]
  -- the desk after the query, with the operation at the stage its answer leads to
  have hquery : ∃ voids', Custody (q.reply reply d).2
      (Function.update st k (q.next (q.reply reply d).1 (st k))) voids' d.sweeps := by
    obtain ⟨voids', hasked⟩ := h.custody.asked k q (by rw [hsweeps]; exact hmay) reply
    unfold Desk.reply
    cases reply.fault with
    | none => exact ⟨voids', hasked _ (.inl rfl)⟩
    | before => exact ⟨voids, h.custody.failed rfl q .store⟩
    | after => exact ⟨voids', hasked _ (.inr ⟨_, rfl⟩)⟩
  obtain ⟨voids', hcustody⟩ := hquery
  have htasks : (q.reply reply d).2.tasks = d.tasks ∧ (q.reply reply d).2.next = d.next := by
    unfold Desk.reply
    cases reply.fault with
    | none => exact Desk.answer_tasks reply d q
    | before => exact ⟨rfl, rfl⟩
    | after => exact Desk.answer_tasks reply d q
  have hset : ∀ j, ((q.reply reply d).2.setTask k { t with program := next (q.reply reply d).1 }).tasks j =
      if j = k then some { t with program := next (q.reply reply d).1 } else d.tasks j := by
    intro j
    rw [setTask_tasks, htasks.1]
  refine ⟨_, voids', ⟨hcustody.withTasks _ _ ?_, ?_, ?_, ?_⟩⟩
  · intro j s _
    unfold WithdrawalDesk.sweeps
    rw [hset]
    by_cases hjk : j = k
    · subst hjk
      rw [if_pos rfl, hk]
    · rw [if_neg hjk]
  · intro j hj
    have hj' : d.next ≤ j := by
      rw [← htasks.2]
      exact hj
    rw [hset, if_neg]
    · exact h.fresh j hj'
    · rintro rfl
      rw [h.fresh j hj'] at hk
      cases hk
  · intro j hj
    rw [hset] at hj
    by_cases hjk : j = k
    · rw [if_pos hjk] at hj
      cases hj
    · rw [if_neg hjk] at hj
      rw [Function.update_of_ne hjk]
      exact h.idle j hj
  · intro j u hj
    rw [hset] at hj
    by_cases hjk : j = k
    · rw [if_pos hjk] at hj
      cases hj
      subst hjk
      rw [Function.update_self]
      exact hnext _ _ rfl
    · rw [if_neg hjk] at hj
      rw [Function.update_of_ne hjk]
      exact h.program j u hj

/-- An operation enters. -/
theorem start [DecidableEq U] (h : DeskOK d st voids) (setup : WithdrawalSetup)
    (op : WithdrawalOperation U) : DeskOK (d.step setup (.start op)) st voids := by
  have hset : ∀ j, (d.step setup (.start op)).tasks j =
      if j = d.next then some { operation := op, program := op.program setup } else d.tasks j :=
    fun j => setTask_tasks d d.next j _
  have hnew : st d.next = none := h.idle _ (h.fresh _ (le_refl _))
  refine ⟨h.custody.withTasks _ _ ?_, ?_, ?_, ?_⟩
  · intro j s hj
    have hne : j ≠ d.next := by
      rintro rfl
      rw [hnew] at hj
      cases hj
    unfold WithdrawalDesk.sweeps
    rw [hset, if_neg hne]
  · intro j hj
    have hj' : d.next + 1 ≤ j := hj
    rw [hset, if_neg (by omega)]
    exact h.fresh j (by omega)
  · intro j hj
    rw [hset] at hj
    by_cases hne : j = d.next
    · rw [if_pos hne] at hj
      cases hj
    · rw [if_neg hne] at hj
      exact h.idle j hj
  · intro j t hj
    rw [hset] at hj
    by_cases hne : j = d.next
    · rw [if_pos hne] at hj
      cases hj
      subst hne
      rw [hnew]
      exact op.conforms setup
    · rw [if_neg hne] at hj
      exact h.program j t hj

end DeskOK

theorem desk_boot_ok : DeskOK ({} : WithdrawalDesk U) (fun _ => none) ∅ := by
  refine ⟨?_, fun _ _ => rfl, fun _ _ => rfl, ?_⟩
  · constructor <;> simp [WithdrawalDesk.refs, Clean.mk]
  · intro k t hk
    cases hk

/-! ## What one query can do -/

/-- A row's status changes while it is pending, or by a reversal. -/
theorem Desk.answer_status {d : WithdrawalDesk U} {st : ℕ → Option (Stage U)} {voids : Set ℕ}
    {sweeps : ℕ → Bool} (h : Custody d st voids sweeps) (reply : DeskReply) (q : Desk U) {id : ℕ}
    {r r' : WithdrawalRecord U} (hr : d.rows id = some r)
    (hr' : (q.answer reply d).2.rows id = some r') :
    r'.status = r.status ∨ r.status = .pending ∨
      (q = .markReversed id ∧ r.status = .completed ∧ r'.status = .rejected) := by
  have hsame : d.rows id = some r' → r'.status = r.status := by
    intro hd
    rw [hr] at hd
    cases hd
    rfl
  -- a resolution takes effect on a pending row only
  have hresolve : ∀ {id' status audit d' x}, d.resolve id' status audit = some (x, d') →
      d'.rows id = some r' → r'.status = r.status ∨ r.status = .pending := by
    intro id' status audit d' x hsome hd
    rcases Custody.resolve_cases d id' status audit with hnone | ⟨y, hy, hpending, hsome'⟩
    · rw [hnone] at hsome
      cases hsome
    rw [hsome'] at hsome
    cases hsome
    by_cases he : id = id'
    · subst he
      rw [hr] at hy
      cases hy
      exact .inr hpending
    · rw [Custody.rows_setRow, Custody.resolve_id, (h.row id' y hy).1, if_neg he] at hd
      exact .inl (hsame hd)
  cases q with
  | find id => exact .inl (hsame hr')
  | listRecent => exact .inl (hsame hr')
  | notify => exact .inl (hsame hr')
  | send id a address => exact .inl (hsame hr')
  | outcome id => exact .inl (hsame hr')
  | credit u a ref =>
    change (d.book u a ref).rows id = some r' at hr'
    rw [WithdrawalDesk.book_rows] at hr'
    exact .inl (hsame hr')
  | findWithdrawal id' =>
    simp only [Desk.answer] at hr'
    split at hr'
    · exact .inl (hsame hr')
    · dsimp only at hr'
      split at hr'
      · exact .inl (hsame hr')
      · exact .inl (hsame hr')
  | hold u a destination =>
    simp only [Desk.answer] at hr'
    split at hr'
    · -- the new row has a new id
      change (d.setRow _).rows id = some r' at hr'
      rw [Custody.rows_setRow, if_neg] at hr'
      · exact .inl (hsame hr')
      · intro he
        have hlt := (h.row id r hr).2
        simp only at he
        omega
    · exact .inl (hsame hr')
  | setStatusIfPending id' status audit =>
    simp only [Desk.answer] at hr'
    split at hr'
    · exact .inl (hsame hr')
    · rename_i x d' hsome
      rcases hresolve hsome hr' with hs | hp
      · exact .inl hs
      · exact .inr (.inl hp)
  | rejectAndRefund id' audit u a =>
    simp only [Desk.answer] at hr'
    split at hr'
    · exact .inl (hsame hr')
    · rename_i x d' hsome
      rw [WithdrawalDesk.book_rows] at hr'
      rcases hresolve hsome hr' with hs | hp
      · exact .inl hs
      · exact .inr (.inl hp)
  | markReversed id' =>
    simp only [Desk.answer, WithdrawalDesk.reverse] at hr'
    split at hr'
    · exact .inl (hsame hr')
    · rename_i y hy
      split at hr'
      · rename_i hc
        have hyid := (h.row id' y hy).1
        by_cases he : id = id'
        · subst he
          rw [hr] at hy
          cases hy
          rw [Custody.rows_setRow, if_pos hyid.symm] at hr'
          cases hr'
          exact .inr (.inr ⟨rfl, hc, rfl⟩)
        · rw [Custody.rows_setRow, if_neg (by simp only; omega)] at hr'
          exact .inl (hsame hr')
      · exact .inl (hsame hr')
  | setAudit id' audit =>
    simp only [Desk.answer] at hr'
    split at hr'
    · exact .inl (hsame hr')
    · rename_i y hy
      have hyid : (y.stamp audit).id = id' := (h.row id' y hy).1
      rw [Custody.rows_setRow, hyid] at hr'
      split at hr'
      · rename_i he
        subst he
        rw [hr] at hy
        cases hy
        cases hr'
        exact .inl rfl
      · exact .inl (hsame hr')

/-- A credit is booked by a refund, by a reject, or by a reversal. -/
theorem Desk.answer_credits {d : WithdrawalDesk U} (reply : DeskReply) (q : Desk U) {c : RefundCredit U}
    (hc : c ∈ (q.answer reply d).2.credits) (hnew : c ∉ d.credits) :
    (∃ id, c.ref = .refund id) ∨ ∃ u a id, q = .credit u a (.reversal id) := by
  cases q with
  | find id => exact absurd hc hnew
  | listRecent => exact absurd hc hnew
  | notify => exact absurd hc hnew
  | send id a address => exact absurd hc hnew
  | outcome id => exact absurd hc hnew
  | credit u a ref =>
    rcases WithdrawalDesk.mem_book_credits hc with hold | href
    · exact absurd hold hnew
    · cases ref with
      | refund id => exact .inl ⟨id, href⟩
      | reversal id => exact .inr ⟨u, a, id, rfl⟩
  | rejectAndRefund id audit u a =>
    simp only [Desk.answer] at hc
    rcases Custody.resolve_cases d id .rejected audit with hnone | ⟨r, -, -, hsome⟩
    · rw [hnone] at hc
      exact absurd hc hnew
    · rw [hsome] at hc
      rcases WithdrawalDesk.mem_book_credits hc with hold | href
      · exact absurd hold hnew
      · exact .inl ⟨id, href⟩
  | findWithdrawal id =>
    simp only [Desk.answer] at hc
    split at hc
    · exact absurd hc hnew
    · dsimp only at hc
      split at hc <;> exact absurd hc hnew
  | hold u a destination =>
    simp only [Desk.answer] at hc
    split at hc <;> exact absurd hc hnew
  | setStatusIfPending id status audit =>
    simp only [Desk.answer] at hc
    rcases Custody.resolve_cases d id status audit with hnone | ⟨r, -, -, hsome⟩
    · rw [hnone] at hc
      exact absurd hc hnew
    · rw [hsome] at hc
      exact absurd hc hnew
  | markReversed id =>
    simp only [Desk.answer, WithdrawalDesk.reverse] at hc
    split at hc
    · exact absurd hc hnew
    · split at hc <;> exact absurd hc hnew
  | setAudit id audit =>
    simp only [Desk.answer] at hc
    split at hc <;> exact absurd hc hnew

theorem WithdrawalOperation.eq_reconcile {op : WithdrawalOperation U} (h : op.sweeps = true) :
    op = .reconcile := by
  cases op with
  | reconcile => rfl
  | _ => cases h

section Runs

variable [DecidableEq U] {setup : WithdrawalSetup}

/-- **Every event keeps the desk in order.** -/
theorem desk_step_ok {d : WithdrawalDesk U} (h : ∃ st voids, DeskOK d st voids) (e : DeskEvent U) :
    ∃ st voids, DeskOK (d.step setup e) st voids := by
  obtain ⟨st, voids, h⟩ := h
  cases e with
  | start op => exact ⟨st, voids, h.start setup op⟩
  | execute k reply =>
    simp only [WithdrawalDesk.step]
    split
    · exact ⟨st, voids, h⟩
    rename_i t hk
    split
    · exact ⟨st, voids, h⟩
    · exact ⟨st, voids, h⟩
    · rename_i q next hprog
      exact h.execute hk hprog reply

theorem desk_run_ok (setup : WithdrawalSetup) (es : List (DeskEvent U)) :
    ∃ st voids, DeskOK (run (WithdrawalDesk.step setup) {} es) st voids :=
  run_inv (P := fun d : WithdrawalDesk U => ∃ st voids, DeskOK d st voids)
    (fun _ e h => desk_step_ok h e) ⟨_, _, desk_boot_ok⟩ es

/-- An event that changes the rows, the credits or what the provider saw is a task's query. -/
theorem desk_step_cases (setup : WithdrawalSetup) (d : WithdrawalDesk U) (e : DeskEvent U) :
    ((d.step setup e).rows = d.rows ∧ (d.step setup e).credits = d.credits) ∨
      ∃ k reply t q next, e = .execute k reply ∧ d.tasks k = some t ∧ t.program = .ask q next ∧
        (d.step setup e).rows = (q.answer reply d).2.rows ∧
        (d.step setup e).credits = (q.answer reply d).2.credits := by
  cases e with
  | start op => exact .inl ⟨rfl, rfl⟩
  | execute k reply =>
    simp only [WithdrawalDesk.step]
    split
    · exact .inl ⟨rfl, rfl⟩
    rename_i t hk
    split
    · exact .inl ⟨rfl, rfl⟩
    · exact .inl ⟨rfl, rfl⟩
    · rename_i q next hprog
      unfold Desk.reply
      cases reply.fault with
      | before => exact .inl ⟨rfl, rfl⟩
      | none => exact .inr ⟨k, reply, t, q, next, rfl, hk, hprog, rfl, rfl⟩
      | after => exact .inr ⟨k, reply, t, q, next, rfl, hk, hprog, rfl, rfl⟩

/-- **A withdrawal is sent at most once**, whatever runs beside it. The provider is called at
most once; after an answer that is no refusal there is no refund, and only sweeps book other
credits; a reject that returned is never sent; the status moves from pending, or from
completed to rejected once the refund (or a sweep's reversal) is booked. -/
theorem withdrawal_sent_once (setup : WithdrawalSetup) (es : List (DeskEvent U)) :
    let d := run (WithdrawalDesk.step setup) {} es
    (∀ id, d.sends.count id ≤ 1) ∧
    (∀ id r, (id, r) ∈ d.outcomes → r.refused = false → .refund id ∉ d.refs) ∧
    (∀ e c, c ∈ (d.step setup e).credits → c ∉ d.credits → (∃ id, c.ref = .refund id) ∨
      ∃ k reply t, e = .execute k reply ∧ d.tasks k = some t ∧ t.operation = .reconcile) ∧
    (∀ k t id audit receipt, d.tasks k = some t → t.operation = .reject id audit →
      t.program = .pure receipt → id ∉ d.sends) ∧
    ∀ e id r r', d.rows id = some r → (d.step setup e).rows id = some r' → r.status ≠ r'.status →
      (r.status = .pending ∧ (r'.status = .completed ∨ r'.status = .rejected)) ∨
      (r.status = .completed ∧ r'.status = .rejected ∧ (.refund id ∈ d.refs ∨
        ∃ k reply t, e = .execute k reply ∧ d.tasks k = some t ∧ t.operation = .reconcile ∧
          .reversal id ∈ d.refs)) := by
  intro d
  obtain ⟨st, voids, h⟩ : ∃ st voids, DeskOK d st voids := desk_run_ok setup es
  have hc := h.custody
  -- a task asks only what its stage lets it
  have hmay : ∀ {k t q next}, d.tasks k = some t → t.program = .ask q next →
      q.may t.operation.sweeps (st k) ∧ d.sweeps k = t.operation.sweeps := by
    intro k t q next hk hprog
    have hwp := h.program k t hk
    rw [hprog] at hwp
    refine ⟨hwp.1, ?_⟩
    unfold WithdrawalDesk.sweeps
    rw [hk]
  refine ⟨?_, ?_, ?_, ?_, ?_⟩
  · intro id
    exact List.nodup_iff_count_le_one.mp hc.sends id
  -- a refund needs a void, or a refusal by the provider
  · intro id r hr hrefused href
    rcases hc.refund id href with hv | ⟨r', hr', hrefused'⟩
    · exact (hc.void id hv).1.outcomes r hr
    · -- the provider answers once
      have heq : (id, r) = (id, r') := List.inj_on_of_nodup_map hc.outcomes hr hr' rfl
      cases heq
      rw [hrefused] at hrefused'
      cases hrefused'
  -- a new credit is a refund, or the reconciler's
  · intro e c hmem hnew
    rcases desk_step_cases setup d e with ⟨-, hsame⟩ | ⟨k, reply, t, q, next, rfl, hk, hprog, -, hcredits⟩
    · rw [hsame] at hmem
      exact absurd hmem hnew
    rw [hcredits] at hmem
    rcases Desk.answer_credits reply q hmem hnew with hrefund | ⟨u, a, id, rfl⟩
    · exact .inl hrefund
    · obtain ⟨hstage, hsweeps⟩ := hmay hk hprog
      have hfit := hc.fits k _ hstage
      exact .inr ⟨k, reply, t, rfl, hk, WithdrawalOperation.eq_reconcile (hsweeps ▸ hfit.2.2)⟩
  -- a rejection that returned has voided its withdrawal
  · intro k t id audit receipt hk hop hprog
    have hwp := h.program k t hk
    rw [hprog, hop] at hwp
    obtain ⟨s, hs, hp, rfl⟩ := hwp
    have hfit := hc.fits k s hs
    unfold Stage.Fits at hfit
    rw [hp] at hfit
    exact (hc.void _ hfit).1.sends
  -- a status changes from pending, or to rejected by a reversal
  · intro e id r r' hr hr' hne
    rcases desk_step_cases setup d e with ⟨hsame, -⟩ | ⟨k, reply, t, q, next, rfl, hk, hprog, hrows, -⟩
    · rw [hsame, hr] at hr'
      cases hr'
      exact absurd rfl hne
    rw [hrows] at hr'
    rcases Desk.answer_status hc reply q hr hr' with hs | hp | ⟨rfl, hcompleted, hrejected⟩
    · exact absurd hs.symm hne
    · left
      refine ⟨hp, ?_⟩
      cases hst : r'.status with
      | pending => exact absurd (hp.trans hst.symm) hne
      | completed => exact .inl rfl
      | rejected => exact .inr rfl
    · obtain ⟨⟨s, hs, hphase, hid⟩, hsweeps⟩ := hmay hk hprog
      have hfit := hc.fits k s hs
      unfold Stage.Fits at hfit
      refine .inr ⟨hcompleted, hrejected, ?_⟩
      rcases hphase with hp | hp
      · rw [hp, hid] at hfit
        exact .inl hfit.2
      · rw [hp, hid] at hfit
        exact .inr ⟨k, reply, t, rfl, hk, WithdrawalOperation.eq_reconcile (hsweeps ▸ hfit.2.2), hfit.2.1⟩

end Runs

/-! ## Given back once -/

/-- The provider and the sweeps agree: no sweep reads as completed a withdrawal whose send
was refused, and none is refused that a sweep has read as completed. -/
def WithdrawalDesk.agrees (d : WithdrawalDesk U) : DeskEvent U → Bool
  | .start _ => true
  | .execute k reply =>
    match d.tasks k with
    | none => true
    | some t =>
      match t.program with
      | .ask (.findWithdrawal id) _ =>
        reply.fault = .before || (d.rows id).all (fun r => r.status ≠ .completed) ||
          d.outcomes.all fun o => o.1 ≠ id || !o.2.refused
      | .ask (.outcome id) _ => reply.fault = .before || !reply.payout.refused || id ∉ d.found
      | _ => true

/-- No withdrawal was both refused and read as completed by a sweep. -/
def Agreed (d : WithdrawalDesk U) : Prop := ∀ id ∈ d.found, ∀ r, (id, r) ∈ d.outcomes → r.refused = false

/-- Sweeps' findings and the provider's answers are recorded by their own queries. -/
theorem Desk.answer_traffic (reply : DeskReply) (d : WithdrawalDesk U) (q : Desk U) :
    ((q.answer reply d).2.found = d.found ∧ (q.answer reply d).2.outcomes = d.outcomes) ∨
      (∃ id r, q = .findWithdrawal id ∧ d.rows id = some r ∧ r.status = .completed ∧
        (q.answer reply d).2.found = d.found ++ [id] ∧ (q.answer reply d).2.outcomes = d.outcomes) ∨
      ∃ id, q = .outcome id ∧ (q.answer reply d).2.found = d.found ∧
        (q.answer reply d).2.outcomes = d.outcomes ++ [(id, reply.payout)] := by
  cases q with
  | find id => exact .inl ⟨rfl, rfl⟩
  | listRecent => exact .inl ⟨rfl, rfl⟩
  | notify => exact .inl ⟨rfl, rfl⟩
  | send id a address => exact .inl ⟨rfl, rfl⟩
  | outcome id => exact .inr (.inr ⟨id, rfl, rfl, rfl⟩)
  | credit u a ref => exact .inl (d.book_traffic u a ref)
  | findWithdrawal id =>
    simp only [Desk.answer]
    split
    · exact .inl ⟨rfl, rfl⟩
    · rename_i r hr
      by_cases hc : r.status = .completed
      · refine .inr (.inl ⟨id, r, rfl, hr, hc, ?_, ?_⟩)
        · rw [if_pos hc]
        · rw [if_pos hc]
      · left
        rw [if_neg hc]
        exact ⟨rfl, rfl⟩
  | hold u a destination =>
    simp only [Desk.answer]
    split <;> exact .inl ⟨rfl, rfl⟩
  | setStatusIfPending id status audit =>
    simp only [Desk.answer]
    rcases Custody.resolve_cases d id status audit with hnone | ⟨r, -, -, hsome⟩
    · rw [hnone]
      exact .inl ⟨rfl, rfl⟩
    · rw [hsome]
      exact .inl ⟨rfl, rfl⟩
  | rejectAndRefund id audit u a =>
    simp only [Desk.answer]
    rcases Custody.resolve_cases d id .rejected audit with hnone | ⟨r, -, -, hsome⟩
    · rw [hnone]
      exact .inl ⟨rfl, rfl⟩
    · rw [hsome]
      exact .inl (WithdrawalDesk.book_traffic _ u a _)
  | markReversed id =>
    simp only [Desk.answer, WithdrawalDesk.reverse]
    split
    · exact .inl ⟨rfl, rfl⟩
    · split <;> exact .inl ⟨rfl, rfl⟩
  | setAudit id audit =>
    simp only [Desk.answer]
    split <;> exact .inl ⟨rfl, rfl⟩

/-- A deployment with a unit of work that takes every address. -/
def chainSetup : WithdrawalSetup := { uow := true, isValidTronAddress := fun _ => true }

/-- The provider takes the withdrawal; a sweep finds it failed on-chain. -/
def onChainFailure : List (DeskEvent ℕ) :=
  [.start (.request 7 1000 "Taddress"), .execute 0 {},
    .start (.payoutNow true 0 (some 9)), .execute 1 {}, .execute 1 {}, .execute 1 {}, .execute 1 {},
    .execute 1 {}, .start .reconcile, .execute 2 { history := [⟨0, 5, 1000⟩] }, .execute 2 {},
    .execute 2 {}, .execute 2 {}, .execute 2 {}]

/-- The provider refuses the withdrawal and the reversal of its row fails before a sweep. -/
def refusedThenSwept : List (DeskEvent ℕ) :=
  [.start (.request 7 1000 "Taddress"), .execute 0 {},
    .start (.payoutNow true 0 (some 9)), .execute 1 {}, .execute 1 {}, .execute 1 {},
    .execute 1 { payout := { ok := false } }, .execute 1 {}, .execute 1 { fault := .before },
    .start .reconcile, .execute 2 { history := [⟨0, 5, 1000⟩] }, .execute 2 {}, .execute 2 {},
    .execute 2 {}, .execute 2 {}]

namespace Custody

variable {d : WithdrawalDesk U} {st : ℕ → Option (Stage U)} {voids : Set ℕ} {sweeps : ℕ → Bool}

theorem creditor (h : Custody d st voids sweeps) {id : ℕ} {r : WithdrawalRecord U}
    (hr : d.rows id = some r) : ∀ c ∈ d.credits, c.ref.id = id → c.userId = r.userId := by
  rintro c hc rfl
  obtain ⟨x, hx, hu, -⟩ := h.amount c hc
  rw [hr] at hx
  cases hx
  exact hu

/-- A withdrawal whose refund and reversal were both booked was refused and found. -/
theorem not_both (h : Custody d st voids sweeps) (hagreed : Agreed d) (id : ℕ) :
    ¬ (.refund id ∈ d.refs ∧ .reversal id ∈ d.refs) := by
  rintro ⟨hrefund, hreversal⟩
  rcases h.refund id hrefund with hvoid | ⟨x, hx, hrefused⟩
  · exact (h.void id hvoid).1.reversal hreversal
  · have := hagreed id (h.reversal id hreversal) x hx
    rw [hrefused] at this
    cases this

/-- Two credits for one withdrawal are one. -/
theorem credit_unique (h : Custody d st voids sweeps) (hagreed : Agreed d) {c c' : RefundCredit U}
    (hc : c ∈ d.credits) (hc' : c' ∈ d.credits) (hid : c.ref.id = c'.ref.id) : c = c' := by
  refine List.inj_on_of_nodup_map h.refs hc hc' ?_
  have hmem : c.ref ∈ d.refs := List.mem_map.mpr ⟨c, hc, rfl⟩
  have hmem' : c'.ref ∈ d.refs := List.mem_map.mpr ⟨c', hc', rfl⟩
  have hnot := h.not_both hagreed c.ref.id
  cases hr : c.ref with
  | refund i =>
    rw [hr] at hid hmem hnot
    cases hr' : c'.ref with
    | refund j =>
      rw [hr'] at hid
      exact congrArg RefundRef.refund hid
    | reversal j =>
      rw [hr'] at hid hmem'
      obtain rfl : i = j := hid
      exact absurd ⟨hmem, hmem'⟩ hnot
  | reversal i =>
    rw [hr] at hid hmem hnot
    cases hr' : c'.ref with
    | refund j =>
      rw [hr'] at hid hmem'
      obtain rfl : i = j := hid
      exact absurd ⟨hmem', hmem⟩ hnot
    | reversal j =>
      rw [hr'] at hid
      exact congrArg RefundRef.reversal hid

/-- What is given back is nothing or the amount. -/
theorem givenBack_cases (h : Custody d st voids sweeps) (hagreed : Agreed d) {id : ℕ}
    {r : WithdrawalRecord U} (hr : d.rows id = some r) :
    d.givenBack id = 0 ∨ d.givenBack id = r.amountCents := by
  unfold WithdrawalDesk.givenBack
  have hmem : ∀ c, c ∈ (d.credits.filter fun c => c.ref.id = id) → c ∈ d.credits ∧ c.ref.id = id := by
    intro c hc
    simpa using hc
  have hnodup : (d.credits.filter fun c => c.ref.id = id).Nodup := (h.refs.of_map _).filter _
  generalize (d.credits.filter fun c => c.ref.id = id) = cs at hmem hnodup
  match cs with
  | [] => exact .inl rfl
  | [c] =>
    obtain ⟨hc, hid⟩ := hmem c (by simp)
    obtain ⟨x, hx, -, ha⟩ := h.amount c hc
    rw [hid, hr] at hx
    cases hx
    right
    simpa using ha
  | c :: c' :: rest =>
    -- both would be the one credit for this withdrawal
    obtain ⟨hc, hid⟩ := hmem c (by simp)
    obtain ⟨hc', hid'⟩ := hmem c' (by simp)
    have heq := h.credit_unique hagreed hc hc' (hid.trans hid'.symm)
    rw [heq] at hnodup
    simp at hnodup

end Custody

section Agreement

variable [DecidableEq U] {setup : WithdrawalSetup}

/-- An event on which the provider and the sweeps agree keeps them agreed. -/
theorem desk_step_agreed {d : WithdrawalDesk U} (h : Agreed d) (e : DeskEvent U)
    (he : d.agrees e = true) : Agreed (d.step setup e) := by
  cases e with
  | start op => exact h
  | execute k reply =>
    simp only [WithdrawalDesk.step]
    split
    · exact h
    rename_i t hk
    split
    · exact h
    · exact h
    · rename_i q next hprog
      have hagree : ∀ d' : WithdrawalDesk U, d'.found = (q.answer reply d).2.found →
          d'.outcomes = (q.answer reply d).2.outcomes → reply.fault ≠ .before → Agreed d' := by
        intro d' hfound houtcomes hfault id hid r hr
        rw [hfound] at hid
        rw [houtcomes] at hr
        simp only [WithdrawalDesk.agrees, hk, hprog] at he
        rcases Desk.answer_traffic reply d q with ⟨hf, ho⟩ | ⟨id', x, rfl, hx, hc, hf, ho⟩ | ⟨id', rfl, hf, ho⟩
        · rw [hf] at hid
          rw [ho] at hr
          exact h id hid r hr
        · -- the sweep's new finding was never refused
          rw [hf] at hid
          rw [ho] at hr
          rcases List.mem_append.mp hid with hold | hnew
          · exact h id hold r hr
          · obtain rfl : id = id' := by simpa using hnew
            simp only [hx, Option.all_some, hc, ne_eq, not_true, decide_false, Bool.or_eq_true,
              decide_eq_true_eq, hfault, List.all_eq_true] at he
            rcases he with he | he
            · simp at he
            · rcases he (id, r) hr with hne | hrefused
              · exact absurd rfl hne
              · simpa using hrefused
        · rw [hf] at hid
          rw [ho] at hr
          rcases List.mem_append.mp hr with hold | hnew
          · exact h id hid r hold
          · have heq : (id, r) = (id', reply.payout) := by simpa using hnew
            cases heq
            simp only [Bool.or_eq_true, decide_eq_true_eq, hfault, false_or, hid, not_true,
              or_false] at he
            simpa using he
      unfold Desk.reply
      cases hfault : reply.fault with
      | before => exact h
      | none => exact hagree _ rfl rfl (by rw [hfault]; decide)
      | after => exact hagree _ rfl rfl (by rw [hfault]; decide)

/-- **What is given back for a withdrawal is nothing or its amount**, over every run in which
the provider and the sweeps agree. -/
theorem withdrawal_refunded_once (setup : WithdrawalSetup) (es : List (DeskEvent U))
    (hes : Guarded (WithdrawalDesk.step setup) (fun d e => d.agrees e = true) {} es) (id : ℕ)
    (r : WithdrawalRecord U) (hr : (run (WithdrawalDesk.step setup) {} es).rows id = some r) :
    ((run (WithdrawalDesk.step setup) {} es).givenBack id = 0 ∨
        (run (WithdrawalDesk.step setup) {} es).givenBack id = r.amountCents) ∧
      ∀ c ∈ (run (WithdrawalDesk.step setup) {} es).credits, c.ref.id = id → c.userId = r.userId := by
  obtain ⟨st, voids, h⟩ := desk_run_ok setup es
  have hboot : Agreed ({} : WithdrawalDesk U) := by simp [Agreed]
  have hagreed : Agreed (run (WithdrawalDesk.step setup) {} es) :=
    guarded_inv (P := Agreed) (fun _ e hd he => desk_step_agreed hd e he) hboot es hes
  exact ⟨h.custody.givenBack_cases hagreed hr, h.custody.creditor hr⟩

end Agreement

/-- A withdrawal that fails on-chain after the provider took it is given back by the sweep. -/
theorem withdrawal_refunded_once_reversal :
    ((run (WithdrawalDesk.step chainSetup) {} onChainFailure).givenBack 0 = 0 ∨
        (run (WithdrawalDesk.step chainSetup) {} onChainFailure).givenBack 0 = 1000) ∧
      ∀ c ∈ (run (WithdrawalDesk.step chainSetup) {} onChainFailure).credits, c.ref.id = 0 → c.userId = 7 :=
  withdrawal_refunded_once chainSetup onChainFailure (by decide +kernel) 0
    { id := 0, userId := 7, amountCents := 1000, destination := "Taddress", status := .rejected,
      resolvedByAdminId := some 9, failureReason := some "payout failed on-chain (auto-reversed)" }
    (by decide +kernel)

/-- The provider refuses a withdrawal, its refund is booked and the reversal of its row fails:
a sweep that finds the withdrawal failed gives the amount back again. -/
theorem withdrawal_refunded_twice :
    (run (WithdrawalDesk.step chainSetup) {} refusedThenSwept).givenBack 0 = 2000 ∧
      ((run (WithdrawalDesk.step chainSetup) {} refusedThenSwept).rows 0).map (fun r => r.amountCents) =
        some 1000 := by
  decide +kernel

end Murlan
