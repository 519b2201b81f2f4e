import Murlan.Base.Run
import Murlan.Proof.Ledger
import Murlan.Spec.AdminAdjust

/-!
# The cap on manual adjustments

* `adjust_cases`: the transaction is a replay that changes nothing, or one ledger row and one
  audit row.
* `Audited`: the ledger's adjustments are the log's, row by row; no reference twice; nobody
  credits himself.
* `adjust_rules`: what is known of each adjustment under way; on a server whose reads of the log
  do not fail, that the sum it has read bounds what its admin has done since.
* `admin_adjust_cap`: over all runs; the cap, in the runs in which no read of the log fails.
* `cap_exceeded_on_failed_read`: it fails once.
-/

namespace Murlan

variable {U M : Type} [DecidableEq U] [DecidableEq M]

/-! ## The transaction -/

/-- A credit is a replay, or it adds its row under a new reference. -/
theorem credit_cases {db db' : Db U M} {u : U} {amount : ℕ} {opts : CreditOptions M}
    (h : db.credit u amount opts = .ok db') :
    (db' = db ∧ ∃ ref, opts.providerRef = some ref ∧ db.hasRef ref = true) ∨
      ((∀ ref, opts.providerRef = some ref → db.hasRef ref = false) ∧
        Wrote [{ account := .user u, type := opts.type, amountCents := amount, matchId := opts.matchId,
                 reason := opts.reason, providerRef := opts.providerRef }] db db') := by
  cases href : opts.providerRef with
  | none =>
    right
    refine ⟨by simp, ?_⟩
    unfold Db.credit at h
    obtain ⟨-, -, h⟩ := bind_ok h
    split at h
    · cases h
    · simp only [href] at h
      have hw := applyCredit_wrote h
      exact ⟨by rw [hw.ledger, List.append_nil]; rfl, hw.2, hw.3⟩
  | some ref =>
    cases hfresh : db.hasRef ref with
    | false =>
      right
      refine ⟨fun ref' hr => by rw [← Option.some.inj hr]; exact hfresh, ?_⟩
      exact credit_wrote href hfresh h
    | true =>
      left
      refine ⟨?_, ref, rfl, hfresh⟩
      unfold Db.credit at h
      obtain ⟨-, -, h⟩ := bind_ok h
      split at h
      · cases h
      · simp only [href, Db.appendIdempotent, hfresh, if_true, Bool.not_false] at h
        exact (Except.ok.inj h).symm

namespace AdjustDesk

variable {s s' : AdjustDesk U M}

/-- What an adjustment that goes through writes: one row of the ledger, one of the log. -/
structure Adjusted (a : Adjustment U) (s s' : AdjustDesk U M) (row : Transaction U M) : Prop where
  account : row.account = .user a.userId
  type : row.type = .adminAdjust
  amount : row.amountCents = a.deltaCents
  ref : row.providerRef = a.txId.map tronRef
  fresh : ∀ ref, row.providerRef = some ref → s.db.hasRef ref = false
  wrote : Wrote [row] s.db s'.db
  audit : s'.audit = s.audit ++ [s.auditRow a]
  now : s'.now = s.now

theorem map_ok {ε α β : Type} {x : Except ε α} {f : α → β} {b : β} (h : x.map f = .ok b) :
    ∃ a, x = .ok a ∧ f a = b := by
  cases x with
  | error e => cases h
  | ok a => exact ⟨a, rfl, Except.ok.inj h⟩

/-- **The transaction** changes nothing and says so, or writes its two rows. -/
theorem adjust_cases {a : Adjustment U} {receipt : MoveReceipt} (h : s.adminAdjustAudited a = .ok (receipt, s')) :
    (receipt.idempotent = true ∧ s' = s) ∨ ∃ row, Adjusted a s s' row := by
  unfold adminAdjustAudited at h
  split at h
  · cases h
  rename_i hvalid
  cases hmove : move s.db a with
  | error e => simp only [hmove] at h; cases h
  | ok r =>
    obtain ⟨idempotent, db'⟩ := r
    simp only [hmove] at h
    obtain ⟨rfl, rfl⟩ := Prod.mk.inj (Except.ok.inj h)
    unfold move at hmove
    split at hmove
    · rename_i hpos
      obtain ⟨db₁, hcredit, heq⟩ := map_ok hmove
      obtain ⟨rfl, rfl⟩ := Prod.mk.inj heq
      have hamount : ((a.deltaCents.toNat : ℕ) : ℤ) = a.deltaCents := Int.toNat_of_nonneg hpos.le
      rcases credit_cases hcredit with ⟨rfl, ref, href, hold⟩ | ⟨hfresh, hw⟩
      · left
        simp only at href
        simp [href, hold]
      · right
        have hnew : ((a.txId.map (tronRef (M := M))).any s.db.hasRef) = false := by
          cases hr : a.txId.map (tronRef (M := M)) with
          | none => rfl
          | some ref => exact hfresh ref hr
        refine ⟨_, rfl, rfl, ?_, rfl, hfresh, hw, ?_, rfl⟩
        · exact hamount
        · simp [hnew]
    · rename_i hneg
      obtain ⟨db₁, hdebit, heq⟩ := map_ok hmove
      obtain ⟨rfl, rfl⟩ := Prod.mk.inj heq
      right
      have hle : 0 ≤ -a.deltaCents := by omega
      have hamount := Int.toNat_of_nonneg hle
      have hw := debit_wrote hdebit
      refine ⟨_, rfl, rfl, ?_, ?_, ?_, hw, by simp, rfl⟩
      · show -(((-a.deltaCents).toNat : ℕ) : ℤ) = a.deltaCents
        omega
      · -- a debit has no reference
        cases htx : a.txId with
        | none => rfl
        | some txId =>
          have hdown : a.deltaCents < 0 := by
            have hne : a.deltaCents ≠ 0 := fun hzero => hvalid (.inl hzero)
            omega
          exact absurd (.inr ⟨by simp [htx], hdown⟩) hvalid
      · intro ref hr
        cases hr

/-! ## The log and the ledger -/

/-- The adjustments of the ledger are those of the log, in their order, no reference is in the ledger
twice, no admin has credited himself, and the log has no future. -/
structure Audited (s : AdjustDesk U M) : Prop where
  books : ((s.db.ledger.filter (·.type = .adminAdjust)).map fun tx => (some tx.account, tx.amountCents)) =
    (s.audit.filter (·.balanceAdjust)).map fun r => (r.targetUserId.map Account.user, r.amountCents)
  refs : (s.db.ledger.filterMap (·.providerRef)).Nodup
  noSelf : ∀ r ∈ s.audit, r.balanceAdjust = true → r.targetUserId = some r.adminId → r.amountCents ≤ 0
  past : ∀ r ∈ s.audit, r.createdAt ≤ s.now

/-- References stay distinct when the new row's is fresh. -/
theorem refs_append {db db' : Db U M} {row : Transaction U M} (h : (db.ledger.filterMap (·.providerRef)).Nodup)
    (hw : Wrote [row] db db') (hfresh : ∀ ref, row.providerRef = some ref → db.hasRef ref = false) :
    (db'.ledger.filterMap (·.providerRef)).Nodup := by
  rw [hw.ledger, List.filterMap_append]
  cases href : row.providerRef with
  | none => simpa [href] using h
  | some ref =>
    have hnot : ref ∉ db.ledger.filterMap (·.providerRef) := by
      intro hmem
      obtain ⟨tx, htx, heq⟩ := List.mem_filterMap.mp hmem
      exact Db.hasRef_false.mp (hfresh ref href) tx htx heq
    have hone : [row].filterMap (·.providerRef) = [ref] := by simp [href]
    rw [hone, List.nodup_append]
    refine ⟨h, List.nodup_singleton _, fun x hx y hy => ?_⟩
    rw [List.mem_singleton.mp hy]
    exact fun heq => hnot (heq ▸ hx)

/-- An adjustment that goes through is in the audit. -/
theorem Adjusted.audited {a : Adjustment U} {row : Transaction U M} (h : Adjusted a s s' row) (hs : Audited s)
    (hself : 0 < a.deltaCents → a.userId ≠ a.adminId) : Audited s' where
  books := by
    rw [h.wrote.ledger, h.audit, List.filter_append, List.filter_append, List.map_append, List.map_append, hs.books]
    simp [h.type, h.account, h.amount, auditRow]
  refs := refs_append hs.refs h.wrote h.fresh
  noSelf r hr hadjust htarget := by
    rw [h.audit] at hr
    rcases List.mem_append.mp hr with hr | hr
    · exact hs.noSelf r hr hadjust htarget
    · obtain rfl := List.mem_singleton.mp hr
      have huser : a.userId = a.adminId := Option.some.inj htarget
      by_contra hpos
      exact hself (not_le.mp hpos) huser
  past r hr := by
    rw [h.audit] at hr
    rw [h.now]
    rcases List.mem_append.mp hr with hr | hr
    · exact hs.past r hr
    · rw [List.mem_singleton.mp hr]
      exact Nat.le_refl _

/-- A movement of another type. -/
theorem Audited.book (hs : Audited s) {db' : Db U M} {row : Transaction U M} (hw : Wrote [row] s.db db')
    (htype : row.type ≠ .adminAdjust) (hfresh : ∀ ref, row.providerRef = some ref → s.db.hasRef ref = false) :
    Audited { s with db := db' } where
  books := by
    simp only
    rw [hw.ledger, List.filter_append, ← hs.books]
    simp [htype]
  refs := refs_append hs.refs hw hfresh
  noSelf := hs.noSelf
  past := hs.past

/-- Nothing else touches the audit. -/
theorem Audited.beside (hs : Audited s) (e : AdjustBeside U M) : Audited (s.beside e) := by
  cases e with
  | clock ms => exact ⟨hs.books, hs.refs, hs.noSelf, fun r hr => (hs.past r hr).trans (Nat.le_add_right _ _)⟩
  | credit u cents type ref =>
    simp only [AdjustDesk.beside]
    split
    · exact hs
    · rename_i htype
      cases hcredit : s.db.credit u cents { type, providerRef := ref } with
      | error e => exact hs
      | ok db' =>
        rcases credit_cases hcredit with ⟨rfl, -⟩ | ⟨hfresh, hw⟩
        · exact hs
        · exact hs.book hw htype hfresh
  | debit u cents type =>
    simp only [AdjustDesk.beside]
    split
    · exact hs
    · rename_i htype
      cases hdebit : s.db.debit u cents { type } with
      | error e => exact hs
      | ok db' => exact hs.book (debit_wrote hdebit) htype fun ref hr => by cases hr
  | record adminId target detail =>
    refine ⟨?_, hs.refs, fun r hr hadjust htarget => ?_, fun r hr => ?_⟩
    · simp only [AdjustDesk.beside]
      rw [List.filter_append, hs.books]
      simp
    · rcases List.mem_append.mp hr with hr | hr
      · exact hs.noSelf r hr hadjust htarget
      · rw [List.mem_singleton.mp hr] at hadjust
        cases hadjust
    · rcases List.mem_append.mp hr with hr | hr
      · exact hs.past r hr
      · rw [List.mem_singleton.mp hr]
        exact Nat.le_refl _

/-! ## Windows of a day -/

/-- What an admin has adjusted in the 24 hours from `t` on, both ends included. -/
def windowSum (s : AdjustDesk U M) (adminId : U) (t : ℕ) : ℕ :=
  ((s.audit.filter fun r => r.adminId = adminId ∧ r.balanceAdjust = true ∧ t ≤ r.createdAt ∧
    r.createdAt ≤ t + ADJUST_DAY_MS).map (·.amountCents.natAbs)).sum

/-- No admin is over the cap in any window. -/
def Capped (s : AdjustDesk U M) : Prop := ∀ adminId t, s.windowSum adminId t ≤ DAILY_ADJUST_CAP_CENTS

/-- A looser filter sums to more. -/
theorem sum_filter_mono {α : Type} (l : List α) (f : α → ℕ) {p q : α → Prop} [DecidablePred p] [DecidablePred q]
    (h : ∀ a ∈ l, p a → q a) : ((l.filter p).map f).sum ≤ ((l.filter q).map f).sum := by
  induction l with
  | nil => simp
  | cons a l ih =>
    have hrest := ih fun b hb => h b (List.mem_cons_of_mem a hb)
    by_cases hp : p a
    · have hq := h a List.mem_cons_self hp
      simp only [List.filter_cons, hp, hq, decide_true, if_true, List.map_cons, List.sum_cons]
      omega
    · by_cases hq : q a
      · simp only [List.filter_cons, hp, hq, decide_true, decide_false, if_true, List.map_cons, List.sum_cons,
          Bool.false_eq_true, if_false]
        omega
      · simp only [List.filter_cons, hp, hq, decide_false, Bool.false_eq_true, if_false]
        exact hrest

omit [DecidableEq M] in
/-- A window that reaches the present is within what was done since. -/
theorem windowSum_le_since (s : AdjustDesk U M) (adminId : U) {t since : ℕ} (h : since ≤ t) :
    s.windowSum adminId t ≤ s.sumAdjustmentsBy adminId since :=
  sum_filter_mono _ _ fun _ _ hr => ⟨hr.1, hr.2.1, h.trans hr.2.2.1⟩

/-- An adjustment counts in the windows that hold it. -/
theorem Adjusted.windowSum {a : Adjustment U} {row : Transaction U M} (h : Adjusted a s s' row) (adminId : U) (t : ℕ) :
    s'.windowSum adminId t = s.windowSum adminId t +
      if a.adminId = adminId ∧ t ≤ s.now ∧ s.now ≤ t + ADJUST_DAY_MS then a.deltaCents.natAbs else 0 := by
  unfold AdjustDesk.windowSum
  rw [h.audit, List.filter_append, List.map_append, List.sum_append]
  by_cases hin : a.adminId = adminId ∧ t ≤ s.now ∧ s.now ≤ t + ADJUST_DAY_MS
  · simp [auditRow, hin]
  · simp only [auditRow, List.filter_cons, hin, List.filter_nil, true_and, decide_false, Bool.false_eq_true, if_false,
      List.map_nil, List.sum_nil]

theorem Adjusted.sum_other {a : Adjustment U} {row : Transaction U M} (h : Adjusted a s s' row) {adminId : U}
    (hne : a.adminId ≠ adminId) (since : ℕ) : s'.sumAdjustmentsBy adminId since = s.sumAdjustmentsBy adminId since := by
  unfold sumAdjustmentsBy
  rw [h.audit, List.filter_append, List.filter_cons_of_neg (by simp [auditRow, hne]), List.filter_nil, List.append_nil]

/-- **The step that raises a sum**: what was read bounds every window that reaches the present. -/
theorem Adjusted.capped {a : Adjustment U} {row : Transaction U M} (h : Adjusted a s s' row) (hs : s.Capped)
    {n₀ m : ℕ} (hnow : n₀ ≤ s.now) (hread : s.sumAdjustmentsBy a.adminId (n₀ - ADJUST_DAY_MS) ≤ m)
    (hcap : m + a.deltaCents.natAbs ≤ DAILY_ADJUST_CAP_CENTS) : s'.Capped := by
  intro adminId t
  rw [h.windowSum]
  split
  · rename_i hin
    obtain ⟨rfl, -, hend⟩ := hin
    have hsince : n₀ - ADJUST_DAY_MS ≤ t := by omega
    have hwindow := s.windowSum_le_since a.adminId hsince
    omega
  · exact hs adminId t

omit [DecidableEq M] in
/-- The adjustments of an admin are found among the adjustments. -/
theorem filter_adjustments (l : List (AdminActionRecord U)) (adminId : U) (p : AdminActionRecord U → Prop)
    [DecidablePred p] : (l.filter fun r => r.adminId = adminId ∧ r.balanceAdjust = true ∧ p r) =
      (l.filter (·.balanceAdjust)).filter fun r => r.adminId = adminId ∧ p r := by
  rw [List.filter_filter]
  refine List.filter_congr fun r _ => ?_
  rw [Bool.eq_iff_iff]
  simp only [decide_eq_true_eq, Bool.and_eq_true]
  tauto

omit [DecidableEq M] in
/-- What does not touch the adjustments of the log. -/
theorem capped_congr (haudit : s'.audit.filter (·.balanceAdjust) = s.audit.filter (·.balanceAdjust)) (hs : s.Capped) :
    s'.Capped := by
  intro adminId t
  have hcap := hs adminId t
  unfold windowSum at hcap ⊢
  rw [filter_adjustments] at hcap ⊢
  rw [haudit]
  exact hcap

omit [DecidableEq M] in
theorem sum_congr (haudit : s'.audit.filter (·.balanceAdjust) = s.audit.filter (·.balanceAdjust)) (adminId : U)
    (since : ℕ) : s'.sumAdjustmentsBy adminId since = s.sumAdjustmentsBy adminId since := by
  unfold sumAdjustmentsBy
  rw [filter_adjustments, filter_adjustments, haudit]

/-- Other events add no adjustment, and time goes on. -/
theorem audit_beside (s : AdjustDesk U M) (e : AdjustBeside U M) :
    (s.beside e).audit.filter (·.balanceAdjust) = s.audit.filter (·.balanceAdjust) ∧ s.now ≤ (s.beside e).now := by
  cases e with
  | clock ms => exact ⟨rfl, Nat.le_add_right _ _⟩
  | credit u cents type ref =>
    simp only [AdjustDesk.beside]
    split
    · exact ⟨rfl, Nat.le_refl _⟩
    · exact ⟨rfl, Nat.le_refl _⟩
  | debit u cents type =>
    simp only [AdjustDesk.beside]
    split
    · exact ⟨rfl, Nat.le_refl _⟩
    · exact ⟨rfl, Nat.le_refl _⟩
  | record adminId target detail =>
    refine ⟨?_, Nat.le_refl _⟩
    simp [AdjustDesk.beside]

end AdjustDesk

/-! ## What is known along the way -/

/-- What an adjustment has read. -/
structure AdjustSeen where
  time : Option ℕ := none
  used : Option ℕ := none

namespace AdjustCall

omit [DecidableEq U] in
/-- An adjustment has passed its checks; on a server whose log is steady, the cap among them. -/
def May (steadyLog : Bool) (op : AdjustCall U) : AdjustQuery U → AdjustSeen → Prop
  | .clock, _ => True
  | .sumAdjustmentsBy adminId since, g => adminId = op.adminId ∧ ∃ n₀, g.time = some n₀ ∧ since = n₀ - ADJUST_DAY_MS
  | .adminAdjustAudited a, g =>
    a.adminId = op.adminId ∧ (0 < a.deltaCents → a.userId ≠ a.adminId) ∧
      (steadyLog = true → ∃ m, g.used = some m ∧ m + a.deltaCents.natAbs ≤ DAILY_ADJUST_CAP_CENTS)

/-- What an adjustment may ask, and what the answers tell it. -/
def protocol (steadyLog : Bool) (op : AdjustCall U) :
    Async.Protocol (AdjustQuery U) AdjustQuery.Answer AdjustFailure AdjustSeen where
  may := May steadyLog op
  reply
    | .clock, r, _, g' => ∃ t, r = .ok t ∧ g' = { time := some t }
    | .sumAdjustmentsBy _ _, r, g, g' =>
      (∃ m, r = .ok m ∧ g' = { g with used := some m }) ∨ (steadyLog = false ∧ (∃ e, r = .error e) ∧ g' = g)
    | .adminAdjustAudited _, _, _, g' => g' = {}

variable {steadyLog : Bool} {op : AdjustCall U} {adminId userId : U} {deltaCents : ℤ}

/-- **The governance checks**: what an adjustment that passes them knows. -/
theorem checkAdjustGovernance_wp (hadmin : adminId = op.adminId) {post : Option AdjustRefusal → AdjustSeen → Prop}
    {err : AdjustFailure → AdjustSeen → Prop} (hrefused : ∀ r g, post (some r) g)
    (hpassed : ∀ g : AdjustSeen, (0 < deltaCents → userId ≠ adminId) →
      (steadyLog = true → ∃ m, g.used = some m ∧ m + deltaCents.natAbs ≤ DAILY_ADJUST_CAP_CENTS) →
        post none g) (g : AdjustSeen) :
    (checkAdjustGovernance adminId userId deltaCents).wp (protocol steadyLog op) post err g := by
  unfold checkAdjustGovernance
  by_cases hself : 0 < deltaCents ∧ userId = adminId
  · simp only [hself, and_self, if_true]
    exact hrefused _ _
  by_cases hcall : MAX_ADJUST_CENTS < deltaCents.natAbs
  · simp only [hself, hcall, if_true, if_false]
    exact hrefused _ _
  simp only [hself, hcall, if_false]
  have hother : 0 < deltaCents → userId ≠ adminId := fun hpos heq => hself ⟨hpos, heq⟩
  -- the verdict on a sum that was read
  have hverdict : ∀ (used : ℕ) (g : AdjustSeen), (steadyLog = true → g.used = some used) →
      ((if DAILY_ADJUST_CAP_CENTS < used + deltaCents.natAbs then pure (some AdjustRefusal.overDailyCap)
        else pure none : Adjuster U (Option AdjustRefusal))).wp (protocol steadyLog op) post err g := by
    intro used g hused
    split
    · exact hrefused _ _
    · rename_i hcap
      exact hpassed g hother fun hsteady => ⟨used, hused hsteady, not_lt.mp hcap⟩
  refine (Async.wp_bind _ _ _).mpr ?_
  refine ⟨trivial, ?_⟩
  rintro r g₁ ⟨t, rfl, rfl⟩
  refine (Async.wp_bind _ _ _).mpr ((Async.wp_tryCatch _ _ _).mpr ⟨⟨hadmin, t, rfl, rfl⟩, ?_⟩)
  rintro r g₂ (⟨m, rfl, rfl⟩ | ⟨hloose, ⟨e, rfl⟩, rfl⟩)
  · exact hverdict m _ fun _ => rfl
  · exact hverdict 0 _ fun hsteady => absurd (hsteady.symm.trans hloose) (by decide)

omit [DecidableEq U] in
/-- The write after the checks, and whatever is answered to it. -/
theorem adjust_wp {a : Adjustment U} {g : AdjustSeen} (hmay : May steadyLog op (.adminAdjustAudited a) g)
    {f : MoveReceipt → Adjuster U AdjustReply} {h : AdjustFailure → Adjuster U AdjustReply}
    (hf : ∀ r, ∃ x, f r = pure x) (hh : ∀ e, ∃ x, h e = pure x) :
    (Async.tryCatch (AdjustQuery.adjust a >>= f) h).wp (protocol steadyLog op) (fun _ _ => True) (fun _ _ => True) g := by
  refine (Async.wp_tryCatch _ _ _).mpr ((Async.wp_bind _ _ _).mpr ⟨hmay, ?_⟩)
  rintro (e | r) g' -
  · obtain ⟨x, hx⟩ := hh e
    show (h e).wp _ _ _ g'
    rw [hx]
    trivial
  · obtain ⟨x, hx⟩ := hf r
    show (f r).wp _ _ _ g'
    rw [hx]
    trivial

/-- Every program keeps to the protocol. -/
theorem conforms (steadyLog : Bool) (op : AdjustCall U) (g : AdjustSeen) :
    op.program.wp (protocol steadyLog op) (fun _ _ => True) (fun _ _ => True) g := by
  cases op with
  | http adminId userId deltaCents reason txId =>
    show (postAdjust adminId userId deltaCents reason txId).wp _ _ _ g
    unfold postAdjust
    split
    · trivial
    · refine (Async.wp_bind _ _ _).mpr (checkAdjustGovernance_wp rfl (fun _ _ => trivial) (fun g hself hcap => ?_) g)
      refine adjust_wp ⟨rfl, hself, hcap⟩ (fun r => ?_) fun e => ?_
      · by_cases hr : r.idempotent = true
        · exact ⟨_, if_pos hr⟩
        · exact ⟨_, if_neg hr⟩
      · cases e with
        | insufficientFunds => exact ⟨_, rfl⟩
        | error => exact ⟨_, rfl⟩
  | telegram adminId userId credit cents reason txId =>
    show (confirmAdjust adminId userId credit cents reason txId).wp _ _ _ g
    unfold confirmAdjust
    refine (Async.wp_bind _ _ _).mpr (checkAdjustGovernance_wp rfl (fun _ _ => trivial) (fun g hself hcap => ?_) g)
    refine adjust_wp ⟨rfl, hself, hcap⟩ (fun r => ?_) fun e => ⟨_, rfl⟩
    by_cases hr : r.idempotent = true
    · exact ⟨_, if_pos hr⟩
    · exact ⟨_, if_neg hr⟩

end AdjustCall

/-! ## The server -/

/-- What is known of an adjustment holds of the store. -/
def AdjustSeen.Holds (s : AdjustDesk U M) (op : AdjustCall U) (g : AdjustSeen) : Prop :=
  (∀ n₀, g.time = some n₀ → n₀ ≤ s.now) ∧
    ∀ m, g.used = some m → ∃ n₀, g.time = some n₀ ∧ s.sumAdjustmentsBy op.adminId (n₀ - ADJUST_DAY_MS) ≤ m

/-- The invariant: the audit is complete, the cap is kept, and what is known is true. -/
structure AdjustOK (steadyLog : Bool) (s : AdjustDesk U M) (_ : ℕ) (know : ℕ → Option (AdjustCall U × AdjustSeen)) :
    Prop where
  audited : s.Audited
  capped : steadyLog = true → s.Capped
  known : ∀ k op g, know k = some (op, g) → g.Holds s op

variable {steadyLog : Bool} {s s' : AdjustDesk U M} {n k : ℕ} {know : ℕ → Option (AdjustCall U × AdjustSeen)}
  {op : AdjustCall U} {g : AdjustSeen}

omit [DecidableEq M] in
theorem AdjustSeen.holds_init (s : AdjustDesk U M) (op : AdjustCall U) : AdjustSeen.Holds s op {} :=
  ⟨fun _ h => (by cases h), fun _ h => (by cases h)⟩

omit [DecidableEq M] in
/-- What is known may be replaced by what is true. -/
theorem AdjustOK.learns (h : AdjustOK steadyLog s n know) {n' : ℕ} {x : Option (AdjustCall U × AdjustSeen)}
    (hx : ∀ op g, x = some (op, g) → g.Holds s op) : AdjustOK steadyLog s n' (Function.update know k x) where
  audited := h.audited
  capped := h.capped
  known j op g hj := by
    by_cases hjk : j = k
    · subst hjk
      rw [Function.update_self] at hj
      exact hx op g hj
    · rw [Function.update_of_ne hjk] at hj
      exact h.known j op g hj

/-- The adjustment changes nothing, or writes its row and its audit. -/
theorem adjust_answer_cases (steadyLog : Bool) (fault : Fault) (a : Adjustment U) (s : AdjustDesk U M) :
    (s.answer steadyLog fault (.adminAdjustAudited a)).2 = s ∨
      ∃ row, AdjustDesk.Adjusted a s (s.answer steadyLog fault (.adminAdjustAudited a)).2 row := by
  cases hres : s.adminAdjustAudited a with
  | error e =>
    left
    cases fault with
    | none => simp only [AdjustDesk.answer, hres]
    | before => simp only [AdjustDesk.answer]
    | after => simp only [AdjustDesk.answer, hres]
  | ok r =>
    obtain ⟨receipt, s'⟩ := r
    have hcases : s' = s ∨ ∃ row, AdjustDesk.Adjusted a s s' row := (AdjustDesk.adjust_cases hres).imp_left And.right
    cases fault with
    | none => simpa only [AdjustDesk.answer, hres] using hcases
    | before => exact .inl (by simp only [AdjustDesk.answer])
    | after => simpa only [AdjustDesk.answer, hres] using hcases

/-- An answer to a call keeps the invariant, when no other of the same admin is under way. -/
theorem AdjustOK.answered (h : AdjustOK steadyLog s n know) (hk : know k = some (op, g))
    (hothers : ∀ j op' g', j ≠ k → know j = some (op', g') → op'.adminId = op.adminId → g' = {}) (fault : Fault)
    (q : AdjustQuery U) (hmay : AdjustCall.May steadyLog op q g) :
    ∃ g', (AdjustCall.protocol steadyLog op).reply q (s.answer steadyLog fault q).1 g g' ∧
      AdjustOK steadyLog (s.answer steadyLog fault q).2 n (Function.update know k (some (op, g'))) := by
  -- a read changes what is known and nothing else
  have hlearns : ∀ g' : AdjustSeen, g'.Holds s op → AdjustOK steadyLog s n (Function.update know k (some (op, g'))) := by
    intro g' hg'
    refine h.learns fun op₁ g₁ heq => ?_
    cases heq
    exact hg'
  cases q with
  | clock =>
    refine ⟨{ time := some s.now }, ⟨s.now, rfl, rfl⟩, hlearns _ ⟨fun n₀ hn => ?_, fun m hm => ?_⟩⟩
    · exact (Option.some.inj hn).ge
    · cases hm
  | sumAdjustmentsBy adminId since =>
    obtain ⟨hadmin, n₀, htime, hsince⟩ := hmay
    subst adminId
    subst since
    have hold := h.known k op g hk
    simp only [AdjustDesk.answer]
    split
    · refine ⟨{ g with used := some (s.sumAdjustmentsBy op.adminId (n₀ - ADJUST_DAY_MS)) }, .inl ⟨_, rfl, rfl⟩, ?_⟩
      refine hlearns _ ⟨hold.1, fun m hm => ⟨n₀, htime, ?_⟩⟩
      exact (Option.some.inj hm).le
    · rename_i hfail
      -- the sum cannot be read: only an unsteady log lets the call go on
      have hloose : steadyLog = false := by
        cases steadyLog with
        | true => exact absurd (.inl rfl) hfail
        | false => rfl
      exact ⟨g, .inr ⟨hloose, ⟨_, rfl⟩, rfl⟩, hlearns _ hold⟩
  | adminAdjustAudited a =>
    obtain ⟨hadmin, hself, hcap⟩ := hmay
    refine ⟨{}, rfl, ?_⟩
    rcases adjust_answer_cases steadyLog fault a s with hsame | ⟨row, hrow⟩
    · rw [hsame]
      exact hlearns _ (AdjustSeen.holds_init s op)
    · refine ⟨hrow.audited h.audited hself, fun hsteady => ?_, fun j op' g' hj => ?_⟩
      -- nothing was added to the window since the sum was read
      · obtain ⟨m, hused, hle⟩ := hcap hsteady
        have hold := h.known k op g hk
        obtain ⟨n₀, htime, hread⟩ := hold.2 m hused
        rw [← hadmin] at hread
        exact hrow.capped (h.capped hsteady) (hold.1 n₀ htime) hread hle
      · by_cases hjk : j = k
        · subst hjk
          rw [Function.update_self] at hj
          cases hj
          exact AdjustSeen.holds_init _ _
        · rw [Function.update_of_ne hjk] at hj
          by_cases hsame : op'.adminId = op.adminId
          · -- the others of the chain have not begun
            rw [hothers j op' g' hjk hj hsame]
            exact AdjustSeen.holds_init _ _
          · have hold := h.known j op' g' hj
            refine ⟨fun n₀ hn => ?_, fun m hm => ?_⟩
            · rw [hrow.now]
              exact hold.1 n₀ hn
            · obtain ⟨n₀, htime, hread⟩ := hold.2 m hm
              refine ⟨n₀, htime, ?_⟩
              rw [hrow.sum_other (fun heq => hsame (heq.symm.trans hadmin))]
              exact hread

/-- The desk follows the rules of a pool. -/
theorem adjust_rules (steadyLog : Bool) :
    Runtime.Rules (adjustRuntime (U := U) (M := M) steadyLog) (AdjustCall.protocol steadyLog) (fun _ _ => {})
      (fun _ _ _ => True) (fun _ _ _ => True) (AdjustOK steadyLog) (fun _ _ _ => True) where
  conforms _ op := op.conforms steadyLog _
  opened op h _ := h.learns fun op₁ g₁ heq => by
    cases heq
    exact AdjustSeen.holds_init _ _
  closed h _ _ := h.learns fun _ _ heq => by cases heq
  answered w q h _ hk hothers hmay := by
    refine h.answered hk (fun j op' g' hjk hj hsame => ?_) w q hmay
    have hlink : (adjustRuntime (U := U) (M := M) steadyLog).linked op' _ = true :=
      (Runtime.linked_iff _).mpr ⟨_, congrArg some hsame, rfl⟩
    obtain ⟨-, -, hg'⟩ := hothers j op' g' hjk hj hlink
    exact hg'
  drifted e h := by
    obtain ⟨haudit, hnow⟩ := AdjustDesk.audit_beside _ e
    refine ⟨h.audited.beside e, fun hsteady => AdjustDesk.capped_congr haudit (h.capped hsteady), fun k op g hk => ?_⟩
    have hold := h.known k op g hk
    refine ⟨fun n₀ hn => (hold.1 n₀ hn).trans hnow, fun m hm => ?_⟩
    obtain ⟨n₀, htime, hread⟩ := hold.2 m hm
    refine ⟨n₀, htime, ?_⟩
    show (AdjustDesk.beside _ e).sumAdjustmentsBy op.adminId _ ≤ m
    rw [AdjustDesk.sum_congr haudit]
    exact hread
  returned _ _ _ _ := trivial
  lasts_answer _ _ _ _ _ _ _ _ := trivial
  lasts_drift _ _ _ _ := trivial

/-! ## A steady log -/

section Steady

variable (s : Pool (AdjustDesk U M) (AdjustQuery U) AdjustQuery.Answer AdjustFailure AdjustReply (AdjustCall U))
  (e : PoolEvent (AdjustCall U) Fault (AdjustBeside U M))

omit [DecidableEq U] in
/-- The task waits for a read of the log. -/
def readsLog (k : ℕ) : Bool :=
  match s.tasks[k]?.bind (·.program.pending) with
  | some (.sumAdjustmentsBy _ _) => true
  | _ => false

/-- The event is no read of the log that fails. -/
def LogAnswers : Prop :=
  match e with
  | .execute k w => readsLog s k = true → w = .none
  | _ => True

instance : Decidable (LogAnswers s e) :=
  match e with
  | .execute k w => inferInstanceAs (Decidable (readsLog s k = true → w = .none))
  | .start _ | .drift _ => isTrue trivial

variable {s e}

/-- While the log answers, the server is the one whose log is steady. -/
theorem adjust_step_congr (h : LogAnswers s e) : (adjustRuntime false).step s e = (adjustRuntime true).step s e := by
  cases e with
  | start op => rfl
  | drift d => rfl
  | execute k w =>
    cases hk : s.tasks[k]? with
    | none => simp [Runtime.step, hk]
    | some t =>
      cases hp : t.program with
      | pure a => simp [Runtime.step, hk, hp]
      | throw e => simp [Runtime.step, hk, hp]
      | ask q next =>
        have hanswer : (adjustRuntime (M := M) false).answer w k q s.store = (adjustRuntime true).answer w k q s.store := by
          cases q with
          | clock => rfl
          | adminAdjustAudited a => rfl
          | sumAdjustmentsBy adminId since =>
            have hw : w = .none := h (by simp [readsLog, hk, hp, Async.pending])
            simp [adjustRuntime, AdjustDesk.answer, hw]
        have hwaits : (adjustRuntime (M := M) false).waits s.tasks k t.op =
            (adjustRuntime (M := M) true).waits s.tasks k t.op := rfl
        simp only [Runtime.step, hk, hp, hwaits, hanswer]

theorem adjust_run_congr {es : List (PoolEvent (AdjustCall U) Fault (AdjustBeside U M))}
    (h : Guarded (adjustRuntime false).step LogAnswers s es) :
    run (adjustRuntime false).step s es = run (adjustRuntime true).step s es := by
  induction es generalizing s with
  | nil => rfl
  | cons e es ih =>
    rw [run_cons, run_cons, ih h.2, adjust_step_congr h.1]

end Steady

/-- **The cap on manual adjustments**: the log and the ledger agree, nobody credits himself and a
replay adds nothing, in all runs; the cap holds as long as no read of the log fails. -/
theorem admin_adjust_cap {s₀ : AdjustDesk U M} (hbooks : s₀.Audited) (hcapped : s₀.Capped)
    (es : List (PoolEvent (AdjustCall U) Fault (AdjustBeside U M))) :
    (run (adjustRuntime false).step { store := s₀ } es).store.Audited ∧
      (∀ (s : AdjustDesk U M) (a : Adjustment U) (txId : String) (fault : Fault), a.txId = some txId →
        s.db.hasRef (AdjustDesk.tronRef txId) = true → (s.answer false fault (.adminAdjustAudited a)).2 = s) ∧
      (Guarded (adjustRuntime false).step LogAnswers { store := s₀ } es →
        (run (adjustRuntime false).step { store := s₀ } es).store.Capped) := by
  have hstart : ∀ steadyLog, AdjustOK steadyLog s₀ 0 fun _ => none :=
    fun _ => ⟨hbooks, fun _ => hcapped, fun _ _ _ hk => by cases hk⟩
  refine ⟨?_, ?_, fun hg => ?_⟩
  · obtain ⟨_, _, hok⟩ := (adjust_rules false).inv (hstart false) es
    exact hok.audited
  · intro s a txId fault htx href
    rcases adjust_answer_cases false fault a s with hsame | ⟨row, hrow⟩
    · exact hsame
    · have hnew : row.providerRef = some (AdjustDesk.tronRef txId) := by
        rw [hrow.ref, htx]
        rfl
      have hfresh := hrow.fresh _ hnew
      rw [href] at hfresh
      cases hfresh
  · obtain ⟨_, _, hok⟩ := (adjust_rules true).inv (hstart true) es
    rw [adjust_run_congr hg]
    exact hok.capped rfl

/-- Admin 0 credits user 1 by the maximum, over HTTP; `fault` is how the read of the log goes. -/
def creditMax (k : ℕ) (fault : Fault) : List (PoolEvent (AdjustCall ℕ) Fault (AdjustBeside ℕ ℕ)) :=
  [.start (.http 0 1 500000 "top up" none), .execute k .none, .execute k fault, .execute k .none]

/-- A desk where every balance is zero. -/
def freshDesk : AdjustDesk ℕ ℕ := { db := { balance := fun _ => some 0 } }

theorem freshDesk_ok : freshDesk.Audited ∧ freshDesk.Capped := by
  refine ⟨{ books := by decide, refs := by decide, noSelf := ?_, past := ?_ }, fun adminId t => ?_⟩
  · intro r hr
    cases hr
  · intro r hr
    cases hr
  · exact Nat.zero_le _

/-- Four adjustments at the cap of a call use the day's cap up. -/
theorem admin_adjust_cap_day :
    let es := creditMax 0 .none ++ creditMax 1 .none ++ creditMax 2 .none ++ creditMax 3 .none ++ creditMax 4 .none
    (run (adjustRuntime false).step { store := freshDesk } es).store.windowSum 0 0 = 2000000 ∧
      (run (adjustRuntime false).step { store := freshDesk } es).store.Capped := by
  refine ⟨by decide +kernel, ?_⟩
  exact (admin_adjust_cap freshDesk_ok.1 freshDesk_ok.2 _).2.2 (by decide +kernel)

/-- **The cap is exceeded** once the read of the log fails. -/
theorem cap_exceeded_on_failed_read :
    let es := creditMax 0 .none ++ creditMax 1 .none ++ creditMax 2 .none ++ creditMax 3 .none ++ creditMax 4 .before
    ¬(run (adjustRuntime false).step { store := freshDesk } es).store.Capped := by
  intro es hcapped
  exact absurd (hcapped 0 0) (by decide +kernel)

end Murlan
