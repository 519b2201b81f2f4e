import Mathlib.Data.List.Nodup
import Mathlib.Data.List.Range
import Murlan.Spec.OperatorAlerts

/-!
# The operator is told once

`Kept` is what the three memories of the sweep say of the alerts that were sent; `Calm` is the
condition under which they keep saying it: no read fails that would make the memory forget an
alert whose subject is still there, and no flag is raised at or before the mark.

* `alerts_sent_once`: over every run of calm events each alert that is due is sent, and once.
* `deposit_told_again`, `flag_never_pushed`: what a failed read and a flag of the same
  millisecond do.
-/

namespace Murlan

/-! ## The loop over the deposits -/

/-- The loop adds what it sends to what has been alerted. -/
theorem alertUnclaimed_fst (now : ℤ) (isClaimed : String → Bool) (deposits : List BinanceDeposit) :
    ∀ alerted, (alertUnclaimed now isClaimed deposits alerted).1 =
      alerted ++ (alertUnclaimed now isClaimed deposits alerted).2 := by
  induction deposits with
  | nil =>
    intro alerted
    exact (List.append_nil alerted).symm
  | cons d deposits ih =>
    intro alerted
    unfold alertUnclaimed
    dsimp only
    split
    · exact ih alerted
    · split
      · exact ih alerted
      · split
        · exact ih alerted
        · dsimp only
          rw [ih, List.append_assoc, List.singleton_append]

/-- What the loop sends is new, listed, and sent once. -/
theorem alertUnclaimed_new (now : ℤ) (isClaimed : String → Bool) (deposits : List BinanceDeposit) :
    ∀ alerted, (alertUnclaimed now isClaimed deposits alerted).2.Nodup ∧
      ∀ id ∈ (alertUnclaimed now isClaimed deposits alerted).2, id ∉ alerted ∧ ∃ d ∈ deposits, lowerCase d.txId = id := by
  induction deposits with
  | nil =>
    intro alerted
    exact ⟨List.nodup_nil, fun id hid => absurd hid List.not_mem_nil⟩
  | cons d deposits ih =>
    intro alerted
    have hskip : (alertUnclaimed now isClaimed deposits alerted).2.Nodup ∧
        ∀ id ∈ (alertUnclaimed now isClaimed deposits alerted).2,
          id ∉ alerted ∧ ∃ d' ∈ d :: deposits, lowerCase d'.txId = id := by
      refine ⟨(ih alerted).1, fun id hid => ?_⟩
      obtain ⟨hnew, d', hd', hid'⟩ := (ih alerted).2 id hid
      exact ⟨hnew, d', List.mem_cons_of_mem d hd', hid'⟩
    unfold alertUnclaimed
    dsimp only
    split
    · exact hskip
    · rename_i hfresh
      split
      · exact hskip
      · split
        · exact hskip
        · obtain ⟨hnodup, hrest⟩ := ih (alerted ++ [lowerCase d.txId])
          refine ⟨List.nodup_cons.mpr ⟨fun hmem => ?_, hnodup⟩, fun id hid => ?_⟩
          · exact (hrest _ hmem).1 (List.mem_append_right _ List.mem_cons_self)
          · rcases List.mem_cons.mp hid with rfl | hid
            · refine ⟨fun hmem => hfresh ?_, d, List.mem_cons_self, rfl⟩
              simpa using hmem
            · obtain ⟨hnew, d', hd', hid'⟩ := hrest id hid
              exact ⟨fun hmem => hnew (List.mem_append_left _ hmem), d', List.mem_cons_of_mem d hd', hid'⟩

/-- A deposit past its grace that nobody has claimed is among the alerted after the loop. -/
theorem alertUnclaimed_due {now : ℤ} {isClaimed : String → Bool} {deposits : List BinanceDeposit} {d : BinanceDeposit}
    (hd : d ∈ deposits) (hgrace : depositGraceMs ≤ now - d.insertTime) (hclaimed : isClaimed (lowerCase d.txId) = false) :
    ∀ alerted, lowerCase d.txId ∈ alerted ++ (alertUnclaimed now isClaimed deposits alerted).2 := by
  induction deposits with
  | nil => exact absurd hd List.not_mem_nil
  | cons d' deposits ih =>
    intro alerted
    unfold alertUnclaimed
    dsimp only
    rcases List.mem_cons.mp hd with rfl | hd
    · split
      · rename_i hmem
        exact List.mem_append_left _ (by simpa using hmem)
      · rw [if_neg (by omega), if_neg (by rw [hclaimed]; decide)]
        exact List.mem_append_right _ List.mem_cons_self
    · split
      · exact ih hd alerted
      · split
        · exact ih hd alerted
        · split
          · exact ih hd alerted
          · dsimp only
            have hlater := ih hd (alerted ++ [lowerCase d'.txId])
            rwa [List.append_assoc, List.singleton_append] at hlater

namespace OperatorAlerts

variable {s : OperatorAlerts}

/-- What the memories of the sweep say of the alerts. -/
structure Kept (s : OperatorAlerts) : Prop where
  told : s.told.Nodup
  alerted : ∀ id, id ∈ s.told ↔ id ∈ s.alerted
  toldStale : s.toldStale.Nodup
  stale : ∀ w ∈ s.withdrawals, w.id ∈ s.toldStale → w.id ∈ s.alertedStaleWithdrawals
  sent : ∀ id ∈ s.alertedStaleWithdrawals, id ∈ s.toldStale
  staleSeq : ∀ id ∈ s.toldStale, id < s.withdrawalSeq
  waiting : (s.withdrawals.map (·.id)).Nodup
  waitingSeq : ∀ w ∈ s.withdrawals, w.id < s.withdrawalSeq
  pushed : s.pushed.Nodup
  raised : s.flags.map (·.id) = List.range s.flags.length
  mark : ∀ f ∈ s.flags, f.id ∈ s.pushed → f.createdAt ≤ s.lastFlagPushMs
  pushedSeq : ∀ id ∈ s.pushed, id < s.flags.length
  unread : ∀ f ∈ s.flags, f.id ∈ s.unread → s.lastFlagPushMs < f.createdAt
  unreadSeq : ∀ id ∈ s.unread, id < s.flags.length

/-- No deposit read fails while a deposit that was alerted is in the window, no read of the
pending withdrawals fails while one that was alerted is pending, and no flag of high severity is
raised with a time that is not later than the mark. -/
def Calm (s : OperatorAlerts) : AlertEvent → Prop
  | .depositSweep now read _ => read = false → ∀ id ∈ s.alerted, id ∉ s.inWindow now
  | .withdrawalSweep _ read => read = false → ∀ w ∈ s.withdrawals, w.id ∉ s.alertedStaleWithdrawals
  | .flag severity createdAt => 3 ≤ severity → s.lastFlagPushMs < createdAt
  | _ => True

/-- What is due at a sweep whose read works has been sent after it. -/
def Answered (s : OperatorAlerts) : AlertEvent → Prop
  | .depositSweep now read isClaimed => read = true → ∀ d ∈ s.listRecent now, depositGraceMs ≤ now - d.insertTime →
      isClaimed (lowerCase d.txId) = false → lowerCase d.txId ∈ (s.sweepDeposits now read isClaimed).told
  | .withdrawalSweep now read => read = true → ∀ w ∈ s.withdrawals, staleWithdrawalMs ≤ now - w.createdAt →
      w.id ∈ (s.sweepWithdrawals now read).toldStale
  | .flagSweep read => read = true → ∀ f ∈ s.listFlags, f.id ∈ s.unread → f.id ∈ (s.sweepFlags read).pushed
  | _ => True

/-- Nothing has been sent twice: a deposit in its time in the window, a withdrawal while it is
pending, a flag at all. -/
structure Once (s : OperatorAlerts) : Prop where
  deposits : s.told.Nodup
  withdrawals : s.toldStale.Nodup
  flags : s.pushed.Nodup

theorem Kept.once (h : s.Kept) : s.Once := ⟨h.told, h.toldStale, h.pushed⟩

/-! ## Deposits -/

theorem mem_inWindow {now : ℤ} {id : String} : id ∈ s.inWindow now ↔ ∃ d ∈ s.listRecent now, lowerCase d.txId = id :=
  List.mem_map

theorem sweepDeposits_told (now : ℤ) (isClaimed : String → Bool) (id : String) :
    id ∈ (s.sweepDeposits now true isClaimed).told ↔
      (id ∈ s.told ∧ id ∈ s.inWindow now) ∨ id ∈ (alertUnclaimed now isClaimed (s.listRecent now) s.alerted).2 := by
  show id ∈ s.told.filter (s.inWindow now).contains ++ _ ↔ _
  rw [List.mem_append, List.mem_filter, List.contains_iff_mem]
  rfl

theorem sweepDeposits_alerted (now : ℤ) (isClaimed : String → Bool) (id : String) :
    id ∈ (s.sweepDeposits now true isClaimed).alerted ↔
      id ∈ s.alerted ++ (alertUnclaimed now isClaimed (s.listRecent now) s.alerted).2 ∧ id ∈ s.inWindow now := by
  show id ∈ (checkUnclaimedDeposits now isClaimed (s.listRecent now) s.alerted).1 ↔ _
  unfold checkUnclaimedDeposits
  rw [List.mem_filter, List.contains_iff_mem, alertUnclaimed_fst]
  rfl

/-- Of what was told before, only that which was alerted is in the window: with a read that
works it stays alerted, with one that fails there is none. -/
theorem Kept.sweepDeposits (h : s.Kept) {now : ℤ} {read : Bool} {isClaimed : String → Bool}
    (hcalm : s.Calm (.depositSweep now read isClaimed)) : (s.sweepDeposits now read isClaimed).Kept := by
  have hnodup : (s.told.filter (s.inWindow now).contains).Nodup := h.told.filter _
  cases read with
  | false =>
    have hnone : (s.sweepDeposits now false isClaimed).told = [] := by
      show s.told.filter (s.inWindow now).contains ++ [] = []
      rw [List.append_nil, List.filter_eq_nil_iff]
      intro id hid hin
      exact hcalm rfl id ((h.alerted id).mp hid) (List.contains_iff_mem.mp hin)
    have hempty : (s.sweepDeposits now false isClaimed).alerted = [] :=
      List.filter_eq_nil_iff.mpr fun id _ hin => absurd (List.contains_iff_mem.mp hin) List.not_mem_nil
    refine { h with
      told := ?_
      alerted := fun id => ?_ }
    · rw [hnone]
      exact List.nodup_nil
    · rw [hnone, hempty]
  | true =>
    obtain ⟨hsent, hnew⟩ := alertUnclaimed_new now isClaimed (s.listRecent now) s.alerted
    refine { h with
      told := ?_
      alerted := fun id => ?_ }
    · refine List.nodup_append.mpr ⟨hnodup, hsent, fun id hid id' hid' heq => ?_⟩
      rw [← heq] at hid'
      exact (hnew id hid').1 ((h.alerted id).mp (List.mem_filter.mp hid).1)
    · rw [sweepDeposits_alerted, sweepDeposits_told, List.mem_append, h.alerted]
      constructor
      · rintro (⟨halerted, hin⟩ | hid)
        · exact ⟨.inl halerted, hin⟩
        · exact ⟨.inr hid, mem_inWindow.mpr (hnew id hid).2⟩
      · rintro ⟨halerted | hid, hin⟩
        · exact .inl ⟨halerted, hin⟩
        · exact .inr hid

/-! ## Withdrawals -/

theorem mem_findStale {pending : List PendingWithdrawal} {now thresholdMs : ℤ} {alerted : List ℕ} {w : PendingWithdrawal} :
    w ∈ findStaleWithdrawals pending now thresholdMs alerted ↔
      w ∈ pending ∧ thresholdMs ≤ now - w.createdAt ∧ w.id ∉ alerted := by
  unfold findStaleWithdrawals
  rw [List.mem_filter]
  simp

/-- A calm sweep of withdrawals keeps the invariant. -/
theorem Kept.sweepWithdrawals (h : s.Kept) {now : ℤ} {read : Bool} (hcalm : s.Calm (.withdrawalSweep now read)) :
    (s.sweepWithdrawals now read).Kept := by
  cases read with
  | false =>
    -- nothing is listed, so nothing is sent, and the memory is emptied
    have htold : (s.sweepWithdrawals now false).toldStale = s.toldStale := List.append_nil _
    refine { h with
      toldStale := ?_
      stale := fun w hw hid => ?_
      sent := fun id hid => absurd (List.contains_iff_mem.mp (List.mem_filter.mp hid).2) List.not_mem_nil
      staleSeq := fun id hid => ?_ }
    · rw [htold]
      exact h.toldStale
    · rw [htold] at hid
      exact absurd (h.stale w hw hid) (hcalm rfl w hw)
    · rw [htold] at hid
      exact h.staleSeq id hid
  | true =>
    have hstale : ∀ id, id ∈ (findStaleWithdrawals s.withdrawals now staleWithdrawalMs s.alertedStaleWithdrawals).map
        (·.id) → ∃ w ∈ s.withdrawals, w.id = id ∧ id ∉ s.alertedStaleWithdrawals := by
      intro id hid
      obtain ⟨w, hw, rfl⟩ := List.mem_map.mp hid
      obtain ⟨hpending, -, hnew⟩ := mem_findStale.mp hw
      exact ⟨w, hpending, rfl, hnew⟩
    refine { h with
      toldStale := ?_
      stale := fun w hw hid => ?_
      sent := fun id hid => ?_
      staleSeq := fun id hid => ?_ }
    · refine List.nodup_append.mpr ⟨h.toldStale, ?_, fun id hid id' hid' heq => ?_⟩
      · exact h.waiting.sublist (List.filter_sublist.map _)
      · rw [← heq] at hid'
        obtain ⟨w, hw, rfl, hnew⟩ := hstale id hid'
        exact hnew (h.stale w hw hid)
    · refine List.mem_filter.mpr ⟨?_, List.contains_iff_mem.mpr (List.mem_map_of_mem hw)⟩
      rcases List.mem_append.mp hid with hid | hid
      · exact List.mem_append_left _ (h.stale w hw hid)
      · exact List.mem_append_right _ hid
    · rcases List.mem_append.mp (List.mem_filter.mp hid).1 with hid | hid
      · exact List.mem_append_left _ (h.sent id hid)
      · exact List.mem_append_right _ hid
    · rcases List.mem_append.mp hid with hid | hid
      · exact h.staleSeq id hid
      · obtain ⟨w, hw, rfl, -⟩ := hstale id hid
        exact h.waitingSeq w hw

/-! ## Flags -/

theorem mem_flags_of_listed {f : SuspicionFlag} (hf : f ∈ s.listFlags) : f ∈ s.flags := by
  have hsorted := List.mem_of_mem_take hf
  rw [List.mem_insertionSort] at hsorted
  exact (List.mem_filter.mp hsorted).1

/-- The ids of the flags that are raised differ. -/
theorem Kept.flag_ids (h : s.Kept) : (s.flags.map (·.id)).Nodup := by
  rw [h.raised]
  exact List.nodup_range

theorem Kept.listed_ids (h : s.Kept) : (s.listFlags.map (·.id)).Nodup := by
  have hfiltered : ((s.flags.filter fun f => decide (3 ≤ f.severity)).map (·.id)).Nodup :=
    h.flag_ids.sublist (List.filter_sublist.map _)
  have hsorted := ((List.perm_insertionSort (fun a b : SuspicionFlag => b.createdAt ≤ a.createdAt)
    (s.flags.filter fun f => decide (3 ≤ f.severity))).map (·.id)).nodup_iff.mpr hfiltered
  exact hsorted.sublist ((List.take_sublist _ _).map _)

/-- The mark is past every flag. -/
theorem le_foldl_max (flags : List SuspicionFlag) : ∀ mark : ℤ,
    mark ≤ flags.foldl (fun mark f => max mark f.createdAt) mark ∧
      ∀ f ∈ flags, f.createdAt ≤ flags.foldl (fun mark f => max mark f.createdAt) mark := by
  induction flags with
  | nil =>
    intro mark
    exact ⟨le_rfl, fun f hf => absurd hf List.not_mem_nil⟩
  | cons f flags ih =>
    intro mark
    obtain ⟨hmark, hrest⟩ := ih (max mark f.createdAt)
    rw [List.foldl_cons]
    refine ⟨(le_max_left _ _).trans hmark, fun f' hf' => ?_⟩
    rcases List.mem_cons.mp hf' with rfl | hf'
    · exact (le_max_right _ _).trans hmark
    · exact hrest f' hf'

/-- The flags that are pushed. -/
def fresh (s : OperatorAlerts) : List SuspicionFlag :=
  (s.listFlags.filter fun f => decide (s.lastFlagPushMs < f.createdAt)).insertionSort fun a b => a.createdAt ≤ b.createdAt

theorem mem_fresh {f : SuspicionFlag} : f ∈ s.fresh ↔ f ∈ s.listFlags ∧ s.lastFlagPushMs < f.createdAt := by
  unfold fresh
  rw [List.mem_insertionSort, List.mem_filter, decide_eq_true_iff]

theorem Kept.fresh_ids (h : s.Kept) : (s.fresh.map (·.id)).Nodup := by
  have hfiltered : ((s.listFlags.filter fun f => decide (s.lastFlagPushMs < f.createdAt)).map (·.id)).Nodup :=
    h.listed_ids.sublist (List.filter_sublist.map _)
  exact ((List.perm_insertionSort (fun a b : SuspicionFlag => a.createdAt ≤ b.createdAt) _).map
    (·.id)).nodup_iff.mpr hfiltered

/-- Two flags with one id are one flag. -/
theorem Kept.flag_inj (h : s.Kept) {f f' : SuspicionFlag} (hf : f ∈ s.flags) (hf' : f' ∈ s.flags) (hid : f.id = f'.id) :
    f = f' := List.inj_on_of_nodup_map h.flag_ids hf hf' hid

/-- A sweep of flags keeps the invariant. -/
theorem Kept.sweepFlags (h : s.Kept) (read : Bool) : (s.sweepFlags read).Kept := by
  cases read with
  | false =>
    have hpushed : (s.sweepFlags false).pushed = s.pushed := List.append_nil _
    exact { h with
      pushed := by rw [hpushed]; exact h.pushed
      mark := fun f hf hid => h.mark f hf (by rwa [hpushed] at hid)
      pushedSeq := fun id hid => h.pushedSeq id (by rwa [hpushed] at hid) }
  | true =>
    obtain ⟨hmark, hnewest⟩ := le_foldl_max s.fresh s.lastFlagPushMs
    refine { h with
      pushed := ?_
      mark := fun f hf hid => ?_
      pushedSeq := fun id hid => ?_
      unread := fun f hf hid => absurd hid List.not_mem_nil
      unreadSeq := fun id hid => absurd hid List.not_mem_nil }
    · refine List.nodup_append.mpr ⟨h.pushed, h.fresh_ids, fun id hid id' hid' heq => ?_⟩
      rw [← heq] at hid'
      obtain ⟨f, hf, rfl⟩ := List.mem_map.mp hid'
      obtain ⟨hlisted, hlater⟩ := mem_fresh.mp hf
      have hpast := h.mark f (mem_flags_of_listed hlisted) hid
      omega
    · rcases List.mem_append.mp hid with hid | hid
      · exact (h.mark f hf hid).trans hmark
      · obtain ⟨f', hf', hsame⟩ := List.mem_map.mp hid
        rw [← h.flag_inj (mem_flags_of_listed (mem_fresh.mp hf').1) hf hsame]
        exact hnewest f' hf'
    · rcases List.mem_append.mp hid with hid | hid
      · exact h.pushedSeq id hid
      · obtain ⟨f, hf, rfl⟩ := List.mem_map.mp hid
        have hmem : f.id ∈ s.flags.map (·.id) := List.mem_map_of_mem (mem_flags_of_listed (mem_fresh.mp hf).1)
        rw [h.raised, List.mem_range] at hmem
        exact hmem

/-- A flag is raised after the mark. -/
theorem Kept.raise (h : s.Kept) (severity : ℕ) (createdAt : ℤ) : (s.raise severity createdAt).Kept := by
  have hlength : (s.raise severity createdAt).flags.length = s.flags.length + 1 := List.length_append
  refine { h with
    raised := ?_
    mark := fun f hf hid => ?_
    pushedSeq := fun id hid => ?_
    unread := fun f hf hid => ?_
    unreadSeq := fun id hid => ?_ }
  · rw [hlength, List.range_succ, ← h.raised]
    exact List.map_append
  · rcases List.mem_append.mp hf with hf | hf
    · exact h.mark f hf hid
    · obtain rfl := List.mem_singleton.mp hf
      exact absurd (h.pushedSeq _ hid) (Nat.lt_irrefl _)
  · rw [hlength]
    exact Nat.lt_succ_of_lt (h.pushedSeq id hid)
  · rcases List.mem_append.mp hf with hf | hf
    · exact h.unread f hf hid
    · obtain rfl := List.mem_singleton.mp hf
      exact absurd (h.unreadSeq _ hid) (Nat.lt_irrefl _)
  · rw [hlength]
    exact Nat.lt_succ_of_lt (h.unreadSeq id hid)

/-- A calm flag keeps the invariant. -/
theorem Kept.flag (h : s.Kept) {severity : ℕ} {createdAt : ℤ} (hcalm : s.Calm (.flag severity createdAt)) :
    (s.step (.flag severity createdAt)).Kept := by
  have hraised := h.raise severity createdAt
  unfold OperatorAlerts.step
  dsimp only
  split
  · rename_i hhigh
    refine { hraised with
      unread := fun f hf hid => ?_
      unreadSeq := fun id hid => ?_ }
    · rcases List.mem_append.mp hid with hid | hid
      · exact hraised.unread f hf hid
      · rcases List.mem_append.mp hf with hf | hf
        · have hmem : f.id ∈ s.flags.map (·.id) := List.mem_map_of_mem hf
          rw [h.raised, List.mem_range, List.mem_singleton.mp hid] at hmem
          exact absurd hmem (Nat.lt_irrefl _)
        · obtain rfl := List.mem_singleton.mp hf
          exact hcalm hhigh
    · have hlength : (s.raise severity createdAt).flags.length = s.flags.length + 1 := List.length_append
      show id < (s.raise severity createdAt).flags.length
      rw [hlength]
      rcases List.mem_append.mp hid with hid | hid
      · exact Nat.lt_succ_of_lt (h.unreadSeq id hid)
      · rw [List.mem_singleton.mp hid]
        exact Nat.lt_succ_self _
  · exact { hraised with }

/-! ## Every run -/

/-- **Step.** A calm event keeps what the memories say. -/
theorem Kept.step (h : s.Kept) {e : AlertEvent} (hcalm : s.Calm e) : (s.step e).Kept := by
  cases e with
  | deposit d => exact { h with }
  | withdrawal createdAt =>
    have hnew : ∀ w ∈ s.withdrawals, w.id ≠ s.withdrawalSeq := fun w hw => Nat.ne_of_lt (h.waitingSeq w hw)
    refine { h with
      stale := fun w hw hid => ?_
      staleSeq := fun id hid => Nat.lt_succ_of_lt (h.staleSeq id hid)
      waiting := ?_
      waitingSeq := fun w hw => ?_ }
    · rcases List.mem_append.mp hw with hw | hw
      · exact h.stale w hw hid
      · obtain rfl := List.mem_singleton.mp hw
        exact absurd (h.staleSeq _ hid) (Nat.lt_irrefl _)
    · show (List.map PendingWithdrawal.id (s.withdrawals ++ [⟨s.withdrawalSeq, createdAt⟩])).Nodup
      rw [List.map_append, List.nodup_append]
      refine ⟨h.waiting, List.nodup_singleton _, fun id hid id' hid' heq => ?_⟩
      obtain ⟨w, hw, rfl⟩ := List.mem_map.mp hid
      exact hnew w hw (heq.trans (List.mem_singleton.mp hid'))
    · rcases List.mem_append.mp hw with hw | hw
      · exact Nat.lt_succ_of_lt (h.waitingSeq w hw)
      · rw [List.mem_singleton.mp hw]
        exact Nat.lt_succ_self _
  | resolve id =>
    have hkept : ∀ {w}, w ∈ s.withdrawals.filter (fun w => decide (w.id ≠ id)) → w ∈ s.withdrawals := fun hw =>
      (List.mem_filter.mp hw).1
    exact { h with
      stale := fun w hw => h.stale w (hkept hw)
      waiting := h.waiting.sublist (List.filter_sublist.map _)
      waitingSeq := fun w hw => h.waitingSeq w (hkept hw) }
  | flag severity createdAt => exact h.flag hcalm
  | depositSweep now read isClaimed => exact h.sweepDeposits hcalm
  | withdrawalSweep now read => exact h.sweepWithdrawals hcalm
  | flagSweep read => exact h.sweepFlags read

/-- What is due at a sweep has been sent, then or before. -/
theorem Kept.answered (h : s.Kept) (e : AlertEvent) : s.Answered e := by
  cases e with
  | depositSweep now read isClaimed =>
    rintro rfl d hd hgrace hclaimed
    rw [sweepDeposits_told, h.alerted]
    have hin : lowerCase d.txId ∈ s.inWindow now := mem_inWindow.mpr ⟨d, hd, rfl⟩
    rcases List.mem_append.mp (alertUnclaimed_due hd hgrace hclaimed s.alerted) with hbefore | hnow
    · exact .inl ⟨hbefore, hin⟩
    · exact .inr hnow
  | withdrawalSweep now read =>
    rintro rfl w hw hstale
    by_cases hold : w.id ∈ s.alertedStaleWithdrawals
    · exact List.mem_append_left _ (h.sent w.id hold)
    · exact List.mem_append_right _ (List.mem_map_of_mem (mem_findStale.mpr ⟨hw, hstale, hold⟩))
  | flagSweep read =>
    rintro rfl f hf hunread
    exact List.mem_append_right _ (List.mem_map_of_mem (mem_fresh.mpr ⟨hf, h.unread f (mem_flags_of_listed hf) hunread⟩))
  | _ => trivial

/-- A desk starts with the invariant. -/
theorem kept_boot (now : ℤ) (past : List (ℕ × ℤ)) : (boot now past).Kept := by
  have hraises : ∀ (past : List (ℕ × ℤ)) (s : OperatorAlerts), s.Kept →
      (past.foldl (fun s f => s.raise f.1 f.2) s).Kept := by
    intro past
    induction past with
    | nil =>
      intro s h
      exact h
    | cons f past ih =>
      intro s h
      exact ih _ (h.raise f.1 f.2)
  refine hraises past _ ?_
  constructor <;> simp

/-- **What is due is sent, and sent once.** In every run of calm events of a server that starts
at any time with any flags of its past, at each sweep of a list that is read what is due has
been sent, and nothing is ever sent twice. -/
theorem alerts_sent_once (now : ℤ) (past : List (ℕ × ℤ)) (es : List AlertEvent)
    (hcalm : Guarded step Calm (boot now past) es) :
    (∀ fs e gs, es = fs ++ e :: gs → Answered (run step (boot now past) fs) e) ∧ Once (run step (boot now past) es) := by
  have hkept : ∀ fs, Guarded step Calm (boot now past) fs → Kept (run step (boot now past) fs) := fun fs hg =>
    guarded_inv (fun _ _ h hcalm => h.step hcalm) (kept_boot now past) fs hg
  refine ⟨fun fs e gs heq => ?_, (hkept es hcalm).once⟩
  subst heq
  exact (hkept fs (guarded_step hcalm).1).answered e

/-- A deposit and a withdrawal are alerted, a flag is pushed, a read of the deposits fails when
none of them is in the window any more. -/
theorem alerts_sent_once_later :
    (∀ fs e gs, [.deposit ⟨"AB", 0⟩, .withdrawal 5, .flag 3 20, .depositSweep depositGraceMs true fun _ => false,
        .withdrawalSweep staleWithdrawalMs true, .flagSweep true, .depositSweep (depositWindowMs + 1) false fun _ => true] =
        fs ++ e :: gs → Answered (run step (boot 10 [(3, 10)]) fs) e) ∧
      Once (run step (boot 10 [(3, 10)]) [.deposit ⟨"AB", 0⟩, .withdrawal 5, .flag 3 20,
        .depositSweep depositGraceMs true fun _ => false, .withdrawalSweep staleWithdrawalMs true, .flagSweep true,
        .depositSweep (depositWindowMs + 1) false fun _ => true]) :=
  alerts_sent_once 10 [(3, 10)] _ ⟨trivial, trivial, fun _ => by decide, (fun h => by cases h), (fun h => by cases h),
    trivial, fun _ => by decide +kernel, trivial⟩

/-- A read of the deposits fails between two that work, and the deposit is alerted again. -/
theorem deposit_told_again : ¬Once (run step (boot 0 []) [.deposit ⟨"AB", 0⟩, .depositSweep depositGraceMs true fun _ => false,
    .depositSweep depositGraceMs false fun _ => false, .depositSweep depositGraceMs true fun _ => false]) := by
  intro h
  have htwice := h.deposits
  revert htwice
  decide +kernel

/-- A flag is raised in the millisecond of the one that was pushed last, and is not pushed. -/
theorem flag_never_pushed : ¬Answered (run step (boot 0 []) [.flag 3 7, .flagSweep true, .flag 3 7]) (.flagSweep true) := by
  intro h
  have hpushed := h rfl ⟨1, 3, 7⟩ (by decide +kernel) (by decide +kernel)
  revert hpushed
  decide +kernel

end OperatorAlerts

end Murlan
