import Mathlib.Algebra.Order.BigOperators.Group.List
import Murlan.Spec.TransferCap

/-!
# No more than the cap in any 24 hours

`Stands` is what holds of one request, wherever it stands: one that is writing has read a total
that leaves room for it, and as the only one of its user under way it is the next to write.
`Capped` is the invariant.

* `transfer_cap`: over every run, in any 24 hours in which this server has written a transfer of
  a user the transfers of that user stay within the cap; a request that was refused, or whose read
  failed, has moved nothing; and a refusal is due.
-/

namespace Murlan

namespace TransferDesk

variable {U : Type*} [DecidableEq U] {s : TransferDesk U} {i : ℕ} {r : OutRequest U}

/-- What holds of a request. -/
structure Stands (s : TransferDesk U) (i : ℕ) (r : OutRequest U) : Prop where
  key : s.chains.key i = some r.user
  begun : s.chains.begun i = true ↔ r.phase ≠ .queued
  settled : s.chains.settled i = true ↔ ∃ reply, r.phase = .answered reply
  reading : ∀ t, r.phase = .reading t → t ≤ s.now
  writing : ∀ t c, r.phase = .writing t c → t ≤ s.now ∧ (∀ c', c = some c' → t ≤ c') ∧
    ∀ amount, r.transfer = some amount → s.transferredOutSince r.user (t - transferWindowMs) + amount ≤ s.cap

/-- The request may have moved money. -/
def Moved (r : OutRequest U) : Prop := r.phase = .written ∨ r.phase = .answered .done ∨ r.phase = .answered .failed

/-- The row is one of the 24 hours from `start` on. -/
def InWindow (user : U) (start : ℤ) (row : TransferOut U) : Prop :=
  row.user = user ∧ start ≤ row.createdAt ∧ row.createdAt ≤ start + transferWindowMs

/-- The invariant: no window of a user is over the cap. -/
structure Capped (s : TransferDesk U) : Prop where
  ordered : s.chains.Ordered
  requests : ∀ i r, s.requests i = some r → s.Stands i r
  windows : ∀ user start, s.transferredIn user start ≤ s.cap ∨
    ∀ row ∈ s.rows, InWindow user start row → row.link = none
  written : ∀ row ∈ s.rows, ∀ i, row.link = some i → ∃ r, s.requests i = some r ∧ Moved r

/-- A request that has not been answered and has begun is the only one of its user. -/
theorem Capped.exclusive (h : s.Capped) {j : ℕ} {r' : OutRequest U} (hi : s.requests i = some r) (hj : s.requests j = some r')
    (huser : r'.user = r.user) (hbegun : r.phase ≠ .queued) (hopen : ∀ reply, r.phase ≠ .answered reply)
    (hbegun' : r'.phase ≠ .queued) (hopen' : ∀ reply, r'.phase ≠ .answered reply) : i = j := by
  have hs := h.requests i r hi
  have hs' := h.requests j r' hj
  have hnot : ∀ {k q}, s.Stands k q → (∀ reply, q.phase ≠ .answered reply) → s.chains.settled k = false := by
    intro k q hk hopen
    cases hsettled : s.chains.settled k with
    | false => rfl
    | true =>
      obtain ⟨reply, hreply⟩ := hk.settled.mp hsettled
      exact absurd hreply (hopen reply)
  exact h.ordered.exclusive (hs.begun.mpr hbegun) (hnot hs hopen) (hs'.begun.mpr hbegun') (hnot hs' hopen') hs.key
    (huser ▸ hs'.key)

/-- A request goes on, while the others stand where they stood. -/
theorem Capped.move (h : s.Capped) (hi : s.requests i = some r) {phase : OutPhase} {now : ℤ} {chains : PromiseChains U}
    (hnow : s.now ≤ now) (hordered : chains.Ordered) (hkey : chains.key = s.chains.key)
    (hbegun : ∀ j, j ≠ i → chains.begun j = s.chains.begun j) (hsettled : ∀ j, j ≠ i → chains.settled j = s.chains.settled j)
    (hstands : Stands { s.goto i r phase with now := now, chains := chains } i { r with phase := phase })
    (hmoved : Moved r → Moved { r with phase := phase }) :
    Capped { s.goto i r phase with now := now, chains := chains } where
  ordered := hordered
  requests j q hj := by
    have hj' : Function.update s.requests i (some { r with phase := phase }) j = some q := hj
    rw [Function.update_apply] at hj'
    split at hj'
    · rename_i heq
      obtain rfl := Option.some.inj hj'
      rw [heq]
      exact hstands
    · rename_i hne
      have hs := h.requests j q hj'
      refine ⟨?_, ?_, ?_, fun t ht => (hs.reading t ht).trans hnow, fun t c ht => ?_⟩
      · show chains.key j = some q.user
        rw [hkey]
        exact hs.key
      · show chains.begun j = true ↔ _
        rw [hbegun j hne]
        exact hs.begun
      · show chains.settled j = true ↔ _
        rw [hsettled j hne]
        exact hs.settled
      · obtain ⟨hpast, hstamp, hroom⟩ := hs.writing t c ht
        exact ⟨hpast.trans hnow, hstamp, hroom⟩
  windows := h.windows
  written row hrow k hk := by
    obtain ⟨q, hq, hq'⟩ := h.written row hrow k hk
    by_cases heq : k = i
    · subst heq
      obtain rfl := Option.some.inj (hi.symm.trans hq)
      exact ⟨{ r with phase := phase }, Function.update_self _ _ _, hmoved hq'⟩
    · exact ⟨q, (Function.update_of_ne heq _ _).trans hq, hq'⟩

/-- The link of a request settles as it is answered. -/
theorem Capped.answer (h : s.Capped) (hi : s.requests i = some r) (hbegun : r.phase ≠ .queued)
    (reply : OutReply) (hmoved : Moved r → Moved { r with phase := .answered reply }) : (s.answer i r reply).Capped := by
  have hs := h.requests i r hi
  have hlink := hs.begun.mpr hbegun
  refine h.move hi (Int.le_refl _) (h.ordered.settle i) PromiseChains.settle_key
    (fun j _ => congrFun PromiseChains.settle_begun j) (fun j hne => ?_) ?_ hmoved
  · rw [PromiseChains.settle_settled hlink, decide_eq_false hne, Bool.false_or]
  · refine ⟨?_, ?_, ?_, (fun t ht => by cases ht), (fun t c ht => by cases ht)⟩
    · exact (congrFun PromiseChains.settle_key i).trans hs.key
    · show (s.chains.settle i).begun i = true ↔ _
      rw [PromiseChains.settle_begun]
      exact ⟨fun _ => (fun heq => by cases heq), fun _ => hlink⟩
    · show (s.chains.settle i).settled i = true ↔ _
      rw [PromiseChains.settle_settled hlink, decide_eq_true rfl, Bool.true_or]
      exact ⟨fun _ => ⟨reply, rfl⟩, fun _ => rfl⟩

/-- A request goes on within its link. -/
theorem Capped.goto (h : s.Capped) (hi : s.requests i = some r) (hbegun : r.phase ≠ .queued)
    (hopen : ∀ reply, r.phase ≠ .answered reply) {phase : OutPhase} (hbegun' : phase ≠ .queued)
    (hopen' : ∀ reply, phase ≠ .answered reply) {now : ℤ} (hnow : s.now ≤ now)
    (hreading : ∀ t, phase = .reading t → t ≤ now)
    (hwriting : ∀ t c, phase = .writing t c → t ≤ now ∧ (∀ c', c = some c' → t ≤ c') ∧
      ∀ amount, r.transfer = some amount → s.transferredOutSince r.user (t - transferWindowMs) + amount ≤ s.cap)
    (hmoved : ¬Moved r) : Capped { s.goto i r phase with now := now } := by
  have hs := h.requests i r hi
  refine h.move hi hnow h.ordered rfl (fun _ _ => rfl) (fun _ _ => rfl) ?_ (fun hm => absurd hm hmoved)
  refine ⟨hs.key, ?_, ?_, hreading, hwriting⟩
  · exact ⟨fun _ => hbegun', fun _ => hs.begun.mpr hbegun⟩
  · constructor
    · intro hsettled
      obtain ⟨reply, hreply⟩ := hs.settled.mp hsettled
      exact absurd hreply (hopen reply)
    · rintro ⟨reply, hreply⟩
      exact absurd hreply (hopen' reply)

/-! ## One event -/

/-- A request waits in line. -/
theorem Capped.request (h : s.Capped) (user : U) (transfer : Option ℕ) : (s.step (.request user transfer)).Capped := by
  have hfresh : ∀ {j}, s.chains.begun j = true → j ≠ s.chains.count := fun hj => Nat.ne_of_lt (h.ordered.began _ hj)
  refine ⟨h.ordered.join user, fun j q hj => ?_, h.windows, fun row hrow k hk => ?_⟩
  · have hj' : Function.update s.requests s.chains.count (some { user := user, transfer := transfer }) j = some q := hj
    rw [Function.update_apply] at hj'
    split at hj'
    · rename_i heq
      obtain rfl := Option.some.inj hj'
      subst heq
      refine ⟨Function.update_self _ _ _, ?_, ?_, (fun t ht => by cases ht), (fun t c ht => by cases ht)⟩
      · exact ⟨fun hb => absurd rfl (hfresh hb), fun hq => absurd rfl hq⟩
      · exact ⟨fun hs => absurd rfl (hfresh (h.ordered.ended _ hs)),
          (fun hex => by obtain ⟨reply, hreply⟩ := hex; cases hreply)⟩
    · rename_i hne
      have hs := h.requests j q hj'
      exact { hs with key := (Function.update_of_ne hne _ _).trans hs.key }
  · obtain ⟨q, hq, hmoved⟩ := h.written row hrow k hk
    refine ⟨q, (Function.update_of_ne ?_ _ _).trans hq, hmoved⟩
    exact Nat.ne_of_lt (h.ordered.numbered k q.user (h.requests k q hq).key)

/-- A request begins alone of its user. -/
theorem Capped.start (h : s.Capped) (i wait : ℕ) : (s.step (.start i wait)).Capped := by
  unfold TransferDesk.step
  dsimp only
  split
  · exact h
  · rename_i r hi
    split
    · rename_i hready
      have hs := h.requests i r hi
      -- the link has not begun, so the request is queued
      have hidle : s.chains.begun i = false := by
        unfold PromiseChains.ready at hready
        rw [Bool.and_eq_true, Bool.and_eq_true, Bool.not_eq_true'] at hready
        exact hready.1.2
      have hqueued : r.phase = .queued := by
        by_contra hphase
        exact absurd ((hs.begun.mpr hphase).symm.trans hidle) (by decide)
      have hsettled : s.chains.settled i = false := by
        cases hend : s.chains.settled i with
        | false => rfl
        | true => exact absurd ((h.ordered.ended i hend).symm.trans hidle) (by decide)
      refine h.move hi (by omega) (h.ordered.start i) PromiseChains.start_key (fun j hne => ?_)
        (fun j _ => congrFun PromiseChains.start_settled j) ?_ (fun hmoved => ?_)
      · rw [PromiseChains.start_begun hready, decide_eq_false hne, Bool.false_or]
      · refine ⟨(congrFun PromiseChains.start_key i).trans hs.key, ?_, ?_, fun t ht => ?_, fun t c ht => ?_⟩
        · show (s.chains.start i).begun i = true ↔ _
          rw [PromiseChains.start_begun hready, decide_eq_true rfl, Bool.true_or]
          refine ⟨fun _ heq => ?_, fun _ => rfl⟩
          dsimp only at heq
          split at heq <;> cases heq
        · show (s.chains.start i).settled i = true ↔ _
          rw [PromiseChains.start_settled, hsettled]
          refine ⟨(fun hf => by cases hf), fun hex => ?_⟩
          obtain ⟨reply, hreply⟩ := hex
          dsimp only at hreply
          split at hreply <;> cases hreply
        · dsimp only at ht
          split at ht
          · cases ht
            exact Int.le_refl _
          · cases ht
        · dsimp only at ht
          split at ht <;> cases ht
      · unfold Moved at hmoved
        rw [hqueued] at hmoved
        simp at hmoved
    · exact h

omit [DecidableEq U] in
theorem not_moved_reading {t : ℤ} (h : r.phase = .reading t) : ¬Moved r := by
  unfold Moved
  rw [h]
  simp

omit [DecidableEq U] in
theorem not_moved_writing {t : ℤ} {c : Option ℤ} (h : r.phase = .writing t c) : ¬Moved r := by
  unfold Moved
  rw [h]
  simp

/-- Past the check there is room for the transfer. -/
theorem Capped.check (h : s.Capped) (hi : s.requests i = some r) {amount : ℕ} (htransfer : r.transfer = some amount)
    {now : ℤ} (hphase : r.phase = .reading now) (ok : Bool) : (s.check i r amount now ok).Capped := by
  have hbegun : r.phase ≠ .queued := by
    rw [hphase]
    simp
  have hnot := not_moved_reading hphase
  unfold TransferDesk.check
  split
  · split
    · exact h.answer hi hbegun _ (fun hm => absurd hm hnot)
    · rename_i hroom
      refine h.goto hi hbegun (by simp [hphase]) (by simp) (by simp) (Int.le_refl _) (fun t ht => by cases ht)
        (fun t c ht => ?_) hnot
      obtain ⟨rfl, rfl⟩ := OutPhase.writing.inj ht
      refine ⟨(h.requests i r hi).reading _ hphase, (fun c' hc' => by cases hc'), fun amount' htransfer' => ?_⟩
      obtain rfl := Option.some.inj (htransfer.symm.trans htransfer')
      exact Nat.le_of_not_lt hroom
  · exact h.answer hi hbegun _ (fun hm => absurd hm hnot)

/-- The row is given its time, which is not before the one that was read at. -/
theorem Capped.stamped (h : s.Capped) (hi : s.requests i = some r) {now : ℤ} (hphase : r.phase = .writing now none)
    (wait : ℕ) : Capped { s.goto i r (.writing now (some (s.now + wait))) with now := s.now + wait } := by
  obtain ⟨hpast, -, hroom⟩ := (h.requests i r hi).writing now none hphase
  refine h.goto hi (by simp [hphase]) (by simp [hphase]) (by simp) (by simp) (by omega) (fun t ht => by cases ht)
    (fun t c ht => ?_) (not_moved_writing hphase)
  obtain ⟨rfl, rfl⟩ := OutPhase.writing.inj ht
  refine ⟨by omega, fun c' hc' => ?_, hroom⟩
  obtain rfl := Option.some.inj hc'
  omega

/-- What is transferred in a window is transferred since before it. -/
theorem transferredIn_le {user : U} {start since : ℤ} (h : since ≤ start) :
    s.transferredIn user start ≤ s.transferredOutSince user since := by
  unfold transferredIn transferredOutSince
  refine List.Sublist.sum_le_sum (List.Sublist.map _ ?_) (fun _ _ => Nat.zero_le _)
  refine List.monotone_filter_right _ fun row hrow => ?_
  obtain ⟨huser, hstart, -⟩ := of_decide_eq_true hrow
  exact decide_eq_true ⟨huser, h.trans hstart⟩

omit [DecidableEq U] in
/-- One row more in a sum over some of the rows. -/
theorem sum_append (p : TransferOut U → Prop) [DecidablePred p] (rows : List (TransferOut U)) (row : TransferOut U) :
    (((rows ++ [row]).filter fun r => decide (p r)).map (·.amountCents)).sum =
      ((rows.filter fun r => decide (p r)).map (·.amountCents)).sum + if p row then row.amountCents else 0 := by
  rw [List.filter_append, List.map_append, List.sum_append]
  by_cases hp : p row <;> simp [hp]

theorem transferredOutSince_append (s : TransferDesk U) (row : TransferOut U) (user : U) (since : ℤ) :
    transferredOutSince { s with rows := s.rows ++ [row] } user since =
      s.transferredOutSince user since + if row.user = user ∧ since ≤ row.createdAt then row.amountCents else 0 :=
  sum_append (fun r => r.user = user ∧ since ≤ r.createdAt) s.rows row

theorem transferredIn_append (s : TransferDesk U) (row : TransferOut U) (user : U) (start : ℤ) :
    transferredIn { s with rows := s.rows ++ [row] } user start =
      s.transferredIn user start + if row.user = user ∧ start ≤ row.createdAt ∧ row.createdAt ≤ start + transferWindowMs
        then row.amountCents else 0 :=
  sum_append (fun r => r.user = user ∧ start ≤ r.createdAt ∧ r.createdAt ≤ start + transferWindowMs) s.rows row

/-- A row is written: no other request of its user relies on what was read before. -/
theorem Capped.committed (h : s.Capped) (hi : s.requests i = some r) {amount : ℕ} (htransfer : r.transfer = some amount)
    {now createdAt : ℤ} (hphase : r.phase = .writing now (some createdAt)) :
    Capped { s.goto i r .written with
      rows := s.rows ++ [{ user := r.user, amountCents := amount, createdAt := createdAt, link := some i }] } := by
  obtain ⟨hpast, hstamp, hroom⟩ := (h.requests i r hi).writing now (some createdAt) hphase
  have hstamp := hstamp createdAt rfl
  have hroom := hroom amount htransfer
  have hgone : Capped { s.goto i r .written with now := s.now } :=
    h.goto hi (by simp [hphase]) (by simp [hphase]) (by simp) (by simp) (Int.le_refl _) (fun t ht => by cases ht)
      (fun t c ht => by cases ht) (not_moved_writing hphase)
  refine ⟨hgone.ordered, fun j q hj => ?_, fun user start => ?_, fun row hrow k hk => ?_⟩
  · have hs := hgone.requests j q hj
    refine ⟨hs.key, hs.begun, hs.settled, hs.reading, fun t c ht => ?_⟩
    obtain ⟨hpast', hstamp', hroom'⟩ := hs.writing t c ht
    refine ⟨hpast', hstamp', fun amount' htransfer' => ?_⟩
    have hother : r.user ≠ q.user := by
      intro huser
      have hj' : Function.update s.requests i (some { r with phase := .written }) j = some q := hj
      rw [Function.update_apply] at hj'
      split at hj'
      · obtain rfl := Option.some.inj hj'
        cases ht
      · rename_i hne
        exact hne (h.exclusive hi hj' huser.symm (by simp [hphase]) (by simp [hphase]) (by simp [ht]) (by simp [ht])).symm
    have hsame := transferredOutSince_append s
      { user := r.user, amountCents := amount, createdAt := createdAt, link := some i } q.user (t - transferWindowMs)
    rw [if_neg fun hand => hother hand.1, Nat.add_zero] at hsame
    exact (congrArg (· + amount') hsame).trans_le (hroom' amount' htransfer')
  · have hsum := transferredIn_append s
      { user := r.user, amountCents := amount, createdAt := createdAt, link := some i } user start
    by_cases hin : r.user = user ∧ start ≤ createdAt ∧ createdAt ≤ start + transferWindowMs
    · -- the window lies within what was read
      rw [if_pos hin] at hsum
      obtain ⟨rfl, hstart, hend⟩ := hin
      have hbefore : now - transferWindowMs ≤ start := by omega
      have hle : s.transferredIn r.user start ≤ s.transferredOutSince r.user (now - transferWindowMs) :=
        transferredIn_le hbefore
      exact .inl (hsum.trans_le ((Nat.add_le_add_right hle amount).trans hroom))
    · rw [if_neg hin, Nat.add_zero] at hsum
      rcases h.windows user start with hcap | hold
      · exact .inl (hsum.trans_le hcap)
      · refine .inr fun row hrow hwindow => ?_
        rcases List.mem_append.mp hrow with hrow | hrow
        · exact hold row hrow hwindow
        · rw [List.mem_singleton.mp hrow] at hwindow
          exact absurd hwindow hin
  · rcases List.mem_append.mp hrow with hrow | hrow
    · exact hgone.written row hrow k hk
    · rw [List.mem_singleton.mp hrow] at hk
      obtain rfl := Option.some.inj hk
      exact ⟨{ r with phase := .written }, Function.update_self _ _ _, .inl rfl⟩

/-- **Step.** Every event keeps the invariant. -/
theorem Capped.step (h : s.Capped) (e : OutEvent U) : (s.step e).Capped := by
  cases e with
  | request user transfer => exact h.request user transfer
  | start i wait => exact h.start i wait
  | read i ok =>
    unfold TransferDesk.step
    dsimp only
    split
    · rename_i hi
      exact h.check hi rfl rfl ok
    · exact h
  | stamp i wait =>
    unfold TransferDesk.step
    dsimp only
    split
    · rename_i hi
      exact h.stamped hi rfl wait
    · exact h
  | commit i =>
    unfold TransferDesk.step
    dsimp only
    split
    · rename_i hi
      exact h.committed hi rfl rfl
    · exact h
  -- what a settled request answers is known once its writing has been told apart
  | settle i ok =>
    unfold TransferDesk.step
    dsimp only
    split
    · exact h
    · rename_i r hi
      split
      · rename_i hphase
        exact h.answer hi (by simp [hphase]) _ (fun hm => absurd hm (not_moved_writing hphase))
      · rename_i hphase
        refine h.answer hi (by simp [hphase]) _ (fun _ => ?_)
        cases ok with
        | true => exact .inr (.inl rfl)
        | false => exact .inr (.inr rfl)
      · rename_i hphase
        refine h.answer hi (by simp [hphase]) _ (fun _ => ?_)
        cases ok with
        | true => exact .inr (.inl rfl)
        | false => exact .inr (.inr rfl)
      · exact h
  | prune i =>
    refine ⟨h.ordered.prune i, fun j q hj => ?_, h.windows, h.written⟩
    have hs := h.requests j q hj
    exact { hs with
      key := (congrFun PromiseChains.prune_key j).trans hs.key
      begun := (congrArg (· = true) (congrFun PromiseChains.prune_begun j)).to_iff.trans hs.begun
      settled := (congrArg (· = true) (congrFun PromiseChains.prune_settled j)).to_iff.trans hs.settled }

/-! ## Every run -/

/-- A desk starts within the cap. -/
theorem capped_boot (cap : ℕ+) (now : ℤ) (past : List (U × ℕ × ℤ)) : (boot cap now past).Capped where
  ordered := PromiseChains.ordered_empty
  requests _ _ h := by cases h
  windows user start := by
    refine .inr fun row hrow _ => ?_
    obtain ⟨r, -, rfl⟩ := List.mem_map.mp hrow
    rfl
  written row hrow i hi := by
    obtain ⟨r, -, rfl⟩ := List.mem_map.mp hrow
    cases hi

/-- What an event does to a request: it leaves it as it is, or takes one that is not answered on;
only the read of the total refuses one for the cap. -/
theorem Capped.requests_step (h : s.Capped) (e : OutEvent U) {r q : OutRequest U} (hi : s.requests i = some r)
    (hq : (s.step e).requests i = some q) : q = r ∨ ((∀ reply, r.phase ≠ .answered reply) ∧
      (q.phase = .answered .capReached → ∃ now amount, r.phase = .reading now ∧ r.transfer = some amount ∧
        (s.cap : ℕ) < s.transferredOutSince r.user (now - transferWindowMs) + amount)) := by
  have hsame : ∀ {q'}, s.requests i = some q' → q' = r := fun hq' => Option.some.inj (hq'.symm.trans hi)
  -- a step moves one request to another phase
  have hgoto : ∀ {j r' phase}, s.requests j = some r' →
      Function.update s.requests j (some { r' with phase := phase }) i = some q → q = r ∨ (r' = r ∧ q.phase = phase) := by
    intro j r' phase hj hq'
    rw [Function.update_apply] at hq'
    split at hq'
    · rename_i heq
      obtain rfl := Option.some.inj hq'
      exact .inr ⟨hsame (heq ▸ hj), rfl⟩
    · exact .inl (hsame hq')
  unfold TransferDesk.step at hq
  cases e with
  | request user transfer =>
    have hne : i ≠ s.chains.count := Nat.ne_of_lt (h.ordered.numbered i r.user (h.requests i r hi).key)
    exact .inl (hsame ((Function.update_of_ne hne _ _).symm.trans hq))
  | start j wait =>
    dsimp only at hq
    split at hq
    · exact .inl (hsame hq)
    · rename_i r' hj
      split at hq
      · rename_i hready
        rcases hgoto hj hq with hold | ⟨rfl, hphase⟩
        · exact .inl hold
        · refine .inr ⟨fun reply hreply => ?_, fun hcap => ?_⟩
          · -- an answered request has begun
            have hbegun := (h.requests j r' hj).begun.mpr (by simp [hreply])
            unfold PromiseChains.ready at hready
            simp [hbegun] at hready
          · rw [hphase] at hcap
            split at hcap <;> cases hcap
      · exact .inl (hsame hq)
  | read j ok =>
    dsimp only at hq
    split at hq
    · rename_i user amount now hj
      unfold TransferDesk.check at hq
      split at hq
      · split at hq
        -- the only way to the answer that the cap is reached
        · rename_i hover
          rcases hgoto hj hq with hold | ⟨rfl, -⟩
          · exact .inl hold
          · exact .inr ⟨by simp, fun _ => ⟨now, amount, rfl, rfl, hover⟩⟩
        · rcases hgoto hj hq with hold | ⟨rfl, hphase⟩
          · exact .inl hold
          · exact .inr ⟨by simp, by simp [hphase]⟩
      · rcases hgoto hj hq with hold | ⟨rfl, hphase⟩
        · exact .inl hold
        · exact .inr ⟨by simp, by simp [hphase]⟩
    · exact .inl (hsame hq)
  | stamp j wait =>
    dsimp only at hq
    split at hq
    · rename_i hj
      rcases hgoto hj hq with hold | ⟨rfl, hphase⟩
      · exact .inl hold
      · exact .inr ⟨by simp, by simp [hphase]⟩
    · exact .inl (hsame hq)
  | commit j =>
    dsimp only at hq
    split at hq
    · rename_i hj
      rcases hgoto hj hq with hold | ⟨rfl, hphase⟩
      · exact .inl hold
      · exact .inr ⟨by simp, by simp [hphase]⟩
    · exact .inl (hsame hq)
  | settle j ok =>
    dsimp only at hq
    split at hq
    · exact .inl (hsame hq)
    · rename_i r' hj
      split at hq
      · rename_i hphase'
        rcases hgoto hj hq with hold | ⟨rfl, hphase⟩
        · exact .inl hold
        · exact .inr ⟨by simp [hphase'], by simp [hphase]⟩
      · rename_i hphase'
        rcases hgoto hj hq with hold | ⟨rfl, hphase⟩
        · exact .inl hold
        · refine .inr ⟨by simp [hphase'], fun hcap => ?_⟩
          rw [hphase] at hcap
          cases ok <;> cases hcap
      · rename_i hphase'
        rcases hgoto hj hq with hold | ⟨rfl, hphase⟩
        · exact .inl hold
        · refine .inr ⟨by simp [hphase'], fun hcap => ?_⟩
          rw [hphase] at hcap
          cases ok <;> cases hcap
      · exact .inl (hsame hq)
  | prune j => exact .inl (hsame hq)

/-- A request stays known. -/
theorem requests_kept (e : OutEvent U) (hi : s.requests i = some r) : ∃ q, (s.step e).requests i = some q := by
  have hupdate : ∀ {j} {q : OutRequest U}, ∃ q', Function.update s.requests j (some q) i = some q' := by
    intro j q
    rw [Function.update_apply]
    split
    · exact ⟨q, rfl⟩
    · exact ⟨r, hi⟩
  unfold TransferDesk.step
  cases e with
  | request user transfer => exact hupdate
  | read j ok =>
    dsimp only
    split
    · unfold TransferDesk.check
      split
      · split <;> exact hupdate
      · exact hupdate
    · exact ⟨r, hi⟩
  | start j wait =>
    dsimp only
    split
    · exact ⟨r, hi⟩
    · split
      · exact hupdate
      · exact ⟨r, hi⟩
  | settle j ok =>
    dsimp only
    split
    · exact ⟨r, hi⟩
    · split
      · exact hupdate
      · exact hupdate
      · exact hupdate
      · exact ⟨r, hi⟩
  | prune j => exact ⟨r, hi⟩
  | _ =>
    dsimp only
    split
    · exact hupdate
    · exact ⟨r, hi⟩

/-- A request that is answered stays as it is. -/
theorem Capped.answered_run (h : s.Capped) (hi : s.requests i = some r) {reply : OutReply}
    (hphase : r.phase = .answered reply) (es : List (OutEvent U)) :
    (run TransferDesk.step s es).requests i = some r := by
  have hkeeps : ∀ (s : TransferDesk U) e, s.Capped ∧ s.requests i = some r →
      (s.step e).Capped ∧ (s.step e).requests i = some r := by
    rintro s e ⟨hs, hr⟩
    obtain ⟨q, hq⟩ := requests_kept e hr
    refine ⟨hs.step e, ?_⟩
    rcases hs.requests_step e hr hq with rfl | ⟨hopen, -⟩
    · exact hq
    · exact absurd hphase (hopen reply)
  exact (run_inv hkeeps ⟨h, hi⟩ es).2

/-- A transfer that an event refuses for the cap had read a total that, with its amount, exceeds
it: what its user transferred in the 24 hours before. -/
def Due (s : TransferDesk U) (e : OutEvent U) : Prop :=
  ∀ i r q, s.requests i = some r → (s.step e).requests i = some q → q.phase = .answered .capReached →
    r.phase ≠ .answered .capReached → ∃ now amount, r.phase = .reading now ∧ r.transfer = some amount ∧
      (s.cap : ℕ) < s.transferredOutSince r.user (now - transferWindowMs) + amount

theorem Capped.due (h : s.Capped) (e : OutEvent U) : s.Due e := by
  intro i r q hr hq hcap hnew
  rcases h.requests_step e hr hq with rfl | ⟨-, hdue⟩
  · exact absurd hcap hnew
  · exact hdue hcap

/-- A read of the total that fails answers the request. -/
theorem read_failed {t : ℤ} {amount : ℕ} (hi : s.requests i = some r) (hphase : r.phase = .reading t)
    (htransfer : r.transfer = some amount) :
    (s.step (.read i false)).requests i = some { r with phase := .answered .capCheckFailed } := by
  obtain ⟨user, transfer, phase⟩ := r
  obtain rfl : transfer = some amount := htransfer
  obtain rfl : phase = .reading t := hphase
  unfold TransferDesk.step
  dsimp only
  rw [hi]
  exact Function.update_self _ _ _

@[simp] theorem step_cap (s : TransferDesk U) (e : OutEvent U) : (s.step e).cap = s.cap := by
  unfold TransferDesk.step
  cases e with
  | read j ok =>
    dsimp only
    split
    · unfold TransferDesk.check
      split
      · split <;> rfl
      · rfl
    · rfl
  | settle j ok =>
    dsimp only
    split
    · rfl
    · split <;> rfl
  | start j wait =>
    dsimp only
    split
    · rfl
    · split <;> rfl
  | request user transfer => rfl
  | prune j => rfl
  | _ =>
    dsimp only
    split <;> rfl

/-- **The cap on transfers.** With any positive cap and any rows of the past, over every run of
transfers and withdrawals in any order of their parts and whatever fails: in any 24 hours in which
the server has written a transfer of a user, the transfers of the user stay within the cap; a
transfer whose total could not be read is never written; and a refusal for the cap is due. -/
theorem transfer_cap (cap : ℕ+) (now : ℤ) (past : List (U × ℕ × ℤ)) (es : List (OutEvent U)) :
    (∀ user start, (run step (boot cap now past) es).transferredIn user start ≤ cap ∨
      ∀ row ∈ (run step (boot cap now past) es).rows, InWindow user start row → row.link = none) ∧
    (∀ fs gs i r t amount, es = fs ++ .read i false :: gs → (run step (boot cap now past) fs).requests i = some r →
      r.phase = .reading t → r.transfer = some amount →
      ∀ row ∈ (run step (boot cap now past) es).rows, row.link ≠ some i) ∧
    ∀ fs e gs, es = fs ++ e :: gs → Due (run step (boot cap now past) fs) e := by
  have hcapped : ∀ fs, Capped (run step (boot cap now past) fs) := run_inv (fun s e h => h.step e) (capped_boot cap now past)
  have hcap : (run step (boot cap now past) es).cap = cap :=
    run_inv (P := fun s => s.cap = cap) (fun s e h => (step_cap s e).trans h) rfl es
  refine ⟨fun user start => ?_, fun fs gs i r t amount heq hi hphase htransfer row hrow hlink => ?_,
    fun fs e gs _ => (hcapped fs).due e⟩
  · have hwindow := (hcapped es).windows user start
    rw [hcap] at hwindow
    exact hwindow
  · -- the request is answered, and stays so
    have hread : ((run step (boot cap now past) fs).step (.read i false)).requests i =
        some { r with phase := .answered .capCheckFailed } := read_failed hi hphase htransfer
    have hstays := ((hcapped fs).step (.read i false)).answered_run hread rfl gs
    rw [heq, run_append] at hrow
    have hrun : run step (boot cap now past) es = run step ((run step (boot cap now past) fs).step (.read i false)) gs := by
      rw [heq, run_append]
      rfl
    obtain ⟨q, hq, hmoved⟩ := (hcapped es).written row (by rw [heq, run_append]; exact hrow) i hlink
    rw [hrun, hstays] at hq
    obtain rfl := Option.some.inj hq
    rcases hmoved with hm | hm | hm <;> cases hm

end TransferDesk

end Murlan
