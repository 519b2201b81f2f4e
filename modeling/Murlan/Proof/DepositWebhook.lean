import Murlan.Spec.DepositWebhook

/-!
# The deposits of a server

* `Booked`: what holds of the desk. No two rows have one reference, and the row of a payment is the one its intent says.
* `Bound`: what holds of a request where it stands; `Apart`: no two requests have one link.
* `Grows`: what a step leaves to the others.
* `paired`: every step keeps them.
-/

namespace Murlan

variable {U P T : Type} [DecidableEq U] [DecidableEq P] [DecidableEq T]

/-! ## Where a request stands -/

namespace DepositWait

omit [DecidableEq U] [DecidableEq P] [DecidableEq T]

/-- How far a request is: it joins a chain at 4, and holds its link from 5 on. -/
@[simp] def stage : DepositWait U P T → ℕ
  | .findIntent _ => 0
  | .checkLimit _ => 1
  | .checkDeposits _ _ _ => 2
  | .getLimits _ => 3
  | .queued _ _ => 4
  | .findById _ _ => 5
  | .findByProviderRef _ _ _ => 6
  | .sumDeposits _ _ _ _ => 7
  | .appendIdempotent _ _ => 8
  | .adjustBalance _ | .balanceOf _ => 9
  | .answered _ => 10

/-- The credit a request is about. -/
@[simp] def credit? : DepositWait U P T → Option (DepositCredit U P T)
  | .checkLimit c | .checkDeposits c _ _ | .getLimits c | .queued c _ | .findById c _ | .findByProviderRef c _ _
  | .sumDeposits c _ _ _ | .appendIdempotent c _ | .adjustBalance c | .balanceOf c => some c
  | .findIntent _ | .answered _ => none

theorem stage_le (w : DepositWait U P T) : w.stage ≤ 10 := by
  cases w <;> simp [stage]

theorem answered_of_stage {w : DepositWait U P T} (h : w.stage = 10) : ∃ reply, w = .answered reply := by
  cases w with
  | answered reply => exact ⟨reply, rfl⟩
  | _ => simp [stage] at h

end DepositWait

namespace DepositDesk

/-! ## The desk -/

/-- Amounts that `assertAmount` lets pass. -/
def Creditable (amountCents : ℕ) : Prop := 0 < amountCents ∧ amountCents ≤ maxAmountCents

/-- The invariant of the desk: references are used once, and every payment's row is its intent's. -/
structure Booked (s : DepositDesk U P T) : Prop where
  ordered : s.depositChain.Ordered
  refs : (s.ledger.map (·.providerRef)).Nodup
  payments : ∀ r ∈ s.ledger, ∀ p, r.providerRef = .payment p →
    ∃ intent, s.intents p = some intent ∧ r.userId = intent.userId ∧ r.amountCents = intent.amountCents
  users : ∀ r ∈ s.ledger, (s.balance r.userId).isSome = true
  amounts : ∀ r ∈ s.ledger, Creditable r.amountCents

/-- What a credit rests on at a stage: the intent it is of, an amount that is accepted, a user that is known. -/
structure Backed (s : DepositDesk U P T) (c : DepositCredit U P T) (stage : ℕ) : Prop where
  intent : ∀ p, c.providerRef = .payment p →
    ∃ intent, s.intents p = some intent ∧ c.userId = intent.userId ∧ c.amountCents = intent.amountCents
  amount : 4 ≤ stage → Creditable c.amountCents
  user : 6 ≤ stage → (s.balance c.userId).isSome = true

/-- What a delivery under way has behind it. -/
structure Bound (s : DepositDesk U P T) (t : DepositTask U P T) : Prop where
  credit : ∀ c, t.wait.credit? = some c → s.Backed c t.wait.stage
  queued : t.wait.stage = 4 → t.link ≠ none
  link : ∀ i, t.link = some i → i < s.depositChain.count ∧ 4 ≤ t.wait.stage ∧
    (s.depositChain.begun i = true ↔ 5 ≤ t.wait.stage) ∧ (s.depositChain.settled i = true ↔ t.wait.stage = 10)

/-- No two requests have one link. -/
def Apart (t u : DepositTask U P T) : Prop := ∀ i, t.link = some i → u.link ≠ some i

/-- What the step of a request leaves: nothing known is lost, and only its own link moves. -/
structure Grows (own : Option ℕ) (s s' : DepositDesk U P T) : Prop where
  now : s.now ≤ s'.now
  known : ∀ u, (s.balance u).isSome = true → (s'.balance u).isSome = true
  ledger : ∃ rows, s'.ledger = s.ledger ++ rows
  intents : ∀ p intent, s.intents p = some intent → s'.intents p = some intent
  count : s.depositChain.count ≤ s'.depositChain.count
  prev : ∀ j < s.depositChain.count, s'.depositChain.prev j = s.depositChain.prev j
  begun : ∀ j < s.depositChain.count, own ≠ some j → s'.depositChain.begun j = s.depositChain.begun j
  settled : ∀ j < s.depositChain.count, own ≠ some j → s'.depositChain.settled j = s.depositChain.settled j

variable {s s' s'' : DepositDesk U P T} {t u : DepositTask U P T} {c : DepositCredit U P T} {own : Option ℕ}

omit [DecidableEq U] [DecidableEq P] [DecidableEq T] in
/-- Nothing has happened. -/
theorem Grows.refl (own : Option ℕ) (s : DepositDesk U P T) : s.Grows own s where
  now := Nat.le_refl _
  known _ h := h
  ledger := ⟨[], (List.append_nil _).symm⟩
  intents _ _ h := h
  count := Nat.le_refl _
  prev _ _ := rfl
  begun _ _ _ := rfl
  settled _ _ _ := rfl

omit [DecidableEq U] [DecidableEq P] [DecidableEq T] in
/-- One growth after another. -/
theorem Grows.trans (h : s.Grows own s') (h' : s'.Grows own s'') : s.Grows own s'' where
  now := h.now.trans h'.now
  known u hu := h'.known u (h.known u hu)
  ledger := by
    obtain ⟨rows, hrows⟩ := h.ledger
    obtain ⟨rows', hrows'⟩ := h'.ledger
    exact ⟨rows ++ rows', by rw [hrows', hrows, List.append_assoc]⟩
  intents p intent hp := h'.intents p intent (h.intents p intent hp)
  count := h.count.trans h'.count
  prev j hj := (h'.prev j (hj.trans_le h.count)).trans (h.prev j hj)
  begun j hj hne := (h'.begun j (hj.trans_le h.count) hne).trans (h.begun j hj hne)
  settled j hj hne := (h'.settled j (hj.trans_le h.count) hne).trans (h.settled j hj hne)

omit [DecidableEq U] in
theorem hasRef_iff {ref : DepositRef P T} : s.hasRef ref = true ↔ ∃ r ∈ s.ledger, r.providerRef = ref := by
  unfold hasRef
  rw [List.any_eq_true]
  exact exists_congr fun r => and_congr_right fun _ => decide_eq_true_iff

omit [DecidableEq U] in
theorem Grows.hasRef (h : s.Grows own s') {ref : DepositRef P T} (href : s.hasRef ref = true) : s'.hasRef ref = true := by
  obtain ⟨r, hr, hr'⟩ := hasRef_iff.mp href
  obtain ⟨rows, hrows⟩ := h.ledger
  exact hasRef_iff.mpr ⟨r, hrows ▸ List.mem_append_left _ hr, hr'⟩

/-! ### What the operations change -/

omit [DecidableEq U] [DecidableEq P] [DecidableEq T] in
/-- The row of a delivery is growth. -/
theorem append_grows (own : Option ℕ) (s : DepositDesk U P T) (c : DepositCredit U P T) : s.Grows own (s.append c) :=
  { Grows.refl own s with ledger := ⟨_, rfl⟩ }

omit [DecidableEq P] [DecidableEq T] in
/-- A balance moved changes nothing else. -/
theorem adjustBalance_eq {user : U} {delta : ℤ} {moved : ℤ × DepositDesk U P T} (h : s.adjustBalance user delta = some moved) :
    moved.2 = { s with balance := Function.update s.balance user (some moved.1) } := by
  unfold adjustBalance at h
  split at h
  · cases h
  · split at h
    · cases h
    · cases h
      rfl

omit [DecidableEq P] [DecidableEq T] in
/-- A balance moved is growth. -/
theorem adjustBalance_grows (own : Option ℕ) {user : U} {delta : ℤ} {moved : ℤ × DepositDesk U P T}
    (h : s.adjustBalance user delta = some moved) : s.Grows own moved.2 := by
  rw [adjustBalance_eq h]
  refine { Grows.refl own s with known := fun u hu => ?_ }
  dsimp only
  rw [Function.update_apply]
  split
  · rfl
  · exact hu

omit [DecidableEq U] [DecidableEq P] [DecidableEq T] in
theorem settle_grows (i : ℕ) (s : DepositDesk U P T) :
    s.Grows (some i) { s with depositChain := s.depositChain.settle i } :=
  { Grows.refl (some i) s with
    count := by simp
    prev := fun j _ => by simp
    begun := fun j _ _ => by simp
    settled := fun j _ hne => PromiseChains.settle_settled_of_ne fun heq => hne (congrArg some heq.symm) }

omit [DecidableEq U] [DecidableEq P] [DecidableEq T] in
theorem start_grows (i : ℕ) (s : DepositDesk U P T) :
    s.Grows (some i) { s with depositChain := s.depositChain.start i } :=
  { Grows.refl (some i) s with
    count := by simp
    prev := fun j _ => by simp
    begun := fun j _ hne => PromiseChains.start_begun_of_ne fun heq => hne (congrArg some heq.symm)
    settled := fun j _ _ => by simp }

omit [DecidableEq P] [DecidableEq T] in
theorem join_grows (own : Option ℕ) (s : DepositDesk U P T) (user : U) :
    s.Grows own { s with depositChain := s.depositChain.join user } :=
  { Grows.refl own s with
    count := Nat.le_succ _
    prev := fun _ hj => Function.update_of_ne (Nat.ne_of_lt hj) _ _ }

omit [DecidableEq T] in
/-- What happens between awaits is growth. -/
theorem drift_grows (s : DepositDesk U P T) (d : DepositDrift U P) : s.Grows none (s.drift d) := by
  unfold drift
  split
  · exact { Grows.refl none s with now := Nat.le_add_right _ _ }
  · split
    · exact Grows.refl none s
    · rename_i hnone
      refine { Grows.refl none s with intents := fun p intent hp => ?_ }
      dsimp only
      rw [Function.update_apply]
      split
      · rename_i heq
        exact absurd ((congrArg s.intents heq).symm.trans hp |>.symm.trans hnone) (by simp)
      · exact hp
  · exact { Grows.refl none s with }
  · split
    · exact Grows.refl none s
    · rename_i hmoved
      exact adjustBalance_grows none hmoved
  · exact { Grows.refl none s with
      count := by simp
      prev := fun j _ => by simp
      begun := fun j _ _ => by simp
      settled := fun j _ _ => by simp }

end DepositDesk

/-! ## One step of a request -/

namespace DepositTask

variable {s s' : DepositDesk U P T} {t : DepositTask U P T} {c : DepositCredit U P T} {cfg : DepositServer}

omit [DecidableEq U] [DecidableEq P] [DecidableEq T] in
@[simp] theorem goto_wait (t : DepositTask U P T) (wait : DepositWait U P T) : (t.goto wait).wait = wait := rfl

omit [DecidableEq U] [DecidableEq P] [DecidableEq T] in
@[simp] theorem goto_link (t : DepositTask U P T) (wait : DepositWait U P T) : (t.goto wait).link = t.link := rfl

omit [DecidableEq U] [DecidableEq P] [DecidableEq T] in
/-- An answer is growth. -/
theorem answer_grows (h : s.Grows t.link s') (reply : DepositReply) : s.Grows t.link (t.answer s' reply).2 := by
  unfold answer
  dsimp only
  split
  · exact h
  · rename_i i hlink
    rw [hlink] at h ⊢
    exact h.trans (DepositDesk.settle_grows i s')

omit [DecidableEq P] [DecidableEq T] in
/-- The credit of a delivery is growth. -/
theorem credit_grows (t : DepositTask U P T) (s : DepositDesk U P T) (c : DepositCredit U P T) (cap : Option ℕ) :
    s.Grows t.link (t.credit s c cap).2 := by
  unfold credit
  split
  · cases cap with
    | none => exact .refl _ _
    | some cap => exact DepositDesk.join_grows _ _ _
  · exact answer_grows (.refl _ _) _

theorem append_grows (t : DepositTask U P T) (s : DepositDesk U P T) (cfg : DepositServer) (c : DepositCredit U P T)
    (current : ℤ) : s.Grows t.link (t.append s cfg c current).2 := by
  have hrow := DepositDesk.append_grows t.link s c
  unfold append
  split
  · exact .refl _ _
  · split
    · refine answer_grows ?_ _
      split
      · exact .refl _ _
      · exact hrow
    · split
      · split
        · exact answer_grows (.refl _ _) _
        · rename_i hmoved
          exact answer_grows (hrow.trans (DepositDesk.adjustBalance_grows _ hmoved)) _
      · exact hrow

/-- Every step of a delivery is growth. -/
theorem resume_grows (t : DepositTask U P T) (s : DepositDesk U P T) (cfg : DepositServer) :
    s.Grows t.link (t.resume s cfg).2 := by
  have hsame := DepositDesk.Grows.refl t.link s
  unfold resume
  split
  · split
    · exact answer_grows hsame _
    · split
      · exact answer_grows hsame _
      · split
        · exact answer_grows hsame _
        · split
          · exact hsame
          · exact credit_grows _ _ _ _
  · split
    · exact hsame
    · exact hsame
  · split
    · exact answer_grows hsame _
    · exact hsame
  · exact credit_grows _ _ _ _
  · split
    · exact hsame
    · rename_i hlink
      split
      · rw [hlink]
        exact DepositDesk.start_grows _ _
      · exact hsame
  · split
    · exact answer_grows hsame _
    · exact hsame
    · exact hsame
  · split
    · exact hsame
    · exact hsame
  · split
    · exact answer_grows hsame _
    · exact hsame
  · exact append_grows _ _ _ _ _
  · split
    · exact answer_grows hsame _
    · rename_i hmoved
      exact answer_grows (DepositDesk.adjustBalance_grows _ hmoved) _
  · exact answer_grows hsame _
  · exact hsame

end DepositTask

namespace DepositDesk

variable {s s' : DepositDesk U P T} {t u : DepositTask U P T} {c : DepositCredit U P T} {own : Option ℕ} {m n : ℕ}

/-! ## What a step keeps -/

omit [DecidableEq U] [DecidableEq P] [DecidableEq T] in
/-- Growth with the same rows keeps the books. -/
theorem Booked.grows (h : s.Booked) (hg : s.Grows own s') (hledger : s'.ledger = s.ledger)
    (hordered : s'.depositChain.Ordered) : s'.Booked where
  ordered := hordered
  refs := hledger ▸ h.refs
  payments r hr p hp := by
    obtain ⟨intent, hintent, hsame⟩ := h.payments r (hledger ▸ hr) p hp
    exact ⟨intent, hg.intents p intent hintent, hsame⟩
  users r hr := hg.known r.userId (h.users r (hledger ▸ hr))
  amounts r hr := h.amounts r (hledger ▸ hr)

omit [DecidableEq U] [DecidableEq P] [DecidableEq T] in
theorem Backed.grows (h : s.Backed c n) (hg : s.Grows own s') : s'.Backed c n where
  intent p hp := by
    obtain ⟨intent, hintent, hsame⟩ := h.intent p hp
    exact ⟨intent, hg.intents p intent hintent, hsame⟩
  amount := h.amount
  user hn := hg.known c.userId (h.user hn)

omit [DecidableEq U] [DecidableEq P] [DecidableEq T] in
/-- The stages at which nothing more is asked of a credit. -/
theorem Backed.at (h : s.Backed c n) (hm : 6 ≤ n ∨ 4 ≤ n ∧ m < 6 ∨ m < 4) : s.Backed c m where
  intent := h.intent
  amount _ := h.amount (by omega)
  user _ := h.user (by omega)

omit [DecidableEq U] in
/-- A row is written under a reference that is not there. -/
theorem Booked.append (h : s.Booked) (hc : s.Backed c 8) (hnew : s.hasRef c.providerRef = false) : (s.append c).Booked := by
  have hrow : ∀ {r}, r ∈ (s.append c).ledger →
      r ∈ s.ledger ∨ (r.userId = c.userId ∧ r.amountCents = c.amountCents ∧ r.providerRef = c.providerRef) := by
    intro r hr
    rcases List.mem_append.mp hr with hr | hr
    · exact .inl hr
    · rw [List.mem_singleton.mp hr]
      exact .inr ⟨rfl, rfl, rfl⟩
  refine ⟨h.ordered, ?_, fun r hr p hp => ?_, fun r hr => ?_, fun r hr => ?_⟩
  · have hfresh : c.providerRef ∉ s.ledger.map (·.providerRef) := by
      intro hmem
      obtain ⟨r, hr, href⟩ := List.mem_map.mp hmem
      rw [hasRef_iff.mpr ⟨r, hr, href⟩] at hnew
      cases hnew
    unfold DepositDesk.append
    rw [List.map_append, List.map_singleton]
    exact List.nodup_append.mpr ⟨h.refs, List.nodup_singleton _, by
      intro ref href ref' href'
      rw [List.mem_singleton.mp href']
      exact fun heq => hfresh ((show ref = c.providerRef from heq) ▸ href)⟩
  · rcases hrow hr with hr | ⟨huser, hamount, href⟩
    · exact h.payments r hr p hp
    · obtain ⟨intent, hintent, huser', hamount'⟩ := hc.intent p (href.symm.trans hp)
      exact ⟨intent, hintent, huser.trans huser', hamount.trans hamount'⟩
  · rcases hrow hr with hr | ⟨huser, -, -⟩
    · exact h.users r hr
    · rw [huser]
      exact hc.user (by decide)
  · rcases hrow hr with hr | ⟨-, hamount, -⟩
    · exact h.amounts r hr
    · rw [hamount]
      exact hc.amount (by decide)

omit [DecidableEq U] [DecidableEq P] [DecidableEq T] in
/-- A request whose link is not the one that moves. -/
theorem Bound.beside (h : s.Bound u) (hg : s.Grows own s') (hne : ∀ j, u.link = some j → own ≠ some j) : s'.Bound u where
  credit c hc := (h.credit c hc).grows hg
  queued := h.queued
  link j hj := by
    obtain ⟨hcount, hstage, hbegun, hsettled⟩ := h.link j hj
    rw [hg.begun j hcount (hne j hj), hg.settled j hcount (hne j hj)]
    exact ⟨hcount.trans_le hg.count, hstage, hbegun, hsettled⟩

omit [DecidableEq U] [DecidableEq P] [DecidableEq T] in
/-- A step that keeps the desk and its own request keeps the others. -/
theorem stepped (hs' : s'.Booked) (hown : s'.Bound u) (hg : s.Grows t.link s')
    (hlink : u.link = t.link ∨ u.link = some s.depositChain.count) :
    Crew.Stepped Booked Bound Apart (fun _ => True) s t s' u where
  store := hs'
  own := hown
  others v hv htv hvt _ := by
    refine ⟨hv.beside hg fun j hj hown => htv j hown hj, ?_⟩
    rcases hlink with hlink | hlink
    · exact ⟨fun i hi => htv i (hlink ▸ hi), fun i hi => hlink ▸ hvt i hi⟩
    · -- the link is new
      have hfresh : v.link ≠ some s.depositChain.count := fun heq => absurd (hv.link _ heq).1 (Nat.lt_irrefl _)
      refine ⟨fun i hi => ?_, fun i hi heq => hfresh (hi.trans (heq.symm.trans hlink))⟩
      obtain rfl := Option.some.inj (hlink.symm.trans hi)
      exact hfresh

omit [DecidableEq U] [DecidableEq P] [DecidableEq T] in
/-- A request goes on, before it has a link or while it holds it. -/
theorem stepped_goto (ht : s.Bound t) (hs' : s'.Booked) (hg : s.Grows none s') {wait : DepositWait U P T}
    (hstage : t.wait.stage < 4 ∧ wait.stage ≠ 4 ∨
      5 ≤ t.wait.stage ∧ t.wait.stage ≠ 10 ∧ 5 ≤ wait.stage ∧ wait.stage ≠ 10)
    (hcredit : ∀ c, wait.credit? = some c → s'.Backed c wait.stage) :
    Crew.Stepped Booked Bound Apart (fun _ => True) s t s' (t.goto wait) := by
  have hown : s'.Bound (t.goto wait) := by
    refine ⟨hcredit, fun hqueued => ?_, fun i hi => ?_⟩
    · dsimp only [DepositTask.goto] at hqueued
      omega
    · obtain ⟨hcount, hfour, hbegun, hsettled⟩ := ht.link i hi
      dsimp only [DepositTask.goto]
      rw [hg.begun i hcount (by simp), hg.settled i hcount (by simp), hbegun, hsettled]
      have := hg.count
      omega
  refine stepped hs' hown { hg with
    begun := fun j hj _ => hg.begun j hj (by simp)
    settled := fun j hj _ => hg.settled j hj (by simp) } (.inl rfl)

omit [DecidableEq U] [DecidableEq P] [DecidableEq T] in
/-- A request is answered, from what its last call left. -/
theorem stepped_answer (ht : s.Bound t) (hs' : s'.Booked) (hg : s.Grows none s') (hstage : t.wait.stage ≠ 4)
    (reply : DepositReply) :
    Crew.Stepped Booked Bound Apart (fun _ => True) s t (t.answer s' reply).2 (t.answer s' reply).1 := by
  have hg' : s.Grows t.link s' := { hg with
    begun := fun j hj _ => hg.begun j hj (by simp)
    settled := fun j hj _ => hg.settled j hj (by simp) }
  have hmore := DepositTask.answer_grows hg' reply
  unfold DepositTask.answer at hmore ⊢
  dsimp only at hmore ⊢
  split
  · rename_i hnone
    rw [hnone] at hmore
    refine stepped hs' ⟨(fun c hc => by cases hc), (fun hqueued => by cases hqueued), fun i hi => ?_⟩ (hnone ▸ hmore)
      (.inl rfl)
    exact absurd (hnone.symm.trans hi) (by simp)
  · rename_i i hlink
    simp only [hlink] at hmore
    obtain ⟨hcount, hfour, hbegun, -⟩ := ht.link i hlink
    -- the request holds its link, which settles
    have hheld : s'.depositChain.begun i = true := (hg.begun i hcount (by simp)).trans (hbegun.mpr (by omega))
    have hbooked : Booked { s' with depositChain := s'.depositChain.settle i } :=
      hs'.grows (settle_grows i s') rfl (hs'.ordered.settle i)
    refine stepped hbooked ⟨(fun c hc => by cases hc), (fun hqueued => by cases hqueued), fun j hj => ?_⟩ (hlink ▸ hmore)
      (.inl rfl)
    obtain rfl := Option.some.inj (hlink.symm.trans hj)
    refine ⟨?_, (show 4 ≤ 10 by decide), ?_, ?_⟩
    · rw [PromiseChains.settle_count]
      exact hcount.trans_le hg.count
    · rw [PromiseChains.settle_begun]
      exact iff_of_true hheld (show 5 ≤ 10 by decide)
    · rw [PromiseChains.settle_settled hheld, decide_eq_true rfl]
      exact iff_of_true rfl rfl

omit [DecidableEq P] [DecidableEq T] in
/-- A credit that is capped joins the chain of its user. -/
theorem stepped_credit (hs : s.Booked) (ht : s.Bound t) (hstage : t.wait.stage < 4) (hc : s.Backed c 3) (cap : Option ℕ) :
    Crew.Stepped Booked Bound Apart (fun _ => True) s t (t.credit s c cap).2 (t.credit s c cap).1 := by
  have hunlinked : t.link = none := by
    cases hlink : t.link with
    | none => rfl
    | some i => exact absurd (ht.link i hlink).2.1 (by omega)
  unfold DepositTask.credit
  split
  · rename_i hamount
    have hback : ∀ {n}, n < 6 → s.Backed c n := fun hn => ⟨hc.intent, fun _ => hamount, fun h => absurd h (by omega)⟩
    cases cap with
    | none =>
      refine stepped_goto ht hs (.refl none s) (.inl ⟨hstage, by simp [DepositWait.stage]⟩) fun c' hc' => ?_
      obtain rfl := Option.some.inj hc'
      exact hback (Nat.lt_succ_self 5)
    | some cap =>
      have hgrows := join_grows t.link s c.userId
      refine stepped (hs.grows hgrows rfl (hs.ordered.join c.userId)) ⟨fun c' hc' => ?_, fun _ => by simp, fun i hi => ?_⟩
        hgrows (.inr rfl)
      · obtain rfl := Option.some.inj hc'
        exact (hback (show 4 < 6 by decide)).grows hgrows
      · obtain rfl := Option.some.inj hi
        refine ⟨Nat.lt_succ_self _, Nat.le_refl 4, iff_of_false (fun hb => ?_) (show ¬5 ≤ 4 by decide),
          iff_of_false (fun hb => ?_) (show ¬4 = 10 by decide)⟩
        · exact absurd (hs.ordered.began _ hb) (Nat.lt_irrefl _)
        · exact absurd (hs.ordered.began _ (hs.ordered.ended _ hb)) (Nat.lt_irrefl _)
  · exact stepped_answer ht hs (.refl none s) (by omega) _

/-- The row, the ceiling, and the balance. -/
theorem stepped_append (cfg : DepositServer) (hs : s.Booked) (ht : s.Bound t) {current : ℤ}
    (hwait : t.wait = .appendIdempotent c current) :
    Crew.Stepped Booked Bound Apart (fun _ => True) s t (t.append s cfg c current).2 (t.append s cfg c current).1 := by
  have hstage : t.wait.stage = 8 := by rw [hwait]; rfl
  have hback : s.Backed c 8 := by
    have := ht.credit c (by rw [hwait]; rfl)
    rwa [hstage] at this
  have hrefl := Grows.refl none s
  have hrow := append_grows none s c
  have hgoto : ∀ {s'} {wait : DepositWait U P T}, s'.Booked → s.Grows none s' → wait.stage = 9 → wait.credit? = some c →
      Crew.Stepped Booked Bound Apart (fun _ => True) s t s' (t.goto wait) := by
    intro s' wait hs' hg hnine hcredit
    refine stepped_goto ht hs' hg (.inr (by omega)) fun c' hc' => ?_
    obtain rfl := Option.some.inj (hcredit.symm.trans hc')
    rw [hnine]
    exact (hback.grows hg).at (.inl (by decide))
  unfold DepositTask.append
  split
  · exact hgoto hs hrefl rfl rfl
  · rename_i hnew
    have hbooked := hs.append hback (by simpa using hnew)
    split
    · split
      · exact stepped_answer ht hs hrefl (by omega) _
      · exact stepped_answer ht hbooked hrow (by omega) _
    · split
      · split
        · exact stepped_answer ht hs hrefl (by omega) _
        · rename_i moved hmoved
          have hmore := adjustBalance_grows none hmoved
          have heq := adjustBalance_eq hmoved
          exact stepped_answer ht (hbooked.grows hmore (by rw [heq]) (by rw [heq]; exact hbooked.ordered))
            (hrow.trans hmore) (by omega) _
      · exact hgoto hbooked hrow rfl rfl

/-- **Step.** A request that goes on keeps the desk, itself and the others. -/
theorem stepped_resume (cfg : DepositServer) (hs : s.Booked) (ht : s.Bound t) :
    Crew.Stepped Booked Bound Apart (fun _ => True) s t (t.resume s cfg).2 (t.resume s cfg).1 := by
  have hrefl := Grows.refl none s
  have hback : ∀ {c}, t.wait.credit? = some c → s.Backed c t.wait.stage := fun hc => ht.credit _ hc
  -- a wait before the credit, and one within it
  have hearly : ∀ {wait : DepositWait U P T}, t.wait.stage < 4 → wait.stage < 4 →
      (∀ c, wait.credit? = some c → s.Backed c wait.stage) →
      Crew.Stepped Booked Bound Apart (fun _ => True) s t s (t.goto wait) := fun h h' hc =>
    stepped_goto ht hs hrefl (.inl ⟨h, by omega⟩) hc
  have hlate : ∀ {wait : DepositWait U P T} {c}, 6 ≤ t.wait.stage → t.wait.stage ≠ 10 → 6 ≤ wait.stage → wait.stage ≠ 10 →
      t.wait.credit? = some c → wait.credit? = some c →
      Crew.Stepped Booked Bound Apart (fun _ => True) s t s (t.goto wait) := by
    intro wait c h h' hw hw' hc hc'
    refine stepped_goto ht hs hrefl (.inr (by omega)) fun c' hc'' => ?_
    obtain rfl := Option.some.inj (hc'.symm.trans hc'')
    exact (hback hc).at (.inl h)
  unfold DepositTask.resume
  split
  · rename_i deposit hwait
    have hstage : t.wait.stage = 0 := by rw [hwait]; rfl
    split
    · exact stepped_answer ht hs hrefl (by omega) _
    · rename_i intent hintent
      have hnew : ∀ {n}, n < 4 → s.Backed ⟨intent.userId, intent.amountCents, .payment deposit.providerRef⟩ n := by
        refine fun hn => ⟨fun p hp => ?_, fun h => absurd h (by omega), fun h => absurd h (by omega)⟩
        obtain rfl := DepositRef.payment.inj hp
        exact ⟨intent, hintent, rfl, rfl⟩
      split
      · exact stepped_answer ht hs hrefl (by omega) _
      · split
        · exact stepped_answer ht hs hrefl (by omega) _
        · split
          · refine hearly (by omega) (by simp) fun c hc => ?_
            obtain rfl := Option.some.inj hc
            exact hnew (by simp)
          · exact stepped_credit hs ht (by omega) (hnew (by decide)) none
  · rename_i c hwait
    have hstage : t.wait.stage = 1 := by rw [hwait]; rfl
    have hc := hback (by rw [hwait]; rfl)
    split
    · exact hearly (by omega) (by simp) fun c' hc' => Option.some.inj hc' ▸ hc.at (by simp)
    · exact hearly (by omega) (by simp) fun c' hc' => Option.some.inj hc' ▸ hc.at (by simp)
  · rename_i c limit at_ hwait
    have hstage : t.wait.stage = 2 := by rw [hwait]; rfl
    have hc := hback (by rw [hwait]; rfl)
    split
    · exact stepped_answer ht hs hrefl (by omega) _
    · exact hearly (by omega) (by simp) fun c' hc' => Option.some.inj hc' ▸ hc.at (by simp)
  · rename_i c hwait
    have hstage : t.wait.stage = 3 := by rw [hwait]; rfl
    have hc := hback (by rw [hwait]; rfl)
    rw [hstage] at hc
    exact stepped_credit hs ht (by omega) hc _
  · rename_i c cap hwait
    have hstage : t.wait.stage = 4 := by rw [hwait]; rfl
    have hc := hback (by rw [hwait]; rfl)
    split
    · exact stepped hs ht (.refl _ s) (.inl rfl)
    · rename_i i hlink
      split
      · -- the link begins
        rename_i hready
        obtain ⟨hcount, -, hbegun, hsettled⟩ := ht.link i hlink
        have hgrows := start_grows i s
        refine stepped (hs.grows hgrows rfl (hs.ordered.start i)) ⟨fun c' hc' => ?_, fun h => ?_, fun j hj => ?_⟩
          (hlink ▸ hgrows) (.inl rfl)
        · obtain rfl := Option.some.inj hc'
          exact (hc.at (.inr (.inl ⟨by omega, by simp⟩))).grows hgrows
        · simp at h
        · obtain rfl := Option.some.inj (hlink.symm.trans hj)
          refine ⟨?_, by simp, ?_, ?_⟩
          · rw [PromiseChains.start_count]
            exact hcount
          · rw [PromiseChains.start_begun hready, decide_eq_true rfl]
            simp
          · rw [PromiseChains.start_settled, hsettled, hstage]
            simp
      · exact stepped hs ht (.refl _ s) (.inl rfl)
  · rename_i c cap hwait
    have hstage : t.wait.stage = 5 := by rw [hwait]; rfl
    have hc := hback (by rw [hwait]; rfl)
    have hknown : ∀ {current : ℤ} {n}, s.balance c.userId = some current → s.Backed c n := fun hbalance =>
      ⟨hc.intent, fun _ => hc.amount (by omega), fun _ => by rw [hbalance]; rfl⟩
    split
    · exact stepped_answer ht hs hrefl (by omega) _
    · rename_i hbalance
      refine stepped_goto ht hs hrefl (.inr (by rw [hstage]; simp)) fun c' hc' => ?_
      exact Option.some.inj hc' ▸ hknown hbalance
    · rename_i hbalance
      refine stepped_goto ht hs hrefl (.inr (by rw [hstage]; simp)) fun c' hc' => ?_
      exact Option.some.inj hc' ▸ hknown hbalance
  · rename_i c cap current hwait
    have hstage : t.wait.stage = 6 := by rw [hwait]; rfl
    split
    · exact hlate (by omega) (by omega) (by simp) (by simp) (by rw [hwait]; rfl) rfl
    · exact hlate (by omega) (by omega) (by simp) (by simp) (by rw [hwait]; rfl) rfl
  · rename_i c cap current since hwait
    have hstage : t.wait.stage = 7 := by rw [hwait]; rfl
    split
    · exact stepped_answer ht hs hrefl (by omega) _
    · exact hlate (by omega) (by omega) (by simp) (by simp) (by rw [hwait]; rfl) rfl
  · rename_i c current hwait
    exact stepped_append cfg hs ht hwait
  · rename_i c hwait
    have hstage : t.wait.stage = 9 := by rw [hwait]; rfl
    split
    · exact stepped_answer ht hs hrefl (by omega) _
    · rename_i moved hmoved
      have heq := adjustBalance_eq hmoved
      have hgrows := adjustBalance_grows none hmoved
      exact stepped_answer ht (hs.grows hgrows (by rw [heq]) (by rw [heq]; exact hs.ordered)) hgrows (by omega) _
  · rename_i c hwait
    exact stepped_answer ht hs hrefl (by simp [hwait]) _
  · exact stepped hs ht (.refl _ s) (.inl rfl)

/-- What every step of the server keeps. -/
theorem paired (cfg : DepositServer) : (depositDesk (U := U) (P := P) (T := T) cfg).Paired (fun _ _ _ => True)
    (fun _ _ _ _ => True) Booked Bound Apart where
  entered s op _ := by
    -- a request starts with no link
    have hidle : ∀ {wait : DepositWait U P T}, wait.stage ≠ 4 → (∀ c, wait.credit? = some c → s.Backed c wait.stage) →
        s.Bound { wait := wait } := fun hstage hc => ⟨hc, fun h => absurd h hstage, fun i hi => by cases hi⟩
    -- a deposit by transaction id is backed by its amount
    have htron : ∀ {user : U} {amount : ℕ} {txId : T} {n}, (4 ≤ n → Creditable amount) → n < 6 →
        s.Backed ⟨user, amount, .tron txId⟩ n := fun hamount hn =>
      ⟨(fun p hp => by cases hp), hamount, fun h => absurd h (by omega)⟩
    show s.Bound (op.task cfg)
    unfold DepositOp.task
    split
    · exact hidle (by simp) (by simp)
    · exact hidle (by simp) (by simp)
    · split
      · exact hidle (by simp) (by simp)
      · exact hidle (by simp) (by simp)
    · split
      · exact hidle (by simp) fun c hc => Option.some.inj hc ▸ htron (by simp) (by simp)
      · split
        · rename_i hamount
          exact hidle (by simp) fun c hc => Option.some.inj hc ▸ htron (fun _ => hamount) (by simp)
        · exact hidle (by simp) (by simp)
  entered_pair s op u _ _ := by
    have hunlinked : (op.task cfg).link = none := by
      unfold DepositOp.task
      split
      · rfl
      · rfl
      · rfl
      · split
        · rfl
        · split <;> rfl
    refine ⟨fun i hi => ?_, fun i _ hi => ?_⟩
    · exact absurd (hunlinked.symm.trans hi) (by simp)
    · exact absurd (hunlinked.symm.trans hi) (by simp)
  resumed s t w hs ht _ := stepped_resume cfg hs ht
  drifted s d hs := by
    -- nothing else writes a row or joins a chain
    have hgrows := drift_grows s d
    refine hs.grows hgrows ?_ ?_
    · show (s.drift d).ledger = s.ledger
      unfold drift
      split
      · rfl
      · split <;> rfl
      · rfl
      · split
        · rfl
        · rename_i hmoved
          rw [adjustBalance_eq hmoved]
      · rfl
    · show (s.drift d).depositChain.Ordered
      unfold drift
      split
      · exact hs.ordered
      · split
        · exact hs.ordered
        · exact hs.ordered
      · exact hs.ordered
      · split
        · exact hs.ordered
        · rename_i hmoved
          rw [adjustBalance_eq hmoved]
          exact hs.ordered
      · exact hs.ordered.prune _
  drifted_task s d u _ hu := hu.beside (drift_grows s d) (by simp)

end DepositDesk

end Murlan
