import Murlan.Proof.Money

/-!
# A pot that is held

Which tasks of the money services can close a match, and what keeps them from it.

* `Task.threatens`: a settlement or a refund of the match, or a sweep on its way to it.
* `Secure`: the row of a match is active and no task threatens it; `onDb_secure`,
  `onResume_secure`: it stays so, whatever the tasks do.
* `Escrowing`: how far the escrow of a match has come; once it has committed, the pot
  is secure.
-/

set_option linter.unusedSectionVars false

namespace Murlan

variable {U M : Type} [DecidableEq U] [DecidableEq M] {m m' : Money U M} {r : MatchRecord U M} {id : M}
  {t t' : ℕ} {a a' b : Task U M} {fate : Fate} {i : SeatedEscrow U M}

/-! ## Threats -/

/-- A sweep will visit the match and does not take it for a live one. -/
def Sweep.reaches (k : Sweep M) (id : M) : Prop := id ∈ k.rest ∧ id ∉ k.live

/-- The task may come to close the match. -/
def Task.threatens (id : M) : Task U M → Prop
  | .settleFind i _ => i.matchId = id
  | .settleCommit r _ _ _ => r.id = id
  | .refundFind x k _ => x = id ∨ ∃ s, k = some s ∧ s.reaches id
  | .refundCommit r k _ => r.id = id ∨ ∃ s, k = some s ∧ s.reaches id
  | .recoverList live .pending => id ∉ live
  | .recoverList live (.answered rs) => id ∉ live ∧ id ∈ rs.map MatchRecord.id
  | .recoverNext k => k.reaches id
  | _ => False

/-- The match is on the list of a sweep. -/
def Task.sweeps (id : M) : Task U M → Prop
  | .refundFind _ k _ | .refundCommit _ k _ => ∃ s, k = some s ∧ id ∈ s.rest
  | .recoverList _ (.answered rs) => id ∈ rs.map MatchRecord.id
  | .recoverNext k => id ∈ k.rest
  | _ => False

/-- The task waits for the list of active matches. -/
def Task.lists : Task U M → Prop
  | .recoverList _ .pending => True
  | _ => False

/-- A threat is a claim on the match, a sweep that lists it, or a list to come. -/
theorem Task.threatens_cases (h : a.threatens id) : a.holds = some id ∨ a.sweeps id ∨ a.lists := by
  unfold Task.threatens at h
  split at h
  · exact Or.inl (congrArg some h)
  · exact Or.inl (congrArg some h)
  · rcases h with h | ⟨s, hs, hreach⟩
    · exact Or.inl (congrArg some h)
    · exact Or.inr (Or.inl ⟨s, hs, hreach.1⟩)
  · rcases h with h | ⟨s, hs, hreach⟩
    · exact Or.inl (congrArg some h)
    · exact Or.inr (Or.inl ⟨s, hs, hreach.1⟩)
  · exact Or.inr (Or.inr trivial)
  · exact Or.inr (Or.inl h.2)
  · exact Or.inr (Or.inl h.1)
  · exact h.elim

/-- What a sweep lists has a row. -/
def SweptOK (m : Money U M) : Prop :=
  ∀ t a id, m.tasks t = some a → a.sweeps id → (m.db.find id).isSome = true

/-- Every task has become at most as dangerous as it was. -/
def Calms (m m' : Money U M) : Prop :=
  ∀ t a', m'.tasks t = some a' → ∃ a, m.tasks t = some a ∧ (∀ id, a'.threatens id → a.threatens id) ∧
    (∀ id, a'.sweeps id → a.sweeps id ∨ (m.db.find id).isSome = true) ∧ (a'.lists → a.lists)

theorem Calms.refl (m : Money U M) : Calms m m := fun _ a h => ⟨a, h, fun _ => id, fun _ => Or.inl, id⟩

/-- One task has changed. -/
theorem Calms.of_set (hb : m.tasks t = some b) (hm : m'.tasks = Function.update m.tasks t (some a))
    (ht : ∀ id, a.threatens id → b.threatens id)
    (hs : ∀ id, a.sweeps id → b.sweeps id ∨ (m.db.find id).isSome = true) (hl : ¬ a.lists) : Calms m m' := by
  intro t₁ a₁ h1
  rw [hm] at h1
  by_cases heq : t₁ = t
  · subst heq
    rw [Function.update_self] at h1
    cases h1
    exact ⟨b, hb, ht, hs, fun h => absurd h hl⟩
  · rw [Function.update_of_ne heq] at h1
    exact ⟨a₁, h1, fun _ => id, fun _ => Or.inl, id⟩

/-- A task that has ended threatens nothing. -/
theorem Calms.of_done {o : CallResult U M} (hb : m.tasks t = some b)
    (hm : m'.tasks = Function.update m.tasks t (some (.done o))) : Calms m m' :=
  .of_set hb hm (fun _ h => h.elim) (fun _ h => h.elim) id

/-- A listed match is in the table. -/
theorem find_isSome_of_active {rs : List (MatchRecord U M)} (hrs : rs = m.db.listActive)
    (h : id ∈ rs.map MatchRecord.id) : (m.db.find id).isSome = true := by
  obtain ⟨r, hr, rfl⟩ := List.mem_map.1 h
  rw [hrs] at hr
  have hmem : r ∈ m.db.matches_ := (List.mem_filter.1 hr).1
  unfold Db.find
  rw [List.find?_isSome]
  exact ⟨r, hmem, decide_eq_true rfl⟩

/-- A statement threatens nothing new. -/
theorem onDb_calms (m : Money U M) (t : ℕ) (fate : Fate) : Calms m (m.onDb t fate) := by
  unfold Money.onDb
  split <;> rename_i hb
  · exact .of_set hb rfl (fun _ h => h.elim) (fun _ h => h.elim) id
  · exact .of_set hb rfl (fun _ h => h.elim) (fun _ h => h.elim) id
  · exact .of_set hb rfl (fun _ h => h.elim) (fun _ h => h.elim) id
  · exact .of_set hb rfl (fun _ h => h) (fun _ h => h.elim) id
  · exact .of_set hb rfl (fun _ h => h) (fun _ h => h.elim) id
  · exact .of_set hb rfl (fun _ h => h) (fun _ => Or.inl) id
  · exact .of_set hb rfl (fun _ h => h) (fun _ => Or.inl) id
  · rename_i live
    -- the list is read: what it holds has a row
    refine .of_set hb rfl (fun x h => ?_) (fun x h => ?_) (fun h => ?_)
    · cases ha : Money.read fate m.db.listActive with
      | answered rs => rw [ha] at h; exact h.1
      | pending => rw [ha] at h; exact h
      | threw => rw [ha] at h; exact h.elim
    · cases ha : Money.read fate m.db.listActive with
      | answered rs =>
        rw [ha] at h
        exact Or.inr (find_isSome_of_active (MoneyOK.read_answered ha) h)
      | pending => rw [ha] at h; exact h.elim
      | threw => rw [ha] at h; exact h.elim
    · cases fate <;> exact h
  · exact .refl m

theorem sweepLoop_calms (hb : m.tasks t = some b) (live refunded ids : List M)
    (ht : ∀ id, id ∈ ids → id ∉ live → b.threatens id) (hs : ∀ id, id ∈ ids → b.sweeps id) :
    Calms m (m.sweepLoop t live refunded ids) := by
  induction ids with
  | nil => exact .of_done hb rfl
  | cons x rest ih =>
    have ih' := ih (fun y hy => ht y (List.mem_cons_of_mem x hy)) fun y hy => hs y (List.mem_cons_of_mem x hy)
    have hrest : ∀ y, y ∈ rest → b.sweeps y := fun y hy => hs y (List.mem_cons_of_mem x hy)
    unfold Money.sweepLoop
    split
    · exact ih'
    · rename_i hx
      split
      · exact .of_set hb rfl (fun y h => ht y (List.mem_cons_of_mem x h.1) h.2) (fun y h => Or.inl (hrest y h)) id
      · refine .of_set hb rfl (fun y h => ?_) (fun y h => ?_) id
        · rcases h with h | ⟨s, hs', hreach⟩
          · rw [← h]
            exact ht x List.mem_cons_self hx
          · cases hs'
            exact ht y (List.mem_cons_of_mem x hreach.1) hreach.2
        · obtain ⟨s, hs', hy⟩ := h
          cases hs'
          exact Or.inl (hrest y hy)

theorem refundEnds_calms (hb : m.tasks t = some b) (sweep : Option (Sweep M)) (threw : Bool)
    (ht : ∀ s id, sweep = some s → s.reaches id → b.threatens id)
    (hs : ∀ s id, sweep = some s → id ∈ s.rest → b.sweeps id) : Calms m (m.refundEnds t id sweep threw) := by
  unfold Money.refundEnds
  split
  · exact .of_done hb rfl
  · exact .of_done hb rfl
  · exact .of_done hb rfl
  · exact .of_set hb rfl (fun y h => ht _ y rfl h) (fun y h => Or.inl (hs _ y rfl h)) fun h => h

theorem precheck_calms (hb : m.tasks t = some b) (ins : List U) (rest : List (MatchPlayer U)) :
    Calms m (m.precheck t i ins rest) := by
  unfold Money.precheck
  split
  · exact .of_set hb rfl (fun _ h => h.elim) (fun _ h => h.elim) id
  · split
    · exact .of_done hb rfl
    · exact .of_set hb rfl (fun _ h => h.elim) (fun _ h => h.elim) id

/-- An answer threatens nothing new. -/
theorem onResume_calms (hok : MoneyOK m) (t : ℕ) : Calms m (m.onResume t) := by
  unfold Money.onResume
  split <;> rename_i hb
  · rename_i i x
    unfold Money.escrowFound
    split
    · exact .of_done hb rfl
    · split
      · exact precheck_calms hb _ _
      · exact .of_set hb rfl (fun _ h => h.elim) (fun _ h => h.elim) id
  · exact .of_done hb rfl
  · exact precheck_calms hb _ _
  · exact .of_done hb rfl
  · unfold Money.escrowCommitted
    split <;> exact .of_done hb rfl
  · exact .of_done hb rfl
  -- the row found is the one asked for, so the settlement threatens its own match only
  · rename_i i x
    unfold Money.settleFound
    split
    · exact .of_done hb rfl
    · rename_i r
      have hid : r.id = i.matchId := Db.find_id (hok.knows t _ hb)
      split
      · exact .of_done hb rfl
      · simp only
        split
        · exact .of_done hb rfl
        · split
          · exact .of_done hb rfl
          · exact .of_set hb rfl (fun y h => hid.symm.trans h) (fun _ h => h.elim) id
  · exact .of_done hb rfl
  · exact .of_done hb rfl
  · exact .of_done hb rfl
  · exact .of_done hb rfl
  · rename_i id k x
    -- a refund inside a sweep still threatens what the sweep has left to do
    have hk : ∀ s y, k = some s → s.reaches y → Task.threatens y (.refundFind id k (.answered x) : Task U M) :=
      fun s y hs hy => Or.inr ⟨s, hs, hy⟩
    have hk' : ∀ s y, k = some s → y ∈ s.rest → Task.sweeps y (.refundFind id k (.answered x) : Task U M) :=
      fun s y hs hy => ⟨s, hs, hy⟩
    unfold Money.refundFound
    split
    · exact refundEnds_calms hb k false hk hk'
    · rename_i r
      have hid : r.id = id := Db.find_id (hok.knows t _ hb)
      split
      · exact refundEnds_calms hb k false hk hk'
      · refine .of_set hb rfl (fun y h => ?_) (fun y h => Or.inl h) fun h => h
        rcases h with h | h
        · exact Or.inl (hid.symm.trans h)
        · exact Or.inr h
  · exact refundEnds_calms hb _ true (fun s y hs hy => Or.inr ⟨s, hs, hy⟩) fun s y hs hy => ⟨s, hs, hy⟩
  · exact refundEnds_calms hb _ false (fun s y hs hy => Or.inr ⟨s, hs, hy⟩) fun s y hs hy => ⟨s, hs, hy⟩
  · exact refundEnds_calms hb _ true (fun s y hs hy => Or.inr ⟨s, hs, hy⟩) fun s y hs hy => ⟨s, hs, hy⟩
  · exact refundEnds_calms hb _ true (fun s y hs hy => Or.inr ⟨s, hs, hy⟩) fun s y hs hy => ⟨s, hs, hy⟩
  · exact sweepLoop_calms hb _ _ _ (fun y hy hl => ⟨hl, hy⟩) fun y hy => hy
  · exact .of_done hb rfl
  · exact sweepLoop_calms hb _ _ _ (fun y hy hl => ⟨hy, hl⟩) fun y hy => hy
  · exact .refl m

/-! ## What a task does to the rows -/

/-- An answer writes nothing. -/
theorem onResume_db (m : Money U M) (t : ℕ) : (m.onResume t).db = m.db := by
  -- resuming decides what to ask next; only answers write
  have hprecheck : ∀ i ins (rest : List (MatchPlayer U)), (m.precheck t i ins rest).db = m.db := by
    intro i ins rest
    unfold Money.precheck
    split
    · rfl
    · split <;> rfl
  have hends : ∀ id k threw, (m.refundEnds t id k threw).db = m.db := by
    intro id k threw
    unfold Money.refundEnds
    split <;> rfl
  have hloop : ∀ live refunded ids, (m.sweepLoop t live refunded ids).db = m.db := by
    intro live refunded ids
    induction ids with
    | nil => rfl
    | cons x rest ih =>
      unfold Money.sweepLoop
      split
      · exact ih
      · split <;> rfl
  unfold Money.onResume
  split
  · unfold Money.escrowFound
    split
    · rfl
    · split
      · exact hprecheck ..
      · rfl
  · rfl
  · exact hprecheck ..
  · rfl
  · unfold Money.escrowCommitted
    split <;> rfl
  · rfl
  · unfold Money.settleFound
    split
    · rfl
    · split
      · rfl
      · simp only
        split
        · rfl
        · split <;> rfl
  · rfl
  · rfl
  · rfl
  · rfl
  · unfold Money.refundFound
    split
    · exact hends ..
    · split
      · exact hends ..
      · rfl
  · exact hends ..
  · exact hends ..
  · exact hends ..
  · exact hends ..
  · exact hloop ..
  · rfl
  · exact hloop ..
  · rfl

/-- The escrow at work on the row of `id`: its transaction is about to run. -/
def Commits (m : Money U M) (t : ℕ) (id : M) : Prop :=
  ∃ i, m.tasks t = some (.escrowCommit i .pending) ∧ i.matchId = id

/-- A request changes the row of a match only for a task that commits or threatens it,
and takes no row away. -/
theorem onDb_find_cases (hok : MoneyOK m) (t : ℕ) (fate : Fate) (id : M) :
    (m.onDb t fate).db.find id = m.db.find id ∨
      ((m.onDb t fate).db.find id).isSome = true ∧
        ∃ a, m.tasks t = some a ∧ a.holds = some id ∧ (Commits m t id ∨ a.threatens id) := by
  unfold Money.onDb
  split <;> rename_i hb
  · exact Or.inl rfl
  · exact Or.inl rfl
  · rename_i i
    show (Money.commit m.db fate (escrowTx i)).1.find id = _ ∨ _
    obtain ⟨-, h | ⟨db', htx, h⟩⟩ := MoneyOK.commit_cases m.db fate (escrowTx i)
    · rw [h]; exact Or.inl rfl
    · have hfind := (escrowTx_books (hok.knows t _ hb) htx).find id
      by_cases hid : id = i.matchId
      · rw [if_pos hid] at hfind
        refine Or.inr ⟨?_, _, hb, congrArg some hid.symm, Or.inl ⟨i, hb, hid.symm⟩⟩
        show ((Money.commit m.db fate (escrowTx i)).1.find id).isSome = true
        rw [h, hfind]
        rfl
      · rw [h, hfind, if_neg hid]; exact Or.inl rfl
  · exact Or.inl rfl
  · rename_i r s ws
    obtain ⟨hfind, hact, hw⟩ := hok.knows t _ hb
    show (Money.commit m.db fate (settleTx r s ws)).1.find id = _ ∨ _
    obtain ⟨-, h | ⟨db', htx, h⟩⟩ := MoneyOK.commit_cases m.db fate (settleTx r s ws)
    · rw [h]; exact Or.inl rfl
    · have hrow := (settleTx_books hfind hact (fresh_of_active hok.refs (hok.books r.id) hfind hact)
        (by rw [splitPot_seats hw.split]; exact hw.nodup) htx).find id
      by_cases hid : id = r.id
      · rw [if_pos hid] at hrow
        refine Or.inr ⟨?_, _, hb, congrArg some hid.symm, Or.inr hid.symm⟩
        show ((Money.commit m.db fate (settleTx r s ws)).1.find id).isSome = true
        rw [h, hrow]
        rfl
      · rw [h, hrow, if_neg hid]; exact Or.inl rfl
  · exact Or.inl rfl
  · rename_i r k
    obtain ⟨hfind, hact⟩ := hok.knows t _ hb
    show (Money.commit m.db fate (refundTx r)).1.find id = _ ∨ _
    obtain ⟨-, h | ⟨db', htx, h⟩⟩ := MoneyOK.commit_cases m.db fate (refundTx r)
    · rw [h]; exact Or.inl rfl
    · have hrow := (refundTx_books hfind hact (fresh_of_active hok.refs (hok.books r.id) hfind hact)
        ((hok.books r.id).of_active hfind hact).1.seats_nodup htx).find id
      by_cases hid : id = r.id
      · rw [if_pos hid] at hrow
        refine Or.inr ⟨?_, _, hb, congrArg some hid.symm, Or.inr (Or.inl hid.symm)⟩
        show ((Money.commit m.db fate (refundTx r)).1.find id).isSome = true
        rw [h, hrow]
        rfl
      · rw [h, hrow, if_neg hid]; exact Or.inl rfl
  · exact Or.inl rfl
  · exact Or.inl rfl

theorem onDb_find (hok : MoneyOK m) (t : ℕ) (fate : Fate) (ht : ∀ a, m.tasks t = some a → ¬ a.threatens id)
    (hc : ¬ Commits m t id) : (m.onDb t fate).db.find id = m.db.find id := by
  rcases onDb_find_cases hok t fate id with h | ⟨-, a, ha, -, h | h⟩
  · exact h
  · exact absurd h hc
  · exact absurd h (ht a ha)

theorem onDb_isSome (hok : MoneyOK m) (t : ℕ) (fate : Fate) (h : (m.db.find id).isSome = true) :
    ((m.onDb t fate).db.find id).isSome = true := by
  rcases onDb_find_cases hok t fate id with h' | ⟨h', -⟩
  · rw [h']; exact h
  · exact h'

/-- A sweep claims only what is on its list. -/
theorem onResume_inFlight (m : Money U M) (t : ℕ) (h : (m.onResume t).inFlight id = true) :
    m.inFlight id = true ∨ ∃ a, m.tasks t = some a ∧ a.sweeps id := by
  -- what ends an operation only ever releases a match
  have hrelease : ∀ x, (m.release x).inFlight id = true → m.inFlight id = true := by
    intro x h
    by_cases hx : id = x
    · rw [hx] at h
      have hoff : (m.release x).inFlight x = false := Function.update_self ..
      rw [hoff] at h
      cases h
    · have hsame : (m.release x).inFlight id = m.inFlight id := Function.update_of_ne hx ..
      exact hsame ▸ h
  have hprecheck : ∀ i ins (rest : List (MatchPlayer U)),
      (m.precheck t i ins rest).inFlight id = true → m.inFlight id = true := by
    intro i ins rest h
    unfold Money.precheck at h
    split at h
    · exact h
    · split at h
      · exact hrelease _ h
      · exact h
  have hends : ∀ x k threw, (m.refundEnds t x k threw).inFlight id = true → m.inFlight id = true := by
    intro x k threw h
    unfold Money.refundEnds at h
    split at h <;> exact hrelease _ h
  -- the sweep claims ids of its own list and of no other
  have hloop : ∀ live refunded ids, (m.sweepLoop t live refunded ids).inFlight id = true →
      m.inFlight id = true ∨ id ∈ ids := by
    intro live refunded ids
    induction ids with
    | nil => exact Or.inl
    | cons x rest ih =>
      intro h
      unfold Money.sweepLoop at h
      split at h
      · exact (ih h).imp_right (List.mem_cons_of_mem x)
      · split at h
        · exact Or.inl h
        · by_cases hx : id = x
          · exact Or.inr (hx ▸ List.mem_cons_self)
          · have hsame : (m.claim x).inFlight id = m.inFlight id := Function.update_of_ne hx ..
            exact Or.inl (hsame ▸ h)
  -- in the order of the tasks
  unfold Money.onResume at h
  split at h <;> rename_i hb
  · unfold Money.escrowFound at h
    split at h
    · exact Or.inl (hrelease _ h)
    · split at h
      · exact Or.inl (hprecheck _ _ _ h)
      · exact Or.inl h
  · exact Or.inl (hrelease _ h)
  · exact Or.inl (hprecheck _ _ _ h)
  · exact Or.inl (hrelease _ h)
  · unfold Money.escrowCommitted at h
    split at h <;> exact Or.inl (hrelease _ h)
  · exact Or.inl (hrelease _ h)
  · unfold Money.settleFound at h
    split at h
    · exact Or.inl (hrelease _ h)
    · split at h
      · exact Or.inl (hrelease _ h)
      · simp only at h
        split at h
        · exact Or.inl (hrelease _ h)
        · split at h
          · exact Or.inl (hrelease _ h)
          · exact Or.inl h
  · exact Or.inl (hrelease _ h)
  · exact Or.inl (hrelease _ h)
  · exact Or.inl (hrelease _ h)
  · exact Or.inl (hrelease _ h)
  · unfold Money.refundFound at h
    split at h
    · exact Or.inl (hends _ _ _ h)
    · split at h
      · exact Or.inl (hends _ _ _ h)
      · exact Or.inl h
  · exact Or.inl (hends _ _ _ h)
  · exact Or.inl (hends _ _ _ h)
  · exact Or.inl (hends _ _ _ h)
  · exact Or.inl (hends _ _ _ h)
  · exact (hloop _ _ _ h).imp_right fun hx => ⟨_, hb, hx⟩
  · exact Or.inl h
  · exact (hloop _ _ _ h).imp_right fun hx => ⟨_, hb, hx⟩
  · exact Or.inl h

theorem onDb_inFlight (m : Money U M) (t : ℕ) (fate : Fate) : (m.onDb t fate).inFlight = m.inFlight := by
  unfold Money.onDb
  split <;> rfl

/-! ## Held pots -/

/-- **The pot of a match is held**: its row is active and no task may come to close it. -/
structure Secure (m : Money U M) (r : MatchRecord U M) : Prop where
  row : m.db.find r.id = some r
  active : r.status = .active
  calm : ∀ t a, m.tasks t = some a → ¬ a.threatens r.id

/-- A match that no call has been made for. -/
structure Unused (m : Money U M) (id : M) : Prop where
  free : m.inFlight id = false
  absent : m.db.find id = none

/-- A statement keeps a match secure. -/
theorem Secure.onDb (h : Secure m r) (hok : MoneyOK m) (t : ℕ) (fate : Fate) : Secure (m.onDb t fate) r := by
  refine ⟨?_, h.active, fun t₁ a₁ h1 hth => ?_⟩
  · rw [onDb_find hok t fate (h.calm t), h.row]
    rintro ⟨i, hb, hid⟩
    have hnone : m.db.find i.matchId = none := hok.knows t _ hb
    rw [hid, h.row] at hnone
    cases hnone
  · obtain ⟨a, ha, hle, -⟩ := onDb_calms m t fate t₁ a₁ h1
    exact h.calm t₁ a ha (hle _ hth)

theorem Secure.onResume (h : Secure m r) (hok : MoneyOK m) (t : ℕ) : Secure (m.onResume t) r := by
  refine ⟨by rw [onResume_db]; exact h.row, h.active, fun t₁ a₁ h1 hth => ?_⟩
  obtain ⟨a, ha, hle, -⟩ := onResume_calms hok t t₁ a₁ h1
  exact h.calm t₁ a ha (hle _ hth)

/-- Nothing but the rows and the tasks matters. -/
theorem Secure.congr (h : Secure m r) (hf : m'.db.find r.id = m.db.find r.id) (ht : m'.tasks = m.tasks) :
    Secure m' r := ⟨hf.trans h.row, h.active, fun t a ha => h.calm t a (ht ▸ ha)⟩

theorem Unused.onDb (h : Unused m id) (hok : MoneyOK m) (t : ℕ) (fate : Fate) : Unused (m.onDb t fate) id := by
  refine ⟨by rw [onDb_inFlight]; exact h.free, ?_⟩
  rcases onDb_find_cases hok t fate id with hf | ⟨-, a, ha, hh, -⟩
  · rw [hf]; exact h.absent
  · have hin := hok.claimed t a id ha hh
    rw [h.free] at hin
    cases hin

/-- An answer uses no new id. -/
theorem Unused.onResume (h : Unused m id) (hs : SweptOK m) (t : ℕ) : Unused (m.onResume t) id := by
  refine ⟨?_, by rw [onResume_db]; exact h.absent⟩
  by_contra hin
  rcases onResume_inFlight m t (Bool.eq_true_of_not_eq_false hin) with hin | ⟨a, ha, hsw⟩
  · rw [h.free] at hin
    cases hin
  · have hrow := hs t a id ha hsw
    rw [h.absent] at hrow
    cases hrow

theorem Unused.congr (h : Unused m id) (hf : m'.db.find id = m.db.find id) (hi : m'.inFlight id = m.inFlight id) :
    Unused m' id := ⟨hi.trans h.free, hf.trans h.absent⟩

theorem SweptOK.onDb (h : SweptOK m) (hok : MoneyOK m) (t : ℕ) (fate : Fate) : SweptOK (m.onDb t fate) := by
  intro t₁ a₁ x h1 hsw
  obtain ⟨a, ha, -, hsw', -⟩ := onDb_calms m t fate t₁ a₁ h1
  refine onDb_isSome hok t fate ?_
  rcases hsw' x hsw with hsw' | hrow
  · exact h t₁ a x ha hsw'
  · exact hrow

theorem SweptOK.onResume (h : SweptOK m) (hok : MoneyOK m) (t : ℕ) : SweptOK (m.onResume t) := by
  intro t₁ a₁ x h1 hsw
  obtain ⟨a, ha, -, hsw', -⟩ := onResume_calms hok t t₁ a₁ h1
  rw [onResume_db]
  rcases hsw' x hsw with hsw' | hrow
  · exact h t₁ a x ha hsw'
  · exact hrow

theorem SweptOK.congr (h : SweptOK m) (hf : ∀ id, m'.db.find id = m.db.find id) (ht : m'.tasks = m.tasks) :
    SweptOK m' := by
  intro t a x ha hsw
  rw [hf]
  exact h t a x (ht ▸ ha) hsw

/-! ## A new call -/

/-- A new task, with its claim or without. -/
structure Spawns (m : Money U M) (a : Task U M) (m' : Money U M) : Prop where
  db : m'.db = m.db
  tasks : m'.tasks = Function.update m.tasks m.nextTask (some a)
  inFlight : ∀ x, m'.inFlight x = true → m.inFlight x = true ∨ a.holds = some x

theorem spawns_spawn (m : Money U M) (a : Task U M) : Spawns m a (m.spawn a) := ⟨rfl, rfl, fun _ => Or.inl⟩

theorem spawns_claim (m : Money U M) (h : a.holds = some id) : Spawns m a ((m.claim id).spawn a) := by
  refine ⟨rfl, rfl, fun x hx => ?_⟩
  by_cases hxi : x = id
  · exact Or.inr (hxi ▸ h)
  · have hsame : (m.claim id).inFlight x = m.inFlight x := Function.update_of_ne hxi ..
    exact Or.inl (hsame ▸ hx)

/-- An escrow enters and threatens nothing. -/
theorem escrow_spawns (m : Money U M) (i : SeatedEscrow U M) :
    ∃ a, Spawns m a (m.escrow i) ∧ (∀ id, ¬ a.threatens id) ∧ (∀ id, ¬ a.sweeps id) ∧
      (∀ x, a.holds = some x → x = i.matchId) ∧
      (m.inFlight i.matchId = false → a = .escrowFind i .pending) := by
  unfold Money.escrow
  split
  · rename_i hfly
    refine ⟨_, spawns_spawn m _, fun _ h => h.elim, fun _ h => h.elim, fun x h => (by cases h), fun hfree => ?_⟩
    rw [hfly] at hfree
    cases hfree
  · exact ⟨_, spawns_claim m rfl, fun _ h => h.elim, fun _ h => h.elim, fun x h => (by cases h; rfl), fun _ => rfl⟩

theorem settle_spawns (m : Money U M) (i : SeatedSettle M) :
    ∃ a, Spawns m a (m.settle i) ∧ (∀ id, a.threatens id → id = i.matchId) ∧ (∀ id, ¬ a.sweeps id) ∧
      ∀ x, a.holds = some x → x = i.matchId := by
  unfold Money.settle
  split
  · exact ⟨_, spawns_spawn m _, fun _ h => h.elim, fun _ h => h.elim, fun x h => by cases h⟩
  · exact ⟨_, spawns_claim m rfl, fun _ h => h.symm, fun _ h => h.elim, fun x h => by cases h; rfl⟩

/-- A refund enters and threatens its own match. -/
theorem refund_spawns (m : Money U M) (id : M) :
    ∃ a, Spawns m a (m.refund id) ∧ (∀ x, a.threatens x → x = id) ∧ (∀ x, ¬ a.sweeps x) ∧
      ∀ x, a.holds = some x → x = id := by
  unfold Money.refund
  split
  · exact ⟨_, spawns_spawn m _, fun _ h => h.elim, fun _ h => h.elim, fun x h => by cases h⟩
  · refine ⟨_, spawns_claim m rfl, fun x h => ?_, fun x h => ?_, fun x h => by cases h; rfl⟩
    · rcases h with h | ⟨s, hs, -⟩
      · exact h.symm
      · cases hs
    · obtain ⟨s, hs, -⟩ := h
      cases hs

theorem recover_spawns (m : Money U M) (live : List M) :
    Spawns m (.recoverList live .pending) (m.recoverOrphanedMatches live) := spawns_spawn m _

theorem Spawns.tasks_old (h : Spawns m a m') (hok : MoneyOK m) (hb : m.tasks t = some b) :
    m'.tasks t = some b := by
  have hlt := hok.bound t b hb
  rw [h.tasks, Function.update_of_ne (by omega)]
  exact hb

theorem Spawns.tasks_new (h : Spawns m a m') : m'.tasks m.nextTask = some a := by
  rw [h.tasks]
  exact Function.update_self ..

theorem Spawns.task_cases (h : Spawns m a m') (hb : m'.tasks t = some b) : b = a ∨ m.tasks t = some b := by
  rw [h.tasks] at hb
  by_cases ht : t = m.nextTask
  · rw [ht, Function.update_self] at hb
    exact Or.inl (Option.some.inj hb).symm
  · rw [Function.update_of_ne ht] at hb
    exact Or.inr hb

theorem Secure.spawns (h : Secure m r) (hsp : Spawns m a m') (ha : ¬ a.threatens r.id) : Secure m' r := by
  refine ⟨by rw [hsp.db]; exact h.row, h.active, fun t₁ a₁ h1 => ?_⟩
  rcases hsp.task_cases h1 with rfl | h1
  · exact ha
  · exact h.calm t₁ a₁ h1

theorem Unused.spawns (h : Unused m id) (hsp : Spawns m a m') (ha : a.holds ≠ some id) : Unused m' id := by
  refine ⟨?_, by rw [hsp.db]; exact h.absent⟩
  by_contra hin
  rcases hsp.inFlight id (Bool.eq_true_of_not_eq_false hin) with hin | hin
  · rw [h.free] at hin
    cases hin
  · exact ha hin

theorem SweptOK.spawns (h : SweptOK m) (hsp : Spawns m a m') (ha : ∀ id, ¬ a.sweeps id) : SweptOK m' := by
  intro t₁ a₁ x h1 hsw
  rw [hsp.db]
  rcases hsp.task_cases h1 with rfl | h1
  · exact absurd hsw (ha x)
  · exact h t₁ a₁ x h1 hsw

/-! ## An escrow on its way -/

/-- The task has the escrow of `i` still to commit. -/
def Task.escrows (i : SeatedEscrow U M) : Task U M → Prop
  | .escrowFind _ (.answered (some _)) => False
  | .escrowFind j _ | .escrowBalance j _ _ _ _ | .escrowCommit j .pending => j = i
  | _ => False

/-- The task escrows nothing any more. -/
def Task.refuses : Task U M → Prop
  | .escrowCommit _ (.answered (some _)) | .escrowCommit _ .threw | .done .threw => True
  | .done (.escrow r) => r.ok = false
  | _ => False

/-- The task reports, or will report, that the escrow has committed. -/
def Task.grants (i : SeatedEscrow U M) : Task U M → Prop
  | .escrowCommit j (.answered none) => j = i
  | .done (.escrow r) => r.ok = true
  | _ => False

/-- **How far an escrow has come**: its row is still to come, or the pot is held, or
the call has failed. -/
inductive Escrowing (m : Money U M) (t : ℕ) (i : SeatedEscrow U M) : Prop where
  | coming (a : Task U M) (ht : m.tasks t = some a) (ha : a.escrows i) (hrow : m.db.find i.matchId = none)
  | held (a : Task U M) (ht : m.tasks t = some a) (ha : a.grants i) (hrow : Secure m i.record)
  | refused (a : Task U M) (ht : m.tasks t = some a) (ha : a.refuses)

/-- An escrow holds its match. -/
theorem Task.escrows_holds (h : a.escrows i) : a.holds = some i.matchId := by
  unfold Task.escrows at h
  split at h
  · exact h.elim
  · exact h ▸ rfl
  · exact h ▸ rfl
  · exact h ▸ rfl
  · exact h.elim

theorem Escrowing.spawns (h : Escrowing m t i) (hok : MoneyOK m) (hsp : Spawns m a m')
    (ha : ¬ a.threatens i.matchId) : Escrowing m' t i := by
  cases h with
  | coming b ht hb hrow => exact .coming b (hsp.tasks_old hok ht) hb (by rw [hsp.db]; exact hrow)
  | held b ht hb hrow => exact .held b (hsp.tasks_old hok ht) hb (hrow.spawns hsp ha)
  | refused b ht hb => exact .refused b (hsp.tasks_old hok ht) hb

theorem Escrowing.congr (h : Escrowing m t i) (hf : m'.db.find i.matchId = m.db.find i.matchId)
    (htasks : m'.tasks = m.tasks) : Escrowing m' t i := by
  cases h with
  | coming b ht hb hrow => exact .coming b (htasks ▸ ht) hb (hf.trans hrow)
  | held b ht hb hrow => exact .held b (htasks ▸ ht) hb (hrow.congr hf htasks)
  | refused b ht hb => exact .refused b (htasks ▸ ht) hb

/-- The escrow begins. -/
theorem escrow_escrowing (hu : Unused m i.matchId) : Escrowing (m.escrow i) m.nextTask i := by
  obtain ⟨a, hsp, -, -, -, ha⟩ := escrow_spawns m i
  have ha' := ha hu.free
  subst ha'
  exact .coming _ hsp.tasks_new rfl (by rw [hsp.db]; exact hu.absent)

theorem onDb_tasks_of_ne (m : Money U M) (fate : Fate) (h : t ≠ t') : (m.onDb t' fate).tasks t = m.tasks t := by
  unfold Money.onDb
  split <;> first | exact Function.update_of_ne h .. | rfl

/-- An answer changes one call. -/
theorem onResume_tasks_of_ne (m : Money U M) (h : t ≠ t') : (m.onResume t').tasks t = m.tasks t := by
  -- every branch sets the task it was resumed for
  have hset : ∀ a : Task U M, (m.set t' a).tasks t = m.tasks t := fun a => Function.update_of_ne h ..
  have hprecheck : ∀ i ins (rest : List (MatchPlayer U)), (m.precheck t' i ins rest).tasks t = m.tasks t := by
    intro i ins rest
    unfold Money.precheck
    split
    · exact hset _
    · split <;> exact hset _
  have hends : ∀ id k threw, (m.refundEnds t' id k threw).tasks t = m.tasks t := by
    intro id k threw
    unfold Money.refundEnds
    split <;> exact hset _
  -- the sweep's loop skips rows that are live, so it goes by induction on the rest
  have hloop : ∀ live refunded ids, (m.sweepLoop t' live refunded ids).tasks t = m.tasks t := by
    intro live refunded ids
    induction ids with
    | nil => exact hset _
    | cons x rest ih =>
      unfold Money.sweepLoop
      split
      · exact ih
      · split <;> exact hset _
  unfold Money.onResume
  split
  · unfold Money.escrowFound
    split
    · exact hset _
    · split
      · exact hprecheck ..
      · exact hset _
  · exact hset _
  · exact hprecheck ..
  · exact hset _
  · unfold Money.escrowCommitted
    split <;> exact hset _
  · exact hset _
  · unfold Money.settleFound
    split
    · exact hset _
    · split
      · exact hset _
      · simp only
        split
        · exact hset _
        · split <;> exact hset _
  · exact hset _
  · exact hset _
  · exact hset _
  · exact hset _
  · unfold Money.refundFound
    split
    · exact hends ..
    · split
      · exact hends ..
      · exact hset _
  · exact hends ..
  · exact hends ..
  · exact hends ..
  · exact hends ..
  · exact hloop ..
  · exact hset _
  · exact hloop ..
  · rfl

/-- **The commit of an escrow.** If no list of active matches is being read, nothing
threatens the new row: nobody else had a claim on it, and no sweep knew of it. -/
theorem commit_secures (hok : MoneyOK m) (hs : SweptOK m) (hb : m.tasks t = some (.escrowCommit i .pending))
    (fate : Fate) (hlists : fate = .answered → ∀ t' a, m.tasks t' = some a → ¬ a.lists) :
    Escrowing (m.onDb t fate) t i := by
  have hnone : m.db.find i.matchId = none := hok.knows t _ hb
  set c := Money.commit m.db fate (escrowTx i) with hc
  have hdb : m.onDb t fate = (m.setDb c.1).set t (.escrowCommit i c.2) := by
    unfold Money.onDb
    rw [hb]
  have htask : (m.onDb t fate).tasks t = some (.escrowCommit i c.2) := by
    rw [hdb]
    exact Money.set_tasks ..
  -- a threat would be a claim, a sweep's entry or a list to come
  have hcalm : fate = .answered → ∀ t' a, m.tasks t' = some a → ¬ a.threatens i.matchId := by
    intro hfate t' a ha hth
    rcases Task.threatens_cases hth with hh | hh | hh
    · have ht : t' = t := hok.excl t' t a _ i.matchId ha hb hh rfl
      rw [ht, hb] at ha
      cases ha
      exact hth
    · have hrow := hs t' a _ ha hh
      rw [hnone] at hrow
      cases hrow
    · exact hlists hfate t' a ha hh
  have hcalm' : fate = .answered → ∀ t' a, (m.onDb t fate).tasks t' = some a → ¬ a.threatens i.matchId := by
    intro hfate t' a' ha' hth
    obtain ⟨a, ha, hle, -⟩ := onDb_calms m t fate t' a' ha'
    exact hcalm hfate t' a ha (hle _ hth)
  unfold Money.commit at hc
  cases htx : escrowTx i m.db with
  | error e =>
    cases fate with
    | failed => rw [htx] at hc; exact .refused _ htask (by rw [hc]; trivial)
    | answered => rw [htx] at hc; exact .refused _ htask (by rw [hc]; trivial)
    | lost => rw [htx] at hc; exact .refused _ htask (by rw [hc]; trivial)
  | ok db' =>
    cases fate with
    | failed => rw [htx] at hc; exact .refused _ htask (by rw [hc]; trivial)
    | lost => rw [htx] at hc; exact .refused _ htask (by rw [hc]; trivial)
    | answered =>
      rw [htx] at hc
      refine .held _ htask (by rw [hc]; rfl) ⟨?_, rfl, hcalm' rfl⟩
      have hrow := (escrowTx_books hnone htx).find i.matchId
      rw [if_pos rfl] at hrow
      rw [hdb, hc]
      exact hrow

/-- An escrow goes on while the database answers. -/
theorem Escrowing.onDb (h : Escrowing m t i) (hok : MoneyOK m) (hs : SweptOK m) (t' : ℕ) (fate : Fate)
    (hguard : fate = .answered → Commits m t' i.matchId → ∀ t'' a, m.tasks t'' = some a → ¬ a.lists) :
    Escrowing (m.onDb t' fate) t i := by
  by_cases htt : t = t'
  · subst htt
    cases h with
    | coming a ht ha hrow =>
      by_cases hc : m.tasks t = some (.escrowCommit i .pending)
      · exact commit_secures hok hs hc fate fun hfate => hguard hfate ⟨i, hc, rfl⟩
      · -- a read: the row is still to come
        have hnc : ¬ Commits m t i.matchId := by
          rintro ⟨j, hj, -⟩
          rw [ht] at hj
          cases hj
          exact hc (by rw [ht]; exact congrArg (fun j => some (Task.escrowCommit j .pending)) ha)
        have hrow' : (m.onDb t fate).db.find i.matchId = none := by
          rw [onDb_find hok t fate _ hnc]
          · exact hrow
          · intro b hb hth
            rw [ht] at hb
            cases hb
            unfold Task.escrows at ha
            unfold Task.threatens at hth
            split at ha <;> first | exact ha | exact hth
        unfold Money.onDb at hrow' ⊢
        cases a with
        | escrowFind j aw =>
          cases aw with
          | pending =>
            rw [ht] at hrow' ⊢
            refine .coming _ (Money.set_tasks ..) ?_ hrow'
            have hj : j = i := ha
            have hf : m.db.find j.matchId = none := hj ▸ hrow
            rw [hf]
            cases fate <;> exact hj
          | answered x => rw [ht]; exact .coming _ ht ha hrow
          | threw => rw [ht]; exact .coming _ ht ha hrow
        | escrowBalance j p rest ins aw =>
          cases aw with
          | pending => rw [ht] at hrow' ⊢; exact .coming _ (Money.set_tasks ..) ha hrow'
          | answered x => rw [ht]; exact .coming _ ht ha hrow
          | threw => rw [ht]; exact .coming _ ht ha hrow
        | escrowCommit j aw =>
          cases aw with
          | pending => exact absurd (ht.trans (congrArg (fun j => some (Task.escrowCommit j .pending)) ha)) hc
          | answered x => exact ha.elim
          | threw => exact ha.elim
        | _ => exact ha.elim
    | held a ht ha hrow =>
      have hsame : m.onDb t fate = m := by
        unfold Money.onDb
        unfold Task.grants at ha
        split at ha
        · rw [ht]
        · rw [ht]
        · exact ha.elim
      rw [hsame]
      exact .held a ht ha hrow
    | refused a ht ha =>
      have hsame : m.onDb t fate = m := by
        unfold Money.onDb
        unfold Task.refuses at ha
        split at ha
        · rw [ht]
        · rw [ht]
        · rw [ht]
        · rw [ht]
        · exact ha.elim
      rw [hsame]
      exact .refused a ht ha
  · have htask := onDb_tasks_of_ne m fate htt
    cases h with
    | coming a ht ha hrow =>
      refine .coming a (htask.trans ht) ha ?_
      -- only the task itself has a claim on the match
      rcases onDb_find_cases hok t' fate i.matchId with hf | ⟨-, b, hb, hh, -⟩
      · rw [hf]; exact hrow
      · exact absurd (hok.excl t t' a b _ ht hb (Task.escrows_holds ha) hh) htt
    | held a ht ha hrow => exact .held a (htask.trans ht) ha (hrow.onDb hok t' fate)
    | refused a ht ha => exact .refused a (htask.trans ht) ha

/-- A precheck goes on escrowing. -/
theorem precheck_escrowing (hrow : m.db.find i.matchId = none) (ins : List U) (rest : List (MatchPlayer U)) :
    Escrowing (m.precheck t i ins rest) t i := by
  unfold Money.precheck
  split
  · exact .coming _ (Money.set_tasks ..) rfl hrow
  · split
    · exact .refused _ (Money.finish_tasks ..) rfl
    · exact .coming _ (Money.set_tasks ..) rfl hrow

/-- An escrow goes on when tasks resume. -/
theorem Escrowing.onResume (h : Escrowing m t i) (hok : MoneyOK m) (t' : ℕ) : Escrowing (m.onResume t') t i := by
  by_cases htt : t = t'
  · subst htt
    -- the escrow's own turn, stage by stage
    cases h with
    | coming a ht ha hrow =>
      unfold Money.onResume
      cases a with
      | escrowFind j aw =>
        cases aw with
        | pending => rw [ht]; exact .coming _ ht ha hrow
        | threw => rw [ht]; exact .refused _ (Money.finish_tasks ..) trivial
        | answered x =>
          cases x with
          | some x => exact ha.elim
          | none =>
            have hj : j = i := ha
            subst hj
            rw [ht]
            simp only [Money.escrowFound]
            split
            · exact precheck_escrowing hrow _ _
            · exact .coming _ (Money.set_tasks ..) rfl hrow
      | escrowBalance j p rest ins aw =>
        have hj : j = i := ha
        subst hj
        cases aw with
        | pending => rw [ht]; exact .coming _ ht ha hrow
        | threw => rw [ht]; exact .refused _ (Money.finish_tasks ..) trivial
        | answered x => rw [ht]; exact precheck_escrowing hrow _ _
      | escrowCommit j aw =>
        cases aw with
        | pending => rw [ht]; exact .coming _ ht ha hrow
        | answered x => exact ha.elim
        | threw => exact ha.elim
      | _ => exact ha.elim
    | held a ht ha hrow =>
      have hrow' := hrow.onResume hok t
      unfold Task.grants at ha
      split at ha
      · rename_i j
        subst ha
        -- the commit has been answered: the stakes are held
        have hres : m.onResume t = m.escrowCommitted t j none := by
          unfold Money.onResume
          rw [ht]
        rw [hres] at hrow' ⊢
        exact .held _ (Money.finish_tasks ..) rfl hrow'
      · rename_i x
        have hsame : m.onResume t = m := Money.onResume_done ht
        rw [hsame]
        exact .held _ ht ha hrow
      · exact ha.elim
    | refused a ht ha =>
      unfold Task.refuses at ha
      split at ha
      · rename_i j e
        -- the commit has failed: nothing is held
        have hres : m.onResume t = m.escrowCommitted t j (some e) := by
          unfold Money.onResume
          rw [ht]
        rw [hres]
        cases e with
        | insufficientFunds u => exact .refused _ (Money.finish_tasks ..) rfl
        | _ => exact .refused _ (Money.finish_tasks ..) trivial
      · rename_i j
        have hres : m.onResume t = m.finish t j.matchId .threw := by
          unfold Money.onResume
          rw [ht]
        rw [hres]
        exact .refused _ (Money.finish_tasks ..) trivial
      · rw [Money.onResume_done ht]; exact .refused _ ht trivial
      · rw [Money.onResume_done ht]; exact .refused _ ht ha
      · exact ha.elim
  -- another call's turn leaves the escrow where it is
  · have htask := onResume_tasks_of_ne m htt
    cases h with
    | coming a ht ha hrow => exact .coming a (htask.trans ht) ha (by rw [onResume_db]; exact hrow)
    | held a ht ha hrow => exact .held a (htask.trans ht) ha (hrow.onResume hok t')
    | refused a ht ha => exact .refused a (htask.trans ht) ha

/-! ## No list is being read -/

/-- No sweep is reading the list of active matches. -/
def NoLists (m : Money U M) : Prop := ∀ t a, m.tasks t = some a → ¬ a.lists

theorem NoLists.calms (h : NoLists m) (hc : Calms m m') : NoLists m' := by
  intro t a' ha' hl
  obtain ⟨a, ha, -, -, hle⟩ := hc t a' ha'
  exact h t a ha (hle hl)

theorem NoLists.spawns (h : NoLists m) (hsp : Spawns m a m') (ha : ¬ a.lists) : NoLists m' := by
  intro t b hb
  rcases hsp.task_cases hb with rfl | hb
  · exact ha
  · exact h t b hb

/-! ## What a call spares -/

/-- A change of the services that may only harm the matches `q`. -/
structure Spares (m m' : Money U M) (q : M → Prop) : Prop where
  ok : MoneyOK m'
  swept : SweptOK m'
  secure : ∀ r, ¬ q r.id → Secure m r → Secure m' r
  escrowing : ∀ t i, ¬ q i.matchId → Escrowing m t i → Escrowing m' t i
  unused : ∀ id, ¬ q id → Unused m id → Unused m' id

theorem Spares.refl (hok : MoneyOK m) (hs : SweptOK m) (q : M → Prop) : Spares m m q :=
  ⟨hok, hs, fun _ _ => id, fun _ _ _ => id, fun _ _ => id⟩

/-- A new task that threatens, and claims, only the match `id`. -/
theorem Spawns.spares (hsp : Spawns m a m') (hok : MoneyOK m) (hok' : MoneyOK m') (hs : SweptOK m)
    (ht : ∀ x, a.threatens x → x = id) (hsw : ∀ x, ¬ a.sweeps x) (hh : ∀ x, a.holds = some x → x = id) :
    Spares m m' (· = id) := by
  refine ⟨hok', hs.spawns hsp hsw, fun r hr h => h.spawns hsp fun hth => hr (ht _ hth),
    fun t i hi h => h.spawns hok hsp fun hth => hi (ht _ hth), fun x hx h => h.spawns hsp fun hc => hx (hh x hc)⟩

theorem refund_spares (hok : MoneyOK m) (hs : SweptOK m) (id : M) : Spares m (m.refund id) (· = id) := by
  obtain ⟨a, hsp, ht, hsw, hh⟩ := refund_spawns m id
  exact hsp.spares hok (hok.step_ok (.refund id)) hs ht hsw hh

theorem settle_spares (hok : MoneyOK m) (hs : SweptOK m) (i : SeatedSettle M) :
    Spares m (m.settle i) (· = i.matchId) := by
  obtain ⟨a, hsp, ht, hsw, hh⟩ := settle_spawns m i
  exact hsp.spares hok (hok.step_ok (.settle i)) hs ht hsw hh

theorem escrow_spares (hok : MoneyOK m) (hs : SweptOK m) (i : SeatedEscrow U M) :
    Spares m (m.escrow i) (· = i.matchId) := by
  obtain ⟨a, hsp, ht, hsw, hh, -⟩ := escrow_spawns m i
  exact hsp.spares hok (hok.step_ok (.escrow i)) hs (fun x h => absurd h (ht x)) hsw hh

theorem onResume_spares (hok : MoneyOK m) (hs : SweptOK m) (t : ℕ) :
    Spares m (m.onResume t) fun _ => False :=
  ⟨hok.onResume_ok t, hs.onResume hok t, fun _ _ h => h.onResume hok t, fun _ _ _ h => h.onResume hok t,
    fun _ _ h => h.onResume hs t⟩

theorem onDb_spares (hok : MoneyOK m) (hs : SweptOK m) (t : ℕ) (fate : Fate)
    (hguard : fate = .answered → ∀ id, Commits m t id → ∀ t' a, m.tasks t' = some a → ¬ a.lists) :
    Spares m (m.onDb t fate) fun _ => False :=
  ⟨hok.onDb_ok t fate, hs.onDb hok t fate, fun _ _ h => h.onDb hok t fate,
    fun _ i _ h => h.onDb hok hs t fate fun hf hc => hguard hf i.matchId hc, fun _ _ h => h.onDb hok t fate⟩

/-- A change of the balances and of the ledger only. -/
theorem Spares.of_rows (hok' : MoneyOK m') (hs : SweptOK m) (hf : ∀ id, m'.db.find id = m.db.find id)
    (ht : m'.tasks = m.tasks) (hi : m'.inFlight = m.inFlight) (q : M → Prop) : Spares m m' q :=
  ⟨hok', hs.congr hf ht, fun _ _ h => h.congr (hf _) ht, fun _ _ _ h => h.congr (hf _) ht,
    fun x _ h => h.congr (hf x) (congrFun hi x)⟩

/-- A new user threatens no match. -/
theorem register_spares (hok : MoneyOK m) (hs : SweptOK m) (u : U) (q : M → Prop) :
    Spares m (m.register u) q := by
  have hok' := hok.step_ok (.register u)
  unfold Money.step Money.register at hok'
  unfold Money.register
  simp only at hok' ⊢
  split
  · exact .refl hok hs q
  · rename_i h
    rw [if_neg h] at hok'
    exact .of_rows hok' hs (fun _ => rfl) rfl rfl q

/-- A move of the wallet threatens no match. -/
theorem walletMove_spares (hok : MoneyOK m) (hs : SweptOK m) (u : U) (type : TransactionType) (delta : ℤ)
    (ref : Option String) (q : M → Prop) : Spares m (m.walletMove u type delta ref) q := by
  have hok' := hok.walletMove_ok u type delta ref
  unfold Money.walletMove at hok' ⊢
  split
  · exact .refl hok hs q
  · rename_i db hadj
    rw [hadj] at hok'
    have hw := adjustBalance_wrote hadj
    exact .of_rows hok' hs hw.find rfl rfl q

end Murlan
