import Mathlib.Algebra.BigOperators.Group.Finset.Basic
import Mathlib.Algebra.BigOperators.Group.Finset.Piecewise
import Mathlib.Tactic.Ring
import Murlan.Proof.Writes

/-!
# The wallet reconciles

In every run of concurrent wallet transactions each stored balance is the sum of the
user's ledger rows and not negative, and each reference is on at most one row
(`Reconciled`). What carries it: an open transaction's program can only return with
rows and balance changes that match (`Operation.Wrote`), the balances it has changed
are its own until it ends, and so are the references it has inserted (`Apart`).

* `step_reconciled`: every event keeps the invariant.
* `wallet_reconciles`: the claims about every run.
-/

namespace Murlan

variable {U M : Type}

/-- Two open transactions have changed different balances and inserted different references. -/
structure Apart (x y : Session U M) : Prop where
  users : ∀ u ∈ x.pending.users, u ∉ y.pending.users
  refs : ∀ ref ∈ refsOf x.pending.rows, ref ∉ refsOf y.pending.rows

theorem Apart.symm {x y : Session U M} (h : Apart x y) : Apart y x where
  users u hu hv := h.users u hv hu
  refs ref hr hs := h.refs ref hs hr

variable [DecidableEq U]

/-- What holds of an open transaction. -/
structure Session.OK (db : Db U M) (x : Session U M) : Prop where
  program : x.program.wp Statement.protocol (fun _ w => x.operation.Wrote w) (fun _ _ => True) x.pending
  covered : ∀ u ∈ x.pending.users, ∃ b, db.balance u = some b ∧ 0 ≤ b + movedSum x.pending.moved u
  refs_nodup : (refsOf x.pending.rows).Nodup
  refs_new : ∀ ref ∈ refsOf x.pending.rows, ref ∉ refsOf db.ledger

/-- The invariant: every balance is the sum of its rows. -/
structure Reconciled (s : Sessions U M) : Prop where
  fresh : ∀ k, s.next ≤ k → s.sessions k = none
  balance : ∀ u, s.db.getBalance u = rowSum s.db.ledger u
  solvent : ∀ u b, s.db.balance u = some b → 0 ≤ b
  refs : (refsOf s.db.ledger).Nodup
  session : ∀ k x, s.sessions k = some x → x.OK s.db
  apart : ∀ j k x y, j ≠ k → s.sessions j = some x → s.sessions k = some y → Apart x y

/-- A balance a transaction has not changed has moved by nothing. -/
theorem movedSum_of_unused {x : Session U M} {u : U} (h : u ∉ x.pending.users) :
    movedSum x.pending.moved u = 0 :=
  movedSum_of_notMem h

/-! ## One statement -/

/-- What the database checks before a transaction writes: the balance stays covered and
no other transaction holds it; the reference is on no row it can see or must wait for. -/
structure Granted (db : Db U M) (others : List (Session U M)) (x : Session U M) (w : Pending U M) :
    Prop where
  covered : ∀ m ∈ w.moved, ∃ b, db.balance m.1 = some b ∧
    (m.2 < 0 → 0 ≤ b + movedSum x.pending.moved m.1 + m.2)
  free : ∀ m ∈ w.moved, ∀ y ∈ others, m.1 ∉ y.pending.users
  single : w.moved = [] ∨ ∃ m, w.moved = [m]
  refs_nodup : (refsOf w.rows).Nodup
  refs_new : ∀ ref ∈ refsOf w.rows, ref ∉ refsOf db.ledger ∧ ref ∉ refsOf x.pending.rows
  refs_free : ∀ ref ∈ refsOf w.rows, ∀ y ∈ others, ref ∉ refsOf y.pending.rows

theorem Granted.empty (db : Db U M) (others : List (Session U M)) (x : Session U M) :
    Granted db others x {} := by
  constructor <;> simp [refsOf]

/-- One row, no balance. -/
theorem Granted.row {db : Db U M} {others : List (Session U M)} {x : Session U M}
    {tx : Transaction U M}
    (h : ∀ ref, tx.providerRef = some ref → ref ∉ refsOf (db.ledger ++ x.pending.rows) ∧
      ∀ y ∈ others, ref ∉ refsOf y.pending.rows) :
    Granted db others x { rows := [tx] } := by
  have hmem : ∀ ref ∈ refsOf [tx], tx.providerRef = some ref := by
    intro ref href
    simpa [refsOf] using href
  constructor
  · simp
  · simp
  · simp
  · cases hp : tx.providerRef <;> simp [refsOf, hp]
  · intro ref href
    have hnot := (h ref (hmem ref href)).1
    rw [refsOf_append, List.mem_append] at hnot
    exact ⟨fun h => hnot (.inl h), fun h => hnot (.inr h)⟩
  · intro ref href
    exact (h ref (hmem ref href)).2

section Execute

variable [DecidableEq M]

/-- The statement writes what it answers for, and only what the database grants. -/
theorem Statement.answer_spec {db : Db U M} {others : List (Session U M)} {x x' : Session U M}
    {today : ℕ → Bool} {q : Statement U M} {r : q.Answer}
    (h : q.answer db others x today = some (r, x')) :
    x'.operation = x.operation ∧ x'.pending = x.pending.append (q.writes r) ∧
      Granted db others x (q.writes r) := by
  have hempty := Granted.empty db others x
  cases q with
  | findById u => cases h; exact ⟨rfl, (Pending.append_empty _).symm, hempty⟩
  | findByProviderRef ref => cases h; exact ⟨rfl, (Pending.append_empty _).symm, hempty⟩
  | depositsToday u => cases h; exact ⟨rfl, (Pending.append_empty _).symm, hempty⟩
  | recordAudit => cases h; exact ⟨rfl, (Pending.append_empty _).symm, hempty⟩
  | advisoryXactLock u =>
    simp only [Statement.answer] at h
    split at h
    · cases h
    · cases h; exact ⟨rfl, (Pending.append_empty _).symm, hempty⟩
  | adjustBalance u d =>
    simp only [Statement.answer] at h
    split at h
    · cases h; exact ⟨rfl, (Pending.append_empty _).symm, hempty⟩
    · rename_i b hb
      split at h
      · cases h; exact ⟨rfl, (Pending.append_empty _).symm, hempty⟩
      -- the guard and the row lock: the balance stays at or above zero, nobody else has moved it
      · rename_i hguard
        split at h
        · cases h
        · rename_i hfree
          cases h
          refine ⟨rfl, by simp [Statement.writes, Pending.append], ?_⟩
          constructor
          · intro m hm
            obtain rfl : m = (u, d) := by simpa [Statement.writes] using hm
            refine ⟨b, hb, ?_⟩
            intro hneg
            by_contra hlow
            refine hguard ⟨hneg, ?_⟩
            simp only at hlow
            omega
          · intro m hm y hy hu
            obtain rfl : m = (u, d) := by simpa [Statement.writes] using hm
            exact hfree ⟨y, hy, hu⟩
          · simp [Statement.writes]
          all_goals simp [Statement.writes, refsOf]
  | append tx =>
    simp only [Statement.answer] at h
    split at h
    · cases h
    -- the unique index: no row has the reference, committed or not
    · rename_i hnew
      cases h
      refine ⟨rfl, by simp [Statement.writes, Pending.append], Granted.row ?_⟩
      intro ref href
      constructor
      · intro hmem
        exact hnew ⟨ref, href, .inl hmem⟩
      · intro y hy hmem
        exact hnew ⟨ref, href, .inr ⟨y, hy, hmem⟩⟩
  | appendIdempotent ref tx =>
    simp only [Statement.answer] at h
    split at h
    · cases h; exact ⟨rfl, (Pending.append_empty _).symm, hempty⟩
    · rename_i hnone
      split at h
      · cases h
      · rename_i hfree
        cases h
        refine ⟨rfl, by simp [Statement.writes, Pending.append], Granted.row ?_⟩
        intro ref' href
        cases href
        constructor
        · intro hmem
          obtain ⟨row, hrow, hr⟩ := List.mem_filterMap.mp hmem
          have := List.find?_eq_none.mp hnone row hrow
          exact this (by simpa using hr)
        · intro y hy hmem
          exact hfree ⟨y, hy, hmem⟩

/-! ## Open transactions -/

/-- A statement keeps what holds of its transaction. -/
theorem Session.OK.execute {db : Db U M} {others : List (Session U M)} {x x' : Session U M}
    {today : ℕ → Bool} {q : Statement U M} {r : q.Answer}
    {next : Except (ServiceError U) q.Answer → Service U M (List (Receipt U M))}
    (hx : x.OK db) (hsolvent : ∀ u b, db.balance u = some b → 0 ≤ b)
    (hprog : x.program = .ask q next) (h : q.answer db others x today = some (r, x')) :
    ({ x' with program := next (.ok r) } : Session U M).OK db := by
  obtain ⟨hop, hpend, hgrant⟩ := Statement.answer_spec h
  constructor
  · have hwp := hx.program
    rw [hprog] at hwp
    have hnext := hwp.2 (.ok r) (x.pending.append (q.writes r)) ⟨r, rfl, rfl⟩
    simpa only [hop, hpend] using hnext
  · intro u hu
    simp only [hpend] at hu ⊢
    rw [Pending.append_moved, movedSum_append]
    rw [Pending.users_append, List.mem_append] at hu
    rcases hgrant.single with hnil | ⟨m, hone⟩
    · have hold : u ∈ x.pending.users := by simpa [Pending.users, hnil] using hu
      simpa [hnil] using hx.covered u hold
    · -- one balance is new, or changed once more
      rw [hone, movedSum_singleton]
      obtain ⟨b, hb, hneg⟩ := hgrant.covered m (by simp [hone])
      have hm : u = m.1 ∨ u ∈ x.pending.users := by
        rcases hu with hold | hnew
        · exact .inr hold
        · exact .inl (by simpa [Pending.users, hone] using hnew)
      -- the account the statement moved, or another of the transaction's
      by_cases hum : m.1 = u
      · subst hum
        refine ⟨b, hb, ?_⟩
        rw [if_pos rfl]
        have hpos : 0 ≤ b + movedSum x.pending.moved m.1 := by
          by_cases hold : m.1 ∈ x.pending.users
          · obtain ⟨b', hb', hcov⟩ := hx.covered _ hold
            obtain rfl : b = b' := by rw [hb] at hb'; exact Option.some.inj hb'
            exact hcov
          · have hzero := movedSum_of_unused hold
            have hb0 := hsolvent _ _ hb
            omega
        -- only a debit can spoil the cover, and it was granted against it
        by_cases hd : m.2 < 0
        · have := hneg hd
          omega
        · omega
      · obtain ⟨b', hb', hcov⟩ := hx.covered u (hm.resolve_left fun h => hum h.symm)
        refine ⟨b', hb', ?_⟩
        rw [if_neg hum]
        omega
  · simp only [hpend, Pending.append_rows, refsOf_append]
    rw [List.nodup_append]
    refine ⟨hx.refs_nodup, hgrant.refs_nodup, ?_⟩
    rintro ref hold ref' hnew rfl
    exact (hgrant.refs_new _ hnew).2 hold
  · intro ref href
    simp only [hpend, Pending.append_rows, refsOf_append, List.mem_append] at href
    rcases href with hold | hnew
    · exact hx.refs_new _ hold
    · exact (hgrant.refs_new _ hnew).1

/-- A statement of one transaction stays apart from the others. -/
theorem Apart.execute {db : Db U M} {others : List (Session U M)} {x x' y : Session U M}
    {today : ℕ → Bool} {q : Statement U M} {r : q.Answer} (hxy : Apart x y) (hy : y ∈ others)
    (h : q.answer db others x today = some (r, x'))
    (p : Service U M (List (Receipt U M))) : Apart { x' with program := p } y := by
  obtain ⟨-, hpend, hgrant⟩ := Statement.answer_spec h
  constructor
  · intro u hu
    simp only [hpend, Pending.users_append, List.mem_append] at hu
    rcases hu with hold | hnew
    · exact hxy.users u hold
    · obtain ⟨m, hm, rfl⟩ := List.mem_map.mp hnew
      exact hgrant.free m hm y hy
  · intro ref href
    simp only [hpend, Pending.append_rows, refsOf_append, List.mem_append] at href
    rcases href with hold | hnew
    · exact hxy.refs ref hold
    · exact hgrant.refs_free ref hnew y hy

end Execute

/-! ## The committed state -/

theorem Db.apply_balance (db : Db U M) (p : Pending U M) (u : U) :
    (db.apply p).balance u = (db.balance u).map fun b => b + movedSum p.moved u := rfl

/-- What is committed leaves every other open transaction as it is. -/
theorem Session.OK.committed {db : Db U M} {x y : Session U M} (hy : y.OK db) (hxy : Apart x y) :
    y.OK (db.apply x.pending) where
  program := hy.program
  covered := by
    intro u hu
    obtain ⟨b, hb, hcov⟩ := hy.covered u hu
    have hzero : movedSum x.pending.moved u = 0 := movedSum_of_unused (hxy.symm.users u hu)
    refine ⟨b, ?_, hcov⟩
    rw [Db.apply_balance, hb, Option.map_some, hzero, add_zero]
  refs_nodup := hy.refs_nodup
  refs_new := by
    intro ref href
    show ref ∉ refsOf (db.ledger ++ x.pending.rows)
    rw [refsOf_append, List.mem_append]
    rintro (hold | hnew)
    · exact hy.refs_new ref href hold
    · exact hxy.refs ref hnew href

theorem Db.apply_empty (db : Db U M) : db.apply {} = db := by
  have hbalance : (db.apply {}).balance = db.balance := by
    funext u
    rw [Db.apply_balance]
    cases db.balance u <;> simp
  show { db with balance := (db.apply {}).balance, ledger := db.ledger ++ [] } = db
  rw [hbalance, List.append_nil]

namespace Reconciled

variable {s : Sessions U M}

/-- A commit moves balances with its rows. -/
theorem commit (h : Reconciled s) {id : ℕ} {x : Session U M} (hx : s.sessions id = some x)
    {rs : List (Receipt U M)} (hdone : x.program = .pure rs) :
    Reconciled { s.set id none with db := s.db.apply x.pending } := by
  have hok := h.session id x hx
  have hwrote : x.operation.Wrote x.pending := by
    have hwp := hok.program
    rwa [hdone] at hwp
  -- whom the transaction has not touched keeps a balance that was not negative
  have hcover : ∀ u b, s.db.balance u = some b → 0 ≤ b + movedSum x.pending.moved u := by
    intro u b hb
    by_cases hu : u ∈ x.pending.users
    · obtain ⟨b', hb', hcov⟩ := hok.covered u hu
      obtain rfl : b = b' := by rw [hb] at hb'; exact Option.some.inj hb'
      exact hcov
    · have hzero := movedSum_of_unused hu
      have hpos := h.solvent u b hb
      omega
  have hset : ∀ k, (s.set id none).sessions k = if k = id then none else s.sessions k :=
    fun k => Function.update_apply s.sessions id none k
  constructor
  · intro k hk
    show (s.set id none).sessions k = none
    rw [hset]
    split
    · rfl
    · exact h.fresh k hk
  · intro u
    show ((s.db.balance u).map fun b => b + movedSum x.pending.moved u).getD 0 =
      rowSum (s.db.ledger ++ x.pending.rows) u
    -- the balance moves by the rows that are appended
    rw [rowSum_append, ← h.balance u, hwrote.balanced u, Db.getBalance]
    cases hb : s.db.balance u with
    | some b => rfl
    | none =>
      have hunused : u ∉ x.pending.users := by
        intro hu
        obtain ⟨b, hb', -⟩ := hok.covered u hu
        rw [hb] at hb'
        cases hb'
      rw [movedSum_of_unused hunused]
      rfl
  · intro u b hb
    obtain ⟨b', hb', rfl⟩ := Option.map_eq_some_iff.mp hb
    exact hcover u b' hb'
  · show (refsOf (s.db.ledger ++ x.pending.rows)).Nodup
    rw [refsOf_append, List.nodup_append]
    refine ⟨h.refs, hok.refs_nodup, ?_⟩
    rintro ref hold ref' hnew rfl
    exact hok.refs_new ref hnew hold
  · intro k y hy
    change (s.set id none).sessions k = some y at hy
    rw [hset] at hy
    split at hy
    · cases hy
    · rename_i hne
      -- the other transactions have written elsewhere
      exact (h.session k y hy).committed (h.apart id k x y (Ne.symm hne) hx hy)
  · intro j k y z hjk hy hz
    change (s.set id none).sessions j = some y at hy
    change (s.set id none).sessions k = some z at hz
    rw [hset] at hy hz
    split at hy
    · cases hy
    split at hz
    · cases hz
    · exact h.apart j k y z hjk hy hz

/-- A session is replaced by one that is right and apart from the others. -/
theorem set_some (h : Reconciled s) {id next : ℕ} {x : Session U M} (hid : id < next)
    (hnext : s.next ≤ next) (hx : x.OK s.db)
    (hapart : ∀ k y, k ≠ id → s.sessions k = some y → Apart x y) :
    Reconciled { s.set id (some x) with next := next } := by
  have hset : ∀ k, (s.set id (some x)).sessions k = if k = id then some x else s.sessions k :=
    fun k => Function.update_apply s.sessions id (some x) k
  refine ⟨?_, h.balance, h.solvent, h.refs, ?_, ?_⟩
  · intro k hk
    change next ≤ k at hk
    show (s.set id (some x)).sessions k = none
    rw [hset, if_neg (by omega)]
    exact h.fresh k (by omega)
  · intro k y hy
    change (s.set id (some x)).sessions k = some y at hy
    rw [hset] at hy
    split at hy
    · cases hy
      exact hx
    · exact h.session k y hy
  · intro j k y z hjk hy hz
    change (s.set id (some x)).sessions j = some y at hy
    change (s.set id (some x)).sessions k = some z at hz
    rw [hset] at hy hz
    split at hy
    · cases hy
      rw [if_neg (by omega)] at hz
      exact hapart k z (by omega) hz
    · rename_i hj
      split at hz
      · cases hz
        exact (hapart j y hj hy).symm
      · exact h.apart j k y z hjk hy hz

/-- A rollback leaves balances and rows. -/
theorem rollback (h : Reconciled s) (id : ℕ) : Reconciled (s.set id none) := by
  have hset : ∀ k x, (s.set id none).sessions k = some x → s.sessions k = some x := by
    intro k x hk
    have hk' : (if k = id then none else s.sessions k) = some x := by
      rw [← hk]
      exact (Function.update_apply s.sessions id none k).symm
    split at hk'
    · cases hk'
    · exact hk'
  refine ⟨?_, h.balance, h.solvent, h.refs, ?_, ?_⟩
  · intro k hk
    cases hx : (s.set id none).sessions k with
    | none => rfl
    | some x =>
      have := hset k x hx
      rw [h.fresh k hk] at this
      cases this
  · intro k x hk
    exact h.session k x (hset k x hk)
  · intro j k x y hjk hx hy
    exact h.apart j k x y hjk (hset j x hx) (hset k y hy)

/-- A new user has no rows and no balance. -/
theorem createUser (h : Reconciled s) {u : U} (hu : s.db.balance u = none) :
    Reconciled { s with db := { s.db with balance := Function.update s.db.balance u (some 0) } } := by
  have hkeep : ∀ v b, s.db.balance v = some b →
      Function.update s.db.balance u (some 0) v = some b := by
    intro v b hb
    have hne : v ≠ u := by
      rintro rfl
      rw [hu] at hb
      cases hb
    rw [Function.update_of_ne hne]
    exact hb
  refine ⟨h.fresh, ?_, ?_, h.refs, ?_, h.apart⟩
  · intro v
    rw [← h.balance v]
    show (Function.update s.db.balance u (some 0) v).getD 0 = (s.db.balance v).getD 0
    by_cases hv : v = u
    · subst hv
      rw [Function.update_self, hu]
      rfl
    · rw [Function.update_of_ne hv]
  · intro v b hb
    change Function.update s.db.balance u (some 0) v = some b at hb
    by_cases hv : v = u
    · subst hv
      rw [Function.update_self] at hb
      cases hb
      exact le_refl 0
    · rw [Function.update_of_ne hv] at hb
      exact h.solvent v b hb
  · intro k x hx
    have hok := h.session k x hx
    refine ⟨hok.program, ?_, hok.refs_nodup, hok.refs_new⟩
    intro v hv
    obtain ⟨b, hb, hcov⟩ := hok.covered v hv
    exact ⟨b, hkeep v b hb, hcov⟩

theorem mem_others (h : Reconciled s) {id k : ℕ} {y : Session U M} (hne : k ≠ id)
    (hy : s.sessions k = some y) : y ∈ s.others id := by
  have hlt : k < s.next := by
    by_contra hge
    rw [h.fresh k (by omega)] at hy
    cases hy
  refine List.mem_filterMap.mpr ⟨k, List.mem_range.mpr hlt, ?_⟩
  rw [if_neg hne]
  exact hy

end Reconciled

/-- A server with no users is reconciled. -/
theorem boot_reconciled : Reconciled (Sessions.boot : Sessions U M) := by
  refine ⟨fun _ _ => rfl, fun _ => rfl, ?_, List.nodup_nil, ?_, ?_⟩
  · intro u b hb
    cases hb
  · intro k x hx
    cases hx
  · intro j k x y _ hx
    cases hx

/-! ## Movements that commit -/

/-- The movement's reference is on the ledger already. -/
def Call.Replays (db : Db U M) (c : Call U M) : Prop := ∃ ref, c.providerRef? = some ref ∧ ref ∈ refsOf db.ledger

/-- The movement is a transfer between two of the accounts. -/
def Call.TransfersWithin (accounts : Finset U) : Call U M → Prop
  | .transfer f t _ _ _ => f ∈ accounts ∧ t ∈ accounts
  | _ => False

/-- A transfer within a set of users sums to nothing. -/
theorem Call.Wrote.sum_transfer {c : Call U M} {w : Pending U M} (h : c.Wrote w) {accounts : Finset U}
    (hc : c.TransfersWithin accounts) : ∑ u ∈ accounts, movedSum w.moved u = 0 := by
  unfold Call.TransfersWithin at hc
  split at hc
  · rename_i f t a outReason inReason
    obtain ⟨hf, ht⟩ := hc
    rcases h with ⟨hsome, -⟩ | rfl
    · cases hsome
    have hsum : ∀ u, movedSum ((debited (M := M) f a { type := .transferOut, reason := some outReason }).append
        (credited t a { type := .transferIn, reason := some inReason })).moved u =
        (if f = u then -a else 0) + if t = u then a else 0 := by
      intro u
      show movedSum ([(f, -a)] ++ [(t, a)]) u = _
      rw [movedSum_append, movedSum_singleton, movedSum_singleton]
    simp only [hsum, Finset.sum_add_distrib, Finset.sum_ite_eq, hf, ht, if_true]
    ring
  · exact hc.elim

theorem sum_concat {accounts : Finset U} {ws : List (Pending U M)}
    (h : ∀ w ∈ ws, ∑ u ∈ accounts, movedSum w.moved u = 0) :
    ∑ u ∈ accounts, movedSum (Pending.concat ws).moved u = 0 := by
  induction ws with
  | nil => exact Finset.sum_eq_zero fun u _ => rfl
  | cons w ws ih =>
    have hsplit : ∀ u, movedSum (Pending.concat (w :: ws)).moved u =
        movedSum w.moved u + movedSum (Pending.concat ws).moved u := fun u => movedSum_append ..
    simp only [hsplit, Finset.sum_add_distrib]
    rw [h w List.mem_cons_self, ih fun v hv => h v (List.mem_cons_of_mem w hv), add_zero]

section Step

variable [DecidableEq M] {s : Sessions U M}

/-- An operation that begins has written nothing. -/
theorem Reconciled.begin (h : Reconciled s) (op : Operation U M) :
    Reconciled (s.step (.begin op)) := by
  have hok : Session.OK s.db ({ operation := op, program := op.program } : Session U M) := by
    refine ⟨?_, by simp [Pending.users], by simp [refsOf], by simp [refsOf]⟩
    refine Async.wp_mono (op.program_writes {}) ?_ fun _ _ h => h
    rintro rs g ⟨w, hw, rfl⟩
    simpa using hw
  exact h.set_some (Nat.lt_succ_self s.next) (Nat.le_succ s.next) hok fun k y _ _ =>
    ⟨by simp [Pending.users], by simp [refsOf]⟩

/-- **Every event keeps the wallet reconciled.** -/
theorem step_reconciled (h : Reconciled s) (e : SessionEvent U M) : Reconciled (s.step e) := by
  cases e with
  | createUser u =>
    simp only [Sessions.step]
    split
    · exact h
    · rename_i hu
      exact h.createUser (by simpa using hu)
  | begin op => exact h.begin op
  | execute id today =>
    simp only [Sessions.step]
    split
    · exact h
    rename_i x hx
    split
    · exact h
    · exact h
    rename_i q next hprog
    split
    · exact h
    · -- the statement is carried out; everyone else stays where they were
      rename_i r x' hans
      have hid : id < s.next := by
        by_contra hge
        rw [h.fresh id (by omega)] at hx
        cases hx
      refine h.set_some hid (le_refl _) ((h.session id x hx).execute h.solvent hprog hans) ?_
      intro k y hk hy
      exact (h.apart id k x y (Ne.symm hk) hx hy).execute (h.mem_others hk hy) hans _
  | commit id =>
    simp only [Sessions.step]
    split
    · exact h
    rename_i x hx
    split
    · rename_i rs hdone
      exact h.commit hx hdone
    · exact h
    · exact h
  | rollback id => exact h.rollback id

theorem run_reconciled (es : List (SessionEvent U M)) :
    Reconciled (run Sessions.step (Sessions.boot : Sessions U M) es) :=
  run_inv (P := Reconciled) (fun _ e h => step_reconciled h e) boot_reconciled es

/-! ## Committed -/

/-- Only a commit changes the ledger or a balance. -/
theorem step_uncommitted (e : SessionEvent U M) (he : ∀ id, e ≠ .commit id) :
    (s.step e).db.ledger = s.db.ledger ∧ ∀ u, (s.step e).db.getBalance u = s.db.getBalance u := by
  cases e with
  | commit id => exact absurd rfl (he id)
  | begin op => exact ⟨rfl, fun _ => rfl⟩
  | rollback id => exact ⟨rfl, fun _ => rfl⟩
  | createUser u =>
    simp only [Sessions.step]
    split
    · exact ⟨rfl, fun _ => rfl⟩
    · rename_i hu
      refine ⟨rfl, fun v => ?_⟩
      show (Function.update s.db.balance u (some 0) v).getD 0 = (s.db.balance v).getD 0
      by_cases hv : v = u
      · subst hv
        have hnone : s.db.balance v = none := by simpa using hu
        rw [Function.update_self, hnone]
        rfl
      · rw [Function.update_of_ne hv]
  | execute id today =>
    simp only [Sessions.step]
    split
    · exact ⟨rfl, fun _ => rfl⟩
    split
    · exact ⟨rfl, fun _ => rfl⟩
    · exact ⟨rfl, fun _ => rfl⟩
    split
    · exact ⟨rfl, fun _ => rfl⟩
    · exact ⟨rfl, fun _ => rfl⟩

/-- A commit of a transaction changes nothing, or applies what its operation wrote. -/
theorem commit_cases (h : Reconciled s) {id : ℕ} {x : Session U M} (hx : s.sessions id = some x) :
    (s.step (.commit id)).db = s.db ∨
      ((s.step (.commit id)).db = s.db.apply x.pending ∧ x.operation.Wrote x.pending) := by
  simp only [Sessions.step, hx]
  split
  · rename_i rs hdone
    have hwp := (h.session id x hx).program
    rw [hdone] at hwp
    exact .inr ⟨rfl, hwp⟩
  · exact .inl rfl
  · exact .inl rfl

/-- What a commit applies of a transaction: what each of its movements has written, and nothing of
those whose reference the ledger held already. -/
structure Committed (s : Sessions U M) (id : ℕ) (x : Session U M) (ws : List (Pending U M)) : Prop where
  wrote : List.Forall₂ Call.Wrote x.operation.calls ws
  pending : x.pending = Pending.concat ws
  db : (s.step (.commit id)).db = s.db.apply (Pending.concat ws)
  replays : ∀ p ∈ x.operation.calls.zip ws, p.1.Replays s.db → p.2 = {}

/-- **Of a transaction that commits, each movement counts on its own.** -/
theorem commit_writes (h : Reconciled s) {id : ℕ} {x : Session U M} (hx : s.sessions id = some x) :
    (s.step (.commit id)).db = s.db ∨ ∃ ws, Committed s id x ws := by
  rcases commit_cases h hx with hsame | ⟨happly, ws, hwrote, hconcat⟩
  · exact .inl hsame
  rw [hconcat] at happly
  refine .inr ⟨ws, hwrote, hconcat, happly, ?_⟩
  rintro ⟨c, w⟩ hp ⟨ref, href, hold⟩
  have hc : c.Wrote w := (List.forall₂_iff_zip.mp hwrote).2 hp
  rcases hc.marked href with hempty | hmem
  · exact hempty
  · have hnew := (h.session id x hx).refs_new ref
    rw [hconcat] at hnew
    exact absurd hold (hnew (Pending.mem_refsOf_concat (List.of_mem_zip hp).2 hmem))

/-- A transaction of movements whose references are on the ledger already changes nothing. -/
theorem commit_replay (h : Reconciled s) {id : ℕ} {x : Session U M} (hx : s.sessions id = some x)
    (hall : ∀ c ∈ x.operation.calls, c.Replays s.db) : (s.step (.commit id)).db = s.db := by
  rcases commit_writes h hx with hsame | ⟨ws, hws⟩
  · exact hsame
  have hempty : ∀ w ∈ ws, w = {} := by
    intro w hw
    obtain ⟨c, hc, hzip⟩ := exists_zip hws.wrote hw
    exact hws.replays _ hzip (hall c hc)
  have hconcat : Pending.concat ws = {} := by
    clear hws
    induction ws with
    | nil => rfl
    | cons w ws ih =>
      show w.append (Pending.concat ws) = {}
      rw [hempty w List.mem_cons_self, ih fun v hv => hempty v (List.mem_cons_of_mem w hv), Pending.append_empty]
  rw [hws.db, hconcat, Db.apply_empty]

/-- Transfers that commit together with replays move money among the accounts only. -/
theorem commit_transfer (h : Reconciled s) {id : ℕ} {x : Session U M} (hx : s.sessions id = some x) {accounts : Finset U}
    (hall : ∀ c ∈ x.operation.calls, c.TransfersWithin accounts ∨ c.Replays s.db) :
    ∑ u ∈ accounts, (s.step (.commit id)).db.getBalance u = ∑ u ∈ accounts, s.db.getBalance u := by
  rcases commit_writes h hx with hsame | ⟨ws, hws⟩
  · rw [hsame]
  have hsum : ∑ u ∈ accounts, movedSum (Pending.concat ws).moved u = 0 := by
    refine sum_concat fun w hw => ?_
    obtain ⟨c, hc, hzip⟩ := exists_zip hws.wrote hw
    rcases hall c hc with htransfer | hreplay
    · exact Call.Wrote.sum_transfer ((List.forall₂_iff_zip.mp hws.wrote).2 hzip) htransfer
    · have hempty : w = {} := hws.replays _ hzip hreplay
      rw [hempty]
      exact Finset.sum_eq_zero fun u _ => rfl
  have hdelta : ∀ u, (s.step (.commit id)).db.getBalance u =
      s.db.getBalance u + movedSum (Pending.concat ws).moved u := by
    intro u
    rw [hws.db]
    show ((s.db.balance u).map fun b => b + movedSum (Pending.concat ws).moved u).getD 0 = _
    cases hb : s.db.balance u with
    | some b => simp [Db.getBalance, hb]
    | none =>
      have hunused : u ∉ x.pending.users := by
        intro hu
        obtain ⟨b, hb', -⟩ := (h.session id x hx).covered u hu
        rw [hb] at hb'
        cases hb'
      rw [← hws.pending, movedSum_of_unused hunused]
      simp [Db.getBalance, hb]
  simp only [hdelta, Finset.sum_add_distrib, hsum, add_zero]

/-- **The wallet reconciles.** After any run of concurrent transactions, rolled back at any
point: balances are the sums of the ledger and not negative; a reference is on at most one
row; only commits change anything, and of a transaction of one or more movements they apply what
each has written, nothing of a replayed one; so replays change nothing, and transfers keep the
sum of the balances of any accounts that include theirs. -/
theorem wallet_reconciles (es : List (SessionEvent U M)) :
    let s := run Sessions.step (Sessions.boot : Sessions U M) es
    (∀ u, s.db.getBalance u = rowSum s.db.ledger u ∧ 0 ≤ s.db.getBalance u) ∧
    (∀ ref, (s.db.ledger.countP fun tx => tx.providerRef = some ref) ≤ 1) ∧
    (∀ e, (∀ id, e ≠ .commit id) → (s.step e).db.ledger = s.db.ledger ∧
      ∀ u, (s.step e).db.getBalance u = s.db.getBalance u) ∧
    ∀ id x, s.sessions id = some x →
      ((s.step (.commit id)).db = s.db ∨ ∃ ws, Committed s id x ws) ∧
      ((∀ c ∈ x.operation.calls, c.Replays s.db) → (s.step (.commit id)).db = s.db) ∧
      ∀ accounts : Finset U,
        (∀ c ∈ x.operation.calls, c.TransfersWithin accounts ∨ c.Replays s.db) →
          ∑ u ∈ accounts, (s.step (.commit id)).db.getBalance u =
            ∑ u ∈ accounts, s.db.getBalance u := by
  intro s
  have h : Reconciled s := run_reconciled es
  refine ⟨?_, ?_, step_uncommitted, ?_⟩
  · intro u
    refine ⟨h.balance u, ?_⟩
    unfold Db.getBalance
    cases hb : s.db.balance u with
    | none => exact le_refl 0
    | some b => exact h.solvent u b hb
  · intro ref
    have hcount : (refsOf s.db.ledger).count ref = s.db.ledger.countP fun tx => tx.providerRef = some ref := by
      unfold refsOf
      rw [List.count, List.countP_filterMap]
      congr 1
      funext tx
      cases tx.providerRef with
      | none => simp
      | some r => simp only [Option.map_some, Option.getD_some, Option.some.injEq]; rfl
    rw [← hcount]
    exact List.nodup_iff_count_le_one.mp h.refs ref
  · intro id x hx
    exact ⟨commit_writes h hx, commit_replay h hx, fun accounts => commit_transfer h hx⟩

end Step

end Murlan
