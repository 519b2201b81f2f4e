import Murlan.Base.Run
import Murlan.Proof.Ledger

/-!
# The money of every match

* `Standing`: where the books of a match stand: no row, active with its stakes,
  settled or cancelled.
* `MoneyOK`: the invariant of the money services over any interleaving: who holds
  the claim of a match, what each task knows, and the standing of every match.
* `step_moneyOK`, `run_moneyOK`: every step and every run keep it.
-/

set_option linter.unusedSectionVars false

namespace Murlan

variable {U M : Type} [DecidableEq U] [DecidableEq M] {db db' : Db U M} {id : M}
  {r : MatchRecord U M} {m : Money U M} {t : ℕ}

/-! ## The books of a match -/

/-- The row of a match holds its pot and lists each seat once. -/
structure Sane (r : MatchRecord U M) : Prop where
  pot : r.potCents = potCents r.stakeCents r.players.length
  seats_nodup : (r.players.map MatchPlayer.seat).Nodup

/-- The winners of a settlement: each once, each a player of the match. -/
structure Winners (r : MatchRecord U M) (winnerSeats : List ℕ) (s : Settlement) : Prop where
  nodup : winnerSeats.Nodup
  players : ∀ w ∈ winnerSeats, (seatToUser r.players w).isSome = true
  split : splitPot r.potCents r.rakeBps winnerSeats = .ok s

/-- **Where the books of a match stand.** -/
inductive Standing (db : Db U M) (id : M) : Prop
  | absent : db.find id = none → db.rowsOf id = [] → db.closesOf id = [] → Standing db id
  | active (r : MatchRecord U M) : db.find id = some r → r.status = .active → Sane r →
      db.rowsOf id = stakeRows r → db.closesOf id = [] → Standing db id
  | settled (r : MatchRecord U M) (winnerSeats : List ℕ) (s : Settlement) : db.find id = some r →
      r.status = .settled → r.winnerSeats = some winnerSeats → Sane r → Winners r winnerSeats s →
      db.rowsOf id = stakeRows r ++ payoutRows r s → db.closesOf id = [.settled] → Standing db id
  | cancelled (r : MatchRecord U M) : db.find id = some r → r.status = .cancelled → Sane r →
      db.rowsOf id = stakeRows r ++ refundRows r → db.closesOf id = [.cancelled] → Standing db id

/-- A match stands by its own rows. -/
theorem Standing.congr (h : Standing db id) (hf : db'.find id = db.find id)
    (hr : db'.rowsOf id = db.rowsOf id) (hc : db'.closesOf id = db.closesOf id) : Standing db' id := by
  cases h with
  | absent h1 h2 h3 => exact .absent (hf.trans h1) (hr.trans h2) (hc.trans h3)
  | active r h1 h2 h3 h4 h5 => exact .active r (hf.trans h1) h2 h3 (hr.trans h4) (hc.trans h5)
  | settled r ws s h1 h2 h3 h4 h5 h6 h7 =>
    exact .settled r ws s (hf.trans h1) h2 h3 h4 h5 (hr.trans h6) (hc.trans h7)
  | cancelled r h1 h2 h3 h4 h5 => exact .cancelled r (hf.trans h1) h2 h3 (hr.trans h4) (hc.trans h5)

theorem Standing.of_absent (h : Standing db id) (hf : db.find id = none) :
    db.rowsOf id = [] ∧ db.closesOf id = [] := by
  cases h with
  | absent h1 h2 h3 => exact ⟨h2, h3⟩
  | active r h1 => rw [hf] at h1; cases h1
  | settled r ws s h1 => rw [hf] at h1; cases h1
  | cancelled r h1 => rw [hf] at h1; cases h1

theorem Standing.of_active (h : Standing db id) (hf : db.find id = some r) (hact : r.status = .active) :
    Sane r ∧ db.rowsOf id = stakeRows r ∧ db.closesOf id = [] := by
  cases h with
  | absent h1 => rw [hf] at h1; cases h1
  | active r' h1 h2 h3 h4 h5 => rw [hf] at h1; cases h1; exact ⟨h3, h4, h5⟩
  | settled r' ws s h1 h2 => rw [hf] at h1; cases h1; rw [hact] at h2; cases h2
  | cancelled r' h1 h2 => rw [hf] at h1; cases h1; rw [hact] at h2; cases h2

section Books

variable {rows : List (Transaction U M)} {closed : List MatchStatus} {row : Option (MatchRecord U M)}

/-- The books of a match get its rows. -/
theorem Books.rowsOf_self (h : Books id rows closed row db db') :
    db'.rowsOf id = db.rowsOf id ++ rows := by
  unfold Db.rowsOf
  rw [h.ledger, List.filter_append]
  congr 1
  rw [List.filter_eq_self]
  intro tx htx
  rw [decide_eq_true_eq]
  exact (h.mine tx htx).1

/-- Those of another do not. -/
theorem Books.rowsOf_other (h : Books id rows closed row db db') {x : M} (hx : x ≠ id) :
    db'.rowsOf x = db.rowsOf x := by
  unfold Db.rowsOf
  rw [h.ledger, List.filter_append]
  have hnone : rows.filter (fun tx => tx.matchId = some x) = [] := by
    rw [List.filter_eq_nil_iff]
    intro tx htx
    rw [(h.mine tx htx).1, decide_eq_true_eq]
    intro he
    exact hx (Option.some.inj he).symm
  rw [hnone, List.append_nil]

/-- The books of a match get its closing. -/
theorem Books.closesOf_self (h : Books id rows closed row db db') :
    db'.closesOf id = db.closesOf id ++ closed := by
  unfold Db.closesOf
  rw [h.closes, List.filter_append, List.map_append]
  congr 1
  rw [List.filter_eq_self.2 (fun c hc => by
    obtain ⟨st, -, rfl⟩ := List.mem_map.1 hc
    exact decide_eq_true rfl), List.map_map]
  exact List.map_id closed

/-- Those of another do not. -/
theorem Books.closesOf_other (h : Books id rows closed row db db') {x : M} (hx : x ≠ id) :
    db'.closesOf x = db.closesOf x := by
  unfold Db.closesOf
  rw [h.closes, List.filter_append]
  have hnone : (closed.map fun st => (id, st)).filter (fun c => c.1 = x) = [] := by
    rw [List.filter_eq_nil_iff]
    intro c hc
    obtain ⟨st, -, rfl⟩ := List.mem_map.1 hc
    rw [decide_eq_true_eq]
    exact fun he => hx he.symm
  rw [hnone, List.append_nil]

theorem Books.refsOK (h : Books id rows closed row db db') (hr : db.RefsOK) : db'.RefsOK := by
  intro tx htx ref x href hx
  rw [h.ledger] at htx
  rcases List.mem_append.1 htx with htx | htx
  · exact hr tx htx ref x href hx
  · rw [(h.mine tx htx).1, (h.mine tx htx).2 ref x href hx]

/-- A transaction leaves the books of every other match as they are. -/
theorem Books.standing_other (h : Books id rows closed row db db') {x : M} (hx : x ≠ id)
    (hs : Standing db x) : Standing db' x :=
  hs.congr (by rw [h.find, if_neg hx]) (h.rowsOf_other hx) (h.closesOf_other hx)

end Books

/-- The references of an active match are unused. -/
theorem fresh_of_active (hr : db.RefsOK) (hs : Standing db r.id) (hf : db.find r.id = some r)
    (hact : r.status = .active) (ref : ProviderRef M) (href : ref.matchId? = some r.id) :
    db.hasRef ref = false := by
  rw [Db.hasRef_false]
  intro tx htx he
  have hmine := hr tx htx ref r.id he href
  have hrow : tx ∈ db.rowsOf r.id := List.mem_filter.2 ⟨htx, decide_eq_true hmine⟩
  rw [(hs.of_active hf hact).2.1] at hrow
  unfold stakeRows at hrow
  split at hrow
  · obtain ⟨p, -, rfl⟩ := List.mem_map.1 hrow
    cases he
  · cases hrow

/-! ## Claims and knowledge of the tasks -/

/-- The match whose claim a task holds. -/
def Task.holds : Task U M → Option M
  | .escrowFind i _ | .escrowBalance i _ _ _ _ | .escrowCommit i _ => some i.matchId
  | .settleFind i _ => some i.matchId
  | .settleCommit r _ _ _ | .refundCommit r _ _ => some r.id
  | .refundFind id _ _ => some id
  | .recoverList _ _ | .recoverNext _ | .done _ => none

/-- What a task knows of the row of its match while it holds the claim. -/
def Task.Knows (db : Db U M) : Task U M → Prop
  | .escrowFind i (.answered none) => db.find i.matchId = none
  | .escrowBalance i _ _ _ _ => db.find i.matchId = none
  | .escrowCommit i .pending => db.find i.matchId = none
  | .settleFind i (.answered (some r)) => db.find i.matchId = some r
  | .settleCommit r s ws .pending => db.find r.id = some r ∧ r.status = .active ∧ Winners r ws s
  | .refundFind id _ (.answered (some r)) => db.find id = some r
  | .refundCommit r _ .pending => db.find r.id = some r ∧ r.status = .active
  | _ => True

/-- What a call knows is of its own match. -/
theorem Task.Knows.congr {a : Task U M} (h : a.Knows db)
    (hf : ∀ id, a.holds = some id → db'.find id = db.find id) : a.Knows db' := by
  unfold Task.Knows at h ⊢
  split at h
  · exact (hf _ rfl).trans h
  · exact (hf _ rfl).trans h
  · exact (hf _ rfl).trans h
  · exact (hf _ rfl).trans h
  · exact ⟨(hf _ rfl).trans h.1, h.2⟩
  · exact (hf _ rfl).trans h
  · exact ⟨(hf _ rfl).trans h.1, h.2⟩
  · trivial

/-! ## One task -/

theorem Money.set_tasks (m : Money U M) (t : ℕ) (a : Task U M) : (m.set t a).tasks t = some a :=
  Function.update_self ..

theorem Money.onDb_done {t : ℕ} {o : CallResult U M} (fate : Fate) (h : m.tasks t = some (.done o)) :
    m.onDb t fate = m := by
  unfold Money.onDb
  rw [h]

theorem Money.onResume_done {t : ℕ} {o : CallResult U M} (h : m.tasks t = some (.done o)) :
    m.onResume t = m := by
  unfold Money.onResume
  rw [h]

theorem Money.finish_tasks (m : Money U M) (t : ℕ) (id : M) (o : CallResult U M) :
    (m.finish t id o).tasks t = some (.done o) := Function.update_self ..

/-! ## The invariant -/

/-- **The invariant of the money services** over any interleaving. -/
structure MoneyOK (m : Money U M) : Prop where
  excl : ∀ t t' a b id, m.tasks t = some a → m.tasks t' = some b → a.holds = some id →
    b.holds = some id → t = t'
  claimed : ∀ t a id, m.tasks t = some a → a.holds = some id → m.inFlight id = true
  knows : ∀ t a, m.tasks t = some a → a.Knows m.db
  bound : ∀ t a, m.tasks t = some a → t < m.nextTask
  refs : m.db.RefsOK
  books : ∀ id, Standing m.db id

namespace MoneyOK

/-- The tasks after one of them has changed. -/
theorem tasks_set {m : Money U M} {t t' : ℕ} {a b : Task U M} (h : (m.set t a).tasks t' = some b) :
    (t' = t ∧ b = a) ∨ (t' ≠ t ∧ m.tasks t' = some b) := by
  by_cases ht : t' = t
  · subst ht
    left
    have : (m.set t' a).tasks t' = some a := Function.update_self ..
    rw [this] at h
    cases h
    exact ⟨rfl, rfl⟩
  · right
    have : (m.set t a).tasks t' = m.tasks t' := Function.update_of_ne ht ..
    rw [this] at h
    exact ⟨ht, h⟩

/-- A task goes on and keeps the claim it held, or holds none. -/
theorem set_ok {a b : Task U M} (h : MoneyOK m) (hb : m.tasks t = some b)
    (hh : a.holds = none ∨ a.holds = b.holds) (hk : a.Knows m.db) : MoneyOK (m.set t a) := by
  have hold : ∀ id, a.holds = some id → b.holds = some id := by
    intro id ha
    rcases hh with hh | hh
    · rw [ha] at hh; cases hh
    · rw [← hh]; exact ha
  refine ⟨?_, ?_, ?_, ?_, h.refs, h.books⟩
  · intro t₁ t₂ a₁ a₂ id h1 h2 hh1 hh2
    rcases tasks_set h1 with ⟨rfl, rfl⟩ | ⟨-, k1⟩ <;> rcases tasks_set h2 with ⟨rfl, rfl⟩ | ⟨-, k2⟩
    · rfl
    · exact h.excl _ _ _ _ id hb k2 (hold id hh1) hh2
    · exact h.excl _ _ _ _ id k1 hb hh1 (hold id hh2)
    · exact h.excl _ _ _ _ id k1 k2 hh1 hh2
  · intro t₁ a₁ id h1 hh1
    rcases tasks_set h1 with ⟨rfl, rfl⟩ | ⟨-, h1⟩
    · exact h.claimed _ _ id hb (hold id hh1)
    · exact h.claimed _ _ id h1 hh1
  · intro t₁ a₁ h1
    rcases tasks_set h1 with ⟨rfl, rfl⟩ | ⟨-, h1⟩
    · exact hk
    · exact h.knows _ _ h1
  · intro t₁ a₁ h1
    rcases tasks_set h1 with ⟨rfl, rfl⟩ | ⟨-, h1⟩
    · exact h.bound _ _ hb
    · exact h.bound _ _ h1

/-- A task drops its claim. -/
theorem release_ok {a b : Task U M} (h : MoneyOK m) (hb : m.tasks t = some b)
    (hid : b.holds = some id) (ha : a.holds = none) (hk : a.Knows m.db) :
    MoneyOK ((m.release id).set t a) := by
  have hs := h.set_ok hb (Or.inl ha) hk
  refine ⟨hs.excl, ?_, hs.knows, hs.bound, h.refs, h.books⟩
  intro t₁ a₁ x h1 hh1
  rcases tasks_set h1 with ⟨rfl, rfl⟩ | ⟨n1, h1⟩
  · rw [ha] at hh1; cases hh1
  · have hx : x ≠ id := by
      rintro rfl
      exact n1 (h.excl _ _ _ _ x h1 hb hh1 hid)
    have hin := h.claimed t₁ a₁ x h1 hh1
    show Function.update m.inFlight id false x = true
    rw [Function.update_of_ne hx]
    exact hin

theorem finish_ok {b : Task U M} (h : MoneyOK m) (hb : m.tasks t = some b) (hid : b.holds = some id)
    (o : CallResult U M) : MoneyOK (m.finish t id o) :=
  h.release_ok hb hid rfl trivial

/-- A task without a claim takes a free one. -/
theorem claim_ok {a b : Task U M} (h : MoneyOK m) (hb : m.tasks t = some b)
    (hfree : m.inFlight id = false) (ha : a.holds = some id) (hk : a.Knows m.db) :
    MoneyOK ((m.claim id).set t a) := by
  have hnone : ∀ t₁ a₁, m.tasks t₁ = some a₁ → a₁.holds ≠ some id := by
    intro t₁ a₁ h1 hh1
    have := h.claimed t₁ a₁ id h1 hh1
    rw [hfree] at this; cases this
  refine ⟨?_, ?_, ?_, ?_, h.refs, h.books⟩
  · intro t₁ t₂ a₁ a₂ x h1 h2 hh1 hh2
    rcases tasks_set h1 with ⟨rfl, rfl⟩ | ⟨-, k1⟩ <;> rcases tasks_set h2 with ⟨rfl, rfl⟩ | ⟨-, k2⟩
    · rfl
    · rw [ha] at hh1; cases hh1
      exact absurd hh2 (hnone _ _ k2)
    · rw [ha] at hh2; cases hh2
      exact absurd hh1 (hnone _ _ k1)
    · exact h.excl _ _ _ _ x k1 k2 hh1 hh2
  · intro t₁ a₁ x h1 hh1
    show Function.update m.inFlight id true x = true
    by_cases hx : x = id
    · rw [hx, Function.update_self]
    · rw [Function.update_of_ne hx]
      rcases tasks_set h1 with ⟨rfl, rfl⟩ | ⟨-, h1⟩
      · rw [ha] at hh1; cases hh1; exact absurd rfl hx
      · exact h.claimed _ _ x h1 hh1
  · intro t₁ a₁ h1
    rcases tasks_set h1 with ⟨rfl, rfl⟩ | ⟨-, h1⟩
    · exact hk
    · exact h.knows _ _ h1
  · intro t₁ a₁ h1
    rcases tasks_set h1 with ⟨rfl, rfl⟩ | ⟨-, h1⟩
    · exact h.bound _ _ hb
    · exact h.bound _ _ h1

/-- A new task without a claim. -/
theorem spawn_ok {a : Task U M} (h : MoneyOK m) (ha : a.holds = none) (hk : a.Knows m.db) :
    MoneyOK (m.spawn a) := by
  refine ⟨?_, ?_, ?_, ?_, h.refs, h.books⟩
  · intro t₁ t₂ a₁ a₂ x h1 h2 hh1 hh2
    rcases tasks_set h1 with ⟨rfl, rfl⟩ | ⟨-, k1⟩ <;> rcases tasks_set h2 with ⟨rfl, rfl⟩ | ⟨-, k2⟩
    · rfl
    · rw [ha] at hh1; cases hh1
    · rw [ha] at hh2; cases hh2
    · exact h.excl _ _ _ _ x k1 k2 hh1 hh2
  · intro t₁ a₁ x h1 hh1
    rcases tasks_set h1 with ⟨rfl, rfl⟩ | ⟨-, h1⟩
    · rw [ha] at hh1; cases hh1
    · exact h.claimed _ _ x h1 hh1
  · intro t₁ a₁ h1
    rcases tasks_set h1 with ⟨rfl, rfl⟩ | ⟨-, h1⟩
    · exact hk
    · exact h.knows _ _ h1
  · intro t₁ a₁ h1
    rcases tasks_set h1 with ⟨rfl, rfl⟩ | ⟨-, h1⟩
    · exact Nat.lt_succ_self _
    · exact (h.bound _ _ h1).trans (Nat.lt_succ_self _)

/-- A new task that takes a free claim. -/
theorem spawn_claim_ok {a : Task U M} (h : MoneyOK m) (hfree : m.inFlight id = false)
    (ha : a.holds = some id) (hk : a.Knows m.db) : MoneyOK ((m.claim id).spawn a) := by
  -- as a task that first holds nothing and then takes the claim
  have hspawn : MoneyOK (m.spawn (.done .refund)) := h.spawn_ok rfl trivial
  have hnew : (m.spawn (.done .refund)).tasks m.nextTask = some (.done .refund) := Function.update_self ..
  have h' := hspawn.claim_ok hnew hfree ha hk
  have he : (((m.spawn (.done .refund)).claim id).set m.nextTask a) = (m.claim id).spawn a := by
    unfold Money.spawn Money.set Money.claim
    simp only [Function.update_idem]
  rw [he] at h'
  exact h'

/-- The database changes by a transaction of the match a task holds. -/
theorem setDb_ok {rows : List (Transaction U M)} {closed : List MatchStatus}
    {row : Option (MatchRecord U M)} {b : Task U M} (h : MoneyOK m) (hb : m.tasks t = some b)
    (hid : b.holds = some id) (hbooks : Books id rows closed row m.db db') (hs : Standing db' id)
    (hk : b.Knows db') : MoneyOK (m.setDb db') := by
  refine ⟨h.excl, h.claimed, ?_, h.bound, hbooks.refsOK h.refs, ?_⟩
  · intro t₁ a₁ h1
    by_cases ht : t₁ = t
    · subst ht
      have h1' : m.tasks t₁ = some a₁ := h1
      rw [hb] at h1'
      cases h1'
      exact hk
    · refine (h.knows t₁ a₁ h1).congr fun x hx => ?_
      have hne : x ≠ id := by
        rintro rfl
        exact ht (h.excl _ _ _ _ x h1 hb hx hid)
      show db'.find x = m.db.find x
      rw [hbooks.find, if_neg hne]
  · intro x
    by_cases hx : x = id
    · rw [hx]; exact hs
    · exact hbooks.standing_other hx (h.books x)

/-! ## The transactions -/

/-- A transaction is committed whole or not at all. -/
theorem commit_cases (db : Db U M) (fate : Fate) (tx : Db U M → Except (WalletError U) (Db U M)) :
    (Money.commit db fate tx).2 ≠ .pending ∧ ((Money.commit db fate tx).1 = db ∨
      ∃ db', tx db = .ok db' ∧ (Money.commit db fate tx).1 = db') := by
  unfold Money.commit
  cases fate with
  | failed => exact ⟨by simp, Or.inl rfl⟩
  | answered =>
    cases h : tx db with
    | error e => exact ⟨by simp, Or.inl rfl⟩
    | ok db' => exact ⟨by simp, Or.inr ⟨db', rfl, rfl⟩⟩
  | lost =>
    cases h : tx db with
    | error e => exact ⟨by simp, Or.inl rfl⟩
    | ok db' => exact ⟨by simp, Or.inr ⟨db', rfl, rfl⟩⟩

/-- **A transaction keeps the invariant**, whatever becomes of it, if its commit
leaves its match's books in order. -/
theorem commit_ok {b : Task U M} {tx : Db U M → Except (WalletError U) (Db U M)}
    (h : MoneyOK m) (hb : m.tasks t = some b) (hid : b.holds = some id) (fate : Fate)
    (htx : ∀ db', tx m.db = .ok db' →
      (∃ rows closed row, Books id rows closed row m.db db') ∧ Standing db' id)
    (mk : Await (Option (WalletError U)) → Task U M) (hmk : ∀ ans, (mk ans).holds = some id)
    (hk : ∀ ans db, ans ≠ .pending → (mk ans).Knows db) :
    MoneyOK ((m.setDb (Money.commit m.db fate tx).1).set t (mk (Money.commit m.db fate tx).2)) := by
  obtain ⟨hans, hdb⟩ := commit_cases m.db fate tx
  set ans := (Money.commit m.db fate tx).2 with hansdef
  have hset : MoneyOK (m.set t (mk ans)) :=
    h.set_ok hb (Or.inr ((hmk ans).trans hid.symm)) (hk ans m.db hans)
  rcases hdb with hdb | ⟨db', htxdb, hdb⟩
  · rw [hdb]; exact hset
  · rw [hdb]
    obtain ⟨⟨rows, closed, row, hbooks⟩, hs⟩ := htx db' htxdb
    exact hset.setDb_ok (t := t) (b := mk ans) (Function.update_self ..) (hmk ans) hbooks hs
      (hk ans db' hans)

/-- An escrow leaves its match standing. -/
theorem escrow_standing {i : SeatedEscrow U M} (hs : Standing db i.matchId)
    (hfind : db.find i.matchId = none) (h : escrowTx i db = .ok db') :
    (∃ rows closed row, Books i.matchId rows closed row db db') ∧ Standing db' i.matchId := by
  have hb := escrowTx_books hfind h
  obtain ⟨hrows, hcloses⟩ := hs.of_absent hfind
  refine ⟨⟨_, _, _, hb⟩, .active i.record ?_ rfl ⟨rfl, i.seats_nodup⟩ ?_ ?_⟩
  · rw [hb.find, if_pos rfl]
  · rw [hb.rowsOf_self, hrows, List.nil_append]
  · rw [hb.closesOf_self, hcloses, List.nil_append]

/-- A settlement leaves its match standing. -/
theorem settle_standing {s : Settlement} {winnerSeats : List ℕ} (hr : db.RefsOK) (hs : Standing db r.id)
    (hfind : db.find r.id = some r) (hact : r.status = .active) (hw : Winners r winnerSeats s)
    (h : settleTx r s winnerSeats db = .ok db') :
    (∃ rows closed row, Books r.id rows closed row db db') ∧ Standing db' r.id := by
  obtain ⟨hsane, hrows, hcloses⟩ := hs.of_active hfind hact
  have hb := settleTx_books hfind hact (fresh_of_active hr hs hfind hact)
    (by rw [splitPot_seats hw.split]; exact hw.nodup) h
  refine ⟨⟨_, _, _, hb⟩, .settled (r.settled winnerSeats) winnerSeats s ?_ rfl rfl ⟨hsane.1, hsane.2⟩
    ⟨hw.1, hw.2, hw.3⟩ ?_ ?_⟩
  · rw [hb.find, if_pos rfl]
  · rw [hb.rowsOf_self, hrows]; rfl
  · rw [hb.closesOf_self, hcloses, List.nil_append]

/-- A refund leaves its match standing. -/
theorem refund_standing (hr : db.RefsOK) (hs : Standing db r.id) (hfind : db.find r.id = some r)
    (hact : r.status = .active) (h : refundTx r db = .ok db') :
    (∃ rows closed row, Books r.id rows closed row db db') ∧ Standing db' r.id := by
  obtain ⟨hsane, hrows, hcloses⟩ := hs.of_active hfind hact
  have hb := refundTx_books hfind hact (fresh_of_active hr hs hfind hact) hsane.seats_nodup h
  refine ⟨⟨_, _, _, hb⟩, .cancelled r.cancelled ?_ rfl ⟨hsane.1, hsane.2⟩ ?_ ?_⟩
  · rw [hb.find, if_pos rfl]
  · rw [hb.rowsOf_self, hrows]; rfl
  · rw [hb.closesOf_self, hcloses, List.nil_append]

/-! ## One step -/

/-- The answer of a read that was carried out is what was read. -/
theorem read_answered {α : Type} {fate : Fate} {a b : α} (h : Money.read fate a = .answered b) : b = a := by
  unfold Money.read at h
  split at h
  · cases h; rfl
  · cases h

/-- Every statement keeps the invariant. -/
theorem onDb_ok (h : MoneyOK m) (t : ℕ) (fate : Fate) : MoneyOK (m.onDb t fate) := by
  unfold Money.onDb
  split <;> rename_i hb
  · refine h.set_ok hb (Or.inr rfl) ?_
    cases ha : Money.read fate (m.db.find _) with
    | answered x =>
      cases x with
      | none => exact (read_answered ha).symm
      | some x => trivial
    | _ => trivial
  · rename_i i p rest ins
    have hf : m.db.find i.matchId = none := h.knows t _ hb
    exact h.set_ok hb (Or.inr rfl) hf
  · rename_i i
    exact h.commit_ok hb rfl fate (fun db' htx => escrow_standing (h.books _) (h.knows t _ hb) htx)
      (.escrowCommit i) (fun _ => rfl) (fun ans db hne => by cases ans <;> trivial)
  · refine h.set_ok hb (Or.inr rfl) ?_
    cases ha : Money.read fate (m.db.find _) with
    | answered x =>
      cases x with
      | none => trivial
      | some x => exact (read_answered ha).symm
    | _ => trivial
  · rename_i rec s ws
    obtain ⟨hfind, hact, hw⟩ := h.knows t _ hb
    exact h.commit_ok hb rfl fate (fun db' htx => settle_standing h.refs (h.books _) hfind hact hw htx)
      (.settleCommit rec s ws) (fun _ => rfl)
      (fun ans db hne => by cases ans <;> trivial)
  · refine h.set_ok hb (Or.inr rfl) ?_
    cases ha : Money.read fate (m.db.find _) with
    | answered x =>
      cases x with
      | none => trivial
      | some x => exact (read_answered ha).symm
    | _ => trivial
  · rename_i rec k
    obtain ⟨hfind, hact⟩ := h.knows t _ hb
    exact h.commit_ok hb rfl fate (fun db' htx => refund_standing h.refs (h.books _) hfind hact htx)
      (.refundCommit rec k) (fun _ => rfl)
      (fun ans db hne => by cases ans <;> trivial)
  · exact h.set_ok hb (Or.inr rfl) trivial
  · exact h

theorem precheck_ok {i : SeatedEscrow U M} {b : Task U M} (h : MoneyOK m) (hb : m.tasks t = some b)
    (hid : b.holds = some i.matchId) (hf : m.db.find i.matchId = none) (ins : List U)
    (rest : List (MatchPlayer U)) : MoneyOK (m.precheck t i ins rest) := by
  unfold Money.precheck
  split
  · exact h.set_ok hb (Or.inr hid.symm) hf
  · split
    · exact h.finish_ok hb hid _
    · exact h.set_ok hb (Or.inr hid.symm) hf

theorem refundEnds_ok {b : Task U M} (h : MoneyOK m) (hb : m.tasks t = some b) (hid : b.holds = some id)
    (sweep : Option (Sweep M)) (threw : Bool) : MoneyOK (m.refundEnds t id sweep threw) := by
  unfold Money.refundEnds
  split
  · exact h.finish_ok hb hid _
  · exact h.finish_ok hb hid _
  · exact h.finish_ok hb hid _
  · exact h.release_ok hb hid rfl trivial

theorem sweepLoop_ok {b : Task U M} (h : MoneyOK m) (hb : m.tasks t = some b)
    (live refunded : List M) (ids : List M) : MoneyOK (m.sweepLoop t live refunded ids) := by
  induction ids with
  | nil => exact h.set_ok hb (Or.inl rfl) trivial
  | cons id rest ih =>
    unfold Money.sweepLoop
    split
    · exact ih
    · split
      · exact h.set_ok hb (Or.inl rfl) trivial
      · rename_i hfree
        rw [Bool.not_eq_true] at hfree
        exact h.claim_ok hb hfree rfl trivial

theorem settleFound_ok {i : SeatedSettle M} {b : Task U M} (h : MoneyOK m) (hb : m.tasks t = some b)
    (hid : b.holds = some i.matchId) (r : Option (MatchRecord U M))
    (hf : ∀ x, r = some x → m.db.find i.matchId = some x) : MoneyOK (m.settleFound t i r) := by
  unfold Money.settleFound
  split
  · exact h.finish_ok hb hid _
  · rename_i x
    have hx := hf x rfl
    have hxid : x.id = i.matchId := Db.find_id hx
    split
    · exact h.finish_ok hb hid _
    · rename_i hact
      rw [not_not] at hact
      simp only
      split
      · exact h.finish_ok hb hid _
      · split
        · exact h.finish_ok hb hid _
        · rename_i s hs
          refine h.set_ok hb (Or.inr ?_) ⟨by rw [hxid]; exact hx, hact, i.seats_nodup.filter _, ?_, hs⟩
          · rw [hid, ← hxid]; rfl
          · intro w hw
            exact (List.mem_filter.1 hw).2

/-- Every answer keeps the invariant. -/
theorem onResume_ok (h : MoneyOK m) (t : ℕ) : MoneyOK (m.onResume t) := by
  unfold Money.onResume
  split <;> rename_i hb
  · rename_i i r
    unfold Money.escrowFound
    split
    · exact h.finish_ok hb rfl _
    · have hf : m.db.find i.matchId = none := h.knows t _ hb
      split
      · exact h.precheck_ok hb rfl hf [] i.players
      · exact h.set_ok hb (Or.inr rfl) hf
  · exact h.finish_ok hb rfl _
  · exact h.precheck_ok hb rfl (h.knows t _ hb) _ _
  · exact h.finish_ok hb rfl _
  · unfold Money.escrowCommitted
    split <;> exact h.finish_ok hb rfl _
  · exact h.finish_ok hb rfl _
  · rename_i i r
    refine h.settleFound_ok hb rfl r fun x hx => ?_
    subst hx
    exact h.knows t _ hb
  · exact h.finish_ok hb rfl _
  · exact h.finish_ok hb rfl _
  · exact h.finish_ok hb rfl _
  · exact h.finish_ok hb rfl _
  · rename_i id k r
    unfold Money.refundFound
    split
    · exact h.refundEnds_ok hb rfl k false
    · rename_i x
      have hx : m.db.find id = some x := h.knows t _ hb
      have hxid : x.id = id := Db.find_id hx
      split
      · exact h.refundEnds_ok hb rfl k false
      · rename_i hact
        rw [not_not] at hact
        refine h.set_ok hb (Or.inr ?_) ⟨by rw [hxid]; exact hx, hact⟩
        rw [← hxid]; rfl
  · exact h.refundEnds_ok hb rfl _ true
  · exact h.refundEnds_ok hb rfl _ false
  · exact h.refundEnds_ok hb rfl _ true
  · exact h.refundEnds_ok hb rfl _ true
  · exact h.sweepLoop_ok hb _ _ _
  · exact h.set_ok hb (Or.inl rfl) trivial
  · exact h.sweepLoop_ok hb _ _ _
  · exact h

/-- A movement of the wallet that is no match's leaves every match as it is. -/
theorem walletMove_ok (h : MoneyOK m) (u : U) (type : TransactionType) (delta : ℤ) (ref : Option String) :
    MoneyOK (m.walletMove u type delta ref) := by
  unfold Money.walletMove
  split
  · exact h
  · rename_i db hadj
    have hw := adjustBalance_wrote hadj
    have hled : db.ledger = m.db.ledger := hw.ledger.trans (List.append_nil _)
    set tx : Transaction U M := { account := .user u, type, amountCents := delta,
                                  providerRef := ref.map .other } with htx
    have hfind : ∀ x, (db.append tx).find x = m.db.find x := fun x => hw.find x
    have hrows : ∀ x, (db.append tx).rowsOf x = m.db.rowsOf x := by
      intro x
      show (db.ledger ++ [tx]).filter _ = m.db.ledger.filter _
      rw [hled, List.filter_append]
      have : [tx].filter (fun tx => tx.matchId = some x) = [] := by simp [htx]
      rw [this, List.append_nil]
    have hcloses : ∀ x, (db.append tx).closesOf x = m.db.closesOf x := by
      intro x
      show (db.closes.filter _).map _ = (m.db.closes.filter _).map _
      rw [hw.closes]
    refine ⟨h.excl, h.claimed, fun t₁ a₁ h1 => (h.knows t₁ a₁ h1).congr fun x _ => hfind x, h.bound, ?_,
      fun x => (h.books x).congr (hfind x) (hrows x) (hcloses x)⟩
    intro tx' htx' ref' x href hx
    rcases List.mem_append.1 (show tx' ∈ db.ledger ++ [tx] from htx') with h1 | h1
    · exact h.refs tx' (hled ▸ h1) ref' x href hx
    · rw [List.mem_singleton.1 h1, htx] at href
      obtain ⟨y, -, rfl⟩ := Option.map_eq_some_iff.1 href
      cases hx

/-- **One step keeps the invariant of the money services.** -/
theorem step_ok (h : MoneyOK m) (e : MoneyEvent U M) : MoneyOK (m.step e) := by
  cases e with
  | escrow i =>
    unfold Money.step Money.escrow
    simp only
    split
    · exact h.spawn_ok rfl trivial
    · rename_i hfree
      rw [Bool.not_eq_true] at hfree
      exact h.spawn_claim_ok hfree rfl trivial
  | settle i =>
    unfold Money.step Money.settle
    simp only
    split
    · exact h.spawn_ok rfl trivial
    · rename_i hfree
      rw [Bool.not_eq_true] at hfree
      exact h.spawn_claim_ok hfree rfl trivial
  | refund id =>
    unfold Money.step Money.refund
    simp only
    split
    · exact h.spawn_ok rfl trivial
    · rename_i hfree
      rw [Bool.not_eq_true] at hfree
      exact h.spawn_claim_ok hfree rfl trivial
  | recoverOrphanedMatches live => exact h.spawn_ok rfl trivial
  | db t fate => exact h.onDb_ok t fate
  | resume t => exact h.onResume_ok t
  | register u =>
    unfold Money.step Money.register
    simp only
    split
    · exact h
    · exact ⟨h.excl, h.claimed, fun t₁ a₁ h1 => (h.knows t₁ a₁ h1).congr fun _ _ => rfl, h.bound, h.refs,
        fun x => (h.books x).congr rfl rfl rfl⟩
  | walletMove u type delta ref => exact h.walletMove_ok u type delta ref
  | restart =>
    refine ⟨?_, ?_, ?_, ?_, h.refs, h.books⟩
    · intro t₁ t₂ a₁ a₂ x h1; cases h1
    · intro t₁ a₁ x h1; cases h1
    · intro t₁ a₁ h1; cases h1
    · intro t₁ a₁ h1; cases h1

theorem empty_ok : MoneyOK (Money.empty : Money U M) := by
  refine ⟨?_, ?_, ?_, ?_, ?_, fun id => .absent rfl rfl rfl⟩
  · intro t₁ t₂ a₁ a₂ x h1; cases h1
  · intro t₁ a₁ x h1; cases h1
  · intro t₁ a₁ h1; cases h1
  · intro t₁ a₁ h1; cases h1
  · intro tx htx; cases htx

/-- **Every run keeps the invariant of the money services.** -/
theorem run_ok (h : MoneyOK m) (es : List (MoneyEvent U M)) : MoneyOK (run Money.step m es) :=
  run_inv (P := MoneyOK) (fun _ e hm => hm.step_ok e) h es

end MoneyOK

end Murlan
