import Murlan.Spec.Money

/-!
# What a money transaction writes

Each of the three transactions of a match, if it commits, adds known rows to the
ledger and changes the row of its own match alone (`Books`):

* `escrowTx_books`: the row and one stake of every player.
* `settleTx_books`: the payouts, the rake and `settled`.
* `refundTx_books`: every stake returned and `cancelled`.
-/

set_option linter.unusedSectionVars false

namespace Murlan

variable {U M : Type} [DecidableEq U] [DecidableEq M] {db db' : Db U M} {id : M}
  {r : MatchRecord U M}

/-! ## The rows of a match -/

/-- The row of a stake. -/
def stakeRow (r : MatchRecord U M) (p : MatchPlayer U) : Transaction U M :=
  { account := .user p.userId, type := .bet, amountCents := -r.stakeCents, matchId := some r.id,
    reason := some "stake" }

/-- One stake of each player; a free match has none. -/
def stakeRows (r : MatchRecord U M) : List (Transaction U M) :=
  if 0 < r.stakeCents then r.players.map (stakeRow r) else []

/-- The row of a refund. -/
def refundRow (r : MatchRecord U M) (p : MatchPlayer U) : Transaction U M :=
  { account := .user p.userId, type := .payout, amountCents := r.stakeCents, matchId := some r.id,
    reason := some "refund", providerRef := some (.refund r.id p.seat) }

/-- The rows of a refunded match; a free one has none. -/
def refundRows (r : MatchRecord U M) : List (Transaction U M) :=
  if 0 < r.stakeCents then r.players.map (refundRow r) else []

/-- The winnings of a seat; a share of no cents has no row. -/
def payoutRow (r : MatchRecord U M) (payout : Payout) : List (Transaction U M) :=
  match seatToUser r.players payout.seat with
  | none => []
  | some userId =>
    if 0 < payout.amountCents then
      [{ account := .user userId, type := .payout, amountCents := payout.amountCents,
         matchId := some r.id, reason := some "winnings",
         providerRef := some (.payout r.id payout.seat) }]
    else []

/-- The row of the rake, when there is one. -/
def rakeRow (r : MatchRecord U M) (s : Settlement) : List (Transaction U M) :=
  if 0 < s.rakeCents then
    [{ account := .house, type := .rake, amountCents := s.rakeCents, matchId := some r.id,
       reason := some "rake", providerRef := some (.rake r.id) }]
  else []

/-- The winnings and the rake; an empty pot has none. -/
def payoutRows (r : MatchRecord U M) (s : Settlement) : List (Transaction U M) :=
  if 0 < r.potCents then s.payouts.flatMap (payoutRow r) ++ rakeRow r s else []

namespace Db

/-- The rows of a match. -/
def rowsOf (db : Db U M) (id : M) : List (Transaction U M) :=
  db.ledger.filter fun tx => tx.matchId = some id

/-- How a match was closed, each time it was. -/
def closesOf (db : Db U M) (id : M) : List MatchStatus :=
  (db.closes.filter fun c => c.1 = id).map Prod.snd

/-- A reference that belongs to a match stands only in rows of that match. -/
def RefsOK (db : Db U M) : Prop :=
  ∀ tx ∈ db.ledger, ∀ ref id, tx.providerRef = some ref → ref.matchId? = some id → tx.matchId = some id

/-- No row carries the reference. -/
theorem hasRef_false {ref : ProviderRef M} :
    db.hasRef ref = false ↔ ∀ tx ∈ db.ledger, tx.providerRef ≠ some ref := by
  unfold hasRef
  rw [List.any_eq_false]
  constructor
  · intro h tx htx he
    exact h tx htx (decide_eq_true he)
  · intro h tx htx he
    exact h tx htx (of_decide_eq_true he)

/-! ## Finding a match -/

/-- A change of rows that keeps their ids is found under them. -/
theorem find_map {f : MatchRecord U M → MatchRecord U M} (hf : ∀ x, (f x).id = x.id)
    {l : List (MatchRecord U M)} {id : M} :
    (l.map f).find? (fun x => x.id = id) = (l.find? fun x => x.id = id).map f := by
  rw [List.find?_map]
  have hcomp : ((fun x : MatchRecord U M => decide (x.id = id)) ∘ f) = fun x => decide (x.id = id) := by
    funext x
    simp [hf]
  rw [hcomp]

theorem find_id (h : db.find id = some r) : r.id = id := by
  have := List.find?_some h
  exact of_decide_eq_true this

/-- A new match is found under its id. -/
theorem find_create (hr : db.find r.id = none) (id : M) :
    (db.create r).find id = if id = r.id then some r else db.find id := by
  unfold create
  rw [hr]
  simp only [Option.isSome_none, Bool.false_eq_true, if_false]
  unfold find at hr ⊢
  simp only [List.find?_append]
  by_cases h : id = r.id
  · rw [if_pos h, h, hr]
    simp
  · rw [if_neg h]
    have hnone : ([r] : List (MatchRecord U M)).find? (fun x => x.id = id) = none := by
      simp [Ne.symm h]
    rw [hnone, Option.or_none]

/-- A closed match is found closed, the others as they were. -/
theorem find_close {status : MatchStatus} {change : MatchRecord U M → MatchRecord U M}
    (hc : ∀ x, (change x).id = x.id) (hr : db.find r.id = some r) (hact : r.status = .active) (id : M) :
    (db.close r.id status change).find id = if id = r.id then some (change r) else db.find id := by
  unfold close find
  simp only
  rw [find_map (by intro x; split <;> simp [hc])]
  by_cases h : id = r.id
  · rw [if_pos h, h]
    unfold find at hr
    rw [hr, Option.map_some, if_pos ⟨rfl, hact⟩]
  · rw [if_neg h]
    cases hf : db.matches_.find? (fun x => x.id = id) with
    | none => rfl
    | some x =>
      have hx : x.id = id := by simpa using List.find?_some hf
      rw [Option.map_some, if_neg (by rintro ⟨h1, -⟩; exact h (hx.symm.trans h1))]

end Db

/-! ## Writing rows -/

/-- The ledger has grown by `rows`, and no match has changed. -/
structure Wrote (rows : List (Transaction U M)) (db db' : Db U M) : Prop where
  ledger : db'.ledger = db.ledger ++ rows
  matches_ : db'.matches_ = db.matches_
  closes : db'.closes = db.closes

theorem Wrote.refl (db : Db U M) : Wrote [] db db := ⟨by simp, rfl, rfl⟩

theorem Wrote.trans {rows rows' : List (Transaction U M)} {db₁ db₂ db₃ : Db U M}
    (h : Wrote rows db₁ db₂) (h' : Wrote rows' db₂ db₃) : Wrote (rows ++ rows') db₁ db₃ :=
  ⟨by rw [h'.1, h.1, List.append_assoc], h'.2.trans h.2, h'.3.trans h.3⟩

theorem Wrote.find {rows : List (Transaction U M)} (h : Wrote rows db db') (id : M) :
    db'.find id = db.find id := by
  unfold Db.find
  rw [h.matches_]

theorem bind_ok {ε α β : Type} {x : Except ε α} {f : α → Except ε β} {b : β}
    (h : (x >>= f) = .ok b) : ∃ a, x = .ok a ∧ f a = .ok b := by
  cases x with
  | error e => cases h
  | ok a => exact ⟨a, rfl, h⟩

/-- A balance moved writes no row. -/
theorem adjustBalance_wrote {u : U} {delta : ℤ} (h : db.adjustBalance u delta = some db') :
    Wrote [] db db' := by
  unfold Db.adjustBalance at h
  split at h
  · cases h
  · split at h
    · cases h
    · cases h
      exact ⟨by simp, rfl, rfl⟩

/-- A debit writes its row. -/
theorem debit_wrote {u : U} {amount : ℕ} {opts : DebitOptions M}
    (h : db.debit u amount opts = .ok db') :
    Wrote [{ account := .user u, type := opts.type, amountCents := -amount, matchId := opts.matchId,
             reason := opts.reason }] db db' := by
  unfold Db.debit at h
  obtain ⟨-, -, h⟩ := bind_ok h
  split at h
  · cases h
  · rename_i db₁ hadj
    cases h
    have hw := adjustBalance_wrote hadj
    exact ⟨by rw [← hw.ledger.trans (List.append_nil _)]; rfl, hw.2, hw.3⟩

/-- A credit applied writes no other row. -/
theorem applyCredit_wrote {u : U} {current : ℤ} {amount : ℕ}
    (h : db.applyCredit u current amount = .ok db') : Wrote [] db db' := by
  unfold Db.applyCredit at h
  split at h
  · cases h
  · split at h
    · cases h
    · rename_i hadj
      cases h
      exact adjustBalance_wrote hadj

/-- A credit with a fresh reference adds its row. -/
theorem credit_wrote {u : U} {amount : ℕ} {opts : CreditOptions M} {ref : ProviderRef M}
    (hopts : opts.providerRef = some ref) (hfresh : db.hasRef ref = false)
    (h : db.credit u amount opts = .ok db') :
    Wrote [{ account := .user u, type := opts.type, amountCents := amount, matchId := opts.matchId,
             reason := opts.reason, providerRef := some ref }] db db' := by
  unfold Db.credit at h
  obtain ⟨-, -, h⟩ := bind_ok h
  split at h
  · cases h
  · simp only [hopts, Db.appendIdempotent, hfresh, Bool.false_eq_true, if_false, Bool.not_true] at h
    have hw := applyCredit_wrote h
    exact ⟨by rw [hw.ledger, List.append_nil]; rfl, hw.2, hw.3⟩

theorem recordRake_wrote {amount : ℕ} {ref : ProviderRef M} (hfresh : db.hasRef ref = false) :
    Wrote [{ account := .house, type := .rake, amountCents := amount, matchId := some id,
             reason := some "rake", providerRef := some ref }] db (db.recordRake amount id ref) := by
  unfold Db.recordRake Db.appendIdempotent
  rw [hfresh]
  exact ⟨rfl, rfl, rfl⟩

/-- **A loop of movements** whose references are fresh and differ writes the rows of
its items in order. -/
theorem foldlM_wrote {α : Type} {f : Db U M → α → Except (WalletError U) (Db U M)}
    {row : α → List (Transaction U M)} (key : α → Option (ProviderRef M))
    (hrow : ∀ a, ∀ tx ∈ row a, tx.providerRef = key a)
    (hf : ∀ db a db', (∀ k, key a = some k → db.hasRef k = false) → f db a = .ok db' →
      Wrote (row a) db db') (l : List α) :
    ∀ db db' : Db U M, l.Pairwise (fun a b => ∀ k, key a = some k → key b ≠ some k) →
      (∀ a ∈ l, ∀ k, key a = some k → db.hasRef k = false) → l.foldlM f db = .ok db' →
      Wrote (l.flatMap row) db db' := by
  induction l with
  | nil =>
    intro db db' _ _ h
    cases h
    exact Wrote.refl db
  | cons a l ih =>
    intro db db' hp hfresh h
    rw [List.foldlM_cons] at h
    obtain ⟨db₁, h1, h2⟩ := bind_ok h
    rw [List.pairwise_cons] at hp
    have hw := hf db a db₁ (hfresh a List.mem_cons_self) h1
    rw [List.flatMap_cons]
    refine hw.trans (ih db₁ db' hp.2 (fun b hb k hk => ?_) h2)
    have hold := hfresh b (List.mem_cons_of_mem a hb) k hk
    rw [Db.hasRef_false] at hold ⊢
    intro tx htx
    rw [hw.ledger] at htx
    rcases List.mem_append.1 htx with htx | htx
    · exact hold tx htx
    · rw [hrow a tx htx]
      exact fun hka => hp.1 b hb k hka hk

/-! ## The transactions of a match -/

/-- A transaction of the match `id`: the rows it adds are of that match, it records
the closings `closed`, and of all matches only `id` may have changed, to `row`. -/
structure Books (id : M) (rows : List (Transaction U M)) (closed : List MatchStatus)
    (row : Option (MatchRecord U M)) (db db' : Db U M) : Prop where
  ledger : db'.ledger = db.ledger ++ rows
  closes : db'.closes = db.closes ++ closed.map fun status => (id, status)
  find : ∀ x, db'.find x = if x = id then row else db.find x
  mine : ∀ tx ∈ rows, tx.matchId = some id ∧
    ∀ ref x, tx.providerRef = some ref → ref.matchId? = some x → x = id

/-- The rows of the stakes are the match's. -/
theorem stakeRows_mine (r : MatchRecord U M) : ∀ tx ∈ stakeRows r, tx.matchId = some r.id ∧
    ∀ ref x, tx.providerRef = some ref → ref.matchId? = some x → x = r.id := by
  intro tx htx
  unfold stakeRows at htx
  split at htx
  · obtain ⟨p, -, rfl⟩ := List.mem_map.1 htx
    exact ⟨rfl, fun ref x h => by cases h⟩
  · cases htx

/-- The rows of the refunds are the match's. -/
theorem refundRows_mine (r : MatchRecord U M) : ∀ tx ∈ refundRows r, tx.matchId = some r.id ∧
    ∀ ref x, tx.providerRef = some ref → ref.matchId? = some x → x = r.id := by
  intro tx htx
  unfold refundRows at htx
  split at htx
  · obtain ⟨p, -, rfl⟩ := List.mem_map.1 htx
    exact ⟨rfl, fun ref x h hx => by cases h; cases hx; rfl⟩
  · cases htx

/-- A payout's row carries its reference. -/
theorem payoutRow_mem {payout : Payout} {tx : Transaction U M} (h : tx ∈ payoutRow r payout) :
    tx.matchId = some r.id ∧ tx.providerRef = some (.payout r.id payout.seat) := by
  unfold payoutRow at h
  split at h
  · cases h
  · split at h
    · rw [List.mem_singleton.1 h]; exact ⟨rfl, rfl⟩
    · cases h

/-- The rows of the payouts are the match's. -/
theorem payoutRows_mine (r : MatchRecord U M) (s : Settlement) :
    ∀ tx ∈ payoutRows r s, tx.matchId = some r.id ∧
      ∀ ref x, tx.providerRef = some ref → ref.matchId? = some x → x = r.id := by
  intro tx htx
  unfold payoutRows at htx
  split at htx
  · rcases List.mem_append.1 htx with htx | htx
    · obtain ⟨p, -, hp⟩ := List.mem_flatMap.1 htx
      obtain ⟨h1, h2⟩ := payoutRow_mem hp
      refine ⟨h1, fun ref x h hx => ?_⟩
      rw [h2] at h; cases h; cases hx; rfl
    · unfold rakeRow at htx
      split at htx
      · rw [List.mem_singleton.1 htx]
        exact ⟨rfl, fun ref x h hx => by cases h; cases hx; rfl⟩
      · cases htx
  · cases htx

/-- **The escrow transaction** creates the row and debits every player once. -/
theorem escrowTx_books {i : EscrowInput U M} (hfind : db.find i.matchId = none)
    (h : escrowTx i db = .ok db') :
    Books i.matchId (stakeRows i.record) [] (some i.record) db db' := by
  have hcreate : (db.create i.record).ledger = db.ledger ∧ (db.create i.record).closes = db.closes := by
    unfold Db.create
    split <;> exact ⟨rfl, rfl⟩
  have hw : Wrote (stakeRows i.record) (db.create i.record) db' := by
    unfold escrowTx at h
    unfold stakeRows
    rw [show i.record.stakeCents = i.stakeCents from rfl]
    split at h
    · rename_i hpos
      rw [if_pos hpos, ← List.flatMap_singleton' (i.record.players.map (stakeRow i.record)),
        List.flatMap_map]
      refine foldlM_wrote (fun _ => none) (fun p tx htx => ?_) (fun db p db' _ hp => ?_) _ _ _ ?_ ?_ h
      · rw [List.mem_singleton.1 htx]; rfl
      · exact debit_wrote hp
      · exact List.pairwise_iff_forall_sublist.2 fun _ k hk => by cases hk
      · intro a _ k hk; cases hk
    · rename_i hpos
      rw [if_neg hpos]
      cases h
      exact Wrote.refl _
  refine ⟨by rw [hw.ledger, hcreate.1], by rw [hw.closes, hcreate.2]; simp, fun x => ?_,
    stakeRows_mine i.record⟩
  rw [hw.find, Db.find_create (r := i.record) hfind]
  rfl

/-- Rows written and then the row closed. -/
theorem Wrote.books {rows : List (Transaction U M)} (status : MatchStatus)
    (change : MatchRecord U M → MatchRecord U M) (h : Wrote rows db db')
    (hc : ∀ x, (change x).id = x.id) (hfind : db.find r.id = some r) (hact : r.status = .active)
    (hmine : ∀ tx ∈ rows, tx.matchId = some r.id ∧
      ∀ ref x, tx.providerRef = some ref → ref.matchId? = some x → x = r.id) :
    Books r.id rows [status] (some (change r)) db (db'.close r.id status change) := by
  refine ⟨h.ledger, ?_, fun x => ?_, hmine⟩
  · show db'.closes ++ [(r.id, status)] = _
    rw [h.closes]
    rfl
  · rw [Db.find_close hc ((h.find r.id).trans hfind) hact, h.find]

theorem nodup_pairwise_ref {α : Type} {l : List α} (seat : α → ℕ) (key : ℕ → ProviderRef M)
    (hkey : ∀ a b, key a = key b → a = b) (hnd : (l.map seat).Nodup) :
    l.Pairwise fun a b => ∀ k, some (key (seat a)) = some k → some (key (seat b)) ≠ some k := by
  rw [List.Nodup, List.pairwise_map] at hnd
  refine hnd.imp fun {a b} hne k hk hk' => hne ?_
  rw [← hk] at hk'
  exact (hkey _ _ (Option.some.inj hk')).symm

/-- **The settlement transaction** pays the winnings and the rake and settles the row. -/
theorem settleTx_books {s : Settlement} {winnerSeats : List ℕ} (hfind : db.find r.id = some r)
    (hact : r.status = .active) (hfresh : ∀ ref, ref.matchId? = some r.id → db.hasRef ref = false)
    (hnd : (s.payouts.map Payout.seat).Nodup) (h : settleTx r s winnerSeats db = .ok db') :
    Books r.id (payoutRows r s) [.settled] (some (r.settled winnerSeats)) db db' := by
  unfold settleTx at h
  obtain ⟨db₁, h1, h2⟩ := bind_ok h
  cases h2
  refine Wrote.books .settled (fun x => x.settled winnerSeats) ?_ (fun x => rfl) hfind hact
    (payoutRows_mine r s)
  unfold payWinners at h1
  unfold payoutRows
  split at h1
  · rename_i hpot
    rw [if_pos hpot]
    obtain ⟨paid, hpaid, hrake⟩ := bind_ok h1
    -- the fold over the winners writes the row of each that is owed something
    have hw : Wrote (s.payouts.flatMap (payoutRow r)) db paid := by
      refine foldlM_wrote (fun p => some (.payout r.id p.seat)) (fun p tx htx => (payoutRow_mem htx).2)
        (fun db p db' hk hp => ?_) _ _ _
        (nodup_pairwise_ref Payout.seat (.payout r.id) (fun a b hab => by cases hab; rfl) hnd)
        (fun p _ k hk => hfresh k (by cases hk; rfl)) hpaid
      unfold payoutOf at hp
      unfold payoutRow
      cases hu : seatToUser r.players p.seat with
      | none =>
        simp only [hu] at hp
        cases hp
      | some u =>
        simp only [hu] at hp ⊢
        split at hp
        · rename_i hpos
          rw [if_pos hpos]
          exact credit_wrote rfl (hk _ rfl) hp
        · rename_i hpos
          rw [if_neg hpos]
          cases hp
          exact Wrote.refl _
    refine hw.trans ?_
    unfold rakeRow
    cases hrake
    split
    · -- the payouts have not used the reference of the rake
      refine recordRake_wrote ?_
      have hold := hfresh (.rake r.id) rfl
      rw [Db.hasRef_false] at hold ⊢
      intro tx htx
      rw [hw.ledger] at htx
      rcases List.mem_append.1 htx with htx | htx
      · exact hold tx htx
      · obtain ⟨p, -, hp⟩ := List.mem_flatMap.1 htx
        rw [(payoutRow_mem hp).2]
        exact fun hk => by cases hk
    · exact Wrote.refl _
  · rename_i hpot
    rw [if_neg hpot]
    cases h1
    exact Wrote.refl _

/-- **The refund transaction** returns every stake and cancels the row. -/
theorem refundTx_books (hfind : db.find r.id = some r) (hact : r.status = .active)
    (hfresh : ∀ ref, ref.matchId? = some r.id → db.hasRef ref = false)
    (hnd : (r.players.map MatchPlayer.seat).Nodup) (h : refundTx r db = .ok db') :
    Books r.id (refundRows r) [.cancelled] (some r.cancelled) db db' := by
  unfold refundTx at h
  obtain ⟨db₁, h1, h2⟩ := bind_ok h
  cases h2
  refine Wrote.books .cancelled MatchRecord.cancelled ?_ (fun x => rfl) hfind hact (refundRows_mine r)
  unfold returnStakes at h1
  unfold refundRows
  split at h1
  · rename_i hpos
    rw [if_pos hpos, ← List.flatMap_singleton' (r.players.map (refundRow r)), List.flatMap_map]
    refine foldlM_wrote (fun p => some (.refund r.id p.seat)) (fun p tx htx => ?_)
      (fun db p db' hk hp => credit_wrote rfl (hk _ rfl) hp) _ _ _
      (nodup_pairwise_ref MatchPlayer.seat (.refund r.id) (fun a b hab => by cases hab; rfl) hnd)
      (fun p _ k hk => hfresh k (by cases hk; rfl)) h1
    rw [List.mem_singleton.1 htx]
  · rename_i hpos
    rw [if_neg hpos]
    cases h1
    exact Wrote.refl _

end Murlan
