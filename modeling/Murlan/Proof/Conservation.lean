import Mathlib.Tactic.Ring
import Mathlib.Algebra.Order.Ring.Int
import Murlan.Proof.Money

/-!
# Conservation

What the invariant of the money services says about the ledger of a match.

* `payoutRows_sum`: the winnings and the rake add up to the pot.
* `Contract`: what is promised of the books of a match.
* `match_money_contract`: every run of the services keeps the promise for every
  match.
-/

set_option linter.unusedSectionVars false

namespace Murlan

variable {U M : Type} [DecidableEq U] [DecidableEq M] {db : Db U M} {id : M} {r : MatchRecord U M}
  {s : Settlement} {winnerSeats : List ℕ}

/-- The signed sum of rows of the ledger. -/
def signedSum (rows : List (Transaction U M)) : ℤ := (rows.map Transaction.amountCents).sum

theorem signedSum_append (l l' : List (Transaction U M)) :
    signedSum (l ++ l') = signedSum l + signedSum l' := by
  unfold signedSum
  rw [List.map_append, List.sum_append]

theorem signedSum_const {α : Type} (l : List α) (f : α → Transaction U M) (c : ℤ)
    (hf : ∀ a, (f a).amountCents = c) : signedSum (l.map f) = l.length * c := by
  unfold signedSum
  rw [List.map_map]
  have hc : Transaction.amountCents ∘ f = fun _ => c := funext hf
  rw [hc, List.map_const', List.sum_replicate, nsmul_eq_mul]

/-! ## The sums of the three kinds of rows -/

/-- The stakes sum to the pot. -/
theorem stakeRows_sum (h : Sane r) : signedSum (stakeRows r) = -(r.potCents : ℤ) := by
  rw [h.pot]
  unfold stakeRows potCents
  split
  · rw [signedSum_const _ _ (-(r.stakeCents : ℤ)) fun _ => rfl]
    push_cast
    ring
  · rename_i hzero
    have : r.stakeCents = 0 := by omega
    rw [this]
    simp [signedSum]

/-- The refunds sum to the pot. -/
theorem refundRows_sum (h : Sane r) : signedSum (refundRows r) = r.potCents := by
  rw [h.pot]
  unfold refundRows potCents
  split
  · rw [signedSum_const _ _ (r.stakeCents : ℤ) fun _ => rfl]
    push_cast
    ring
  · rename_i hzero
    have : r.stakeCents = 0 := by omega
    rw [this]
    simp [signedSum]

/-- A payout's row is the payout. -/
theorem payoutRow_sum {payout : Payout} (h : (seatToUser r.players payout.seat).isSome = true) :
    signedSum (payoutRow r payout) = payout.amountCents := by
  obtain ⟨u, hu⟩ := Option.isSome_iff_exists.1 h
  unfold payoutRow
  rw [hu]
  simp only
  split
  · simp [signedSum]
  · rename_i hzero
    have : payout.amountCents = 0 := by omega
    rw [this]
    simp [signedSum]

/-- The payouts' rows sum to the payouts. -/
theorem payouts_sum (l : List Payout) (h : ∀ p ∈ l, (seatToUser r.players p.seat).isSome = true) :
    signedSum (l.flatMap (payoutRow r)) = ((l.map Payout.amountCents).sum : ℕ) := by
  induction l with
  | nil => rfl
  | cons p l ih =>
    rw [List.flatMap_cons, signedSum_append, payoutRow_sum (h p List.mem_cons_self),
      ih fun q hq => h q (List.mem_cons_of_mem p hq), List.map_cons, List.sum_cons]
    push_cast
    ring

/-- The rake's row is the rake. -/
theorem rakeRow_sum (r : MatchRecord U M) (s : Settlement) : signedSum (rakeRow r s) = s.rakeCents := by
  unfold rakeRow
  split
  · simp [signedSum]
  · rename_i hzero
    have : s.rakeCents = 0 := by omega
    rw [this]
    simp [signedSum]

/-- **The winnings and the rake add up to the pot.** -/
theorem payoutRows_sum (h : Winners r winnerSeats s) : signedSum (payoutRows r s) = r.potCents := by
  have hexact := splitPot_exact h.split
  unfold payoutRows
  split
  · have hplayers : ∀ p ∈ s.payouts, (seatToUser r.players p.seat).isSome = true := by
      intro p hp
      refine h.players p.seat ?_
      rw [← splitPot_seats h.split]
      exact List.mem_map_of_mem hp
    rw [signedSum_append, payouts_sum s.payouts hplayers, rakeRow_sum]
    exact_mod_cast hexact
  · rename_i hzero
    have : r.potCents = 0 := by omega
    rw [this]
    rfl

/-! ## The kinds of the rows -/

theorem stakeRows_bet (r : MatchRecord U M) : ∀ tx ∈ stakeRows r, tx.type = .bet := by
  intro tx htx
  unfold stakeRows at htx
  split at htx
  · obtain ⟨p, -, rfl⟩ := List.mem_map.1 htx
    rfl
  · cases htx

theorem refundRows_not_bet (r : MatchRecord U M) : ∀ tx ∈ refundRows r, tx.type ≠ .bet := by
  intro tx htx
  unfold refundRows at htx
  split at htx
  · obtain ⟨p, -, rfl⟩ := List.mem_map.1 htx
    simp [refundRow]
  · cases htx

/-- No payout is a stake. -/
theorem payoutRows_not_bet (r : MatchRecord U M) (s : Settlement) :
    ∀ tx ∈ payoutRows r s, tx.type ≠ .bet := by
  intro tx htx
  unfold payoutRows at htx
  split at htx
  · rcases List.mem_append.1 htx with htx | htx
    · obtain ⟨p, -, hp⟩ := List.mem_flatMap.1 htx
      unfold payoutRow at hp
      split at hp
      · cases hp
      · split at hp
        · rw [List.mem_singleton.1 hp]; simp
        · cases hp
    · unfold rakeRow at htx
      split at htx
      · rw [List.mem_singleton.1 htx]; simp
      · cases htx
  · cases htx

theorem bets_append {l l' : List (Transaction U M)} (h : ∀ tx ∈ l, tx.type = .bet)
    (h' : ∀ tx ∈ l', tx.type ≠ .bet) : (l ++ l').filter (fun tx => tx.type = .bet) = l := by
  rw [List.filter_append, List.filter_eq_self.2 fun tx htx => decide_eq_true (h tx htx),
    List.filter_eq_nil_iff.2 fun tx htx => by simpa using h' tx htx, List.append_nil]

/-! ## The contract -/

/-- Every winner of the row is paid and the house has its rake; nothing else. -/
def Paid (db : Db U M) (r : MatchRecord U M) : Prop :=
  r.status = .settled ∧ db.closesOf r.id = [.settled] ∧
    ∃ winnerSeats s, r.winnerSeats = some winnerSeats ∧ winnerSeats ≠ [] ∧ Winners r winnerSeats s ∧
      db.rowsOf r.id = stakeRows r ++ payoutRows r s

/-- Every player of the row has its stake back; nothing else. -/
def Returned (db : Db U M) (r : MatchRecord U M) : Prop :=
  r.status = .cancelled ∧ db.closesOf r.id = [.cancelled] ∧ db.rowsOf r.id = stakeRows r ++ refundRows r

/-- **What is promised of the books of a match.** -/
structure Contract (db : Db U M) (id : M) : Prop where
  /-- A match without a row has moved nothing. -/
  absent : db.find id = none → db.rowsOf id = []
  /-- Each player of a row was debited its stake once. -/
  debited : ∀ r, db.find id = some r →
    (db.rowsOf id).filter (fun tx => tx.type = .bet) = stakeRows r
  /-- The row is closed at most once. -/
  closed_once : (db.closesOf id).length ≤ 1
  /-- While the row is active nothing is paid out, returned or raked. -/
  active : ∀ r, db.find id = some r → r.status = .active → ∀ tx ∈ db.rowsOf id, tx.type = .bet
  /-- A closed row adds up to nothing. -/
  zero : ∀ r, db.find id = some r → r.status ≠ .active → signedSum (db.rowsOf id) = 0
  /-- A closed row is paid or returned, and wholly. -/
  whole : ∀ r, db.find id = some r → r.status ≠ .active → Paid db r ∨ Returned db r

theorem find_unique (hf : db.find id = some r) : ∀ x, db.find id = some x → x = r := by
  intro x hx
  rw [hf] at hx
  exact (Option.some.inj hx).symm

/-- A match that stands keeps its contract. -/
theorem Standing.contract (h : Standing db id) : Contract db id := by
  cases h with
  | absent hf hrows hcloses =>
    have hno : ∀ x, db.find id ≠ some x := by intro x; rw [hf]; simp
    refine ⟨fun _ => hrows, ?_, by rw [hcloses]; simp, ?_, ?_, ?_⟩ <;>
      exact fun x hx => absurd hx (hno x)
  -- staked and not closed: the stakes alone
  | active r hf hact hsane hrows hcloses =>
    have hrow := find_unique hf
    refine ⟨fun hn => absurd (hf.symm.trans hn) (by simp), ?_, by rw [hcloses]; simp, ?_, ?_, ?_⟩
    · intro x hx
      rw [hrow x hx, hrows]
      rw [List.filter_eq_self]
      exact fun tx htx => decide_eq_true (stakeRows_bet r tx htx)
    · intro x _ _
      rw [hrows]
      exact stakeRows_bet r
    · intro x hx hclosed
      exact absurd ((congrArg MatchRecord.status (hrow x hx)).trans hact) hclosed
    · intro x hx hclosed
      exact absurd ((congrArg MatchRecord.status (hrow x hx)).trans hact) hclosed
  -- the stakes and, against them, the payouts and the rake
  | settled r ws s hf hst hws hsane hw hrows hcloses =>
    have hrow := find_unique hf
    have hid : r.id = id := Db.find_id hf
    refine ⟨fun hn => absurd (hf.symm.trans hn) (by simp), ?_, by rw [hcloses]; simp, ?_, ?_, ?_⟩
    · intro x hx
      rw [hrow x hx, hrows]
      exact bets_append (stakeRows_bet r) (payoutRows_not_bet r s)
    · intro x hx hact
      rw [hrow x hx, hst] at hact
      cases hact
    · intro x _ _
      rw [hrows, signedSum_append, stakeRows_sum hsane, payoutRows_sum hw]
      omega
    · intro x hx _
      rw [hrow x hx]
      refine Or.inl ⟨hst, by rw [hid]; exact hcloses, ws, s, hws, ?_, hw, by rw [hid]; exact hrows⟩
      rintro rfl
      have hsplit := hw.split
      simp [splitPot] at hsplit
  -- the stakes and their refunds
  | cancelled r hf hst hsane hrows hcloses =>
    have hrow := find_unique hf
    have hid : r.id = id := Db.find_id hf
    refine ⟨fun hn => absurd (hf.symm.trans hn) (by simp), ?_, by rw [hcloses]; simp, ?_, ?_, ?_⟩
    · intro x hx
      rw [hrow x hx, hrows]
      exact bets_append (stakeRows_bet r) (refundRows_not_bet r)
    · intro x hx hact
      rw [hrow x hx, hst] at hact
      cases hact
    · intro x _ _
      rw [hrows, signedSum_append, stakeRows_sum hsane, refundRows_sum hsane]
      omega
    · intro x hx _
      rw [hrow x hx]
      exact Or.inr ⟨hst, by rw [hid]; exact hcloses, by rw [hid]; exact hrows⟩

/-- **The match money contract**: whatever calls of `escrow`, `settle`, `refund` and
`recoverOrphanedMatches` interleave, and whichever of their requests fail, the books
of every match keep it. -/
theorem match_money_contract (es : List (MoneyEvent U M)) (id : M) :
    Contract (run Money.step Money.empty es).db id :=
  ((MoneyOK.empty_ok.run_ok es).books id).contract

end Murlan
