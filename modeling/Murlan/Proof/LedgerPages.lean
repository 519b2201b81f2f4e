import Murlan.Base.Run
import Murlan.Spec.LedgerPages
import Mathlib.Tactic.Linarith

/-!
# Ledger paging is complete for whole page sizes

The route takes the length of a page as its size before it is rounded down, the service after.
Where the size is a whole number the two agree, and a client that follows the cursors reads
every row (`collect_eq`). Where it is not, no page is ever full, and the client stops at the
first (`pages_complete_iff`).
-/

namespace Murlan

section Pages

variable {U M : Type} [DecidableEq U] [DecidableEq M]

namespace InMemoryLedger

/-- Ids rise with the rows. -/
structure Numbered (l : InMemoryLedger U M) : Prop where
  rising : (l.rows.map LedgerEntry.id).Pairwise (· < ·)
  below : ∀ r ∈ l.rows, r.id ≤ l.seq

variable {l : InMemoryLedger U M}

omit [DecidableEq U] [DecidableEq M] in
theorem numbered_empty : Numbered ({} : InMemoryLedger U M) :=
  ⟨List.Pairwise.nil, fun _ hr => absurd hr List.not_mem_nil⟩

omit [DecidableEq U] in
theorem append_rows (l : InMemoryLedger U M) (tx : Transaction U M) : ∃ new, (l.append tx).rows = l.rows ++ new := by
  unfold append
  split
  · exact ⟨[], (List.append_nil _).symm⟩
  · exact ⟨_, rfl⟩

omit [DecidableEq U] in
/-- A new row has the next number. -/
theorem Numbered.append (h : Numbered l) (tx : Transaction U M) : Numbered (l.append tx) := by
  unfold InMemoryLedger.append
  split
  · exact h
  · constructor
    · simp only [List.map_append, List.map_cons, List.map_nil]
      refine List.pairwise_append.mpr ⟨h.rising, List.pairwise_singleton _ _, ?_⟩
      intro i hi j hj
      obtain ⟨r, hr, rfl⟩ := List.mem_map.mp hi
      obtain rfl := List.mem_singleton.mp hj
      exact Nat.lt_succ_of_le (h.below r hr)
    · intro r hr
      rcases List.mem_append.mp hr with hr | hr
      · exact Nat.le_succ_of_le (h.below r hr)
      · obtain rfl := List.mem_singleton.mp hr
        exact Nat.le_refl _

omit [DecidableEq U] in
theorem Numbered.run (h : Numbered l) (txs : List (Transaction U M)) : Numbered (run InMemoryLedger.append l txs) :=
  run_inv (fun _ tx hl => hl.append tx) h txs

omit [DecidableEq U] in
/-- Rows are added behind the others. -/
theorem run_rows (l : InMemoryLedger U M) (txs : List (Transaction U M)) :
    ∃ new, (run InMemoryLedger.append l txs).rows = l.rows ++ new := by
  induction txs generalizing l with
  | nil => exact ⟨[], (List.append_nil _).symm⟩
  | cons tx txs ih =>
    obtain ⟨new, hnew⟩ := append_rows l tx
    obtain ⟨more, hmore⟩ := ih (l.append tx)
    exact ⟨new ++ more, by rw [run_cons, hmore, hnew, List.append_assoc]⟩

omit [DecidableEq M] in
/-- The ids of a user's rows, newest first, are distinct. -/
theorem Numbered.mine_nodup (h : Numbered l) (userId : Account U) :
    ((l.mine userId).reverse.map LedgerEntry.id).Nodup := by
  rw [List.map_reverse, List.nodup_reverse]
  have hall : (l.rows.map LedgerEntry.id).Nodup := h.rising.imp Nat.ne_of_lt
  exact hall.sublist (List.filter_sublist.map LedgerEntry.id)

end InMemoryLedger

variable {l : InMemoryLedger U M} {batch : ℕ → List (Transaction U M)}

omit [DecidableEq U] in
theorem ledgerAt_numbered (h : l.Numbered) (k : ℕ) : (ledgerAt l batch k).Numbered := by
  induction k with
  | zero => exact h
  | succ k ih => exact ih.run (batch k)

/-- What is added between the requests stands in front. -/
theorem ledgerAt_mine (l : InMemoryLedger U M) (batch : ℕ → List (Transaction U M)) (userId : Account U) (k : ℕ) :
    ∃ newer, ((ledgerAt l batch k).mine userId).reverse = newer ++ (l.mine userId).reverse := by
  have hrows : ∃ new, (ledgerAt l batch k).rows = l.rows ++ new := by
    induction k with
    | zero => exact ⟨[], (List.append_nil _).symm⟩
    | succ k ih =>
      obtain ⟨new, hnew⟩ := ih
      obtain ⟨more, hmore⟩ := InMemoryLedger.run_rows (ledgerAt l batch k) (batch k)
      refine ⟨new ++ more, ?_⟩
      rw [← List.append_assoc, ← hnew]
      exact hmore
  obtain ⟨new, hnew⟩ := hrows
  unfold InMemoryLedger.mine
  rw [hnew, List.filter_append, List.reverse_append]
  exact ⟨_, rfl⟩

/-! ## The two clamps -/

theorem clampPage_bounds (q : ℚ) : 1 ≤ clampPage q ∧ clampPage q ≤ 500 := by
  unfold clampPage
  exact ⟨le_min (by norm_num) (le_max_left _ _), min_le_left _ _⟩

theorem clampPage_of_bounds {q : ℚ} (h : 1 ≤ q ∧ q ≤ 500) : clampPage q = q := by
  unfold clampPage
  rw [max_eq_right h.1, min_eq_right h.2]

theorem takeOf_bounds (limit : JsNumber) : 1 ≤ limit.takeOf ∧ limit.takeOf ≤ 500 := by
  cases limit with
  | nan => exact clampPage_bounds 200
  | infinity => exact ⟨by norm_num [JsNumber.takeOf], le_refl _⟩
  | negInfinity => exact ⟨le_refl _, by norm_num [JsNumber.takeOf]⟩
  | fin q => exact clampPage_bounds _

theorem floor_bounds {q : ℚ} (h : 1 ≤ q ∧ q ≤ 500) : 1 ≤ ⌊q⌋ ∧ ⌊q⌋ ≤ 500 := by
  constructor
  · exact Int.le_floor.mpr (by exact_mod_cast h.1)
  · have hle : (⌊q⌋ : ℚ) ≤ 500 := (Int.floor_le q).trans h.2
    exact_mod_cast hle

theorem pageTake_of_bounds {q : ℚ} (h : 1 ≤ q ∧ q ≤ 500) : pageTake q = ⌊q⌋ := by
  obtain ⟨hlo, hhi⟩ := floor_bounds h
  unfold pageTake
  rw [max_eq_right hlo, min_eq_right hhi]

/-- The rows of one page. -/
def pageSize (limit : JsNumber) : ℕ := ⌊limit.takeOf⌋.toNat

theorem pageSize_cast (limit : JsNumber) : (pageSize limit : ℤ) = ⌊limit.takeOf⌋ := by
  have hlo := (floor_bounds (takeOf_bounds limit)).1
  exact Int.toNat_of_nonneg (by omega)

theorem pageSize_pos (limit : JsNumber) : 0 < pageSize limit := by
  have hlo := (floor_bounds (takeOf_bounds limit)).1
  have hcast := pageSize_cast limit
  omega

omit [DecidableEq M] in
theorem listTransactionsPage_eq (l : InMemoryLedger U M) (userId : Account U) (limit : JsNumber) (cursor : Option ℕ) :
    listTransactionsPage l userId limit.takeOf cursor =
      (behind LedgerEntry.id (l.mine userId).reverse cursor).take (pageSize limit) := by
  have hlo := (floor_bounds (takeOf_bounds limit)).1
  unfold listTransactionsPage InMemoryLedger.listByUser pageSize
  rw [pageTake_of_bounds (takeOf_bounds limit), max_eq_right (by omega)]

omit [DecidableEq M] in
/-- A page of a size that is no whole number is never full. -/
theorem getTransactions_last {limit : JsNumber} (h : limit.takeOf ≠ ⌊limit.takeOf⌋) (l : InMemoryLedger U M)
    (userId : Account U) (cursor : Option ℕ) : (getTransactions l userId limit cursor).2 = none := by
  unfold getTransactions
  dsimp only
  rw [clampPage_of_bounds (takeOf_bounds limit), listTransactionsPage_eq]
  refine if_neg (not_le.mpr ?_)
  have hlen : (((behind LedgerEntry.id (l.mine userId).reverse cursor).take (pageSize limit)).length : ℚ) ≤
      (⌊limit.takeOf⌋ : ℚ) := by
    rw [← pageSize_cast]
    exact_mod_cast List.length_take_le _ _
  exact hlen.trans_lt (lt_of_le_of_ne (Int.floor_le _) h.symm)

theorem followPages_fraction {limit : JsNumber} (h : limit.takeOf ≠ ⌊limit.takeOf⌋)
    (l : InMemoryLedger U M) (batch : ℕ → List (Transaction U M)) (userId : Account U) (fuel : ℕ) :
    followPages l batch userId limit (fuel + 1) = some ((l.mine userId).reverse.take (pageSize limit)) := by
  simp only [followPages, collect, getTransactions_last h]
  exact congrArg some (listTransactionsPage_eq _ userId limit none)

/-- Where the size is a whole number, a cursor is given with a full page. -/
theorem getTransactions_pages {limit : JsNumber} (h : limit.takeOf = ⌊limit.takeOf⌋) (l : InMemoryLedger U M)
    (batch : ℕ → List (Transaction U M)) (userId : Account U) :
    Pages LedgerEntry.id (pageSize limit) (fun k => ((ledgerAt l batch k).mine userId).reverse)
      (fun k cursor => getTransactions (ledgerAt l batch k) userId limit cursor) := by
  intro k cursor
  have hfull : ∀ n : ℕ, clampPage limit.takeOf ≤ (n : ℚ) ↔ pageSize limit ≤ n := by
    intro n
    rw [clampPage_of_bounds (takeOf_bounds limit), h, ← pageSize_cast]
    exact_mod_cast Iff.rfl
  unfold getTransactions
  dsimp only
  rw [listTransactionsPage_eq]
  simp only [hfull]

/-- **Ledger paging.** The pages have all the rows of the user that were there at the first
request, newest first and nothing else, exactly where the page size is a whole number or all
the rows fit in one page. -/
theorem pages_complete_iff (txs : List (Transaction U M)) (batch : ℕ → List (Transaction U M)) (userId : Account U)
    (limit : JsNumber) :
    (∃ fuel, followPages (run InMemoryLedger.append {} txs) batch userId limit fuel =
        some ((run InMemoryLedger.append {} txs).mine userId).reverse) ↔
      limit.takeOf = ⌊limit.takeOf⌋ ∨
        (((run InMemoryLedger.append ({} : InMemoryLedger U M) txs).mine userId).length : ℤ) ≤ ⌊limit.takeOf⌋ := by
  have hnumbered := (InMemoryLedger.numbered_empty (U := U) (M := M)).run txs
  by_cases hwhole : limit.takeOf = ⌊limit.takeOf⌋
  · have hall := collect_eq (getTransactions_pages hwhole (run InMemoryLedger.append {} txs) batch userId)
      (pageSize_pos limit) rfl (ledgerAt_mine _ batch userId)
      fun k => (ledgerAt_numbered hnumbered k).mine_nodup userId
    exact iff_of_true ⟨_, hall⟩ (.inl hwhole)
  · -- there is no second request
    have hone := fun fuel => followPages_fraction hwhole (run InMemoryLedger.append {} txs) batch userId fuel
    rw [or_iff_right hwhole, ← pageSize_cast, Int.ofNat_le]
    constructor
    · rintro ⟨fuel, hfuel⟩
      cases fuel with
      | zero => cases hfuel
      | succ fuel =>
        rw [hone, Option.some.injEq] at hfuel
        have hlen := congrArg List.length hfuel
        rw [List.length_take, List.length_reverse] at hlen
        omega
    · intro hfits
      refine ⟨1, ?_⟩
      rw [hone 0, List.take_of_length_le (by rw [List.length_reverse]; exact hfits)]

/-! ## A page of one and a half rows -/

/-- A deposit of one dollar. -/
def someDeposit : Transaction Unit Unit := { account := .user (), type := .deposit, amountCents := 100 }

/-- Two deposits, and `limit=1.5`: the client gets one row and no cursor. -/
theorem pages_lost :
    followPages (run InMemoryLedger.append {} [someDeposit, someDeposit]) (fun _ => []) (.user ()) (.fin (3 / 2)) 2 =
        some [{ id := 2, tx := someDeposit }] ∧
      ¬∃ fuel, followPages (run InMemoryLedger.append {} [someDeposit, someDeposit]) (fun _ => []) (.user ())
        (.fin (3 / 2)) fuel =
          some ((run InMemoryLedger.append {} [someDeposit, someDeposit]).mine (.user ())).reverse := by
  refine ⟨by decide +kernel, ?_⟩
  rintro ⟨fuel, hfuel⟩
  cases fuel with
  | zero => cases hfuel
  | succ fuel =>
    rw [followPages_fraction (by decide +kernel)] at hfuel
    exact absurd hfuel (by decide +kernel)

end Pages

end Murlan
