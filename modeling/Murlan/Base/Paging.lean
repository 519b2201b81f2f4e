import Mathlib.Data.List.Nodup

/-!
# Reading a list in pages

A list is read from its front in pages of `n`, each page behind the id of the last row of the
page before. Rows may be added in front of the list between two requests.

* `behind_append`: rows in front of a cursor do not matter to what is behind it.
* `collect_eq`: following the cursor until there is none returns the rows that were there at
  the first request, if a cursor is given exactly with a full page.
* `collect_keyset`: the same where rows are ordered by a key, a page starts behind a key, and a
  cursor is given if the page does not reach the last row.
-/

namespace Murlan

variable {R I : Type*} [DecidableEq I]

/-- The rows behind a cursor; all of them behind none, and behind one that is not found. -/
def behind (id : R → I) (rows : List R) : Option I → List R
  | none => rows
  | some c =>
    match rows.findIdx? (fun r => id r = c) with
    | some i => rows.drop (i + 1)
    | none => rows

/-- All pages, from the cursor on, until there is no next one; none if `fuel` requests are
not enough. The request is given its number. -/
def collect (fetch : ℕ → Option I → List R × Option I) : ℕ → ℕ → Option I → Option (List R)
  | 0, _, _ => none
  | fuel + 1, k, cursor =>
    match (fetch k cursor).2 with
    | none => some (fetch k cursor).1
    | some next => (collect fetch fuel (k + 1) (some next)).map ((fetch k cursor).1 ++ ·)

variable {id : R → I}

/-- Behind a row is what follows it. -/
theorem behind_append {pre rest : List R} {r : R} (h : ((pre ++ r :: rest).map id).Nodup) :
    behind id (pre ++ r :: rest) (some (id r)) = rest := by
  have hpre : ∀ x ∈ pre, id x ≠ id r := by
    intro x hx heq
    rw [List.map_append, List.map_cons, List.nodup_append] at h
    exact h.2.2 _ (List.mem_map_of_mem hx) _ List.mem_cons_self heq
  have hnone : pre.findIdx? (fun x => id x = id r) = none := by
    rw [List.findIdx?_eq_none_iff]
    intro x hx
    simpa using hpre x hx
  have hfind : (pre ++ r :: rest).findIdx? (fun x => id x = id r) = some pre.length := by
    rw [List.findIdx?_append, hnone, List.findIdx?_cons]
    simp
  unfold behind
  dsimp only
  rw [hfind]
  simp

/-- A cursor is given exactly with a full page. -/
def Pages (id : R → I) (n : ℕ) (rows : ℕ → List R) (fetch : ℕ → Option I → List R × Option I) : Prop :=
  ∀ k cursor, fetch k cursor =
    ((behind id (rows k) cursor).take n,
      if n ≤ ((behind id (rows k) cursor).take n).length then ((behind id (rows k) cursor).take n).getLast?.map id
      else none)

variable {n : ℕ} {rows : ℕ → List R} {fetch : ℕ → Option I → List R × Option I} {base : List R}

/-- One request for the rest of the list. -/
theorem Pages.fetch_rest (h : Pages id n rows fetch) {k : ℕ} {cursor : Option I} {rest : List R}
    (hafter : behind id (rows k) cursor = rest) :
    fetch k cursor = (rest.take n, if n ≤ (rest.take n).length then (rest.take n).getLast?.map id else none) := by
  rw [h k cursor, hafter]

/-- What is behind the cursor is read to its end. -/
theorem collect_rest (h : Pages id n rows fetch) (hn : 0 < n) (hfront : ∀ k, ∃ newer, rows k = newer ++ base)
    (hids : ∀ k, ((rows k).map id).Nodup) {fuel : ℕ} :
    ∀ {k : ℕ} {cursor : Option I} {done rest : List R}, base = done ++ rest → behind id (rows k) cursor = rest →
      rest.length < fuel → collect fetch fuel k cursor = some rest := by
  induction fuel with
  | zero => intro k cursor done rest _ _ hfuel; omega
  | succ fuel ih =>
    intro k cursor done rest hbase hafter hfuel
    have hfetch := h.fetch_rest hafter
    unfold collect
    by_cases hfull : n ≤ rest.length
    · -- the page is full, and its last row is the next cursor
      have hlen : (rest.take n).length = n := List.length_take_of_le hfull
      obtain ⟨page, r, hpage⟩ : ∃ page r, rest.take n = page ++ [r] := by
        have hne : rest.take n ≠ [] := by
          intro hnil
          rw [hnil] at hlen
          simp only [List.length_nil] at hlen
          omega
        exact ⟨_, _, (List.dropLast_append_getLast hne).symm⟩
      have hnext : (fetch k cursor).2 = some (id r) := by
        rw [hfetch]
        dsimp only
        rw [if_pos (Nat.le_of_eq hlen.symm), hpage]
        simp
      have hpageof : (fetch k cursor).1 = rest.take n := by rw [hfetch]
      have hsplit : rest = page ++ r :: rest.drop n := by
        have happ := List.take_append_drop n rest
        rw [hpage, List.append_assoc] at happ
        exact happ.symm
      -- newer rows have come in front meanwhile, so what lies behind `r` is the same
      have hbehind : behind id (rows (k + 1)) (some (id r)) = rest.drop n := by
        obtain ⟨newer, hrows⟩ := hfront (k + 1)
        have hwhole : rows (k + 1) = (newer ++ done ++ page) ++ r :: rest.drop n := by
          rw [hrows, hbase]
          conv_lhs => rw [hsplit]
          simp only [List.append_assoc]
        have hnodup := hids (k + 1)
        rw [hwhole] at hnodup ⊢
        exact behind_append hnodup
      have hrest := @ih (k + 1) (some (id r)) (done ++ rest.take n) (rest.drop n)
        (by rw [List.append_assoc, List.take_append_drop]; exact hbase) hbehind
        (by rw [List.length_drop]; omega)
      rw [hnext, hpageof]
      dsimp only
      rw [hrest, Option.map_some, List.take_append_drop]
    -- a short page is the last one
    · have hnext : (fetch k cursor).2 = none := by
        rw [hfetch]
        dsimp only
        rw [if_neg]
        rw [List.length_take]
        omega
      have hpageof : (fetch k cursor).1 = rest := by
        rw [hfetch]
        exact List.take_of_length_le (by omega)
      rw [hnext, hpageof]

/-- **Following the cursor** until there is none returns the rows of the first request, each
once and in their order. -/
theorem collect_eq (h : Pages id n rows fetch) (hn : 0 < n) (hfirst : rows 0 = base)
    (hfront : ∀ k, ∃ newer, rows k = newer ++ base) (hids : ∀ k, ((rows k).map id).Nodup) :
    collect fetch (base.length + 1) 0 none = some base :=
  collect_rest h hn hfront hids (List.nil_append base).symm hfirst (Nat.lt_succ_self _)

/-! ### Pages by key -/

/-- The rows whose key is behind the cursor. -/
def keyedAfter (key : R → ℕ) (rows : List R) : Option ℕ → List R
  | none => rows
  | some c => rows.filter fun r => c < key r

/-- The key of the last row of a page, if there are rows behind it. -/
def keyedNext (key : R → ℕ) (page rows : List R) : Option ℕ :=
  match page.getLast?, rows.getLast? with
  | some r, some last => if key r < key last then some (key r) else none
  | _, _ => none

section Keyset

variable {S : Type*} {key : R → ℕ} {rows : List R} {show_ : R → S} {fetch : ℕ → Option ℕ → List S × Option ℕ}

/-- Past the last row there is no next page. -/
theorem keyedNext_whole {done rest : List R} (hrows : rows = done ++ rest) : keyedNext key rest rows = none := by
  unfold keyedNext
  cases hlast : rest.getLast? with
  | none => rfl
  | some r =>
    have hsame : rows.getLast? = some r := by
      rw [hrows, List.getLast?_append, hlast]
      rfl
    rw [hsame]
    simp

/-- The rows behind the last key of what has been read. -/
theorem keyedAfter_split (hsorted : rows.Pairwise fun a b => key a < key b) {front rest : List R} {r : R}
    (hrows : rows = front ++ r :: rest) : keyedAfter key rows (some (key r)) = rest := by
  rw [hrows, List.pairwise_append] at hsorted
  obtain ⟨-, hrest, hcross⟩ := hsorted
  have hfront : front.filter (fun x => decide (key r < key x)) = [] := by
    rw [List.filter_eq_nil_iff]
    intro x hx
    have := hcross x hx r List.mem_cons_self
    simp only [decide_eq_true_eq]
    omega
  have hkeep : rest.filter (fun x => decide (key r < key x)) = rest := by
    rw [List.filter_eq_self]
    intro x hx
    simpa using (List.pairwise_cons.mp hrest).1 x hx
  have hafter : keyedAfter key rows (some (key r)) = rows.filter fun x => decide (key r < key x) := rfl
  rw [hafter, hrows, List.filter_append, hfront, List.filter_cons]
  simp [hkeep]

/-- The pages collect the rows behind the cursor. -/
theorem collect_keyset_rest (hsorted : rows.Pairwise fun a b => key a < key b) (hn : 0 < n)
    (hfetch : ∀ k cursor, fetch k cursor =
      (((keyedAfter key rows cursor).take n).map show_, keyedNext key ((keyedAfter key rows cursor).take n) rows))
    {fuel : ℕ} : ∀ {k : ℕ} {cursor : Option ℕ} {done rest : List R}, rows = done ++ rest → keyedAfter key rows cursor = rest →
      rest.length < fuel → collect fetch fuel k cursor = some (rest.map show_) := by
  induction fuel with
  | zero =>
    intro k cursor done rest _ _ hfuel
    omega
  | succ fuel ih =>
    intro k cursor done rest hrows hafter hfuel
    have hpage := hfetch k cursor
    rw [hafter] at hpage
    unfold collect
    rw [hpage]
    by_cases hmore : n < rest.length
    · -- the page ends before the last row
      obtain ⟨page, r, hsplit⟩ : ∃ page r, rest.take n = page ++ [r] := by
        have hne : rest.take n ≠ [] := by
          intro hnil
          have hlen := congrArg List.length hnil
          rw [List.length_take, List.length_nil] at hlen
          omega
        exact ⟨_, _, (List.dropLast_append_getLast hne).symm⟩
      have hwhole : rows = (done ++ page) ++ r :: rest.drop n := by
        have hcut : rest = page ++ [r] ++ rest.drop n := by rw [← hsplit, List.take_append_drop]
        rw [hrows]
        conv_lhs => rw [hcut]
        simp
      have hdrop : rest.drop n ≠ [] := by
        intro hnil
        have hlen := congrArg List.length hnil
        rw [List.length_drop, List.length_nil] at hlen
        omega
      obtain ⟨last, hlast⟩ : ∃ last, (rest.drop n).getLast? = some last :=
        ⟨_, List.getLast?_eq_some_getLast hdrop⟩
      have hend : rows.getLast? = some last := by
        rw [hwhole, List.getLast?_append, List.getLast?_cons, hlast]
        rfl
      have hlt : key r < key last := by
        have hcopy := hsorted
        rw [hwhole, List.pairwise_append] at hcopy
        exact (List.pairwise_cons.mp hcopy.2.1).1 last (List.mem_of_getLast? hlast)
      have hnext : keyedNext key (rest.take n) rows = some (key r) := by
        unfold keyedNext
        rw [hsplit, hend, List.getLast?_append]
        simp [hlt]
      rw [hnext]
      have hrest := @ih (k + 1) (some (key r)) (done ++ rest.take n) (rest.drop n)
        (by rw [List.append_assoc, List.take_append_drop]; exact hrows) (keyedAfter_split hsorted hwhole)
        (by rw [List.length_drop]; omega)
      simp only [hrest, Option.map_some, ← List.map_append, List.take_append_drop]
    · rw [List.take_of_length_le (by omega), keyedNext_whole hrows]

/-- **Following the cursor** reads every row once, in the order of the keys. -/
theorem collect_keyset (hsorted : rows.Pairwise fun a b => key a < key b) (hn : 0 < n)
    (hfetch : ∀ k cursor, fetch k cursor =
      (((keyedAfter key rows cursor).take n).map show_, keyedNext key ((keyedAfter key rows cursor).take n) rows)) :
    collect fetch (rows.length + 1) 0 none = some (rows.map show_) :=
  collect_keyset_rest hsorted hn hfetch (List.nil_append rows).symm rfl (Nat.lt_succ_self _)

end Keyset

end Murlan
