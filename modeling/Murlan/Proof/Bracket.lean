import Murlan.Base.Knockout
import Murlan.Proof.Outcomes

/-!
# The bracket of a tournament

A bracket is a flat list searched by round and index. It is the list of the pairings of a
knockout, round by round, up to the round in play.

* `Drawn`: the bracket of a tournament is that of a fair knockout of its players.
* `decideMatch_drawn`, `nextRound_drawn`: what a report does to it.
* `Bracketed`: the invariant of a row; `RowStep`: what may become of a row.
* `BracketOK`: what a bracket looks like, and `bracket_invariant` for every run.
-/

namespace Murlan

open Knockout (slot Fair wins pairs)

/-- With at most one element that meets `p`, changing the first is changing all. -/
theorem modify_findIdx {α : Type} {p : α → Bool} (f : α → α) :
    ∀ {l : List α}, l.Pairwise (fun a b => p a = true → p b = false) →
      l.modify (l.findIdx p) f = l.map fun a => if p a then f a else a := by
  intro l
  induction l with
  | nil => exact fun _ => rfl
  | cons a l ih =>
    intro h
    rw [List.pairwise_cons] at h
    rw [List.findIdx_cons, List.map_cons]
    cases hp : p a with
    | true =>
      have hrest : ∀ b ∈ l, (if p b then f b else b) = b := by
        intro b hb
        rw [h.1 b hb hp]
        rfl
      rw [cond_true, List.modify_zero_cons, List.map_congr_left hrest, List.map_id', if_pos rfl]
    | false =>
      rw [cond_false, List.modify_succ_cons, ih h.2]
      rfl

namespace Tournament

variable {U : Type} {t t' : Tournament U} {winner : ℕ → ℕ → Option U} {R r i n : ℕ} {u : U} {m : BracketMatch U}

/-! ## The pairings of a knockout -/

/-- The players in the order of their registration. -/
def seed (t : Tournament U) (j : ℕ) : Option U := t.playerIds[j]?

/-- A pairing of the knockout. -/
def place (t : Tournament U) (winner : ℕ → ℕ → Option U) (r i : ℕ) : BracketMatch U :=
  { round := r, index := i, aUserId := slot t.seed winner r (2 * i), bUserId := slot t.seed winner r (2 * i + 1),
    winnerId := winner r i }

/-- The pairings of a round. -/
def block (t : Tournament U) (winner : ℕ → ℕ → Option U) (r : ℕ) : List (BracketMatch U) :=
  (List.range (pairs t.capacity r)).map (t.place winner r)

/-- The pairings of the first `n` rounds. -/
def draw (t : Tournament U) (winner : ℕ → ℕ → Option U) (n : ℕ) : List (BracketMatch U) :=
  (List.range n).flatMap (t.block winner)

theorem draw_succ : t.draw winner (n + 1) = t.draw winner n ++ t.block winner n := by
  unfold draw
  rw [List.range_succ, List.flatMap_append, List.flatMap_singleton]

/-- The slots of a bracket drawn up to a round. -/
theorem mem_draw : m ∈ t.draw winner n ↔
    m.round < n ∧ m.index < pairs t.capacity m.round ∧ m = t.place winner m.round m.index := by
  unfold draw block
  simp only [List.mem_flatMap, List.mem_range, List.mem_map]
  constructor
  · rintro ⟨r, hr, i, hi, rfl⟩
    exact ⟨hr, hi, rfl⟩
  · rintro ⟨hr, hi, hm⟩
    exact ⟨m.round, hr, m.index, hi, hm.symm⟩

theorem place_mem_draw (hr : r < n) (hi : i < pairs t.capacity r) : t.place winner r i ∈ t.draw winner n :=
  mem_draw.2 ⟨hr, hi, rfl⟩

/-- Every pairing has its own round and index. -/
theorem draw_keys (t : Tournament U) (winner : ℕ → ℕ → Option U) (n : ℕ) :
    ((t.draw winner n).map fun m => (m.round, m.index)).Nodup := by
  have hflat : (t.draw winner n).map (fun m => (m.round, m.index)) =
      (List.range n).flatMap fun r => (List.range (pairs t.capacity r)).map fun i => (r, i) := by
    unfold draw block
    rw [List.map_flatMap]
    simp only [List.map_map]
    rfl
  rw [hflat, List.nodup_flatMap]
  refine ⟨fun r _ => List.nodup_range.map fun i j hij => (Prod.mk.inj hij).2, ?_⟩
  refine List.nodup_range.imp fun {r r'} hne => ?_
  intro x hx hx'
  obtain ⟨i, -, rfl⟩ := List.mem_map.1 hx
  obtain ⟨j, -, hj⟩ := List.mem_map.1 hx'
  exact hne (Prod.mk.inj hj).1.symm

/-- No slot appears twice. -/
theorem draw_pairwise (t : Tournament U) (winner : ℕ → ℕ → Option U) (n r i : ℕ) :
    (t.draw winner n).Pairwise fun a b => isMatch r i a = true → isMatch r i b = false := by
  have hkeys := List.pairwise_map.1 (t.draw_keys winner n)
  refine hkeys.imp fun {a b} hne ha => ?_
  unfold isMatch at ha ⊢
  rw [decide_eq_true_eq] at ha
  rw [decide_eq_false_iff_not]
  intro hb
  exact hne (by rw [ha.1, ha.2, hb.1, hb.2])

/-- The search finds the pairing of the key. -/
theorem find_draw (h : (t.draw winner n).find? (isMatch r i) = some m) :
    r < n ∧ i < pairs t.capacity r ∧ m = t.place winner r i := by
  have hkey := List.find?_some h
  unfold isMatch at hkey
  rw [decide_eq_true_eq] at hkey
  obtain ⟨hr, hi, hm⟩ := mem_draw.1 (List.mem_of_find?_eq_some h)
  rw [hkey.1, hkey.2] at hi hm
  exact ⟨hkey.1 ▸ hr, hi, hm⟩

/-- **A pairing of the last round is decided.** -/
theorem decideMatch_draw (hb : t.bracket = t.draw winner (R + 1)) (i : ℕ) (u : U) :
    (t.decideMatch R i u).bracket = (t.decideMatch R i u).draw (wins winner R i u) (R + 1) := by
  show t.bracket.modify (t.bracket.findIdx (isMatch R i)) _ = t.draw (wins winner R i u) (R + 1)
  rw [hb, modify_findIdx _ (t.draw_pairwise winner (R + 1) R i)]
  unfold draw
  rw [List.map_flatMap]
  have hblock : ∀ r ∈ List.range (R + 1), (t.block winner r).map (fun m =>
      if isMatch R i m then { m with winnerId := some u } else m) = t.block (wins winner R i u) r := by
    intro r hr
    rw [List.mem_range] at hr
    unfold block
    rw [List.map_map]
    refine List.map_congr_left fun j _ => ?_
    have hslot : ∀ k, slot t.seed (wins winner R i u) r k = slot t.seed winner r k :=
      fun k => Knockout.slot_wins (by omega)
    show (if isMatch R i (t.place winner r j) then _ else _) = _
    unfold place
    rw [hslot, hslot]
    unfold isMatch wins
    simp only [decide_eq_true_eq]
    split <;> rfl
  rw [List.flatMap_def, List.map_congr_left hblock, ← List.flatMap_def]

/-! ## One round -/

theorem block_sorted (t : Tournament U) (winner : ℕ → ℕ → Option U) (r : ℕ) :
    (t.block winner r).Pairwise fun a b => a.index ≤ b.index := by
  unfold block
  rw [List.pairwise_map]
  refine List.pairwise_lt_range.imp fun {i j} hij => ?_
  show i ≤ j
  omega

/-- A round's slots are its block. -/
theorem filter_draw (t : Tournament U) (winner : ℕ → ℕ → Option U) (r : ℕ) : ∀ n,
    (t.draw winner n).filter (fun m => m.round = r) = if r < n then t.block winner r else [] := by
  intro n
  induction n with
  | zero => rfl
  | succ n ih =>
    have hrounds : ∀ m ∈ t.block winner n, m.round = n := by
      intro m hm
      obtain ⟨i, -, rfl⟩ := List.mem_map.1 hm
      rfl
    rw [draw_succ, List.filter_append, ih]
    by_cases hr : r = n
    · subst hr
      have hall : (t.block winner r).filter (fun m => m.round = r) = t.block winner r :=
        List.filter_eq_self.2 fun m hm => decide_eq_true (hrounds m hm)
      rw [hall, if_neg (by omega), if_pos (by omega), List.nil_append]
    · have hnone : (t.block winner n).filter (fun m => m.round = r) = [] := by
        rw [List.filter_eq_nil_iff]
        intro m hm
        rw [decide_eq_true_eq, hrounds m hm]
        omega
      rw [hnone, List.append_nil]
      by_cases hlt : r < n
      · rw [if_pos hlt, if_pos (by omega)]
      · rw [if_neg hlt, if_neg (by omega)]

/-- The pairings of a round, in order. -/
theorem roundMatches_draw (hb : t.bracket = t.draw winner n) (r : ℕ) :
    t.roundMatches r = if r < n then t.block winner r else [] := by
  unfold roundMatches
  rw [hb, filter_draw]
  split
  · exact (block_sorted t winner r).insertionSort_eq
  · rfl

theorem roundMatches_last (hb : t.bracket = t.draw winner (R + 1)) : t.roundMatches R = t.block winner R := by
  rw [roundMatches_draw hb, if_pos (by omega)]

theorem block_length (t : Tournament U) (winner : ℕ → ℕ → Option U) (r : ℕ) :
    (t.block winner r).length = pairs t.capacity r := by
  unfold block
  rw [List.length_map, List.length_range]

theorem draw_length (t : Tournament U) (winner : ℕ → ℕ → Option U) (n : ℕ) :
    (t.draw winner n).length = ((List.range n).map (pairs t.capacity)).sum := by
  induction n with
  | zero => rfl
  | succ n ih =>
    rw [draw_succ, List.length_append, ih, block_length, List.range_succ, List.map_append, List.sum_append,
      List.map_cons, List.map_nil, List.sum_cons, List.sum_nil, Nat.add_zero]

/-- A round is made of its players, two and two. -/
theorem pairings_eq (r : ℕ) : ∀ (k : ℕ) (l : List U), pairings r k l =
    (List.range (l.length / 2)).map fun i =>
      { round := r, index := k + i, aUserId := l[2 * i]?, bUserId := l[2 * i + 1]?, winnerId := none } := by
  intro k l
  induction k, l using pairings.induct with
  | case1 k a b rest ih =>
    have hlen : (a :: b :: rest).length / 2 = rest.length / 2 + 1 := by
      simp only [List.length_cons]
      omega
    rw [pairings, ih, hlen, List.range_succ_eq_map, List.map_cons, List.map_map]
    congr 1
    refine List.map_congr_left fun i _ => ?_
    show BracketMatch.mk r (k + 1 + i) _ _ _ = BracketMatch.mk r (k + (i + 1)) _ _ _
    congr 1
    omega
  | case2 l k h =>
    match l with
    | [] => simp [pairings]
    | [_] => simp [pairings]
    | a :: b :: rest => exact absurd rfl (h a b rest)

/-- Where `f` has values up to `n`, they are found in order. -/
theorem filterMap_range {f : ℕ → Option U} : ∀ n, (∀ i < n, (f i).isSome = true) →
    ((List.range n).filterMap f).length = n ∧ ∀ j < n, ((List.range n).filterMap f)[j]? = f j := by
  intro n
  induction n with
  | zero => exact fun _ => ⟨rfl, fun j hj => absurd hj (by omega)⟩
  | succ n ih =>
    intro h
    obtain ⟨hlen, hget⟩ := ih fun i hi => h i (by omega)
    obtain ⟨u, hu⟩ := Option.isSome_iff_exists.1 (h n (by omega))
    have hlast : [n].filterMap f = [u] := by
      rw [List.filterMap_cons, hu, List.filterMap_nil]
    rw [List.range_succ, List.filterMap_append, hlast]
    refine ⟨by rw [List.length_append, hlen, List.length_singleton], fun j hj => ?_⟩
    by_cases hjn : j < n
    · rw [List.getElem?_append_left (by omega)]
      exact hget j hjn
    · have hj : j = n := by omega
      subst hj
      rw [List.getElem?_append_right (by omega), hlen, Nat.sub_self, hu]
      rfl

/-! ## The invariant of a row -/

/-- The bracket is that of a fair knockout of the players, up to round `R`, and all rounds
before that one are decided. -/
structure Drawn (t : Tournament U) (winner : ℕ → ℕ → Option U) (R : ℕ) : Prop where
  bracket : t.bracket = t.draw winner (R + 1)
  fair : Fair t.seed winner
  decided : ∀ r < R, ∀ i < pairs t.capacity r, (winner r i).isSome = true
  later : ∀ r i, R < r → winner r i = none
  last : 0 < pairs t.capacity R

/-- The tournament is over with this champion, unless it was cancelled. -/
def Crowned (t : Tournament U) (c : U) : Prop :=
  t.status = .finished ∧ t.winnerId = some c ∨ t.status = .awaitingConfirmation ∧ t.pendingWinnerId = some c ∨
    t.status = .cancelled

/-- Players are still joining; the last round is being played; the final is decided. -/
inductive Phase (t : Tournament U) : Prop where
  | filling (hl : t.playerIds.length < t.capacity) (hb : t.bracket = [])
      (hs : t.status = .registering ∨ t.status = .cancelled)
  | playing (winner : ℕ → ℕ → Option U) (R : ℕ) (hl : t.playerIds.length = t.capacity) (hd : t.Drawn winner R)
      (hopen : ∃ i < pairs t.capacity R, winner R i = none) (hs : t.status = .running ∨ t.status = .cancelled)
  | ended (winner : ℕ → ℕ → Option U) (R : ℕ) (c : U) (hl : t.playerIds.length = t.capacity) (hd : t.Drawn winner R)
      (hone : pairs t.capacity R = 1) (hc : winner R 0 = some c) (hs : t.Crowned c)

/-- **The invariant of a row.** -/
structure Bracketed (t : Tournament U) : Prop where
  size : t.capacity = 2 ∨ t.capacity = 4 ∨ t.capacity = 8
  distinct : t.playerIds.Nodup
  phase : t.Phase

/-- A full bracket is seeded in the order of registration. -/
theorem seedBracket_drawn (hn : t.playerIds.Nodup) (hl : t.playerIds.length = t.capacity) (hc : 2 ≤ t.capacity) :
    t.seedBracket.Drawn (fun _ _ => none) 0 := by
  refine ⟨?_, ⟨fun i j u hi hj => ?_, fun _ _ _ h => by cases h⟩, fun r hr => absurd hr (by omega), fun _ _ _ => rfl, ?_⟩
  · have hblock : t.seedBracket.draw (fun _ _ => none) 1 = t.seedBracket.block (fun _ _ => none) 0 := by
      rw [draw_succ]
      rfl
    rw [hblock]
    show pairings 0 0 t.playerIds = _
    rw [pairings_eq, hl, ← Knockout.pairs_zero]
    refine List.map_congr_left fun i _ => ?_
    show BracketMatch.mk 0 (0 + i) _ _ _ = BracketMatch.mk 0 i _ _ _
    rw [Nat.zero_add]
    rfl
  · have hi' : t.playerIds[i]? = some u := hi
    have hj' : t.playerIds[j]? = some u := hj
    obtain ⟨hlt, -⟩ := List.getElem?_eq_some_iff.1 hi'
    exact (List.getElem?_inj hlt hn).1 (hi'.trans hj'.symm)
  · show 0 < pairs t.capacity 0
    rw [Knockout.pairs_zero]
    omega

/-- A player who applies leaves the bracket as it should be. -/
theorem Bracketed.apply (h : t.Bracketed) (hs : t.status = .registering) (hu : u ∉ t.playerIds)
    (hlt : t.playerIds.length < t.capacity) : (t.apply u).Bracketed := by
  have hn : (t.playerIds ++ [u]).Nodup := by
    rw [List.nodup_append]
    refine ⟨h.distinct, List.nodup_singleton u, fun v hv x hx hvx => hu ?_⟩
    rw [List.mem_singleton] at hx
    rw [← hx, ← hvx]
    exact hv
  have hb : t.bracket = [] := by
    cases h.phase with
    | filling hl hb hs' => exact hb
    | playing winner R hl => omega
    | ended winner R c hl => omega
  unfold Tournament.apply
  simp only
  split
  · rename_i hfull
    have hc : 2 ≤ t.capacity := by
      have hsize := h.size
      omega
    have hd := seedBracket_drawn
      (t := { t with playerIds := t.playerIds ++ [u], prizePoolCents := t.prizePoolCents + t.buyInCents })
      hn hfull hc
    refine ⟨h.size, hn, .playing _ 0 hfull hd ⟨0, hd.last, rfl⟩ (Or.inl rfl)⟩
  · rename_i hfull
    refine ⟨h.size, hn, .filling ?_ hb (Or.inl hs)⟩
    have hlen : (t.playerIds ++ [u]).length = t.playerIds.length + 1 := List.length_append
    show (t.playerIds ++ [u]).length < t.capacity
    have hne : (t.playerIds ++ [u]).length ≠ t.capacity := hfull
    omega

/-- Only a round of one pairing has a champion, its winner. -/
theorem Drawn.champion (h : t.Drawn winner R) :
    t.champion? R = if pairs t.capacity R = 1 then winner R 0 else none := by
  unfold champion?
  rw [roundMatches_last h.bracket]
  have hlen := t.block_length winner R
  split
  · rename_i m hm
    rw [hm, List.length_singleton] at hlen
    rw [if_pos hlen.symm]
    have hblock : t.block winner R = [t.place winner R 0] := by
      unfold block
      rw [← hlen]
      rfl
    rw [hblock] at hm
    cases hm
    rfl
  · rename_i hno
    rw [if_neg]
    intro hone
    refine hno (t.place winner R 0) ?_
    unfold block
    rw [hone]
    rfl

/-- A decided round of more than one pairing leads to the next. -/
theorem Drawn.nextRound (h : t.Drawn winner R) (hmore : pairs t.capacity R ≠ 1)
    (hall : ∀ i < pairs t.capacity R, (winner R i).isSome = true) :
    (t.nextRound R).Drawn winner (R + 1) := by
  have hlast := h.last
  have hround := roundMatches_last h.bracket
  have hdone : (t.block winner R).all (fun m => m.winnerId.isSome) = true := by
    rw [List.all_eq_true]
    intro m hm
    obtain ⟨i, hi, rfl⟩ := List.mem_map.1 hm
    exact hall i (List.mem_range.1 hi)
  have hws : (t.block winner R).filterMap (fun m => m.winnerId) = (List.range (pairs t.capacity R)).filterMap (winner R) := by
    unfold block
    rw [List.filterMap_map]
    rfl
  obtain ⟨hlen, hget⟩ := filterMap_range (pairs t.capacity R) hall
  have hnext : t.nextRound R =
      { t with bracket := t.bracket ++ pairings (R + 1) 0 ((List.range (pairs t.capacity R)).filterMap (winner R)) } := by
    unfold Tournament.nextRound
    simp only [hround, hws]
    rw [if_pos hdone]
  have hhalf := Knockout.pairs_succ t.capacity R
  rw [hnext]
  refine ⟨?_, h.fair, ?_, fun r i hr => h.later r i (by omega), ?_⟩
  · show t.bracket ++ _ = t.draw winner (R + 1 + 1)
    rw [draw_succ, ← h.bracket, pairings_eq, hlen, ← hhalf]
    congr 1
    refine List.map_congr_left fun i hi => ?_
    have hi := List.mem_range.1 hi
    unfold place
    rw [hget _ (by omega), hget _ (by omega), h.later (R + 1) i (by omega), Nat.zero_add]
    rfl
  · intro r hr i hi
    by_cases hrR : r = R
    · subst hrR
      exact hall i hi
    · exact h.decided r (by omega) i hi
  · show 0 < pairs t.capacity (R + 1)
    omega

/-- The bracket depends on three fields of the row. -/
theorem Drawn.of_eq (h : t.Drawn winner R) (hb : t'.bracket = t.bracket) (hp : t'.playerIds = t.playerIds)
    (hc : t'.capacity = t.capacity) : t'.Drawn winner R := by
  have hseed : t'.seed = t.seed := by
    unfold seed
    rw [hp]
  have hdraw : t'.draw winner (R + 1) = t.draw winner (R + 1) := by
    unfold draw block place
    rw [hseed, hc]
  refine ⟨by rw [hb, hdraw, h.bracket], hseed ▸ h.fair, ?_, h.later, hc ▸ h.last⟩
  rw [hc]
  exact h.decided

/-! ## A report -/

variable [DecidableEq U] {recorded : Option U}

/-- What an accepted report has found. -/
theorem report_found (h : t.report r i u recorded = .ok t') :
    t.status = .running ∧ t' = t.decideMatch r i u ∧ ∃ m, t.match? r i = some m ∧ m.winnerId = none ∧
      (m.aUserId = some u ∨ m.bUserId = some u) := by
  have hok := report_ok h
  refine ⟨hok.1, hok.2.1, ?_⟩
  unfold report at h
  split at h
  · cases h
  split at h
  · cases h
  rename_i m hm
  split at h
  · cases h
  rename_i hopen
  split at h
  · cases h
  rename_i hplays
  refine ⟨m, hm, by simpa using hopen, ?_⟩
  by_cases ha : m.aUserId = some u
  · exact Or.inl ha
  · right
    by_contra hb
    exact hplays ⟨ha, hb⟩

/-- **An accepted report** decides a pairing of the last round. -/
theorem Bracketed.reported (h : t.Bracketed) (hr : t.report r i u recorded = .ok t') :
    ∃ winner, t.playerIds.length = t.capacity ∧ t'.Drawn (wins winner r i u) r ∧ i < pairs t.capacity r := by
  obtain ⟨hs, rfl, m, hm, hnone, hplays⟩ := report_found hr
  cases h.phase with
  | filling hl hb hs' =>
    rw [hs] at hs'
    rcases hs' with hs' | hs' <;> cases hs'
  | ended winner R c hl hd hone hc hcrown =>
    unfold Crowned at hcrown
    rw [hs] at hcrown
    rcases hcrown with ⟨h', -⟩ | ⟨h', -⟩ | h' <;> cases h'
  | playing winner R hl hd hopen hs' =>
    have hfind : (t.draw winner (R + 1)).find? (isMatch r i) = some m := by
      rw [← hd.bracket]
      exact hm
    obtain ⟨hlt, hi, rfl⟩ := find_draw hfind
    -- the rounds before the last are decided
    have hrR : r = R := by
      by_contra hne
      have hdec := hd.decided r (by omega) i hi
      rw [show winner r i = none from hnone] at hdec
      cases hdec
    subst hrR
    refine ⟨winner, hl, ⟨decideMatch_draw hd.bracket i u, hd.fair.wins hd.later hplays, ?_, ?_, hd.last⟩, hi⟩
    · intro r' hr' j hj
      rw [Knockout.wins_of_ne (by omega)]
      exact hd.decided r' hr' j hj
    · intro r' j hr'
      rw [Knockout.wins_of_ne (by omega)]
      exact hd.later r' j hr'

/-! ## What may become of a row -/

/-- One change of a row, with the number of reports that it takes. -/
inductive RowStep : ℕ → Tournament U → Tournament U → Prop
  | registers {t : Tournament U} {u : U} (hs : t.status = .registering) (hu : u ∉ t.playerIds)
      (hlt : t.playerIds.length < t.capacity) : RowStep 0 t (t.apply u)
  | reports {t t' : Tournament U} {r i : ℕ} {u : U} {recorded : Option U} (h : t.report r i u recorded = .ok t')
      (hc : t'.champion? r = none) : RowStep 1 t (t'.nextRound r)
  | parks {t t' : Tournament U} {r i : ℕ} {u c : U} {recorded : Option U} (h : t.report r i u recorded = .ok t')
      (hc : t'.champion? r = some c) (admin : Option U) : RowStep 1 t (t'.park c admin)
  | pays {t t' : Tournament U} {r i : ℕ} {u c : U} {recorded : Option U} (h : t.report r i u recorded = .ok t')
      (hc : t'.champion? r = some c) : RowStep 1 t (t'.finished c)
  | confirms {t : Tournament U} {c : U} (hs : t.status = .awaitingConfirmation) (hc : t.pendingWinnerId = some c) :
      RowStep 0 t (Tournament.finished { t with pendingWinnerId := none, reportedByAdminId := none } c)

/-- The final is decided: its winner is the champion. -/
theorem Bracketed.crown (h : t.Bracketed) (hr : t.report r i u recorded = .ok t') {c : U}
    (hc : t'.champion? r = some c) {t'' : Tournament U} (hb : t''.bracket = t'.bracket)
    (hp : t''.playerIds = t'.playerIds) (hcap : t''.capacity = t'.capacity) (hs : t''.Crowned c) : t''.Bracketed := by
  obtain ⟨winner, hl, hd, hi⟩ := h.reported hr
  obtain ⟨-, rfl, -⟩ := report_found hr
  rw [hd.champion] at hc
  split at hc
  · rename_i hone
    refine ⟨?_, ?_, .ended _ r c ?_ (hd.of_eq hb hp hcap) (hcap ▸ hone) hc hs⟩
    · rw [hcap]
      exact h.size
    · rw [hp]
      exact h.distinct
    · rw [hp, hcap]
      exact hl
  · cases hc

/-- A step of the row keeps the bracket. -/
theorem RowStep.bracketed {k : ℕ} (hstep : RowStep k t t') (h : t.Bracketed) : t'.Bracketed := by
  cases hstep with
  | registers hs hu hlt => exact h.apply hs hu hlt
  | @reports _ t₁ r i u recorded hr hc =>
    obtain ⟨winner, hl, hd, hi⟩ := h.reported hr
    obtain ⟨hs, rfl, -⟩ := report_found hr
    have hmore : pairs t.capacity r ≠ 1 := by
      intro hone
      have hone' : pairs (t.decideMatch r i u).capacity r = 1 := hone
      have hi0 : i = 0 := by omega
      rw [hd.champion, if_pos hone', hi0, Knockout.wins_self] at hc
      cases hc
    by_cases hall : ∀ j < pairs t.capacity r, (wins winner r i u r j).isSome = true
    · have hnext := hd.nextRound hmore hall
      have hsame : (t.decideMatch r i u).nextRound r = { t.decideMatch r i u with
          bracket := ((t.decideMatch r i u).nextRound r).bracket } := by
        unfold Tournament.nextRound
        simp only
        split <;> rfl
      rw [hsame] at hnext ⊢
      exact ⟨h.size, h.distinct, .playing _ (r + 1) hl hnext ⟨0, hnext.last, hd.later (r + 1) 0 (by omega)⟩ (Or.inl hs)⟩
    · -- a pairing of the round is still open, and the bracket does not grow
      obtain ⟨j, hj, hopen⟩ : ∃ j < pairs t.capacity r, wins winner r i u r j = none := by
        by_contra hno
        refine hall fun j hj => Option.isSome_iff_ne_none.2 fun hnone => hno ⟨j, hj, hnone⟩
      have hsame : (t.decideMatch r i u).nextRound r = t.decideMatch r i u := by
        unfold Tournament.nextRound
        simp only
        rw [if_neg]
        intro hdone
        rw [roundMatches_last hd.bracket, List.all_eq_true] at hdone
        have hsome := hdone _ (List.mem_map.2 ⟨j, List.mem_range.2 hj, rfl⟩)
        rw [show ((t.decideMatch r i u).place (wins winner r i u) r j).winnerId = wins winner r i u r j from rfl,
          hopen] at hsome
        cases hsome
      rw [hsame]
      exact ⟨h.size, h.distinct, .playing _ r hl hd ⟨j, hj, hopen⟩ (Or.inl hs)⟩
  | parks hr hc admin => exact h.crown hr hc rfl rfl rfl (Or.inr (Or.inl ⟨rfl, rfl⟩))
  | pays hr hc => exact h.crown hr hc rfl rfl rfl (Or.inl ⟨rfl, rfl⟩)
  | @confirms _ c hs hc =>
    refine ⟨h.size, h.distinct, ?_⟩
    cases h.phase with
    | filling hl hb hs' =>
      rw [hs] at hs'
      rcases hs' with hs' | hs' <;> cases hs'
    | playing winner R hl hd hopen hs' =>
      rw [hs] at hs'
      rcases hs' with hs' | hs' <;> cases hs'
    | ended winner R c' hl hd hone hw hcrown =>
      -- the champion parked is the winner of the final
      have hsame : c' = c := by
        unfold Crowned at hcrown
        rw [hs, hc] at hcrown
        rcases hcrown with ⟨h', -⟩ | ⟨-, h'⟩ | h'
        · cases h'
        · exact (Option.some.inj h').symm
        · cases h'
      subst hsame
      exact .ended winner R c' hl (hd.of_eq rfl rfl rfl) hone hw (Or.inl ⟨rfl, rfl⟩)

omit [DecidableEq U] in
theorem Bracketed.cancel (h : t.Bracketed) : t.cancelled.Bracketed := by
  refine ⟨h.size, h.distinct, ?_⟩
  cases h.phase with
  | filling hl hb hs => exact .filling hl hb (Or.inr rfl)
  | playing winner R hl hd hopen hs => exact .playing winner R hl (hd.of_eq rfl rfl rfl) hopen (Or.inr rfl)
  | ended winner R c hl hd hone hc hs => exact .ended winner R c hl (hd.of_eq rfl rfl rfl) hone hc (Or.inr (Or.inr rfl))

omit [DecidableEq U] in
theorem nextRound_id (t : Tournament U) (r : ℕ) : (t.nextRound r).id = t.id := by
  unfold nextRound
  simp only
  split <;> rfl

/-- A step of the row keeps its id. -/
theorem RowStep.id_eq {k : ℕ} (hstep : RowStep k t t') : t'.id = t.id := by
  cases hstep with
  | registers => exact (t.apply_fields _).1
  | reports hr =>
    obtain ⟨-, rfl, -⟩ := report_found hr
    exact nextRound_id _ _
  | parks hr =>
    obtain ⟨-, rfl, -⟩ := report_found hr
    rfl
  | pays hr =>
    obtain ⟨-, rfl, -⟩ := report_found hr
    rfl
  | confirms => rfl

/-- None of these cancels. -/
theorem RowStep.not_cancelled {k : ℕ} (hstep : RowStep k t t') : t'.status ≠ .cancelled := by
  cases hstep with
  | registers hs =>
    unfold Tournament.apply
    simp only
    split
    · exact nofun
    · show t.status ≠ .cancelled
      rw [hs]
      exact nofun
  | reports hr =>
    obtain ⟨hs, rfl, -⟩ := report_found hr
    unfold Tournament.nextRound
    simp only
    split
    · show t.status ≠ .cancelled
      rw [hs]
      exact nofun
    · show t.status ≠ .cancelled
      rw [hs]
      exact nofun
  | parks => exact nofun
  | pays => exact nofun
  | confirms => exact nofun

/-! ## Decided pairings -/

/-- How many pairings are decided. -/
def decided (t : Tournament U) : ℕ := (t.bracket.filter fun m => m.winnerId.isSome).length

/-- What is decided stays in the bracket as it is. -/
def StaysIn (t t' : Tournament U) : Prop := ∀ m ∈ t.bracket, m.winnerId.isSome = true → m ∈ t'.bracket

omit [DecidableEq U] in
/-- A slot that is decided adds one to the decided. -/
theorem decided_modify {p : BracketMatch U → Bool} {m₀ : BracketMatch U} (u : U) : ∀ {l : List (BracketMatch U)},
    l.find? p = some m₀ → m₀.winnerId = none →
      ((l.modify (l.findIdx p) fun m => { m with winnerId := some u }).filter fun m => m.winnerId.isSome).length =
          (l.filter fun m => m.winnerId.isSome).length + 1 ∧
        ∀ m ∈ l, m.winnerId.isSome = true → m ∈ l.modify (l.findIdx p) fun m => { m with winnerId := some u } := by
  intro l
  induction l with
  | nil => intro h; cases h
  | cons a l ih =>
    intro hfind hnone
    rw [List.findIdx_cons]
    cases hp : p a with
    | true =>
      rw [List.find?_cons_of_pos hp] at hfind
      cases hfind
      rw [cond_true, List.modify_zero_cons]
      refine ⟨?_, fun m hm hsome => ?_⟩
      · rw [List.filter_cons_of_pos (by rfl), List.filter_cons_of_neg (by rw [hnone]; simp), List.length_cons]
      · rcases List.mem_cons.1 hm with rfl | hm
        · rw [hnone] at hsome
          cases hsome
        · exact List.mem_cons_of_mem _ hm
    | false =>
      rw [List.find?_cons_of_neg (by rw [hp]; simp)] at hfind
      obtain ⟨hlen, hkept⟩ := ih hfind hnone
      rw [cond_false, List.modify_succ_cons]
      refine ⟨?_, fun m hm hsome => ?_⟩
      · rw [List.filter_cons, List.filter_cons]
        by_cases ha : a.winnerId.isSome = true
        · rw [if_pos ha, if_pos ha, List.length_cons, List.length_cons, hlen]
        · rw [if_neg ha, if_neg ha, hlen]
      · rcases List.mem_cons.1 hm with rfl | hm
        · exact List.mem_cons_self
        · exact List.mem_cons_of_mem _ (hkept m hm hsome)

omit [DecidableEq U] in
theorem pairings_open (r k : ℕ) (l : List U) : (pairings r k l).filter (fun m => m.winnerId.isSome) = [] := by
  rw [List.filter_eq_nil_iff, pairings_eq]
  intro m hm
  obtain ⟨i, -, rfl⟩ := List.mem_map.1 hm
  simp

omit [DecidableEq U] in
/-- The next round starts undecided. -/
theorem nextRound_decided (t : Tournament U) (r : ℕ) : (t.nextRound r).decided = t.decided ∧ StaysIn t (t.nextRound r) := by
  unfold Tournament.nextRound
  simp only
  split
  · refine ⟨?_, fun m hm _ => List.mem_append_left _ hm⟩
    unfold decided
    rw [List.filter_append, pairings_open, List.append_nil]
  · exact ⟨rfl, fun m hm _ => hm⟩

theorem report_decided (h : t.report r i u recorded = .ok t') : t'.decided = t.decided + 1 ∧ StaysIn t t' := by
  obtain ⟨-, rfl, m, hm, hnone, -⟩ := report_found h
  exact decided_modify u hm hnone

/-- An accepted report changes the row. -/
theorem RowStep.ne (hstep : RowStep 1 t t') : t' ≠ t := by
  have hcount : t'.decided = t.decided + 1 := by
    cases hstep with
    | reports hr => exact (nextRound_decided _ _).1.trans (report_decided hr).1
    | parks hr => exact (report_decided hr).1
    | pays hr => exact (report_decided hr).1
  rintro rfl
  omega

/-- **A row takes what it takes**: the decided pairings count the reports, and stay. -/
theorem RowStep.decided {k : ℕ} (hstep : RowStep k t t') (h : t.Bracketed) :
    t'.decided = t.decided + k ∧ StaysIn t t' := by
  cases hstep with
  | registers hs hu hlt =>
    have hb : t.bracket = [] := by
      cases h.phase with
      | filling hl hb hs' => exact hb
      | playing winner R hl => omega
      | ended winner R c hl => omega
    refine ⟨?_, fun m hm => by rw [hb] at hm; cases hm⟩
    unfold Tournament.apply
    simp only
    split
    · show ((pairings 0 0 _).filter _).length = (t.bracket.filter _).length
      rw [pairings_open, hb]
      rfl
    · rfl
  | reports hr hc =>
    obtain ⟨hcount, hkept⟩ := report_decided hr
    obtain ⟨hsame, hkept'⟩ := nextRound_decided _ _
    exact ⟨hsame.trans hcount, fun m hm hsome => hkept' m (hkept m hm hsome) hsome⟩
  | parks hr hc admin =>
    obtain ⟨hcount, hkept⟩ := report_decided hr
    exact ⟨hcount, hkept⟩
  | pays hr hc =>
    obtain ⟨hcount, hkept⟩ := report_decided hr
    exact ⟨hcount, hkept⟩
  | confirms hs hc => exact ⟨rfl, fun m hm _ => hm⟩

/-! ## What a bracket looks like -/

end Tournament

/-- The user is one of the two players of the pairing. -/
def BracketMatch.Plays {U : Type} (m : BracketMatch U) (u : U) : Prop := m.aUserId = some u ∨ m.bUserId = some u

/-- **The bracket of a tournament.** Round `0` pairs the players as they registered; the next
round exists exactly when a round of several pairings is decided, and pairs its winners; a
pairing is won by one of its players; the champion wins the only pairing of the last round. -/
structure BracketOK {U : Type} (t : Tournament U) : Prop where
  capacity : t.capacity = 2 ∨ t.capacity = 4 ∨ t.capacity = 8
  players : t.playerIds.Nodup ∧ t.playerIds.length ≤ t.capacity
  registering : t.status = .registering → t.playerIds.length < t.capacity
  filling : t.playerIds.length < t.capacity → t.bracket = []
  keys : (t.bracket.map fun m => (m.round, m.index)).Nodup
  first : t.playerIds.length = t.capacity → ∀ i a b,
    (∃ m ∈ t.bracket, m.round = 0 ∧ m.index = i ∧ m.aUserId = a ∧ m.bUserId = b) ↔
      i < t.capacity / 2 ∧ a = t.playerIds[2 * i]? ∧ b = t.playerIds[2 * i + 1]?
  next : ∀ r, (∃ m ∈ t.bracket, m.round = r + 1) ↔
    1 < (t.roundMatches r).length ∧ ∀ m ∈ t.roundMatches r, m.winnerId.isSome = true
  halves : ∀ r, (∃ m ∈ t.bracket, m.round = r + 1) → (t.roundMatches r).length = 2 * (t.roundMatches (r + 1)).length
  pairs : ∀ m ∈ t.bracket, ∀ r, m.round = r + 1 → ∃ a b, t.match? r (2 * m.index) = some a ∧
    t.match? r (2 * m.index + 1) = some b ∧ a.winnerId.isSome = true ∧ b.winnerId.isSome = true ∧
      m.aUserId = a.winnerId ∧ m.bUserId = b.winnerId
  once : ∀ m ∈ t.bracket, ∀ m' ∈ t.bracket, m.winnerId = none → m'.winnerId = none →
    ∀ u, m.Plays u → m'.Plays u → m = m'
  winner : ∀ m ∈ t.bracket, ∀ u, m.winnerId = some u → m.Plays u
  running : t.status = .running → t.playerIds.length = t.capacity ∧ ∃ m ∈ t.bracket, m.winnerId = none
  champion : ∀ c, t.status = .finished ∧ t.winnerId = c ∨ t.status = .awaitingConfirmation ∧ t.pendingWinnerId = c →
    c.isSome = true ∧ ∃ m, (∀ m' ∈ t.bracket, m'.round ≤ m.round) ∧ t.roundMatches m.round = [m] ∧ m.winnerId = c
  finish : t.status = .finished ∨ t.status = .awaitingConfirmation → t.decided + 1 = t.capacity
  ends : t.decided + 1 = t.capacity →
    t.status = .finished ∨ t.status = .awaitingConfirmation ∨ t.status = .cancelled

namespace Tournament

variable {U : Type} {t : Tournament U} {winner : ℕ → ℕ → Option U} {R : ℕ}

namespace Drawn

/-- The search finds every pairing of the knockout. -/
theorem match? (h : t.Drawn winner R) {r i : ℕ} (hr : r ≤ R) (hi : i < pairs t.capacity r) :
    t.match? r i = some (t.place winner r i) := by
  unfold Tournament.match?
  rw [h.bracket]
  cases hf : (t.draw winner (R + 1)).find? (isMatch r i) with
  | none =>
    have hno := List.find?_eq_none.1 hf _ (place_mem_draw (by omega) hi)
    exact absurd (decide_eq_true ⟨rfl, rfl⟩) hno
  | some m => rw [(find_draw hf).2.2]

/-- The rounds drawn are those up to the current one. -/
theorem exists_round (h : t.Drawn winner R) (r : ℕ) : (∃ m ∈ t.bracket, m.round = r) ↔ r ≤ R := by
  rw [h.bracket]
  constructor
  · rintro ⟨m, hm, rfl⟩
    have hlt := (mem_draw.1 hm).1
    omega
  · intro hr
    exact ⟨t.place winner r 0, place_mem_draw (by omega) (Knockout.pairs_pos h.last hr), rfl⟩

theorem roundMatches_length (h : t.Drawn winner R) {r : ℕ} (hr : r ≤ R) :
    (t.roundMatches r).length = pairs t.capacity r := by
  rw [roundMatches_draw h.bracket, if_pos (by omega), block_length]

/-- The first round pairs the players in the order of entry. -/
theorem first (h : t.Drawn winner R) (i : ℕ) (a b : Option U) :
    (∃ m ∈ t.bracket, m.round = 0 ∧ m.index = i ∧ m.aUserId = a ∧ m.bUserId = b) ↔
      i < t.capacity / 2 ∧ a = t.playerIds[2 * i]? ∧ b = t.playerIds[2 * i + 1]? := by
  have hp := Knockout.pairs_zero t.capacity
  rw [h.bracket]
  constructor
  · rintro ⟨m, hm, hr, rfl, rfl, rfl⟩
    obtain ⟨-, hi, hplace⟩ := mem_draw.1 hm
    rw [hr] at hi hplace
    refine ⟨by omega, ?_, ?_⟩
    · rw [hplace]
      rfl
    · rw [hplace]
      rfl
  · rintro ⟨hi, rfl, rfl⟩
    exact ⟨t.place winner 0 i, place_mem_draw (by omega) (by omega), rfl, rfl, rfl, rfl⟩

/-- A round after the first has been reached by a decided round of several pairings, and by no
other. -/
theorem next (h : t.Drawn winner R) (hlast : pairs t.capacity R = 1 ∨ ∃ i < pairs t.capacity R, winner R i = none)
    (r : ℕ) : (∃ m ∈ t.bracket, m.round = r + 1) ↔
      1 < (t.roundMatches r).length ∧ ∀ m ∈ t.roundMatches r, m.winnerId.isSome = true := by
  rw [h.exists_round]
  constructor
  · intro hr
    have hpos := Knockout.pairs_pos h.last hr
    have hhalf := Knockout.pairs_succ t.capacity r
    rw [h.roundMatches_length (by omega)]
    refine ⟨by omega, fun m hm => ?_⟩
    rw [roundMatches_draw h.bracket, if_pos (by omega)] at hm
    obtain ⟨i, hi, rfl⟩ := List.mem_map.1 hm
    exact h.decided r (by omega) i (List.mem_range.1 hi)
  · rintro ⟨hmore, hall⟩
    by_contra hlt
    by_cases hr : r = R
    · subst hr
      rw [h.roundMatches_length (le_refl r)] at hmore
      rcases hlast with hone | ⟨i, hi, hopen⟩
      · omega
      · rw [roundMatches_last h.bracket] at hall
        have hsome := hall _ (List.mem_map.2 ⟨i, List.mem_range.2 hi, rfl⟩)
        rw [show (t.place winner r i).winnerId = winner r i from rfl, hopen] at hsome
        cases hsome
    · rw [roundMatches_draw h.bracket, if_neg (by omega)] at hmore
      exact absurd hmore (by simp)

/-- A pairing of a later round is played by the winners of the two before it. -/
theorem pairs_winners (h : t.Drawn winner R) {m : BracketMatch U} (hm : m ∈ t.bracket)
    {r : ℕ} (hr : m.round = r + 1) : ∃ a b, t.match? r (2 * m.index) = some a ∧
      t.match? r (2 * m.index + 1) = some b ∧ a.winnerId.isSome = true ∧ b.winnerId.isSome = true ∧
        m.aUserId = a.winnerId ∧ m.bUserId = b.winnerId := by
  rw [h.bracket] at hm
  obtain ⟨hlt, hi, hplace⟩ := mem_draw.1 hm
  rw [hr] at hlt hi hplace
  have hhalf := Knockout.pairs_succ t.capacity r
  refine ⟨_, _, h.match? (by omega) (show 2 * m.index < pairs t.capacity r by omega),
    h.match? (by omega) (show 2 * m.index + 1 < pairs t.capacity r by omega), ?_, ?_, ?_, ?_⟩
  · exact h.decided r (by omega) _ (by omega)
  · exact h.decided r (by omega) _ (by omega)
  · rw [hplace]
    rfl
  · rw [hplace]
    rfl

/-- No player is in two open pairings: both are of the last round. -/
theorem once (h : t.Drawn winner R) {m m' : BracketMatch U} (hm : m ∈ t.bracket) (hm' : m' ∈ t.bracket)
    (ho : m.winnerId = none) (ho' : m'.winnerId = none) {u : U} (hu : m.Plays u) (hu' : m'.Plays u) : m = m' := by
  have hlast : ∀ x ∈ t.bracket, x.winnerId = none → x = t.place winner R x.index := by
    intro x hx hopen
    rw [h.bracket] at hx
    obtain ⟨hlt, hi, hplace⟩ := mem_draw.1 hx
    have hR : x.round = R := by
      by_contra hne
      have hdec := h.decided x.round (by omega) x.index hi
      rw [hplace] at hopen
      rw [show winner x.round x.index = none from hopen] at hdec
      cases hdec
    rw [hR] at hplace
    exact hplace
  have hslot : ∀ x : BracketMatch U, x = t.place winner R x.index → x.Plays u →
      ∃ l, slot t.seed winner R l = some u ∧ l / 2 = x.index := by
    intro x hx hplays
    unfold BracketMatch.Plays at hplays
    rw [hx] at hplays
    rcases hplays with hp | hp
    · exact ⟨2 * x.index, hp, by omega⟩
    · exact ⟨2 * x.index + 1, hp, by omega⟩
  have hplace := hlast m hm ho
  have hplace' := hlast m' hm' ho'
  obtain ⟨l, hl, hindex⟩ := hslot m hplace hu
  obtain ⟨l', hl', hindex'⟩ := hslot m' hplace' hu'
  have hsame := h.fair.slot_inj R l l' u hl hl'
  rw [hplace, hplace', ← hindex, ← hindex', hsame]

theorem won (h : t.Drawn winner R) {m : BracketMatch U} (hm : m ∈ t.bracket) {u : U} (hu : m.winnerId = some u) :
    m.Plays u := by
  rw [h.bracket] at hm
  obtain ⟨-, -, hplace⟩ := mem_draw.1 hm
  rw [hplace] at hu ⊢
  exact h.fair.plays _ _ u hu

/-- The decided pairings: fewer than the players by two or more while one is open, and by one
when the final is decided. -/
theorem decided_open (h : t.Drawn winner R) {d : ℕ} (hcap : t.capacity = 2 ^ d) {i : ℕ} (hi : i < pairs t.capacity R)
    (hopen : winner R i = none) : t.decided + 1 < t.capacity := by
  have hsum := Knockout.sum_pairs d R (hcap ▸ h.last)
  have hlen := t.draw_length winner (R + 1)
  have hlt : (t.bracket.filter fun m => m.winnerId.isSome).length < t.bracket.length := by
    rw [List.length_filter_lt_length_iff_exists]
    refine ⟨t.place winner R i, ?_, ?_⟩
    · rw [h.bracket]
      exact place_mem_draw (by omega) hi
    · rw [show (t.place winner R i).winnerId = winner R i from rfl, hopen]
      simp
  rw [← h.bracket, hcap] at hlen
  rw [hcap] at hi
  unfold Tournament.decided
  omega

/-- At the end, one slot less than players is decided. -/
theorem decided_over (h : t.Drawn winner R) {d : ℕ} (hcap : t.capacity = 2 ^ d) (hone : pairs t.capacity R = 1) {c : U}
    (hc : winner R 0 = some c) : t.decided + 1 = t.capacity := by
  have hsum := Knockout.sum_pairs d R (hcap ▸ h.last)
  have hlen := t.draw_length winner (R + 1)
  have hall : t.bracket.filter (fun m => m.winnerId.isSome) = t.bracket := by
    rw [List.filter_eq_self, h.bracket]
    intro m hm
    obtain ⟨hlt, hi, hplace⟩ := mem_draw.1 hm
    rw [hplace]
    show (winner m.round m.index).isSome = true
    by_cases hR : m.round = R
    · have hi0 : m.index = 0 := by
        rw [hR] at hi
        omega
      rw [hR, hi0, hc]
      rfl
    · exact h.decided m.round (by omega) m.index hi
  rw [← h.bracket, hcap] at hlen
  rw [hcap] at hone
  unfold Tournament.decided
  rw [hall]
  omega

end Drawn

theorem Bracketed.depth (h : t.Bracketed) : ∃ d, t.capacity = 2 ^ d := by
  rcases h.size with hc | hc | hc
  · exact ⟨1, hc⟩
  · exact ⟨2, hc⟩
  · exact ⟨3, hc⟩

/-- While players join there is no bracket. -/
theorem bracketOK_filling (h : t.Bracketed) (hl : t.playerIds.length < t.capacity) (hb : t.bracket = [])
    (hs : t.status = .registering ∨ t.status = .cancelled) : BracketOK t := by
  have hround : ∀ r, t.roundMatches r = [] := by
    intro r
    unfold roundMatches
    rw [hb]
    rfl
  have hno : ∀ m, m ∉ t.bracket := by
    intro m hm
    rw [hb] at hm
    cases hm
  have hdec : t.decided = 0 := by
    unfold decided
    rw [hb]
    rfl
  have hsize := h.size
  refine ⟨h.size, ⟨h.distinct, by omega⟩, fun _ => hl, fun _ => hb, ?_, by omega,
    fun r => ?_, ?_, ?_, ?_, ?_, ?_, ?_, ?_, by omega⟩
  · rw [hb]
    exact List.nodup_nil
  · rw [hround]
    refine ⟨?_, fun h => absurd h.1 (by simp)⟩
    rintro ⟨m, hm, -⟩
    exact absurd hm (hno m)
  · rintro r ⟨m, hm, -⟩
    exact absurd hm (hno m)
  · exact fun m hm => absurd hm (hno m)
  · exact fun m hm => absurd hm (hno m)
  · exact fun m hm => absurd hm (hno m)
  · intro hrun
    rcases hs with hs | hs <;> rw [hs] at hrun <;> cases hrun
  · rintro c (⟨hf, -⟩ | ⟨hf, -⟩) <;> rcases hs with hs | hs <;> rw [hs] at hf <;> cases hf
  · rintro (hf | hf) <;> rcases hs with hs | hs <;> rw [hs] at hf <;> cases hf

/-- A bracket that is drawn is in order; the rest is what the status says. -/
theorem Drawn.ok (hd : t.Drawn winner R) (h : t.Bracketed) (hl : t.playerIds.length = t.capacity)
    (hlast : pairs t.capacity R = 1 ∨ ∃ i < pairs t.capacity R, winner R i = none) (hreg : t.status ≠ .registering)
    (hrunning : t.status = .running → ∃ m ∈ t.bracket, m.winnerId = none)
    (hchampion : ∀ c, t.status = .finished ∧ t.winnerId = c ∨ t.status = .awaitingConfirmation ∧ t.pendingWinnerId = c →
      c.isSome = true ∧ ∃ m, (∀ m' ∈ t.bracket, m'.round ≤ m.round) ∧ t.roundMatches m.round = [m] ∧ m.winnerId = c)
    (hfinish : t.status = .finished ∨ t.status = .awaitingConfirmation → t.decided + 1 = t.capacity)
    (hends : t.decided + 1 = t.capacity →
      t.status = .finished ∨ t.status = .awaitingConfirmation ∨ t.status = .cancelled) : BracketOK t := by
  obtain ⟨d, hcap⟩ := h.depth
  refine ⟨h.size, ⟨h.distinct, by omega⟩, fun hs => absurd hs hreg, by omega, ?_, fun _ => hd.first, hd.next hlast,
    fun r hr => ?_, fun m hm r hr => hd.pairs_winners hm hr, fun m hm m' hm' ho ho' u hu hu' => hd.once hm hm' ho ho' hu hu',
    fun m hm u hu => hd.won hm hu, fun hrun => ⟨hl, hrunning hrun⟩, hchampion, hfinish, hends⟩
  · rw [hd.bracket]
    exact draw_keys ..
  · have hrR := (hd.exists_round (r + 1)).1 hr
    have hmore := ((hd.next hlast r).1 hr).1
    rw [hd.roundMatches_length (by omega), hcap] at hmore
    rw [hd.roundMatches_length (by omega), hd.roundMatches_length hrR, hcap]
    exact Knockout.pairs_double d r hmore

/-- The champion is the winner of the final. -/
theorem Drawn.final (hd : t.Drawn winner R) (hone : pairs t.capacity R = 1) {c : U} (hc : winner R 0 = some c) :
    ∃ m, (∀ m' ∈ t.bracket, m'.round ≤ m.round) ∧ t.roundMatches m.round = [m] ∧ m.winnerId = some c := by
  refine ⟨t.place winner R 0, fun m' hm' => (hd.exists_round m'.round).1 ⟨m', hm', rfl⟩, ?_, hc⟩
  show t.roundMatches R = _
  rw [roundMatches_last hd.bracket]
  unfold block
  rw [hone]
  rfl

/-- A champion is the winner of the final. -/
theorem Crowned.champion {c : U} (h : t.Crowned c) {c' : Option U}
    (hc : t.status = .finished ∧ t.winnerId = c' ∨ t.status = .awaitingConfirmation ∧ t.pendingWinnerId = c') :
    c' = some c := by
  unfold Crowned at h
  rcases hc with ⟨hf, hw⟩ | ⟨hf, hw⟩
  · rw [hf, hw] at h
    rcases h with ⟨-, h⟩ | ⟨h, -⟩ | h
    · exact h
    · cases h
    · cases h
  · rw [hf, hw] at h
    rcases h with ⟨h, -⟩ | ⟨-, h⟩ | h
    · cases h
    · exact h
    · cases h

/-- The invariant gives the claim about brackets. -/
theorem Bracketed.ok (h : t.Bracketed) : BracketOK t := by
  obtain ⟨d, hcap⟩ := h.depth
  cases h.phase with
  | filling hl hb hs => exact bracketOK_filling h hl hb hs
  | playing winner R hl hd hopen hs =>
    obtain ⟨i, hi, hnone⟩ := hopen
    have hdec := hd.decided_open hcap hi hnone
    have hmem : t.place winner R i ∈ t.bracket := by
      rw [hd.bracket]
      exact place_mem_draw (by omega) hi
    refine hd.ok h hl (Or.inr ⟨i, hi, hnone⟩) ?_ (fun _ => ⟨_, hmem, hnone⟩) ?_ ?_ (by omega)
    · rcases hs with hs | hs <;> rw [hs] <;> exact nofun
    · rintro c (⟨hf, -⟩ | ⟨hf, -⟩) <;> rcases hs with hs | hs <;> rw [hs] at hf <;> cases hf
    · rintro (hf | hf) <;> rcases hs with hs | hs <;> rw [hs] at hf <;> cases hf
  | ended winner R c hl hd hone hc hs =>
    have hstatus : t.status = .finished ∨ t.status = .awaitingConfirmation ∨ t.status = .cancelled :=
      hs.imp (fun h => h.1) (Or.imp_left fun h => h.1)
    have hdec := hd.decided_over hcap hone hc
    refine hd.ok h hl (Or.inl hone) ?_ ?_ ?_ (fun _ => hdec) fun _ => hstatus
    · rcases hstatus with hs | hs | hs <;> rw [hs] <;> exact nofun
    · intro hrun
      rw [hrun] at hstatus
      rcases hstatus with hs | hs | hs <;> cases hs
    · intro c' hc'
      rw [hs.champion hc']
      exact ⟨rfl, hd.final hone hc⟩

end Tournament

end Murlan
