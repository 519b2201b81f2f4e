import Mathlib.Data.Nat.Bitwise
import Mathlib.Data.List.Range
import Murlan.Spec.Card

/-!
# The grammar of combinations

* `identifyCombo_grammar`: `identifyCombo` accepts a list of cards exactly if it is a single
  card, a group of one rank or a run of at least five, and what it returns besides the cards
  does not depend on their order.
* `run_key`: only one card of each rank can be read as two runs, of which the one with the
  lower top is taken.
* `beats_climbs`: a play that beats another one is higher, and heights are below `heights`.
-/

namespace Murlan

/-! ## Runs of numbers -/

/-- The values are distinct and fill the range from `low` to `top`. -/
def Fills (vals : List ℕ) (low top : ℕ) : Prop := vals.Nodup ∧ ∀ v, v ∈ vals ↔ low ≤ v ∧ v ≤ top

section

variable {vals vals' : List ℕ} {low top n : ℕ}

theorem Fills.perm (h : Fills vals low top) (hp : vals.Perm vals') : Fills vals' low top :=
  ⟨hp.nodup_iff.1 h.1, fun v => (hp.mem_iff).symm.trans (h.2 v)⟩

theorem fills_range' (low n : ℕ) : Fills (List.range' low (n + 1)) low (low + n) := by
  refine ⟨List.nodup_range', fun v => ?_⟩
  rw [List.mem_range'_1]
  omega

/-- A run without gaps is an interval. -/
theorem Fills.range' (h : Fills vals low top) (hne : vals ≠ []) :
    vals.Perm (List.range' low vals.length) ∧ top + 1 = low + vals.length := by
  obtain ⟨v, hv⟩ := List.exists_mem_of_ne_nil vals hne
  have hle : low ≤ top := by
    have := (h.2 v).1 hv
    omega
  obtain ⟨n, rfl⟩ : ∃ n, top = low + n := ⟨top - low, by omega⟩
  have hp : vals.Perm (List.range' low (n + 1)) := by
    refine (List.perm_ext_iff_of_nodup h.1 List.nodup_range').2 fun w => ?_
    rw [h.2 w, (fills_range' low n).2 w]
  have hlen : vals.length = n + 1 := by rw [hp.length_eq, List.length_range']
  rw [hlen]
  exact ⟨hp, by omega⟩

theorem consecutive_cons (a b : ℕ) (l : List ℕ) :
    consecutive (a :: b :: l) = true ↔ b = a + 1 ∧ consecutive (b :: l) = true := by
  simp [consecutive]

/-- The source's test for a run without gaps. -/
theorem consecutive_iff : ∀ (a : ℕ) (l : List ℕ),
    consecutive (a :: l) = true ↔ a :: l = List.range' a (l.length + 1) := by
  intro a l
  induction l generalizing a with
  | nil => simp [consecutive]
  | cons b l ih =>
    rw [consecutive_cons, ih b, List.length_cons, List.range'_succ (s := a), List.cons.injEq]
    constructor
    · rintro ⟨rfl, h⟩
      exact ⟨rfl, h⟩
    · rintro ⟨-, h⟩
      have hb : b = a + 1 := by
        rw [List.range'_succ, List.cons.injEq] at h
        exact h.1
      subst hb
      exact ⟨rfl, h⟩

/-- **The test of the source**: sorted, the values are distinct and each is one more than the
one before, exactly if they fill a range. -/
theorem sorted_run (vals : List ℕ) (hne : vals ≠ []) :
    ((vals.insertionSort (· ≤ ·)).Nodup ∧ consecutive (vals.insertionSort (· ≤ ·)) = true) ↔
      ∃ low top, Fills vals low top := by
  have hperm := List.perm_insertionSort (· ≤ ·) vals
  have hsort := List.pairwise_insertionSort (· ≤ ·) vals
  revert hperm hsort
  generalize vals.insertionSort (· ≤ ·) = sorted
  intro hperm hsort
  constructor
  · rintro ⟨-, hcons⟩
    cases sorted with
    | nil => exact absurd hperm.symm.eq_nil hne
    | cons a l =>
      have hrun := (consecutive_iff a l).1 hcons
      rw [hrun] at hperm
      exact ⟨a, a + l.length, (fills_range' a l.length).perm hperm⟩
  · rintro ⟨low, top, h⟩
    obtain ⟨hrange, -⟩ := h.range' hne
    have hle : (List.range' low vals.length).Pairwise (· ≤ ·) :=
      List.pairwise_le_range'
    have heq : sorted = List.range' low vals.length :=
      (hperm.trans hrange).eq_of_pairwise (fun a b _ _ => Nat.le_antisymm) hsort hle
    refine ⟨heq ▸ List.nodup_range', ?_⟩
    cases sorted with
    | nil => rfl
    | cons a l =>
      have hlen : vals.length = l.length + 1 := by rw [← hperm.length_eq, List.length_cons]
      rw [hlen] at heq
      have ha : a = low := by
        rw [List.range'_succ, List.cons.injEq] at heq
        exact heq.1
      subst ha
      exact (consecutive_iff a l).2 heq

/-- The last of the sorted values is the top. -/
theorem sorted_top (h : Fills vals low top) (hne : vals ≠ []) :
    (vals.insertionSort (· ≤ ·)).getLast? = some top := by
  have hperm := List.perm_insertionSort (· ≤ ·) vals
  obtain ⟨hrange, htop⟩ := h.range' hne
  have hle : (List.range' low vals.length).Pairwise (· ≤ ·) :=
    List.pairwise_le_range'
  have heq : vals.insertionSort (· ≤ ·) = List.range' low vals.length :=
    (hperm.trans hrange).eq_of_pairwise (fun a b _ _ => Nat.le_antisymm)
      (List.pairwise_insertionSort (· ≤ ·) vals) hle
  have hpos : vals.length ≠ 0 := by
    rw [Ne, List.length_eq_zero_iff]
    exact hne
  rw [heq, List.getLast?_range', if_neg hpos]
  congr 1
  omega

theorem sort_congr (h : vals.Perm vals') : vals.insertionSort (· ≤ ·) = vals'.insertionSort (· ≤ ·) :=
  ((List.perm_insertionSort _ _).trans (h.trans (List.perm_insertionSort _ _).symm)).eq_of_pairwise
    (fun _ _ _ _ => Nat.le_antisymm) (List.pairwise_insertionSort _ _) (List.pairwise_insertionSort _ _)

end

/-! ## Readings of cards -/

/-- What a card may count inside a run: an Ace 1 or 14, any other standard card its value. -/
def Card.Counts : Card → ℕ → Prop
  | .standard .A _, v => v = 1 ∨ v = 14
  | .standard r _, v => r.seq = some v
  | .joker _, _ => False

/-- Some reading of the cards is a run with the top `top`. -/
def ReadsAs (cards : List Card) (top : ℕ) : Prop :=
  ∃ vals low, List.Forall₂ Card.Counts cards vals ∧ Fills vals low top

theorem seq_of_ne {r : Rank} (hr : r ≠ .A) : ∃ v, r.seq = some v ∧ 2 ≤ v ∧ v ≤ 13 := by
  cases r <;> simp [Rank.seq] at hr ⊢

theorem counts_ace (s : Suit) (v : ℕ) : (Card.standard .A s).Counts v ↔ v = 1 ∨ v = 14 := Iff.rfl

theorem counts_fixed {r : Rank} (hr : r ≠ .A) (s : Suit) (v : ℕ) :
    (Card.standard r s).Counts v ↔ r.seq = some v := by
  cases r with
  | A => exact absurd rfl hr
  | _ => exact Iff.rfl

/-- The values of the cards that are no Aces. -/
def fixedVals (cards : List Card) : List ℕ := cards.filterMap fun c => c.rank?.bind Rank.seq

/-- How many aces there are. -/
def aceCount (cards : List Card) : ℕ := (cards.filter fun c => c.rank? == some .A).length

/-- One value for each of `n` Aces. -/
def AceVals (n : ℕ) (as : List ℕ) : Prop := as.length = n ∧ ∀ a ∈ as, a = 1 ∨ a = 14

section

variable {cards cards' : List Card} {vals as : List ℕ} {top : ℕ}

@[simp] theorem fixedVals_nil : fixedVals [] = [] := rfl

@[simp] theorem aceCount_nil : aceCount [] = 0 := rfl

theorem fixedVals_ace (s : Suit) (cards : List Card) :
    fixedVals (.standard .A s :: cards) = fixedVals cards := rfl

theorem aceCount_ace (s : Suit) (cards : List Card) :
    aceCount (.standard .A s :: cards) = aceCount cards + 1 := rfl

theorem fixedVals_fixed {r : Rank} {v : ℕ} (hv : r.seq = some v) (s : Suit) (cards : List Card) :
    fixedVals (.standard r s :: cards) = v :: fixedVals cards := by
  simp [fixedVals, Card.rank?, hv]

theorem aceCount_fixed {r : Rank} (hr : r ≠ .A) (s : Suit) (cards : List Card) :
    aceCount (.standard r s :: cards) = aceCount cards := by
  simp [aceCount, Card.rank?, hr]

theorem fixedVals_range {v : ℕ} (hv : v ∈ fixedVals cards) : 2 ≤ v ∧ v ≤ 13 := by
  obtain ⟨c, -, hc⟩ := List.mem_filterMap.1 hv
  cases c with
  | joker j => cases hc
  | standard r s => cases r <;> simp [Card.rank?, Rank.seq] at hc <;> omega

/-- A reading consists of the fixed values and of one value for each Ace. -/
theorem counts_split (h : List.Forall₂ Card.Counts cards vals) :
    cards.any Card.isJoker = false ∧ ∃ as, AceVals (aceCount cards) as ∧ vals.Perm (fixedVals cards ++ as) := by
  induction h with
  | nil => exact ⟨rfl, [], ⟨rfl, by simp⟩, List.Perm.nil⟩
  | @cons c v cards vals hc _ ih =>
    obtain ⟨hstd, as, ⟨hlen, has⟩, hp⟩ := ih
    cases c with
    | joker j => exact hc.elim
    | standard r s =>
      refine ⟨by simpa [Card.isJoker] using hstd, ?_⟩
      by_cases hr : r = .A
      · subst hr
        refine ⟨v :: as, ⟨by rw [aceCount_ace, List.length_cons, hlen], ?_⟩, ?_⟩
        · rw [List.forall_mem_cons]
          exact ⟨(counts_ace s v).1 hc, has⟩
        · rw [fixedVals_ace]
          exact (hp.cons v).trans List.perm_middle.symm
      · have hv := (counts_fixed hr s v).1 hc
        refine ⟨as, ⟨by rw [aceCount_fixed hr, hlen], has⟩, ?_⟩
        rw [fixedVals_fixed hv]
        exact hp.cons v

/-- Every choice of values for the Aces is part of a reading. -/
theorem counts_join (hstd : cards.any Card.isJoker = false) (has : AceVals (aceCount cards) as) :
    ∃ vals, List.Forall₂ Card.Counts cards vals ∧ vals.Perm (fixedVals cards ++ as) := by
  induction cards generalizing as with
  | nil =>
    have : as = [] := List.length_eq_zero_iff.1 has.1
    exact ⟨[], .nil, by simp [this]⟩
  | cons c cards ih =>
    rw [List.any_cons, Bool.or_eq_false_iff] at hstd
    cases c with
    | joker j => exact absurd hstd.1 (by simp [Card.isJoker])
    | standard r s =>
      by_cases hr : r = .A
      · subst hr
        obtain ⟨hlen, hval⟩ := has
        cases as with
        | nil => simp [aceCount_ace] at hlen
        | cons a as =>
          rw [List.forall_mem_cons] at hval
          rw [aceCount_ace, List.length_cons] at hlen
          obtain ⟨vals, hreads, hp⟩ := ih hstd.2 ⟨by omega, hval.2⟩
          refine ⟨a :: vals, .cons ((counts_ace s a).2 hval.1) hreads, ?_⟩
          rw [fixedVals_ace]
          exact (hp.cons a).trans List.perm_middle.symm
      · obtain ⟨v, hv, -⟩ := seq_of_ne hr
        rw [aceCount_fixed hr] at has
        obtain ⟨vals, hreads, hp⟩ := ih hstd.2 has
        refine ⟨v :: vals, .cons ((counts_fixed hr s v).2 hv) hreads, ?_⟩
        rw [fixedVals_fixed hv]
        exact hp.cons v

/-- A reading as a run, in terms of the values of the Aces. -/
theorem readsAs_iff : ReadsAs cards top ↔ cards.any Card.isJoker = false ∧
    ∃ as low, AceVals (aceCount cards) as ∧ Fills (fixedVals cards ++ as) low top := by
  constructor
  · rintro ⟨vals, low, hreads, hf⟩
    obtain ⟨hstd, as, has, hp⟩ := counts_split hreads
    exact ⟨hstd, as, low, has, hf.perm hp⟩
  · rintro ⟨hstd, as, low, has, hf⟩
    obtain ⟨vals, hreads, hp⟩ := counts_join hstd has
    exact ⟨vals, low, hreads, hf.perm hp.symm⟩

/-! ## The search for a run -/

/-- The value of each Ace under a mask. -/
def maskVals (aces mask : ℕ) : List ℕ := (List.range aces).map fun i => if mask.testBit i then 14 else 1

theorem maskVals_ok (aces mask : ℕ) : AceVals aces (maskVals aces mask) := by
  refine ⟨by simp [maskVals], ?_⟩
  intro a ha
  obtain ⟨i, -, rfl⟩ := List.mem_map.1 ha
  split
  · exact Or.inr rfl
  · exact Or.inl rfl

/-- Every choice of values for the Aces is one mask. -/
theorem mask_of {n : ℕ} (has : AceVals n as) : ∃ mask < 2 ^ n, maskVals n mask = as := by
  obtain ⟨rfl, hval⟩ := has
  refine ⟨Nat.ofBits fun i : Fin as.length => as[i] == 14, Nat.ofBits_lt_two_pow _, ?_⟩
  refine List.ext_getElem (by simp [maskVals]) fun i h h' => ?_
  have hi := hval as[i] (List.getElem_mem h')
  simp only [maskVals, List.getElem_map, List.getElem_range]
  rw [Nat.testBit_ofBits_lt _ i h']
  rcases hi with hi | hi
  · simp [hi]
  · simp [hi]

/-- What the search makes of one mask. -/
def tryMask (cards : List Card) (mask : ℕ) : Option ℕ :=
  if (runVals (fixedVals cards) (aceCount cards) mask).Nodup ∧
      consecutive (runVals (fixedVals cards) (aceCount cards) mask) = true then
    (runVals (fixedVals cards) (aceCount cards) mask).getLast? else none

theorem straightTop_eq (cards : List Card) : straightTop cards =
    if cards.length < 5 then none else if cards.any Card.isJoker then none
    else (List.range (2 ^ aceCount cards)).findSome? (tryMask cards) := rfl

/-- As many values as cards. -/
theorem runVals_ne (hstd : cards.any Card.isJoker = false) (hne : cards ≠ []) (has : AceVals (aceCount cards) as) :
    fixedVals cards ++ as ≠ [] := by
  obtain ⟨vals, hreads, hp⟩ := counts_join hstd has
  intro h
  rw [h] at hp
  cases hreads with
  | nil => exact hne rfl
  | cons _ _ => exact absurd hp.eq_nil (by simp)

/-- A choice of high and low aces fits when some run is filled. -/
theorem tryMask_eq_some {mask : ℕ} (hne : fixedVals cards ++ maskVals (aceCount cards) mask ≠ []) :
    tryMask cards mask = some top ↔ ∃ low, Fills (fixedVals cards ++ maskVals (aceCount cards) mask) low top := by
  unfold tryMask
  rw [show runVals (fixedVals cards) (aceCount cards) mask =
    (fixedVals cards ++ maskVals (aceCount cards) mask).insertionSort (· ≤ ·) from rfl]
  constructor
  · intro h
    split at h
    · rename_i hrun
      obtain ⟨low, top', hf⟩ := (sorted_run _ hne).1 hrun
      rw [sorted_top hf hne, Option.some.injEq] at h
      exact ⟨low, h ▸ hf⟩
    · cases h
  · rintro ⟨low, hf⟩
    rw [if_pos ((sorted_run _ hne).2 ⟨low, top, hf⟩), sorted_top hf hne]

/-- **What the search finds is a reading.** -/
theorem straightTop_reads (h : straightTop cards = some top) : 5 ≤ cards.length ∧ ReadsAs cards top := by
  rw [straightTop_eq] at h
  split at h
  · cases h
  rename_i hlen
  split at h
  · cases h
  rename_i hstd
  rw [Bool.not_eq_true] at hstd
  have hne : cards ≠ [] := by
    rintro rfl
    simp at hlen
  obtain ⟨mask, -, hmask⟩ := List.exists_of_findSome?_eq_some h
  have hok := maskVals_ok (aceCount cards) mask
  obtain ⟨low, hf⟩ := (tryMask_eq_some (runVals_ne hstd hne hok)).1 hmask
  exact ⟨by omega, readsAs_iff.2 ⟨hstd, _, low, hok, hf⟩⟩

/-- **The search misses no reading.** -/
theorem straightTop_found (h5 : 5 ≤ cards.length) (h : ReadsAs cards top) : ∃ t, straightTop cards = some t := by
  obtain ⟨hstd, as, low, has, hf⟩ := readsAs_iff.1 h
  have hne : cards ≠ [] := by
    rintro rfl
    simp at h5
  obtain ⟨mask, hlt, rfl⟩ := mask_of has
  rw [straightTop_eq, if_neg (by omega), hstd, if_neg (by simp), ← Option.isSome_iff_exists,
    List.findSome?_isSome_iff]
  refine ⟨mask, List.mem_range.2 hlt, ?_⟩
  rw [(tryMask_eq_some (runVals_ne hstd hne has)).2 ⟨low, hf⟩]
  rfl

/-- The search does not depend on the order of the cards. -/
theorem straightTop_perm (h : cards.Perm cards') : straightTop cards = straightTop cards' := by
  have hfixed : (fixedVals cards).Perm (fixedVals cards') := h.filterMap _
  have haces : aceCount cards = aceCount cards' := (h.filter _).length_eq
  have hjoker : cards.any Card.isJoker = cards'.any Card.isJoker := h.any_eq
  have hmask : tryMask cards = tryMask cards' := by
    funext mask
    unfold tryMask runVals
    rw [haces, sort_congr (hfixed.append_right _)]
  rw [straightTop_eq, straightTop_eq, h.length_eq, hjoker, haces, hmask]

end

/-! ## The grammar -/

/-- All cards are standard cards of one rank. -/
def OfRank (cards : List Card) (r : Rank) : Prop := ∀ c ∈ cards, c.rank? = some r

/-- All cards are standard cards of one suit. -/
def OfSuit (cards : List Card) (s : Suit) : Prop := ∀ c ∈ cards, c.suit? = some s

/-- Which lists of cards are combinations of a type. -/
def Forms (cards : List Card) : ComboType → Prop
  | .single => cards.length = 1
  | .pair => cards.length = 2 ∧ ∃ r, OfRank cards r
  | .triple => cards.length = 3 ∧ ∃ r, OfRank cards r
  | .bomb => cards.length = 4 ∧ ∃ r, OfRank cards r
  | .flush => 5 ≤ cards.length ∧ (∃ top, ReadsAs cards top) ∧ ∃ s, OfSuit cards s
  | .kolor => 5 ≤ cards.length ∧ (∃ top, ReadsAs cards top) ∧ ¬ ∃ s, OfSuit cards s

/-- What a combination is, apart from its cards. -/
def Combo.key (c : Combo) : ComboType × ℕ × Option ℕ × Option ℕ := (c.type, c.size, c.power, c.topSeq)

/-- The type of a group of `n` cards of one rank. -/
def groupType : ℕ → Option ComboType
  | 2 => some .pair
  | 3 => some .triple
  | 4 => some .bomb
  | _ => none

/-- The group of the cards. -/
def groupOf (t : ComboType) (cards : List Card) (r : Rank) : Combo :=
  { type := t, cards, size := cards.length, power := some r.power }

/-- The run of the cards. -/
def runOf (cards : List Card) (top : ℕ) : Combo :=
  { type := if allSameSuit cards then .flush else .kolor, cards, size := cards.length, topSeq := some top }

section

variable {cards cards' : List Card} {combo : Combo} {top : ℕ}

/-- The source's test for one rank. -/
theorem allSameRank_iff (hne : cards ≠ []) : allSameRank cards = true ↔ ∃ r, OfRank cards r := by
  cases cards with
  | nil => exact absurd rfl hne
  | cons c cards =>
    unfold allSameRank
    constructor
    · intro h
      split at h
      · cases h
      rename_i hstd
      cases c with
      | joker j => simp [Card.isJoker] at hstd
      | standard r s =>
        refine ⟨r, fun d hd => ?_⟩
        simpa [Card.rank?] using List.all_eq_true.1 h d hd
    · rintro ⟨r, hr⟩
      have hstd : (c :: cards).any Card.isJoker = false := by
        rw [List.any_eq_false]
        intro d hd hj
        have := hr d hd
        cases d <;> simp [Card.isJoker, Card.rank?] at hj this
      rw [hstd, if_neg (by simp), List.all_eq_true]
      intro d hd
      rw [hr d hd, List.head?_cons, Option.bind_some, hr c List.mem_cons_self]
      simp

/-- The source's test for one suit. -/
theorem allSameSuit_iff (hne : cards ≠ []) : allSameSuit cards = true ↔ ∃ s, OfSuit cards s := by
  cases cards with
  | nil => exact absurd rfl hne
  | cons c cards =>
    unfold allSameSuit
    constructor
    · intro h
      split at h
      · cases h
      rename_i hstd
      cases c with
      | joker j => simp [Card.isJoker] at hstd
      | standard r s =>
        refine ⟨s, fun d hd => ?_⟩
        simpa [Card.suit?] using List.all_eq_true.1 h d hd
    · rintro ⟨s, hs⟩
      have hstd : (c :: cards).any Card.isJoker = false := by
        rw [List.any_eq_false]
        intro d hd hj
        have := hs d hd
        cases d <;> simp [Card.isJoker, Card.suit?] at hj this
      rw [hstd, if_neg (by simp), List.all_eq_true]
      intro d hd
      rw [hs d hd, List.head?_cons, Option.bind_some, hs c List.mem_cons_self]
      simp

theorem OfRank.perm {r : Rank} (h : OfRank cards r) (hp : cards'.Perm cards) : OfRank cards' r :=
  fun c hc => h c (hp.mem_iff.1 hc)

theorem OfSuit.perm {s : Suit} (h : OfSuit cards s) (hp : cards'.Perm cards) : OfSuit cards' s :=
  fun c hc => h c (hp.mem_iff.1 hc)

/-- A group is recognised by its length and its rank. -/
theorem identifyCombo_ofRank {t : ComboType} {r : Rank} (ht : groupType cards.length = some t) (hr : OfRank cards r) :
    identifyCombo cards = some (groupOf t cards r) := by
  have hne : cards ≠ [] := by
    rintro rfl
    cases ht
  have hsame := (allSameRank_iff hne).2 ⟨r, hr⟩
  rcases cards with - | ⟨a, - | ⟨b, - | ⟨c, - | ⟨d, - | ⟨e, l⟩⟩⟩⟩⟩
  · cases ht
  · cases ht
  all_goals first
    | (cases ht; simp [identifyCombo, hsame, groupOf, hr a List.mem_cons_self])
    | cases ht

/-- Five cards or more are a run or nothing. -/
theorem identifyCombo_run (h5 : 5 ≤ cards.length) : identifyCombo cards = (straightTop cards).map (runOf cards) := by
  rcases cards with - | ⟨a, - | ⟨b, - | ⟨c, - | ⟨d, - | ⟨e, l⟩⟩⟩⟩⟩
  · simp at h5
  · simp at h5
  · simp at h5
  · simp at h5
  · simp at h5
  · unfold identifyCombo
    cases straightTop (a :: b :: c :: d :: e :: l) with
    | none => rfl
    | some top => rfl

/-- **What `identifyCombo` returns**: a single card, a group or a run. -/
theorem identifyCombo_cases (h : identifyCombo cards = some combo) :
    (∃ c, cards = [c] ∧ combo = { type := .single, cards, size := 1, power := some (singlePower c) }) ∨
    (∃ t r, groupType cards.length = some t ∧ OfRank cards r ∧ combo = groupOf t cards r) ∨
    (5 ≤ cards.length ∧ ∃ top, straightTop cards = some top ∧ combo = runOf cards top) := by
  have hgroup : ∀ t, groupType cards.length = some t → allSameRank cards = true →
      ∃ t r, groupType cards.length = some t ∧ OfRank cards r ∧ combo = groupOf t cards r := by
    intro t ht hsame
    have hne : cards ≠ [] := by
      rintro rfl
      cases ht
    obtain ⟨r, hr⟩ := (allSameRank_iff hne).1 hsame
    rw [identifyCombo_ofRank ht hr, Option.some.injEq] at h
    exact ⟨t, r, ht, hr, h.symm⟩
  rcases cards with - | ⟨a, - | ⟨b, - | ⟨c, - | ⟨d, - | ⟨e, l⟩⟩⟩⟩⟩
  · cases h
  · exact Or.inl ⟨a, rfl, (Option.some.injEq _ _ ▸ h).symm⟩
  · refine Or.inr (Or.inl (hgroup .pair rfl ?_))
    by_contra hno
    simp [identifyCombo, hno] at h
  · refine Or.inr (Or.inl (hgroup .triple rfl ?_))
    by_contra hno
    simp [identifyCombo, hno] at h
  · refine Or.inr (Or.inl (hgroup .bomb rfl ?_))
    by_contra hno
    simp [identifyCombo, hno] at h
  · have h5 : 5 ≤ (a :: b :: c :: d :: e :: l).length := by simp
    rw [identifyCombo_run h5, Option.map_eq_some_iff] at h
    obtain ⟨top, htop, rfl⟩ := h
    exact Or.inr (Or.inr ⟨h5, top, htop, rfl⟩)

theorem groupType_some {n : ℕ} {t : ComboType} (h : groupType n = some t) :
    (n = 2 ∧ t = .pair) ∨ (n = 3 ∧ t = .triple) ∨ (n = 4 ∧ t = .bomb) := by
  unfold groupType at h
  split at h <;> simp_all

/-- A combination is of the type whose form its cards have. -/
theorem identifyCombo_forms (h : identifyCombo cards = some combo) : Forms cards combo.type := by
  rcases identifyCombo_cases h with ⟨c, rfl, rfl⟩ | ⟨t, r, ht, hr, rfl⟩ | ⟨h5, top, htop, rfl⟩
  · rfl
  · rcases groupType_some ht with ⟨hn, rfl⟩ | ⟨hn, rfl⟩ | ⟨hn, rfl⟩
    · exact ⟨hn, r, hr⟩
    · exact ⟨hn, r, hr⟩
    · exact ⟨hn, r, hr⟩
  · have hne : cards ≠ [] := by
      rintro rfl
      simp at h5
    have hreads : ∃ top, ReadsAs cards top := ⟨top, (straightTop_reads htop).2⟩
    by_cases hsuit : allSameSuit cards = true
    · rw [show (runOf cards top).type = .flush from if_pos hsuit]
      exact ⟨h5, hreads, (allSameSuit_iff hne).1 hsuit⟩
    · rw [show (runOf cards top).type = .kolor from if_neg hsuit]
      exact ⟨h5, hreads, fun hs => hsuit ((allSameSuit_iff hne).2 hs)⟩

/-- The keys of a combination: a power below five cards, the top of a reading from five on. -/
theorem identifyCombo_keys (h : identifyCombo cards = some combo) :
    combo.size = cards.length ∧ (combo.power.isSome ↔ cards.length < 5) ∧
      (combo.topSeq.isSome ↔ 5 ≤ cards.length) ∧ ∀ top, combo.topSeq = some top → ReadsAs cards top := by
  rcases identifyCombo_cases h with ⟨c, rfl, rfl⟩ | ⟨t, r, ht, hr, rfl⟩ | ⟨h5, top, htop, rfl⟩
  · simp
  · have hlen : cards.length < 5 := by
      rcases groupType_some ht with ⟨hn, -⟩ | ⟨hn, -⟩ | ⟨hn, -⟩
      all_goals omega
    refine ⟨rfl, by simp [groupOf, hlen], ?_, ?_⟩
    · simp only [groupOf, Option.isSome_none, Bool.false_eq_true, false_iff]
      omega
    · intro top h
      cases h
  · refine ⟨rfl, ?_, by simp [runOf, h5], ?_⟩
    · simp only [runOf, Option.isSome_none, Bool.false_eq_true, false_iff]
      omega
    · intro t ht
      have : top = t := Option.some.inj ht
      exact this ▸ (straightTop_reads htop).2

/-- Every list that has a form is a combination. -/
theorem identifyCombo_found (h : cards.length = 1 ∨ (2 ≤ cards.length ∧ cards.length ≤ 4 ∧ ∃ r, OfRank cards r) ∨
    (5 ≤ cards.length ∧ ∃ top, ReadsAs cards top)) : ∃ combo, identifyCombo cards = some combo := by
  rcases h with h | ⟨h2, h4, r, hr⟩ | ⟨h5, top, htop⟩
  · obtain ⟨c, rfl⟩ := List.length_eq_one_iff.1 h
    exact ⟨_, rfl⟩
  · have ht : ∃ t, groupType cards.length = some t := by
      have : cards.length = 2 ∨ cards.length = 3 ∨ cards.length = 4 := by omega
      rcases this with h | h | h
      · exact ⟨.pair, by rw [h]; rfl⟩
      · exact ⟨.triple, by rw [h]; rfl⟩
      · exact ⟨.bomb, by rw [h]; rfl⟩
    obtain ⟨t, ht⟩ := ht
    exact ⟨_, identifyCombo_ofRank ht hr⟩
  · obtain ⟨t, ht⟩ := straightTop_found h5 htop
    exact ⟨runOf cards t, by rw [identifyCombo_run h5, ht]; rfl⟩

/-- The order of the cards does not matter. -/
theorem identifyCombo_perm (hp : cards'.Perm cards) :
    (identifyCombo cards').map Combo.key = (identifyCombo cards).map Combo.key := by
  have hsuit : cards ≠ [] → allSameSuit cards' = allSameSuit cards := by
    intro hne
    have hne' : cards' ≠ [] := by
      rintro rfl
      exact hne hp.nil_eq.symm
    rw [Bool.eq_iff_iff, allSameSuit_iff hne', allSameSuit_iff hne]
    exact ⟨fun ⟨s, hs⟩ => ⟨s, hs.perm hp.symm⟩, fun ⟨s, hs⟩ => ⟨s, hs.perm hp⟩⟩
  have one : ∀ {cards cards' : List Card} {combo : Combo}, cards'.Perm cards →
      (cards ≠ [] → allSameSuit cards' = allSameSuit cards) → identifyCombo cards = some combo →
      ∃ combo', identifyCombo cards' = some combo' ∧ combo'.key = combo.key := by
    intro cards cards' combo hp hsuit h
    rcases identifyCombo_cases h with ⟨c, rfl, rfl⟩ | ⟨t, r, ht, hr, rfl⟩ | ⟨h5, top, htop, rfl⟩
    · rw [List.perm_singleton.1 hp]
      exact ⟨_, rfl, rfl⟩
    · refine ⟨_, identifyCombo_ofRank (hp.length_eq ▸ ht) (hr.perm hp), ?_⟩
      simp only [Combo.key, groupOf, hp.length_eq]
    · have hne : cards ≠ [] := by
        rintro rfl
        simp at h5
      refine ⟨runOf cards' top, ?_, ?_⟩
      · rw [identifyCombo_run (hp.length_eq ▸ h5), straightTop_perm hp, htop]
        rfl
      · simp only [Combo.key, runOf, hsuit hne, hp.length_eq]
  cases hc : identifyCombo cards with
  | some combo =>
    obtain ⟨combo', hc', hkey⟩ := one hp hsuit hc
    rw [hc', Option.map_some, Option.map_some, hkey]
  | none =>
    cases hc' : identifyCombo cards' with
    | none => rfl
    | some combo' =>
      have hback : cards' ≠ [] → allSameSuit cards = allSameSuit cards' := by
        intro hne
        refine (hsuit ?_).symm
        rintro rfl
        exact hne hp.eq_nil
      obtain ⟨combo, hsome, -⟩ := one hp.symm hback hc'
      rw [hc] at hsome
      cases hsome

end

/-- **`identifyCombo` accepts exactly its grammar.** -/
theorem identifyCombo_grammar (cards : List Card) :
    ((identifyCombo cards).isSome ↔ cards.length = 1 ∨
      (2 ≤ cards.length ∧ cards.length ≤ 4 ∧ ∃ r, OfRank cards r) ∨
      (5 ≤ cards.length ∧ ∃ top, ReadsAs cards top)) ∧
    (∀ combo, identifyCombo cards = some combo → Forms cards combo.type ∧ combo.cards = cards ∧
      combo.size = cards.length ∧ (combo.power.isSome ↔ cards.length < 5) ∧
      (combo.topSeq.isSome ↔ 5 ≤ cards.length) ∧ ∀ top, combo.topSeq = some top → ReadsAs cards top) ∧
    ∀ cards', cards'.Perm cards →
      (identifyCombo cards').map Combo.key = (identifyCombo cards).map Combo.key := by
  refine ⟨⟨?_, ?_⟩, ?_, fun cards' hp => identifyCombo_perm hp⟩
  · intro h
    obtain ⟨combo, hc⟩ := Option.isSome_iff_exists.1 h
    rcases identifyCombo_cases hc with ⟨c, rfl, -⟩ | ⟨t, r, ht, hr, -⟩ | ⟨h5, top, htop, -⟩
    · exact Or.inl rfl
    · refine Or.inr (Or.inl ?_)
      rcases groupType_some ht with ⟨hn, -⟩ | ⟨hn, -⟩ | ⟨hn, -⟩
      all_goals exact ⟨by omega, by omega, r, hr⟩
    · exact Or.inr (Or.inr ⟨h5, top, (straightTop_reads htop).2⟩)
  · intro h
    exact Option.isSome_iff_exists.2 (identifyCombo_found h)
  · intro combo h
    exact ⟨identifyCombo_forms h, identifyCombo_cards h, identifyCombo_keys h⟩

/-! ## The key of a run -/

/-- Thirteen standard cards, one of each rank. -/
def OneOfEach (cards : List Card) : Prop :=
  cards.any Card.isJoker = false ∧ ∀ r, cards.countP (fun c => c.rank? == some r) = 1

section

variable {cards : List Card} {vals vals' as as' : List ℕ} {low low' top top' : ℕ}

/-- The same values have one top. -/
theorem Fills.top_unique (h : Fills vals low top) (h' : Fills vals' low' top') (hp : vals.Perm vals')
    (hne : vals ≠ []) : top = top' := by
  have hne' : vals' ≠ [] := by
    rintro rfl
    exact hne hp.eq_nil
  obtain ⟨-, htop⟩ := h.range' hne
  obtain ⟨-, htop'⟩ := h'.range' hne'
  have hlen := hp.length_eq
  obtain ⟨v, hv⟩ := List.exists_mem_of_ne_nil vals hne
  -- the least value is the same, and so is their number
  have hlow : low = low' := by
    have := (h.2 v).1 hv
    have := (h'.2 v).1 (hp.mem_iff.1 hv)
    have := (h'.2 low).1 (hp.mem_iff.1 ((h.2 low).2 (by omega)))
    have := (h.2 low').1 (hp.mem_iff.2 ((h'.2 low').2 (by omega)))
    omega
  omega

theorem seq_inj {r r' : Rank} {v : ℕ} (h : r.seq = some v) (h' : r'.seq = some v) : r = r' := by
  have key : ∀ r' : Rank, r'.seq = some v → r.seq = some v → r = r' := by
    intro r' h' h
    cases r <;> cases h <;> cases r' <;> first | rfl | cases h'
  exact key r' h' h

/-- The fixed values count the cards of their ranks. -/
theorem count_fixedVals {r : Rank} {v : ℕ} (hr : r.seq = some v) (cards : List Card) :
    (fixedVals cards).count v = cards.countP fun c => c.rank? == some r := by
  unfold fixedVals List.count
  rw [List.countP_filterMap]
  refine List.countP_congr fun c _ => ?_
  cases c with
  | joker j => simp [Card.rank?]
  | standard r' s =>
    simp only [Card.rank?, Option.bind_some]
    constructor
    · intro h
      cases hw : r'.seq with
      | none => simp [hw] at h
      | some w =>
        have : w = v := by simpa [hw] using h
        subst this
        rw [seq_inj hw hr]
        simp
    · intro h
      have : r' = r := by simpa using h
      subst this
      simp [hr]

theorem aceCount_eq (cards : List Card) : aceCount cards = cards.countP fun c => c.rank? == some .A :=
  List.countP_eq_length_filter.symm

/-- Every value of a run is some rank's. -/
theorem exists_seq {v : ℕ} (h2 : 2 ≤ v) (h13 : v ≤ 13) : ∃ r : Rank, r.seq = some v := by
  have key : ∀ v < 14, 2 ≤ v → v = 2 ∨ v = 3 ∨ v = 4 ∨ v = 5 ∨ v = 6 ∨ v = 7 ∨ v = 8 ∨ v = 9 ∨ v = 10 ∨
      v = 11 ∨ v = 12 ∨ v = 13 := by
    intro v
    omega
  rcases key v (by omega) h2 with rfl | rfl | rfl | rfl | rfl | rfl | rfl | rfl | rfl | rfl | rfl | rfl
  exacts [⟨.r2, rfl⟩, ⟨.r3, rfl⟩, ⟨.r4, rfl⟩, ⟨.r5, rfl⟩, ⟨.r6, rfl⟩, ⟨.r7, rfl⟩, ⟨.r8, rfl⟩, ⟨.r9, rfl⟩,
    ⟨.r10, rfl⟩, ⟨.J, rfl⟩, ⟨.Q, rfl⟩, ⟨.K, rfl⟩]

/-- One card of each rank: one Ace, and the other values are those from 2 to 13. -/
theorem oneOfEach_iff : OneOfEach cards ↔
    cards.any Card.isJoker = false ∧ aceCount cards = 1 ∧ Fills (fixedVals cards) 2 13 := by
  unfold OneOfEach
  refine and_congr_right fun _ => ⟨fun h => ⟨by rw [aceCount_eq, h], ?_, ?_⟩, ?_⟩
  · rw [List.nodup_iff_count_le_one]
    intro v
    by_cases hv : v ∈ fixedVals cards
    · obtain ⟨h2, h13⟩ := fixedVals_range hv
      obtain ⟨r, hr⟩ := exists_seq h2 h13
      rw [count_fixedVals hr, h]
    · rw [List.count_eq_zero_of_not_mem hv]
      omega
  · intro v
    refine ⟨fixedVals_range, fun ⟨h2, h13⟩ => ?_⟩
    obtain ⟨r, hr⟩ := exists_seq h2 h13
    rw [← List.count_pos_iff, count_fixedVals hr, h]
    omega
  · rintro ⟨hace, hf⟩ r
    by_cases hr : r = .A
    · subst hr
      rw [← aceCount_eq, hace]
    · obtain ⟨v, hv, h2, h13⟩ := seq_of_ne hr
      rw [← count_fixedVals hv]
      exact List.count_eq_one_of_mem hf.1 ((hf.2 v).2 ⟨h2, h13⟩)

/-- At most two Aces fit in one run, and two of them are the 1 and the 14. -/
theorem ace_choices {F : List ℕ} {n : ℕ} (has : AceVals n as) (hf : Fills (F ++ as) low top) :
    as = [] ∨ as = [1] ∨ as = [14] ∨ as.Perm [1, 14] := by
  obtain ⟨-, hval⟩ := has
  have hnd : as.Nodup := hf.1.of_append_right
  rcases as with - | ⟨a, - | ⟨b, - | ⟨c, l⟩⟩⟩
  · exact Or.inl rfl
  · rcases hval a List.mem_cons_self with rfl | rfl
    · exact Or.inr (Or.inl rfl)
    · exact Or.inr (Or.inr (Or.inl rfl))
  · have ha := hval a (by simp)
    have hb := hval b (by simp)
    have hab : a ≠ b := by
      simp at hnd
      exact hnd
    refine Or.inr (Or.inr (Or.inr ?_))
    rcases ha with rfl | rfl
    · rw [show b = 14 by omega]
    · rw [show b = 1 by omega]
      exact List.Perm.swap _ _ _
  · have ha := hval a (by simp)
    have hb := hval b (by simp)
    have hc := hval c (by simp)
    simp at hnd
    omega

/-- One Ace that fits at both ends: the other cards are those from 2 to 13. -/
theorem both_ends {F : List ℕ} (h : Fills (F ++ [1]) low top) (h' : Fills (F ++ [14]) low' top')
    (hF : ∀ v ∈ F, 2 ≤ v ∧ v ≤ 13) (hne : F ≠ []) : Fills F 2 13 ∧ top = 13 ∧ top' = 14 := by
  obtain ⟨v, hv⟩ := List.exists_mem_of_ne_nil F hne
  have hvF := hF v hv
  have mem : ∀ w, w ∈ F ++ [1] ↔ w ∈ F ∨ w = 1 := by simp
  have mem' : ∀ w, w ∈ F ++ [14] ↔ w ∈ F ∨ w = 14 := by simp
  have hlow := (h.2 1).1 ((mem 1).2 (Or.inr rfl))
  have htop' := (h'.2 14).1 ((mem' 14).2 (Or.inr rfl))
  have hvt := (h.2 v).1 ((mem v).2 (Or.inl hv))
  have hvl := (h'.2 v).1 ((mem' v).2 (Or.inl hv))
  -- from `v` down to 2 the values are filled because of the low Ace, up to 13 because of the high one
  have hall : ∀ w, 2 ≤ w → w ≤ 13 → w ∈ F := by
    intro w h2 h13
    by_cases hwv : w ≤ v
    · exact ((mem w).1 ((h.2 w).2 (by omega))).resolve_right (by omega)
    · exact ((mem' w).1 ((h'.2 w).2 (by omega))).resolve_right (by omega)
  have htop : top = 13 := by
    have h13 := (h.2 13).1 ((mem 13).2 (Or.inl (hall 13 (by omega) (by omega))))
    have := (mem top).1 ((h.2 top).2 (by omega))
    rcases this with ht | ht
    · have := hF top ht
      omega
    · omega
  have htop14 : top' = 14 := by
    have := (mem' top').1 ((h'.2 top').2 (by omega))
    rcases this with ht | ht
    · have := hF top' ht
      omega
    · exact ht
  exact ⟨⟨h.1.of_append_left, fun w => ⟨hF w, fun ⟨h2, h13⟩ => hall w h2 h13⟩⟩, htop, htop14⟩

/-- A run of five has a card that is no ace. -/
theorem fixedVals_ne {n : ℕ} (hstd : cards.any Card.isJoker = false) (h5 : 5 ≤ cards.length)
    (hn : aceCount cards = n) (hn2 : n ≤ 2) : fixedVals cards ≠ [] := by
  obtain ⟨vals, hreads, hp⟩ := counts_join hstd (maskVals_ok (aceCount cards) 0)
  have hlen := hreads.length_eq
  rw [hp.length_eq, List.length_append, (maskVals_ok _ _).1] at hlen
  intro h
  rw [h, List.length_nil] at hlen
  omega

/-- **Two readings with different tops** are of one card of each rank. -/
theorem readings_agree (h5 : 5 ≤ cards.length) (hno : ¬ OneOfEach cards) (h : ReadsAs cards top)
    (h' : ReadsAs cards top') : top = top' := by
  obtain ⟨hstd, as, low, has, hf⟩ := readsAs_iff.1 h
  obtain ⟨-, as', low', has', hf'⟩ := readsAs_iff.1 h'
  have hcards : cards ≠ [] := by
    rintro rfl
    simp at h5
  have hne := runVals_ne hstd hcards has
  have hlen : as.length = as'.length := by rw [has.1, has'.1]
  have same : as.Perm as' → top = top' := fun hp => hf.top_unique hf' (hp.append_left _) hne
  have apart : ∀ {low low' top top' : ℕ}, aceCount cards = 1 → Fills (fixedVals cards ++ [1]) low top →
      Fills (fixedVals cards ++ [14]) low' top' → False := by
    intro low low' top top' hone h1 h14
    have hF := fixedVals_ne hstd h5 hone (by omega)
    exact hno (oneOfEach_iff.2 ⟨hstd, hone, (both_ends h1 h14 (fun _ => fixedVals_range) hF).1⟩)
  rcases ace_choices has hf with rfl | rfl | rfl | hp
  · have : as' = [] := List.length_eq_zero_iff.1 hlen.symm
    exact same (by rw [this])
  · rcases ace_choices has' hf' with rfl | rfl | rfl | hp'
    · simp at hlen
    · exact same (List.Perm.refl _)
    · exact (apart (by simpa using has.1.symm) hf hf').elim
    · simp [hp'.length_eq] at hlen
  · rcases ace_choices has' hf' with rfl | rfl | rfl | hp'
    · simp at hlen
    · exact (apart (by simpa using has.1.symm) hf' hf).elim
    · exact same (List.Perm.refl _)
    · simp [hp'.length_eq] at hlen
  · rcases ace_choices has' hf' with rfl | rfl | rfl | hp'
    · simp [hp.length_eq] at hlen
    · simp [hp.length_eq] at hlen
    · simp [hp.length_eq] at hlen
    · exact same (hp.trans hp'.symm)

/-- One card of each rank has the two readings that end in 13 and in 14. -/
theorem OneOfEach.reads (h : OneOfEach cards) (t : ℕ) : ReadsAs cards t ↔ t = 13 ∨ t = 14 := by
  obtain ⟨hstd, hace, hf⟩ := oneOfEach_iff.1 h
  have low : Fills (fixedVals cards ++ [1]) 1 13 := by
    refine ⟨?_, fun v => ?_⟩
    · rw [List.nodup_append]
      refine ⟨hf.1, by simp, ?_⟩
      intro a ha b hb
      have := (hf.2 a).1 ha
      rw [List.mem_singleton] at hb
      omega
    · rw [List.mem_append, hf.2 v, List.mem_singleton]
      omega
  have high : Fills (fixedVals cards ++ [14]) 2 14 := by
    refine ⟨?_, fun v => ?_⟩
    · rw [List.nodup_append]
      refine ⟨hf.1, by simp, ?_⟩
      intro a ha b hb
      have := (hf.2 a).1 ha
      rw [List.mem_singleton] at hb
      omega
    · rw [List.mem_append, hf.2 v, List.mem_singleton]
      omega
  have hne : ∀ a, fixedVals cards ++ [a] ≠ [] := by simp
  rw [readsAs_iff]
  constructor
  · rintro ⟨-, as, l, has, ht⟩
    have hlen : as.length = 1 := has.1.trans hace
    rcases ace_choices has ht with rfl | rfl | rfl | hp
    · simp at hlen
    · exact Or.inl (ht.top_unique low (List.Perm.refl _) (hne 1))
    · exact Or.inr (ht.top_unique high (List.Perm.refl _) (hne 14))
    · simp [hp.length_eq] at hlen
  · rintro (rfl | rfl)
    · exact ⟨hstd, [1], 1, ⟨by rw [hace]; rfl, by simp⟩, low⟩
    · exact ⟨hstd, [14], 2, ⟨by rw [hace]; rfl, by simp⟩, high⟩

/-- The search tries the low Ace first. -/
theorem OneOfEach.straightTop (h : OneOfEach cards) (h5 : 5 ≤ cards.length) : straightTop cards = some 13 := by
  obtain ⟨hstd, hace, hf⟩ := oneOfEach_iff.1 h
  obtain ⟨-, as, low, has, ht⟩ := readsAs_iff.1 ((h.reads 13).2 (Or.inl rfl))
  have hlen : as.length = 1 := has.1.trans hace
  have hmask : maskVals (aceCount cards) 0 = [1] := by rw [hace]; rfl
  have has1 : as = [1] := by
    rcases ace_choices has ht with rfl | rfl | rfl | hp
    · simp at hlen
    · rfl
    · have := (ht.2 14).1 (by simp)
      omega
    · simp [hp.length_eq] at hlen
  subst has1
  have hzero : tryMask cards 0 = some 13 := by
    refine (tryMask_eq_some (by rw [hmask]; simp)).2 ⟨low, ?_⟩
    rw [hmask]
    exact ht
  rw [straightTop_eq, if_neg (by omega), hstd, if_neg (by simp), hace]
  simp [List.range_succ, hzero]

end

/-- **The key of a run** does not depend on how its Aces are read, but for one card of each rank:
its Ace fits at both ends, and the run is taken to end with the King. -/
theorem run_key (cards : List Card) (h5 : 5 ≤ cards.length) :
    (¬ OneOfEach cards →
      (∀ t t', ReadsAs cards t → ReadsAs cards t' → t = t') ∧
      (∀ top t, straightTop cards = some top → ReadsAs cards t → t ≤ top) ∧
      ∀ cand t pile, identifyCombo cards = some cand → ReadsAs cards t →
        beats { cand with topSeq := some t } pile = true → beats cand pile = true) ∧
    (OneOfEach cards → (∀ t, ReadsAs cards t ↔ t = 13 ∨ t = 14) ∧ straightTop cards = some 13) := by
  refine ⟨fun hno => ⟨fun t t' h h' => readings_agree h5 hno h h', ?_, ?_⟩, fun h => ⟨h.reads, h.straightTop h5⟩⟩
  · intro top t htop ht
    rw [readings_agree h5 hno ht (straightTop_reads htop).2]
  · intro cand t pile hc ht hbeats
    rw [identifyCombo_run h5, Option.map_eq_some_iff] at hc
    obtain ⟨top, htop, rfl⟩ := hc
    rwa [readings_agree h5 hno ht (straightTop_reads htop).2] at hbeats

/-- The thirteen ranks from the Ace to the King, the first three cards of the suit `s`. -/
def thirteen (s : Suit) : List Card :=
  [.standard .A s, .standard .r2 s, .standard .r3 s, .standard .r4 .H, .standard .r5 .H, .standard .r6 .H,
    .standard .r7 .H, .standard .r8 .H, .standard .r9 .H, .standard .r10 .H, .standard .J .H, .standard .Q .H,
    .standard .K .H]

theorem run_key_seven : 5 ≤ ((thirteen .S).take 7).length ∧ ¬ OneOfEach ((thirteen .S).take 7) ∧
    ∀ t t', ReadsAs ((thirteen .S).take 7) t → ReadsAs ((thirteen .S).take 7) t' → t = t' := by
  have hno : ¬ OneOfEach ((thirteen .S).take 7) := fun ⟨_, h⟩ => absurd (h .K) (by decide)
  exact ⟨by decide, hno, ((run_key ((thirteen .S).take 7) (by decide)).1 hno).1⟩

/-- The thirteen cards are a run up to the King and a run up to the Ace; the search takes the King,
and so they do not beat thirteen others that they would beat as a run up to the Ace. -/
theorem thirteen_ambiguous : 5 ≤ (thirteen .S).length ∧ (∀ c ∈ thirteen .S, c.isJoker = false) ∧
    (thirteen .S).Nodup ∧ ReadsAs (thirteen .S) 13 ∧ ReadsAs (thirteen .S) 14 ∧ straightTop (thirteen .S) = some 13 ∧
    ∃ cand pile, identifyCombo (thirteen .S) = some cand ∧ identifyCombo (thirteen .C) = some pile ∧
      beats cand pile = false ∧ beats { cand with topSeq := some 14 } pile = true := by
  have hone : OneOfEach (thirteen .S) := ⟨by decide, fun r => by cases r <;> decide⟩
  have hone' : OneOfEach (thirteen .C) := ⟨by decide, fun r => by cases r <;> decide⟩
  refine ⟨by decide, by decide, by decide, (hone.reads 13).2 (by decide), (hone.reads 14).2 (by decide),
    hone.straightTop (by decide), runOf (thirteen .S) 13, runOf (thirteen .C) 13, ?_, ?_, by decide, by decide⟩
  · rw [identifyCombo_run (by decide), hone.straightTop (by decide)]
    rfl
  · rw [identifyCombo_run (by decide), hone'.straightTop (by decide)]
    rfl

end Murlan
