import Murlan.Proof.BotSearch
import Murlan.Proof.Climb
import Murlan.Spec.BotDecision

/-!
# The bot's legal plays

* `enumerate_sound`: every enumerated play consists of distinct cards of the hand, and may be put
  on the pile.
* `found_run`: the scan finds a run wherever the hand holds one of at most 13 cards, with the same
  top; a longer one is a kolor, which beats no combination.
* `enumerate_empty`: so the enumeration is empty exactly if nothing in the hand may be put on the pile.
-/

namespace Murlan.Bot

open Murlan

/-- The cards are a combination that may be put on the pile. -/
def Fits (pile : Option Combo) (cards : List Card) : Prop :=
  ∃ combo, identifyCombo cards = some combo ∧ ∀ p, pile = some p → beats combo p = true

variable {hand cards cards' found : List Card} {pile : Option Combo} {combo a b : Combo}

/-- The source's check of a play. -/
theorem validatePlay_fits : (validatePlay cards pile).ok = true ↔ Fits pile cards := by
  unfold validatePlay Fits
  cases identifyCombo cards with
  | none => simp
  | some combo =>
    cases pile with
    | none => simp
    | some p => cases h : beats combo p <;> simp [h]

/-- A combination beats by its key. -/
theorem beats_congr (h : a.key = b.key) (p : Combo) : beats a p = beats b p := by
  simp only [Combo.key, Prod.mk.injEq] at h
  obtain ⟨htype, hsize, hpower, htop⟩ := h
  unfold beats
  rw [htype, hsize, hpower, htop]

theorem Fits.congr (hkey : (identifyCombo cards').map Combo.key = (identifyCombo cards).map Combo.key)
    (h : Fits pile cards) : Fits pile cards' := by
  obtain ⟨combo, hc, hbeats⟩ := h
  rw [hc, Option.map_some, Option.map_eq_some_iff] at hkey
  obtain ⟨combo', hc', hkey⟩ := hkey
  exact ⟨combo', hc', fun p hp => (beats_congr hkey p).trans (hbeats p hp)⟩

/-! ## The loop of the enumeration -/

/-- The ids of the cards hold no comma. -/
theorem comma_cardId (c : Card) : ',' ∉ (cardId c).toList := by
  have key : ∀ c ∈ buildDeck, ',' ∉ (cardId c).toList := by decide +kernel
  exact key c (mem_buildDeck c)

/-- Plays with one key are the same cards. -/
theorem playKey_perm (hne : cards ≠ []) (hne' : cards' ≠ []) (h : playKey cards = playKey cards') :
    cards.Perm cards' := by
  have hsplit : ∀ l : List Card, l ≠ [] → (playKey l).toList.splitOn ',' =
      ((l.map cardId).insertionSort (· ≤ ·)).map String.toList := by
    intro l hl
    unfold playKey
    rw [String.toList_intercalate]
    refine List.splitOn_intercalate ',' ?_ ?_
    · intro id hid
      obtain ⟨s, hs, rfl⟩ := List.mem_map.1 hid
      obtain ⟨c, -, rfl⟩ := List.mem_map.1 ((List.mem_insertionSort _).1 hs)
      exact comma_cardId c
    · intro hnil
      have hlen := congrArg List.length hnil
      rw [List.length_map, List.length_insertionSort, List.length_map, List.length_nil, List.length_eq_zero_iff] at hlen
      exact hl hlen
  have hsort := (hsplit cards hne).symm.trans ((congrArg (fun s : String => s.toList.splitOn ',') h).trans (hsplit cards' hne'))
  have hids := (List.map_injective_iff.2 fun s t => String.toList_inj.1) hsort
  have hperm : (cards.map cardId).Perm (cards'.map cardId) := by
    refine (List.perm_insertionSort (· ≤ ·) _).symm.trans ?_
    rw [hids]
    exact List.perm_insertionSort (· ≤ ·) _
  exact (List.map_perm_map_iff fun c d hcd => cardId_inj.1 hcd).1 hperm

/-- Whatever holds of the plays found so far and of every play that fits holds of all plays found. -/
theorem addPlay_all {P : Combo → Prop} (raw : List (List Card)) :
    ∀ acc : List String × List Combo, (∀ c ∈ acc.2, P c) →
      (∀ cards ∈ raw, ∀ combo, identifyCombo cards = some combo → (∀ p, pile = some p → beats combo p = true) → P combo) →
      ∀ c ∈ (raw.foldl (addPlay pile) acc).2, P c := by
  induction raw with
  | nil => exact fun _ h _ => h
  | cons cards raw ih =>
    intro acc hacc hraw
    rw [List.foldl_cons]
    refine ih _ ?_ fun cards' h => hraw cards' (List.mem_cons_of_mem cards h)
    unfold addPlay
    split
    · exact hacc
    cases hc : identifyCombo cards with
    | none => exact hacc
    | some combo =>
      simp only
      split
      · exact hacc
      · rename_i hpass
        have hbeats : ∀ p, pile = some p → beats combo p = true := by
          rintro p rfl
          simpa using hpass
        intro c hmem
        rcases List.mem_append.1 hmem with hmem | hmem
        · exact hacc c hmem
        · rw [List.mem_singleton.1 hmem]
          exact hraw cards List.mem_cons_self combo hc hbeats

/-- Whatever fits and has been met, in some order, has been found. -/
def Covered (pile : Option Combo) (acc : List String × List Combo) : Prop :=
  ∀ cards, cards ≠ [] → playKey cards ∈ acc.1 → Fits pile cards → ∃ combo ∈ acc.2, combo.cards.Perm cards

/-- A play that is added is covered. -/
theorem addPlay_covered {acc : List String × List Combo} (h : Covered pile acc) (hne : cards ≠ []) :
    Covered pile (addPlay pile acc cards) ∧ playKey cards ∈ (addPlay pile acc cards).1 ∧
      ∀ key ∈ acc.1, key ∈ (addPlay pile acc cards).1 := by
  unfold addPlay
  by_cases hin : playKey cards ∈ acc.1
  · rw [if_pos hin]
    exact ⟨h, hin, fun _ hk => hk⟩
  rw [if_neg hin]
  -- what does not fit does not fit in another order either
  have hskip : ¬ Fits pile cards → Covered pile (playKey cards :: acc.1, acc.2) := by
    intro hno cards' hne' hkey hfit
    rcases List.mem_cons.1 hkey with he | hkey
    · exact absurd (hfit.congr (identifyCombo_perm (playKey_perm hne hne' he.symm))) hno
    · exact h cards' hne' hkey hfit
  cases hc : identifyCombo cards with
  | none =>
    have hno : ¬ Fits pile cards := by
      rintro ⟨combo, hsome, -⟩
      rw [hc] at hsome
      cases hsome
    exact ⟨hskip hno, List.mem_cons_self, fun _ hk => List.mem_cons_of_mem _ hk⟩
  | some combo =>
    simp only
    split
    · rename_i hdrop
      have hno : ¬ Fits pile cards := by
        rintro ⟨combo', hsome, hb⟩
        rw [hc, Option.some.injEq] at hsome
        subst hsome
        rw [Option.any_eq_true] at hdrop
        obtain ⟨p, hp, hnot⟩ := hdrop
        rw [hb p hp] at hnot
        cases hnot
      exact ⟨hskip hno, List.mem_cons_self, fun _ hk => List.mem_cons_of_mem _ hk⟩
    · refine ⟨fun cards' hne' hkey hfit => ?_, List.mem_cons_self, fun _ hk => List.mem_cons_of_mem _ hk⟩
      rcases List.mem_cons.1 hkey with he | hkey
      · refine ⟨combo, List.mem_append_right _ (List.mem_singleton.2 rfl), ?_⟩
        rw [identifyCombo_cards hc]
        exact playKey_perm hne hne' he.symm
      · obtain ⟨found, hfound, hp⟩ := h cards' hne' hkey hfit
        exact ⟨found, List.mem_append_left _ hfound, hp⟩

/-- **The loop finds every candidate that fits**, in some order. -/
theorem addPlay_found (raw : List (List Card)) (hne : ∀ cards ∈ raw, cards ≠ []) :
    ∀ acc : List String × List Combo, Covered pile acc → Covered pile (raw.foldl (addPlay pile) acc) ∧
      (∀ key ∈ acc.1, key ∈ (raw.foldl (addPlay pile) acc).1) ∧
      ∀ cards ∈ raw, playKey cards ∈ (raw.foldl (addPlay pile) acc).1 := by
  induction raw with
  | nil => exact fun acc h => ⟨h, fun _ hk => hk, fun _ h => absurd h List.not_mem_nil⟩
  | cons cards raw ih =>
    intro acc h
    obtain ⟨hcov, hkey, hkept⟩ := addPlay_covered h (hne cards List.mem_cons_self)
    obtain ⟨hcov', hkept', hraw⟩ := ih (fun c hc => hne c (List.mem_cons_of_mem cards hc)) _ hcov
    rw [List.foldl_cons]
    refine ⟨hcov', fun key hk => hkept' key (hkept key hk), fun cards' hc => ?_⟩
    rcases List.mem_cons.1 hc with rfl | hc
    · exact hkept' _ hkey
    · exact hraw cards' hc

/-! ## Runs -/

theorem countsAs_iff (c : Card) (v : ℕ) : countsAs c v = true ↔ c.Counts v := by
  cases c with
  | joker j => simp [countsAs, Card.Counts]
  | standard r s => cases r <;> simp [countsAs, Card.Counts]

/-- A card counts from one to fourteen. -/
theorem counts_range {c : Card} {v : ℕ} (h : c.Counts v) : 1 ≤ v ∧ v ≤ 14 := by
  cases c with
  | joker j => exact h.elim
  | standard r s =>
    by_cases hr : r = .A
    · subst hr
      rcases (counts_ace s v).1 h with rfl | rfl
      all_goals omega
    · obtain ⟨w, hw, hrange⟩ := seq_of_ne hr
      have hv := (counts_fixed hr s v).1 h
      rw [hw, Option.some.injEq] at hv
      omega

/-- Only an Ace has two values, at the ends of a run of fourteen. -/
theorem counts_unique {c : Card} {v w : ℕ} (hv : c.Counts v) (hw : c.Counts w) (hnear : v < w + 13)
    (hnear' : w < v + 13) : v = w := by
  cases c with
  | joker j => exact hv.elim
  | standard r s =>
    by_cases hr : r = .A
    · subst hr
      rw [counts_ace] at hv hw
      omega
    · rw [counts_fixed hr] at hv hw
      rw [hv, Option.some.injEq] at hw
      exact hw

/-- Each value of a reading is that of a card. -/
theorem counts_mem {vals : List ℕ} {v : ℕ} (h : List.Forall₂ Card.Counts cards vals) (hv : v ∈ vals) :
    ∃ c ∈ cards, c.Counts v := by
  induction h with
  | nil => cases hv
  | @cons c w cards vals hc _ ih =>
    rcases List.mem_cons.1 hv with rfl | hv
    · exact ⟨c, List.mem_cons_self, hc⟩
    · obtain ⟨d, hd, hcounts⟩ := ih hv
      exact ⟨d, List.mem_cons_of_mem c hd, hcounts⟩

/-- The fixed values and the Aces of cards that are read as some values. -/
theorem counts_fixedVals {vals : List ℕ} (h : List.Forall₂ Card.Counts cards vals) :
    fixedVals cards = vals.filter (fun v => 2 ≤ v ∧ v ≤ 13) ∧ aceCount cards = vals.countP fun v => v = 1 ∨ v = 14 := by
  induction h with
  | nil => exact ⟨rfl, rfl⟩
  | @cons c v cards vals hc _ ih =>
    cases c with
    | joker j => exact hc.elim
    | standard r s =>
      by_cases hr : r = .A
      · subst hr
        have hv := (counts_ace s v).1 hc
        have hout : ¬ (2 ≤ v ∧ v ≤ 13) := by omega
        rw [fixedVals_ace, aceCount_ace, ih.1, ih.2]
        simp [hout, hv]
      · obtain ⟨w, hw, hrange⟩ := seq_of_ne hr
        have hv := (counts_fixed hr s v).1 hc
        obtain rfl : w = v := by
          rw [hw, Option.some.injEq] at hv
          exact hv
        have hin : ¬ (w = 1 ∨ w = 14) := by omega
        rw [fixedVals_fixed hw, aceCount_fixed hr, ih.1, ih.2]
        simp [hrange, hin]

/-- **The top of a run depends only on the values** that its cards are read as. -/
theorem straightTop_counts {vals vals' : List ℕ} (h : List.Forall₂ Card.Counts cards vals)
    (h' : List.Forall₂ Card.Counts cards' vals') (hp : vals.Perm vals') : straightTop cards = straightTop cards' := by
  obtain ⟨hfixed, hace⟩ := counts_fixedVals h
  obtain ⟨hfixed', hace'⟩ := counts_fixedVals h'
  have hlen : cards.length = cards'.length := by rw [h.length_eq, h'.length_eq, hp.length_eq]
  have hperm : (fixedVals cards).Perm (fixedVals cards') := by
    rw [hfixed, hfixed']
    exact hp.filter _
  have haces : aceCount cards = aceCount cards' := by
    rw [hace, hace']
    exact hp.countP_eq _
  have hmask : tryMask cards = tryMask cards' := by
    funext mask
    unfold tryMask runVals
    rw [haces, sort_congr (hperm.append_right _)]
  rw [straightTop_eq, straightTop_eq, hlen, haces, hmask, (counts_split h).1, (counts_split h').1]

/-- A map that succeeds does so at every place. -/
theorem mapM_some {S T : Type} {f : S → Option T} {l : List S} : ∀ {out : List T},
    l.mapM f = some out ↔ List.Forall₂ (fun a b => f a = some b) l out := by
  induction l with
  | nil => simp [eq_comm]
  | cons a l ih =>
    intro out
    rw [List.mapM_cons, List.forall₂_cons_left_iff]
    cases hf : f a with
    | none => simp
    | some b =>
      cases hl : l.mapM f with
      | none => simp [← ih, hl]
      | some bs => simp [← ih, hl, eq_comm]

/-- What a run that was picked consists of. -/
theorem picked_iff {start len : ℕ} : picked cards start len = some found ↔
    List.Forall₂ (fun v c => atValue cards v = some c) (List.range' start len) found ∧ found.Nodup := by
  unfold picked
  rw [Option.filter_eq_some_iff, mapM_some, decide_eq_true_eq]

theorem atValue_spec {v : ℕ} {c : Card} (h : atValue cards v = some c) : c ∈ cards ∧ c.Counts v :=
  ⟨List.mem_of_find?_eq_some h, (countsAs_iff c v).1 (List.find?_some (p := fun c => countsAs c v) h)⟩

/-- The cards picked for a run count up from its start. -/
theorem picked_spec {start len : ℕ} (h : picked cards start len = some found) :
    found ⊆ cards ∧ found.Nodup ∧ List.Forall₂ Card.Counts found (List.range' start len) := by
  obtain ⟨hall, hnd⟩ := picked_iff.1 h
  refine ⟨?_, hnd, (hall.imp fun v c hc => (atValue_spec hc).2).flip⟩
  clear h hnd
  generalize List.range' start len = vals at hall
  induction hall with
  | nil => simp
  | cons hc _ ih => exact List.cons_subset.2 ⟨(atValue_spec hc).1, ih⟩

/-- **A run of at most thirteen values is found** if each of them has a card. -/
theorem picked_found {start len : ℕ} (h13 : len ≤ 13)
    (hall : ∀ v ∈ List.range' start len, ∃ c ∈ cards, c.Counts v) : ∃ found, picked cards start len = some found := by
  have hat : ∀ v ∈ List.range' start len, ∃ c, atValue cards v = some c := by
    intro v hv
    obtain ⟨c, hc, hcounts⟩ := hall v hv
    rw [← Option.isSome_iff_exists]
    exact List.find?_isSome.2 ⟨c, hc, (countsAs_iff c v).2 hcounts⟩
  have : Nonempty Card := ⟨.joker .red⟩
  choose! f hf using hat
  have hmap : List.Forall₂ (fun v c => atValue cards v = some c) (List.range' start len)
      ((List.range' start len).map f) := by
    rw [List.forall₂_map_right_iff, List.forall₂_same]
    exact hf
  refine ⟨_, picked_iff.2 ⟨hmap, ?_⟩⟩
  refine List.Nodup.map_on (fun v hv w hw he => ?_) List.nodup_range'
  have hcv := (atValue_spec (hf v hv)).2
  have hcw := (atValue_spec (hf w hw)).2
  rw [List.mem_range'_1] at hv hw
  rw [← he] at hcw
  exact counts_unique hcv hcw (by omega) (by omega)

/-- The runs that the scan finds. -/
theorem mem_scan : found ∈ scan cards ↔ ∃ len start, 5 ≤ len ∧ len ≤ min cards.length 13 ∧ 1 ≤ start ∧
    start + len ≤ 15 ∧ picked cards start len = some found := by
  unfold scan
  simp only [List.mem_flatMap, List.mem_filterMap, List.mem_range'_1]
  constructor
  · rintro ⟨len, hlen, start, hstart, h⟩
    exact ⟨len, start, by omega, by omega, by omega, by omega, h⟩
  · rintro ⟨len, start, h5, h13, h1, h15, h⟩
    exact ⟨len, by omega, start, by omega, h⟩

/-- The scan finds a run with the same values wherever the cards hold one of at most thirteen. -/
theorem scan_finds {run : List Card} {top : ℕ} (h5 : 5 ≤ run.length) (h13 : run.length ≤ 13) (hnd : run.Nodup)
    (hsub : run ⊆ cards) (htop : straightTop run = some top) : ∃ found ∈ scan cards, found.length = run.length ∧
      straightTop found = some top := by
  obtain ⟨-, vals, low, hreads, hf⟩ := straightTop_reads htop
  have hlen := hreads.length_eq
  have hne : vals ≠ [] := by
    rintro rfl
    rw [List.length_nil] at hlen
    omega
  obtain ⟨hrange, hend⟩ := hf.range' hne
  have hcounts : ∀ v ∈ vals, ∃ c ∈ cards, c.Counts v := by
    intro v hv
    obtain ⟨c, hc, hcv⟩ := counts_mem hreads hv
    exact ⟨c, hsub hc, hcv⟩
  obtain ⟨found, hfound⟩ : ∃ found, picked cards low vals.length = some found :=
    picked_found (by omega) fun v hv => hcounts v (hrange.mem_iff.2 hv)
  obtain ⟨-, -, hread⟩ := picked_spec hfound
  have hlow : low ∈ vals := (hf.2 low).2 (by omega)
  have htop' : top ∈ vals := (hf.2 top).2 (by omega)
  obtain ⟨c, -, hc⟩ := hcounts low hlow
  obtain ⟨d, -, hd⟩ := hcounts top htop'
  have h1 := counts_range hc
  have h14 := counts_range hd
  have hle := (hnd.subperm hsub).length_le
  refine ⟨found, mem_scan.2 ⟨vals.length, low, by omega, by omega, h1.1, by omega, hfound⟩, ?_, ?_⟩
  · rw [hread.length_eq, List.length_range', hlen]
  · rw [straightTop_counts hread hreads hrange.symm, htop]

/-! ## The candidates -/

theorem standardCards_sublist (hand : List Card) : (standardCards hand).Sublist hand := List.filter_sublist

theorem suitCards_sublist (hand : List Card) (suit : Suit) : (suitCards hand suit).Sublist hand :=
  List.filter_sublist.trans (standardCards_sublist hand)

theorem mem_suits (suit : Suit) : suit ∈ [Suit.S, .H, .D, .C] := by cases suit <;> decide

theorem mem_straightPlays : found ∈ straightPlays hand ↔
    found ∈ scan (standardCards hand) ∨ ∃ suit, found ∈ scan (suitCards hand suit) := by
  simp only [straightPlays, List.mem_append, List.mem_flatMap]
  refine or_congr_right ⟨fun ⟨suit, _, h⟩ => ⟨suit, h⟩, fun ⟨suit, h⟩ => ⟨suit, mem_suits suit, h⟩⟩

/-- The groups that the scan finds. -/
theorem mem_groupPlays : found ∈ groupPlays hand ↔
    ∃ group ∈ Sim.byRank hand, ∃ n, (n = 2 ∨ n = 3 ∨ n = 4) ∧ n ≤ group.length ∧ found = group.take n := by
  simp only [groupPlays, List.mem_flatMap, List.mem_filterMap, List.mem_cons, List.not_mem_nil, or_false]
  constructor
  · rintro ⟨group, hgroup, n, hn, h⟩
    split at h
    · rename_i hle
      rw [Option.some.injEq] at h
      exact ⟨group, hgroup, n, hn, hle, h.symm⟩
    · cases h
  · rintro ⟨group, hgroup, n, hn, hle, rfl⟩
    exact ⟨group, hgroup, n, hn, if_pos hle⟩

/-- **A candidate** consists of distinct cards of the hand. -/
theorem rawPlays_sound (hnd : hand.Nodup) (h : cards ∈ rawPlays hand) : cards.Nodup ∧ cards ⊆ hand ∧ cards ≠ [] := by
  have hscan : ∀ pool : List Card, pool ⊆ hand → cards ∈ scan pool → cards.Nodup ∧ cards ⊆ hand ∧ cards ≠ [] := by
    intro pool hpool hc
    obtain ⟨len, start, h5, -, -, -, hpicked⟩ := mem_scan.1 hc
    obtain ⟨hsub, hdistinct, hread⟩ := picked_spec hpicked
    refine ⟨hdistinct, List.Subset.trans hsub hpool, ?_⟩
    rintro rfl
    have hlen := hread.length_eq
    rw [List.length_nil, List.length_range'] at hlen
    omega
  unfold rawPlays at h
  rw [List.mem_append, List.mem_append] at h
  rcases h with (h | h) | h
  · obtain ⟨c, hc, rfl⟩ := List.mem_map.1 h
    exact ⟨List.nodup_singleton c, by simpa using hc, List.cons_ne_nil c []⟩
  · obtain ⟨group, hgroup, n, hn, hle, rfl⟩ := mem_groupPlays.1 h
    have hsub := (List.take_sublist n group).trans (mem_byRank hgroup).1
    refine ⟨hnd.sublist hsub, hsub.subset, fun hnil => ?_⟩
    have hlen := congrArg List.length hnil
    rw [List.length_take, List.length_nil] at hlen
    omega
  · rcases mem_straightPlays.1 h with h | ⟨suit, h⟩
    · exact hscan _ (standardCards_sublist hand).subset h
    · exact hscan _ (suitCards_sublist hand suit).subset h

/-- A group of the hand has a candidate of its type and rank. -/
theorem group_found {t : ComboType} {r : Rank} (hnd : cards.Nodup) (hsub : cards ⊆ hand)
    (ht : groupType cards.length = some t) (hr : OfRank cards r) :
    ∃ found ∈ rawPlays hand, identifyCombo found = some (groupOf t found r) ∧ found.length = cards.length := by
  let group := hand.filter fun c => c.rank? == some r
  have hin : ∀ c ∈ cards, c ∈ group := by
    intro c hc
    refine List.mem_filter.2 ⟨hsub hc, ?_⟩
    rw [hr c hc]
    exact beq_self_eq_true _
  have hle : cards.length ≤ group.length := (hnd.subperm hin).length_le
  have hgroup : group ∈ Sim.byRank hand := by
    have hne : cards ≠ [] := by
      rintro rfl
      cases ht
    obtain ⟨c, hc⟩ := List.exists_mem_of_ne_nil cards hne
    refine List.mem_map.2 ⟨r, ?_, rfl⟩
    rw [List.mem_eraseDups]
    exact List.mem_filterMap.2 ⟨c, hsub hc, hr c hc⟩
  have hlen : (group.take cards.length).length = cards.length := by
    rw [List.length_take]
    omega
  have hn : cards.length = 2 ∨ cards.length = 3 ∨ cards.length = 4 := by
    rcases groupType_some ht with ⟨hn, -⟩ | ⟨hn, -⟩ | ⟨hn, -⟩
    all_goals omega
  refine ⟨group.take cards.length, ?_, identifyCombo_ofRank (hlen.symm ▸ ht) fun c hc => ?_, hlen⟩
  · unfold rawPlays
    rw [List.mem_append, List.mem_append]
    exact Or.inl (Or.inr (mem_groupPlays.2 ⟨group, hgroup, _, hn, hle, rfl⟩))
  · have := (List.mem_filter.1 (List.mem_of_mem_take hc)).2
    simpa using this

/-- Cards of one suit are at most thirteen. -/
theorem suit_length {suit : Suit} (hnd : cards.Nodup) (hs : OfSuit cards suit) : cards.length ≤ 13 := by
  have hsub : cards ⊆ buildDeck.filter fun c => c.suit? == some suit := by
    intro c hc
    refine List.mem_filter.2 ⟨mem_buildDeck c, ?_⟩
    rw [hs c hc]
    exact beq_self_eq_true _
  have h13 : (buildDeck.filter fun c => c.suit? == some suit).length = 13 := by cases suit <;> rfl
  rw [← h13]
  exact (hnd.subperm hsub).length_le

/-- No card of a run is a joker. -/
theorem run_standard {top : ℕ} (hsub : cards ⊆ hand) (htop : straightTop cards = some top) :
    cards ⊆ standardCards hand := by
  obtain ⟨-, vals, low, hreads, -⟩ := straightTop_reads htop
  have hstd := (counts_split hreads).1
  rw [List.any_eq_false] at hstd
  intro c hc
  refine List.mem_filter.2 ⟨hsub hc, ?_⟩
  simpa using hstd c hc

/-- A kolor beats the kolors of its length that end one lower. -/
theorem beats_kolor {p : Combo} (ha : a.type = .kolor) (h : beats a p = true) :
    p.type = .kolor ∧ a.size = p.size ∧ ∃ t, p.topSeq = some t ∧ a.topSeq = some (t + 1) := by
  unfold beats at h
  simp only [ha, reduceCtorEq, if_false] at h
  split at h
  · cases h
  rename_i htype
  split at h
  · cases h
  rename_i hsize
  cases ht : a.topSeq with
  | none => simp [ht] at h
  | some t =>
    cases ht' : p.topSeq with
    | none => simp [ht, ht'] at h
    | some t' =>
      have htop : t = t' + 1 := by simpa [ht, ht'] using h
      exact ⟨(not_not.1 htype).symm, not_not.1 hsize, t', rfl, by rw [htop]⟩

/-- What beats a combination as a kolor has at most thirteen cards. -/
theorem kolor_length {p : Combo} (hp : p.Identified) {top : ℕ} (htop : straightTop cards = some top)
    (hkolor : (runOf cards top).type = .kolor) (hbeats : beats (runOf cards top) p = true) : cards.length ≤ 13 := by
  obtain ⟨htype, hsize, t, ht, hnext⟩ := beats_kolor hkolor hbeats
  have hcards : cards ≠ [] := by
    rintro rfl
    cases htop
  have h14 := readsAs_le hcards (straightTop_reads htop).2
  have hsize' : cards.length = p.size := hsize
  have hnext' : top = t + 1 := Option.some.inj hnext
  obtain ⟨pcards, hc⟩ := hp
  rcases identifyCombo_cases hc with ⟨d, rfl, rfl⟩ | ⟨t', r, ht', hr, rfl⟩ | ⟨hlen, ptop, hptop, rfl⟩
  · cases htype
  · rcases groupType_some ht' with ⟨-, rfl⟩ | ⟨-, rfl⟩ | ⟨-, rfl⟩
    all_goals cases htype
  · -- the run below ends with 13 at most, and starts with 1 at least
    have hptop' : ptop = t := Option.some.inj ht
    have hsize'' : cards.length = pcards.length := hsize'
    obtain ⟨-, vals, low, hreads, hf⟩ := straightTop_reads hptop
    have hlen' := hreads.length_eq
    have hne : vals ≠ [] := by
      rintro rfl
      rw [List.length_nil] at hlen'
      omega
    obtain ⟨-, hend⟩ := hf.range' hne
    obtain ⟨c, -, hcounts⟩ := counts_mem hreads ((hf.2 low).2 (by omega))
    have hlow := counts_range hcounts
    omega

theorem single_raw {c : Card} (hc : c ∈ hand) : [c] ∈ rawPlays hand := by
  unfold rawPlays
  rw [List.mem_append, List.mem_append]
  exact Or.inl (Or.inl (List.mem_map.2 ⟨c, hc, rfl⟩))

theorem straight_raw (h : found ∈ straightPlays hand) : found ∈ rawPlays hand := by
  unfold rawPlays
  rw [List.mem_append]
  exact Or.inr h

/-- A run of the hand that beats a combination has a candidate that does. -/
theorem run_found {p : Combo} {top : ℕ} (hp : p.Identified) (hnd : cards.Nodup) (hsub : cards ⊆ hand)
    (h5 : 5 ≤ cards.length) (htop : straightTop cards = some top) (hbeats : beats (runOf cards top) p = true) :
    ∃ found ∈ rawPlays hand, ∃ combo, identifyCombo found = some combo ∧ beats combo p = true := by
  have hstd := run_standard hsub htop
  have hne : cards ≠ [] := by
    rintro rfl
    cases htop
  have hrun : ∀ found : List Card, found.length = cards.length → straightTop found = some top →
      identifyCombo found = some (runOf found top) := by
    intro found hlen htop'
    rw [identifyCombo_run (hlen ▸ h5), htop']
    rfl
  have hflush : ∀ found : List Card, (runOf found top).type = .flush → ∀ t : ComboType, t ≠ .flush → p.type = t →
      beats (runOf found top) p = true := by
    intro found hf t ht hpt
    unfold beats
    rw [if_pos hf, if_neg (hpt ▸ ht)]
  by_cases hsame : allSameSuit cards = true
  · -- a flush: the scan of its suit
    obtain ⟨suit, hs⟩ := (allSameSuit_iff hne).1 hsame
    have hsub' : cards ⊆ suitCards hand suit := by
      intro c hc
      refine List.mem_filter.2 ⟨hstd hc, ?_⟩
      rw [hs c hc]
      exact beq_self_eq_true _
    obtain ⟨found, hfound, hlen, htop'⟩ := scan_finds h5 (suit_length hnd hs) hnd hsub' htop
    obtain ⟨len, start, -, -, -, -, hpicked⟩ := mem_scan.1 hfound
    have hfne : found ≠ [] := by
      rintro rfl
      cases htop'
    have hsame' : allSameSuit found = true := by
      refine (allSameSuit_iff hfne).2 ⟨suit, fun c hc => ?_⟩
      have := (List.mem_filter.1 ((picked_spec hpicked).1 hc)).2
      simpa using this
    refine ⟨found, straight_raw (mem_straightPlays.2 (Or.inr ⟨suit, hfound⟩)), _, hrun found hlen htop', ?_⟩
    rw [← hbeats]
    refine beats_congr ?_ p
    simp only [Combo.key, runOf, hlen, hsame, hsame']
  · -- a kolor: the scan of all suits, which may come upon a flush
    have hkolor : (runOf cards top).type = .kolor := if_neg hsame
    obtain ⟨found, hfound, hlen, htop'⟩ := scan_finds h5 (kolor_length hp htop hkolor hbeats) hnd hstd htop
    refine ⟨found, straight_raw (mem_straightPlays.2 (Or.inl hfound)), _, hrun found hlen htop', ?_⟩
    by_cases hsame' : allSameSuit found = true
    · exact hflush found (if_pos hsame') _ (by decide) (beats_kolor hkolor hbeats).1
    · rw [← hbeats]
      refine beats_congr ?_ p
      simp only [Combo.key, runOf, hlen, if_neg hsame, if_neg hsame']

/-- **The candidates miss nothing**: if some cards of the hand fit, some candidate does. -/
theorem rawPlays_complete (hpile : ∀ p, pile = some p → p.Identified) (hnd : cards.Nodup) (hsub : cards ⊆ hand)
    (h : Fits pile cards) : ∃ found ∈ rawPlays hand, Fits pile found := by
  obtain ⟨combo, hc, hbeats⟩ := h
  cases pile with
  | none =>
    have hne : cards ≠ [] := by
      rintro rfl
      cases hc
    obtain ⟨c, hmem⟩ := List.exists_mem_of_ne_nil cards hne
    exact ⟨[c], single_raw (hsub hmem), _, rfl, fun p hp => nomatch hp⟩
  | some p =>
    have hb := hbeats p rfl
    rcases identifyCombo_cases hc with ⟨c, rfl, rfl⟩ | ⟨t, r, ht, hr, rfl⟩ | ⟨h5, top, htop, rfl⟩
    · exact ⟨[c], single_raw (hsub List.mem_cons_self), _, hc, hbeats⟩
    · obtain ⟨found, hraw, hfound, hlen⟩ := group_found hnd hsub ht hr
      refine ⟨found, hraw, _, hfound, ?_⟩
      rintro p ⟨⟩
      rw [← hb]
      refine beats_congr ?_ p
      simp only [Combo.key, groupOf, hlen]
    · obtain ⟨found, hraw, combo, hfound, hbeats'⟩ := run_found (hpile p rfl) hnd hsub h5 htop hb
      refine ⟨found, hraw, combo, hfound, ?_⟩
      rintro p ⟨⟩
      exact hbeats'

/-! ## The enumeration -/

theorem mem_enumerate {mustInclude : Option Card} : combo ∈ enumerateLegalPlays hand pile mustInclude ↔
    combo ∈ ((rawPlays hand).foldl (addPlay pile) ([], [])).2 ∧ ∀ card, mustInclude = some card → card ∈ combo.cards := by
  unfold enumerateLegalPlays
  cases mustInclude with
  | none => simp
  | some card => simp [List.mem_filter]

/-- **Every enumerated play** consists of distinct cards of the hand, and fits. -/
theorem enumerate_sound {mustInclude : Option Card} (hnd : hand.Nodup)
    (h : combo ∈ enumerateLegalPlays hand pile mustInclude) :
    combo.cards.Nodup ∧ combo.cards ⊆ hand ∧ combo.cards ≠ [] ∧
      validatePlay combo.cards pile = { ok := true, combo := some combo } ∧
      ∀ card, mustInclude = some card → card ∈ combo.cards := by
  obtain ⟨hfound, hincl⟩ := mem_enumerate.1 h
  have hplay : combo.cards.Nodup ∧ combo.cards ⊆ hand ∧ combo.cards ≠ [] ∧
      validatePlay combo.cards pile = { ok := true, combo := some combo } := by
    refine addPlay_all (P := fun c => c.cards.Nodup ∧ c.cards ⊆ hand ∧ c.cards ≠ [] ∧
      validatePlay c.cards pile = { ok := true, combo := some c }) (rawPlays hand) ([], []) (by simp) ?_ combo hfound
    intro cards hraw c hc hbeats
    obtain ⟨hdistinct, hsub, hne⟩ := rawPlays_sound hnd hraw
    have hcards := identifyCombo_cards hc
    subst hcards
    refine ⟨hdistinct, hsub, hne, ?_⟩
    unfold validatePlay
    rw [hc]
    cases pile with
    | none => rfl
    | some p => simp [hbeats p rfl]
  obtain ⟨hdistinct, hsub, hne, hok⟩ := hplay
  exact ⟨hdistinct, hsub, hne, hok, hincl⟩

/-- **Every candidate that fits is enumerated**, in some order, if it contains what it must. -/
theorem enumerate_found {mustInclude : Option Card} (hnd : hand.Nodup) (hraw : cards ∈ rawPlays hand)
    (hfit : Fits pile cards) (hincl : ∀ card, mustInclude = some card → card ∈ cards) :
    ∃ combo ∈ enumerateLegalPlays hand pile mustInclude, combo.cards.Perm cards := by
  have hstart : Covered pile ([], []) := fun _ _ hkey => absurd hkey List.not_mem_nil
  have hne : ∀ cards ∈ rawPlays hand, cards ≠ [] := fun cards h => (rawPlays_sound hnd h).2.2
  obtain ⟨hcov, -, hkeys⟩ := addPlay_found (rawPlays hand) hne ([], []) hstart
  obtain ⟨combo, hfound, hp⟩ := hcov cards (hne cards hraw) (hkeys cards hraw) hfit
  exact ⟨combo, mem_enumerate.2 ⟨hfound, fun card hcard => hp.mem_iff.2 (hincl card hcard)⟩, hp⟩

/-- **The enumeration is empty** exactly if nothing in the hand fits. -/
theorem enumerate_empty (hnd : hand.Nodup) (hpile : ∀ p, pile = some p → p.Identified) :
    enumerateLegalPlays hand pile none = [] ↔ ∀ cards, cards.Nodup → cards ⊆ hand → ¬ Fits pile cards := by
  constructor
  · intro hnone cards hcards hsub hfit
    obtain ⟨found, hraw, hfit'⟩ := rawPlays_complete hpile hcards hsub hfit
    obtain ⟨combo, hin, -⟩ := enumerate_found hnd hraw hfit' (fun card (h : none = some card) => nomatch h)
    rw [hnone] at hin
    exact absurd hin List.not_mem_nil
  · intro hno
    rw [List.eq_nil_iff_forall_not_mem]
    intro combo hin
    obtain ⟨hdistinct, hsub, -, hok, -⟩ := enumerate_sound hnd hin
    exact hno _ hdistinct hsub (validatePlay_fits.1 (by rw [hok]))

end Murlan.Bot
