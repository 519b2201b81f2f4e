import Mathlib.Control.Monad.Basic
import Mathlib.Data.List.GetD
import Murlan.Spec.Shuffle

/-!
# The shuffle and the deal

* `shuffle_draws`: a shuffle is a function of the numbers it draws, as many as the list has
  places after the first.
* `exists_draw`, `exists_draws`: every index, and every choice of the indices, is drawn by some
  numbers that an rng may return.
* `shuffle_fair`: the shuffle permutes by the indices drawn for the places, the argument stays as
  it is, and over distinct elements the indices and the arrangements correspond one to one; a deal
  cuts the deck into hands.
-/

namespace Murlan

/-- A double that an rng may return. -/
def UnitValue (r : ℚ) : Prop := 0 ≤ r ∧ r < 1 ∧ Rounding.round 53 r = r

/-- The index is one of the first `n` places. -/
theorem toIndex_lt {r : ℚ} {n : ℕ} (hr : UnitValue r) (hn : 0 < n) (h53 : n ≤ 2 ^ 53) : toIndex r n < n := by
  obtain ⟨h0, h1, hround⟩ := hr
  unfold toIndex
  rw [Nat.floor_lt (Rounding.round_nonneg _ _)]
  exact Rounding.round_mul_lt hn h53 h0 h1 hround

/-- A value near the middle of its place chooses it. -/
theorem toIndex_of_near {r : ℚ} {n j : ℕ} (hlow : j + 1 / 4 ≤ r * n) (hhigh : r * n ≤ j + 1 / 2) (hj : (j : ℚ) < 2 ^ 32) :
    toIndex r n = j := by
  have hj0 : (0 : ℚ) ≤ j := Nat.cast_nonneg j
  have h53 : (2 : ℚ) ^ 53 = 2 ^ 32 * 2097152 := by norm_num
  have h32 : (1 : ℚ) ≤ 2 ^ 32 := by norm_num
  have hshare : r * n / 2 ^ 53 ≤ 1 / 2 := by
    rw [div_le_div_iff₀ (by norm_num) (by norm_num), h53]
    linarith
  have hfloor : ⌊Rounding.round 53 (r * n)⌋ = j := by
    refine Rounding.floor_round (by decide) (by linarith) ?_ (by linarith) (by linarith)
    rw [h53]
    linarith
  unfold toIndex
  rw [← Int.floor_toNat, hfloor, Int.toNat_natCast]

/-- **Every index is drawn** by some number that an rng may return. -/
theorem exists_draw {n j : ℕ} (hj : j < n) (h32 : n < arrayLimit) : ∃ r, UnitValue r ∧ toIndex r n = j := by
  unfold arrayLimit at h32
  have hn : (0 : ℚ) < n := by exact_mod_cast (by omega : 0 < n)
  -- the middle of the share of `j`, cut off after 53 bits
  set t := (2 * j + 1) * 2 ^ 53 / (2 * n) with ht
  have hdiv : 2 * n * t + (2 * j + 1) * 2 ^ 53 % (2 * n) = (2 * j + 1) * 2 ^ 53 := Nat.div_add_mod _ _
  have hmod : (2 * j + 1) * 2 ^ 53 % (2 * n) < 2 * n := Nat.mod_lt _ (by omega)
  have htop : t < 2 ^ 53 := by
    rw [ht, Nat.div_lt_iff_lt_mul (by omega)]
    omega
  have hexact : Rounding.round 53 ((t : ℚ) / 2 ^ 53) = t / 2 ^ 53 := Rounding.round_fraction htop
  refine ⟨(t : ℚ) / 2 ^ 53, ⟨by positivity, ?_, hexact⟩, ?_⟩
  · rw [div_lt_one (by positivity)]
    exact_mod_cast htop
  · have hnat : (2 : ℚ) * n * t + ((2 * j + 1) * 2 ^ 53 % (2 * n) : ℕ) = (2 * j + 1) * 2 ^ 53 := by exact_mod_cast hdiv
    have hmid : 2 * ((t : ℚ) / 2 ^ 53 * n) + ((2 * j + 1) * 2 ^ 53 % (2 * n) : ℕ) / 2 ^ 53 = 2 * j + 1 := by
      field_simp
      linarith
    have hrest : (((2 * j + 1) * 2 ^ 53 % (2 * n) : ℕ) : ℚ) / 2 ^ 53 < 1 / 2 := by
      rw [div_lt_div_iff₀ (by norm_num) (by norm_num)]
      exact_mod_cast (by omega : (2 * j + 1) * 2 ^ 53 % (2 * n) * 2 < 1 * 2 ^ 53)
    have hnonneg : (0 : ℚ) ≤ ((2 * j + 1) * 2 ^ 53 % (2 * n) : ℕ) / 2 ^ 53 := by positivity
    have hj0 : (0 : ℚ) ≤ j := Nat.cast_nonneg j
    have hj32 : (j : ℚ) < 2 ^ 32 := by exact_mod_cast (by omega : j < 2 ^ 32)
    exact toIndex_of_near (by linarith) (by linarith) hj32

section

variable {m : Type → Type} [Monad m] {T : Type}

/-- The next `n` numbers of an rng. -/
def draws (rng : m ℚ) : ℕ → m (List ℚ)
  | 0 => pure []
  | n + 1 => do
    let r ← rng
    let rs ← draws rng n
    pure (r :: rs)

/-- The index for the place `k` of a list whose last place is `n`, from the drawn numbers. -/
def drawnIndex (n : ℕ) (rs : List ℚ) (k : ℕ) : ℕ := toIndex (rs.getD (n - k) 0) (k + 1)

/-- The arrangement that the drawn numbers lead to. -/
def shuffleWith (rs : List ℚ) (arr : List T) : List T :=
  swapDown (drawnIndex (arr.length - 1) rs) (arr.length - 1) arr

/-- After the first number, the rest of the numbers arranges the rest. -/
theorem drawn_cons (r : ℚ) (rs : List ℚ) (i : ℕ) (arr : List T) :
    swapDown (drawnIndex (i + 1) (r :: rs)) (i + 1) arr =
      swapDown (drawnIndex i rs) i (swapAt arr (i + 1) (toIndex r (i + 2))) := by
  rw [swapDown]
  have htop : drawnIndex (i + 1) (r :: rs) (i + 1) = toIndex r (i + 2) := by
    simp [drawnIndex]
  rw [htop]
  refine swapDown_congr (fun k h1 hk => ?_) _
  unfold drawnIndex
  rw [show i + 1 - k = (i - k) + 1 by omega, List.getD_cons_succ]

/-- The loop swaps by the values drawn. -/
theorem shuffleLoop_draws [LawfulMonad m] (rng : m ℚ) (i : ℕ) : ∀ arr : List T,
    shuffleLoop rng i arr = (fun rs => swapDown (drawnIndex i rs) i arr) <$> draws rng i := by
  induction i with
  | zero =>
    intro arr
    simp [shuffleLoop, draws, swapDown]
  | succ i ih =>
    intro arr
    simp only [shuffleLoop, draws, ih, ← bind_pure_comp, bind_assoc, pure_bind, drawn_cons]

/-- **A shuffle is a function of the numbers it draws.** -/
theorem shuffle_draws [LawfulMonad m] (rng : m ℚ) (arr : List T) :
    shuffle arr rng = (fun rs => shuffleWith rs arr) <$> draws rng (arr.length - 1) :=
  shuffleLoop_draws rng _ arr

theorem deal_draws [LawfulMonad m] (rng : m ℚ) (players : ℕ) :
    deal players rng = (fun rs => slices (shuffleWith rs buildDeck) 0 (dealSizes players)) <$> draws rng 53 := by
  have hlen : buildDeck.length - 1 = 53 := by decide
  rw [deal, shuffle_draws, hlen]
  simp only [← bind_pure_comp, bind_assoc, pure_bind]

theorem shuffleWith_perm (rs : List ℚ) (arr : List T) : (shuffleWith rs arr).Perm arr := swapDown_perm _ _ _

/-! ## In place -/

theorem modify_concat (h : Arrays T) (a : List T) (f : List T → List T) :
    (h ++ [a]).modify h.length f = h ++ [f a] := by
  rw [List.modify_eq_set_getElem?]
  simp

/-- The loop in place swaps by the values drawn. -/
theorem shuffleLoopAt_draws [LawfulMonad m] (rng : m ℚ) (addr i : ℕ) : ∀ h : Arrays T,
    shuffleLoopAt rng addr i h = (fun rs => h.modify addr (swapDown (drawnIndex i rs) i)) <$> draws rng i := by
  induction i with
  | zero =>
    intro h
    have hid : h.modify addr (swapDown (drawnIndex 0 []) 0) = h := by
      rw [show (swapDown (T := T) (drawnIndex 0 []) 0) = id from rfl, List.modify_id]
    simp [shuffleLoopAt, draws, hid]
  | succ i ih =>
    intro h
    have hcons : ∀ r rs, (h.modify addr fun a => swapAt a (i + 1) (toIndex r (i + 2))).modify addr
        (swapDown (drawnIndex i rs) i) = h.modify addr (swapDown (drawnIndex (i + 1) (r :: rs)) (i + 1)) := by
      intro r rs
      rw [List.modify_modify_eq]
      congr 1
      funext arr
      exact (drawn_cons r rs i arr).symm
    simp only [shuffleLoopAt, draws, ih, ← bind_pure_comp, bind_assoc, pure_bind, hcons]

/-- The array of the argument stays, and the copy holds the shuffle. -/
theorem shuffleAt_draws [LawfulMonad m] (rng : m ℚ) (arr : ℕ) (h : Arrays T) :
    shuffleAt arr rng h = (fun rs => (h.length, h ++ [shuffleWith rs (h.getD arr [])])) <$>
      draws rng ((h.getD arr []).length - 1) := by
  unfold shuffleAt
  simp only [shuffleLoopAt_draws, ← bind_pure_comp, bind_assoc, pure_bind, modify_concat]
  rfl

/-! ## Slices -/

theorem slices_flatten (deck : List T) (sizes : List ℕ) : ∀ i,
    (slices deck i sizes).flatten = (deck.drop i).take sizes.sum := by
  induction sizes with
  | nil => simp [slices]
  | cons size sizes ih =>
    intro i
    rw [slices, List.flatten_cons, ih, List.sum_cons, List.take_add, List.drop_drop]

/-- The slices have the sizes asked for. -/
theorem slices_lengths (deck : List T) (sizes : List ℕ) : ∀ i, i + sizes.sum ≤ deck.length →
    (slices deck i sizes).map List.length = sizes := by
  induction sizes with
  | nil => simp [slices]
  | cons size sizes ih =>
    intro i hi
    rw [List.sum_cons] at hi
    rw [slices, List.map_cons, ih (i + size) (by omega), List.length_take, List.length_drop]
    congr 1
    omega

end

theorem dealSizes_cases {players : ℕ} (h : players = 2 ∨ players = 3 ∨ players = 4) :
    (players = 2 ∧ (dealSizes players).sum = 36) ∨ (players ≠ 2 ∧ (dealSizes players).sum = 54) := by
  rcases h with rfl | rfl | rfl
  · exact Or.inl ⟨rfl, rfl⟩
  · exact Or.inr ⟨by decide, rfl⟩
  · exact Or.inr ⟨by decide, rfl⟩

theorem buildDeck_nodup : buildDeck.Nodup ∧ buildDeck.length = 54 := by decide

/-- What a deal makes of a deck in any order. -/
theorem slices_deal {deck : List Card} (hp : deck.Perm buildDeck) {players : ℕ}
    (h : players = 2 ∨ players = 3 ∨ players = 4) :
    (slices deck 0 (dealSizes players)).map List.length = dealSizes players ∧
      (slices deck 0 (dealSizes players)).flatten.Nodup ∧
      (players ≠ 2 → (slices deck 0 (dealSizes players)).flatten.Perm buildDeck) := by
  obtain ⟨hnd, h54⟩ := buildDeck_nodup
  have hlen : deck.length = 54 := by rw [hp.length_eq, h54]
  have hsum := dealSizes_cases h
  refine ⟨slices_lengths deck _ 0 (by omega), ?_, ?_⟩
  · rw [slices_flatten]
    exact (hp.nodup_iff.2 hnd).sublist ((List.take_sublist _ _).trans (List.drop_sublist _ _))
  · intro h2
    rw [slices_flatten, List.drop_zero, List.take_of_length_le (by omega)]
    exact hp

section

variable {σ T : Type}

theorem run_map_fst {α β : Type} (f : α → β) (x : StateM σ α) (s : σ) : ((f <$> x).run s).1 = f (x.run s).1 := rfl

/-- The numbers that an rng with state draws are numbers that it returns. -/
theorem draws_run {P : ℚ → Prop} {rng : StateM σ ℚ} (hrng : ∀ s, P (rng.run s).1) (n : ℕ) : ∀ s : σ,
    (((draws rng n).run s).1).length = n ∧ ∀ r ∈ ((draws rng n).run s).1, P r := by
  induction n with
  | zero => exact fun s => ⟨rfl, fun r hr => absurd hr List.not_mem_nil⟩
  | succ n ih =>
    intro s
    obtain ⟨hlen, hall⟩ := ih (rng.run s).2
    have hstep : ((draws rng (n + 1)).run s).1 = (rng.run s).1 :: ((draws rng n).run (rng.run s).2).1 := rfl
    rw [hstep, List.length_cons, List.forall_mem_cons]
    exact ⟨by omega, hrng s, hall⟩

/-- The drawn indices are a choice: for the place `k` one of the first `k + 1` places. -/
theorem drawnIndex_bounded {n : ℕ} {rs : List ℚ} (h32 : n < arrayLimit) (hrs : ∀ r ∈ rs, UnitValue r)
    (hlen : rs.length = n) : Bounded (drawnIndex n rs) n := by
  intro k h1 hk
  have hget : UnitValue (rs.getD (n - k) 0) := by
    have hlt : n - k < rs.length := by omega
    rw [List.getD_eq_getElem rs 0 hlt]
    exact hrs _ (List.getElem_mem hlt)
  unfold arrayLimit at h32
  have := toIndex_lt hget (n := k + 1) (by omega) (by omega)
  rw [drawnIndex]
  omega

/-- The choice whose indices are those that a shuffle draws. -/
def Drawn {n : ℕ} (c : Choices n) (rs : List ℚ) : Prop := ∀ k : Fin n, (c k : ℕ) = drawnIndex n rs (k + 1)

/-- Values that choose give the arrangement chosen. -/
theorem shuffleWith_of_drawn {arr : List T} {c : Choices (arr.length - 1)} {rs : List ℚ} (h : Drawn c rs) :
    shuffleWith rs arr = (arrangement arr c).1 := by
  refine swapDown_congr (fun k h1 hk => ?_) arr
  have hk' : k - 1 < arr.length - 1 := by omega
  have hindex := h ⟨k - 1, hk'⟩
  simp only [Nat.sub_add_cancel h1] at hindex
  rw [Choices.at, dif_pos hk']
  exact hindex.symm

/-- The shuffle of a list is the arrangement of the indices drawn for it. -/
theorem shuffle_arranges {rng : StateM σ ℚ} (hrng : ∀ s, UnitValue (rng.run s).1) (arr : List T)
    (h32 : arr.length < arrayLimit) (s : σ) :
    ∃ c : Choices (arr.length - 1), Drawn c ((draws rng (arr.length - 1)).run s).1 ∧
      ((shuffle arr rng).run s).1 = (arrangement arr c).1 := by
  obtain ⟨hlen, hall⟩ := draws_run hrng (arr.length - 1) s
  have hb := drawnIndex_bounded (by omega) hall hlen
  have hrun : ((shuffle arr rng).run s).1 = shuffleWith ((draws rng (arr.length - 1)).run s).1 arr := by
    rw [shuffle_draws, run_map_fst]
  have hdrawn : ∃ c : Choices (arr.length - 1), Drawn c ((draws rng (arr.length - 1)).run s).1 := by
    refine ⟨fun k => ⟨drawnIndex (arr.length - 1) ((draws rng (arr.length - 1)).run s).1 (k + 1), ?_⟩, fun _ => rfl⟩
    have hle := hb (k + 1) (by omega) (by omega)
    omega
  obtain ⟨c, hc⟩ := hdrawn
  exact ⟨c, hc, hrun.trans (shuffleWith_of_drawn hc)⟩

/-! ## Any choice -/

/-- An rng that returns the numbers of a list, one after the other. -/
def fromList : StateM (List ℚ) ℚ := fun rs => (rs.headD 0, rs.tail)

theorem draws_fromList (rs : List ℚ) : ((draws fromList rs.length).run rs).1 = rs := by
  induction rs with
  | nil => rfl
  | cons r rs ih =>
    have hstep : ((draws fromList (r :: rs).length).run (r :: rs)).1 = r :: ((draws fromList rs.length).run rs).1 := rfl
    rw [hstep, ih]

/-- **Every choice is drawn** by some numbers. -/
theorem exists_draws {n : ℕ} (c : Choices n) (h32 : n + 1 < arrayLimit) :
    ∃ rs : List ℚ, rs.length = n ∧ (∀ r ∈ rs, UnitValue r) ∧ Drawn c rs := by
  have hdraw : ∀ k : Fin n, ∃ r, UnitValue r ∧ toIndex r (k + 2) = c k := by
    intro k
    exact exists_draw (c k).isLt (by omega)
  choose f hunit hindex using hdraw
  refine ⟨List.ofFn fun i => f i.rev, List.length_ofFn, fun r hr => ?_, fun k => ?_⟩
  · obtain ⟨i, rfl⟩ := List.mem_ofFn.mp hr
    exact hunit i.rev
  · have hlt : n - (k + 1) < n := by omega
    have hrev : Fin.rev ⟨n - (k + 1), hlt⟩ = k := by
      ext
      simp only [Fin.val_rev]
      omega
    unfold drawnIndex
    rw [List.getD_eq_getElem _ _ (by simpa using hlt), List.getElem_ofFn, hrev]
    exact (hindex k).symm

/-- A shuffle that draws the numbers of a choice is the arrangement of it. -/
theorem shuffle_fromList {arr : List T} {c : Choices (arr.length - 1)} {rs : List ℚ} (hlen : rs.length = arr.length - 1)
    (h : Drawn c rs) : ((shuffle arr fromList).run rs).1 = (arrangement arr c).1 := by
  rw [shuffle_draws, run_map_fst, ← hlen, draws_fromList]
  exact shuffleWith_of_drawn h

end

/-- **The shuffle can return every arrangement, each by one choice of the indices, and a deal
partitions the deck.** The index for each place is the one of the number drawn for it, and every
choice of them is drawn by some numbers. -/
theorem shuffle_fair :
    (∀ (σ T : Type) (rng : StateM σ ℚ) (arr : List T) (s : σ), ((shuffle arr rng).run s).1.Perm arr) ∧
    (∀ (σ T : Type) (rng : StateM σ ℚ) (arr : List T) (s : σ), (∀ s, UnitValue (rng.run s).1) →
      arr.length < arrayLimit →
      ∃ c : Choices (arr.length - 1), Drawn c ((draws rng (arr.length - 1)).run s).1 ∧
        ((shuffle arr rng).run s).1 = (arrangement arr c).1) ∧
    (∀ (T : Type) (arr : List T), arr.length < arrayLimit → ∀ c : Choices (arr.length - 1),
      ∃ rs : List ℚ, rs.length = arr.length - 1 ∧ (∀ r ∈ rs, UnitValue r) ∧ Drawn c rs ∧
        ((shuffle arr fromList).run rs).1 = (arrangement arr c).1) ∧
    (∀ (σ T : Type) (rng : StateM σ ℚ) (a : ℕ) (h : Arrays T) (s : σ),
      ((shuffleAt a rng h).run s).1.2 = h ++ [((shuffle (h.getD a []) rng).run s).1] ∧
      ((shuffleAt a rng h).run s).1.1 = h.length) ∧
    (∀ (T : Type) (arr : List T), arr.Nodup → Function.Bijective (arrangement arr) ∧
      Fintype.card (Choices (arr.length - 1)) = arr.length.factorial) ∧
    (∀ (σ : Type) (rng : StateM σ ℚ) (s : σ) (players : ℕ), players = 2 ∨ players = 3 ∨ players = 4 →
      ((deal players rng).run s).1.map List.length = dealSizes players ∧
      (∀ hand ∈ ((deal players rng).run s).1, hand.Nodup ∧ hand ⊆ buildDeck) ∧
      ((deal players rng).run s).1.Pairwise List.Disjoint ∧
      (players ≠ 2 → ((deal players rng).run s).1.flatten.Perm buildDeck)) ∧
    buildDeck.Nodup ∧ buildDeck.length = 54 := by
  refine ⟨?_, ?_, ?_, ?_, ?_, ?_, buildDeck_nodup⟩
  · intro σ T rng arr s
    rw [shuffle_draws, run_map_fst]
    exact shuffleWith_perm _ arr
  · intro σ T rng arr s hrng h32
    exact shuffle_arranges hrng arr h32 s
  · intro T arr h32 c
    have hlen : arr.length - 1 + 1 < arrayLimit := by
      unfold arrayLimit at h32 ⊢
      omega
    obtain ⟨rs, hrs, hunit, hdrawn⟩ := exists_draws c hlen
    exact ⟨rs, hrs, hunit, hdrawn, shuffle_fromList hrs hdrawn⟩
  · intro σ T rng a h s
    rw [shuffleAt_draws, shuffle_draws]
    exact ⟨rfl, rfl⟩
  · intro T arr hnd
    refine ⟨swapDown_bijective hnd, ?_⟩
    rw [card_choices]
    rcases Nat.eq_zero_or_pos arr.length with h0 | hpos
    · rw [h0]
      rfl
    · rw [Nat.sub_add_cancel hpos]
  · intro σ rng s players h
    rw [deal_draws, run_map_fst]
    obtain ⟨hlens, hnd, hall⟩ := slices_deal (shuffleWith_perm ((draws rng 53).run s).1 buildDeck) h
    obtain ⟨hhands, hdisj⟩ := List.nodup_flatten.1 hnd
    exact ⟨hlens, fun hand hh => ⟨hhands hand hh, fun c _ => mem_buildDeck c⟩, hdisj, hall⟩

end Murlan
