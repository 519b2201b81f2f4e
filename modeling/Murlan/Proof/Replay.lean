import Murlan.Base.Paging
import Murlan.Base.Run
import Murlan.Proof.ProvablyFair
import Murlan.Spec.Replay

/-!
# Replays show the real deals

* `replay_reconstructs_iff`: when the hands that the browser deals again are the ones that were dealt.
* `replay_pages_complete`: what a client that follows the cursor gets of the log.
-/

namespace Murlan

variable {M : Type}

/-! ## The seat count -/

section Seats

variable {l : List (MatchActionRecord M)} {n : ℕ}

/-- The greatest seat of the log, counted on. -/
theorem seatCount_fold (l : List (MatchActionRecord M)) (b : ℕ) :
    l.foldl (fun n a => max n (a.seat + 1)) b = max b (seatCount l) := by
  unfold seatCount
  induction l generalizing b with
  | nil => simp
  | cons a l ih =>
    rw [List.foldl_cons, List.foldl_cons, ih (max b (a.seat + 1)), ih (max 0 (a.seat + 1))]
    omega

theorem seatCount_cons (a : MatchActionRecord M) (l : List (MatchActionRecord M)) :
    seatCount (a :: l) = max (a.seat + 1) (seatCount l) := by
  show l.foldl _ (max 0 (a.seat + 1)) = _
  rw [seatCount_fold]
  omega

/-- No more seats than players. -/
theorem seatCount_le (h : ∀ a ∈ l, a.seat < n) : seatCount l ≤ n := by
  induction l with
  | nil => exact Nat.zero_le n
  | cons a l ih =>
    have ha := h a List.mem_cons_self
    have hl := ih fun x hx => h x (List.mem_cons_of_mem a hx)
    rw [seatCount_cons]
    omega

/-- The count is right exactly if the last seat is in the log. -/
theorem seatCount_eq_iff (hn : 0 < n) (h : ∀ a ∈ l, a.seat < n) : seatCount l = n ↔ ∃ a ∈ l, a.seat + 1 = n := by
  induction l with
  | nil =>
    constructor
    · intro hzero
      have : seatCount ([] : List (MatchActionRecord M)) = 0 := rfl
      omega
    · rintro ⟨a, ha, -⟩
      cases ha
  | cons a l ih =>
    have ha := h a List.mem_cons_self
    have hl := seatCount_le fun x hx => h x (List.mem_cons_of_mem a hx)
    rw [seatCount_cons, List.exists_mem_cons_iff, ← ih fun x hx => h x (List.mem_cons_of_mem a hx)]
    omega

end Seats

/-! ## What the browser deals -/

section Hands

variable (H : Hashes) (serverSeed clientSeed : String) (nonce : ℕ)

theorem slices_length {T : Type} (deck : List T) (sizes : List ℕ) : ∀ i, (slices deck i sizes).length = sizes.length := by
  induction sizes with
  | nil => exact fun _ => rfl
  | cons size sizes ih =>
    intro i
    rw [slices, List.length_cons, List.length_cons, ih]

theorem fairHands_length {n : ℕ} (hn : n = 2 ∨ n = 3 ∨ n = 4) : (H.fairHands serverSeed clientSeed nonce n).length = n := by
  unfold Hashes.fairHands
  rw [slices_length]
  rcases hn with rfl | rfl | rfl
  · rfl
  · rfl
  · rfl

/-- For a seat count, right or wrong. -/
theorem reconstructDeal_eq_iff {n c : ℕ} (hn : n = 2 ∨ n = 3 ∨ n = 4) (hkey : serverSeed.toUTF8.size ≠ 0) :
    ∃ hands, H.reconstructDeal serverSeed clientSeed nonce c = .ok hands ∧
      (hands = H.fairHands serverSeed clientSeed nonce n ↔ c = n) := by
  have hlen := fairHands_length H serverSeed clientSeed nonce hn
  by_cases hc : c = 2 ∨ c = 3 ∨ c = 4
  · refine ⟨_, H.reconstructDeal_eq serverSeed clientSeed nonce hc hkey, fun h => ?_, fun h => by rw [h]⟩
    rw [← hlen, ← h, fairHands_length H serverSeed clientSeed nonce hc]
  · have hnone : H.reconstructDeal serverSeed clientSeed nonce c = .ok [] := by
      unfold Hashes.reconstructDeal
      rw [if_pos (by omega)]
      rfl
    refine ⟨[], hnone, fun h => ?_, fun h => absurd (h ▸ hn) hc⟩
    rw [← h, List.length_nil] at hlen
    omega

end Hands

/-! ## The repositories -/

section Stores

variable [DecidableEq M] {s : ReplayStore M} {m : M} {fs : FairShuffle} {k : ℕ}

/-- The row that the gateway's dealer writes of game `i`. -/
def FairShuffle.record (fs : FairShuffle) (m : M) (i : ℕ) : GameRecord M :=
  { matchId := m, index := i, serverSeed := fs.serverSeed, serverSeedHash := fs.serverSeedHash, clientSeed := fs.clientSeed,
    nonce := i }

/-- What is written of match `m` comes from its `k` deals and from its seats. -/
def ReplayEvent.OfMatch (m : M) (fs : FairShuffle) (k : ℕ) : ReplayEvent M → Prop
  | .append a => a.matchId = m → a.seat < fs.numPlayers
  | .recordGame g => g.matchId = m → ∃ i < k, g = fs.record m i
  | _ => True

/-- What a match's rows are. -/
structure ReplayStore.Holds (s : ReplayStore M) (m : M) (fs : FairShuffle) (k : ℕ) : Prop where
  seats : ∀ a ∈ s.actions, a.matchId = m → a.seat < fs.numPlayers
  games : ∀ g ∈ s.games, g.matchId = m → ∃ i < k, g = { fs.record m i with revealed := g.revealed }

/-- An event of the match keeps its rows. -/
theorem ReplayStore.Holds.step (h : s.Holds m fs k) {e : ReplayEvent M} (he : e.OfMatch m fs k) : (s.step e).Holds m fs k := by
  obtain ⟨hseats, hgames⟩ := h
  cases e with
  | append a =>
    show (s.append a).Holds m fs k
    unfold ReplayStore.append
    split_ifs
    · exact ⟨hseats, hgames⟩
    · refine ⟨fun x hx hm => ?_, hgames⟩
      rcases List.mem_append.mp hx with hx | hx
      · exact hseats x hx hm
      · rw [List.mem_singleton.mp hx] at hm ⊢
        exact he hm
  | deleteOlderThan cutoff => exact ⟨fun x hx hm => hseats x (List.mem_of_mem_filter hx) hm, hgames⟩
  | recordGame g =>
    show (s.recordGame g).Holds m fs k
    unfold ReplayStore.recordGame
    split_ifs
    · exact ⟨hseats, hgames⟩
    · refine ⟨hseats, fun x hx hm => ?_⟩
      rcases List.mem_append.mp hx with hx | hx
      · exact hgames x hx hm
      · rw [List.mem_singleton.mp hx] at hm ⊢
        obtain ⟨i, hi, hg⟩ := he hm
        exact ⟨i, hi, by rw [hg]⟩
  | revealMatch matchId =>
    refine ⟨hseats, fun x hx hm => ?_⟩
    obtain ⟨y, hy, rfl⟩ := List.mem_map.mp hx
    split_ifs at hm ⊢
    · obtain ⟨i, hi, hg⟩ := hgames y hy hm
      exact ⟨i, hi, by rw [hg]⟩
    · exact hgames y hy hm

/-- The store holds what the match has written. -/
theorem ReplayStore.holds_run {es : List (ReplayEvent M)} (hes : ∀ e ∈ es, e.OfMatch m fs k) :
    (run ReplayStore.step {} es).Holds m fs k := by
  have hall : ∀ (es : List (ReplayEvent M)) (s : ReplayStore M), s.Holds m fs k → (∀ e ∈ es, e.OfMatch m fs k) →
      (run ReplayStore.step s es).Holds m fs k := by
    intro es
    induction es with
    | nil => exact fun _ hs _ => hs
    | cons e es ih =>
      intro s hs hok
      exact ih (s.step e) (hs.step (hok e List.mem_cons_self)) fun e' he' => hok e' (List.mem_cons_of_mem e he')
  refine hall es {} ⟨fun a ha => ?_, fun g hg => ?_⟩ hes
  · cases ha
  · cases hg

theorem ReplayStore.mem_listActions {a : MatchActionRecord M} : a ∈ s.listActions m ↔ a ∈ s.actions ∧ a.matchId = m := by
  unfold ReplayStore.listActions
  rw [List.mem_mergeSort, List.mem_filter]
  simp

theorem ReplayStore.mem_listGames {g : GameRecord M} : g ∈ s.listGames m ↔ g ∈ s.games ∧ g.matchId = m := by
  unfold ReplayStore.listGames
  rw [List.mem_mergeSort, List.mem_filter]
  simp

/-! ## The view -/

theorem truthy_some {seed : String} (h : 0 < seed.length) : truthy (some seed) = some seed := by
  have hne : seed ≠ "" := by
    rintro rfl
    exact absurd h (by decide)
  show (if seed = "" then none else some seed) = some seed
  rw [if_neg hne]

/-- Every listed game gets hands, and they are those that its seeds give for the seat count. -/
theorem reconstructGames_eq (H : Hashes) {serverSeed : String} (hseed : 0 < serverSeed.length) (clientSeed : String) (c : ℕ)
    (games : List ReplayGameDTO) (hgames : ∀ g ∈ games, g.serverSeed = some serverSeed ∧ g.nonce = g.index) :
    ∃ hands, reconstructGames H clientSeed c games = .ok hands ∧
      (∀ i y, hands i = some y → H.reconstructDeal serverSeed clientSeed i c = .ok y) ∧
      ∀ g ∈ games, ∃ y, hands g.index = some y := by
  induction games with
  | nil =>
    refine ⟨fun _ => none, rfl, fun i y hy => ?_, fun g hg => ?_⟩
    · cases hy
    · cases hg
  | cons g games ih =>
    obtain ⟨rest, hrest, hdeals, hall⟩ := ih fun x hx => hgames x (List.mem_cons_of_mem g hx)
    obtain ⟨hown, hnonce⟩ := hgames g List.mem_cons_self
    obtain ⟨first, hfirst, -⟩ := reconstructDeal_eq_iff H serverSeed clientSeed g.nonce (c := c) (Or.inl rfl)
      (size_ne_zero hseed)
    have hgame : reconstructGame H clientSeed c g = .ok (some first) := by
      unfold reconstructGame
      rw [hown, truthy_some hseed]
      simp only [hfirst]
      rfl
    refine ⟨fun i => (rest i).or (if i = g.index then some first else none), ?_, fun i y hy => ?_, fun x hx => ?_⟩
    · unfold reconstructGames
      rw [hgame, hrest]
      rfl
    · cases hi : rest i with
      | some z =>
        simp only [hi, Option.some_or] at hy
        cases hy
        exact hdeals i y hi
      | none =>
        simp only [hi, Option.none_or] at hy
        split_ifs at hy with hig
        cases hy
        rw [hig, ← hnonce]
        exact hfirst
    · cases hi : rest x.index with
      | some z => exact ⟨z, by simp only [hi, Option.some_or]⟩
      | none =>
        rcases List.mem_cons.mp hx with rfl | hx
        · exact ⟨first, by simp only [hi, Option.none_or, if_true]⟩
        · obtain ⟨y, hy⟩ := hall x hx
          rw [hi] at hy
          cases hy

/-- **When a replay shows the real deals.** Of a match whose seeds are revealed, whatever the log holds and whichever page is
asked for: the hands of a game that is listed are the ones that were dealt exactly if the last seat is in the log. -/
theorem replay_reconstructs_iff (H : Hashes) {n : ℕ} (hn : n = 2 ∨ n = 3 ∨ n = 4) (clientSeed serverSeed : Option String)
    (srvBytes : Vector UInt8 32) (cliBytes : Vector UInt8 16) (k : ℕ) (m : M) (es : List (ReplayEvent M))
    (hes : ∀ e ∈ es, e.OfMatch m (H.createFairShuffle n clientSeed serverSeed srvBytes cliBytes) k) (afterSeq : Option ℚ) :
    let fs := H.createFairShuffle n clientSeed serverSeed srvBytes cliBytes
    let s := run ReplayStore.step {} es
    ∀ d, replay s m afterSeq = some d → d.revealed = true →
      ∃ dealt fs' hands, (H.matchDeals k).run fs = .ok (dealt, fs') ∧ replayView H d = .ok (.ok, hands) ∧
        ∀ g ∈ d.games, ∃ x y, dealt[g.index]? = some x ∧ hands g.index = some y ∧
          (y = x ↔ ∃ a ∈ s.actions, a.matchId = m ∧ a.seat + 1 = n) := by
  intro fs s d hd hrevealed
  have hholds : s.Holds m fs k := ReplayStore.holds_run hes
  have hseed : 0 < fs.serverSeed.length := seedOr_length (by omega) serverSeed srvBytes
  have hclient : 0 < fs.clientSeed.length := seedOr_length (by omega) clientSeed cliBytes
  -- the answer, and the rows it is made of
  unfold replay at hd
  by_cases hmissing : (s.listGames m).isEmpty = true ∧ (s.listActions m).isEmpty = true
  · simp only [if_pos hmissing] at hd
    cases hd
  simp only [if_neg hmissing] at hd
  cases hd
  simp only [Bool.and_eq_true, Bool.not_eq_true', List.all_eq_true] at hrevealed
  obtain ⟨hsome, hall⟩ := hrevealed
  have hrows : ∀ g ∈ s.listGames m, ∃ i < k,
      g.dto = { index := i, nonce := i, revealed := true, serverSeed := some fs.serverSeed } ∧
      g.serverSeedHash = fs.serverSeedHash ∧ g.clientSeed = fs.clientSeed := by
    intro g hg
    have hshown : g.revealed = true := hall g hg
    obtain ⟨hin, hm⟩ := ReplayStore.mem_listGames.mp hg
    obtain ⟨i, hi, hrow⟩ := hholds.games g hin hm
    rw [hshown] at hrow
    exact ⟨i, hi, by rw [hrow]; rfl, by rw [hrow]; rfl, by rw [hrow]; rfl⟩
  obtain ⟨g₀, rest, hcons⟩ : ∃ g₀ rest, s.listGames m = g₀ :: rest := by
    cases hl : s.listGames m with
    | nil =>
      rw [hl] at hsome
      cases hsome
    | cons g₀ rest => exact ⟨g₀, rest, rfl⟩
  obtain ⟨i₀, -, hdto₀, hhash₀, hclient₀⟩ := hrows g₀ (by rw [hcons]; exact List.mem_cons_self)
  have hdtos : ∀ g ∈ (s.listGames m).map GameRecord.dto,
      g.serverSeed = some fs.serverSeed ∧ g.nonce = g.index ∧ g.index < k := by
    intro g hg
    obtain ⟨x, hx, rfl⟩ := List.mem_map.mp hg
    obtain ⟨i, hi, hdto, -⟩ := hrows x hx
    rw [hdto]
    exact ⟨rfl, rfl, hi⟩
  obtain ⟨hands, hrun, hdeals, hlisted⟩ := reconstructGames_eq H hseed fs.clientSeed (seatCount (s.listActions m))
    ((s.listGames m).map GameRecord.dto) fun g hg => ⟨(hdtos g hg).1, (hdtos g hg).2.1⟩
  refine ⟨_, _, hands, H.matchDeals_run k fs, ?_, fun g hg => ?_⟩
  · have hcommit : H.clientVerifyCommitment fs.serverSeed fs.serverSeedHash = true := by
      show (H.clientSha256Hex fs.serverSeed == H.sha256Hex fs.serverSeed) = true
      rw [clientSha256Hex_eq]
      exact beq_self_eq_true _
    unfold replayView
    rw [hcons] at hrun ⊢
    simp only [List.map_cons, List.head?_cons, Option.bind_some, Option.map_some, hdto₀, truthy_some hseed, hhash₀, hclient₀,
      Option.getD_some, hcommit, truthy_some hclient, if_true] at hrun ⊢
    have hshown : (!(g₀ :: rest).isEmpty && (g₀ :: rest).all fun x => x.revealed) = true := by
      rw [← hcons, hsome, List.all_eq_true.mpr hall]
      rfl
    rw [hshown, hrun]
    rfl
  · obtain ⟨hown, hnonce, hlt⟩ := hdtos g hg
    obtain ⟨y, hy⟩ := hlisted g hg
    refine ⟨H.fairHands fs.serverSeed fs.clientSeed g.index n, y, ?_, hy, ?_⟩
    · have hzero : fs.games.length = 0 := rfl
      rw [hzero]
      simp [hlt]
      rfl
    · obtain ⟨y', hy', hiff⟩ :=
        reconstructDeal_eq_iff H fs.serverSeed fs.clientSeed g.index (c := seatCount (s.listActions m)) hn
        (size_ne_zero hseed)
      have hsame : y = y' := Except.ok.inj ((hdeals g.index y hy).symm.trans hy')
      have hseats : ∀ a ∈ s.listActions m, a.seat < n := fun a ha =>
        hholds.seats a (ReplayStore.mem_listActions.mp ha).1 (ReplayStore.mem_listActions.mp ha).2
      rw [hsame, hiff, seatCount_eq_iff (by omega) hseats]
      simp only [ReplayStore.mem_listActions, and_assoc]

/-- A game of two players in which only the first has moved. -/
def firstMoved : List (ReplayEvent ℕ) :=
  [.recordGame ((mixHashes.createFairShuffle 2 (some "ab:1") none (Vector.replicate 32 7) (Vector.replicate 16 7)).record 5 0),
    .append { matchId := 5, seq := 0, gameIndex := 0, seat := 0, type := .pass, cards := none, time := 0 }, .revealMatch 5]

/-- One move, and its replay. -/
theorem firstMoved_replay : ∃ d, replay (run ReplayStore.step {} firstMoved) 5 none = some d ∧ d.revealed = true ∧
    ∃ g ∈ d.games, g.index = 0 := by
  have hgames : (run ReplayStore.step {} firstMoved).games.filter (fun g => decide (g.matchId = 5)) =
      [{ (mixHashes.createFairShuffle 2 (some "ab:1") none (Vector.replicate 32 7) (Vector.replicate 16 7)).record 5 0 with
        revealed := true }] := rfl
  have hactions : (run ReplayStore.step {} firstMoved).actions.filter (fun a => decide (a.matchId = 5)) =
      [{ matchId := 5, seq := 0, gameIndex := 0, seat := 0, type := .pass, cards := none, time := 0 }] := rfl
  unfold replay ReplayStore.listGames ReplayStore.listActions
  rw [hgames, hactions, List.mergeSort_singleton, List.mergeSort_singleton]
  exact ⟨_, rfl, rfl, _, List.mem_cons_self, rfl⟩

/-- The seeds shown give the hands dealt. -/
theorem replay_reconstructs_first : ∃ d, replay (run ReplayStore.step {} firstMoved) 5 none = some d ∧
    ∃ (dealt : List (List (List Card))) (hands : ℕ → Option (List (List Card))) (x y : List (List Card)),
      replayView mixHashes d = .ok (.ok, hands) ∧ dealt[0]? = some x ∧ hands 0 = some y ∧ y ≠ x := by
  have hok : ∀ e ∈ firstMoved, e.OfMatch 5
      (mixHashes.createFairShuffle 2 (some "ab:1") none (Vector.replicate 32 7) (Vector.replicate 16 7)) 1 := by
    intro e he
    simp only [firstMoved, List.mem_cons, List.not_mem_nil, or_false] at he
    rcases he with rfl | rfl | rfl
    · exact fun _ => ⟨0, by decide, rfl⟩
    · exact fun _ => by decide
    · trivial
  obtain ⟨d, hd, hrevealed, g, hg, hindex⟩ := firstMoved_replay
  obtain ⟨dealt, -, hands, -, hview, hgames⟩ := replay_reconstructs_iff mixHashes (Or.inl rfl) (some "ab:1") none
    (Vector.replicate 32 7) (Vector.replicate 16 7) 1 5 firstMoved hok none d hd hrevealed
  obtain ⟨x, y, hx, hy, hiff⟩ := hgames g hg
  rw [hindex] at hx hy
  refine ⟨d, hd, dealt, hands, x, y, hview, hx, hy, fun h => ?_⟩
  obtain ⟨a, ha, -, hseat⟩ := hiff.mp h
  have hactions : (run ReplayStore.step {} firstMoved).actions =
      [{ matchId := 5, seq := 0, gameIndex := 0, seat := 0, type := .pass, cards := none, time := 0 }] := rfl
  rw [hactions, List.mem_singleton] at ha
  rw [ha] at hseat
  cases hseat

/-! ## The pages of the log -/

/-- An action is written once. -/
theorem ReplayStore.append_seqs {a : MatchActionRecord M} (h : (s.actions.map fun r => (r.matchId, r.seq)).Nodup) :
    ((s.append a).actions.map fun r => (r.matchId, r.seq)).Nodup := by
  unfold ReplayStore.append
  split_ifs with hthere
  · exact h
  · rw [List.map_append, List.nodup_append]
    refine ⟨h, List.nodup_singleton _, fun x hx y hy hxy => ?_⟩
    obtain ⟨r, hr, rfl⟩ := List.mem_map.mp hx
    rw [List.map_singleton, List.mem_singleton] at hy
    rw [hy, Prod.mk.injEq] at hxy
    refine hthere (List.any_eq_true.mpr ⟨r, hr, ?_⟩)
    simp [hxy.1, hxy.2]

/-- No number is given twice in a match. -/
theorem ReplayStore.seqs_nodup (es : List (ReplayEvent M)) :
    ((run ReplayStore.step ({} : ReplayStore M) es).actions.map fun r => (r.matchId, r.seq)).Nodup := by
  have hboot : ((({} : ReplayStore M).actions).map fun r => (r.matchId, r.seq)).Nodup := List.nodup_nil
  refine run_inv (P := fun s : ReplayStore M => (s.actions.map fun r => (r.matchId, r.seq)).Nodup) (fun s e h => ?_) hboot es
  cases e with
  | append a => exact ReplayStore.append_seqs h
  | deleteOlderThan cutoff => exact h.sublist (List.filter_sublist.map _)
  | recordGame g =>
    show ((s.recordGame g).actions.map fun r => (r.matchId, r.seq)).Nodup
    unfold ReplayStore.recordGame
    split_ifs
    · exact h
    · exact h
  | revealMatch matchId => exact h

/-- Actions are listed in order. -/
theorem ReplayStore.listActions_sorted (h : (s.actions.map fun r => (r.matchId, r.seq)).Nodup) (m : M) :
    (s.listActions m).Pairwise fun a b => a.seq < b.seq := by
  have hsorted := @List.pairwise_mergeSort _ (fun x y : MatchActionRecord M => decide (x.seq ≤ y.seq))
    (fun a b c hab hbc => by simp only [decide_eq_true_eq] at hab hbc ⊢; omega)
    (fun a b => by simp only [Bool.or_eq_true, decide_eq_true_eq]; omega) (s.actions.filter (·.matchId = m))
  have hnodup : (s.listActions m).Pairwise fun a b => a.seq ≠ b.seq := by
    have hmine : (s.actions.filter (·.matchId = m)).Pairwise fun a b => a.seq ≠ b.seq := by
      rw [List.Nodup, List.pairwise_map] at h
      refine (h.filter _).imp_of_mem fun ha hb hne hseq => hne ?_
      have hma := (List.mem_filter.mp ha).2
      have hmb := (List.mem_filter.mp hb).2
      simp only [decide_eq_true_eq] at hma hmb
      rw [hma, hmb, hseq]
    exact (List.mergeSort_perm _ _).symm.pairwise hmine fun hne heq => hne heq.symm
  refine (hsorted.and hnodup).imp fun hab => ?_
  obtain ⟨hle, hne⟩ := hab
  simp only [decide_eq_true_eq] at hle
  omega

/-- One request of a client that follows the cursor. -/
def fetchReplay (s : ReplayStore M) (m : M) (_ : ℕ) (cursor : Option ℕ) : List ReplayActionDTO × Option ℕ :=
  match replay s m (cursor.map fun c => (c : ℚ)) with
  | some d => (d.actions, d.nextActionCursor)
  | none => ([], none)

omit [DecidableEq M] in
/-- The route's cursor is the last row's key. -/
theorem nextActionCursor_eq (page rows : List (MatchActionRecord M)) :
    nextActionCursor page rows = keyedNext (·.seq) page rows := by
  unfold nextActionCursor keyedNext
  cases page.getLast? with
  | none => rfl
  | some a =>
    cases rows.getLast? with
    | none => rfl
    | some last => rfl

/-- **Following the cursor** of a revealed match reads its whole log: every action once, by its number. -/
theorem replay_pages_complete (es : List (ReplayEvent M)) (m : M) :
    let s := run ReplayStore.step {} es
    ∀ d, replay s m none = some d → d.revealed = true →
      (s.listActions m).Pairwise (fun a b => a.seq < b.seq) ∧ (∀ a, a ∈ s.listActions m ↔ a ∈ s.actions ∧ a.matchId = m) ∧
      collect (fetchReplay s m) ((s.listActions m).length + 1) 0 none = some ((s.listActions m).map MatchActionRecord.dto) := by
  intro s d hd hrevealed
  have hsorted := ReplayStore.listActions_sorted (ReplayStore.seqs_nodup es) m
  refine ⟨hsorted, fun a => ReplayStore.mem_listActions, ?_⟩
  unfold replay at hd
  by_cases hmissing : (s.listGames m).isEmpty = true ∧ (s.listActions m).isEmpty = true
  · simp only [if_pos hmissing] at hd
    cases hd
  simp only [if_neg hmissing] at hd
  cases hd
  simp only at hrevealed
  refine collect_keyset hsorted (n := actionsPage) (by decide) fun k cursor => ?_
  have hbehind : ((s.listActions m).filter fun a => decide ((cursor.map fun c => (c : ℚ)).getD (-1) < (a.seq : ℚ))) =
      keyedAfter (·.seq) (s.listActions m) cursor := by
    cases cursor with
    | none =>
      show (s.listActions m).filter _ = s.listActions m
      rw [List.filter_eq_self]
      intro a _
      have hpos : (-1 : ℚ) < (a.seq : ℚ) := lt_of_lt_of_le (by norm_num) (Nat.cast_nonneg _)
      simpa using hpos
    | some c =>
      show (s.listActions m).filter _ = (s.listActions m).filter _
      refine List.filter_congr fun a _ => ?_
      simp
  have hreply : replay s m (cursor.map fun c => (c : ℚ)) = some
      { matchId := m, revealed := true, numPlayers := seatCount (s.listActions m)
        serverSeedHash := (s.listGames m).head?.map (·.serverSeedHash)
        clientSeed := (s.listGames m).head?.map (·.clientSeed), games := (s.listGames m).map GameRecord.dto
        actions := ((keyedAfter (·.seq) (s.listActions m) cursor).take actionsPage).map MatchActionRecord.dto
        nextActionCursor := nextActionCursor ((keyedAfter (·.seq) (s.listActions m) cursor).take actionsPage)
          (s.listActions m) } := by
    unfold replay
    simp only [if_neg hmissing, hrevealed, if_true, hbehind]
  unfold fetchReplay
  rw [hreply]
  simp only [nextActionCursor_eq]

/-- The passes of two seats, one after another. -/
def passAt (i : ℕ) : MatchActionRecord ℕ :=
  { matchId := 5, seq := i, gameIndex := 0, seat := i % 2, type := .pass, cards := none, time := 0 }

/-- A game of two players with `n` passes. -/
def longMatch (n : ℕ) : List (ReplayEvent ℕ) :=
  .recordGame ((mixHashes.createFairShuffle 2 (some "ab:1") none (Vector.replicate 32 7) (Vector.replicate 16 7)).record 5 0) ::
    ((List.range n).map fun i => .append (passAt i)) ++ [.revealMatch 5]

/-- Numbers that are new are appended. -/
theorem run_passes (s : ReplayStore ℕ) (hs : s.actions = []) (n : ℕ) :
    run ReplayStore.step s ((List.range n).map fun i => .append (passAt i)) =
      { s with actions := (List.range n).map passAt } := by
  induction n with
  | zero => rw [List.range_zero, List.map_nil, List.map_nil, ← hs, run_nil]
  | succ n ih =>
    have hnew : ((List.range n).map passAt).any (fun r => decide (r.matchId = (passAt n).matchId ∧ r.seq = (passAt n).seq)) =
        false := by
      rw [List.any_eq_false]
      intro r hr
      obtain ⟨i, hi, rfl⟩ := List.mem_map.mp hr
      have hlt := List.mem_range.mp hi
      simp only [passAt, decide_eq_true_eq]
      omega
    rw [List.range_succ, List.map_append, run_append, ih, List.map_append]
    show ReplayStore.append { s with actions := (List.range n).map passAt } (passAt n) = _
    unfold ReplayStore.append
    rw [if_neg (by rw [hnew]; decide)]
    rfl

/-- A match of many passes, as it is stored. -/
theorem longMatch_rows (n : ℕ) : (run ReplayStore.step {} (longMatch n)).listActions 5 = (List.range n).map passAt ∧
    (run ReplayStore.step {} (longMatch n)).listGames 5 =
      [{ (mixHashes.createFairShuffle 2 (some "ab:1") none (Vector.replicate 32 7) (Vector.replicate 16 7)).record 5 0 with
        revealed := true }] := by
  have hrun : run ReplayStore.step {} (longMatch n) =
      { actions := (List.range n).map passAt
        games := [{ (mixHashes.createFairShuffle 2 (some "ab:1") none (Vector.replicate 32 7)
          (Vector.replicate 16 7)).record 5 0 with revealed := true }] } := by
    unfold longMatch
    rw [List.cons_append, run_cons, run_append, run_passes]
    · rfl
    · rfl
  rw [hrun]
  constructor
  · have hmine : ((List.range n).map passAt).filter (fun r => decide (r.matchId = 5)) = (List.range n).map passAt := by
      rw [List.filter_eq_self]
      intro r hr
      obtain ⟨i, -, rfl⟩ := List.mem_map.mp hr
      rfl
    have hsorted : ((List.range n).map passAt).Pairwise fun x y => decide (x.seq ≤ y.seq) = true := by
      rw [List.pairwise_map]
      exact List.pairwise_lt_range.imp fun h => decide_eq_true h.le
    unfold ReplayStore.listActions
    rw [hmine]
    exact List.mergeSort_of_pairwise hsorted
  · exact List.mergeSort_singleton _

/-- A log of 1001 actions has a second page, and both together are the log. -/
theorem replay_pages_second : ∃ d, replay (run ReplayStore.step {} (longMatch 1001)) 5 none = some d ∧
    d.actions.length = 1000 ∧ d.nextActionCursor = some 999 ∧
    collect (fetchReplay (run ReplayStore.step {} (longMatch 1001)) 5) 1002 0 none =
      some ((List.range 1001).map fun i => (passAt i).dto) := by
  obtain ⟨hactions, hgames⟩ := longMatch_rows 1001
  have hpage : ((List.range 1001).map passAt).filter (fun a => decide ((none : Option ℚ).getD (-1) < (a.seq : ℚ))) =
      (List.range 1001).map passAt := by
    rw [List.filter_eq_self]
    intro a _
    have hpos : (-1 : ℚ) < (a.seq : ℚ) := lt_of_lt_of_le (by norm_num) (Nat.cast_nonneg _)
    simpa using hpos
  have hfirst : ((List.range 1001).map passAt).take actionsPage = (List.range 1000).map passAt := by
    rw [← List.map_take, List.take_range]
    rfl
  obtain ⟨d, hd⟩ : ∃ d, replay (run ReplayStore.step {} (longMatch 1001)) 5 none = some d := by
    unfold replay
    rw [hgames]
    exact ⟨_, rfl⟩
  have hreply := hd
  unfold replay at hreply
  rw [hgames, hactions] at hreply
  have hd' := Option.some.inj hreply
  simp only [List.isEmpty_cons, Bool.not_false, List.all_cons, List.all_nil, Bool.and_true, if_true, hpage, hfirst] at hd'
  have hrevealed : d.revealed = true := by
    rw [← hd']
  obtain ⟨-, -, hpages⟩ := replay_pages_complete (longMatch 1001) 5 d hd hrevealed
  refine ⟨d, hd, ?_, ?_, ?_⟩
  · rw [← hd']
    simp
  · rw [← hd']
    have hlast : ∀ n, ((List.range (n + 1)).map passAt).getLast? = some (passAt n) := by
      intro n
      rw [List.range_succ, List.map_append]
      simp
    unfold nextActionCursor
    dsimp only
    rw [hlast 999, hlast 1000]
    rfl
  · rw [hactions, List.length_map, List.length_range, List.map_map] at hpages
    exact hpages

end Stores

end Murlan
