import Murlan.Spec.Card

/-!
# Scoring and the card switch

`packages/server/src/match/scoring.ts` and the switch rules of
`packages/shared/src/rules.ts`: points for each place, the totals of the teams,
the target and its extension on a tie (`evaluateMatch`), and the cards of the
switch between two games.
-/

namespace Murlan

/-- The types of a match. -/
inductive MatchType where
  | oneVOne | oneVOneVOne | twoVTwo
  deriving DecidableEq, Repr

/-- A type's name. -/
def MatchType.name : MatchType → String
  | .oneVOne => "1v1" | .oneVOneVOne => "1v1v1" | .twoVTwo => "2v2"

/-- How many play a match of a type. -/
def playersForType : MatchType → ℕ
  | .oneVOne => 2 | .oneVOneVOne => 3 | .twoVTwo => 4

/-- Points by finishing place, the first place first. -/
def placePoints : MatchType → List ℕ
  | .oneVOne => [1, 0] | .oneVOneVOne => [2, 1, 0] | .twoVTwo => [3, 2, 1, 0]

/-- The points of each seat for one finished game. -/
def gamePoints (type : MatchType) (finishingOrder : List ℕ) : Except String (List ℕ) :=
  let n := playersForType type
  if finishingOrder.length ≠ n then
    .error s!"finishingOrder length {finishingOrder.length} != {n} for {type.name}"
  else
    .ok (finishingOrder.zipIdx.foldl (fun pts p => pts.set p.1 ((placePoints type).getD p.2 0))
      (List.replicate n 0))

/-- The two teams of 2v2, across the table. -/
def defaultTeams : List ℕ × List ℕ := ([0, 2], [1, 3])

/-- The two totals of a per-seat array. -/
def teamTotals (perSeat : List ℕ) (teams : List ℕ × List ℕ) : ℕ × ℕ :=
  let sum := fun group : List ℕ => group.foldl (fun acc s => acc + perSeat.getD s 0) 0
  (sum teams.1, sum teams.2)

/-- What a finished game means for the match. -/
structure MatchEvaluation where
  isOver : Bool
  winnerSide : Option ℕ
  newTarget : ℕ
  extended : Bool
  deriving DecidableEq, Repr

/-- The best score. -/
def maxScore (sideScores : List ℕ) : ℕ := sideScores.foldr max 0

/-- After a game: the match is won, its target is raised, or it goes on. -/
def evaluateMatch (sideScores : List ℕ) (target : ℕ) : MatchEvaluation :=
  let maxVal := maxScore sideScores
  let leaders := sideScores.count maxVal
  if leaders = 1 ∧ target ≤ maxVal then
    { isOver := true, winnerSide := some (sideScores.idxOf maxVal), newTarget := target, extended := false }
  else if 2 ≤ leaders ∧ target ≤ maxVal + 1 then
    { isOver := false, winnerSide := none, newTarget := target + 10, extended := true }
  else { isOver := false, winnerSide := none, newTarget := target, extended := false }

/-- One step of the scan for the strongest card: the best index so far, its power
and the index of the next card. -/
def strongestStep (acc : ℕ × ℕ × ℕ) (c : Card) : ℕ × ℕ × ℕ :=
  if acc.2.1 < singlePower c then (acc.2.2, singlePower c, acc.2.2 + 1)
  else (acc.1, acc.2.1, acc.2.2 + 1)

/-- Index of the strongest card of a hand, the first among equals. -/
def strongestIndexByPower : List Card → Except String ℕ
  | [] => .error "empty hand has no strongest card"
  | c :: rest => .ok (rest.foldl strongestStep (0, singlePower c, 1)).1

/-- The ranks that may be given back. -/
def switchRanks : List Rank := [.r3, .r4, .r5, .r6, .r7, .r8, .r9, .r10]

/-- A card the winner may return: a standard card of rank 3 to 10. -/
def isReturnEligible : Card → Bool
  | .standard r _ => r ∈ switchRanks
  | .joker _ => false

/-- The cards of a hand that may be given back. -/
def eligibleReturnCards (hand : List Card) : List Card := hand.filter isReturnEligible

/-- No score is above the best. -/
theorem le_maxScore {l : List ℕ} {v : ℕ} (h : v ∈ l) : v ≤ maxScore l := by
  unfold maxScore
  induction l with
  | nil => cases h
  | cons a l ih =>
    rw [List.foldr_cons]
    rcases List.mem_cons.1 h with rfl | h
    · exact Nat.le_max_left _ _
    · exact (ih h).trans (Nat.le_max_right _ _)

theorem maxScore_le {l : List ℕ} {b : ℕ} (h : ∀ v ∈ l, v ≤ b) : maxScore l ≤ b := by
  unfold maxScore
  induction l with
  | nil => exact Nat.zero_le b
  | cons a l ih =>
    rw [List.foldr_cons]
    exact Nat.max_le.2 ⟨h a List.mem_cons_self, ih fun v hv => h v (List.mem_cons_of_mem a hv)⟩

/-- The best is some score. -/
theorem maxScore_mem {l : List ℕ} (h : l ≠ []) : maxScore l ∈ l := by
  unfold maxScore
  induction l with
  | nil => exact absurd rfl h
  | cons a l ih =>
    rw [List.foldr_cons]
    by_cases hl : l = []
    · subst hl
      simp
    · rcases Nat.le_total a (l.foldr max 0) with hle | hle
      · rw [Nat.max_eq_right hle]
        exact List.mem_cons_of_mem a (ih hl)
      · rw [Nat.max_eq_left hle]
        exact List.mem_cons_self

/-- A match is over when one side alone leads at the target. -/
theorem evaluateMatch_over {l : List ℕ} {target : ℕ} :
    (evaluateMatch l target).isOver = true ↔ l.count (maxScore l) = 1 ∧ target ≤ maxScore l := by
  unfold evaluateMatch
  simp only
  split
  · rename_i h
    exact ⟨fun _ => h, fun _ => rfl⟩
  · rename_i h
    rw [iff_false_right h]
    split <;> exact Bool.false_ne_true

/-- A won match names the first side with the highest score. -/
theorem evaluateMatch_winner (l : List ℕ) (target : ℕ) :
    (evaluateMatch l target).winnerSide =
      if (evaluateMatch l target).isOver = true then some (l.idxOf (maxScore l)) else none := by
  unfold evaluateMatch
  simp only
  split
  · rfl
  · split <;> rfl

/-- The target is never lowered. -/
theorem evaluateMatch_newTarget (l : List ℕ) (target : ℕ) :
    target ≤ (evaluateMatch l target).newTarget := by
  unfold evaluateMatch
  simp only
  split
  · exact le_rfl
  · split
    · exact Nat.le_add_right _ _
    · exact le_rfl

/-- The target is raised when two sides or more share the lead at one below it or higher. -/
theorem evaluateMatch_extended {l : List ℕ} {target : ℕ} :
    (evaluateMatch l target).extended = true ↔ 2 ≤ l.count (maxScore l) ∧ target ≤ maxScore l + 1 := by
  unfold evaluateMatch
  simp only
  split
  · rename_i h
    exact iff_of_false Bool.false_ne_true fun h' => by omega
  · split
    · rename_i h
      exact iff_of_true rfl h
    · rename_i h
      exact iff_of_false Bool.false_ne_true h

/-- A raise is of ten. -/
theorem evaluateMatch_raise (l : List ℕ) (target : ℕ) : (evaluateMatch l target).newTarget =
    if (evaluateMatch l target).extended = true then target + 10 else target := by
  unfold evaluateMatch
  simp only
  split
  · rfl
  · split <;> rfl

/-- A higher target ends no match that a lower one leaves open. -/
theorem evaluateMatch_mono {l : List ℕ} {target target' : ℕ} (hle : target ≤ target')
    (h : (evaluateMatch l target).isOver = false) : (evaluateMatch l target').isOver = false := by
  by_contra h'
  rw [Bool.not_eq_false, evaluateMatch_over] at h'
  have : (evaluateMatch l target).isOver = true := evaluateMatch_over.2 ⟨h'.1, hle.trans h'.2⟩
  rw [h] at this; cases this

theorem gamePoints_ok {type : MatchType} {order : List ℕ} (h : order.length = playersForType type) :
    gamePoints type order = .ok (order.zipIdx.foldl
      (fun pts p => pts.set p.1 ((placePoints type).getD p.2 0))
      (List.replicate (playersForType type) 0)) := by
  unfold gamePoints
  simp only
  rw [if_neg (not_not.2 h)]

/-- The index a scan for the strongest card returns is below the cards it has seen. -/
theorem strongestIndexByPower_lt {hand : List Card} (h : hand ≠ []) :
    ∃ i, strongestIndexByPower hand = .ok i ∧ i < hand.length := by
  cases hand with
  | nil => exact absurd rfl h
  | cons c rest =>
    refine ⟨_, rfl, ?_⟩
    have key : ∀ (l : List Card) (acc : ℕ × ℕ × ℕ), acc.1 < acc.2.2 →
        (l.foldl strongestStep acc).1 < acc.2.2 + l.length := by
      intro l
      induction l with
      | nil => intro acc h; simpa using h
      | cons d l ih =>
        intro acc h
        rw [List.foldl_cons, List.length_cons]
        have hstep : (strongestStep acc d).1 < (strongestStep acc d).2.2 ∧
            (strongestStep acc d).2.2 = acc.2.2 + 1 := by
          unfold strongestStep
          split
          · exact ⟨Nat.lt_succ_self _, rfl⟩
          · exact ⟨Nat.lt_succ_of_lt h, rfl⟩
        have := ih _ hstep.1
        omega
    have hkey := key rest (0, singlePower c, 1) Nat.zero_lt_one
    rw [List.length_cons, Nat.add_comm]
    exact hkey

end Murlan
