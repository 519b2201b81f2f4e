import Murlan.Spec.Collusion
import Mathlib.Data.List.Count

/-!
# When a pair is flagged

`collusionFlags` compares a count of the window with its threshold by equality
(`mem_analyzeCollusion`). The count can stay where it is, or come back to it, over several
matches of the pair, so a flag is raised again; and a winner's count can be past the threshold
when the last match he lost leaves the window, so that none is raised.
`collusion_flags_iff` says exactly when the flags of a match are those of a crossing.
-/

namespace Murlan

variable {U : Type} [DecidableEq U]

/-! ## Counts of a window -/

/-- The two play the match on different sides. -/
def coSeated (a b : U) (m : PastMatch U) : Bool :=
  match m.seatOf a, m.seatOf b with
  | some sa, some sb => !sameTeam sa sb
  | _, _ => false

/-- `a` wins the match against `b`. -/
def defeats (a b : U) (m : PastMatch U) : Bool :=
  match m.seatOf a, m.seatOf b with
  | some sa, some sb => !sameTeam sa sb && (sa.won && !sb.won)
  | _, _ => false

omit [DecidableEq U] in
/-- To be on one team is mutual. -/
theorem sameTeam_comm (a b : CollusionSeat U) : sameTeam a b = sameTeam b a := by
  unfold sameTeam
  rw [Bool.eq_iff_iff]
  simp only [Bool.and_eq_true, decide_eq_true_eq]
  constructor
  · rintro ⟨hsome, heq⟩
    exact ⟨heq ▸ hsome, heq.symm⟩
  · rintro ⟨hsome, heq⟩
    exact ⟨heq ▸ hsome, heq.symm⟩

/-- To sit at one table is mutual. -/
theorem coSeated_comm (a b : U) (m : PastMatch U) : coSeated a b m = coSeated b a m := by
  unfold coSeated
  cases m.seatOf a with
  | none => cases m.seatOf b <;> rfl
  | some sa =>
    cases m.seatOf b with
    | none => rfl
    | some sb =>
      dsimp only
      rw [sameTeam_comm]

/-- One match adds to each count what it is worth. -/
theorem add_eq (a b : U) (t : PairCount) (m : PastMatch U) :
    t.add a b m = {
      coSeat := t.coSeat + if coSeated a b m then 1 else 0
      aBeatsB := t.aBeatsB + if defeats a b m then 1 else 0
      bBeatsA := t.bBeatsA + if defeats b a m then 1 else 0 } := by
  unfold PairCount.add coSeated defeats
  cases m.seatOf a with
  | none => cases m.seatOf b <;> rfl
  | some sa =>
    cases m.seatOf b with
    | none => rfl
    | some sb =>
      have hcomm := sameTeam_comm sb sa
      simp only [hcomm]
      by_cases hteam : sameTeam sa sb = true
      · simp [hteam]
      · simp [hteam]

/-- The tally counts, match by match. -/
theorem foldl_add (a b : U) (window : List (PastMatch U)) (t : PairCount) :
    window.foldl (PairCount.add a b) t = {
      coSeat := t.coSeat + window.countP (coSeated a b)
      aBeatsB := t.aBeatsB + window.countP (defeats a b)
      bBeatsA := t.bBeatsA + window.countP (defeats b a) } := by
  induction window generalizing t with
  | nil => rfl
  | cons m window ih =>
    rw [List.foldl_cons, ih, add_eq]
    simp only [List.countP_cons, Nat.add_assoc, Nat.add_comm (if _ then 1 else 0)]

/-- The tally of a pair in closed form. -/
theorem pairCount_eq (window : List (PastMatch U)) (a b : U) :
    pairCount window a b = {
      coSeat := window.countP (coSeated a b)
      aBeatsB := window.countP (defeats a b)
      bBeatsA := window.countP (defeats b a) } := by
  unfold pairCount
  rw [foldl_add]
  simp only [Nat.zero_add]

/-! ## The window -/

omit [DecidableEq U] in
/-- The history is the last matches of all. -/
theorem pushStaked_rtake (before : List (PastMatch U)) (m : PastMatch U) :
    pushStaked (before.rtake collusionWindow) m = (before ++ [m]).rtake collusionWindow := by
  unfold pushStaked collusionWindow List.rtake
  dsimp only
  rw [List.length_append, List.length_append, List.length_drop, List.length_singleton]
  split
  · rename_i hlong
    have hlen : before.length + 1 - 30 = before.length - 30 + 1 := by omega
    rw [hlen, ← List.tail_drop, List.drop_append_of_le_length (by omega)]
  · rename_i hshort
    have hzero : before.length + 1 - 30 = 0 := by omega
    have hzero' : before.length - 30 = 0 := by omega
    rw [hzero, hzero', List.drop_zero, List.drop_zero]

omit [DecidableEq U] in
/-- The matches that are kept are the last thirty. -/
theorem recentStaked_eq (history : List (PastMatch U)) : run pushStaked [] history = history.rtake collusionWindow := by
  induction history using List.reverseRecOn with
  | nil => rfl
  | append_singleton before m ih =>
    rw [run_append, ih]
    exact pushStaked_rtake before m

/-- Both play the match. -/
def common (a b : U) (m : PastMatch U) : Bool := (m.seatOf a).isSome && (m.seatOf b).isSome

/-- The matches up to the last one that both played; none if there is no such match. -/
def upToCommon (a b : U) (history : List (PastMatch U)) : List (PastMatch U) :=
  history.rdropWhile fun m => !common a b m

/-- Who sits together was in the match. -/
theorem common_of_coSeated {a b : U} {m : PastMatch U} (h : coSeated a b m = true) : common a b m = true := by
  unfold coSeated at h
  unfold common
  cases ha : m.seatOf a with
  | none => rw [ha] at h; cases h
  | some sa =>
    cases hb : m.seatOf b with
    | none => rw [ha, hb] at h; cases h
    | some sb => rfl

/-- Who beats another sat with him. -/
theorem coSeated_of_defeats {a b : U} {m : PastMatch U} (h : defeats a b m = true) : coSeated a b m = true := by
  unfold defeats at h
  unfold coSeated
  cases ha : m.seatOf a with
  | none => rw [ha] at h; cases h
  | some sa =>
    cases hb : m.seatOf b with
    | none => rw [ha, hb] at h; cases h
    | some sb =>
      rw [ha, hb] at h
      exact (Bool.and_eq_true_iff.mp h).1

/-- A count of common matches grows by one at most from one of them to the next. -/
theorem countP_recent_le {p : PastMatch U → Bool} {a b : U} (hp : ∀ m, p m = true → common a b m = true)
    (before : List (PastMatch U)) (m : PastMatch U) (k : ℕ) :
    ((before ++ [m]).rtake k).countP p ≤ ((upToCommon a b before).rtake k).countP p + 1 := by
  obtain ⟨rest, hsplit, hrest⟩ : ∃ rest, before = upToCommon a b before ++ rest ∧ ∀ m ∈ rest, common a b m = false := by
    refine ⟨before.rtakeWhile fun m => !common a b m, List.rdropWhile_append_rtakeWhile.symm, ?_⟩
    intro m hm
    simpa using List.mem_rtakeWhile_imp hm
  have hnone : rest.countP p = 0 := by
    rw [List.countP_eq_zero]
    intro m hm hpm
    exact absurd ((hrest m hm).symm.trans (hp m hpm)) (by decide)
  -- the longer history has kept no more of its part up to the common match
  have hsub : ((before ++ [m]).rtake k).Sublist ((upToCommon a b before).rtake k ++ (rest ++ [m])) := by
    have hlen : before.length = (upToCommon a b before).length + rest.length := by
      conv_lhs => rw [hsplit]
      exact List.length_append
    have hprev : (upToCommon a b before).length - k ≤ before.length + 1 - k := by omega
    unfold List.rtake
    rw [List.length_append, List.length_singleton]
    conv_lhs => rw [hsplit, List.append_assoc, List.drop_append]
    rw [← hsplit]
    exact (List.drop_sublist_drop_left _ hprev).append (List.drop_sublist _ _)
  calc ((before ++ [m]).rtake k).countP p
      ≤ ((upToCommon a b before).rtake k ++ (rest ++ [m])).countP p := hsub.countP_le
    _ = ((upToCommon a b before).rtake k).countP p + (rest.countP p + [m].countP p) := by
        rw [List.countP_append, List.countP_append]
    _ ≤ ((upToCommon a b before).rtake k).countP p + 1 := by
        have hone : [m].countP p ≤ 1 := List.countP_le_length
        omega

/-! ## The flags of a match -/

/-- A pair is of two seats. -/
theorem mem_of_mem_seatPairs {α : Type} {l : List α} {x y : α} (h : (x, y) ∈ seatPairs l) : x ∈ l ∧ y ∈ l := by
  induction l with
  | nil => cases h
  | cons a l ih =>
    rcases List.mem_append.mp h with h | h
    · obtain ⟨b, hb, heq⟩ := List.mem_map.mp h
      obtain ⟨rfl, rfl⟩ := Prod.mk.inj heq
      exact ⟨List.mem_cons_self, List.mem_cons_of_mem _ hb⟩
    · exact ⟨List.mem_cons_of_mem _ (ih h).1, List.mem_cons_of_mem _ (ih h).2⟩

/-- Two different seats are a pair, in one order. -/
theorem seatPairs_complete {α : Type} {l : List α} {x y : α} (hx : x ∈ l) (hy : y ∈ l) (hxy : x ≠ y) :
    (x, y) ∈ seatPairs l ∨ (y, x) ∈ seatPairs l := by
  induction l with
  | nil => cases hx
  | cons a l ih =>
    rcases List.mem_cons.mp hx with rfl | hx'
    · rcases List.mem_cons.mp hy with rfl | hy'
      · exact absurd rfl hxy
      · exact .inl (List.mem_append_left _ (List.mem_map_of_mem hy'))
    · rcases List.mem_cons.mp hy with rfl | hy'
      · exact .inr (List.mem_append_left _ (List.mem_map_of_mem hx'))
      · rcases ih hx' hy' with h | h
        · exact .inl (List.mem_append_right _ h)
        · exact .inr (List.mem_append_right _ h)

/-- The flag is raised for the pair by the counts of the window. -/
def Raised (window : List (PastMatch U)) (a b : U) (f : CollusionFlag U) : Prop :=
  (window.countP (coSeated a b) = 3 ∧ (f = pairingFlag a b 3 ∨ f = pairingFlag b a 3)) ∨
    (window.countP (defeats a b) = 3 ∧ window.countP (defeats b a) = 0 ∧ (f = dumperFlag b a 3 ∨ f = beneficiaryFlag a b 3)) ∨
    window.countP (defeats b a) = 3 ∧ window.countP (defeats a b) = 0 ∧ (f = dumperFlag a b 3 ∨ f = beneficiaryFlag b a 3)

/-- A flag does not depend on the order of the pair. -/
theorem Raised.symm {window : List (PastMatch U)} {a b : U} {f : CollusionFlag U} (h : Raised window a b f) :
    Raised window b a f := by
  have hseat : coSeated b a = coSeated a b := funext fun m => coSeated_comm b a m
  unfold Raised
  rw [hseat]
  rcases h with ⟨hcount, hf⟩ | h | h
  · exact .inl ⟨hcount, hf.symm⟩
  · exact .inr (.inr h)
  · exact .inr (.inl h)

/-- A flag is about the pair. -/
theorem Raised.pair {window : List (PastMatch U)} {a b : U} {f : CollusionFlag U} (h : Raised window a b f) :
    (f.userId = a ∧ f.partnerId = b) ∨ (f.userId = b ∧ f.partnerId = a) := by
  rcases h with ⟨-, rfl | rfl⟩ | ⟨-, -, rfl | rfl⟩ | ⟨-, -, rfl | rfl⟩
  · exact .inl ⟨rfl, rfl⟩
  · exact .inr ⟨rfl, rfl⟩
  · exact .inr ⟨rfl, rfl⟩
  · exact .inl ⟨rfl, rfl⟩
  · exact .inl ⟨rfl, rfl⟩
  · exact .inr ⟨rfl, rfl⟩

/-- The flags of a pair. -/
theorem mem_pairFlags {window : List (PastMatch U)} {a b : CollusionSeat U} {f : CollusionFlag U} :
    f ∈ pairFlags window {} a b ↔ sameTeam a b = false ∧ Raised window a.userId b.userId f := by
  unfold pairFlags
  cases hteam : sameTeam a b with
  | true => simp
  | false =>
    simp only [Bool.false_eq_true, if_false, true_and, pairCount_eq, List.mem_append]
    unfold Raised
    refine or_congr ?_ ?_
    · split
      · rename_i hcount
        simp [hcount]
      · rename_i hcount
        simp [hcount]
    · split
      · rename_i hdump
        split
        · rename_i hlt
          have hwins : window.countP (defeats a.userId b.userId) = 3 := by omega
          have hlosses : window.countP (defeats b.userId a.userId) = 0 := by omega
          simp [hwins, hlosses]
        · rename_i hlt
          have hwins : window.countP (defeats b.userId a.userId) = 3 := by omega
          have hlosses : window.countP (defeats a.userId b.userId) = 0 := by omega
          simp [hwins, hlosses]
      · rename_i hdump
        refine iff_of_false List.not_mem_nil ?_
        rintro (⟨hwins, hlosses, -⟩ | ⟨hwins, hlosses, -⟩)
        · exact hdump ⟨by omega, by omega⟩
        · exact hdump ⟨by omega, by omega⟩

theorem seatOf_some {m : PastMatch U} {a : U} {s : CollusionSeat U} (h : m.seatOf a = some s) :
    s ∈ m.seats ∧ s.userId = a :=
  ⟨List.mem_of_find?_eq_some h, by simpa using List.find?_some h⟩

/-- Who sits together has two seats, on no common team. -/
theorem coSeated_seats {m : PastMatch U} {a b : U} (h : coSeated a b m = true) :
    ∃ sa sb, sa ∈ m.seats ∧ sb ∈ m.seats ∧ sa.userId = a ∧ sb.userId = b ∧ sameTeam sa sb = false := by
  unfold coSeated at h
  cases ha : m.seatOf a with
  | none => rw [ha] at h; cases h
  | some sa =>
    cases hb : m.seatOf b with
    | none => rw [ha, hb] at h; cases h
    | some sb =>
      rw [ha, hb] at h
      obtain ⟨hsa, hua⟩ := seatOf_some ha
      obtain ⟨hsb, hub⟩ := seatOf_some hb
      exact ⟨sa, sb, hsa, hsb, hua, hub, by simpa using h⟩

/-- The last thirty matches of a history. -/
def lastStaked (history : List (PastMatch U)) : List (PastMatch U) := history.rtake collusionWindow

/-- A flag of two opponents of the match is raised by their counts in the window. -/
theorem mem_analyzeCollusion {before : List (PastMatch U)} {m : PastMatch U} {a b : U} (hab : a ≠ b)
    (h : coSeated a b m = true) {f : CollusionFlag U} (hf : f.userId = a ∧ f.partnerId = b) :
    f ∈ analyzeCollusion before m ↔ Raised (lastStaked (before ++ [m])) a b f := by
  have hwindow : pushStaked (run pushStaked [] before) m = lastStaked (before ++ [m]) := by
    rw [recentStaked_eq, pushStaked_rtake]
    rfl
  have hlast : (lastStaked (before ++ [m])).getLast? = some m := by
    unfold lastStaked collusionWindow
    rw [List.rtake_concat_succ, List.getLast?_append]
    rfl
  obtain ⟨sa, sb, hsa, hsb, rfl, rfl, hteam⟩ := coSeated_seats h
  unfold analyzeCollusion collusionFlags
  rw [hwindow, hlast]
  constructor
  · intro hmem
    obtain ⟨⟨x, y⟩, hxy, hflag⟩ := List.mem_flatMap.mp hmem
    obtain ⟨hx, hy⟩ := mem_of_mem_seatPairs hxy
    obtain ⟨-, hraised⟩ := mem_pairFlags.mp hflag
    rcases hraised.pair with ⟨hux, huy⟩ | ⟨huy, hux⟩
    · rw [← hf.1, ← hf.2, hux, huy]
      exact hraised
    · rw [← hf.1, ← hf.2, hux, huy]
      exact hraised.symm
  · intro hraised
    have hne : sa ≠ sb := fun heq => hab (congrArg _ heq)
    rcases seatPairs_complete hsa hsb hne with hpair | hpair
    · exact List.mem_flatMap.mpr ⟨_, hpair, mem_pairFlags.mpr ⟨hteam, hraised⟩⟩
    · exact List.mem_flatMap.mpr ⟨_, hpair, mem_pairFlags.mpr ⟨by rw [sameTeam_comm, hteam], hraised.symm⟩⟩

/-! ## Crossings -/

/-- The pair has sat together, not as team-mates, at least `pairThreshold` times. -/
def Paired (window : List (PastMatch U)) (a b : U) : Prop :=
  ({} : CollusionOpts).pairThreshold ≤ window.countP (coSeated a b)

/-- The winner has beaten the loser at least `dumpThreshold` times, and never the other way
round. -/
def Dumped (window : List (PastMatch U)) (winner loser : U) : Prop :=
  ({} : CollusionOpts).dumpThreshold ≤ window.countP (defeats winner loser) ∧ window.countP (defeats loser winner) = 0

/-- The match raises the flags of the pair exactly if it crosses a threshold: what holds in the
window that ends with it did not hold at their previous common match. -/
structure FlagsCross (before : List (PastMatch U)) (m : PastMatch U) (winner loser : U) : Prop where
  pairing : (∃ n, pairingFlag winner loser n ∈ analyzeCollusion before m) ↔
    Paired (lastStaked (before ++ [m])) winner loser ∧ ¬Paired (lastStaked (upToCommon winner loser before)) winner loser
  dumper : (∃ n, dumperFlag loser winner n ∈ analyzeCollusion before m) ↔
    Dumped (lastStaked (before ++ [m])) winner loser ∧ ¬Dumped (lastStaked (upToCommon winner loser before)) winner loser
  beneficiary : (∃ n, beneficiaryFlag winner loser n ∈ analyzeCollusion before m) ↔
    Dumped (lastStaked (before ++ [m])) winner loser ∧ ¬Dumped (lastStaked (upToCommon winner loser before)) winner loser

/-- No count is back at its threshold, and none is past it that has not been seen at it. -/
structure CountsCross (before : List (PastMatch U)) (m : PastMatch U) (winner loser : U) : Prop where
  pairing : (lastStaked (before ++ [m])).countP (coSeated winner loser) = 3 →
    (lastStaked (upToCommon winner loser before)).countP (coSeated winner loser) < 3
  back : (lastStaked (before ++ [m])).countP (defeats winner loser) = 3 →
    (lastStaked (before ++ [m])).countP (defeats loser winner) = 0 →
      (lastStaked (upToCommon winner loser before)).countP (defeats winner loser) < 3 ∨
        0 < (lastStaked (upToCommon winner loser before)).countP (defeats loser winner)
  past : 3 < (lastStaked (before ++ [m])).countP (defeats winner loser) →
    (lastStaked (before ++ [m])).countP (defeats loser winner) = 0 →
      (lastStaked (upToCommon winner loser before)).countP (defeats loser winner) = 0

variable {m : PastMatch U} {a b : U}

/-- The flag of a pairing is raised at the third meeting. -/
theorem pairing_raised (before : List (PastMatch U)) (hab : a ≠ b) (h : coSeated a b m = true) :
    (∃ n, pairingFlag a b n ∈ analyzeCollusion before m) ↔ (lastStaked (before ++ [m])).countP (coSeated a b) = 3 := by
  constructor
  · rintro ⟨n, hn⟩
    rcases (mem_analyzeCollusion hab h ⟨rfl, rfl⟩).mp hn with ⟨hcount, -⟩ | ⟨-, -, hf | hf⟩ | ⟨-, -, hf | hf⟩
    · exact hcount
    all_goals cases congrArg CollusionFlag.type hf
  · intro hcount
    exact ⟨3, (mem_analyzeCollusion hab h ⟨rfl, rfl⟩).mpr (.inl ⟨hcount, .inl rfl⟩)⟩

/-- The loser is flagged at the third loss to a player he has not beaten. -/
theorem dumper_raised (before : List (PastMatch U)) (hab : a ≠ b) (h : coSeated a b m = true) :
    (∃ n, dumperFlag b a n ∈ analyzeCollusion before m) ↔
      (lastStaked (before ++ [m])).countP (defeats a b) = 3 ∧ (lastStaked (before ++ [m])).countP (defeats b a) = 0 := by
  have hba : coSeated b a m = true := by rw [coSeated_comm, h]
  constructor
  · rintro ⟨n, hn⟩
    rcases (mem_analyzeCollusion hab.symm hba ⟨rfl, rfl⟩).mp hn with ⟨-, hf | hf⟩ | ⟨-, -, hf | hf⟩ | ⟨hwins, hlosses, -⟩
    · cases congrArg CollusionFlag.type hf
    · cases congrArg CollusionFlag.type hf
    · exact absurd (congrArg CollusionFlag.userId hf).symm hab
    · cases congrArg CollusionFlag.severity hf
    · exact ⟨hwins, hlosses⟩
  · rintro ⟨hwins, hlosses⟩
    exact ⟨3, (mem_analyzeCollusion hab.symm hba ⟨rfl, rfl⟩).mpr (.inr (.inr ⟨hwins, hlosses, .inl rfl⟩))⟩

/-- The winner is flagged along with the loser. -/
theorem beneficiary_raised (before : List (PastMatch U)) (hab : a ≠ b) (h : coSeated a b m = true) :
    (∃ n, beneficiaryFlag a b n ∈ analyzeCollusion before m) ↔
      (lastStaked (before ++ [m])).countP (defeats a b) = 3 ∧ (lastStaked (before ++ [m])).countP (defeats b a) = 0 := by
  constructor
  · rintro ⟨n, hn⟩
    rcases (mem_analyzeCollusion hab h ⟨rfl, rfl⟩).mp hn with ⟨-, hf | hf⟩ | ⟨hwins, hlosses, -⟩ | ⟨-, -, hf | hf⟩
    · cases congrArg CollusionFlag.type hf
    · cases congrArg CollusionFlag.type hf
    · exact ⟨hwins, hlosses⟩
    · cases congrArg CollusionFlag.severity hf
    · exact absurd (congrArg CollusionFlag.userId hf) hab
  · rintro ⟨hwins, hlosses⟩
    exact ⟨3, (mem_analyzeCollusion hab h ⟨rfl, rfl⟩).mpr (.inr (.inl ⟨hwins, hlosses, .inr rfl⟩))⟩

/-- **Collusion flags.** The flags of two opponents are those of a crossing exactly where no
count of theirs is back at its threshold or past it unseen. -/
theorem collusion_flags_iff (before : List (PastMatch U)) (m : PastMatch U) {winner loser : U} (hne : winner ≠ loser)
    (h : coSeated winner loser m = true) :
    FlagsCross before m winner loser ↔ CountsCross before m winner loser := by
  have hseats := countP_recent_le (p := coSeated winner loser) (fun _ => common_of_coSeated) before m collusionWindow
  have hwins := countP_recent_le (p := defeats winner loser) (fun _ hb => common_of_coSeated (coSeated_of_defeats hb)) before m
    collusionWindow
  have hpairing := pairing_raised before hne h
  have hdumper := dumper_raised before hne h
  have hbeneficiary := beneficiary_raised before hne h
  have hpaired : ∀ window : List (PastMatch U), Paired window winner loser ↔ 3 ≤ window.countP (coSeated winner loser) :=
    fun _ => Iff.rfl
  have hdumped : ∀ window : List (PastMatch U), Dumped window winner loser ↔
      3 ≤ window.countP (defeats winner loser) ∧ window.countP (defeats loser winner) = 0 := fun _ => Iff.rfl
  change (lastStaked (before ++ [m])).countP _ ≤ (lastStaked (upToCommon winner loser before)).countP _ + 1 at hseats hwins
  constructor
  · intro hflags
    have h₁ := hpairing.symm.trans hflags.pairing
    have h₂ := hdumper.symm.trans hflags.dumper
    rw [hpaired, hpaired] at h₁
    rw [hdumped, hdumped] at h₂
    exact ⟨by omega, by omega, by omega⟩
  · rintro ⟨h₁, h₂, h₃⟩
    refine ⟨hpairing.trans ?_, hdumper.trans ?_, hbeneficiary.trans ?_⟩
    · rw [hpaired, hpaired]
      omega
    · rw [hdumped, hdumped]
      omega
    · rw [hdumped, hdumped]
      omega

/-- A match of three players that the given one wins. -/
def wonBy (winner : ℕ) : PastMatch ℕ where
  seats := [0, 1, 2].map fun u => { userId := u, won := decide (u = winner) }
  nodup := by
    show ([0, 1, 2] : List ℕ).Nodup
    decide

theorem collusion_flags_third :
    FlagsCross [wonBy 0, wonBy 0] (wonBy 0) 0 1 ∧ dumperFlag 1 0 3 ∈ analyzeCollusion [wonBy 0, wonBy 0] (wonBy 0) :=
  ⟨(collusion_flags_iff [wonBy 0, wonBy 0] (wonBy 0) (by decide) (by decide)).mpr
    ⟨by decide, by decide, by decide⟩, by decide⟩

/-- Player 0 wins three matches, and the third raises the flag of player 1. Player 2 wins the
fourth, and the flag is raised again. -/
theorem flagged_again :
    dumperFlag 1 0 3 ∈ analyzeCollusion [wonBy 0, wonBy 0] (wonBy 0) ∧
      dumperFlag 1 0 3 ∈ analyzeCollusion [wonBy 0, wonBy 0, wonBy 0] (wonBy 2) ∧
      ¬FlagsCross [wonBy 0, wonBy 0, wonBy 0] (wonBy 2) 0 1 := by
  have hagain : dumperFlag 1 0 3 ∈ analyzeCollusion [wonBy 0, wonBy 0, wonBy 0] (wonBy 2) := by decide
  refine ⟨by decide, hagain, fun h => ?_⟩
  have hnew := (h.dumper.mp ⟨3, hagain⟩).2
  exact hnew ⟨by decide, by decide⟩

end Murlan
