import Mathlib.Data.List.Nodup
import Mathlib.Order.Bounds.Basic
import Murlan.Spec.Ranked

/-!
# The ladder loses no result

* `SeasonsOK`: the seasons are numbered in order and only the last may be active, in every run.
* `log`: the results and the carried rows that a call has written.
* `Played`: what a row is after results in some order. `LadderStanding`: a row against the log.
* `ladder_logged`: a write that finds the row its call has read keeps each row to the log.
* `ladder_loses_no_match`: over all runs. `overlapping_match_lost`: a result is lost otherwise.
-/

namespace Murlan

namespace SeatWait

/-- The seat waits for its first row. -/
def creates : SeatWait → Bool
  | .upsertUserSeason _ => true
  | _ => false

end SeatWait

namespace RankedTask

/-- A row is created where there is none yet, and a result is written over the row it was computed from. -/
def Current (s : SeasonStore) (t : RankedTask) (i : ℕ) : Prop :=
  match t.phase with
  | .ensureUserSeasons seasonId seats =>
    ∀ x ∈ seats[i]?, x.2.creates = true → s.getUserSeason x.1.userId seasonId = none
  | .upsertUserSeasons seasonId _ rows =>
    ∀ x ∈ rows[i]?, x.written = false → s.getUserSeason x.row.userId seasonId = some x.row
  | .carryUserSeasons season rows =>
    ∀ x ∈ rows[i]?, x.written = false → s.getUserSeason x.row.userId season.id = none
  | _ => True

instance (s : SeasonStore) (t : RankedTask) (i : ℕ) : Decidable (t.Current s i) := by
  unfold Current
  split
  · infer_instance
  · infer_instance
  · infer_instance
  · infer_instance

end RankedTask

/-! ## The seasons -/

/-- Seasons are numbered in order, and only the last may be active. -/
structure SeasonsOK (s : SeasonStore) : Prop where
  numbers : s.seasons.map (·.number) = (List.range s.seasons.length).map (· + 1)
  active : ∀ x ∈ s.seasons, x.status = .active → x.number = s.seasons.length

namespace SeasonsOK

variable {s : SeasonStore}

theorem nodup (h : SeasonsOK s) : (s.seasons.map (·.number)).Nodup := by
  rw [h.numbers]
  exact List.Nodup.map (fun a b hab => by simpa using hab) List.nodup_range

theorem number_le (h : SeasonsOK s) {x : Season} (hx : x ∈ s.seasons) : 1 ≤ x.number ∧ x.number ≤ s.seasons.length := by
  have hmem : x.number ∈ s.seasons.map (·.number) := List.mem_map_of_mem hx
  rw [h.numbers] at hmem
  obtain ⟨i, hi, hnumber⟩ := List.mem_map.mp hmem
  have hlt := List.mem_range.mp hi
  omega

/-- A number that is not taken is beyond the last. -/
theorem lt_of_free (h : SeasonsOK s) {n : ℕ} (hpos : 1 ≤ n) (hfree : ∀ x ∈ s.seasons, x.number ≠ n) :
    s.seasons.length < n := by
  by_contra hle
  have hmem : n ∈ (List.range s.seasons.length).map (· + 1) :=
    List.mem_map.mpr ⟨n - 1, List.mem_range.mpr (by omega), by omega⟩
  rw [← h.numbers] at hmem
  obtain ⟨x, hx, hn⟩ := List.mem_map.mp hmem
  exact hfree x hx hn

/-- At most one season is active. -/
theorem one_active (h : SeasonsOK s) : (s.seasons.filter (·.status = .active)).length ≤ 1 := by
  have hall : ∀ n ∈ (s.seasons.filter (·.status = .active)).map (·.number), n = s.seasons.length := by
    intro n hn
    obtain ⟨x, hx, rfl⟩ := List.mem_map.mp hn
    obtain ⟨hmem, hactive⟩ := List.mem_filter.mp hx
    exact h.active x hmem (by simpa using hactive)
  have hnodup : ((s.seasons.filter (·.status = .active)).map (·.number)).Nodup :=
    h.nodup.sublist (List.filter_sublist.map _)
  rw [List.eq_replicate_of_mem hall, List.nodup_replicate, List.length_map] at hnodup
  exact hnodup

/-- A season that is closed keeps the order of seasons. -/
theorem archive (h : SeasonsOK s) (seasonId endedAt : ℕ) : SeasonsOK (s.archiveSeason seasonId endedAt) := by
  have hnumber : (s.archiveSeason seasonId endedAt).seasons.map (·.number) = s.seasons.map (·.number) := by
    unfold SeasonStore.archiveSeason
    rw [List.map_map]
    refine List.map_congr_left fun x _ => ?_
    simp only [Function.comp]
    split
    · rfl
    · rfl
  have hlength : (s.archiveSeason seasonId endedAt).seasons.length = s.seasons.length := List.length_map _
  refine ⟨?_, fun y hy hactive => ?_⟩
  · rw [hnumber, hlength]
    exact h.numbers
  · rw [hlength]
    obtain ⟨x, hx, rfl⟩ := List.mem_map.mp hy
    split at hactive
    · cases hactive
    · rename_i hid
      rw [if_neg hid]
      exact h.active x hx hactive

/-- A new season after the last, which is no longer active. -/
theorem create (h : SeasonsOK s) {number : ℕ} (hnumber : number = s.seasons.length + 1)
    (hover : ∀ x ∈ s.seasons, x.status ≠ .active) (name : String) (decayFactor : ℚ) (now : ℕ) :
    SeasonsOK (s.createSeason number name decayFactor now) := by
  have hlength : (s.createSeason number name decayFactor now).seasons.length = s.seasons.length + 1 :=
    List.length_append
  refine ⟨?_, fun x hx hactive => ?_⟩
  · rw [hlength, List.range_succ, List.map_append, ← h.numbers]
    unfold SeasonStore.createSeason
    rw [List.map_append]
    simp [hnumber]
  · rw [hlength]
    rcases List.mem_append.mp hx with hx | hx
    · exact absurd hactive (hover x hx)
    · rw [List.mem_singleton.mp hx]
      exact hnumber

end SeasonsOK

/-- How the seasons of a store come from those before: they stay, archived ones too, and one may be added. -/
structure SeasonsGrow (s s' : SeasonStore) : Prop where
  kept : ∀ x ∈ s.seasons, ∃ y ∈ s'.seasons, y.id = x.id ∧ y.number = x.number
  came : ∀ y ∈ s'.seasons, y.number ≤ s.seasons.length →
    ∃ x ∈ s.seasons, x.number = y.number ∧ (x.status = .archived → y.status = .archived)
  length : s.seasons.length ≤ s'.seasons.length

namespace SeasonsGrow

variable {s s' : SeasonStore}

theorem same (h : s'.seasons = s.seasons) : SeasonsGrow s s' where
  kept x hx := ⟨x, h ▸ hx, rfl, rfl⟩
  came y hy _ := ⟨y, h ▸ hy, rfl, id⟩
  length := by rw [h]

/-- A season that is closed drops nothing. -/
theorem archive (s : SeasonStore) (seasonId endedAt : ℕ) : SeasonsGrow s (s.archiveSeason seasonId endedAt) where
  kept x hx := by
    refine ⟨_, List.mem_map.mpr ⟨x, hx, rfl⟩, ?_⟩
    split
    · exact ⟨rfl, rfl⟩
    · exact ⟨rfl, rfl⟩
  came y hy _ := by
    obtain ⟨x, hx, rfl⟩ := List.mem_map.mp hy
    refine ⟨x, hx, ?_⟩
    split
    · exact ⟨rfl, fun _ => rfl⟩
    · exact ⟨rfl, id⟩
  length := (List.length_map _).ge

/-- A season that opens drops nothing. -/
theorem create (s : SeasonStore) {number : ℕ} (hnumber : s.seasons.length < number) (name : String) (decayFactor : ℚ)
    (now : ℕ) : SeasonsGrow s (s.createSeason number name decayFactor now) where
  kept x hx := ⟨x, List.mem_append_left _ hx, rfl, rfl⟩
  came y hy hle := by
    rcases List.mem_append.mp hy with hy | hy
    · exact ⟨y, hy, rfl, id⟩
    · rw [List.mem_singleton.mp hy] at hle
      exact absurd hle (by simpa using hnumber)
  length := by
    have hlength : (s.createSeason number name decayFactor now).seasons.length = s.seasons.length + 1 :=
      List.length_append
    omega

end SeasonsGrow

/-! ## What a call knows -/

namespace RankedTask

/-- A table that is rated has two players. -/
def Table (op : RankedOp) (n : ℕ) : Prop := 2 ≤ n ∨ ∀ seats, op ≠ .recordMatchResult seats

/-- What a call knows: the season it has read was there, the one it has archived is; and what the rows
it is about to write are made of. -/
def Knows (R : Ranking) (s : SeasonStore) (t : RankedTask) : Prop :=
  match t.phase with
  | .getActiveSeason seats => Table t.op seats.length
  | .ensureUserSeasons seasonId seats => Table t.op seats.length ∧
      ∀ x ∈ seats, ∀ fresh, x.2 = .upsertUserSeason fresh → ∃ now, fresh = UserSeason.fresh x.1.userId seasonId now
  | .upsertUserSeasons _ _ rows => ∀ x ∈ rows, x.delta.userId = x.row.userId ∧
      x.delta.newRating = R.calculateNewRating x.row.rating x.delta.opponents x.delta.won
  | .archiveSeason prev _ _ _ => ∃ x ∈ s.seasons, x.id = prev.id ∧ x.number = prev.number
  | .createSeason prev _ _ _ => ∀ p ∈ prev, p.number ≤ s.seasons.length ∧
      ∀ x ∈ s.seasons, x.number = p.number → x.status = .archived
  | .carryUserSeasons season rows => ∀ x ∈ rows, x.row.seasonId = season.id ∧ x.row.games = 0 ∧ x.row.wins = 0 ∧
      x.row.peakRating = x.row.rating
  | _ => True

variable {R : Ranking} {s s' : SeasonStore} {t : RankedTask}

/-- What a call knows stays true as seasons grow. -/
theorem Knows.grow (h : t.Knows R s) (hs : SeasonsGrow s s') : t.Knows R s' := by
  obtain ⟨op, phase⟩ := t
  cases phase with
  | archiveSeason prev name decayFactor now =>
    obtain ⟨x, hx, hid, hnumber⟩ := h
    obtain ⟨y, hy, hyid, hynumber⟩ := hs.kept x hx
    exact ⟨y, hy, hyid.trans hid, hynumber.trans hnumber⟩
  | createSeason prev name decayFactor now =>
    intro p hp
    obtain ⟨hle, hover⟩ := h p hp
    refine ⟨hle.trans hs.length, fun y hy hnumber => ?_⟩
    obtain ⟨x, hx, hxy, hkeeps⟩ := hs.came y hy (hnumber.le.trans hle)
    exact hkeeps (hover x hx (hxy.trans hnumber))
  | _ => exact h

/-! ## The rows that are rated -/

/-- Every seat is rated by the formula, from its own row. -/
theorem rateSeats_spec {op : RankedOp} {seats : List (RankedSeat × UserSeason)} (h : Table op seats.length) :
    ∀ x ∈ rateSeats R op seats, x.delta.userId = x.row.userId ∧
      x.delta.newRating = R.calculateNewRating x.row.rating x.delta.opponents x.delta.won := by
  intro x hx
  cases op with
  | recordMatchResult ss =>
    have htwo : ¬seats.length < 2 := by
      rcases h with h | h
      · omega
      · exact absurd rfl (h ss)
    simp only [rateSeats, applyMatchRatings, if_neg htwo, List.map_map, List.length_map] at hx
    rw [List.zipWith_map_right, List.zipWith_self] at hx
    obtain ⟨y, -, rfl⟩ := List.mem_map.mp hx
    exact ⟨rfl, rfl⟩
  | recordSoloVsBot userId won =>
    obtain ⟨y, -, rfl⟩ := List.mem_map.mp hx
    exact ⟨rfl, rfl⟩
  | createSeason name decayFactor =>
    obtain ⟨y, -, rfl⟩ := List.mem_map.mp hx
    exact ⟨rfl, rfl⟩

/-- With every row there, the seats can be rated. -/
theorem knows_ensured {seasonId : ℕ} {seats : List (RankedSeat × SeatWait)} (htable : Table t.op seats.length)
    (hfresh : ∀ x ∈ seats, ∀ fresh, x.2 = .upsertUserSeason fresh → ∃ now, fresh = UserSeason.fresh x.1.userId seasonId now) :
    (t.ensured R s seasonId seats).Knows R s' := by
  unfold ensured
  split
  · rename_i hall
    have hlength : (seats.filterMap seatRow).length = seats.length := by
      refine List.filterMap_length_eq_length.mpr ?_
      simpa using hall
    exact rateSeats_spec (hlength ▸ htable)
  · exact ⟨htable, hfresh⟩

theorem knows_rated {seasonId now : ℕ} {rows : List RatedRow} (h : ∀ x ∈ rows, x.delta.userId = x.row.userId ∧
    x.delta.newRating = R.calculateNewRating x.row.rating x.delta.opponents x.delta.won) :
    (t.rated seasonId now rows).Knows R s' := by
  unfold rated
  split
  · trivial
  · exact h

theorem knows_carried {season : Season} {rows : List CarriedRow} (h : ∀ x ∈ rows, x.row.seasonId = season.id ∧
    x.row.games = 0 ∧ x.row.wins = 0 ∧ x.row.peakRating = x.row.rating) : (t.carried season rows).Knows R s' := by
  unfold carried
  split
  · trivial
  · exact h

/-- A call enters knowing nothing. -/
theorem knows_enter (op : RankedOp) (now : ℕ) : (enter op now).Knows R s := by
  cases op with
  | recordMatchResult seats =>
    simp only [enter]
    split
    · trivial
    · rename_i hrated
      rw [not_or] at hrated
      exact .inl (by omega)
  | recordSoloVsBot userId won => exact .inr fun _ h => by cases h
  | createSeason name decayFactor => trivial

end RankedTask

section Steps

variable {R : Ranking} {s s' : SeasonStore} {t t' : RankedTask}

/-- What each step keeps of the seasons, and what the call knows after it. -/
structure RankedStepped (R : Ranking) (s s' : SeasonStore) (t' : RankedTask) : Prop where
  ok : SeasonsOK s'
  grow : SeasonsGrow s s'
  knows : t'.Knows R s'

theorem SeasonsOK.of_eq (hs : SeasonsOK s) (h : s'.seasons = s.seasons) : SeasonsOK s' where
  numbers := by
    rw [h]
    exact hs.numbers
  active := by
    rw [h]
    exact hs.active

/-- A step that leaves the seasons. -/
theorem ranked_rows (hs : SeasonsOK s) (h : s'.seasons = s.seasons) (hknows : t'.Knows R s') : RankedStepped R s s' t' :=
  ⟨hs.of_eq h, .same h, hknows⟩

/-- A row found or written keeps the invariant. -/
theorem ranked_ensure (hs : SeasonsOK s) {seasonId : ℕ} {seats : List (RankedSeat × SeatWait)} (i : ℕ)
    (ht : t.Knows R s) (hphase : t.phase = .ensureUserSeasons seasonId seats) :
    RankedStepped R s (t.ensureUserSeason R s seasonId seats i seats[i]?).2
      (t.ensureUserSeason R s seasonId seats i seats[i]?).1 := by
  have hknown := ht
  unfold RankedTask.Knows at hknown
  rw [hphase] at hknown
  obtain ⟨htable, hfresh⟩ := hknown
  -- one of the players goes on
  have hset : ∀ (seat : RankedSeat) (wait : SeatWait),
      (∀ fresh, wait = .upsertUserSeason fresh → ∃ now, fresh = UserSeason.fresh seat.userId seasonId now) →
      ∀ x ∈ seats.set i (seat, wait), ∀ fresh, x.2 = .upsertUserSeason fresh →
        ∃ now, fresh = UserSeason.fresh x.1.userId seasonId now := by
    intro seat wait hwait x hx
    rcases List.mem_or_eq_of_mem_set hx with hx | rfl
    · exact hfresh x hx
    · exact hwait
  have hlength : ∀ y, RankedTask.Table t.op (seats.set i y).length := by
    intro y
    rw [List.length_set]
    exact htable
  cases hseat : seats[i]? with
  | none => exact ranked_rows hs rfl ht
  | some x =>
    obtain ⟨seat, wait⟩ := x
    cases wait with
    | getUserSeason =>
      refine ranked_rows hs rfl (RankedTask.knows_ensured (hlength _) (hset seat _ fun fresh h => ?_))
      cases hrow : s.getUserSeason seat.userId seasonId with
      | none =>
        rw [hrow] at h
        injection h with h
        exact ⟨s.now, h.symm⟩
      | some row =>
        rw [hrow] at h
        cases h
    | upsertUserSeason fresh =>
      exact ranked_rows hs rfl (RankedTask.knows_ensured (hlength _) (hset seat _ fun _ h => by cases h))
    | ensured row => exact ranked_rows hs rfl ht

/-- A rating written keeps the invariant. -/
theorem ranked_upsert (hs : SeasonsOK s) {seasonId now : ℕ} {rows : List RatedRow} (i : ℕ) (ht : t.Knows R s)
    (hphase : t.phase = .upsertUserSeasons seasonId now rows) :
    RankedStepped R s (t.upsertRated s seasonId now rows i rows[i]?).2 (t.upsertRated s seasonId now rows i rows[i]?).1 := by
  have hknown := ht
  unfold RankedTask.Knows at hknown
  rw [hphase] at hknown
  cases hrow : rows[i]? with
  | none => exact ranked_rows hs rfl ht
  | some x =>
    simp only [RankedTask.upsertRated]
    split
    · exact ranked_rows hs rfl ht
    · refine ranked_rows hs rfl (RankedTask.knows_rated fun y hy => ?_)
      rcases List.mem_or_eq_of_mem_set hy with hy | rfl
      · exact hknown y hy
      · exact hknown x (List.mem_of_getElem? hrow)

/-- A carried row keeps the invariant. -/
theorem ranked_carry (hs : SeasonsOK s) {season : Season} {rows : List CarriedRow} (i : ℕ) (ht : t.Knows R s)
    (hphase : t.phase = .carryUserSeasons season rows) :
    RankedStepped R s (t.upsertCarried s season rows i rows[i]?).2 (t.upsertCarried s season rows i rows[i]?).1 := by
  have hknown := ht
  unfold RankedTask.Knows at hknown
  rw [hphase] at hknown
  cases hrow : rows[i]? with
  | none => exact ranked_rows hs rfl ht
  | some x =>
    simp only [RankedTask.upsertCarried]
    split
    · exact ranked_rows hs rfl ht
    · refine ranked_rows hs rfl (RankedTask.knows_carried fun y hy => ?_)
      rcases List.mem_or_eq_of_mem_set hy with hy | rfl
      · exact hknown y hy
      · exact hknown x (List.mem_of_getElem? hrow)

/-- The new season is the one after the last, which the call has archived. -/
theorem ranked_create (hs : SeasonsOK s) {prev : Option Season} {name : String} {decayFactor : ℚ} {now : ℕ}
    (ht : t.Knows R s) (hphase : t.phase = .createSeason prev name decayFactor now)
    (hfree : ∀ x ∈ s.seasons, x.number ≠ RankedTask.nextNumber prev) (season : Season) :
    RankedStepped R s (s.createSeason (RankedTask.nextNumber prev) name decayFactor now) (t.opened season now prev) := by
  have hknown := ht
  unfold RankedTask.Knows at hknown
  rw [hphase] at hknown
  have hlt : s.seasons.length < RankedTask.nextNumber prev := by
    refine hs.lt_of_free ?_ hfree
    cases prev with
    | none => exact Nat.le_refl 1
    | some p => exact Nat.le_add_left 1 p.number
  have hlast : RankedTask.nextNumber prev = s.seasons.length + 1 ∧ ∀ x ∈ s.seasons, x.status ≠ .active := by
    cases prev with
    | none =>
      have hzero : s.seasons.length = 0 := Nat.lt_one_iff.mp hlt
      rw [List.eq_nil_of_length_eq_zero hzero]
      exact ⟨rfl, fun x hx => by cases hx⟩
    | some p =>
      obtain ⟨hle, hover⟩ := hknown p rfl
      have hnumber : p.number = s.seasons.length := by
        have hsucc : s.seasons.length < p.number + 1 := hlt
        omega
      refine ⟨congrArg (· + 1) hnumber, fun x hx hactive => ?_⟩
      have harchived := hover x hx ((hs.active x hx hactive).trans hnumber.symm)
      rw [hactive] at harchived
      cases harchived
  refine ⟨hs.create hlast.1 hlast.2 name decayFactor now, .create s hlt name decayFactor now, ?_⟩
  cases prev with
  | none => trivial
  | some p => trivial

/-- Every step of a call keeps the invariant. -/
theorem ranked_step (hs : SeasonsOK s) (ht : t.Knows R s) (i : ℕ) :
    RankedStepped R s (t.resume R s i).2 (t.resume R s i).1 := by
  obtain ⟨op, phase⟩ := t
  cases phase with
  | getActiveSeason seats =>
    simp only [RankedTask.resume]
    cases s.getActiveSeason with
    | none => exact ranked_rows hs rfl trivial
    | some season =>
      refine ranked_rows hs rfl (RankedTask.knows_ensured ?_ fun x hx fresh hfresh => ?_)
      · rw [List.length_map]
        exact ht
      · obtain ⟨seat, -, rfl⟩ := List.mem_map.mp hx
        cases hfresh
  | ensureUserSeasons seasonId seats => exact ranked_ensure hs i ht rfl
  | upsertUserSeasons seasonId now rows => exact ranked_upsert hs i ht rfl
  | getPrevious name decayFactor now =>
    simp only [RankedTask.resume]
    cases hprev : s.getActiveSeason with
    | none => exact ranked_rows hs rfl fun p hp => by cases hp
    | some prev =>
      have hmem : prev ∈ s.seasons := (List.mem_filter.mp (List.argmax_mem hprev)).1
      exact ranked_rows hs rfl ⟨prev, hmem, rfl, rfl⟩
  | archiveSeason prev name decayFactor now =>
    obtain ⟨x, hx, hid, hnumber⟩ := ht
    refine ⟨hs.archive prev.id now, .archive s prev.id now, fun p hp => ?_⟩
    obtain rfl := Option.some.inj (show some prev = some p from hp)
    have hlength : (s.archiveSeason prev.id now).seasons.length = s.seasons.length := List.length_map _
    refine ⟨?_, fun y hy hynumber => ?_⟩
    · show prev.number ≤ (s.archiveSeason prev.id now).seasons.length
      rw [hlength, ← hnumber]
      exact (hs.number_le hx).2
    · obtain ⟨z, hz, rfl⟩ := List.mem_map.mp hy
      -- the season of that number is the one that was archived
      have hzx : z = x := by
        refine List.inj_on_of_nodup_map hs.nodup hz hx ?_
        split at hynumber
        · exact hynumber.trans hnumber.symm
        · exact hynumber.trans hnumber.symm
      rw [hzx, if_pos hid]
  | createSeason prev name decayFactor now =>
    simp only [RankedTask.resume]
    split
    · exact ranked_rows hs rfl trivial
    · rename_i hfree
      exact ranked_create hs ht rfl (by simpa using hfree) _
  | grantSeasonBadges prev season now => exact ranked_rows hs rfl trivial
  | listUserSeasons prev season now =>
    refine ranked_rows hs rfl (RankedTask.knows_carried fun x hx => ?_)
    obtain ⟨row, -, rfl⟩ := List.mem_map.mp hx
    exact ⟨rfl, rfl, rfl, rfl⟩
  | carryUserSeasons season rows => exact ranked_carry hs i ht rfl
  | ended r => exact ranked_rows hs rfl ht

/-- **The seasons.** Each step keeps them in order, and what every call knows. -/
theorem season_rules (R : Ranking) : Crew.Steady (rankedService R) (fun _ _ _ => True) SeasonsOK
    (fun s t => RankedTask.Knows R s t) where
  entered s op _ := RankedTask.knows_enter op s.now
  resumed _ _ i hs ht _ := ⟨(ranked_step hs ht i).ok, (ranked_step hs ht i).knows⟩
  others _ _ i _ hs ht _ hu := hu.grow (ranked_step hs ht i).grow
  drifted _ _ hs := hs.of_eq rfl
  drifted_task _ _ _ _ hu := hu.grow (.same rfl)

end Steps

/-! ## Results one after the other -/

/-- The rating after results in this order. -/
def ratingAfter (R : Ranking) (start : ℤ) (results : List RatingDelta) : ℤ :=
  results.foldl (fun r d => R.calculateNewRating r d.opponents d.won) start

/-- The row counts the results, its rating is what they make of the first, and its peak the greatest on the way. -/
structure Played (R : Ranking) (start : ℤ) (results : List RatingDelta) (row : UserSeason) : Prop where
  games : row.games = results.length
  wins : row.wins = results.countP (·.won)
  rating : row.rating = ratingAfter R start results
  peak : IsGreatest {r | ∃ before, before <+: results ∧ r = ratingAfter R start before} row.peakRating

namespace Played

variable {R : Ranking} {start : ℤ} {results : List RatingDelta} {row : UserSeason}

/-- A fresh row has played nothing. -/
theorem nil (hgames : row.games = 0) (hwins : row.wins = 0) (hrating : row.rating = start) (hpeak : row.peakRating = start) :
    Played R start [] row where
  games := hgames
  wins := hwins
  rating := hrating
  peak := by
    refine ⟨⟨[], List.prefix_rfl, hpeak⟩, ?_⟩
    rintro r ⟨before, hbefore, rfl⟩
    rw [List.prefix_nil.mp hbefore, hpeak]
    exact le_refl _

/-- One more match is one more result. -/
theorem snoc (h : Played R start results row) {d : RatingDelta}
    (hd : d.newRating = R.calculateNewRating row.rating d.opponents d.won) (seasonId now : ℕ) :
    Played R start (results ++ [d]) (row.rate seasonId now d) := by
  have hafter : ratingAfter R start (results ++ [d]) = d.newRating := by
    rw [hd, h.rating]
    unfold ratingAfter
    rw [List.foldl_append]
    rfl
  refine ⟨?_, ?_, hafter.symm, ⟨?_, ?_⟩⟩
  · rw [List.length_append, ← h.games]
    rfl
  · rw [List.countP_append, ← h.wins, List.countP_singleton]
    rfl
  · -- the greatest is the new rating, or the greatest before
    show ∃ before, before <+: results ++ [d] ∧ max row.peakRating d.newRating = ratingAfter R start before
    rcases le_total row.peakRating d.newRating with hle | hle
    · rw [max_eq_right hle]
      exact ⟨results ++ [d], List.prefix_rfl, hafter.symm⟩
    · rw [max_eq_left hle]
      obtain ⟨before, hbefore, hr⟩ := h.peak.1
      exact ⟨before, hbefore.trans (List.prefix_append _ _), hr⟩
  · rintro r ⟨before, hbefore, rfl⟩
    rcases List.prefix_concat_iff.mp hbefore with rfl | hold
    · rw [hafter]
      exact le_max_right _ _
    · exact (h.peak.2 ⟨before, hold, rfl⟩).trans (le_max_left _ _)

end Played

/-! ## The log -/

/-- A row that was carried into a season, or a result that was recorded in one. -/
inductive LadderEntry where
  | carried (row : UserSeason)
  | result (seasonId : ℕ) (delta : RatingDelta)
  deriving DecidableEq

namespace LadderEntry

variable (userId seasonId : ℕ)

/-- The row carried over to a player's season. -/
def carry? : LadderEntry → Option UserSeason
  | .carried row => if row.userId = userId ∧ row.seasonId = seasonId then some row else none
  | .result _ _ => none

/-- The rating a match gave a player. -/
def result? : LadderEntry → Option RatingDelta
  | .carried _ => none
  | .result s d => if d.userId = userId ∧ s = seasonId then some d else none

end LadderEntry

/-- What a call has written; once it has ended, what it has answered. -/
def RankedTask.log (t : RankedTask) : List LadderEntry :=
  match t.phase with
  | .upsertUserSeasons seasonId _ rows => rows.flatMap fun x => if x.written then [.result seasonId x.delta] else []
  | .carryUserSeasons _ rows => rows.flatMap fun x => if x.written then [.carried x.row] else []
  | .ended (.rated seasonId deltas) => deltas.map (.result seasonId)
  | .ended (.opened _ rows) => rows.map .carried
  | _ => []

/-- The rating a player starts a season with: that of the row carried for him, if there is one. -/
def startingRating (carried : List UserSeason) : ℤ := carried.head?.elim DEFAULT_RATING (·.rating)

/-- A row of the ladder against what was carried and recorded for its player and season. -/
def LadderStanding (R : Ranking) (carried : List UserSeason) (results : List RatingDelta) : Option UserSeason → Prop
  | none => carried = [] ∧ results = []
  | some row => carried.length ≤ 1 ∧
      ∃ order, order.Perm results ∧ Played R (startingRating carried) order row

/-- Every player's row is what the log says it is. -/
def LadderLaw (R : Ranking) (s : SeasonStore) (log : List LadderEntry) : Prop :=
  ∀ userId seasonId, LadderStanding R (log.filterMap (LadderEntry.carry? userId seasonId))
    (log.filterMap (LadderEntry.result? userId seasonId)) (s.getUserSeason userId seasonId)

namespace SeasonStore

variable {s : SeasonStore} {row : UserSeason}

/-- The row that is written is found. -/
theorem getUserSeason_self (s : SeasonStore) (row : UserSeason) :
    (s.upsertUserSeason row).getUserSeason row.userId row.seasonId = some row := by
  unfold getUserSeason upsertUserSeason
  split
  · rename_i hany
    obtain ⟨x, hx, hkey⟩ := List.any_eq_true.mp hany
    cases hfind : (s.userSeasons.map fun x => if x.userId = row.userId ∧ x.seasonId = row.seasonId then row else x).find?
        fun x => x.userId = row.userId ∧ x.seasonId = row.seasonId with
    | none =>
      have hnone := List.find?_eq_none.mp hfind row
        (List.mem_map.mpr ⟨x, hx, if_pos (by simpa using hkey)⟩)
      simp at hnone
    | some y =>
      obtain ⟨z, -, hz⟩ := List.mem_map.mp (List.mem_of_find?_eq_some hfind)
      have hykey : y.userId = row.userId ∧ y.seasonId = row.seasonId := by simpa using List.find?_some hfind
      split at hz
      · rw [hz]
      · rename_i hne
        rw [hz] at hne
        exact absurd hykey hne
  · rename_i hany
    have hnone : s.userSeasons.find? (fun x => x.userId = row.userId ∧ x.seasonId = row.seasonId) = none := by
      refine List.find?_eq_none.mpr fun x hx hkey => hany (List.any_eq_true.mpr ⟨x, hx, hkey⟩)
    simp only
    rw [List.find?_append, hnone]
    simp

/-- The others are found as they were. -/
theorem getUserSeason_ne (s : SeasonStore) (row : UserSeason) {userId seasonId : ℕ}
    (h : ¬(row.userId = userId ∧ row.seasonId = seasonId)) :
    (s.upsertUserSeason row).getUserSeason userId seasonId = s.getUserSeason userId seasonId := by
  have hother : ∀ x : UserSeason, x.userId = row.userId ∧ x.seasonId = row.seasonId →
      ¬(x.userId = userId ∧ x.seasonId = seasonId) := by
    rintro x ⟨hu, hs⟩ ⟨hxu, hxs⟩
    exact h ⟨hu.symm.trans hxu, hs.symm.trans hxs⟩
  unfold getUserSeason upsertUserSeason
  split
  · induction s.userSeasons with
    | nil => rfl
    | cons x xs ih =>
      by_cases hkey : x.userId = row.userId ∧ x.seasonId = row.seasonId
      · have hx := hother x hkey
        rw [List.map_cons, if_pos hkey, List.find?_cons_of_neg (by simpa using h), List.find?_cons_of_neg (by simpa using hx)]
        exact ih
      · rw [List.map_cons, if_neg hkey, List.find?_cons, List.find?_cons, ih]
  · simp only
    rw [List.find?_append, List.find?_singleton, if_neg (by simpa using h)]
    simp

end SeasonStore

namespace LadderLaw

variable {R : Ranking} {s s' : SeasonStore} {log : List LadderEntry}

/-- The law does not depend on the order of the log. -/
theorem perm {xs ys : List LadderEntry} (hperm : xs.Perm ys) (h : LadderLaw R s xs) : LadderLaw R s ys := by
  intro userId seasonId
  have hold := h userId seasonId
  have hcarried := hperm.filterMap (LadderEntry.carry? userId seasonId)
  have hresults := hperm.filterMap (LadderEntry.result? userId seasonId)
  cases hrow : s.getUserSeason userId seasonId with
  | none =>
    rw [hrow] at hold
    obtain ⟨hnone, hnoResult⟩ := hold
    rw [hnone] at hcarried
    rw [hnoResult] at hresults
    exact ⟨hcarried.symm.eq_nil, hresults.symm.eq_nil⟩
  | some row =>
    rw [hrow] at hold
    obtain ⟨hone, order, horder, hplayed⟩ := hold
    -- at most one row was carried
    have hsame : xs.filterMap (LadderEntry.carry? userId seasonId) = ys.filterMap (LadderEntry.carry? userId seasonId) := by
      cases hlist : xs.filterMap (LadderEntry.carry? userId seasonId) with
      | nil =>
        rw [hlist] at hcarried
        exact hcarried.symm.eq_nil.symm
      | cons x rest =>
        rw [hlist, List.length_cons] at hone
        have hrest : rest = [] := List.eq_nil_of_length_eq_zero (by omega)
        rw [hlist, hrest] at hcarried
        rw [hrest]
        exact List.singleton_perm.mp hcarried
    rw [← hsame]
    exact ⟨hone, order, horder.trans hresults, hplayed⟩

/-- A step that writes no row of the ladder. -/
theorem same (h : LadderLaw R s log) (hrows : s'.userSeasons = s.userSeasons) : LadderLaw R s' log := by
  intro userId seasonId
  have hget : s'.getUserSeason userId seasonId = s.getUserSeason userId seasonId := by
    unfold SeasonStore.getUserSeason
    rw [hrows]
  rw [hget]
  exact h userId seasonId

/-- A player of the season gets his first row. -/
theorem fresh (h : LadderLaw R s log) {userId seasonId now : ℕ} (hnone : s.getUserSeason userId seasonId = none) :
    LadderLaw R (s.upsertUserSeason (UserSeason.fresh userId seasonId now)) log := by
  intro u x
  by_cases hkey : userId = u ∧ seasonId = x
  · obtain ⟨rfl, rfl⟩ := hkey
    have hold := h userId seasonId
    rw [hnone] at hold
    obtain ⟨hcarried, hresults⟩ := hold
    have hget : (s.upsertUserSeason (UserSeason.fresh userId seasonId now)).getUserSeason userId seasonId =
        some (UserSeason.fresh userId seasonId now) := SeasonStore.getUserSeason_self s _
    rw [hget, hcarried, hresults]
    exact ⟨Nat.zero_le 1, [], List.Perm.refl [], Played.nil rfl rfl rfl rfl⟩
  · rw [SeasonStore.getUserSeason_ne s _ hkey]
    exact h u x

/-- A row is carried into a season its player has none in. -/
theorem carry (h : LadderLaw R s log) {row : UserSeason} (hnone : s.getUserSeason row.userId row.seasonId = none)
    (hgames : row.games = 0) (hwins : row.wins = 0) (hpeak : row.peakRating = row.rating) :
    LadderLaw R (s.upsertUserSeason row) ([.carried row] ++ log) := by
  intro u x
  rw [List.filterMap_append, List.filterMap_append]
  by_cases hkey : row.userId = u ∧ row.seasonId = x
  · obtain ⟨rfl, rfl⟩ := hkey
    have hold := h row.userId row.seasonId
    rw [hnone] at hold
    obtain ⟨hcarried, hresults⟩ := hold
    rw [SeasonStore.getUserSeason_self, hcarried, hresults]
    have hone : [LadderEntry.carried row].filterMap (LadderEntry.carry? row.userId row.seasonId) = [row] := by
      simp [LadderEntry.carry?]
    rw [hone]
    exact ⟨Nat.le_refl 1, [], List.Perm.refl [], Played.nil hgames hwins rfl hpeak⟩
  · rw [SeasonStore.getUserSeason_ne s _ hkey]
    have hother : [LadderEntry.carried row].filterMap (LadderEntry.carry? u x) = [] := by
      simp [LadderEntry.carry?, hkey]
    rw [hother]
    exact h u x

/-- A result is written over the row it was computed from. -/
theorem result (h : LadderLaw R s log) {row : UserSeason} {seasonId now : ℕ} {d : RatingDelta}
    (hrow : s.getUserSeason row.userId seasonId = some row) (huser : d.userId = row.userId)
    (hd : d.newRating = R.calculateNewRating row.rating d.opponents d.won) :
    LadderLaw R (s.upsertUserSeason (row.rate seasonId now d)) ([.result seasonId d] ++ log) := by
  intro u x
  rw [List.filterMap_append, List.filterMap_append]
  by_cases hkey : row.userId = u ∧ seasonId = x
  · obtain ⟨rfl, rfl⟩ := hkey
    have hold := h row.userId seasonId
    rw [hrow] at hold
    obtain ⟨hone, order, horder, hplayed⟩ := hold
    have hget : (s.upsertUserSeason (row.rate seasonId now d)).getUserSeason row.userId seasonId =
        some (row.rate seasonId now d) := SeasonStore.getUserSeason_self s _
    rw [hget]
    have hnew : [LadderEntry.result seasonId d].filterMap (LadderEntry.result? row.userId seasonId) = [d] := by
      simp [LadderEntry.result?, huser]
    rw [hnew]
    refine ⟨hone, order ++ [d], ?_, hplayed.snoc hd seasonId now⟩
    exact (horder.append_right [d]).trans List.perm_append_comm
  · rw [SeasonStore.getUserSeason_ne s (row.rate seasonId now d) hkey]
    have hother : [LadderEntry.result seasonId d].filterMap (LadderEntry.result? u x) = [] := by
      rw [← huser] at hkey
      simp [LadderEntry.result?, hkey]
    rw [hother]
    exact h u x

end LadderLaw

namespace RankedTask

variable {R : Ranking} {s : SeasonStore} {t : RankedTask}

/-- Nothing is logged before the ratings are written. -/
theorem log_ensured (seasonId : ℕ) (seats : List (RankedSeat × SeatWait)) : (t.ensured R s seasonId seats).log = [] := by
  have hrows : ∀ (op : RankedOp) (rows : List (RankedSeat × UserSeason)), ∀ x ∈ rateSeats R op rows, x.written = false := by
    intro op rows x hx
    cases op with
    | recordMatchResult ss =>
      obtain ⟨i, hi, rfl⟩ := List.mem_iff_getElem.mp hx
      simp [rateSeats]
    | recordSoloVsBot userId won =>
      obtain ⟨y, -, rfl⟩ := List.mem_map.mp hx
      rfl
    | createSeason name decayFactor =>
      obtain ⟨y, -, rfl⟩ := List.mem_map.mp hx
      rfl
  unfold ensured
  split
  · refine List.flatMap_eq_nil_iff.mpr fun x hx => ?_
    rw [hrows _ _ x hx]
    rfl
  · rfl

/-- Once all are written, all are logged. -/
theorem flatMap_written {α : Type} {p : α → Bool} {g : α → LadderEntry} :
    ∀ {rows : List α}, rows.all p = true → rows.flatMap (fun x => if p x then [g x] else []) = rows.map g := by
  intro rows
  induction rows with
  | nil => exact fun _ => rfl
  | cons x xs ih =>
    intro hall
    rw [List.all_cons, Bool.and_eq_true] at hall
    rw [List.flatMap_cons, List.map_cons, if_pos hall.1, ih hall.2]
    rfl

/-- What is written is logged. -/
theorem log_rated (seasonId now : ℕ) (rows : List RatedRow) :
    (t.rated seasonId now rows).log = rows.flatMap fun x => if x.written then [.result seasonId x.delta] else [] := by
  unfold rated
  split
  · rename_i hall
    rw [flatMap_written hall]
    exact List.map_map
  · rfl

/-- What is carried is logged. -/
theorem log_carried (season : Season) (rows : List CarriedRow) :
    (t.carried season rows).log = rows.flatMap fun x => if x.written then [.carried x.row] else [] := by
  unfold carried
  split
  · rename_i hall
    rw [flatMap_written hall]
    exact List.map_map
  · rfl

end RankedTask

/-! ## What a step adds to the log -/

section Log

variable {R : Ranking} {s s' : SeasonStore} {t t' : RankedTask} {i : ℕ}

/-- The call has written `new`, and the rows are kept to the log with it. -/
def Adds (R : Ranking) (s s' : SeasonStore) (t t' : RankedTask) : Prop :=
  ∃ new, t'.log.Perm (new ++ t.log) ∧ ∀ log, LadderLaw R s log → LadderLaw R s' (new ++ log)

theorem adds_none (hlog : t'.log = t.log) (hrows : s'.userSeasons = s.userSeasons) : Adds R s s' t t' :=
  ⟨[], by rw [hlog]; exact List.Perm.refl _, fun _ h => h.same hrows⟩

/-- The first rows add nothing to the log. -/
theorem adds_ensure {seasonId : ℕ} {seats : List (RankedSeat × SeatWait)} (ht : t.Knows R s) (hok : t.Current s i)
    (hphase : t.phase = .ensureUserSeasons seasonId seats) :
    Adds R s (t.ensureUserSeason R s seasonId seats i seats[i]?).2 t (t.ensureUserSeason R s seasonId seats i seats[i]?).1 := by
  have hnil : t.log = [] := by
    unfold RankedTask.log
    rw [hphase]
  unfold RankedTask.Knows at ht
  rw [hphase] at ht
  unfold RankedTask.Current at hok
  rw [hphase] at hok
  cases hseat : seats[i]? with
  | none => exact adds_none rfl rfl
  | some x =>
    obtain ⟨seat, wait⟩ := x
    cases wait with
    | getUserSeason => exact adds_none ((RankedTask.log_ensured _ _).trans hnil.symm) rfl
    | upsertUserSeason fresh =>
      have hfree : s.getUserSeason seat.userId seasonId = none := hok _ (by rw [hseat]; rfl) rfl
      obtain ⟨now, hfresh⟩ := ht.2 _ (List.mem_of_getElem? hseat) fresh rfl
      replace hfresh : fresh = UserSeason.fresh seat.userId seasonId now := hfresh
      subst hfresh
      refine ⟨[], ?_, fun log h => h.fresh hfree⟩
      simp only [RankedTask.ensureUserSeason]
      rw [RankedTask.log_ensured, hnil]
      exact List.Perm.refl _
    | ensured row => exact adds_none rfl rfl

/-- A rating written is added to the log. -/
theorem adds_upsert {seasonId now : ℕ} {rows : List RatedRow} (ht : t.Knows R s) (hok : t.Current s i)
    (hphase : t.phase = .upsertUserSeasons seasonId now rows) :
    Adds R s (t.upsertRated s seasonId now rows i rows[i]?).2 t (t.upsertRated s seasonId now rows i rows[i]?).1 := by
  have hlog : t.log = rows.flatMap fun x => if x.written then [.result seasonId x.delta] else [] := by
    unfold RankedTask.log
    rw [hphase]
  unfold RankedTask.Knows at ht
  rw [hphase] at ht
  unfold RankedTask.Current at hok
  rw [hphase] at hok
  cases hrow : rows[i]? with
  | none => exact adds_none rfl rfl
  | some x =>
    cases hwritten : x.written with
    | true =>
      simp only [RankedTask.upsertRated, hwritten]
      exact adds_none rfl rfl
    | false =>
      simp only [RankedTask.upsertRated, hwritten]
      obtain ⟨huser, hd⟩ := ht x (List.mem_of_getElem? hrow)
      have hread : s.getUserSeason x.row.userId seasonId = some x.row := hok x (by rw [hrow]; rfl) hwritten
      refine ⟨[.result seasonId x.delta], ?_, fun log h => h.result hread huser hd⟩
      simp only [Bool.false_eq_true, if_false]
      rw [RankedTask.log_rated, hlog]
      refine Crew.flatMap_set_perm ?_ hrow
      simp [hwritten]

/-- A row carried is added to the log. -/
theorem adds_carry {season : Season} {rows : List CarriedRow} (ht : t.Knows R s) (hok : t.Current s i)
    (hphase : t.phase = .carryUserSeasons season rows) :
    Adds R s (t.upsertCarried s season rows i rows[i]?).2 t (t.upsertCarried s season rows i rows[i]?).1 := by
  have hlog : t.log = rows.flatMap fun x => if x.written then [.carried x.row] else [] := by
    unfold RankedTask.log
    rw [hphase]
  unfold RankedTask.Knows at ht
  rw [hphase] at ht
  unfold RankedTask.Current at hok
  rw [hphase] at hok
  cases hrow : rows[i]? with
  | none => exact adds_none rfl rfl
  | some x =>
    cases hwritten : x.written with
    | true =>
      simp only [RankedTask.upsertCarried, hwritten]
      exact adds_none rfl rfl
    | false =>
      simp only [RankedTask.upsertCarried, hwritten]
      obtain ⟨hseason, hgames, hwins, hpeak⟩ := ht x (List.mem_of_getElem? hrow)
      have hfree : s.getUserSeason x.row.userId x.row.seasonId = none := by
        rw [hseason]
        exact hok x (by rw [hrow]; rfl) hwritten
      refine ⟨[.carried x.row], ?_, fun log h => h.carry hfree hgames hwins hpeak⟩
      simp only [Bool.false_eq_true, if_false]
      rw [RankedTask.log_carried, hlog]
      refine Crew.flatMap_set_perm ?_ hrow
      simp [hwritten]

/-- Every step adds what it logs. -/
theorem adds_step (ht : t.Knows R s) (hok : t.Current s i) : Adds R s (t.resume R s i).2 t (t.resume R s i).1 := by
  obtain ⟨op, phase⟩ := t
  cases phase with
  | getActiveSeason seats =>
    simp only [RankedTask.resume]
    cases s.getActiveSeason with
    | none => exact adds_none rfl rfl
    | some season => exact adds_none (RankedTask.log_ensured _ _) rfl
  | ensureUserSeasons seasonId seats => exact adds_ensure ht hok rfl
  | upsertUserSeasons seasonId now rows => exact adds_upsert ht hok rfl
  | getPrevious name decayFactor now =>
    simp only [RankedTask.resume]
    cases s.getActiveSeason with
    | none => exact adds_none rfl rfl
    | some prev => exact adds_none rfl rfl
  | archiveSeason prev name decayFactor now => exact adds_none rfl rfl
  | createSeason prev name decayFactor now =>
    simp only [RankedTask.resume]
    split
    · exact adds_none rfl rfl
    · cases prev with
      | none => exact adds_none rfl rfl
      | some p => exact adds_none rfl rfl
  | grantSeasonBadges prev season now => exact adds_none rfl rfl
  | listUserSeasons prev season now =>
    refine adds_none ?_ rfl
    simp only [RankedTask.resume]
    rw [RankedTask.log_carried, List.flatMap_map]
    exact List.flatMap_eq_nil_iff.mpr fun _ _ => rfl
  | carryUserSeasons season rows => exact adds_carry ht hok rfl
  | ended r => exact adds_none rfl rfl

/-- A call enters with an empty log. -/
theorem log_enter (op : RankedOp) (now : ℕ) : (RankedTask.enter op now).log = [] := by
  cases op with
  | recordMatchResult seats =>
    simp only [RankedTask.enter]
    split
    · rfl
    · rfl
  | recordSoloVsBot userId won => rfl
  | createSeason name decayFactor => rfl

/-- **The log.** A write that finds the row its call has read keeps the rows to the log. -/
theorem ladder_logged (R : Ranking) : Crew.Logged (rankedService R) RankedTask.Current SeasonsOK
    (fun s t => RankedTask.Knows R s t) RankedTask.log (LadderLaw R) where
  perm _ _ _ hperm h := h.perm hperm
  entered s op := log_enter op s.now
  resumed _ _ _ _ ht hok := adds_step ht hok
  drifted _ _ _ h := h.same rfl

end Log

/-! ## The runs -/

theorem seasonsOK_empty (now : ℕ) : SeasonsOK { now } where
  numbers := rfl
  active x hx := by cases hx

/-- **The ladder loses no result.** In every run the seasons are numbered apart and at most one is active. If every write
finds the row its call has read, each row is what the results of its player in its season make of his starting
rating, in the order in which they were written. -/
theorem ladder_loses_no_match (R : Ranking) (now : ℕ) (es : List (Crew.Event RankedOp ℕ ℕ)) :
    (((run (rankedService R).step { store := { now } } es).store.seasons.filter (·.status = .active)).length ≤ 1 ∧
      ((run (rankedService R).step { store := { now } } es).store.seasons.map (·.number)).Nodup) ∧
    (Guarded (rankedService R).step (Crew.Meets RankedTask.Current) { store := { now } } es →
      LadderLaw R (run (rankedService R).step { store := { now } } es).store
        ((run (rankedService R).step { store := { now } } es).tasks.flatMap RankedTask.log)) := by
  have hstart : SeasonsOK { now } ∧ ∀ t ∈ ([] : List RankedTask), t.Knows R { now } :=
    ⟨seasonsOK_empty now, fun t ht => by cases ht⟩
  have hany : ∀ (s : Crew.State SeasonStore RankedTask) (e : Crew.Event RankedOp ℕ ℕ),
      Crew.Meets (fun _ _ _ => True) s e := by
    intro s e
    cases e with
    | enter op => trivial
    | resume k w => exact fun _ _ => trivial
    | drift d => trivial
  have hstep := fun s e h => (season_rules R).step (s := s) (e := e) h (hany s e)
  have hok := (run_inv (s := { store := { now } }) (P := fun s : Crew.State SeasonStore RankedTask =>
    SeasonsOK s.store ∧ ∀ t ∈ s.tasks, t.Knows R s.store) hstep hstart es).1
  refine ⟨⟨hok.one_active, hok.nodup⟩, fun hg => ?_⟩
  have hempty : LadderLaw R ({ now } : SeasonStore) [] := fun _ _ => ⟨rfl, rfl⟩
  refine (guarded_inv (s := { store := { now } }) (P := fun s : Crew.State SeasonStore RankedTask =>
    (SeasonsOK s.store ∧ ∀ t ∈ s.tasks, t.Knows R s.store) ∧ LadderLaw R s.store (s.tasks.flatMap RankedTask.log))
    (fun s e h hmeets => ⟨hstep s e h.1, ?_⟩) ⟨hstart, hempty⟩ es hg).2
  exact (ladder_logged R).step h.1.1 h.1.2 h.2 hmeets

/-- Each result moves a rating by half of the factor, and a reset takes half of the way back. -/
def evenRanking : Ranking where
  calculateNewRating := fun rating _ won => if won then rating + 16 else rating - 16
  softReset := fun peak _ => (peak + DEFAULT_RATING) / 2

/-- A season with one match, and the next with a game against bots. -/
def twoSeasons : List (Crew.Event RankedOp ℕ ℕ) :=
  [.enter (.createSeason "Sezoni 1" 1), .resume 0 0, .resume 0 0,
    .enter (.recordMatchResult [⟨1, true⟩, ⟨2, false⟩]),
    .resume 1 0, .resume 1 0, .resume 1 1, .resume 1 0, .resume 1 1, .resume 1 1, .resume 1 0,
    .enter (.createSeason "Sezoni 2" 1),
    .resume 2 0, .resume 2 0, .resume 2 0, .resume 2 0, .resume 2 0, .resume 2 0, .resume 2 1,
    .enter (.recordSoloVsBot 1 false), .resume 3 0, .resume 3 0, .resume 3 0]

/-- A match, a new season, and a match in it. -/
theorem ladder_loses_no_match_carried :
    LadderLaw evenRanking (run (rankedService evenRanking).step { store := { now := 0 } } twoSeasons).store
        ((run (rankedService evenRanking).step { store := { now := 0 } } twoSeasons).tasks.flatMap RankedTask.log) ∧
      (run (rankedService evenRanking).step { store := { now := 0 } } twoSeasons).store.userSeasons.map
        (fun x => (x.userId, x.seasonId, x.rating, x.peakRating, x.games, x.wins)) =
          [(1, 1, 1016, 1016, 1, 1), (2, 1, 984, 1000, 1, 0), (1, 2, 992, 1008, 1, 0), (2, 2, 1000, 1000, 0, 0)] := by
  have hg : Guarded (rankedService evenRanking).step (Crew.Meets RankedTask.Current) { store := { now := 0 } } twoSeasons := by
    decide +kernel
  exact ⟨(ladder_loses_no_match evenRanking 0 twoSeasons).2 hg, by decide +kernel⟩

/-- A player who has left one table for another wins at both, and both results are recorded at a time. -/
def overlappingMatches : List (Crew.Event RankedOp ℕ ℕ) :=
  [.enter (.createSeason "Sezoni 1" 1), .resume 0 0, .resume 0 0,
    .enter (.recordMatchResult [⟨1, true⟩, ⟨2, false⟩]), .enter (.recordMatchResult [⟨1, true⟩, ⟨3, false⟩]),
    .resume 1 0, .resume 1 0, .resume 1 1, .resume 1 0, .resume 1 1,
    .resume 2 0, .resume 2 0, .resume 2 1, .resume 2 1,
    .resume 1 0, .resume 1 1, .resume 2 0, .resume 2 1]

/-- **A result is lost**: no call is in flight, two results of the player are recorded, and his row counts one. -/
theorem overlapping_match_lost :
    (run (rankedService evenRanking).step { store := { now := 0 } } overlappingMatches).tasks.map (·.phase) =
        [.ended (.opened ⟨1, 1, "Sezoni 1", .active, 1, 0, none⟩ []),
          .ended (.rated 1 [⟨1, 1000, 1016, true, (1000, 1)⟩, ⟨2, 1000, 984, false, (1000, 1)⟩]),
          .ended (.rated 1 [⟨1, 1000, 1016, true, (1000, 1)⟩, ⟨3, 1000, 984, false, (1000, 1)⟩])] ∧
      ((run (rankedService evenRanking).step { store := { now := 0 } } overlappingMatches).store.getUserSeason 1 1).map
        (fun x => (x.games, x.wins, x.rating)) = some (1, 1, 1016) ∧
      ¬LadderLaw evenRanking (run (rankedService evenRanking).step { store := { now := 0 } } overlappingMatches).store
        ((run (rankedService evenRanking).step { store := { now := 0 } } overlappingMatches).tasks.flatMap RankedTask.log) := by
  have hrow : (run (rankedService evenRanking).step { store := { now := 0 } } overlappingMatches).store.getUserSeason 1 1 =
      some ⟨1, 1, 1016, 1016, 1, 1, 0⟩ := by decide +kernel
  have hcount : (((run (rankedService evenRanking).step { store := { now := 0 } } overlappingMatches).tasks.flatMap
      RankedTask.log).filterMap (LadderEntry.result? 1 1)).length = 2 := by decide +kernel
  refine ⟨by decide +kernel, by decide +kernel, fun h => ?_⟩
  have hstanding := h 1 1
  rw [hrow] at hstanding
  obtain ⟨-, order, horder, hplayed⟩ := hstanding
  have hgames : 1 = order.length := hplayed.games
  have hlength := horder.length_eq
  omega

end Murlan
