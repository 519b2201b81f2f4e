import Mathlib.Data.List.MinMax
import Mathlib.Data.Rat.Defs
import Murlan.Base.Crew

/-!
# The ranked ladder

`rankedService.ts` over the tables of `PrismaSeasonRepository`: the opening of a season, and the
rating of a finished match and of a lone player against bots. The rating function and the soft
reset are parameters: what they compute from ratings and a decay factor. The writes of one
`Promise.all` go on in any order, which the environment chooses. The badges of the season that
has ended are a wait.
-/

namespace Murlan

/-- The states of a season. -/
inductive SeasonStatus where
  | active
  | archived
  deriving DecidableEq, Repr

/-- A season's row. -/
structure Season where
  id : ℕ
  number : ℕ
  name : String
  status : SeasonStatus
  decayFactor : ℚ
  startedAt : ℕ
  endedAt : Option ℕ
  deriving DecidableEq

/-- A player's row of a season. -/
structure UserSeason where
  userId : ℕ
  seasonId : ℕ
  rating : ℤ
  peakRating : ℤ
  games : ℕ
  wins : ℕ
  updatedAt : ℕ
  deriving DecidableEq, Repr

/-- The tables of the ladder, and the clock. -/
structure SeasonStore where
  seasons : List Season := []
  userSeasons : List UserSeason := []
  seq : ℕ := 0
  now : ℕ := 0

namespace SeasonStore

variable (s : SeasonStore)

/-- A season is opened. -/
def createSeason (number : ℕ) (name : String) (decayFactor : ℚ) (startedAt : ℕ) : SeasonStore :=
  { s with
    seq := s.seq + 1
    seasons := s.seasons ++
      [{ id := s.seq + 1, number, name, status := .active, decayFactor, startedAt, endedAt := none }] }

/-- A season is closed. -/
def archiveSeason (seasonId endedAt : ℕ) : SeasonStore :=
  { s with
    seasons := s.seasons.map fun x =>
      if x.id = seasonId then { x with status := .archived, endedAt := some endedAt } else x }

/-- The active season with the greatest number. -/
def getActiveSeason : Option Season := (s.seasons.filter (·.status = .active)).argmax (·.number)

/-- A player's row of a season. -/
def getUserSeason (userId seasonId : ℕ) : Option UserSeason :=
  s.userSeasons.find? fun x => x.userId = userId ∧ x.seasonId = seasonId

/-- The row of the user in the season, created or replaced. -/
def upsertUserSeason (row : UserSeason) : SeasonStore :=
  { s with userSeasons :=
      if s.userSeasons.any fun x => x.userId = row.userId ∧ x.seasonId = row.seasonId then
        s.userSeasons.map fun x => if x.userId = row.userId ∧ x.seasonId = row.seasonId then row else x
      else s.userSeasons ++ [row] }

/-- Everyone's rows of a season. -/
def listUserSeasons (seasonId : ℕ) : List UserSeason := s.userSeasons.filter (·.seasonId = seasonId)

end SeasonStore

/-! ## Ratings -/

/-- The rating a player starts with. -/
def DEFAULT_RATING : ℤ := 1000

/-- The rating functions. The opponents of a player are the sum of their ratings and their number. -/
structure Ranking where
  calculateNewRating : ℤ → ℤ × ℕ → Bool → ℤ
  softReset : ℤ → ℚ → ℤ

/-- A human of a rated match, and whether it won. -/
structure RankedSeat where
  userId : ℕ
  won : Bool
  deriving DecidableEq, Repr

/-- The expected win rate of a delta is what its old rating and its opponents give. -/
structure RatingDelta where
  userId : ℕ
  oldRating : ℤ
  newRating : ℤ
  won : Bool
  opponents : ℤ × ℕ
  deriving DecidableEq, Repr

/-- The mean of the others is what a player is rated against. -/
def applyMatchRatings (R : Ranking) (players : List (ℤ × Bool)) : List ℤ :=
  if players.length < 2 then players.map (·.1)
  else players.map fun p => R.calculateNewRating p.1 ((players.map (·.1)).sum - p.1, players.length - 1) p.2

/-! ## Calls -/

/-- The calls of the service. -/
inductive RankedOp where
  | recordMatchResult (seats : List RankedSeat)
  | recordSoloVsBot (userId : ℕ) (won : Bool)
  | createSeason (name : String) (decayFactor : ℚ)
  deriving DecidableEq

/-- What `ensureUserSeason` waits for, or the row it has found or created. -/
inductive SeatWait where
  | getUserSeason
  | upsertUserSeason (fresh : UserSeason)
  | ensured (row : UserSeason)
  deriving DecidableEq, Repr

/-- A rated player: the row as it was read, and what becomes of it. -/
structure RatedRow where
  row : UserSeason
  delta : RatingDelta
  written : Bool := false
  deriving DecidableEq, Repr

/-- A row that is carried into a new season. -/
structure CarriedRow where
  row : UserSeason
  written : Bool := false
  deriving DecidableEq, Repr

/-- A call that has opened a season answers with it; `carried` are the rows it has written. -/
inductive RankedResult where
  | rated (seasonId : ℕ) (deltas : List RatingDelta)
  | unrated
  | opened (season : Season) (carried : List UserSeason)
  | failed
  deriving DecidableEq

/-- What a call waits for. -/
inductive RankedPhase where
  | getActiveSeason (seats : List RankedSeat)
  | ensureUserSeasons (seasonId : ℕ) (seats : List (RankedSeat × SeatWait))
  | upsertUserSeasons (seasonId now : ℕ) (rows : List RatedRow)
  | getPrevious (name : String) (decayFactor : ℚ) (now : ℕ)
  | archiveSeason (prev : Season) (name : String) (decayFactor : ℚ) (now : ℕ)
  | createSeason (prev : Option Season) (name : String) (decayFactor : ℚ) (now : ℕ)
  | grantSeasonBadges (prev season : Season) (now : ℕ)
  | listUserSeasons (prev season : Season) (now : ℕ)
  | carryUserSeasons (season : Season) (rows : List CarriedRow)
  | ended (result : RankedResult)
  deriving DecidableEq

/-- A row found is taken; a missing one is written fresh. -/
def SeatWait.found (fresh : UserSeason) : Option UserSeason → SeatWait
  | some row => .ensured row
  | none => .upsertUserSeason fresh

/-- A call under way. -/
structure RankedTask where
  op : RankedOp
  phase : RankedPhase
  deriving DecidableEq

namespace UserSeason

/-- A player's first row of a season. -/
def fresh (userId seasonId now : ℕ) : UserSeason :=
  { userId, seasonId, rating := DEFAULT_RATING, peakRating := DEFAULT_RATING, games := 0, wins := 0, updatedAt := now }

/-- The row after a result. -/
def rate (row : UserSeason) (seasonId now : ℕ) (d : RatingDelta) : UserSeason :=
  { userId := row.userId, seasonId, rating := d.newRating, peakRating := max row.peakRating d.newRating,
    games := row.games + 1, wins := row.wins + if d.won then 1 else 0, updatedAt := now }

/-- The row of a player of the last season in the new one. -/
def carry (R : Ranking) (row : UserSeason) (seasonId now : ℕ) (decayFactor : ℚ) : UserSeason :=
  { userId := row.userId, seasonId, rating := R.softReset row.peakRating decayFactor,
    peakRating := R.softReset row.peakRating decayFactor, games := 0, wins := 0, updatedAt := now }

end UserSeason

namespace RankedTask

variable (R : Ranking) (s : SeasonStore) (t : RankedTask)

/-- A call at its first wait: a table that was not won by anybody is not rated. -/
def enter (op : RankedOp) (now : ℕ) : RankedTask :=
  match op with
  | .recordMatchResult seats =>
    if seats.length < 2 ∨ seats.all (fun x => !x.won) then ⟨op, .ended .unrated⟩ else ⟨op, .getActiveSeason seats⟩
  | .recordSoloVsBot userId won => ⟨op, .getActiveSeason [{ userId, won }]⟩
  | .createSeason name decayFactor => ⟨op, .getPrevious name decayFactor now⟩

/-- The call moves on to its next awaits. -/
def goto (phase : RankedPhase) : RankedTask := { t with phase }

/-- What becomes of each player's row: against the others of the table, or an opponent of his own rating. -/
def rateSeats (op : RankedOp) (seats : List (RankedSeat × UserSeason)) : List RatedRow :=
  match op with
  | .recordMatchResult _ =>
    List.zipWith (fun x newRating =>
        { row := x.2
          delta :=
            { userId := x.2.userId, oldRating := x.2.rating, newRating, won := x.1.won
              opponents := ((seats.map (·.2.rating)).sum - x.2.rating, seats.length - 1) } })
      seats (applyMatchRatings R (seats.map fun x => (x.2.rating, x.1.won)))
  | _ => seats.map fun x =>
    { row := x.2
      delta :=
        { userId := x.2.userId, oldRating := x.2.rating
          newRating := R.calculateNewRating x.2.rating (x.2.rating, 1) x.1.won
          won := x.1.won, opponents := (x.2.rating, 1) } }

/-- A seat whose row is there. -/
def seatRow (x : RankedSeat × SeatWait) : Option (RankedSeat × UserSeason) :=
  match x.2 with
  | .ensured row => some (x.1, row)
  | _ => none

/-- Once each player has a row, all are rated. -/
def ensured (seasonId : ℕ) (seats : List (RankedSeat × SeatWait)) : RankedTask :=
  if seats.all (fun x => (seatRow x).isSome) then
    t.goto (.upsertUserSeasons seasonId s.now (rateSeats R t.op (seats.filterMap seatRow)))
  else t.goto (.ensureUserSeasons seasonId seats)

/-- One of the players of a table: his row is read, or created. -/
def ensureUserSeason (seasonId : ℕ) (seats : List (RankedSeat × SeatWait)) (i : ℕ) :
    Option (RankedSeat × SeatWait) → RankedTask × SeasonStore
  | none => (t, s)
  | some (seat, .getUserSeason) =>
    (t.ensured R s seasonId (seats.set i
      (seat, .found (UserSeason.fresh seat.userId seasonId s.now) (s.getUserSeason seat.userId seasonId))), s)
  | some (seat, .upsertUserSeason fresh) =>
    (t.ensured R s seasonId (seats.set i (seat, .ensured fresh)), s.upsertUserSeason fresh)
  | some (_, .ensured _) => (t, s)

/-- The call ends with its last write. -/
def rated (seasonId now : ℕ) (rows : List RatedRow) : RankedTask :=
  if rows.all (·.written) then t.goto (.ended (.rated seasonId (rows.map (·.delta))))
  else t.goto (.upsertUserSeasons seasonId now rows)

/-- One seat's new rating is written. -/
def upsertRated (seasonId now : ℕ) (rows : List RatedRow) (i : ℕ) : Option RatedRow → RankedTask × SeasonStore
  | none => (t, s)
  | some x =>
    if x.written then (t, s)
    else (t.rated seasonId now (rows.set i { x with written := true }), s.upsertUserSeason (x.row.rate seasonId now x.delta))

/-- The call waits until every carried row is written. -/
def carried (season : Season) (rows : List CarriedRow) : RankedTask :=
  if rows.all (·.written) then t.goto (.ended (.opened season (rows.map (·.row))))
  else t.goto (.carryUserSeasons season rows)

/-- One carried row is written to the new season. -/
def upsertCarried (season : Season) (rows : List CarriedRow) (i : ℕ) : Option CarriedRow → RankedTask × SeasonStore
  | none => (t, s)
  | some x =>
    if x.written then (t, s)
    else (t.carried season (rows.set i { x with written := true }), s.upsertUserSeason x.row)

/-- The active season has answered: with none, the match is not rated. -/
def checkActive (seats : List RankedSeat) : Option Season → RankedTask
  | none => t.goto (.ended .unrated)
  | some season => t.ensured R s season.id (seats.map (·, .getUserSeason))

/-- The previous season has answered: with none, the new one opens at once. -/
def checkPrevious (name : String) (decayFactor : ℚ) (now : ℕ) : Option Season → RankedTask
  | none => t.goto (.createSeason none name decayFactor now)
  | some prev => t.goto (.archiveSeason prev name decayFactor now)

/-- The season that a call opens next. -/
def nextNumber (prev : Option Season) : ℕ := prev.elim 1 (·.number + 1)

/-- The new season is there; the last one's rows are carried over next. -/
def opened (season : Season) (now : ℕ) : Option Season → RankedTask
  | none => t.goto (.ended (.opened season []))
  | some prev => t.goto (.grantSeasonBadges prev season now)

/-- The call goes on; of writes that go on together, with the `i`-th. -/
def resume (i : ℕ) : RankedTask × SeasonStore :=
  match t.phase with
  | .getActiveSeason seats => (t.checkActive R s seats s.getActiveSeason, s)
  | .ensureUserSeasons seasonId seats => t.ensureUserSeason R s seasonId seats i seats[i]?
  | .upsertUserSeasons seasonId now rows => t.upsertRated s seasonId now rows i rows[i]?
  | .getPrevious name decayFactor now => (t.checkPrevious name decayFactor now s.getActiveSeason, s)
  | .archiveSeason prev name decayFactor now =>
    (t.goto (.createSeason (some prev) name decayFactor now), s.archiveSeason prev.id now)
  | .createSeason prev name decayFactor now =>
    -- the unique constraint on the number
    if s.seasons.any (·.number = nextNumber prev) then (t.goto (.ended .failed), s)
    else
      (t.opened
        { id := s.seq + 1, number := nextNumber prev, name, status := .active, decayFactor, startedAt := now, endedAt := none }
        now prev, s.createSeason (nextNumber prev) name decayFactor now)
  | .grantSeasonBadges prev season now => (t.goto (.listUserSeasons prev season now), s)
  | .listUserSeasons prev season now =>
    (t.carried season ((s.listUserSeasons prev.id).map fun row => { row := row.carry R season.id now prev.decayFactor }), s)
  | .carryUserSeasons season rows => t.upsertCarried s season rows i rows[i]?
  | .ended _ => (t, s)

end RankedTask

/-- The service; the clock goes on beside the calls. -/
def rankedService (R : Ranking) : Crew SeasonStore RankedTask RankedOp ℕ ℕ where
  enter := fun s op => RankedTask.enter op s.now
  resume := fun i t s => t.resume R s i
  drift := fun ms s => { s with now := s.now + ms }

end Murlan
