import Murlan.Spec.ProvablyFair

/-!
# Replays

`server/src/realtime/matchActions.ts` and `server/src/fair/gamesRepository.ts` (the log of moves
and the seeds of the deals, in memory), the route `GET /api/replay/:matchId` of
`http/replayRoutes.ts`, and what `client/src/views/ReplayView.tsx` makes of its answer. `M` is the
type of match ids. Left out: the rate limit, the clock of a seed's row, the display.
-/

namespace Murlan

variable {M : Type}

/-- The kinds of an action. -/
inductive MatchActionType where
  | play | pass | switch | forfeit
  deriving DecidableEq, Repr

/-- A row of the move log. -/
structure MatchActionRecord (M : Type) where
  matchId : M
  seq : ℕ
  gameIndex : ℕ
  seat : ℕ
  type : MatchActionType
  cards : Option (List Card)
  time : ℤ

/-- A row of the seeds table. -/
structure GameRecord (M : Type) where
  matchId : M
  index : ℕ
  serverSeed : String
  serverSeedHash : String
  clientSeed : String
  nonce : ℕ
  revealed : Bool := false

/-- Both repositories, in the order of insertion. -/
structure ReplayStore (M : Type) where
  actions : List (MatchActionRecord M) := []
  games : List (GameRecord M) := []

/-- What changes the store. -/
inductive ReplayEvent (M : Type) where
  | append (a : MatchActionRecord M)
  | deleteOlderThan (cutoff : ℤ)
  | recordGame (g : GameRecord M)
  | revealMatch (matchId : M)

namespace ReplayStore

variable [DecidableEq M] (s : ReplayStore M)

/-- Idempotent on the match and the number. -/
def append (a : MatchActionRecord M) : ReplayStore M :=
  if s.actions.any fun r => r.matchId = a.matchId ∧ r.seq = a.seq then s else { s with actions := s.actions ++ [a] }

/-- A match's actions, in order. -/
def listActions (matchId : M) : List (MatchActionRecord M) :=
  (s.actions.filter (·.matchId = matchId)).mergeSort fun x y => x.seq ≤ y.seq

/-- The prune: what is older than the cutoff goes. -/
def deleteOlderThan (cutoff : ℤ) : ReplayStore M :=
  { s with actions := s.actions.filter fun r => cutoff ≤ r.time }

/-- Idempotent on the match and the index. -/
def recordGame (g : GameRecord M) : ReplayStore M :=
  if s.games.any fun r => r.matchId = g.matchId ∧ r.index = g.index then s
  else { s with games := s.games ++ [{ g with revealed := false }] }

/-- The seeds of a match may be shown. -/
def revealMatch (matchId : M) : ReplayStore M :=
  { s with games := s.games.map fun r => if r.matchId = matchId then { r with revealed := true } else r }

/-- A match's seeds, in order. -/
def listGames (matchId : M) : List (GameRecord M) :=
  (s.games.filter (·.matchId = matchId)).mergeSort fun x y => x.index ≤ y.index

/-- One event, on the store. -/
def step : ReplayEvent M → ReplayStore M
  | .append a => s.append a
  | .deleteOlderThan cutoff => s.deleteOlderThan cutoff
  | .recordGame g => s.recordGame g
  | .revealMatch matchId => s.revealMatch matchId

end ReplayStore

/-! ## The route -/

/-- A game as the replay shows it. -/
structure ReplayGameDTO where
  index : ℕ
  nonce : ℕ
  revealed : Bool
  serverSeed : Option String
  deriving DecidableEq, Repr

/-- An action as the replay shows it. -/
structure ReplayActionDTO where
  seq : ℕ
  gameIndex : ℕ
  seat : ℕ
  type : MatchActionType
  cards : Option (List Card)
  deriving DecidableEq

/-- The answer, with the hint for the next page. -/
structure ReplayDTO (M : Type) where
  matchId : M
  revealed : Bool
  numPlayers : ℕ
  serverSeedHash : Option String
  clientSeed : Option String
  games : List ReplayGameDTO
  actions : List ReplayActionDTO
  nextActionCursor : Option ℕ

/-- A seed leaves the server only once it is revealed. -/
def GameRecord.dto (g : GameRecord M) : ReplayGameDTO :=
  { index := g.index, nonce := g.nonce, revealed := g.revealed, serverSeed := if g.revealed then some g.serverSeed else none }

/-- An action, shown without its match and its time. -/
def MatchActionRecord.dto (a : MatchActionRecord M) : ReplayActionDTO :=
  { seq := a.seq, gameIndex := a.gameIndex, seat := a.seat, type := a.type, cards := a.cards }

/-- The seat count is that of the highest seat in the log. -/
def seatCount (actions : List (MatchActionRecord M)) : ℕ := actions.foldl (fun n a => max n (a.seat + 1)) 0

/-- How many actions a page has. -/
def actionsPage : ℕ := 1000

/-- The cursor of a page: the number of its last action, if that is not the last of the log. -/
def nextActionCursor (pageRows logActions : List (MatchActionRecord M)) : Option ℕ :=
  match pageRows.getLast?, logActions.getLast? with
  | some a, some last => if a.seq < last.seq then some a.seq else none
  | _, _ => none

variable [DecidableEq M]

/-- `GET /api/replay/:matchId?afterSeq=…`; a cursor that is no finite number is -1, and none is 404. -/
def replay (s : ReplayStore M) (matchId : M) (afterSeq : Option ℚ) : Option (ReplayDTO M) :=
  let games := s.listGames matchId
  let actions := s.listActions matchId
  if games.isEmpty ∧ actions.isEmpty then none
  else
    let revealed := !games.isEmpty && games.all (·.revealed)
    let logActions := if revealed then actions else []
    let pageRows := (logActions.filter fun a => afterSeq.getD (-1) < a.seq).take actionsPage
    some
      { matchId, revealed, numPlayers := seatCount actions, serverSeedHash := games.head?.map (·.serverSeedHash),
        clientSeed := games.head?.map (·.clientSeed), games := games.map GameRecord.dto,
        actions := pageRows.map MatchActionRecord.dto, nextActionCursor := nextActionCursor pageRows logActions }

/-! ## The client -/

/-- What the viewer says of a game. -/
inductive ReplayVerdict where
  | unrevealed | ok | mismatch
  deriving DecidableEq, Repr

/-- A value of JavaScript that may be missing, or empty. -/
def truthy : Option String → Option String
  | some s => if s = "" then none else some s
  | none => none

/-- The hands of a game, if its seed is there. -/
def reconstructGame (H : Hashes) (clientSeed : String) (numPlayers : ℕ) (g : ReplayGameDTO) :
    Except String (Option (List (List Card))) :=
  match truthy g.serverSeed with
  | some serverSeed => some <$> H.reconstructDeal serverSeed clientSeed g.nonce numPlayers
  | none => .ok none

/-- The hands by the games' indices; a later game of an index replaces an earlier one. -/
def reconstructGames (H : Hashes) (clientSeed : String) (numPlayers : ℕ) :
    List ReplayGameDTO → Except String (ℕ → Option (List (List Card)))
  | [] => .ok fun _ => none
  | g :: games => do
    let first ← reconstructGame H clientSeed numPlayers g
    let rest ← reconstructGames H clientSeed numPlayers games
    pure fun i => (rest i).or (if i = g.index then first else none)

/-- What the view shows of a replay: the check of the commitment, and the hands. -/
def replayView (H : Hashes) (d : ReplayDTO M) : Except String (ReplayVerdict × (ℕ → Option (List (List Card)))) :=
  match truthy (d.games.head?.bind (·.serverSeed)) with
  | none => .ok (.unrevealed, fun _ => none)
  | some serverSeed =>
    if !d.revealed then .ok (.unrevealed, fun _ => none)
    else if H.clientVerifyCommitment serverSeed (d.serverSeedHash.getD "") then
      match truthy d.clientSeed with
      | some clientSeed => (.ok, ·) <$> reconstructGames H clientSeed d.numPlayers d.games
      | none => .ok (.ok, fun _ => none)
    else .ok (.mismatch, fun _ => none)

end Murlan
