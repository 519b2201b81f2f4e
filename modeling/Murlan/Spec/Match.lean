import Murlan.Spec.Scoring
import Murlan.Spec.SingleGame

/-!
# A match

The orchestrator of `packages/server/src/match/match.ts`: it ties games together
into a match, with the points of each game, the target, the card switch between
two games and the seats whose player left. Dealing is injected: the `k`-th deal
of a match is `deal k`.

A method that can throw returns `Except`; `apply` is a call from outside.
-/

namespace Murlan

/-- The states of a match. -/
inductive MatchState where
  | playing | awaitingSwitch | matchOver
  deriving DecidableEq, Repr

/-- What a match is built from: the type, the dealer, the target and the suit of the opening. -/
structure MatchOptions where
  type : MatchType
  deal : ℕ → List (List Card)
  startTarget : ℕ := 21
  startSuit : Suit := .S
  teams : List ℕ × List ℕ := defaultTeams

/-- What a match reports. -/
inductive MatchEvent where
  | gameStarted (index : ℕ) (leader : ℕ)
  | gameScored (index : ℕ) (finishingOrder points cumulative : List ℕ)
      (teamCumulative : Option (ℕ × ℕ))
  | targetExtended (newTarget : ℕ)
  | cardSwitchAuto (loser winner : ℕ) (card : Card)
  | awaitingSwitch (winner loser : ℕ)
  | cardSwitchReturn (winner loser : ℕ) (card : Option Card)
  | noSwap (winner loser : ℕ)
  | matchEnded (winnerSide : ℤ) (winnerSeats : List ℕ) (finalSideScores : List ℕ)
  deriving DecidableEq, Repr

/-- What a call on a match answers with. -/
structure MatchActionResult where
  ok : Bool
  reason : Option String := none
  code : Option String := none
  gameEvents : List GameEvent := []
  matchEvents : List MatchEvent := []
  deriving DecidableEq, Repr

/-- An accepted call, with the events of the game and of the match. -/
def MatchActionResult.accept (gameEvents : List GameEvent) (matchEvents : List MatchEvent) :
    MatchActionResult := { ok := true, gameEvents, matchEvents }

/-- A refused call, with its text and code. -/
def MatchActionResult.fail (reason code : String) : MatchActionResult :=
  { ok := false, reason := some reason, code := some code }

/-- The winning side and its seats. -/
structure MatchWinner where
  side : ℕ
  seats : List ℕ
  deriving DecidableEq, Repr

/-- `dealt` counts the deals made so far. -/
structure Match where
  type : MatchType
  teams : List ℕ × List ℕ
  deal : ℕ → List (List Card)
  dealt : ℕ
  startSuit : Suit
  target : ℕ
  cumulative : List ℕ
  state : MatchState := .playing
  gameIndex : ℕ := 0
  game : Option SingleGame
  lastFinishingOrder : Option (List ℕ) := none
  matchWinner : Option MatchWinner := none
  goneSeats : List ℕ := []
  pendingHands : Option (List (List Card)) := none
  pendingWinner : Option ℕ := none
  pendingLoser : Option ℕ := none
  pendingReceivedId : Option Card := none

/-- The card at `idx` of one hand goes to the end of another. -/
def moveCard (hands : List (List Card)) (giver taker idx : ℕ) (card : Card) : List (List Card) :=
  (hands.modify giver fun h => h.eraseIdx idx).modify taker fun h => h ++ [card]

/-- The first deal's opener: the holder of the lowest card of the start suit. -/
def firstGameOpening (startSuit : Suit) (hands : List (List Card)) : ℕ × Option Card :=
  let ranks : List Rank := [.r3, .r4, .r5, .r6, .r7, .r8, .r9, .r10, .J, .Q, .K, .A, .r2]
  let found := ranks.findSome? fun rank =>
    (hands.findIdx? fun h => Card.standard rank startSuit ∈ h).map fun holder =>
      (holder, some (Card.standard rank startSuit))
  found.getD (0, none)

namespace Match

/-- How many play a match of this type. -/
def numPlayers (m : Match) : ℕ := playersForType m.type

/-- The dealer must deal one hand a seat; the source throws otherwise. -/
def assertHandCount (m : Match) (hands : List (List Card)) : Except String Unit :=
  if hands.length ≠ m.numPlayers then
    .error s!"dealer returned {hands.length} hands, expected {m.numPlayers}"
  else .ok ()

/-- The match before its first deal. -/
def blank (o : MatchOptions) : Match :=
  { type := o.type, teams := o.teams, deal := o.deal, dealt := 0, startSuit := o.startSuit,
    target := o.startTarget, cumulative := List.replicate (playersForType o.type) 0, game := none }

/-- The first game: the opening card decides who leads. -/
def firstGame (o : MatchOptions) : GameOptions :=
  let opening := firstGameOpening o.startSuit (o.deal 0)
  { numPlayers := playersForType o.type, hands := o.deal 0, leader := opening.1,
    openingCard := opening.2 }

/-- `new Match(opts)`. -/
def create (o : MatchOptions) : Except String Match := do
  (blank o).assertHandCount (o.deal 0)
  let game ← SingleGame.create (firstGame o)
  pure { blank o with dealt := 1, game := some game }

/-- The cards a seat of the pending deal may return: rank 3 to 10, and not the one
just received. -/
def returnable (m : Match) (winner : ℕ) : List Card :=
  (eligibleReturnCards ((m.pendingHands.getD []).getD winner [])).filter fun c =>
    some c ≠ m.pendingReceivedId

/-- The scores by side, which is a team in 2v2 and a seat elsewhere. -/
def sideScores (m : Match) : List ℕ :=
  match m.type with
  | .twoVTwo => let t := teamTotals m.cumulative m.teams; [t.1, t.2]
  | _ => m.cumulative

/-- The seats of a side. -/
def seatsOfSide (m : Match) (side : ℕ) : List ℕ :=
  match m.type with
  | .twoVTwo => if side = 0 then m.teams.1 else if side = 1 then m.teams.2 else []
  | _ => [side]

/-- Seats whose player has not abandoned the match. -/
def remainingSeats (m : Match) : List ℕ := (List.range m.numPlayers).filter fun s => s ∉ m.goneSeats

/-- The members of a team that are still present. -/
def presentOf (m : Match) (team : List ℕ) : List ℕ := team.filter fun s => s ∉ m.goneSeats

/-- Too few are left to go on: a team is gone, or one seat remains. -/
def mustEndAfterForfeit (m : Match) : Bool :=
  match m.type with
  | .twoVTwo => m.presentOf m.teams.1 = [] || m.presentOf m.teams.2 = []
  | _ => m.remainingSeats.length < 2

/-- Who wins when a forfeit decides the match. -/
def forfeitWinner (m : Match) : ℤ × List ℕ :=
  match m.type with
  | .twoVTwo =>
    let t₀ := m.presentOf m.teams.1
    let t₁ := m.presentOf m.teams.2
    if t₀ ≠ [] ∧ t₁ = [] then (0, t₀)
    else if t₁ ≠ [] ∧ t₀ = [] then (1, t₁)
    else (-1, [])
  | _ =>
    match m.remainingSeats with
    | [s] => (s, [s])
    | _ => (-1, [])

/-- The match ends for the side that stayed. -/
def endByForfeit (m : Match) : List MatchEvent × Match :=
  let w := m.forfeitWinner
  ([.matchEnded w.1 w.2 m.sideScores],
   { m with matchWinner := if 0 ≤ w.1 then some { side := w.1.toNat, seats := w.2 } else none,
            state := .matchOver, game := none })

/-- The match with a game just begun and nothing pending. -/
def started (m : Match) (game : SingleGame) : Match :=
  { m with game := some game, state := .playing, pendingHands := none, pendingWinner := none,
           pendingLoser := none, pendingReceivedId := none }

/-- Start the prepared game; the seats that left are taken out of it at once. -/
def beginPendingGame (m : Match) (leader : ℕ) : Except String (MatchEvent × Match) := do
  let game ← SingleGame.create { numPlayers := m.numPlayers, hands := m.pendingHands.getD [], leader }
  let game' := m.goneSeats.foldl (fun g s => (g.forfeitSeat s).2) game
  pure (.gameStarted m.gameIndex (game'.turn.getD leader), m.started game')

/-- The loser's strongest card goes to the winner. -/
def giveStrongest (m : Match) (hands : List (List Card)) (winner loser idx : ℕ) (card : Card) : Match :=
  { m with pendingHands := some (moveCard hands loser winner idx card), pendingReceivedId := some card }

/-- The switch of a prepared game: after the loser's card the winner owes a return,
if it holds another card it may give. -/
def switchCards (m : Match) (hands : List (List Card)) (winner loser : ℕ) :
    Except String (List MatchEvent × Match) := do
  let loserHand := hands.getD loser []
  let strongIdx ← strongestIndexByPower loserHand
  let strongest := loserHand.getD strongIdx (.joker .red)
  let m₁ := m.giveStrongest hands winner loser strongIdx strongest
  if m₁.returnable winner = [] then
    let r ← m₁.beginPendingGame loser
    pure ([.cardSwitchAuto loser winner strongest, .cardSwitchReturn winner loser none, r.1], r.2)
  else
    pure ([.cardSwitchAuto loser winner strongest, .awaitingSwitch winner loser],
      { m₁ with state := .awaitingSwitch })

/-- The next deal, pending between the first and the last seat of the game before. -/
def dealNext (m : Match) (winner loser : ℕ) : Match :=
  { m with dealt := m.dealt + 1, pendingHands := some (m.deal m.dealt), pendingWinner := some winner,
           pendingLoser := some loser, pendingReceivedId := none, gameIndex := m.gameIndex + 1 }

/-- Deal the next game and run the switch between loser and winner. -/
def prepareNextGame (m : Match) (prevOrder : List ℕ) : Except String (List MatchEvent × Match) := do
  let winner := prevOrder.headD 0
  let loser := prevOrder.getLastD 0
  let hands := m.deal m.dealt
  m.assertHandCount hands
  let m₁ := m.dealNext winner loser
  if loser ∈ m.goneSeats then
    -- nobody to penalise
    let r ← m₁.beginPendingGame winner
    pure ([r.1], r.2)
  else if 2 ≤ ((hands.getD loser []).filter Card.isJoker).length then
    let r ← m₁.beginPendingGame winner
    pure ([.noSwap winner loser, r.1], r.2)
  else m₁.switchCards hands winner loser

/-- The points of a finished game on the score board. -/
def scored (m : Match) (finishingOrder points : List ℕ) : Match :=
  { m with lastFinishingOrder := some finishingOrder,
           cumulative := m.cumulative.zipIdx.map fun p => p.1 + points.getD p.2 0 }

/-- The target is raised. -/
def extend (m : Match) (newTarget : ℕ) : Match := { m with target := newTarget }

/-- The match is won by a side on points: its present seats are the winners. -/
def endByScore (m : Match) (side : ℕ) : List MatchEvent × Match :=
  let winnerSeats := m.presentOf (m.seatsOfSide side)
  ([.matchEnded side winnerSeats m.sideScores],
   { m with matchWinner := some { side, seats := winnerSeats }, state := .matchOver, game := none })

/-- Score the game that has just finished, then end the match or prepare the next. -/
def onGameEnd (m : Match) (finishingOrder : List ℕ) : Except String (List MatchEvent × Match) := do
  let points ← gamePoints m.type finishingOrder
  let m₁ := m.scored finishingOrder points
  let team := if m.type = .twoVTwo then some (teamTotals m₁.cumulative m.teams) else none
  let ev := MatchEvent.gameScored m.gameIndex finishingOrder points m₁.cumulative team
  let evaln := evaluateMatch m₁.sideScores m.target
  match evaln.isOver, evaln.winnerSide with
  | true, some side =>
    let r := m₁.endByScore side
    pure (ev :: r.1, r.2)
  | _, _ =>
    if evaln.extended then
      let r ← (m₁.extend evaln.newTarget).prepareNextGame finishingOrder
      pure (ev :: .targetExtended evaln.newTarget :: r.1, r.2)
    else
      let r ← m₁.prepareNextGame finishingOrder
      pure (ev :: r.1, r.2)

/-- The match, with another game in progress. -/
def withGame (m : Match) (game : SingleGame) : Match := { m with game := some game }

/-- What follows an action that the current game accepted. -/
def afterGame (m : Match) (gameEvents : List GameEvent) (game : SingleGame) :
    Except String (MatchActionResult × Match) :=
  if game.isOver then do
    let r ← (m.withGame game).onGameEnd game.finishingOrder
    pure (.accept gameEvents r.1, r.2)
  else .ok (.accept gameEvents [], m.withGame game)

/-- `play`: the game is asked, and the match follows it. -/
def play (m : Match) (seat : ℕ) (cards : List Card) : Except String (MatchActionResult × Match) :=
  match m.state, m.game with
  | .playing, some g =>
    let r := g.play seat cards
    if r.1.ok then m.afterGame r.1.events r.2
    else .ok ({ ok := false, reason := r.1.reason, code := r.1.code }, m)
  | _, _ => .ok (.fail "Nuk je në një lojë aktive." "not_in_match", m)

/-- `pass`: as for `play`. -/
def pass (m : Match) (seat : ℕ) : Except String (MatchActionResult × Match) :=
  match m.state, m.game with
  | .playing, some g =>
    let r := g.pass seat
    if r.1.ok then m.afterGame r.1.events r.2
    else .ok ({ ok := false, reason := r.1.reason, code := r.1.code }, m)
  | _, _ => .ok (.fail "Nuk je në një lojë aktive." "not_in_match", m)

/-- A card of the pending deal moves from the winner's hand to the loser's. -/
def giveBack (m : Match) (hands : List (List Card)) (winner loser idx : ℕ) (card : Card) : Match :=
  { m with pendingHands := some (moveCard hands winner loser idx card) }

/-- The winner returns a card of rank 3 to 10 and the loser leads the next game. -/
def switchGive (m : Match) (seat : ℕ) (card : Card) : Except String (MatchActionResult × Match) :=
  match m.state, m.pendingHands, m.pendingWinner, m.pendingLoser with
  | .awaitingSwitch, some hands, some winner, some loser =>
    if seat ≠ winner then
      .ok (.fail "Vetëm fituesi zgjedh letrën që kthen." "not_switch_winner", m)
    else if !isReturnEligible card then
      .ok (.fail "Letra e kthyer duhet të jetë e rangut 3–10." "switch_rank", m)
    else if some card = m.pendingReceivedId then
      .ok (.fail "Nuk mund të kthesh të njëjtën letër që sapo more." "switch_same_card", m)
    else match (hands.getD winner []).findIdx? (· = card) with
      | none => .ok (.fail "Nuk e ke këtë letër në dorë." "not_your_cards", m)
      | some idx => do
        let r ← (m.giveBack hands winner loser idx card).beginPendingGame loser
        pure (.accept [] [.cardSwitchReturn winner loser (some card), r.1], r.2)
  | _, _, _, _ => .ok (.fail "Nuk ka shkëmbim letre në pritje." "no_pending_switch", m)

/-- A forfeit that arrives while the switch waits for the winner's card. -/
def onSwitchForfeit (m : Match) (seat : ℕ) : Except String (List MatchEvent × Match) :=
  match m.pendingWinner, m.pendingLoser with
  | some winner, some loser =>
    if seat = winner then do
      let r ← m.beginPendingGame loser
      pure ([.cardSwitchReturn seat loser none, r.1], r.2)
    else .ok ([], m)
  | _, _ => .ok ([], m)

/-- The record of a departure. -/
def leave (m : Match) (seat : ℕ) : Match := { m with goneSeats := m.goneSeats ++ [seat] }

/-- A player abandoned the match. -/
def forfeit (m : Match) (seat : ℕ) : Except String (MatchActionResult × Match) :=
  if m.state = .matchOver then .ok (.fail "Ndeshja ka mbaruar." "match_over", m)
  else if m.numPlayers ≤ seat then .ok (.fail "Vend i pavlefshëm." "bad_seat", m)
  else if seat ∈ m.goneSeats then .ok (.accept [] [], m)
  else
    let m₁ := m.leave seat
    if m₁.mustEndAfterForfeit then
      let r := m₁.endByForfeit
      .ok (.accept [] r.1, r.2)
    else match m₁.state, m₁.game with
      | .playing, some g =>
        let r := g.forfeitSeat seat
        m₁.afterGame r.1 r.2
      | .awaitingSwitch, _ => do
        let r ← m₁.onSwitchForfeit seat
        pure (.accept [] r.1, r.2)
      | _, _ => .ok (.accept [] [], m₁)

/-- A call from outside. -/
inductive Call where
  | play (seat : ℕ) (cards : List Card)
  | pass (seat : ℕ)
  | switchGive (seat : ℕ) (card : Card)
  | forfeit (seat : ℕ)
  deriving DecidableEq, Repr

/-- A call, dispatched to its method. -/
def apply (m : Match) : Call → Except String (MatchActionResult × Match)
  | .play s cards => m.play s cards
  | .pass s => m.pass s
  | .switchGive s card => m.switchGive s card
  | .forfeit s => m.forfeit s

/-- The answer to a call and the match after it; a call that throws leaves the run
where it is. -/
def answer (m : Match) (c : Call) : MatchActionResult × Match :=
  match m.apply c with
  | .ok r => r
  | .error e => (.fail e "throw", m)

/-- The match after a call, accepted or not. -/
def step (m : Match) (c : Call) : Match := (m.answer c).2

end Match

end Murlan
