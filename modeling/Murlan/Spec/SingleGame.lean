import Mathlib.Logic.Function.Basic
import Murlan.Base.Cyclic
import Murlan.Spec.Card

/-!
# One game

The state machine of `packages/server/src/game/singleGame.ts`: one game from a
dealt set of hands, through tricks and passes, to a full finishing order. A seat
is its 0-based index. An array of the source that has one entry for each seat is
a function of the seat; a `Set` is the list of its elements in insertion order.

Each method returns the events it emits and the game after it; `step` is a call
from outside (`play`, `pass` or `forfeitSeat`) without its answer.
-/

namespace Murlan

/-- The states of a game. -/
inductive GameStatus where
  | playing | finished
  deriving DecidableEq, Repr

/-- `trickWon` has no winner only where the source writes `-1`. -/
inductive GameEvent where
  | played (seat : ℕ) (combo : Combo)
  | passed (seat : ℕ)
  | trickWon (winner : Option ℕ) (leadsNext : Option ℕ)
  | playerFinished (seat : ℕ) (place : ℕ)
  | gameEnded (finishingOrder : List ℕ)
  deriving DecidableEq, Repr

/-- What a call on a game answers with. -/
structure ActionResult where
  ok : Bool
  reason : Option String := none
  code : Option String := none
  events : List GameEvent := []
  deriving DecidableEq, Repr

/-- A refused call, with its text and code. -/
def ActionResult.fail (reason code : String) : ActionResult :=
  { ok := false, reason := some reason, code := some code }

/-- An accepted call, with its events. -/
def ActionResult.accept (events : List GameEvent) : ActionResult := { ok := true, events }

/-- A suit as it is printed. -/
def Suit.symbol : Suit → String
  | .S => "♠" | .H => "♥" | .D => "♦" | .C => "♣"

/-- A card as a refusal names it. -/
def describeCard : Card → String
  | .joker .red => "Joker i kuq"
  | .joker .black => "Joker i zi"
  | .standard r s => r.name ++ s.symbol

/-- `Set.add`. -/
def addSeat (l : List ℕ) (s : ℕ) : List ℕ := if s ∈ l then l else l ++ [s]

/-- A game: hands, who is still in, the pile and whose turn it is. -/
structure SingleGame where
  numPlayers : ℕ
  hands : ℕ → List Card
  active : ℕ → Bool
  passed : List ℕ := []
  finishingOrder : List ℕ := []
  /-- Seats whose player abandoned the match, the earliest first. -/
  gone : List ℕ := []
  pile : Option Combo := none
  pileOwner : Option ℕ := none
  turn : Option ℕ
  status : GameStatus := .playing
  openingCard : Option Card := none
  opened : Bool := false

/-- What a game is built from. -/
structure GameOptions where
  numPlayers : ℕ
  hands : List (List Card)
  leader : ℕ
  openingCard : Option Card := none

/-- What everyone may see of a game. -/
structure GameSnapshot where
  numPlayers : ℕ
  status : GameStatus
  turn : Option ℕ
  pile : Option Combo
  pileOwner : Option ℕ
  handCounts : List ℕ
  active : List Bool
  passed : List ℕ
  finishingOrder : List ℕ
  gone : List ℕ
  openingCard : Option Card
  deriving DecidableEq, Repr

namespace SingleGame

/-- The next seat still in the game. -/
def nextActiveAfter (g : SingleGame) (from_ : ℕ) : Option ℕ :=
  Cyclic.next g.numPlayers g.active from_

/-- The game before the constructor looks at the leader's hand. -/
def fresh (o : GameOptions) : SingleGame :=
  { numPlayers := o.numPlayers, hands := fun s => o.hands.getD s [],
    active := fun s => !(o.hands.getD s []).isEmpty, turn := some o.leader,
    openingCard := o.openingCard }

/-- `new SingleGame(opts)`. -/
def create (o : GameOptions) : Except String SingleGame :=
  if o.hands.length ≠ o.numPlayers then
    .error s!"expected {o.numPlayers} hands, got {o.hands.length}"
  else if o.numPlayers ≤ o.leader then .error s!"leader {o.leader} out of range"
  else if (fresh o).active o.leader then .ok (fresh o)
  else
    -- a leader without cards: the first seat after it that has any
    let next := (fresh o).nextActiveAfter o.leader
    .ok { fresh o with turn := next, status := if next = none then .finished else .playing }

/-- The game is over. -/
def isOver (g : SingleGame) : Bool := g.status = .finished

/-- The public part of a game. -/
def snapshot (g : SingleGame) : GameSnapshot :=
  { numPlayers := g.numPlayers, status := g.status, turn := g.turn, pile := g.pile,
    pileOwner := g.pileOwner,
    handCounts := (List.range g.numPlayers).map fun s => (g.hands s).length,
    active := (List.range g.numPlayers).map g.active,
    passed := g.passed.insertionSort (· ≤ ·), finishingOrder := g.finishingOrder,
    gone := g.gone.insertionSort (· ≤ ·),
    openingCard := if g.opened then none else g.openingCard }

/-- Active seats other than the pile owner that have not passed. -/
def contendersExcludingOwner (g : SingleGame) : List ℕ :=
  (List.range g.numPlayers).filter fun s =>
    some s ≠ g.pileOwner && (g.active s && s ∉ g.passed)

/-- The next seat still in the trick. -/
def nextEligible (g : SingleGame) (from_ : ℕ) : Option ℕ :=
  Cyclic.next g.numPlayers (fun s => g.active s && s ∉ g.passed) from_

/-- How many are still in the game. -/
def activeCount (g : SingleGame) : ℕ := (List.range g.numPlayers).countP g.active

/-- Every listed card is in the hand, and none is listed twice. -/
def handHasAll (g : SingleGame) (seat : ℕ) (cards : List Card) : Bool :=
  cards.Nodup && cards.all fun c => c ∈ g.hands seat

/-- Cards leave a hand. -/
def removeCards (g : SingleGame) (seat : ℕ) (cards : List Card) : SingleGame :=
  { g with hands := Function.update g.hands seat ((g.hands seat).filter fun c => c ∉ cards) }

/-- The final order: the seats that finished, then those still holding cards in
seat order, then the abandoned ones, the earliest to leave last. -/
def finalOrder (g : SingleGame) : List ℕ :=
  g.gone.reverse.foldl addSeat
    (g.finishingOrder ++ (List.range g.numPlayers).filter fun s => g.active s && s ∉ g.gone)

/-- The game ends; whoever is left is placed last. -/
def endGame (g : SingleGame) : List GameEvent × SingleGame :=
  if g.status = .finished then ([], g)
  else
    ([.gameEnded g.finalOrder],
     { g with active := fun s => if s < g.numPlayers ∧ s ∉ g.gone then false else g.active s,
              finishingOrder := g.finalOrder, status := .finished, turn := none, pile := none,
              pileOwner := none, passed := [] })

/-- Who leads after the owner of the pile takes the trick. -/
def trickLeader (g : SingleGame) : Option ℕ :=
  match g.pileOwner with
  | some w => if g.active w then some w else g.nextActiveAfter w
  | none => none

/-- The trick is over: the pile goes, and its leader leads. -/
def resolveTrick (g : SingleGame) : List GameEvent × SingleGame :=
  let leadsNext := g.trickLeader
  let g' := { g with pile := none, pileOwner := none, passed := [], turn := leadsNext }
  let ev := GameEvent.trickWon g.pileOwner leadsNext
  if leadsNext = none ∨ g'.activeCount ≤ 1 then
    let r := g'.endGame
    (ev :: r.1, r.2)
  else ([ev], g')

/-- The turn passes on, or the trick is over. -/
def afterAction (g : SingleGame) (seat : ℕ) : List GameEvent × SingleGame :=
  if g.contendersExcludingOwner = [] then g.resolveTrick
  else ([], { g with turn := g.nextEligible seat })

/-- The card the opening play must include, until the game has opened. -/
def openingPending (g : SingleGame) : Option Card := if g.opened then none else g.openingCard

/-- The opening card that a play leaves out, if it does. -/
def missedOpening (g : SingleGame) (cards : List Card) : Option Card :=
  match g.openingPending with
  | some c => if c ∈ cards then none else some c
  | none => none

/-- The table after a legal play; a new card lets everyone answer again. -/
def putDown (g : SingleGame) (seat : ℕ) (cards : List Card) (combo : Combo) : SingleGame :=
  { g.removeCards seat cards with
    pile := some combo, pileOwner := some seat, passed := [], opened := true }

/-- The seat emptied its hand. -/
def finishSeat (g : SingleGame) (seat : ℕ) : SingleGame :=
  { g with active := Function.update g.active seat false,
           finishingOrder := g.finishingOrder ++ [seat] }

/-- The part of `play` after all checks passed. -/
def commitPlay (g : SingleGame) (seat : ℕ) (cards : List Card) (combo : Combo) :
    List GameEvent × SingleGame :=
  let g₁ := g.putDown seat cards combo
  if g₁.hands seat = [] then
    let g₂ := g₁.finishSeat seat
    let evs := [.played seat combo, .playerFinished seat g₂.finishingOrder.length]
    let r := if g₂.activeCount ≤ 1 then g₂.endGame else g₂.afterAction seat
    (evs ++ r.1, r.2)
  else
    let r := g₁.afterAction seat
    (.played seat combo :: r.1, r.2)

/-- `play`: the checks in the source's order, then the cards are laid. -/
def play (g : SingleGame) (seat : ℕ) (cards : List Card) : ActionResult × SingleGame :=
  if g.status = .finished then (.fail "Loja ka mbaruar." "game_over", g)
  else if some seat ≠ g.turn then (.fail "Nuk është radha jote." "not_your_turn", g)
  else if cards = [] then (.fail "Duhet të luash të paktën një letër." "no_cards_selected", g)
  else if !g.handHasAll seat cards then (.fail "Nuk i ke këto letra në dorë." "not_your_cards", g)
  else match g.missedOpening cards with
    | some c =>
      (.fail ("Hapja e parë duhet të përfshijë letrën " ++ describeCard c ++ ".") "must_open", g)
    | none =>
      let check := validatePlay cards g.pile
      match check.ok, check.combo with
      | true, some combo =>
        let r := g.commitPlay seat cards combo
        (.accept r.1, r.2)
      | _, _ => (.fail (check.reason.getD "Lëvizje e palejuar.") (check.code.getD "illegal"), g)

/-- `pass`: the checks, then the seat is out of the trick. -/
def pass (g : SingleGame) (seat : ℕ) : ActionResult × SingleGame :=
  if g.status = .finished then (.fail "Loja ka mbaruar." "game_over", g)
  else if some seat ≠ g.turn then (.fail "Nuk është radha jote." "not_your_turn", g)
  else if g.pile = none then
    (.fail "Nuk mund të pasosh kur je i pari në dorë." "cannot_pass_leading", g)
  else
    let r := { g with passed := addSeat g.passed seat }.afterAction seat
    (.accept (.passed seat :: r.1), r.2)

/-- The turn of a seat that has just been removed passes on. -/
def passOnTurn (g : SingleGame) (seat : ℕ) : List GameEvent × SingleGame :=
  if g.pile = none then
    -- the seat led a fresh trick: the lead passes to the next holder of cards
    let next := g.nextActiveAfter seat
    if next = none then { g with turn := next }.endGame else ([], { g with turn := next })
  else if g.contendersExcludingOwner = [] then g.resolveTrick
  else ([], { g with turn := g.nextEligible seat })

/-- A seat leaves the game. -/
def forfeitSeat (g : SingleGame) (seat : ℕ) : List GameEvent × SingleGame :=
  if g.status = .finished then ([], g)
  else if g.numPlayers ≤ seat then ([], g)
  else if seat ∈ g.gone then ([], g)
  else
    let g₁ := { g with gone := g.gone ++ [seat] }
    if !g₁.active seat then ([], g₁) -- already emptied its hand: it keeps its place
    else
      let g₂ := { g₁ with active := Function.update g₁.active seat false,
                          passed := g₁.passed.filter (· ≠ seat) }
      let r := if g.turn = some seat then g₂.passOnTurn seat else ([], g₂)
      if !r.2.isOver && r.2.activeCount ≤ 1 then
        let r' := r.2.endGame
        (r.1 ++ r'.1, r'.2)
      else r

/-- A call from outside. -/
inductive Call where
  | play (seat : ℕ) (cards : List Card)
  | pass (seat : ℕ)
  | forfeitSeat (seat : ℕ)
  deriving DecidableEq, Repr

/-- The game after a call, accepted or not. -/
def step (g : SingleGame) : Call → SingleGame
  | .play s cards => (g.play s cards).2
  | .pass s => (g.pass s).2
  | .forfeitSeat s => (g.forfeitSeat s).2

end SingleGame

end Murlan
