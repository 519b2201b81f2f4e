import Murlan.Spec.SingleGame

/-!
# The bot's simulator

The rules loop and the rollouts of `packages/server/src/bot/botSearch.ts`: `Sim` is a game
that the search plays out from sampled hands, `applyPlay` and `applyPass` are its moves,
`rolloutStep` the fast policy and `playout` a whole rollout. An array that has one entry
for each seat is a function of the seat, as in `SingleGame`.
-/

namespace Murlan

/-- The simulator's copy of a game. -/
structure Sim where
  n : ℕ
  hands : ℕ → List Card
  active : ℕ → Bool
  passed : ℕ → Bool
  pile : Option Combo
  owner : Option ℕ
  turn : Option ℕ
  order : List ℕ
  coop : Bool

/-- The set of the listed seats, as an array of `n` flags. -/
def boolFromSeats (seats : List ℕ) (n : ℕ) : ℕ → Bool := fun s => s ∈ seats && s < n

namespace Sim

/-- What `determinize` returns for the seat on turn when the hands it samples are the real
ones: the other fields are those of the snapshot. -/
def ofGame (g : SingleGame) (coop : Bool) : Sim :=
  { n := g.numPlayers, hands := g.hands, active := g.active, passed := boolFromSeats g.passed g.numPlayers,
    pile := g.pile, owner := g.pileOwner, turn := g.turn, order := g.finishingOrder, coop }

/-- The hand without the cards played. -/
def removeCards (hand cards : List Card) : List Card := hand.filter fun c => c ∉ cards

/-- How many seats are in the game. -/
def activeCount (sim : Sim) : ℕ := (List.range sim.n).countP sim.active

/-- The next seat that is in the game. -/
def nextActiveAfter (sim : Sim) (from_ : ℕ) : Option ℕ := Cyclic.next sim.n sim.active from_

/-- The next seat that is in the game and has not passed. -/
def nextEligible (sim : Sim) (from_ : ℕ) : Option ℕ :=
  Cyclic.next sim.n (fun s => sim.active s && !sim.passed s) from_

/-- The seats other than the owner that may still answer the pile. -/
def contendersExcludingOwner (sim : Sim) : ℕ :=
  (List.range sim.n).countP fun s => some s ≠ sim.owner && (sim.active s && !sim.passed s)

/-- The seats that are left are placed in their order, and nobody is on turn. -/
def endGame (sim : Sim) : Sim :=
  { sim with order := sim.order ++ (List.range sim.n).filter sim.active,
             active := fun s => if s < sim.n then false else sim.active s, turn := none }

/-- Who leads after the owner of the pile takes the trick. -/
def trickLeader (sim : Sim) : Option ℕ :=
  match sim.owner with
  | some w => if sim.active w then some w else sim.nextActiveAfter w
  | none => none

/-- The pile is cleared and the trick's winner leads. -/
def resolveTrick (sim : Sim) : Sim :=
  let leadsNext := sim.trickLeader
  let sim' := { sim with pile := none, owner := none, passed := fun _ => false, turn := leadsNext }
  if leadsNext = none ∨ sim'.activeCount ≤ 1 then sim'.endGame else sim'

/-- The turn after a play or a pass. -/
def afterAction (sim : Sim) (seat : ℕ) : Sim :=
  if sim.contendersExcludingOwner = 0 then sim.resolveTrick
  else
    let sim' := { sim with turn := sim.nextEligible seat }
    if sim.nextEligible seat = none then sim'.resolveTrick else sim'

/-- The table after a play. Unlike `SingleGame.play`, it keeps the passes. -/
def putDown (sim : Sim) (seat : ℕ) (combo : Combo) : Sim :=
  { sim with hands := Function.update sim.hands seat (removeCards (sim.hands seat) combo.cards),
             pile := some combo, owner := some seat }

/-- A seat with an empty hand is placed. -/
def finishSeat (sim : Sim) (seat : ℕ) : Sim :=
  { sim with active := Function.update sim.active seat false, order := sim.order ++ [seat] }

/-- A play. -/
def applyPlay (sim : Sim) (seat : ℕ) (combo : Combo) : Sim :=
  let sim₁ := sim.putDown seat combo
  if sim₁.hands seat = [] then
    let sim₂ := sim₁.finishSeat seat
    if sim₂.activeCount ≤ 1 then sim₂.endGame else sim₂.afterAction seat
  else sim₁.afterAction seat

/-- A pass. -/
def applyPass (sim : Sim) (seat : ℕ) : Sim :=
  { sim with passed := Function.update sim.passed seat true }.afterAction seat

/-- The move of the simulator that matches a call of the game. -/
def act (sim : Sim) : SingleGame.Call → Sim
  | .play seat cards =>
    match identifyCombo cards with
    | some combo => sim.applyPlay seat combo
    | none => sim
  | .pass seat => sim.applyPass seat
  | .forfeitSeat _ => sim

/-! ## The fast policy -/

/-- `reduce` throws on an empty hand. -/
def lowestSingle : List Card → Except String Card
  | [] => .error "Reduce of empty array with no initial value"
  | c :: hand => .ok (hand.foldl (fun a b => if singlePower b < singlePower a then b else a) c)

/-- The standard cards of a hand by rank, the ranks in the order in which they occur. -/
def byRank (hand : List Card) : List (List Card) :=
  (hand.filterMap Card.rank?).eraseDups.map fun r => hand.filter fun c => c.rank? == some r

/-- The better of two leads; a later group has to be strictly better. -/
def betterLead (best : List Card × ℤ) (cards : List Card) : List Card × ℤ :=
  let n := min cards.length 3
  if n < 2 then best
  else
    let g := cards.take n
    let score := (n : ℤ) * 100 - (g.head?.map singlePower).getD 0
    if best.2 < score then (g, score) else best

/-- The lead of a rollout: the lowest single, or a group that gets rid of more. -/
def rolloutLead (hand : List Card) : Except String (List Card) := do
  let low ← lowestSingle hand
  pure ((byRank hand).foldl betterLead ([low], 100 - (singlePower low : ℤ))).1

/-- The better of two answers with one card. -/
def betterSingle (pile : Combo) (best : Option Card) (c : Card) : Option Card :=
  if keyGt (some (singlePower c)) pile.power && (best.all fun b => singlePower c < singlePower b) then some c
  else best

/-- The better of two answers with a group. -/
def betterGroup (pile : Combo) (best : Option Combo) (cards : List Card) : Option Combo :=
  if cards.length < pile.size then best
  else
    match identifyCombo (cards.take pile.size) with
    | some combo => if beats combo pile && (best.all fun b => keyGt b.power combo.power) then some combo else best
    | none => best

/-- The cards to play, or `none` to pass. -/
def rolloutPlay (sim : Sim) (seat : ℕ) : Except String (Option (List Card)) :=
  match sim.pile with
  | none => do return some (← rolloutLead (sim.hands seat))
  | some pile =>
    match pile.type with
    | .single => pure (((sim.hands seat).foldl (betterSingle pile) none).map fun c => [c])
    | .pair | .triple => pure (((byRank (sim.hands seat)).foldl (betterGroup pile) none).map Combo.cards)
    | _ => pure none

/-- A lone card goes down if it can. -/
def goesOut (sim : Sim) (seat : ℕ) : Bool :=
  match sim.hands seat, sim.pile with
  | [_], none => true
  | [c], some pile => pile.type = .single && keyGt (some (singlePower c)) pile.power
  | _, _ => false

/-- The pile is the teammate's. -/
def matesPile (sim : Sim) (seat : ℕ) : Bool :=
  sim.coop && sim.pile ≠ none && sim.owner = some ((seat + 2) % sim.n)

/-- One move of a rollout. -/
def rolloutStep (sim : Sim) (seat : ℕ) : Except String Sim :=
  if sim.goesOut seat then
    match identifyCombo (sim.hands seat) with
    | some combo => pure (sim.applyPlay seat combo)
    | none => .error "Cannot read properties of null"
  else if sim.matesPile seat then pure (sim.applyPass seat)
  else do
    match ← sim.rolloutPlay seat with
    | some cards =>
      match identifyCombo cards with
      | some combo => pure (sim.applyPlay seat combo)
      | none => pure (sim.applyPass seat)
    | none => pure (sim.applyPass seat)

/-- The bot, and its partner if it has one, hold no cards any more. -/
def teamDone (sim : Sim) (mySeat : ℕ) (partnerSeat : Option ℕ) : Bool :=
  !sim.active mySeat && partnerSeat.all fun p => !sim.active p

/-- The loop of `playoutScore`, for at most `guard` steps. -/
def playout (mySeat : ℕ) (partnerSeat : Option ℕ) : ℕ → Sim → Except String Sim
  | 0, sim => pure sim
  | guard + 1, sim =>
    match sim.turn with
    | none => pure sim
    | some seat =>
      if sim.teamDone mySeat partnerSeat then pure sim
      else sim.rolloutStep seat >>= playout mySeat partnerSeat guard

/-- The place of a seat in the order, the last one if it is not in it. -/
def place (sim : Sim) (seat : ℕ) : ℕ := if seat ∈ sim.order then sim.order.idxOf seat + 1 else sim.n

/-- How many moves a rollout may take. -/
def playoutGuard : ℕ := 400

/-- The place of the seat, with the partner's. -/
def playoutScore (sim : Sim) (mySeat : ℕ) (partnerSeat : Option ℕ) : Except String ℕ := do
  let sim ← sim.playout mySeat partnerSeat playoutGuard
  pure (sim.place mySeat + (partnerSeat.map sim.place).getD 0)

end Sim

end Murlan
