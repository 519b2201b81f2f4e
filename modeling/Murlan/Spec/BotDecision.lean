import Murlan.Spec.BotSearch
import Murlan.Spec.Shuffle

/-!
# The bot's move

`packages/server/src/bot/botDecision.ts`: the enumeration of the legal plays (`enumerateLegalPlays`),
the policies that choose one of them, and `decideBotMove`; and the root of the search of
`botSearch.ts` (`determinize`, `chooseBestMove`), whose `rootPlays` is a copy of the enumeration.
The source throws where a choice fails, as `reduce` does on an empty array; an rng is an action, as
in `Shuffle`.
-/

namespace Murlan.Bot

/-- How strong a bot plays. -/
inductive BotTier where
  | easy | medium | hard
  deriving DecidableEq, Repr

/-- A decision. -/
inductive BotMove where
  | play (cards : List Card)
  | pass
  deriving DecidableEq, Repr

/-- What a bot sees of the game. -/
structure BotView where
  hand : List Card
  pile : Option Combo
  canPass : Bool
  opponentCounts : List ℕ := []
  mustInclude : Option Card := none
  seen : Option (List Card) := none
  mySeat : Option ℕ := none
  numPlayers : Option ℕ := none
  pileOwner : Option ℕ := none
  passed : Option (List ℕ) := none
  active : Option (List Bool) := none
  handCounts : Option (List ℕ) := none
  finishingOrder : Option (List ℕ) := none
  partnerSeat : Option ℕ := none

/-! ## The legal plays -/

/-- The hand without jokers. -/
def standardCards (hand : List Card) : List Card := hand.filter fun c => !c.isJoker

/-- A pair, a triple and a bomb of each rank that has enough cards. -/
def groupPlays (hand : List Card) : List (List Card) :=
  (Sim.byRank hand).flatMap fun cards => [2, 3, 4].filterMap fun n => if n ≤ cards.length then some (cards.take n) else none

/-- The card may stand at the value in a run. -/
def countsAs (c : Card) (v : ℕ) : Bool :=
  match c with
  | .standard .A _ => v == 1 || v == 14
  | .standard r _ => r.seq == some v
  | .joker _ => false

/-- The map `at` of `scan`: the first card at each value. -/
def atValue (cards : List Card) (v : ℕ) : Option Card := cards.find? fun c => countsAs c v

/-- The cards of a run of `len` values from `start` on, unless a value is missing or an Ace is
used twice. -/
def picked (cards : List Card) (start len : ℕ) : Option (List Card) :=
  ((List.range' start len).mapM (atValue cards)).filter fun found => found.Nodup

/-- The runs among the cards, of each length from each value on. -/
def scan (cards : List Card) : List (List Card) :=
  (List.range' 5 (min cards.length 13 - 4)).flatMap fun len =>
    (List.range' 1 (15 - len)).filterMap fun start => picked cards start len

/-- The cards of a suit. -/
def suitCards (hand : List Card) (suit : Suit) : List Card :=
  (standardCards hand).filter fun c => c.suit? == some suit

/-- Candidates for kolors, and for flushes in each suit. -/
def straightPlays (hand : List Card) : List (List Card) :=
  scan (standardCards hand) ++ [Suit.S, .H, .D, .C].flatMap fun suit => scan (suitCards hand suit)

/-- The ids of the cards, sorted and joined. -/
def playKey (cards : List Card) : String := ",".intercalate ((cards.map cardId).insertionSort (· ≤ ·))

/-- The loop of the enumeration, with the keys it has met and the plays it has found. -/
def addPlay (pile : Option Combo) (acc : List String × List Combo) (cards : List Card) : List String × List Combo :=
  if playKey cards ∈ acc.1 then acc
  else
    match identifyCombo cards with
    | none => (playKey cards :: acc.1, acc.2)
    | some combo =>
      if pile.any fun p => !beats combo p then (playKey cards :: acc.1, acc.2)
      else (playKey cards :: acc.1, acc.2 ++ [combo])

/-- The candidates, before they are identified. -/
def rawPlays (hand : List Card) : List (List Card) :=
  (hand.map fun c => [c]) ++ groupPlays hand ++ straightPlays hand

/-- The plays that answer the pile; with the card that has to be played, those that have it. -/
def enumerateLegalPlays (hand : List Card) (pile : Option Combo) (mustInclude : Option Card) : List Combo :=
  let out := ((rawPlays hand).foldl (addPlay pile) ([], [])).2
  match mustInclude with
  | some card => out.filter fun c => card ∈ c.cards
  | none => out

/-! ## The policies -/

/-- A play that beats other kinds. -/
def isTrump (c : Combo) : Bool := c.type = .bomb || c.type = .flush

/-- The power of the first card. -/
def firstPower (c : Combo) : ℕ := (c.cards.head?.map singlePower).getD 0

/-- The strength of a play within its kind. -/
def baseCost (c : Combo) : ℕ :=
  if c.type = .kolor ∨ c.type = .flush then c.topSeq.getD 0 else c.power.getD (firstPower c)

/-- The price of a play; trumps come last. -/
def playCost (c : Combo) : ℕ := (if isTrump c then 1000 else 0) + baseCost c

/-- The play takes the whole hand. -/
def goesOut (c : Combo) (handSize : ℕ) : Bool := c.cards.length = handSize

/-- How many cards of a rank the hand has. -/
def countRank (hand : List Card) (rank : Rank) : ℕ := hand.countP fun c => c.rank? == some rank

/-- A single out of a pair or of more. -/
def fractures (c : Combo) (hand : List Card) : Bool :=
  c.type = .single && (c.cards.head?.bind Card.rank?).any fun r => 1 < countRank hand r

/-- The price of a lead; longer plays are cheaper. -/
def leadScore (c : Combo) (hand : List Card) : ℚ :=
  playCost c - c.cards.length * (1 / 2) + (if isTrump c then 1000 else 0) + (if fractures c hand then 40 else 0)

/-- The value of a play that gets rid of cards. -/
def unloadScore (c : Combo) (hand : List Card) : ℤ :=
  c.cards.length * 100 - playCost c - (if fractures c hand then 50 else 0)

/-- `reduce` without an initial value. -/
def reduce {T : Type} (f : T → T → T) : List T → Option T
  | [] => none
  | a :: l => some (l.foldl f a)

/-- The cheapest lead that is no trump. -/
def bestLead (plays : List Combo) (hand : List Card) : Option Combo :=
  reduce (fun a b => if leadScore b hand < leadScore a hand then b else a) (plays.filter fun c => !isTrump c)

/-- The plays that are no trumps, all plays if there are none. -/
def unloadPool (plays : List Combo) : List Combo :=
  if plays.filter (fun c => !isTrump c) = [] then plays else plays.filter fun c => !isTrump c

/-- The play that gets rid of most. -/
def bestUnload (plays : List Combo) (hand : List Card) : Option Combo :=
  reduce (fun a b => if unloadScore a hand < unloadScore b hand then b else a) (unloadPool plays)

/-- The cards that neither the hand nor the table has shown. -/
def unseenCards (hand seen : List Card) : List Card := buildDeck.filter fun c => c ∉ hand ++ seen

/-- The weakest single that no unseen card can beat. -/
def lockSingle (plays : List Combo) (hand seen : List Card) : Option Combo :=
  reduce (fun a b => if firstPower a < firstPower b then a else b)
    (plays.filter fun c => c.type = .single && !(unseenCards hand seen).any fun u => firstPower c < singlePower u)

/-- The plays, cheapest first. -/
def byCost (plays : List Combo) : List Combo := plays.insertionSort fun a b => playCost a ≤ playCost b

/-- The cheapest play that is no trump. -/
def cheapestNonTrump (plays : List Combo) : Option Combo := (byCost plays).find? fun c => !isTrump c

/-- The move that plays a chosen combination; nothing chosen is an exception in the source. -/
def playOf : Option Combo → Except String BotMove
  | some c => .ok (.play c.cards)
  | none => .error "Cannot read properties of undefined (reading 'cards')"

/-- The policy of the easy tier. -/
def efficientHeuristic (view : BotView) (plays : List Combo) (canPass : Bool) : Except String BotMove :=
  if view.pile = none then playOf ((bestLead plays view.hand).or (byCost plays).head?)
  else if (cheapestNonTrump plays).isSome then playOf (cheapestNonTrump plays)
  else if canPass then .ok .pass
  else playOf (byCost plays).head?

/-- The singles that are no trumps. -/
def lowSingles (plays : List Combo) : List Combo := plays.filter fun c => c.type = .single && !isTrump c

/-- Some opponent has at most two cards left. -/
def oppClose (view : BotView) : Bool := view.opponentCounts.min?.any fun n => n ≤ 2

/-- The lead of the endgame: the strongest single against an opponent who is almost out, a card
that nobody can beat, or the biggest cheap play. -/
def endgameLead (view : BotView) (plays : List Combo) : Option Combo :=
  let strongest :=
    if oppClose view then reduce (fun a b => if playCost a < playCost b then b else a) (lowSingles plays) else none
  let lock :=
    if view.hand.length ≤ 8 ∧ 1 < view.hand.length then view.seen.bind (lockSingle plays view.hand) else none
  (strongest.or lock).or (bestUnload plays view.hand)

/-- The policy of the other tiers when the search has no answer. -/
def endgameHeuristic (view : BotView) (plays : List Combo) (canPass : Bool) : Except String BotMove :=
  if view.pile = none then playOf (endgameLead view plays)
  else if (cheapestNonTrump plays).isSome then playOf (cheapestNonTrump plays)
  else if oppClose view then playOf (byCost plays).head?
  else if canPass then .ok .pass
  else playOf (byCost plays).head?

/-- The cards of a seat, 99 if they are not known. -/
def countAt (counts : List ℕ) (seat : ℕ) : ℕ := counts.getD seat 99

/-- The lead that a partner on the last card can beat, unless the next opponent could too. -/
def feedPartner (plays : List Combo) (counts : List ℕ) (me n partner : ℕ) : Option Combo :=
  let nextSeat := (me + 1) % n
  if countAt counts partner ≤ 1 ∧ ¬ (nextSeat ≠ partner ∧ countAt counts nextSeat ≤ 1) then
    reduce (fun a b => if playCost a < playCost b then a else b) (lowSingles plays)
  else none

/-- The move for a partner's sake: a pass on the partner's pile, or a lead that feeds the partner. -/
def teamMove (view : BotView) (plays : List Combo) (canPass : Bool) : Option BotMove :=
  match view.partnerSeat, view.handCounts, view.mySeat, view.numPlayers with
  | some partner, some counts, some me, some n =>
    if view.pile ≠ none ∧ view.pileOwner = some partner ∧ canPass then some .pass
    else if view.pile = none then (feedPartner plays counts me n partner).map fun c => .play c.cards
    else none
  | _, _, _, _ => none

/-! ## The search -/

/-- How much the search may try. -/
structure Budget where
  sims : ℕ := 36
  maxCandidates : ℕ := 14

/-- The budget of the medium tier. -/
def mediumBudget : Budget := { sims := 36, maxCandidates := 14 }

/-- The budget of the hard tier. -/
def hardBudget : Budget := { sims := 64, maxCandidates := 16 }

/-- The unseen cards of a view. -/
def unseen (view : BotView) : List Card := unseenCards view.hand (view.seen.getD [])

/-- The seat is dealt cards: it is in the game, as far as the view tells. -/
def dealtTo (view : BotView) (seat : ℕ) : Bool := (view.active.bind fun active => active[seat]?).getD true

/-- The cards of a seat, 0 if they are not known. -/
def countOf (view : BotView) (seat : ℕ) : ℕ := (view.handCounts.bind fun counts => counts[seat]?).getD 0

/-- The loop of `determinize`: the hands of the seats, from the place `i` of the bag on. -/
def dealHands (view : BotView) (me : ℕ) (bag : List Card) : ℕ → List ℕ → List (List Card)
  | _, [] => []
  | i, seat :: seats =>
    if seat = me then view.hand :: dealHands view me bag i seats
    else if !dealtTo view seat then [] :: dealHands view me bag i seats
    else (bag.drop i).take (countOf view seat) :: dealHands view me bag (i + countOf view seat) seats

/-- The game with the given hands. -/
def simOf (view : BotView) (me n : ℕ) (hands : List (List Card)) : Sim :=
  { n, hands := fun s => hands.getD s [],
    active := fun s =>
      match view.active with
      | some active => active.getD s false
      | none => hands.getD s [] ≠ [],
    passed := boolFromSeats (view.passed.getD []) n, pile := view.pile, owner := view.pileOwner, turn := some me,
    order := view.finishingOrder.getD [], coop := n = 4 && view.partnerSeat.isSome }

variable {σ : Type}

/-- A game that agrees with the view: the unseen cards are shuffled and dealt. -/
def determinize (view : BotView) (me n : ℕ) (rng : StateT σ (Except String) ℚ) : StateT σ (Except String) Sim := do
  let bag ← shuffle (unseen view) rng
  pure (simOf view me n (dealHands view me bag 0 (List.range n)))

/-- How promising a play is before it is searched. -/
def candidateScore (c : Combo) (handSize : ℕ) : ℤ :=
  if c.cards.length = handSize then 10 ^ 9
  else c.cards.length * 100 - baseCost c - (if isTrump c then 1000 else 0)

/-- A candidate is a play, or a pass. -/
abbrev Cand : Type := Option Combo

/-- The move of a candidate. -/
def moveOf : Cand → BotMove
  | some c => .play c.cards
  | none => .pass

/-- The game after a candidate; a seat beyond the table has no hand to play from. -/
def tryCand (sim : Sim) (me : ℕ) : Cand → Except String Sim
  | some combo =>
    if me < sim.n then .ok (sim.applyPlay me combo)
    else .error "Cannot read properties of undefined (reading 'filter')"
  | none => .ok (sim.applyPass me)

/-- The sum of the scores of a candidate over some determinizations. -/
def totalScore (view : BotView) (me n : ℕ) (rng : StateT σ (Except String) ℚ) (cand : Cand) :
    ℕ → StateT σ (Except String) ℕ
  | 0 => pure 0
  | sims + 1 => do
    let sim ← determinize view me n rng
    let score ← liftM (tryCand sim me cand >>= fun sim => sim.playoutScore me view.partnerSeat)
    let rest ← totalScore view me n rng cand sims
    pure (score + rest)

/-- A later candidate has to have a lower average. -/
def betterCand (best : Option (Cand × ℚ)) (cand : Cand) (avg : ℚ) : Option (Cand × ℚ) :=
  if best.all fun b => avg < b.2 then some (cand, avg) else best

/-- The loop over the candidates, with the best so far. -/
def searchLoop (view : BotView) (me n : ℕ) (rng : StateT σ (Except String) ℚ) (sims : ℕ) :
    List Cand → Option (Cand × ℚ) → StateT σ (Except String) (Option BotMove)
  | [], best => pure (best.map fun b => moveOf b.1)
  | cand :: cands, best => do
    let total ← totalScore view me n rng cand sims
    searchLoop view me n rng sims cands (betterCand best cand (total / sims))

/-- The candidates of the search: the plays with the best scores, and the pass. -/
def candidates (view : BotView) (plays : List Combo) (canPass : Bool) (maxCandidates : ℕ) : List Cand :=
  let ranked := plays.insertionSort fun a b => candidateScore b view.hand.length ≤ candidateScore a view.hand.length
  (ranked.take maxCandidates).map some ++ if canPass then [none] else []

/-- A single candidate is not searched. -/
def search (view : BotView) (me n : ℕ) (rng : StateT σ (Except String) ℚ) (sims : ℕ) (cands : List Cand) :
    StateT σ (Except String) (Option BotMove) :=
  match cands with
  | [cand] => pure (some (moveOf cand))
  | _ => searchLoop view me n rng sims cands none

/-- A copy of the enumeration in `botSearch.ts`. -/
def rootPlays (hand : List Card) (pile : Option Combo) (mustInclude : Option Card) : List Combo :=
  enumerateLegalPlays hand pile mustInclude

/-- The search from the enumerated plays. -/
def searchPlays (view : BotView) (me n : ℕ) (rng : StateT σ (Except String) ℚ) (opts : Budget) (plays : List Combo)
    (canPass : Bool) : StateT σ (Except String) (Option BotMove) :=
  if plays = [] then pure (if canPass then some .pass else none)
  else
    match plays.find? fun c => goesOut c view.hand.length with
    | some out => pure (some (.play out.cards))
    | none => search view me n rng opts.sims (candidates view plays canPass opts.maxCandidates)

/-- The move of the search; none without a seat. -/
def chooseBestMove (view : BotView) (rng : StateT σ (Except String) ℚ) (opts : Budget) :
    StateT σ (Except String) (Option BotMove) :=
  match view.mySeat, view.numPlayers with
  | some me, some n =>
    searchPlays view me n rng opts (rootPlays view.hand view.pile view.mustInclude) (view.canPass && view.pile ≠ none)
  | _, _ => pure none

/-! ## The decision -/

/-- The move of a tier by itself. -/
def soloMove (view : BotView) (tier : BotTier) (rng : StateT σ (Except String) ℚ) (plays : List Combo)
    (canPass : Bool) : StateT σ (Except String) BotMove := do
  if tier = .easy then liftM (efficientHeuristic view plays canPass)
  else
    match ← chooseBestMove view rng (if tier = .hard then hardBudget else mediumBudget) with
    | some searched => pure searched
    | none => liftM (endgameHeuristic view plays canPass)

/-- The decision among the enumerated plays. -/
def decideAmong (view : BotView) (tier : BotTier) (rng : StateT σ (Except String) ℚ) (plays : List Combo)
    (canPass : Bool) : StateT σ (Except String) BotMove :=
  if plays = [] then pure .pass
  else
    match plays.find? fun c => goesOut c view.hand.length with
    | some out => pure (.play out.cards)
    | none =>
      match teamMove view plays canPass with
      | some team => pure team
      | none => soloMove view tier rng plays canPass

/-- The decision of a bot. -/
def decideBotMove (view : BotView) (tier : BotTier) (rng : StateT σ (Except String) ℚ) :
    StateT σ (Except String) BotMove :=
  decideAmong view tier rng (enumerateLegalPlays view.hand view.pile view.mustInclude)
    (view.canPass && view.pile ≠ none)

end Murlan.Bot
