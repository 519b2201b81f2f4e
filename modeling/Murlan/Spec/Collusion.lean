import Mathlib.Data.List.DropRight
import Murlan.Base.Run

/-!
# Collusion flags

`collusionFlags` (`antiCheat/heuristics.ts`) and the window of staked matches that
`antiCheat/antiCheatService.ts` keeps for it.
-/

namespace Murlan

/-- A seat of a past match. -/
structure CollusionSeat (U : Type) where
  userId : U
  won : Bool
  team : Option ℕ := none
  deriving DecidableEq, Repr

/-- A match, in which every player has one seat. -/
structure PastMatch (U : Type) where
  seats : List (CollusionSeat U)
  nodup : (seats.map CollusionSeat.userId).Nodup

/-- The two patterns looked for. -/
inductive CollusionType where
  | collusionPairing | chipDump
  deriving DecidableEq, Repr

/-- A suspicion: who, with whom, of what, and how often it was seen. -/
structure CollusionFlag (U : Type) where
  userId : U
  partnerId : U
  type : CollusionType
  severity : ℕ
  count : ℕ
  deriving DecidableEq, Repr

/-- How often a pattern must be seen. -/
structure CollusionOpts where
  pairThreshold : ℕ := 3
  dumpThreshold : ℕ := 3

/-- What a pair has played of each other. -/
structure PairCount where
  coSeat : ℕ := 0
  aBeatsB : ℕ := 0
  bBeatsA : ℕ := 0
  deriving DecidableEq, Repr

section Flags

variable {U : Type} [DecidableEq U]

/-- Two seats of one team; seats with no team are on no common one. -/
def sameTeam (a b : CollusionSeat U) : Bool := a.team.isSome && a.team = b.team

/-- The seat a user had in a past match. -/
def PastMatch.seatOf (m : PastMatch U) (userId : U) : Option (CollusionSeat U) :=
  m.seats.find? fun s => s.userId = userId

/-- One match of the window. -/
def PairCount.add (a b : U) (t : PairCount) (m : PastMatch U) : PairCount :=
  match m.seatOf a, m.seatOf b with
  | some sa, some sb =>
    if sameTeam sa sb then t
    else {
      coSeat := t.coSeat + 1
      aBeatsB := t.aBeatsB + if sa.won && !sb.won then 1 else 0
      bBeatsA := t.bBeatsA + if sb.won && !sa.won then 1 else 0 }
  | _, _ => t

/-- The tally of a pair over the whole window. -/
def pairCount (window : List (PastMatch U)) (a b : U) : PairCount := window.foldl (PairCount.add a b) {}

/-- The flag of two players who meet too often. -/
def pairingFlag (userId partnerId : U) (count : ℕ) : CollusionFlag U :=
  { userId, partnerId, type := .collusionPairing, severity := 2, count }

/-- The one who loses on purpose is flagged high. -/
def dumperFlag (loser winner : U) (count : ℕ) : CollusionFlag U :=
  { userId := loser, partnerId := winner, type := .chipDump, severity := 3, count }

/-- The flag of the one who wins what the other loses. -/
def beneficiaryFlag (winner loser : U) (count : ℕ) : CollusionFlag U :=
  { userId := winner, partnerId := loser, type := .chipDump, severity := 2, count }

/-- The flags of two seats of the current match. -/
def pairFlags (window : List (PastMatch U)) (opts : CollusionOpts) (a b : CollusionSeat U) : List (CollusionFlag U) :=
  if sameTeam a b then []
  else
    let t := pairCount window a.userId b.userId
    let hi := max t.aBeatsB t.bBeatsA
    let lo := min t.aBeatsB t.bBeatsA
    (if t.coSeat = opts.pairThreshold then
      [pairingFlag a.userId b.userId t.coSeat, pairingFlag b.userId a.userId t.coSeat] else []) ++
    if hi = opts.dumpThreshold ∧ lo = 0 then
      if t.bBeatsA < t.aBeatsB then [dumperFlag b.userId a.userId hi, beneficiaryFlag a.userId b.userId hi]
      else [dumperFlag a.userId b.userId hi, beneficiaryFlag b.userId a.userId hi]
    else []

/-- Every two seats, the earlier first. -/
def seatPairs {α : Type} : List α → List (α × α)
  | [] => []
  | a :: seats => seats.map (a, ·) ++ seatPairs seats

/-- The flags of the window's last match, pair by pair. -/
def collusionFlags (window : List (PastMatch U)) (opts : CollusionOpts) : List (CollusionFlag U) :=
  match window.getLast? with
  | none => []
  | some current => (seatPairs current.seats).flatMap fun p => pairFlags window opts p.1 p.2

/-- How many matches the history keeps. -/
def collusionWindow : ℕ := 30

/-- The matches that are kept once another one is analysed. -/
def pushStaked (recentStaked : List (PastMatch U)) (m : PastMatch U) : List (PastMatch U) :=
  let pushed := recentStaked ++ [m]
  if collusionWindow < pushed.length then pushed.tail else pushed

/-- The flags of a match, after the matches before it. -/
def analyzeCollusion (before : List (PastMatch U)) (m : PastMatch U) : List (CollusionFlag U) :=
  collusionFlags (pushStaked (run pushStaked [] before) m) {}

end Flags

end Murlan
