import Murlan.Base.Run
import Murlan.Spec.Replay
import Murlan.Spec.Room

/-!
# Commit, deal, reveal

`server/src/realtime/fairnessCoordinator.ts` and the code of `realtime/gateway.ts` that drives it:
`maybeStartCountdown` and `clearCountdown` (the commitment), `fair:clientSeed` and `onDisconnect`,
`beginMatch` (the deal), `settleAndEmitMatchEnd` and `adminVoidMatch` with all their exits, and
`revealFair`.

A start and an end of a match await other services; what awaits is a `FairStart` or a `FairEnding`
that a later event takes on. Of the rooms only their match ids and live matches are kept, and which are gone: the
last player may leave at any time. Whether everyone is ready, who sits where, whether a match
starts and what the services answer are the environment's, and so are the random bytes. The
seeds' rows are those of the memory repository.
Left out: the checks and the escrow of a start, and whatever does not touch a seed.
-/

namespace Murlan

/-- A shuffle is an object, which the dealer of the match holds too; it goes by its number. -/
structure FairnessCoordinator where
  byRoom : ℕ → Option ℕ := fun _ => none
  pendingSeeds : ℕ → Option String := fun _ => none
  clientSeeds : User → Option String := fun _ => none

namespace FairnessCoordinator

/-- A client's seed is remembered; a later one replaces it. -/
def recordClientSeed (f : FairnessCoordinator) (userId : User) (seed : String) : FairnessCoordinator :=
  { f with clientSeeds := Function.update f.clientSeeds userId (some seed) }

/-- The seed of a client that left is forgotten. -/
def dropClientSeed (f : FairnessCoordinator) (userId : User) : FairnessCoordinator :=
  { f with clientSeeds := Function.update f.clientSeeds userId none }

/-- The seed behind a published commitment is kept for the room. -/
def commitServerSeed (f : FairnessCoordinator) (roomId : ℕ) (serverSeed : String) : FairnessCoordinator :=
  { f with pendingSeeds := Function.update f.pendingSeeds roomId (some serverSeed) }

/-- A commitment that came to nothing drops its seed. -/
def abandonServerSeed (f : FairnessCoordinator) (roomId : ℕ) : FairnessCoordinator :=
  { f with pendingSeeds := Function.update f.pendingSeeds roomId none }

/-- Keep the shuffle for the reveal and consume the pending seed. -/
def recordDeal (f : FairnessCoordinator) (roomId fair : ℕ) : FairnessCoordinator :=
  { f with byRoom := Function.update f.byRoom roomId (some fair),
           pendingSeeds := Function.update f.pendingSeeds roomId none }

/-- The room's shuffle is forgotten. -/
def clearShuffle (f : FairnessCoordinator) (roomId : ℕ) : FairnessCoordinator :=
  { f with byRoom := Function.update f.byRoom roomId none }

end FairnessCoordinator

/-- A match that is played, and the shuffle that deals it. -/
structure FairMatch where
  matchId : MatchId
  shuffle : ℕ
  practice : Bool
  deriving DecidableEq, Repr

/-- A match start: the room and the match id given out. -/
structure FairStart where
  roomId : ℕ
  matchId : MatchId
  deriving DecidableEq, Repr

/-- Where the end of a match awaits, as in `EndingStage`. -/
inductive FairStage where
  | refunding | settling | recording | voiding
  deriving DecidableEq, Repr

/-- An end that has not returned; `match_` is the match that has ended. -/
structure FairEnding where
  roomId : ℕ
  match_ : FairMatch
  stage : FairStage
  deriving DecidableEq, Repr

/-- How the end of a match returns; `voidedClosed` is a void whose room is gone by then. -/
inductive EndExit where
  | alreadyFinalized | voided | voidedClosed | refundFailed | settledElsewhere | settleFailed | noScoreboard
  | announced
  deriving DecidableEq, Repr

/-- What becomes of the call that an end awaits. -/
inductive EndAnswer where
  | done | null | threw
  deriving DecidableEq, Repr

/-- What is sent to a room, and what the dealer deals there; the numbers of the shuffles are not sent. -/
inductive FairNote where
  | commit (roomId : ℕ) (serverSeedHash : String)
  | deal (roomId shuffle index : ℕ) (hands : List (List Card))
  | reveal (roomId shuffle : ℕ) (r : FairReveal) (matchId : Option MatchId)
  deriving DecidableEq

/-- What a start reads of its room. -/
structure FairRoom where
  type : MatchType
  seats : List (Option User)
  stakeCents : ℕ
  practice : Bool

/-- What the end of a match reads of its room. -/
structure EndRoom where
  practice : Bool := false
  tournament : Bool := false
  scoreboard : Bool := true

/-- The random bytes a start may draw. -/
structure DealBytes where
  serverSeed : Vector UInt8 32
  entropy : Vector UInt8 32
  combined : Vector UInt8 16

/-- The server as the deals see it: seeds, shuffles, matches, ends under way and what was published. -/
structure FairServer where
  fairness : FairnessCoordinator := {}
  shuffles : ℕ → Option FairShuffle := fun _ => none
  nextShuffle : ℕ := 0
  matchSeq : ℕ → ℕ := fun _ => 0
  matchIds : ℕ → Option MatchId := fun _ => none
  live : ℕ → Option FairMatch := fun _ => none
  closed : ℕ → Bool := fun _ => false
  countdowns : ℕ → Bool := fun _ => false
  starts : ℕ → Option FairStart := fun _ => none
  nextStart : ℕ := 0
  finalized : List MatchId := []
  endings : ℕ → Option FairEnding := fun _ => none
  nextEnding : ℕ := 0
  exits : List (FairMatch × EndExit) := []
  games : ReplayStore MatchId := {}
  notes : List FairNote := []

/-- One turn of the event loop. -/
inductive FairEvent where
  | check (roomId : ℕ) (allReady : Bool) (seats : List (Option User)) (bytes : Vector UInt8 32)
  | close (roomId : ℕ)
  | clientSeed (userId : User) (seed : String)
  | disconnect (userId : User)
  | countdown (roomId : ℕ) (allReady : Bool)
  | deal (k : ℕ) (room : FairRoom) (starts : Bool) (bytes : DealBytes)
  | giveUp (k : ℕ)
  | nextGame (roomId : ℕ)
  | matchEnded (roomId : ℕ) (won : Bool) (room : EndRoom)
  | adminVoid (roomId : ℕ)
  | resume (k : ℕ) (answer : EndAnswer) (room : EndRoom)

namespace FairServer

variable (H : Hashes) (money : Bool) (s : FairServer)

/-- A note is published. -/
def note (n : FairNote) : FairServer := { s with notes := s.notes ++ [n] }

/-! ## The commitment -/

/-- The room's countdown stops, and the seed committed for it is dropped. -/
def clearCountdown (roomId : ℕ) : FairServer :=
  { s with countdowns := Function.update s.countdowns roomId false, fairness := s.fairness.abandonServerSeed roomId }

/-- The last player has left: no match id is found for the room any more, and nobody is ready.
The shuffle stays. -/
def closeRoom (roomId : ℕ) : FairServer :=
  { s.clearCountdown roomId with
    matchIds := Function.update s.matchIds roomId none
    live := Function.update s.live roomId none
    closed := Function.update s.closed roomId true }

/-- With everyone ready, commit to a new seed, drop the seeds of the seated users and count down. -/
def maybeStartCountdown (roomId : ℕ) (allReady : Bool) (seats : List (Option User)) (bytes : Vector UInt8 32) :
    FairServer :=
  if !allReady || s.closed roomId then s.clearCountdown roomId
  else if s.countdowns roomId then s
  else
    let serverSeed := hex bytes.toList
    { s with
      fairness := (seats.filterMap id).foldl FairnessCoordinator.dropClientSeed
        (s.fairness.commitServerSeed roomId serverSeed)
      countdowns := Function.update s.countdowns roomId true
      notes := s.notes ++ [.commit roomId (H.sha256Hex serverSeed)] }

/-- `fair:clientSeed` -/
def onClientSeed (userId : User) (seed : String) : FairServer :=
  if 0 < seed.length ∧ seed.length ≤ 128 then { s with fairness := s.fairness.recordClientSeed userId seed } else s

/-! ## The deal -/

/-- The countdown has run down: a new match id, if everyone is still ready. -/
def onCountdown (roomId : ℕ) (allReady : Bool) : FairServer :=
  if !s.countdowns roomId then s
  else
    let s := { s with countdowns := Function.update s.countdowns roomId false }
    if !allReady || s.closed roomId then s
    else
      let matchId : MatchId := { tag := 0, roomId, seq := s.matchSeq roomId + 1 }
      { s with
        finalized := s.finalized.filter fun id => some id ≠ s.matchIds roomId
        matchSeq := Function.update s.matchSeq roomId (s.matchSeq roomId + 1)
        matchIds := Function.update s.matchIds roomId (some matchId)
        starts := Function.update s.starts s.nextStart (some { roomId, matchId })
        nextStart := s.nextStart + 1 }

/-- The start of a match returns. -/
def endStart (k : ℕ) : FairServer := { s with starts := Function.update s.starts k none }

/-- The seeds of the seated users. -/
def seatedSeeds (seats : List (Option User)) : List String :=
  (seats.map fun u => (u.bind s.fairness.clientSeeds).getD "").filter fun seed => seed ≠ ""

/-- The client's part of the seed of a match. -/
def mixedSeed (room : FairRoom) (serverSeed : String) (bytes : DealBytes) : String :=
  let seeds := s.seatedSeeds room.seats
  if 0 < seeds.length then H.combineClientSeeds seeds bytes.combined
  else if 0 < room.stakeCents then H.sha256Hex (serverSeed ++ ":" ++ hex bytes.entropy.toList)
  else H.sha256Hex (serverSeed ++ ":auto")

/-- The dealer of a match deals the next game, and its seeds are stored, unless it is practice. -/
def dealNext (roomId : ℕ) (m : FairMatch) : FairServer :=
  match s.shuffles m.shuffle with
  | none => s
  | some fair =>
    match (H.nextDeal).run fair with
    | .error _ => s
    | .ok (hands, fair') =>
      let index := fair.games.length
      { s with
        shuffles := Function.update s.shuffles m.shuffle (some fair')
        notes := s.notes ++ [.deal roomId m.shuffle index hands]
        games := if m.practice then s.games else s.games.recordGame
          { matchId := m.matchId, index, serverSeed := fair.serverSeed, serverSeedHash := fair.serverSeedHash,
            clientSeed := fair.clientSeed, nonce := index } }

/-- The seed committed at the countdown, or one that is committed now. -/
def committedSeed (roomId : ℕ) (bytes : DealBytes) : String × FairServer :=
  match truthy (s.fairness.pendingSeeds roomId) with
  | some serverSeed => (serverSeed, s)
  | none =>
    let serverSeed := hex bytes.serverSeed.toList
    (serverSeed, s.note (.commit roomId (H.sha256Hex serverSeed)))

/-- A start goes on to its deal. A room that is gone, or has a live match, refuses to start one. -/
def deal (k : ℕ) (room : FairRoom) (starts : Bool) (bytes : DealBytes) : FairServer :=
  match s.starts k with
  | none => s
  | some x =>
    let (serverSeed, s₁) := s.committedSeed H x.roomId bytes
    if starts ∧ s.live x.roomId = none ∧ s.closed x.roomId = false then
      let fair := H.createFairShuffle (playersForType room.type) (some (s.mixedSeed H room serverSeed bytes))
        (some serverSeed) bytes.serverSeed bytes.combined
      let m : FairMatch := { matchId := x.matchId, shuffle := s.nextShuffle, practice := room.practice }
      let s₂ := ({ s₁ with
        shuffles := Function.update s₁.shuffles s.nextShuffle (some fair)
        nextShuffle := s.nextShuffle + 1
        live := Function.update s₁.live x.roomId (some m) }).dealNext H x.roomId m
      ({ s₂ with fairness := s₂.fairness.recordDeal x.roomId m.shuffle }).endStart k
    else s₁.endStart k

/-- The match in a room goes on to its next game. -/
def nextGame (roomId : ℕ) : FairServer :=
  match s.live roomId with
  | none => s
  | some m => s.dealNext H roomId m

/-! ## The reveal -/

/-- Publish the seed of the room's shuffle, for the match that the room's id names. -/
def revealFair (roomId : ℕ) : FairServer :=
  match s.fairness.byRoom roomId with
  | none => s
  | some x =>
    match s.shuffles x with
    | none => s
    | some fair =>
      { s with
        notes := s.notes ++ [.reveal roomId x fair.reveal (s.matchIds roomId)]
        games := (s.matchIds roomId).elim s.games s.games.revealMatch
        fairness := s.fairness.clearShuffle roomId }

/-- The end of a match returns. -/
def exit (m : FairMatch) (e : EndExit) : FairServer := { s with exits := s.exits ++ [(m, e)] }

/-- `match:end` of a match that is void, then the reveal. -/
def void (roomId : ℕ) (m : FairMatch) : FairServer :=
  (s.revealFair roomId).exit m (if s.closed roomId then .voidedClosed else .voided)

/-- `match:end` of a match that has a score board, then the reveal. -/
def announce (roomId : ℕ) (m : FairMatch) (room : EndRoom) : FairServer :=
  if room.scoreboard then (s.revealFair roomId).exit m .announced else s.exit m .noScoreboard

/-- An end of a match waits on the money. -/
def await (roomId : ℕ) (m : FairMatch) (stage : FairStage) : FairServer :=
  { s with endings := Function.update s.endings s.nextEnding (some { roomId, match_ := m, stage })
           nextEnding := s.nextEnding + 1 }

/-- A tournament match has no ranked result to await. -/
def afterPayout (roomId : ℕ) (m : FairMatch) (room : EndRoom) : FairServer :=
  if room.tournament then s.announce roomId m room else s.await roomId m .recording

/-- What a match is finalized under: the id its room has, or the room. -/
def finalizeKey (roomId : ℕ) : MatchId := (s.matchIds roomId).getD { tag := 0, roomId, seq := 0 }

/-- Finalize the live match of a room, once. -/
def claimFinalize (roomId : ℕ) : Option FairServer :=
  if s.finalizeKey roomId ∈ s.finalized then none
  else
    let all := s.finalized ++ [s.finalizeKey roomId]
    some { s with finalized := if 10000 < all.length then all.tail else all }

/-- The live match of a room is over. -/
def settleAndEmitMatchEnd (roomId : ℕ) (won : Bool) (room : EndRoom) : FairServer :=
  match s.live roomId with
  | none => s
  | some m =>
    let s := { s with live := Function.update s.live roomId none }
    match s.claimFinalize roomId with
    | none => s.exit m .alreadyFinalized
    | some s =>
      if !won then
        if money ∧ (s.matchIds roomId).isSome then s.await roomId m .refunding
        else s.void roomId m
      else if money ∧ (s.matchIds roomId).isSome ∧ !room.practice then s.await roomId m .settling
      else s.afterPayout roomId m room

/-- An admin voids the live match of a room. -/
def adminVoidMatch (roomId : ℕ) : FairServer :=
  match s.live roomId with
  | none => s
  | some m =>
    match s.claimFinalize roomId with
    | none => s
    | some s =>
      let s := { s with live := Function.update s.live roomId none }
      if money ∧ (s.matchIds roomId).isSome then s.await roomId m .voiding
      else s.void roomId m

/-- The end has run to its last line. -/
def endEnding (k : ℕ) : FairServer := { s with endings := Function.update s.endings k none }

/-- What an end reads of its room: of one that is gone there is nothing left. -/
def endRoom (roomId : ℕ) (room : EndRoom) : EndRoom :=
  if s.closed roomId then { practice := false, tournament := false, scoreboard := false } else room

/-- The end of a match goes on. -/
def resumeEnding (k : ℕ) (answer : EndAnswer) (room : EndRoom) : FairServer :=
  match s.endings k with
  | none => s
  | some x =>
    let s := s.endEnding k
    let room := s.endRoom x.roomId room
    match x.stage, answer with
    | .refunding, .threw => s.exit x.match_ .refundFailed
    | .refunding, _ => s.void x.roomId x.match_
    | .settling, .done => s.afterPayout x.roomId x.match_ room
    | .settling, .null => s.exit x.match_ .settledElsewhere
    | .settling, .threw => s.exit x.match_ .settleFailed
    | .recording, _ => s.announce x.roomId x.match_ room
    | .voiding, .threw => s.exit x.match_ .refundFailed
    | .voiding, _ => s.void x.roomId x.match_

/-- One step of the server; `money` says whether it has the money services. -/
def step : FairEvent → FairServer
  | .check i allReady seats bytes => s.maybeStartCountdown H i allReady seats bytes
  | .close i => s.closeRoom i
  | .clientSeed u seed => s.onClientSeed u seed
  | .disconnect u => { s with fairness := s.fairness.dropClientSeed u }
  | .countdown i allReady => s.onCountdown i allReady
  | .deal k room starts bytes => s.deal H k room starts bytes
  | .giveUp k => s.endStart k
  | .nextGame i => s.nextGame H i
  | .matchEnded i won room => s.settleAndEmitMatchEnd money i won room
  | .adminVoid i => s.adminVoidMatch money i
  | .resume k answer room => s.resumeEnding k answer room

end FairServer

end Murlan
