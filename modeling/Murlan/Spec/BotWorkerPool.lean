import Mathlib.Logic.Function.Basic
import Murlan.Base.Run

/-!
# The bot worker pool

`bot/botWorkerPool.ts`: jobs are handed to idle workers, wait in a queue, are answered, time
out, or fail with their worker. The threads, the timers and what a promise was settled with
are part of the state; which of them acts next, and whether a thread can be made, is part of a
call. `V` is the type of moves.
-/

namespace Murlan

/-- What a promise is settled with: the message with the id `reply`, or an error. -/
inductive JobOutcome (V : Type) where
  | resolved (reply : ℕ) (move : V)
  | rejected (err : String)
  deriving DecidableEq, Repr

/-- `threads` are the ones that run, `dying` have reported an error and not yet exited;
`posted` is what a thread has been sent and not yet answered. `timer` is the worker that the
timer of a job is for, while it is armed. -/
structure BotWorkerPool (V : Type) where
  size : ℕ
  workers : List ℕ := []
  idle : List ℕ := []
  queue : List ℕ := []
  inFlight : ℕ → Option ℕ := fun _ => none
  nextId : ℕ := 1
  respawns : ℕ := 0
  disabled : Bool := false
  closing : Bool := false
  timer : ℕ → Option ℕ := fun _ => none
  settled : List (ℕ × JobOutcome V) := []
  threads : List ℕ := []
  dying : List ℕ := []
  posted : ℕ → List ℕ := fun _ => []
  spawned : ℕ := 0

/-- `reply`: a thread answers what it was sent first; `error` and `exit`: a thread reports its
end, and whether another one could be made; `closed`: the threads of a shutdown have ended. -/
inductive BotPoolCall (V : Type) where
  | decide
  | reply (w : ℕ) (move : Option V)
  | timeout (job : ℕ)
  | error (w : ℕ) (canSpawn : Bool)
  | exit (w : ℕ) (code : ℤ) (canSpawn : Bool)
  | shutdown
  | closed

/-- How many dead workers are replaced. -/
def maxRespawns : ℕ := 20

namespace BotWorkerPool

variable {V : Type}

/-- There are workers to ask. -/
def enabled (p : BotWorkerPool V) : Bool := !p.disabled && decide (0 < p.workers.length)

/-- The promise of a job is settled, and its timer cleared. -/
def settle (p : BotWorkerPool V) (job : ℕ) (s : JobOutcome V) : BotWorkerPool V :=
  { p with timer := Function.update p.timer job none, settled := p.settled ++ [(job, s)] }

/-- The promise of a job is rejected. -/
def fail (p : BotWorkerPool V) (err : String) (job : ℕ) : BotWorkerPool V := p.settle job (.rejected err)

/-- The queue is emptied, and its jobs fail. -/
def flush (p : BotWorkerPool V) (err : String) : BotWorkerPool V := p.queue.foldl (fail · err) { p with queue := [] }

/-- A job is posted to a worker. -/
def dispatch (p : BotWorkerPool V) (w job : ℕ) : BotWorkerPool V :=
  { p with
    inFlight := Function.update p.inFlight w (some job)
    timer := Function.update p.timer job (some w)
    posted := Function.update p.posted w (p.posted w ++ [job]) }

/-- A worker that is free takes the next job. -/
def release (p : BotWorkerPool V) (w : ℕ) : BotWorkerPool V :=
  if p.disabled || !p.workers.contains w then p
  else
    match p.queue with
    | [] => { p with idle := p.idle ++ [w] }
    | next :: queue => dispatch { p with queue := queue } w next

/-- A new worker, if a thread can be made. -/
def spawn (p : BotWorkerPool V) (canSpawn : Bool) : BotWorkerPool V :=
  if p.disabled then p
  else if canSpawn then
    release { p with
      workers := p.workers ++ [p.spawned]
      threads := p.threads ++ [p.spawned]
      spawned := p.spawned + 1 } p.spawned
  else { p with disabled := true }

/-- The constructor: `size` threads are made. -/
def boot (canSpawn : List Bool) : BotWorkerPool V := canSpawn.foldl spawn { size := canSpawn.length }

/-- A job is asked for. -/
def decide (p : BotWorkerPool V) : BotWorkerPool V :=
  if p.enabled = false then p
  else
    match p.idle.getLast? with
    | some w => dispatch { p with idle := p.idle.dropLast, nextId := p.nextId + 1 } w p.nextId
    | none => { p with queue := p.queue ++ [p.nextId], nextId := p.nextId + 1 }

/-- The message of a worker with the id `id`; it settles the job of the worker if that is its id. -/
def message (p : BotWorkerPool V) (w id : ℕ) (move : Option V) : BotWorkerPool V :=
  let released := release { p with inFlight := Function.update p.inFlight w none } w
  match p.inFlight w with
  | none => released
  | some job =>
    if job = id then
      match move with
      | some move => released.settle job (.resolved id move)
      | none => released.settle job (.rejected "bot worker error")
    else released

/-- The worker leaves the pool, and its job fails. -/
def drop (p : BotWorkerPool V) (w : ℕ) (why : String) : BotWorkerPool V :=
  let left := { p with
    inFlight := Function.update p.inFlight w none
    workers := p.workers.erase w
    idle := p.idle.erase w }
  match p.inFlight w with
  | none => left
  | some job => left.fail why job

/-- Another worker for one that died, up to a number of times. -/
def respawn (p : BotWorkerPool V) (canSpawn : Bool) : BotWorkerPool V :=
  if p.disabled then p
  else if maxRespawns < p.respawns + 1 then
    flush { p with respawns := p.respawns + 1, disabled := true } "pool disabled"
  else spawn { p with respawns := p.respawns + 1 } canSpawn

/-- The handler of `error` and of `exit`. -/
def die (p : BotWorkerPool V) (w : ℕ) (why : String) (canSpawn : Bool) : BotWorkerPool V :=
  respawn (p.drop w why) canSpawn

/-- Each event by its handler. -/
def step (p : BotWorkerPool V) : BotPoolCall V → BotWorkerPool V
  | .decide => p.decide
  | .reply w move =>
    match p.posted w with
    | [] => p
    | id :: rest =>
      if w ∈ p.threads then message { p with posted := Function.update p.posted w rest } w id move else p
  | .timeout job =>
    match p.timer job with
    | none => p
    | some w =>
      fail (if p.inFlight w = some job then { p with inFlight := Function.update p.inFlight w none } else p)
        "bot worker timeout" job
  | .error w canSpawn =>
    if w ∈ p.threads then
      die { p with
        threads := p.threads.erase w
        dying := p.dying ++ [w]
        posted := Function.update p.posted w [] } w "error" canSpawn
    else p
  | .exit w code canSpawn =>
    if w ∈ p.threads ∨ w ∈ p.dying then
      let ended := { p with
        threads := p.threads.erase w
        dying := p.dying.erase w
        posted := Function.update p.posted w [] }
      if code = 0 then ended else die ended w s!"exit {code}" canSpawn
    else p
  | .shutdown => flush { p with disabled := true, closing := true } "pool shut down"
  | .closed => if p.closing then { p with workers := [], idle := [] } else p

end BotWorkerPool

end Murlan
