import Mathlib.Data.List.Sort
import Mathlib.Data.Rat.Defs
import Mathlib.Algebra.Order.Ring.Rat
import Murlan.Base.Run
import Murlan.Spec.Scoring

/-!
# The matchmaking queue

`realtime/matchmaking.ts`: one waiting pool for each match type, and groups around the longest
waiter. The match types are any type with a number of players each; `MatchType` with
`playersForType` is the one of the repository.
-/

namespace Murlan.Matchmaking

/-- A waiting player. -/
structure QueueEntry (T : Type) where
  userId : ℕ
  username : String
  rating : ℚ
  matchType : T
  since : ℕ
  deriving DecidableEq

/-- The pools, in the order in which the map holds their types. -/
structure MatchmakingService (T : Type) where
  queues : List (T × List (QueueEntry T)) := []
  tolerance : ℚ := 1000

variable {T : Type} [DecidableEq T]

namespace MatchmakingService

/-- The queue of a type, once it has been made. -/
def find (m : MatchmakingService T) (type : T) : Option (List (QueueEntry T)) :=
  (m.queues.find? fun q => q.1 = type).map Prod.snd

/-- `queues.set(type, p)` -/
def set (m : MatchmakingService T) (type : T) (p : List (QueueEntry T)) : MatchmakingService T :=
  if m.queues.any fun q => q.1 = type then
    { m with queues := m.queues.map fun q => if q.1 = type then (type, p) else q }
  else { m with queues := m.queues ++ [(type, p)] }

/-- The pool of a type; an empty one is made if there is none. -/
def pool (m : MatchmakingService T) (type : T) : List (QueueEntry T) × MatchmakingService T :=
  match m.find type with
  | some p => (p, m)
  | none => ([], m.set type [])

/-- The pool as it is. -/
def waiting (m : MatchmakingService T) (type : T) : List (QueueEntry T) := (m.find type).getD []

/-- Whether somebody was removed, and the pools after it. -/
def remove (m : MatchmakingService T) (userId : ℕ) : Bool × MatchmakingService T :=
  let next := fun q : T × List (QueueEntry T) => q.2.filter fun e => e.userId ≠ userId
  (m.queues.any fun q => (next q).length ≠ q.2.length,
    { m with queues := m.queues.map fun q => if (next q).length ≠ q.2.length then (q.1, next q) else q })

/-- `enqueue`: the player leaves any queue, then joins the end of this one. -/
def enqueue (m : MatchmakingService T) (entry : QueueEntry T) : MatchmakingService T :=
  let m' := (m.remove entry.userId).2
  let p := m'.pool entry.matchType
  p.2.set entry.matchType (p.1 ++ [entry])

end MatchmakingService

/-- `p.reduce((a, b) => (a.since <= b.since ? a : b))`, which throws on an empty pool. -/
def anchor : List (QueueEntry T) → Option (QueueEntry T)
  | [] => none
  | e :: p => some (p.foldl (fun a b => if a.since ≤ b.since then a else b) e)

/-- How far the rating of an entry lies from the anchor's. -/
def distance (a e : QueueEntry T) : ℚ := |e.rating - a.rating|

/-- The order of `sort`: by distance from the anchor, then by time. -/
def Closer (a x y : QueueEntry T) : Prop :=
  distance a x < distance a y ∨ (distance a x = distance a y ∧ x.since ≤ y.since)

instance (a x y : QueueEntry T) : Decidable (Closer a x y) := inferInstanceAs (Decidable (_ ∨ _))

namespace MatchmakingService

/-- The group that is formed, if any, and the pools after it. -/
def formGroup (needed : T → ℕ) (m : MatchmakingService T) (type : T) :
    Option (List (QueueEntry T)) × MatchmakingService T :=
  let p := m.pool type
  if p.1.length < needed type then (none, p.2)
  else
    match anchor p.1 with
    | none => (none, p.2)
    | some a =>
      let eligible := p.1.filter fun e => distance a e ≤ m.tolerance
      if eligible.length < needed type then (none, p.2)
      else
        let group := (eligible.insertionSort (Closer a)).take (needed type)
        (some group, p.2.set type (p.1.filter fun e => e.userId ∉ group.map QueueEntry.userId))

/-- A call from outside. -/
inductive Call (T : Type) where
  | enqueue (entry : QueueEntry T)
  | remove (userId : ℕ)
  | formGroup (type : T)

/-- One call on the service. -/
def step (needed : T → ℕ) (m : MatchmakingService T) : Call T → MatchmakingService T
  | .enqueue entry => m.enqueue entry
  | .remove userId => (m.remove userId).2
  | .formGroup type => (m.formGroup needed type).2

end MatchmakingService

end Murlan.Matchmaking
