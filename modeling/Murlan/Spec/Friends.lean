import Mathlib.Data.List.Basic

/-!
# Friendships and blocks

`social/friendsRepository.ts` and the calls of `social/friendsService.ts`: a directed
request that becomes a friendship, and a directed block, one row between two users.
-/

namespace Murlan

/-- The three kinds of a row. -/
inductive FriendStatus where
  | pending | accepted | blocked
  deriving DecidableEq, Repr

/-- A row of the friendships table; a block is a row as well. -/
structure Friendship (U : Type) where
  id : ℕ
  requesterId : U
  addresseeId : U
  status : FriendStatus
  deriving DecidableEq, Repr

/-- The rows in the order they were made, and the last number given. -/
structure Friends (U : Type) where
  rows : List (Friendship U) := []
  seq : ℕ := 0

variable {U : Type} [DecidableEq U]

/-- The row is about these two, in either direction. -/
def Friendship.between (r : Friendship U) (a b : U) : Bool :=
  (r.requesterId = a && r.addresseeId = b) || (r.requesterId = b && r.addresseeId = a)

namespace Friends

/-- The first row about two users. -/
def findBetween (f : Friends U) (a b : U) : Option (Friendship U) := f.rows.find? (·.between a b)

/-- A new row. -/
def add (f : Friends U) (requesterId addresseeId : U) (status : FriendStatus) : Friends U :=
  { rows := f.rows ++ [{ id := f.seq + 1, requesterId, addresseeId, status }], seq := f.seq + 1 }

/-- The rows that meet a condition. -/
def keep (f : Friends U) (p : Friendship U → Bool) : Friends U := { f with rows := f.rows.filter p }

/-- A request is written unless some row already stands between the two. -/
def request (f : Friends U) (requesterId addresseeId : U) : Friends U :=
  if (f.findBetween requesterId addresseeId).isSome then f else f.add requesterId addresseeId .pending

/-- Only the addressee acts on a pending request. -/
def respond (f : Friends U) (id : ℕ) (userId : U) (accept : Bool) : Friends U :=
  match f.rows.find? (·.id = id) with
  | none => f
  | some row =>
    if row.addresseeId = userId ∧ row.status = .pending then
      if accept then
        { f with rows := f.rows.map fun r => if r.id = id then { r with status := .accepted } else r }
      else f.keep (·.id ≠ id)
    else f

/-- Either party, but never a block. -/
def remove (f : Friends U) (id : ℕ) (userId : U) : Friends U :=
  match f.rows.find? (·.id = id) with
  | none => f
  | some row =>
    if (row.requesterId = userId ∨ row.addresseeId = userId) ∧ row.status ≠ .blocked then f.keep (·.id ≠ id)
    else f

/-- Any row between the two goes, and the block is recorded. -/
def block (f : Friends U) (blockerId blockedId : U) : Friends U :=
  if blockerId = blockedId then f
  else (f.keep fun r => !r.between blockerId blockedId).add blockerId blockedId .blocked

/-- The blocker's own block goes; a block the other way stays. -/
def unblock (f : Friends U) (blockerId blockedId : U) : Friends U :=
  f.keep fun r => !(r.status = .blocked && r.requesterId = blockerId && r.addresseeId = blockedId)

end Friends

/-- The calls of the service. The target of a request is looked up by name, and may not exist. -/
inductive FriendCall (U : Type) where
  | requestByUsername (requesterId : U) (target : Option U)
  | respond (userId : U) (friendshipId : ℕ) (accept : Bool)
  | remove (userId : U) (friendshipId : ℕ)
  | block (blockerId blockedId : U)
  | unblock (blockerId blockedId : U)

namespace FriendsService

/-- Nothing happens for oneself, for an unknown user, and where there is a block. -/
def requestByUsername (f : Friends U) (requesterId : U) (target : Option U) : Friends U :=
  match target with
  | none => f
  | some targetId =>
    if targetId = requesterId then f
    else if (f.findBetween requesterId targetId).any (·.status = .blocked) then f
    else f.request requesterId targetId

/-- Two users are friends by the first row about them. -/
def areFriends (f : Friends U) (a b : U) : Bool := (f.findBetween a b).any (·.status = .accepted)

end FriendsService

/-- The rows, and who has blocked whom and has not lifted it (no table). -/
structure FriendsWorld (U : Type) where
  friends : Friends U := {}
  blocks : U → U → Bool := fun _ _ => false

namespace FriendsWorld

/-- Who has been told to block whom, after one more word. -/
def setBlock (w : FriendsWorld U) (blockerId blockedId : U) (b : Bool) : U → U → Bool :=
  fun x y => if x = blockerId ∧ y = blockedId then b else w.blocks x y

/-- One call, on the rows and on what the users asked for. -/
def step (w : FriendsWorld U) : FriendCall U → FriendsWorld U
  | .requestByUsername requesterId target =>
    { w with friends := FriendsService.requestByUsername w.friends requesterId target }
  | .respond userId id accept => { w with friends := w.friends.respond id userId accept }
  | .remove userId id => { w with friends := w.friends.remove id userId }
  | .block blockerId blockedId =>
    if blockerId = blockedId then w
    else { friends := w.friends.block blockerId blockedId, blocks := w.setBlock blockerId blockedId true }
  | .unblock blockerId blockedId =>
    { friends := w.friends.unblock blockerId blockedId, blocks := w.setBlock blockerId blockedId false }

end FriendsWorld

end Murlan
