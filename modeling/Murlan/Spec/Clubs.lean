import Mathlib.Data.List.Sort
import Murlan.Base.Crew

/-!
# Clubs

`clubService.ts` over the in-memory store of `clubRepository.ts`: create, join, join by code,
leave, and the admin's closing. The joins of one club run one at a time, in an order that is
left open; whether a name and a tag are well formed is the environment's. The reads that
make up the answer of a create or a join are not steps of their own. `U` is the type of user ids.
-/

namespace Murlan

/-- The two roles of a member. -/
inductive ClubRole where
  | founder
  | member
  deriving DecidableEq, Repr

/-- A club's row. -/
structure Club (U : Type) where
  id : ℕ
  tag : String
  founderId : U
  isPrivate : Bool
  joinCode : Option ℕ
  deriving DecidableEq, Repr

/-- A membership row. -/
structure ClubMember (U : Type) where
  userId : U
  clubId : ℕ
  role : ClubRole
  joinedAt : ℕ
  deriving DecidableEq, Repr

/-- The most members a club may have. -/
def MAX_CLUB_MEMBERS : ℕ := 100

/-- `joining` are the clubs a join of which is in its critical section. -/
structure ClubStore (U : Type) where
  clubs : List (Club U) := []
  members : List (ClubMember U) := []
  joining : List ℕ := []
  seq : ℕ := 0
  now : ℕ := 0

namespace ClubStore

variable {U : Type} [DecidableEq U] (s : ClubStore U)

/-- The club of an id. -/
def getClub (id : ℕ) : Option (Club U) := s.clubs.find? (·.id = id)

/-- The private club a join code opens. -/
def getByCode (code : ℕ) : Option (Club U) := s.clubs.find? fun c => c.isPrivate && c.joinCode = some code

/-- The membership row of a user, who has one at most. -/
def memberOf (userId : U) : Option (ClubMember U) := s.members.find? (·.userId = userId)

/-- `Map.set`: a user who has a row keeps its place. -/
def setMember (members : List (ClubMember U)) (m : ClubMember U) : List (ClubMember U) :=
  if members.any (·.userId = m.userId) then members.map fun x => if x.userId = m.userId then m else x
  else members ++ [m]

/-- The club and its founder's row; a private club gets a fresh code. -/
def createClub (userId : U) (tag : String) (isPrivate : Bool) : ClubStore U :=
  { s with
    seq := s.seq + 1
    clubs := s.clubs ++
      [{ id := s.seq + 1, tag, founderId := userId, isPrivate, joinCode := if isPrivate then some (s.seq + 1) else none }]
    members := setMember s.members { userId, clubId := s.seq + 1, role := .founder, joinedAt := s.now } }

/-- The club goes, and its members with it. -/
def deleteClub (id : ℕ) : ClubStore U :=
  { s with clubs := s.clubs.filter (·.id ≠ id), members := s.members.filter (·.clubId ≠ id) }

/-- The club's founder is overwritten. -/
def setFounder (clubId : ℕ) (userId : U) : ClubStore U :=
  { s with clubs := s.clubs.map fun c => if c.id = clubId then { c with founderId := userId } else c }

/-- A user joins as a member, now. -/
def addMember (userId : U) (clubId : ℕ) : ClubStore U :=
  { s with members := s.members ++ [{ userId, clubId, role := .member, joinedAt := s.now }] }

/-- The user's membership goes. -/
def removeMember (userId : U) : ClubStore U := { s with members := s.members.filter (·.userId ≠ userId) }

/-- The user's row says founder. -/
def setRole (userId : U) : ClubStore U :=
  { s with members := s.members.map fun m => if m.userId = userId then { m with role := .founder } else m }

/-- The founder first, then by the time of joining. -/
def sooner (a b : ClubMember U) : Prop := a.role = .founder ∨ b.role ≠ .founder ∧ a.joinedAt ≤ b.joinedAt

instance : DecidableRel (sooner (U := U)) := fun a b =>
  inferInstanceAs (Decidable (a.role = .founder ∨ b.role ≠ .founder ∧ a.joinedAt ≤ b.joinedAt))

/-- A club's members, the one who joined first in front. -/
def listMembers (clubId : ℕ) : List (ClubMember U) := (s.members.filter (·.clubId = clubId)).insertionSort sooner

/-- How many members a club has. -/
def countMembers (clubId : ℕ) : ℕ := s.members.countP (·.clubId = clubId)

end ClubStore

/-- The requests of the club routes. -/
inductive ClubOp (U : Type) where
  | create (userId : U) (tag : String) (isPrivate : Bool)
  | join (userId : U) (clubId : ℕ)
  | joinByCode (userId : U) (code : ℕ)
  | leave (userId : U)
  | adminClose (clubId : ℕ)
  deriving DecidableEq, Repr

/-- What a request that went through answers. -/
inductive ClubResult where
  | created (clubId : ℕ)
  | joined (clubId : ℕ)
  | left
  | closed
  | refused
  deriving DecidableEq, Repr

/-- What a call waits for. -/
inductive ClubPhase (U : Type) where
  | memberOfCreate (userId : U) (tag : String) (isPrivate : Bool)
  | createClub (userId : U) (tag : String) (isPrivate : Bool)
  | memberOfJoin (userId : U) (clubId : ℕ)
  | getClub (userId : U) (clubId : ℕ)
  | memberOfCode (userId : U) (code : ℕ)
  | getByCode (userId : U) (code : ℕ)
  | queued (userId : U) (clubId : ℕ)
  | countMembers (userId : U) (clubId : ℕ)
  | addMember (userId : U) (clubId : ℕ)
  | memberOfLeave (userId : U)
  | removeMember (m : ClubMember U)
  | listMembers (m : ClubMember U)
  | deleteClub (m : ClubMember U)
  | setRole (m : ClubMember U) (heir : U)
  | setFounder (m : ClubMember U) (heir : U)
  | getClosed (clubId : ℕ)
  | closeClub (clubId : ℕ)
  | ended (result : ClubResult)
  deriving DecidableEq, Repr

/-- A request under way. -/
structure ClubTask (U : Type) where
  op : ClubOp U
  phase : ClubPhase U
  deriving DecidableEq, Repr

namespace ClubTask

variable {U : Type} [DecidableEq U] (s : ClubStore U) (t : ClubTask U)

omit [DecidableEq U] in
/-- The call at its first wait. -/
def enter (op : ClubOp U) : ClubTask U :=
  match op with
  | .create userId tag isPrivate => ⟨op, .memberOfCreate userId tag isPrivate⟩
  | .join userId clubId => ⟨op, .memberOfJoin userId clubId⟩
  | .joinByCode userId code => ⟨op, .memberOfCode userId code⟩
  | .leave userId => ⟨op, .memberOfLeave userId⟩
  | .adminClose clubId => ⟨op, .getClosed clubId⟩

omit [DecidableEq U] in
/-- The request moves on to its next await. -/
def goto (phase : ClubPhase U) : ClubTask U := { t with phase }

omit [DecidableEq U] in
/-- The request ends refused; the store is left alone. -/
def refuse : ClubTask U × ClubStore U := (t.goto (.ended .refused), s)

/-- The end of a critical section of `serializeJoin`. -/
def release (clubId : ℕ) (result : ClubResult) : ClubTask U × ClubStore U :=
  (t.goto (.ended result), { s with joining := s.joining.filter (· ≠ clubId) })

omit [DecidableEq U] in
/-- A public club may be joined by its id. -/
def checkClub (userId : U) : Option (Club U) → ClubTask U × ClubStore U
  | none => t.refuse s
  | some c => if c.isPrivate then t.refuse s else (t.goto (.queued userId c.id), s)

omit [DecidableEq U] in
/-- The lookup by code has answered: no club refuses, a club queues the join. -/
def checkCode (userId : U) : Option (Club U) → ClubTask U × ClubStore U
  | none => t.refuse s
  | some c => (t.goto (.queued userId c.id), s)

omit [DecidableEq U] in
/-- A member leaves a club. -/
def checkMember : Option (ClubMember U) → ClubTask U × ClubStore U
  | none => t.refuse s
  | some m => (t.goto (.removeMember m), s)

omit [DecidableEq U] in
/-- What a member who has left does with those who remain: nobody, the club goes; the founder, an heir is promoted. -/
def inherit (m : ClubMember U) : List (ClubMember U) → ClubTask U × ClubStore U
  | [] => (t.goto (.deleteClub m), s)
  | heir :: _ => (t.goto (if m.role = .founder then .setRole m heir.userId else .ended .left), s)

/-- The call goes on; `w` is whether a name and a tag are well formed. -/
def resume (w : Bool) : ClubTask U × ClubStore U :=
  match t.phase with
  | .memberOfCreate userId tag isPrivate =>
    if (s.memberOf userId).isSome || !w then t.refuse s else (t.goto (.createClub userId tag isPrivate), s)
  | .createClub userId tag isPrivate =>
    if s.clubs.any (·.tag = tag.toUpper) then t.refuse s
    else (t.goto (.ended (.created (s.seq + 1))), s.createClub userId tag.toUpper isPrivate)
  | .memberOfJoin userId clubId =>
    if (s.memberOf userId).isSome then t.refuse s else (t.goto (.getClub userId clubId), s)
  | .getClub userId clubId => t.checkClub s userId (s.getClub clubId)
  | .memberOfCode userId code =>
    if (s.memberOf userId).isSome then t.refuse s else (t.goto (.getByCode userId code), s)
  | .getByCode userId code => t.checkCode s userId (s.getByCode code)
  | .queued userId clubId =>
    if clubId ∈ s.joining then (t, s)
    else (t.goto (.countMembers userId clubId), { s with joining := clubId :: s.joining })
  | .countMembers userId clubId =>
    if MAX_CLUB_MEMBERS ≤ s.countMembers clubId then t.release s clubId .refused
    else (t.goto (.addMember userId clubId), s)
  | .addMember userId clubId =>
    -- the unique constraint on the user
    if (s.memberOf userId).isSome then t.release s clubId .refused
    else t.release (s.addMember userId clubId) clubId (.joined clubId)
  | .memberOfLeave userId => t.checkMember s (s.memberOf userId)
  | .removeMember m => (t.goto (.listMembers m), s.removeMember m.userId)
  | .listMembers m => t.inherit s m (s.listMembers m.clubId)
  | .deleteClub m => (t.goto (.ended .left), s.deleteClub m.clubId)
  | .setRole m heir => (t.goto (.setFounder m heir), s.setRole heir)
  | .setFounder m heir => (t.goto (.ended .left), s.setFounder m.clubId heir)
  | .getClosed clubId =>
    if (s.getClub clubId).isSome then (t.goto (.closeClub clubId), s) else t.refuse s
  | .closeClub clubId => (t.goto (.ended .closed), s.deleteClub clubId)
  | .ended _ => (t, s)

end ClubTask

/-- The service; the clock goes on beside the calls. -/
def clubService {U : Type} [DecidableEq U] : Crew (ClubStore U) (ClubTask U) (ClubOp U) Bool ℕ where
  enter := fun _ op => ClubTask.enter op
  resume := fun w t s => t.resume s w
  drift := fun ms s => { s with now := s.now + ms }

end Murlan
