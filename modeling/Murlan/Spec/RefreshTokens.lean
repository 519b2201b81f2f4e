import Murlan.Base.Crew

/-!
# Sessions

`authService.ts` over the in-memory store of `refreshTokens.ts`: register, login, refresh
with rotation and reuse detection, logout and `revokeAllSessions`. The ids of users, tokens
and families (`randomUUID`) are drawn from one counter. Whether a password is right and
whether the signature library takes a token that was issued for expired is the
environment's; it takes no token that was not issued.
-/

namespace Murlan

/-- A refresh token's row. -/
structure RefreshTokenRecord where
  jti : ℕ
  userId : ℕ
  family : ℕ
  revoked : Bool := false
  expiresAt : ℕ
  deriving DecidableEq, Repr

/-- What a refresh token says; `ver` is the user's `tokenVersion` at issue. -/
structure RefreshClaims where
  sub : ℕ
  jti : ℕ
  family : ℕ
  ver : ℕ
  deriving DecidableEq, Repr

/-- `allowed` is what the account-state gate says of the user, `owner` whether he is the platform's. -/
structure SessionUser where
  id : ℕ
  email : String
  username : String
  tokenVersion : ℕ := 0
  allowed : Bool := true
  owner : Bool := false
  deriving DecidableEq, Repr

namespace RefreshTokens

/-- `Map.set`: a new key goes to the end. -/
def save (rows : List RefreshTokenRecord) (r : RefreshTokenRecord) : List RefreshTokenRecord :=
  if rows.any (·.jti = r.jti) then rows.map fun x => if x.jti = r.jti then r else x else rows ++ [r]

/-- The row of a token id. -/
def find (rows : List RefreshTokenRecord) (jti : ℕ) : Option RefreshTokenRecord := rows.find? (·.jti = jti)

/-- Every row of a kind is revoked. -/
def revokeWhere (rows : List RefreshTokenRecord) (p : RefreshTokenRecord → Bool) : List RefreshTokenRecord :=
  rows.map fun r => if p r then { r with revoked := true } else r

/-- A token's row is revoked. -/
def revoke (rows : List RefreshTokenRecord) (jti : ℕ) : List RefreshTokenRecord := revokeWhere rows (·.jti = jti)

/-- A token's row is revoked if it was not, in one statement. -/
def revokeIfActive (rows : List RefreshTokenRecord) (jti : ℕ) : Bool × List RefreshTokenRecord :=
  if (find rows jti).any (!·.revoked) then (true, revoke rows jti) else (false, rows)

/-- A family's rows are revoked. -/
def revokeFamily (rows : List RefreshTokenRecord) (family : ℕ) : List RefreshTokenRecord :=
  revokeWhere rows (·.family = family)

/-- A user's rows are revoked. -/
def revokeAllForUser (rows : List RefreshTokenRecord) (userId : ℕ) : List RefreshTokenRecord :=
  revokeWhere rows (·.userId = userId)

/-- The loop of `findSuccessor`; `seen` once it has passed the row. -/
def successorFrom (jti family : ℕ) (seen : Bool) : List RefreshTokenRecord → Option RefreshTokenRecord
  | [] => none
  | x :: rows =>
    if x.jti = jti then successorFrom jti family true rows
    else if seen && x.family = family then some x
    else successorFrom jti family seen rows

/-- The next token created in the same family. -/
def findSuccessor (rows : List RefreshTokenRecord) (r : RefreshTokenRecord) : Option RefreshTokenRecord :=
  successorFrom r.jti r.family false rows

end RefreshTokens

/-- `handed` are the refresh tokens handed out so far. -/
structure SessionStore where
  users : List SessionUser := []
  refreshTokens : List RefreshTokenRecord := []
  handed : List RefreshClaims := []
  nextId : ℕ := 0
  now : ℕ := 0

/-- `verifies` is the verdict of the signature library on an issued token; without a token
stands for garbage, too. -/
inductive SessionOp where
  | register (email username : String)
  | login (email : String)
  | refresh (token : RefreshClaims) (verifies : Bool)
  | logout (token : Option RefreshClaims) (verifies : Bool)
  | revokeAllSessions (userId : ℕ)
  deriving DecidableEq, Repr

/-- How a call ends: `parent` is the row whose rotation a session comes from, `reuse` the family that
a refresh has revoked; a logout without a valid token has nothing to revoke. -/
inductive SessionResult where
  | issued (token : RefreshClaims) (parent : Option ℕ)
  | refused (reuse : Option ℕ)
  | ignored
  | loggedOut
  | done
  deriving DecidableEq, Repr

/-- What a call waits for. -/
inductive SessionPhase where
  | hashPassword (email username : String)
  | findByEmail (email username : String)
  | findByUsername (email username : String)
  | create (email username : String)
  | findLogin (email : String)
  | verifyPassword (user : Option SessionUser)
  | save (user : SessionUser) (record : RefreshTokenRecord) (parent : Option ℕ)
  | findById (token : RefreshClaims)
  | find (user : SessionUser) (token : RefreshClaims)
  | revokeIfActive (user : SessionUser) (record : RefreshTokenRecord)
  /-- `left` more tries after this one, if it is to wait. -/
  | findSuccessor (user : SessionUser) (record : RefreshTokenRecord) (wait : Bool) (left : ℕ)
  | sleep (user : SessionUser) (record : RefreshTokenRecord) (left : ℕ)
  | revokeFamily (family : ℕ)
  | revoke (jti : ℕ)
  | bumpTokenVersion (userId : ℕ)
  | revokeAllForUser (userId : ℕ)
  | ended (result : SessionResult)
  deriving DecidableEq, Repr

/-- A call under way. -/
structure SessionTask where
  op : SessionOp
  phase : SessionPhase
  deriving DecidableEq, Repr

/-- What happens beside the calls: the clock, and admins who block a user and let him in again. -/
inductive AuthEvent where
  | clock (ms : ℕ)
  | setAllowed (userId : ℕ) (allowed : Bool)

/-- How often a caller that lost the race looks for the successor. -/
def SUCCESSOR_WAIT_TRIES : ℕ := 10

namespace SessionTask

variable (ttl : ℕ) (s : SessionStore) (t : SessionTask)

/-- The call moves on to its next await. -/
def goto (phase : SessionPhase) : SessionTask := { t with phase }

/-- The call ends refused; the store is left alone. -/
def refuse : SessionTask × SessionStore := (t.goto (.ended (.refused none)), s)

/-- The row of a new session; the token is handed out once it is saved. -/
def issueSession (user : SessionUser) (family parent : Option ℕ) : SessionTask × SessionStore :=
  let record : RefreshTokenRecord :=
    { jti := s.nextId, userId := user.id, family := family.getD (s.nextId + 1), expiresAt := s.now + ttl }
  (t.goto (.save user record parent), { s with nextId := s.nextId + 2 })

/-- A token goes out to the caller. -/
def hand (claims : RefreshClaims) (parent : Option ℕ) : SessionTask × SessionStore :=
  (t.goto (.ended (.issued claims parent)), { s with handed := s.handed ++ [claims] })

/-- The checks of a refresh on its user. -/
def checkUser (token : RefreshClaims) : Option SessionUser → SessionTask × SessionStore
  | none => t.refuse s
  | some user =>
    if token.ver ≠ user.tokenVersion ∨ user.allowed = false then t.refuse s else (t.goto (.find user token), s)

/-- The checks of a refresh on the row of its token. -/
def checkRecord (user : SessionUser) : Option RefreshTokenRecord → SessionTask × SessionStore
  | none => t.refuse s
  | some record =>
    if record.expiresAt < s.now then t.refuse s
    else if record.revoked then (t.goto (.findSuccessor user record false 0), s)
    else (t.goto (.revokeIfActive user record), s)

/-- A successor that was never used is handed out again; reuse revokes the family. -/
def resumeUnusedSuccessor (user : SessionUser) (record : RefreshTokenRecord) (wait : Bool) (left : ℕ) :
    Option RefreshTokenRecord → SessionTask × SessionStore
  | none => (t.goto (if wait then .sleep user record left else .revokeFamily record.family), s)
  | some next =>
    if next.revoked = true ∨ next.expiresAt < s.now then (t.goto (.revokeFamily record.family), s)
    else t.hand s { sub := user.id, jti := next.jti, family := next.family, ver := user.tokenVersion } none

/-- The checks of a login once the password has been verified. -/
def checkLogin (okPassword : Bool) : Option SessionUser → SessionTask × SessionStore
  | none => t.refuse s
  | some user => if okPassword && (user.owner || user.allowed) then t.issueSession ttl s user none none else t.refuse s

/-- The compare-and-set has answered: the one that won issues, the others look for the successor. -/
def rotate (user : SessionUser) (record : RefreshTokenRecord) (won : Bool) (rows : List RefreshTokenRecord) :
    SessionTask × SessionStore :=
  if won then t.issueSession ttl { s with refreshTokens := rows } user (some record.family) (some record.jti)
  else (t.goto (.findSuccessor user record true (SUCCESSOR_WAIT_TRIES - 1)), { s with refreshTokens := rows })

/-- The call at its first wait. -/
def enter (op : SessionOp) : SessionTask :=
  match op with
  | .register email username => ⟨op, .hashPassword email username⟩
  | .login email => ⟨op, .findLogin email⟩
  | .refresh token verifies =>
    if verifies = true ∧ token ∈ s.handed then ⟨op, .findById token⟩ else ⟨op, .ended (.refused none)⟩
  | .logout none _ => ⟨op, .ended .ignored⟩
  | .logout (some token) verifies =>
    if verifies = true ∧ token ∈ s.handed then ⟨op, .revoke token.jti⟩ else ⟨op, .ended .ignored⟩
  | .revokeAllSessions userId => ⟨op, .bumpTokenVersion userId⟩

/-- The call goes on; `w` is whether a password is right, and whether a write that may fail succeeds. -/
def resume (w : Bool) : SessionTask × SessionStore :=
  match t.phase with
  | .hashPassword email username => (t.goto (.findByEmail email username), s)
  | .findByEmail email username =>
    if s.users.any (·.email = email) then t.refuse s else (t.goto (.findByUsername email username), s)
  | .findByUsername email username =>
    if s.users.any (·.username = username) then t.refuse s else (t.goto (.create email username), s)
  | .create email username =>
    -- the unique constraints
    if s.users.any (fun u => u.email = email || u.username = username) then t.refuse s
    else
      t.issueSession ttl
        { s with users := s.users ++ [{ id := s.nextId, email, username }], nextId := s.nextId + 1 }
        { id := s.nextId, email, username } none none
  | .findLogin email => (t.goto (.verifyPassword (s.users.find? (·.email = email))), s)
  | .verifyPassword user => t.checkLogin ttl s w user
  | .save user record parent =>
    t.hand { s with refreshTokens := RefreshTokens.save s.refreshTokens record }
      { sub := user.id, jti := record.jti, family := record.family, ver := user.tokenVersion } parent
  | .findById token => t.checkUser s token (s.users.find? (·.id = token.sub))
  | .find user token => t.checkRecord s user (RefreshTokens.find s.refreshTokens token.jti)
  | .revokeIfActive user record =>
    t.rotate ttl s user record (RefreshTokens.revokeIfActive s.refreshTokens record.jti).1
      (RefreshTokens.revokeIfActive s.refreshTokens record.jti).2
  | .findSuccessor user record wait left =>
    t.resumeUnusedSuccessor s user record wait left (RefreshTokens.findSuccessor s.refreshTokens record)
  | .sleep user record left =>
    (t.goto (if left = 0 then .revokeFamily record.family else .findSuccessor user record true (left - 1)), s)
  | .revokeFamily family =>
    (t.goto (.ended (.refused (some family))),
      { s with refreshTokens := RefreshTokens.revokeFamily s.refreshTokens family })
  | .revoke jti =>
    (t.goto (.ended .loggedOut), { s with refreshTokens := RefreshTokens.revoke s.refreshTokens jti })
  | .bumpTokenVersion userId =>
    (t.goto (.revokeAllForUser userId),
      { s with users := s.users.map fun u => if u.id = userId then { u with tokenVersion := u.tokenVersion + 1 } else u })
  | .revokeAllForUser userId =>
    (t.goto (.ended .done),
      if w then { s with refreshTokens := RefreshTokens.revokeAllForUser s.refreshTokens userId } else s)
  | .ended _ => (t, s)

end SessionTask

/-- What the rest of the server does between two awaits. -/
def SessionStore.drift (s : SessionStore) : AuthEvent → SessionStore
  | .clock ms => { s with now := s.now + ms }
  | .setAllowed userId allowed =>
    { s with users := s.users.map fun u => if u.id = userId then { u with allowed } else u }

/-- The authentication service: a refresh-token row lives for `ttl`. -/
def authService (ttl : ℕ) : Crew SessionStore SessionTask SessionOp Bool AuthEvent where
  enter := SessionTask.enter
  resume := fun w t s => t.resume ttl s w
  drift := fun e s => s.drift e

end Murlan
