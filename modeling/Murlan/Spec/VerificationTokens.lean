import Murlan.Base.Crew

/-!
# Verification and reset tokens

`authService.ts` over the in-memory store of `verificationTokens.ts`: email verification and
password reset by single-use tokens. A raw token stands for its hash; `generateRawToken`
draws it from a counter. Whether a request is within its hourly cap of emails is the
environment's.
-/

namespace Murlan

/-- What a token is for. -/
inductive VerificationTokenType where
  | emailVerify
  | passwordReset
  deriving DecidableEq, Repr

/-- A token's row. -/
structure VerificationTokenRecord where
  id : ℕ
  userId : ℕ
  type : VerificationTokenType
  tokenHash : ℕ
  expiresAt : ℕ
  usedAt : Option ℕ := none
  deriving DecidableEq, Repr

namespace VerificationTokens

/-- `Map.set`: a new hash goes to the end. -/
def create (rows : List VerificationTokenRecord) (r : VerificationTokenRecord) : List VerificationTokenRecord :=
  if rows.any (·.tokenHash = r.tokenHash) then rows.map fun x => if x.tokenHash = r.tokenHash then r else x
  else rows ++ [r]

/-- The first row of a hash, when it is of the type, unused and not expired. -/
def findValidByHash (rows : List VerificationTokenRecord) (tokenHash : ℕ) (type : VerificationTokenType) (now : ℕ) :
    Option VerificationTokenRecord :=
  (rows.find? (·.tokenHash = tokenHash)).filter fun r => r.type = type ∧ r.usedAt = none ∧ now ≤ r.expiresAt

/-- A token is marked as used. -/
def consume (rows : List VerificationTokenRecord) (id now : ℕ) : List VerificationTokenRecord :=
  rows.map fun r => if r.id = id then { r with usedAt := some now } else r

/-- A user's unused tokens of a type are marked as used. -/
def invalidateUnconsumed (rows : List VerificationTokenRecord) (userId : ℕ) (type : VerificationTokenType) (now : ℕ) :
    List VerificationTokenRecord :=
  rows.map fun r => if r.userId = userId ∧ r.type = type ∧ r.usedAt = none then { r with usedAt := some now } else r

end VerificationTokens

/-- What the users table keeps for these calls. -/
structure VerifiedUser where
  id : ℕ
  email : String
  password : String
  emailVerified : Bool := false
  tokenVersion : ℕ := 0
  deriving DecidableEq, Repr

/-- The tables, the tokens given out and the clock. -/
structure VerificationStore where
  users : List VerifiedUser := []
  tokens : List VerificationTokenRecord := []
  seq : ℕ := 0
  nextRaw : ℕ := 0
  now : ℕ := 0

/-- The four calls. -/
inductive VerificationOp where
  | requestEmailVerification (userId : ℕ)
  | confirmEmailVerification (rawToken : ℕ)
  | requestPasswordReset (email : String)
  | resetPassword (rawToken : ℕ) (newPassword : String)
  deriving DecidableEq, Repr

/-- What a call waits for; one that has ended says which token it has used. -/
inductive VerificationPhase where
  | findById (userId : ℕ)
  | createVerify (userId raw : ℕ)
  | sendEmail
  | findVerify (raw : ℕ)
  | setEmailVerified (record : VerificationTokenRecord)
  | consumeVerify (record : VerificationTokenRecord)
  | findByEmail (email : String)
  | decoy
  | invalidateOlder (userId : ℕ)
  | createReset (userId raw : ℕ)
  | findReset (raw : ℕ) (newPassword : String)
  | hashPassword (record : VerificationTokenRecord) (newPassword : String)
  | setPassword (record : VerificationTokenRecord) (newPassword : String)
  | consumeReset (record : VerificationTokenRecord)
  | invalidateReset (record : VerificationTokenRecord)
  | bumpTokenVersion (record : VerificationTokenRecord)
  | revokeAllForUser (record : VerificationTokenRecord)
  | ended (used : Option ℕ)
  deriving DecidableEq, Repr

/-- A call under way. -/
structure VerificationTask where
  op : VerificationOp
  phase : VerificationPhase
  deriving DecidableEq, Repr

/-- How long a link of a new address is good. -/
def EMAIL_VERIFY_TTL_MS : ℕ := 24 * 60 * 60 * 1000

/-- How long a reset link is good. -/
def PASSWORD_RESET_TTL_MS : ℕ := 60 * 60 * 1000

namespace VerificationStore

variable (s : VerificationStore)

/-- A token is written and given out. -/
def createToken (userId : ℕ) (type : VerificationTokenType) (raw ttl : ℕ) : VerificationStore :=
  { s with
    tokens := VerificationTokens.create s.tokens
      { id := s.seq + 1, userId, type, tokenHash := raw, expiresAt := s.now + ttl }
    seq := s.seq + 1 }

/-- A user's row is changed. -/
def updateUser (userId : ℕ) (f : VerifiedUser → VerifiedUser) : VerificationStore :=
  { s with users := s.users.map fun u => if u.id = userId then f u else u }

end VerificationStore

namespace VerificationTask

variable (s : VerificationStore) (t : VerificationTask)

/-- The call moves on to its next await. -/
def goto (phase : VerificationPhase) : VerificationTask := { t with phase }

/-- `passwordSchema` -/
def validPassword (password : String) : Bool := 8 ≤ password.length && password.length ≤ 128

/-- The call at its first wait. -/
def enter (op : VerificationOp) : VerificationTask :=
  match op with
  | .requestEmailVerification userId => ⟨op, .findById userId⟩
  | .confirmEmailVerification raw => ⟨op, .findVerify raw⟩
  | .requestPasswordReset email => ⟨op, .findByEmail email⟩
  | .resetPassword raw newPassword =>
    ⟨op, if validPassword newPassword then .findReset raw newPassword else .ended none⟩

/-- A request for a verification, once its user was read. -/
def requestVerify (w : Bool) : Option VerifiedUser → VerificationTask × VerificationStore
  | none => (t.goto (.ended none), s)
  | some user =>
    if user.emailVerified = true ∨ w = false then (t.goto (.ended none), s)
    else (t.goto (.createVerify user.id s.nextRaw), { s with nextRaw := s.nextRaw + 1 })

/-- A request for a reset, once its user was read. -/
def requestReset (w : Bool) : Option VerifiedUser → VerificationTask × VerificationStore
  | none => (t.goto .decoy, s)
  | some user => (t.goto (if w then .invalidateOlder user.id else .ended none), s)

/-- The token that was presented, if it is valid. -/
def present (next : VerificationTokenRecord → VerificationPhase) :
    Option VerificationTokenRecord → VerificationTask × VerificationStore
  | none => (t.goto (.ended none), s)
  | some record => (t.goto (next record), s)

/-- The call goes on; `w` is whether a request is within its cap of emails. -/
def resume (w : Bool) : VerificationTask × VerificationStore :=
  match t.phase with
  | .findById userId => t.requestVerify s w (s.users.find? (·.id = userId))
  | .createVerify userId raw =>
    (t.goto .sendEmail, s.createToken userId .emailVerify raw EMAIL_VERIFY_TTL_MS)
  | .sendEmail => (t.goto (.ended none), s)
  | .findVerify raw => t.present s .setEmailVerified (VerificationTokens.findValidByHash s.tokens raw .emailVerify s.now)
  | .setEmailVerified record =>
    (t.goto (.consumeVerify record), s.updateUser record.userId fun u => { u with emailVerified := true })
  | .consumeVerify record =>
    (t.goto (.ended (some record.id)), { s with tokens := VerificationTokens.consume s.tokens record.id s.now })
  | .findByEmail email => t.requestReset s w (s.users.find? (·.email = email))
  -- no row is the decoy's
  | .decoy => (t.goto (.ended none), s)
  | .invalidateOlder userId =>
    (t.goto (.createReset userId s.nextRaw),
      { s with
        tokens := VerificationTokens.invalidateUnconsumed s.tokens userId .passwordReset s.now
        nextRaw := s.nextRaw + 1 })
  | .createReset userId raw =>
    (t.goto (.ended none), s.createToken userId .passwordReset raw PASSWORD_RESET_TTL_MS)
  | .findReset raw newPassword =>
    t.present s (.hashPassword · newPassword) (VerificationTokens.findValidByHash s.tokens raw .passwordReset s.now)
  | .hashPassword record newPassword => (t.goto (.setPassword record newPassword), s)
  | .setPassword record newPassword =>
    (t.goto (.consumeReset record), s.updateUser record.userId fun u => { u with password := newPassword })
  | .consumeReset record =>
    (t.goto (.invalidateReset record), { s with tokens := VerificationTokens.consume s.tokens record.id s.now })
  | .invalidateReset record =>
    (t.goto (.bumpTokenVersion record),
      { s with tokens := VerificationTokens.invalidateUnconsumed s.tokens record.userId .passwordReset s.now })
  | .bumpTokenVersion record =>
    (t.goto (.revokeAllForUser record),
      s.updateUser record.userId fun u => { u with tokenVersion := u.tokenVersion + 1 })
  -- the refresh tokens are not of this store
  | .revokeAllForUser record => (t.goto (.ended (some record.id)), s)
  | .ended _ => (t, s)

end VerificationTask

/-- The email and reset calls of the authentication service; the clock goes on beside them. -/
def verificationService : Crew VerificationStore VerificationTask VerificationOp Bool ℕ where
  enter := fun _ op => VerificationTask.enter op
  resume := fun w t s => t.resume s w
  drift := fun ms s => { s with now := s.now + ms }

end Murlan
