import Mathlib.Logic.Function.Basic
import Murlan.Base.Entries
import Murlan.Base.Run

/-!
# Handshakes and revocations

A socket is let in when its token has the version of its user and the account may log in
(`auth/authService.ts`, `checkSession`; `auth/accountStateService.ts`); for a handshake the answer
is kept for a while (`realtime/handshakeThrottle.ts`, `resolve`; `realtime/gateway.ts`,
`registerAuth`, `onReAuth`). A handshake waits for two reads, and a revocation for its writes;
anything may happen between. Every look at the clock shows what its event says. `U` is the type
of user ids.
-/

namespace Murlan

/-- The states of an account. -/
inductive AccountState where
  | active
  | frozen
  | suspended
  | banned
  deriving DecidableEq, Repr

/-- `owner` is whether the email is the one the platform belongs to. -/
structure SocketUser where
  tokenVersion : ℕ
  accountState : AccountState
  accountStateUntil : Option ℤ
  owner : Bool
  deriving DecidableEq, Repr

/-- What the check of an account answers. -/
inductive AccountCheck where
  | allowed
  | refused (code : String)
  deriving DecidableEq, Repr

/-- The state of an account, a suspension that is over being none. -/
def SocketUser.effective (u : SocketUser) (now : ℤ) : AccountState :=
  match u.accountState, u.accountStateUntil with
  | .suspended, some ends => if ends ≤ now then .active else .suspended
  | state, _ => state

/-- A banned or suspended account is refused with its own code. -/
def SocketUser.checkLogin (u : SocketUser) (now : ℤ) : AccountCheck :=
  match u.effective now with
  | .banned => .refused "account_banned"
  | .suspended => .refused "account_suspended"
  | _ => .allowed

/-- The token's version must be the account's, and the account be free to log in. -/
def checkSession (user : Option SocketUser) (ver : ℕ) (now : ℤ) : AccountCheck :=
  match user with
  | none => .refused "unauthorized"
  | some u =>
    if ver ≠ u.tokenVersion then .refused "unauthorized"
    else if u.owner then .allowed
    else u.checkLogin now

/-- How long an answer is reused. -/
def handshakeCacheMs : ℤ := 3000

/-- How many answers are kept. -/
def handshakeCacheMax : ℕ := 10000

/-- An answer that is kept; `version` is the version of the user when it was read, which the code
does not keep. -/
structure CachedHandshake where
  storedAt : ℤ
  ver : ℕ
  check : AccountCheck
  version : ℕ
  deriving DecidableEq, Repr

/-- A handshake or a re-authentication under way. `stale` is whether its token was older than a
revocation that had returned when it was started, `banned` whether its user was banned then and
has been since; `gate` is what was read, with the version of the user then. -/
structure SocketTry (U : Type*) where
  user : U
  ver : ℕ
  reAuth : Bool
  stale : Bool
  banned : Bool
  gate : Option (AccountCheck × ℕ) := none
  deriving DecidableEq, Repr

/-- `revocations` are the ones under way, with the version that each has set; `revoked` is the
newest version set by one that has returned. -/
structure Handshakes (U : Type*) where
  users : U → Option SocketUser
  cache : AList fun _ : U => CachedHandshake := ∅
  waiting : ℕ → Option (SocketTry U) := fun _ => none
  revocations : ℕ → Option (U × ℕ) := fun _ => none
  revoked : U → ℕ := fun _ => 0

/-- `read`: the user of a try is read; `finish`: the rest of a handshake, the clock being looked
at twice; `lost`: the read fails. `bump` and `returned` are the write of a revocation and its end,
`setState` the write of a ban or of another state. -/
inductive HandshakeEvent (U : Type*) where
  | handshake (i : ℕ) (user : U) (ver : ℕ) (now : ℤ)
  | reAuth (i : ℕ) (user : U) (ver : ℕ)
  | read (i : ℕ) (now : ℤ)
  | finish (i : ℕ) (now later : ℤ)
  | lost (i : ℕ)
  | bump (r : ℕ) (user : U)
  | returned (r : ℕ)
  | setState (user : U) (state : AccountState) (ends : Option ℤ)

namespace Handshakes

variable {U : Type*} [DecidableEq U] (s : Handshakes U)

/-- Whether the user is banned; a ban does not hold for the owner. -/
def isBanned (user : U) : Bool :=
  match s.users user with
  | none => false
  | some u => decide (u.accountState = .banned) && !u.owner

/-- A try that is started. -/
def start (user : U) (ver : ℕ) (reAuth : Bool) : SocketTry U where
  user := user
  ver := ver
  reAuth := reAuth
  stale := decide (ver < s.revoked user)
  banned := s.isBanned user

/-- The answer that is kept for a user, if it is for the version and not too old. -/
def cached (user : U) (ver : ℕ) (now : ℤ) : Option CachedHandshake :=
  match s.cache.lookup user with
  | none => none
  | some c => if c.ver = ver ∧ now - c.storedAt < handshakeCacheMs then some c else none

/-- What `findById` and `checkSession` say of a try, and the version of its user. -/
def gate (t : SocketTry U) (now : ℤ) : AccountCheck × ℕ :=
  (checkSession (s.users t.user) t.ver now, (s.users t.user).elim 0 (·.tokenVersion))

/-- The answer joins the cache, which is pruned when it is full. -/
def store (t : SocketTry U) (gate : AccountCheck × ℕ) (now later : ℤ) : AList fun _ : U => CachedHandshake :=
  Entries.prune handshakeCacheMax (fun _ c => !decide (c.storedAt < later - handshakeCacheMs))
    (s.cache.insert t.user { storedAt := now, ver := t.ver, check := gate.1, version := gate.2 })

/-- The try that an event lets in. -/
def accepted : HandshakeEvent U → Option (SocketTry U)
  | .handshake i user ver now =>
    match s.waiting i, s.cached user ver now with
    | none, some c => if c.check = .allowed then some (s.start user ver false) else none
    | _, _ => none
  | .read i now =>
    match s.waiting i with
    | none => none
    | some t => if t.reAuth ∧ (s.gate t now).1 = .allowed then some t else none
  | .finish i _ _ =>
    match s.waiting i with
    | none => none
    | some t => if t.gate.map Prod.fst = some .allowed then some t else none
  | _ => none

/-- The tries of a user who is not banned any more. -/
def pardon (user : U) (banned : Bool) (i : ℕ) : Option (SocketTry U) :=
  (s.waiting i).map fun t => { t with banned := t.banned && (decide (t.user ≠ user) || banned) }

/-- One event of the server, on the cache and the handshakes under way. -/
def step : HandshakeEvent U → Handshakes U
  | .handshake i user ver now =>
    match s.waiting i, s.cached user ver now with
    | none, none => { s with waiting := Function.update s.waiting i (some (s.start user ver false)) }
    | _, _ => s
  | .reAuth i user ver =>
    match s.waiting i with
    | none => { s with waiting := Function.update s.waiting i (some (s.start user ver true)) }
    | some _ => s
  | .read i now =>
    match s.waiting i with
    | none => s
    | some t =>
      if t.reAuth then { s with waiting := Function.update s.waiting i none }
      else if t.gate = none then
        { s with waiting := Function.update s.waiting i (some { t with gate := some (s.gate t now) }) }
      else s
  | .finish i now later =>
    match s.waiting i with
    | none => s
    | some t =>
      match t.gate with
      | none => s
      | some gate => { s with cache := s.store t gate now later, waiting := Function.update s.waiting i none }
  | .lost i => { s with waiting := Function.update s.waiting i none }
  | .bump r user =>
    match s.users user with
    | none => s
    | some u =>
      { s with
        users := Function.update s.users user (some { u with tokenVersion := u.tokenVersion + 1 })
        revocations := Function.update s.revocations r (some (user, u.tokenVersion + 1)) }
  | .returned r =>
    match s.revocations r with
    | none => s
    | some (user, version) =>
      { s with
        revocations := Function.update s.revocations r none
        revoked := Function.update s.revoked user (max (s.revoked user) version) }
  | .setState user state ends =>
    match s.users user with
    | none => s
    | some u =>
      { s with
        users := Function.update s.users user (some { u with accountState := state, accountStateUntil := ends })
        waiting := s.pardon user (decide (state = .banned) && !u.owner) }

end Handshakes

end Murlan
