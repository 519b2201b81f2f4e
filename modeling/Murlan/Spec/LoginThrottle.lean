import Mathlib.Logic.Function.Basic
import Murlan.Base.Entries
import Murlan.Base.Run

/-!
# Failed logins

`auth/authService.ts`, `loginThrottled`, `recordLoginFailure` and `login`: the lock of a key is
tested before the user is looked up and the password verified, and the failure is recorded after
that. `K` is the type of the keys, an email with the address it is tried from. Time passes with
the events, by the amounts they carry.
-/

namespace Murlan

/-- What is remembered of a key's failures. -/
structure LoginFailure where
  count : ℕ
  lastFailureAt : ℕ
  lockedUntil : ℕ
  deriving DecidableEq, Repr

/-- The longest a key is locked for. -/
def lockoutMaxMs : ℕ := 60 * 60 * 1000

/-- How many identifiers are kept before the map is pruned. -/
def loginFailuresMax : ℕ := 5000

/-- The logins of a server. `waiting` are the attempts whose lock was tested and whose password
is still being verified, with whether a lock of their key was set since; `wrong` are the times at
which wrong passwords were verified for a key, latest first, since the last right one or the last
idle hour. -/
structure LoginThrottle (K : Type*) where
  maxFailures : ℕ
  windowMs : ℕ
  now : ℕ := 0
  loginFailures : AList fun _ : K => LoginFailure := ∅
  waiting : ℕ → Option (K × Bool) := fun _ => none
  wrong : K → List ℕ := fun _ => []

/-- `attempt`: the lock of a key is tested, which reads the clock twice; `verified`: the password
of an attempt was right or wrong; `lost`: its user could not be looked up. -/
inductive LoginEvent (K : Type*) where
  | attempt (id : ℕ) (key : K) (first second : ℕ)
  | verified (id : ℕ) (ok : Bool) (wait : ℕ)
  | lost (id : ℕ)

namespace LoginThrottle

variable {K : Type*} [DecidableEq K] (s : LoginThrottle K)

/-- The lock that a failure sets, `count` failures having been counted. -/
def penalty (count : ℕ) : ℕ := min lockoutMaxMs (s.windowMs * 2 ^ (count - s.maxFailures))

/-- Whether the key is locked out at `now`, the clock showing `later` at the second look; a
record that has decayed is forgotten. -/
def loginThrottled (key : K) (now later : ℕ) : Bool × AList fun _ : K => LoginFailure :=
  match s.loginFailures.lookup key with
  | none => (false, s.loginFailures)
  | some r =>
    if now < r.lockedUntil then (true, s.loginFailures)
    else if lockoutMaxMs ≤ later - r.lastFailureAt then (false, s.loginFailures.erase key)
    else (false, s.loginFailures)

/-- One more failure is counted, or the first one after an idle time. -/
def counting (key : K) (now : ℕ) : LoginFailure :=
  match s.loginFailures.lookup key with
  | none => { count := 1, lastFailureAt := now, lockedUntil := 0 }
  | some r =>
    if lockoutMaxMs ≤ now - r.lastFailureAt then { count := 1, lastFailureAt := now, lockedUntil := 0 }
    else { r with count := r.count + 1, lastFailureAt := now }

/-- The record of a key after one more failure. -/
def failed (key : K) (now : ℕ) : LoginFailure :=
  let r := s.counting key now
  if s.maxFailures ≤ r.count then { r with lockedUntil := now + s.penalty r.count } else r

/-- One more failure is noted, and the map is pruned when it is full. -/
def recordLoginFailure (key : K) (now : ℕ) : AList fun _ : K => LoginFailure :=
  Entries.prune loginFailuresMax
    (fun _ r => !(decide (lockoutMaxMs ≤ now - r.lastFailureAt) && decide (r.lockedUntil ≤ now)))
    (s.loginFailures.insert key (s.failed key now))

/-- The wrong passwords that still count at `now`. -/
def counted (key : K) (now : ℕ) : List ℕ :=
  match s.wrong key with
  | [] => []
  | last :: rest => if lockoutMaxMs ≤ now - last then [] else last :: rest

/-- The attempts of a key whose lock has been set in the meantime are marked. -/
def overtake (key : K) (armed : Bool) (id : ℕ) : Option (K × Bool) :=
  (s.waiting id).map fun a => (a.1, a.2 || (decide (a.1 = key) && armed))

/-- One event of the server, on its clock, its map and the attempts under way. -/
def step : LoginEvent K → LoginThrottle K
  | .attempt id key first second =>
    let (locked, loginFailures) := s.loginThrottled key (s.now + first) (s.now + first + second)
    { s with
      now := s.now + first + second
      loginFailures := loginFailures
      waiting := if !locked && (s.waiting id).isNone then Function.update s.waiting id (some (key, false)) else s.waiting }
  | .verified id ok wait =>
    match s.waiting id with
    | none => { s with now := s.now + wait }
    | some (key, _) =>
      let now := s.now + wait
      if ok then
        { s with
          now := now
          loginFailures := s.loginFailures.erase key
          waiting := Function.update s.waiting id none
          wrong := Function.update s.wrong key [] }
      else
        { s with
          now := now
          loginFailures := s.recordLoginFailure key now
          waiting := Function.update (s.overtake key (decide (s.maxFailures ≤ (s.failed key now).count))) id none
          wrong := Function.update s.wrong key (now :: s.counted key now) }
  | .lost id => { s with waiting := Function.update s.waiting id none }

end LoginThrottle

end Murlan
