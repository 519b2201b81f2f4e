import Murlan.Base.Crew

/-!
# Self-service compliance

The compliance fields of one user and the two requests by which a player changes them:
`POST /api/account/self-exclude` (`accountRoutes`) and `POST /api/account/profile`
(`AuthService.updateSelfProfile`). Each reads the user, decides, and writes in a later step.
-/

namespace Murlan

/-- The stages of an identity check. -/
inductive KycStatus where
  | none | pending | verified
  deriving DecidableEq, Repr

/-- What the users table keeps for compliance. -/
structure ComplianceRow where
  kycStatus : KycStatus := .none
  dateOfBirth : Option String := none
  country : Option String := none
  selfExcludedUntil : Option ℕ := none
  deriving DecidableEq, Repr

/-- A field that is not given is left as it is. -/
structure ComplianceUpdate where
  kycStatus : Option KycStatus := none
  dateOfBirth : Option String := none
  country : Option String := none
  selfExcludedUntil : Option ℕ := none
  deriving DecidableEq, Repr

namespace UserRepository

/-- The fields a patch names are written; those it leaves out stay. -/
def updateCompliance (user : Option ComplianceRow) (patch : ComplianceUpdate) : Option ComplianceRow :=
  user.map fun u =>
    { kycStatus := patch.kycStatus.getD u.kycStatus
      dateOfBirth := patch.dateOfBirth.or u.dateOfBirth
      country := patch.country.or u.country
      selfExcludedUntil := patch.selfExcludedUntil.or u.selfExcludedUntil }

end UserRepository

/-- `selfExcludeSchema`, and the time of the request. -/
structure SelfExclude where
  days : ℕ
  positive : 0 < days
  max : days ≤ 3650
  now : ℕ

/-- `/^\d{4}-\d{2}-\d{2}$/`. -/
def isDateOfBirth (s : String) : Bool :=
  match s.toList with
  | [a, b, c, d, s₁, e, f, s₂, g, h] => [a, b, c, d, e, f, g, h].all Char.isDigit && s₁ == '-' && s₂ == '-'
  | _ => false

/-- `/^[A-Za-z]{2}$/`. -/
def isCountry (s : String) : Bool :=
  match s.toList with
  | [a, b] => a.isAlpha && b.isAlpha
  | _ => false

/-- `profileSchema`. -/
structure SelfProfile where
  dateOfBirth : Option String := none
  country : Option String := none
  date_format : ∀ d ∈ dateOfBirth, isDateOfBirth d = true := by simp
  country_format : ∀ c ∈ country, isCountry c = true := by simp

/-- The two requests a player makes of its own limits. -/
inductive SelfRequest where
  | selfExclude (body : SelfExclude)
  | profile (body : SelfProfile)

/-- Self-exclusion can only be extended, never shortened or cancelled. -/
def selfExclude (body : SelfExclude) (current : Option ComplianceRow) : ComplianceUpdate :=
  let requested := body.now + body.days * 24 * 60 * 60 * 1000
  let current := (current.bind (·.selfExcludedUntil)).getD 0
  { selfExcludedUntil := some (max current requested) }

/-- What `updateSelfProfile` writes on the user it has read, if it writes: a date of birth and a
country are set once, and not at all by a verified user. -/
def updateSelfProfile (patch : SelfProfile) (current : Option ComplianceRow) : Option ComplianceUpdate :=
  match current with
  | none => none
  | some current =>
    let nextCountry := patch.country.map (·.toUpper)
    let changingDob := patch.dateOfBirth.isSome && patch.dateOfBirth != current.dateOfBirth
    let changingCountry := nextCountry.isSome && nextCountry != current.country
    let dobAlreadySet := current.dateOfBirth.isSome && current.dateOfBirth != some ""
    let countryAlreadySet := current.country.isSome && current.country != some ""
    if (changingDob && (dobAlreadySet || current.kycStatus == .verified)) ||
        (changingCountry && (countryAlreadySet || current.kycStatus == .verified)) then none
    else some { dateOfBirth := patch.dateOfBirth, country := nextCountry }

/-- What a request writes, decided on the user it has read. -/
def SelfRequest.decide (current : Option ComplianceRow) : SelfRequest → Option ComplianceUpdate
  | .selfExclude body => some (Murlan.selfExclude body current)
  | .profile body => updateSelfProfile body current

/-- Where a request stands: it waits for the user, or for its write, or has been answered. -/
inductive SelfTask where
  | findById (req : SelfRequest)
  | updateCompliance (req : SelfRequest) (current : Option ComplianceRow) (patch : ComplianceUpdate)
  | answered

/-- The two routes as a crew: read the row, decide, write. -/
def selfService : Crew (Option ComplianceRow) SelfTask SelfRequest Unit Empty where
  enter _ req := .findById req
  resume _ task user :=
    match task with
    | .findById req =>
      match req.decide user with
      | none => (.answered, user)
      | some patch => (.updateCompliance req user patch, user)
    | .updateCompliance _ _ patch => (.answered, UserRepository.updateCompliance user patch)
    | .answered => (.answered, user)
  drift d _ := d.elim

end Murlan
