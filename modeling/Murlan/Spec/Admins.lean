import Mathlib.Data.List.Basic

/-!
# Admin roles and scopes

`permissions.ts` and the two routes of `adminRoutes` that change who may do what:
`POST /api/admin/users/:id/role` and `POST /api/admin/users/:id/permissions`. An admin with
an empty list of scopes is a full admin.
-/

namespace Murlan

/-- The roles of an account. -/
inductive UserRole where
  | user | admin
  deriving DecidableEq, Repr

/-- The email is the trimmed, lowercased one. -/
structure PanelUser where
  email : String
  role : UserRole := .user
  permissions : List String := []
  deriving DecidableEq, Repr

/-- An answer that refuses. -/
structure PanelError where
  status : ℕ
  code : String
  message : String
  deriving DecidableEq, Repr

/-- The users, and the configured owner as `AuthService` and the routes know him. -/
structure Panel (U : Type) where
  users : U → Option PanelUser
  ownerEmail : Option String := none
  adminEmail : Option String := none

/-- The permissions there are. -/
def ADMIN_PERMISSIONS : List String :=
  ["adjust_balance", "approve_withdrawals", "manage_accounts", "manage_admins", "moderate_chat", "void_matches",
    "view_revenue"]

/-- Whether a text names one of them. -/
def isAdminPermission (v : String) : Bool := ADMIN_PERMISSIONS.contains v

/-- No scopes mean all of them. -/
def hasPermission (granted : List String) (needed : String) : Bool := granted.isEmpty || granted.contains needed

/-- A request of the panel, with who makes it and on whom. -/
inductive PanelRequest (U : Type) where
  | role (callerId userId : U) (role : String)
  | permissions (callerId userId : U) (permissions : List String)

namespace Panel

variable {U : Type} [DecidableEq U]

omit [DecidableEq U] in
/-- The two accounts of the configuration, which nobody may change. -/
def isProtectedOwner (w : Panel U) (userId : U) : Bool :=
  match w.users userId with
  | none => false
  | some u => w.ownerEmail == some u.email || w.adminEmail == some u.email

/-- Changes a user, if there is one. -/
def update (w : Panel U) (userId : U) (f : PanelUser → PanelUser) : Panel U :=
  { w with users := fun x => if x = userId then (w.users x).map f else w.users x }

/-- Writes a role. -/
def setRole (w : Panel U) (userId : U) (role : UserRole) : Panel U := w.update userId ({ · with role })

/-- Writes the permissions. -/
def setPermissions (w : Panel U) (userId : U) (permissions : List String) : Panel U :=
  w.update userId ({ · with permissions })

omit [DecidableEq U] in
/-- `requirePermission` on top of `requireAdmin`: the caller's row. -/
def requirePermission (w : Panel U) (permission : String) (callerId : U) : Except PanelError PanelUser :=
  match w.users callerId with
  | none => .error ⟨403, "forbidden", "Vetëm administratorët."⟩
  | some user =>
    if user.role ≠ .admin then .error ⟨403, "forbidden", "Vetëm administratorët."⟩
    else if hasPermission user.permissions permission then .ok user
    else .error ⟨403, "forbidden", "Nuk ke lejen e nevojshme për këtë veprim."⟩

omit [DecidableEq U] in
/-- The target is an admin without scopes of his own. -/
def isFullAdmin (w : Panel U) (userId : U) : Bool :=
  match w.users userId with
  | none => false
  | some target => target.role == .admin && target.permissions.isEmpty

/-- The role of a body; none is refused by its schema. -/
def roleOf : String → Option UserRole
  | "user" => some .user
  | "admin" => some .admin
  | _ => none

/-- `POST /api/admin/users/:id/role`. -/
def postRole (w : Panel U) (callerId userId : U) (role : String) : Except PanelError (Panel U) := do
  let caller ← w.requirePermission "manage_admins" callerId
  let some role := roleOf role | throw ⟨400, "validation", "Rol i pavlefshëm."⟩
  if userId = callerId ∧ role = .user then
    throw ⟨400, "self_demote", "Nuk mund të heqësh vetes rolin e adminit."⟩
  if role = .admin ∧ caller.permissions ≠ [] then
    throw ⟨403, "forbidden", "Vetëm një admin i plotë mund të caktojë rolin e adminit."⟩
  if role = .user ∧ w.isProtectedOwner userId then
    throw ⟨403, "owner_protected", "Pronari i platformës nuk mund të zhgradohet."⟩
  if role = .user ∧ caller.permissions ≠ [] ∧ w.isFullAdmin userId then
    throw ⟨403, "forbidden", "Vetëm një admin i plotë mund të zhgradojë një admin të plotë."⟩
  if (w.users userId).isNone then throw ⟨404, "not_found", "Përdoruesi nuk u gjet."⟩
  return w.setRole userId role

/-- `POST /api/admin/users/:id/permissions`: unknown scopes are dropped. -/
def postPermissions (w : Panel U) (callerId userId : U) (permissions : List String) : Except PanelError (Panel U) := do
  let caller ← w.requirePermission "manage_admins" callerId
  if 20 < permissions.length then throw ⟨400, "validation", "Lejet janë të pavlefshme."⟩
  if userId = callerId then throw ⟨400, "self_scope", "Nuk mund t’i kufizosh vetes lejet."⟩
  if w.isProtectedOwner userId then
    throw ⟨403, "owner_protected", "Lejet e pronarit nuk mund të ndryshohen."⟩
  let perms := (permissions.filter isAdminPermission).eraseDups
  if caller.permissions ≠ [] ∧ w.isFullAdmin userId then
    throw ⟨403, "forbidden", "Vetëm një admin i plotë mund të ndryshojë lejet e një admini të plotë."⟩
  if caller.permissions ≠ [] ∧ (perms = [] ∨ ∃ p ∈ perms, p ∉ caller.permissions) then
    throw ⟨403, "forbidden", "Mund të japësh vetëm leje që i ke vetë."⟩
  if (w.users userId).isNone then throw ⟨404, "not_found", "Përdoruesi nuk u gjet."⟩
  return w.setPermissions userId perms

/-- Each request by its handler. -/
def handle (w : Panel U) : PanelRequest U → Except PanelError (Panel U)
  | .role callerId userId role => w.postRole callerId userId role
  | .permissions callerId userId permissions => w.postPermissions callerId userId permissions

/-- A refused request changes nothing. -/
def step (w : Panel U) (r : PanelRequest U) : Panel U :=
  match w.handle r with
  | .ok w' => w'
  | .error _ => w

end Panel

end Murlan
