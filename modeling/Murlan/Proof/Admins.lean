import Murlan.Base.Run
import Murlan.Spec.Admins

/-!
# Admin scopes do not escalate

* `postRole_ok`, `postPermissions_ok`: what an accepted request has met.
* `Confined`: what a scoped admin may bring about. `confined_step`: in every state, by every
  request of a scoped admin.
* `scopes_never_escalate`: over every sequence of requests, the law holds exactly when no full
  admin names only unknown scopes for another admin.
* `unknown_scope_makes_full`: such a request makes its target a full admin.
-/

namespace Murlan

namespace Panel

variable {U : Type} [DecidableEq U] {w w' : Panel U} {callerId userId : U}

/-- The user is an admin, without scopes of his own or with this one. -/
def Holds (w : Panel U) (userId : U) (scope : String) : Prop :=
  ∃ u, w.users userId = some u ∧ u.role = .admin ∧ (u.permissions = [] ∨ scope ∈ u.permissions)

/-- The user is an admin with no list of permissions, who may do everything. -/
def Full (w : Panel U) (userId : U) : Prop :=
  ∃ u, w.users userId = some u ∧ u.role = .admin ∧ u.permissions = []

/-- The user is an admin held to a list of permissions. -/
def Scoped (w : Panel U) (userId : U) : Prop :=
  ∃ u, w.users userId = some u ∧ u.role = .admin ∧ u.permissions ≠ []

/-! ## The two routes -/

theorem users_update_ne {f : PanelUser → PanelUser} {u : U} (h : u ≠ userId) :
    (w.update userId f).users u = w.users u := if_neg h

theorem users_update_self {f : PanelUser → PanelUser} :
    (w.update userId f).users userId = (w.users userId).map f := if_pos rfl

omit [DecidableEq U] in
theorem isFullAdmin_iff : w.isFullAdmin userId = true ↔ w.Full userId := by
  unfold isFullAdmin Full
  cases w.users userId with
  | none => simp
  | some u => simp

omit [DecidableEq U] in
/-- Whoever gets past the check is an admin. -/
theorem requirePermission_ok {permission : String} {caller : PanelUser}
    (h : w.requirePermission permission callerId = .ok caller) :
    w.users callerId = some caller ∧ caller.role = .admin := by
  unfold requirePermission at h
  cases hu : w.users callerId with
  | none => simp [hu] at h
  | some u =>
    simp only [hu] at h
    split at h
    · cases h
    · rename_i hrole
      split at h
      · obtain rfl := Except.ok.inj h
        exact ⟨rfl, not_not.mp hrole⟩
      · cases h

omit [DecidableEq U] in
theorem requirePermission_full (permission : String) (h : w.Full callerId) :
    ∃ caller, w.requirePermission permission callerId = .ok caller ∧ caller.permissions = [] := by
  obtain ⟨u, hu, hrole, hperms⟩ := h
  exact ⟨u, by simp [requirePermission, hu, hrole, hasPermission, hperms], hperms⟩

omit [DecidableEq U] in
/-- A guard that was passed. -/
theorem throw_ok {c : Prop} [Decidable c] {e : PanelError} {f : Except PanelError (Panel U)}
    (h : (if c then throw e else f) = .ok w') : ¬ c ∧ f = .ok w' := by
  split at h
  · cases h
  · exact ⟨‹¬ c›, h⟩

/-- **What an accepted role request has met.** -/
theorem postRole_ok {role : String} (h : w.postRole callerId userId role = .ok w') :
    ∃ caller r, w.users callerId = some caller ∧ caller.role = .admin ∧ w' = w.setRole userId r ∧
      (caller.permissions ≠ [] → r = .user ∧ ¬ w.Full userId ∧ w.isProtectedOwner userId = false) := by
  unfold postRole at h
  cases hcaller : w.requirePermission "manage_admins" callerId with
  | error e => rw [hcaller] at h; cases h
  | ok caller =>
    obtain ⟨hu, hadmin⟩ := requirePermission_ok hcaller
    rw [hcaller] at h
    cases hrole : roleOf role with
    | none => simp only [hrole] at h; cases h
    | some r =>
      simp only [hrole] at h
      obtain ⟨-, h⟩ := throw_ok h
      obtain ⟨hmint, h⟩ := throw_ok h
      obtain ⟨howner, h⟩ := throw_ok h
      obtain ⟨hpeer, h⟩ := throw_ok h
      obtain ⟨-, h⟩ := throw_ok h
      obtain rfl := Except.ok.inj h
      refine ⟨caller, r, hu, hadmin, rfl, fun hscoped => ?_⟩
      have hr : r = .user := by
        cases r with
        | user => rfl
        | admin => exact absurd ⟨rfl, hscoped⟩ hmint
      subst hr
      refine ⟨rfl, fun hfull => hpeer ⟨rfl, hscoped, isFullAdmin_iff.mpr hfull⟩, ?_⟩
      simpa using howner

/-- **What an accepted permissions request has met.** -/
theorem postPermissions_ok {named : List String} (h : w.postPermissions callerId userId named = .ok w') :
    ∃ caller, w.users callerId = some caller ∧ caller.role = .admin ∧ named.length ≤ 20 ∧ userId ≠ callerId ∧
      w.isProtectedOwner userId = false ∧
      w' = w.setPermissions userId (named.filter isAdminPermission).eraseDups ∧
      (caller.permissions ≠ [] → ¬ w.Full userId ∧ (named.filter isAdminPermission).eraseDups ≠ [] ∧
        ∀ p ∈ (named.filter isAdminPermission).eraseDups, p ∈ caller.permissions) := by
  unfold postPermissions at h
  cases hcaller : w.requirePermission "manage_admins" callerId with
  | error e => rw [hcaller] at h; cases h
  | ok caller =>
    obtain ⟨hu, hadmin⟩ := requirePermission_ok hcaller
    rw [hcaller] at h
    obtain ⟨hlen, h⟩ := throw_ok h
    obtain ⟨hself, h⟩ := throw_ok h
    obtain ⟨howner, h⟩ := throw_ok h
    obtain ⟨hpeer, h⟩ := throw_ok h
    obtain ⟨hmint, h⟩ := throw_ok h
    obtain ⟨-, h⟩ := throw_ok h
    obtain rfl := Except.ok.inj h
    refine ⟨caller, hu, hadmin, by omega, hself, by simpa using howner, rfl, fun hscoped => ⟨?_, ?_, ?_⟩⟩
    · exact fun hfull => hpeer ⟨hscoped, isFullAdmin_iff.mpr hfull⟩
    · exact fun hnil => hmint ⟨hscoped, .inl hnil⟩
    · intro p hp
      by_contra hnot
      exact hmint ⟨hscoped, .inr ⟨p, hp, hnot⟩⟩

/-- A full admin's request for another user who is not the owner is accepted. -/
theorem postPermissions_full {named : List String} (hfull : w.Full callerId) (hlen : named.length ≤ 20)
    (hself : userId ≠ callerId) (howner : w.isProtectedOwner userId = false) (huser : w.users userId ≠ none) :
    w.postPermissions callerId userId named =
      .ok (w.setPermissions userId (named.filter isAdminPermission).eraseDups) := by
  obtain ⟨caller, hcaller, hperms⟩ := requirePermission_full "manage_admins" hfull
  have hlen' : ¬ 20 < named.length := by omega
  have hsome : (w.users userId).isNone = false := by
    cases h : w.users userId with
    | none => exact absurd h huser
    | some u => rfl
  simp [postPermissions, hcaller, hlen', hself, howner, hperms, hsome, bind, Except.bind, pure, Except.pure]

/-! ## What a scoped admin brings about -/

/-- Nobody gains a scope that the caller does not hold, nobody becomes a full admin, and the full
admins and the owner keep their scopes. -/
structure Confined (w : Panel U) (callerId : U) (w' : Panel U) : Prop where
  grants : ∀ u s, w'.Holds u s → w.Holds u s ∨ w.Holds callerId s
  full : ∀ u, w'.Full u → w.Full u
  spares : ∀ u s, w.Full u ∨ w.isProtectedOwner u = true → w.Holds u s → w'.Holds u s

omit [DecidableEq U] in
theorem Confined.refl (w : Panel U) (callerId : U) : Confined w callerId w :=
  ⟨fun _ _ h => .inl h, fun _ h => h, fun _ _ _ h => h⟩

/-- A change of one user who is neither a full admin nor the owner. -/
theorem confined_update {f : PanelUser → PanelUser} (hfull : ¬ w.Full userId)
    (howner : w.isProtectedOwner userId = false)
    (hgrants : ∀ s, (w.update userId f).Holds userId s → w.Holds callerId s)
    (hnot : ¬ (w.update userId f).Full userId) : Confined w callerId (w.update userId f) where
  grants u s h := by
    by_cases hu : u = userId
    · subst hu
      exact .inr (hgrants s h)
    · left
      unfold Holds at h ⊢
      rwa [users_update_ne hu] at h
  full u h := by
    by_cases hu : u = userId
    · subst hu
      exact absurd h hnot
    · unfold Full at h ⊢
      rwa [users_update_ne hu] at h
  spares u s hprotected h := by
    by_cases hu : u = userId
    · subst hu
      rcases hprotected with h' | h'
      · exact absurd h' hfull
      · rw [howner] at h'
        cases h'
    · unfold Holds at h ⊢
      rwa [users_update_ne hu]

/-- A role given by a held admin stays within bounds. -/
theorem confined_postRole {role : String} (h : w.postRole callerId userId role = .ok w') (hs : w.Scoped callerId) :
    Confined w callerId w' := by
  obtain ⟨u, hu, -, hscoped⟩ := hs
  obtain ⟨caller, r, hcaller, -, rfl, hmet⟩ := postRole_ok h
  obtain rfl := Option.some.inj (hu.symm.trans hcaller)
  obtain ⟨rfl, hfull, howner⟩ := hmet hscoped
  have hdemoted : ∀ v, (w.setRole userId .user).users userId = some v → v.role = .user := by
    intro v hv
    rw [setRole, users_update_self] at hv
    obtain ⟨v₀, -, rfl⟩ := Option.map_eq_some_iff.mp hv
    rfl
  refine confined_update hfull howner ?_ ?_
  · rintro s ⟨v, hv, hadmin, -⟩
    rw [hdemoted v hv] at hadmin
    cases hadmin
  · rintro ⟨v, hv, hadmin, -⟩
    rw [hdemoted v hv] at hadmin
    cases hadmin

/-- The scopes of the target of an accepted request. -/
theorem holds_setPermissions {perms : List String} {s : String} (h : (w.setPermissions userId perms).Holds userId s) :
    (∃ u, w.users userId = some u ∧ u.role = .admin) ∧ (perms = [] ∨ s ∈ perms) := by
  obtain ⟨v, hv, hadmin, hperms⟩ := h
  rw [setPermissions, users_update_self] at hv
  obtain ⟨u, hu, rfl⟩ := Option.map_eq_some_iff.mp hv
  exact ⟨⟨u, hu, hadmin⟩, hperms⟩

/-- Permissions given by a held admin stay within bounds. -/
theorem confined_postPermissions {named : List String} (h : w.postPermissions callerId userId named = .ok w')
    (hs : w.Scoped callerId) : Confined w callerId w' := by
  obtain ⟨u, hu, hadmin, hscoped⟩ := hs
  obtain ⟨caller, hcaller, -, -, -, howner, rfl, hmet⟩ := postPermissions_ok h
  obtain rfl := Option.some.inj (hu.symm.trans hcaller)
  obtain ⟨hfull, hne, hsub⟩ := hmet hscoped
  refine confined_update hfull howner ?_ ?_
  · intro s hs
    obtain ⟨-, hnil | hmem⟩ := holds_setPermissions hs
    · exact absurd hnil hne
    · exact ⟨u, hu, hadmin, .inr (hsub s hmem)⟩
  · rintro ⟨v, hv, -, hnil⟩
    rw [users_update_self] at hv
    obtain ⟨v₀, -, rfl⟩ := Option.map_eq_some_iff.mp hv
    exact hne hnil

end Panel

/-- Who makes the request. -/
def PanelRequest.callerId {U : Type} : PanelRequest U → U
  | .role callerId _ _ => callerId
  | .permissions callerId _ _ => callerId

namespace Panel

variable {U : Type} [DecidableEq U] {w w' : Panel U}

/-- **A scoped admin is confined**, in every state and with every request. -/
theorem confined_step (r : PanelRequest U) (hs : w.Scoped r.callerId) : Confined w r.callerId (w.step r) := by
  unfold step
  cases hh : w.handle r with
  | error e => exact .refl w _
  | ok w' =>
    cases r with
    | role callerId userId role => exact confined_postRole hh hs
    | permissions callerId userId named => exact confined_postPermissions hh hs

/-! ## Whoever asks -/

/-- An accepted permissions request that names a scope leaves its target with scopes it named. -/
def Narrows (w : Panel U) : PanelRequest U → Prop
  | .role .. => True
  | .permissions callerId userId named =>
    ∀ w', w.postPermissions callerId userId named = .ok w' → named ≠ [] → ∀ s, w'.Holds userId s → s ∈ named

omit [DecidableEq U] in
/-- A full admin names scopes for another admin, who is not the owner, and none that is known. -/
def NamesOnlyUnknown (w : Panel U) : PanelRequest U → Prop
  | .role .. => False
  | .permissions callerId userId named =>
    w.Full callerId ∧ userId ≠ callerId ∧ (∃ u, w.users userId = some u ∧ u.role = .admin) ∧
      w.isProtectedOwner userId = false ∧ named ≠ [] ∧ named.length ≤ 20 ∧
      ∀ n ∈ named, isAdminPermission n = false

theorem eraseDups_eq_nil {l : List String} (h : l.eraseDups = []) : l = [] := by
  refine List.eq_nil_iff_forall_not_mem.mpr fun a ha => ?_
  have hmem : a ∈ l.eraseDups := List.mem_eraseDups.mpr ha
  rw [h] at hmem
  cases hmem

/-- A list of permissions narrows unless it names unknown ones only. -/
theorem narrows_iff (r : PanelRequest U) : Narrows w r ↔ ¬ NamesOnlyUnknown w r := by
  cases r with
  | role callerId userId role => exact ⟨fun _ h => h, fun _ => trivial⟩
  | permissions callerId userId named =>
    constructor
    · rintro h ⟨hfull, hself, ⟨u, hu, hadmin⟩, howner, hne, hlen, hunknown⟩
      have hnil : named.filter isAdminPermission = [] := by
        rw [List.filter_eq_nil_iff]
        intro n hn
        simp [hunknown n hn]
      have hok := postPermissions_full (w := w) hfull hlen hself howner (by simp [hu])
      -- the target has become a full admin, and holds a known scope
      have hholds : (w.setPermissions userId (named.filter isAdminPermission).eraseDups).Holds userId "view_revenue" := by
        refine ⟨{ u with permissions := [] }, ?_, hadmin, .inl rfl⟩
        rw [setPermissions, users_update_self, hu, hnil]
        rfl
      have hmem := h _ hok hne _ hholds
      exact absurd (hunknown _ hmem) (by decide)
    · intro hnot w' hok hne s hs
      obtain ⟨caller, hcaller, hcadmin, hlen, hself, howner, rfl, hmet⟩ := postPermissions_ok hok
      obtain ⟨htarget, hnil | hmem⟩ := holds_setPermissions hs
      · exfalso
        have hfull : caller.permissions = [] := by
          by_contra hscoped
          exact (hmet hscoped).2.1 hnil
        refine hnot ⟨⟨caller, hcaller, hcadmin, hfull⟩, hself, htarget, howner, hne, hlen, fun n hn => ?_⟩
        have hall := List.filter_eq_nil_iff.mp (eraseDups_eq_nil hnil) n hn
        simpa using hall
      · exact List.mem_of_mem_filter (List.mem_eraseDups.mp hmem)

/-- **Admin scopes do not escalate**: in every sequence of requests, from any users, a scoped
admin is confined by each, and each that is accepted and names a scope leaves its target with
named ones, exactly when no full admin names only unknown scopes for another admin. -/
theorem scopes_never_escalate (w : Panel U) (rs : List (PanelRequest U)) :
    Guarded step (fun w r => (w.Scoped r.callerId → Confined w r.callerId (w.step r)) ∧ Narrows w r) w rs ↔
      Guarded step (fun w r => ¬ NamesOnlyUnknown w r) w rs := by
  have hiff : ∀ (w : Panel U) r, True → (((w.Scoped r.callerId → Confined w r.callerId (w.step r)) ∧ Narrows w r) ↔
      ¬ NamesOnlyUnknown w r) := by
    intro w r _
    rw [← narrows_iff r]
    exact ⟨fun h => h.2, fun h => ⟨confined_step r, h⟩⟩
  exact guarded_congr hiff (fun _ _ _ _ => trivial) trivial rs

/-- A full admin (0) names a scope that does not exist for an admin (1) who may only moderate. -/
theorem unknown_scope_makes_full :
    let w : Panel ℕ :=
      { users := fun id =>
          if id = 0 then some { email := "owner", role := .admin }
          else if id = 1 then some { email := "mod", role := .admin, permissions := ["moderate_chat"] } else none
        ownerEmail := some "owner" }
    let r : PanelRequest ℕ := .permissions 0 1 ["moderate"]
    (w.step r).Full 1 ∧
      ¬ Guarded step (fun w r => (w.Scoped r.callerId → Confined w r.callerId (w.step r)) ∧ Narrows w r) w [r] := by
  intro w r
  have hbad : NamesOnlyUnknown w r :=
    ⟨⟨_, rfl, rfl, rfl⟩, by decide, ⟨_, rfl, rfl⟩, by decide, by decide, by decide, by decide⟩
  refine ⟨⟨{ email := "mod", role := .admin }, rfl, rfl, rfl⟩, ?_⟩
  rintro ⟨⟨-, h⟩, -⟩
  exact (narrows_iff r).mp h hbad

end Panel

end Murlan
