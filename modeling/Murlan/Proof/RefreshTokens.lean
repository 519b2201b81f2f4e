import Mathlib.Data.List.Nodup
import Murlan.Spec.RefreshTokens

/-!
# Refresh-token chains

* `findSuccessor_append`: a new row is the successor of the row of its family that had none.
* `SessionsOK`, `Knows`, `Apart`: what the rows satisfy, what a call knows, and what holds of
  two calls: no two save in one family, no two have rotated one row.
* `session_rules`: the steps keep them; `refresh_chains_linear`: over all runs.
* `Over`: a family with no active row and none to come. `ended_sessions_stay_ended`: over
  the runs in which every end of a session leaves its family so.
-/

namespace Murlan

namespace RefreshTokens

variable {rows : List RefreshTokenRecord} {r r' x y : RefreshTokenRecord} {jti family : ℕ} {seen : Bool}

/-! ## The successor of a row -/

theorem successorFrom_nil : successorFrom jti family seen [] = none := rfl

theorem successorFrom_cons : successorFrom jti family seen (x :: rows) =
    if x.jti = jti then successorFrom jti family true rows
    else if seen && x.family = family then some x else successorFrom jti family seen rows := rfl

/-- A change that keeps ids and families keeps the successor. -/
theorem successorFrom_map {f : RefreshTokenRecord → RefreshTokenRecord} (hjti : ∀ r, (f r).jti = r.jti)
    (hfamily : ∀ r, (f r).family = r.family) (seen : Bool) (rows : List RefreshTokenRecord) :
    successorFrom jti family seen (rows.map f) = (successorFrom jti family seen rows).map f := by
  induction rows generalizing seen with
  | nil => rfl
  | cons x rows ih =>
    simp only [List.map_cons, successorFrom_cons, hjti, hfamily]
    split
    · exact ih true
    · split
      · rfl
      · exact ih seen

/-- The successor is of the family. -/
theorem successorFrom_mem (h : successorFrom jti family seen rows = some y) : y ∈ rows ∧ y.family = family := by
  induction rows generalizing seen with
  | nil => cases h
  | cons x rows ih =>
    simp only [successorFrom_cons] at h
    split at h
    · obtain ⟨hmem, hfamily⟩ := ih h
      exact ⟨List.mem_cons_of_mem x hmem, hfamily⟩
    · split at h
      · rename_i hx
        obtain rfl := Option.some.inj h
        have hfamily : x.family = family := of_decide_eq_true (Bool.and_eq_true _ _ ▸ hx).2
        exact ⟨List.mem_cons_self, hfamily⟩
      · obtain ⟨hmem, hfamily⟩ := ih h
        exact ⟨List.mem_cons_of_mem x hmem, hfamily⟩

/-- A later row is not taken for the successor. -/
theorem successorFrom_append (h : successorFrom jti family seen rows = some y) (x : RefreshTokenRecord) :
    successorFrom jti family seen (rows ++ [x]) = some y := by
  induction rows generalizing seen with
  | nil => cases h
  | cons z rows ih =>
    simp only [successorFrom_cons, List.cons_append] at h ⊢
    split at h
    · rename_i hz
      rw [if_pos hz]
      exact ih h
    · rename_i hz
      rw [if_neg hz]
      split at h
      · rename_i hfound
        rw [if_pos hfound]
        exact h
      · rename_i hfound
        rw [if_neg hfound]
        exact ih h

/-- A row that has been passed, and has no successor yet. -/
theorem successorFrom_append_none (h : successorFrom jti family seen rows = none)
    (hseen : seen = true ∨ jti ∈ rows.map (·.jti)) (hne : x.jti ≠ jti) :
    successorFrom jti family seen (rows ++ [x]) = if x.family = family then some x else none := by
  induction rows generalizing seen with
  | nil =>
    have hpassed : seen = true := by simpa using hseen
    simp [successorFrom_cons, successorFrom_nil, hne, hpassed]
  | cons z rows ih =>
    simp only [successorFrom_cons, List.cons_append] at h ⊢
    by_cases hz : z.jti = jti
    · rw [if_pos hz] at h ⊢
      exact ih h (.inl rfl)
    · rw [if_neg hz] at h ⊢
      split at h
      · cases h
      · rename_i hfound
        rw [if_neg hfound]
        refine ih h (hseen.imp_right fun hmem => ?_)
        simpa [Ne.symm hz] using hmem

/-- A row that is not there yet has no successor, also once it is the last. -/
theorem successorFrom_fresh (h : jti ∉ rows.map (·.jti)) (hx : x.jti = jti) :
    successorFrom jti family false (rows ++ [x]) = none := by
  induction rows with
  | nil => simp [successorFrom_cons, successorFrom_nil, hx]
  | cons z rows ih =>
    simp only [List.map_cons, List.mem_cons, not_or] at h
    simp only [List.cons_append, successorFrom_cons]
    rw [if_neg (Ne.symm h.1)]
    simpa using ih h.2

/-- Past a token, some other of the family is found. -/
theorem successorFrom_seen (hmem : r ∈ rows) (hne : r.jti ≠ jti) : successorFrom jti r.family true rows ≠ none := by
  induction rows with
  | nil => cases hmem
  | cons x rows ih =>
    simp only [successorFrom_cons]
    rcases List.mem_cons.mp hmem with rfl | hmem
    · rw [if_neg hne]
      simp
    · split
      · exact ih hmem
      · split
        · simp
        · exact ih hmem

/-- Of two rows of a family one comes first, and has a successor. -/
theorem findSuccessor_or (hr : r ∈ rows) (hr' : r' ∈ rows) (hne : r.jti ≠ r'.jti) (hfamily : r.family = r'.family) :
    findSuccessor rows r ≠ none ∨ findSuccessor rows r' ≠ none := by
  unfold findSuccessor
  induction rows with
  | nil => cases hr
  | cons x rows ih =>
    simp only [successorFrom_cons]
    by_cases hx : x.jti = r.jti
    · left
      rw [if_pos hx, hfamily]
      refine successorFrom_seen ?_ (Ne.symm hne)
      exact (List.mem_cons.mp hr').resolve_left fun heq => hne (hx.symm.trans (congrArg (·.jti) heq.symm))
    · by_cases hx' : x.jti = r'.jti
      · right
        rw [if_pos hx', ← hfamily]
        refine successorFrom_seen ?_ hne
        exact (List.mem_cons.mp hr).resolve_left fun heq => hx (congrArg (·.jti) heq.symm)
      · rw [if_neg hx, if_neg hx']
        have hrest := (List.mem_cons.mp hr).resolve_left fun heq => hx (congrArg (·.jti) heq.symm)
        have hrest' := (List.mem_cons.mp hr').resolve_left fun heq => hx' (congrArg (·.jti) heq.symm)
        simpa using ih hrest hrest'

/-! ## Revocations -/

/-- A row whether or not it has been revoked: only the mark of revocation may differ. -/
structure SameToken (r r' : RefreshTokenRecord) : Prop where
  jti : r'.jti = r.jti
  family : r'.family = r.family
  userId : r'.userId = r.userId
  revoked : r.revoked = true → r'.revoked = true

variable (p : RefreshTokenRecord → Bool)

theorem sameToken_mark (r : RefreshTokenRecord) : SameToken r (if p r then { r with revoked := true } else r) := by
  split
  · exact ⟨rfl, rfl, rfl, fun _ => rfl⟩
  · exact ⟨rfl, rfl, rfl, id⟩

theorem mem_revokeWhere (h : r ∈ rows) : ∃ r' ∈ revokeWhere rows p, SameToken r r' :=
  ⟨_, List.mem_map.mpr ⟨r, h, rfl⟩, sameToken_mark p r⟩

theorem of_mem_revokeWhere (h : r' ∈ revokeWhere rows p) :
    ∃ r ∈ rows, SameToken r r' ∧ (p r = true → r'.revoked = true) := by
  obtain ⟨r, hr, rfl⟩ := List.mem_map.mp h
  refine ⟨r, hr, sameToken_mark p r, fun hp => ?_⟩
  rw [if_pos hp]

theorem revokeWhere_jtis : (revokeWhere rows p).map (·.jti) = rows.map (·.jti) := by
  rw [revokeWhere, List.map_map]
  refine List.map_congr_left fun r _ => ?_
  exact (sameToken_mark p r).jti

theorem revokeWhere_false : revokeWhere rows (fun _ => false) = rows := by
  simp [revokeWhere]

theorem findSuccessor_revokeWhere (r : RefreshTokenRecord) :
    findSuccessor (revokeWhere rows p) r =
      (findSuccessor rows r).map fun r => if p r then { r with revoked := true } else r :=
  successorFrom_map (fun r => (sameToken_mark p r).jti) (fun r => (sameToken_mark p r).family) _ _

theorem SameToken.findSuccessor (h : SameToken r r') (rows : List RefreshTokenRecord) :
    findSuccessor rows r' = findSuccessor rows r := by
  unfold RefreshTokens.findSuccessor
  rw [h.jti, h.family]

theorem save_fresh (h : ∀ r ∈ rows, r.jti ≠ x.jti) : save rows x = rows ++ [x] := by
  unfold save
  rw [if_neg]
  simpa using h

theorem eq_of_jti (hunique : (rows.map (·.jti)).Nodup) (hr : r ∈ rows) (hr' : r' ∈ rows) (h : r.jti = r'.jti) :
    r = r' :=
  List.inj_on_of_nodup_map hunique hr hr' h

theorem find_spec (h : find rows jti = some r) : r ∈ rows ∧ r.jti = jti :=
  ⟨List.mem_of_find?_eq_some h, by simpa using List.find?_some h⟩

end RefreshTokens

open RefreshTokens

/-! ## What is known along the way -/

namespace SessionTask

/-- The row that a call is about to save. -/
def saving (t : SessionTask) : Option RefreshTokenRecord :=
  match t.phase with
  | .save _ record _ => some record
  | _ => none

/-- The row that a call has rotated. -/
def rotated (t : SessionTask) : Option ℕ :=
  match t.phase with
  | .save _ _ parent | .ended (.issued _ parent) => parent
  | _ => none

/-- A step comes to this phase when it ends a session. -/
def Closes (family : ℕ) (phase : SessionPhase) : Prop :=
  phase = .ended .loggedOut ∨ phase = .ended (.refused (some family))

/-- A call that starts neither saves nor has rotated nor ended anything. -/
structure Starts (op : SessionOp) (t : SessionTask) : Prop where
  op : t.op = op
  saving : t.saving = none
  rotated : t.rotated = none
  open_ : ∀ family, ¬Closes family t.phase

/-- A call starts with its lookup. -/
theorem starts_enter (s : SessionStore) (op : SessionOp) : Starts op (enter s op) := by
  have hended : ∀ result, result ≠ .loggedOut → (∀ f, result ≠ .refused (some f)) → (∀ c x, result ≠ .issued c (some x)) →
      Starts op ⟨op, .ended result⟩ := by
    intro result hlogged hreuse hissued
    refine ⟨rfl, rfl, ?_, fun family hcloses => ?_⟩
    · cases result with
      | issued c parent =>
        cases parent with
        | none => rfl
        | some x => exact absurd rfl (hissued c x)
      | _ => rfl
    · rcases hcloses with h | h
      · exact hlogged (SessionPhase.ended.inj h)
      · exact hreuse family (SessionPhase.ended.inj h)
  unfold enter
  split
  · exact ⟨rfl, rfl, rfl, fun _ h => by simp [Closes] at h⟩
  · exact ⟨rfl, rfl, rfl, fun _ h => by simp [Closes] at h⟩
  · split
    · exact ⟨rfl, rfl, rfl, fun _ h => by simp [Closes] at h⟩
    · exact hended _ (by simp) (by simp) (by simp)
  · exact hended _ (by simp) (by simp) (by simp)
  · split
    · exact ⟨rfl, rfl, rfl, fun _ h => by simp [Closes] at h⟩
    · exact hended _ (by simp) (by simp) (by simp)
  · exact ⟨rfl, rfl, rfl, fun _ h => by simp [Closes] at h⟩

end SessionTask

/-- The rows, in the order they were created: only the last of a family may be active. -/
structure SessionsOK (s : SessionStore) : Prop where
  unique : (s.refreshTokens.map (·.jti)).Nodup
  drawn : ∀ r ∈ s.refreshTokens, r.jti < s.nextId ∧ r.family < s.nextId
  owners : ∀ r ∈ s.refreshTokens, ∀ r' ∈ s.refreshTokens, r.family = r'.family → r.userId = r'.userId
  last : ∀ r ∈ s.refreshTokens, r.revoked = false → findSuccessor s.refreshTokens r = none
  handed : ∀ c ∈ s.handed, ∃ r ∈ s.refreshTokens, r.jti = c.jti ∧ r.family = c.family ∧ r.userId = c.sub

/-- A row about to be saved: its family has no active row, and it goes right after its parent. -/
structure Savable (s : SessionStore) (user : SessionUser) (record : RefreshTokenRecord) (parent : Option ℕ) : Prop where
  owner : record.userId = user.id
  drawn : record.jti < s.nextId ∧ record.family < s.nextId
  fresh : ∀ r ∈ s.refreshTokens, r.jti ≠ record.jti
  idle : ∀ r ∈ s.refreshTokens, r.family = record.family → r.revoked = true ∧ r.userId = user.id
  alone : parent = none → ∀ r ∈ s.refreshTokens, r.family ≠ record.family
  next : ∀ x, parent = some x →
    ∃ r ∈ s.refreshTokens, r.jti = x ∧ r.family = record.family ∧ findSuccessor s.refreshTokens r = none

/-- The row `x` was rotated into the token `c`. -/
def Rotated (s : SessionStore) (x : ℕ) (c : RefreshClaims) : Prop :=
  ∃ r ∈ s.refreshTokens, r.jti = x ∧ r.revoked = true ∧
    ∃ r', findSuccessor s.refreshTokens r = some r' ∧ r'.jti = c.jti

/-- The call presents a token that was handed out. -/
def Presents (s : SessionStore) (t : SessionTask) (token : RefreshClaims) : Prop :=
  token ∈ s.handed ∧ ((∃ v, t.op = .refresh token v) ∨ ∃ v, t.op = .logout (some token) v)

namespace SessionTask

/-- What a call knows. -/
def Knows (s : SessionStore) (t : SessionTask) : Prop :=
  match t.phase with
  | .findById token => Presents s t token
  | .find user token => Presents s t token ∧ token.sub = user.id
  | .revokeIfActive user record | .findSuccessor user record _ _ | .sleep user record _ =>
    ∃ token, Presents s t token ∧ token.sub = user.id ∧ token.jti = record.jti ∧ token.family = record.family
  | .revokeFamily family => ∃ token, Presents s t token ∧ token.family = family
  | .revoke jti => ∃ token, Presents s t token ∧ token.jti = jti
  | .save user record parent => Savable s user record parent
  | .ended (.issued c (some x)) => Rotated s x c
  | _ => True

/-- What a call knows stays true when rows are revoked or added. -/
theorem Knows.mono {s s' : SessionStore} {t : SessionTask} (ht : t.Knows s)
    (hpresents : ∀ token, Presents s t token → Presents s' t token)
    (hsavable : ∀ user record parent, t.phase = .save user record parent → Savable s user record parent →
      Savable s' user record parent)
    (hrotated : ∀ x c, Rotated s x c → Rotated s' x c) : t.Knows s' := by
  unfold Knows at ht ⊢
  split at ht
  · exact hpresents _ ht
  · exact ht.imp_left (hpresents _)
  · obtain ⟨token, hp, hrest⟩ := ht
    exact ⟨token, hpresents _ hp, hrest⟩
  · obtain ⟨token, hp, hrest⟩ := ht
    exact ⟨token, hpresents _ hp, hrest⟩
  · obtain ⟨token, hp, hrest⟩ := ht
    exact ⟨token, hpresents _ hp, hrest⟩
  · obtain ⟨token, hp, hrest⟩ := ht
    exact ⟨token, hpresents _ hp, hrest⟩
  · obtain ⟨token, hp, hrest⟩ := ht
    exact ⟨token, hpresents _ hp, hrest⟩
  · rename_i hphase
    exact hsavable _ _ _ hphase ht
  · exact hrotated _ _ ht
  · trivial

/-- No two calls save in one family, and no two have rotated one row. -/
def Apart (t u : SessionTask) : Prop :=
  (∀ r ∈ t.saving, ∀ r' ∈ u.saving, r.jti ≠ r'.jti ∧ r.family ≠ r'.family) ∧ ∀ x ∈ t.rotated, x ∉ u.rotated

end SessionTask

/-! ## Revokes of revocation -/

/-- Rows are revoked, ids are drawn and tokens are handed out. -/
structure Revokes (s s' : SessionStore) : Prop where
  rows : ∃ p, s'.refreshTokens = revokeWhere s.refreshTokens p
  nextId : s.nextId ≤ s'.nextId
  handed : ∀ c ∈ s.handed, c ∈ s'.handed

namespace Revokes

variable {s s' : SessionStore} {t : SessionTask} {r r' : RefreshTokenRecord}

theorem of_same (hrows : s'.refreshTokens = s.refreshTokens) (hnext : s.nextId ≤ s'.nextId)
    (hhanded : s'.handed = s.handed) : Revokes s s' :=
  ⟨⟨fun _ => false, by rw [hrows, revokeWhere_false]⟩, hnext, fun c hc => by rw [hhanded]; exact hc⟩

theorem revoking (s : SessionStore) (p : RefreshTokenRecord → Bool) :
    Revokes s { s with refreshTokens := revokeWhere s.refreshTokens p } :=
  ⟨⟨p, rfl⟩, Nat.le_refl _, fun _ hc => hc⟩

theorem mem (h : Revokes s s') (hr : r ∈ s.refreshTokens) : ∃ r' ∈ s'.refreshTokens, SameToken r r' := by
  obtain ⟨p, hp⟩ := h.rows
  rw [hp]
  exact mem_revokeWhere p hr

theorem of_mem (h : Revokes s s') (hr : r' ∈ s'.refreshTokens) : ∃ r ∈ s.refreshTokens, SameToken r r' := by
  obtain ⟨p, hp⟩ := h.rows
  rw [hp] at hr
  obtain ⟨r, hr, hsame, -⟩ := of_mem_revokeWhere p hr
  exact ⟨r, hr, hsame⟩

theorem successor (h : Revokes s s') (hsame : SameToken r r') (hnone : findSuccessor s.refreshTokens r = none) :
    findSuccessor s'.refreshTokens r' = none := by
  obtain ⟨p, hp⟩ := h.rows
  rw [hp, hsame.findSuccessor, findSuccessor_revokeWhere, hnone]
  rfl

theorem ok (h : Revokes s s') (hs : SessionsOK s)
    (hhanded : ∀ c ∈ s'.handed, ∃ r ∈ s.refreshTokens, r.jti = c.jti ∧ r.family = c.family ∧ r.userId = c.sub) :
    SessionsOK s' where
  unique := by
    obtain ⟨p, hp⟩ := h.rows
    rw [hp, revokeWhere_jtis]
    exact hs.unique
  drawn r' hr' := by
    obtain ⟨r, hr, hsame⟩ := h.of_mem hr'
    have hdrawn := hs.drawn r hr
    have hnext := h.nextId
    rw [hsame.jti, hsame.family]
    omega
  owners r₁' hr₁' r₂' hr₂' hfamily := by
    obtain ⟨r₁, hr₁, hsame₁⟩ := h.of_mem hr₁'
    obtain ⟨r₂, hr₂, hsame₂⟩ := h.of_mem hr₂'
    rw [hsame₁.family, hsame₂.family] at hfamily
    rw [hsame₁.userId, hsame₂.userId]
    exact hs.owners r₁ hr₁ r₂ hr₂ hfamily
  last r' hr' hactive := by
    obtain ⟨r, hr, hsame⟩ := h.of_mem hr'
    refine h.successor hsame (hs.last r hr ?_)
    by_contra hrevoked
    rw [hsame.revoked (by simpa using hrevoked)] at hactive
    cases hactive
  handed c hc := by
    obtain ⟨r, hr, hjti, hfamily, hsub⟩ := hhanded c hc
    obtain ⟨r', hr', hsame⟩ := h.mem hr
    exact ⟨r', hr', hsame.jti.trans hjti, hsame.family.trans hfamily, hsame.userId.trans hsub⟩

theorem savable (h : Revokes s s') {user : SessionUser} {record : RefreshTokenRecord} {parent : Option ℕ}
    (hs : Savable s user record parent) : Savable s' user record parent where
  owner := hs.owner
  drawn := by
    have hdrawn := hs.drawn
    have hnext := h.nextId
    omega
  fresh r' hr' := by
    obtain ⟨r, hr, hsame⟩ := h.of_mem hr'
    rw [hsame.jti]
    exact hs.fresh r hr
  idle r' hr' hfamily := by
    obtain ⟨r, hr, hsame⟩ := h.of_mem hr'
    rw [hsame.family] at hfamily
    obtain ⟨hrevoked, huser⟩ := hs.idle r hr hfamily
    exact ⟨hsame.revoked hrevoked, hsame.userId.trans huser⟩
  alone hparent r' hr' := by
    obtain ⟨r, hr, hsame⟩ := h.of_mem hr'
    rw [hsame.family]
    exact hs.alone hparent r hr
  next x hx := by
    obtain ⟨r, hr, hjti, hfamily, hnone⟩ := hs.next x hx
    obtain ⟨r', hr', hsame⟩ := h.mem hr
    exact ⟨r', hr', hsame.jti.trans hjti, hsame.family.trans hfamily, h.successor hsame hnone⟩

theorem rotated (h : Revokes s s') {x : ℕ} {c : RefreshClaims} (hs : Rotated s x c) : Rotated s' x c := by
  obtain ⟨r, hr, hjti, hrevoked, y, hy, hc⟩ := hs
  obtain ⟨r', hr', hsame⟩ := h.mem hr
  obtain ⟨p, hp⟩ := h.rows
  refine ⟨r', hr', hsame.jti.trans hjti, hsame.revoked hrevoked, _, ?_, ((sameToken_mark p y).jti).trans hc⟩
  rw [hp, hsame.findSuccessor, findSuccessor_revokeWhere, hy]
  rfl

theorem presents (h : Revokes s s') {token : RefreshClaims} (hs : Presents s t token) : Presents s' t token :=
  ⟨h.handed token hs.1, hs.2⟩

theorem knows (h : Revokes s s') (ht : t.Knows s) : t.Knows s' :=
  ht.mono (fun _ => h.presents) (fun _ _ _ _ => h.savable) fun _ _ => h.rotated

end Revokes

/-! ## What a step leaves -/

/-- A family without an active row. -/
structure Idle (family : ℕ) (s : SessionStore) : Prop where
  drawn : family < s.nextId
  revoked : ∀ r ∈ s.refreshTokens, r.family = family → r.revoked = true

/-- What a step of the call `t` leaves, whatever the other calls; a family stays without an active
row if the call does not save in it. -/
structure SessionStepped (s : SessionStore) (t : SessionTask) (s' : SessionStore) (t' : SessionTask) : Prop
    extends Crew.Stepped SessionsOK (fun s t => SessionTask.Knows s t) SessionTask.Apart (fun _ => True) s t s' t' where
  idle : ∀ family, Idle family s → (∀ r, t.saving = some r → r.family ≠ family) →
    Idle family s' ∧ ∀ r, t'.saving = some r → r.family ≠ family

section Steps

variable {s s' : SessionStore} {t t' u : SessionTask}

theorem SessionTask.Apart.of_none (hsaving : t.saving = none) (hrotated : t.rotated = none) (u : SessionTask) :
    t.Apart u ∧ u.Apart t := by
  unfold SessionTask.Apart
  rw [hsaving, hrotated]
  simp

theorem Idle.revokes {family : ℕ} (hidle : Idle family s) (h : Revokes s s') : Idle family s' where
  drawn := hidle.drawn.trans_le h.nextId
  revoked r' hr' hfamily := by
    obtain ⟨r, hr, hsame⟩ := h.of_mem hr'
    exact hsame.revoked (hidle.revoked r hr (hsame.family.symm.trans hfamily))

theorem SessionTask.Knows.savable (ht : t.Knows s) {record : RefreshTokenRecord} (hsaving : t.saving = some record) :
    ∃ user parent, t.phase = .save user record parent ∧ Savable s user record parent := by
  unfold SessionTask.saving at hsaving
  split at hsaving
  · rename_i user record' parent hphase
    obtain rfl := Option.some.inj hsaving
    unfold SessionTask.Knows at ht
    rw [hphase] at ht
    exact ⟨user, parent, hphase, ht⟩
  · cases hsaving

/-- A row that was rotated is revoked. -/
theorem SessionTask.Knows.revoked (ht : t.Knows s) {x : ℕ} (hx : t.rotated = some x) :
    ∃ r ∈ s.refreshTokens, r.jti = x ∧ r.revoked = true := by
  unfold SessionTask.rotated at hx
  unfold SessionTask.Knows at ht
  split at hx
  · rename_i hphase
    rw [hphase] at ht
    obtain ⟨r, hr, hjti, hfamily, -⟩ := ht.next x hx
    exact ⟨r, hr, hjti, (ht.idle r hr hfamily).1⟩
  · rename_i hphase
    subst hx
    rw [hphase] at ht
    obtain ⟨r, hr, hjti, hrevoked, -⟩ := ht
    exact ⟨r, hr, hjti, hrevoked⟩
  · cases hx

/-- A call that neither saves nor has rotated, after marks of revocation. -/
theorem stepped_quiet (hs : SessionsOK s) (h : Revokes s s') (hhanded : s'.handed = s.handed) (hsaving : t'.saving = none)
    (hrotated : t'.rotated = none) (hknows : t'.Knows s') : SessionStepped s t s' t' where
  store := h.ok hs fun c hc => hs.handed c (hhanded ▸ hc)
  own := hknows
  others u hu _ _ _ := ⟨h.knows hu, SessionTask.Apart.of_none hsaving hrotated u⟩
  idle family hidle _ := ⟨hidle.revokes h, fun r hr => by rw [hsaving] at hr; cases hr⟩

/-- A new row is drawn. -/
theorem stepped_draw (hs : SessionsOK s) (h : Revokes s s') (hhanded : s'.handed = s.handed) {user : SessionUser}
    {record : RefreshTokenRecord} {parent : Option ℕ} (hphase : t'.phase = .save user record parent)
    (hknows : Savable s' user record parent) (hjti : s.nextId ≤ record.jti)
    (hfamily : ∀ u : SessionTask, u.Knows s → ∀ r, u.saving = some r → r.family ≠ record.family)
    (hparent : ∀ x, parent = some x → ∀ r ∈ s.refreshTokens, r.jti = x → r.revoked = false)
    (hidle : ∀ family, Idle family s → record.family ≠ family) : SessionStepped s t s' t' where
  store := h.ok hs fun c hc => hs.handed c (hhanded ▸ hc)
  own := by
    unfold SessionTask.Knows
    rw [hphase]
    exact hknows
  others u hu _ _ _ := by
    have hsaving : t'.saving = some record := by simp [SessionTask.saving, hphase]
    have hrotated : t'.rotated = parent := by simp [SessionTask.rotated, hphase]
    have hdrawn : ∀ r, u.saving = some r → record.jti ≠ r.jti ∧ record.family ≠ r.family := by
      intro r hr
      obtain ⟨_, _, -, hsavable⟩ := hu.savable hr
      have hold := hsavable.drawn.1
      exact ⟨by omega, Ne.symm (hfamily u hu r hr)⟩
    have honce : ∀ x, parent = some x → u.rotated ≠ some x := by
      intro x hx hux
      obtain ⟨r, hr, hrx, hrevoked⟩ := hu.revoked hux
      rw [hparent x hx r hr hrx] at hrevoked
      cases hrevoked
    refine ⟨h.knows hu, ⟨?_, ?_⟩, ?_, ?_⟩
    · intro r hr r' hr'
      obtain rfl := Option.some.inj (hsaving.symm.trans hr)
      exact hdrawn r' hr'
    · intro x hx hux
      exact honce x (hrotated.symm.trans hx) hux
    · intro r hr r' hr'
      obtain rfl := Option.some.inj (hsaving.symm.trans hr')
      exact (hdrawn r hr).imp Ne.symm Ne.symm
    · intro x hux hx
      exact honce x (hrotated.symm.trans hx) hux
  idle family hfam _ := by
    refine ⟨hfam.revokes h, fun r hr => ?_⟩
    have hsaving : t'.saving = some record := by simp [SessionTask.saving, hphase]
    obtain rfl := Option.some.inj (hsaving.symm.trans hr)
    exact hidle family hfam

/-- The row of a session that goes on from no other. -/
theorem stepped_issue (ttl : ℕ) (hs : SessionsOK s) {s₁ : SessionStore} (h : Revokes s s₁) (hhanded : s₁.handed = s.handed)
    (user : SessionUser) :
    SessionStepped s t (t.issueSession ttl s₁ user none none).2 (t.issueSession ttl s₁ user none none).1 := by
  have hnext := h.nextId
  have hdraws : Revokes s (t.issueSession ttl s₁ user none none).2 :=
    ⟨h.rows, by simp only [SessionTask.issueSession]; omega, h.handed⟩
  have hold : ∀ r ∈ s₁.refreshTokens, r.jti < s₁.nextId ∧ r.family < s₁.nextId := by
    intro r' hr'
    obtain ⟨r, hr, hsame⟩ := h.of_mem hr'
    have hdrawn := hs.drawn r hr
    rw [hsame.jti, hsame.family]
    omega
  refine stepped_draw hs hdraws hhanded rfl ?_ hnext (fun u hu r hr => ?_) (fun x hx => (by cases hx)) fun f hf => ?_
  · refine ⟨rfl, ?_, fun r hr => ?_, fun r hr hfamily => ?_, fun _ r hr => ?_, fun x hx => by cases hx⟩
    · simp only [SessionTask.issueSession, Option.getD_none]
      omega
    · exact (hold r hr).1.ne
    · have hlt := (hold r hr).2
      simp only [Option.getD_none] at hfamily
      omega
    · have hlt := (hold r hr).2
      simp only [Option.getD_none]
      omega
  · obtain ⟨_, _, -, hsavable⟩ := hu.savable hr
    have hlt := hsavable.drawn.2
    simp only [Option.getD_none]
    omega
  · have hlt := hf.drawn
    simp only [Option.getD_none]
    omega

/-- The compare-and-set wins on an active row, or changes nothing. -/
theorem revokeIfActive_cases (rows : List RefreshTokenRecord) (jti : ℕ) :
    revokeIfActive rows jti = (false, rows) ∨
      revokeIfActive rows jti = (true, revoke rows jti) ∧ ∃ r ∈ rows, r.jti = jti ∧ r.revoked = false := by
  unfold revokeIfActive
  by_cases hactive : (find rows jti).any (!·.revoked) = true
  · right
    cases hr : find rows jti with
    | none => simp [hr] at hactive
    | some r =>
      obtain ⟨hmem, hjti⟩ := find_spec hr
      exact ⟨if_pos (by simpa [hr] using hactive), r, hmem, hjti, by simpa [hr] using hactive⟩
  · left
    exact if_neg hactive

/-- The active row of a family, and the call that wins it. -/
theorem stepped_win (ttl : ℕ) (hs : SessionsOK s) {user : SessionUser} {record : RefreshTokenRecord} {token : RefreshClaims}
    (hp : Presents s t token) (hsub : token.sub = user.id) (hjti : token.jti = record.jti)
    (hfamily : token.family = record.family) (hactive : ∃ r ∈ s.refreshTokens, r.jti = record.jti ∧ r.revoked = false) :
    SessionStepped s t (t.rotate ttl s user record true (revoke s.refreshTokens record.jti)).2
      (t.rotate ttl s user record true (revoke s.refreshTokens record.jti)).1 := by
  obtain ⟨r, hr, hrj, hractive⟩ := hactive
  -- the row of the presented token is the active one
  obtain ⟨r₀, hr₀, hj₀, hf₀, hu₀⟩ := hs.handed token hp.1
  obtain rfl : r₀ = r := eq_of_jti hs.unique hr₀ hr (hj₀.trans (hjti.trans hrj.symm))
  have hrf : r₀.family = record.family := hf₀.trans hfamily
  have hru : r₀.userId = user.id := hu₀.trans hsub
  have hlast := hs.last r₀ hr hractive
  have hdrawn := hs.drawn r₀ hr
  -- the others of the family have a successor
  have hothers : ∀ x ∈ s.refreshTokens, x.family = record.family → x.jti ≠ record.jti → x.revoked = true := by
    intro x hx hxf hxj
    by_contra hxa
    have hxlast := hs.last x hx (by simpa using hxa)
    rcases findSuccessor_or hx hr (by rw [hrj]; exact hxj) (hxf.trans hrf.symm) with h | h
    · exact h hxlast
    · exact h hlast
  have hrevokes : Revokes s (t.rotate ttl s user record true (revoke s.refreshTokens record.jti)).2 :=
    ⟨⟨_, rfl⟩, Nat.le_add_right _ _, fun _ hc => hc⟩
  have hphase : (t.rotate ttl s user record true (revoke s.refreshTokens record.jti)).1.phase =
      .save user { jti := s.nextId, userId := user.id, family := record.family, expiresAt := s.now + ttl }
        (some record.jti) := rfl
  refine stepped_draw hs hrevokes rfl hphase ?_ (Nat.le_refl _) (fun u hu x hx => ?_)
    (fun x hx y hy hyx => ?_) fun f hf heq => ?_
  · refine ⟨rfl, ?_, fun x' hx' => ?_, fun x' hx' hxf => ?_, fun hnone => ?_, fun x hx => ?_⟩
    · show s.nextId < s.nextId + 2 ∧ record.family < s.nextId + 2
      omega
    · obtain ⟨x, hx, hsame⟩ := hrevokes.of_mem hx'
      rw [hsame.jti]
      exact (hs.drawn x hx).1.ne
    · obtain ⟨x, hx, hsame, hmark⟩ := of_mem_revokeWhere _ hx'
      have hxfamily : x.family = record.family := hsame.family.symm.trans hxf
      refine ⟨?_, hsame.userId.trans ((hs.owners x hx r₀ hr (hxfamily.trans hrf.symm)).trans hru)⟩
      by_cases hxj : x.jti = record.jti
      · exact hmark (by simpa using hxj)
      · exact hsame.revoked (hothers x hx hxfamily hxj)
    · cases hnone
    · obtain rfl := Option.some.inj hx
      obtain ⟨r', hr', hsame⟩ := hrevokes.mem hr
      exact ⟨r', hr', hsame.jti.trans hrj, hsame.family.trans hrf, hrevokes.successor hsame hlast⟩
  · -- a call that saves in the family has found no active row there
    obtain ⟨user', parent, -, hsavable⟩ := hu.savable hx
    intro heq
    have hidle := (hsavable.idle r₀ hr (hrf.trans heq.symm)).1
    rw [hractive] at hidle
    cases hidle
  · obtain rfl := Option.some.inj hx
    obtain rfl : y = r₀ := eq_of_jti hs.unique hy hr (hyx.trans hrj.symm)
    exact hractive
  · have hidle := hf.revoked r₀ hr (hrf.trans heq)
    rw [hractive] at hidle
    cases hidle

/-- The new row is saved, and its token handed out. -/
theorem stepped_save (hs : SessionsOK s) {user : SessionUser} {record : RefreshTokenRecord} {parent : Option ℕ}
    (hphase : t.phase = .save user record parent) (hsave : Savable s user record parent) {c : RefreshClaims}
    (hc : c.jti = record.jti ∧ c.family = record.family ∧ c.sub = user.id) :
    SessionStepped s t (t.hand { s with refreshTokens := save s.refreshTokens record } c parent).2
      (t.hand { s with refreshTokens := save s.refreshTokens record } c parent).1 := by
  have hrows : save s.refreshTokens record = s.refreshTokens ++ [record] := save_fresh hsave.fresh
  have hsaving : t.saving = some record := by simp [SessionTask.saving, hphase]
  have hrotated : t.rotated = parent := by simp [SessionTask.rotated, hphase]
  rw [hrows]
  simp only [SessionTask.hand, SessionTask.goto]
  have hmem : ∀ r ∈ s.refreshTokens, r ∈ s.refreshTokens ++ [record] := fun r hr => List.mem_append_left _ hr
  -- a new row is a successor in its own family only
  have hnext : ∀ r ∈ s.refreshTokens, findSuccessor s.refreshTokens r = none → r.family ≠ record.family →
      findSuccessor (s.refreshTokens ++ [record]) r = none := by
    intro r hr hnone hne
    have happend := successorFrom_append_none hnone (.inr (List.mem_map_of_mem hr)) (Ne.symm (hsave.fresh r hr))
    unfold findSuccessor
    rw [happend, if_neg (Ne.symm hne)]
  refine ⟨⟨?_, ?_, fun u hu htu hut _ => ⟨?_, ?_, ?_⟩⟩, fun family hidle hne => ⟨⟨hidle.drawn, fun r hr hf => ?_⟩, ?_⟩⟩
  -- the invariant: the new row has a fresh id, its family's owner, and no active row beside it
  · refine ⟨?_, fun r hr => ?_, fun r hr r' hr' hfamily => ?_, fun r hr hactive => ?_, fun c' hc' => ?_⟩
    · rw [List.map_append, List.nodup_append]
      refine ⟨hs.unique, List.nodup_singleton _, fun x hx y hy => ?_⟩
      obtain ⟨r, hr, rfl⟩ := List.mem_map.mp hx
      rw [List.mem_singleton.mp hy]
      exact hsave.fresh r hr
    · rcases List.mem_append.mp hr with hr | hr
      · exact hs.drawn r hr
      · rw [List.mem_singleton.mp hr]
        exact hsave.drawn
    · rcases List.mem_append.mp hr with hr | hr
      · rcases List.mem_append.mp hr' with hr' | hr'
        · exact hs.owners r hr r' hr' hfamily
        · rw [List.mem_singleton.mp hr'] at hfamily ⊢
          exact (hsave.idle r hr hfamily).2.trans hsave.owner.symm
      · rw [List.mem_singleton.mp hr] at hfamily ⊢
        rcases List.mem_append.mp hr' with hr' | hr'
        · exact hsave.owner.trans (hsave.idle r' hr' hfamily.symm).2.symm
        · rw [List.mem_singleton.mp hr']
    · rcases List.mem_append.mp hr with hr | hr
      · refine hnext r hr (hs.last r hr hactive) fun heq => ?_
        rw [(hsave.idle r hr heq).1] at hactive
        cases hactive
      · rw [List.mem_singleton.mp hr]
        refine successorFrom_fresh (fun hin => ?_) rfl
        obtain ⟨r', hr', hjti⟩ := List.mem_map.mp hin
        exact hsave.fresh r' hr' hjti
    · rcases List.mem_append.mp hc' with hc' | hc'
      · obtain ⟨r, hr, hrest⟩ := hs.handed c' hc'
        exact ⟨r, hmem r hr, hrest⟩
      · rw [List.mem_singleton.mp hc']
        exact ⟨record, List.mem_append_right _ List.mem_cons_self, hc.1.symm, hc.2.1.symm,
          hsave.owner.trans hc.2.2.symm⟩
  · unfold SessionTask.Knows
    cases parent with
    | none => trivial
    | some x =>
      obtain ⟨r, hr, hjti, hfamily, hnone⟩ := hsave.next x rfl
      refine ⟨r, hmem r hr, hjti, (hsave.idle r hr hfamily).1, record, ?_, hc.1.symm⟩
      have happend := successorFrom_append_none hnone (.inr (List.mem_map_of_mem hr)) (Ne.symm (hsave.fresh r hr))
      unfold findSuccessor
      rw [happend, if_pos hfamily.symm]
  · -- what another call knows outlives the new row
    have hpresents : ∀ token, Presents s u token →
        Presents { s with refreshTokens := s.refreshTokens ++ [record], handed := s.handed ++ [c] } u token :=
      fun token hp => ⟨List.mem_append_left _ hp.1, hp.2⟩
    have hsavable : ∀ user' record' parent', u.phase = .save user' record' parent' → Savable s user' record' parent' →
        Savable { s with refreshTokens := s.refreshTokens ++ [record], handed := s.handed ++ [c] } user' record' parent' := by
      intro user' record' parent' huphase h
      have husaving : u.saving = some record' := by simp [SessionTask.saving, huphase]
      obtain ⟨hj, hf⟩ := htu.1 record hsaving record' husaving
      refine ⟨h.owner, h.drawn, fun r hr => ?_, fun r hr hfamily => ?_, fun hparent r hr => ?_, fun x hx => ?_⟩
      · rcases List.mem_append.mp hr with hr | hr
        · exact h.fresh r hr
        · rw [List.mem_singleton.mp hr]
          exact hj
      · rcases List.mem_append.mp hr with hr | hr
        · exact h.idle r hr hfamily
        · rw [List.mem_singleton.mp hr] at hfamily
          exact absurd hfamily hf
      · rcases List.mem_append.mp hr with hr | hr
        · exact h.alone hparent r hr
        · rw [List.mem_singleton.mp hr]
          exact hf
      · obtain ⟨r, hr, hjti, hfamily, hnone⟩ := h.next x hx
        exact ⟨r, hmem r hr, hjti, hfamily, hnext r hr hnone (by rw [hfamily]; exact Ne.symm hf)⟩
    -- a rotation keeps its successor, the first one
    have hrot : ∀ x c', Rotated s x c' →
        Rotated { s with refreshTokens := s.refreshTokens ++ [record], handed := s.handed ++ [c] } x c' := by
      rintro x c' ⟨r, hr, hjti, hrevoked, y, hy, hyc⟩
      exact ⟨r, hmem r hr, hjti, hrevoked, y, successorFrom_append hy record, hyc⟩
    exact hu.mono hpresents hsavable hrot
  · refine ⟨fun r hr => ?_, fun x hx hux => ?_⟩
    · cases hr
    · exact htu.2 x (hrotated.trans hx) hux
  · refine ⟨fun r hr r' hr' => ?_, fun x hux hx => ?_⟩
    · cases hr'
    · exact hut.2 x hux (hrotated.trans hx)
  · rcases List.mem_append.mp hr with hr | hr
    · exact hidle.revoked r hr hf
    · rw [List.mem_singleton.mp hr] at hf
      exact absurd hf (hne record hsaving)
  · intro r hr
    cases hr

/-- An unused successor is handed out again. -/
theorem stepped_hand (hs : SessionsOK s) {c : RefreshClaims}
    (hc : ∃ r ∈ s.refreshTokens, r.jti = c.jti ∧ r.family = c.family ∧ r.userId = c.sub) :
    SessionStepped s t (t.hand s c none).2 (t.hand s c none).1 := by
  have hrevokes : Revokes s (t.hand s c none).2 :=
    ⟨⟨fun _ => false, revokeWhere_false.symm⟩, Nat.le_refl _, fun c' hc' => List.mem_append_left _ hc'⟩
  refine ⟨⟨hrevokes.ok hs fun c' hc' => ?_, trivial, fun u hu _ _ _ => ?_⟩, fun family hidle _ => ?_⟩
  · rcases List.mem_append.mp hc' with hc' | hc'
    · exact hs.handed c' hc'
    · rw [List.mem_singleton.mp hc']
      exact hc
  · exact ⟨hrevokes.knows hu, SessionTask.Apart.of_none rfl rfl u⟩
  · exact ⟨hidle.revokes hrevokes, fun r hr => (by cases hr)⟩

theorem stepped_goto (hs : SessionsOK s) (h : Revokes s s') (hhanded : s'.handed = s.handed) {phase : SessionPhase}
    (hknows : (t.goto phase).Knows s') (hsaving : (t.goto phase).saving = none := by rfl)
    (hrotated : (t.goto phase).rotated = none := by rfl) : SessionStepped s t s' (t.goto phase) :=
  stepped_quiet hs h hhanded hsaving hrotated hknows

theorem stepped_refuse (hs : SessionsOK s) : SessionStepped s t (t.refuse s).2 (t.refuse s).1 :=
  stepped_goto hs (.of_same rfl (Nat.le_refl _) rfl) rfl trivial

/-- The answer to `findSuccessor`. -/
theorem stepped_resume (hs : SessionsOK s) {user : SessionUser} {record : RefreshTokenRecord} {token : RefreshClaims}
    (hp : Presents s t token) (hsub : token.sub = user.id) (hjti : token.jti = record.jti)
    (hfamily : token.family = record.family) (wait : Bool) (left : ℕ) :
    SessionStepped s t
      (t.resumeUnusedSuccessor s user record wait left (findSuccessor s.refreshTokens record)).2
      (t.resumeUnusedSuccessor s user record wait left (findSuccessor s.refreshTokens record)).1 := by
  have hsame : Revokes s s := .of_same rfl (Nat.le_refl _) rfl
  cases hnext : findSuccessor s.refreshTokens record with
  | none =>
    cases wait with
    | true => exact stepped_goto hs hsame rfl ⟨token, hp, hsub, hjti, hfamily⟩
    | false => exact stepped_goto hs hsame rfl ⟨token, hp, hfamily⟩
  | some next =>
    simp only [SessionTask.resumeUnusedSuccessor]
    split
    · exact stepped_goto hs hsame rfl ⟨token, hp, hfamily⟩
    · obtain ⟨hmem, hnf⟩ := successorFrom_mem hnext
      obtain ⟨r, hr, -, hrf, hru⟩ := hs.handed token hp.1
      refine stepped_hand hs ⟨next, hmem, rfl, rfl, ?_⟩
      exact (hs.owners next hmem r hr (hnf.trans (hfamily.symm.trans hrf.symm))).trans (hru.trans hsub)

/-- A step of a call keeps the invariant. -/
theorem stepped_session (ttl : ℕ) (w : Bool) (hs : SessionsOK s) (ht : t.Knows s) :
    SessionStepped s t (t.resume ttl s w).2 (t.resume ttl s w).1 := by
  -- most steps only read
  have hsame : Revokes s s := .of_same rfl (Nat.le_refl _) rfl
  unfold SessionTask.Knows at ht
  unfold SessionTask.resume
  cases hphase : t.phase with
  | hashPassword email username => exact stepped_goto hs hsame rfl trivial
  | findByEmail email username =>
    simp only
    split
    · exact stepped_refuse hs
    · exact stepped_goto hs hsame rfl trivial
  | findByUsername email username =>
    simp only
    split
    · exact stepped_refuse hs
    · exact stepped_goto hs hsame rfl trivial
  | create email username =>
    simp only
    split
    · exact stepped_refuse hs
    -- a new user draws an id, no token
    · have hdraw : Revokes s
          { s with users := s.users ++ [{ id := s.nextId, email, username }], nextId := s.nextId + 1 } :=
        .of_same rfl (Nat.le_succ _) rfl
      exact stepped_issue ttl hs hdraw rfl _
  | findLogin email => exact stepped_goto hs hsame rfl trivial
  | verifyPassword user =>
    cases user with
    | none => exact stepped_refuse hs
    | some user =>
      simp only [SessionTask.checkLogin]
      split
      · exact stepped_issue ttl hs hsame rfl user
      · exact stepped_refuse hs
  | save user record parent =>
    rw [hphase] at ht
    exact stepped_save hs hphase ht ⟨rfl, rfl, rfl⟩
  | findById token =>
    rw [hphase] at ht
    simp only
    cases hfind : s.users.find? (·.id = token.sub) with
    | none => exact stepped_refuse hs
    | some user =>
      simp only [SessionTask.checkUser]
      split
      · exact stepped_refuse hs
      · have hid : user.id = token.sub := by simpa using List.find?_some hfind
        exact stepped_goto hs hsame rfl ⟨ht, hid.symm⟩
  | find user token =>
    rw [hphase] at ht
    obtain ⟨hp, hsub⟩ := ht
    simp only
    cases hfind : find s.refreshTokens token.jti with
    | none => exact stepped_refuse hs
    | some record =>
      obtain ⟨hmem, hjti⟩ := find_spec hfind
      obtain ⟨r, hr, hrj, hrf, -⟩ := hs.handed token hp.1
      -- the row found is the one the token was handed out for
      obtain rfl : record = r := eq_of_jti hs.unique hmem hr (hjti.trans hrj.symm)
      have hknows : ∃ token, Presents s t token ∧ token.sub = user.id ∧ token.jti = record.jti ∧
          token.family = record.family := ⟨token, hp, hsub, hjti.symm, hrf.symm⟩
      simp only [SessionTask.checkRecord]
      split
      · exact stepped_refuse hs
      · split
        · exact stepped_goto hs hsame rfl hknows
        · exact stepped_goto hs hsame rfl hknows
  | revokeIfActive user record =>
    rw [hphase] at ht
    obtain ⟨token, hp, hsub, hjti, hfamily⟩ := ht
    rcases revokeIfActive_cases s.refreshTokens record.jti with hlost | ⟨hwon, hactive⟩
    · simp only [hlost]
      exact stepped_goto hs hsame rfl ⟨token, hp, hsub, hjti, hfamily⟩
    · simp only [hwon]
      exact stepped_win ttl hs hp hsub hjti hfamily hactive
  | findSuccessor user record wait left =>
    rw [hphase] at ht
    obtain ⟨token, hp, hsub, hjti, hfamily⟩ := ht
    exact stepped_resume hs hp hsub hjti hfamily wait left
  | sleep user record left =>
    rw [hphase] at ht
    obtain ⟨token, hp, hsub, hjti, hfamily⟩ := ht
    simp only
    split
    · exact stepped_goto hs hsame rfl ⟨token, hp, hfamily⟩
    · exact stepped_goto hs hsame rfl ⟨token, hp, hsub, hjti, hfamily⟩
  | revokeFamily family =>
    show SessionStepped s t { s with refreshTokens := revokeFamily s.refreshTokens family }
      (t.goto (.ended (.refused (some family))))
    exact stepped_goto hs (.revoking s (·.family = family)) rfl trivial
  | revoke jti =>
    show SessionStepped s t { s with refreshTokens := revoke s.refreshTokens jti } (t.goto (.ended .loggedOut))
    exact stepped_goto hs (.revoking s (·.jti = jti)) rfl trivial
  | bumpTokenVersion userId =>
    -- the version moves, the rows stay until the next step
    have hbump : Revokes s
        { s with users := s.users.map fun u => if u.id = userId then { u with tokenVersion := u.tokenVersion + 1 } else u } :=
      .of_same rfl (Nat.le_refl _) rfl
    show SessionStepped s t _ (t.goto (.revokeAllForUser userId))
    exact stepped_goto hs hbump rfl trivial
  | revokeAllForUser userId =>
    cases w with
    | true =>
      show SessionStepped s t { s with refreshTokens := revokeAllForUser s.refreshTokens userId } (t.goto (.ended .done))
      exact stepped_goto hs (.revoking s (·.userId = userId)) rfl trivial
    | false =>
      show SessionStepped s t s (t.goto (.ended .done))
      exact stepped_goto hs hsame rfl trivial
  | ended result =>
    exact ⟨⟨hs, ht, fun u hu htu hut _ => ⟨hu, htu, hut⟩⟩, fun family hidle hne => ⟨hidle, hne⟩⟩

end Steps

/-! ## Every run -/

/-- The calls follow the rules of a crew. -/
theorem session_rules (ttl : ℕ) :
    Crew.Paired (authService ttl) (fun _ _ _ => True) (fun _ _ _ _ => True) SessionsOK
      (fun s t => SessionTask.Knows s t) SessionTask.Apart where
  entered s op hs := by
    show (SessionTask.enter s op).Knows s
    unfold SessionTask.enter
    split
    · trivial
    · trivial
    · rename_i token verifies
      split
      · rename_i h
        exact ⟨h.2, .inl ⟨_, rfl⟩⟩
      · trivial
    · trivial
    · rename_i token verifies
      split
      · rename_i h
        exact ⟨token, ⟨h.2, .inr ⟨_, rfl⟩⟩, rfl⟩
      · trivial
    · trivial
  entered_pair s op u _ _ := by
    show (SessionTask.enter s op).Apart u ∧ u.Apart (SessionTask.enter s op)
    have hstarts := SessionTask.starts_enter s op
    exact SessionTask.Apart.of_none hstarts.saving hstarts.rotated u
  resumed s t w hs ht _ := (stepped_session ttl w hs ht).toStepped
  drifted s d hs := by
    cases d with
    | clock ms => exact ⟨hs.unique, hs.drawn, hs.owners, hs.last, hs.handed⟩
    | setAllowed userId allowed => exact ⟨hs.unique, hs.drawn, hs.owners, hs.last, hs.handed⟩
  drifted_task s d u _ hu := by
    have hrevokes : Revokes s ((authService ttl).drift d s) := by
      cases d with
      | clock ms => exact .of_same rfl (Nat.le_refl _) rfl
      | setAllowed userId allowed => exact .of_same rfl (Nat.le_refl _) rfl
    exact hrevokes.knows hu

/-- The service as it starts. -/
def freshSessions (users : List SessionUser) (nextId now : ℕ) : Crew.State SessionStore SessionTask :=
  { store := { users, nextId, now } }

/-- With no token, the invariant holds. -/
theorem holds_fresh (users : List SessionUser) (nextId now : ℕ) :
    Crew.Holds SessionsOK (fun s t => SessionTask.Knows s t) SessionTask.Apart (freshSessions users nextId now) := by
  refine ⟨⟨List.nodup_nil, ?_, ?_, ?_, ?_⟩, ?_, ?_⟩
  · intro r hr
    cases hr
  · intro r hr
    cases hr
  · intro r hr
    cases hr
  · intro c hc
    cases hc
  · intro t ht
    cases ht
  · intro i j t u _ ht
    cases ht

/-- The invariant holds in every state. -/
theorem session_holds (ttl : ℕ) (users : List SessionUser) (nextId now : ℕ) (es : List (Crew.Event SessionOp Bool AuthEvent)) :
    Crew.Holds SessionsOK (fun s t => SessionTask.Knows s t) SessionTask.Apart
      (run (authService ttl).step (freshSessions users nextId now) es) := by
  refine (session_rules ttl).guarded (holds_fresh users nextId now) es (guarded_of_forall _ fun e _ s => ?_)
  cases e with
  | enter op => trivial
  | resume k w => exact fun t _ => ⟨trivial, fun u _ => trivial⟩
  | drift d => trivial

/-- Linear chains: one active row in a family at most, no row rotated twice, each new row the direct
successor of the one it was rotated from, and each token handed out a row of its user. -/
structure Chains (s : Crew.State SessionStore SessionTask) : Prop where
  active : ∀ family,
    (s.store.refreshTokens.filter fun r => r.family = family ∧ r.revoked = false).length ≤ 1
  once : ∀ (i j : ℕ) (t u : SessionTask) (x : ℕ), i ≠ j → s.tasks[i]? = some t → s.tasks[j]? = some u →
    t.rotated = some x → u.rotated ≠ some x
  successor : ∀ t ∈ s.tasks, ∀ c x, t.phase = .ended (.issued c (some x)) →
    ∃ r ∈ s.store.refreshTokens, r.jti = x ∧ ∃ r', findSuccessor s.store.refreshTokens r = some r' ∧ r'.jti = c.jti
  named : ∀ c ∈ s.store.handed, ∃ r ∈ s.store.refreshTokens, r.jti = c.jti ∧ r.userId = c.sub

/-- A family has one active token at most. -/
theorem SessionsOK.active {s : SessionStore} (hs : SessionsOK s) (family : ℕ) :
    (s.refreshTokens.filter fun r => r.family = family ∧ r.revoked = false).length ≤ 1 := by
  have hnodup : (s.refreshTokens.filter fun r => r.family = family ∧ r.revoked = false).Nodup :=
    (List.Nodup.of_map _ hs.unique).filter _
  have hmem : ∀ r ∈ s.refreshTokens.filter (fun r => r.family = family ∧ r.revoked = false),
      r ∈ s.refreshTokens ∧ r.family = family ∧ r.revoked = false := by
    intro r hr
    simpa using List.mem_filter.mp hr
  match hlist : s.refreshTokens.filter fun r => r.family = family ∧ r.revoked = false with
  | [] =>
    rw [hlist]
    exact Nat.zero_le _
  | [r] =>
    rw [hlist]
    exact Nat.le_refl _
  | r :: r' :: rest =>
    rw [hlist] at hnodup hmem
    obtain ⟨hr, hrf, hra⟩ := hmem r List.mem_cons_self
    obtain ⟨hr', hrf', hra'⟩ := hmem r' (List.mem_cons_of_mem r List.mem_cons_self)
    have hne : r.jti ≠ r'.jti := by
      intro heq
      obtain rfl := eq_of_jti hs.unique hr hr' heq
      simp at hnodup
    rcases findSuccessor_or hr hr' hne (hrf.trans hrf'.symm) with h | h
    · exact absurd (hs.last r hr hra) h
    · exact absurd (hs.last r' hr' hra') h

/-- **Refresh-token chains are linear**, in every reachable state. -/
theorem refresh_chains_linear (ttl : ℕ) (users : List SessionUser) (nextId now : ℕ)
    (es : List (Crew.Event SessionOp Bool AuthEvent)) :
    Chains (run (authService ttl).step (freshSessions users nextId now) es) := by
  have hs := session_holds ttl users nextId now es
  refine ⟨hs.store.active, fun i j t u x hij ht hu hx => ?_, fun t ht c x hphase => ?_, fun c hc => ?_⟩
  · exact (hs.pair i j t u hij ht hu).2 x hx
  · have hknows := hs.task t ht
    unfold SessionTask.Knows at hknows
    rw [hphase] at hknows
    obtain ⟨r, hr, hjti, -, hsucc⟩ := hknows
    exact ⟨r, hr, hjti, hsucc⟩
  · obtain ⟨r, hr, hjti, -, hsub⟩ := hs.store.handed c hc
    exact ⟨r, hr, hjti, hsub⟩

/-! ## The end of a session -/

namespace SessionTask

/-- The call has revoked the last row of a family, as a logout or on detected reuse. -/
def Closed (t : SessionTask) (family : ℕ) : Prop :=
  (∃ token v, t.op = .logout (some token) v ∧ token.family = family ∧ t.phase = .ended .loggedOut) ∨
    t.phase = .ended (.refused (some family))

/-- The call has ended a session: a logout of a token of the family has returned, whatever it did,
or a refresh has revoked the family. -/
def Ends (t : SessionTask) (family : ℕ) : Prop :=
  (∃ token v result, t.op = .logout (some token) v ∧ token.family = family ∧ t.phase = .ended result) ∨
    t.phase = .ended (.refused (some family))

/-- A logout leaves no other active row in its family. -/
def EndsIt (s : SessionStore) (t : SessionTask) (_ : Bool) : Prop :=
  match t.phase with
  | .revoke jti => ∀ r ∈ s.refreshTokens, r.jti = jti →
      ∀ r' ∈ s.refreshTokens, r'.family = r.family → r'.revoked = false → r'.jti = jti
  | _ => True

/-- No rotation of the family stands between its revocation and its row. -/
def EndsBeside (s : SessionStore) (t : SessionTask) (_ : Bool) (u : SessionTask) : Prop :=
  match t.phase with
  | .revoke jti => ∀ r ∈ s.refreshTokens, r.jti = jti → u.saving.all (·.family ≠ r.family) = true
  | .revokeFamily family => u.saving.all (·.family ≠ family) = true
  | _ => True

instance (s : SessionStore) (t : SessionTask) (w : Bool) : Decidable (t.EndsIt s w) := by
  unfold EndsIt
  split
  · infer_instance
  · infer_instance

instance (s : SessionStore) (t : SessionTask) (w : Bool) (u : SessionTask) : Decidable (t.EndsBeside s w u) := by
  unfold EndsBeside
  split
  · infer_instance
  · infer_instance
  · infer_instance

section Closing

variable {ttl : ℕ} {s : SessionStore} {t : SessionTask} {w : Bool} {family : ℕ}

theorem not_closes_refuse : ¬Closes family (t.refuse s).1.phase := by
  simp [Closes, refuse, goto]

theorem not_closes_issue (user : SessionUser) (f parent : Option ℕ) :
    ¬Closes family (t.issueSession ttl s user f parent).1.phase := by
  simp [Closes, issueSession, goto]

theorem not_closes_hand (c : RefreshClaims) (parent : Option ℕ) : ¬Closes family (t.hand s c parent).1.phase := by
  simp [Closes, hand, goto]

theorem not_closes_checkUser (token : RefreshClaims) (user : Option SessionUser) :
    ¬Closes family (t.checkUser s token user).1.phase := by
  cases user with
  | none => exact not_closes_refuse
  | some user =>
    simp only [checkUser]
    split
    · exact not_closes_refuse
    · simp [Closes, goto]

theorem not_closes_checkRecord (user : SessionUser) (record : Option RefreshTokenRecord) :
    ¬Closes family (t.checkRecord s user record).1.phase := by
  cases record with
  | none => exact not_closes_refuse
  | some record =>
    simp only [checkRecord]
    split
    · exact not_closes_refuse
    · split
      · simp [Closes, goto]
      · simp [Closes, goto]

theorem not_closes_checkLogin (ok : Bool) (user : Option SessionUser) :
    ¬Closes family (t.checkLogin ttl s ok user).1.phase := by
  cases user with
  | none => exact not_closes_refuse
  | some user =>
    simp only [checkLogin]
    split
    · exact not_closes_issue _ _ _
    · exact not_closes_refuse

theorem not_closes_rotate (user : SessionUser) (record : RefreshTokenRecord) (won : Bool)
    (rows : List RefreshTokenRecord) : ¬Closes family (t.rotate ttl s user record won rows).1.phase := by
  cases won with
  | true => exact not_closes_issue _ _ _
  | false => simp [Closes, rotate, goto]

theorem not_closes_resume (user : SessionUser) (record : RefreshTokenRecord) (wait : Bool) (left : ℕ)
    (next : Option RefreshTokenRecord) : ¬Closes family (t.resumeUnusedSuccessor s user record wait left next).1.phase := by
  cases next with
  | none =>
    cases wait with
    | true => simp [Closes, resumeUnusedSuccessor, goto]
    | false => simp [Closes, resumeUnusedSuccessor, goto]
  | some next =>
    simp only [resumeUnusedSuccessor]
    split
    · simp [Closes, goto]
    · exact not_closes_hand _ _

/-- How a call comes to have ended a session. -/
theorem closes_cases (h : Closes family (t.resume ttl s w).1.phase) :
    t.resume ttl s w = (t, s) ∨ t.phase = .revokeFamily family ∨ ∃ jti, t.phase = .revoke jti := by
  unfold resume at h ⊢
  cases hphase : t.phase with
  | ended result => exact .inl rfl
  | revoke jti => exact .inr (.inr ⟨jti, rfl⟩)
  | revokeFamily f =>
    rw [hphase] at h
    simp [Closes, goto] at h
    exact .inr (.inl (congrArg _ h))
  | findByEmail email username =>
    rw [hphase] at h
    simp only at h
    split at h
    · exact absurd h not_closes_refuse
    · simp [Closes, goto] at h
  | findByUsername email username =>
    rw [hphase] at h
    simp only at h
    split at h
    · exact absurd h not_closes_refuse
    · simp [Closes, goto] at h
  | create email username =>
    rw [hphase] at h
    simp only at h
    split at h
    · exact absurd h not_closes_refuse
    · exact absurd h (not_closes_issue _ _ _)
  | verifyPassword user => exact absurd (hphase ▸ h) (not_closes_checkLogin _ _)
  | save user record parent => exact absurd (hphase ▸ h) (not_closes_hand _ _)
  | findById token => exact absurd (hphase ▸ h) (not_closes_checkUser _ _)
  | find user token => exact absurd (hphase ▸ h) (not_closes_checkRecord _ _)
  | revokeIfActive user record => exact absurd (hphase ▸ h) (not_closes_rotate _ _ _ _)
  | findSuccessor user record wait left => exact absurd (hphase ▸ h) (not_closes_resume _ _ _ _ _)
  | sleep user record left =>
    rw [hphase] at h
    simp only [goto] at h
    split at h
    · simp [Closes] at h
    · simp [Closes] at h
  | hashPassword email username => simp [hphase, Closes, goto] at h
  | findLogin email => simp [hphase, Closes, goto] at h
  | bumpTokenVersion userId => simp [hphase, Closes, goto] at h
  | revokeAllForUser userId => simp [hphase, Closes, goto] at h

end Closing

/-- A call stays what it was. -/
theorem resume_op (ttl : ℕ) (s : SessionStore) (t : SessionTask) (w : Bool) : (t.resume ttl s w).1.op = t.op := by
  have hite : ∀ (c : Prop) [Decidable c] (x y : SessionTask × SessionStore), x.1.op = t.op → y.1.op = t.op →
      (if c then x else y).1.op = t.op := by
    intro c _ x y hx hy
    split
    · exact hx
    · exact hy
  unfold resume
  cases t.phase with
  | findByEmail email username => exact hite _ _ _ rfl rfl
  | findByUsername email username => exact hite _ _ _ rfl rfl
  | create email username => exact hite _ _ _ rfl rfl
  | verifyPassword user =>
    cases user with
    | none => rfl
    | some user => exact hite _ _ _ rfl rfl
  | findById token =>
    simp only
    cases s.users.find? (·.id = token.sub) with
    | none => rfl
    | some user => exact hite _ _ _ rfl rfl
  | find user token =>
    simp only
    cases find s.refreshTokens token.jti with
    | none => rfl
    | some record => exact hite _ _ _ rfl (hite _ _ _ rfl rfl)
  | revokeIfActive user record => exact hite _ _ _ rfl rfl
  | findSuccessor user record wait left =>
    simp only
    cases findSuccessor s.refreshTokens record with
    | none => rfl
    | some next => exact hite _ _ _ rfl rfl
  | _ => rfl

/-- Only the end of the call itself, of a logout or of a refresh, ends a session. -/
theorem Closed.closes {t : SessionTask} {family : ℕ} (h : t.Closed family) : Closes family t.phase := by
  rcases h with ⟨token, v, -, -, hphase⟩ | hphase
  · exact .inl hphase
  · exact .inr hphase

end SessionTask

/-- A family that a call has ended is without an active row, and no call saves in it. -/
theorem ending_rules (ttl : ℕ) :
    Crew.Paired (authService ttl) (fun s t w => SessionTask.EndsIt s t w) (fun s t w u => SessionTask.EndsBeside s t w u)
      SessionsOK (fun s t => SessionTask.Knows s t ∧ ∀ family, SessionTask.Closed t family → Idle family s)
      (fun t u => SessionTask.Apart t u ∧
        ∀ family, SessionTask.Closed t family → ∀ r, u.saving = some r → r.family ≠ family) where
  entered s op hs := by
    refine ⟨(session_rules ttl).entered s op hs, fun family hends => ?_⟩
    exact absurd hends.closes ((SessionTask.starts_enter s op).open_ family)
  entered_pair s op u hs hu := by
    obtain ⟨hnew, hold⟩ := (session_rules ttl).entered_pair s op u hs hu.1
    refine ⟨⟨hnew, fun family hends => ?_⟩, hold, fun family _ r hr => ?_⟩
    · exact absurd hends.closes ((SessionTask.starts_enter s op).open_ family)
    · have hnone : ((authService ttl).enter s op).saving = none := (SessionTask.starts_enter s op).saving
      rw [hnone] at hr
      cases hr
  resumed s t w hs ht hok := by
    obtain ⟨hknows, hends⟩ := ht
    have h := stepped_session ttl w hs hknows
    have hop := SessionTask.resume_op ttl s t w
    -- the row that a logout revokes, in the family that it ends
    have hrow : ∀ family jti, t.phase = .revoke jti → (t.resume ttl s w).1.Closed family →
        ∃ r ∈ s.refreshTokens, r.jti = jti ∧ r.family = family := by
      intro family jti hphase hf
      unfold SessionTask.Knows at hknows
      rw [hphase] at hknows
      obtain ⟨token, ⟨hhanded, hwhose⟩, hjti⟩ := hknows
      have hended : (t.resume ttl s w).1.phase = .ended .loggedOut := by simp [SessionTask.resume, hphase, SessionTask.goto]
      rcases hf with ⟨token', v, hop', hfamily, -⟩ | hreuse
      · rw [hop] at hop'
        rcases hwhose with ⟨v', hrefresh⟩ | ⟨v', hlogout⟩
        · rw [hrefresh] at hop'
          cases hop'
        · rw [hlogout] at hop'
          cases hop'
          obtain ⟨r, hr, hrj, hrf, -⟩ := hs.handed token hhanded
          exact ⟨r, hr, hrj.trans hjti, hrf.trans hfamily⟩
      · rw [hended] at hreuse
        cases hreuse
    refine ⟨h.store, ⟨h.own, fun family hf => ?_⟩, fun u hu htu hut hbeside => ?_⟩
    · rcases SessionTask.closes_cases hf.closes with hsame | hphase | ⟨jti, hphase⟩
      · show Idle family (t.resume ttl s w).2
        have hf' : (t.resume ttl s w).1.Closed family := hf
        rw [hsame] at hf' ⊢
        exact hends family hf'
      · have hstore : (t.resume ttl s w).2 = { s with refreshTokens := revokeFamily s.refreshTokens family } := by
          simp [SessionTask.resume, hphase]
        unfold SessionTask.Knows at hknows
        rw [hphase] at hknows
        obtain ⟨token, ⟨hhanded, -⟩, hfamily⟩ := hknows
        obtain ⟨r, hr, -, hrf, -⟩ := hs.handed token hhanded
        show Idle family (t.resume ttl s w).2
        rw [hstore]
        refine ⟨hfamily ▸ hrf ▸ (hs.drawn r hr).2, fun x' hx' hxf => ?_⟩
        obtain ⟨x, -, hsame, hmark⟩ := of_mem_revokeWhere _ hx'
        exact hmark (decide_eq_true (hsame.family.symm.trans hxf))
      · have hstore : (t.resume ttl s w).2 = { s with refreshTokens := revoke s.refreshTokens jti } := by
          simp [SessionTask.resume, hphase]
        obtain ⟨r, hr, hrj, hrf⟩ := hrow family jti hphase hf
        have hothers : t.EndsIt s w := hok
        unfold SessionTask.EndsIt at hothers
        rw [hphase] at hothers
        show Idle family (t.resume ttl s w).2
        rw [hstore]
        refine ⟨hrf ▸ (hs.drawn r hr).2, fun x' hx' hxf => ?_⟩
        obtain ⟨x, hx, hsame, hmark⟩ := of_mem_revokeWhere _ hx'
        by_cases hactive : x.revoked = true
        · exact hsame.revoked hactive
        · -- the only active row is the one that is revoked
          have hfamily : x.family = r.family := (hsame.family.symm.trans hxf).trans hrf.symm
          exact hmark (decide_eq_true (hothers r hr hrj x hx hfamily (by simpa using hactive)))
    · obtain ⟨hu', htu', hut'⟩ := h.others u hu.1 htu.1 hut.1 trivial
      have hidle : ∀ family, u.Closed family →
          Idle family (t.resume ttl s w).2 ∧ ∀ r, (t.resume ttl s w).1.saving = some r → r.family ≠ family :=
        fun family hf => h.idle family (hu.2 family hf) (hut.2 family hf)
      refine ⟨⟨hu', fun family hf => (hidle family hf).1⟩, ⟨htu', fun family hf r hr => ?_⟩, hut',
        fun family hf => (hidle family hf).2⟩
      rcases SessionTask.closes_cases hf.closes with hsame | hphase | ⟨jti, hphase⟩
      · have hf' : (t.resume ttl s w).1.Closed family := hf
        rw [hsame] at hf'
        exact htu.2 family hf' r hr
      · have hb : u.saving.all (·.family ≠ family) = true := by simpa only [SessionTask.EndsBeside, hphase] using hbeside
        simpa [hr] using hb
      · obtain ⟨x, hx, hxj, hxf⟩ := hrow family jti hphase hf
        simp only [SessionTask.EndsBeside, hphase] at hbeside
        have hb := hbeside x hx hxj
        simpa [hr, hxf] using hb
  drifted s d hs := (session_rules ttl).drifted s d hs
  drifted_task s d u hs hu := by
    refine ⟨(session_rules ttl).drifted_task s d u hs hu.1, fun family hf => ?_⟩
    have hidle := hu.2 family hf
    cases d with
    | clock ms => exact ⟨hidle.drawn, hidle.revoked⟩
    | setAllowed userId allowed => exact ⟨hidle.drawn, hidle.revoked⟩

/-! ## Refreshes that come later -/

/-- The family has no active row, and no call saves in it. -/
structure Over (family : ℕ) (s : Crew.State SessionStore SessionTask) : Prop where
  idle : Idle family s.store
  still : ∀ t ∈ s.tasks, ∀ r, t.saving = some r → r.family ≠ family

namespace SessionTask

/-- A refresh that has won nothing and was handed nothing. -/
def Chasing (t : SessionTask) : Prop :=
  match t.phase with
  | .findById _ | .find _ _ | .findSuccessor _ _ _ _ | .sleep _ _ _ | .revokeFamily _ | .ended (.refused _) => True
  | _ => False

theorem chasing_enter (s : SessionStore) (token : RefreshClaims) (v : Bool) : (enter s (.refresh token v)).Chasing := by
  simp only [enter]
  split
  · trivial
  · trivial

/-- On a family that is over a refresh stays where nothing is to be had. -/
theorem Chasing.resume {ttl : ℕ} {s : SessionStore} {t : SessionTask} {w : Bool} {token : RefreshClaims} {v : Bool}
    (h : t.Chasing) (hs : SessionsOK s) (ht : t.Knows s) (hop : t.op = .refresh token v)
    (hidle : Idle token.family s) : (t.resume ttl s w).1.Chasing := by
  -- the call presents its own token only
  have hpresents : ∀ token', Presents s t token' → token' = token := by
    rintro token' ⟨-, ⟨v', h'⟩ | ⟨v', h'⟩⟩
    · rw [hop] at h'
      cases h'
      rfl
    · rw [hop] at h'
      cases h'
  unfold Knows at ht
  unfold SessionTask.resume
  cases hphase : t.phase with
  | findById token' =>
    simp only
    cases s.users.find? (·.id = token'.sub) with
    | none => trivial
    | some user =>
      simp only [checkUser]
      split
      · trivial
      · trivial
  | find user token' =>
    rw [hphase] at ht
    obtain rfl := hpresents token' ht.1
    obtain ⟨r, hr, hrj, hrf, -⟩ := hs.handed token' ht.1.1
    simp only
    cases hfind : find s.refreshTokens token'.jti with
    | none => trivial
    | some record =>
      obtain ⟨hmem, hjti⟩ := find_spec hfind
      obtain rfl : record = r := eq_of_jti hs.unique hmem hr (hjti.trans hrj.symm)
      -- the family has ended, so the row is revoked and the call looks for a successor
      have hrevoked := hidle.revoked record hmem hrf
      simp only [checkRecord, hrevoked, if_true]
      split
      · trivial
      · trivial
  | findSuccessor user record wait left =>
    rw [hphase] at ht
    obtain ⟨token', hp, -, -, hfamily⟩ := ht
    obtain rfl := hpresents token' hp
    simp only
    cases hnext : RefreshTokens.findSuccessor s.refreshTokens record with
    | none =>
      cases wait with
      | true => trivial
      | false => trivial
    | some next =>
      obtain ⟨hmem, hnf⟩ := successorFrom_mem hnext
      -- and so is its successor: the family is revoked again
      have hrevoked := hidle.revoked next hmem (hnf.trans hfamily.symm)
      simp only [resumeUnusedSuccessor, hrevoked, true_or, if_true]
      trivial
  | sleep user record left =>
    simp only [goto]
    split
    · trivial
    · trivial
  | revokeFamily family => trivial
  | ended result => exact h
  | _ => simp [Chasing, hphase] at h

end SessionTask

section Late

variable {ttl : ℕ} {family n : ℕ} {s : Crew.State SessionStore SessionTask}

/-- The tasks from `n` on are refreshes of the family that are chasing, as far as they refresh it. -/
structure Late (family n : ℕ) (s : Crew.State SessionStore SessionTask) : Prop where
  holds : Crew.Holds SessionsOK (fun s t => SessionTask.Knows s t) SessionTask.Apart s
  quiet : Over family s
  late : n ≤ s.tasks.length
  chasing : ∀ (j : ℕ) (t : SessionTask), n ≤ j → s.tasks[j]? = some t →
    ∀ token v, t.op = .refresh token v → token.family = family → t.Chasing

/-- Whoever comes late chases a family that has ended. -/
theorem Late.step (h : Late family n s) (e : Crew.Event SessionOp Bool AuthEvent) :
    Late family n ((authService ttl).step s e) := by
  have hmeets : Crew.MeetsBeside (fun _ _ _ => True) (fun _ _ _ _ => True) s e := by
    cases e with
    | enter op => trivial
    | resume k w => exact fun t _ => ⟨trivial, fun u _ => trivial⟩
    | drift d => trivial
  -- the invariant of the calls is at hand in the new state
  have hholds := (session_rules ttl).step h.holds hmeets
  cases e with
  | enter op =>
    refine ⟨hholds, ⟨h.quiet.idle, fun t ht r hr => ?_⟩, ?_, fun j t hj ht token v hop hf => ?_⟩
    · rcases List.mem_append.mp ht with ht | ht
      · exact h.quiet.still t ht r hr
      · rw [List.mem_singleton.mp ht] at hr
        have hnone : ((authService ttl).enter s.store op).saving = none := (SessionTask.starts_enter s.store op).saving
        rw [hnone] at hr
        cases hr
    · have hlate := h.late
      simp only [Crew.step, List.length_append]
      omega
    · rcases Nat.lt_or_ge j s.tasks.length with hlt | hge
      · simp only [Crew.step] at ht
        rw [List.getElem?_append_left hlt] at ht
        exact h.chasing j t hj ht token v hop hf
      · simp only [Crew.step] at ht
        rw [List.getElem?_append_right hge, List.getElem?_singleton] at ht
        split at ht
        · obtain rfl := Option.some.inj ht
          obtain rfl : op = .refresh token v := (SessionTask.starts_enter s.store op).op.symm.trans hop
          exact SessionTask.chasing_enter s.store token v
        · cases ht
  | resume k w =>
    rcases (authService ttl).resume_cases s k w with hsame | ⟨t, hk, hstep⟩
    · rw [hsame]
      exact h
    · have hmem := List.mem_of_getElem? hk
      have hknows := h.holds.task t hmem
      have hstepped := stepped_session ttl w h.holds.store hknows
      -- nobody is about to save in the family
      obtain ⟨hidle, hsaving⟩ := hstepped.idle family h.quiet.idle (h.quiet.still t hmem)
      have hlt : k < s.tasks.length := (List.getElem?_eq_some_iff.mp hk).1
      rw [hstep] at hholds ⊢
      refine ⟨hholds, ⟨hidle, fun u hu r hr => ?_⟩, ?_, fun j u hj hu token v hop hf => ?_⟩
      · rcases Crew.mem_set hu with rfl | hu
        · exact hsaving r hr
        · exact h.quiet.still u hu r hr
      · have hlate := h.late
        simpa using hlate
      · by_cases hjk : j = k
        · subst hjk
          rw [List.getElem?_set_self hlt] at hu
          obtain rfl := Option.some.inj hu
          have hop' : t.op = .refresh token v := (SessionTask.resume_op ttl s.store t w).symm.trans hop
          have hbefore := h.chasing j t hj hk token v hop' hf
          exact hbefore.resume h.holds.store hknows hop' (hf ▸ h.quiet.idle)
        · rw [List.getElem?_set_ne (Ne.symm hjk)] at hu
          exact h.chasing j u hj hu token v hop hf
  | drift d =>
    refine ⟨hholds, ⟨?_, h.quiet.still⟩, h.late, h.chasing⟩
    have hidle := h.quiet.idle
    cases d with
    | clock ms => exact ⟨hidle.drawn, hidle.revoked⟩
    | setAllowed userId allowed => exact ⟨hidle.drawn, hidle.revoked⟩

theorem Late.run (ttl : ℕ) (h : Late family n s) (es : List (Crew.Event SessionOp Bool AuthEvent)) :
    Late family n (Murlan.run (authService ttl).step s es) :=
  run_inv (P := Late family n) (fun _ e h => h.step e) h es

end Late

/-! ### Logouts of tokens that verify -/

/-- A logout that presents a token presents one that was issued and still verifies. -/
def LogoutVerifies (s : Crew.State SessionStore SessionTask) : Crew.Event SessionOp Bool AuthEvent → Prop
  | .enter (.logout (some token) verifies) => verifies = true ∧ token ∈ s.store.handed
  | _ => True

instance (s : Crew.State SessionStore SessionTask) (e : Crew.Event SessionOp Bool AuthEvent) :
    Decidable (LogoutVerifies s e) := by
  unfold LogoutVerifies
  split
  · infer_instance
  · infer_instance

/-- What a step must meet for ended sessions to stay ended. -/
def EndsWell (s : Crew.State SessionStore SessionTask) (e : Crew.Event SessionOp Bool AuthEvent) : Prop :=
  LogoutVerifies s e ∧
    Crew.MeetsBeside (fun s t w => SessionTask.EndsIt s t w) (fun s t w u => SessionTask.EndsBeside s t w u) s e

instance (s : Crew.State SessionStore SessionTask) (e : Crew.Event SessionOp Bool AuthEvent) :
    Decidable (EndsWell s e) := inferInstanceAs (Decidable (_ ∧ _))

/-- A logout of a token is about to revoke its row, or has done so. -/
def SessionTask.LogsOut (t : SessionTask) : Prop :=
  ∀ token v, t.op = .logout (some token) v → t.phase = .revoke token.jti ∨ t.phase = .ended .loggedOut

/-- A logout that was verified closes its family. -/
theorem SessionTask.LogsOut.closed {t : SessionTask} {family : ℕ} (h : t.LogsOut) (hends : t.Ends family) :
    t.Closed family := by
  rcases hends with ⟨token, v, result, hop, hfamily, hphase⟩ | hreuse
  · rcases h token v hop with hrevoke | hout
    · rw [hphase] at hrevoke
      cases hrevoke
    · exact .inl ⟨token, v, hop, hfamily, hout⟩
  · exact .inr hreuse

/-- While tokens verify, every logout is a real one. -/
theorem logsOut_step (ttl : ℕ) {s : Crew.State SessionStore SessionTask} (h : ∀ t ∈ s.tasks, t.LogsOut)
    (e : Crew.Event SessionOp Bool AuthEvent) (he : LogoutVerifies s e) :
    ∀ t ∈ ((authService ttl).step s e).tasks, t.LogsOut := by
  cases e with
  | enter op =>
    intro t ht
    rcases List.mem_append.mp ht with ht | ht
    · exact h t ht
    · rw [List.mem_singleton.mp ht]
      intro token v hop
      obtain rfl : op = .logout (some token) v := (SessionTask.starts_enter s.store op).op.symm.trans hop
      left
      show (SessionTask.enter s.store (.logout (some token) v)).phase = _
      have hvalid : v = true ∧ token ∈ s.store.handed := he
      rw [SessionTask.enter, if_pos hvalid]
  | resume k w =>
    rcases (authService ttl).resume_cases s k w with hsame | ⟨t, hk, hstep⟩
    · rw [hsame]
      exact h
    · rw [hstep]
      intro u hu
      rcases Crew.mem_set hu with rfl | hu
      · intro token v hop
        have hop' : t.op = .logout (some token) v := (SessionTask.resume_op ttl s.store t w).symm.trans hop
        right
        show (t.resume ttl s.store w).1.phase = _
        rcases h t (List.mem_of_getElem? hk) token v hop' with hrevoke | hout
        · simp [SessionTask.resume, hrevoke, SessionTask.goto]
        · simp [SessionTask.resume, hout]
      · exact h u hu
  | drift d => exact h

/-- **Ended sessions stay ended**, if each logout presents a token that still verifies and finds no other
active row in its family, and neither a logout nor a detected reuse finds a rotation of the family between its
revocation and its row. -/
theorem ended_sessions_stay_ended (ttl : ℕ) (users : List SessionUser) (nextId now : ℕ)
    {es : List (Crew.Event SessionOp Bool AuthEvent)}
    (hg : Guarded (authService ttl).step EndsWell (freshSessions users nextId now) es)
    {family : ℕ} (hended : ∃ t ∈ (run (authService ttl).step (freshSessions users nextId now) es).tasks, t.Ends family)
    (fs : List (Crew.Event SessionOp Bool AuthEvent)) {j : ℕ} {t : SessionTask} {token : RefreshClaims} {v : Bool}
    (hlate : (run (authService ttl).step (freshSessions users nextId now) es).tasks.length ≤ j)
    (ht : (run (authService ttl).step (freshSessions users nextId now) (es ++ fs)).tasks[j]? = some t)
    (hop : t.op = .refresh token v) (hfamily : token.family = family) (c : RefreshClaims) (parent : Option ℕ) :
    t.phase ≠ .ended (.issued c parent) := by
  have hholds := session_holds ttl users nextId now es
  have hfresh := holds_fresh users nextId now
  have hends := (ending_rules ttl).guarded (s := freshSessions users nextId now)
    ⟨hfresh.store, fun t ht => (by cases ht), fun i j t u _ ht => (by cases ht)⟩ es (Guarded.mono (fun _ _ h => h.2) hg)
  have hout := guarded_inv (P := fun s : Crew.State SessionStore SessionTask => ∀ t ∈ s.tasks, t.LogsOut)
    (fun _ e h he => logsOut_step ttl h e he.1) (fun t ht => (by cases ht)) es hg
  obtain ⟨u, hu, huends'⟩ := hended
  have huends := (hout u hu).closed huends'
  have hidle := (hends.task u hu).2 family huends
  have hover : Over family (run (authService ttl).step (freshSessions users nextId now) es) := by
    refine ⟨hidle, fun x hx r hr => ?_⟩
    obtain ⟨i, hi⟩ := List.mem_iff_getElem?.mp hu
    obtain ⟨k, hk⟩ := List.mem_iff_getElem?.mp hx
    by_cases hik : i = k
    · -- the call that ended the session saves nothing itself
      subst hik
      obtain rfl := Option.some.inj (hi.symm.trans hk)
      rcases huends.closes with hphase | hphase
      · simp [SessionTask.saving, hphase] at hr
      · simp [SessionTask.saving, hphase] at hr
    · exact (hends.pair i k u x hik hi hk).2 family huends r hr
  have hstart : Late family (run (authService ttl).step (freshSessions users nextId now) es).tasks.length
      (run (authService ttl).step (freshSessions users nextId now) es) := by
    refine ⟨hholds, hover, Nat.le_refl _, fun i x hi hx => ?_⟩
    have hlt := (List.getElem?_eq_some_iff.mp hx).1
    omega
  have hrun := hstart.run ttl fs
  rw [← run_append] at hrun
  have hchasing := hrun.chasing j t hlate ht token v hop hfamily
  intro hphase
  simp [SessionTask.Chasing, hphase] at hchasing

/-- A player registers; his first token. -/
def registers : List (Crew.Event SessionOp Bool AuthEvent) :=
  [.enter (.register "ana@murlan.al" "ana"), .resume 0 true, .resume 0 true, .resume 0 true, .resume 0 true,
    .resume 0 true]

/-- A token of the first login. -/
def firstToken : RefreshClaims := { sub := 0, jti := 1, family := 2, ver := 0 }

/-- He logs out, and a refresh of his token that comes later is refused. -/
theorem ended_sessions_stay_ended_once :
    (SessionTask.mk (.refresh firstToken true) (.ended (.refused (some 2)))).phase ≠ .ended (.issued firstToken none) := by
  have hg : Guarded (authService 1000).step EndsWell (freshSessions [] 0 0)
      (registers ++ [.enter (.logout (some firstToken) true), .resume 1 true]) := by
    decide +kernel
  have hended : (SessionTask.mk (.logout (some firstToken) true) (.ended .loggedOut)).Ends 2 :=
    .inl ⟨firstToken, true, _, rfl, rfl, rfl⟩
  exact ended_sessions_stay_ended 1000 [] 0 0 hg ⟨_, by decide +kernel, hended⟩
    [.enter (.refresh firstToken true), .resume 2 true, .resume 2 true, .resume 2 true, .resume 2 true] (j := 2)
    (by decide +kernel) (by decide +kernel) rfl rfl _ _

/-- The first token is refreshed, the response lost, and the first token logged out. -/
def logsOut : List (Crew.Event SessionOp Bool AuthEvent) :=
  registers ++ [.enter (.refresh firstToken true), .resume 1 true, .resume 1 true, .resume 1 true, .resume 1 true,
    .enter (.logout (some firstToken) true), .resume 2 true]

/-- **The session goes on** after the logout: a later refresh with the same token is handed its successor. -/
theorem logged_out_session_resumed :
    (∃ t ∈ (run (authService 1000).step (freshSessions [] 0 0) logsOut).tasks, t.Ends 2) ∧
      (run (authService 1000).step (freshSessions [] 0 0) logsOut).tasks.length ≤ 3 ∧
      (run (authService 1000).step (freshSessions [] 0 0)
          (logsOut ++ [.enter (.refresh firstToken true), .resume 3 true, .resume 3 true, .resume 3 true])).tasks[3]? =
        some ⟨.refresh firstToken true, .ended (.issued { firstToken with jti := 3 } none)⟩ := by
  refine ⟨⟨⟨.logout (some firstToken) true, .ended .loggedOut⟩, by decide +kernel, ?_⟩, by decide +kernel, by decide +kernel⟩
  exact .inl ⟨firstToken, true, _, rfl, rfl, rfl⟩

/-- The first token is refreshed, and logged out once it has expired. -/
def logsOutLate : List (Crew.Event SessionOp Bool AuthEvent) :=
  registers ++ [.enter (.refresh firstToken true), .resume 1 true, .resume 1 true, .resume 1 true, .resume 1 true,
    .enter (.logout (some firstToken) false)]

/-- **A logout that revokes nothing**: the token it was rotated into is refreshed afterwards. -/
theorem expired_logout_ignored :
    (∃ t ∈ (run (authService 1000).step (freshSessions [] 0 0) logsOutLate).tasks, t.Ends 2) ∧
      (run (authService 1000).step (freshSessions [] 0 0) logsOutLate).tasks.length ≤ 3 ∧
      (run (authService 1000).step (freshSessions [] 0 0)
          (logsOutLate ++ [.enter (.refresh { firstToken with jti := 3 } true), .resume 3 true, .resume 3 true,
            .resume 3 true, .resume 3 true])).tasks[3]? =
        some ⟨.refresh { firstToken with jti := 3 } true, .ended (.issued { firstToken with jti := 5 } (some 3))⟩ := by
  refine ⟨⟨⟨.logout (some firstToken) false, .ended .ignored⟩, by decide +kernel, ?_⟩, by decide +kernel, by decide +kernel⟩
  exact .inl ⟨firstToken, false, _, rfl, rfl, rfl⟩

end Murlan
