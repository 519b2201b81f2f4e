import Murlan.Spec.VerificationTokens

/-!
# Tokens that are used once

* `Grows`: rows only get used, and at most one is created.
* `TokensOK`, `Knows`, `Apart`: what the rows satisfy, what a call knows of its token, and what
  holds of two calls: no two claim one token.
* `token_rules`: the steps that meet `Undisturbed` keep them.
* `completes_noMore`: a request or a reset that completes ends the older reset tokens of its user,
  also one over its cap of emails if it meets `Capped`.
* `tokens_take_effect_once`: over the runs of such steps, each token is used once, and none once
  a later request or a reset of its user has completed.
* `reset_used_twice`, `capped_request_leaves_token`: without them, it is.
-/

namespace Murlan

open VerificationTokens

/-- The token is used, or has expired. -/
def VerificationTokenRecord.Over (r : VerificationTokenRecord) (now : ℕ) : Prop := r.usedAt ≠ none ∨ r.expiresAt < now

instance (r : VerificationTokenRecord) (now : ℕ) : Decidable (r.Over now) := inferInstanceAs (Decidable (_ ∨ _))

namespace VerificationTask

/-- The token a call has found valid. -/
def claims (t : VerificationTask) : Option ℕ :=
  match t.phase with
  | .setEmailVerified r | .consumeVerify r | .hashPassword r _ | .setPassword r _ | .consumeReset r
  | .invalidateReset r | .bumpTokenVersion r | .revokeAllForUser r => some r.id
  | .ended used => used
  | _ => none

/-- The token a call has found valid and has not consumed. -/
def holding (t : VerificationTask) : Option ℕ :=
  match t.phase with
  | .setEmailVerified r | .consumeVerify r | .hashPassword r _ | .setPassword r _ | .consumeReset r => some r.id
  | _ => none

/-- The row of the token a call has found valid, before it has taken effect. -/
def yet (t : VerificationTask) : Option VerificationTokenRecord :=
  match t.phase with
  | .setEmailVerified r | .hashPassword r _ | .setPassword r _ => some r
  | _ => none

/-- The token by which a call has set the password, or the verified flag. -/
def took (t : VerificationTask) : Option ℕ :=
  match t.phase with
  | .consumeVerify r | .consumeReset r | .invalidateReset r | .bumpTokenVersion r | .revokeAllForUser r => some r.id
  | .ended used => used
  | _ => none

/-- The user whose reset tokens a call has invalidated, until it completes. -/
def between (t : VerificationTask) : Option ℕ :=
  match t.phase with
  | .createReset userId _ => some userId
  | .bumpTokenVersion r | .revokeAllForUser r => some r.userId
  | _ => none

theorem starts_enter (op : VerificationOp) : (enter op).claims = none ∧ (enter op).between = none := by
  cases op with
  | resetPassword raw newPassword =>
    by_cases hvalid : validPassword newPassword = true
    · simp [enter, claims, between, hvalid]
    · simp [enter, claims, between, hvalid]
  | _ => exact ⟨rfl, rfl⟩

theorem claims_of_holding {t : VerificationTask} {id : ℕ} (h : t.holding = some id) : t.claims = some id := by
  unfold holding at h
  unfold claims
  split at h
  · rename_i hphase
    rw [hphase]
    exact h
  · rename_i hphase
    rw [hphase]
    exact h
  · rename_i hphase
    rw [hphase]
    exact h
  · rename_i hphase
    rw [hphase]
    exact h
  · rename_i hphase
    rw [hphase]
    exact h
  · cases h

theorem claims_of_yet {t : VerificationTask} {r : VerificationTokenRecord} (h : t.yet = some r) :
    t.claims = some r.id := by
  unfold yet at h
  unfold claims
  split at h
  · rename_i hphase
    rw [hphase, Option.some.inj h]
  · rename_i hphase
    rw [hphase, Option.some.inj h]
  · rename_i hphase
    rw [hphase, Option.some.inj h]
  · cases h

theorem claims_of_took {t : VerificationTask} {id : ℕ} (h : t.took = some id) : t.claims = some id := by
  unfold took at h
  unfold claims
  cases hphase : t.phase with
  | consumeVerify r => simpa [hphase] using h
  | consumeReset r => simpa [hphase] using h
  | invalidateReset r => simpa [hphase] using h
  | bumpTokenVersion r => simpa [hphase] using h
  | revokeAllForUser r => simpa [hphase] using h
  | ended used => simpa [hphase] using h
  | _ => simp [hphase] at h

/-- The user whose request for a reset, or reset, a step completes; a request over its cap of emails
completes as soon as its user was read. -/
def completes (s : VerificationStore) (t : VerificationTask) (w : Bool) : Option ℕ :=
  match t.phase with
  | .createReset userId _ => some userId
  | .revokeAllForUser r => some r.userId
  | .findByEmail email => if w then none else (s.users.find? (·.email = email)).map (·.id)
  | _ => none

theorem completes_cases {s : VerificationStore} {t : VerificationTask} {w : Bool} {userId : ℕ}
    (h : t.completes s w = some userId) :
    t.between = some userId ∧ t.yet = none ∨ ∃ email, t.phase = .findByEmail email := by
  unfold completes at h
  unfold between yet
  split at h
  · rename_i hphase
    rw [hphase]
    exact .inl ⟨h, rfl⟩
  · rename_i hphase
    rw [hphase]
    exact .inl ⟨h, rfl⟩
  · rename_i email hphase
    exact .inr ⟨email, hphase⟩
  · cases h

/-- A request over its cap of emails finds no reset token of its user that may still be used. -/
def Capped (s : VerificationStore) (t : VerificationTask) (w : Bool) : Prop :=
  match t.phase with
  | .findByEmail _ => ∀ r ∈ s.tokens, r.type = .passwordReset → some r.userId = t.completes s w → r.Over s.now
  | _ => True

/-- What the step of a call asks of another: it holds no token that the step finds valid, invalidates or
leaves alone for the cap, and does not create one between an invalidation and the completion of its call. -/
def Undisturbed (s : VerificationStore) (t : VerificationTask) (w : Bool) (u : VerificationTask) : Prop :=
  match t.phase with
  | .findVerify raw =>
    (findValidByHash s.tokens raw .emailVerify s.now).all (fun r => u.holding ≠ some r.id) = true
  | .findReset raw _ =>
    (findValidByHash s.tokens raw .passwordReset s.now).all (fun r => u.holding ≠ some r.id) = true
  | .invalidateOlder userId => u.yet.all (fun r => r.type = .passwordReset → r.userId ≠ userId) = true
  | .invalidateReset record => u.yet.all (fun r => r.type = .passwordReset → r.userId ≠ record.userId) = true
  | .createReset userId _ => u.between ≠ some userId
  | .findByEmail _ => u.yet.all (fun r => r.type = .passwordReset → some r.userId ≠ t.completes s w) = true
  | _ => True

instance (s : VerificationStore) (t : VerificationTask) (w : Bool) : Decidable (t.Capped s w) := by
  unfold Capped
  split
  · infer_instance
  · infer_instance

instance (s : VerificationStore) (t : VerificationTask) (w : Bool) (u : VerificationTask) :
    Decidable (t.Undisturbed s w u) := by
  unfold Undisturbed
  split
  · infer_instance
  · infer_instance
  · infer_instance
  · infer_instance
  · infer_instance
  · infer_instance
  · infer_instance

end VerificationTask

/-! ## What is known along the way -/

/-- Token ids are drawn in order, and an id names one user and one type. -/
structure TokensOK (s : VerificationStore) : Prop where
  drawn : ∀ r ∈ s.tokens, r.id ≤ s.seq
  agree : ∀ r ∈ s.tokens, ∀ r' ∈ s.tokens, r.id = r'.id → r.userId = r'.userId ∧ r.type = r'.type

/-- No row of the token is unused. -/
def Spent (s : VerificationStore) (id : ℕ) : Prop := id ≤ s.seq ∧ ∀ r ∈ s.tokens, r.id = id → r.usedAt ≠ none

/-- No row of the token may still be used. -/
def Gone (s : VerificationStore) (id : ℕ) : Prop := id ≤ s.seq ∧ ∀ r ∈ s.tokens, r.id = id → r.Over s.now

namespace VerificationTask

/-- What a call knows: a token it has consumed is spent, one it holds is known by its row, and between
an invalidation and the completion all reset tokens of the user are spent. -/
structure Knows (s : VerificationStore) (t : VerificationTask) : Prop where
  drawn : ∀ id, t.claims = some id → id ≤ s.seq
  spent : ∀ id, t.claims = some id → t.holding = none → Spent s id
  yet : ∀ r, t.yet = some r → ∀ x ∈ s.tokens, x.id = r.id → x.userId = r.userId ∧ x.type = r.type
  between : ∀ userId, t.between = some userId →
    ∀ r ∈ s.tokens, r.type = .passwordReset → r.userId = userId → r.usedAt ≠ none

/-- No two calls use the same token, or one of a user whose tokens are being dropped. -/
structure Apart (t u : VerificationTask) : Prop where
  claims : ∀ id, t.claims = some id → u.claims ≠ some id
  between : ∀ userId, t.between = some userId → ∀ r, u.yet = some r → r.type = .passwordReset → r.userId ≠ userId

end VerificationTask

/-- Rows of `s'` are rows of `s`, used if those were, or the one that was created, `new` its user and type. -/
structure Grows (new : Option (ℕ × VerificationTokenType)) (s s' : VerificationStore) : Prop where
  rows : ∀ x ∈ s'.tokens,
    (∃ y ∈ s.tokens, x.id = y.id ∧ x.userId = y.userId ∧ x.type = y.type ∧ x.expiresAt = y.expiresAt ∧
        (y.usedAt ≠ none → x.usedAt ≠ none)) ∨
      (x.id = s.seq + 1 ∧ s'.seq = s.seq + 1 ∧ new = some (x.userId, x.type))
  seq : s.seq ≤ s'.seq

namespace Grows

variable {new : Option (ℕ × VerificationTokenType)} {s s' : VerificationStore} {t : VerificationTask}

theorem same (htokens : s'.tokens = s.tokens) (hseq : s'.seq = s.seq) : Grows none s s' where
  rows x hx := .inl ⟨x, htokens ▸ hx, rfl, rfl, rfl, rfl, id⟩
  seq := hseq.ge

/-- Some rows are marked as used. -/
theorem marked {p : VerificationTokenRecord → Prop} [DecidablePred p] {now : ℕ}
    (htokens : s'.tokens = s.tokens.map fun r => if p r then { r with usedAt := some now } else r)
    (hseq : s'.seq = s.seq) : Grows none s s' where
  rows x hx := by
    rw [htokens] at hx
    obtain ⟨y, hy, rfl⟩ := List.mem_map.mp hx
    refine .inl ⟨y, hy, ?_⟩
    split
    · exact ⟨rfl, rfl, rfl, rfl, fun _ => by simp⟩
    · exact ⟨rfl, rfl, rfl, rfl, id⟩
  seq := hseq.ge

theorem created (s : VerificationStore) (userId : ℕ) (type : VerificationTokenType) (raw ttl : ℕ) :
    Grows (some (userId, type)) s (s.createToken userId type raw ttl) where
  rows x hx := by
    simp only [VerificationStore.createToken, create] at hx
    split at hx
    · obtain ⟨y, hy, rfl⟩ := List.mem_map.mp hx
      split
      · exact .inr ⟨rfl, rfl, rfl⟩
      · exact .inl ⟨y, hy, rfl, rfl, rfl, rfl, id⟩
    · rcases List.mem_append.mp hx with hx | hx
      · exact .inl ⟨x, hx, rfl, rfl, rfl, rfl, id⟩
      · rw [List.mem_singleton.mp hx]
        exact .inr ⟨rfl, rfl, rfl⟩
  seq := Nat.le_succ _

theorem ok (h : Grows new s s') (hs : TokensOK s) : TokensOK s' where
  drawn x hx := by
    have hseq := h.seq
    rcases h.rows x hx with ⟨y, hy, hid, -⟩ | ⟨hid, hnext, -⟩
    · have hdrawn := hs.drawn y hy
      omega
    · omega
  agree x hx x' hx' hid := by
    rcases h.rows x hx with ⟨y, hy, hyid, hyuser, hytype, -⟩ | ⟨hnew, -, hkind⟩
    · have hdrawn := hs.drawn y hy
      rcases h.rows x' hx' with ⟨y', hy', hyid', hyuser', hytype', -⟩ | ⟨hnew', -, -⟩
      · have hagree := hs.agree y hy y' hy' (hyid.symm.trans (hid.trans hyid'))
        rw [hyuser, hytype, hyuser', hytype']
        exact hagree
      · omega
    · rcases h.rows x' hx' with ⟨y', hy', hyid', -⟩ | ⟨-, -, hkind'⟩
      · have hdrawn := hs.drawn y' hy'
        omega
      · have hpair := Option.some.inj (hkind.symm.trans hkind')
        exact Prod.mk.inj hpair

theorem spent (h : Grows new s s') {id : ℕ} (hid : Spent s id) : Spent s' id := by
  refine ⟨hid.1.trans h.seq, fun x hx hxid => ?_⟩
  rcases h.rows x hx with ⟨y, hy, hyid, -, -, -, hused⟩ | ⟨hnew, -, -⟩
  · exact hused (hid.2 y hy (hyid.symm.trans hxid))
  · have hle := hid.1
    omega

theorem gone (h : Grows new s s') (hnow : s.now ≤ s'.now) {id : ℕ} (hid : Gone s id) : Gone s' id := by
  refine ⟨hid.1.trans h.seq, fun x hx hxid => ?_⟩
  rcases h.rows x hx with ⟨y, hy, hyid, -, -, hexpires, hused⟩ | ⟨hnew, -, -⟩
  · rcases hid.2 y hy (hyid.symm.trans hxid) with hy | hy
    · exact .inl (hused hy)
    · right
      omega
  · have hle := hid.1
    omega

/-- What a call knows outlives a step that creates no reset token of a user it is between. -/
theorem knows (h : Grows new s s') (ht : t.Knows s)
    (hnew : ∀ userId, new = some (userId, .passwordReset) → t.between ≠ some userId) : t.Knows s' where
  drawn id hid := (ht.drawn id hid).trans h.seq
  spent id hid hholding := h.spent (ht.spent id hid hholding)
  yet r hr x hx hxid := by
    have hle := ht.drawn r.id (VerificationTask.claims_of_yet hr)
    rcases h.rows x hx with ⟨y, hy, hyid, hyuser, hytype, -⟩ | ⟨hnew, -, -⟩
    · rw [hyuser, hytype]
      exact ht.yet r hr y hy (hyid.symm.trans hxid)
    · omega
  between userId hu x hx htype huser := by
    rcases h.rows x hx with ⟨y, hy, -, hyuser, hytype, -, hused⟩ | ⟨-, -, hkind⟩
    · exact hused (ht.between userId hu y hy (hytype.symm.trans htype) (hyuser.symm.trans huser))
    · rw [htype, huser] at hkind
      exact absurd hu (hnew userId hkind)

end Grows

/-! ## What a step leaves -/

section Steps

variable {s s' : VerificationStore} {t t' : VerificationTask} {w : Bool} {new : Option (ℕ × VerificationTokenType)}

/-- A call claims what it has claimed, or a valid token nobody holds; it is between an invalidation
and its completion as before, or nobody holds a token of that user. -/
theorem stepped_token {beside : VerificationTask → Prop} (hs : TokensOK s) (h : Grows new s s') (hown : t'.Knows s')
    (hnew : ∀ u : VerificationTask, beside u → ∀ userId, new = some (userId, .passwordReset) → u.between ≠ some userId)
    (hclaims : ∀ id, t'.claims = some id → t.claims = some id ∨
      (∃ r ∈ s.tokens, r.id = id ∧ r.usedAt = none) ∧ ∀ u : VerificationTask, beside u → u.holding ≠ some id)
    (hyet : ∀ r, t'.yet = some r → t.yet = some r ∨ r ∈ s.tokens ∧ r.usedAt = none)
    (hbetween : ∀ userId, t'.between = some userId → t.between = some userId ∨
      ∀ u : VerificationTask, beside u → ∀ r, u.yet = some r → r.type = .passwordReset → r.userId ≠ userId) :
    Crew.Stepped TokensOK (fun s t => VerificationTask.Knows s t) VerificationTask.Apart beside s t s' t' where
  store := h.ok hs
  own := hown
  others u hu htu hut hb := by
    have hfree : ∀ id, t'.claims = some id → u.claims ≠ some id := by
      intro id hid huid
      rcases hclaims id hid with hold | ⟨⟨r, hr, hrid, hunused⟩, hheld⟩
      · exact htu.claims id hold huid
      · have hnone : u.holding = none := by
          cases hh : u.holding with
          | none => rfl
          | some id' =>
            have heq := (VerificationTask.claims_of_holding hh).symm.trans huid
            exact absurd (hh.trans heq) (hheld u hb)
        exact (hu.spent id huid hnone).2 r hr hrid hunused
    refine ⟨h.knows hu (hnew u hb), ⟨hfree, fun userId huser r hr htype => ?_⟩, fun id huid hid => hfree id hid huid,
      fun userId huser r hr htype => ?_⟩
    · rcases hbetween userId huser with hold | hheld
      · exact htu.between userId hold r hr htype
      · exact hheld u hb r hr htype
    · rcases hyet r hr with hold | ⟨hmem, hunused⟩
      · exact hut.between userId huser r hold htype
      · intro heq
        exact hu.between userId huser r hmem htype heq hunused

/-- A call that claims nothing. -/
theorem stepped_idle {beside : VerificationTask → Prop} (hs : TokensOK s) (h : Grows new s s')
    (hnew : ∀ u : VerificationTask, beside u → ∀ userId, new = some (userId, .passwordReset) → u.between ≠ some userId)
    (hclaims : t'.claims = none) (hbetween : t'.between = none) :
    Crew.Stepped TokensOK (fun s t => VerificationTask.Knows s t) VerificationTask.Apart beside s t s' t' := by
  have hyet : ∀ r, t'.yet ≠ some r := by
    intro r hr
    rw [VerificationTask.claims_of_yet hr] at hclaims
    cases hclaims
  refine stepped_token hs h ⟨?_, ?_, ?_, ?_⟩ hnew ?_ ?_ ?_
  · intro id hid
    rw [hclaims] at hid
    cases hid
  · intro id hid
    rw [hclaims] at hid
    cases hid
  · intro r hr
    exact absurd hr (hyet r)
  · intro userId hu
    rw [hbetween] at hu
    cases hu
  · intro id hid
    rw [hclaims] at hid
    cases hid
  · intro r hr
    exact absurd hr (hyet r)
  · intro userId hu
    rw [hbetween] at hu
    cases hu

/-- The token found is of the type, unused and good. -/
theorem findValid_spec {rows : List VerificationTokenRecord} {tokenHash now : ℕ} {type : VerificationTokenType}
    {r : VerificationTokenRecord} (h : findValidByHash rows tokenHash type now = some r) :
    r ∈ rows ∧ r.type = type ∧ r.usedAt = none ∧ ¬r.Over now := by
  obtain ⟨hfind, hvalid⟩ := Option.filter_eq_some_iff.mp h
  have hall : r.type = type ∧ r.usedAt = none ∧ now ≤ r.expiresAt := by simpa using hvalid
  refine ⟨List.mem_of_find?_eq_some hfind, hall.1, hall.2.1, ?_⟩
  rintro (hused | hexpired)
  · exact hused hall.2.1
  · exact absurd hall.2.2 (Nat.not_le.mpr hexpired)

/-- The token that was presented, valid and held by nobody else. -/
theorem stepped_present {beside : VerificationTask → Prop} (hs : TokensOK s) {r : VerificationTokenRecord}
    (hr : r ∈ s.tokens) (hunused : r.usedAt = none) (hfree : ∀ u : VerificationTask, beside u → u.holding ≠ some r.id)
    (hclaims : t'.claims = some r.id) (hholding : t'.holding = some r.id) (hyet : t'.yet = some r)
    (hbetween : t'.between = none) :
    Crew.Stepped TokensOK (fun s t => VerificationTask.Knows s t) VerificationTask.Apart beside s t s t' := by
  refine stepped_token hs (.same rfl rfl) ⟨?_, ?_, ?_, ?_⟩ (fun _ _ _ h => by cases h) ?_ ?_ ?_
  · intro id hid
    rw [hclaims] at hid
    obtain rfl := Option.some.inj hid
    exact hs.drawn r hr
  · intro id _ hnone
    rw [hholding] at hnone
    cases hnone
  · intro r' hr' x hx hid
    obtain rfl := Option.some.inj (hyet.symm.trans hr')
    exact hs.agree x hx r hr hid
  · intro userId hu
    rw [hbetween] at hu
    cases hu
  · intro id hid
    rw [hclaims] at hid
    obtain rfl := Option.some.inj hid
    exact .inr ⟨⟨r, hr, rfl, hunused⟩, hfree⟩
  · intro r' hr'
    obtain rfl := Option.some.inj (hyet.symm.trans hr')
    exact .inr ⟨hr, hunused⟩
  · intro userId hu
    rw [hbetween] at hu
    cases hu

/-- The call goes on with the token it has claimed. -/
theorem stepped_on {beside : VerificationTask → Prop} (hs : TokensOK s) (h : Grows none s s') (ht : t.Knows s)
    (hclaims : t'.claims = t.claims)
    (hspent : t'.holding = t.holding ∨ ∀ id, t.claims = some id → ∀ r ∈ s'.tokens, r.id = id → r.usedAt ≠ none)
    (hyet : t'.yet = t.yet ∨ t'.yet = none) (hbetween : t'.between = t.between ∨ t'.between = none) :
    Crew.Stepped TokensOK (fun s t => VerificationTask.Knows s t) VerificationTask.Apart beside s t s' t' := by
  have hkept := h.knows ht (fun _ h => by cases h)
  have hyet' : ∀ r, t'.yet = some r → t.yet = some r := by
    intro r hr
    rcases hyet with hsame | hnone
    · exact hsame.symm.trans hr
    · rw [hnone] at hr
      cases hr
  have hbetween' : ∀ userId, t'.between = some userId → t.between = some userId := by
    intro userId hu
    rcases hbetween with hsame | hnone
    · exact hsame.symm.trans hu
    · rw [hnone] at hu
      cases hu
  refine stepped_token hs h ⟨fun id hid => ?_, fun id hid hnone => ?_, ?_, ?_⟩ (fun _ _ _ h => by cases h)
    (fun id hid => .inl (hclaims.symm.trans hid)) (fun r hr => .inl (hyet' r hr)) fun userId hu => .inl (hbetween' userId hu)
  · exact hkept.drawn id (hclaims.symm.trans hid)
  · have hid' := hclaims.symm.trans hid
    rcases hspent with hsame | hused
    · exact hkept.spent id hid' (hsame.symm.trans hnone)
    · exact ⟨hkept.drawn id hid', hused id hid'⟩
  · exact fun r hr => hkept.yet r (hyet' r hr)
  · exact fun userId hu => hkept.between userId (hbetween' userId hu)

/-- The call invalidates the reset tokens of a user, of which nobody holds one. -/
theorem stepped_invalidate {beside : VerificationTask → Prop} (hs : TokensOK s) (h : Grows none s s') (ht : t.Knows s)
    {userId : ℕ} (hclaims : ∀ id, t'.claims = some id → t.claims = some id)
    (hholding : ∀ id, t'.claims = some id → t.holding = none) (hyet : t'.yet = none)
    (hbetween : t'.between = some userId)
    (hused : ∀ r ∈ s'.tokens, r.type = .passwordReset → r.userId = userId → r.usedAt ≠ none)
    (hfree : ∀ u : VerificationTask, beside u → ∀ r, u.yet = some r → r.type = .passwordReset → r.userId ≠ userId) :
    Crew.Stepped TokensOK (fun s t => VerificationTask.Knows s t) VerificationTask.Apart beside s t s' t' := by
  have hkept := h.knows ht (fun _ h => by cases h)
  refine stepped_token hs h ⟨fun id hid => ?_, fun id hid _ => ?_, fun r hr => ?_, fun u hu => ?_⟩ (fun _ _ _ h => by cases h)
    (fun id hid => .inl (hclaims id hid)) (fun r hr => ?_) fun u hu => ?_
  · exact hkept.drawn id (hclaims id hid)
  · exact hkept.spent id (hclaims id hid) (hholding id hid)
  · rw [hyet] at hr
    cases hr
  · obtain rfl := Option.some.inj (hbetween.symm.trans hu)
    exact hused
  · rw [hyet] at hr
    cases hr
  · obtain rfl := Option.some.inj (hbetween.symm.trans hu)
    exact .inr hfree

/-- A consumed token is used. -/
theorem consume_used {rows : List VerificationTokenRecord} {id now : ℕ} :
    ∀ r ∈ consume rows id now, r.id = id → r.usedAt ≠ none := by
  intro r hr hid
  obtain ⟨x, hx, rfl⟩ := List.mem_map.mp hr
  split at hid
  · simp_all
  · rename_i hne
    exact absurd hid hne

/-- Dropped tokens are used. -/
theorem invalidate_used {rows : List VerificationTokenRecord} {userId now : ℕ} {type : VerificationTokenType} :
    ∀ r ∈ invalidateUnconsumed rows userId type now, r.type = type → r.userId = userId → r.usedAt ≠ none := by
  intro r hr htype huser
  obtain ⟨x, hx, rfl⟩ := List.mem_map.mp hr
  by_cases hmatch : x.userId = userId ∧ x.type = type ∧ x.usedAt = none
  · rw [if_pos hmatch]
    simp
  · rw [if_neg hmatch] at htype huser ⊢
    exact fun hunused => hmatch ⟨huser, htype, hunused⟩

end Steps

/-- The calls follow the rules of a crew. -/
theorem token_rules :
    Crew.Paired verificationService (fun s t w => VerificationTask.Capped s t w)
      (fun s t w u => VerificationTask.Undisturbed s t w u) TokensOK
      (fun s t => VerificationTask.Knows s t) VerificationTask.Apart where
  -- a request that has just arrived holds no row and claims none
  entered s op hs := by
    have hstarts := VerificationTask.starts_enter op
    refine ⟨fun id hid => ?_, fun id hid => ?_, fun r hr => ?_, fun userId hu => ?_⟩
    · exact absurd hid (by simp [verificationService, hstarts.1])
    · exact absurd hid (by simp [verificationService, hstarts.1])
    · exact absurd (VerificationTask.claims_of_yet hr) (by simp [verificationService, hstarts.1])
    · exact absurd hu (by simp [verificationService, hstarts.2])
  entered_pair s op u hs hu := by
    have hstarts := VerificationTask.starts_enter op
    refine ⟨⟨fun id hid => ?_, fun userId hu => ?_⟩, fun id _ hid => ?_, fun userId _ r hr => ?_⟩
    · exact absurd hid (by simp [verificationService, hstarts.1])
    · exact absurd hu (by simp [verificationService, hstarts.2])
    · exact absurd hid (by simp [verificationService, hstarts.1])
    · exact absurd (VerificationTask.claims_of_yet hr) (by simp [verificationService, hstarts.1])
  resumed s t w hs ht _ := by
    show Crew.Stepped _ _ _ _ s t (t.resume s w).2 (t.resume s w).1
    -- a step that issues no reset token disturbs nobody between two of its own
    have hnone : ∀ u : VerificationTask, VerificationTask.Undisturbed s t w u → ∀ userId,
        (none : Option (ℕ × VerificationTokenType)) = some (userId, .passwordReset) → u.between ≠ some userId :=
      fun _ _ _ h => by cases h
    unfold VerificationTask.resume
    cases hphase : t.phase with
    | findById userId =>
      simp only
      cases s.users.find? (·.id = userId) with
      | none => exact stepped_idle hs (.same rfl rfl) hnone rfl rfl
      | some user =>
        simp only [VerificationTask.requestVerify]
        split
        · exact stepped_idle hs (.same rfl rfl) hnone rfl rfl
        · exact stepped_idle hs (.same rfl rfl) hnone rfl rfl
    -- a request to verify the address only ever adds a row
    | createVerify userId raw =>
      exact stepped_idle hs (.created s userId .emailVerify raw _) (fun _ _ _ h => by cases h) rfl rfl
    | sendEmail => exact stepped_idle hs (.same rfl rfl) hnone rfl rfl
    | findVerify raw =>
      simp only
      cases hfind : findValidByHash s.tokens raw .emailVerify s.now with
      | none => exact stepped_idle hs (.same rfl rfl) hnone rfl rfl
      | some r =>
        obtain ⟨hmem, -, hunused, -⟩ := findValid_spec hfind
        refine stepped_present hs hmem hunused (fun u hu => ?_) rfl rfl rfl rfl
        simpa [VerificationTask.Undisturbed, hphase, hfind] using hu
    | setEmailVerified r =>
      exact stepped_on hs (.same rfl rfl) ht (by simp [VerificationTask.claims, VerificationTask.goto, hphase])
        (.inl (by simp [VerificationTask.holding, VerificationTask.goto, hphase])) (.inr rfl) (.inr rfl)
    -- the row is marked used here, a step after the address was verified with it
    | consumeVerify r =>
      refine stepped_on hs (.marked rfl rfl) ht (by simp [VerificationTask.claims, VerificationTask.goto, hphase])
        (.inr fun id hid => ?_) (.inr rfl) (.inr rfl)
      obtain rfl : r.id = id := by simpa [VerificationTask.claims, hphase] using hid
      exact consume_used
    | findByEmail email =>
      simp only
      cases s.users.find? (·.email = email) with
      | none => exact stepped_idle hs (.same rfl rfl) hnone rfl rfl
      | some user =>
        cases w with
        | true => exact stepped_idle hs (.same rfl rfl) hnone rfl rfl
        | false => exact stepped_idle hs (.same rfl rfl) hnone rfl rfl
    | decoy => exact stepped_idle hs (.same rfl rfl) hnone rfl rfl
    -- the older rows go before the new one is written, so a reset may stand between the two
    | invalidateOlder userId =>
      refine stepped_invalidate hs (.marked rfl rfl) ht (fun id hid => by cases hid) (fun id hid => by cases hid) rfl rfl
        invalidate_used fun u hu r hr htype => ?_
      simpa [VerificationTask.Undisturbed, hphase, hr, htype] using hu
    | createReset userId raw =>
      refine stepped_idle hs (.created s userId .passwordReset raw _) (fun u hu userId' h => ?_) rfl rfl
      cases h
      simpa [VerificationTask.Undisturbed, hphase] using hu
    | findReset raw newPassword =>
      simp only
      cases hfind : findValidByHash s.tokens raw .passwordReset s.now with
      | none => exact stepped_idle hs (.same rfl rfl) hnone rfl rfl
      | some r =>
        -- the request presents the row: from here on it claims it, unused as it was found
        obtain ⟨hmem, -, hunused, -⟩ := findValid_spec hfind
        refine stepped_present hs hmem hunused (fun u hu => ?_) rfl rfl rfl rfl
        simpa [VerificationTask.Undisturbed, hphase, hfind] using hu
    | hashPassword r newPassword =>
      exact stepped_on hs (.same rfl rfl) ht (by simp [VerificationTask.claims, VerificationTask.goto, hphase])
        (.inl (by simp [VerificationTask.holding, VerificationTask.goto, hphase]))
        (.inl (by simp [VerificationTask.yet, VerificationTask.goto, hphase])) (.inr rfl)
    | setPassword r newPassword =>
      exact stepped_on hs (.same rfl rfl) ht (by simp [VerificationTask.claims, VerificationTask.goto, hphase])
        (.inl (by simp [VerificationTask.holding, VerificationTask.goto, hphase])) (.inr rfl) (.inr rfl)
    | consumeReset r =>
      refine stepped_on hs (.marked rfl rfl) ht (by simp [VerificationTask.claims, VerificationTask.goto, hphase])
        (.inr fun id hid => ?_) (.inr rfl) (.inr rfl)
      obtain rfl : r.id = id := by simpa [VerificationTask.claims, hphase] using hid
      exact consume_used
    | invalidateReset r =>
      refine stepped_invalidate hs (.marked rfl rfl) ht (fun id hid => ?_) (fun id _ => ?_) rfl rfl invalidate_used
        fun u hu r' hr' htype => ?_
      · simpa [VerificationTask.claims, VerificationTask.goto, hphase] using hid
      · simp [VerificationTask.holding, hphase]
      · simpa [VerificationTask.Undisturbed, hphase, hr', htype] using hu
    | bumpTokenVersion r =>
      exact stepped_on hs (.same rfl rfl) ht (by simp [VerificationTask.claims, VerificationTask.goto, hphase])
        (.inl (by simp [VerificationTask.holding, VerificationTask.goto, hphase])) (.inr rfl)
        (.inl (by simp [VerificationTask.between, VerificationTask.goto, hphase]))
    | revokeAllForUser r =>
      exact stepped_on hs (.same rfl rfl) ht (by simp [VerificationTask.claims, VerificationTask.goto, hphase])
        (.inl (by simp [VerificationTask.holding, VerificationTask.goto, hphase])) (.inr rfl) (.inr rfl)
    | ended used => exact stepped_on hs (.same rfl rfl) ht rfl (.inl rfl) (.inl rfl) (.inl rfl)
  drifted s d hs := ⟨hs.drawn, hs.agree⟩
  drifted_task s d u hs hu := by
    have hgrows : Grows none s (verificationService.drift d s) := .same rfl rfl
    exact hgrows.knows hu fun _ h => by cases h

/-! ## Every run -/

/-- The service as it starts. -/
def freshTokens (users : List VerifiedUser) (seq nextRaw now : ℕ) : Crew.State VerificationStore VerificationTask :=
  { store := { users, seq, nextRaw, now } }

/-- The token takes no effect any more: it is gone, and no call is about to use it. -/
structure Dead (id : ℕ) (s : Crew.State VerificationStore VerificationTask) : Prop where
  gone : Gone s.store id
  unheld : ∀ t ∈ s.tasks, ∀ r, t.yet = some r → r.id ≠ id

/-- The effects of the token are those of `s₀`. -/
structure NoMore (id : ℕ) (s₀ s : Crew.State VerificationStore VerificationTask) : Prop where
  dead : Dead id s
  took : ∀ (j : ℕ) (t : VerificationTask), s.tasks[j]? = some t → t.took = some id →
    ∃ t₀, s₀.tasks[j]? = some t₀ ∧ t₀.took = some id

/-- What a step does with tokens: a call has used one it was about to use, or had used, and it is about
to use one only if it was, or has found it valid. -/
structure Uses (s : VerificationStore) (t : VerificationTask) (s' : VerificationStore) (t' : VerificationTask) : Prop where
  grows : ∃ new, Grows new s s'
  now : s'.now = s.now
  took : ∀ id, t'.took = some id → t.took = some id ∨ ∃ r, t.yet = some r ∧ r.id = id
  yet : ∀ r, t'.yet = some r → t.yet = some r ∨ r ∈ s.tokens ∧ ¬r.Over s.now

section Uses

variable {s s' : VerificationStore} {t t' : VerificationTask} {new : Option (ℕ × VerificationTokenType)}

theorem uses_none (h : Grows new s s') (htook : t'.took = none) (hyet : t'.yet = none)
    (hnow : s'.now = s.now := by rfl) : Uses s t s' t' where
  grows := ⟨new, h⟩
  now := hnow
  took id hid := by
    rw [htook] at hid
    cases hid
  yet r hr := by
    rw [hyet] at hr
    cases hr

/-- A call that goes on after its token has taken effect. -/
theorem uses_same (h : Grows new s s') (htook : t'.took = t.took) (hyet : t'.yet = none)
    (hnow : s'.now = s.now := by rfl) : Uses s t s' t' where
  grows := ⟨new, h⟩
  now := hnow
  took id hid := .inl (htook.symm.trans hid)
  yet r hr := by
    rw [hyet] at hr
    cases hr

theorem uses_effect (h : Grows new s s') {r : VerificationTokenRecord} (hr : t.yet = some r)
    (htook : t'.took = some r.id) (hyet : t'.yet = none) (hnow : s'.now = s.now := by rfl) : Uses s t s' t' where
  grows := ⟨new, h⟩
  now := hnow
  took id hid := .inr ⟨r, hr, Option.some.inj (htook.symm.trans hid)⟩
  yet r hr := by
    rw [hyet] at hr
    cases hr

theorem uses_present {raw : ℕ} {type : VerificationTokenType} {next : VerificationTokenRecord → VerificationPhase}
    (htook : ∀ r, (t.goto (next r)).took = none) (hyet : ∀ r, (t.goto (next r)).yet = some r) :
    Uses s t (t.present s next (findValidByHash s.tokens raw type s.now)).2
      (t.present s next (findValidByHash s.tokens raw type s.now)).1 := by
  cases hfind : findValidByHash s.tokens raw type s.now with
  | none => exact uses_none (.same rfl rfl) rfl rfl
  | some r =>
    obtain ⟨hmem, -, -, hgood⟩ := findValid_spec hfind
    refine ⟨⟨none, .same rfl rfl⟩, rfl, fun id hid => ?_, fun r' hr' => ?_⟩
    · exact absurd ((htook r).symm.trans hid) (by simp)
    · obtain rfl := Option.some.inj ((hyet r).symm.trans hr')
      exact .inr ⟨hmem, hgood⟩

/-- A step uses the token it took. -/
theorem uses_resume (s : VerificationStore) (t : VerificationTask) (w : Bool) :
    Uses s t (t.resume s w).2 (t.resume s w).1 := by
  unfold VerificationTask.resume
  cases hphase : t.phase with
  | findById userId =>
    simp only
    cases s.users.find? (·.id = userId) with
    | none => exact uses_none (.same rfl rfl) rfl rfl
    | some user =>
      simp only [VerificationTask.requestVerify]
      split
      · exact uses_none (.same rfl rfl) rfl rfl
      · exact uses_none (.same rfl rfl) rfl rfl
  | createVerify userId raw => exact uses_none (.created s userId .emailVerify raw _) rfl rfl
  | sendEmail => exact uses_none (.same rfl rfl) rfl rfl
  | findVerify raw => exact uses_present (fun _ => rfl) fun _ => rfl
  | setEmailVerified r => exact uses_effect (.same rfl rfl) (by simp [VerificationTask.yet, hphase]) rfl rfl
  | consumeVerify r => exact uses_same (.marked rfl rfl) (by simp [VerificationTask.took, VerificationTask.goto, hphase]) rfl
  | findByEmail email =>
    simp only
    cases s.users.find? (·.email = email) with
    | none => exact uses_none (.same rfl rfl) rfl rfl
    | some user =>
      cases w with
      | true => exact uses_none (.same rfl rfl) rfl rfl
      | false => exact uses_none (.same rfl rfl) rfl rfl
  | decoy => exact uses_none (.same rfl rfl) rfl rfl
  | invalidateOlder userId => exact uses_none (.marked rfl rfl) rfl rfl
  | createReset userId raw => exact uses_none (.created s userId .passwordReset raw _) rfl rfl
  | findReset raw newPassword => exact uses_present (fun _ => rfl) fun _ => rfl
  | hashPassword r newPassword =>
    refine ⟨⟨none, .same rfl rfl⟩, rfl, fun id hid => (by cases hid), fun r' hr' => .inl ?_⟩
    simpa [VerificationTask.yet, VerificationTask.goto, hphase] using hr'
  | setPassword r newPassword => exact uses_effect (.same rfl rfl) (by simp [VerificationTask.yet, hphase]) rfl rfl
  | consumeReset r => exact uses_same (.marked rfl rfl) (by simp [VerificationTask.took, VerificationTask.goto, hphase]) rfl
  | invalidateReset r => exact uses_same (.marked rfl rfl) (by simp [VerificationTask.took, VerificationTask.goto, hphase]) rfl
  | bumpTokenVersion r => exact uses_same (.same rfl rfl) (by simp [VerificationTask.took, VerificationTask.goto, hphase]) rfl
  | revokeAllForUser r => exact uses_same (.same rfl rfl) (by simp [VerificationTask.took, VerificationTask.goto, hphase]) rfl
  | ended used => exact ⟨⟨none, .same rfl rfl⟩, rfl, fun _ hid => .inl hid, fun _ hr => .inl hr⟩

end Uses

/-- A token used once is used no more. -/
theorem NoMore.step {id : ℕ} {s₀ s : Crew.State VerificationStore VerificationTask} (h : NoMore id s₀ s)
    (e : Crew.Event VerificationOp Bool ℕ) : NoMore id s₀ (verificationService.step s e) := by
  cases e with
  | enter op =>
    have hstarts := VerificationTask.starts_enter op
    refine ⟨⟨h.dead.gone, fun t ht r hr => ?_⟩, fun j t ht htook => ?_⟩
    · rcases List.mem_append.mp ht with ht | ht
      · exact h.dead.unheld t ht r hr
      · rw [List.mem_singleton.mp ht] at hr
        exact absurd (VerificationTask.claims_of_yet hr) (by simp [verificationService, hstarts.1])
    · have hclaims := VerificationTask.claims_of_took htook
      rcases Nat.lt_or_ge j s.tasks.length with hlt | hge
      · simp only [Crew.step] at ht
        rw [List.getElem?_append_left hlt] at ht
        exact h.took j t ht htook
      · simp only [Crew.step] at ht
        rw [List.getElem?_append_right hge, List.getElem?_singleton] at ht
        split at ht
        · obtain rfl := Option.some.inj ht
          exact absurd hclaims (by simp [verificationService, hstarts.1])
        · cases ht
  | resume k w =>
    rcases verificationService.resume_cases s k w with hsame | ⟨t, hk, hstep⟩
    · rw [hsame]
      exact h
    · have hmem := List.mem_of_getElem? hk
      have hlt : k < s.tasks.length := (List.getElem?_eq_some_iff.mp hk).1
      have huses := uses_resume s.store t w
      obtain ⟨new, hgrows⟩ := huses.grows
      rw [hstep]
      refine ⟨⟨hgrows.gone huses.now.ge h.dead.gone, fun u hu r hr => ?_⟩, fun j u hu htook => ?_⟩
      · rcases Crew.mem_set hu with rfl | hu
        · rcases huses.yet r hr with hold | ⟨hr', hgood⟩
          · exact h.dead.unheld t hmem r hold
          · intro hid
            exact hgood (h.dead.gone.2 r hr' hid)
        · exact h.dead.unheld u hu r hr
      · by_cases hjk : j = k
        · subst hjk
          rw [List.getElem?_set_self hlt] at hu
          obtain rfl := Option.some.inj hu
          rcases huses.took id htook with hold | ⟨r, hr, hid⟩
          · exact h.took j t hk hold
          · exact absurd hid (h.dead.unheld t hmem r hr)
        · rw [List.getElem?_set_ne (Ne.symm hjk)] at hu
          exact h.took j u hu htook
  | drift ms =>
    have hlater : Grows none s.store (verificationService.drift ms s.store) := .same rfl rfl
    exact ⟨⟨hlater.gone (Nat.le_add_right _ _) h.dead.gone, h.dead.unheld⟩, h.took⟩

theorem NoMore.run {id : ℕ} {s₀ s : Crew.State VerificationStore VerificationTask} (h : NoMore id s₀ s)
    (es : List (Crew.Event VerificationOp Bool ℕ)) : NoMore id s₀ (Murlan.run verificationService.step s es) :=
  run_inv (P := NoMore id s₀) (fun _ e h => h.step e) h es

/-- When a request or a reset of a user completes, his older reset tokens are dead. -/
theorem completes_noMore {s : Crew.State VerificationStore VerificationTask}
    (hs : Crew.Holds TokensOK (fun s t => VerificationTask.Knows s t) VerificationTask.Apart s) {k : ℕ} {w : Bool}
    {t : VerificationTask} (hk : s.tasks[k]? = some t) (hcapped : t.Capped s.store w)
    (hbeside : ∀ u ∈ s.tasks.eraseIdx k, t.Undisturbed s.store w u) {userId : ℕ}
    (hcompletes : t.completes s.store w = some userId) {r : VerificationTokenRecord} (hr : r ∈ s.store.tokens)
    (htype : r.type = .passwordReset) (huser : r.userId = userId) : NoMore r.id s s := by
  have hknows := hs.task t (List.mem_of_getElem? hk)
  have hfind : ∀ x ∈ s.store.tokens, x.id = r.id → x.type = .passwordReset ∧ x.userId = userId := by
    intro x hx hid
    obtain ⟨hxuser, hxtype⟩ := hs.store.agree x hx r hr hid
    exact ⟨hxtype.trans htype, hxuser.trans huser⟩
  -- a call about to use the token would be another one, and know it is the user's
  have hyet : ∀ v ∈ s.tasks, ∀ y, v.yet = some y → y.id = r.id →
      y.type = .passwordReset ∧ y.userId = userId ∧ (t.yet = none → v ∈ s.tasks.eraseIdx k ∧ t.Apart v) := by
    intro v hv y hy hid
    obtain ⟨hyuser, hytype⟩ := (hs.task v hv).yet y hy r hr hid.symm
    refine ⟨hytype.symm.trans htype, hyuser.symm.trans huser, fun hnone => ?_⟩
    obtain ⟨i, hi⟩ := List.mem_iff_getElem?.mp hv
    have hik : i ≠ k := by
      rintro rfl
      obtain rfl := Option.some.inj (hi.symm.trans hk)
      rw [hnone] at hy
      cases hy
    exact ⟨List.mem_eraseIdx_iff_getElem?.mpr ⟨i, hik, hi⟩, hs.pair k i t v (Ne.symm hik) hk hi⟩
  refine ⟨⟨⟨hs.store.drawn r hr, fun x hx hid => ?_⟩, fun v hv y hy hid => ?_⟩, fun j v hv htook => ⟨v, hv, htook⟩⟩
  · obtain ⟨hxtype, hxuser⟩ := hfind x hx hid
    rcases VerificationTask.completes_cases hcompletes with ⟨hbetween, -⟩ | ⟨email, hphase⟩
    · exact .inl (hknows.between userId hbetween x hx hxtype hxuser)
    · unfold VerificationTask.Capped at hcapped
      rw [hphase] at hcapped
      exact hcapped x hx hxtype (by rw [hxuser, hcompletes])
  · obtain ⟨hytype, hyuser, hother⟩ := hyet v hv y hy hid
    rcases VerificationTask.completes_cases hcompletes with ⟨hbetween, hnone⟩ | ⟨email, hphase⟩
    · exact (hother hnone).2.between userId hbetween y hy hytype hyuser
    · have hnone : t.yet = none := by simp [VerificationTask.yet, hphase]
      have hfree := hbeside v (hother hnone).1
      simp [VerificationTask.Undisturbed, hphase, hy, hytype, hyuser, hcompletes] at hfree

/-- **Tokens take effect at most once**, and a reset token none once a later request, or a reset, of its
user has completed; if no step is disturbed by another call, and no request over its cap of emails leaves a
reset token that may still be used. -/
theorem tokens_take_effect_once (users : List VerifiedUser) (seq nextRaw now : ℕ)
    {es : List (Crew.Event VerificationOp Bool ℕ)}
    (hg : Guarded verificationService.step
      (Crew.MeetsBeside (fun s t w => VerificationTask.Capped s t w)
        fun s t w u => VerificationTask.Undisturbed s t w u)
      (freshTokens users seq nextRaw now) es) :
    (∀ (i j : ℕ) (t u : VerificationTask) (id : ℕ), i ≠ j →
      (run verificationService.step (freshTokens users seq nextRaw now) es).tasks[i]? = some t →
      (run verificationService.step (freshTokens users seq nextRaw now) es).tasks[j]? = some u →
      t.took = some id → u.took ≠ some id) ∧
    ∀ (k : ℕ) (w : Bool) (t : VerificationTask) (userId : ℕ),
      (run verificationService.step (freshTokens users seq nextRaw now) es).tasks[k]? = some t →
      t.completes (run verificationService.step (freshTokens users seq nextRaw now) es).store w = some userId →
      Crew.MeetsBeside (fun s t w => VerificationTask.Capped s t w)
        (fun s t w u => VerificationTask.Undisturbed s t w u)
        (run verificationService.step (freshTokens users seq nextRaw now) es) (.resume k w : Crew.Event VerificationOp Bool ℕ) →
      ∀ r ∈ (run verificationService.step (freshTokens users seq nextRaw now) es).store.tokens,
        r.type = .passwordReset → r.userId = userId →
        ∀ (fs : List (Crew.Event VerificationOp Bool ℕ)) (j : ℕ) (u : VerificationTask),
          (run verificationService.step (freshTokens users seq nextRaw now) (es ++ .resume k w :: fs)).tasks[j]? = some u →
          u.took = some r.id →
          ∃ u₀, (run verificationService.step (freshTokens users seq nextRaw now) es).tasks[j]? = some u₀ ∧
            u₀.took = some r.id := by
  have hstart : Crew.Holds TokensOK (fun s t => VerificationTask.Knows s t) VerificationTask.Apart
      (freshTokens users seq nextRaw now) := by
    refine ⟨⟨fun r hr => (by cases hr), fun r hr => (by cases hr)⟩, fun t ht => (by cases ht),
      fun i j t u _ ht => (by cases ht)⟩
  have hholds := token_rules.guarded hstart es hg
  refine ⟨fun i j t u id hij ht hu htook huid => ?_,
    fun k w t userId hk hcompletes hmeets r hr htype huser fs j u hu htook => ?_⟩
  · exact (hholds.pair i j t u hij ht hu).claims id (VerificationTask.claims_of_took htook)
      (VerificationTask.claims_of_took huid)
  · obtain ⟨hcapped, hbeside⟩ := hmeets t hk
    have hnoMore := completes_noMore hholds hk hcapped hbeside hcompletes hr htype huser
    rw [run_append] at hu
    exact (hnoMore.run _).took j u hu htook

/-- A player asks for a reset, and presents the token twice, the second time once the first reset has ended. -/
def resetTwice : List (Crew.Event VerificationOp Bool ℕ) :=
  [.enter (.requestPasswordReset "ana@murlan.al"), .resume 0 true, .resume 0 true, .resume 0 true,
    .enter (.resetPassword 0 "password-1"), .resume 1 true, .resume 1 true, .resume 1 true, .resume 1 true,
    .resume 1 true, .resume 1 true, .resume 1 true,
    .enter (.resetPassword 0 "password-2"), .resume 2 true]

/-- He asks twice, and the second request is about to complete. -/
def askTwice : List (Crew.Event VerificationOp Bool ℕ) :=
  [.enter (.requestPasswordReset "ana@murlan.al"), .resume 0 true, .resume 0 true, .resume 0 true,
    .enter (.requestPasswordReset "ana@murlan.al"), .resume 1 true, .resume 1 true]

/-- A user. -/
def ana : VerifiedUser := { id := 7, email := "ana@murlan.al", password := "password-0" }

/-- A token presented again is not used again, nor is one that a newer request has dropped. -/
theorem tokens_take_effect_once_reset :
    (VerificationTask.mk (.resetPassword 0 "password-2") (.ended none)).took ≠ some 1 ∧
      ((run verificationService.step (freshTokens [ana] 0 0 0)
        (askTwice ++ .resume 1 true :: [.enter (.resetPassword 0 "password-1"), .resume 2 true])).tasks[2]?.bind
          VerificationTask.took) ≠ some 1 := by
  have hg : Guarded verificationService.step
      (Crew.MeetsBeside (fun s t w => VerificationTask.Capped s t w)
        fun s t w u => VerificationTask.Undisturbed s t w u)
      (freshTokens [ana] 0 0 0) resetTwice := by
    decide +kernel
  have hasked : Guarded verificationService.step
      (Crew.MeetsBeside (fun s t w => VerificationTask.Capped s t w)
        fun s t w u => VerificationTask.Undisturbed s t w u)
      (freshTokens [ana] 0 0 0) askTwice := by
    decide +kernel
  refine ⟨(tokens_take_effect_once [ana] 0 0 0 hg).1 1 2
    ⟨.resetPassword 0 "password-1", .ended (some 1)⟩ _ 1 (by decide) (by decide +kernel) (by decide +kernel) rfl, ?_⟩
  intro htook
  obtain ⟨u, hu, htook⟩ := Option.bind_eq_some_iff.mp htook
  obtain ⟨u₀, hu₀, -⟩ := (tokens_take_effect_once [ana] 0 0 0 hasked).2 1 true
    ⟨.requestPasswordReset "ana@murlan.al", .createReset 7 1⟩ 7 (by decide +kernel) (by decide +kernel) (by decide +kernel)
    { id := 1, userId := 7, type := .passwordReset, tokenHash := 0, expiresAt := PASSWORD_RESET_TTL_MS, usedAt := some 0 }
    (by decide +kernel) rfl rfl _ 2 u hu htook
  have hnone : (run verificationService.step (freshTokens [ana] 0 0 0) askTwice).tasks[2]? = none := by decide +kernel
  rw [hnone] at hu₀
  cases hu₀

/-- He presents it twice at a time. -/
def resetAtOnce : List (Crew.Event VerificationOp Bool ℕ) :=
  [.enter (.requestPasswordReset "ana@murlan.al"), .resume 0 true, .resume 0 true, .resume 0 true,
    .enter (.resetPassword 0 "password-1"), .enter (.resetPassword 0 "password-2"), .resume 1 true, .resume 2 true,
    .resume 1 true, .resume 2 true, .resume 1 true, .resume 2 true]

/-- **One token sets the password twice.** -/
theorem reset_used_twice :
    (run verificationService.step (freshTokens [ana] 0 0 0) resetAtOnce).tasks.map VerificationTask.took =
        [none, some 1, some 1] ∧
      (run verificationService.step (freshTokens [ana] 0 0 0) resetAtOnce).store.users.map (·.password) = ["password-2"] ∧
      (run verificationService.step (freshTokens [ana] 0 0 0) resetAtOnce.dropLast).store.users.map (·.password) =
        ["password-1"] := by
  decide +kernel

/-- **A request over the cap of emails** completes and leaves the older token as it was: it sets the password. -/
theorem capped_request_leaves_token :
    (run verificationService.step (freshTokens [ana] 0 0 0)
      [.enter (.requestPasswordReset "ana@murlan.al"), .resume 0 true, .resume 0 true, .resume 0 true,
        .enter (.requestPasswordReset "ana@murlan.al"), .resume 1 false, .enter (.resetPassword 0 "password-1"),
        .resume 2 true, .resume 2 true, .resume 2 true]).tasks.map (fun t => (decide (t.phase = .ended none), t.took)) =
      [(true, none), (true, none), (false, some 1)] := by
  decide +kernel

end Murlan
