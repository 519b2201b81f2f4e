import Murlan.Spec.Handshakes

/-!
# What a kept answer may let in

`Known` says what is known of the answers that are kept and of the tries under way. An answer
that is read lets in nobody who is revoked or banned; an answer that is kept does, once a
revocation has come after its read.

* `revocation_iff`: in every run nobody is let in whose token is older than a revocation that had
  returned, or who has been banned since before, exactly if every event meets `Calm`.
* `revoked_token_let_in`: a revocation between two handshakes of one second.
-/

namespace Murlan

namespace Handshakes

variable {U : Type*} {s : Handshakes U}

/-! ## What a read says -/

theorem checkLogin_banned {u : SocketUser} {now : ℤ} (h : u.accountState = .banned) :
    u.checkLogin now = .refused "account_banned" := by
  have heffective : u.effective now = .banned := by
    unfold SocketUser.effective
    rw [h]
  unfold SocketUser.checkLogin
  rw [heffective]

/-- A session that is allowed has the version of its user, who is not banned. -/
theorem gate_allowed {t : SocketTry U} {now : ℤ} (h : (s.gate t now).1 = .allowed) :
    ∃ u, s.users t.user = some u ∧ t.ver = u.tokenVersion ∧ (s.gate t now).2 = u.tokenVersion ∧
      s.isBanned t.user = false := by
  unfold gate checkSession at h ⊢
  unfold isBanned
  cases hu : s.users t.user with
  | none =>
    rw [hu] at h
    cases h
  | some u =>
    rw [hu] at h
    dsimp only at h ⊢
    split at h
    · cases h
    · rename_i hver
      refine ⟨u, rfl, not_not.mp hver, rfl, ?_⟩
      split at h
      · rename_i howner
        simp [howner]
      · by_cases hbanned : u.accountState = .banned
        · rw [checkLogin_banned hbanned] at h
          cases h
        · simp [hbanned]

variable [DecidableEq U]

/-- What the tries, the revocations and the answers that are kept say. -/
structure Known (s : Handshakes U) : Prop where
  revoked : ∀ user u, s.users user = some u → s.revoked user ≤ u.tokenVersion
  revocations : ∀ r user version, s.revocations r = some (user, version) → ∀ u, s.users user = some u →
    version ≤ u.tokenVersion
  stale : ∀ i t, s.waiting i = some t → t.stale = true → ∀ u, s.users t.user = some u → t.ver < u.tokenVersion
  banned : ∀ i t, s.waiting i = some t → t.banned = true → s.isBanned t.user = true
  gate : ∀ i t version, s.waiting i = some t → t.gate = some (.allowed, version) →
    t.stale = false ∧ t.banned = false ∧ t.ver = version
  cache : ∀ user c, s.cache.lookup user = some c → c.check = .allowed → c.ver = c.version

/-- A try that a read allows is neither stale nor banned. -/
theorem Known.gate_sound (h : s.Known) {i : ℕ} {t : SocketTry U} (ht : s.waiting i = some t) {now : ℤ}
    (hgate : (s.gate t now).1 = .allowed) :
    t.stale = false ∧ t.banned = false ∧ t.ver = (s.gate t now).2 := by
  obtain ⟨u, hu, hver, hversion, hbanned⟩ := gate_allowed hgate
  refine ⟨?_, ?_, hver.trans hversion.symm⟩
  · cases hstale : t.stale with
    | false => rfl
    | true => exact absurd (h.stale i t ht hstale u hu) (by omega)
  · cases hb : t.banned with
    | false => rfl
    | true => exact absurd ((h.banned i t ht hb).symm.trans hbanned) (by decide)

/-! ## One event -/

/-- A try is started, or read, or ends. -/
theorem Known.set (h : s.Known) (i : ℕ) {t : Option (SocketTry U)}
    (ht : ∀ t', t = some t' → (t'.stale = true → ∀ u, s.users t'.user = some u → t'.ver < u.tokenVersion) ∧
      (t'.banned = true → s.isBanned t'.user = true) ∧
      ∀ version, t'.gate = some (.allowed, version) → t'.stale = false ∧ t'.banned = false ∧ t'.ver = version) :
    Known { s with waiting := Function.update s.waiting i t } := by
  have hcases : ∀ {i' t'}, Function.update s.waiting i t i' = some t' → t = some t' ∨ s.waiting i' = some t' := by
    intro i' t' hi'
    rw [Function.update_apply] at hi'
    split at hi'
    · exact .inl hi'
    · exact .inr hi'
  refine { h with
    stale := fun i' t' hi' => ?_
    banned := fun i' t' hi' => ?_
    gate := fun i' t' version hi' => ?_ }
  · exact (hcases hi').elim (fun hnew => (ht t' hnew).1) fun hold => h.stale i' t' hold
  · exact (hcases hi').elim (fun hnew => (ht t' hnew).2.1) fun hold => h.banned i' t' hold
  · exact (hcases hi').elim (fun hnew => (ht t' hnew).2.2 version) fun hold => h.gate i' t' version hold

theorem Known.drop (h : s.Known) (i : ℕ) : Known { s with waiting := Function.update s.waiting i none } :=
  h.set i fun t' hnone => by cases hnone

theorem Known.started (h : s.Known) (i : ℕ) (user : U) (ver : ℕ) (reAuth : Bool) :
    Known { s with waiting := Function.update s.waiting i (some (s.start user ver reAuth)) } := by
  refine h.set i fun t' ht' => ?_
  obtain rfl := Option.some.inj ht'
  refine ⟨fun hstale u hu => ?_, id, fun version hgate => by cases hgate⟩
  exact (of_decide_eq_true hstale).trans_le (h.revoked user u hu)

/-- A read of the account is noted for what it is. -/
theorem Known.read (h : s.Known) (i : ℕ) (now : ℤ) : (s.step (.read i now)).Known := by
  unfold Handshakes.step
  dsimp only
  split
  · exact h
  · rename_i t ht
    split
    · exact h.drop i
    · split
      · refine h.set i fun t' ht' => ?_
        obtain rfl := Option.some.inj ht'
        refine ⟨h.stale i t ht, h.banned i t ht, fun version hgate => ?_⟩
        have hread : s.gate t now = (.allowed, version) := Option.some.inj hgate
        have hsound := h.gate_sound ht (congrArg Prod.fst hread)
        rw [hread] at hsound
        exact hsound
      · exact h

/-- An answer is cached for what was read. -/
theorem Known.finish (h : s.Known) (i : ℕ) (now later : ℤ) : (s.step (.finish i now later)).Known := by
  unfold Handshakes.step
  dsimp only
  split
  · exact h
  · rename_i t ht
    split
    · exact h
    · rename_i gate hgate
      refine { h.drop i with cache := fun user c hc hallowed => ?_ }
      have hbefore : (s.cache.insert t.user { storedAt := now, ver := t.ver, check := gate.1, version := gate.2 }).lookup
          user = some c := Entries.prune_le hc
      by_cases heq : user = t.user
      · rw [heq, AList.lookup_insert] at hbefore
        obtain rfl := Option.some.inj hbefore
        have hread : t.gate = some (.allowed, gate.2) := by
          rw [hgate, ← show gate.1 = .allowed from hallowed]
        exact (h.gate i t gate.2 ht hread).2.2
      · rw [AList.lookup_insert_ne heq] at hbefore
        exact h.cache user c hbefore hallowed

/-- A user after a write, or another one. -/
theorem update_user {users : U → Option SocketUser} {user k : U} {u v : SocketUser}
    (h : Function.update users user (some u) k = some v) : (k = user ∧ v = u) ∨ (k ≠ user ∧ users k = some v) := by
  rw [Function.update_apply] at h
  split at h
  · rename_i heq
    exact .inl ⟨heq, (Option.some.inj h).symm⟩
  · rename_i hne
    exact .inr ⟨hne, h⟩

/-- A revocation is on its way. -/
theorem Known.bump (h : s.Known) (r : ℕ) (user : U) : (s.step (.bump r user)).Known := by
  unfold Handshakes.step
  dsimp only
  split
  · exact h
  · rename_i u hu
    have hversion : ∀ k v, Function.update s.users user (some { u with tokenVersion := u.tokenVersion + 1 }) k = some v →
        ∃ v', s.users k = some v' ∧ v'.tokenVersion ≤ v.tokenVersion := by
      intro k v hv
      rcases update_user hv with ⟨rfl, rfl⟩ | ⟨-, hk⟩
      · exact ⟨u, hu, Nat.le_succ _⟩
      · exact ⟨v, hk, Nat.le_refl _⟩
    refine { h with
      revoked := fun k v hv => ?_
      revocations := fun r' k version hr v hv => ?_
      stale := fun i t ht hstale v hv => ?_
      banned := fun i t ht hbanned => ?_ }
    · obtain ⟨v', hv', hle⟩ := hversion k v hv
      exact (h.revoked k v' hv').trans hle
    · dsimp only at hr
      rw [Function.update_apply] at hr
      split at hr
      · obtain ⟨rfl, rfl⟩ := Prod.mk.inj (Option.some.inj hr)
        rcases update_user hv with ⟨-, rfl⟩ | ⟨hne, -⟩
        · exact Nat.le_refl _
        · exact absurd rfl hne
      · obtain ⟨v', hv', hle⟩ := hversion k v hv
        exact (h.revocations r' k version hr v' hv').trans hle
    · obtain ⟨v', hv', hle⟩ := hversion t.user v hv
      exact (h.stale i t ht hstale v' hv').trans_le hle
    · have hold := h.banned i t ht hbanned
      unfold isBanned at hold ⊢
      dsimp only
      by_cases heq : t.user = user
      · rw [heq, Function.update_self]
        rw [heq, hu] at hold
        exact hold
      · rw [Function.update_of_ne heq]
        exact hold

/-- A revocation has returned. -/
theorem Known.returned (h : s.Known) (r : ℕ) : (s.step (.returned r)).Known := by
  unfold Handshakes.step
  dsimp only
  split
  · exact h
  · rename_i user version hr
    refine { h with
      revoked := fun k v hv => ?_
      revocations := fun r' k version' hr' => ?_ }
    · dsimp only
      rw [Function.update_apply]
      split
      · rename_i heq
        subst heq
        exact max_le (h.revoked k v hv) (h.revocations r k version hr v hv)
      · exact h.revoked k v hv
    · dsimp only at hr'
      rw [Function.update_apply] at hr'
      split at hr'
      · cases hr'
      · exact h.revocations r' k version' hr'

/-- An account changes its state. -/
theorem Known.setState (h : s.Known) (user : U) (state : AccountState) (ends : Option ℤ) :
    (s.step (.setState user state ends)).Known := by
  unfold Handshakes.step
  dsimp only
  split
  · exact h
  · rename_i u hu
    have hversion : ∀ k v, Function.update s.users user (some { u with accountState := state, accountStateUntil := ends })
        k = some v → ∃ v', s.users k = some v' ∧ v'.tokenVersion = v.tokenVersion := by
      intro k v hv
      rcases update_user hv with ⟨rfl, rfl⟩ | ⟨-, hk⟩
      · exact ⟨u, hu, rfl⟩
      · exact ⟨v, hk, rfl⟩
    -- a try of the user stays banned only if the new state is a ban
    have hpardon : ∀ i t, s.pardon user (decide (state = .banned) && !u.owner) i = some t → ∃ t', s.waiting i = some t' ∧
        t.user = t'.user ∧ t.ver = t'.ver ∧ t.stale = t'.stale ∧ t.gate = t'.gate ∧
        t.banned = (t'.banned && (decide (t'.user ≠ user) || (decide (state = .banned) && !u.owner))) := by
      intro i t ht
      obtain ⟨t', ht', rfl⟩ := Option.map_eq_some_iff.mp ht
      exact ⟨t', ht', rfl, rfl, rfl, rfl, rfl⟩
    refine { h with
      revoked := fun k v hv => ?_
      revocations := fun r k version hr v hv => ?_
      stale := fun i t ht hstale v hv => ?_
      banned := fun i t ht hbanned => ?_
      gate := fun i t version ht hgate => ?_ }
    · obtain ⟨v', hv', heq⟩ := hversion k v hv
      exact heq ▸ h.revoked k v' hv'
    · obtain ⟨v', hv', heq⟩ := hversion k v hv
      exact heq ▸ h.revocations r k version hr v' hv'
    · obtain ⟨t', ht', huser, hver, hstale', -, -⟩ := hpardon i t ht
      obtain ⟨v', hv', heq⟩ := hversion t.user v hv
      rw [hver, ← heq]
      exact h.stale i t' ht' (hstale'.symm.trans hstale) v' (huser ▸ hv')
    · obtain ⟨t', ht', huser, -, -, -, hban⟩ := hpardon i t ht
      rw [hban, Bool.and_eq_true] at hbanned
      obtain ⟨hwas, hstill⟩ := hbanned
      have hold := h.banned i t' ht' hwas
      unfold isBanned at hold ⊢
      dsimp only
      rw [huser]
      by_cases heq : t'.user = user
      · rw [heq, Function.update_self]
        simpa [heq] using hstill
      · rw [Function.update_of_ne heq]
        exact hold
    · obtain ⟨t', ht', -, hver, hstale', hgate', hban⟩ := hpardon i t ht
      obtain ⟨hstale, hbanned, heq⟩ := h.gate i t' version ht' (hgate'.symm.trans hgate)
      refine ⟨hstale'.trans hstale, ?_, hver.trans heq⟩
      rw [hban, hbanned]
      rfl

/-- **Step.** Every event keeps what is known. -/
theorem Known.step (h : s.Known) (e : HandshakeEvent U) : (s.step e).Known := by
  cases e with
  | handshake i user ver now =>
    unfold Handshakes.step
    dsimp only
    split
    · exact h.started i user ver false
    · exact h
  | reAuth i user ver =>
    unfold Handshakes.step
    dsimp only
    split
    · exact h.started i user ver true
    · exact h
  | read i now => exact h.read i now
  | finish i now later => exact h.finish i now later
  | lost i => exact h.drop i
  | bump r user => exact h.bump r user
  | returned r => exact h.returned r
  | setState user state ends => exact h.setState user state ends

/-! ## Every run -/

/-- No kept answer is used that was read before a revocation that has returned, or for a user who
is banned. -/
def Calm (s : Handshakes U) : HandshakeEvent U → Prop
  | .handshake i user ver now => s.waiting i = none → ∀ c, s.cached user ver now = some c → c.check = .allowed →
      s.revoked user ≤ c.version ∧ s.isBanned user = false
  | _ => True

/-- Nobody is let in whose token is older than a revocation that had returned, or who was banned
and has been since. -/
def Refused (s : Handshakes U) (e : HandshakeEvent U) : Prop :=
  ∀ t, s.accepted e = some t → t.stale = false ∧ t.banned = false

/-- What the cache answers was stored, for this version. -/
theorem cached_spec {user : U} {ver : ℕ} {now : ℤ} {c : CachedHandshake} (h : s.cached user ver now = some c) :
    s.cache.lookup user = some c ∧ c.ver = ver := by
  unfold cached at h
  split at h
  · cases h
  · rename_i c' hc'
    split at h
    · rename_i hfresh
      obtain rfl := Option.some.inj h
      exact ⟨hc', hfresh.1⟩
    · cases h

/-- An event is calm exactly if it lets in nobody revoked. -/
theorem Known.refused_iff (h : s.Known) (e : HandshakeEvent U) : s.Calm e ↔ s.Refused e := by
  cases e with
  -- the only step that answers from the cache
  | handshake i user ver now =>
    unfold Calm Refused accepted
    dsimp only
    cases hwaiting : s.waiting i with
    | some t => exact ⟨(fun _ t ht => by cases ht), (fun _ hnone => by cases hnone)⟩
    | none =>
      cases hcached : s.cached user ver now with
      | none => exact ⟨(fun _ t ht => by cases ht), (fun _ _ c hc => by cases hc)⟩
      | some c =>
        obtain ⟨hlookup, hver⟩ := cached_spec hcached
        constructor
        · intro hcalm t ht
          dsimp only at ht
          split at ht
          · rename_i hallowed
            obtain rfl := Option.some.inj ht
            obtain ⟨hrevoked, hbanned⟩ := hcalm rfl c rfl hallowed
            refine ⟨decide_eq_false ?_, hbanned⟩
            have hread := h.cache user c hlookup hallowed
            omega
          · cases ht
        · intro hrefused _ c' hc' hallowed
          obtain rfl := Option.some.inj hc'
          obtain ⟨hstale, hbanned⟩ := hrefused (s.start user ver false) (if_pos hallowed)
          have hread := h.cache user c hlookup hallowed
          have hfresh := of_decide_eq_false hstale
          exact ⟨by omega, hbanned⟩
  -- the gate has read the row since, so what it lets in is never stale
  | read i now =>
    refine ⟨fun _ t ht => ?_, fun _ => trivial⟩
    unfold accepted at ht
    dsimp only at ht
    split at ht
    · cases ht
    · rename_i t' ht'
      split at ht
      · rename_i hallowed
        obtain rfl := Option.some.inj ht
        obtain ⟨hstale, hbanned, -⟩ := h.gate_sound ht' hallowed.2
        exact ⟨hstale, hbanned⟩
      · cases ht
  | finish i now later =>
    refine ⟨fun _ t ht => ?_, fun _ => trivial⟩
    unfold accepted at ht
    dsimp only at ht
    split at ht
    · cases ht
    · rename_i t' ht'
      split at ht
      · rename_i hallowed
        obtain rfl := Option.some.inj ht
        obtain ⟨⟨check, version⟩, hgate, hcheck⟩ := Option.map_eq_some_iff.mp hallowed
        obtain ⟨hstale, hbanned, -⟩ := h.gate i t' version ht' (hgate.trans (by rw [← show check = .allowed from hcheck]))
        exact ⟨hstale, hbanned⟩
      · cases ht
  | _ => exact ⟨(fun _ t ht => by cases ht), fun _ => trivial⟩

/-- The server before the first socket. -/
def fresh (users : U → Option SocketUser) : Handshakes U := { users := users }

/-- With an empty cache, nothing is stale. -/
theorem known_fresh (users : U → Option SocketUser) : Known (fresh users) where
  revoked _ _ _ := Nat.zero_le _
  revocations _ _ _ h := by cases h
  stale _ _ h := by cases h
  banned _ _ h := by cases h
  gate _ _ _ h := by cases h
  cache user c h := by
    rw [show (fresh users).cache = ∅ from rfl, AList.lookup_empty] at h
    cases h

/-- **Revocations and the answers that are kept.** With any users, any run of handshakes,
re-authentications, revocations and bans, in any order of their parts and with any clock, lets in
nobody who was revoked or banned before exactly if each of its events is calm. -/
theorem revocation_iff (users : U → Option SocketUser) (es : List (HandshakeEvent U)) :
    Guarded step Calm (fresh users) es ↔
      ∀ fs e gs, es = fs ++ e :: gs → Refused (run step (fresh users) fs) e := by
  have hknown : ∀ fs, Known (run step (fresh users) fs) := run_inv (fun s e h => h.step e) (known_fresh users)
  rw [guarded_iff_forall]
  constructor
  · intro h fs e gs heq
    exact ((hknown fs).refused_iff e).mp (h fs e gs heq)
  · intro h fs e gs heq
    exact ((hknown fs).refused_iff e).mpr (h fs e gs heq)

/-- A user is let in, revokes all sessions, and is let in with the old token a second later. -/
theorem revoked_token_let_in : ¬Refused
    (run step (fresh fun _ : ℕ =>
      some { tokenVersion := 0, accountState := .active, accountStateUntil := none, owner := false })
      [.handshake 0 7 0 0, .read 0 10, .finish 0 20 20, .bump 0 7, .returned 0])
    (.handshake 1 7 0 1000) := by
  intro h
  generalize hs : run step (fresh fun _ : ℕ =>
    some { tokenVersion := 0, accountState := .active, accountStateUntil := none, owner := false })
      [.handshake 0 7 0 0, .read 0 10, .finish 0 20 20, .bump 0 7, .returned 0] = s at h
  have haccepted : s.accepted (.handshake 1 7 0 1000) = some (s.start 7 0 false) := by
    rw [← hs]
    decide +kernel
  have hstale : (s.start 7 0 false).stale = true := by
    rw [← hs]
    decide +kernel
  exact absurd ((h _ haccepted).1.symm.trans hstale) (by decide)

end Handshakes

end Murlan
