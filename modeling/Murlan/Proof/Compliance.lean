import Murlan.Base.Run
import Murlan.Spec.Compliance

/-!
# Self-service compliance tightens

* `Tightens`: a later self-exclusion date, and a date of birth and a country that stay once set.
* `updateSelfProfile_keeps`, `selfExclude_extends`: a write tightens the stored user exactly
  when the request, decided on that user, would still decide as it did.
* `self_service_tightens`: so does a run, exactly when all its writes are of this kind.
* `self_exclusion_shortened`: two self-exclusions side by side.
-/

namespace Murlan

/-- What may become of a field that is set once. -/
def SetOnce (field field' : Option String) : Prop := ∀ d, field = some d → d ≠ "" → field' = some d

/-- An exclusion ends no sooner; the date of birth and the country, once set, stay. -/
structure ComplianceRow.Tightens (u u' : ComplianceRow) : Prop where
  excluded : u.selfExcludedUntil.getD 0 ≤ u'.selfExcludedUntil.getD 0
  dateOfBirth : SetOnce u.dateOfBirth u'.dateOfBirth
  country : SetOnce u.country u'.country

/-- The stored user is not less restricted than he was. -/
def Tightens (user user' : Option ComplianceRow) : Prop :=
  ∀ u, user = some u → ∃ u', user' = some u' ∧ u.Tightens u'

theorem SetOnce.refl (field : Option String) : SetOnce field field := fun _ h _ => h

theorem SetOnce.trans {f f' f'' : Option String} (h : SetOnce f f') (h' : SetOnce f' f'') : SetOnce f f'' :=
  fun d hd hne => h' d (h d hd hne) hne

theorem Tightens.refl (user : Option ComplianceRow) : Tightens user user :=
  fun u hu => ⟨u, hu, Nat.le_refl _, .refl _, .refl _⟩

theorem Tightens.trans {a b c : Option ComplianceRow} (h : Tightens a b) (h' : Tightens b c) : Tightens a c := by
  intro u hu
  obtain ⟨u', hu', hle, hdob, hcountry⟩ := h u hu
  obtain ⟨u'', hu'', hle', hdob', hcountry'⟩ := h' u' hu'
  exact ⟨u'', hu'', hle.trans hle', hdob.trans hdob', hcountry.trans hcountry'⟩

/-! ## One field -/

/-- A field that is set, or whose user is verified, is not changed. -/
def locked (next field : Option String) (verified : Bool) : Bool :=
  (next.isSome && next != field) && ((field.isSome && field != some "") || verified)

theorem updateSelfProfile_some (patch : SelfProfile) (u : ComplianceRow) :
    updateSelfProfile patch (some u) =
      if locked patch.dateOfBirth u.dateOfBirth (u.kycStatus == .verified) ||
          locked (patch.country.map (·.toUpper)) u.country (u.kycStatus == .verified) then none
      else some { dateOfBirth := patch.dateOfBirth, country := patch.country.map (·.toUpper) } := rfl

/-- A field is open when it is empty or stays as it was. -/
theorem locked_eq_false {next field : Option String} {v : Bool} :
    locked next field v = false ↔
      ∀ n, next = some n → next ≠ field → (∀ d, field = some d → d = "") ∧ v = false := by
  cases next with
  | none => simp [locked]
  | some n =>
    cases field with
    | none => simp [locked]
    | some d =>
      simp only [locked, Option.isSome_some, Bool.true_and, Bool.and_eq_false_iff, bne_eq_false_iff_eq,
        Bool.or_eq_false_iff, Option.some.injEq, ne_eq]
      constructor
      · rintro (h | h) m rfl hne
        · exact absurd h hne
        · exact ⟨fun e he => he ▸ h.1, h.2⟩
      · intro h
        by_cases heq : n = d
        · exact .inl heq
        · exact .inr ⟨(h n rfl heq).1 d rfl, (h n rfl heq).2⟩

/-- **A field that was not locked when it was read** is written without harm exactly when it
is not locked now. -/
theorem locked_iff_setOnce {next old field : Option String} {v : Bool} (hne : next ≠ some "")
    (hread : locked next old v = false) (hkept : SetOnce old field) :
    locked next field v = false ↔ SetOnce field (next.or field) := by
  cases next with
  | none =>
    refine ⟨fun _ => ?_, fun _ => rfl⟩
    rw [Option.none_or]
    exact .refl field
  | some n =>
    rw [locked_eq_false] at hread ⊢
    have hn : n ≠ "" := fun h => hne (h ▸ rfl)
    constructor
    · intro h d hd hd0
      by_cases hnd : n = d
      · exact hnd ▸ rfl
      · have hempty := (h n rfl (fun heq => hnd (Option.some.inj (heq.trans hd)))).1 d hd
        exact absurd hempty hd0
    · rintro h m hm hmf
      obtain rfl := Option.some.inj hm
      have hunset : ∀ d, field = some d → d = "" := by
        intro d hd
        by_contra hd0
        exact hmf ((h d hd hd0).trans hd.symm)
      refine ⟨hunset, ?_⟩
      by_cases hold : some n = old
      · -- the value that was read is still there
        exact absurd (hkept n hold.symm hn) (fun heq => hmf heq.symm)
      · exact (hread n rfl hold).2

theorem isDateOfBirth_ne {d : String} (h : isDateOfBirth d = true) : d ≠ "" := by
  rintro rfl
  simp [isDateOfBirth] at h

theorem isCountry_toUpper_ne {c : String} (h : isCountry c = true) : c.toUpper ≠ "" := by
  intro hempty
  have hlen : c.toUpper.toList = [] := by rw [hempty]; rfl
  have hnil : c.toList = [] := by simpa [String.toUpper] using hlen
  simp [isCountry, hnil] at h

/-! ## One write -/

/-- An exclusion decided on an older row still extends. -/
theorem selfExclude_extends {body : SelfExclude} {c u : ComplianceRow}
    (hle : c.selfExcludedUntil.getD 0 ≤ u.selfExcludedUntil.getD 0) :
    selfExclude body (some u) = selfExclude body (some c) ↔
      Tightens (some u) (UserRepository.updateCompliance (some u) (selfExclude body (some c))) := by
  simp only [selfExclude, Option.bind_some, UserRepository.updateCompliance, Option.map_some,
    ComplianceUpdate.mk.injEq, Option.some.injEq, true_and]
  constructor
  · intro h u' hu'
    obtain rfl := Option.some.inj hu'
    refine ⟨_, rfl, ?_, .refl _, .refl _⟩
    simp only [Option.some_or, Option.getD_some]
    omega
  · intro h
    obtain ⟨u', hu', hle', -⟩ := h u rfl
    obtain rfl := Option.some.inj hu'
    simp only [Option.some_or, Option.getD_some] at hle'
    omega

/-- A profile decided on an older row still keeps what is set. -/
theorem updateSelfProfile_keeps {patch : SelfProfile} {c u : ComplianceRow} {data : ComplianceUpdate}
    (hread : updateSelfProfile patch (some c) = some data) (htight : c.Tightens u)
    (hkyc : u.kycStatus = c.kycStatus) :
    updateSelfProfile patch (some u) = updateSelfProfile patch (some c) ↔
      Tightens (some u) (UserRepository.updateCompliance (some u) data) := by
  have hdob : patch.dateOfBirth ≠ some "" := fun h => isDateOfBirth_ne (patch.date_format "" h) rfl
  have hcountry : patch.country.map (·.toUpper) ≠ some "" := by
    intro h
    obtain ⟨c, hc, hup⟩ := Option.map_eq_some_iff.mp h
    exact isCountry_toUpper_ne (patch.country_format c hc) hup
  rw [hread]
  rw [updateSelfProfile_some] at hread ⊢
  split at hread
  · cases hread
  rename_i hfree
  obtain rfl := Option.some.inj hread
  simp only [Bool.or_eq_true, not_or, Bool.not_eq_true] at hfree
  have hboth := and_congr (locked_iff_setOnce hdob hfree.1 htight.dateOfBirth)
    (locked_iff_setOnce hcountry hfree.2 htight.country)
  rw [hkyc]
  constructor
  · intro h
    split at h
    · cases h
    rename_i hfree'
    simp only [Bool.or_eq_true, not_or, Bool.not_eq_true] at hfree'
    have hkeep := hboth.mp hfree'
    intro u' hu'
    obtain rfl := Option.some.inj hu'
    exact ⟨_, rfl, Nat.le_refl _, hkeep.1, hkeep.2⟩
  · intro h
    obtain ⟨u', hu', -, hdob', hcountry'⟩ := h u rfl
    obtain rfl := Option.some.inj hu'
    have hfree' := hboth.mpr ⟨hdob', hcountry'⟩
    rw [if_neg (by simp [hfree'])]

/-! ## Runs -/

/-- What is known of the user that a request has read: it has only been tightened since, and the
request decided on it. -/
def SelfTask.Read (user : Option ComplianceRow) : SelfTask → Prop
  | .updateCompliance req current patch =>
    req.decide current = some patch ∧ Tightens current user ∧ (current = none → user = none) ∧
      (user.map (·.kycStatus) = current.map (·.kycStatus))
  | _ => True

/-- A write finds the user as the request would decide on it anyhow. -/
def SelfTask.Unraced (user : Option ComplianceRow) (task : SelfTask) (_ : Unit) : Prop :=
  match task with
  | .updateCompliance req current _ => req.decide user = req.decide current
  | _ => True

/-- No request of a player's touches the identity check. -/
theorem kycStatus_updateCompliance (user : Option ComplianceRow) (req : SelfRequest) {current : Option ComplianceRow}
    {patch : ComplianceUpdate} (h : req.decide current = some patch) :
    (UserRepository.updateCompliance user patch).map (·.kycStatus) = user.map (·.kycStatus) := by
  have hnone : patch.kycStatus = none := by
    cases req with
    | selfExclude body =>
      obtain rfl := Option.some.inj h
      rfl
    | profile body =>
      cases current with
      | none => cases h
      | some c =>
        rw [SelfRequest.decide, updateSelfProfile_some] at h
        split at h
        · cases h
        · obtain rfl := Option.some.inj h
          rfl
  cases user with
  | none => rfl
  | some u => simp [UserRepository.updateCompliance, hnone]

/-- **One write**: the stored user is tightened exactly when the request would decide on it as it
decided on the user it has read. -/
theorem unraced_iff {user : Option ComplianceRow} {req : SelfRequest} {current : Option ComplianceRow}
    {patch : ComplianceUpdate} (h : SelfTask.Read user (.updateCompliance req current patch)) :
    req.decide user = req.decide current ↔ Tightens user (UserRepository.updateCompliance user patch) := by
  obtain ⟨hread, htight, hnone, hkyc⟩ := h
  cases current with
  | none =>
    rw [hnone rfl]
    exact ⟨fun _ _ hu => (nomatch hu), fun _ => rfl⟩
  | some c =>
    obtain ⟨u, rfl, hcu⟩ := htight c rfl
    cases req with
    | selfExclude body =>
      obtain rfl := Option.some.inj hread
      rw [← selfExclude_extends hcu.excluded]
      exact Option.some_inj
    | profile body => exact updateSelfProfile_keeps hread hcu (Option.some.inj hkyc)

/-- What a request has read stays good as restrictions tighten. -/
theorem read_mono {user user' : Option ComplianceRow} (h : Tightens user user') (hnone : user = none → user' = none)
    (hkyc : user'.map (·.kycStatus) = user.map (·.kycStatus)) {task : SelfTask} (ht : task.Read user) :
    task.Read user' := by
  cases task with
  | updateCompliance req current patch =>
    exact ⟨ht.1, ht.2.1.trans h, fun hc => hnone (ht.2.2.1 hc), hkyc.trans ht.2.2.2⟩
  | findById req => trivial
  | answered => trivial

/-- Requests with no race tighten. -/
theorem steady_self : selfService.Steady SelfTask.Unraced (fun _ => True) SelfTask.Read where
  entered _ _ _ := trivial
  resumed user task w _ ht hok := by
    refine ⟨trivial, ?_⟩
    cases task with
    | findById req =>
      simp only [selfService]
      cases hread : req.decide user with
      | none => trivial
      | some patch => exact ⟨hread, .refl user, id, rfl⟩
    | updateCompliance req current patch => trivial
    | answered => trivial
  others user task w other _ ht hok hother := by
    cases task with
    | findById req =>
      have hsame : (selfService.resume w (.findById req) user).2 = user := by
        simp only [selfService]
        cases req.decide user with
        | none => rfl
        | some patch => rfl
      rw [hsame]
      exact hother
    | updateCompliance req current patch =>
      refine read_mono ((unraced_iff ht).mp hok) ?_ (kycStatus_updateCompliance user req ht.1) hother
      rintro rfl
      rfl
    | answered => exact hother
  drifted _ d _ := d.elim
  drifted_task _ d _ _ _ := d.elim

/-- **One step** tightens the stored user exactly when it meets the condition. -/
theorem meets_iff {s : Crew.State (Option ComplianceRow) SelfTask} (hread : ∀ t ∈ s.tasks, t.Read s.store)
    (e : Crew.Event SelfRequest Unit Empty) :
    Crew.Meets SelfTask.Unraced s e ↔ Tightens s.store (selfService.step s e).store := by
  cases e with
  | enter req => exact ⟨fun _ => .refl _, fun _ => trivial⟩
  | drift d => exact d.elim
  | resume k w =>
    rcases hk : s.tasks[k]? with _ | t
    · simp [Crew.Meets, Crew.step, hk, Tightens.refl]
    · have hmeets : Crew.Meets SelfTask.Unraced s (.resume k w : Crew.Event SelfRequest Unit Empty) ↔
          t.Unraced s.store w := by simp [Crew.Meets, hk]
      have hstore : (selfService.step s (.resume k w)).store = (selfService.resume w t s.store).2 := by
        simp [Crew.step, hk]
      rw [hmeets, hstore]
      cases t with
      | findById req =>
        refine ⟨fun _ => ?_, fun _ => trivial⟩
        simp only [selfService]
        cases req.decide s.store with
        | none => exact .refl _
        | some patch => exact .refl _
      | updateCompliance req current patch => exact unraced_iff (hread _ (List.mem_of_getElem? hk))
      | answered => exact ⟨fun _ => .refl _, fun _ => trivial⟩

/-- **Self-service compliance only tightens**: in every run of self-exclusions and profile
requests, every step tightens the stored user, exactly when every write finds a user on which
its request would decide as it did. -/
theorem self_service_tightens (user : Option ComplianceRow) (es : List (Crew.Event SelfRequest Unit Empty)) :
    Guarded selfService.step (fun s e => Tightens s.store (selfService.step s e).store) ⟨user, []⟩ es ↔
      Guarded selfService.step (Crew.Meets SelfTask.Unraced) ⟨user, []⟩ es := by
  have hkeep : ∀ (s : Crew.State (Option ComplianceRow) SelfTask) (e : Crew.Event SelfRequest Unit Empty),
      (True ∧ ∀ t ∈ s.tasks, t.Read s.store) → Crew.Meets SelfTask.Unraced s e →
      True ∧ ∀ t ∈ (selfService.step s e).tasks, t.Read (selfService.step s e).store :=
    fun s e hs hok => steady_self.step hs hok
  refine (guarded_congr ?_ hkeep ⟨trivial, by simp⟩ es).symm
  rintro s e ⟨-, hread⟩
  exact meets_iff hread e

/-- Thirty days and one day, side by side: both requests read the user before either writes. -/
theorem self_exclusion_shortened :
    let month : SelfRequest := .selfExclude ⟨30, by decide, by decide, 0⟩
    let day : SelfRequest := .selfExclude ⟨1, by decide, by decide, 0⟩
    let es : List (Crew.Event SelfRequest Unit Empty) :=
      [.enter month, .enter day, .resume 0 (), .resume 1 (), .resume 0 (), .resume 1 ()]
    (run selfService.step ⟨some {}, []⟩ es).store = some { selfExcludedUntil := some 86400000 } ∧
      ¬ Guarded selfService.step (fun s e => Tightens s.store (selfService.step s e).store) ⟨some {}, []⟩ es := by
  refine ⟨by decide, ?_⟩
  rintro ⟨-, -, -, -, -, h, -⟩
  obtain ⟨u', hu', hle, -⟩ := h { selfExcludedUntil := some 2592000000 } (by decide)
  have hday : u' = { selfExcludedUntil := some 86400000 } := Option.some.inj (hu'.symm.trans (by decide))
  rw [hday] at hle
  exact absurd hle (by decide)

end Murlan
