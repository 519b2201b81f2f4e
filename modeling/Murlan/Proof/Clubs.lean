import Mathlib.Data.List.Nodup
import Murlan.Spec.Clubs

/-!
# Clubs keep a founder

* `Current`: what each write asks of the store, that what the call has read still holds.
* `ClubsOK`, `Knows`, `Apart`: what the rows satisfy, what a call knows, and what holds of two
  calls: no two owe a founder to one club, no two are in the critical section of one.
* `club_rules`, `founder_repaid`, `founderId_repaid`: the steps keep them, and a club that lacks
  its founder, or whose founder it does not name, has a call under way that makes up for it.
* `clubs_keep_their_law`: over the runs of such steps. `club_without_founder`: it fails otherwise.
-/

namespace Murlan

variable {U : Type} [DecidableEq U]

namespace ClubTask

/-- The write of a call finds what the call has read: the user still in no club, the club still
there, the member still as he was, the club still empty, the heir still in the club, and still its founder. -/
def Current (s : ClubStore U) (t : ClubTask U) (_ : Bool) : Prop :=
  match t.phase with
  | .createClub userId tag _ => s.memberOf userId = none ∨ s.clubs.any (·.tag = tag.toUpper) = true
  | .addMember userId clubId => (s.memberOf userId).isSome = true ∨ (s.getClub clubId).isSome = true
  | .removeMember m => (s.memberOf m.userId).any (fun x => x.clubId = m.clubId ∧ x.role = m.role) = true
  | .deleteClub m => s.countMembers m.clubId = 0
  | .setRole m heir => (s.memberOf heir).any (·.clubId = m.clubId) = true
  | .setFounder m heir => (s.memberOf heir).any (fun x => x.clubId = m.clubId ∧ x.role = .founder) = true
  | _ => True

instance (s : ClubStore U) (t : ClubTask U) (w : Bool) : Decidable (t.Current s w) := by
  unfold Current
  split
  · infer_instance
  · infer_instance
  · infer_instance
  · infer_instance
  · infer_instance
  · infer_instance
  · infer_instance

omit [DecidableEq U] in
/-- The club a call has read. -/
def club (t : ClubTask U) : Option ℕ :=
  match t.phase with
  | .queued _ c | .countMembers _ c | .addMember _ c => some c
  | .removeMember m | .listMembers m | .deleteClub m | .setRole m _ | .setFounder m _ => some m.clubId
  | _ => none

omit [DecidableEq U] in
/-- The club that a call has left without a founder. -/
def debt (t : ClubTask U) : Option ℕ :=
  match t.phase with
  | .listMembers m | .deleteClub m => if m.role = .founder then some m.clubId else none
  | .setRole m _ => some m.clubId
  | _ => none

omit [DecidableEq U] in
/-- The club whose joins the others wait for. -/
def critical (t : ClubTask U) : Option ℕ :=
  match t.phase with
  | .countMembers _ c | .addMember _ c => some c
  | _ => none

omit [DecidableEq U] in
/-- A call owes only to the club it is about. -/
theorem club_of_debt {t : ClubTask U} {c : ℕ} (h : t.debt = some c) : t.club = some c := by
  unfold debt at h
  unfold club
  cases hphase : t.phase with
  | listMembers m =>
    simp only [hphase] at h
    split at h
    · exact h
    · cases h
  | deleteClub m =>
    simp only [hphase] at h
    split at h
    · exact h
    · cases h
  | setRole m heir => simpa [hphase] using h
  | _ => simp [hphase] at h

omit [DecidableEq U] in
theorem club_of_critical {t : ClubTask U} {c : ℕ} (h : t.critical = some c) : t.club = some c := by
  unfold critical at h
  unfold club
  cases hphase : t.phase with
  | countMembers u c' => simpa [hphase] using h
  | addMember u c' => simpa [hphase] using h
  | _ => simp [hphase] at h

end ClubTask

/-! ## What is known along the way -/

namespace ClubStore

omit [DecidableEq U] in
/-- The club has a founder among its members. -/
def HasFounder (s : ClubStore U) (c : ℕ) : Prop := ∃ m ∈ s.members, m.role = .founder ∧ m.clubId = c

end ClubStore

/-- The invariant of the store: one membership a user, one founder a club. -/
structure ClubsOK (s : ClubStore U) : Prop where
  users : (s.members.map (·.userId)).Nodup
  named : ∀ m ∈ s.members, ∃ c ∈ s.clubs, c.id = m.clubId
  drawn : ∀ c ∈ s.clubs, c.id ≤ s.seq
  founder : ∀ m ∈ s.members, ∀ m' ∈ s.members, m.role = .founder → m'.role = .founder → m.clubId = m'.clubId →
    m.userId = m'.userId
  size : ∀ c, s.countMembers c ≤ MAX_CLUB_MEMBERS

namespace ClubTask

omit [DecidableEq U] in
/-- Who asks for a call. -/
def user (t : ClubTask U) : Option U :=
  match t.op with
  | .create userId _ _ | .join userId _ | .joinByCode userId _ | .leave userId => some userId
  | .adminClose _ => none

omit [DecidableEq U] in
/-- A call does what it was asked for. -/
def Asked (t : ClubTask U) : Prop :=
  match t.phase with
  | .memberOfCreate u _ _ | .createClub u _ _ | .memberOfJoin u _ | .getClub u _ | .memberOfCode u _ | .getByCode u _
  | .queued u _ | .countMembers u _ | .addMember u _ => t.user = some u
  | .memberOfLeave u => t.op = .leave u
  | .removeMember m | .listMembers m | .deleteClub m | .setRole m _ | .setFounder m _ => t.op = .leave m.userId
  | .getClosed c | .closeClub c => t.op = .adminClose c
  | .ended _ => True

/-- What a call knows: the club it owes a founder has none, and one that it may join has room. -/
structure Knows (s : ClubStore U) (t : ClubTask U) : Prop where
  asked : t.Asked
  drawn : ∀ c, t.club = some c → c ≤ s.seq
  owed : ∀ c, t.debt = some c → ¬s.HasFounder c
  room : ∀ u c, t.phase = .addMember u c → s.countMembers c < MAX_CLUB_MEMBERS
  held : ∀ c, t.critical = some c → c ∈ s.joining

omit [DecidableEq U] in
/-- Two calls owe no founder to the same club, and join no club together. -/
structure Apart (t u : ClubTask U) : Prop where
  debt : ∀ c, t.debt = some c → u.debt ≠ some c
  critical : ∀ c, t.critical = some c → u.critical ≠ some c

end ClubTask

/-! ## The rows after each write -/

omit [DecidableEq U] in
theorem ClubsOK.le_seq {s : ClubStore U} {m : ClubMember U} (hs : ClubsOK s) (hm : m ∈ s.members) : m.clubId ≤ s.seq := by
  obtain ⟨c, hc, hid⟩ := hs.named m hm
  rw [← hid]
  exact hs.drawn c hc

namespace ClubStore

variable {s : ClubStore U} {m x : ClubMember U} {u : U} {c : ℕ}

theorem memberOf_none (h : s.memberOf u = none) : ∀ m ∈ s.members, m.userId ≠ u := by
  intro m hm
  simpa using List.find?_eq_none.mp h m hm

theorem memberOf_some (h : s.memberOf u = some m) : m ∈ s.members ∧ m.userId = u :=
  ⟨List.mem_of_find?_eq_some h, by simpa using List.find?_some h⟩

omit [DecidableEq U] in
theorem eq_of_user (hs : ClubsOK s) (hm : m ∈ s.members) (hx : x ∈ s.members) (h : m.userId = x.userId) : m = x :=
  List.inj_on_of_nodup_map hs.users hm hx h

theorem setMember_new {members : List (ClubMember U)} (h : ∀ x ∈ members, x.userId ≠ m.userId) :
    setMember members m = members ++ [m] := by
  unfold setMember
  rw [if_neg]
  simpa using h

omit [DecidableEq U] in
theorem countMembers_pos (hm : m ∈ s.members) (hc : m.clubId = c) : 0 < s.countMembers c :=
  List.countP_pos_iff.mpr ⟨m, hm, by simpa using hc⟩

omit [DecidableEq U] in
theorem countMembers_zero (h : s.countMembers c = 0) : ∀ m ∈ s.members, m.clubId ≠ c := by
  intro m hm hc
  have hpos := countMembers_pos hm hc
  omega

end ClubStore

/-- What the write of the call `t` leaves: no club but its own gets a founder, and none but its own a member. -/
structure ClubWrite (s : ClubStore U) (t : ClubTask U) (s' : ClubStore U) : Prop where
  ok : ClubsOK s'
  seq : s.seq ≤ s'.seq
  founder : ∀ c ≤ s.seq, t.debt ≠ some c → s'.HasFounder c → s.HasFounder c
  room : ∀ c ≤ s.seq, t.critical ≠ some c → s'.countMembers c ≤ s.countMembers c
  joining : ∀ c ∈ s.joining, t.critical ≠ some c → c ∈ s'.joining

namespace ClubWrite

variable {s s' : ClubStore U} {t : ClubTask U}

omit [DecidableEq U] in
/-- A step that leaves the rows of the members. -/
theorem same (hs : ClubsOK s) (hmembers : s'.members = s.members) (hseq : s'.seq = s.seq)
    (hclubs : s'.clubs.map (·.id) = s.clubs.map (·.id))
    (hjoining : ∀ c ∈ s.joining, t.critical ≠ some c → c ∈ s'.joining) : ClubWrite s t s' where
  ok := by
    have hid : ∀ c : ℕ, (∃ x ∈ s.clubs, x.id = c) ↔ ∃ x ∈ s'.clubs, x.id = c := by
      intro c
      have hmem : c ∈ s'.clubs.map (·.id) ↔ c ∈ s.clubs.map (·.id) := by rw [hclubs]
      simpa [List.mem_map] using hmem.symm
    refine ⟨by rw [hmembers]; exact hs.users, fun m hm => ?_, fun c hc => ?_, by rw [hmembers]; exact hs.founder,
      fun c => ?_⟩
    · exact (hid m.clubId).mp (hs.named m (hmembers ▸ hm))
    · obtain ⟨x, hx, hxc⟩ := (hid c.id).mpr ⟨c, hc, rfl⟩
      rw [hseq, ← hxc]
      exact hs.drawn x hx
    · have hsize := hs.size c
      unfold ClubStore.countMembers at hsize ⊢
      rw [hmembers]
      exact hsize
  seq := hseq.ge
  founder c _ _ h := by
    obtain ⟨m, hm, hrest⟩ := h
    exact ⟨m, hmembers ▸ hm, hrest⟩
  room c _ _ := by
    unfold ClubStore.countMembers
    rw [hmembers]
  joining := hjoining

omit [DecidableEq U] in
/-- Members go, and at most clubs without members. -/
theorem fewer (hs : ClubsOK s) {p : ClubMember U → Bool} (hmembers : s'.members = s.members.filter p) (hseq : s'.seq = s.seq)
    (hclubs : ∀ c ∈ s'.clubs, c ∈ s.clubs) (hnamed : ∀ m ∈ s.members, p m = true → ∃ c ∈ s'.clubs, c.id = m.clubId)
    (hjoining : s'.joining = s.joining) : ClubWrite s t s' where
  ok := by
    have hmem : ∀ m ∈ s'.members, m ∈ s.members ∧ p m = true := fun m hm => List.mem_filter.mp (hmembers ▸ hm)
    refine ⟨?_, fun m hm => ?_, fun c hc => ?_, fun m hm m' hm' => ?_, fun c => ?_⟩
    · rw [hmembers]
      exact hs.users.sublist (List.filter_sublist.map _)
    · exact hnamed m (hmem m hm).1 (hmem m hm).2
    · rw [hseq]
      exact hs.drawn c (hclubs c hc)
    · exact hs.founder m (hmem m hm).1 m' (hmem m' hm').1
    · refine le_trans ?_ (hs.size c)
      unfold ClubStore.countMembers
      rw [hmembers]
      exact List.filter_sublist.countP_le
  seq := hseq.ge
  founder c _ _ h := by
    obtain ⟨m, hm, hrest⟩ := h
    exact ⟨m, (List.mem_filter.mp (hmembers ▸ hm)).1, hrest⟩
  room c _ _ := by
    unfold ClubStore.countMembers
    rw [hmembers]
    exact List.filter_sublist.countP_le
  joining c hc _ := hjoining ▸ hc

/-- A new club with its founder, who is in no other. -/
theorem create (hs : ClubsOK s) {userId : U} (hfree : s.memberOf userId = none) (tag : String) (isPrivate : Bool) :
    ClubWrite s t (s.createClub userId tag isPrivate) := by
  have hnew := ClubStore.memberOf_none hfree
  set row : ClubMember U := { userId, clubId := s.seq + 1, role := .founder, joinedAt := s.now } with hrow
  have hmembers : (s.createClub userId tag isPrivate).members = s.members ++ [row] := ClubStore.setMember_new hnew
  have hcount : ∀ c, (s.createClub userId tag isPrivate).countMembers c =
      s.countMembers c + if s.seq + 1 = c then 1 else 0 := by
    intro c
    unfold ClubStore.countMembers
    rw [hmembers, List.countP_append, List.countP_singleton]
    simp [hrow]
  -- nobody is in the new club yet
  have hold : ∀ m ∈ s.members, m.clubId ≠ s.seq + 1 := by
    intro m hm
    have hle := hs.le_seq hm
    omega
  refine ⟨⟨?_, fun m hm => ?_, fun c hc => ?_, fun m hm m' hm' hr hr' hclub => ?_, fun c => ?_⟩, Nat.le_succ _,
    fun c hc _ h => ?_, fun c hc _ => ?_, fun c hc _ => hc⟩
  · rw [hmembers, List.map_append, List.nodup_append]
    refine ⟨hs.users, List.nodup_singleton _, fun x hx y hy => ?_⟩
    obtain ⟨m, hm, rfl⟩ := List.mem_map.mp hx
    rw [List.mem_singleton.mp hy]
    exact hnew m hm
  · rw [hmembers] at hm
    rcases List.mem_append.mp hm with hm | hm
    · obtain ⟨c, hc, hid⟩ := hs.named m hm
      exact ⟨c, List.mem_append_left _ hc, hid⟩
    · rw [List.mem_singleton.mp hm]
      exact ⟨_, List.mem_append_right _ List.mem_cons_self, rfl⟩
  · rcases List.mem_append.mp hc with hc | hc
    · exact (hs.drawn c hc).trans (Nat.le_succ _)
    · rw [List.mem_singleton.mp hc]
      exact Nat.le_refl _
  · rw [hmembers] at hm hm'
    rcases List.mem_append.mp hm with hm | hm
    · rcases List.mem_append.mp hm' with hm' | hm'
      · exact hs.founder m hm m' hm' hr hr' hclub
      · rw [List.mem_singleton.mp hm'] at hclub
        exact absurd hclub (hold m hm)
    · rw [List.mem_singleton.mp hm] at hclub ⊢
      rcases List.mem_append.mp hm' with hm' | hm'
      · exact absurd hclub.symm (hold m' hm')
      · rw [List.mem_singleton.mp hm']
  · rw [hcount]
    split
    · rename_i hc
      have hzero : s.countMembers c = 0 := by
        refine List.countP_eq_zero.mpr fun m hm => ?_
        have hne := hold m hm
        simp only [decide_eq_true_eq]
        omega
      rw [hzero]
      decide
    · exact hs.size c
  · obtain ⟨m, hm, hr, hclub⟩ := h
    rw [hmembers] at hm
    rcases List.mem_append.mp hm with hm | hm
    · exact ⟨m, hm, hr, hclub⟩
    · rw [List.mem_singleton.mp hm] at hclub
      have heq : s.seq + 1 = c := hclub
      omega
  · rw [hcount, if_neg (by omega)]
    omega

/-- A member joins a club that is there and has room. -/
theorem add (hs : ClubsOK s) {userId : U} {clubId : ℕ} (hfree : s.memberOf userId = none)
    (hclub : (s.getClub clubId).isSome = true) (hroom : s.countMembers clubId < MAX_CLUB_MEMBERS)
    (hcritical : t.critical = some clubId) :
    ClubWrite s t { s.addMember userId clubId with joining := s.joining.filter (· ≠ clubId) } := by
  have hnew := ClubStore.memberOf_none hfree
  set row : ClubMember U := { userId, clubId, role := .member, joinedAt := s.now } with hrow
  have hcount : ∀ c,
      ({ s.addMember userId clubId with joining := s.joining.filter (· ≠ clubId) } : ClubStore U).countMembers c =
      s.countMembers c + if clubId = c then 1 else 0 := by
    intro c
    unfold ClubStore.countMembers ClubStore.addMember
    rw [List.countP_append, List.countP_singleton]
    simp
  refine ⟨⟨?_, fun m hm => ?_, hs.drawn, fun m hm m' hm' hr hr' hc => ?_, fun c => ?_⟩, Nat.le_refl _,
    fun c hc _ h => ?_, fun c hc hne => ?_, fun c hc hne => ?_⟩
  · show ((s.members ++ [row]).map (·.userId)).Nodup
    rw [List.map_append, List.nodup_append]
    refine ⟨hs.users, List.nodup_singleton _, fun x hx y hy => ?_⟩
    obtain ⟨m, hm, rfl⟩ := List.mem_map.mp hx
    rw [List.mem_singleton.mp hy]
    exact hnew m hm
  · rcases List.mem_append.mp hm with hm | hm
    · exact hs.named m hm
    · obtain ⟨c, hc⟩ := Option.isSome_iff_exists.mp hclub
      rw [List.mem_singleton.mp hm]
      exact ⟨c, List.mem_of_find?_eq_some hc, by simpa using List.find?_some hc⟩
  · rcases List.mem_append.mp hm with hm | hm
    · rcases List.mem_append.mp hm' with hm' | hm'
      · exact hs.founder m hm m' hm' hr hr' hc
      · rw [List.mem_singleton.mp hm'] at hr'
        cases hr'
    · rw [List.mem_singleton.mp hm] at hr
      cases hr
  · rw [hcount]
    split
    · rename_i hc
      subst hc
      omega
    · exact hs.size c
  · obtain ⟨m, hm, hr, hclub⟩ := h
    rcases List.mem_append.mp hm with hm | hm
    · exact ⟨m, hm, hr, hclub⟩
    · rw [List.mem_singleton.mp hm] at hr
      cases hr
  · have hother : clubId ≠ c := fun heq => hne (heq ▸ hcritical)
    rw [hcount, if_neg hother]
    omega
  · have hother : c ≠ clubId := fun heq => hne (heq ▸ hcritical)
    simpa [hother] using hc

/-- The heir of a club without a founder is promoted. -/
theorem promote (hs : ClubsOK s) {heir : U} {x : ClubMember U} (hxmem : x ∈ s.members) (hxuser : x.userId = heir)
    (hdebt : t.debt = some x.clubId) (howed : ¬s.HasFounder x.clubId) : ClubWrite s t (s.setRole heir) := by
  have hmem : ∀ m ∈ (s.setRole heir).members, ∃ y ∈ s.members, m.userId = y.userId ∧ m.clubId = y.clubId ∧
      (m.role = y.role ∨ y.userId = heir) := by
    intro m hm
    obtain ⟨y, hy, rfl⟩ := List.mem_map.mp hm
    split
    · rename_i hyheir
      exact ⟨y, hy, rfl, rfl, .inr hyheir⟩
    · exact ⟨y, hy, rfl, rfl, .inl rfl⟩
  have hheir : ∀ y ∈ s.members, y.userId = heir → y = x := fun y hy hyheir =>
    ClubStore.eq_of_user hs hy hxmem (hyheir.trans hxuser.symm)
  have hcount : ∀ c, (s.setRole heir).countMembers c = s.countMembers c := by
    intro c
    unfold ClubStore.countMembers ClubStore.setRole
    rw [List.countP_map]
    refine List.countP_congr fun y _ => ?_
    simp only [Function.comp]
    split
    · rfl
    · rfl
  -- the other founders are of other clubs
  have hfounder : ∀ m ∈ (s.setRole heir).members, m.role = .founder → (∃ y ∈ s.members, y.role = .founder ∧
      m.userId = y.userId ∧ m.clubId = y.clubId) ∨ m.userId = heir ∧ m.clubId = x.clubId := by
    intro m hm hr
    obtain ⟨y, hy, huser, hclub, hrole | hyheir⟩ := hmem m hm
    · exact .inl ⟨y, hy, hrole ▸ hr, huser, hclub⟩
    · obtain rfl := hheir y hy hyheir
      exact .inr ⟨huser.trans hyheir, hclub⟩
  refine ⟨⟨?_, fun m hm => ?_, hs.drawn, fun m hm m' hm' hr hr' hc => ?_, fun c => ?_⟩, Nat.le_refl _,
    fun c hc hne h => ?_, fun c _ _ => (hcount c).le, fun c hc _ => hc⟩
  · have husers : (s.setRole heir).members.map (·.userId) = s.members.map (·.userId) := by
      unfold ClubStore.setRole
      rw [List.map_map]
      refine List.map_congr_left fun y _ => ?_
      simp only [Function.comp]
      split
      · rfl
      · rfl
    rw [husers]
    exact hs.users
  · obtain ⟨y, hy, -, hclub, -⟩ := hmem m hm
    rw [hclub]
    exact hs.named y hy
  · rcases hfounder m hm hr with ⟨y, hy, hyr, huser, hclub⟩ | ⟨huser, hclub⟩
    · rcases hfounder m' hm' hr' with ⟨y', hy', hyr', huser', hclub'⟩ | ⟨-, hclub'⟩
      · rw [huser, huser']
        exact hs.founder y hy y' hy' hyr hyr' (hclub.symm.trans (hc.trans hclub'))
      · exact absurd ⟨y, hy, hyr, hclub.symm.trans (hc.trans hclub')⟩ howed
    · rcases hfounder m' hm' hr' with ⟨y', hy', hyr', -, hclub'⟩ | ⟨huser', -⟩
      · exact absurd ⟨y', hy', hyr', hclub'.symm.trans (hc.symm.trans hclub)⟩ howed
      · exact huser.trans huser'.symm
  · rw [hcount]
    exact hs.size c
  · obtain ⟨m, hm, hr, hclub⟩ := h
    rcases hfounder m hm hr with ⟨y, hy, hyr, -, hyc⟩ | ⟨-, hxc⟩
    · exact ⟨y, hy, hyr, hyc.symm.trans hclub⟩
    · exact absurd (hdebt.trans (congrArg some (hxc.symm.trans hclub))) hne

theorem remove (hs : ClubsOK s) (userId : U) : ClubWrite s t (s.removeMember userId) :=
  fewer hs (p := fun m => m.userId ≠ userId) rfl rfl (fun _ hc => hc) (fun m hm _ => hs.named m hm) rfl

omit [DecidableEq U] in
theorem close (hs : ClubsOK s) (clubId : ℕ) : ClubWrite s t (s.deleteClub clubId) := by
  refine fewer hs (p := fun m => m.clubId ≠ clubId) rfl rfl (fun c hc => (List.mem_filter.mp hc).1) (fun m hm hne => ?_) rfl
  obtain ⟨c, hc, hid⟩ := hs.named m hm
  have hother : m.clubId ≠ clubId := by simpa using hne
  exact ⟨c, List.mem_filter.mpr ⟨hc, by simpa [hid] using hother⟩, hid⟩

end ClubWrite

/-! ## What a step leaves -/

section Steps

omit [DecidableEq U]

variable {s s' : ClubStore U} {t t' : ClubTask U}

/-- What a step of a call keeps. -/
abbrev ClubStepped (s : ClubStore U) (t : ClubTask U) (s' : ClubStore U) (t' : ClubTask U) : Prop :=
  Crew.Stepped ClubsOK (fun s t => ClubTask.Knows s t) ClubTask.Apart (fun _ => True) s t s' t'

/-- What another call knows survives a write. -/
theorem ClubWrite.knows (h : ClubWrite s t s') {u : ClubTask U} (hu : u.Knows s) (htu : t.Apart u) : u.Knows s' where
  asked := hu.asked
  drawn c hc := (hu.drawn c hc).trans h.seq
  owed c hc hfounder := by
    refine hu.owed c hc (h.founder c (hu.drawn c (ClubTask.club_of_debt hc)) (fun heq => ?_) hfounder)
    exact htu.debt c heq hc
  room v c hphase := by
    have hcritical : u.critical = some c := by simp [ClubTask.critical, hphase]
    refine lt_of_le_of_lt (h.room c (hu.drawn c (ClubTask.club_of_critical hcritical)) fun heq => ?_) (hu.room v c hphase)
    exact htu.critical c heq hcritical
  held c hc := h.joining c (hu.held c hc) fun heq => htu.critical c heq hc

/-- The call comes to owe a founder only to a club that had one, and into a critical section only if it was free. -/
theorem ClubWrite.stepped (h : ClubWrite s t s') (hown : t'.Knows s')
    (hdebt : ∀ c, t'.debt = some c → t.debt = some c ∨ s.HasFounder c)
    (hcritical : ∀ c, t'.critical = some c → t.critical = some c ∨ c ∉ s.joining) : ClubStepped s t s' t' where
  store := h.ok
  own := hown
  others u hu htu hut _ := by
    have hd : ∀ c, t'.debt = some c → u.debt ≠ some c := by
      intro c hc huc
      rcases hdebt c hc with hold | hfounder
      · exact htu.debt c hold huc
      · exact hu.owed c huc hfounder
    have hk : ∀ c, t'.critical = some c → u.critical ≠ some c := by
      intro c hc huc
      rcases hcritical c hc with hold | hfree
      · exact htu.critical c hold huc
      · exact hfree (hu.held c huc)
    exact ⟨h.knows hu htu, ⟨hd, hk⟩, fun c huc hc => hd c hc huc, fun c huc hc => hk c hc huc⟩

theorem ClubTask.debt_of_club {t : ClubTask U} (h : t.club = none) (c : ℕ) : t.debt ≠ some c := by
  intro hc
  rw [ClubTask.club_of_debt hc] at h
  cases h

theorem ClubTask.critical_of_club {t : ClubTask U} (h : t.club = none) (c : ℕ) : t.critical ≠ some c := by
  intro hc
  rw [ClubTask.club_of_critical hc] at h
  cases h

/-- A call that has read no club, or has nothing to do with it any more. -/
theorem ClubTask.knows_of_club {t : ClubTask U} (h : t.club = none) (hasked : t.Asked) : t.Knows s where
  asked := hasked
  drawn c hc := by
    rw [h] at hc
    cases hc
  owed c hc := absurd hc (ClubTask.debt_of_club h c)
  room u c hphase := absurd (by simp [ClubTask.critical, hphase]) (ClubTask.critical_of_club h c)
  held c hc := absurd hc (ClubTask.critical_of_club h c)

theorem ClubWrite.ends (h : ClubWrite s t s') (hclub : t'.club = none) (hasked : t'.Asked) : ClubStepped s t s' t' :=
  h.stepped (ClubTask.knows_of_club hclub hasked) (fun c hc => absurd hc (ClubTask.debt_of_club hclub c))
    fun c hc => absurd hc (ClubTask.critical_of_club hclub c)

/-- The call reads on: it owes what it has owed, and is in the critical section it was in. -/
theorem ClubWrite.reads (hs : ClubsOK s) (ht : t.Knows s) (hasked : t'.Asked)
    (hclub : ∀ c, t'.club = some c → t.club = some c ∨ c ≤ s.seq) (hdebt : ∀ c, t'.debt = some c → t.debt = some c)
    (hcritical : ∀ c, t'.critical = some c → t.critical = some c)
    (hroom : ∀ u c, t'.phase = .addMember u c → s.countMembers c < MAX_CLUB_MEMBERS) : ClubStepped s t s t' := by
  refine (ClubWrite.same hs rfl rfl rfl fun _ h _ => h).stepped ⟨hasked, fun c hc => ?_, fun c hc => ht.owed c (hdebt c hc),
    hroom, fun c hc => ht.held c (hcritical c hc)⟩ (fun c hc => .inl (hdebt c hc)) fun c hc => .inl (hcritical c hc)
  rcases hclub c hc with hold | hle
  · exact ht.drawn c hold
  · exact hle

end Steps

/-! ## What a write finds -/

namespace ClubTask

variable {s : ClubStore U} {t : ClubTask U} {w : Bool} {m : ClubMember U} {u : U}

theorem current_create {tag : String} {isPrivate : Bool} (hphase : t.phase = .createClub u tag isPrivate)
    (htag : s.clubs.any (·.tag = tag.toUpper) = false) (hok : t.Current s w) :
    (s.createClub u tag.toUpper isPrivate).members =
      s.members ++ [{ userId := u, clubId := s.seq + 1, role := .founder, joinedAt := s.now }] := by
  unfold Current at hok
  simp only [hphase, htag, or_false, Bool.false_eq_true] at hok
  exact ClubStore.setMember_new (ClubStore.memberOf_none hok)

theorem current_member (hphase : t.phase = .removeMember m) (hok : t.Current s w) :
    ∃ x ∈ s.members, x.userId = m.userId ∧ x.clubId = m.clubId ∧ x.role = m.role := by
  unfold Current at hok
  simp only [hphase, Option.any_eq_true, decide_eq_true_eq] at hok
  obtain ⟨x, hx, hrest⟩ := hok
  obtain ⟨hmem, huser⟩ := ClubStore.memberOf_some hx
  exact ⟨x, hmem, huser, hrest⟩

theorem current_heir (hphase : t.phase = .setRole m u) (hok : t.Current s w) :
    ∃ x ∈ s.members, x.userId = u ∧ x.clubId = m.clubId := by
  unfold Current at hok
  simp only [hphase, Option.any_eq_true, decide_eq_true_eq] at hok
  obtain ⟨x, hx, hrest⟩ := hok
  obtain ⟨hmem, huser⟩ := ClubStore.memberOf_some hx
  exact ⟨x, hmem, huser, hrest⟩

theorem current_founder (hphase : t.phase = .setFounder m u) (hok : t.Current s w) :
    ∃ x ∈ s.members, x.userId = u ∧ x.clubId = m.clubId ∧ x.role = .founder := by
  unfold Current at hok
  simp only [hphase, Option.any_eq_true, decide_eq_true_eq] at hok
  obtain ⟨x, hx, hrest⟩ := hok
  obtain ⟨hmem, huser⟩ := ClubStore.memberOf_some hx
  exact ⟨x, hmem, huser, hrest⟩

end ClubTask

/-! ## The rules -/

section Rules

variable {s : ClubStore U} {t : ClubTask U} {w : Bool}

omit [DecidableEq U] in
theorem club_refused (hs : ClubsOK s) : ClubStepped s t (t.refuse s).2 (t.refuse s).1 :=
  (ClubWrite.same hs rfl rfl rfl fun _ h _ => h).ends rfl trivial

omit [DecidableEq U] in
theorem club_released (hs : ClubsOK s) {clubId : ℕ} (result : ClubResult) (hcritical : t.critical = some clubId) :
    ClubStepped s t (t.release s clubId result).2 (t.release s clubId result).1 := by
  have hwrite : ClubWrite s t (t.release s clubId result).2 := by
    refine .same hs rfl rfl rfl fun c hc hne => ?_
    have hother : c ≠ clubId := fun heq => hne (heq ▸ hcritical)
    simpa [ClubTask.release, hother] using hc
  exact hwrite.ends rfl trivial

omit [DecidableEq U] in
/-- The call waits for the joins of the club. -/
theorem club_queued (hs : ClubsOK s) (ht : t.Knows s) {userId : U} (huser : t.user = some userId) {c : Club U}
    (hc : c ∈ s.clubs) : ClubStepped s t s (t.goto (.queued userId c.id)) := by
  refine ClubWrite.reads hs ht huser (fun x hx => ?_) (fun x hx => ?_) (fun x hx => ?_) fun u x hphase => ?_
  · obtain rfl := Option.some.inj (show some c.id = some x from hx)
    exact .inr (hs.drawn c hc)
  · cases hx
  · cases hx
  · cases hphase

/-- The member leaves; the rest is listed next. -/
theorem club_removed (hs : ClubsOK s) (ht : t.Knows s) {m : ClubMember U} (hphase : t.phase = .removeMember m)
    (hok : t.Current s w) : ClubStepped s t (s.removeMember m.userId) (t.goto (.listMembers m)) := by
  obtain ⟨x, hxmem, hxuser, hxclub, hxrole⟩ := ClubTask.current_member hphase hok
  have hclub : t.club = some m.clubId := by simp [ClubTask.club, hphase]
  have hdebt : ∀ c, (t.goto (.listMembers m)).debt = some c → m.role = .founder ∧ m.clubId = c := by
    intro c hc
    unfold ClubTask.debt ClubTask.goto at hc
    simpa using hc
  have hasked := ht.asked
  unfold ClubTask.Asked at hasked
  rw [hphase] at hasked
  refine (ClubWrite.remove hs m.userId).stepped ⟨hasked, fun c hc => ?_, fun c hc hfounder => ?_, fun u c h => ?_,
    fun c hc => ?_⟩ (fun c hc => ?_) fun c hc => ?_
  · exact ht.drawn c (hclub.trans hc)
  · -- another founder would be a second one
    obtain ⟨hrole, rfl⟩ := hdebt c hc
    obtain ⟨y, hy, hyrole, hyclub⟩ := hfounder
    obtain ⟨hymem, hyuser⟩ := List.mem_filter.mp hy
    have heq := hs.founder y hymem x hxmem hyrole (hxrole.trans hrole) (hyclub.trans hxclub.symm)
    simp [heq, hxuser] at hyuser
  · cases h
  · cases hc
  · obtain ⟨hrole, rfl⟩ := hdebt c hc
    exact .inr ⟨x, hxmem, hxrole.trans hrole, hxclub⟩
  · cases hc

omit [DecidableEq U] in
/-- The oldest member left becomes the heir; with none, the club goes. -/
theorem club_inherited (hs : ClubsOK s) (ht : t.Knows s) {m : ClubMember U} (hphase : t.phase = .listMembers m)
    (rows : List (ClubMember U)) : ClubStepped s t (t.inherit s m rows).2 (t.inherit s m rows).1 := by
  have hasked := ht.asked
  unfold ClubTask.Asked at hasked
  rw [hphase] at hasked
  have hclub : t.club = some m.clubId := by simp [ClubTask.club, hphase]
  cases rows with
  | nil =>
    refine ClubWrite.reads hs ht hasked (fun c hc => .inl (hclub.trans hc)) (fun c hc => ?_) (fun c hc => ?_) fun u c h => ?_
    · unfold ClubTask.debt
      rw [hphase]
      exact hc
    · cases hc
    · cases h
  | cons heir _ =>
    by_cases hrole : m.role = .founder
    · simp only [ClubTask.inherit, if_pos hrole]
      refine ClubWrite.reads hs ht hasked (fun c hc => .inl (hclub.trans hc)) (fun c hc => ?_) (fun c hc => ?_)
        fun u c h => ?_
      · have hid : m.clubId = c := Option.some.inj hc
        simp [ClubTask.debt, hphase, hrole, hid]
      · cases hc
      · cases h
    · simp only [ClubTask.inherit, if_neg hrole]
      exact (ClubWrite.same hs rfl rfl rfl fun _ h _ => h).ends rfl trivial

/-- The heir's row says founder; the club's is next. -/
theorem club_promoted (hs : ClubsOK s) (ht : t.Knows s) {m : ClubMember U} {heir : U} (hphase : t.phase = .setRole m heir)
    (hok : t.Current s w) : ClubStepped s t (s.setRole heir) (t.goto (.setFounder m heir)) := by
  obtain ⟨x, hxmem, hxuser, hxclub⟩ := ClubTask.current_heir hphase hok
  have hclub : t.club = some m.clubId := by simp [ClubTask.club, hphase]
  have hdebt : t.debt = some x.clubId := by simp [ClubTask.debt, hphase, hxclub]
  have hasked := ht.asked
  unfold ClubTask.Asked at hasked
  rw [hphase] at hasked
  refine (ClubWrite.promote hs hxmem hxuser hdebt (ht.owed x.clubId hdebt)).stepped ⟨hasked, fun c hc => ?_, fun c hc => ?_,
    fun u c h => ?_, fun c hc => ?_⟩ (fun c hc => ?_) fun c hc => ?_
  · exact ht.drawn c (hclub.trans hc)
  · cases hc
  · cases h
  · cases hc
  · cases hc
  · cases hc

/-- **The steps of the clubs.** A write that finds what its call has read keeps what holds of the rows, of each
call, and of any two. -/
theorem club_rules : Crew.Paired (clubService (U := U)) ClubTask.Current (fun _ _ _ _ => True) ClubsOK
    (fun s t => ClubTask.Knows s t) ClubTask.Apart where
  entered s op _ := by
    cases op with
    | _ => exact ClubTask.knows_of_club rfl rfl
  entered_pair s op u _ hu := by
    have hclub : (ClubTask.enter op).club = none := by
      cases op with
      | _ => rfl
    exact ⟨⟨fun c hc => absurd hc (ClubTask.debt_of_club hclub c), fun c hc => absurd hc (ClubTask.critical_of_club hclub c)⟩,
      fun c _ => ClubTask.debt_of_club hclub c, fun c _ => ClubTask.critical_of_club hclub c⟩
  resumed s t w hs ht hok := by
    -- a refusal and a lookup write nothing
    have hidle := ClubWrite.same (t := t) hs rfl rfl rfl fun _ h _ => h
    show ClubStepped s t (t.resume s w).2 (t.resume s w).1
    obtain ⟨op, phase⟩ := t
    cases phase with
    | memberOfCreate u tag isPrivate =>
      simp only [ClubTask.resume]
      split
      · exact club_refused hs
      · exact hidle.ends rfl ht.asked
    | createClub u tag isPrivate =>
      simp only [ClubTask.resume]
      split
      · exact club_refused hs
      · rename_i htag
        -- the index decides: a tag taken in the meantime is refused
        rcases hok with hfree | htaken
        · exact (ClubWrite.create hs hfree tag.toUpper isPrivate).ends rfl trivial
        · exact absurd htaken htag
    | memberOfJoin u c =>
      simp only [ClubTask.resume]
      split
      · exact club_refused hs
      · exact hidle.ends rfl ht.asked
    | getClub u c =>
      simp only [ClubTask.resume]
      cases hc : s.getClub c with
      | none => exact club_refused hs
      | some x =>
        simp only [ClubTask.checkClub]
        split
        · exact club_refused hs
        · exact club_queued hs ht ht.asked (List.mem_of_find?_eq_some hc)
    | memberOfCode u code =>
      simp only [ClubTask.resume]
      split
      · exact club_refused hs
      · exact hidle.ends rfl ht.asked
    | getByCode u code =>
      simp only [ClubTask.resume]
      cases hc : s.getByCode code with
      | none => exact club_refused hs
      | some x => exact club_queued hs ht ht.asked (List.mem_of_find?_eq_some hc)
    | queued u c =>
      simp only [ClubTask.resume]
      split
      · exact hidle.stepped ht (fun _ h => .inl h) fun _ h => .inl h
      · rename_i hfree
        -- the club's chain is free: the join holds it from here on
        have hwrite : ClubWrite s ⟨op, .queued u c⟩ { s with joining := c :: s.joining } :=
          .same hs rfl rfl rfl fun x hx _ => List.mem_cons_of_mem c hx
        refine hwrite.stepped ⟨ht.asked, ht.drawn, fun x hx => ?_, fun v x h => ?_, fun x hx => ?_⟩ (fun x hx => ?_)
          fun x hx => ?_
        · cases hx
        · cases h
        · obtain rfl := Option.some.inj (show some c = some x from hx)
          exact List.mem_cons_self
        · cases hx
        · obtain rfl := Option.some.inj (show some c = some x from hx)
          exact .inr hfree
    | countMembers u c =>
      simp only [ClubTask.resume]
      split
      · exact club_released hs .refused rfl
      · rename_i hroom
        refine ClubWrite.reads hs ht ht.asked (fun _ h => .inl h) (fun _ h => h) (fun _ h => h) fun v x h => ?_
        injection h with _ hid
        subst hid
        omega
    | addMember u c =>
      simp only [ClubTask.resume]
      split
      · exact club_released hs .refused rfl
      · rename_i hfree
        have hnone : s.memberOf u = none := by simpa using hfree
        rcases hok with htaken | hclub
        · exact absurd htaken hfree
        · exact (ClubWrite.add hs hnone hclub (ht.room u c rfl) rfl).ends rfl trivial
    | memberOfLeave u =>
      simp only [ClubTask.resume]
      cases hm : s.memberOf u with
      | none => exact club_refused hs
      | some m =>
        obtain ⟨hmem, huser⟩ := ClubStore.memberOf_some hm
        have hasked : op = .leave m.userId := huser ▸ ht.asked
        refine ClubWrite.reads hs ht hasked (fun c hc => ?_) (fun _ h => by cases h) (fun _ h => by cases h) fun v x h => ?_
        · obtain rfl := Option.some.inj (show some m.clubId = some c from hc)
          exact .inr (hs.le_seq hmem)
        · cases h
    | removeMember m => exact club_removed hs ht rfl hok
    | listMembers m => exact club_inherited hs ht rfl _
    | deleteClub m => exact (ClubWrite.close hs m.clubId).ends rfl trivial
    | setRole m heir => exact club_promoted hs ht rfl hok
    | setFounder m heir =>
      -- the club names its founder, no member row changes
      have hwrite : ClubWrite s ⟨op, .setFounder m heir⟩ (s.setFounder m.clubId heir) := by
        refine .same hs rfl rfl ?_ fun _ h _ => h
        simp only [ClubStore.setFounder, List.map_map]
        refine List.map_congr_left fun x _ => ?_
        simp only [Function.comp]
        split
        · rfl
        · rfl
      exact hwrite.ends rfl trivial
    | getClosed c =>
      simp only [ClubTask.resume]
      split
      · exact hidle.ends rfl ht.asked
      · exact club_refused hs
    | closeClub c => exact (ClubWrite.close hs c).ends rfl trivial
    | ended r => exact hidle.stepped ht (fun _ h => .inl h) fun _ h => .inl h
  drifted s ms hs := ⟨hs.users, hs.named, hs.drawn, hs.founder, hs.size⟩
  drifted_task s ms u _ hu := ⟨hu.asked, hu.drawn, hu.owed, hu.room, hu.held⟩

end Rules

/-! ## What a call does to the rows -/

/-- A step of a call: it leaves the rows, or makes one of the writes. -/
inductive ClubMove (s : ClubStore U) (t : ClubTask U) (s' : ClubStore U) (t' : ClubTask U) : Prop where
  | reads (hmembers : s'.members = s.members) (hclubs : s'.clubs = s.clubs)
      (hdebt : ∀ c, t.debt = some c → t'.debt = some c) (hphase : ∀ m heir, t.phase ≠ .setFounder m heir)
      (hanswer : ∀ c, t'.phase = .ended (.created c) ∨ t'.phase = .ended (.joined c) → t'.phase = t.phase)
  | create (u : U) (tag : String) (isPrivate : Bool) (hphase : t.phase = .createClub u tag isPrivate)
      (htag : s.clubs.any (·.tag = tag.toUpper) = false) (hs : s' = s.createClub u tag.toUpper isPrivate)
      (ht : t' = t.goto (.ended (.created (s.seq + 1))))
  | add (u : U) (c : ℕ) (hphase : t.phase = .addMember u c) (hmembers : s'.members = (s.addMember u c).members)
      (hclubs : s'.clubs = s.clubs) (ht : t' = t.goto (.ended (.joined c)))
  | remove (m : ClubMember U) (hphase : t.phase = .removeMember m) (hs : s' = s.removeMember m.userId)
      (ht : t' = t.goto (.listMembers m))
  | delete (m : ClubMember U) (hphase : t.phase = .deleteClub m) (hs : s' = s.deleteClub m.clubId)
      (ht : t' = t.goto (.ended .left))
  | close (c : ℕ) (hphase : t.phase = .closeClub c) (hs : s' = s.deleteClub c) (ht : t' = t.goto (.ended .closed))
  | promote (m : ClubMember U) (heir : U) (hphase : t.phase = .setRole m heir) (hs : s' = s.setRole heir)
      (ht : t' = t.goto (.setFounder m heir))
  | name (m : ClubMember U) (heir : U) (hphase : t.phase = .setFounder m heir) (hs : s' = s.setFounder m.clubId heir)
      (ht : t' = t.goto (.ended .left))

/-- A read changes nothing that is known. -/
theorem club_reads {s s' : ClubStore U} {t t' : ClubTask U} (hmembers : s'.members = s.members) (hclubs : s'.clubs = s.clubs)
    (hdebt : t.debt = none) (hphase : ∀ m heir, t.phase ≠ .setFounder m heir)
    (hanswer : ∀ c, t'.phase ≠ .ended (.created c) ∧ t'.phase ≠ .ended (.joined c)) : ClubMove s t s' t' := by
  refine .reads hmembers hclubs (fun c hc => ?_) hphase fun c hc => ?_
  · rw [hdebt] at hc
    cases hc
  · rcases hc with hc | hc
    · exact absurd hc (hanswer c).1
    · exact absurd hc (hanswer c).2

/-- Every step of a call is one of the moves. -/
theorem club_moves (s : ClubStore U) (t : ClubTask U) (w : Bool) : ClubMove s t (t.resume s w).2 (t.resume s w).1 := by
  obtain ⟨op, phase⟩ := t
  cases phase with
  | createClub u tag isPrivate =>
    simp only [ClubTask.resume]
    split
    · exact club_reads rfl rfl rfl (by simp) (by simp [ClubTask.refuse, ClubTask.goto])
    · rename_i htag
      exact .create u tag isPrivate rfl (by simpa using htag) rfl rfl
  | addMember u c =>
    simp only [ClubTask.resume]
    split
    · exact club_reads rfl rfl rfl (by simp) (by simp [ClubTask.release, ClubTask.goto])
    · exact .add u c rfl rfl rfl rfl
  | removeMember m => exact .remove m rfl rfl rfl
  | listMembers m =>
    simp only [ClubTask.resume]
    cases s.listMembers m.clubId with
    | nil => exact .reads rfl rfl (fun _ h => h) (by simp) (by simp [ClubTask.inherit, ClubTask.goto])
    | cons heir _ =>
      simp only [ClubTask.inherit]
      refine .reads rfl rfl (fun c hc => ?_) (by simp) fun c hc => ?_
      · have hrole : m.role = .founder := by
          by_contra hother
          simp [ClubTask.debt, hother] at hc
        simpa [ClubTask.debt, ClubTask.goto, hrole] using hc
      · by_cases hrole : m.role = .founder
        · simp [ClubTask.goto, hrole] at hc
        · simp [ClubTask.goto, hrole] at hc
  | deleteClub m => exact .delete m rfl rfl rfl
  | setRole m heir => exact .promote m heir rfl rfl rfl
  | setFounder m heir => exact .name m heir rfl rfl rfl
  | closeClub c => exact .close c rfl rfl rfl
  | ended r => exact .reads rfl rfl (fun _ h => h) (by simp) fun _ _ => rfl
  | getClub u c =>
    simp only [ClubTask.resume]
    cases s.getClub c with
    | none => exact club_reads rfl rfl rfl (by simp) (by simp [ClubTask.checkClub, ClubTask.refuse, ClubTask.goto])
    | some x =>
      simp only [ClubTask.checkClub]
      split
      · exact club_reads rfl rfl rfl (by simp) (by simp [ClubTask.refuse, ClubTask.goto])
      · exact club_reads rfl rfl rfl (by simp) (by simp [ClubTask.goto])
  | getByCode u code =>
    simp only [ClubTask.resume]
    cases s.getByCode code with
    | none => exact club_reads rfl rfl rfl (by simp) (by simp [ClubTask.checkCode, ClubTask.refuse, ClubTask.goto])
    | some x => exact club_reads rfl rfl rfl (by simp) (by simp [ClubTask.checkCode, ClubTask.goto])
  | memberOfLeave u =>
    simp only [ClubTask.resume]
    cases s.memberOf u with
    | none => exact club_reads rfl rfl rfl (by simp) (by simp [ClubTask.checkMember, ClubTask.refuse, ClubTask.goto])
    | some m => exact club_reads rfl rfl rfl (by simp) (by simp [ClubTask.checkMember, ClubTask.goto])
  | _ =>
    -- the reads that only choose how to go on
    simp only [ClubTask.resume]
    split
    · exact club_reads rfl rfl rfl (by simp) (by simp [ClubTask.refuse, ClubTask.release, ClubTask.goto])
    · exact club_reads rfl rfl rfl (by simp) (by simp [ClubTask.refuse, ClubTask.goto])

/-! ## Founders that are owed -/

namespace ClubStore

omit [DecidableEq U] in
/-- The club is there and has no founder. -/
def Lacks (s : ClubStore U) (c : ℕ) : Prop := (∃ x ∈ s.clubs, x.id = c) ∧ ¬s.HasFounder c

omit [DecidableEq U] in
/-- The club does not name the user, who is its founder. -/
def Misnames (s : ClubStore U) (p : ℕ × U) : Prop :=
  (∃ x ∈ s.clubs, x.id = p.1 ∧ x.founderId ≠ p.2) ∧
    ∃ m ∈ s.members, m.userId = p.2 ∧ m.role = .founder ∧ m.clubId = p.1

variable {s s' : ClubStore U}

omit [DecidableEq U] in
theorem HasFounder.of_subset {c : ℕ} (hmembers : ∀ m ∈ s.members, m.clubId = c → m ∈ s'.members) (h : s.HasFounder c) :
    s'.HasFounder c := by
  obtain ⟨m, hm, hrole, hclub⟩ := h
  exact ⟨m, hmembers m hm hclub, hrole, hclub⟩

omit [DecidableEq U] in
theorem Misnames.of_subset {p : ℕ × U} (hclubs : ∀ x ∈ s'.clubs, x ∈ s.clubs)
    (hmembers : ∀ m ∈ s'.members, m.role = .founder → m ∈ s.members) (h : s'.Misnames p) : s.Misnames p := by
  obtain ⟨⟨x, hx, hid, hne⟩, m, hm, huser, hrole, hclub⟩ := h
  exact ⟨⟨x, hclubs x hx, hid, hne⟩, m, hmembers m hm hrole, huser, hrole, hclub⟩

end ClubStore

namespace ClubMove

variable {s s' : ClubStore U} {t t' : ClubTask U} {w : Bool}

/-- A club without its founder was so before, or the call owes it one. -/
theorem lacks (h : ClubMove s t s' t') (hs : ClubsOK s) (hok : t.Current s w) {c : ℕ} (hlacks : s'.Lacks c) :
    t'.debt = some c ∨ s.Lacks c ∧ t.debt ≠ some c := by
  obtain ⟨⟨x, hx, hid⟩, hnone⟩ := hlacks
  by_cases hdebt : t.debt = some c
  · left
    cases h with
    | reads hmembers hclubs hkeeps => exact hkeeps c hdebt
    | create u tag isPrivate hphase => simp [ClubTask.debt, hphase] at hdebt
    | add u k hphase => simp [ClubTask.debt, hphase] at hdebt
    | remove m hphase => simp [ClubTask.debt, hphase] at hdebt
    | delete m hphase hstore =>
      -- the club that lacks a founder has gone
      rw [hstore] at hx
      have hclub := ClubTask.club_of_debt hdebt
      have hne : x.id ≠ m.clubId := by simpa using (List.mem_filter.mp hx).2
      simp only [ClubTask.club, hphase, Option.some.injEq] at hclub
      omega
    | close k hphase => simp [ClubTask.debt, hphase] at hdebt
    | promote m heir hphase hstore =>
      rw [hstore] at hnone
      obtain ⟨y, hymem, hyuser, hyclub⟩ := ClubTask.current_heir hphase hok
      simp only [ClubTask.debt, hphase, Option.some.injEq] at hdebt
      refine absurd ⟨{ y with role := .founder }, List.mem_map.mpr ⟨y, hymem, ?_⟩, rfl, hyclub.trans hdebt⟩ hnone
      simp [hyuser]
    | name m heir hphase => simp [ClubTask.debt, hphase] at hdebt
  · cases h with
    | reads hmembers hclubs _ _ _ =>
      rw [hclubs] at hx
      exact .inr ⟨⟨⟨x, hx, hid⟩, fun h => hnone (h.of_subset fun m hm _ => hmembers ▸ hm)⟩, hdebt⟩
    | create u tag isPrivate hphase htag hstore =>
      have hmembers := ClubTask.current_create hphase htag hok
      rw [hstore] at hx hnone
      rcases List.mem_append.mp hx with hx | hx
      · refine .inr ⟨⟨⟨x, hx, hid⟩, fun h => hnone (h.of_subset fun m hm _ => ?_)⟩, hdebt⟩
        rw [hmembers]
        exact List.mem_append_left _ hm
      · rw [List.mem_singleton.mp hx] at hid
        refine absurd ⟨{ userId := u, clubId := s.seq + 1, role := .founder, joinedAt := s.now }, ?_, rfl, hid⟩ hnone
        rw [hmembers]
        exact List.mem_append_right _ List.mem_cons_self
    | add u k hphase hmembers hclubs =>
      rw [hclubs] at hx
      refine .inr ⟨⟨⟨x, hx, hid⟩, fun h => hnone (h.of_subset fun m hm _ => ?_)⟩, hdebt⟩
      rw [hmembers]
      exact List.mem_append_left _ hm
    | remove m hphase hstore htask =>
      rw [hstore] at hx hnone
      by_cases hgone : m.role = .founder ∧ m.clubId = c
      · left
        rw [htask]
        simp [ClubTask.debt, ClubTask.goto, hgone.1, hgone.2]
      · refine .inr ⟨⟨⟨x, hx, hid⟩, fun h => ?_⟩, hdebt⟩
        obtain ⟨y, hy, hyrole, hyclub⟩ := h
        obtain ⟨z, hzmem, hzuser, hzclub, hzrole⟩ := ClubTask.current_member hphase hok
        -- a founder of the club who has gone is the member of the call
        have hstays : y.userId ≠ m.userId := by
          intro heq
          obtain rfl := ClubStore.eq_of_user hs hy hzmem (heq.trans hzuser.symm)
          exact hgone ⟨hzrole.symm.trans hyrole, hzclub.symm.trans hyclub⟩
        exact hnone ⟨y, List.mem_filter.mpr ⟨hy, by simpa using hstays⟩, hyrole, hyclub⟩
    | delete m hphase hstore =>
      rw [hstore] at hx hnone
      obtain ⟨hxmem, hne⟩ := List.mem_filter.mp hx
      refine .inr ⟨⟨⟨x, hxmem, hid⟩, fun h => hnone (h.of_subset fun y hy hyclub => ?_)⟩, hdebt⟩
      exact List.mem_filter.mpr ⟨hy, by rw [hyclub, ← hid]; exact hne⟩
    | close k hphase hstore =>
      rw [hstore] at hx hnone
      obtain ⟨hxmem, hne⟩ := List.mem_filter.mp hx
      refine .inr ⟨⟨⟨x, hxmem, hid⟩, fun h => hnone (h.of_subset fun y hy hyclub => ?_)⟩, hdebt⟩
      exact List.mem_filter.mpr ⟨hy, by rw [hyclub, ← hid]; exact hne⟩
    | promote m heir hphase hstore =>
      rw [hstore] at hx hnone
      refine .inr ⟨⟨⟨x, hx, hid⟩, fun h => ?_⟩, hdebt⟩
      obtain ⟨y, hy, hyrole, hyclub⟩ := h
      refine hnone ⟨_, List.mem_map.mpr ⟨y, hy, rfl⟩, ?_⟩
      split
      · exact ⟨rfl, hyclub⟩
      · exact ⟨hyrole, hyclub⟩
    | name m heir hphase hstore =>
      rw [hstore] at hx hnone
      obtain ⟨y, hy, rfl⟩ := List.mem_map.mp hx
      refine .inr ⟨⟨⟨y, hy, ?_⟩, fun h => hnone (h.of_subset fun m hm _ => hm)⟩, hdebt⟩
      rw [← hid]
      split
      · rfl
      · rfl

/-- A club that does not name its founder did not before, or the call is about to name him. -/
theorem misnames (h : ClubMove s t s' t') (hs : ClubsOK s) (hok : t.Current s w) {c : ℕ} {f : U}
    (hmis : s'.Misnames (c, f)) :
    (∃ m, t'.phase = .setFounder m f ∧ m.clubId = c) ∨ s.Misnames (c, f) ∧ ¬∃ m, t.phase = .setFounder m f ∧ m.clubId = c := by
  -- only a naming serves such a debt
  have hother : ∀ {phase : ClubPhase U}, t.phase = phase → (∀ m heir, phase ≠ .setFounder m heir) →
      ¬∃ m, t.phase = .setFounder m f ∧ m.clubId = c := by
    rintro phase hphase hne ⟨m, hm, -⟩
    exact hne m f (hphase.symm.trans hm)
  cases h with
  | reads hmembers hclubs _ hphase _ =>
    refine .inr ⟨hmis.of_subset (fun x hx => hclubs ▸ hx) (fun m hm _ => hmembers ▸ hm), ?_⟩
    rintro ⟨m, hm, -⟩
    exact hphase m f hm
  | create u tag isPrivate hphase htag hstore =>
    refine .inr ⟨?_, hother hphase (by simp)⟩
    have hmembers := ClubTask.current_create hphase htag hok
    rw [hstore] at hmis
    obtain ⟨⟨x, hx, hid, hne⟩, m, hm, huser, hrole, hclub⟩ := hmis
    simp only at hid hne huser hclub
    rw [hmembers] at hm
    rcases List.mem_append.mp hx with hx | hx
    · have hdrawn := hs.drawn x hx
      rcases List.mem_append.mp hm with hm | hm
      · exact ⟨⟨x, hx, hid, hne⟩, m, hm, huser, hrole, hclub⟩
      · rw [List.mem_singleton.mp hm] at hclub
        simp only at hclub
        omega
    · rw [List.mem_singleton.mp hx] at hid hne
      rcases List.mem_append.mp hm with hm | hm
      · have hdrawn := hs.le_seq hm
        simp only at hid
        omega
      · rw [List.mem_singleton.mp hm] at huser
        exact absurd huser hne
  | add u k hphase hmembers hclubs =>
    refine .inr ⟨hmis.of_subset (fun x hx => hclubs ▸ hx) (fun m hm hrole => ?_), hother hphase (by simp)⟩
    rw [hmembers] at hm
    rcases List.mem_append.mp hm with hm | hm
    · exact hm
    · rw [List.mem_singleton.mp hm] at hrole
      cases hrole
  | remove m hphase hstore =>
    rw [hstore] at hmis
    exact .inr ⟨hmis.of_subset (fun x (hx : x ∈ (s.removeMember m.userId).clubs) => hx)
      (fun y hy _ => (List.mem_filter.mp hy).1), hother hphase (by simp)⟩
  | delete m hphase hstore =>
    rw [hstore] at hmis
    exact .inr ⟨hmis.of_subset (fun x hx => (List.mem_filter.mp hx).1) (fun y hy _ => (List.mem_filter.mp hy).1),
      hother hphase (by simp)⟩
  | close k hphase hstore =>
    rw [hstore] at hmis
    exact .inr ⟨hmis.of_subset (fun x hx => (List.mem_filter.mp hx).1) (fun y hy _ => (List.mem_filter.mp hy).1),
      hother hphase (by simp)⟩
  | promote m heir hphase hstore htask =>
    rw [hstore] at hmis
    rw [htask]
    obtain ⟨⟨x, hx, hid, hne⟩, y, hy, huser, hrole, hclub⟩ := hmis
    obtain ⟨z, hz, rfl⟩ := List.mem_map.mp hy
    by_cases hheir : z.userId = heir
    · left
      obtain ⟨v, hvmem, hvuser, hvclub⟩ := ClubTask.current_heir hphase hok
      obtain rfl := ClubStore.eq_of_user hs hz hvmem (hheir.trans hvuser.symm)
      simp only [if_pos hheir] at huser hclub
      subst huser
      exact ⟨m, by rw [hheir]; rfl, hvclub.symm.trans hclub⟩
    · rw [if_neg hheir] at huser hrole hclub
      exact .inr ⟨⟨⟨x, hx, hid, hne⟩, z, hz, huser, hrole, hclub⟩, hother hphase (by simp)⟩
  | name m heir hphase hstore =>
    rw [hstore] at hmis
    obtain ⟨⟨x, hx, hid, hne⟩, y, hy, huser, hrole, hclub⟩ := hmis
    obtain ⟨z, hz, rfl⟩ := List.mem_map.mp hx
    simp only at hid hne huser hclub
    by_cases hzclub : z.id = m.clubId
    · -- the club is the heir's, and it has no other founder
      obtain ⟨v, hvmem, hvuser, hvclub, hvrole⟩ := ClubTask.current_founder hphase hok
      simp only [if_pos hzclub] at hid hne
      have hsame := hs.founder v hvmem y hy hvrole hrole (hvclub.trans (hzclub.symm.trans (hid.trans hclub.symm)))
      exact absurd (hvuser.symm.trans (hsame.trans huser)) hne
    · simp only [if_neg hzclub] at hid hne
      refine .inr ⟨⟨⟨z, hz, hid, hne⟩, y, hy, huser, hrole, hclub⟩, ?_⟩
      rintro ⟨m', hm', hm'club⟩
      rw [hphase] at hm'
      injection hm' with hmm
      subst hmm
      exact hzclub (hid.trans hm'club.symm)

end ClubMove

theorem founder_repaid : Crew.Repaid (clubService (U := U)) ClubTask.Current ClubsOK (fun s t => ClubTask.Knows s t)
    ClubStore.Lacks (fun t c => t.debt = some c) where
  resumed s t w _ hs _ hok h := (club_moves s t w).lacks hs hok h
  drifted _ _ _ h := h

theorem founderId_repaid : Crew.Repaid (clubService (U := U)) ClubTask.Current ClubsOK (fun s t => ClubTask.Knows s t)
    ClubStore.Misnames (fun t p => ∃ m, t.phase = .setFounder m p.2 ∧ m.clubId = p.1) where
  resumed s t w _ hs _ hok h := (club_moves s t w).misnames hs hok h
  drifted _ _ _ h := h

/-! ## Answers that stand -/

/-- The store, and the calls under way. -/
abbrev ClubState (U : Type) := Crew.State (ClubStore U) (ClubTask U)

/-- What happens to the clubs. -/
abbrev ClubEvent (U : Type) := Crew.Event (ClubOp U) Bool ℕ

namespace ClubStore

omit [DecidableEq U] in
/-- The user is a member of the club. -/
def Seats (s : ClubStore U) (u : U) (c : ℕ) : Prop := ∃ x ∈ s.members, x.userId = u ∧ x.clubId = c

end ClubStore

/-- The step answers a create or a join of the user with success. -/
def Answers (s : ClubState U) (u : U) (c : ℕ) : ClubEvent U → Prop
  | .resume k w => ∃ t, s.tasks[k]? = some t ∧ t.user = some u ∧ (t.resume s.store w).1.phase ≠ t.phase ∧
      ((t.resume s.store w).1.phase = .ended (.created c) ∨ (t.resume s.store w).1.phase = .ended (.joined c))
  | _ => False

omit [DecidableEq U] in
/-- The user leaves the club, or an admin closes it. -/
def Undoes (s : ClubState U) (u : U) (c : ℕ) : ClubEvent U → Prop
  | .resume k _ => ∃ t, s.tasks[k]? = some t ∧ ((t.op = .leave u ∧ ∃ m, t.phase = .removeMember m ∧ m.clubId = c) ∨
      (t.op = .adminClose c ∧ t.phase = .closeClub c))
  | _ => False

namespace ClubMove

variable {s s' : ClubStore U} {t t' : ClubTask U} {w : Bool} {u : U} {c : ℕ}

/-- A member goes who leaves, or whose club an admin closes. -/
theorem seats (h : ClubMove s t s' t') (hs : ClubsOK s) (ht : t.Knows s) (hok : t.Current s w) (hx : s.Seats u c) :
    s'.Seats u c ∨ (t.op = .leave u ∧ ∃ m, t.phase = .removeMember m ∧ m.clubId = c) ∨
      (t.op = .adminClose c ∧ t.phase = .closeClub c) := by
  obtain ⟨x, hxmem, hxuser, hxclub⟩ := hx
  have hasked := ht.asked
  cases h with
  | reads hmembers => exact .inl ⟨x, hmembers ▸ hxmem, hxuser, hxclub⟩
  | create v tag isPrivate hphase htag hstore =>
    left
    rw [hstore]
    refine ⟨x, ?_, hxuser, hxclub⟩
    rw [ClubTask.current_create hphase htag hok]
    exact List.mem_append_left _ hxmem
  | add v k hphase hmembers =>
    left
    refine ⟨x, ?_, hxuser, hxclub⟩
    rw [hmembers]
    exact List.mem_append_left _ hxmem
  | remove m hphase hstore =>
    by_cases hgone : x.userId = m.userId
    · obtain ⟨z, hz, hzuser, hzclub, -⟩ := ClubTask.current_member hphase hok
      obtain rfl := ClubStore.eq_of_user hs hxmem hz (hgone.trans hzuser.symm)
      unfold ClubTask.Asked at hasked
      rw [hphase] at hasked
      refine .inr (.inl ⟨?_, m, hphase, hzclub.symm.trans hxclub⟩)
      rw [← hxuser, hzuser]
      exact hasked
    · left
      rw [hstore]
      exact ⟨x, List.mem_filter.mpr ⟨hxmem, by simpa using hgone⟩, hxuser, hxclub⟩
  | delete m hphase hstore =>
    -- the club is still empty
    left
    unfold ClubTask.Current at hok
    rw [hphase] at hok
    have hother := ClubStore.countMembers_zero hok x hxmem
    rw [hstore]
    exact ⟨x, List.mem_filter.mpr ⟨hxmem, by simpa using hother⟩, hxuser, hxclub⟩
  | close k hphase hstore =>
    by_cases hgone : x.clubId = k
    · unfold ClubTask.Asked at hasked
      rw [hphase] at hasked
      rw [hxclub] at hgone
      subst hgone
      exact .inr (.inr ⟨hasked, hphase⟩)
    · left
      rw [hstore]
      exact ⟨x, List.mem_filter.mpr ⟨hxmem, by simpa using hgone⟩, hxuser, hxclub⟩
  | promote m heir hphase hstore =>
    left
    rw [hstore]
    refine ⟨_, List.mem_map.mpr ⟨x, hxmem, rfl⟩, ?_⟩
    split
    · exact ⟨hxuser, hxclub⟩
    · exact ⟨hxuser, hxclub⟩
  | name m heir hphase hstore =>
    left
    rw [hstore]
    exact ⟨x, hxmem, hxuser, hxclub⟩

/-- A call answers created or joined once the row is there. -/
theorem answers (h : ClubMove s t s' t') (ht : t.Knows s) (hok : t.Current s w) (huser : t.user = some u)
    (hnew : t'.phase ≠ t.phase) (hc : t'.phase = .ended (.created c) ∨ t'.phase = .ended (.joined c)) : s'.Seats u c := by
  have hasked := ht.asked
  cases h with
  | reads hmembers hclubs hdebt hphase hanswer => exact absurd (hanswer c hc) hnew
  | create v tag isPrivate hphase htag hstore htask =>
    unfold ClubTask.Asked at hasked
    rw [hphase] at hasked
    obtain rfl := Option.some.inj (huser.symm.trans hasked)
    have hid : s.seq + 1 = c := by
      rw [htask] at hc
      simpa [ClubTask.goto] using hc
    rw [hstore]
    refine ⟨{ userId := u, clubId := s.seq + 1, role := .founder, joinedAt := s.now }, ?_, rfl, hid⟩
    rw [ClubTask.current_create hphase htag hok]
    exact List.mem_append_right _ List.mem_cons_self
  | add v k hphase hmembers hclubs htask =>
    unfold ClubTask.Asked at hasked
    rw [hphase] at hasked
    obtain rfl := Option.some.inj (huser.symm.trans hasked)
    have hid : k = c := by
      rw [htask] at hc
      simpa [ClubTask.goto] using hc
    refine ⟨{ userId := u, clubId := k, role := .member, joinedAt := s.now }, ?_, rfl, hid⟩
    rw [hmembers]
    exact List.mem_append_right _ List.mem_cons_self
  | remove m hphase hstore htask =>
    rw [htask] at hc
    simp [ClubTask.goto] at hc
  | delete m hphase hstore htask =>
    rw [htask] at hc
    simp [ClubTask.goto] at hc
  | close k hphase hstore htask =>
    rw [htask] at hc
    simp [ClubTask.goto] at hc
  | promote m heir hphase hstore htask =>
    rw [htask] at hc
    simp [ClubTask.goto] at hc
  | name m heir hphase hstore htask =>
    rw [htask] at hc
    simp [ClubTask.goto] at hc

end ClubMove

/-! ## The law of the clubs -/

/-- No call is in flight. -/
def ClubTask.ended (t : ClubTask U) : Bool :=
  match t.phase with
  | .ended _ => true
  | _ => false

/-- Each club has members, not too many, and one founder, whom it names; each member is of a club. -/
structure ClubLaw (s : ClubStore U) : Prop where
  size : ∀ c ∈ s.clubs, 1 ≤ s.countMembers c.id ∧ s.countMembers c.id ≤ MAX_CLUB_MEMBERS
  founder : ∀ c ∈ s.clubs, (s.members.filter fun m => m.clubId = c.id ∧ m.role = .founder).map (·.userId) = [c.founderId]
  named : ∀ m ∈ s.members, ∃ c ∈ s.clubs, c.id = m.clubId

/-- What holds along the runs. -/
structure ClubHolds (s : ClubState U) : Prop where
  holds : Crew.Holds ClubsOK (fun s t => ClubTask.Knows s t) ClubTask.Apart s
  founder : Crew.Covered ClubStore.Lacks (fun t c => t.debt = some c) s
  founderId : Crew.Covered ClubStore.Misnames (fun t p => ∃ m, t.phase = .setFounder m p.2 ∧ m.clubId = p.1) s

theorem ClubHolds.step {s : ClubState U} (h : ClubHolds s) {e : ClubEvent U} (hok : Crew.Meets ClubTask.Current s e) :
    ClubHolds (clubService.step s e) where
  holds := club_rules.step h.holds (Crew.meetsBeside_of_meets hok)
  founder := founder_repaid.step h.holds.store h.holds.task h.founder hok
  founderId := founderId_repaid.step h.holds.store h.holds.task h.founderId hok

omit [DecidableEq U] in
/-- With no club, the law holds. -/
theorem clubHolds_empty (now : ℕ) : ClubHolds (U := U) { store := { now } } where
  holds := by
    refine ⟨⟨List.nodup_nil, fun m hm => (by cases hm), fun c hc => (by cases hc), fun m hm => (by cases hm),
      fun c => Nat.zero_le _⟩, fun t ht => (by cases ht), fun i j t u _ ht => (by cases ht)⟩
  founder := by
    rintro c ⟨⟨x, hx, -⟩, -⟩
    cases hx
  founderId := by
    rintro p ⟨⟨x, hx, -⟩, -⟩
    cases hx

/-- A club without its founder, or one that does not name him, would have a call under way. -/
theorem ClubHolds.law {s : ClubState U} (h : ClubHolds s) (hquiet : ∀ t ∈ s.tasks, t.ended = true) : ClubLaw s.store := by
  have hok := h.holds.store
  have hfounder : ∀ c ∈ s.store.clubs, s.store.HasFounder c.id := by
    intro c hc
    by_contra hnone
    obtain ⟨t, ht, hdebt⟩ := h.founder c.id ⟨⟨c, hc, rfl⟩, hnone⟩
    have hended := hquiet t ht
    unfold ClubTask.ended at hended
    unfold ClubTask.debt at hdebt
    split at hended
    · rename_i hphase
      simp [hphase] at hdebt
    · cases hended
  refine ⟨fun c hc => ⟨?_, hok.size c.id⟩, fun c hc => ?_, hok.named⟩
  · obtain ⟨m, hm, -, hclub⟩ := hfounder c hc
    exact ClubStore.countMembers_pos hm hclub
  · obtain ⟨m, hm, hrole, hclub⟩ := hfounder c hc
    have hnamed : c.founderId = m.userId := by
      by_contra hne
      obtain ⟨t, ht, x, hphase, -⟩ := h.founderId (c.id, m.userId) ⟨⟨c, hc, rfl, hne⟩, m, hm, rfl, hrole, hclub⟩
      have hended := hquiet t ht
      simp [ClubTask.ended, hphase] at hended
    have honly : (s.store.members.filter fun x => x.clubId = c.id ∧ x.role = .founder) = [m] := by
      have hnodup : (s.store.members.filter fun x => x.clubId = c.id ∧ x.role = .founder).Nodup :=
        (List.Nodup.of_map _ hok.users).filter _
      by_contra hne
      rcases (hnodup.ne_singleton_iff m).mp hne with hnil | ⟨y, hy, hym⟩
      · have hmem : m ∈ s.store.members.filter fun x => x.clubId = c.id ∧ x.role = .founder :=
          List.mem_filter.mpr ⟨hm, by simp [hclub, hrole]⟩
        rw [hnil] at hmem
        cases hmem
      · obtain ⟨hymem, hyfounder⟩ := List.mem_filter.mp hy
        have hyc : y.clubId = c.id ∧ y.role = .founder := by simpa using hyfounder
        have hsame := hok.founder y hymem m hm hyc.2 hrole (hyc.1.trans hclub.symm)
        exact hym (ClubStore.eq_of_user hok hymem hm hsame)
    rw [honly, hnamed]
    rfl

/-- A member stays until he leaves, or an admin closes the club. -/
theorem ClubHolds.stays {u : U} {c : ℕ} : ∀ {es : List (ClubEvent U)} {s : ClubState U}, ClubHolds s →
    Guarded clubService.step (Crew.Meets ClubTask.Current) s es → s.store.Seats u c →
    (run clubService.step s es).store.Seats u c ∨
      ∃ before e after, es = before ++ e :: after ∧ Undoes (run clubService.step s before) u c e := by
  intro es
  induction es with
  | nil => exact fun _ _ hseats => .inl hseats
  | cons e es ih =>
    intro s h hg hseats
    have hnext : (clubService.step s e).store.Seats u c ∨ Undoes s u c e := by
      cases e with
      | enter op => exact .inl hseats
      | drift ms => exact .inl hseats
      | resume k w =>
        rcases clubService.resume_cases s k w with hsame | ⟨t, hk, hstep⟩
        · rw [hsame]
          exact .inl hseats
        · rw [hstep]
          rcases (club_moves s.store t w).seats h.holds.store (h.holds.task t (List.mem_of_getElem? hk)) (hg.1 t hk) hseats
            with hstay | hgone
          · exact .inl hstay
          · exact .inr ⟨t, hk, hgone⟩
    rcases hnext with hstay | hgone
    · rcases ih (h.step hg.1) hg.2 hstay with hlast | ⟨before, e', after, rfl, hundoes⟩
      · exact .inl hlast
      · exact .inr ⟨e :: before, e', after, rfl, hundoes⟩
    · exact .inr ⟨[], e, es, rfl, hgone⟩

/-- After the answer, the user is a member. -/
theorem ClubHolds.answered {s : ClubState U} (h : ClubHolds s) {e : ClubEvent U} (hok : Crew.Meets ClubTask.Current s e)
    {u : U} {c : ℕ} (ha : Answers s u c e) : (clubService.step s e).store.Seats u c := by
  cases e with
  | enter op => cases ha
  | drift ms => cases ha
  | resume k w =>
    obtain ⟨t, hk, huser, hnew, hc⟩ := ha
    have hstep : clubService.step s (.resume k w) =
        { store := (t.resume s.store w).2, tasks := s.tasks.set k (t.resume s.store w).1 } := by
      simp [Crew.step, hk, clubService]
    rw [hstep]
    exact (club_moves s.store t w).answers (h.holds.task t (List.mem_of_getElem? hk)) (hok t hk) huser hnew hc

/-- **Clubs keep their law** in every state without a call in flight, and a member whose create or join was answered
with success stays until he leaves or an admin closes the club; if each write finds what its call has read. -/
theorem clubs_keep_their_law (now : ℕ) {es : List (ClubEvent U)}
    (hg : Guarded clubService.step (Crew.Meets ClubTask.Current) { store := { now } } es) :
    ((∀ t ∈ (run clubService.step { store := { now } } es).tasks, t.ended = true) →
      ClubLaw (run clubService.step { store := { now } } es).store) ∧
    ∀ before e after u c, es = before ++ e :: after → Answers (run clubService.step { store := { now } } before) u c e →
      (run clubService.step { store := { now } } es).store.Seats u c ∨
        ∃ between e' rest, after = between ++ e' :: rest ∧
          Undoes (run clubService.step { store := { now } } (before ++ e :: between)) u c e' := by
  have hstart := clubHolds_empty (U := U) now
  refine ⟨fun hquiet => ?_, fun before e after u c hes ha => ?_⟩
  · exact (guarded_inv (P := ClubHolds) (fun _ _ h hok => h.step hok) hstart es hg).law hquiet
  · subst hes
    obtain ⟨hbefore, he, hafter⟩ := (guarded_append _ _ _).mp hg
    have hholds := guarded_inv (P := ClubHolds) (fun _ _ h hok => h.step hok) hstart before hbefore
    rw [run_append, run_cons]
    rcases (hholds.step he).stays hafter (hholds.answered he ha) with hstay | ⟨between, e', rest, hrest, hundoes⟩
    · exact .inl hstay
    · refine .inr ⟨between, e', rest, hrest, ?_⟩
      rw [run_append, run_cons]
      exact hundoes

/-- Two members join side by side, and the founder leaves while the second is still joining. -/
def founderLeaves : List (ClubEvent ℕ) :=
  [.enter (.create 1 "besa" false), .resume 0 true, .resume 0 true,
    .enter (.join 2 1), .enter (.join 3 1), .resume 1 true, .resume 2 true, .resume 1 true, .resume 2 true, .resume 1 true,
    .resume 1 true, .resume 1 true, .enter (.leave 1), .resume 2 true, .resume 3 true, .resume 2 true, .resume 3 true,
    .resume 3 true, .resume 2 true, .resume 3 true, .resume 3 true]

/-- The founder leaves while another joins: the heir is founder. -/
theorem clubs_keep_their_law_heir :
    ClubLaw (run clubService.step { store := { now := 0 } } founderLeaves).store ∧
      (run clubService.step { store := { now := 0 } } founderLeaves).store.clubs.map (·.founderId) = [2] ∧
      (run clubService.step { store := { now := 0 } } founderLeaves).store.members.map (fun m => (m.userId, m.role)) =
        [(2, .founder), (3, .member)] := by
  have hg : Guarded clubService.step (Crew.Meets ClubTask.Current) { store := { now := 0 } } founderLeaves := by
    decide +kernel
  exact ⟨(clubs_keep_their_law 0 hg).1 (by decide +kernel), by decide +kernel, by decide +kernel⟩

/-- The founder leaves, and so does the heir he has found, before he is promoted. -/
def heirLeaves : List (ClubEvent ℕ) :=
  [.enter (.create 1 "besa" false), .resume 0 true, .resume 0 true,
    .enter (.join 2 1), .resume 1 true, .resume 1 true, .resume 1 true, .resume 1 true, .resume 1 true,
    .enter (.join 3 1), .resume 2 true, .resume 2 true, .resume 2 true, .resume 2 true, .resume 2 true,
    .enter (.leave 1), .resume 3 true, .resume 3 true, .resume 3 true,
    .enter (.leave 2), .resume 4 true, .resume 4 true, .resume 4 true,
    .resume 3 true, .resume 3 true]

/-- **A club without its founder**: no call is in flight, the club names one who has left, and its member is no founder. -/
theorem club_without_founder :
    (∀ t ∈ (run clubService.step { store := { now := 0 } } heirLeaves).tasks, t.ended = true) ∧
      (run clubService.step { store := { now := 0 } } heirLeaves).store.clubs.map (fun c => (c.id, c.founderId)) = [(1, 2)] ∧
      (run clubService.step { store := { now := 0 } } heirLeaves).store.members.map (fun m => (m.userId, m.clubId, m.role)) =
        [(3, 1, .member)] ∧
      ¬ClubLaw (run clubService.step { store := { now := 0 } } heirLeaves).store := by
  have hclubs : (run clubService.step { store := { now := 0 } } heirLeaves).store.clubs =
      [{ id := 1, tag := "BESA", founderId := 2, isPrivate := false, joinCode := none }] := by decide +kernel
  have hnone : ((run clubService.step { store := { now := 0 } } heirLeaves).store.members.filter fun m =>
      m.clubId = 1 ∧ m.role = .founder).map (·.userId) = [] := by decide +kernel
  refine ⟨by decide +kernel, by decide +kernel, by decide +kernel, fun h => ?_⟩
  have hlaw := h.founder _ (hclubs ▸ List.mem_cons_self)
  exact absurd (hnone.symm.trans hlaw) (by simp)

end Murlan
