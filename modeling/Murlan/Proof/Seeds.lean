import Murlan.Proof.FairDeal

/-!
# The life of a seed

* `live_seeds_hidden_iff`: in every state of a run the seeds of the matches that are played are
  hidden, exactly when no end publishes while its room plays the next match.
* `seeds_published_iff`: if a room starts nothing before its last match is through, no match ends
  twice, and the seeds of a match that has ended are published exactly when the end was announced,
  or voided in a room that was still there.
-/

namespace Murlan

/-- What is new in the rows when a game is dealt. -/
theorem ReplayStore.mem_recorded {M : Type} [DecidableEq M] {s : ReplayStore M} {g row : GameRecord M} {practice : Bool}
    (h : row ∈ (if practice then s else s.recordGame g).games) : row ∈ s.games ∨ row = { g with revealed := false } := by
  unfold ReplayStore.recordGame at h
  split_ifs at h
  · exact .inl h
  · exact .inl h
  · simpa using h

theorem ReplayStore.mem_recorded_of {M : Type} [DecidableEq M] {s : ReplayStore M} {g row : GameRecord M} (practice : Bool)
    (h : row ∈ s.games) : row ∈ (if practice then s else s.recordGame g).games := by
  unfold ReplayStore.recordGame
  split_ifs
  · exact h
  · exact h
  · exact List.mem_append_left _ h

namespace FairServer

variable {H : Hashes} {money : Bool} {b : ℕ → Birth} {s s' : FairServer} {i j k x : ℕ} {m : FairMatch} {p : Bool}

/-- Nothing of the seeds of a match has been sent, and nothing is served. -/
structure Hidden (s : FairServer) (m : FairMatch) : Prop where
  unsent : ∀ j r id, .reveal j m.shuffle r id ∉ s.notes
  unserved : ∀ row ∈ s.games.games, row.matchId = m.matchId → row.revealed = false

/-- The seeds of all matches that are played are hidden. -/
def Secret (s : FairServer) : Prop := ∀ i m, s.live i = some m → s.Hidden m

/-- Exactly when no end publishes in a room that plays. -/
def Discreet (s : FairServer) : FairEvent → Prop
  | .resume k answer room =>
    ∀ y, s.endings k = some y → y.stage.publishes answer room = true → s.live y.roomId = none
  | _ => True

/-- The shuffle of a room is that of its match, unless it has been revealed. -/
def Bound (s : FairServer) : Prop :=
  ∀ i m, s.live i = some m → s.fairness.byRoom i = some m.shuffle ∨ ∃ r id, .reveal i m.shuffle r id ∈ s.notes

/-! ## Steps that deal and reveal nothing -/

/-- A step that at most commits to a seed. -/
structure Quiet (s s' : FairServer) : Prop where
  live : s'.live = s.live
  byRoom : s'.fairness.byRoom = s.fairness.byRoom
  games : s'.games = s.games
  endings : s'.endings = s.endings
  exits : s'.exits = s.exits
  notes : s'.notes = s.notes ∨ ∃ i hash, s'.notes = s.notes ++ [.commit i hash]

namespace Quiet

theorem refl (s : FairServer) : Quiet s s := ⟨rfl, rfl, rfl, rfl, rfl, .inl rfl⟩

theorem reveal_mem (h : Quiet s s') {r : FairReveal} {id : Option MatchId} :
    .reveal i x r id ∈ s'.notes ↔ .reveal i x r id ∈ s.notes := by
  rcases h.notes with heq | ⟨j, hash, heq⟩
  · rw [heq]
  · rw [heq]
    simp

theorem hidden (h : Quiet s s') (hm : s.Hidden m) : s'.Hidden m := by
  refine ⟨fun j r id hr => hm.unsent j r id (h.reveal_mem.1 hr), ?_⟩
  rw [h.games]
  exact hm.unserved

theorem secret (h : Quiet s s') (hs : s.Secret) : s'.Secret := by
  intro i m hl
  rw [h.live] at hl
  exact h.hidden (hs i m hl)

theorem bound (h : Quiet s s') (hb : s.Bound) : s'.Bound := by
  intro i m hl
  rw [h.live] at hl
  rw [h.byRoom]
  rcases hb i m hl with hx | ⟨r, id, hr⟩
  · exact .inl hx
  · exact .inr ⟨r, id, h.reveal_mem.2 hr⟩

end Quiet

/-- A step that issues no match id either; a start may return. -/
structure Still (s s' : FairServer) : Prop extends Quiet s s' where
  starts : ∀ k y, s'.starts k = some y → s.starts k = some y
  matchIds : s'.matchIds = s.matchIds
  closed : s'.closed = s.closed
  matchSeq : s'.matchSeq = s.matchSeq
  finalized : s'.finalized = s.finalized
  nextEnding : s'.nextEnding = s.nextEnding
  nextShuffle : s'.nextShuffle = s.nextShuffle

theorem Still.refl (s : FairServer) : Still s s := ⟨.refl s, fun _ _ => id, rfl, rfl, rfl, rfl, rfl, rfl⟩

theorem note_commit_still (s : FairServer) (i : ℕ) (hash : String) : Still s (s.note (.commit i hash)) :=
  ⟨⟨rfl, rfl, rfl, rfl, rfl, .inr ⟨i, hash, rfl⟩⟩, fun _ _ => id, rfl, rfl, rfl, rfl, rfl, rfl⟩

theorem clearCountdown_still (s : FairServer) (i : ℕ) : Still s (s.clearCountdown i) :=
  ⟨⟨rfl, rfl, rfl, rfl, rfl, .inl rfl⟩, fun _ _ => id, rfl, rfl, rfl, rfl, rfl, rfl⟩

theorem maybeStartCountdown_still (s : FairServer) (i : ℕ) (allReady : Bool) (seats : List (Option User))
    (bytes : Vector UInt8 32) : Still s (s.maybeStartCountdown H i allReady seats bytes) := by
  unfold maybeStartCountdown
  split
  · exact clearCountdown_still s i
  split
  · exact .refl s
  · exact ⟨⟨rfl, (foldl_dropClientSeed _ _).1, rfl, rfl, rfl, .inr ⟨i, _, rfl⟩⟩, fun _ _ => id, rfl, rfl, rfl, rfl, rfl, rfl⟩

theorem withFairness_still (s : FairServer) {f : FairnessCoordinator} (hf : f.byRoom = s.fairness.byRoom) :
    Still s { s with fairness := f } :=
  ⟨⟨rfl, hf, rfl, rfl, rfl, .inl rfl⟩, fun _ _ => id, rfl, rfl, rfl, rfl, rfl, rfl⟩

theorem onClientSeed_still (s : FairServer) (u : User) (seed : String) : Still s (s.onClientSeed u seed) := by
  unfold onClientSeed
  split
  · exact withFairness_still s rfl
  · exact .refl s

theorem endStart_still (s : FairServer) (k : ℕ) : Still s (s.endStart k) :=
  ⟨⟨rfl, rfl, rfl, rfl, rfl, .inl rfl⟩, fun _ _ => update_none_some, rfl, rfl, rfl, rfl, rfl, rfl⟩

theorem onCountdown_quiet (s : FairServer) (i : ℕ) (allReady : Bool) : Quiet s (s.onCountdown i allReady) := by
  unfold onCountdown
  split
  · exact .refl s
  simp only
  split
  · exact ⟨rfl, rfl, rfl, rfl, rfl, .inl rfl⟩
  · exact ⟨rfl, rfl, rfl, rfl, rfl, .inl rfl⟩

/-! ## A room that closes -/

theorem closeRoom_secret (hs : s.Secret) (i : ℕ) : (s.closeRoom i).Secret := by
  intro j m hl
  have hm := hs j m (update_none_some hl)
  exact ⟨hm.unsent, hm.unserved⟩

theorem closeRoom_bound (hb : s.Bound) (i : ℕ) : (s.closeRoom i).Bound := fun j m hl => hb j m (update_none_some hl)

/-! ## Deals -/

theorem Kept.reveal_lt (h : Kept H b s) {r : FairReveal} {id : Option MatchId} (hr : .reveal i x r id ∈ s.notes) :
    x < s.nextShuffle := by
  obtain ⟨pre, -, htold⟩ := h.told.mem hr
  exact htold.1

/-- One more game of a match hides nothing less. -/
theorem dealNext_hidden (h : Kept H b s) {m' : FairMatch} (hx : m'.shuffle < s.nextShuffle) (hm : s.Hidden m) :
    (s.dealNext H i m').Hidden m := by
  obtain ⟨n, hn, -, -⟩ := h.state m'.shuffle hx
  rw [dealNext_eq _ n hn]
  refine ⟨fun j r id hr => hm.unsent j r id (by simpa using hr), fun row hrow hid => ?_⟩
  rcases ReplayStore.mem_recorded hrow with hrow | rfl
  · exact hm.unserved row hrow hid
  · rfl

/-- The seeds of a match that starts are hidden. -/
theorem firstDeal_hidden (h : Kept H b s) {y : FairStart} (hk : s.starts k = some y) (fair : FairShuffle) (practice : Bool) :
    (s.firstDeal H k y fair practice).Hidden ⟨y.matchId, s.nextShuffle, practice⟩ := by
  refine ⟨fun j r id hr => ?_, fun row hrow hid => ?_⟩
  · have hr' : .reveal j s.nextShuffle r id ∈ s.notes := by
      simpa [firstDeal] using hr
    exact absurd (h.reveal_lt hr') (Nat.lt_irrefl _)
  · have hnew : ∀ row ∈ s.games.games, row.matchId ≠ y.matchId := by
      intro row hrow heq
      obtain ⟨z, hz, n, -, k', -, shown, rfl⟩ := h.rows row hrow
      exact (h.issued.starts k y hk).2.2 z hz heq
    rcases ReplayStore.mem_recorded hrow with hrow | rfl
    · exact absurd hid (hnew row hrow)
    · rfl

/-- The seeds of the other matches stay hidden. -/
theorem firstDeal_keeps_hidden {y : FairStart} {fair : FairShuffle} {practice : Bool} (hm : s.Hidden m) :
    (s.firstDeal H k y fair practice).Hidden m := by
  refine ⟨fun j r id hr => hm.unsent j r id (by simpa [firstDeal] using hr), fun row hrow hid => ?_⟩
  rcases ReplayStore.mem_recorded hrow with hrow | rfl
  · exact hm.unserved row hrow hid
  · rfl

theorem dealNext_frame (h : Kept H b s) {m : FairMatch} (hx : m.shuffle < s.nextShuffle) :
    (s.dealNext H i m).live = s.live ∧ (s.dealNext H i m).fairness = s.fairness ∧
      ∀ j x r id, .reveal j x r id ∈ (s.dealNext H i m).notes ↔ .reveal j x r id ∈ s.notes := by
  obtain ⟨n, hn, -, -⟩ := h.state m.shuffle hx
  rw [dealNext_eq _ n hn]
  exact ⟨rfl, rfl, fun j x r id => by simp⟩

/-! ## Reveals -/

/-- A reveal hides what is neither the room's shuffle nor its match. -/
theorem revealFair_hides (h : Kept H b s) (hm : s.Hidden m) (hx : s.fairness.byRoom i ≠ some m.shuffle)
    (hid : s.matchIds i ≠ some m.matchId) : (s.revealFair i).Hidden m := by
  cases hy : s.fairness.byRoom i with
  | none =>
    rw [revealFair_none hy]
    exact hm
  | some y =>
    obtain ⟨-, -, n, -, hn⟩ := h.byRoom i y hy
    rw [revealFair_eq hy hn]
    refine ⟨fun j r id hr => ?_, fun row hrow hown => ?_⟩
    · rcases List.mem_append.1 hr with hr | hr
      · exact hm.unsent j r id hr
      · rw [List.mem_singleton] at hr
        cases hr
        exact hx hy
    · obtain ⟨r, hr, rfl⟩ := (mem_revealed s _).1 hrow
      split_ifs at hown ⊢ with hshown
      · exact absurd (hshown.symm.trans (congrArg some hown)) hid
      · exact hm.unserved r hr hown

/-- The reveal of a room hides the matches of the others. -/
theorem revealFair_other (h : Kept H b s) (hij : i ≠ m.matchId.roomId) (hb : (b m.shuffle).match_ = m) (hm : s.Hidden m) :
    (s.revealFair i).Hidden m := by
  refine revealFair_hides h hm (fun hx => hij ?_) fun hid => hij (h.issued.ids i _ hid).1.symm
  rw [← (h.byRoom i _ hx).2.1, Birth.roomId, Birth.matchId, hb]

theorem revealFair_live (s : FairServer) (i : ℕ) : (s.revealFair i).live = s.live := by
  unfold revealFair
  split
  · rfl
  split
  · rfl
  · rfl

/-- After a reveal rooms still have their own match's shuffle, or have revealed it. -/
theorem revealFair_bound (h : Kept H b s) (hb : s.Bound) : (s.revealFair i).Bound := by
  intro j m hl
  rw [revealFair_live] at hl
  cases hx : s.fairness.byRoom i with
  | none =>
    rw [revealFair_none hx]
    exact hb j m hl
  | some x =>
    obtain ⟨-, -, n, -, hn⟩ := h.byRoom i x hx
    rw [revealFair_eq hx hn]
    rcases hb j m hl with hown | ⟨r, id, hr⟩
    · by_cases hij : j = i
      · rw [hij] at hown ⊢
        rw [hx] at hown
        cases hown
        exact .inr ⟨_, _, List.mem_append_right _ (List.mem_singleton_self _)⟩
      · refine .inl ?_
        show Function.update s.fairness.byRoom i none j = _
        rw [Function.update_of_ne hij]
        exact hown
    · exact .inr ⟨r, id, List.mem_append_left _ hr⟩

/-- **What a return may publish**: exactly when nothing is played in its room. -/
theorem Ends.secret_iff (h : Kept H b s) (hb : s.Bound) (hs : s.Secret) (he : Ends i m s p s') :
    s'.Secret ↔ (p = true → s.live i = none) := by
  cases he with
  | waits stage => exact iff_of_true (fun j m' hl => ⟨(hs j m' hl).unsent, (hs j m' hl).unserved⟩) fun hf => by cases hf
  | quits e _ => exact iff_of_true (fun j m' hl => ⟨(hs j m' hl).unsent, (hs j m' hl).unserved⟩) fun hf => by cases hf
  | publishes e _ =>
    constructor
    · intro hsecret _
      cases hl : s.live i with
      | none => rfl
      | some m' =>
        have hl' : ((s.revealFair i).exit m e).live i = some m' := by
          show (s.revealFair i).live i = _
          rw [revealFair_live]
          exact hl
        have hnow := (hsecret i m' hl').unsent
        rcases hb i m' hl with hx | ⟨r, id, hr⟩
        · obtain ⟨-, -, n, -, hn⟩ := h.byRoom i _ hx
          rw [revealFair_eq hx hn] at hnow
          exact absurd (List.mem_append_right _ (List.mem_singleton_self _)) (hnow i _ _)
        · exact absurd hr ((hs i m' hl).unsent i r id)
    · intro hnone j m' hl
      have hl' : s.live j = some m' := by
        rw [← revealFair_live s i]
        exact hl
      obtain ⟨-, hmatch, hroom⟩ := h.live j m' hl'
      have hij : i ≠ m'.matchId.roomId := by
        rw [hroom]
        rintro rfl
        rw [hnone rfl] at hl'
        cases hl'
      have hm := revealFair_other h hij hmatch (hs j m' hl')
      exact ⟨hm.unsent, hm.unserved⟩

theorem Ends.bound (h : Kept H b s) (hb : s.Bound) (he : Ends i m s p s') : s'.Bound := by
  cases he with
  | waits stage => exact hb
  | quits e _ => exact hb
  | publishes e _ => exact revealFair_bound h hb

theorem ended_secret (hs : s.Secret) (i : ℕ) (finalized : List MatchId) : (s.ended i finalized).Secret := by
  intro j m hl
  have hm := hs j m (update_none_some hl)
  exact ⟨hm.unsent, hm.unserved⟩

theorem ended_bound (hb : s.Bound) (i : ℕ) (finalized : List MatchId) : (s.ended i finalized).Bound :=
  fun j m hl => hb j m (update_none_some hl)

/-! ## Every event -/

/-- What a start does, and nothing else of it. -/
theorem deal_steps (h : Kept H b s) (k : ℕ) (room : FairRoom) (starts : Bool) (bytes : DealBytes) :
    Still s (s.deal H k room starts bytes) ∧ Kept H b (s.deal H k room starts bytes) ∨
      ∃ y s₁ fair practice b', s₁.starts k = some y ∧ s₁.closed y.roomId = false ∧ Kept H b s₁ ∧ Still s s₁ ∧
        s.deal H k room starts bytes = s₁.firstDeal H k y fair practice ∧ Kept H b' (s₁.firstDeal H k y fair practice) ∧
        ∀ x < s₁.nextShuffle, b' x = b x := by
  rcases deal_cases h k room starts bytes with heq | ⟨y, s₁, hk, hs₁, hgo⟩
  · rw [heq]
    exact .inl ⟨.refl s, h⟩
  have h₁ : Still s s₁ ∧ Still s (s₁.endStart k) ∧ s₁.starts k = some y ∧ Kept H b s₁ := by
    rcases hs₁ with rfl | ⟨hash, rfl⟩
    · exact ⟨.refl _, endStart_still _ k, hk, h⟩
    · exact ⟨note_commit_still s _ hash, { note_commit_still s y.roomId hash with starts := fun _ _ => update_none_some }, hk,
        note_commit_kept h hash⟩
  obtain ⟨hstill, hgone, hk₁, hkept⟩ := h₁
  rcases hgo with heq | ⟨fair, practice, hsound, hopen, hcommit, heq⟩
  · rw [heq]
    exact .inl ⟨hgone, endStart_kept hkept k⟩
  · have hopen₁ : s₁.closed y.roomId = false := hstill.closed ▸ hopen
    exact .inr ⟨y, s₁, fair, practice, _, hk₁, hopen₁, hkept, hstill, heq,
      firstDeal_kept hkept hk₁ hsound hopen₁ hcommit practice, fun x hx => Function.update_of_ne (Nat.ne_of_lt hx) ..⟩

/-- A first deal keeps live seeds hidden. -/
theorem firstDeal_secret (h : Kept H b s) (hs : s.Secret) {y : FairStart} (hk : s.starts k = some y) (fair : FairShuffle)
    (practice : Bool) : (s.firstDeal H k y fair practice).Secret := by
  intro j m hl
  by_cases hj : j = y.roomId
  · have hself : (s.firstDeal H k y fair practice).live y.roomId = some ⟨y.matchId, s.nextShuffle, practice⟩ :=
      Function.update_self ..
    rw [hj, hself] at hl
    cases hl
    exact firstDeal_hidden h hk fair practice
  · have hother : (s.firstDeal H k y fair practice).live j = s.live j := Function.update_of_ne hj ..
    rw [hother] at hl
    exact firstDeal_keeps_hidden (hs j m hl)

theorem firstDeal_bound (hb : s.Bound) {y : FairStart} (fair : FairShuffle) (practice : Bool) :
    (s.firstDeal H k y fair practice).Bound := by
  intro j m hl
  by_cases hj : j = y.roomId
  · have hself : (s.firstDeal H k y fair practice).live y.roomId = some ⟨y.matchId, s.nextShuffle, practice⟩ :=
      Function.update_self ..
    rw [hj, hself] at hl
    cases hl
    rw [hj]
    exact .inl (Function.update_self ..)
  · have hother : (s.firstDeal H k y fair practice).live j = s.live j := Function.update_of_ne hj ..
    have hroom : (s.firstDeal H k y fair practice).fairness.byRoom j = s.fairness.byRoom j := Function.update_of_ne hj ..
    rw [hother] at hl
    rw [hroom]
    refine (hb j m hl).imp_right ?_
    rintro ⟨r, id, hr⟩
    exact ⟨r, id, List.mem_append_left _ hr⟩

/-- So after every event. -/
theorem step_bound (h : Kept H b s) (hb : s.Bound) (e : FairEvent) : (s.step H money e).Bound := by
  cases e with
  | check i allReady seats bytes => exact (maybeStartCountdown_still ..).bound hb
  | close i => exact closeRoom_bound hb i
  | clientSeed u seed => exact (onClientSeed_still ..).bound hb
  | disconnect u => exact hb
  | countdown i allReady => exact (onCountdown_quiet ..).bound hb
  | giveUp k => exact hb
  | deal k room starts bytes =>
    show (s.deal H k room starts bytes).Bound
    rcases deal_steps h k room starts bytes with ⟨hq, -⟩ | ⟨y, s₁, fair, practice, -, -, -, -, hq, heq, -⟩
    · exact hq.bound hb
    · rw [heq]
      exact firstDeal_bound (hq.bound hb) fair practice
  | nextGame i =>
    show (s.nextGame H i).Bound
    unfold nextGame
    cases hl : s.live i with
    | none => exact hb
    | some m =>
      obtain ⟨hlive, hfair, hnotes⟩ := dealNext_frame (i := i) h (h.live i m hl).1
      intro j m' hl'
      rw [hlive] at hl'
      rw [hfair]
      simp only [hnotes]
      exact hb j m' hl'
  | matchEnded i won room =>
    show (s.settleAndEmitMatchEnd money i won room).Bound
    rcases matchEnded_cases h money i won room with ⟨-, heq⟩ | ⟨m, -, ⟨-, heq⟩ | ⟨-, p, hends⟩⟩
    · rw [heq]
      exact hb
    · rw [heq]
      exact ended_bound hb i s.finalized
    · exact hends.bound (ended_kept h i _) (ended_bound hb i _)
  | adminVoid i =>
    show (s.adminVoidMatch money i).Bound
    rcases adminVoid_cases money s i with heq | ⟨m, -, -, p, hends⟩
    · rw [heq]
      exact hb
    · exact hends.bound (ended_kept h i _) (ended_bound hb i _)
  | resume k answer room =>
    show (s.resumeEnding k answer room).Bound
    cases hk : s.endings k with
    | none =>
      unfold resumeEnding
      rw [hk]
      exact hb
    | some y =>
      have hkept : Kept H b (s.endEnding k) := h.frame fun _ _ => id
      exact (resumeEnding_ends hk answer room).bound hkept hb

/-- An event keeps live seeds hidden exactly if it is discreet. -/
theorem step_secret_iff (h : Kept H b s) (hb : s.Bound) (hs : s.Secret) (e : FairEvent) :
    (s.step H money e).Secret ↔ s.Discreet e := by
  cases e with
  | check i allReady seats bytes => exact iff_of_true ((maybeStartCountdown_still ..).secret hs) trivial
  | close i => exact iff_of_true (closeRoom_secret hs i) trivial
  | clientSeed u seed => exact iff_of_true ((onClientSeed_still ..).secret hs) trivial
  | disconnect u => exact iff_of_true ((withFairness_still (f := s.fairness.dropClientSeed u) s rfl).secret hs) trivial
  | countdown i allReady => exact iff_of_true ((onCountdown_quiet ..).secret hs) trivial
  | giveUp k => exact iff_of_true ((endStart_still s k).secret hs) trivial
  | deal k room starts bytes =>
    refine iff_of_true ?_ trivial
    show (s.deal H k room starts bytes).Secret
    rcases deal_steps h k room starts bytes with ⟨hq, -⟩ | ⟨y, s₁, fair, practice, -, hk, -, h₁, hq, heq, -⟩
    · exact hq.secret hs
    · rw [heq]
      exact firstDeal_secret h₁ (hq.secret hs) hk fair practice
  | nextGame i =>
    refine iff_of_true ?_ trivial
    show (s.nextGame H i).Secret
    unfold nextGame
    cases hl : s.live i with
    | none => exact hs
    | some m =>
      have hlt := (h.live i m hl).1
      obtain ⟨hlive, -, -⟩ := dealNext_frame (i := i) h hlt
      intro j m' hl'
      rw [hlive] at hl'
      exact dealNext_hidden h hlt (hs j m' hl')
  | matchEnded i won room =>
    refine iff_of_true ?_ trivial
    show (s.settleAndEmitMatchEnd money i won room).Secret
    rcases matchEnded_cases h money i won room with ⟨-, heq⟩ | ⟨m, -, ⟨-, heq⟩ | ⟨-, p, hends⟩⟩
    · rw [heq]
      exact hs
    · rw [heq]
      have hended := ended_secret hs i s.finalized
      exact fun j m hl => ⟨(hended j m hl).unsent, (hended j m hl).unserved⟩
    · exact (hends.secret_iff (ended_kept h i _) (ended_bound hb i _) (ended_secret hs i _)).2 fun _ => Function.update_self ..
  | adminVoid i =>
    refine iff_of_true ?_ trivial
    show (s.adminVoidMatch money i).Secret
    rcases adminVoid_cases money s i with heq | ⟨m, -, -, p, hends⟩
    · rw [heq]
      exact hs
    · exact (hends.secret_iff (ended_kept h i _) (ended_bound hb i _) (ended_secret hs i _)).2 fun _ => Function.update_self ..
  | resume k answer room =>
    show (s.resumeEnding k answer room).Secret ↔ ∀ y, s.endings k = some y → _
    cases hk : s.endings k with
    | none =>
      refine iff_of_true ?_ fun y hy => by cases hy
      unfold resumeEnding
      rw [hk]
      exact hs
    | some y =>
      have hkept : Kept H b (s.endEnding k) := h.frame fun _ _ => id
      have hsecret : (s.endEnding k).Secret := fun j m hl => ⟨(hs j m hl).unsent, (hs j m hl).unserved⟩
      rw [(resumeEnding_ends hk answer room).secret_iff hkept hb hsecret]
      -- in a room that is gone nothing is played, whatever its end reads
      have hroom : (y.stage.publishes answer (s.endRoom y.roomId room) = true → s.live y.roomId = none) ↔
          (y.stage.publishes answer room = true → s.live y.roomId = none) := by
        unfold endRoom
        split
        · rename_i hc
          exact iff_of_true (fun _ => (h.gone _ hc).1) fun _ => (h.gone _ hc).1
        · exact Iff.rfl
      constructor
      · rintro hp z hz
        cases hz
        exact hroom.mp hp
      · exact fun hp => hroom.mpr (hp y rfl)

/-- **Seeds in play are hidden**, from everyone and in every state of a run, exactly when no end that returns publishes in a
room that plays a match by then. -/
theorem live_seeds_hidden_iff (H : Hashes) (money : Bool) (es : List FairEvent) :
    (∀ fs, fs <+: es → (run (step H money) {} fs).Secret) ↔
      ∀ fs e gs, es = fs ++ e :: gs → (run (step H money) {} fs).Discreet e := by
  have hkeep : ∀ (s : FairServer) e, (∃ b, Kept H b s) ∧ s.Bound →
      (∃ b, Kept H b (s.step H money e)) ∧ (s.step H money e).Bound :=
    fun s e hinv => ⟨step_exists_kept hinv.1 e, step_bound hinv.1.choose_spec hinv.2 e⟩
  have hboot : (∃ b, Kept H b {}) ∧ ({} : FairServer).Bound := ⟨boot_exists_kept H, fun i m hl => by cases hl⟩
  have hiff := guarded_iff hkeep (fun s e hinv hs => step_secret_iff hinv.1.choose_spec hinv.2 hs e) hboot
    (fun i m hl => by cases hl) es
  exact hiff.symm.trans guarded_iff_forall

/-! ## One match after the other -/

/-- A match id is issued to a room where nothing is played, starting or ending. -/
def Successive (s : FairServer) : FairEvent → Prop
  | .countdown i allReady => s.countdowns i = true → allReady = true → s.live i = none ∧
      (∀ k y, s.starts k = some y → y.roomId ≠ i) ∧ ∀ k y, s.endings k = some y → y.roomId ≠ i
  | _ => True

/-- The seed of a match has been sent under its own id, and every row of its games is served. -/
structure Published (s : FairServer) (m : FairMatch) : Prop where
  sent : ∃ i r, .reveal i m.shuffle r (some m.matchId) ∈ s.notes ∧ (m.practice = false → ∀ k < r.gameCount,
    ∃ row ∈ s.games.games, row.matchId = m.matchId ∧ row.index = k ∧ row.serverSeed = r.serverSeed)
  served : ∀ row ∈ s.games.games, row.matchId = m.matchId → row.revealed = true

/-- The seed of a match has been sent under no id, and its rows are not served. -/
structure Unlinked (s : FairServer) (m : FairMatch) : Prop where
  sent : ∃ i r, .reveal i m.shuffle r none ∈ s.notes
  only : ∀ i r id, .reveal i m.shuffle r id ∈ s.notes → id = none
  unserved : ∀ row ∈ s.games.games, row.matchId = m.matchId → row.revealed = false

/-- The room's shuffle is that of `m`, which is hidden, and so is its match id, if it is there. -/
structure Current (s : FairServer) (i : ℕ) (m : FairMatch) : Prop where
  byRoom : s.fairness.byRoom i = some m.shuffle
  matchId : s.closed i = false → s.matchIds i = some m.matchId
  hidden : s.Hidden m

/-- A match that has been dealt. -/
structure Known (b : ℕ → Birth) (s : FairServer) (m : FairMatch) : Prop where
  lt : m.shuffle < s.nextShuffle
  match_ : (b m.shuffle).match_ = m

/-- What has become of the seeds of a match whose end returned with `e`. -/
structure Concluded (s : FairServer) (m : FairMatch) (e : EndExit) : Prop where
  once : e ≠ .alreadyFinalized
  published : e = .voided ∨ e = .announced → s.Published m
  unlinked : e = .voidedClosed → s.Unlinked m
  hidden : e ≠ .voided → e ≠ .announced → e ≠ .voidedClosed → s.Hidden m

/-- A server whose rooms play one match after the other. -/
structure Orderly (b : ℕ → Birth) (s : FairServer) : Prop where
  finalized : ∀ id ∈ s.finalized, id.seq ≤ s.matchSeq id.roomId
  live : ∀ i m, s.live i = some m → s.Current i m ∧ m.matchId ∉ s.finalized
  start : ∀ k y, s.starts k = some y → s.live y.roomId = none ∧ (∀ k' z, s.endings k' = some z → z.roomId ≠ y.roomId) ∧
    (s.closed y.roomId = false → s.matchIds y.roomId = some y.matchId) ∧ y.matchId ∉ s.finalized
  ending : ∀ k y, s.endings k = some y → s.Current y.roomId y.match_ ∧ s.live y.roomId = none ∧ Known b s y.match_ ∧
    y.match_.matchId.roomId = y.roomId
  alone : ∀ k k' y y', s.endings k = some y → s.endings k' = some y' → y.roomId = y'.roomId → k = k'
  nextEnding : ∀ k, s.nextEnding ≤ k → s.endings k = none
  exits : ∀ m e, (m, e) ∈ s.exits → Known b s m ∧ s.Concluded m e ∧ (∀ i m', s.live i = some m' → m'.shuffle ≠ m.shuffle) ∧
    ∀ k y, s.endings k = some y → y.match_.shuffle ≠ m.shuffle
  once : (s.exits.map fun p => p.1.matchId).Nodup

/-! ## Steps that deal and reveal nothing, again -/

/-- What has become of the seeds of a match stays, whatever is sent and dealt later. -/
theorem Concluded.grow {e : EndExit} (hm : s.Concluded m e) (hnotes : s.notes ⊆ s'.notes)
    (hnew : ∀ i r id, .reveal i m.shuffle r id ∈ s'.notes → .reveal i m.shuffle r id ∈ s.notes)
    (hkeep : ∀ row ∈ s.games.games, ∃ row' ∈ s'.games.games,
      row'.matchId = row.matchId ∧ row'.index = row.index ∧ row'.serverSeed = row.serverSeed)
    (hshown : ∀ row' ∈ s'.games.games, row'.matchId = m.matchId →
      ∃ row ∈ s.games.games, row.matchId = m.matchId ∧ row'.revealed = row.revealed) : s'.Concluded m e where
  once := hm.once
  published he := by
    obtain ⟨⟨i, r, hr, hrows⟩, hserved⟩ := hm.published he
    refine ⟨⟨i, r, hnotes hr, fun hp k hk => ?_⟩, fun row' hrow' hid' => ?_⟩
    · obtain ⟨row, hrow, hid, hindex, hseed⟩ := hrows hp k hk
      obtain ⟨row', hrow', hid', hindex', hseed'⟩ := hkeep row hrow
      exact ⟨row', hrow', hid'.trans hid, hindex'.trans hindex, hseed'.trans hseed⟩
    · obtain ⟨row, hrow, hid, hsame⟩ := hshown row' hrow' hid'
      exact hsame.trans (hserved row hrow hid)
  unlinked he := by
    obtain ⟨⟨i, r, hr⟩, honly, hunserved⟩ := hm.unlinked he
    refine ⟨⟨i, r, hnotes hr⟩, fun j r' id hr' => honly j r' id (hnew j r' id hr'), fun row' hrow' hid' => ?_⟩
    obtain ⟨row, hrow, hid, hsame⟩ := hshown row' hrow' hid'
    exact hsame.trans (hunserved row hrow hid)
  hidden hv ha hc := by
    obtain ⟨hunsent, hunserved⟩ := hm.hidden hv ha hc
    refine ⟨fun j r id hr => hunsent j r id (hnew j r id hr), fun row' hrow' hid' => ?_⟩
    obtain ⟨row, hrow, hid, hsame⟩ := hshown row' hrow' hid'
    exact hsame.trans (hunserved row hrow hid)

theorem Concluded.of_eq {e : EndExit} (hm : s.Concluded m e) (hnotes : s'.notes = s.notes) (hgames : s'.games = s.games) :
    s'.Concluded m e := by
  refine hm.grow (by rw [hnotes]; exact List.Subset.refl _) (fun i r id hr => hnotes ▸ hr) (fun row hrow => ?_)
    fun row hrow hid => ?_
  · exact ⟨row, by rw [hgames]; exact hrow, rfl, rfl, rfl⟩
  · rw [hgames] at hrow
    exact ⟨row, hrow, hid, rfl⟩

/-- An end stays concluded. -/
theorem Quiet.concluded (h : Quiet s s') {e : EndExit} (hm : s.Concluded m e) : s'.Concluded m e := by
  refine hm.grow ?_ (fun i r id hr => h.reveal_mem.1 hr) (fun row hrow => ?_) fun row hrow hid => ?_
  · rcases h.notes with heq | ⟨j, hash, heq⟩
    · rw [heq]
      exact List.Subset.refl _
    · rw [heq]
      exact List.subset_append_left _ _
  · exact ⟨row, by rw [h.games]; exact hrow, rfl, rfl, rfl⟩
  · rw [h.games] at hrow
    exact ⟨row, hrow, hid, rfl⟩

theorem Known.mono (h : Known b s m) (hn : s.nextShuffle ≤ s'.nextShuffle) : Known b s' m := ⟨h.lt.trans_le hn, h.match_⟩

theorem Still.current (h : Still s s') (hm : s.Current i m) : s'.Current i m :=
  ⟨by rw [h.byRoom]; exact hm.byRoom, by rw [h.closed, h.matchIds]; exact hm.matchId, h.hidden hm.hidden⟩

theorem Still.orderly (h : Still s s') (ho : Orderly b s) : Orderly b s' where
  finalized := by
    rw [h.finalized, h.matchSeq]
    exact ho.finalized
  live i m hl := by
    rw [h.live] at hl
    rw [h.finalized]
    exact ⟨h.current (ho.live i m hl).1, (ho.live i m hl).2⟩
  start k y hk := by
    rw [h.live, h.endings, h.closed, h.matchIds, h.finalized]
    exact ho.start k y (h.starts k y hk)
  ending k y hk := by
    rw [h.endings] at hk
    obtain ⟨hc, hl, hknown, hroom⟩ := ho.ending k y hk
    rw [h.live]
    exact ⟨h.current hc, hl, hknown.mono h.nextShuffle.ge, hroom⟩
  alone := by
    rw [h.endings]
    exact ho.alone
  nextEnding := by
    rw [h.endings, h.nextEnding]
    exact ho.nextEnding
  exits m e he := by
    rw [h.exits] at he
    obtain ⟨hknown, hc, hlive, hend⟩ := ho.exits m e he
    rw [h.live, h.endings]
    exact ⟨hknown.mono h.nextShuffle.ge, h.concluded hc, hlive, hend⟩
  once := by
    rw [h.exits]
    exact ho.once

/-- A new match id. -/
theorem onCountdown_orderly (ho : Orderly b s) {allReady : Bool} (hok : s.Successive (.countdown i allReady)) :
    Orderly b (s.onCountdown i allReady) := by
  have hq := onCountdown_quiet s i allReady
  unfold onCountdown at hq ⊢
  split
  · exact ho
  rename_i hcount
  simp only
  split
  · exact Still.orderly (s := s) ⟨⟨rfl, rfl, rfl, rfl, rfl, .inl rfl⟩, fun _ _ => id, rfl, rfl, rfl, rfl, rfl, rfl⟩ ho
  rename_i hready
  obtain ⟨hallReady, hopen⟩ : allReady = true ∧ s.closed i = false := by simpa using hready
  -- the countdown of a room that is neither playing, starting nor ending
  obtain ⟨hlive, hstart, hend⟩ := hok (by simpa using hcount) hallReady
  simp only [hcount, hready] at hq
  have hids : ∀ j, j ≠ i → Function.update s.matchIds i (some ⟨0, i, s.matchSeq i + 1⟩) j = s.matchIds j :=
    fun j hj => Function.update_of_ne hj ..
  -- the old key is dropped from the finished ones, so nothing enters them
  have hfinal : ∀ id, id ∈ s.finalized.filter (fun id => some id ≠ s.matchIds i) → id ∈ s.finalized :=
    fun id hid => List.mem_of_mem_filter hid
  have hcurrent : ∀ (s₂ : FairServer) j m, Quiet s s₂ → s₂.closed = s.closed →
      s₂.matchIds = Function.update s.matchIds i (some ⟨0, i, s.matchSeq i + 1⟩) → j ≠ i → s.Current j m →
      s₂.Current j m := by
    intro s₂ j m hq₂ hclosed hids₂ hj hm
    refine ⟨hq₂.byRoom ▸ hm.byRoom, fun hc => ?_, hq₂.hidden hm.hidden⟩
    rw [hclosed] at hc
    rw [hids₂, hids j hj, hm.matchId hc]
  refine
    { finalized := fun id hid => (ho.finalized id (hfinal id hid)).trans ?_
      live := fun j m hl => ?_
      start := fun k y hk => ?_
      ending := fun k y hk => ?_
      alone := ho.alone
      nextEnding := ho.nextEnding
      once := ho.once
      exits := fun m e he => ?_ }
  · show s.matchSeq id.roomId ≤ Function.update s.matchSeq i (s.matchSeq i + 1) id.roomId
    by_cases hj : id.roomId = i
    · rw [hj, Function.update_self]
      omega
    · rw [Function.update_of_ne hj]
  · have hj : j ≠ i := by
      rintro rfl
      exact absurd (hl.symm.trans hlive) (by simp)
    exact ⟨hcurrent _ j m hq rfl rfl hj (ho.live j m hl).1, fun hid => (ho.live j m hl).2 (hfinal _ hid)⟩
  · simp only at hk
    -- the start just made carries a number above all those finished
    by_cases hkn : k = s.nextStart
    · rw [hkn, Function.update_self] at hk
      cases hk
      refine ⟨hlive, hend, fun _ => Function.update_self .., fun hid => ?_⟩
      have hle := ho.finalized _ (hfinal _ hid)
      simp only at hle
      omega
    · rw [Function.update_of_ne hkn] at hk
      obtain ⟨hl, he, hid, hf⟩ := ho.start k y hk
      exact ⟨hl, he, fun hc => (hids _ (hstart k y hk)).trans (hid hc), fun hin => hf (hfinal _ hin)⟩
  · obtain ⟨hc, hl, hknown, hroom⟩ := ho.ending k y hk
    exact ⟨hcurrent _ _ _ hq rfl rfl (hend k y hk) hc, hl, hknown.mono le_rfl, hroom⟩
  · obtain ⟨hknown, hc, hl, he'⟩ := ho.exits m e he
    exact ⟨hknown.mono le_rfl, hq.concluded hc, hl, he'⟩

/-! ## Deals of one match after the other -/

theorem Known.ids (h : Kept H b s) {m' : FairMatch} (hm : Known b s m) (hm' : Known b s m') (hne : m'.shuffle ≠ m.shuffle) :
    m'.matchId ≠ m.matchId := by
  intro heq
  refine hne (h.issued.inj _ hm'.lt _ hm.lt ?_)
  rw [Birth.matchId, Birth.matchId, hm.match_, hm'.match_]
  exact heq

theorem live_known (h : Kept H b s) (hl : s.live i = some m) : Known b s m := ⟨(h.live i m hl).1, (h.live i m hl).2.1⟩

/-- A deal keeps the order of matches. -/
theorem dealNext_orderly (h : Kept H b s) (ho : Orderly b s) (hl : s.live i = some m) : Orderly b (s.dealNext H i m) := by
  have hknown := live_known h hl
  have hhidden : ∀ m', s.Hidden m' → (s.dealNext H i m).Hidden m' := fun m' => dealNext_hidden h hknown.lt
  obtain ⟨n, hn, -, -⟩ := h.state m.shuffle hknown.lt
  have heq := dealNext_eq (H := H) (i := i) _ n hn
  have hcurrent : ∀ j m', s.Current j m' → (s.dealNext H i m).Current j m' := fun j m' hm =>
    ⟨by rw [heq]; exact hm.byRoom, by rw [heq]; exact hm.matchId, hhidden m' hm.hidden⟩
  rw [heq] at hhidden hcurrent ⊢
  refine
    { finalized := ho.finalized
      live := fun j m' hl' => ⟨hcurrent j m' (ho.live j m' hl').1, (ho.live j m' hl').2⟩
      start := ho.start
      ending := fun k y hk => ?_
      alone := ho.alone
      nextEnding := ho.nextEnding
      once := ho.once
      exits := fun m' e he => ?_ }
  · obtain ⟨hc, hnone, hk', hroom⟩ := ho.ending k y hk
    exact ⟨hcurrent _ _ hc, hnone, hk'.mono le_rfl, hroom⟩
  · obtain ⟨hknown', hc, hlive, hend⟩ := ho.exits m' e he
    refine ⟨hknown'.mono le_rfl, ?_, hlive, hend⟩
    refine hc.grow (List.subset_append_left _ _) (fun j r id hr => by simpa using hr) (fun row hrow => ?_)
      fun row hrow hid => ?_
    · exact ⟨row, ReplayStore.mem_recorded_of _ hrow, rfl, rfl, rfl⟩
    · rcases ReplayStore.mem_recorded hrow with hrow | rfl
      · exact ⟨row, hrow, hid, rfl⟩
      · exact absurd hid (Known.ids h hknown' hknown (hlive i m hl))

/-- A first deal keeps the order of matches. -/
theorem firstDeal_orderly (h : Kept H b s) (ho : Orderly b s) {y : FairStart} (hk : s.starts k = some y)
    (hopen : s.closed y.roomId = false) (fair : FairShuffle) (practice : Bool)
    {b' : ℕ → Birth} (hb : ∀ x < s.nextShuffle, b' x = b x) :
    Orderly b' (s.firstDeal H k y fair practice) := by
  obtain ⟨hnone, hends, hid, hfresh⟩ := ho.start k y hk
  have hkeeps : ∀ m, s.Hidden m → (s.firstDeal H k y fair practice).Hidden m := fun m => firstDeal_keeps_hidden
  have hnew := firstDeal_hidden (H := H) h hk fair practice
  have hknown : ∀ m, Known b s m → Known b' (s.firstDeal H k y fair practice) m := fun m hm =>
    ⟨Nat.lt_succ_of_lt hm.lt, by rw [hb _ hm.lt]; exact hm.match_⟩
  have hcurrent : ∀ j m, j ≠ y.roomId → s.Current j m → Current (s.firstDeal H k y fair practice) j m := fun j m hj hm =>
    ⟨(Function.update_of_ne hj ..).trans hm.byRoom, hm.matchId, hkeeps m hm.hidden⟩
  have hlive : ∀ j m, (s.firstDeal H k y fair practice).live j = some m →
      j = y.roomId ∧ m = ⟨y.matchId, s.nextShuffle, practice⟩ ∨ j ≠ y.roomId ∧ s.live j = some m := by
    intro j m hl
    by_cases hj : j = y.roomId
    · have hself : (s.firstDeal H k y fair practice).live y.roomId = some ⟨y.matchId, s.nextShuffle, practice⟩ :=
        Function.update_self ..
      rw [hj, hself] at hl
      cases hl
      exact .inl ⟨hj, rfl⟩
    · exact .inr ⟨hj, (Function.update_of_ne hj ..).symm.trans hl⟩
  refine
    { finalized := ho.finalized
      live := fun j m hl => ?_
      start := fun k' z hz => ?_
      ending := fun k' z hz => ?_
      alone := ho.alone
      nextEnding := ho.nextEnding
      once := ho.once
      exits := fun m e he => ?_ }
  · rcases hlive j m hl with ⟨rfl, rfl⟩ | ⟨hj, hl'⟩
    · exact ⟨⟨Function.update_self .., hid, hnew⟩, hfresh⟩
    · exact ⟨hcurrent j m hj (ho.live j m hl').1, (ho.live j m hl').2⟩
  · have hz' : s.starts k' = some z := update_none_some hz
    obtain ⟨hl, he, hzid, hzf⟩ := ho.start k' z hz'
    -- a second start in the room would have the same id
    have hroom : z.roomId ≠ y.roomId := by
      intro heq
      rw [heq] at hzid
      have hzid := hzid hopen
      rw [hid hopen, Option.some.injEq] at hzid
      have hkk := h.issued.once k k' y z hk hz' hzid
      have hgone : (s.firstDeal H k y fair practice).starts k = none := Function.update_self ..
      rw [← hkk, hgone] at hz
      cases hz
    exact ⟨(Function.update_of_ne hroom ..).trans hl, he, hzid, hzf⟩
  · have hroom := hends k' z hz
    obtain ⟨hc, hl, hkn, hzroom⟩ := ho.ending k' z hz
    exact ⟨hcurrent _ _ hroom hc, (Function.update_of_ne hroom ..).trans hl, hknown _ hkn, hzroom⟩
  · obtain ⟨hkn, hc, hl, hend⟩ := ho.exits m e he
    refine ⟨hknown m hkn, ?_, fun j m' hl' => ?_, hend⟩
    · refine hc.grow (List.subset_append_left _ _) (fun j r id hr => by simpa [firstDeal] using hr) (fun row hrow => ?_)
        fun row hrow hrid => ?_
      · exact ⟨row, ReplayStore.mem_recorded_of _ hrow, rfl, rfl, rfl⟩
      · rcases ReplayStore.mem_recorded hrow with hrow | rfl
        · exact ⟨row, hrow, hrid, rfl⟩
        · have hmid : (b m.shuffle).matchId = m.matchId := congrArg FairMatch.matchId hkn.match_
          exact absurd (hmid.trans hrid.symm) ((h.issued.starts k y hk).2.2 _ hkn.lt)
    · rcases hlive j m' hl' with ⟨-, rfl⟩ | ⟨-, hl''⟩
      · exact Nat.ne_of_gt hkn.lt
      · exact hl j m' hl''

/-! ## Ends of one match after the other -/

/-- A match that has ended in its room, where nothing else happens before the end is through. -/
structure Pending (b : ℕ → Birth) (s : FairServer) (i : ℕ) (m : FairMatch) : Prop where
  current : s.Current i m
  known : Known b s m
  room : m.matchId.roomId = i
  live : s.live i = none
  starts : ∀ k y, s.starts k = some y → y.roomId ≠ i
  endings : ∀ k y, s.endings k = some y → y.roomId ≠ i
  exits : ∀ m' e, (m', e) ∈ s.exits → m'.shuffle ≠ m.shuffle

/-- A match that ends keeps the order of matches. -/
theorem exit_orderly (ho : Orderly b s) {e : EndExit} (hknown : Known b s m) (hc : s.Concluded m e)
    (hl : ∀ i m', s.live i = some m' → m'.shuffle ≠ m.shuffle)
    (he : ∀ k y, s.endings k = some y → y.match_.shuffle ≠ m.shuffle)
    (hx : ∀ m' e', (m', e') ∈ s.exits → m'.matchId ≠ m.matchId) : Orderly b (s.exit m e) := by
  have hconcluded : ∀ m' e', s.Concluded m' e' → (s.exit m e).Concluded m' e' := fun m' e' hm => hm.of_eq rfl rfl
  have hcurrent : ∀ j m', s.Current j m' → (s.exit m e).Current j m' := fun j m' hm =>
    ⟨hm.byRoom, hm.matchId, hm.hidden.unsent, hm.hidden.unserved⟩
  refine
    { finalized := ho.finalized
      live := fun j m' hl' => ⟨hcurrent j m' (ho.live j m' hl').1, (ho.live j m' hl').2⟩
      start := ho.start
      ending := fun k y hk => ?_
      alone := ho.alone
      nextEnding := ho.nextEnding
      once := ?_
      exits := fun m' e' hm => ?_ }
  · obtain ⟨hcur, hnone, hkn, hroom⟩ := ho.ending k y hk
    exact ⟨hcurrent _ _ hcur, hnone, hkn.mono le_rfl, hroom⟩
  · rcases List.mem_append.1 hm with hm | hm
    · obtain ⟨hkn, hcon, hlive, hend⟩ := ho.exits m' e' hm
      exact ⟨hkn.mono le_rfl, hconcluded m' e' hcon, hlive, hend⟩
    · rw [List.mem_singleton] at hm
      cases hm
      exact ⟨hknown.mono le_rfl, hconcluded m e hc, hl, he⟩
  · show ((s.exits ++ [(m, e)]).map fun p => p.1.matchId).Nodup
    rw [List.map_append, List.nodup_append]
    refine ⟨ho.once, by simp, fun id hid id' hid' => ?_⟩
    obtain ⟨⟨m', e'⟩, hm', rfl⟩ := List.mem_map.mp hid
    obtain rfl : id' = m.matchId := by simpa using hid'
    exact hx m' e' hm'

/-- The reveal of the room's own match. -/
theorem revealFair_published (h : Kept H b s) (hp : Pending b s i m) (hopen : s.closed i = false) :
    (s.revealFair i).Published m := by
  obtain ⟨hlt, hroom, n, -, hn⟩ := h.byRoom i _ hp.current.byRoom
  obtain ⟨n', hn', -, hrows⟩ := h.state _ hlt
  have hsame : (b m.shuffle).fair.played n' = (b m.shuffle).fair.played n := Option.some.inj (hn'.symm.trans hn)
  have hcount : n' = n := by
    have hlen := congrArg (fun fair => fair.games.length) hsame
    simpa only [FairShuffle.games_played] using hlen
  have hid : (b m.shuffle).matchId = m.matchId := congrArg FairMatch.matchId hp.known.match_
  have hprac : (b m.shuffle).match_.practice = m.practice := congrArg FairMatch.practice hp.known.match_
  rw [revealFair_eq hp.current.byRoom hn, hp.current.matchId hopen]
  refine ⟨⟨i, _, List.mem_append_right _ (List.mem_singleton_self _), fun hpractice k hk => ?_⟩, fun row hrow hrid => ?_⟩
  · have hk' : k < n' := by
      have hgames : ((b m.shuffle).fair.played n).reveal.gameCount = n := FairShuffle.games_played ..
      omega
    obtain ⟨shown, hrow⟩ := hrows (hprac.trans hpractice) k hk'
    refine ⟨_, (mem_revealed s _).2 ⟨_, hrow, rfl⟩, ?_⟩
    split_ifs
    · exact ⟨hid, rfl, rfl⟩
    · exact ⟨hid, rfl, rfl⟩
  · obtain ⟨r, hr, rfl⟩ := (mem_revealed s _).1 hrow
    split_ifs at hrid ⊢ with hown
    · rfl
    · exact absurd (congrArg some hrid) hown

/-- Without the room the reveal names no match. -/
theorem revealFair_unlinked (h : Kept H b s) (hp : Pending b s i m) (hc : s.closed i = true) : (s.revealFair i).Unlinked m := by
  obtain ⟨-, -, n, -, hn⟩ := h.byRoom i _ hp.current.byRoom
  rw [revealFair_eq hp.current.byRoom hn, (h.gone i hc).2]
  refine ⟨⟨i, _, List.mem_append_right _ (List.mem_singleton_self _)⟩, fun j r id hr => ?_, hp.current.hidden.unserved⟩
  rcases List.mem_append.1 hr with hr | hr
  · exact absurd hr (hp.current.hidden.unsent j r id)
  · rw [List.mem_singleton] at hr
    cases hr
    rfl

/-- After the reveal the match is concluded. -/
theorem revealFair_concluded (h : Kept H b s) (hp : Pending b s i m) {e : EndExit}
    (he : e ∈ if s.closed i then [.voidedClosed] else [.voided, .announced]) : (s.revealFair i).Concluded m e := by
  cases hc : s.closed i with
  | true =>
    rw [hc] at he
    obtain rfl : e = .voidedClosed := by simpa using he
    refine ⟨by decide, fun hpub => ?_, fun _ => revealFair_unlinked h hp hc, fun _ _ hne => absurd rfl hne⟩
    rcases hpub with heq | heq
    · cases heq
    · cases heq
  | false =>
    rw [hc] at he
    have hpub : e = .voided ∨ e = .announced := by simpa using he
    refine ⟨?_, fun _ => revealFair_published h hp hc, ?_, fun hv ha _ => ?_⟩
    · rcases hpub with rfl | rfl
      · decide
      · decide
    · rcases hpub with rfl | rfl
      · exact fun heq => by cases heq
      · exact fun heq => by cases heq
    · rcases hpub with rfl | rfl
      · exact absurd rfl hv
      · exact absurd rfl ha

/-- The reveal of another match. -/
theorem Concluded.reveal (h : Kept H b s) {e : EndExit} (hm : s.Concluded m e) (hx : s.fairness.byRoom i ≠ some m.shuffle)
    (hid : s.matchIds i ≠ some m.matchId) : (s.revealFair i).Concluded m e := by
  cases hy : s.fairness.byRoom i with
  | none =>
    rw [revealFair_none hy]
    exact hm
  | some y =>
    obtain ⟨-, -, n, -, hn⟩ := h.byRoom i y hy
    rw [revealFair_eq hy hn]
    refine hm.grow (List.subset_append_left _ _) (fun j r id' hr => ?_) (fun row hrow => ?_) fun row hrow hrid => ?_
    · rcases List.mem_append.1 hr with hr | hr
      · exact hr
      · rw [List.mem_singleton] at hr
        cases hr
        exact absurd hy hx
    · refine ⟨_, (mem_revealed s _).2 ⟨row, hrow, rfl⟩, ?_⟩
      split_ifs
      · exact ⟨rfl, rfl, rfl⟩
      · exact ⟨rfl, rfl, rfl⟩
    · obtain ⟨r, hr, rfl⟩ := (mem_revealed s _).1 hrow
      split_ifs at hrid ⊢ with hown
      · exact absurd (hown.symm.trans (congrArg some hrid)) hid
      · exact ⟨r, hr, hrid, rfl⟩

/-- The id of the room is that of its own match, if any. -/
theorem Pending.matchIds_ne (h : Kept H b s) (hp : Pending b s i m) {m' : FairMatch} (hm' : Known b s m')
    (hne : m'.shuffle ≠ m.shuffle) : s.matchIds i ≠ some m'.matchId := by
  cases hc : s.closed i with
  | true =>
    rw [(h.gone i hc).2]
    exact fun heq => by cases heq
  | false =>
    rw [hp.current.matchId hc]
    exact fun heq => Known.ids h hp.known hm' hne (Option.some.inj heq).symm

/-- A reveal touches neither starts nor ends. -/
theorem revealFair_frame (s : FairServer) (i : ℕ) : (s.revealFair i).starts = s.starts ∧ (s.revealFair i).endings = s.endings ∧
    (s.revealFair i).matchIds = s.matchIds ∧ (s.revealFair i).closed = s.closed ∧
      (s.revealFair i).finalized = s.finalized ∧ (s.revealFair i).exits = s.exits ∧
    (s.revealFair i).nextShuffle = s.nextShuffle ∧ (s.revealFair i).matchSeq = s.matchSeq ∧
    (s.revealFair i).nextEnding = s.nextEnding ∧ ∀ j ≠ i, (s.revealFair i).fairness.byRoom j = s.fairness.byRoom j := by
  unfold revealFair
  split
  · exact ⟨rfl, rfl, rfl, rfl, rfl, rfl, rfl, rfl, rfl, fun _ _ => rfl⟩
  split
  · exact ⟨rfl, rfl, rfl, rfl, rfl, rfl, rfl, rfl, rfl, fun _ _ => rfl⟩
  · exact ⟨rfl, rfl, rfl, rfl, rfl, rfl, rfl, rfl, rfl, fun j hj => Function.update_of_ne hj ..⟩

/-- A reveal keeps the order of matches. -/
theorem revealFair_orderly (h : Kept H b s) (ho : Orderly b s) (hp : Pending b s i m) : Orderly b (s.revealFair i) := by
  have hlive := revealFair_live s i
  obtain ⟨hstarts, hendings, hids, hclosed, hfinal, hexits, hnext, hseq, hnextEnding, hbyRoom⟩ := revealFair_frame s i
  have hcurrent : ∀ j m', Known b s m' → m'.matchId.roomId = j → j ≠ i → s.Current j m' → (s.revealFair i).Current j m' :=
    fun j m' hkn hroom hj hm =>
      ⟨(hbyRoom j hj).trans hm.byRoom, by rw [hclosed, hids]; exact hm.matchId,
        revealFair_other h (by rw [hroom]; exact fun heq => hj heq.symm) hkn.match_ hm.hidden⟩
  refine
    { finalized := by rw [hfinal, hseq]; exact ho.finalized
      live := fun j m' hl => ?_
      start := by rw [hstarts, hlive, hendings, hclosed, hids, hfinal]; exact ho.start
      ending := fun k y hk => ?_
      alone := by rw [hendings]; exact ho.alone
      nextEnding := by rw [hendings, hnextEnding]; exact ho.nextEnding
      once := by rw [hexits]; exact ho.once
      exits := fun m' e he => ?_ }
  · rw [hlive] at hl
    rw [hfinal]
    have hj : j ≠ i := by
      rintro rfl
      rw [hp.live] at hl
      cases hl
    exact ⟨hcurrent j m' (live_known h hl) (h.live j m' hl).2.2 hj (ho.live j m' hl).1, (ho.live j m' hl).2⟩
  · rw [hendings] at hk
    rw [hlive]
    obtain ⟨hc, hnone, hkn, hroom⟩ := ho.ending k y hk
    exact ⟨hcurrent _ _ hkn hroom (hp.endings k y hk) hc, hnone, hkn.mono hnext.ge, hroom⟩
  · rw [hexits] at he
    rw [hlive, hendings]
    obtain ⟨hkn, hc, hl, hend⟩ := ho.exits m' e he
    have hne := hp.exits m' e he
    refine ⟨hkn.mono hnext.ge, hc.reveal h (fun hx => ?_) (hp.matchIds_ne h hkn hne), hl, hend⟩
    rw [hp.current.byRoom, Option.some.injEq] at hx
    exact hne hx.symm

/-- **An end of the room's own match.** -/
theorem Ends.orderly (h : Kept H b s) (ho : Orderly b s) (hp : Pending b s i m) (he : Ends i m s p s') : Orderly b s' := by
  -- no other room has this match's shuffle
  have hother : ∀ {j m'}, Known b s m' → m'.matchId.roomId = j → j ≠ i → m'.shuffle ≠ m.shuffle := by
    intro j m' hkn hroom hj heq
    have hmm : m' = m := by rw [← hkn.match_, ← hp.known.match_, heq]
    rw [hmm, hp.room] at hroom
    exact hj hroom.symm
  have hlive : ∀ j m', s.live j = some m' → m'.shuffle ≠ m.shuffle := by
    intro j m' hl
    refine hother (live_known h hl) (h.live j m' hl).2.2 ?_
    rintro rfl
    rw [hp.live] at hl
    cases hl
  have hend : ∀ k y, s.endings k = some y → y.match_.shuffle ≠ m.shuffle := fun k y hk =>
    hother (ho.ending k y hk).2.2.1 (ho.ending k y hk).2.2.2 (hp.endings k y hk)
  have hexits : ∀ m' e, (m', e) ∈ s.exits → m'.matchId ≠ m.matchId := fun m' e he =>
    Known.ids h hp.known (ho.exits m' e he).1 (hp.exits m' e he)
  cases he with
  | quits e he =>
    refine exit_orderly ho hp.known ⟨?_, fun hpub => ?_, ?_, fun _ _ _ => hp.current.hidden⟩ hlive hend hexits
    · rintro rfl
      simp at he
    · rcases hpub with rfl | rfl
      · simp at he
      · simp at he
    · rintro rfl
      simp at he
  | publishes e he =>
    obtain ⟨-, hendings, -, -, -, hexitsEq, hnext, -⟩ := revealFair_frame s i
    refine exit_orderly (revealFair_orderly h ho hp) (hp.known.mono hnext.ge) (revealFair_concluded h hp he) ?_ ?_ ?_
    · rw [revealFair_live]
      exact hlive
    · rw [hendings]
      exact hend
    · rw [hexitsEq]
      exact hexits
  | waits stage =>
    -- the match waits: its end is the newest one
    have hcases : ∀ k y, (s.await i m stage).endings k = some y →
        k = s.nextEnding ∧ y = ⟨i, m, stage⟩ ∨ k ≠ s.nextEnding ∧ s.endings k = some y := by
      intro k y hk
      by_cases hkn : k = s.nextEnding
      · have hself : (s.await i m stage).endings s.nextEnding = some ⟨i, m, stage⟩ := Function.update_self ..
        rw [hkn, hself] at hk
        cases hk
        exact .inl ⟨hkn, rfl⟩
      · exact .inr ⟨hkn, (Function.update_of_ne hkn ..).symm.trans hk⟩
    have hcurrent : ∀ j m', s.Current j m' → (s.await i m stage).Current j m' := fun j m' hm =>
      ⟨hm.byRoom, hm.matchId, hm.hidden.unsent, hm.hidden.unserved⟩
    refine
      { finalized := ho.finalized
        live := fun j m' hl => ⟨hcurrent j m' (ho.live j m' hl).1, (ho.live j m' hl).2⟩
        start := fun k y hk => ?_
        ending := fun k y hk => ?_
        alone := fun k k' y y' hk hk' hroom => ?_
        nextEnding := fun k hk => ?_
        once := ho.once
        exits := fun m' e he => ?_ }
    · obtain ⟨hl, hends, hid, hf⟩ := ho.start k y hk
      refine ⟨hl, fun k' z hz => ?_, hid, hf⟩
      rcases hcases k' z hz with ⟨-, rfl⟩ | ⟨-, hz'⟩
      · exact fun heq => hp.starts k y hk heq.symm
      · exact hends k' z hz'
    · rcases hcases k y hk with ⟨-, rfl⟩ | ⟨-, hk'⟩
      · exact ⟨hcurrent i m hp.current, hp.live, hp.known.mono le_rfl, hp.room⟩
      · obtain ⟨hc, hl, hkn, hroom⟩ := ho.ending k y hk'
        exact ⟨hcurrent _ _ hc, hl, hkn.mono le_rfl, hroom⟩
    · rcases hcases k y hk with ⟨rfl, rfl⟩ | ⟨-, hy⟩
      · rcases hcases k' y' hk' with ⟨rfl, rfl⟩ | ⟨-, hy'⟩
        · rfl
        · exact absurd hroom.symm (hp.endings k' y' hy')
      · rcases hcases k' y' hk' with ⟨rfl, rfl⟩ | ⟨-, hy'⟩
        · exact absurd hroom (hp.endings k y hy)
        · exact ho.alone k k' y y' hy hy' hroom
    · have hk' : s.nextEnding + 1 ≤ k := hk
      have hkn : k ≠ s.nextEnding := by omega
      exact (Function.update_of_ne hkn ..).trans (ho.nextEnding k (by omega))
    · obtain ⟨hkn, hc, hl, hends⟩ := ho.exits m' e he
      refine ⟨hkn.mono le_rfl, hc.of_eq rfl rfl, hl, fun k y hk => ?_⟩
      rcases hcases k y hk with ⟨-, rfl⟩ | ⟨-, hk'⟩
      · exact fun heq => hp.exits m' e he heq.symm
      · exact hends k y hk'

/-- The ids claimed are the old ones and the room's. -/
theorem mem_claimed {id : MatchId} (h : id ∈ s.claimed i) : id ∈ s.finalized ∨ id = s.finalizeKey i := by
  have hall : id ∈ s.finalized ++ [s.finalizeKey i] := by
    unfold claimed at h
    simp only at h
    split_ifs at h
    · exact List.mem_of_mem_tail h
    · exact h
  simpa using hall

/-- The match of a room is over, and its end is due. -/
theorem ended_orderly (h : Kept H b s) (ho : Orderly b s) (hl : s.live i = some m) :
    s.finalizeKey i ∉ s.finalized ∧ Orderly b (s.ended i (s.claimed i)) ∧ Pending b (s.ended i (s.claimed i)) i m := by
  obtain ⟨hcur, hfresh⟩ := ho.live i m hl
  obtain ⟨-, -, hroom⟩ := h.live i m hl
  have hown := hcur.matchId (h.open hl)
  -- the key the end is recorded under is the id of the match that ends
  have hkey : s.finalizeKey i = m.matchId := by
    unfold finalizeKey
    rw [hown]
    rfl
  have hnotmem : ∀ id : MatchId, id.roomId ≠ i → id ∉ s.finalized → id ∉ s.claimed i := by
    intro id hid hout hin
    rcases mem_claimed hin with hin | rfl
    · exact hout hin
    · rw [hkey] at hid
      exact hid hroom
  -- while a match is live nothing else of its room is starting or ending
  have hstarts : ∀ k y, s.starts k = some y → y.roomId ≠ i := by
    intro k y hk heq
    have hnone := (ho.start k y hk).1
    rw [heq, hl] at hnone
    cases hnone
  have hends : ∀ k y, s.endings k = some y → y.roomId ≠ i := by
    intro k y hk heq
    have hnone := (ho.ending k y hk).2.1
    rw [heq, hl] at hnone
    cases hnone
  have hcurrent : ∀ j m', s.Current j m' → (s.ended i (s.claimed i)).Current j m' := fun j m' hm =>
    ⟨hm.byRoom, hm.matchId, hm.hidden.unsent, hm.hidden.unserved⟩
  refine ⟨by rw [hkey]; exact hfresh, ?_, ?_⟩
  · refine
      { finalized := fun id hid => ?_
        live := fun j m' hl' => ?_
        start := fun k y hk => ?_
        ending := fun k y hk => ?_
        alone := ho.alone
        nextEnding := ho.nextEnding
        once := ho.once
        exits := fun m' e he => ?_ }
    · rcases mem_claimed hid with hid | rfl
      · exact ho.finalized id hid
      · rw [hkey, hroom]
        exact (h.issued.ids i _ hown).2
    -- the other rooms' matches stay live, and their ids are not the one just recorded
    · have hl'' := update_none_some hl'
      have hj : j ≠ i := by
        rintro rfl
        have hgone : (s.ended j (s.claimed j)).live j = none := Function.update_self ..
        rw [hgone] at hl'
        cases hl'
      obtain ⟨hc, hf⟩ := ho.live j m' hl''
      exact ⟨hcurrent j m' hc, hnotmem _ (by rw [(h.live j m' hl'').2.2]; exact hj) hf⟩
    · obtain ⟨hnone, he, hid, hf⟩ := ho.start k y hk
      refine ⟨(Function.update_of_ne (hstarts k y hk) ..).trans hnone, he, hid, hnotmem _ ?_ hf⟩
      rw [(h.issued.starts k y hk).1]
      exact hstarts k y hk
    · obtain ⟨hc, hnone, hkn, hyroom⟩ := ho.ending k y hk
      exact ⟨hcurrent _ _ hc, (Function.update_of_ne (hends k y hk) ..).trans hnone, hkn.mono le_rfl, hyroom⟩
    · obtain ⟨hkn, hc, hlive, hend⟩ := ho.exits m' e he
      exact ⟨hkn.mono le_rfl, hc.of_eq rfl rfl, fun j m'' hl' => hlive j m'' (update_none_some hl'), hend⟩
  · exact ⟨hcurrent i m hcur, (live_known h hl).mono le_rfl, hroom, Function.update_self .., hstarts, hends,
      fun m' e he heq => (ho.exits m' e he).2.2.1 i m hl heq.symm⟩

/-- An end goes on. -/
theorem endEnding_orderly (ho : Orderly b s) {y : FairEnding} (hk : s.endings k = some y) :
    Orderly b (s.endEnding k) ∧ Pending b (s.endEnding k) y.roomId y.match_ := by
  obtain ⟨hcur, hnone, hknown, hroom⟩ := ho.ending k y hk
  have hcurrent : ∀ j m', s.Current j m' → (s.endEnding k).Current j m' := fun j m' hm =>
    ⟨hm.byRoom, hm.matchId, hm.hidden.unsent, hm.hidden.unserved⟩
  have hold : ∀ k' z, (s.endEnding k).endings k' = some z → k' ≠ k ∧ s.endings k' = some z := by
    intro k' z hz
    refine ⟨?_, update_none_some hz⟩
    rintro rfl
    have hgone : (s.endEnding k').endings k' = none := Function.update_self ..
    rw [hgone] at hz
    cases hz
  constructor
  · refine
      { finalized := ho.finalized
        live := fun j m' hl => ⟨hcurrent j m' (ho.live j m' hl).1, (ho.live j m' hl).2⟩
        start := fun k' z hz => ?_
        ending := fun k' z hz => ?_
        alone := fun k₁ k₂ y₁ y₂ h₁ h₂ => ho.alone k₁ k₂ y₁ y₂ (hold _ _ h₁).2 (hold _ _ h₂).2
        nextEnding := fun k' hk' => ?_
        once := ho.once
        exits := fun m' e he => ?_ }
    · obtain ⟨hl, hends, hid, hf⟩ := ho.start k' z hz
      exact ⟨hl, fun k'' w hw => hends k'' w (hold k'' w hw).2, hid, hf⟩
    · obtain ⟨hc, hl, hkn, hzroom⟩ := ho.ending k' z (hold k' z hz).2
      exact ⟨hcurrent _ _ hc, hl, hkn.mono le_rfl, hzroom⟩
    · show Function.update s.endings k none k' = none
      by_cases hkk : k' = k
      · rw [hkk, Function.update_self]
      · rw [Function.update_of_ne hkk]
        exact ho.nextEnding k' hk'
    · obtain ⟨hkn, hc, hl, hends⟩ := ho.exits m' e he
      exact ⟨hkn.mono le_rfl, hc.of_eq rfl rfl, hl, fun k' z hz => hends k' z (hold k' z hz).2⟩
  · refine ⟨hcurrent _ _ hcur, hknown.mono le_rfl, hroom, hnone, fun k' z hz heq => ?_, fun k' z hz heq => ?_,
      fun m' e he heq => (ho.exits m' e he).2.2.2 k y hk heq.symm⟩
    · exact (ho.start k' z hz).2.1 k y hk heq.symm
    · exact (hold k' z hz).1 (ho.alone k' k z y (hold k' z hz).2 hk heq)

/-- A room that closes takes its match id with it. -/
theorem closeRoom_orderly (ho : Orderly b s) (i : ℕ) : Orderly b (s.closeRoom i) := by
  -- the match id is asked for only while the room is there
  have hids : ∀ {j id}, (s.closed j = false → s.matchIds j = id) → (s.closeRoom i).closed j = false →
      (s.closeRoom i).matchIds j = id := by
    intro j id h hc
    have hj : j ≠ i := by
      rintro rfl
      rw [show (s.closeRoom j).closed j = true from Function.update_self ..] at hc
      cases hc
    exact (Function.update_of_ne hj ..).trans (h ((Function.update_of_ne hj ..).symm.trans hc))
  have hcurrent : ∀ j m, s.Current j m → (s.closeRoom i).Current j m := fun j m hm =>
    ⟨hm.byRoom, hids hm.matchId, hm.hidden.unsent, hm.hidden.unserved⟩
  have hnone : ∀ j, s.live j = none → (s.closeRoom i).live j = none := by
    intro j hj
    refine Option.eq_none_iff_forall_ne_some.mpr fun m hm => ?_
    rw [update_none_some hm] at hj
    cases hj
  refine
    { finalized := ho.finalized
      live := fun j m hl => ⟨hcurrent j m (ho.live j m (update_none_some hl)).1, (ho.live j m (update_none_some hl)).2⟩
      start := fun k y hk => ?_
      ending := fun k y hk => ?_
      alone := ho.alone
      nextEnding := ho.nextEnding
      once := ho.once
      exits := fun m e he => ?_ }
  · obtain ⟨hl, hends, hid, hf⟩ := ho.start k y hk
    exact ⟨hnone _ hl, hends, hids hid, hf⟩
  · obtain ⟨hc, hl, hkn, hroom⟩ := ho.ending k y hk
    exact ⟨hcurrent _ _ hc, hnone _ hl, hkn.mono le_rfl, hroom⟩
  · obtain ⟨hkn, hc, hl, hend⟩ := ho.exits m e he
    exact ⟨hkn.mono le_rfl, hc.of_eq rfl rfl, fun j m' hl' => hl j m' (update_none_some hl'), hend⟩

/-! ## Runs of one match after the other -/

/-- Every successive event keeps the order of matches. -/
theorem step_orderly (h : Kept H b s) (ho : Orderly b s) (e : FairEvent) (hok : s.Successive e) :
    ∃ b', Kept H b' (s.step H money e) ∧ Orderly b' (s.step H money e) := by
  by_cases hd : e.Deals
  · obtain ⟨k, room, starts, bytes, rfl⟩ := hd
    show ∃ b', Kept H b' (s.deal H k room starts bytes) ∧ Orderly b' (s.deal H k room starts bytes)
    rcases deal_steps h k room starts bytes with ⟨hstill, hkept⟩ |
        ⟨y, s₁, fair, practice, b', hk, hopen, h₁, hstill, heq, hkept, hb'⟩
    · exact ⟨b, hkept, hstill.orderly ho⟩
    · rw [heq]
      exact ⟨b', hkept, firstDeal_orderly h₁ (hstill.orderly ho) hk hopen fair practice hb'⟩
  · refine ⟨b, step_kept h hd, ?_⟩
    cases e with
    | check i allReady seats bytes => exact (maybeStartCountdown_still ..).orderly ho
    | close i => exact closeRoom_orderly ho i
    | clientSeed u seed => exact (onClientSeed_still ..).orderly ho
    | disconnect u => exact (withFairness_still (f := s.fairness.dropClientSeed u) s rfl).orderly ho
    | countdown i allReady => exact onCountdown_orderly ho hok
    | giveUp k => exact (endStart_still s k).orderly ho
    | deal k room starts bytes => exact absurd ⟨k, room, starts, bytes, rfl⟩ hd
    | nextGame i =>
      show Orderly b (s.nextGame H i)
      unfold nextGame
      cases hl : s.live i with
      | none => exact ho
      | some m => exact dealNext_orderly h ho hl
    | matchEnded i won room =>
      show Orderly b (s.settleAndEmitMatchEnd money i won room)
      rcases matchEnded_cases h money i won room with ⟨-, heq⟩ | ⟨m, hl, hends⟩
      · rw [heq]
        exact ho
      · obtain ⟨hfresh, ho', hpend⟩ := ended_orderly h ho hl
        rcases hends with ⟨hin, -⟩ | ⟨-, p, hends⟩
        · exact absurd hin hfresh
        · exact hends.orderly (ended_kept h i _) ho' hpend
    | adminVoid i =>
      show Orderly b (s.adminVoidMatch money i)
      rcases adminVoid_cases money s i with heq | ⟨m, hl, -, p, hends⟩
      · rw [heq]
        exact ho
      · obtain ⟨-, ho', hpend⟩ := ended_orderly h ho hl
        exact hends.orderly (ended_kept h i _) ho' hpend
    | resume k answer room =>
      show Orderly b (s.resumeEnding k answer room)
      cases hk : s.endings k with
      | none =>
        unfold resumeEnding
        rw [hk]
        exact ho
      | some y =>
        obtain ⟨ho', hpend⟩ := endEnding_orderly ho hk
        have hkept' : Kept H b (s.endEnding k) := h.frame fun _ _ => id
        exact (resumeEnding_ends hk answer room).orderly hkept' ho' hpend

/-- A server starts in order. -/
theorem boot_orderly (b : ℕ → Birth) : Orderly b {} where
  finalized _ h := absurd h List.not_mem_nil
  live _ _ h := by cases h
  start _ _ h := by cases h
  ending _ _ h := by cases h
  alone _ _ _ _ h := by cases h
  nextEnding _ _ := rfl
  once := List.nodup_nil
  exits _ _ h := absurd h List.not_mem_nil

/-- The end of a match that leaves its seeds hidden. -/
def Withholds (e : EndExit) : Prop := e ∈ [.refundFailed, .settledElsewhere, .settleFailed, .noScoreboard]

/-- The ways a match ends. -/
theorem exit_cases {e : EndExit} (h : e ≠ .alreadyFinalized) :
    (e = .voided ∨ e = .announced) ∨ e = .voidedClosed ∨ Withholds e := by
  unfold Withholds
  cases e with
  | alreadyFinalized => exact absurd rfl h
  | voided => exact .inl (.inl rfl)
  | announced => exact .inl (.inr rfl)
  | voidedClosed => exact .inr (.inl rfl)
  | refundFailed => exact .inr (.inr (by decide))
  | settledElsewhere => exact .inr (.inr (by decide))
  | settleFailed => exact .inr (.inr (by decide))
  | noScoreboard => exact .inr (.inr (by decide))

/-- What has become of the seeds tells how the match ended. -/
theorem Concluded.exact {e : EndExit} (hc : s.Concluded m e) :
    (s.Published m ↔ e = .voided ∨ e = .announced) ∧ (s.Unlinked m ↔ e = .voidedClosed) ∧
      (s.Hidden m ↔ Withholds e) := by
  have hpl : s.Published m → ¬s.Unlinked m := by
    rintro ⟨⟨i, r, hr, -⟩, -⟩ hu
    cases hu.only i r _ hr
  have hph : s.Published m → ¬s.Hidden m := by
    rintro ⟨⟨i, r, hr, -⟩, -⟩ hh
    exact hh.unsent i r _ hr
  have hlh : s.Unlinked m → ¬s.Hidden m := by
    rintro ⟨⟨i, r, hr⟩, -, -⟩ hh
    exact hh.unsent i r _ hr
  rcases exit_cases hc.once with hpub | rfl | hw
  · have hp := hc.published hpub
    refine ⟨iff_of_true hp hpub, iff_of_false (hpl hp) ?_, iff_of_false (hph hp) ?_⟩
    · rcases hpub with rfl | rfl
      · decide
      · decide
    · unfold Withholds
      rcases hpub with rfl | rfl
      · decide
      · decide
  · have hu := hc.unlinked rfl
    exact ⟨iff_of_false (fun hp => hpl hp hu) (by decide), iff_of_true hu rfl,
      iff_of_false (hlh hu) (by unfold Withholds; decide)⟩
  · have hv : e ≠ .voided := by
      rintro rfl
      unfold Withholds at hw
      simp at hw
    have ha : e ≠ .announced := by
      rintro rfl
      unfold Withholds at hw
      simp at hw
    have hvc : e ≠ .voidedClosed := by
      rintro rfl
      unfold Withholds at hw
      simp at hw
    have hh := hc.hidden hv ha hvc
    exact ⟨iff_of_false (fun hp => hph hp hh) (not_or.2 ⟨hv, ha⟩), iff_of_false (fun hu => hlh hu hh) hvc, iff_of_true hh hw⟩

/-- **Seeds are published once their match is through.** If every room plays one match after the other, no match ends twice,
and the seeds of a match whose end has returned are sent under its own id and served, every game of them, if the end was
announced, or voided in a room that was still there. A void whose room is gone by then sends them under no id and serves
none; after any other return they stay hidden for good. -/
theorem seeds_published_iff (H : Hashes) (money : Bool) (es : List FairEvent) (hes : Guarded (step H money) Successive {} es) :
    let s := run (step H money) {} es
    (s.exits.map fun p => p.1.matchId).Nodup ∧ ∀ m e, (m, e) ∈ s.exits → e ≠ .alreadyFinalized ∧
      (s.Published m ↔ e = .voided ∨ e = .announced) ∧ (s.Unlinked m ↔ e = .voidedClosed) ∧ (s.Hidden m ↔ Withholds e) := by
  have hstep : ∀ (s : FairServer) e, (∃ b, Kept H b s ∧ Orderly b s) → s.Successive e →
      ∃ b, Kept H b (s.step H money e) ∧ Orderly b (s.step H money e) := by
    rintro s e ⟨b, h, ho⟩ hok
    exact step_orderly h ho e hok
  obtain ⟨b₀, hboot⟩ := boot_exists_kept H
  obtain ⟨b, -, ho⟩ := guarded_inv hstep ⟨b₀, hboot, boot_orderly b₀⟩ es hes
  refine ⟨ho.once, fun m e he => ?_⟩
  obtain ⟨-, hc, -⟩ := ho.exits m e he
  exact ⟨hc.once, hc.exact⟩

/-- A first deal goes through when the room is free. -/
theorem deal_goes {y : FairStart} (hk : s.starts k = some y) (hl : s.live y.roomId = none) (hopen : s.closed y.roomId = false)
    (room : FairRoom) (bytes : DealBytes) :
    ∃ notes fair, s.deal H k room true bytes = firstDeal H { s with notes } k y fair room.practice := by
  have hseed : ∃ seed notes, s.committedSeed H y.roomId bytes = (seed, { s with notes }) := by
    unfold committedSeed
    split
    · exact ⟨_, s.notes, rfl⟩
    · exact ⟨_, _, rfl⟩
  obtain ⟨seed, notes, hseed⟩ := hseed
  exact ⟨notes, _, deal_starts hk hl hopen room bytes hseed⟩

/-- The same bytes for every start. -/
def sevens : DealBytes := ⟨.replicate 32 7, .replicate 32 7, .replicate 16 7⟩

/-- Three rooms are ready, and start. -/
def threeReady : List FairEvent :=
  [.check 5 true [] (.replicate 32 5), .check 6 true [] (.replicate 32 6), .check 7 true [] (.replicate 32 7),
    .countdown 5 true, .countdown 6 true, .countdown 7 true]

/-- All play. The pot of the second cannot be settled, and both players of the third leave while an admin's void waits for
the refund. -/
def threeRooms : List FairEvent :=
  threeReady ++ [.deal 0 ⟨.oneVOne, [], 100, false⟩ true sevens, .deal 1 ⟨.oneVOne, [], 100, false⟩ true sevens,
    .deal 2 ⟨.oneVOne, [], 100, false⟩ true sevens, .matchEnded 5 true {}, .matchEnded 6 true {}, .adminVoid 7,
    .resume 0 .done { tournament := true }, .resume 1 .threw {}, .close 7, .resume 2 .done {}]

/-- Three rooms, one match each. -/
theorem threeRooms_successive : Guarded (step mixHashes true) Successive {} threeRooms := by
  refine ⟨trivial, trivial, trivial, fun _ _ => ⟨rfl, fun k y hk => ?_, fun k y hk => ?_⟩,
    fun _ _ => ⟨rfl, fun k y hk => ?_, fun k y hk => ?_⟩, fun _ _ => ⟨rfl, fun k y hk => ?_, fun k y hk => ?_⟩,
    trivial, trivial, trivial, trivial, trivial, trivial, trivial, trivial, trivial, trivial, trivial⟩
  · cases hk
  · cases hk
  · have hstarts : Function.update (fun _ => none) 0 (some ⟨5, ⟨0, 5, 1⟩⟩) k = some y := hk
    rcases update_some_cases hstarts with ⟨-, rfl⟩ | ⟨-, hnone⟩
    · decide
    · cases hnone
  · cases hk
  · have hstarts : Function.update (Function.update (fun _ => none) 0 (some ⟨5, ⟨0, 5, 1⟩⟩)) 1 (some ⟨6, ⟨0, 6, 1⟩⟩) k =
        some y := hk
    rcases update_some_cases hstarts with ⟨-, rfl⟩ | ⟨-, hfirst⟩
    · decide
    rcases update_some_cases hfirst with ⟨-, rfl⟩ | ⟨-, hnone⟩
    · decide
    · cases hnone
  · cases hk

/-- One match is announced, one is not settled, one is voided with its room gone. -/
theorem threeRooms_exits : (run (step mixHashes true) {} threeRooms).exits =
    [(⟨⟨0, 5, 1⟩, 0, false⟩, .announced), (⟨⟨0, 6, 1⟩, 1, false⟩, .settleFailed),
      (⟨⟨0, 7, 1⟩, 2, false⟩, .voidedClosed)] := by
  unfold threeRooms
  simp only [run_append, run_cons, run_nil, step]
  obtain ⟨notes, fair, h₀⟩ := deal_goes (H := mixHashes) (s := run (step mixHashes true) {} threeReady) (k := 0)
    (y := ⟨5, ⟨0, 5, 1⟩⟩) rfl rfl rfl ⟨.oneVOne, [], 100, false⟩ sevens
  rw [h₀]
  obtain ⟨notes', fair', h₁⟩ := deal_goes (H := mixHashes) (k := 1) (y := ⟨6, ⟨0, 6, 1⟩⟩)
    (s := firstDeal mixHashes { run (step mixHashes true) {} threeReady with notes } 0 ⟨5, ⟨0, 5, 1⟩⟩ fair false)
    rfl rfl rfl ⟨.oneVOne, [], 100, false⟩ sevens
  rw [h₁]
  generalize hs : FairServer.mk _ _ _ _ _ _ _ _ _ _ _ _ _ _ _ _ = s₁
  obtain ⟨notes'', fair'', h₂⟩ := deal_goes (H := mixHashes) (k := 2) (y := ⟨7, ⟨0, 7, 1⟩⟩)
    (s := firstDeal mixHashes s₁ 1 ⟨6, ⟨0, 6, 1⟩⟩ fair' false)
    (by rw [← hs]; rfl) (by rw [← hs]; rfl) (by rw [← hs]; rfl) ⟨.oneVOne, [], 100, false⟩ sevens
  rw [h₂, ← hs]
  rfl

/-- The seeds of the first match are published, those of the second stay hidden, and those of the third are sent under no
id. -/
theorem seeds_published_three : ∃ m m' m'', (run (step mixHashes true) {} threeRooms).Published m ∧
    (run (step mixHashes true) {} threeRooms).Hidden m' ∧ (run (step mixHashes true) {} threeRooms).Unlinked m'' ∧
    m.matchId.roomId = 5 ∧ m'.matchId.roomId = 6 ∧ m''.matchId.roomId = 7 := by
  obtain ⟨-, hall⟩ := seeds_published_iff mixHashes true threeRooms threeRooms_successive
  simp only [threeRooms_exits, List.mem_cons, List.not_mem_nil, or_false] at hall
  obtain ⟨-, hpub, -, -⟩ := hall _ _ (.inl rfl)
  obtain ⟨-, -, -, hhid⟩ := hall _ _ (.inr (.inl rfl))
  obtain ⟨-, -, hunl, -⟩ := hall _ _ (.inr (.inr rfl))
  exact ⟨_, _, _, hpub.2 (.inr rfl), hhid.2 (by unfold Withholds; decide), hunl.2 rfl, rfl, rfl, rfl⟩

end FairServer

end Murlan
