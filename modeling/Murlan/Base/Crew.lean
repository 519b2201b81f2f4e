import Mathlib.Data.List.Basic
import Murlan.Base.Run

/-!
# Tasks over one store

Any number of tasks over one store, in any order of their steps. A task carries what it
has read and where it stands; `resume` lets it go on until its next wait, and the answer
to that wait is taken from the store as it then is. A task that has ended stays as it is.

* `Crew.step`: the system of the tasks.
* `Crew.Steady ok I J`: the step of a task that meets `ok` keeps the invariant `I` of the
  store and the assertion `J` of the task, and the assertions of the others.
* `Crew.Steady.guarded`: `I` and every `J` after every run whose steps all meet `ok`.
* `Crew.Paired ok beside I J K`: the same with an assertion `K` of any two tasks, and with a
  condition `beside` on the other tasks of each step.
* `Crew.Followed`: what is known of one task, whatever the others do; `Followed.decides`: a task that either
  keeps to `ok` or steps aside for good.
* `Crew.Repaid`: what the store owes, some task under way serves.
* `Crew.Logged`: a relation between the store and what the tasks have done.
-/

namespace Murlan

/-- The tasks of a server: `enter` is a task at its first wait, `ω` what the environment decides
of an answer, `δ` what may happen to the store in between. -/
structure Crew (σ τ Op ω δ : Type) where
  enter : σ → Op → τ
  resume : ω → τ → σ → τ × σ
  drift : δ → σ → σ

namespace Crew

/-- The store, and the tasks in the order they entered. -/
structure State (σ τ : Type) where
  store : σ
  tasks : List τ := []

/-- A task enters, a task goes on, or the environment acts. -/
inductive Event (Op ω δ : Type) where
  | enter (op : Op)
  | resume (task : ℕ) (w : ω)
  | drift (d : δ)

variable {σ τ Op ω δ : Type}

/-- One event; a task that goes on leaves its phase and the store changed. -/
def step (c : Crew σ τ Op ω δ) (s : State σ τ) : Event Op ω δ → State σ τ
  | .enter op => { s with tasks := s.tasks ++ [c.enter s.store op] }
  | .resume k w =>
    match s.tasks[k]? with
    | none => s
    | some t => { store := (c.resume w t s.store).2, tasks := s.tasks.set k (c.resume w t s.store).1 }
  | .drift d => { s with store := c.drift d s.store }

/-- The task that goes on meets `ok`. -/
def Meets (ok : σ → τ → ω → Prop) (s : State σ τ) : Event Op ω δ → Prop
  | .resume k w => ∀ t, s.tasks[k]? = some t → ok s.store t w
  | _ => True

instance {ok : σ → τ → ω → Prop} [∀ s t w, Decidable (ok s t w)] (s : State σ τ) (e : Event Op ω δ) :
    Decidable (Meets ok s e) :=
  match e with
  | .resume k w =>
    match h : s.tasks[k]? with
    | none => isTrue fun t ht => by rw [h] at ht; cases ht
    | some t =>
      decidable_of_iff (ok s.store t w)
        ⟨fun hok u hu => Option.some.inj (h.symm.trans hu) ▸ hok, fun hall => hall t h⟩
  | .enter _ => isTrue trivial
  | .drift _ => isTrue trivial

theorem resume_eq (c : Crew σ τ Op ω δ) {s : State σ τ} {k : ℕ} {t : τ} (hk : s.tasks[k]? = some t) (w : ω) :
    c.step s (.resume k w) =
      { store := (c.resume w t s.store).2, tasks := s.tasks.set k (c.resume w t s.store).1 } := by
  simp [step, hk]

theorem resume_cases (c : Crew σ τ Op ω δ) (s : State σ τ) (k : ℕ) (w : ω) :
    c.step s (.resume k w) = s ∨ ∃ t, s.tasks[k]? = some t ∧
      c.step s (.resume k w) =
        { store := (c.resume w t s.store).2, tasks := s.tasks.set k (c.resume w t s.store).1 } := by
  cases hk : s.tasks[k]? with
  | none => exact .inl (by simp [step, hk])
  | some t => exact .inr ⟨t, rfl, c.resume_eq hk w⟩

/-- A task of the list after one of them has gone on: that one, or one that was there. -/
theorem mem_set {tasks : List τ} {k : ℕ} {t u : τ} (h : u ∈ tasks.set k t) : u = t ∨ u ∈ tasks :=
  (List.mem_or_eq_of_mem_set h).symm

/-- What one step of a task keeps: the invariant `I`, its own assertion, and the others'. -/
structure Steady (c : Crew σ τ Op ω δ) (ok : σ → τ → ω → Prop) (I : σ → Prop) (J : σ → τ → Prop) : Prop where
  entered : ∀ s op, I s → J s (c.enter s op)
  resumed : ∀ s t w, I s → J s t → ok s t w → I (c.resume w t s).2 ∧ J (c.resume w t s).2 (c.resume w t s).1
  others : ∀ s t w u, I s → J s t → ok s t w → J s u → J (c.resume w t s).2 u
  drifted : ∀ s d, I s → I (c.drift d s)
  drifted_task : ∀ s d u, I s → J s u → J (c.drift d s) u

/-! ## Two tasks at a time -/

/-- The task that goes on meets `ok`, and meets `beside` with each of the others. -/
def MeetsBeside (ok : σ → τ → ω → Prop) (beside : σ → τ → ω → τ → Prop) (s : State σ τ) : Event Op ω δ → Prop
  | .resume k w => ∀ t, s.tasks[k]? = some t → ok s.store t w ∧ ∀ u ∈ s.tasks.eraseIdx k, beside s.store t w u
  | _ => True

instance {ok : σ → τ → ω → Prop} {beside : σ → τ → ω → τ → Prop} [∀ s t w, Decidable (ok s t w)]
    [∀ s t w u, Decidable (beside s t w u)] (s : State σ τ) (e : Event Op ω δ) :
    Decidable (MeetsBeside ok beside s e) :=
  match e with
  | .resume k w =>
    match h : s.tasks[k]? with
    | none => isTrue fun t ht => by rw [h] at ht; cases ht
    | some t =>
      decidable_of_iff (ok s.store t w ∧ ∀ u ∈ s.tasks.eraseIdx k, beside s.store t w u)
        ⟨fun hok u hu => Option.some.inj (h.symm.trans hu) ▸ hok, fun hall => hall t h⟩
  | .enter _ => isTrue trivial
  | .drift _ => isTrue trivial

/-- The invariant, the assertion of each task, and that of any two. -/
structure Holds (I : σ → Prop) (J : σ → τ → Prop) (K : τ → τ → Prop) (s : State σ τ) : Prop where
  store : I s.store
  task : ∀ t ∈ s.tasks, J s.store t
  pair : ∀ (i j : ℕ) (t u : τ), i ≠ j → s.tasks[i]? = some t → s.tasks[j]? = some u → K t u

/-- What the step of `t` to `t'` leaves: the invariant, its own assertion, and those of each other
task and of the two. -/
structure Stepped (I : σ → Prop) (J : σ → τ → Prop) (K : τ → τ → Prop) (beside : τ → Prop) (s : σ) (t : τ) (s' : σ)
    (t' : τ) : Prop where
  store : I s'
  own : J s' t'
  others : ∀ u, J s u → K t u → K u t → beside u → J s' u ∧ K t' u ∧ K u t'

/-- What the steps of the tasks keep, two tasks at a time. -/
structure Paired (c : Crew σ τ Op ω δ) (ok : σ → τ → ω → Prop) (beside : σ → τ → ω → τ → Prop) (I : σ → Prop)
    (J : σ → τ → Prop) (K : τ → τ → Prop) : Prop where
  entered : ∀ s op, I s → J s (c.enter s op)
  entered_pair : ∀ s op u, I s → J s u → K (c.enter s op) u ∧ K u (c.enter s op)
  resumed : ∀ s t w, I s → J s t → ok s t w →
    Stepped I J K (beside s t w) s t (c.resume w t s).2 (c.resume w t s).1
  drifted : ∀ s d, I s → I (c.drift d s)
  drifted_task : ∀ s d u, I s → J s u → J (c.drift d s) u

namespace Paired

variable {c : Crew σ τ Op ω δ} {ok : σ → τ → ω → Prop} {beside : σ → τ → ω → τ → Prop} {I : σ → Prop}
  {J : σ → τ → Prop} {K : τ → τ → Prop}

/-- A step keeps what holds of each task and of each pair. -/
theorem step (h : Paired c ok beside I J K) {s : State σ τ} (hs : Holds I J K s) {e : Event Op ω δ}
    (hok : MeetsBeside ok beside s e) : Holds I J K (c.step s e) := by
  cases e with
  | enter op =>
    have hnew := h.entered s.store op hs.store
    have hpairs : ∀ u ∈ s.tasks, K (c.enter s.store op) u ∧ K u (c.enter s.store op) :=
      fun u hu => h.entered_pair s.store op u hs.store (hs.task u hu)
    refine ⟨hs.store, fun t ht => ?_, fun i j t u hij ht hu => ?_⟩
    · rcases List.mem_append.mp ht with ht | ht
      · exact hs.task t ht
      · rw [List.mem_singleton.mp ht]
        exact hnew
    · -- at most one of the two is the new task
      have hcase : ∀ (i : ℕ) (t : τ), (s.tasks ++ [c.enter s.store op])[i]? = some t →
          s.tasks[i]? = some t ∨ (i = s.tasks.length ∧ t = c.enter s.store op) := by
        intro i t hi
        rcases Nat.lt_or_ge i s.tasks.length with hlt | hge
        · rw [List.getElem?_append_left hlt] at hi
          exact .inl hi
        · rw [List.getElem?_append_right hge, List.getElem?_singleton] at hi
          split at hi
          · exact .inr ⟨by omega, (Option.some.inj hi).symm⟩
          · cases hi
      rcases hcase i t ht with ht | ⟨rfl, rfl⟩
      · rcases hcase j u hu with hu | ⟨rfl, rfl⟩
        · exact hs.pair i j t u hij ht hu
        · exact (hpairs t (List.mem_of_getElem? ht)).2
      · rcases hcase j u hu with hu | ⟨rfl, -⟩
        · exact (hpairs u (List.mem_of_getElem? hu)).1
        · exact absurd rfl hij
  | resume k w =>
    rcases c.resume_cases s k w with hsame | ⟨t, hk, hstep⟩
    · rw [hsame]
      exact hs
    · have hlt : k < s.tasks.length := (List.getElem?_eq_some_iff.mp hk).1
      have ht := hs.task t (List.mem_of_getElem? hk)
      obtain ⟨hmeets, hbeside⟩ := hok t hk
      have hkept := h.resumed s.store t w hs.store ht hmeets
      have hothers : ∀ (j : ℕ) (u : τ), j ≠ k → s.tasks[j]? = some u →
          J (c.resume w t s.store).2 u ∧ K (c.resume w t s.store).1 u ∧ K u (c.resume w t s.store).1 := by
        intro j u hjk hu
        have hmem : u ∈ s.tasks.eraseIdx k := List.mem_eraseIdx_iff_getElem?.mpr ⟨j, hjk, hu⟩
        exact hkept.others u (hs.task u (List.mem_of_getElem? hu)) (hs.pair k j t u (Ne.symm hjk) hk hu)
          (hs.pair j k u t hjk hu hk) (hbeside u hmem)
      have hcase : ∀ (i : ℕ) (u : τ), (s.tasks.set k (c.resume w t s.store).1)[i]? = some u →
          (i = k ∧ u = (c.resume w t s.store).1) ∨ (i ≠ k ∧ s.tasks[i]? = some u) := by
        intro i u hi
        by_cases hik : i = k
        · subst hik
          rw [List.getElem?_set_self hlt] at hi
          exact .inl ⟨rfl, (Option.some.inj hi).symm⟩
        · rw [List.getElem?_set_ne (Ne.symm hik)] at hi
          exact .inr ⟨hik, hi⟩
      rw [hstep]
      refine ⟨hkept.store, fun u hu => ?_, fun i j u v hij hu hv => ?_⟩
      · obtain ⟨i, hi⟩ := List.mem_iff_getElem?.mp hu
        rcases hcase i u hi with ⟨-, rfl⟩ | ⟨hik, hi⟩
        · exact hkept.own
        · exact (hothers i u hik hi).1
      · rcases hcase i u hu with ⟨rfl, rfl⟩ | ⟨hik, hu'⟩
        · rcases hcase j v hv with ⟨rfl, -⟩ | ⟨hjk, hv'⟩
          · exact absurd rfl hij
          · exact (hothers j v hjk hv').2.1
        · rcases hcase j v hv with ⟨rfl, rfl⟩ | ⟨-, hv'⟩
          · exact (hothers i u hik hu').2.2
          · exact hs.pair i j u v hij hu' hv'
  | drift d =>
    exact ⟨h.drifted s.store d hs.store, fun t ht => h.drifted_task s.store d t hs.store (hs.task t ht), hs.pair⟩

/-- **Two tasks at a time.** What the steps keep holds after every run whose steps all meet the conditions. -/
theorem guarded (h : Paired c ok beside I J K) {s : State σ τ} (hs : Holds I J K s) (es : List (Event Op ω δ))
    (hg : Guarded c.step (MeetsBeside ok beside) s es) : Holds I J K (run c.step s es) :=
  guarded_inv (P := Holds I J K) (fun _ _ hs hok => h.step hs hok) hs es hg

end Paired

theorem meetsBeside_of_meets {ok : σ → τ → ω → Prop} {s : State σ τ} {e : Event Op ω δ} (h : Meets ok s e) :
    MeetsBeside ok (fun _ _ _ _ => True) s e := by
  cases e with
  | enter op => trivial
  | resume k w => exact fun t hk => ⟨h t hk, fun _ _ => trivial⟩
  | drift d => trivial

/-! ## One task at a time -/

namespace Steady

variable {c : Crew σ τ Op ω δ} {ok : σ → τ → ω → Prop} {I : σ → Prop} {J : σ → τ → Prop}

/-- Nothing is asked of two tasks. -/
theorem paired (h : Steady c ok I J) : Paired c ok (fun _ _ _ _ => True) I J (fun _ _ => True) where
  entered := h.entered
  entered_pair _ _ _ _ _ := ⟨trivial, trivial⟩
  resumed s t w hs ht hok := by
    obtain ⟨hstore, hown⟩ := h.resumed s t w hs ht hok
    exact ⟨hstore, hown, fun u hu _ _ _ => ⟨h.others s t w u hs ht hok hu, trivial, trivial⟩⟩
  drifted := h.drifted
  drifted_task := h.drifted_task

theorem step (h : Steady c ok I J) {s : State σ τ} (hs : I s.store ∧ ∀ t ∈ s.tasks, J s.store t)
    {e : Event Op ω δ} (hok : Meets ok s e) :
    I (c.step s e).store ∧ ∀ t ∈ (c.step s e).tasks, J (c.step s e).store t := by
  have hheld : Holds I J (fun _ _ => True) s := ⟨hs.1, hs.2, fun _ _ _ _ _ _ _ => trivial⟩
  have hnext := h.paired.step hheld (meetsBeside_of_meets hok)
  exact ⟨hnext.store, hnext.task⟩

/-- **Tasks side by side.** What the steps keep holds after every run whose steps all meet `ok`. -/
theorem guarded (h : Steady c ok I J) {s : State σ τ} (hs : I s.store ∧ ∀ t ∈ s.tasks, J s.store t)
    (es : List (Event Op ω δ)) (hg : Guarded c.step (Meets ok) s es) :
    I (run c.step s es).store ∧ ∀ t ∈ (run c.step s es).tasks, J (run c.step s es).store t :=
  guarded_inv (P := fun s : State σ τ => I s.store ∧ ∀ t ∈ s.tasks, J s.store t)
    (fun _ _ hs hok => h.step hs hok) hs es hg

end Steady

/-! ## One task among the others -/

/-- Task `k` meets `ok` when it goes on. -/
def MeetsAt (ok : σ → τ → ω → Prop) (k : ℕ) (s : State σ τ) : Event Op ω δ → Prop
  | .resume j w => j = k → ∀ t, s.tasks[j]? = some t → ok s.store t w
  | _ => True

instance {ok : σ → τ → ω → Prop} [∀ s t w, Decidable (ok s t w)] (k : ℕ) (s : State σ τ) (e : Event Op ω δ) :
    Decidable (MeetsAt ok k s e) :=
  match e with
  | .resume j w => inferInstanceAs (Decidable (j = k → Meets ok s (.resume j w : Event Op ω δ)))
  | .enter _ => isTrue trivial
  | .drift _ => isTrue trivial

/-- What the steps of one task keep if they meet `ok`, and what the others leave alone. -/
structure Followed (c : Crew σ τ Op ω δ) (ok : σ → τ → ω → Prop) (I : σ → Prop) (J F : σ → τ → Prop) : Prop where
  own : ∀ s t w, I s → J s t → F s t → ok s t w → F (c.resume w t s).2 (c.resume w t s).1
  others : ∀ s t w u, I s → J s t → F s u → F (c.resume w t s).2 u
  drifted : ∀ s d u, F s u → F (c.drift d s) u

namespace Followed

variable {c : Crew σ τ Op ω δ} {ok : σ → τ → ω → Prop} {I : σ → Prop} {J F G : σ → τ → Prop} {K : τ → τ → Prop} {k : ℕ}

/-- What is followed of a task holds after every step that is allowed. -/
theorem step (h : Followed c ok I J F) {s : State σ τ} (hs : Holds I J K s) (hk : ∃ t, s.tasks[k]? = some t ∧ F s.store t)
    {e : Event Op ω δ} (hok : MeetsAt ok k s e) : ∃ t, (c.step s e).tasks[k]? = some t ∧ F (c.step s e).store t := by
  obtain ⟨t, ht, hF⟩ := hk
  have hlt : k < s.tasks.length := (List.getElem?_eq_some_iff.mp ht).1
  cases e with
  | enter op => exact ⟨t, (List.getElem?_append_left hlt).trans ht, hF⟩
  | resume j w =>
    rcases c.resume_cases s j w with hsame | ⟨u, hj, hstep⟩
    · rw [hsame]
      exact ⟨t, ht, hF⟩
    · have hu := hs.task u (List.mem_of_getElem? hj)
      rw [hstep]
      by_cases hjk : j = k
      · subst hjk
        obtain rfl := Option.some.inj (ht.symm.trans hj)
        exact ⟨_, List.getElem?_set_self hlt, h.own s.store t w hs.store hu hF (hok rfl t hj)⟩
      · exact ⟨t, (List.getElem?_set_ne hjk).trans ht, h.others s.store u w t hs.store hu hF⟩
  | drift d => exact ⟨t, ht, h.drifted s.store d t hF⟩

/-- **One task.** What its steps keep if they meet `ok` holds of it after every run in which they do. -/
theorem guarded (h : Followed c ok I J F) (hp : Paired c (fun _ _ _ => True) (fun _ _ _ _ => True) I J K) :
    ∀ {es : List (Event Op ω δ)} {s : State σ τ}, Holds I J K s → (∃ t, s.tasks[k]? = some t ∧ F s.store t) →
      Guarded c.step (MeetsAt ok k) s es →
      ∃ t, (run c.step s es).tasks[k]? = some t ∧ F (run c.step s es).store t := by
  intro es
  induction es with
  | nil => exact fun _ hk _ => hk
  | cons e es ih =>
    intro s hs hk hg
    exact ih (hp.step hs (meetsBeside_of_meets (by cases e <;> simp [Meets]))) (h.step hs hk hg.1) hg.2

/-- **A task that steps aside.** If its first step that does not meet `ok` leads to `G`, which no step leaves,
then after a run it is either as `F` says, and all its steps met `ok`, or as `G` says, and one of them did not. -/
theorem decides (h : Followed c ok I J F) (hG : Followed c (fun _ _ _ => True) I J G)
    (hp : Paired c (fun _ _ _ => True) (fun _ _ _ _ => True) I J K)
    (haside : ∀ s t w, I s → J s t → F s t → ¬ok s t w → G (c.resume w t s).2 (c.resume w t s).1) :
    ∀ (es : List (Event Op ω δ)) {s : State σ τ}, Holds I J K s → (∃ t, s.tasks[k]? = some t ∧ F s.store t) →
      (Guarded c.step (MeetsAt ok k) s es ∧ ∃ t, (run c.step s es).tasks[k]? = some t ∧ F (run c.step s es).store t) ∨
        ¬Guarded c.step (MeetsAt ok k) s es ∧
          ∃ t, (run c.step s es).tasks[k]? = some t ∧ G (run c.step s es).store t := by
  intro es
  induction es with
  | nil => exact fun _ hk => .inl ⟨trivial, hk⟩
  | cons e es ih =>
    intro s hs hk
    have hnext : Holds I J K (c.step s e) := hp.step hs (meetsBeside_of_meets (by cases e <;> simp [Meets]))
    by_cases hok : MeetsAt ok k s e
    · rcases ih hnext (h.step hs hk hok) with ⟨hg, hF⟩ | ⟨hg, hG⟩
      · exact .inl ⟨⟨hok, hg⟩, hF⟩
      · exact .inr ⟨fun hall => hg hall.2, hG⟩
    · refine .inr ⟨fun hall => hok hall.1, ?_⟩
      obtain ⟨t, ht, hF⟩ := hk
      have haside' : ∃ u, (c.step s e).tasks[k]? = some u ∧ G (c.step s e).store u := by
        cases e with
        | enter op => exact absurd trivial hok
        | drift d => exact absurd trivial hok
        | resume j w =>
          obtain rfl : j = k := by
            by_contra hne
            exact hok fun heq => absurd heq hne
          have hnot : ¬ok s.store t w := by
            intro hmeets
            refine hok fun _ u hu => ?_
            obtain rfl := Option.some.inj (ht.symm.trans hu)
            exact hmeets
          have hlt : j < s.tasks.length := (List.getElem?_eq_some_iff.mp ht).1
          rw [c.resume_eq ht w]
          exact ⟨_, List.getElem?_set_self hlt, haside s.store t w hs.store (hs.task t (List.mem_of_getElem? ht)) hF hnot⟩
      have hall : Guarded c.step (MeetsAt (fun _ _ _ => True) k) (c.step s e) es :=
        guarded_of_forall _ fun e _ s => by cases e <;> simp [MeetsAt]
      exact hG.guarded (s := c.step s e) hp hnext haside' hall

end Followed

/-! ## Debts -/

/-- Whatever the store owes, one of the tasks serves. -/
def Covered {ξ : Type} (Owes : σ → ξ → Prop) (Serves : τ → ξ → Prop) (s : State σ τ) : Prop :=
  ∀ x, Owes s.store x → ∃ t ∈ s.tasks, Serves t x

/-- A debt after a step is served by the task of the step, or it was there before and is another's to serve. -/
structure Repaid {ξ : Type} (c : Crew σ τ Op ω δ) (ok : σ → τ → ω → Prop) (I : σ → Prop) (J : σ → τ → Prop)
    (Owes : σ → ξ → Prop) (Serves : τ → ξ → Prop) : Prop where
  resumed : ∀ s t w x, I s → J s t → ok s t w → Owes (c.resume w t s).2 x →
    Serves (c.resume w t s).1 x ∨ Owes s x ∧ ¬Serves t x
  drifted : ∀ s d x, Owes (c.drift d s) x → Owes s x

/-- A step leaves every debt with a task that serves it. -/
theorem Repaid.step {ξ : Type} {c : Crew σ τ Op ω δ} {ok : σ → τ → ω → Prop} {I : σ → Prop} {J : σ → τ → Prop}
    {Owes : σ → ξ → Prop} {Serves : τ → ξ → Prop} (h : Repaid c ok I J Owes Serves) {s : State σ τ} (hI : I s.store)
    (hJ : ∀ t ∈ s.tasks, J s.store t) (hs : Covered Owes Serves s) {e : Event Op ω δ} (hok : Meets ok s e) :
    Covered Owes Serves (c.step s e) := by
  intro x hx
  cases e with
  | enter op =>
    obtain ⟨t, ht, hserves⟩ := hs x hx
    exact ⟨t, List.mem_append_left _ ht, hserves⟩
  | resume k w =>
    rcases c.resume_cases s k w with hsame | ⟨t, hk, hstep⟩
    · rw [hsame] at hx ⊢
      exact hs x hx
    · have hlt : k < s.tasks.length := (List.getElem?_eq_some_iff.mp hk).1
      rw [hstep] at hx ⊢
      rcases h.resumed s.store t w x hI (hJ t (List.mem_of_getElem? hk)) (hok t hk) hx with hown | ⟨howed, hnot⟩
      · exact ⟨_, List.mem_of_getElem? (List.getElem?_set_self hlt), hown⟩
      · obtain ⟨u, hu, hserves⟩ := hs x howed
        obtain ⟨j, hj⟩ := List.mem_iff_getElem?.mp hu
        have hjk : k ≠ j := by
          intro heq
          subst heq
          obtain rfl := Option.some.inj (hk.symm.trans hj)
          exact hnot hserves
        exact ⟨u, List.mem_of_getElem? ((List.getElem?_set_ne hjk).trans hj), hserves⟩
  | drift d =>
    obtain ⟨t, ht, hserves⟩ := hs x (h.drifted s.store d x hx)
    exact ⟨t, ht, hserves⟩

/-! ## Logs -/

/-- The log of one task grows by `new`, and so does that of all. -/
theorem flatMap_set_perm {ξ : Type} {f : τ → List ξ} {t t' : τ} {new : List ξ} (h : (f t').Perm (new ++ f t)) :
    ∀ {tasks : List τ} {k : ℕ}, tasks[k]? = some t → ((tasks.set k t').flatMap f).Perm (new ++ tasks.flatMap f) := by
  intro tasks
  induction tasks with
  | nil =>
    intro k hk
    simp at hk
  | cons u us ih =>
    intro k hk
    cases k with
    | zero =>
      obtain rfl := Option.some.inj (show some u = some t from hk)
      rw [List.set_cons_zero, List.flatMap_cons, List.flatMap_cons, ← List.append_assoc]
      exact h.append_right _
    | succ k =>
      have htail := ih (show us[k]? = some t from hk)
      rw [List.set_cons_succ, List.flatMap_cons, List.flatMap_cons]
      calc
        (f u ++ (us.set k t').flatMap f).Perm (f u ++ (new ++ us.flatMap f)) := htail.append_left _
        _ = (f u ++ new) ++ us.flatMap f := (List.append_assoc _ _ _).symm
        (f u ++ new ++ us.flatMap f).Perm (new ++ f u ++ us.flatMap f) := List.perm_append_comm.append_right _
        _ = new ++ (f u ++ us.flatMap f) := List.append_assoc _ _ _

/-- Each task keeps a log of what it has done, and `L` relates the store to all of them, in whatever order. -/
structure Logged {ξ : Type} (c : Crew σ τ Op ω δ) (ok : σ → τ → ω → Prop) (I : σ → Prop) (J : σ → τ → Prop)
    (log : τ → List ξ) (L : σ → List ξ → Prop) : Prop where
  perm : ∀ s xs ys, xs.Perm ys → L s xs → L s ys
  entered : ∀ s op, log (c.enter s op) = []
  resumed : ∀ s t w, I s → J s t → ok s t w →
    ∃ new, (log (c.resume w t s).1).Perm (new ++ log t) ∧ ∀ xs, L s xs → L (c.resume w t s).2 (new ++ xs)
  drifted : ∀ s d xs, L s xs → L (c.drift d s) xs

/-- A step adds to the log what its task logs. -/
theorem Logged.step {ξ : Type} {c : Crew σ τ Op ω δ} {ok : σ → τ → ω → Prop} {I : σ → Prop} {J : σ → τ → Prop}
    {log : τ → List ξ} {L : σ → List ξ → Prop} (h : Logged c ok I J log L) {s : State σ τ} (hI : I s.store)
    (hJ : ∀ t ∈ s.tasks, J s.store t) (hs : L s.store (s.tasks.flatMap log)) {e : Event Op ω δ} (hok : Meets ok s e) :
    L (c.step s e).store ((c.step s e).tasks.flatMap log) := by
  cases e with
  | enter op =>
    have hsame : (s.tasks ++ [c.enter s.store op]).flatMap log = s.tasks.flatMap log := by
      rw [List.flatMap_append, List.flatMap_singleton, h.entered, List.append_nil]
    show L s.store ((s.tasks ++ [c.enter s.store op]).flatMap log)
    rw [hsame]
    exact hs
  | resume k w =>
    rcases c.resume_cases s k w with hsame | ⟨t, hk, hstep⟩
    · rw [hsame]
      exact hs
    · obtain ⟨new, hnew, hkeeps⟩ := h.resumed s.store t w hI (hJ t (List.mem_of_getElem? hk)) (hok t hk)
      rw [hstep]
      exact h.perm _ _ _ (flatMap_set_perm hnew hk).symm (hkeeps _ hs)
  | drift d => exact h.drifted s.store d _ hs

end Crew

end Murlan
