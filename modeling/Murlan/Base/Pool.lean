import Mathlib.Data.List.Basic
import Mathlib.Logic.Function.Basic
import Murlan.Base.Async
import Murlan.Base.Run

/-!
# Programs side by side

Any number of asynchronous programs over one store. An operation that starts adds a
task; an event lets one task have the answer to the query it waits for; in between
the store may drift (a clock, another process). An operation may name a chain: the
tasks of a chain run one after the other, in the order they were started, each to its
end (a promise chain, a lock that is fair).

* `Runtime.step`: the system of the tasks.
* `Runtime.Rules`: what is known of each unfinished task, and an invariant of the store
  and of that knowledge. When a task of a chain is answered, every other unfinished task
  of its chain was started later and has not begun. `Done` is what a returned value says for ever after.
* `Runtime.Rules.inv`: the invariant after every run.
-/

namespace Murlan

namespace Async

variable {Q : Type} {R : Q → Type} {E α : Type}

/-- The program has ended. -/
def finished : Async Q R E α → Bool
  | .pure _ | .throw _ => true
  | .ask _ _ => false

/-- What it returned, when it has. -/
def returned : Async Q R E α → Option α
  | .pure a => some a
  | .throw _ | .ask _ _ => none

/-- What it threw, when it has. -/
def thrown : Async Q R E α → Option E
  | .throw e => some e
  | .pure _ | .ask _ _ => none

/-- The query that is waited for. -/
def pending : Async Q R E α → Option Q
  | .pure _ | .throw _ => none
  | .ask q _ => some q

end Async

/-- The operations of a server and the store they work on: a program may depend on the store
when it starts (a clock), `ω` is what the environment decides of an answer, `δ` what may
happen in between. -/
structure Runtime (σ Q : Type) (R : Q → Type) (E α Op κ ω δ : Type) where
  program : σ → Op → Async Q R E α
  chain : Op → Option κ
  answer : ω → ℕ → (q : Q) → σ → Except E (R q) × σ
  drift : δ → σ → σ

/-- A running program, and the operation it is for. -/
structure Job (Q : Type) (R : Q → Type) (E α Op : Type) where
  op : Op
  program : Async Q R E α

/-- The store and the tasks, in the order they were started. -/
structure Pool (σ Q : Type) (R : Q → Type) (E α Op : Type) where
  store : σ
  tasks : List (Job Q R E α Op) := []

/-- An operation starts, a program gets its answer, or the environment acts. -/
inductive PoolEvent (Op ω δ : Type) where
  | start (op : Op)
  | execute (task : ℕ) (w : ω)
  | drift (d : δ)

namespace Runtime

variable {σ Q : Type} {R : Q → Type} {E α Op κ ω δ : Type} [DecidableEq κ]

/-- The operations are on one chain. -/
def linked (rt : Runtime σ Q R E α Op κ ω δ) (a b : Op) : Bool :=
  (rt.chain a).isSome && decide (rt.chain a = rt.chain b)

/-- An earlier task of its chain has not ended. -/
def waits (rt : Runtime σ Q R E α Op κ ω δ) (tasks : List (Job Q R E α Op)) (k : ℕ) (op : Op) : Bool :=
  (tasks.take k).any fun t => !t.program.finished && rt.linked t.op op

/-- One event; an answer runs one program up to its next await. -/
def step (rt : Runtime σ Q R E α Op κ ω δ) (s : Pool σ Q R E α Op) :
    PoolEvent Op ω δ → Pool σ Q R E α Op
  | .start op => { s with tasks := s.tasks ++ [⟨op, rt.program s.store op⟩] }
  | .execute k w =>
    match s.tasks[k]? with
    | none => s
    | some t =>
      match t.program with
      | .pure _ | .throw _ => s
      | .ask q next =>
        if rt.waits s.tasks k t.op then s
        else
          { store := (rt.answer w k q s.store).2
            tasks := s.tasks.set k { t with program := next (rt.answer w k q s.store).1 } }
  | .drift d => { s with store := rt.drift d s.store }

/-- What an answer does: nothing, or it goes to a task that does not wait for another. -/
theorem execute_cases (rt : Runtime σ Q R E α Op κ ω δ) (s : Pool σ Q R E α Op) (k : ℕ) (w : ω) :
    rt.step s (.execute k w) = s ∨
      ∃ t q next, s.tasks[k]? = some t ∧ t.program = .ask q next ∧ rt.waits s.tasks k t.op = false ∧
        rt.step s (.execute k w) =
          { store := (rt.answer w k q s.store).2
            tasks := s.tasks.set k { t with program := next (rt.answer w k q s.store).1 } } := by
  cases hk : s.tasks[k]? with
  | none => exact .inl (by simp [step, hk])
  | some t =>
    cases hp : t.program with
    | pure a => exact .inl (by simp [step, hk, hp])
    | throw e => exact .inl (by simp [step, hk, hp])
    | ask q next =>
      by_cases hwait : rt.waits s.tasks k t.op = true
      · exact .inl (by simp [step, hk, hp, hwait])
      · exact .inr ⟨t, q, next, rfl, hp, by simpa using hwait, by simp [step, hk, hp, hwait]⟩

/-- Two operations are linked when they queue on the same chain. -/
theorem linked_iff (rt : Runtime σ Q R E α Op κ ω δ) {a b : Op} :
    rt.linked a b = true ↔ ∃ c, rt.chain a = some c ∧ rt.chain b = some c := by
  simp only [linked, Bool.and_eq_true, decide_eq_true_eq, Option.isSome_iff_exists]
  constructor
  · rintro ⟨⟨c, hc⟩, heq⟩
    exact ⟨c, hc, heq ▸ hc⟩
  · rintro ⟨c, ha, hb⟩
    exact ⟨⟨c, ha⟩, ha.trans hb.symm⟩

theorem linked_comm (rt : Runtime σ Q R E α Op κ ω δ) {a b : Op} (h : rt.linked a b = true) :
    rt.linked b a = true := by
  obtain ⟨c, ha, hb⟩ := rt.linked_iff.mp h
  exact rt.linked_iff.mpr ⟨c, hb, ha⟩

/-- An operation waits exactly for an earlier one of its chain that runs. -/
theorem waits_iff (rt : Runtime σ Q R E α Op κ ω δ) (tasks : List (Job Q R E α Op)) (k : ℕ) (op : Op) :
    rt.waits tasks k op = true ↔
      ∃ j t, j < k ∧ tasks[j]? = some t ∧ t.program.finished = false ∧ rt.linked t.op op = true := by
  simp only [waits, List.any_eq_true, Bool.and_eq_true, Bool.not_eq_true']
  constructor
  · rintro ⟨t, ht, hfin, hlink⟩
    obtain ⟨j, hj⟩ := List.mem_iff_getElem?.mp ht
    rw [List.getElem?_take] at hj
    split at hj
    · exact ⟨j, t, ‹_›, hj, hfin, hlink⟩
    · cases hj
  · rintro ⟨j, t, hjk, ht, hfin, hlink⟩
    refine ⟨t, List.mem_iff_getElem?.mpr ⟨j, ?_⟩, hfin, hlink⟩
    rw [List.getElem?_take, if_pos hjk]
    exact ht

/-! ## Every task can be answered to its end -/

section Drain

variable (rt : Runtime σ Q R E α Op κ ω δ) (w : ω)

/-- A task before which all have ended does not wait: answered often enough it ends, and no other task changes. -/
theorem ends_of_first {s : Pool σ Q R E α Op} {k : ℕ} {t : Job Q R E α Op} (ht : s.tasks[k]? = some t)
    (hbefore : ∀ j u, j < k → s.tasks[j]? = some u → u.program.finished = true) :
    ∃ n t', (run rt.step s (List.replicate n (.execute k w))).tasks = s.tasks.set k t' ∧ t'.program.finished = true := by
  have hself : s.tasks = s.tasks.set k t := by
    obtain ⟨hlt, rfl⟩ := List.getElem?_eq_some_iff.mp ht
    exact (List.set_getElem_self hlt).symm
  obtain ⟨op, p⟩ := t
  induction p generalizing s with
  | pure a => exact ⟨0, ⟨op, .pure a⟩, hself, rfl⟩
  | throw e => exact ⟨0, ⟨op, .throw e⟩, hself, rfl⟩
  | ask q next ih =>
    have hlt : k < s.tasks.length := (List.getElem?_eq_some_iff.mp ht).1
    have hwait : rt.waits s.tasks k op = false := by
      by_contra hw
      obtain ⟨j, u, hj, hu, hfin, -⟩ := (rt.waits_iff _ _ _).mp (by simpa using hw)
      rw [hbefore j u hj hu] at hfin
      cases hfin
    have hstep : (rt.step s (.execute k w)).tasks = s.tasks.set k ⟨op, next (rt.answer w k q s.store).1⟩ := by
      simp [step, ht, hwait]
    obtain ⟨n, t', hrun, hfin⟩ := ih (rt.answer w k q s.store).1 (s := rt.step s (.execute k w))
      (fun j u hj hu => by
        rw [hstep, List.getElem?_set_ne (by omega)] at hu
        exact hbefore j u hj hu)
      (by
        rw [hstep]
        exact List.getElem?_set_self hlt)
      (by rw [hstep, List.set_set])
    refine ⟨n + 1, t', ?_, hfin⟩
    rw [List.replicate_succ, run_cons, hrun, hstep, List.set_set]

/-- **No task is stuck**: answered one after the other, all tasks come to their end. -/
theorem drains (s : Pool σ Q R E α Op) :
    ∃ ks : List ℕ, ∀ t ∈ (run rt.step s (ks.map fun k => .execute k w)).tasks, t.program.finished = true := by
  have hfirst : ∀ n, n ≤ s.tasks.length → ∃ ks : List ℕ,
      (run rt.step s (ks.map fun k => .execute k w)).tasks.length = s.tasks.length ∧
        ∀ j u, j < n → (run rt.step s (ks.map fun k => .execute k w)).tasks[j]? = some u → u.program.finished = true := by
    intro n
    induction n with
    | zero =>
      intro _
      refine ⟨[], rfl, fun j u hj => ?_⟩
      omega
    | succ n ih =>
      intro hn
      obtain ⟨ks, hlen, hks⟩ := ih (by omega)
      have ht := List.getElem?_eq_getElem (l := (run rt.step s (ks.map fun k => .execute k w)).tasks) (i := n) (by omega)
      obtain ⟨m, t', htasks, hfin⟩ := rt.ends_of_first w ht hks
      refine ⟨ks ++ List.replicate m n, ?_, ?_⟩
      · rw [List.map_append, List.map_replicate, run_append, htasks, List.length_set, hlen]
      · intro j u hj hu
        rw [List.map_append, List.map_replicate, run_append, htasks] at hu
        by_cases hjn : j = n
        · subst hjn
          rw [List.getElem?_set_self (by omega)] at hu
          rw [← Option.some.inj hu]
          exact hfin
        · rw [List.getElem?_set_ne (Ne.symm hjn)] at hu
          exact hks j u (by omega) hu
  obtain ⟨ks, hlen, hks⟩ := hfirst s.tasks.length (Nat.le_refl _)
  refine ⟨ks, fun t ht => ?_⟩
  obtain ⟨j, hj⟩ := List.mem_iff_getElem?.mp ht
  have hlt : j < s.tasks.length := by
    rw [← hlen]
    exact (List.getElem?_eq_some_iff.mp hj).1
  exact hks j t hlt hj

end Drain

/-! ## What is known of the tasks -/

/-- `P op` and `init op` are the protocol of an operation and what is known when it begins;
`Inv` relates the store, the number of tasks and what is known of the unfinished ones. -/
structure Rules {G : Type} (rt : Runtime σ Q R E α Op κ ω δ) (P : Op → Async.Protocol Q R E G)
    (init : σ → Op → G) (post : Op → α → G → Prop) (err : Op → E → G → Prop)
    (Inv : σ → ℕ → (ℕ → Option (Op × G)) → Prop) (Done : Op → α → σ → Prop) : Prop where
  conforms : ∀ s op, (rt.program s op).wp (P op) (post op) (err op) (init s op)
  opened : ∀ {s n know} op, Inv s n know → know n = none →
    Inv s (n + 1) (Function.update know n (some (op, init s op)))
  closed : ∀ {s n know k op g}, Inv s n know → know k = some (op, g) →
    (∃ a, post op a g) ∨ (∃ e, err op e g) → Inv s n (Function.update know k none)
  answered : ∀ {s n know k op g} w q, Inv s n know → k < n → know k = some (op, g) →
    (∀ j op' g', j ≠ k → know j = some (op', g') → rt.linked op' op = true →
      k < j ∧ ∃ s₀, g' = init s₀ op') →
    (P op).may q g → ∃ g', (P op).reply q (rt.answer w k q s).1 g g' ∧
      Inv (rt.answer w k q s).2 n (Function.update know k (some (op, g')))
  drifted : ∀ {s n know} d, Inv s n know → Inv (rt.drift d s) n know
  returned : ∀ {s n know k op g} a, Inv s n know → know k = some (op, g) → post op a g → Done op a s
  lasts_answer : ∀ {s n know k op g} op' a w q, Inv s n know → know k = some (op, g) → (P op).may q g →
    Done op' a s → Done op' a (rt.answer w k q s).2
  lasts_drift : ∀ {s} op a d, Done op a s → Done op a (rt.drift d s)

namespace Rules

variable {G : Type} {rt : Runtime σ Q R E α Op κ ω δ} {P : Op → Async.Protocol Q R E G} {init : σ → Op → G}
  {post : Op → α → G → Prop} {err : Op → E → G → Prop} {Inv : σ → ℕ → (ℕ → Option (Op × G)) → Prop}
  {Done : Op → α → σ → Prop}

/-- What is known of a task: nothing once it has ended, and what its value says. -/
def JobOK (P : Op → Async.Protocol Q R E G) (post : Op → α → G → Prop) (err : Op → E → G → Prop)
    (Done : Op → α → σ → Prop) (s : σ) (g : Option (Op × G)) (t : Job Q R E α Op) : Prop :=
  match t.program with
  | .pure a => g = none ∧ Done t.op a s
  | .throw _ => g = none
  | .ask q next => ∃ g', g = some (t.op, g') ∧ (Async.ask q next).wp (P t.op) (post t.op) (err t.op) g'

/-- The knowledge `know` fits the tasks: a task that waits has not begun. -/
structure Attuned (rt : Runtime σ Q R E α Op κ ω δ) (P : Op → Async.Protocol Q R E G) (init : σ → Op → G)
    (post : Op → α → G → Prop) (err : Op → E → G → Prop) (Inv : σ → ℕ → (ℕ → Option (Op × G)) → Prop)
    (Done : Op → α → σ → Prop) (s : Pool σ Q R E α Op) (know : ℕ → Option (Op × G)) : Prop where
  inv : Inv s.store s.tasks.length know
  beyond : ∀ k, s.tasks.length ≤ k → know k = none
  task : ∀ k t, s.tasks[k]? = some t → JobOK P post err Done s.store (know k) t
  queue : ∀ k t, s.tasks[k]? = some t → rt.waits s.tasks k t.op = true → t.program.finished = false →
    ∃ s₀, know k = some (t.op, init s₀ t.op)

/-- What a task asks, it may ask. -/
theorem Attuned.may {s : Pool σ Q R E α Op} {know : ℕ → Option (Op × G)}
    (h : Attuned rt P init post err Inv Done s know) {k : ℕ} {t : Job Q R E α Op} {q : Q}
    {next : Except E (R q) → Async Q R E α} (ht : s.tasks[k]? = some t) (hp : t.program = .ask q next) :
    ∃ g, know k = some (t.op, g) ∧ (P t.op).may q g := by
  have hok := h.task k t ht
  unfold JobOK at hok
  rw [hp] at hok
  obtain ⟨g, hg, hmay, -⟩ := hok
  exact ⟨g, hg, hmay⟩

/-- A task of which something is known has not ended. -/
theorem JobOK.unfinished {s : σ} {t : Job Q R E α Op} {x : Op × G}
    (h : JobOK P post err Done s (some x) t) : t.program.finished = false ∧ x.1 = t.op := by
  unfold JobOK at h
  cases hp : t.program with
  | pure a => rw [hp] at h; exact absurd h.1 (by simp)
  | throw e => rw [hp] at h; exact absurd h (by simp)
  | ask q next =>
    rw [hp] at h
    obtain ⟨g', heq, -⟩ := h
    refine ⟨rfl, ?_⟩
    rw [Option.some.inj heq]

/-- What holds of a job holds as long as what is done stays done. -/
theorem JobOK.mono {s s' : σ} {g : Option (Op × G)} {t : Job Q R E α Op}
    (h : JobOK P post err Done s g t) (hdone : ∀ a, Done t.op a s → Done t.op a s') :
    JobOK P post err Done s' g t := by
  unfold JobOK at h ⊢
  cases hp : t.program with
  | pure a => rw [hp] at h; exact ⟨h.1, hdone a h.2⟩
  | throw e => rw [hp] at h; exact h
  | ask q next => rw [hp] at h; exact h

/-- The knowledge of a program that may have come to its end. -/
theorem job_of_wp (h : Rules rt P init post err Inv Done) {s : σ} {n : ℕ} {know : ℕ → Option (Op × G)}
    {k : ℕ} {t : Job Q R E α Op} {g : G} (hinv : Inv s n (Function.update know k (some (t.op, g))))
    (hwp : t.program.wp (P t.op) (post t.op) (err t.op) g) :
    ∃ x, Inv s n (Function.update know k x) ∧ JobOK P post err Done s x t ∧
      (t.program.finished = false → x = some (t.op, g)) := by
  have hself : Function.update know k (some (t.op, g)) k = some (t.op, g) := Function.update_self ..
  have hclosed : (∃ a, post t.op a g) ∨ (∃ e, err t.op e g) → Inv s n (Function.update know k none) := by
    intro hend
    have hnone := h.closed hinv hself hend
    rwa [Function.update_idem] at hnone
  cases hp : t.program with
  | pure a =>
    rw [hp] at hwp
    refine ⟨none, hclosed (.inl ⟨a, hwp⟩), ?_, fun hfin => by simp [Async.finished] at hfin⟩
    unfold JobOK
    rw [hp]
    exact ⟨rfl, h.returned a hinv hself hwp⟩
  | throw e =>
    rw [hp] at hwp
    refine ⟨none, hclosed (.inr ⟨e, hwp⟩), ?_, fun hfin => by simp [Async.finished] at hfin⟩
    unfold JobOK
    rw [hp]
  | ask q next =>
    rw [hp] at hwp
    refine ⟨some (t.op, g), hinv, ?_, fun _ => rfl⟩
    unfold JobOK
    rw [hp]
    exact ⟨g, rfl, hwp⟩

section Steps

variable {s : Pool σ Q R E α Op} {know : ℕ → Option (Op × G)}

/-- A task that starts: of the others the same is known. -/
theorem attuned_start (h : Rules rt P init post err Inv Done)
    (hs : Attuned rt P init post err Inv Done s know) (op : Op) :
    ∃ know', Attuned rt P init post err Inv Done (rt.step s (.start op)) know' ∧
      (∀ j, j < s.tasks.length → know' j = know j) ∧
      (rt.program s.store op).wp (P op) (post op) (err op) (init s.store op) ∧
      ((rt.program s.store op).finished = false → know' s.tasks.length = some (op, init s.store op)) := by
  have hopen := h.opened op hs.inv (hs.beyond s.tasks.length (Nat.le_refl _))
  obtain ⟨x, hinv, htask, hx⟩ := h.job_of_wp (t := ⟨op, rt.program s.store op⟩) hopen (h.conforms s.store op)
  have hold : ∀ j t, (s.tasks ++ [⟨op, rt.program s.store op⟩])[j]? = some t →
      (j < s.tasks.length ∧ s.tasks[j]? = some t) ∨ (j = s.tasks.length ∧ t = ⟨op, rt.program s.store op⟩) := by
    intro j t hj
    rcases Nat.lt_or_ge j s.tasks.length with hlt | hge
    · rw [List.getElem?_append_left hlt] at hj
      exact .inl ⟨hlt, hj⟩
    · rw [List.getElem?_append_right hge] at hj
      obtain ⟨hj0, ht⟩ := List.getElem?_eq_some_iff.mp hj
      have hlen : j - s.tasks.length = 0 := by
        simp only [List.length_singleton] at hj0
        omega
      refine .inr ⟨by omega, ?_⟩
      simpa [hlen] using ht.symm
  refine ⟨Function.update know s.tasks.length x, ⟨?_, ?_, ?_, ?_⟩, fun j hj => Function.update_of_ne (by omega) ..,
    h.conforms s.store op, fun hfin => ?_⟩
  rotate_right
  · rw [Function.update_self]
    exact hx hfin
  · simpa [step] using hinv
  · intro j hj
    have hlen : s.tasks.length + 1 ≤ j := by simpa [step] using hj
    rw [Function.update_of_ne (by omega)]
    exact hs.beyond j (by omega)
  · intro j t hj
    rcases hold j t hj with ⟨hlt, hj⟩ | ⟨rfl, rfl⟩
    · rw [Function.update_of_ne (by omega)]
      exact hs.task j t hj
    · rw [Function.update_self]
      exact htask
  · intro j t hj hwait hfin
    rcases hold j t hj with ⟨hlt, hj⟩ | ⟨rfl, rfl⟩
    · rw [Function.update_of_ne (by omega)]
      refine hs.queue j t hj ?_ hfin
      rw [waits_iff] at hwait ⊢
      obtain ⟨i, u, hij, hu, hrest⟩ := hwait
      refine ⟨i, u, hij, ?_, hrest⟩
      rw [step, List.getElem?_append_left (by omega)] at hu
      exact hu
    · rw [Function.update_self]
      exact ⟨s.store, hx hfin⟩

/-- An answer to a task: what is known of it goes from `g` to `g'`, and of the others stays. -/
structure Answered (rt : Runtime σ Q R E α Op κ ω δ) (P : Op → Async.Protocol Q R E G)
    (post : Op → α → G → Prop) (err : Op → E → G → Prop) (Inv : σ → ℕ → (ℕ → Option (Op × G)) → Prop)
    (s : Pool σ Q R E α Op) (know know' : ℕ → Option (Op × G)) (k : ℕ) (w : ω) (t : Job Q R E α Op) (q : Q)
    (next : Except E (R q) → Async Q R E α) (g g' : G) : Prop where
  task : s.tasks[k]? = some t
  asks : t.program = .ask q next
  step : rt.step s (.execute k w) =
    { store := (rt.answer w k q s.store).2
      tasks := s.tasks.set k { t with program := next (rt.answer w k q s.store).1 } }
  known : know k = some (t.op, g)
  may : (P t.op).may q g
  reply : (P t.op).reply q (rt.answer w k q s.store).1 g g'
  inv : Inv (rt.answer w k q s.store).2 s.tasks.length (Function.update know k (some (t.op, g')))
  goes : (next (rt.answer w k q s.store).1).wp (P t.op) (post t.op) (err t.op) g'
  knows : (next (rt.answer w k q s.store).1).finished = false → know' k = some (t.op, g')
  others : ∀ j, j ≠ k → know' j = know j

/-- An answer keeps what is known of every job. -/
theorem attuned_execute (h : Rules rt P init post err Inv Done)
    (hs : Attuned rt P init post err Inv Done s know) (k : ℕ) (w : ω) :
    ∃ know', Attuned rt P init post err Inv Done (rt.step s (.execute k w)) know' ∧
      ((rt.step s (.execute k w) = s ∧ know' = know) ∨
        ∃ t q next g g', Answered rt P post err Inv s know know' k w t q next g g') := by
  rcases rt.execute_cases s k w with hsame | ⟨t, q, next, hk, hp, hwait, hstep⟩
  · exact ⟨know, by rw [hsame]; exact hs, .inl ⟨hsame, rfl⟩⟩
  have hlt : k < s.tasks.length := (List.getElem?_eq_some_iff.mp hk).1
  have hunfinished : t.program.finished = false := by rw [hp]; rfl
  have htask := hs.task k t hk
  unfold JobOK at htask
  rw [hp] at htask
  obtain ⟨g, hg, hmay, hnext⟩ := htask
  -- the other unfinished tasks of the chain come later, and wait for this one
  have hothers : ∀ j op' g', j ≠ k → know j = some (op', g') → rt.linked op' t.op = true →
      k < j ∧ ∃ s₀, g' = init s₀ op' := by
    intro j op' g' hjk hj hlink
    have hjlt : j < s.tasks.length := by
      by_contra hge
      rw [hs.beyond j (by omega)] at hj
      cases hj
    have htj := List.getElem?_eq_getElem hjlt
    have hok := hs.task j _ htj
    rw [hj] at hok
    obtain ⟨hfin, hop⟩ := hok.unfinished
    simp only at hop
    rw [hop] at hlink
    rcases Nat.lt_or_gt_of_ne hjk with hlt' | hgt
    · rw [(rt.waits_iff _ _ _).mpr ⟨j, _, hlt', htj, hfin, hlink⟩] at hwait
      cases hwait
    · obtain ⟨s₀, hq⟩ := hs.queue j _ htj
        ((rt.waits_iff _ _ _).mpr ⟨k, t, hgt, hk, hunfinished, rt.linked_comm hlink⟩) hfin
      rw [hj] at hq
      cases hq
      exact ⟨hgt, s₀, rfl⟩
  obtain ⟨g', hreply, hinv'⟩ := h.answered w q hs.inv hlt hg hothers hmay
  obtain ⟨x, hinv, hok, hx⟩ := h.job_of_wp
    (t := { t with program := next (rt.answer w k q s.store).1 }) hinv' (hnext _ g' hreply)
  refine ⟨Function.update know k x, ?_, .inr ⟨t, q, next, g, g', hk, hp, hstep, hg, hmay, hreply, hinv', hnext _ g' hreply,
    fun hfin => ?_, fun j hj => Function.update_of_ne hj ..⟩⟩
  rotate_left
  · rw [Function.update_self]
    exact hx hfin
  rw [hstep]
  refine ⟨by simpa using hinv, ?_, ?_, ?_⟩
  · intro j hj
    rw [List.length_set] at hj
    rw [Function.update_of_ne (by omega)]
    exact hs.beyond j hj
  · intro j u hj
    by_cases hjk : j = k
    · subst hjk
      rw [List.getElem?_set_self hlt] at hj
      obtain rfl := Option.some.inj hj
      rw [Function.update_self]
      exact hok
    · rw [List.getElem?_set_ne (Ne.symm hjk)] at hj
      rw [Function.update_of_ne hjk]
      exact (hs.task j u hj).mono fun a ha => h.lasts_answer u.op a w q hs.inv hg hmay ha
  · intro j u hj hw hfin
    -- an ended task lets others begin, it never makes one wait
    have hbefore : ∀ (i : ℕ) (v : Job Q R E α Op),
        (s.tasks.set k { t with program := next (rt.answer w k q s.store).1 })[i]? = some v →
        v.program.finished = false →
        ∃ v' : Job Q R E α Op, s.tasks[i]? = some v' ∧ v'.program.finished = false ∧ v'.op = v.op := by
      intro i v hv hvfin
      by_cases hik : i = k
      · subst hik
        rw [List.getElem?_set_self hlt] at hv
        obtain rfl := Option.some.inj hv
        exact ⟨t, hk, hunfinished, rfl⟩
      · rw [List.getElem?_set_ne (Ne.symm hik)] at hv
        exact ⟨v, hv, hvfin, rfl⟩
    have hwold : rt.waits s.tasks j u.op = true := by
      rw [waits_iff] at hw ⊢
      obtain ⟨i, v, hij, hv, hvfin, hlink⟩ := hw
      obtain ⟨v', hv', hvfin', hop⟩ := hbefore i v hv hvfin
      exact ⟨i, v', hij, hv', hvfin', by rw [hop]; exact hlink⟩
    by_cases hjk : j = k
    · subst hjk
      rw [List.getElem?_set_self hlt] at hj
      obtain rfl := Option.some.inj hj
      have hopen : rt.waits s.tasks j t.op = true := hwold
      rw [hwait] at hopen
      cases hopen
    · rw [List.getElem?_set_ne (Ne.symm hjk)] at hj
      rw [Function.update_of_ne hjk]
      exact hs.queue j u hj hwold hfin

theorem attuned_drift (h : Rules rt P init post err Inv Done)
    (hs : Attuned rt P init post err Inv Done s know) (d : δ) :
    Attuned rt P init post err Inv Done (rt.step s (.drift d)) know := by
  refine ⟨h.drifted d hs.inv, hs.beyond, fun k t hk => ?_, hs.queue⟩
  exact (hs.task k t hk).mono fun a ha => h.lasts_drift t.op a d ha

end Steps

/-- Every event keeps what is known of every job. -/
theorem attuned_step (h : Rules rt P init post err Inv Done) {s : Pool σ Q R E α Op} {know : ℕ → Option (Op × G)}
    (hs : Attuned rt P init post err Inv Done s know) (e : PoolEvent Op ω δ) :
    ∃ know', Attuned rt P init post err Inv Done (rt.step s e) know' := by
  cases e with
  | start op =>
    obtain ⟨know', hs', -⟩ := h.attuned_start hs op
    exact ⟨know', hs'⟩
  | execute k w =>
    obtain ⟨know', hs', -⟩ := h.attuned_execute hs k w
    exact ⟨know', hs'⟩
  | drift d => exact ⟨know, h.attuned_drift hs d⟩

theorem attuned_run (h : Rules rt P init post err Inv Done) {s : σ} (hs : Inv s 0 fun _ => none)
    (es : List (PoolEvent Op ω δ)) :
    ∃ know, Attuned rt P init post err Inv Done (run rt.step { store := s } es) know := by
  refine run_inv (P := fun p => ∃ know, Attuned rt P init post err Inv Done p know) ?_ ?_ es
  · rintro p e ⟨know, hp⟩
    exact h.attuned_step hp e
  · exact ⟨fun _ => none, hs, fun _ _ => rfl, fun k t hk => by simp at hk, fun k t hk => by simp at hk⟩

/-! ### One task from its start to its end -/

section Stands

/-- What is known of the task, or was known at its end, meets `L`. -/
def Stands (post : Op → α → G → Prop) (err : Op → E → G → Prop) (L : G → Prop)
    (s : Pool σ Q R E α Op) (know : ℕ → Option (Op × G)) (k : ℕ) (op : Op) : Prop :=
  ∃ t, s.tasks[k]? = some t ∧ t.op = op ∧
    match t.program with
    | .pure a => ∃ g, L g ∧ post op a g
    | .throw e => ∃ g, L g ∧ err op e g
    | .ask _ _ => ∃ g, know k = some (op, g) ∧ L g

variable {L : G → Prop} {s : Pool σ Q R E α Op} {know : ℕ → Option (Op × G)} {k : ℕ} {op : Op}

/-- A precondition that holds makes the job stand. -/
theorem stands_of_wp {t : Job Q R E α Op} {g : G} (ht : s.tasks[k]? = some t) (hg : L g)
    (hwp : t.program.wp (P t.op) (post t.op) (err t.op) g) (hknow : t.program.finished = false → know k = some (t.op, g)) :
    Stands post err L s know k t.op := by
  refine ⟨t, ht, rfl, ?_⟩
  cases hp : t.program with
  | pure a =>
    rw [hp] at hwp
    exact ⟨g, hg, hwp⟩
  | throw e =>
    rw [hp] at hwp
    exact ⟨g, hg, hwp⟩
  | ask q next =>
    rw [hp] at hknow
    exact ⟨g, hknow rfl, hg⟩

theorem stands_start (h : Rules rt P init post err Inv Done) (hs : Attuned rt P init post err Inv Done s know)
    (hL : L (init s.store op)) :
    ∃ know', Attuned rt P init post err Inv Done (rt.step s (.start op)) know' ∧
      Stands post err L (rt.step s (.start op)) know' s.tasks.length op := by
  obtain ⟨know', hs', -, hwp, hknow⟩ := h.attuned_start hs op
  exact ⟨know', hs', stands_of_wp (t := ⟨op, rt.program s.store op⟩) (by simp [step]) hL hwp hknow⟩

theorem Stands.congr {s' : Pool σ Q R E α Op} {know' : ℕ → Option (Op × G)} (h : Stands post err L s know k op)
    (htask : s'.tasks[k]? = s.tasks[k]?) (hknow : know' k = know k) : Stands post err L s' know' k op := by
  unfold Stands at h ⊢
  rw [htask, hknow]
  exact h

/-- A job that stands does so after every event. -/
theorem stands_step (h : Rules rt P init post err Inv Done) (hL : ∀ q r g g', L g → (P op).reply q r g g' → L g')
    (hs : Attuned rt P init post err Inv Done s know) (hk : Stands post err L s know k op) (e : PoolEvent Op ω δ) :
    ∃ know', Attuned rt P init post err Inv Done (rt.step s e) know' ∧ Stands post err L (rt.step s e) know' k op := by
  cases e with
  | start op' =>
    obtain ⟨know', hs', hold, -⟩ := h.attuned_start hs op'
    have hlt : k < s.tasks.length := by
      obtain ⟨t, ht, -⟩ := hk
      exact (List.getElem?_eq_some_iff.mp ht).1
    refine ⟨know', hs', hk.congr ?_ (hold k hlt)⟩
    rw [step, List.getElem?_append_left hlt]
  | drift d => exact ⟨know, h.attuned_drift hs d, hk⟩
  | execute j w =>
    obtain ⟨know', hs', ⟨hsame, rfl⟩ | ⟨t, q, next, g, g', hj⟩⟩ := h.attuned_execute hs j w
    · exact ⟨know', hs', by rw [hsame]; exact hk⟩
    refine ⟨know', hs', ?_⟩
    have hlt : j < s.tasks.length := (List.getElem?_eq_some_iff.mp hj.task).1
    by_cases hjk : k = j
    · subst hjk
      obtain ⟨u, hu, rfl, hstand⟩ := hk
      have htu : t = u := Option.some.inj (hj.task.symm.trans hu)
      subst htu
      rw [hj.asks] at hstand
      obtain ⟨g₀, hg₀, hLg⟩ := hstand
      have hg : g₀ = g := by
        have heq := hg₀.symm.trans hj.known
        cases heq
        rfl
      subst hg
      refine stands_of_wp (t := { t with program := next (rt.answer w k q s.store).1 }) ?_ (hL q _ _ g' hLg hj.reply)
        hj.goes hj.knows
      rw [hj.step]
      exact List.getElem?_set_self hlt
    · refine hk.congr ?_ (hj.others k hjk)
      rw [hj.step]
      exact List.getElem?_set_ne (Ne.symm hjk)

/-- **One task through a run**: what the answers keep holds at its end. -/
theorem stands_run (h : Rules rt P init post err Inv Done) (hL : ∀ q r g g', L g → (P op).reply q r g g' → L g')
    (hs : Attuned rt P init post err Inv Done s know) (hk : Stands post err L s know k op)
    (es : List (PoolEvent Op ω δ)) :
    ∃ know', Attuned rt P init post err Inv Done (run rt.step s es) know' ∧
      Stands post err L (run rt.step s es) know' k op := by
  induction es generalizing s know with
  | nil => exact ⟨know, hs, hk⟩
  | cons e es ih =>
    obtain ⟨know', hs', hk'⟩ := h.stands_step hL hs hk e
    exact ih hs' hk'

/-- The step at which a task throws: the invariant still says what was known of it. -/
theorem thrown_at (h : Rules rt P init post err Inv Done) (hL : ∀ q r g g', L g → (P op).reply q r g g' → L g')
    (hs : Attuned rt P init post err Inv Done s know) (hk : Stands post err L s know k op)
    (hbefore : (s.tasks[k]?.bind (·.program.thrown)) = none) {e : PoolEvent Op ω δ} {x : E}
    (hafter : ((rt.step s e).tasks[k]?.bind (·.program.thrown)) = some x) :
    ∃ w q next g g' know', e = .execute k w ∧ (∃ t, s.tasks[k]? = some t ∧ t.program = .ask q next) ∧
      (rt.step s e).store = (rt.answer w k q s.store).2 ∧ know k = some (op, g) ∧ (P op).may q g ∧
      (P op).reply q (rt.answer w k q s.store).1 g g' ∧ Inv (rt.step s e).store s.tasks.length know' ∧
      know' k = some (op, g') ∧ err op x g' ∧ L g' := by
  obtain ⟨t, ht, rfl, hstand⟩ := hk
  have hlt : k < s.tasks.length := (List.getElem?_eq_some_iff.mp ht).1
  cases e with
  | start op' =>
    rw [step, List.getElem?_append_left hlt, hbefore] at hafter
    cases hafter
  | drift d =>
    rw [step, hbefore] at hafter
    cases hafter
  | execute j w =>
    obtain ⟨know', hs', ⟨hsame, rfl⟩ | ⟨u, q, next, g, g', hj⟩⟩ := h.attuned_execute hs j w
    · rw [hsame, hbefore] at hafter
      cases hafter
    rw [hj.step] at hafter
    -- only a step of `k` itself can make `k` throw
    by_cases hjk : k = j
    · subst hjk
      have htu : u = t := Option.some.inj (hj.task.symm.trans ht)
      subst htu
      rw [List.getElem?_set_self hlt] at hafter
      have hstand' := hstand
      rw [hj.asks] at hstand'
      obtain ⟨g₀, hg₀, hLg⟩ := hstand'
      have hg : g₀ = g := by
        have heq := hg₀.symm.trans hj.known
        cases heq
        rfl
      subst hg
      have hgoes := hj.goes
      have hthrow : (next (rt.answer w k q s.store).1).thrown = some x := hafter
      refine ⟨w, q, next, g₀, g', Function.update know k (some (u.op, g')), rfl, ⟨u, ht, hj.asks⟩, by rw [hj.step], hg₀,
        hj.may, hj.reply, by rw [hj.step]; exact hj.inv, Function.update_self .., ?_, hL q _ _ g' hLg hj.reply⟩
      -- the answer left it throwing at once: then the rules state `err`
      cases hnext : next (rt.answer w k q s.store).1 with
      | pure a =>
        rw [hnext] at hthrow
        cases hthrow
      | throw e =>
        rw [hnext] at hthrow hgoes
        cases hthrow
        exact hgoes
      | ask q' next' =>
        rw [hnext] at hthrow
        cases hthrow
    · rw [List.getElem?_set_ne (Ne.symm hjk), hbefore] at hafter
      cases hafter

end Stands

/-- **The invariant holds after every run.** -/
theorem inv (h : Rules rt P init post err Inv Done) {s : σ} (hs : Inv s 0 fun _ => none)
    (es : List (PoolEvent Op ω δ)) : ∃ n know, Inv (run rt.step { store := s } es).store n know := by
  obtain ⟨know, hp⟩ := h.attuned_run hs es
  exact ⟨_, know, hp.inv⟩

end Rules

end Runtime

end Murlan
