import Mathlib.Data.List.Nodup
import Mathlib.Data.List.Induction
import Murlan.Spec.BotWorkerPool

/-!
# Every decision is settled once, with its own answer

`Held p x y` is what holds of the pool between two operations: `x` is a worker that has
nothing to do and is not yet idle, `y` a job that has been taken from its worker and is about
to be settled. Each operation of the pool has one lemma about `Held`.

* `pool_accounts`: over every run in which no thread reports its end twice while the pool
  respawns, none can fail to be replaced while jobs wait, and none just stops.
* `crash_reported_twice`, `queue_stuck`: what happens otherwise.
-/

namespace Murlan

namespace BotWorkerPool

variable {V : Type} {p : BotWorkerPool V} {x y : Option ℕ}

/-- The job has been made and its promise is not settled. -/
def Open (p : BotWorkerPool V) (j : ℕ) : Prop := 1 ≤ j ∧ j < p.nextId ∧ ∀ s, (j, s) ∉ p.settled

/-- The promise of the job is settled. -/
def Settled (p : BotWorkerPool V) (j : ℕ) : Prop := ∃ s, (j, s) ∈ p.settled

/-- The pool's books are in order, up to the request and the thread in hand. -/
structure Held (p : BotWorkerPool V) (x y : Option ℕ) : Prop where
  first : 1 ≤ p.nextId
  threads : p.threads.Nodup
  fresh : ∀ w ∈ p.threads, w < p.spawned
  quiet : ∀ w, w ∉ p.threads → p.posted w = []
  roster : p.closing = false → p.workers = p.threads
  closing : p.closing = true → p.disabled = true
  idle_nodup : p.idle.Nodup
  idle : ∀ w ∈ p.idle, w ∈ p.threads ∧ p.inFlight w = none ∧ p.posted w = [] ∧ x ≠ some w
  flight : ∀ w j, p.inFlight w = some j → w ∈ p.threads ∧ p.posted w = [j] ∧ p.timer j = some w ∧ p.Open j ∧
    j ∉ p.queue ∧ x ≠ some w ∧ y ≠ some j
  armed : ∀ j w, p.timer j = some w → p.inFlight w = some j ∨ y = some j
  rest : ∀ w ∈ p.threads, w ∉ p.idle → p.inFlight w = none → x ≠ some w →
    (∃ j, p.posted w = [j] ∧ (p.Settled j ∨ y = some j)) ∨ (p.disabled = true ∧ p.posted w = [])
  freed : ∀ w, x = some w → w ∈ p.threads ∧ p.posted w = []
  queue : ∀ j ∈ p.queue, p.Open j ∧ y ≠ some j
  queue_nodup : p.queue.Nodup
  busy : p.queue = [] ∨ p.idle = [] ∨ (x ≠ none ∧ p.queue.length ≤ 1)
  flushed : p.disabled = true → p.queue = []
  known : ∀ j, p.Open j → j ∈ p.queue ∨ (∃ w, p.inFlight w = some j) ∨ y = some j
  pending : ∀ j, y = some j → p.Open j
  once : (p.settled.map Prod.fst).Nodup
  own : ∀ j reply move, (j, .resolved reply move) ∈ p.settled → reply = j
  past : ∀ j, p.Settled j → j < p.nextId

@[simp] theorem dispatch_inFlight (p : BotWorkerPool V) (w j w' : ℕ) :
    (p.dispatch w j).inFlight w' = if w' = w then some j else p.inFlight w' := Function.update_apply _ _ _ _

@[simp] theorem dispatch_timer (p : BotWorkerPool V) (w j k : ℕ) :
    (p.dispatch w j).timer k = if k = j then some w else p.timer k := Function.update_apply _ _ _ _

@[simp] theorem dispatch_posted (p : BotWorkerPool V) (w j w' : ℕ) :
    (p.dispatch w j).posted w' = if w' = w then p.posted w ++ [j] else p.posted w' := Function.update_apply _ _ _ _

/-! ## Settling a promise -/

theorem mem_settle {j k : ℕ} {s s' : JobOutcome V} :
    (k, s') ∈ (p.settle j s).settled ↔ (k, s') ∈ p.settled ∨ (k = j ∧ s' = s) := by
  unfold settle
  simp

/-- A promise that settles is no longer open; the others stay. -/
theorem open_settle {j k : ℕ} {s : JobOutcome V} : (p.settle j s).Open k ↔ p.Open k ∧ k ≠ j := by
  unfold Open
  simp only [mem_settle]
  constructor
  · rintro ⟨hlo, hhi, hnone⟩
    exact ⟨⟨hlo, hhi, fun s' hs' => hnone s' (.inl hs')⟩, fun heq => hnone s (.inr ⟨heq, rfl⟩)⟩
  · rintro ⟨⟨hlo, hhi, hnone⟩, hne⟩
    refine ⟨hlo, hhi, fun s' hs' => ?_⟩
    rcases hs' with hs' | ⟨heq, -⟩
    · exact hnone s' hs'
    · exact hne heq

theorem Settled.settle {j k : ℕ} {s : JobOutcome V} (h : p.Settled k) : (p.settle j s).Settled k := by
  obtain ⟨s', hs'⟩ := h
  exact ⟨s', mem_settle.mpr (.inl hs')⟩

/-- The job that was taken is settled, and nothing is left to do. -/
theorem Held.settle {j : ℕ} (h : Held p x (some j)) {s : JobOutcome V}
    (hs : ∀ reply move, s = .resolved reply move → reply = j) : Held (p.settle j s) x none where
  first := h.first
  threads := h.threads
  fresh := h.fresh
  quiet := h.quiet
  roster := h.roster
  closing := h.closing
  idle_nodup := h.idle_nodup
  idle := h.idle
  flight w k hk := by
    obtain ⟨hw, hposted, htimer, hopen, hqueue, hx, hy⟩ := h.flight w k hk
    have hne : k ≠ j := fun heq => hy (congrArg some heq.symm)
    refine ⟨hw, hposted, ?_, open_settle.mpr ⟨hopen, hne⟩, hqueue, hx, (fun hy => by cases hy)⟩
    exact (Function.update_of_ne hne _ _).trans htimer
  armed k w hk := by
    by_cases heq : k = j
    · subst heq
      -- the job that settles loses its timer
      rw [show (p.settle k s).timer k = none from Function.update_self _ _ _] at hk
      cases hk
    · rw [show (p.settle j s).timer k = p.timer k from Function.update_of_ne heq _ _] at hk
      rcases h.armed k w hk with hflight | hy
      · exact .inl hflight
      · exact absurd (Option.some.inj hy).symm heq
  rest w hw hidle hflight hx := by
    rcases h.rest w hw hidle hflight hx with ⟨k, hposted, hk⟩ | hfree
    · refine .inl ⟨k, hposted, .inl ?_⟩
      rcases hk with hk | hk
      · exact hk.settle
      · obtain rfl := Option.some.inj hk
        exact ⟨s, mem_settle.mpr (.inr ⟨rfl, rfl⟩)⟩
    · exact .inr hfree
  freed := h.freed
  queue k hk := by
    obtain ⟨hopen, hy⟩ := h.queue k hk
    exact ⟨open_settle.mpr ⟨hopen, fun heq => hy (congrArg some heq.symm)⟩, (fun hy => by cases hy)⟩
  queue_nodup := h.queue_nodup
  busy := h.busy
  flushed := h.flushed
  known k hk := by
    obtain ⟨hopen, hne⟩ := open_settle.mp hk
    rcases h.known k hopen with hqueue | hflight | hy
    · exact .inl hqueue
    · exact .inr (.inl hflight)
    · exact absurd (Option.some.inj hy).symm hne
  pending k hk := by cases hk
  once := by
    show ((p.settled ++ [(j, s)]).map Prod.fst).Nodup
    rw [List.map_append, List.map_singleton, List.nodup_append]
    -- it was open, so it had not settled before
    refine ⟨h.once, List.nodup_singleton _, ?_⟩
    intro k hk k' hk' heq
    obtain ⟨⟨k₀, s'⟩, hmem, hk₀⟩ := List.mem_map.mp hk
    have hkj : k₀ = j := (hk₀.trans heq).trans (List.mem_singleton.mp hk')
    exact (h.pending j rfl).2.2 s' (hkj ▸ hmem)
  own k reply move hk := by
    rcases mem_settle.mp hk with hk | ⟨rfl, hs'⟩
    · exact h.own k reply move hk
    · exact hs reply move hs'.symm
  past k hk := by
    obtain ⟨s', hs'⟩ := hk
    rcases mem_settle.mp hs' with hs' | ⟨rfl, -⟩
    · exact h.past k ⟨s', hs'⟩
    · exact (h.pending k rfl).2.1

theorem Held.fail {j : ℕ} (h : Held p x (some j)) (err : String) : Held (p.fail err j) x none :=
  h.settle fun _ _ heq => by cases heq

/-! ## Work for a worker that is free -/

/-- A free worker gets the first job of the queue. -/
theorem Held.dispatch {w next : ℕ} {queue : List ℕ} (h : Held p (some w) y) (hqueue : p.queue = next :: queue)
    (hbusy : queue = [] ∨ p.idle = []) : Held (BotWorkerPool.dispatch { p with queue := queue } w next) none y := by
  obtain ⟨hw, hposted⟩ := h.freed w rfl
  obtain ⟨hopen, hy⟩ := h.queue next (by rw [hqueue]; exact List.mem_cons_self)
  have hnodup := h.queue_nodup
  rw [hqueue, List.nodup_cons] at hnodup
  have hrest : ∀ j ∈ queue, j ∈ p.queue := by
    intro j hj
    rw [hqueue]
    exact List.mem_cons_of_mem _ hj
  -- the job is in no other worker's hands
  have hown : ∀ w' j, p.inFlight w' = some j → w' ≠ w ∧ j ≠ next := by
    intro w' j hj
    obtain ⟨-, -, -, -, hnot, hx, -⟩ := h.flight w' j hj
    refine ⟨fun heq => hx (congrArg some heq.symm), fun heq => hnot ?_⟩
    rw [heq, hqueue]
    exact List.mem_cons_self
  refine { h with
    quiet := fun w' hw' => ?_
    idle := fun w' hw' => ?_
    flight := fun w' j hj => ?_
    armed := fun j w' hj => ?_
    rest := fun w' hw' hidle hflight _ => ?_
    freed := fun w' hw' => by cases hw'
    queue := fun j hj => h.queue j (hrest j hj)
    queue_nodup := hnodup.2
    busy := hbusy.imp_right .inl
    flushed := fun hdisabled => ?_
    known := fun j hj => ?_ }
  · have hne : w' ≠ w := by
      rintro rfl
      exact hw' hw
    rw [dispatch_posted, if_neg hne]
    exact h.quiet w' hw'
  · obtain ⟨hthread, hfree, hquiet, hx⟩ := h.idle w' hw'
    have hne : w' ≠ w := fun heq => hx (congrArg some heq.symm)
    rw [dispatch_inFlight, dispatch_posted, if_neg hne, if_neg hne]
    exact ⟨hthread, hfree, hquiet, (fun hx => by cases hx)⟩
  · rw [dispatch_inFlight] at hj
    rw [dispatch_posted, dispatch_timer]
    by_cases heq : w' = w
    · rw [if_pos heq] at hj
      obtain rfl := Option.some.inj hj
      rw [if_pos heq, if_pos rfl, heq]
      refine ⟨hw, ?_, rfl, hopen, hnodup.1, (fun hx => by cases hx), hy⟩
      show p.posted w ++ [next] = [next]
      rw [hposted, List.nil_append]
    · rw [if_neg heq] at hj
      obtain ⟨hthread, hposted', htimer, hopen', hnot, -, hyj⟩ := h.flight w' j hj
      rw [if_neg heq, if_neg (hown w' j hj).2]
      exact ⟨hthread, hposted', htimer, hopen', fun hmem => hnot (hrest j hmem), (fun hx => by cases hx), hyj⟩
  · rw [dispatch_timer] at hj
    rw [dispatch_inFlight]
    by_cases heq : j = next
    · rw [if_pos heq] at hj
      obtain rfl := Option.some.inj hj
      rw [if_pos rfl, heq]
      exact .inl rfl
    · rw [if_neg heq] at hj
      rcases h.armed j w' hj with hflight | hyj
      · rw [if_neg (hown w' j hflight).1]
        exact .inl hflight
      · exact .inr hyj
  · rw [dispatch_inFlight] at hflight
    have hne : w' ≠ w := by
      intro heq
      rw [if_pos heq] at hflight
      cases hflight
    rw [if_neg hne] at hflight
    rw [dispatch_posted, if_neg hne]
    exact h.rest w' hw' hidle hflight fun hx => hne (Option.some.inj hx).symm
  · exact absurd ((h.flushed hdisabled).symm.trans hqueue) (by simp)
  · rcases h.known j hj with hmem | ⟨w', hw'⟩ | hyj
    · rw [hqueue] at hmem
      rcases List.mem_cons.mp hmem with rfl | hmem
      · exact .inr (.inl ⟨w, by rw [dispatch_inFlight, if_pos rfl]⟩)
      · exact .inl hmem
    · exact .inr (.inl ⟨w', by rw [dispatch_inFlight, if_neg (hown w' j hw').1]; exact hw'⟩)
    · exact .inr (.inr hyj)

/-- A free worker is idle again. -/
theorem Held.push {w : ℕ} (h : Held p (some w) y) (hqueue : p.queue = []) :
    Held { p with idle := p.idle ++ [w] } none y := by
  obtain ⟨hw, hposted⟩ := h.freed w rfl
  have hnone : p.inFlight w = none := by
    cases hj : p.inFlight w with
    | none => rfl
    | some j =>
      obtain ⟨-, -, -, -, -, hx, -⟩ := h.flight w j hj
      exact absurd rfl hx
  refine { h with
    idle_nodup := ?_
    idle := fun w' hw' => ?_
    flight := fun w' j hj => ?_
    rest := fun w' hw' hidle hflight _ => ?_
    freed := fun w' hw' => by cases hw'
    busy := .inl hqueue }
  · refine List.nodup_append.mpr ⟨h.idle_nodup, List.nodup_singleton _, ?_⟩
    intro w' hw' w'' hw'' heq
    obtain ⟨-, -, -, hx⟩ := h.idle w' hw'
    exact hx (congrArg some ((List.mem_singleton.mp hw'').symm.trans heq.symm))
  · rcases List.mem_append.mp hw' with hw' | hw'
    · obtain ⟨hthread, hfree, hquiet, -⟩ := h.idle w' hw'
      exact ⟨hthread, hfree, hquiet, (fun hx => by cases hx)⟩
    · obtain rfl := List.mem_singleton.mp hw'
      exact ⟨hw, hnone, hposted, (fun hx => by cases hx)⟩
  · obtain ⟨hthread, hposted', htimer, hopen, hnot, -, hy⟩ := h.flight w' j hj
    exact ⟨hthread, hposted', htimer, hopen, hnot, (fun hx => by cases hx), hy⟩
  · refine h.rest w' hw' (fun hmem => hidle (List.mem_append_left _ hmem)) hflight fun hx => hidle ?_
    obtain rfl := Option.some.inj hx
    exact List.mem_append_right _ List.mem_cons_self

/-- A free worker of a pool that is disabled is left alone. -/
theorem Held.leave {w : ℕ} (h : Held p (some w) y) (hdisabled : p.disabled = true) : Held p none y := by
  obtain ⟨hw, hposted⟩ := h.freed w rfl
  refine { h with
    idle := fun w' hw' => ?_
    flight := fun w' j hj => ?_
    rest := fun w' hw' hidle hflight _ => ?_
    freed := fun w' hw' => by cases hw'
    busy := .inl (h.flushed hdisabled) }
  · obtain ⟨hthread, hfree, hquiet, -⟩ := h.idle w' hw'
    exact ⟨hthread, hfree, hquiet, (fun hx => by cases hx)⟩
  · obtain ⟨hthread, hposted', htimer, hopen, hnot, -, hy⟩ := h.flight w' j hj
    exact ⟨hthread, hposted', htimer, hopen, hnot, (fun hx => by cases hx), hy⟩
  · by_cases heq : w' = w
    · rw [heq]
      exact .inr ⟨hdisabled, hposted⟩
    · exact h.rest w' hw' hidle hflight fun hx => heq (Option.some.inj hx).symm

/-- A thread let go leaves the books in order. -/
theorem Held.release {w : ℕ} (h : Held p (some w) y) : Held (p.release w) none y := by
  unfold BotWorkerPool.release
  split
  · rename_i hskip
    refine h.leave ?_
    cases hdisabled : p.disabled with
    | true => rfl
    | false =>
      -- a pool that is not disabled still has the worker
      have hopen : p.closing = false := by
        cases hclosing : p.closing with
        | false => rfl
        | true => exact absurd ((h.closing hclosing).symm.trans hdisabled) (by decide)
      have hmem : w ∈ p.workers := by
        rw [h.roster hopen]
        exact (h.freed w rfl).1
      rw [hdisabled] at hskip
      simp [hmem] at hskip
  · split
    · rename_i hqueue
      exact h.push hqueue
    · rename_i next queue hqueue
      refine h.dispatch hqueue ?_
      rcases h.busy with hnil | hidle | ⟨-, hone⟩
      · exact absurd (hqueue.symm.trans hnil) (by simp)
      · exact .inr hidle
      · rw [hqueue, List.length_cons] at hone
        exact .inl (List.eq_nil_of_length_eq_zero (by omega))

/-! ## A job is taken from its worker -/

theorem Held.flight_inj (h : Held p x y) {w w' j : ℕ} (hw : p.inFlight w = some j) (hw' : p.inFlight w' = some j) :
    w = w' := by
  obtain ⟨-, -, htimer, -⟩ := h.flight w j hw
  obtain ⟨-, -, htimer', -⟩ := h.flight w' j hw'
  exact Option.some.inj (htimer.symm.trans htimer')

/-- A thread has been sent at most one thing. -/
theorem Held.posted_head (h : Held p none none) {w id : ℕ} {rest : List ℕ} (hw : w ∈ p.threads)
    (hposted : p.posted w = id :: rest) : rest = [] ∧ w ∉ p.idle ∧ ∀ j, p.inFlight w = some j → j = id := by
  have hidle : w ∉ p.idle := by
    intro hmem
    obtain ⟨-, -, hquiet, -⟩ := h.idle w hmem
    exact absurd (hposted.symm.trans hquiet) (by simp)
  have hone : ∀ j, p.posted w = [j] → j = id ∧ rest = [] := by
    intro j hj
    obtain ⟨hid, hrest⟩ := List.cons.inj (hposted.symm.trans hj)
    exact ⟨hid.symm, hrest⟩
  cases hflight : p.inFlight w with
  | some j =>
    obtain ⟨-, hj, -⟩ := h.flight w j hflight
    refine ⟨(hone j hj).2, hidle, fun k hk => ?_⟩
    obtain rfl := Option.some.inj hk
    exact (hone j hj).1
  | none =>
    refine ⟨?_, hidle, fun k hk => by cases hk⟩
    rcases h.rest w hw hidle hflight (fun hx => by cases hx) with ⟨j, hj, -⟩ | ⟨-, hnil⟩
    · exact (hone j hj).2
    · exact absurd (hposted.symm.trans hnil) (by simp)

/-- A thread has answered: the worker is free, and its job is to be settled. -/
theorem Held.answered (h : Held p none none) {w id : ℕ} {rest : List ℕ} (hw : w ∈ p.threads)
    (hposted : p.posted w = id :: rest) :
    Held { p with posted := Function.update p.posted w rest, inFlight := Function.update p.inFlight w none } (some w)
      (p.inFlight w) := by
  obtain ⟨rfl, hidle, -⟩ := h.posted_head hw hposted
  have hflight : ∀ w' j, Function.update p.inFlight w none w' = some j → w' ≠ w ∧ p.inFlight w' = some j := by
    intro w' j hj
    rw [Function.update_apply] at hj
    by_cases heq : w' = w
    · rw [if_pos heq] at hj
      cases hj
    · rw [if_neg heq] at hj
      exact ⟨heq, hj⟩
  have hposts : ∀ w', w' ≠ w → Function.update p.posted w [] w' = p.posted w' := fun w' hne =>
    Function.update_of_ne hne _ _
  -- the job answered is in nobody's hands for the moment
  refine { h with
    quiet := fun w' hw' => ?_
    idle := fun w' hw' => ?_
    flight := fun w' j hj => ?_
    armed := fun j w' hj => ?_
    rest := fun w' hw' hidle' hnone hx => ?_
    freed := fun w' hw' => ?_
    queue := fun j hj => ⟨(h.queue j hj).1, fun hy => ?_⟩
    busy := ?_
    known := fun j hj => ?_
    pending := fun j hj => ?_ }
  · have hne : w' ≠ w := by
      rintro rfl
      exact hw' hw
    exact (hposts w' hne).trans (h.quiet w' hw')
  · obtain ⟨hthread, hfree, hquiet, -⟩ := h.idle w' hw'
    have hne : w' ≠ w := by
      rintro rfl
      exact hidle hw'
    exact ⟨hthread, (Function.update_of_ne hne _ _).trans hfree, (hposts w' hne).trans hquiet,
      fun hx => hne (Option.some.inj hx).symm⟩
  · obtain ⟨hne, hj'⟩ := hflight w' j hj
    obtain ⟨hthread, hposted', htimer, hopen, hnot, -, -⟩ := h.flight w' j hj'
    exact ⟨hthread, (hposts w' hne).trans hposted', htimer, hopen, hnot, (fun hx => hne (Option.some.inj hx).symm),
      fun hy => hne (h.flight_inj hj' hy)⟩
  · rcases h.armed j w' hj with hj' | hy
    · by_cases heq : w' = w
      · exact .inr (heq ▸ hj')
      · exact .inl ((Function.update_of_ne heq _ _).trans hj')
    · cases hy
  · have hne : w' ≠ w := fun heq => hx (congrArg some heq.symm)
    dsimp only
    rw [hposts w' hne]
    rcases h.rest w' hw' hidle' ((Function.update_of_ne hne _ _).symm.trans hnone) (fun hx => by cases hx) with
      ⟨j, hj, hdone | hy⟩ | hfree
    · exact .inl ⟨j, hj, .inl hdone⟩
    · cases hy
    · exact .inr hfree
  · obtain rfl := Option.some.inj hw'
    exact ⟨hw, Function.update_self _ _ _⟩
  · obtain ⟨-, -, -, -, hnot, -⟩ := h.flight w j hy
    exact hnot hj
  · rcases h.busy with hnil | hnil | ⟨hx, -⟩
    · exact .inl hnil
    · exact .inr (.inl hnil)
    · exact absurd rfl hx
  · rcases h.known j hj with hmem | ⟨w', hw'⟩ | hy
    · exact .inl hmem
    · by_cases heq : w' = w
      · exact .inr (.inr (heq ▸ hw'))
      · exact .inr (.inl ⟨w', (Function.update_of_ne heq _ _).trans hw'⟩)
    · cases hy
  · obtain ⟨-, -, -, hopen, -⟩ := h.flight w j hj
    exact hopen

/-- The time of a job is up: its thread goes on, and the job is to be settled. -/
theorem Held.expired (h : Held p none none) {w j : ℕ} (hflight : p.inFlight w = some j) :
    Held { p with inFlight := Function.update p.inFlight w none } none (some j) := by
  obtain ⟨hw, hposted, htimer, hopen, hnot, -⟩ := h.flight w j hflight
  -- a worker with a job in hand is not idle
  have hidle : w ∉ p.idle := by
    intro hmem
    obtain ⟨-, hfree, -⟩ := h.idle w hmem
    exact absurd (hflight.symm.trans hfree) (by simp)
  refine { h with
    idle := fun w' hw' => ?_
    flight := fun w' k hk => ?_
    armed := fun k w' hk => ?_
    rest := fun w' hw' hidle' hnone hx => ?_
    queue := fun k hk => ⟨(h.queue k hk).1, fun hy => ?_⟩
    known := fun k hk => ?_
    pending := fun k hk => ?_ }
  · obtain ⟨hthread, hfree, hquiet, hx⟩ := h.idle w' hw'
    have hne : w' ≠ w := by
      rintro rfl
      exact hidle hw'
    exact ⟨hthread, (Function.update_of_ne hne _ _).trans hfree, hquiet, hx⟩
  · dsimp only at hk
    rw [Function.update_apply] at hk
    by_cases heq : w' = w
    · rw [if_pos heq] at hk
      cases hk
    · rw [if_neg heq] at hk
      obtain ⟨hthread, hposted', htimer', hopen', hnot', hx, -⟩ := h.flight w' k hk
      refine ⟨hthread, hposted', htimer', hopen', hnot', hx, fun hy => heq ?_⟩
      rw [← Option.some.inj hy] at hk
      exact h.flight_inj hk hflight
  · rcases h.armed k w' hk with hk' | hy
    · by_cases heq : w' = w
      · subst heq
        exact .inr (hflight.symm.trans hk')
      · exact .inl ((Function.update_of_ne heq _ _).trans hk')
    · cases hy
  · by_cases heq : w' = w
    · rw [heq]
      exact .inl ⟨j, hposted, .inr rfl⟩
    · rcases h.rest w' hw' hidle' ((Function.update_of_ne heq _ _).symm.trans hnone) hx with ⟨k, hk, hdone | hy⟩ | hfree
      · exact .inl ⟨k, hk, .inl hdone⟩
      · cases hy
      · exact .inr hfree
  · obtain rfl := Option.some.inj hy
    exact hnot hk
  -- the job taken from the worker is the pending one now
  · rcases h.known k hk with hmem | ⟨w', hw'⟩ | hy
    · exact .inl hmem
    · by_cases heq : w' = w
      · subst heq
        exact .inr (.inr (hflight.symm.trans hw'))
      · exact .inr (.inl ⟨w', (Function.update_of_ne heq _ _).trans hw'⟩)
    · cases hy
  · obtain rfl := Option.some.inj hk
    exact hopen

/-! ## The threads -/

/-- A thread has ended: it is in no collection, and its job is to be settled. -/
theorem Held.ended (h : Held p none none) (w : ℕ) (dying : List ℕ) :
    Held { p with
      threads := p.threads.erase w
      dying := dying
      posted := Function.update p.posted w []
      inFlight := Function.update p.inFlight w none
      workers := p.workers.erase w
      idle := p.idle.erase w } none (p.inFlight w) := by
  have hthreads : ∀ w', w' ∈ p.threads.erase w ↔ w' ≠ w ∧ w' ∈ p.threads := fun w' => h.threads.mem_erase_iff
  have hidles : ∀ w', w' ∈ p.idle.erase w ↔ w' ≠ w ∧ w' ∈ p.idle := fun w' => h.idle_nodup.mem_erase_iff
  have hposts : ∀ w', w' ≠ w → Function.update p.posted w [] w' = p.posted w' := fun w' hne =>
    Function.update_of_ne hne _ _
  -- the thread's own job, if it had one, is in nobody's hands for the moment
  refine { h with
    threads := h.threads.erase w
    fresh := fun w' hw' => h.fresh w' (List.mem_of_mem_erase hw')
    quiet := fun w' hw' => ?_
    roster := fun hclosing => congrArg (List.erase · w) (h.roster hclosing)
    idle_nodup := h.idle_nodup.erase w
    idle := fun w' hw' => ?_
    flight := fun w' j hj => ?_
    armed := fun j w' hj => ?_
    rest := fun w' hw' hidle hnone hx => ?_
    freed := fun w' hw' => by cases hw'
    queue := fun j hj => ⟨(h.queue j hj).1, fun hy => ?_⟩
    busy := ?_
    known := fun j hj => ?_
    pending := fun j hj => ?_ }
  · by_cases heq : w' = w
    · rw [heq]
      exact Function.update_self _ _ _
    · exact (hposts w' heq).trans (h.quiet w' fun hmem => hw' ((hthreads w').mpr ⟨heq, hmem⟩))
  · obtain ⟨hne, hmem⟩ := (hidles w').mp hw'
    obtain ⟨hthread, hfree, hquiet, hx⟩ := h.idle w' hmem
    exact ⟨(hthreads w').mpr ⟨hne, hthread⟩, (Function.update_of_ne hne _ _).trans hfree, (hposts w' hne).trans hquiet, hx⟩
  · dsimp only at hj
    rw [Function.update_apply] at hj
    by_cases heq : w' = w
    · rw [if_pos heq] at hj
      cases hj
    · rw [if_neg heq] at hj
      obtain ⟨hthread, hposted, htimer, hopen, hnot, hx, -⟩ := h.flight w' j hj
      exact ⟨(hthreads w').mpr ⟨heq, hthread⟩, (hposts w' heq).trans hposted, htimer, hopen, hnot, hx,
        fun hy => heq (h.flight_inj hj hy)⟩
  · rcases h.armed j w' hj with hj' | hy
    · by_cases heq : w' = w
      · exact .inr (heq ▸ hj')
      · exact .inl ((Function.update_of_ne heq _ _).trans hj')
    · cases hy
  · obtain ⟨hne, hthread⟩ := (hthreads w').mp hw'
    dsimp only
    rw [hposts w' hne]
    have hidle' : w' ∉ p.idle := fun hmem => hidle ((hidles w').mpr ⟨hne, hmem⟩)
    rcases h.rest w' hthread hidle' ((Function.update_of_ne hne _ _).symm.trans hnone) hx with ⟨j, hj, hdone | hy⟩ | hfree
    · exact .inl ⟨j, hj, .inl hdone⟩
    · cases hy
    · exact .inr hfree
  · obtain ⟨-, -, -, -, hnot, -⟩ := h.flight w j hy
    exact hnot hj
  · rcases h.busy with hnil | hnil | ⟨hx, -⟩
    · exact .inl hnil
    · refine .inr (.inl ?_)
      show p.idle.erase w = []
      rw [hnil]
      rfl
    · exact absurd rfl hx
  · rcases h.known j hj with hmem | ⟨w', hw'⟩ | hy
    · exact .inl hmem
    · by_cases heq : w' = w
      · exact .inr (.inr (heq ▸ hw'))
      · exact .inr (.inl ⟨w', (Function.update_of_ne heq _ _).trans hw'⟩)
    · cases hy
  · obtain ⟨-, -, -, hopen, -⟩ := h.flight w j hj
    exact hopen

/-- A thread that has ended is dropped. -/
theorem Held.drop (h : Held p none none) (w : ℕ) (dying : List ℕ) (why : String) :
    Held (BotWorkerPool.drop { p with
      threads := p.threads.erase w
      dying := dying
      posted := Function.update p.posted w [] } w why) none none := by
  have hended := h.ended w dying
  unfold BotWorkerPool.drop
  dsimp only
  split
  · rename_i hnone
    rw [hnone] at hended
    exact hended
  · rename_i job hjob
    rw [hjob] at hended
    exact hended.fail why

/-- A thread is made, and gets something to do. -/
theorem Held.hired (h : Held p none none) :
    Held { p with
      workers := p.workers ++ [p.spawned]
      threads := p.threads ++ [p.spawned]
      spawned := p.spawned + 1 } (some p.spawned) none := by
  have hnew : p.spawned ∉ p.threads := fun hmem => Nat.lt_irrefl _ (h.fresh _ hmem)
  have hne : ∀ w ∈ p.threads, some p.spawned ≠ some w := by
    rintro w hw heq
    exact hnew (Option.some.inj heq ▸ hw)
  refine { h with
    threads := ?_
    fresh := fun w hw => ?_
    quiet := fun w hw => h.quiet w fun hmem => hw (List.mem_append_left _ hmem)
    roster := fun hclosing => congrArg (· ++ [p.spawned]) (h.roster hclosing)
    idle := fun w hw => ?_
    flight := fun w j hj => ?_
    rest := fun w hw hidle hflight hx => ?_
    freed := fun w hw => ?_
    busy := ?_ }
  · refine List.nodup_append.mpr ⟨h.threads, List.nodup_singleton _, ?_⟩
    intro w hw w' hw' heq
    exact hnew ((heq.trans (List.mem_singleton.mp hw')) ▸ hw)
  · rcases List.mem_append.mp hw with hw | hw
    · exact Nat.lt_succ_of_lt (h.fresh w hw)
    · rw [List.mem_singleton.mp hw]
      exact Nat.lt_succ_self _
  · obtain ⟨hthread, hfree, hquiet, -⟩ := h.idle w hw
    exact ⟨List.mem_append_left _ hthread, hfree, hquiet, hne w hthread⟩
  · obtain ⟨hthread, hposted, htimer, hopen, hnot, -, hy⟩ := h.flight w j hj
    exact ⟨List.mem_append_left _ hthread, hposted, htimer, hopen, hnot, hne w hthread, hy⟩
  · rcases List.mem_append.mp hw with hw | hw
    · exact h.rest w hw hidle hflight (fun hx => by cases hx)
    · exact absurd (congrArg some (List.mem_singleton.mp hw).symm) hx
  · obtain rfl := Option.some.inj hw
    exact ⟨List.mem_append_right _ List.mem_cons_self, h.quiet _ hnew⟩
  · rcases h.busy with hnil | hnil | ⟨hx, -⟩
    · exact .inl hnil
    · exact .inr (.inl hnil)
    · exact absurd rfl hx

/-- The pool gives up while nothing waits. -/
theorem Held.disable (h : Held p none none) (hqueue : p.queue = []) (respawns : ℕ) (closing : Bool) :
    Held { p with disabled := true, respawns := respawns, closing := p.closing || closing } none none :=
  { h with
    roster := fun hclosing => h.roster (Bool.or_eq_false_iff.mp hclosing).1
    closing := fun _ => rfl
    rest := fun w hw hidle hflight hx => (h.rest w hw hidle hflight hx).imp_right fun hfree => ⟨rfl, hfree.2⟩
    flushed := fun _ => hqueue }

/-- The pool is filled up in order. -/
theorem Held.spawn (h : Held p none none) {canSpawn : Bool}
    (hqueue : p.disabled = true ∨ canSpawn = true ∨ p.queue = []) : Held (p.spawn canSpawn) none none := by
  unfold BotWorkerPool.spawn
  split
  · exact h
  · rename_i hdisabled
    split
    · exact h.hired.release
    · rename_i hfails
      rcases hqueue with hd | hc | hq
      · exact absurd hd hdisabled
      · exact absurd hc hfails
      · have hgone := h.disable hq p.respawns false
        rw [Bool.or_false] at hgone
        exact hgone

/-! ## The operations -/

/-- Many jobs fail at once: their timers go. -/
theorem foldl_fail (err : String) (jobs : List ℕ) (p : BotWorkerPool V) :
    jobs.foldl (fail · err) p = { p with
      timer := jobs.foldl (fun timer j => Function.update timer j none) p.timer
      settled := p.settled ++ jobs.map fun j => (j, .rejected err) } := by
  induction jobs generalizing p with
  | nil => simp
  | cons j jobs ih =>
    rw [List.foldl_cons, ih]
    simp [fail, settle]

/-- The first job of the queue is to be settled. -/
theorem Held.pop (h : Held p none none) {j : ℕ} {queue : List ℕ} (hqueue : p.queue = j :: queue) :
    Held { p with queue := queue } none (some j) := by
  have hnodup := h.queue_nodup
  rw [hqueue, List.nodup_cons] at hnodup
  have hmem : ∀ k, k ∈ p.queue ↔ k = j ∨ k ∈ queue := by
    intro k
    rw [hqueue]
    exact List.mem_cons
  refine { h with
    flight := fun w k hk => ?_
    armed := fun k w hk => (h.armed k w hk).imp_right fun hy => by cases hy
    rest := fun w hw hidle hflight hx => (h.rest w hw hidle hflight hx).imp_left fun ⟨k, hk, hdone⟩ =>
      ⟨k, hk, hdone.imp_right fun hy => by cases hy⟩
    queue := fun k hk => ⟨(h.queue k ((hmem k).mpr (.inr hk))).1, fun hy => hnodup.1 (Option.some.inj hy ▸ hk)⟩
    queue_nodup := hnodup.2
    busy := ?_
    flushed := fun hdisabled => absurd ((h.flushed hdisabled).symm.trans hqueue) (by simp)
    known := fun k hk => ?_
    pending := fun k hk => ?_ }
  · obtain ⟨hthread, hposted, htimer, hopen, hnot, hx, -⟩ := h.flight w k hk
    refine ⟨hthread, hposted, htimer, hopen, fun hq => hnot ((hmem k).mpr (.inr hq)), hx, fun hy => hnot ?_⟩
    exact (hmem k).mpr (.inl (Option.some.inj hy).symm)
  · rcases h.busy with hnil | hnil | ⟨hx, -⟩
    · exact absurd (hqueue.symm.trans hnil) (by simp)
    · exact .inr (.inl hnil)
    · exact absurd rfl hx
  · rcases h.known k hk with hq | hflight | hy
    · rcases (hmem k).mp hq with rfl | hq
      · exact .inr (.inr rfl)
      · exact .inl hq
    · exact .inr (.inl hflight)
    · cases hy
  · rw [← Option.some.inj hk]
    exact (h.queue j ((hmem j).mpr (.inl rfl))).1

/-- The queue is emptied in order. -/
theorem Held.flush (h : Held p none none) (err : String) : Held (p.flush err) none none := by
  have hall : ∀ (queue : List ℕ) (q : BotWorkerPool V), q.queue = queue → Held q none none →
      Held (queue.foldl (BotWorkerPool.fail · err) { q with queue := [] }) none none := by
    intro queue
    induction queue with
    | nil =>
      intro q hqueue hq
      have heq : { q with queue := [] } = q := by rw [← hqueue]
      rw [List.foldl_nil, heq]
      exact hq
    | cons j queue ih =>
      intro q hqueue hq
      exact ih _ rfl ((hq.pop hqueue).fail err)
  exact hall p.queue p rfl h

/-- The queue is emptied as the pool gives up. -/
theorem Held.give_up (h : Held p none none) (err : String) (respawns : ℕ) (closing : Bool) :
    Held (BotWorkerPool.flush { p with disabled := true, respawns := respawns, closing := p.closing || closing } err)
      none none := by
  have hflush := h.flush err
  unfold BotWorkerPool.flush at hflush ⊢
  rw [foldl_fail] at hflush ⊢
  exact hflush.disable rfl respawns closing

/-- An answer is booked in order. -/
theorem Held.message (h : Held p none none) {w id : ℕ} {rest : List ℕ} (hw : w ∈ p.threads)
    (hposted : p.posted w = id :: rest) (move : Option V) :
    Held (BotWorkerPool.message { p with posted := Function.update p.posted w rest } w id move) none none := by
  obtain ⟨-, -, hjob⟩ := h.posted_head hw hposted
  have hreleased := (h.answered hw hposted).release
  unfold BotWorkerPool.message
  dsimp only
  split
  · rename_i hnone
    rw [hnone] at hreleased
    exact hreleased
  · rename_i job hsome
    rw [hsome] at hreleased
    -- what a thread with a job has been sent is the job
    rw [if_pos (hjob job hsome)]
    cases move with
    | none => exact hreleased.settle fun _ _ heq => by cases heq
    | some move =>
      refine hreleased.settle fun reply move' heq => ?_
      cases heq
      exact (hjob job hsome).symm

/-- A new job waits, and the worker that is to get it is no longer idle. -/
theorem Held.enlist (h : Held p none none) (idle : List ℕ) (hnodup : idle.Nodup)
    (hidle : ∀ w ∈ idle, w ∈ p.idle ∧ x ≠ some w) (hx : ∀ w, x = some w → w ∈ p.idle)
    (hrest : ∀ w ∈ p.idle, w ∉ idle → x = some w) (hdisabled : p.disabled = false)
    (hbusy : (idle = [] ∧ x = none) ∨ (x ≠ none ∧ p.queue = [])) :
    Held { p with idle := idle, queue := p.queue ++ [p.nextId], nextId := p.nextId + 1 } x none := by
  have hgrow : ∀ {j}, p.Open j → Open { p with idle := idle, queue := p.queue ++ [p.nextId], nextId := p.nextId + 1 } j :=
    fun hj => ⟨hj.1, Nat.lt_succ_of_lt hj.2.1, hj.2.2⟩
  -- the new job's number is above all those issued
  have hnew : ∀ {j}, p.Open j → j ≠ p.nextId := fun hj heq => Nat.lt_irrefl _ (heq ▸ hj.2.1)
  refine { h with
    first := Nat.le_succ_of_le h.first
    idle_nodup := hnodup
    idle := fun w hw => ?_
    flight := fun w j hj => ?_
    armed := h.armed
    rest := fun w hw hout hflight hfree => ?_
    freed := fun w hw => ?_
    queue := fun j hj => ?_
    queue_nodup := ?_
    busy := ?_
    flushed := fun hd => absurd (hdisabled.symm.trans hd) (by decide)
    known := fun j hj => ?_
    pending := fun j hj => by cases hj
    past := fun j hj => Nat.lt_succ_of_lt (h.past j hj) }
  · obtain ⟨hmem, hne⟩ := hidle w hw
    obtain ⟨hthread, hfree, hquiet, -⟩ := h.idle w hmem
    exact ⟨hthread, hfree, hquiet, hne⟩
  · obtain ⟨hthread, hposted, htimer, hopen, hnot, -, hy⟩ := h.flight w j hj
    refine ⟨hthread, hposted, htimer, hgrow hopen, fun hmem => ?_, fun heq => ?_, hy⟩
    · rcases List.mem_append.mp hmem with hmem | hmem
      · exact hnot hmem
      · exact hnew hopen (List.mem_singleton.mp hmem)
    · obtain ⟨-, hfree, -⟩ := h.idle w (hx w heq)
      exact absurd (hj.symm.trans hfree) (by simp)
  -- an idle worker that left the list is the one being handed a job
  · by_cases hmem : w ∈ p.idle
    · exact absurd (hrest w hmem hout) hfree
    · exact h.rest w hw hmem hflight (fun heq => by cases heq)
  · obtain ⟨hthread, -, hquiet, -⟩ := h.idle w (hx w hw)
    exact ⟨hthread, hquiet⟩
  · rcases List.mem_append.mp hj with hj | hj
    · exact ⟨hgrow (h.queue j hj).1, (fun hy => by cases hy)⟩
    · rw [List.mem_singleton.mp hj]
      refine ⟨⟨h.first, Nat.lt_succ_self _, fun s hs => ?_⟩, (fun hy => by cases hy)⟩
      exact Nat.lt_irrefl _ (h.past _ ⟨s, hs⟩)
  · refine List.nodup_append.mpr ⟨h.queue_nodup, List.nodup_singleton _, ?_⟩
    intro j hj k hk heq
    exact hnew (h.queue j hj).1 (heq.trans (List.mem_singleton.mp hk))
  -- either nobody is idle, or the queue was empty and holds the new job alone
  · rcases hbusy with ⟨hnil, -⟩ | ⟨hsome, hnil⟩
    · exact .inr (.inl hnil)
    · refine .inr (.inr ⟨hsome, ?_⟩)
      show (p.queue ++ [p.nextId]).length ≤ 1
      rw [hnil]
      exact Nat.le_refl _
  -- no open job is lost: the new one is queued, an older one stays where it was
  · by_cases heq : j = p.nextId
    · exact .inl (List.mem_append_right _ (List.mem_singleton.mpr heq))
    · have hold : p.Open j := ⟨hj.1, Nat.lt_of_le_of_ne (Nat.le_of_lt_succ hj.2.1) heq, hj.2.2⟩
      rcases h.known j hold with hmem | hflight | hy
      · exact .inl (List.mem_append_left _ hmem)
      · exact .inr (.inl hflight)
      · cases hy

/-- A new job is booked in order. -/
theorem Held.decide (h : Held p none none) : Held p.decide none none := by
  unfold BotWorkerPool.decide
  split
  · exact h
  · rename_i henabled
    have hdisabled : p.disabled = false := by
      cases hd : p.disabled with
      | false => rfl
      | true =>
        unfold enabled at henabled
        rw [hd] at henabled
        exact absurd rfl henabled
    split
    · rename_i w hlast
      obtain ⟨idle, hidle⟩ := List.getLast?_eq_some_iff.mp hlast
      have hnodup := h.idle_nodup
      rw [hidle, List.nodup_append] at hnodup
      have hmem : ∀ w', w' ∈ p.idle ↔ w' ∈ idle ∨ w' = w := by
        intro w'
        rw [hidle, List.mem_append, List.mem_singleton]
      -- a worker is idle, so nothing waits
      have hqueue : p.queue = [] := by
        rcases h.busy with hnil | hnil | ⟨hx, -⟩
        · exact hnil
        · exact absurd (hidle.symm.trans hnil) (by simp)
        · exact absurd rfl hx
      have hwaits := h.enlist (x := some w) idle hnodup.1
        (fun w' hw' => ⟨(hmem w').mpr (.inl hw'), fun heq => hnodup.2.2 w' hw' w List.mem_cons_self (Option.some.inj heq).symm⟩)
        (fun w' hw' => (hmem w').mpr (.inr (Option.some.inj hw').symm))
        (fun w' hw' hout => congrArg some (((hmem w').mp hw').resolve_left hout).symm) hdisabled
        (.inr ⟨by simp, hqueue⟩)
      have hgiven : Held (BotWorkerPool.dispatch { p with idle := idle, queue := [], nextId := p.nextId + 1 } w p.nextId)
          none none := hwaits.dispatch (by rw [hqueue]; rfl) (.inl rfl)
      rw [hidle, List.dropLast_concat]
      have hsame : { p with idle := idle, queue := [], nextId := p.nextId + 1 } =
          { p with idle := idle, nextId := p.nextId + 1 } := by rw [← hqueue]
      rw [← hsame]
      exact hgiven
    · rename_i hnone
      have hnil : p.idle = [] := List.getLast?_eq_none_iff.mp hnone
      exact h.enlist (x := none) p.idle h.idle_nodup (fun w hw => ⟨hw, fun hx => by cases hx⟩)
        (fun w hx => by cases hx) (fun w hw hout => absurd hw hout) hdisabled (.inl ⟨hnil, rfl⟩)

/-- A thread that is made in place of another does not leave jobs waiting for nobody. -/
theorem Held.respawn (h : Held p none none) {canSpawn : Bool}
    (hspawn : p.disabled = true ∨ maxRespawns ≤ p.respawns ∨ canSpawn = true ∨ p.queue = []) :
    Held (p.respawn canSpawn) none none := by
  unfold BotWorkerPool.respawn
  split
  · exact h
  · rename_i hdisabled
    split
    · have hgone := h.give_up "pool disabled" (p.respawns + 1) false
      rw [Bool.or_false] at hgone
      exact hgone
    · rename_i hmore
      have hcounted : Held { p with respawns := p.respawns + 1 } none none := { h with }
      refine hcounted.spawn ?_
      rcases hspawn with hd | hmany | hrest
      · exact absurd hd hdisabled
      · omega
      · exact .inr hrest

/-- The threads of a shutdown have ended. -/
theorem Held.closed (h : Held p none none) (hclosing : p.closing = true) :
    Held { p with workers := [], idle := [] } none none := by
  have hdisabled := h.closing hclosing
  refine { h with
    roster := fun hopen => absurd (hopen.symm.trans hclosing) (by decide)
    idle_nodup := List.nodup_nil
    idle := fun w hw => absurd hw List.not_mem_nil
    rest := fun w hw _ hflight hx => ?_
    busy := .inl (h.flushed hdisabled) }
  by_cases hidle : w ∈ p.idle
  · obtain ⟨-, -, hquiet, -⟩ := h.idle w hidle
    exact .inr ⟨hdisabled, hquiet⟩
  · exact h.rest w hw hidle hflight hx

/-- A job that takes too long is booked in order. -/
theorem Held.timeout (h : Held p none none) {w j : ℕ} (htimer : p.timer j = some w) :
    Held (BotWorkerPool.fail (if p.inFlight w = some j then { p with inFlight := Function.update p.inFlight w none } else p)
      "bot worker timeout" j) none none := by
  have hflight : p.inFlight w = some j := by
    rcases h.armed j w htimer with hflight | hy
    · exact hflight
    · cases hy
  rw [if_pos hflight]
  exact (h.expired hflight).fail _

/-! ## The number of threads -/

@[simp] theorem release_threads (p : BotWorkerPool V) (w : ℕ) : (p.release w).threads = p.threads := by
  unfold release
  split
  · rfl
  · split <;> rfl

@[simp] theorem release_size (p : BotWorkerPool V) (w : ℕ) : (p.release w).size = p.size := by
  unfold release
  split
  · rfl
  · split <;> rfl

@[simp] theorem flush_threads (p : BotWorkerPool V) (err : String) : (p.flush err).threads = p.threads := by
  unfold flush
  rw [foldl_fail]

@[simp] theorem flush_size (p : BotWorkerPool V) (err : String) : (p.flush err).size = p.size := by
  unfold flush
  rw [foldl_fail]

@[simp] theorem flush_disabled (p : BotWorkerPool V) (err : String) : (p.flush err).disabled = p.disabled := by
  unfold flush
  rw [foldl_fail]

@[simp] theorem flush_queue (p : BotWorkerPool V) (err : String) : (p.flush err).queue = [] := by
  unfold flush
  rw [foldl_fail]

/-- What a worker that leaves the pool leaves as it was. -/
theorem drop_frame (p : BotWorkerPool V) (w : ℕ) (why : String) :
    (p.drop w why).threads = p.threads ∧ (p.drop w why).size = p.size ∧ (p.drop w why).queue = p.queue ∧
      (p.drop w why).disabled = p.disabled ∧ (p.drop w why).respawns = p.respawns := by
  unfold drop
  dsimp only
  split <;> exact ⟨rfl, rfl, rfl, rfl, rfl⟩

@[simp] theorem spawn_size (p : BotWorkerPool V) (canSpawn : Bool) : (p.spawn canSpawn).size = p.size := by
  unfold spawn
  split
  · rfl
  · split
    · rw [release_size]
    · rfl

/-- A thread is made, or the pool is disabled. -/
theorem spawn_threads (p : BotWorkerPool V) (canSpawn : Bool) :
    ((p.spawn canSpawn).threads = p.threads ∧ (p.spawn canSpawn).disabled = true) ∨
      (p.disabled = false ∧ canSpawn = true ∧ (p.spawn canSpawn).threads = p.threads ++ [p.spawned]) := by
  unfold spawn
  split
  · rename_i hdisabled
    exact .inl ⟨rfl, hdisabled⟩
  · rename_i hdisabled
    split
    · rename_i hc
      exact .inr ⟨Bool.eq_false_iff.mpr hdisabled, hc, release_threads _ _⟩
    · exact .inl ⟨rfl, rfl⟩

@[simp] theorem respawn_size (p : BotWorkerPool V) (canSpawn : Bool) : (p.respawn canSpawn).size = p.size := by
  unfold respawn
  split
  · rfl
  · split
    · rw [flush_size]
    · rw [spawn_size]

/-- Another thread is made only by a pool that still respawns. -/
theorem respawn_threads (p : BotWorkerPool V) (canSpawn : Bool) :
    ((p.respawn canSpawn).threads = p.threads ∧ (p.respawn canSpawn).disabled = true) ∨
      (p.disabled = false ∧ p.respawns < maxRespawns ∧ canSpawn = true ∧
        (p.respawn canSpawn).threads = p.threads ++ [p.spawned]) := by
  unfold respawn
  split
  · rename_i hdisabled
    exact .inl ⟨rfl, hdisabled⟩
  · rename_i hdisabled
    split
    · exact .inl ⟨flush_threads _ _, flush_disabled _ _⟩
    · rename_i hmore
      rcases spawn_threads { p with respawns := p.respawns + 1 } canSpawn with hstopped | ⟨-, hc, hadd⟩
      · exact .inl hstopped
      · exact .inr ⟨Bool.eq_false_iff.mpr hdisabled, by omega, hc, hadd⟩

/-- Between two calls: who is alive, and how many. -/
structure Sound (p : BotWorkerPool V) : Prop where
  held : Held p none none
  size : p.threads.length ≤ p.size
  manned : p.queue ≠ [] → p.threads ≠ []

/-- No job would wait for a thread that cannot be made. -/
def Spared (p : BotWorkerPool V) (canSpawn : Bool) : Prop :=
  p.disabled = true ∨ maxRespawns ≤ p.respawns ∨ canSpawn = true ∨ p.queue = []

/-- No thread ends with the code 0, none that has reported an error ends with another code
while a thread would be made for it, and none ends while jobs wait and no thread can be made. -/
def Calm (p : BotWorkerPool V) : BotPoolCall V → Prop
  | .error w canSpawn => w ∈ p.threads → p.Spared canSpawn
  | .exit w code canSpawn => (w ∈ p.threads → code ≠ 0 ∧ p.Spared canSpawn) ∧
      (w ∈ p.dying → code ≠ 0 → p.disabled = true ∨ maxRespawns ≤ p.respawns ∨ (canSpawn = false ∧ p.queue = []))
  | _ => True

/-- A thread ends while the threads are fewer than `size`, or while no other is made for it. -/
theorem Sound.died (h : Sound p) (w : ℕ) (dying : List ℕ) (why : String) {canSpawn : Bool}
    (hspared : p.Spared canSpawn)
    (hroom : w ∈ p.threads ∨ p.disabled = true ∨ maxRespawns ≤ p.respawns ∨ canSpawn = false) :
    Sound (BotWorkerPool.die { p with
      threads := p.threads.erase w
      dying := dying
      posted := Function.update p.posted w [] } w why canSpawn) := by
  have hheld := h.held.drop w dying why
  obtain ⟨hthreads, hsize, hqueue, hdisabled, hrespawns⟩ := drop_frame { p with
    threads := p.threads.erase w
    dying := dying
    posted := Function.update p.posted w [] } w why
  unfold die
  generalize BotWorkerPool.drop { p with
    threads := p.threads.erase w
    dying := dying
    posted := Function.update p.posted w [] } w why = q at hheld hthreads hsize hqueue hdisabled hrespawns ⊢
  have hnext : Held (q.respawn canSpawn) none none := by
    refine hheld.respawn ?_
    rw [hdisabled, hrespawns, hqueue]
    exact hspared
  have hfewer : (p.threads.erase w).length ≤ p.threads.length := List.length_erase_le
  have hbound := h.size
  refine ⟨hnext, ?_, fun hwaits => ?_⟩
  · rw [respawn_size, hsize]
    rcases respawn_threads q canSpawn with ⟨hsame, -⟩ | ⟨hopen, hfew, hc, hadd⟩
    · rw [hsame, hthreads]
      exact hfewer.trans hbound
    · rw [hadd, hthreads, List.length_append, List.length_singleton]
      rw [hdisabled] at hopen
      rw [hrespawns] at hfew
      rcases hroom with hw | hd | hmany | hno
      · have hpos := List.length_pos_of_mem hw
        show (p.threads.erase w).length + 1 ≤ p.size
        rw [List.length_erase_of_mem hw]
        omega
      · exact absurd (hopen.symm.trans hd) (by decide)
      · exact absurd hfew (Nat.not_lt_of_le hmany)
      · exact absurd (hc.symm.trans hno) (by decide)
  · rcases respawn_threads q canSpawn with ⟨-, hstopped⟩ | ⟨-, -, -, hadd⟩
    · exact absurd (hnext.flushed hstopped) hwaits
    · rw [hadd]
      simp

/-- A thread that has reported an error is not known to the pool any more. -/
theorem Held.forget (h : Held p none none) {w : ℕ} (hw : w ∉ p.threads) (dying : List ℕ) :
    Held { p with
      threads := p.threads.erase w
      dying := dying
      posted := Function.update p.posted w [] } none none := by
  have hposted : Function.update p.posted w [] = p.posted := by
    rw [← h.quiet w hw]
    exact Function.update_eq_self w p.posted
  rw [List.erase_of_not_mem hw, hposted]
  exact { h with }

/-- What the queue and the number of threads are after the other calls. -/
theorem Sound.keep {q : BotWorkerPool V} (h : Sound p) (hheld : Held q none none) (hthreads : q.threads = p.threads)
    (hsize : q.size = p.size) (hmanned : q.queue ≠ [] → p.threads ≠ []) : Sound q := by
  refine ⟨hheld, ?_, fun hwaits => ?_⟩
  · rw [hthreads, hsize]
    exact h.size
  · rw [hthreads]
    exact hmanned hwaits

/-- A new job starts no thread. -/
theorem decide_frame (p : BotWorkerPool V) : p.decide.threads = p.threads ∧ p.decide.size = p.size ∧
    (p.decide.queue = p.queue ∨ p.enabled = true) := by
  unfold decide
  split
  · exact ⟨rfl, rfl, .inl rfl⟩
  · rename_i henabled
    split
    · exact ⟨rfl, rfl, .inl rfl⟩
    · exact ⟨rfl, rfl, .inr (Bool.not_eq_false _ ▸ henabled)⟩

/-- An answer starts no thread. -/
theorem message_frame (p : BotWorkerPool V) (w id : ℕ) (move : Option V) :
    (p.message w id move).threads = p.threads ∧ (p.message w id move).size = p.size := by
  unfold message
  dsimp only
  split
  · exact ⟨release_threads _ _, release_size _ _⟩
  · split
    · split <;> exact ⟨release_threads _ _, release_size _ _⟩
    · exact ⟨release_threads _ _, release_size _ _⟩

/-- An enabled pool has a thread. -/
theorem Held.staffed (h : Held p x y) (henabled : p.enabled = true) : p.threads ≠ [] := by
  unfold enabled at henabled
  rw [Bool.and_eq_true, decide_eq_true_iff] at henabled
  obtain ⟨hdisabled, hworkers⟩ := henabled
  have hopen : p.closing = false := by
    cases hclosing : p.closing with
    | false => rfl
    | true =>
      rw [h.closing hclosing] at hdisabled
      exact absurd hdisabled (by decide)
  rw [h.roster hopen] at hworkers
  exact List.length_pos_iff.mp hworkers

/-- **Step.** A calm call keeps the pool sound. -/
theorem Sound.step (h : Sound p) {e : BotPoolCall V} (hcalm : p.Calm e) : Sound (p.step e) := by
  cases e with
  | decide =>
    obtain ⟨hthreads, hsize, hqueue⟩ := p.decide_frame
    refine h.keep h.held.decide hthreads hsize fun hwaits => ?_
    rcases hqueue with hsame | henabled
    · exact h.manned (hsame ▸ hwaits)
    · exact h.held.staffed henabled
  | reply w move =>
    unfold BotWorkerPool.step
    dsimp only
    split
    · exact h
    · rename_i id rest hposted
      split
      · rename_i hw
        -- the answer leaves the pool's inbox first
        obtain ⟨hthreads, hsize⟩ := message_frame { p with posted := Function.update p.posted w rest } w id move
        exact h.keep (h.held.message hw hposted move) hthreads hsize fun _ => List.ne_nil_of_mem hw
      · exact h
  | timeout job =>
    unfold BotWorkerPool.step
    dsimp only
    split
    · exact h
    · rename_i w htimer
      refine h.keep (h.held.timeout htimer) ?_ ?_ fun hwaits => h.manned ?_
      · split <;> rfl
      · split <;> rfl
      · split at hwaits <;> exact hwaits
  | error w canSpawn =>
    unfold BotWorkerPool.step
    dsimp only
    split
    · rename_i hw
      exact h.died w _ _ (hcalm hw) (.inl hw)
    · exact h
  | exit w code canSpawn =>
    obtain ⟨hthread, hdying⟩ := hcalm
    unfold BotWorkerPool.step
    dsimp only
    split
    · rename_i hw
      by_cases hmem : w ∈ p.threads
      · obtain ⟨hcode, hspared⟩ := hthread hmem
        rw [if_neg hcode]
        exact h.died w _ _ hspared (.inl hmem)
      · have hlate := hw.resolve_left hmem
        split
        · -- the pool has been told of its end before
          refine ⟨h.held.forget hmem _, ?_, ?_⟩
          · rw [List.erase_of_not_mem hmem]
            exact h.size
          · rw [List.erase_of_not_mem hmem]
            exact h.manned
        · rename_i hcode
          have hquiet := hdying hlate hcode
          refine h.died w _ _ ?_ (.inr ?_)
          · exact hquiet.imp_right fun hmany => hmany.imp_right fun hno => .inr hno.2
          · exact hquiet.imp_right fun hmany => hmany.imp_right And.left
    · exact h
  | shutdown =>
    refine h.keep ?_ (flush_threads _ _) (flush_size _ _) fun hwaits => absurd (flush_queue _ _) hwaits
    -- the queue is flushed, and nothing is taken on from here
    have hgone := h.held.give_up "pool shut down" p.respawns true
    rw [Bool.or_true] at hgone
    exact hgone
  | closed =>
    unfold BotWorkerPool.step
    dsimp only
    split
    · rename_i hclosing
      exact h.keep (h.held.closed hclosing) rfl rfl h.manned
    · exact h

/-! ## Every run -/

/-- A new pool's books are in order. -/
theorem held_empty (size : ℕ) : Held ({ size := size } : BotWorkerPool V) none none where
  first := Nat.le_refl _
  threads := List.nodup_nil
  fresh w hw := absurd hw List.not_mem_nil
  quiet _ _ := rfl
  roster _ := rfl
  closing h := by cases h
  idle_nodup := List.nodup_nil
  idle w hw := absurd hw List.not_mem_nil
  flight _ _ h := by cases h
  armed _ _ h := by cases h
  rest w hw := absurd hw List.not_mem_nil
  freed _ h := by cases h
  queue j hj := absurd hj List.not_mem_nil
  queue_nodup := List.nodup_nil
  busy := .inl rfl
  flushed h := by cases h
  known j hj := absurd (hj.1.trans_lt hj.2.1) (Nat.lt_irrefl 1)
  pending _ h := by cases h
  once := List.nodup_nil
  own _ _ _ h := absurd h List.not_mem_nil
  past j hj := by
    obtain ⟨s, hs⟩ := hj
    exact absurd hs List.not_mem_nil

/-- No thread starts when nothing waits. -/
theorem spawn_queue_nil (hqueue : p.queue = []) (canSpawn : Bool) : (p.spawn canSpawn).queue = [] := by
  unfold BotWorkerPool.spawn
  split
  · exact hqueue
  · split
    · unfold BotWorkerPool.release
      split
      · exact hqueue
      · split
        · exact hqueue
        · rename_i next queue hsome
          exact absurd (hsome.symm.trans hqueue) (by simp)
    · exact hqueue

/-- The constructor makes `size` threads at most. -/
theorem sound_boot (canSpawn : List Bool) : Sound (boot canSpawn : BotWorkerPool V) := by
  have hspawns : ∀ (canSpawn : List Bool) (q : BotWorkerPool V), Held q none none → q.queue = [] →
      q.threads.length + canSpawn.length ≤ q.size → Sound (canSpawn.foldl BotWorkerPool.spawn q) := by
    intro canSpawn
    induction canSpawn with
    | nil =>
      intro q hq hqueue hsize
      exact ⟨hq, hsize, fun hwaits => absurd hqueue hwaits⟩
    | cons c canSpawn ih =>
      intro q hq hqueue hsize
      rw [List.length_cons] at hsize
      refine ih _ (hq.spawn (.inr (.inr hqueue))) (spawn_queue_nil hqueue c) ?_
      rw [spawn_size]
      rcases spawn_threads q c with ⟨hsame, -⟩ | ⟨-, -, hadd⟩
      · rw [hsame]
        omega
      · rw [hadd, List.length_append, List.length_singleton]
        omega
  refine hspawns canSpawn _ (held_empty _) rfl ?_
  simp

/-- The thread has nothing to do; a pool that is disabled keeps no list of these. -/
def Rests (p : BotWorkerPool V) (w : ℕ) : Prop :=
  p.inFlight w = none ∧ p.posted w = [] ∧ (w ∈ p.idle ∨ p.disabled = true)

/-- The thread computes the job that is in flight with it. -/
def Works (p : BotWorkerPool V) (w : ℕ) : Prop := ∃ j, p.inFlight w = some j ∧ p.posted w = [j] ∧ w ∉ p.idle

/-- The thread still computes a job whose time is up. -/
def Late (p : BotWorkerPool V) (w : ℕ) : Prop := p.inFlight w = none ∧ w ∉ p.idle ∧ ∃ j, p.posted w = [j] ∧ p.Settled j

/-- One of the three holds, and only one. -/
def OnlyOne (a b c : Prop) : Prop := (a ∧ ¬b ∧ ¬c) ∨ (b ∧ ¬a ∧ ¬c) ∨ (c ∧ ¬a ∧ ¬b)

/-- What a caller of the pool relies on. -/
structure Accounted (p : BotWorkerPool V) : Prop where
  once : (p.settled.map Prod.fst).Nodup
  own : ∀ j reply move, (j, .resolved reply move) ∈ p.settled → reply = j
  waiting : ∀ j, p.Open j → (∃ w ∈ p.threads, p.inFlight w = some j ∧ p.timer j = some w) ∨
    (j ∈ p.queue ∧ p.disabled = false ∧ ∃ w ∈ p.threads, w ∈ p.workers ∧ p.posted w ≠ [])
  activity : ∀ w ∈ p.threads, OnlyOne (p.Rests w) (p.Works w) (p.Late w)
  size : p.threads.length ≤ p.size

/-- A thread rests, works or is late: one of the three. -/
theorem Held.activity (h : Held p none none) {w : ℕ} (hw : w ∈ p.threads) :
    OnlyOne (p.Rests w) (p.Works w) (p.Late w) := by
  cases hflight : p.inFlight w with
  | some j =>
    obtain ⟨-, hposted, -⟩ := h.flight w j hflight
    have hbusy : w ∉ p.idle := by
      intro hidle
      obtain ⟨-, hfree, -⟩ := h.idle w hidle
      exact absurd (hflight.symm.trans hfree) (by simp)
    refine .inr (.inl ⟨⟨j, hflight, hposted, hbusy⟩, fun hrests => ?_, fun hlate => ?_⟩)
    · exact absurd (hflight.symm.trans hrests.1) (by simp)
    · exact absurd (hflight.symm.trans hlate.1) (by simp)
  | none =>
    have hidles : ¬p.Works w := by
      rintro ⟨j, hj, -⟩
      exact absurd (hj.symm.trans hflight) (by simp)
    have hrests : p.posted w = [] → (w ∈ p.idle ∨ p.disabled = true) → OnlyOne (p.Rests w) (p.Works w) (p.Late w) := by
      intro hposted hwhy
      refine .inl ⟨⟨hflight, hposted, hwhy⟩, hidles, ?_⟩
      rintro ⟨-, -, j, hj, -⟩
      exact absurd (hj.symm.trans hposted) (by simp)
    by_cases hidle : w ∈ p.idle
    · obtain ⟨-, -, hposted, -⟩ := h.idle w hidle
      exact hrests hposted (.inl hidle)
    · rcases h.rest w hw hidle hflight (fun hx => by cases hx) with ⟨j, hj, hdone | hy⟩ | ⟨hdisabled, hposted⟩
      · refine .inr (.inr ⟨⟨hflight, hidle, j, hj, hdone⟩, ?_, hidles⟩)
        rintro ⟨-, hnil, -⟩
        exact absurd (hj.symm.trans hnil) (by simp)
      · cases hy
      · exact hrests hposted (.inr hdisabled)

/-- Every job is accounted for. -/
theorem Sound.accounted (h : Sound p) : p.Accounted := by
  refine ⟨h.held.once, h.held.own, fun j hj => ?_, fun w hw => h.held.activity hw, h.size⟩
  rcases h.held.known j hj with hqueue | ⟨w, hw⟩ | hy
  · -- the job waits, so every thread has been sent something
    have hwaits : p.queue ≠ [] := List.ne_nil_of_mem hqueue
    have hdisabled : p.disabled = false := by
      cases hd : p.disabled with
      | false => rfl
      | true => exact absurd (h.held.flushed hd) hwaits
    have hidle : p.idle = [] := by
      rcases h.held.busy with hnil | hnil | ⟨hx, -⟩
      · exact absurd hnil hwaits
      · exact hnil
      · exact absurd rfl hx
    obtain ⟨w, hw⟩ := List.exists_mem_of_ne_nil _ (h.manned hwaits)
    have hopen : p.closing = false := by
      cases hclosing : p.closing with
      | false => rfl
      | true => exact absurd ((h.held.closing hclosing).symm.trans hdisabled) (by decide)
    refine .inr ⟨hqueue, hdisabled, w, hw, by rwa [h.held.roster hopen], fun hposted => ?_⟩
    rcases h.held.activity hw with ⟨⟨-, -, hrests | hd⟩, -⟩ | ⟨⟨k, -, hk, -⟩, -⟩ | ⟨⟨-, -, k, hk, -⟩, -⟩
    · rw [hidle] at hrests
      exact absurd hrests List.not_mem_nil
    · exact absurd (hd.symm.trans hdisabled) (by decide)
    · exact absurd (hk.symm.trans hposted) (by simp)
    · exact absurd (hk.symm.trans hposted) (by simp)
  · obtain ⟨hthread, -, htimer, -⟩ := h.held.flight w j hw
    exact .inl ⟨w, hthread, hw, htimer⟩
  · cases hy

/-- **The pool accounts for every decision.** After every run from a pool of any size whose
calls are all calm, each promise is settled once at most, and resolved by the reply to its own
job; one that is not settled is in flight with its timer armed, or waits in a pool that works;
each thread does one thing; and there are `size` threads at most. -/
theorem pool_accounts (canSpawn : List Bool) (es : List (BotPoolCall V))
    (hcalm : Guarded step Calm (boot canSpawn) es) : Accounted (run step (boot canSpawn) es) :=
  (guarded_inv (fun _ _ h hcalm => h.step hcalm) (sound_boot canSpawn) es hcalm).accounted

/-- A decision times out, the thread that is late dies, another takes its place, and the pool
is shut down. -/
theorem pool_accounts_late : Accounted (run step (boot [true] : BotWorkerPool ℕ)
    [.decide, .decide, .timeout 1, .error 0 true, .reply 1 (some 5), .decide, .shutdown, .exit 1 1 false]) :=
  pool_accounts _ _ ⟨trivial, trivial, trivial, fun _ => .inr (.inr (.inl rfl)), trivial, trivial, trivial,
    ⟨fun _ => ⟨by decide, .inl rfl⟩, fun _ _ => .inl rfl⟩, trivial⟩

/-- A thread that throws reports its error and then its exit, and two others are made for it. -/
theorem crash_reported_twice : ¬Accounted (run step (boot [true] : BotWorkerPool ℕ) [.error 0 true, .exit 0 1 true]) := by
  intro h
  have hsize := h.size
  revert hsize
  decide

/-- No thread can be made for the one that died, and the job in the queue waits for ever. -/
theorem queue_stuck : ¬Accounted (run step (boot [true] : BotWorkerPool ℕ) [.decide, .decide, .error 0 false]) := by
  generalize hp : run step (boot [true] : BotWorkerPool ℕ) [.decide, .decide, .error 0 false] = p
  have hjobs : p.settled.map Prod.fst = [1] := by
    rw [← hp]
    decide
  have hthreads : p.threads = [] := by
    rw [← hp]
    decide
  have hdisabled : p.disabled = true := by
    rw [← hp]
    decide
  have hlast : 2 < p.nextId := by
    rw [← hp]
    decide
  intro h
  have hopen : p.Open 2 := by
    refine ⟨by decide, hlast, fun s hs => ?_⟩
    have hone : 2 ∈ p.settled.map Prod.fst := List.mem_map_of_mem hs
    rw [hjobs] at hone
    exact absurd hone (by decide)
  rcases h.waiting 2 hopen with ⟨w, hw, -⟩ | ⟨-, hworks, -⟩
  · rw [hthreads] at hw
    exact absurd hw List.not_mem_nil
  · exact absurd (hworks.symm.trans hdisabled) (by decide)

end BotWorkerPool

end Murlan
