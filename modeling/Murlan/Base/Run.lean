import Mathlib.Data.List.Basic
import Mathlib.Tactic.Ring

/-!
# Runs of a step function

A system is a total step function `step : σ → ε → σ`; a run is the fold of a list
of events. `Guarded step ok s es` says that every event of the run meets the
condition `ok` in the state it arrives in.

* `run_inv`: a property that every step keeps holds after every run.
* `guarded_inv`: a property that every step meeting `ok` keeps holds after every
  run whose steps all meet `ok`.
* `guarded_step`: what a guarded run says about one of its steps; `guarded_iff_forall`: a run is
  guarded exactly when every one of its steps meets `ok`.
* `guarded_iff`: a step that keeps a property exactly when it meets `ok`; `guarded_congr`:
  two conditions that guard the same runs.
* `Reaches step ok s s'`: some guarded run leads from `s` to `s'`.
* `total step w s es`: the weights of the steps of a run, added up; `total_le`: what the
  steps cost is paid by what the run brings in and by the potential it starts with;
  `run_total`: an invariant of the state and the weight so far.
-/

namespace Murlan

variable {σ ε : Type*} {step : σ → ε → σ} {ok : σ → ε → Prop}

/-- The state after a list of events. -/
def run (step : σ → ε → σ) (s : σ) (es : List ε) : σ := es.foldl step s

@[simp] theorem run_nil (s : σ) : run step s [] = s := rfl

@[simp] theorem run_cons (s : σ) (e : ε) (es : List ε) :
    run step s (e :: es) = run step (step s e) es := rfl

theorem run_append (s : σ) (es fs : List ε) : run step s (es ++ fs) = run step (run step s es) fs :=
  List.foldl_append

/-- Every event of the run from `s` meets `ok` in the state it arrives in. -/
def Guarded (step : σ → ε → σ) (ok : σ → ε → Prop) : σ → List ε → Prop
  | _, [] => True
  | s, e :: es => ok s e ∧ Guarded step ok (step s e) es

@[simp] theorem guarded_nil (s : σ) : Guarded step ok s [] := trivial

@[simp] theorem guarded_cons (s : σ) (e : ε) (es : List ε) :
    Guarded step ok s (e :: es) ↔ ok s e ∧ Guarded step ok (step s e) es := Iff.rfl

instance [∀ s e, Decidable (ok s e)] : ∀ s es, Decidable (Guarded step ok s es)
  | _, [] => isTrue trivial
  | s, e :: es =>
    have : Decidable (Guarded step ok (step s e) es) := instDecidableGuarded (step s e) es
    inferInstanceAs (Decidable (_ ∧ _))

theorem guarded_append (s : σ) (es fs : List ε) :
    Guarded step ok s (es ++ fs) ↔ Guarded step ok s es ∧ Guarded step ok (run step s es) fs := by
  induction es generalizing s with
  | nil => simp
  | cons e es ih => simp [ih, and_assoc]

/-- **Invariant rule.** A property that every step keeps holds after every run. -/
theorem run_inv {P : σ → Prop} (hstep : ∀ s e, P s → P (step s e)) {s : σ} (hs : P s) :
    ∀ es, P (run step s es) := by
  intro es
  induction es generalizing s with
  | nil => exact hs
  | cons e es ih => exact ih (hstep s e hs)

/-- **Guarded invariant rule.** A property that every step meeting `ok` keeps
holds after every run whose steps all meet `ok`. -/
theorem guarded_inv {P : σ → Prop} (hstep : ∀ s e, P s → ok s e → P (step s e)) {s : σ} (hs : P s) :
    ∀ es, Guarded step ok s es → P (run step s es) := by
  intro es
  induction es generalizing s with
  | nil => intro _; exact hs
  | cons e es ih =>
    intro hg
    exact ih (hstep s e hs hg.1) hg.2

/-- One step of a guarded run: the run before it is guarded and the event meets `ok`. -/
theorem guarded_step {s : σ} {es : List ε} {e : ε} {fs : List ε}
    (hg : Guarded step ok s (es ++ e :: fs)) :
    Guarded step ok s es ∧ ok (run step s es) e := by
  rw [guarded_append] at hg
  exact ⟨hg.1, hg.2.1⟩

/-- A run is guarded exactly when each of its events meets the condition. -/
theorem guarded_iff_forall {es : List ε} : ∀ {s : σ},
    Guarded step ok s es ↔ ∀ fs e gs, es = fs ++ e :: gs → ok (run step s fs) e := by
  induction es with
  | nil =>
    intro s
    exact ⟨fun _ fs e gs heq => absurd heq (by simp), fun _ => trivial⟩
  | cons e es ih =>
    intro s
    constructor
    · intro hg fs e' gs heq
      rw [heq] at hg
      exact (guarded_step hg).2
    · intro h
      exact ⟨h [] e es rfl, ih.mpr fun fs e' gs heq => h (e :: fs) e' gs (by rw [heq]; rfl)⟩

/-- Events that meet the condition in every state. -/
theorem guarded_of_forall : ∀ {es : List ε} (s : σ), (∀ e ∈ es, ∀ s, ok s e) → Guarded step ok s es := by
  intro es
  induction es with
  | nil => intro s _; trivial
  | cons e es ih =>
    intro s h
    exact ⟨h e List.mem_cons_self s, ih _ fun e' he' => h e' (List.mem_cons_of_mem e he')⟩

/-- A stronger condition on the steps guards fewer runs. -/
theorem Guarded.mono {ok' : σ → ε → Prop} (h : ∀ s e, ok s e → ok' s e) :
    ∀ {s : σ} {es : List ε}, Guarded step ok s es → Guarded step ok' s es := by
  intro s es
  induction es generalizing s with
  | nil => intro _; trivial
  | cons e es ih =>
    intro hg
    exact ⟨h s e hg.1, ih hg.2⟩

/-- **Exact guard.** If a step keeps `P` exactly when it meets `ok`, a run is guarded exactly
when `P` holds in every state of it. -/
theorem guarded_iff {Inv P : σ → Prop} (hinv : ∀ s e, Inv s → Inv (step s e))
    (hiff : ∀ s e, Inv s → P s → (P (step s e) ↔ ok s e)) {s : σ} (hi : Inv s) (hp : P s) :
    ∀ es, Guarded step ok s es ↔ ∀ fs, fs <+: es → P (run step s fs) := by
  intro es
  induction es generalizing s with
  | nil =>
    refine ⟨fun _ fs hfs => ?_, fun _ => trivial⟩
    rw [List.prefix_nil.1 hfs]
    exact hp
  | cons e es ih =>
    constructor
    · rintro ⟨he, hes⟩ fs hfs
      have hnext := (hiff s e hi hp).2 he
      rcases List.prefix_cons_iff.1 hfs with rfl | ⟨fs', rfl, hfs'⟩
      · exact hp
      · exact (ih (hinv s e hi) hnext).1 hes fs' hfs'
    · intro h
      have hnext : P (step s e) := h [e] (List.prefix_append [e] es)
      refine ⟨(hiff s e hi hp).1 hnext, (ih (hinv s e hi) hnext).2 fun fs hfs => ?_⟩
      exact h (e :: fs) ((List.prefix_cons_inj e).2 hfs)

/-- Two conditions that agree wherever an invariant holds, which a step meeting the first keeps,
guard the same runs. -/
theorem guarded_congr {Inv : σ → Prop} {ok' : σ → ε → Prop} (hiff : ∀ s e, Inv s → (ok s e ↔ ok' s e))
    (hinv : ∀ s e, Inv s → ok s e → Inv (step s e)) {s : σ} (hi : Inv s) :
    ∀ es, Guarded step ok s es ↔ Guarded step ok' s es := by
  intro es
  induction es generalizing s with
  | nil => exact Iff.rfl
  | cons e es ih =>
    constructor
    · rintro ⟨he, hes⟩
      exact ⟨(hiff s e hi).mp he, (ih (hinv s e hi he)).mp hes⟩
    · rintro ⟨he, hes⟩
      have hok := (hiff s e hi).mpr he
      exact ⟨hok, (ih (hinv s e hi hok)).mpr hes⟩

/-! ## One state and a later one -/

/-- Some events, each meeting `ok`, lead from `s` to `s'`. -/
def Reaches (step : σ → ε → σ) (ok : σ → ε → Prop) (s s' : σ) : Prop :=
  ∃ es, Guarded step ok s es ∧ run step s es = s'

namespace Reaches

variable {s s' s'' : σ}

theorem refl (s : σ) : Reaches step ok s s := ⟨[], trivial, rfl⟩

theorem single {e : ε} (h : ok s e) : Reaches step ok s (step s e) := ⟨[e], ⟨h, trivial⟩, rfl⟩

theorem trans (h : Reaches step ok s s') (h' : Reaches step ok s' s'') : Reaches step ok s s'' := by
  obtain ⟨es, hes, rfl⟩ := h
  obtain ⟨fs, hfs, rfl⟩ := h'
  exact ⟨es ++ fs, (guarded_append s es fs).2 ⟨hes, hfs⟩, run_append s es fs⟩

theorem mono {ok' : σ → ε → Prop} (hok : ∀ s e, ok s e → ok' s e) (h : Reaches step ok s s') :
    Reaches step ok' s s' := by
  obtain ⟨es, hes, hs⟩ := h
  exact ⟨es, hes.mono hok, hs⟩

/-- What every step meeting `ok` keeps holds of the later state. -/
theorem inv {P : σ → Prop} (h : Reaches step ok s s') (hstep : ∀ s e, P s → ok s e → P (step s e)) (hs : P s) :
    P s' := by
  obtain ⟨es, hes, rfl⟩ := h
  exact guarded_inv hstep hs es hes

/-- A loop. -/
theorem foldl {α : Type*} {f : σ → α → σ} (hf : ∀ s a, Reaches step ok s (f s a)) (l : List α) :
    ∀ s, Reaches step ok s (l.foldl f s) := by
  induction l with
  | nil => exact refl
  | cons a l ih => exact fun s => (hf s a).trans (ih _)

end Reaches

/-! ## What a run costs -/

/-- The weights of the steps of a run, added up. -/
def total (step : σ → ε → σ) (w : σ → ε → ℕ) : σ → List ε → ℕ
  | _, [] => 0
  | s, e :: es => w s e + total step w (step s e) es

section
variable {w b : σ → ε → ℕ}

@[simp] theorem total_nil (s : σ) : total step w s [] = 0 := rfl

@[simp] theorem total_cons (s : σ) (e : ε) (es : List ε) :
    total step w s (e :: es) = w s e + total step w (step s e) es := rfl

theorem total_mul (k : ℕ) (s : σ) (es : List ε) :
    total step (fun s e => k * w s e) s es = k * total step w s es := by
  induction es generalizing s with
  | nil => rfl
  | cons e es ih =>
    rw [total_cons, total_cons, ih]
    ring

theorem total_zero (s : σ) (es : List ε) : total step (fun _ _ => 0) s es = 0 := by
  induction es generalizing s with
  | nil => rfl
  | cons e es ih => rw [total_cons, ih]

/-- **Potential rule.** If every step pays for its weight with what it brings in or with the
potential, so does every run. -/
theorem total_le {P : σ → Prop} {pot : σ → ℕ} (hstep : ∀ s e, P s → P (step s e))
    (hpay : ∀ s e, P s → w s e + pot (step s e) ≤ b s e + pot s) {s : σ} (hs : P s) :
    ∀ es, total step w s es + pot (run step s es) ≤ total step b s es + pot s := by
  intro es
  induction es generalizing s with
  | nil => simp
  | cons e es ih =>
    have hnow := hpay s e hs
    have hrest := ih (hstep s e hs)
    rw [total_cons, total_cons, run_cons]
    omega

/-- **Potential rule**, for steps that bring nothing in. -/
theorem total_le_pot {P : σ → Prop} {pot : σ → ℕ} (hstep : ∀ s e, P s → P (step s e))
    (hpay : ∀ s e, P s → w s e + pot (step s e) ≤ pot s) {s : σ} (hs : P s) (es : List ε) :
    total step w s es + pot (run step s es) ≤ pot s := by
  have hpay' : ∀ s e, P s → w s e + pot (step s e) ≤ 0 + pot s := by
    intro s e h
    rw [Nat.zero_add]
    exact hpay s e h
  have hle := total_le (b := fun _ _ => 0) hstep hpay' hs es
  rw [total_zero] at hle
  omega

/-- **Counting rule.** What every step keeps about the state and the weight so far holds after
every run, of the weights of its steps. -/
theorem run_total {P : σ → ℕ → Prop} (hstep : ∀ s n e, P s n → P (step s e) (n + w s e)) :
    ∀ {s : σ} {n : ℕ}, P s n → ∀ es, P (run step s es) (n + total step w s es) := by
  intro s n hs es
  induction es generalizing s n with
  | nil => exact hs
  | cons e es ih =>
    have hrest := ih (hstep s n e hs)
    rw [Nat.add_assoc] at hrest
    exact hrest

/-- A run whose steps all weigh something is no longer than its weight. -/
theorem length_le_total {s : σ} {es : List ε} (hg : Guarded step (fun s e => 1 ≤ w s e) s es) :
    es.length ≤ total step w s es := by
  induction es generalizing s with
  | nil => exact Nat.le_refl 0
  | cons e es ih =>
    have hnow := hg.1
    have hrest := ih hg.2
    rw [List.length_cons, total_cons]
    omega

end

/-! ## Endless sequences of events -/

/-- The state after the first `k` events of a sequence. -/
def after (step : σ → ε → σ) (s : σ) (f : ℕ → ε) (k : ℕ) : σ := run step s ((List.range k).map f)

theorem guarded_range {s : σ} {f : ℕ → ε} (k : ℕ) (h : ∀ i < k, ok (after step s f i) (f i)) :
    Guarded step ok s ((List.range k).map f) := by
  induction k with
  | zero => trivial
  | succ k ih =>
    rw [List.range_succ, List.map_append, guarded_append]
    exact ⟨ih fun i hi => h i (by omega), h k (by omega), trivial⟩

end Murlan
