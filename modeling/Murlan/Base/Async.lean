import Mathlib.Logic.Basic
import Mathlib.Tactic.TypeStar

/-!
# Asynchronous programs

An `async` function as the tree of what it awaits. `Async Q R E α` asks queries
`q : Q`, each answered by a value of `R q` or by an error of `E`, and ends with a
value of `α` or by throwing. `tryCatch` is `try … catch`.

* `exec`: the program run to its end against a store that answers each query; `faulty`
  is a store whose calls fail, before or after they took effect.
* `Protocol`, `wp`: what a program may ask and what is known while it runs. In the
  knowledge `g` it may ask `q` if `may q g`, and `reply q r g g'` says that the answer
  `r` is possible then and leaves the knowledge `g'`; `p.wp P post err g` says that
  `p` from `g` asks only what it may and ends in `post` or throws in `err`. Its rules
  follow the program (`wp_bind`, `wp_tryCatch`, `wp_forM`), and `exec_of_wp` says what
  they tell about a run against a store. `Keeps` is a program that keeps an invariant
  wherever it ends.
-/

namespace Murlan

/-- Whether a call fails, and whether it had taken effect. -/
inductive Fault where
  | none | before | after
  deriving DecidableEq, Repr

/-- A program that awaits answers and may throw. -/
inductive Async (Q : Type) (R : Q → Type) (E α : Type) where
  | pure (a : α)
  | throw (e : E)
  | ask (q : Q) (next : Except E (R q) → Async Q R E α)

namespace Async

variable {Q : Type} {R : Q → Type} {E α β : Type}

/-- One program after another; a throw skips the second. -/
def bind : Async Q R E α → (α → Async Q R E β) → Async Q R E β
  | .pure a, f => f a
  | .throw e, _ => .throw e
  | .ask q next, f => .ask q fun r => (next r).bind f

/-- `try`/`catch`: a throw goes to the handler. -/
def tryCatch : Async Q R E α → (E → Async Q R E α) → Async Q R E α
  | .pure a, _ => .pure a
  | .throw e, h => h e
  | .ask q next, h => .ask q fun r => (next r).tryCatch h

instance : Monad (Async Q R E) where
  pure := .pure
  bind := bind

instance : MonadExcept E (Async Q R E) where
  throw := .throw
  tryCatch := tryCatch

/-- Await one query; an error it answers is thrown. -/
def await (q : Q) : Async Q R E (R q) :=
  .ask q fun
    | .ok r => .pure r
    | .error e => .throw e

/-- `if (c) throw e;` -/
def throwIf (c : Prop) [Decidable c] (e : E) : Async Q R E Unit := if c then .throw e else .pure ()

/-- `.catch(() => …)`: whatever the program throws is dropped. -/
def ignore (p : Async Q R E Unit) : Async Q R E Unit := p.tryCatch fun _ => .pure ()

/-- The program with its queries sent on to a server that answers more. -/
def lift {Q' : Type} {R' : Q' → Type} (f : Q → Q') :
    Async Q (fun q => R' (f q)) E α → Async Q' R' E α
  | .pure a => .pure a
  | .throw e => .throw e
  | .ask q next => .ask (f q) fun r => (next r).lift f

/-! ## Against a store -/

section Exec

variable {σ : Type*} {answer : (q : Q) → σ → Except E (R q) × σ}

/-- Run to the end against a store. -/
def exec (answer : (q : Q) → σ → Except E (R q) × σ) : Async Q R E α → σ → Except E α × σ
  | .pure a, s => (.ok a, s)
  | .throw e, s => (.error e, s)
  | .ask q next, s => (next (answer q s).1).exec answer (answer q s).2

@[simp] theorem exec_pure (a : α) (s : σ) : (Pure.pure a : Async Q R E α).exec answer s = (.ok a, s) := rfl

@[simp] theorem exec_throw (e : E) (s : σ) :
    (throw e : Async Q R E α).exec answer s = (.error e, s) := rfl

/-- Two programs in a row: the second goes on with the store the first leaves. -/
theorem exec_bind (p : Async Q R E α) (f : α → Async Q R E β) (s : σ) :
    (p >>= f).exec answer s =
      match p.exec answer s with
      | (.ok a, s') => (f a).exec answer s'
      | (.error e, s') => (.error e, s') := by
  show (p.bind f).exec answer s = _
  induction p generalizing s with
  | pure a => rfl
  | throw e => rfl
  | ask q next ih => exact ih _ _

theorem exec_bind_ok {p : Async Q R E α} {a : α} {s s' : σ} (h : p.exec answer s = (.ok a, s'))
    (f : α → Async Q R E β) : (p >>= f).exec answer s = (f a).exec answer s' := by
  rw [exec_bind, h]

theorem exec_bind_error {p : Async Q R E α} {e : E} {s s' : σ} (h : p.exec answer s = (.error e, s'))
    (f : α → Async Q R E β) : (p >>= f).exec answer s = (.error e, s') := by
  rw [exec_bind, h]

theorem exec_map (f : α → β) (p : Async Q R E α) (s : σ) :
    (f <$> p).exec answer s = ((p.exec answer s).1.map f, (p.exec answer s).2) := by
  show (p >>= fun a => Pure.pure (f a)).exec answer s = _
  rw [exec_bind]
  rcases h : p.exec answer s with ⟨a | e, s'⟩ <;> rfl

/-- The handler runs on the store that the throw leaves. -/
theorem exec_tryCatch (p : Async Q R E α) (h : E → Async Q R E α) (s : σ) :
    (p.tryCatch h).exec answer s =
      match p.exec answer s with
      | (.ok a, s') => (.ok a, s')
      | (.error e, s') => (h e).exec answer s' := by
  induction p generalizing s with
  | pure a => rfl
  | throw e => rfl
  | ask q next ih => exact ih _ _

theorem exec_await (q : Q) (s : σ) : (await q : Async Q R E (R q)).exec answer s = answer q s := by
  show exec answer (Async.ask q _) s = _
  rw [exec]
  rcases h : answer q s with ⟨r | e, s'⟩ <;> rfl

theorem exec_throwIf (c : Prop) [Decidable c] (e : E) (s : σ) :
    (throwIf c e : Async Q R E Unit).exec answer s = (if c then .error e else .ok (), s) := by
  unfold throwIf
  by_cases hc : c <;> simp [hc, exec]

/-- A store that always answers, except where a call fails. -/
def faulty (answer : (q : Q) → σ → R q × σ) (fault : Q → Fault) (down : E) (q : Q) (s : σ) :
    Except E (R q) × σ :=
  match fault q with
  | .none => (.ok (answer q s).1, (answer q s).2)
  | .before => (.error down, s)
  | .after => (.error down, (answer q s).2)

theorem faulty_none {answer : (q : Q) → σ → R q × σ} {fault : Q → Fault} {q : Q} (h : fault q = .none) (down : E) (s : σ) :
    faulty answer fault down q s = (.ok (answer q s).1, (answer q s).2) := by
  unfold faulty
  rw [h]

theorem faulty_before {answer : (q : Q) → σ → R q × σ} {fault : Q → Fault} {q : Q} (h : fault q = .before) (down : E) (s : σ) :
    faulty answer fault down q s = (.error down, s) := by
  unfold faulty
  rw [h]

end Exec

/-! ## What is known along the way -/

/-- What a program may ask, and how the answers change what it knows. -/
structure Protocol (Q : Type) (R : Q → Type) (E : Type) (G : Type*) where
  may : Q → G → Prop := fun _ _ => True
  reply : (q : Q) → Except E (R q) → G → G → Prop

section Wp

variable {G : Type*} {P : Protocol Q R E G} {post post' : α → G → Prop} {err err' : E → G → Prop}

/-- The program from `g` asks only what it may, and ends in `post` or throws in `err`. -/
def wp (P : Protocol Q R E G) (post : α → G → Prop) (err : E → G → Prop) : Async Q R E α → G → Prop
  | .pure a, g => post a g
  | .throw e, g => err e g
  | .ask q next, g => P.may q g ∧ ∀ r g', P.reply q r g g' → (next r).wp P post err g'

@[simp] theorem wp_pure (a : α) (g : G) :
    (Pure.pure a : Async Q R E α).wp P post err g ↔ post a g := Iff.rfl

@[simp] theorem wp_throw (e : E) (g : G) :
    (throw e : Async Q R E α).wp P post err g ↔ err e g := Iff.rfl

theorem wp_bind (p : Async Q R E α) (f : α → Async Q R E β) {post : β → G → Prop} (g : G) :
    (p >>= f).wp P post err g ↔ p.wp P (fun a => (f a).wp P post err) err g := by
  show (p.bind f).wp P post err g ↔ _
  induction p generalizing g with
  | pure a => rfl
  | throw e => rfl
  | ask q next ih => exact and_congr_right fun _ => forall₃_congr fun r g' _ => ih r g'

theorem wp_tryCatch (p : Async Q R E α) (h : E → Async Q R E α) (g : G) :
    (p.tryCatch h).wp P post err g ↔ p.wp P post (fun e => (h e).wp P post err) g := by
  induction p generalizing g with
  | pure a => rfl
  | throw e => rfl
  | ask q next ih => exact and_congr_right fun _ => forall₃_congr fun r g' _ => ih r g'

/-- An await is asked for by right, and every answer leads on. -/
theorem wp_await (q : Q) {post : R q → G → Prop} (g : G) :
    (await q : Async Q R E (R q)).wp P post err g ↔
      P.may q g ∧ (∀ r g', P.reply q (.ok r) g g' → post r g') ∧
        ∀ e g', P.reply q (.error e) g g' → err e g' := by
  refine and_congr_right fun _ => ?_
  constructor
  · intro h
    exact ⟨fun r g' hr => h (.ok r) g' hr, fun e g' he => h (.error e) g' he⟩
  · rintro ⟨hok, herr⟩ (e | r) g' hr
    · exact herr e g' hr
    · exact hok r g' hr

theorem wp_throwIf (c : Prop) [Decidable c] (e : E) {post : Unit → G → Prop} (g : G) :
    (throwIf c e : Async Q R E Unit).wp P post err g ↔ (c → err e g) ∧ (¬ c → post () g) := by
  unfold throwIf
  by_cases hc : c <;> simp [hc, wp]

/-- A precondition for more is one for less. -/
theorem wp_mono {p : Async Q R E α} {g : G} (h : p.wp P post err g)
    (hpost : ∀ a g, post a g → post' a g) (herr : ∀ e g, err e g → err' e g) :
    p.wp P post' err' g := by
  induction p generalizing g with
  | pure a => exact hpost a g h
  | throw e => exact herr e g h
  | ask q next ih =>
    refine ⟨h.1, fun r g' hr => ?_⟩
    exact ih r (h.2 r g' hr)

/-- Loop rule: `I done` holds with the items of `done` behind. -/
theorem wp_forM {f : α → Async Q R E Unit} {xs : List α} {I : List α → G → Prop}
    (hstep : ∀ done x rest, xs = done ++ x :: rest → ∀ g, I done g →
      (f x).wp P (fun _ => I (done ++ [x])) err g) {g : G} (h : I [] g) :
    (xs.forM f).wp P (fun _ => I xs) err g := by
  have hloop : ∀ rest done g, xs = done ++ rest → I done g →
      (rest.forM f).wp P (fun _ => I xs) err g := by
    intro rest
    induction rest with
    | nil =>
      rintro done g hxs hg
      obtain rfl : xs = done := by simpa using hxs
      exact hg
    | cons x rest ih =>
      intro done g hxs hg
      show (f x >>= fun _ => rest.forM f).wp P (fun _ => I xs) err g
      rw [wp_bind]
      refine wp_mono (hstep done x rest hxs g hg) ?_ fun _ _ he => he
      intro _ g' hg'
      exact ih (done ++ [x]) g' (by simpa using hxs) hg'
  exact hloop xs [] g rfl h

/-- Loop rule with an accumulator. -/
theorem wp_foldlM {f : β → α → Async Q R E β} {I : G → Prop} {xs : List α}
    (hstep : ∀ b, ∀ x ∈ xs, ∀ g, I g → (f b x).wp P (fun _ => I) err g) {b : β} {g : G} (h : I g) :
    (xs.foldlM f b).wp P (fun _ => I) err g := by
  induction xs generalizing b g with
  | nil => exact h
  | cons x xs ih =>
    rw [List.foldlM_cons, wp_bind]
    refine wp_mono (hstep b x (by simp) g h) ?_ fun _ _ he => he
    intro b' g' hg'
    exact ih (fun b y hy => hstep b y (List.mem_cons_of_mem _ hy)) hg'

/-- A program that is sent on keeps to the protocol of the server, as far as it asks. -/
theorem wp_lift {Q' : Type} {R' : Q' → Type} {P : Protocol Q' R' E G} (f : Q → Q')
    (p : Async Q (fun q => R' (f q)) E α) (g : G) :
    (p.lift f).wp P post err g ↔
      p.wp { may := fun q => P.may (f q), reply := fun q => P.reply (f q) } post err g := by
  induction p generalizing g with
  | pure a => rfl
  | throw e => rfl
  | ask q next ih => exact and_congr_right fun _ => forall₃_congr fun r g' _ => ih r g'

/-- Every query the program may come to meets `ok`. -/
def Asks (ok : Q → Prop) : Async Q R E α → Prop
  | .pure _ | .throw _ => True
  | .ask q next => ok q ∧ ∀ r, (next r).Asks ok

namespace Asks

variable {ok ok' : Q → Prop}

theorem bind {p : Async Q R E α} {f : α → Async Q R E β} (hp : p.Asks ok) (hf : ∀ a, (f a).Asks ok) :
    (p >>= f).Asks ok := by
  show (p.bind f).Asks ok
  induction p with
  | pure a => exact hf a
  | throw e => trivial
  | ask q next ih => exact ⟨hp.1, fun r => ih r (hp.2 r)⟩

theorem tryCatch {p : Async Q R E α} {h : E → Async Q R E α} (hp : p.Asks ok) (hh : ∀ e, (h e).Asks ok) :
    (p.tryCatch h).Asks ok := by
  induction p with
  | pure a => trivial
  | throw e => exact hh e
  | ask q next ih => exact ⟨hp.1, fun r => ih r (hp.2 r)⟩

theorem await {q : Q} (h : ok q) : (await q : Async Q R E (R q)).Asks ok := by
  refine ⟨h, ?_⟩
  rintro (e | r)
  · trivial
  · trivial

theorem throwIf (c : Prop) [Decidable c] (e : E) : (throwIf c e : Async Q R E Unit).Asks ok := by
  unfold Async.throwIf
  split
  · trivial
  · trivial

theorem ignore {p : Async Q R E Unit} (hp : p.Asks ok) : p.ignore.Asks ok := hp.tryCatch fun _ => trivial

theorem lift {Q' : Type} {R' : Q' → Type} {ok : Q' → Prop} (f : Q → Q') {p : Async Q (fun q => R' (f q)) E α}
    (hp : p.Asks fun q => ok (f q)) : (p.lift f).Asks ok := by
  induction p with
  | pure a => trivial
  | throw e => trivial
  | ask q next ih => exact ⟨hp.1, fun r => ih r (hp.2 r)⟩

/-- What the queries keep, the program keeps. -/
theorem wp {p : Async Q R E α} (hp : p.Asks ok) {J : G → Prop}
    (hJ : ∀ q g, ok q → J g → P.may q g ∧ ∀ r g', P.reply q r g g' → J g') {g : G} (hg : J g) :
    p.wp P (fun _ => J) (fun _ => J) g := by
  induction p generalizing g with
  | pure a => exact hg
  | throw e => exact hg
  | ask q next ih =>
    obtain ⟨hmay, hnext⟩ := hJ q g hp.1 hg
    exact ⟨hmay, fun r g' hr => ih r (hp.2 r) (hnext r g' hr)⟩

end Asks

/-- Where everything may be asked, a program can be run for nothing. -/
theorem wp_true (hmay : ∀ q g, P.may q g) (p : Async Q R E α) (g : G) :
    p.wp P (fun _ _ => True) (fun _ _ => True) g := by
  induction p generalizing g with
  | pure a => trivial
  | throw e => trivial
  | ask q next ih => exact ⟨hmay q g, fun r g' _ => ih r g'⟩

end Wp

/-! ## A run against a store -/

section Store

variable {σ : Type*} {post : α → σ → Prop} {err : E → σ → Prop}

/-- The state of a store is all that is known. -/
def Protocol.store (answer : (q : Q) → σ → Except E (R q) × σ) : Protocol Q R E σ where
  reply q r s s' := answer q s = (r, s')

/-- Against a store, the precondition says what the run ends with. -/
theorem exec_of_wp {answer : (q : Q) → σ → Except E (R q) × σ} {p : Async Q R E α} {s : σ}
    (h : p.wp (Protocol.store answer) post err s) :
    match p.exec answer s with
    | (.ok a, s') => post a s'
    | (.error e, s') => err e s' := by
  induction p generalizing s with
  | pure a => exact h
  | throw e => exact h
  | ask q next ih => exact ih _ (h.2 _ _ rfl)

/-- A call of a faulty store: its answer, or a failure before or after it took effect. -/
theorem wp_await_faulty {answer : (q : Q) → σ → R q × σ} {fault : Q → Fault} {down : E} (q : Q)
    {post : R q → σ → Prop} {s : σ} (hok : fault q = .none → post (answer q s).1 (answer q s).2)
    (hbefore : fault q = .before → err down s) (hafter : fault q = .after → err down (answer q s).2) :
    (await q : Async Q R E (R q)).wp (Protocol.store (faulty answer fault down)) post err s := by
  rw [wp_await]
  refine ⟨trivial, ?_, ?_⟩
  · intro r s' hr
    unfold Protocol.store faulty at hr
    cases hf : fault q with
    | none =>
      simp only [hf] at hr
      cases hr
      exact hok hf
    | before => simp [hf] at hr
    | after => simp [hf] at hr
  · intro e s' he
    unfold Protocol.store faulty at he
    cases hf : fault q with
    | none => simp [hf] at he
    | before =>
      simp only [hf] at he
      cases he
      exact hbefore hf
    | after =>
      simp only [hf] at he
      cases he
      exact hafter hf

/-- The program keeps the invariant, wherever it ends or fails. -/
def Keeps (answer : (q : Q) → σ → Except E (R q) × σ) (I : σ → Prop) (p : Async Q R E α) (s : σ) : Prop :=
  p.wp (.store answer) (fun _ => I) (fun _ => I) s

namespace Keeps

variable {I : σ → Prop} {s : σ}

section Any

variable {answer : (q : Q) → σ → Except E (R q) × σ}

theorem pure (h : I s) (a : α) : Keeps answer I (Pure.pure a : Async Q R E α) s := h

theorem throw (h : I s) (e : E) : Keeps answer I (throw e : Async Q R E α) s := h

theorem throwIf (h : I s) (c : Prop) [Decidable c] (e : E) {f : Unit → Async Q R E α}
    (hf : ¬ c → Keeps answer I (f ()) s) : Keeps answer I (Async.throwIf c e >>= f) s := by
  unfold Keeps
  rw [wp_bind, wp_throwIf]
  exact ⟨fun _ => h, hf⟩

theorem bind {p : Async Q R E α} {f : α → Async Q R E β} {mid : α → σ → Prop}
    (hp : p.wp (.store answer) mid (fun _ => I) s) (hf : ∀ a s', mid a s' → Keeps answer I (f a) s') :
    Keeps answer I (p >>= f) s := by
  unfold Keeps
  rw [wp_bind]
  exact wp_mono hp hf fun _ _ hs => hs

theorem map {p : Async Q R E α} (f : α → β) (h : Keeps answer I p s) : Keeps answer I (f <$> p) s := by
  show Keeps answer I (p >>= fun a => Pure.pure (f a)) s
  exact bind h fun _ _ hs => hs

/-- What holds after the program, whether it returned or threw. -/
theorem exec {p : Async Q R E α} (h : Keeps answer I p s) : I (p.exec answer s).2 := by
  have hrun := exec_of_wp h
  cases hres : p.exec answer s with
  | mk r s' =>
    rw [hres] at hrun
    cases r with
    | ok a => exact hrun
    | error e => exact hrun

end Any

section Faulty

variable {answer : (q : Q) → σ → R q × σ} {fault : Q → Fault} {down : E}

/-- The next call may fail, and then it may have taken effect. -/
theorem ask (h : I s) (q : Q) {f : R q → Async Q R E α} (hq : I (answer q s).2)
    (hf : Keeps (faulty answer fault down) I (f (answer q s).1) (answer q s).2) :
    Keeps (faulty answer fault down) I (await q >>= f) s := by
  unfold Keeps
  rw [wp_bind]
  exact wp_await_faulty q (fun _ => hf) (fun _ => h) fun _ => hq

/-- What every answer keeps, every program keeps. -/
theorem of_answer (hanswer : ∀ q s, I s → I (answer q s).2) (p : Async Q R E α) (h : I s) :
    Keeps (faulty answer fault down) I p s := by
  unfold Keeps
  induction p generalizing s with
  | pure a => exact h
  | throw e => exact h
  | ask q next ih =>
    refine ⟨trivial, fun r s' hr => ih r ?_⟩
    have hs' : (faulty answer fault down q s).2 = s' := congrArg Prod.snd hr
    rw [← hs']
    unfold faulty
    split
    · exact hanswer q s h
    · exact h
    · exact hanswer q s h

/-- The next call does not fail. -/
theorem ask_of_none (q : Q) (hnone : fault q = .none) {f : R q → Async Q R E α}
    (hf : Keeps (faulty answer fault down) I (f (answer q s).1) (answer q s).2) :
    Keeps (faulty answer fault down) I (await q >>= f) s := by
  unfold Keeps
  rw [wp_bind]
  refine wp_await_faulty q (fun _ => hf) ?_ ?_
  · intro hfail
    rw [hnone] at hfail
    cases hfail
  · intro hfail
    rw [hnone] at hfail
    cases hfail

end Faulty

end Keeps

end Store

end Async

end Murlan
