import Mathlib.Tactic.Linarith
import Murlan.Spec.Sessions

/-!
# What a movement writes

Every movement of the wallet service, run in a transaction, writes one of the few
things `Call.Wrote` lists, or throws and writes nothing that is kept. `Writes p post`
says of a program that whenever it returns it has added to the transaction's writes
what `post` allows, whatever the database answered; its rules follow the program,
and a movement's row and balance change always match (`Call.Wrote.balanced`).
-/

namespace Murlan

variable {U M : Type}

/-! ## What a transaction has written -/

theorem refsOf_append (rows rows' : List (Transaction U M)) :
    refsOf (rows ++ rows') = refsOf rows ++ refsOf rows' := List.filterMap_append

namespace Pending

/-- What one program wrote, then what the next one did. -/
def append (p w : Pending U M) : Pending U M where
  rows := p.rows ++ w.rows
  moved := p.moved ++ w.moved

@[simp] theorem append_rows (p w : Pending U M) : (p.append w).rows = p.rows ++ w.rows := rfl

@[simp] theorem append_moved (p w : Pending U M) : (p.append w).moved = p.moved ++ w.moved := rfl

@[simp] theorem append_empty (p : Pending U M) : p.append {} = p := by simp [append]

@[simp] theorem empty_append (p : Pending U M) : Pending.append {} p = p := by simp [append]

theorem append_assoc (p v w : Pending U M) : (p.append v).append w = p.append (v.append w) := by
  simp [append]

theorem users_append (p w : Pending U M) : (p.append w).users = p.users ++ w.users := by
  simp [users]

/-- Writes one after the other. -/
def concat (ws : List (Pending U M)) : Pending U M := ws.foldr append {}

theorem mem_refsOf_concat {ws : List (Pending U M)} {w : Pending U M} {ref : ProviderRef M} (hw : w ∈ ws)
    (href : ref ∈ refsOf w.rows) : ref ∈ refsOf (concat ws).rows := by
  induction ws with
  | nil => cases hw
  | cons v ws ih =>
    show ref ∈ refsOf (v.rows ++ (concat ws).rows)
    rw [refsOf_append, List.mem_append]
    rcases List.mem_cons.mp hw with rfl | hw
    · exact .inl href
    · exact .inr (ih hw)

variable [DecidableEq U]

/-- Each user's rows add up to the change of the balance. -/
def Balanced (p : Pending U M) : Prop := ∀ u, rowSum p.rows u = movedSum p.moved u

end Pending

section

variable [DecidableEq U]

theorem rowSum_append (rows rows' : List (Transaction U M)) (u : U) :
    rowSum (rows ++ rows') u = rowSum rows u + rowSum rows' u := by
  simp [rowSum]

theorem movedSum_append (moved moved' : List (U × ℤ)) (u : U) :
    movedSum (moved ++ moved') u = movedSum moved u + movedSum moved' u := by
  simp [movedSum]

@[simp] theorem rowSum_nil (u : U) : rowSum ([] : List (Transaction U M)) u = 0 := rfl

@[simp] theorem movedSum_nil (u : U) : movedSum [] u = 0 := rfl

theorem rowSum_singleton (tx : Transaction U M) (u : U) :
    rowSum [tx] u = if tx.account = .user u then tx.amountCents else 0 := by
  unfold rowSum
  by_cases h : tx.account = .user u <;> simp [h]

theorem movedSum_singleton (m : U × ℤ) (u : U) : movedSum [m] u = if m.1 = u then m.2 else 0 := by
  unfold movedSum
  by_cases h : m.1 = u <;> simp [h]

/-- Who was not moved has not moved. -/
theorem movedSum_of_notMem {moved : List (U × ℤ)} {u : U} (h : u ∉ moved.map fun m => m.1) :
    movedSum moved u = 0 := by
  have hnone : moved.filter (fun m => m.1 = u) = [] := by
    rw [List.filter_eq_nil_iff]
    intro m hm
    have hne : m.1 ≠ u := fun he => h (he ▸ List.mem_map_of_mem hm)
    simpa using hne
  simp [movedSum, hnone]

theorem Pending.Balanced.append {p w : Pending U M} (hp : p.Balanced) (hw : w.Balanced) :
    (p.append w).Balanced := by
  intro u
  simp only [append_rows, append_moved, rowSum_append, movedSum_append, hp u, hw u]

theorem Pending.Balanced.empty : ({} : Pending U M).Balanced := fun _ => rfl

end

/-- What one repository call adds to them. -/
def Statement.writes : (q : Statement U M) → q.Answer → Pending U M
  | .adjustBalance u d, some _ => { moved := [(u, d)] }
  | .append tx, _ => { rows := [tx] }
  | .appendIdempotent ref tx, (_, true) => { rows := [{ tx with providerRef := some ref }] }
  | _, _ => {}

/-- In a transaction every answer is possible; a call that fails ends it. -/
def Statement.protocol :
    Async.Protocol (Statement U M) Statement.Answer (ServiceError U) (Pending U M) where
  reply q r g g' := ∃ a, r = .ok a ∧ g' = g.append (q.writes a)

/-- A program that returns has added to the transaction's writes what `post` allows. -/
def Writes {α : Type} (p : Service U M α) (post : α → Pending U M → Prop) : Prop :=
  ∀ g, p.wp Statement.protocol (fun a g' => ∃ w, post a w ∧ g' = g.append w) (fun _ _ => True) g

namespace Writes

variable {α β : Type} {p : Service U M α} {post post' : α → Pending U M → Prop}

theorem mono (hp : Writes p post) (h : ∀ a w, post a w → post' a w) : Writes p post' := by
  intro g
  refine Async.wp_mono (hp g) ?_ fun _ _ _ => trivial
  rintro a g' ⟨w, hw, rfl⟩
  exact ⟨w, h a w hw, rfl⟩

theorem pure {a : α} (h : post a {}) : Writes (Pure.pure a : Service U M α) post := by
  intro g
  exact ⟨{}, h, (Pending.append_empty g).symm⟩

theorem throw (e : ServiceError U) : Writes (throw e : Service U M α) post := fun _ => trivial

/-- A statement writes what it writes. -/
theorem await (q : Statement U M) :
    Writes (Async.await q : Service U M q.Answer) fun a w => w = q.writes a := by
  intro g
  rw [Async.wp_await]
  refine ⟨trivial, ?_, ?_⟩
  · rintro r g' ⟨a, ha, rfl⟩
    cases ha
    exact ⟨_, rfl, rfl⟩
  · intro _ _ _
    trivial

/-- What a program wrote first is followed by what the rest writes. -/
theorem bind {f : α → Service U M β} {post : α → Pending U M → Prop} {post' : β → Pending U M → Prop}
    (hp : Writes p post) (hf : ∀ a w, post a w → Writes (f a) fun b v => post' b (w.append v)) :
    Writes (p >>= f) post' := by
  intro g
  rw [Async.wp_bind]
  refine Async.wp_mono (hp g) ?_ fun _ _ _ => trivial
  rintro a g' ⟨w, hw, rfl⟩
  refine Async.wp_mono (hf a w hw (g.append w)) ?_ fun _ _ _ => trivial
  rintro b g'' ⟨v, hv, rfl⟩
  exact ⟨w.append v, hv, Pending.append_assoc g w v⟩

/-- What ends in a throw adds nothing, whatever came before it. -/
theorem throws {p : Service U M β} (e : ServiceError U) :
    Writes (p >>= fun _ => MonadExcept.throw e) post := by
  intro g
  rw [Async.wp_bind]
  exact Async.wp_mono (Async.wp_true (fun _ _ => trivial) p g) (fun _ _ _ => trivial) fun _ _ _ => trivial

theorem throwIf (c : Prop) [Decidable c] (e : ServiceError U) :
    Writes (Async.throwIf c e : Service U M Unit) fun _ w => w = {} ∧ ¬ c := by
  intro g
  rw [Async.wp_throwIf]
  exact ⟨fun _ => trivial, fun hc => ⟨{}, ⟨rfl, hc⟩, (Pending.append_empty g).symm⟩⟩

/-- A handler that always throws adds nothing. -/
theorem tryCatch {h : ServiceError U → Service U M α} (hp : Writes p post)
    (hh : ∀ e, Writes (h e) fun _ _ => False) : Writes (p.tryCatch h) post := by
  intro g
  rw [Async.wp_tryCatch]
  refine Async.wp_mono (hp g) (fun _ _ h => h) fun e g' _ => ?_
  refine Async.wp_mono (hh e g') ?_ fun _ _ _ => trivial
  rintro a g'' ⟨w, hw, -⟩
  exact hw.elim

end Writes

/-! ## What each movement writes -/

/-- The row of a credit and its balance change. -/
def credited (userId : U) (amountCents : ℤ) (opts : CreditOptions M) : Pending U M where
  rows := [{ WalletService.creditRow userId amountCents opts with providerRef := opts.providerRef }]
  moved := [(userId, amountCents)]

/-- What a debit writes. -/
def debited (userId : U) (amountCents : ℤ) (opts : DebitOptions M) : Pending U M where
  rows := [WalletService.debitRow userId amountCents opts]
  moved := [(userId, -amountCents)]

/-- What a rake writes. -/
def raked (amountCents : ℤ) (matchId : Option M) (reason : Option String)
    (ref : Option (ProviderRef M)) : Pending U M where
  rows := [{ WalletService.rakeRow amountCents matchId reason with providerRef := ref }]

namespace WalletService

theorem assertAmount_writes (amountCents : ℤ) :
    Writes (assertAmount amountCents : Service U M Unit) fun _ w => w = {} := by
  refine Writes.bind (Writes.throwIf _ _) ?_
  rintro _ w ⟨rfl, -⟩
  exact (Writes.throwIf _ _).mono fun _ _ h => h.1

theorem assertCeiling_writes (userId : U) (current amountCents : ℤ) :
    Writes (assertCeiling userId current amountCents : Service U M Unit) fun _ w => w = {} :=
  (Writes.throwIf _ _).mono fun _ _ h => h.1

/-- The check of the cap writes nothing. -/
theorem assertDepositCap_writes (userId : U) (amountCents : ℤ) (ref : ProviderRef M)
    (cap : Option ℤ) :
    Writes (assertDepositCap userId amountCents ref cap) fun _ w => w = {} := by
  cases cap with
  | none => exact Writes.pure rfl
  | some cap =>
    refine Writes.bind (Writes.await _) ?_
    rintro (_ | row) w rfl
    · refine Writes.bind (Writes.await _) ?_
      rintro used w rfl
      exact (Writes.throwIf _ _).mono fun _ _ h => h.1
    · exact Writes.pure rfl

/-- The wiring writes nothing itself. -/
theorem run_writes {α : Type} {w : Wiring} {lockKey : Option U} {body : Service U M α}
    {post : α → Pending U M → Prop} (h : Writes body post) : Writes (run w lockKey body) post := by
  unfold run
  split
  · refine Writes.bind (Writes.await _) ?_
    rintro _ v rfl
    simpa [Statement.writes] using h
  · exact h

/-- A credit writes its row once. -/
theorem creditOnce_writes (userId : U) (current amountCents : ℤ) (opts : CreditOptions M)
    (ref : ProviderRef M) (hopts : opts.providerRef = some ref) (cap : Option ℤ) :
    Writes (creditOnce userId current amountCents opts ref cap) fun _ w =>
      w = {} ∨ w = credited userId amountCents opts := by
  refine Writes.bind (assertDepositCap_writes _ _ _ _) ?_
  rintro _ w rfl
  refine Writes.bind (Writes.await _) ?_
  rintro ⟨row, created⟩ w rfl
  cases created with
  | false =>
    refine Writes.bind (Writes.await _) ?_
    rintro balance w rfl
    exact Writes.pure (.inl rfl)
  | true =>
    refine Writes.bind (assertCeiling_writes _ _ _) ?_
    rintro _ w rfl
    refine Writes.bind (Writes.await _) ?_
    rintro (_ | balance) w rfl
    · exact Writes.throw _
    · refine Writes.pure (.inr ?_)
      simp [Statement.writes, credited, Pending.append, hopts]

theorem creditPlain_writes (w : Wiring) (userId : U) (current amountCents : ℤ)
    (opts : CreditOptions M) (hopts : opts.providerRef = none) :
    Writes (creditPlain w userId current amountCents opts) fun _ w =>
      w = credited userId amountCents opts := by
  refine Writes.bind (assertCeiling_writes _ _ _) ?_
  rintro _ v rfl
  refine Writes.bind (Writes.await _) ?_
  rintro _ v rfl
  refine Writes.bind (Writes.await _) ?_
  rintro (_ | balance) v rfl
  · -- whatever the compensation does, the call throws
    dsimp only
    split
    · exact Writes.throws _
    · exact Writes.throw _
  · refine Writes.pure ?_
    simp [Statement.writes, credited, creditRow, Pending.append, hopts]

/-- A credit writes its row, or nothing when it is repeated. -/
theorem credit_writes (w : Wiring) (userId : U) (amountCents : ℤ) (opts : CreditOptions M)
    (cap : Option ℤ) :
    Writes (credit w userId amountCents opts cap) fun _ v =>
      (opts.providerRef.isSome ∧ v = {}) ∨ v = credited userId amountCents opts := by
  refine Writes.bind (assertAmount_writes amountCents) ?_
  rintro _ v rfl
  simp only [Pending.empty_append]
  refine run_writes (Writes.bind (Writes.await _) ?_)
  rintro (_ | current) v rfl
  · exact Writes.throw _
  · dsimp only
    split
    · rename_i ref hopts
      refine (creditOnce_writes userId current amountCents opts ref hopts cap).mono ?_
      rintro _ v (rfl | rfl)
      · exact .inl ⟨by simp [hopts], rfl⟩
      · exact .inr rfl
    · rename_i hopts
      refine (creditPlain_writes w userId current amountCents opts hopts).mono ?_
      rintro _ v rfl
      exact .inr rfl

/-- A debit writes its row. -/
theorem debit_writes (w : Wiring) (userId : U) (amountCents : ℤ) (opts : DebitOptions M) :
    Writes (debit w userId amountCents opts) fun _ v => v = debited userId amountCents opts := by
  refine Writes.bind (assertAmount_writes amountCents) ?_
  rintro _ v rfl
  simp only [Pending.empty_append]
  refine run_writes (Writes.bind (Writes.await _) ?_)
  rintro (_ | balance) v rfl
  · exact Writes.throws _
  · refine Writes.tryCatch (Writes.bind (Writes.await _) ?_) ?_
    · rintro _ v rfl
      refine Writes.pure ?_
      simp [Statement.writes, debited, Pending.append]
    · intro e
      split
      · exact Writes.throws _
      · exact Writes.throw _

theorem transfer_writes [DecidableEq U] (w : Wiring) (fromUserId toUserId : U) (amountCents : ℤ)
    (outReason inReason : String) :
    Writes (transfer (M := M) w fromUserId toUserId amountCents outReason inReason) fun _ v =>
      v = (debited fromUserId amountCents { type := .transferOut, reason := some outReason }).append
        (credited toUserId amountCents { type := .transferIn, reason := some inReason }) := by
  refine Writes.bind (assertAmount_writes amountCents) ?_
  rintro _ v rfl
  refine Writes.bind (Writes.throwIf _ _) ?_
  rintro _ v ⟨rfl, -⟩
  refine Writes.bind (debit_writes _ _ _ _) ?_
  rintro out v rfl
  refine Writes.bind (credit_writes _ _ _ _ _) ?_
  rintro credited v (⟨hsome, -⟩ | rfl)
  · cases hsome
  · refine Writes.pure ?_
    simp

theorem recordRake_writes (amountCents : ℤ) (matchId : Option M) (reason : Option String)
    (ref : Option (ProviderRef M)) :
    Writes (recordRake (U := U) amountCents matchId reason ref) fun _ v =>
      (ref.isSome ∧ v = {}) ∨ v = raked amountCents matchId reason ref := by
  refine Writes.bind (Writes.throwIf _ _) ?_
  rintro _ v ⟨rfl, -⟩
  cases ref with
  | some ref =>
    refine Writes.bind (Writes.await _) ?_
    rintro ⟨row, created⟩ v rfl
    cases created with
    | false => exact Writes.pure (.inl ⟨rfl, rfl⟩)
    | true => exact Writes.pure (.inr rfl)
  | none =>
    refine Writes.bind (Writes.await _) ?_
    rintro _ v rfl
    exact Writes.pure (.inr rfl)

/-- A positive adjustment is a credit, a negative one a debit without reference. -/
theorem adminAdjust_writes (w : Wiring) (userId : U) (deltaCents : ℤ) (reason : String)
    (ref : Option (ProviderRef M)) :
    Writes (adminAdjust w userId deltaCents reason ref) fun _ v =>
      (ref.isSome ∧ v = {}) ∨
        v = credited userId deltaCents
          { type := .adminAdjust, reason := some reason, providerRef := ref } ∨
        (ref = none ∧
          v = debited userId (-deltaCents) { type := .adminAdjust, reason := some reason }) := by
  refine Writes.bind (Writes.throwIf _ _) ?_
  rintro _ v ⟨rfl, hzero⟩
  refine Writes.bind (Writes.throwIf _ _) ?_
  rintro _ v ⟨rfl, hbound⟩
  split
  · refine (credit_writes _ _ _ _ _).mono ?_
    rintro _ v (⟨hsome, rfl⟩ | rfl)
    · exact .inl ⟨hsome, rfl⟩
    · exact .inr (.inl rfl)
  · refine (debit_writes _ _ _ _).mono ?_
    rintro _ v rfl
    have hnone : ref = none := by
      cases ref with
      | none => rfl
      | some ref => exact absurd ⟨rfl, by omega⟩ hbound
    exact .inr (.inr ⟨hnone, by simp⟩)

theorem adminAdjustAudited_writes (w : Wiring) (userId : U) (deltaCents : ℤ) (reason : String)
    (ref : Option (ProviderRef M)) :
    Writes (adminAdjustAudited w userId deltaCents reason ref) fun _ v =>
      (ref.isSome ∧ v = {}) ∨
        v = credited userId deltaCents
          { type := .adminAdjust, reason := some reason, providerRef := ref } ∨
        (ref = none ∧
          v = debited userId (-deltaCents) { type := .adminAdjust, reason := some reason }) := by
  refine Writes.bind (adminAdjust_writes _ _ _ _ _) ?_
  intro res v hv
  dsimp only
  split
  · refine Writes.bind (Writes.await _) ?_
    rintro _ w rfl
    exact Writes.pure (by simpa [Statement.writes] using hv)
  · exact Writes.pure (by simpa using hv)

end WalletService

/-- The reference that makes a movement happen at most once. -/
def Call.providerRef? : Call U M → Option (ProviderRef M)
  | .credit _ _ opts _ => opts.providerRef
  | .recordRake _ _ _ ref | .adminAdjust _ _ _ ref | .adminAdjustAudited _ _ _ ref => ref
  | .debit _ _ _ | .transfer _ _ _ _ _ => none

/-- What a movement that returns has written: nothing, which only one with a reference
can, or its rows and balance changes. -/
def Call.Wrote (c : Call U M) (w : Pending U M) : Prop :=
  (c.providerRef?.isSome ∧ w = {}) ∨
    match c with
    | .credit u a opts _ => w = credited u a opts
    | .debit u a opts => w = debited u a opts
    | .transfer f t a outReason inReason =>
      w = (debited f a { type := .transferOut, reason := some outReason }).append
        (credited t a { type := .transferIn, reason := some inReason })
    | .recordRake a matchId reason ref => w = raked a matchId reason ref
    | .adminAdjust u d reason ref | .adminAdjustAudited u d reason ref =>
      w = credited u d { type := .adminAdjust, reason := some reason, providerRef := ref } ∨
        (ref = none ∧ w = debited u (-d) { type := .adminAdjust, reason := some reason })

/-- A movement with a reference writes nothing or a row that carries it. -/
theorem Call.Wrote.marked {c : Call U M} {w : Pending U M} (h : c.Wrote w) {ref : ProviderRef M}
    (href : c.providerRef? = some ref) : w = {} ∨ ref ∈ refsOf w.rows := by
  rcases h with ⟨-, rfl⟩ | h
  · exact .inl rfl
  right
  cases c with
  | credit u a opts cap =>
    subst h
    have hopts : opts.providerRef = some ref := href
    simp [credited, refsOf, hopts]
  | debit u a opts => cases href
  | transfer f t a outReason inReason => cases href
  | recordRake a matchId reason ref =>
    subst h
    cases href
    simp [raked, refsOf]
  | adminAdjust u d reason ref =>
    cases href
    rcases h with rfl | ⟨hnone, -⟩
    · simp [credited, refsOf]
    · cases hnone
  | adminAdjustAudited u d reason ref =>
    cases href
    rcases h with rfl | ⟨hnone, -⟩
    · simp [credited, refsOf]
    · cases hnone

/-- Each write belongs to a movement. -/
theorem exists_zip {cs : List (Call U M)} {ws : List (Pending U M)} (h : List.Forall₂ Call.Wrote cs ws) {w : Pending U M}
    (hw : w ∈ ws) : ∃ c ∈ cs, (c, w) ∈ cs.zip ws := by
  induction h with
  | nil => cases hw
  | cons hcw _ ih =>
    rcases List.mem_cons.mp hw with rfl | hw
    · exact ⟨_, List.mem_cons_self, List.mem_cons_self⟩
    · obtain ⟨c, hc, hzip⟩ := ih hw
      exact ⟨c, List.mem_cons_of_mem _ hc, List.mem_cons_of_mem _ hzip⟩

section

variable [DecidableEq U]

/-- Every call writes its own. -/
theorem Call.program_writes (w : Wiring) (c : Call U M) : Writes (c.program w) fun _ v => c.Wrote v := by
  have close : ∀ {α : Type} {p : Service U M α} {receipt : α → Receipt U M},
      (Writes p fun _ v => c.Wrote v) →
      Writes (p >>= fun a => Pure.pure (receipt a)) fun _ v => c.Wrote v := by
    intro α p receipt hp
    exact Writes.bind hp fun a v hv => Writes.pure (by simpa using hv)
  cases c with
  | credit u a opts cap => exact close (WalletService.credit_writes w u a opts cap)
  | debit u a opts => exact close ((WalletService.debit_writes w u a opts).mono fun _ _ h => .inr h)
  | transfer f t a outReason inReason =>
    exact close ((WalletService.transfer_writes w f t a outReason inReason).mono fun _ _ h => .inr h)
  | recordRake a matchId reason ref => exact close (WalletService.recordRake_writes a matchId reason ref)
  | adminAdjust u d reason ref => exact close (WalletService.adminAdjust_writes w u d reason ref)
  | adminAdjustAudited u d reason ref =>
    exact close (WalletService.adminAdjustAudited_writes w u d reason ref)

theorem credited_balanced (u : U) (a : ℤ) (opts : CreditOptions M) : (credited u a opts).Balanced := by
  intro v
  simp only [credited, rowSum_singleton, movedSum_singleton, WalletService.creditRow,
    Account.user.injEq]

theorem debited_balanced (u : U) (a : ℤ) (opts : DebitOptions M) : (debited u a opts).Balanced := by
  intro v
  simp only [debited, rowSum_singleton, movedSum_singleton, WalletService.debitRow,
    Account.user.injEq]

/-- The house has rows and no balance. -/
theorem raked_balanced (a : ℤ) (matchId : Option M) (reason : Option String)
    (ref : Option (ProviderRef M)) : (raked (U := U) a matchId reason ref).Balanced := by
  intro v
  simp [raked, rowSum_singleton, WalletService.rakeRow]

/-- **Every movement's rows and balance changes match**, user by user. -/
theorem Call.Wrote.balanced {c : Call U M} {w : Pending U M} (h : c.Wrote w) : w.Balanced := by
  rcases h with ⟨-, rfl⟩ | h
  · exact Pending.Balanced.empty
  cases c with
  | credit u a opts cap => subst h; exact credited_balanced u a opts
  | debit u a opts => subst h; exact debited_balanced u a opts
  | transfer f t a outReason inReason =>
    subst h
    exact (debited_balanced f a _).append (credited_balanced t a _)
  | recordRake a matchId reason ref => subst h; exact raked_balanced a matchId reason ref
  | adminAdjust u d reason ref =>
    rcases h with rfl | ⟨-, rfl⟩
    · exact credited_balanced u d _
    · exact debited_balanced u (-d) _
  | adminAdjustAudited u d reason ref =>
    rcases h with rfl | ⟨-, rfl⟩
    · exact credited_balanced u d _
    · exact debited_balanced u (-d) _

/-- The movements of a transaction, in order. -/
def Operation.calls : Operation U M → List (Call U M)
  | .own c => [c]
  | .bound cs => cs

/-- What a transaction has written when its program returns: what its movements have, one after
the other. -/
def Operation.Wrote (op : Operation U M) (w : Pending U M) : Prop :=
  ∃ ws, List.Forall₂ Call.Wrote op.calls ws ∧ w = Pending.concat ws

/-- Several calls write one after another. -/
theorem Call.programs_writes (w : Wiring) :
    ∀ cs : List (Call U M), Writes (Call.programs w cs) fun _ v => ∃ ws, List.Forall₂ Call.Wrote cs ws ∧
      v = Pending.concat ws := by
  intro cs
  induction cs with
  | nil => exact Writes.pure ⟨[], .nil, rfl⟩
  | cons c cs ih =>
    refine Writes.bind (c.program_writes w) ?_
    intro _ v hv
    refine Writes.bind ih ?_
    rintro _ _ ⟨ws, hws, rfl⟩
    exact Writes.pure ⟨v :: ws, .cons hv hws, by rw [Pending.append_empty]; rfl⟩

theorem Operation.program_writes (op : Operation U M) : Writes op.program fun _ v => op.Wrote v := by
  cases op with
  | own c => exact Call.programs_writes .own [c]
  | bound cs => exact Call.programs_writes .bound cs

theorem Operation.Wrote.balanced {op : Operation U M} {w : Pending U M} (h : op.Wrote w) :
    w.Balanced := by
  obtain ⟨ws, hws, rfl⟩ := h
  generalize op.calls = cs at hws
  induction hws with
  | nil => exact Pending.Balanced.empty
  | cons hw _ ih => exact hw.balanced.append ih

end

end Murlan
