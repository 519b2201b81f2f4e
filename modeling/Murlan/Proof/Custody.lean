import Mathlib.Data.Set.Insert
import Mathlib.Data.List.Nodup
import Murlan.Proof.Clerk

/-!
# Who has a withdrawal in hand

The invariant of the withdrawal desk. `Custody d st voids sweeps` relates the rows, the
credits and the provider's traffic to the stages `st` the operations are at; `voids` are
the withdrawals that were rejected while pending. A pending withdrawal is untouched; a
void one is never sent, found or reversed; one that was taken is claimed by at most one
operation; a refund stands on a void withdrawal or on a refusal of the provider.

Each effect of a query has its lemma; `setStage` and `dropStage` change the stages.
-/

namespace Murlan

variable {U : Type}

namespace WithdrawalDesk

variable (d : WithdrawalDesk U) (u : U) (a : ℕ) (ref : RefundRef)

/-! A credit changes the credits only. -/

theorem book_tasks : (d.book u a ref).tasks = d.tasks ∧ (d.book u a ref).next = d.next := by
  unfold book
  split <;> exact ⟨rfl, rfl⟩

theorem book_rows : (d.book u a ref).rows = d.rows := by
  unfold book
  split <;> rfl

theorem book_traffic : (d.book u a ref).found = d.found ∧ (d.book u a ref).outcomes = d.outcomes := by
  unfold book
  split <;> exact ⟨rfl, rfl⟩

variable {d u a ref} in
/-- A booking adds a credit of its reference. -/
theorem mem_book_credits {c : RefundCredit U} (h : c ∈ (d.book u a ref).credits) : c ∈ d.credits ∨ c.ref = ref := by
  unfold book at h
  split at h
  · exact .inl h
  · rcases List.mem_append.mp h with h | h
    · exact .inl h
    · obtain rfl : c = ⟨ref, u, a⟩ := by simpa using h
      exact .inr rfl

end WithdrawalDesk

/-- The withdrawal is no longer pending, and was not rejected while it was. -/
structure Taken (d : WithdrawalDesk U) (voids : Set ℕ) (id : ℕ) : Prop where
  resolved : ∃ r, d.rows id = some r ∧ r.status ≠ .pending
  not_void : id ∉ voids

/-- No call, answer, reversal or finding of a sweep concerns the withdrawal. -/
structure Clean (d : WithdrawalDesk U) (id : ℕ) : Prop where
  sends : id ∉ d.sends
  outcomes : ∀ r, (id, r) ∉ d.outcomes
  reversal : .reversal id ∉ d.refs
  found : id ∉ d.found

/-- What an operation's stage says about the withdrawal. -/
def Stage.Fits (d : WithdrawalDesk U) (voids : Set ℕ) (sweeps : Bool) (s : Stage U) : Prop :=
  match s.phase with
  | .read | .done => True
  | .claimed => Taken d voids s.id ∧ s.id ∉ d.sends ∧ ∀ r, (s.id, r) ∉ d.outcomes
  | .sending => Taken d voids s.id ∧ ∀ r, (s.id, r) ∉ d.outcomes
  | .refused => Taken d voids s.id ∧ ∃ r, (s.id, r) ∈ d.outcomes ∧ r.refused = true
  | .refunded => Taken d voids s.id ∧ .refund s.id ∈ d.refs
  | .voided => s.id ∈ voids
  | .found => Taken d voids s.id ∧ s.id ∈ d.found ∧ sweeps = true
  | .reversed => Taken d voids s.id ∧ .reversal s.id ∈ d.refs ∧ sweeps = true

/-- Stages at which the provider is called or about to be. -/
def Phase.owns (p : Phase) : Prop := p = .claimed ∨ p = .sending

/-- What stages say is kept by an effect that forgets no answer, credit or finding, and
makes no call or answer that concerns an owner. -/
theorem Stage.Fits.mono {d d' : WithdrawalDesk U} {voids voids' : Set ℕ} {sweeps : Bool} {s : Stage U}
    (h : s.Fits d voids sweeps) (htaken : Taken d voids s.id → Taken d' voids' s.id)
    (hvoids : voids ⊆ voids') (hsends : s.phase = .claimed → s.id ∉ d.sends → s.id ∉ d'.sends)
    (hunanswered : s.phase.owns → (∀ r, (s.id, r) ∉ d.outcomes) → ∀ r, (s.id, r) ∉ d'.outcomes)
    (houtcomes : d.outcomes ⊆ d'.outcomes) (hrefs : d.refs ⊆ d'.refs) (hfound : d.found ⊆ d'.found) :
    s.Fits d' voids' sweeps := by
  unfold Stage.Fits at h ⊢
  cases hp : s.phase with
  | read => trivial
  | done => trivial
  | claimed =>
    rw [hp] at h
    exact ⟨htaken h.1, hsends hp h.2.1, hunanswered (.inl hp) h.2.2⟩
  | sending =>
    rw [hp] at h
    exact ⟨htaken h.1, hunanswered (.inr hp) h.2⟩
  | refused =>
    rw [hp] at h
    obtain ⟨ht, r, hr, hrefused⟩ := h
    exact ⟨htaken ht, r, houtcomes hr, hrefused⟩
  | refunded =>
    rw [hp] at h
    exact ⟨htaken h.1, hrefs h.2⟩
  | voided =>
    rw [hp] at h
    exact hvoids h
  | found =>
    rw [hp] at h
    exact ⟨htaken h.1, hfound h.2.1, h.2.2⟩
  | reversed =>
    rw [hp] at h
    exact ⟨htaken h.1, hrefs h.2.1, h.2.2⟩

/-- Where the money of every withdrawal is, and which call may move it. -/
structure Custody (d : WithdrawalDesk U) (st : ℕ → Option (Stage U)) (voids : Set ℕ)
    (sweeps : ℕ → Bool) : Prop where
  row : ∀ id r, d.rows id = some r → r.id = id ∧ id < d.seq
  pending : ∀ id, (∀ r, d.rows id = some r → r.status = .pending) →
    Clean d id ∧ .refund id ∉ d.refs ∧ id ∉ voids
  void : ∀ id ∈ voids, Clean d id ∧ ∃ r, d.rows id = some r ∧ r.status = .rejected
  refund : ∀ id, .refund id ∈ d.refs → id ∈ voids ∨ ∃ r, (id, r) ∈ d.outcomes ∧ r.refused = true
  reversal : ∀ id, .reversal id ∈ d.refs → id ∈ d.found
  sends : d.sends.Nodup
  outcomes : (d.outcomes.map fun o => o.1).Nodup
  refs : d.refs.Nodup
  amount : ∀ c ∈ d.credits, ∃ r, d.rows c.ref.id = some r ∧ c.userId = r.userId ∧
    c.amountCents = r.amountCents
  known : ∀ k s, st k = some s →
    ∃ r, d.rows s.id = some r ∧ r.userId = s.userId ∧ r.amountCents = s.amountCents
  fits : ∀ k s, st k = some s → s.Fits d voids (sweeps k)
  owner : ∀ j k s t, st j = some s → st k = some t → s.phase.owns → t.phase.owns → s.id = t.id →
    j = k

namespace Custody

variable {d : WithdrawalDesk U} {st : ℕ → Option (Stage U)} {voids : Set ℕ} {sweeps : ℕ → Bool}

/-- Fewer stages say less. -/
theorem dropStage (h : Custody d st voids sweeps) (k : ℕ) :
    Custody d (Function.update st k none) voids sweeps := by
  have hold : ∀ j s, Function.update st k none j = some s → st j = some s := by
    intro j s hj
    by_cases hjk : j = k
    · subst hjk
      rw [Function.update_self] at hj
      cases hj
    · rwa [Function.update_of_ne hjk] at hj
  exact { h with
    known := fun j s hj => h.known j s (hold j s hj)
    fits := fun j s hj => h.fits j s (hold j s hj)
    owner := fun i j s t hi hj => h.owner i j s t (hold i s hi) (hold j t hj) }

/-- An operation moves to a stage that fits, and owns what no other owns. -/
theorem setStage (h : Custody d st voids sweeps) {k : ℕ} {s : Stage U}
    (hknown : ∃ r, d.rows s.id = some r ∧ r.userId = s.userId ∧ r.amountCents = s.amountCents)
    (hfits : s.Fits d voids (sweeps k))
    (howner : s.phase.owns → ∀ j t, j ≠ k → st j = some t → t.phase.owns → t.id ≠ s.id) :
    Custody d (Function.update st k (some s)) voids sweeps := by
  have hcases : ∀ j t, Function.update st k (some s) j = some t →
      (j = k ∧ t = s) ∨ (j ≠ k ∧ st j = some t) := by
    intro j t hj
    by_cases hjk : j = k
    · subst hjk
      rw [Function.update_self] at hj
      exact .inl ⟨rfl, (Option.some.inj hj).symm⟩
    · rw [Function.update_of_ne hjk] at hj
      exact .inr ⟨hjk, hj⟩
  refine { h with known := ?_, fits := ?_, owner := ?_ }
  · intro j t hj
    rcases hcases j t hj with ⟨-, rfl⟩ | ⟨-, hj⟩
    · exact hknown
    · exact h.known j t hj
  · intro j t hj
    rcases hcases j t hj with ⟨rfl, rfl⟩ | ⟨-, hj⟩
    · exact hfits
    · exact h.fits j t hj
  · intro i j t u hi hj ht hu hid
    rcases hcases i t hi with ⟨rfl, rfl⟩ | ⟨hik, hi'⟩
    · rcases hcases j u hj with ⟨rfl, -⟩ | ⟨hjk, hj'⟩
      · rfl
      · exact absurd hid.symm (howner ht j u hjk hj' hu)
    · rcases hcases j u hj with ⟨rfl, rfl⟩ | ⟨-, hj'⟩
      · exact absurd hid (howner hu i t hik hi' ht)
      · exact h.owner i j t u hi' hj' ht hu hid

/-! ## The effects of a query -/

/-- A taken withdrawal that no operation is about to send is sent. -/
theorem send (h : Custody d st voids sweeps) {id : ℕ} (htaken : Taken d voids id)
    (hunsent : id ∉ d.sends) (hnone : ∀ k s, st k = some s → s.phase = .claimed → s.id ≠ id) :
    Custody { d with sends := d.sends ++ [id] } st voids sweeps := by
  obtain ⟨r, hr, hresolved⟩ := htaken.resolved
  refine { h with pending := ?_, void := ?_, sends := ?_, fits := ?_ }
  · intro id' hid'
    obtain ⟨hclean, hrefund, hvoid⟩ := h.pending id' hid'
    refine ⟨⟨?_, hclean.outcomes, hclean.reversal, hclean.found⟩, hrefund, hvoid⟩
    intro hmem
    rcases List.mem_append.mp hmem with hmem | hmem
    · exact hclean.sends hmem
    · obtain rfl : id' = id := by simpa using hmem
      exact hresolved (hid' r hr)
  · intro id' hid'
    obtain ⟨hclean, hrow⟩ := h.void id' hid'
    refine ⟨⟨?_, hclean.outcomes, hclean.reversal, hclean.found⟩, hrow⟩
    intro hmem
    rcases List.mem_append.mp hmem with hmem | hmem
    · exact hclean.sends hmem
    · obtain rfl : id' = id := by simpa using hmem
      exact htaken.not_void hid'
  · rw [List.nodup_append]
    refine ⟨h.sends, List.nodup_singleton id, ?_⟩
    rintro a ha b hb rfl
    obtain rfl : a = id := by simpa using hb
    exact hunsent ha
  · intro k s hk
    refine (h.fits k s hk).mono (fun ht => ⟨ht.resolved, ht.not_void⟩) (fun _ h => h) ?_
      (fun _ h => h) (fun _ h => h) (fun _ h => h) fun _ h => h
    intro hclaimed hs hmem
    rcases List.mem_append.mp hmem with hmem | hmem
    · exact hs hmem
    · exact hnone k s hk hclaimed (by simpa using hmem)

/-- The provider answers for a taken withdrawal that no operation is waiting for. -/
theorem outcome (h : Custody d st voids sweeps) {id : ℕ} (r : PayoutResult)
    (htaken : Taken d voids id) (hunanswered : ∀ r, (id, r) ∉ d.outcomes)
    (hnone : ∀ k s, st k = some s → s.phase.owns → s.id ≠ id) :
    Custody { d with outcomes := d.outcomes ++ [(id, r)] } st voids sweeps := by
  obtain ⟨row, hrow, hresolved⟩ := htaken.resolved
  have hsub : d.outcomes ⊆ d.outcomes ++ [(id, r)] := fun _ h => List.mem_append_left _ h
  have hother : ∀ id', id' ≠ id → (∀ r, (id', r) ∉ d.outcomes) →
      ∀ r', (id', r') ∉ d.outcomes ++ [(id, r)] := by
    intro id' hne hno r' hmem
    rcases List.mem_append.mp hmem with hmem | hmem
    · exact hno r' hmem
    · have heq : (id', r') = (id, r) := by simpa using hmem
      exact hne (Prod.mk.inj heq).1
  refine { h with pending := ?_, void := ?_, refund := ?_, outcomes := ?_, fits := ?_ }
  · intro id' hid'
    obtain ⟨hclean, hrefund, hvoid⟩ := h.pending id' hid'
    have hne : id' ≠ id := by
      rintro rfl
      exact hresolved (hid' row hrow)
    exact ⟨⟨hclean.sends, hother id' hne hclean.outcomes, hclean.reversal, hclean.found⟩, hrefund, hvoid⟩
  · intro id' hid'
    obtain ⟨hclean, hrow'⟩ := h.void id' hid'
    have hne : id' ≠ id := by
      rintro rfl
      exact htaken.not_void hid'
    exact ⟨⟨hclean.sends, hother id' hne hclean.outcomes, hclean.reversal, hclean.found⟩, hrow'⟩
  · intro id' href
    rcases h.refund id' href with hvoid | ⟨r', hr', hrefused⟩
    · exact .inl hvoid
    · exact .inr ⟨r', hsub hr', hrefused⟩
  · rw [List.map_append, List.nodup_append]
    refine ⟨h.outcomes, by simp, ?_⟩
    rintro a ha b hb rfl
    obtain rfl : a = id := by simpa using hb
    obtain ⟨o, ho, rfl⟩ := List.mem_map.mp ha
    exact hunanswered o.2 ho
  · intro k s hk
    refine (h.fits k s hk).mono (fun ht => ⟨ht.resolved, ht.not_void⟩) (fun _ h => h) (fun _ h => h)
      ?_ hsub (fun _ h => h) fun _ h => h
    intro howns hno
    exact hother s.id (hnone k s hk howns) hno

/-- A sweep reads a taken withdrawal as completed. -/
theorem find (h : Custody d st voids sweeps) {id : ℕ} (htaken : Taken d voids id) :
    Custody { d with found := d.found ++ [id] } st voids sweeps := by
  obtain ⟨row, hrow, hresolved⟩ := htaken.resolved
  have hsub : d.found ⊆ d.found ++ [id] := fun _ h => List.mem_append_left _ h
  have hother : ∀ id', id' ≠ id → id' ∉ d.found → id' ∉ d.found ++ [id] := by
    intro id' hne hno hmem
    rcases List.mem_append.mp hmem with hmem | hmem
    · exact hno hmem
    · exact hne (by simpa using hmem)
  refine { h with pending := ?_, void := ?_, reversal := ?_, fits := ?_ }
  · intro id' hid'
    obtain ⟨hclean, hrefund, hvoid⟩ := h.pending id' hid'
    have hne : id' ≠ id := by
      rintro rfl
      exact hresolved (hid' row hrow)
    exact ⟨⟨hclean.sends, hclean.outcomes, hclean.reversal, hother id' hne hclean.found⟩, hrefund, hvoid⟩
  · intro id' hid'
    obtain ⟨hclean, hrow'⟩ := h.void id' hid'
    have hne : id' ≠ id := by
      rintro rfl
      exact htaken.not_void hid'
    exact ⟨⟨hclean.sends, hclean.outcomes, hclean.reversal, hother id' hne hclean.found⟩, hrow'⟩
  · intro id' href
    exact hsub (h.reversal id' href)
  · intro k s hk
    exact (h.fits k s hk).mono (fun ht => ⟨ht.resolved, ht.not_void⟩) (fun _ h => h) (fun _ h => h)
      (fun _ h => h) (fun _ h => h) (fun _ h => h) hsub

/-- A booking adds its reference. -/
theorem refs_book (d : WithdrawalDesk U) (u : U) (a : ℕ) (ref : RefundRef) :
    ∀ x, x ∈ (d.book u a ref).refs ↔ x ∈ d.refs ∨ x = ref := by
  intro x
  unfold WithdrawalDesk.book
  split
  · rename_i hmem
    constructor
    · exact .inl
    · rintro (h | rfl)
      · exact h
      · exact hmem
  · simp [WithdrawalDesk.refs]

/-- A credit is booked: a refund where one stands, a reversal of a found withdrawal. -/
theorem book (h : Custody d st voids sweeps) {u : U} {a : ℕ} (ref : RefundRef)
    (hrow : ∃ r, d.rows ref.id = some r ∧ u = r.userId ∧ a = r.amountCents ∧ r.status ≠ .pending)
    (hcase : match ref with
      | .refund id => id ∈ voids ∨ ∃ r, (id, r) ∈ d.outcomes ∧ r.refused = true
      | .reversal id => id ∈ d.found) :
    Custody (d.book u a ref) st voids sweeps := by
  -- a reference is booked once
  by_cases hold : ref ∈ d.refs
  · rwa [WithdrawalDesk.book, if_pos hold]
  have hbook : d.book u a ref = { d with credits := d.credits ++ [⟨ref, u, a⟩] } := if_neg hold
  have hmem := refs_book d u a ref
  have hrefs : d.refs ⊆ (d.book u a ref).refs := fun x hx => (hmem x).mpr (.inl hx)
  rw [hbook] at hmem hrefs ⊢
  obtain ⟨row, hr, hu, ha, hresolved⟩ := hrow
  refine { h with pending := ?_, void := ?_, refund := ?_, reversal := ?_, refs := ?_, amount := ?_, fits := ?_ }
  -- a pending row is not the one credited, since that one is resolved
  · intro id hid
    obtain ⟨hclean, hrefund, hvoid⟩ := h.pending id hid
    have hne : id ≠ ref.id := by
      rintro rfl
      exact hresolved (hid row hr)
    refine ⟨⟨hclean.sends, hclean.outcomes, ?_, hclean.found⟩, ?_, hvoid⟩
    · intro href
      rcases (hmem _).mp href with href | rfl
      · exact hclean.reversal href
      · exact hne rfl
    · intro href
      rcases (hmem _).mp href with href | rfl
      · exact hrefund href
      · exact hne rfl
  · intro id hid
    obtain ⟨hclean, hrow⟩ := h.void id hid
    refine ⟨⟨hclean.sends, hclean.outcomes, ?_, hclean.found⟩, hrow⟩
    intro href
    rcases (hmem _).mp href with href | rfl
    · exact hclean.reversal href
    · exact hclean.found hcase
  · intro id href
    rcases (hmem _).mp href with href | rfl
    · exact h.refund id href
    · exact hcase
  · intro id href
    rcases (hmem _).mp href with href | rfl
    · exact h.reversal id href
    · exact hcase
  -- the new reference differs from those of the ledger
  · show (d.credits ++ [(⟨ref, u, a⟩ : RefundCredit U)]).map (fun c => c.ref) |>.Nodup
    rw [List.map_append, List.nodup_append]
    refine ⟨h.refs, by simp, ?_⟩
    rintro x hx y hy rfl
    obtain rfl : x = ref := by simpa using hy
    exact hold hx
  · intro c hc
    rcases List.mem_append.mp hc with hc | hc
    · exact h.amount c hc
    · obtain rfl : c = ⟨ref, u, a⟩ := by simpa using hc
      exact ⟨row, hr, hu, ha⟩
  · intro k s hk
    exact (h.fits k s hk).mono (fun ht => ⟨ht.resolved, ht.not_void⟩) (fun _ h => h) (fun _ h => h)
      (fun _ h => h) (fun _ h => h) hrefs fun _ h => h

theorem rows_setRow (d : WithdrawalDesk U) (r : WithdrawalRecord U) (id : ℕ) :
    (d.setRow r).rows id = if id = r.id then some r else d.rows id :=
  Function.update_apply d.rows r.id (some r) id

/-- A row changes its status or audit fields, and the withdrawal may become void. -/
theorem setRow (h : Custody d st voids sweeps) {r r' : WithdrawalRecord U} {voids' : Set ℕ}
    (hr : d.rows r'.id = some r) (huser : r'.userId = r.userId)
    (hamount : r'.amountCents = r.amountCents) (hsub : voids ⊆ voids')
    (hother : ∀ id, id ≠ r'.id → id ∈ voids' → id ∈ voids)
    (hpending : r'.status = .pending → r.status = .pending ∧ r'.id ∉ voids')
    (hvoid : r'.id ∈ voids' → Clean d r'.id ∧ r'.status = .rejected)
    (htaken : Taken d voids r'.id → r'.status ≠ .pending ∧ r'.id ∉ voids') :
    Custody (d.setRow r') st voids' sweeps := by
  have hrows := rows_setRow d r'
  -- the fields of `Custody` in order, each for this row and for the others
  have hself : (d.setRow r').rows r'.id = some r' := by rw [hrows, if_pos rfl]
  refine ⟨?_, ?_, ?_, ?_, h.reversal, h.sends, h.outcomes, h.refs, ?_, ?_, ?_, h.owner⟩
  · intro id x hx
    rw [hrows] at hx
    split at hx
    · rename_i hid
      cases hx
      exact ⟨hid.symm, hid ▸ (h.row _ r hr).2⟩
    · exact h.row id x hx
  · intro id hid
    by_cases he : id = r'.id
    · subst he
      obtain ⟨hpend, hnot⟩ := hpending (hid r' hself)
      have hold : ∀ x, d.rows r'.id = some x → x.status = .pending := by
        intro x hx
        rw [hr] at hx
        cases hx
        exact hpend
      obtain ⟨hclean, hrefund, -⟩ := h.pending _ hold
      exact ⟨⟨hclean.sends, hclean.outcomes, hclean.reversal, hclean.found⟩, hrefund, hnot⟩
    · have hold : ∀ x, d.rows id = some x → x.status = .pending := by
        intro x hx
        refine hid x ?_
        rw [hrows, if_neg he]
        exact hx
      obtain ⟨hclean, hrefund, hnot⟩ := h.pending id hold
      exact ⟨⟨hclean.sends, hclean.outcomes, hclean.reversal, hclean.found⟩, hrefund,
        fun hv => hnot (hother id he hv)⟩
  · intro id hid
    by_cases he : id = r'.id
    · subst he
      obtain ⟨hclean, hrejected⟩ := hvoid hid
      exact ⟨⟨hclean.sends, hclean.outcomes, hclean.reversal, hclean.found⟩, r', hself, hrejected⟩
    · obtain ⟨hclean, x, hx, hrejected⟩ := h.void id (hother id he hid)
      refine ⟨⟨hclean.sends, hclean.outcomes, hclean.reversal, hclean.found⟩, x, ?_, hrejected⟩
      rw [hrows, if_neg he]
      exact hx
  · intro id href
    rcases h.refund id href with hv | hr'
    · exact .inl (hsub hv)
    · exact .inr hr'
  · intro c hc
    obtain ⟨x, hx, hcu, hca⟩ := h.amount c hc
    by_cases he : c.ref.id = r'.id
    · rw [he, hr] at hx
      cases hx
      exact ⟨r', by rw [he]; exact hself, by rw [hcu, huser], by rw [hca, hamount]⟩
    · exact ⟨x, by rw [hrows, if_neg he]; exact hx, hcu, hca⟩
  · intro k s hk
    obtain ⟨x, hx, hxu, hxa⟩ := h.known k s hk
    by_cases he : s.id = r'.id
    · rw [he, hr] at hx
      cases hx
      exact ⟨r', by rw [he]; exact hself, by rw [huser, hxu], by rw [hamount, hxa]⟩
    · exact ⟨x, by rw [hrows, if_neg he]; exact hx, hxu, hxa⟩
  · intro k s hk
    refine (h.fits k s hk).mono ?_ hsub (fun _ h => h) (fun _ h => h) (fun _ h => h) (fun _ h => h)
      fun _ h => h
    intro ht
    by_cases he : s.id = r'.id
    · obtain ⟨hstatus, hnot⟩ := htaken (he ▸ ht)
      exact ⟨⟨r', by rw [he]; exact hself, hstatus⟩, by rw [he]; exact hnot⟩
    · obtain ⟨x, hx, hstatus⟩ := ht.resolved
      refine ⟨⟨x, by rw [hrows, if_neg he]; exact hx, hstatus⟩, ?_⟩
      exact fun hv => ht.not_void (hother _ he hv)

/-- A change that keeps pending rows pending and rejected rows rejected. -/
theorem touchRow (h : Custody d st voids sweeps) {r r' : WithdrawalRecord U}
    (hr : d.rows r'.id = some r) (huser : r'.userId = r.userId)
    (hamount : r'.amountCents = r.amountCents)
    (hpending : r'.status = .pending ↔ r.status = .pending)
    (hrejected : r.status = .rejected → r'.status = .rejected) :
    Custody (d.setRow r') st voids sweeps := by
  have hvoid : r'.id ∈ voids → Clean d r'.id ∧ r.status = .rejected := by
    intro hv
    obtain ⟨hclean, x, hx, hx'⟩ := h.void _ hv
    rw [hr] at hx
    cases hx
    exact ⟨hclean, hx'⟩
  refine h.setRow hr huser hamount (fun _ h => h) (fun _ _ h => h) ?_ ?_ ?_
  · intro hp
    refine ⟨hpending.mp hp, fun hv => ?_⟩
    have hrej := (hvoid hv).2
    rw [hpending.mp hp] at hrej
    cases hrej
  · intro hv
    exact ⟨(hvoid hv).1, hrejected (hvoid hv).2⟩
  · intro ht
    obtain ⟨x, hx, hstatus⟩ := ht.resolved
    rw [hr] at hx
    cases hx
    exact ⟨fun hp => hstatus (hpending.mp hp), ht.not_void⟩

/-- A pending row is not taken and not void. -/
theorem pending_not_taken (h : Custody d st voids sweeps) {id : ℕ} {r : WithdrawalRecord U}
    (hr : d.rows id = some r) (hpending : r.status = .pending) :
    ¬ Taken d voids id ∧ Clean d id ∧ .refund id ∉ d.refs ∧ id ∉ voids := by
  constructor
  · intro ht
    obtain ⟨x, hx, hstatus⟩ := ht.resolved
    rw [hr] at hx
    cases hx
    exact hstatus hpending
  · refine h.pending id fun x hx => ?_
    rw [hr] at hx
    cases hx
    exact hpending

/-- The compare-and-set that completes a pending row. -/
theorem complete (h : Custody d st voids sweeps) {r r' : WithdrawalRecord U}
    (hr : d.rows r'.id = some r) (huser : r'.userId = r.userId)
    (hamount : r'.amountCents = r.amountCents) (hpending : r.status = .pending)
    (hcompleted : r'.status = .completed) : Custody (d.setRow r') st voids sweeps := by
  obtain ⟨hnot, -, -, hvoid⟩ := h.pending_not_taken hr hpending
  refine h.setRow hr huser hamount (fun _ h => h) (fun _ _ h => h) ?_ (fun hv => absurd hv hvoid)
    fun ht => absurd ht hnot
  intro hp
  rw [hcompleted] at hp
  cases hp

/-- The compare-and-set that rejects a pending row makes the withdrawal void. -/
theorem reject (h : Custody d st voids sweeps) {r r' : WithdrawalRecord U}
    (hr : d.rows r'.id = some r) (huser : r'.userId = r.userId)
    (hamount : r'.amountCents = r.amountCents) (hpending : r.status = .pending)
    (hrejected : r'.status = .rejected) :
    Custody (d.setRow r') st (insert r'.id voids) sweeps := by
  obtain ⟨hnot, hclean, -, -⟩ := h.pending_not_taken hr hpending
  refine h.setRow hr huser hamount (Set.subset_insert _ _) ?_ ?_ (fun _ => ⟨hclean, hrejected⟩)
    fun ht => absurd ht hnot
  · intro id hne hv
    exact hv.resolve_left hne
  · intro hp
    rw [hrejected] at hp
    cases hp

/-- A new row. -/
theorem hold (h : Custody d st voids sweeps) {r : WithdrawalRecord U} (hid : r.id = d.seq) :
    Custody { d.setRow r with seq := d.seq + 1 } st voids sweeps := by
  have hnone : d.rows r.id = none := by
    cases hx : d.rows r.id with
    | none => rfl
    | some x =>
      have := (h.row r.id x hx).2
      omega
  have hrows := rows_setRow d r
  have hkeep : ∀ id x, d.rows id = some x → (d.setRow r).rows id = some x := by
    intro id x hx
    rw [hrows, if_neg]
    · exact hx
    · rintro rfl
      rw [hnone] at hx
      cases hx
  refine ⟨?_, ?_, ?_, h.refund, h.reversal, h.sends, h.outcomes, h.refs, ?_, ?_, ?_, h.owner⟩
  · intro id x hx
    change (d.setRow r).rows id = some x at hx
    show x.id = id ∧ id < d.seq + 1
    rw [hrows] at hx
    split at hx
    · rename_i he
      cases hx
      exact ⟨he.symm, by omega⟩
    · have := h.row id x hx
      exact ⟨this.1, by omega⟩
  · intro id hp
    have hold : ∀ x, d.rows id = some x → x.status = .pending := fun x hx => hp x (hkeep id x hx)
    obtain ⟨hclean, hrefund, hnot⟩ := h.pending id hold
    exact ⟨⟨hclean.sends, hclean.outcomes, hclean.reversal, hclean.found⟩, hrefund, hnot⟩
  · intro id hv
    obtain ⟨hclean, x, hx, hrejected⟩ := h.void id hv
    exact ⟨⟨hclean.sends, hclean.outcomes, hclean.reversal, hclean.found⟩, x, hkeep id x hx, hrejected⟩
  · intro c hc
    obtain ⟨x, hx, hcu, hca⟩ := h.amount c hc
    exact ⟨x, hkeep _ x hx, hcu, hca⟩
  · intro k s hk
    obtain ⟨x, hx, hxu, hxa⟩ := h.known k s hk
    exact ⟨x, hkeep _ x hx, hxu, hxa⟩
  · intro k s hk
    refine (h.fits k s hk).mono ?_ (fun _ h => h) (fun _ h => h) (fun _ h => h) (fun _ h => h)
      (fun _ h => h) fun _ h => h
    intro ht
    obtain ⟨x, hx, hstatus⟩ := ht.resolved
    exact ⟨⟨x, hkeep _ x hx, hstatus⟩, ht.not_void⟩

/-! ## One query -/

/-- The task at an owning stage is the only one for its withdrawal. -/
theorem owns_taken (h : Custody d st voids sweeps) {k : ℕ} {s : Stage U} (hk : st k = some s)
    (howns : s.phase.owns) : Taken d voids s.id := by
  have hfit := h.fits k s hk
  unfold Stage.Fits at hfit
  rcases howns with hp | hp
  · rw [hp] at hfit
    exact hfit.1
  · rw [hp] at hfit
    exact hfit.1

/-- Nothing more to do is always a stage to be at. -/
theorem setDone (h : Custody d st voids sweeps) {k : ℕ} {s : Stage U} (hk : st k = some s) :
    Custody d (Function.update st k (some (s.to .done))) voids sweeps := by
  refine h.setStage (h.known k s hk) trivial ?_
  rintro (hp | hp)
  · cases hp
  · cases hp

theorem keepStage (h : Custody d st voids sweeps) {k : ℕ} {g : Option (Stage U)} (hk : st k = g) :
    Custody d (Function.update st k g) voids sweeps := by
  subst hk
  rwa [Function.update_eq_self]

/-- A query that fails before it takes effect. -/
theorem failed (h : Custody d st voids sweeps) {k : ℕ} {g : Option (Stage U)} (hk : st k = g)
    (q : Desk U) (e : WithdrawalError) :
    Custody d (Function.update st k (q.next (.error e) g)) voids sweeps := by
  have hdone : Custody d (Function.update st k (g.map fun s => s.to .done)) voids sweeps := by
    cases g with
    | none => exact h.keepStage hk
    | some s => exact h.setDone hk
  cases q with
  | send id a address => exact hdone
  | outcome id => exact hdone
  | markReversed id => exact hdone
  | find id => exact h.keepStage hk
  | findWithdrawal id => exact h.keepStage hk
  | hold u a dest => exact h.keepStage hk
  | setStatusIfPending id status audit => cases status <;> exact h.keepStage hk
  | rejectAndRefund id audit u a => exact h.keepStage hk
  | credit u a ref => exact h.keepStage hk
  | setAudit id audit => exact h.keepStage hk
  | listRecent => exact h.keepStage hk
  | notify => exact h.keepStage hk

/-- A completed row is taken: void withdrawals are rejected. -/
theorem completed_taken (h : Custody d st voids sweeps) {id : ℕ} {r : WithdrawalRecord U}
    (hr : d.rows id = some r) (hcompleted : r.status = .completed) : Taken d voids id := by
  refine ⟨⟨r, hr, by rw [hcompleted]; decide⟩, fun hv => ?_⟩
  obtain ⟨-, x, hx, hrejected⟩ := h.void id hv
  rw [hr] at hx
  cases hx
  rw [hcompleted] at hrejected
  cases hrejected

theorem resolve_id (r : WithdrawalRecord U) (status : WithdrawalStatus)
    (audit : WithdrawalResolution U) : (r.resolve status audit).id = r.id := rfl

theorem resolve_status (r : WithdrawalRecord U) (status : WithdrawalStatus)
    (audit : WithdrawalResolution U) : (r.resolve status audit).status = status := rfl

/-- A withdrawal is resolved from pending, or not at all. -/
theorem resolve_cases (d : WithdrawalDesk U) (id : ℕ) (status : WithdrawalStatus)
    (audit : WithdrawalResolution U) :
    d.resolve id status audit = none ∨ ∃ r, d.rows id = some r ∧ r.status = .pending ∧
      d.resolve id status audit =
        some (r.resolve status audit, d.setRow (r.resolve status audit)) := by
  unfold WithdrawalDesk.resolve
  split
  · exact .inl rfl
  · rename_i r hr
    split
    · rename_i hp
      exact .inr ⟨r, hr, hp, rfl⟩
    · exact .inl rfl

/-- Both what a query answers and an error after it took effect lead to a desk in order. -/
def Asked (d : WithdrawalDesk U) (st : ℕ → Option (Stage U)) (sweeps : ℕ → Bool) (k : ℕ) (q : Desk U)
    (reply : DeskReply) : Prop :=
  ∃ voids', ∀ a, (a = .ok (q.answer reply d).1 ∨ ∃ e, a = .error e) →
    Custody (q.answer reply d).2 (Function.update st k (q.next a (st k))) voids' sweeps

/-- A claimed withdrawal may be sent. -/
theorem send_asked (h : Custody d st voids sweeps) {k id amountCents : ℕ} {address : String}
    {s : Stage U} (hk : st k = some s) (hp : s.phase = .claimed) (hid : s.id = id)
    (reply : DeskReply) : Asked d st sweeps k (.send id amountCents address) reply := by
  subst hid
  have hfit := h.fits k s hk
  unfold Stage.Fits at hfit
  rw [hp] at hfit
  obtain ⟨htaken, hunsent, hunanswered⟩ := hfit
  -- no other operation has claimed it
  have hsent := (h.dropStage k).send htaken hunsent (by
    intro j t hj hclaimed hid
    by_cases hjk : j = k
    · subst hjk
      rw [Function.update_self] at hj
      cases hj
    · rw [Function.update_of_ne hjk] at hj
      exact hjk (h.owner j k t s hj hk (.inl hclaimed) (.inl hp) hid))
  have hnoOwner : ∀ j t, j ≠ k → Function.update st k none j = some t → t.phase.owns → t.id ≠ s.id := by
    intro j t hjk hj howns hid
    rw [Function.update_of_ne hjk] at hj
    exact hjk (h.owner j k t s hj hk howns (.inl hp) hid)
  refine ⟨voids, ?_⟩
  rintro a (rfl | ⟨e, rfl⟩)
  · have hset := hsent.setStage (k := k) (s := s.to .sending) (h.known k s hk)
      ⟨⟨htaken.resolved, htaken.not_void⟩, hunanswered⟩ fun _ => hnoOwner
    rw [Function.update_idem] at hset
    rw [hk]
    exact hset
  · have hset := hsent.setStage (k := k) (s := s.to .done) (h.known k s hk) trivial (by
      rintro (hd | hd)
      · cases hd
      · cases hd)
    rw [Function.update_idem] at hset
    rw [hk]
    exact hset

/-- The outcome of a send may be read. -/
theorem outcome_asked (h : Custody d st voids sweeps) {k id : ℕ} {s : Stage U} (hk : st k = some s)
    (hp : s.phase = .sending) (hid : s.id = id) (reply : DeskReply) :
    Asked d st sweeps k (.outcome id) reply := by
  subst hid
  have hfit := h.fits k s hk
  unfold Stage.Fits at hfit
  rw [hp] at hfit
  obtain ⟨htaken, hunanswered⟩ := hfit
  have hanswered := (h.dropStage k).outcome reply.payout htaken hunanswered (by
    intro j t hj howns hid
    by_cases hjk : j = k
    · subst hjk
      rw [Function.update_self] at hj
      cases hj
    · rw [Function.update_of_ne hjk] at hj
      exact hjk (h.owner j k t s hj hk howns (.inr hp) hid))
  have hdone : ∀ p, (p = .refused ∧ reply.payout.refused = true) ∨ p = .done →
      Custody { d with outcomes := d.outcomes ++ [(s.id, reply.payout)] }
        (Function.update st k (some (s.to p))) voids sweeps := by
    intro p hcase
    have hset := hanswered.setStage (k := k) (s := s.to p) (h.known k s hk) ?_ ?_
    · rwa [Function.update_idem] at hset
    · rcases hcase with ⟨rfl, hrefused⟩ | rfl
      · exact ⟨⟨htaken.resolved, htaken.not_void⟩, reply.payout, List.mem_append_right _ (by simp), hrefused⟩
      · trivial
    · rcases hcase with ⟨rfl, -⟩ | rfl
      all_goals rintro (hd | hd) <;> cases hd
  refine ⟨voids, ?_⟩
  rintro a (rfl | ⟨e, rfl⟩)
  · rw [hk]
    show Custody _ (Function.update st k (some (s.to (if reply.payout.refused then .refused else .done))))
      voids sweeps
    by_cases hrefused : reply.payout.refused = true
    · rw [if_pos hrefused]
      exact hdone .refused (.inl ⟨rfl, hrefused⟩)
    · rw [if_neg hrefused]
      exact hdone .done (.inr rfl)
  · rw [hk]
    exact hdone .done (.inr rfl)

/-- The compare-and-set: the operation claims the withdrawal, or makes it void. -/
theorem resolve_asked (h : Custody d st voids sweeps) {k id : ℕ} {status : WithdrawalStatus}
    {audit : WithdrawalResolution U} {s : Stage U} (hk : st k = some s) (hid : s.id = id)
    (hstatus : status ≠ .pending) (reply : DeskReply) :
    Asked d st sweeps k (.setStatusIfPending id status audit) reply := by
  subst hid
  rcases resolve_cases d s.id status audit with
    hnone | ⟨r, hr, hpending, hsome⟩
  · refine ⟨voids, ?_⟩
    rintro a (rfl | ⟨e, rfl⟩)
    · simp only [Desk.answer, hnone]
      cases status <;> exact h.keepStage rfl
    · simp only [Desk.answer, hnone]
      exact h.failed rfl _ e
  · have hrid : r.id = s.id := (h.row _ r hr).1
    have hr' : d.rows (r.resolve status audit).id = some r := by
      rw [resolve_id, hrid]
      exact hr
    obtain ⟨hnot, hclean, hrefund, hvoid⟩ := h.pending_not_taken hr hpending
    cases status with
    | pending => exact absurd rfl hstatus
    | completed =>
      have hdone := h.complete hr' rfl rfl hpending rfl
      have hself : (d.setRow (r.resolve .completed audit)).rows s.id =
          some (r.resolve .completed audit) := by
        rw [rows_setRow, resolve_id, hrid, if_pos rfl]
      refine ⟨voids, ?_⟩
      rintro a (rfl | ⟨e, rfl⟩)
      · simp only [Desk.answer, hsome, hk]
        refine hdone.setStage ?_ ?_ ?_
        · exact hdone.known k s hk
        · exact ⟨⟨⟨_, hself, by rw [resolve_status]; decide⟩, hvoid⟩, hclean.sends, hclean.outcomes⟩
        · -- nobody has a pending withdrawal in hand
          intro _ j t _ hj howns hid
          exact hnot (hid ▸ h.owns_taken hj howns)
      · simp only [Desk.answer, hsome]
        exact hdone.failed rfl _ e
    | rejected =>
      have hdone := h.reject hr' rfl rfl hpending rfl
      refine ⟨insert r.id voids, ?_⟩
      rintro a (rfl | ⟨e, rfl⟩)
      · simp only [Desk.answer, hsome, hk]
        refine hdone.setStage ?_ ?_ ?_
        · exact hdone.known k s hk
        · show s.id ∈ insert r.id voids
          rw [hrid]
          exact Set.mem_insert _ _
        · rintro (hd | hd)
          · cases hd
          · cases hd
      · simp only [Desk.answer, hsome]
        exact hdone.failed rfl _ e

/-- The reject's unit of work makes the withdrawal void and books its refund. -/
theorem rejectAndRefund_asked (h : Custody d st voids sweeps) {k id a : ℕ} {u : U}
    {audit : WithdrawalResolution U} (hk : st k = some ⟨.read, id, u, a⟩) (reply : DeskReply) :
    Asked d st sweeps k (.rejectAndRefund id audit u a) reply := by
  rcases resolve_cases d id .rejected audit with
    hnone | ⟨r, hr, hpending, hsome⟩
  · refine ⟨voids, ?_⟩
    rintro x (rfl | ⟨e, rfl⟩)
    · simp only [Desk.answer, hnone]
      exact h.keepStage rfl
    · simp only [Desk.answer, hnone]
      exact h.failed rfl _ e
  · have hrid : r.id = id := (h.row _ r hr).1
    have hr' : d.rows (r.resolve .rejected audit).id = some r := by
      rw [resolve_id, hrid]
      exact hr
    obtain ⟨x, hx, hxu, hxa⟩ := h.known k _ hk
    obtain rfl : r = x := by
      have hx' : d.rows id = some x := hx
      rw [hr] at hx'
      exact Option.some.inj hx'
    have hself : (d.setRow (r.resolve .rejected audit)).rows id = some (r.resolve .rejected audit) := by
      rw [rows_setRow, resolve_id, hrid, if_pos rfl]
    have hvoid : id ∈ insert (r.resolve .rejected audit).id voids := by
      rw [resolve_id, hrid]
      exact Set.mem_insert _ _
    have hbooked := (h.reject hr' rfl rfl hpending rfl).book (.refund id)
      ⟨_, hself, hxu.symm, hxa.symm, by rw [resolve_status]; decide⟩ (.inl hvoid)
    refine ⟨insert (r.resolve .rejected audit).id voids, ?_⟩
    rintro x (rfl | ⟨e, rfl⟩)
    · simp only [Desk.answer, hsome, hk]
      refine hbooked.setStage ?_ hvoid ?_
      · exact hbooked.known k ⟨.read, id, u, a⟩ hk
      · rintro (hd | hd)
        · cases hd
        · cases hd
    · simp only [Desk.answer, hsome]
      exact hbooked.failed rfl _ e

/-- A credit: the refund of a refused or void withdrawal, the reversal of a found one. -/
theorem credit_asked (h : Custody d st voids sweeps) {k a : ℕ} {u : U} (ref : RefundRef)
    {s : Stage U} (hk : st k = some s) (hs : s.id = ref.id ∧ s.userId = u ∧ s.amountCents = a)
    (hp : match ref with
      | .refund _ => s.phase = .refused ∨ s.phase = .voided
      | .reversal _ => s.phase = .found) (reply : DeskReply) :
    Asked d st sweeps k (.credit u a ref) reply := by
  obtain ⟨hid, hu, ha⟩ := hs
  obtain ⟨r, hr, hru, hra⟩ := h.known k s hk
  have hfit := h.fits k s hk
  unfold Stage.Fits at hfit
  rw [hid] at hr hfit
  have hrow : r.status ≠ .pending → ∃ r, d.rows ref.id = some r ∧ u = r.userId ∧ a = r.amountCents ∧
      r.status ≠ .pending := fun hpend => ⟨r, hr, by rw [hru, hu], by rw [hra, ha], hpend⟩
  have htaken : Taken d voids ref.id → r.status ≠ .pending := by
    intro ht
    obtain ⟨x, hx, hstatus⟩ := ht.resolved
    rw [hr] at hx
    cases hx
    exact hstatus
  -- the stage after the credit, and the refund or reversal that stands
  have hbooked : Custody (d.book u a ref) st voids sweeps ∧
      (s.to s.phase.credited).Fits (d.book u a ref) voids (sweeps k) := by
    have hmem : ref ∈ (d.book u a ref).refs := (refs_book d u a ref ref).mpr (.inr rfl)
    have hrows := d.book_rows u a ref
    have hkeep : Taken d voids ref.id → Taken (d.book u a ref) voids ref.id := by
      intro ht
      exact ⟨by rw [hrows]; exact ht.resolved, ht.not_void⟩
    unfold Stage.Fits
    rw [Stage.to_phase, Stage.to_id, hid]
    cases ref with
    | refund id =>
      rcases hp with hp | hp
      · rw [hp] at hfit ⊢
        exact ⟨h.book _ (hrow (htaken hfit.1)) (.inr hfit.2), hkeep hfit.1, hmem⟩
      · rw [hp] at hfit ⊢
        obtain ⟨-, x, hx, hrejected⟩ := h.void _ hfit
        have hpend : r.status ≠ .pending := by
          rw [hr] at hx
          cases hx
          rw [hrejected]
          decide
        exact ⟨h.book _ (hrow hpend) (.inl hfit), hfit⟩
    | reversal id =>
      rw [hp] at hfit ⊢
      exact ⟨h.book _ (hrow (htaken hfit.1)) hfit.2.1, hkeep hfit.1, hmem, hfit.2.2⟩
  refine ⟨voids, ?_⟩
  rintro x (rfl | ⟨e, rfl⟩)
  · rw [hk]
    refine hbooked.1.setStage (hbooked.1.known k s hk) hbooked.2 ?_
    intro howns
    have hnot : ¬ s.phase.credited.owns := by
      cases ref with
      | refund id =>
        rcases hp with hp | hp
        all_goals rw [hp]; rintro (hd | hd) <;> cases hd
      | reversal id => rw [hp]; rintro (hd | hd) <;> cases hd
    exact absurd howns hnot
  · exact hbooked.1.failed rfl _ e

/-- The reconciler may read any withdrawal. -/
theorem findWithdrawal_asked (h : Custody d st voids sweeps) {k : ℕ} (id : ℕ) (hsweeps : sweeps k = true)
    (reply : DeskReply) : Asked d st sweeps k (.findWithdrawal id) reply := by
  refine ⟨voids, ?_⟩
  cases hr : d.rows id with
  | none =>
    rintro a (rfl | ⟨e, rfl⟩)
    · simp only [Desk.answer, hr]
      exact h.dropStage k
    · simp only [Desk.answer, hr]
      exact h.failed rfl _ e
  | some r =>
    by_cases hc : r.status = .completed
    · have htaken := h.completed_taken hr hc
      rintro a (rfl | ⟨e, rfl⟩)
      · simp only [Desk.answer, hr, Desk.next, hc, if_true]
        refine (h.find htaken).setStage ⟨r, hr, rfl, rfl⟩ ?_ ?_
        · exact ⟨⟨htaken.resolved, htaken.not_void⟩, List.mem_append_right _ (by simp), hsweeps⟩
        · rintro (hd | hd)
          · cases hd
          · cases hd
      · simp only [Desk.answer, hr, hc, if_true]
        exact (h.find htaken).failed rfl _ e
    · rintro a (rfl | ⟨e, rfl⟩)
      · simp only [Desk.answer, hr, Desk.next, hc, if_false]
        exact h.dropStage k
      · simp only [Desk.answer, hr, hc, if_false]
        exact h.failed rfl _ e

/-- A reversal keeps custody. -/
theorem reversed (h : Custody d st voids sweeps) (id : ℕ) : Custody (d.reverse id) st voids sweeps := by
  unfold WithdrawalDesk.reverse
  split
  · exact h
  · rename_i r hr
    split
    · rename_i hc
      have hrid := (h.row id r hr).1
      refine h.touchRow (r := r) ?_ rfl rfl ?_ fun _ => rfl
      · show d.rows r.id = some r
        rw [hrid]
        exact hr
      · simp [hc]
    · exact h

/-- **Every query an operation may ask keeps the desk in order.** -/
theorem asked (h : Custody d st voids sweeps) (k : ℕ) (q : Desk U) (hmay : q.may (sweeps k) (st k))
    (reply : DeskReply) : Asked d st sweeps k q reply := by
  have hsame : ∀ {d'}, Custody d' st voids sweeps →
      Custody d' (Function.update st k (st k)) voids sweeps := fun h => h.keepStage rfl
  -- one case per query; those that move money or a status have a lemma of their own
  cases q with
  | send id amountCents address =>
    obtain ⟨s, hk, hp, hid⟩ := hmay
    exact h.send_asked hk hp hid reply
  | outcome id =>
    obtain ⟨s, hk, hp, hid⟩ := hmay
    exact h.outcome_asked hk hp hid reply
  | setStatusIfPending id status audit =>
    obtain ⟨hstatus, s, hk, -, hid⟩ := hmay
    exact h.resolve_asked hk hid hstatus reply
  | rejectAndRefund id audit u a => exact h.rejectAndRefund_asked hmay reply
  | credit u a ref =>
    cases ref with
    | refund id =>
      -- the provider refused the send, or an admin rejected the row
      rcases hmay with hk | hk
      · exact h.credit_asked (.refund id) hk ⟨rfl, rfl, rfl⟩ (.inl rfl) reply
      · exact h.credit_asked (.refund id) hk ⟨rfl, rfl, rfl⟩ (.inr rfl) reply
    | reversal id => exact h.credit_asked (.reversal id) hmay ⟨rfl, rfl, rfl⟩ rfl reply
  | findWithdrawal id => exact h.findWithdrawal_asked id hmay reply
  | markReversed id =>
    obtain ⟨s, hk, -, -⟩ := hmay
    refine ⟨voids, ?_⟩
    rintro a (rfl | ⟨e, rfl⟩)
    · rw [hk]
      exact (h.reversed id).setDone hk
    · rw [hk]
      exact (h.reversed id).setDone hk
  -- a read decides the next stage from the row it found
  | find id =>
    refine ⟨voids, ?_⟩
    rintro a (rfl | ⟨e, rfl⟩)
    · show Custody d (Function.update st k ((Desk.find id).next (.ok (d.rows id)) (st k))) voids sweeps
      cases hr : d.rows id with
      | none => exact hsame h
      | some r =>
        refine h.setStage ⟨r, hr, rfl, rfl⟩ trivial ?_
        rintro (hd | hd)
        · cases hd
        · cases hd
    · exact hsame h
  | hold u a destination =>
    refine ⟨voids, ?_⟩
    cases hf : reply.funded with
    | true =>
      rintro x (rfl | ⟨e, rfl⟩)
      · simp only [Desk.answer, hf, if_true]
        exact hsame (h.hold rfl)
      · simp only [Desk.answer, hf, if_true]
        exact hsame (h.hold rfl)
    | false =>
      rintro x (rfl | ⟨e, rfl⟩)
      · simp only [Desk.answer, hf]
        exact hsame h
      · simp only [Desk.answer, hf]
        exact hsame h
  | setAudit id audit =>
    -- the audit columns are outside of the invariant
    have hstamp : Custody ((Desk.setAudit id audit).answer reply d).2 st voids sweeps := by
      simp only [Desk.answer]
      cases hr : d.rows id with
      | none => exact h
      | some r =>
        have hrid := (h.row id r hr).1
        refine h.touchRow (r := r) ?_ rfl rfl Iff.rfl fun h => h
        show d.rows r.id = some r
        rw [hrid]
        exact hr
    refine ⟨voids, ?_⟩
    rintro a (rfl | ⟨e, rfl⟩)
    · exact hsame hstamp
    · exact hsame hstamp
  | listRecent =>
    refine ⟨voids, ?_⟩
    rintro a (rfl | ⟨e, rfl⟩)
    · exact hsame h
    · exact hsame h
  | notify =>
    refine ⟨voids, ?_⟩
    rintro a (rfl | ⟨e, rfl⟩)
    · exact hsame h
    · exact hsame h

end Custody

end Murlan
