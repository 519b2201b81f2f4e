import Murlan.Base.Async

/-!
# Loops over independent items

A program that works through a list of items, one after the other, and is ended by the first that
throws. Each item is about one row and touches no other.

* `Checks`: a program that throws exactly if something is bad.
* `Isolated.exec`: which rows such a loop closes, and when it ends.
* `RowLoop`: the loop in terms of the rows it reads, `RowLoop.isolated`.
-/

namespace Murlan

namespace Async

variable {Q : Type} {R : Q → Type} {E α β : Type} {σ : Type*} {answer : (q : Q) → σ → Except E (R q) × σ}

/-- The program ends, or throws if `bad` holds; the state stays the same up to `Same`. -/
def Checks (answer : (q : Q) → σ → Except E (R q) × σ) (Same : σ → σ → Prop) (bad : Prop) (p : Async Q R E Unit) (s : σ) :
    Prop :=
  ∃ s', Same s s' ∧ ((¬bad ∧ p.exec answer s = (.ok (), s')) ∨ (bad ∧ ∃ e, p.exec answer s = (.error e, s')))

namespace Checks

variable {Same : σ → σ → Prop} {bad bad' : Prop} {p : Async Q R E Unit} {s : σ}

theorem ends {s' : σ} (h : p.exec answer s = (.ok (), s')) (hsame : Same s s') (hbad : ¬bad) : Checks answer Same bad p s :=
  ⟨s', hsame, Or.inl ⟨hbad, h⟩⟩

theorem throws {e : E} {s' : σ} (h : p.exec answer s = (.error e, s')) (hsame : Same s s') (hbad : bad) :
    Checks answer Same bad p s :=
  ⟨s', hsame, Or.inr ⟨hbad, e, h⟩⟩

theorem congr (h : Checks answer Same bad p s) (hbad : bad ↔ bad') : Checks answer Same bad' p s := by
  obtain ⟨s', hsame, ⟨hno, hrun⟩ | ⟨hyes, e, hrun⟩⟩ := h
  · exact ends hrun hsame fun h => hno (hbad.mpr h)
  · exact throws hrun hsame (hbad.mp hyes)

/-- A loop of checks throws if one of them does. -/
theorem forM (hrefl : ∀ s, Same s s) (htrans : ∀ s₁ s₂ s₃, Same s₁ s₂ → Same s₂ s₃ → Same s₁ s₃)
    {f : α → Async Q R E Unit} {Bad : α → Prop} (hf : ∀ x s, Checks answer Same (Bad x) (f x) s) (xs : List α) (s : σ) :
    Checks answer Same (∃ x ∈ xs, Bad x) (xs.forM f) s := by
  induction xs generalizing s with
  | nil => exact ends (p := List.forM [] f) rfl (hrefl s) (by simp)
  | cons x xs ih =>
    have hloop : ((x :: xs).forM f).exec answer s = (f x >>= fun _ => xs.forM f).exec answer s := rfl
    obtain ⟨s₁, hsame, ⟨hx, hrun⟩ | ⟨hx, e, hrun⟩⟩ := hf x s
    · obtain ⟨s₂, hsame₂, ⟨hxs, hrest⟩ | ⟨hxs, e, hrest⟩⟩ := ih s₁
      · refine ends (hloop.trans ((exec_bind_ok hrun _).trans hrest)) (htrans _ _ _ hsame hsame₂) ?_
        rintro ⟨y, hy, hbad⟩
        rcases List.mem_cons.mp hy with rfl | hy
        · exact hx hbad
        · exact hxs ⟨y, hy, hbad⟩
      · obtain ⟨y, hy, hbad⟩ := hxs
        exact throws (hloop.trans ((exec_bind_ok hrun _).trans hrest)) (htrans _ _ _ hsame hsame₂)
          ⟨y, List.mem_cons_of_mem x hy, hbad⟩
    · exact throws (hloop.trans (exec_bind_error hrun _)) hsame ⟨x, List.mem_cons_self, hx⟩

end Checks

/-- How a loop sees its items: which row an item is about, which items it acts on, and which open rows make it throw. -/
structure Items (α ι σ : Type*) where
  key : α → ι
  Eligible : α → Prop
  Open : ι → σ → Prop
  Bad : ι → σ → Prop

namespace Items

variable {ι : Type*} (I : Items α ι σ) {s s' : σ} {k : ι} {x : α} {xs : List α}

/-- An item that does not make the loop throw. -/
def Fine (x : α) (s : σ) : Prop := I.Eligible x → I.Open (I.key x) s → ¬I.Bad (I.key x) s

/-- The row is that of an eligible item up to which no item makes the loop throw. -/
def Reached (s : σ) (xs : List α) (k : ι) : Prop :=
  ∃ before x after, xs = before ++ x :: after ∧ I.key x = k ∧ I.Eligible x ∧ ∀ y ∈ before ++ [x], I.Fine y s

variable {I}

theorem not_reached_nil : ¬I.Reached s [] k := by
  rintro ⟨before, x, after, hxs, -⟩
  simp at hxs

/-- An item further on is reached when the first lets the loop pass. -/
theorem reached_cons : I.Reached s (x :: xs) k ↔ I.Fine x s ∧ ((I.key x = k ∧ I.Eligible x) ∨ I.Reached s xs k) := by
  constructor
  · rintro ⟨before, y, after, hxs, hkey, heligible, hfine⟩
    cases before with
    | nil =>
      obtain ⟨rfl, -⟩ := List.cons.inj hxs
      exact ⟨hfine x List.mem_cons_self, .inl ⟨hkey, heligible⟩⟩
    | cons z before =>
      obtain ⟨rfl, hrest⟩ := List.cons.inj hxs
      refine ⟨hfine x List.mem_cons_self, .inr ⟨before, y, after, hrest, hkey, heligible, fun w hw => ?_⟩⟩
      exact hfine w (List.mem_cons_of_mem x hw)
  · rintro ⟨hx, ⟨hkey, heligible⟩ | ⟨before, y, after, rfl, hkey, heligible, hfine⟩⟩
    · refine ⟨[], x, xs, rfl, hkey, heligible, fun w hw => ?_⟩
      rw [List.mem_singleton.mp hw]
      exact hx
    · refine ⟨x :: before, y, after, rfl, hkey, heligible, fun w hw => ?_⟩
      rcases List.mem_cons.mp hw with rfl | hw
      · exact hx
      · exact hfine w hw

/-- A loop whose items are all fine reaches each of them. -/
theorem reached_of_fine (h : ∀ x ∈ xs, I.Fine x s) : I.Reached s xs k ↔ ∃ x ∈ xs, I.key x = k ∧ I.Eligible x := by
  induction xs with
  | nil => exact ⟨fun hno => absurd hno not_reached_nil, fun ⟨x, hx, _⟩ => by cases hx⟩
  | cons x xs ih =>
    have hrest := ih fun y hy => h y (List.mem_cons_of_mem x hy)
    have hx : I.Fine x s := h x List.mem_cons_self
    rw [reached_cons, hrest]
    simp [hx]

theorem reached_congr (h : ∀ y, I.Fine y s ↔ I.Fine y s') : I.Reached s xs k ↔ I.Reached s' xs k := by
  unfold Reached
  simp only [h]

end Items

/-- One item of a loop. An item is due if it is eligible and its row is open: then its row is closed, or the loop throws
and closes nothing; no other row is touched. `Known` is what the item has read of its row; `reports` says whether the loop
returns what it has closed and nothing else. -/
structure Isolated {ι : Type*} (answer : (q : Q) → σ → Except E (R q) × σ) (f : β → α → Async Q R E β) (add : β → ι → β)
    (reports : Prop) (I : Items α ι σ) (Known : α → σ → Prop) : Prop where
  skips : ∀ b x s, Known x s → ¬(I.Eligible x ∧ I.Open (I.key x) s) → ∃ b' s', (f b x).exec answer s = (.ok b', s') ∧
    (reports → b' = b) ∧ (∀ k, I.Open k s' ↔ I.Open k s) ∧ (∀ k, I.Bad k s' ↔ I.Bad k s) ∧ ∀ y, Known y s → Known y s'
  closes : ∀ b x s, Known x s → I.Eligible x → I.Open (I.key x) s → ¬I.Bad (I.key x) s →
    ∃ s', (f b x).exec answer s = (.ok (add b (I.key x)), s') ∧ (∀ k, I.Open k s' ↔ I.Open k s ∧ k ≠ I.key x) ∧
      (∀ k, k ≠ I.key x → (I.Bad k s' ↔ I.Bad k s)) ∧ ∀ y, Known y s → Known y s'
  fails : ∀ b x s, Known x s → I.Eligible x → I.Open (I.key x) s → I.Bad (I.key x) s →
    ∃ e s', (f b x).exec answer s = (.error e, s') ∧ (∀ k, I.Open k s' ↔ I.Open k s) ∧ ∀ k, I.Bad k s' ↔ I.Bad k s

/-- **A loop that throws at the first failing item.** It ends exactly if all its items are fine, and closes exactly the rows
it reaches. -/
theorem Isolated.exec {ι : Type*} {f : β → α → Async Q R E β} {add : β → ι → β} {reports : Prop} {I : Items α ι σ}
    {Known : α → σ → Prop} (h : Isolated answer f add reports I Known) (xs : List α) (b : β) (s : σ)
    (hknown : ∀ x ∈ xs, Known x s) :
    ∃ r s', (xs.foldlM f b).exec answer s = (r, s') ∧
      ((∃ b', r = .ok b') ↔ ∀ x ∈ xs, I.Fine x s) ∧
      (reports → ∀ b', r = .ok b' →
        ∃ closed, b' = List.foldl add b closed ∧ ∀ k, k ∈ closed ↔ I.Open k s ∧ ¬I.Open k s') ∧
      (∀ k, I.Open k s' ↔ I.Open k s ∧ ¬I.Reached s xs k) ∧ ∀ k, I.Open k s' → (I.Bad k s' ↔ I.Bad k s) := by
  induction xs generalizing b s with
  | nil =>
    refine ⟨.ok b, s, rfl, ⟨fun _ x hx => (by cases hx), fun _ => ⟨b, rfl⟩⟩, fun _ b' hb' => ⟨[], ?_, fun k => ?_⟩, fun k => ?_,
      fun _ _ => Iff.rfl⟩
    · exact (Except.ok.inj hb').symm
    · simp
    · exact ⟨fun hopen => ⟨hopen, Items.not_reached_nil⟩, fun hopen => hopen.1⟩
  | cons x xs ih =>
    have hx := hknown x List.mem_cons_self
    by_cases hdue : I.Eligible x ∧ I.Open (I.key x) s
    · obtain ⟨heligible, hopen⟩ := hdue
      by_cases hbad : I.Bad (I.key x) s
      · -- the loop ends here
        obtain ⟨e, s₁, hrun, hsame, hbads⟩ := h.fails b x s hx heligible hopen hbad
        have hnot : ¬I.Fine x s := fun hfine => hfine heligible hopen hbad
        refine ⟨.error e, s₁, ?_, ⟨?_, fun hall => absurd (hall x List.mem_cons_self) hnot⟩, fun _ b' hb' => ?_, fun k => ?_,
          fun k _ => hbads k⟩
        · rw [List.foldlM_cons]
          exact exec_bind_error hrun _
        · rintro ⟨b', hb'⟩
          cases hb'
        · cases hb'
        · rw [hsame k, Items.reached_cons]
          exact ⟨fun ho => ⟨ho, fun hreached => hnot hreached.1⟩, fun ho => ho.1⟩
      · obtain ⟨s₁, hrun, hopens, hbads, hknows⟩ := h.closes b x s hx heligible hopen hbad
        have hfine : I.Fine x s := fun _ _ => hbad
        -- the item is closed: for the items behind it nothing else has changed
        have hfines : ∀ y, I.Fine y s ↔ I.Fine y s₁ := by
          intro y
          by_cases hkey : I.key y = I.key x
          · refine ⟨fun _ _ ho => ?_, fun _ _ _ => hkey ▸ hbad⟩
            exact absurd hkey ((hopens _).mp ho).2
          · unfold Items.Fine
            rw [hopens, hbads _ hkey]
            exact ⟨fun hy he ho => hy he ho.1, fun hy he ho => hy he ⟨ho, hkey⟩⟩
        obtain ⟨r, s', hrest, hok, hret, hclosed, hstays⟩ := ih (add b (I.key x)) s₁ fun y hy =>
          hknows y (hknown y (List.mem_cons_of_mem x hy))
        have hall : (∀ y ∈ x :: xs, I.Fine y s) ↔ ∀ y ∈ xs, I.Fine y s₁ := by
          rw [List.forall_mem_cons]
          exact ⟨fun hxs y hy => (hfines y).mp (hxs.2 y hy), fun hxs => ⟨hfine, fun y hy => (hfines y).mpr (hxs y hy)⟩⟩
        refine ⟨r, s', ?_, hok.trans hall.symm, fun hreports b' hb' => ?_, fun k => ?_, fun k hk => ?_⟩
        · rw [List.foldlM_cons]
          exact (exec_bind_ok hrun _).trans hrest
        · obtain ⟨closed, hb, hmem⟩ := hret hreports b' hb'
          refine ⟨I.key x :: closed, hb, fun k => ?_⟩
          rw [List.mem_cons, hmem, hclosed, hopens]
          by_cases hk : k = I.key x
          · subst hk
            simp [hopen]
          · simp [hk]
        · rw [hclosed, hopens, Items.reached_cons, ← Items.reached_congr hfines]
          by_cases hk : k = I.key x
          · subst hk
            simp [hfine, heligible]
          · have hne : I.key x ≠ k := fun heq => hk heq.symm
            simp [hk, hne, hfine]
        · have hne : k ≠ I.key x := ((hopens k).mp ((hclosed k).mp hk).1).2
          rw [hstays k hk, hbads k hne]
    -- the item is passed over
    · obtain ⟨b₁, s₁, hrun, hsaid, hopens, hbads, hknows⟩ := h.skips b x s hx hdue
      have hfine : I.Fine x s := fun he ho => absurd ⟨he, ho⟩ hdue
      have hfines : ∀ y, I.Fine y s ↔ I.Fine y s₁ := by
        intro y
        unfold Items.Fine
        rw [hopens, hbads]
      obtain ⟨r, s', hrest, hok, hret, hclosed, hstays⟩ := ih b₁ s₁ fun y hy => hknows y (hknown y (List.mem_cons_of_mem x hy))
      have hall : (∀ y ∈ x :: xs, I.Fine y s) ↔ ∀ y ∈ xs, I.Fine y s₁ := by
        rw [List.forall_mem_cons]
        exact ⟨fun hxs y hy => (hfines y).mp (hxs.2 y hy), fun hxs => ⟨hfine, fun y hy => (hfines y).mpr (hxs y hy)⟩⟩
      refine ⟨r, s', ?_, hok.trans hall.symm, fun hreports b' hb' => ?_, fun k => ?_, fun k hk => ?_⟩
      · rw [List.foldlM_cons]
        exact (exec_bind_ok hrun _).trans hrest
      · obtain ⟨closed, hb, hmem⟩ := hret hreports b' hb'
        rw [hsaid hreports] at hb
        refine ⟨closed, hb, fun k => ?_⟩
        rw [hmem, hopens]
      · rw [hclosed, hopens, Items.reached_cons, ← Items.reached_congr hfines]
        by_cases hk : I.key x = k ∧ I.Eligible x
        · -- an eligible item that is not due is about a closed row
          have hclosedRow : ¬I.Open k s := fun ho => hdue ⟨hk.2, hk.1 ▸ ho⟩
          simp [hclosedRow]
        · simp [hk, hfine]
      · rw [hstays k hk, hbads]

/-! ### Passes -/

namespace Items

variable {ι : Type*} (I : Items α ι σ) (xs : List α) (s s' : σ)

/-- An item that the loop has to close. -/
def Due (x : α) : Prop := I.Eligible x ∧ I.Open (I.key x) s

/-- An item that it has to close and can. -/
def Closable (x : α) : Prop := I.Due s x ∧ ¬I.Bad (I.key x) s

/-- Some item makes the loop throw. -/
def Fails : Prop := ∃ x ∈ xs, I.Due s x ∧ I.Bad (I.key x) s

/-- The loop gets to every item that it can close. -/
def Clear : Prop := ∀ x ∈ xs, I.Closable s x → I.Reached s xs (I.key x)

/-- The loop has nothing to close. -/
def Idle : Prop := ∀ x ∈ xs, ¬I.Closable s x

/-- It gets to them, unless it is stopped before it starts; then there are none. -/
def ClearBehind (stopped : Prop) : Prop := (stopped → I.Idle xs s) ∧ (¬stopped → I.Clear xs s)

/-- What the loop could close from `s` is closed in `s'`. -/
def Recovered : Prop := ∀ x ∈ xs, I.Closable s x → ¬I.Open (I.key x) s'

variable {I xs s s'}

theorem recovered_same : I.Recovered xs s s ↔ I.Idle xs s :=
  ⟨fun h x hx hc => h x hx hc hc.1.2, fun h x hx hc => absurd hc (h x hx)⟩

theorem recovered_iff_clear (h : ∀ k, I.Open k s' ↔ I.Open k s ∧ ¬I.Reached s xs k) :
    I.Recovered xs s s' ↔ I.Clear xs s := by
  unfold Recovered Clear
  refine forall₃_congr fun x _ hc => ?_
  rw [h]
  simp [hc.1.2]

/-- Everything closable is closed exactly if the loop gets to it, or never starts with nothing to close. -/
theorem recovered_iff_clearBehind {stopped : Prop} (hstop : stopped → s' = s)
    (h : ¬stopped → ∀ k, I.Open k s' ↔ I.Open k s ∧ ¬I.Reached s xs k) :
    I.Recovered xs s s' ↔ I.ClearBehind xs s stopped := by
  unfold ClearBehind
  by_cases hs : stopped
  · rw [hstop hs, recovered_same]
    simp [hs]
  · rw [recovered_iff_clear (h hs)]
    simp [hs]

theorem fails_iff : I.Fails xs s ↔ ¬∀ x ∈ xs, I.Fine x s := by
  unfold Fails Fine Due
  simp only [not_forall, not_not, exists_prop, and_assoc]

/-- A loop that nothing makes throw gets to everything. -/
theorem clear_of_fine (h : ∀ x ∈ xs, I.Fine x s) : I.Clear xs s := fun x hx hc =>
  (reached_of_fine h).mpr ⟨x, hx, rfl, hc.1.1⟩

/-- A failing item is open afterwards. -/
theorem not_reached_of_bad {x : α} (hx : I.Due s x) (hbad : I.Bad (I.key x) s) : ¬I.Reached s xs (I.key x) := by
  rintro ⟨before, y, after, -, hkey, heligible, hfine⟩
  exact hfine y (by simp) heligible (hkey ▸ hx.2) (hkey ▸ hbad)

end Items

/-- A loop run to its end from `s`: whether it has ended, and what it leaves. -/
structure Passed {ι : Type*} (I : Items α ι σ) (xs : List α) (s s' : σ) (ok : Bool) : Prop where
  ok_iff : ok = true ↔ ¬I.Fails xs s
  left : ∀ k, I.Open k s' ↔ I.Open k s ∧ ¬I.Reached s xs k
  stays : ∀ k, I.Open k s' → (I.Bad k s' ↔ I.Bad k s)

theorem Isolated.passed {ι : Type*} {f : β → α → Async Q R E β} {add : β → ι → β} {reports : Prop} {I : Items α ι σ}
    {Known : α → σ → Prop} (h : Isolated answer f add reports I Known) (xs : List α) (b : β) (s : σ)
    (hknown : ∀ x ∈ xs, Known x s) :
    Passed I xs s ((xs.foldlM f b).exec answer s).2 ((xs.foldlM f b).exec answer s).1.isOk := by
  obtain ⟨r, s', hrun, hok, -, hleft, hstays⟩ := h.exec xs b s hknown
  rw [hrun]
  refine ⟨?_, hleft, hstays⟩
  rw [Items.fails_iff, not_not, ← hok]
  cases r with
  | ok b' => simp [Except.isOk, Except.toBool]
  | error e => simp [Except.isOk, Except.toBool]

/-! ### Loops over rows -/

variable {ι ρ : Type*}

/-- The rows that are due, and those that are stuck. -/
def rowItems (rows : σ → ι → Option ρ) (key : α → ι) (Eligible : α → Prop) (Due Stuck : ρ → Prop) : Items α ι σ where
  key := key
  Eligible := Eligible
  Open k s := ∃ r, rows s k = some r ∧ Due r
  Bad k s := ∃ r, rows s k = some r ∧ Stuck r

/-- One item of a loop reads its row: a row that is due is replaced by one that is not, or it is stuck. -/
structure RowLoop (answer : (q : Q) → σ → Except E (R q) × σ) (rows : σ → ι → Option ρ) (f : β → α → Async Q R E β)
    (add : β → ι → β) (reports : Prop) (key : α → ι) (Eligible : α → Prop) (Due Stuck : ρ → Prop)
    (Known : α → σ → Prop) : Prop where
  skips : ∀ b x s, Known x s → ¬(Eligible x ∧ ∃ r, rows s (key x) = some r ∧ Due r) →
    ∃ b', (f b x).exec answer s = (.ok b', s) ∧ (reports → b' = b)
  closes : ∀ b x s r, Known x s → Eligible x → rows s (key x) = some r → Due r → ¬Stuck r →
    ∃ s' r', (f b x).exec answer s = (.ok (add b (key x)), s') ∧ ¬Due r' ∧
      (∀ k, k ≠ key x → rows s' k = rows s k) ∧ rows s' (key x) = some r' ∧ ∀ y, Known y s → Known y s'
  fails : ∀ b x s r, Known x s → Eligible x → rows s (key x) = some r → Due r → Stuck r →
    ∃ e s', (f b x).exec answer s = (.error e, s') ∧ ∀ k, rows s' k = rows s k

theorem RowLoop.isolated {rows : σ → ι → Option ρ} {f : β → α → Async Q R E β} {add : β → ι → β} {reports : Prop}
    {key : α → ι} {Eligible : α → Prop} {Due Stuck : ρ → Prop} {Known : α → σ → Prop}
    (h : RowLoop answer rows f add reports key Eligible Due Stuck Known) :
    Isolated answer f add reports (rowItems rows key Eligible Due Stuck) Known := by
  refine ⟨fun b x s hx hdue => ?_, fun b x s hx hel hopen hbad => ?_, fun b x s hx hel hopen hbad => ?_⟩
  · obtain ⟨b', hrun, hsaid⟩ := h.skips b x s hx hdue
    exact ⟨b', s, hrun, hsaid, fun _ => Iff.rfl, fun _ => Iff.rfl, fun _ hy => hy⟩
  · obtain ⟨r, hrow, hdue⟩ := hopen
    obtain ⟨s', r', hrun, hdone, hothers, hown, hknows⟩ :=
      h.closes b x s r hx hel hrow hdue fun hstuck => hbad ⟨r, hrow, hstuck⟩
    refine ⟨s', hrun, fun k => ?_, fun k hk => ?_, hknows⟩
    · by_cases hk : k = key x
      · subst hk
        refine ⟨?_, fun ho => absurd rfl ho.2⟩
        rintro ⟨r'', hrow', hdue'⟩
        rw [hown] at hrow'
        cases hrow'
        exact absurd hdue' hdone
      · show (∃ r, rows s' k = some r ∧ Due r) ↔ (∃ r, rows s k = some r ∧ Due r) ∧ k ≠ key x
        rw [hothers k hk]
        exact ⟨fun ho => ⟨ho, hk⟩, fun ho => ho.1⟩
    · show (∃ r, rows s' k = some r ∧ Stuck r) ↔ ∃ r, rows s k = some r ∧ Stuck r
      rw [hothers k hk]
  · obtain ⟨r, hrow, hdue⟩ := hopen
    obtain ⟨r', hrow', hstuck⟩ := hbad
    have hsame : r = r' := Option.some.inj (hrow.symm.trans hrow')
    subst hsame
    obtain ⟨e, s', hrun, hothers⟩ := h.fails b x s r hx hel hrow hdue hstuck
    refine ⟨e, s', hrun, fun k => ?_, fun k => ?_⟩
    · show (∃ r, rows s' k = some r ∧ Due r) ↔ ∃ r, rows s k = some r ∧ Due r
      rw [hothers k]
    · show (∃ r, rows s' k = some r ∧ Stuck r) ↔ ∃ r, rows s k = some r ∧ Stuck r
      rw [hothers k]

end Async

end Murlan
