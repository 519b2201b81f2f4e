import Murlan.Base.Batch
import Murlan.Proof.Reports
import Murlan.Spec.Sweeps

/-!
# Stale tournaments

The sweep of tournaments with either repository.

* `sweepOne_rowLoop`: what the sweep does of one tournament.
* `stale_sweep_covers_iff`: which stale tournaments are voided in a sweep where nothing fails.
-/

namespace Murlan

variable {U M : Type}

/-! ## Stale tournaments -/

section Rows

variable {w w' : Tournaments U} {t t' : Tournament U}

/-- The rows are the same, and so is the next id. -/
def Tournaments.SameRows (w w' : Tournaments U) : Prop := w'.rows = w.rows ∧ w'.seq = w.seq

theorem Numbered.same (h : Numbered w) (hsame : Tournaments.SameRows w w') : Numbered w' := by
  intro k t hk
  rw [hsame.1] at hk
  rw [hsame.2]
  exact h k t hk

/-- A refund of the tournament is refused. -/
def Tournament.Stuck (refused : TournamentRef U → Bool) (t : Tournament U) : Prop :=
  0 < t.buyInCents ∧ ∃ u ∈ t.playerIds, refused (.refund t.id u) = true

/-- A tournament that the sweep has to void. -/
def Tournament.Stale (cutoff : ℤ) (t : Tournament U) : Prop := t.status.sweepable = true ∧ t.createdAt ≤ cutoff

/-- The loop of `sweepStale`. -/
abbrev tournamentItems (refused : TournamentRef U → Bool) (cutoff : ℤ) : Async.Items (Tournament U) ℕ (Tournaments U) :=
  Async.rowItems Tournaments.rows Tournament.id (Tournament.Stale cutoff) (Tournament.Stale cutoff) (Tournament.Stuck refused)

/-- The row of a listed tournament was created when the list says. -/
def Tournaments.Lists (x : Tournament U) (w : Tournaments U) : Prop :=
  Numbered w ∧ ∀ t, w.rows x.id = some t → t.createdAt = x.createdAt

end Rows

section Tournaments

variable {w w' : Tournaments U} {t x : Tournament U} {cutoff : ℤ} {refused : TournamentRef U → Bool}
  {rep : (q : TournamentQuery U) → Tournaments U → Except TournamentError q.Answer × Tournaments U}

/-- The queries of the loop; a credit may be refused. -/
structure Tournaments.Credits (refused : TournamentRef U → Bool)
    (rep : (q : TournamentQuery U) → Tournaments U → Except TournamentError q.Answer × Tournaments U)
    (pay : TournamentRef U → ℕ → Tournaments U → Tournaments U) : Prop where
  get : ∀ id w, rep (.get id) w = (.ok (w.rows id), w)
  save : ∀ t w, rep (.save t) w = (.ok (), w.setRow t)
  credit : ∀ u a ref w, rep (.credit u a ref) w = if refused ref then (.error .store, w) else (.ok (), pay ref a w)
  rows : ∀ ref a w, (pay ref a w).rows = w.rows
  seq : ∀ ref a w, (pay ref a w).seq = w.seq

variable {pay : TournamentRef U → ℕ → Tournaments U → Tournaments U}

/-- The refunds go through, or one of them is refused; the rows stay. -/
theorem refundAll_checks (hrep : Tournaments.Credits refused rep pay) (t : Tournament U) (w : Tournaments U) :
    Async.Checks rep Tournaments.SameRows (t.Stuck refused) (TournamentService.refundAll t) w := by
  unfold TournamentService.refundAll
  by_cases hbuy : 0 < t.buyInCents
  · rw [if_pos hbuy]
    have hone : ∀ u w, Async.Checks rep Tournaments.SameRows (refused (.refund t.id u) = true)
        (TournamentService.credit u t.buyInCents (.refund t.id u)) w := by
      intro u w
      have hcredit := hrep.credit u t.buyInCents (.refund t.id u) w
      by_cases hno : refused (.refund t.id u) = true
      · rw [if_pos hno] at hcredit
        exact .throws ((Async.exec_await _ w).trans hcredit) ⟨rfl, rfl⟩ hno
      · rw [if_neg hno] at hcredit
        exact .ends ((Async.exec_await _ w).trans hcredit) ⟨hrep.rows _ _ _, hrep.seq _ _ _⟩ hno
    refine (Async.Checks.forM (fun _ => ⟨rfl, rfl⟩) (fun _ _ _ h h' => ⟨h'.1.trans h.1, h'.2.trans h.2⟩) hone
      t.playerIds w).congr ?_
    exact ⟨fun h => ⟨hbuy, h⟩, fun h => h.2⟩
  · rw [if_neg hbuy]
    exact .ends rfl ⟨rfl, rfl⟩ fun h => hbuy h.1

/-- A stale tournament is read again. -/
theorem sweepOne_read (hrep : Tournaments.Credits refused rep pay) (ids : List ℕ) (hx : x.Stale cutoff) (w : Tournaments U) :
    (TournamentService.sweepOne cutoff ids x).exec rep w =
      match w.rows x.id with
      | none => (.ok ids, w)
      | some t =>
        if !t.status.sweepable then (.ok ids, w)
        else (TournamentService.refundAll t >>= fun _ => TournamentService.save t.cancelled >>= fun _ =>
          pure (ids ++ [t.id])).exec rep w := by
  have hget : (TournamentService.get x.id : Organiser U _).exec rep w = (.ok (w.rows x.id), w) := by
    unfold TournamentService.get
    rw [Async.exec_await, hrep.get]
  unfold TournamentService.sweepOne
  rw [if_neg (by simp [hx.1, hx.2]), Async.exec_bind_ok hget]
  cases w.rows x.id with
  | none => rfl
  | some t =>
    simp only
    split
    · rfl
    · rfl

/-- **One tournament of the sweep.** -/
theorem sweepOne_rowLoop (hrep : Tournaments.Credits refused rep pay) (cutoff : ℤ) :
    Async.RowLoop rep Tournaments.rows (TournamentService.sweepOne cutoff) (fun ids k => ids ++ [k]) True Tournament.id
      (Tournament.Stale cutoff) (Tournament.Stale cutoff) (Tournament.Stuck refused) Tournaments.Lists := by
  refine ⟨fun ids x w hw hdue => ⟨ids, ?_, fun _ => rfl⟩, fun ids x w t hw hx hrow hsweep hfree => ?_,
    fun ids x w t hw hx hrow hsweep hstuck => ?_⟩
  -- nothing to do: the row read again is closed by now, or it was too young to begin with
  · by_cases hx : x.Stale cutoff
    · rw [sweepOne_read hrep ids hx]
      cases hrow : w.rows x.id with
      | none => rfl
      | some t =>
        have hclosed : t.status.sweepable = false := by
          by_contra hno
          exact hdue ⟨hx, t, hrow, by simpa using hno, (hw.2 t hrow).trans_le hx.2⟩
        simp only [hclosed, Bool.not_false, if_true]
    · unfold TournamentService.sweepOne
      have hno : !x.status.sweepable ∨ cutoff < x.createdAt := by
        by_contra hno
        push Not at hno
        exact hx ⟨by simpa using hno.1, hno.2⟩
      rw [if_pos hno]
      rfl
  -- every refund goes through, and the row is saved as cancelled
  · have hid : t.id = x.id := (hw.1 _ _ hrow).1
    obtain ⟨w₁, hsame, ⟨-, hrun⟩ | ⟨hstuck, -⟩⟩ := refundAll_checks hrep t w
    · have hsave : (TournamentService.save t.cancelled : Organiser U Unit).exec rep w₁ = (.ok (), w₁.setRow t.cancelled) := by
        unfold TournamentService.save
        rw [Async.exec_await, hrep.save]
      have hset : ∀ k, (w₁.setRow t.cancelled).rows k = if k = x.id then some t.cancelled else w.rows k := by
        intro k
        rw [Tournaments.rows_setRow, hsame.1]
        exact if_congr (by rw [← hid]; rfl) rfl rfl
      refine ⟨w₁.setRow t.cancelled, t.cancelled, ?_, ?_, fun k hk => ?_, ?_, fun y hy => ⟨?_, fun t' ht' => ?_⟩⟩
      · rw [sweepOne_read hrep ids hx, hrow]
        simp only [hsweep.1, Bool.not_true, Bool.false_eq_true, if_false]
        rw [Async.exec_bind_ok hrun, Async.exec_bind_ok hsave, hid]
        rfl
      · rintro ⟨hs, -⟩
        cases hs
      · rw [hset, if_neg hk]
      · rw [hset, if_pos rfl]
      · refine (hw.1.same hsame).setRow ?_
        rw [hsame.2, show t.cancelled.id = x.id from hid]
        exact (hw.1 _ _ hrow).2
      · rw [hset] at ht'
        split at ht'
        · rename_i hyx
          cases ht'
          exact hy.2 t (hyx ▸ hrow)
        · exact hy.2 t' ht'
    · exact absurd hstuck hfree
  -- one refund throws, and the sweep of this row with it, before anything is saved
  · obtain ⟨w₁, hsame, ⟨hfree, -⟩ | ⟨-, e, hrun⟩⟩ := refundAll_checks hrep t w
    · exact absurd hstuck hfree
    · refine ⟨e, w₁, ?_, fun k => by rw [hsame.1]⟩
      rw [sweepOne_read hrep ids hx, hrow]
      simp only [hsweep.1, Bool.not_true, Bool.false_eq_true, if_false]
      exact Async.exec_bind_error hrun _

/-- The rows that the repository holds. -/
def Tournaments.stored (w : Tournaments U) : List (Tournament U) := (List.range w.seq).filterMap w.rows

/-- The rows listed are the rows stored. -/
theorem Numbered.mem_stored (h : Numbered w) : t ∈ w.stored ↔ w.rows t.id = some t := by
  unfold Tournaments.stored
  rw [List.mem_filterMap]
  constructor
  · rintro ⟨k, -, hk⟩
    rw [(h k t hk).1]
    exact hk
  · exact fun hrow => ⟨t.id, List.mem_range.mpr (h _ t hrow).2, hrow⟩

theorem Numbered.stored_nodup (h : Numbered w) : w.stored.Nodup := by
  unfold Tournaments.stored
  refine List.Nodup.filterMap (fun k k' t hk hk' => ?_) List.nodup_range
  rw [← (h k t hk).1, ← (h k' t hk').1]

/-- Nothing is left that the sweep has to void. -/
def Tournaments.Swept (cutoff : ℤ) (w : Tournaments U) : Prop := ∀ k t, w.rows k = some t → ¬t.Stale cutoff

/-- **A sweep in which nothing fails** voids the stale tournaments that are listed. -/
theorem sweepStale_voids_listed (hrep : Tournaments.Credits (fun _ => false) rep pay) (all : List (Tournament U))
    (hlist : rep .listAll w = (.ok all, w)) (hw : Numbered w) (hall : ∀ x ∈ all, w.rows x.id = some x) (now maxAgeMs : ℤ) :
    ∃ ids w', (TournamentService.sweepStale now maxAgeMs).exec rep w = (.ok ids, w') ∧
      (∀ k, k ∈ ids ↔ ∃ t ∈ all, t.id = k ∧ t.Stale (now - maxAgeMs)) ∧
      (w'.Swept (now - maxAgeMs) ↔ ∀ k t, w.rows k = some t → t.Stale (now - maxAgeMs) → t ∈ all) := by
  have hlists : ∀ x ∈ all, Tournaments.Lists x w := by
    refine fun x hx => ⟨hw, fun t ht => ?_⟩
    rw [hall x hx] at ht
    cases ht
    rfl
  have hfine : ∀ x ∈ all, (tournamentItems (fun _ => false) (now - maxAgeMs)).Fine x w := by
    rintro x - - - ⟨t, -, -, u, -, hno⟩
    cases hno
  obtain ⟨r, w', hrun, hok, hret, hopen, -⟩ := (sweepOne_rowLoop hrep (now - maxAgeMs)).isolated.exec all [] w hlists
  obtain ⟨ids, rfl⟩ := hok.mpr hfine
  obtain ⟨closed, hids, hclosed⟩ := hret trivial ids rfl
  have hflat : ∀ (l : List ℕ) (b : List ℕ), l.foldl (fun ids k => ids ++ [k]) b = b ++ l := by
    intro l
    induction l with
    | nil => simp
    | cons k l ih => simp [ih]
  have hmem : ∀ k, k ∈ ids ↔ ∃ t ∈ all, t.id = k ∧ t.Stale (now - maxAgeMs) := by
    intro k
    rw [hids, hflat, List.nil_append, hclosed, hopen, Async.Items.reached_of_fine hfine]
    constructor
    · rintro ⟨ho, hno⟩
      by_contra hnot
      exact hno ⟨ho, hnot⟩
    · rintro ⟨t, ht, rfl, hstale⟩
      exact ⟨⟨t, hall t ht, hstale⟩, fun h => h.2 ⟨t, ht, rfl, hstale⟩⟩
  refine ⟨ids, w', ?_, hmem, fun hswept k t hrow hstale => ?_, fun hin k t hrow hstale => ?_⟩
  · have hread : (TournamentService.listAll : Organiser U _).exec rep w = (.ok all, w) := by
      unfold TournamentService.listAll
      rw [Async.exec_await, hlist]
    unfold TournamentService.sweepStale
    exact (Async.exec_bind_ok hread _).trans hrun
  · have hid : t.id = k := (hw k t hrow).1
    have hgone : ¬∃ t, w'.rows k = some t ∧ t.Stale (now - maxAgeMs) := fun ⟨t, ht, hs⟩ => hswept k t ht hs
    by_contra hnot
    refine hgone ((hopen k).mpr ⟨⟨t, hrow, hstale⟩, fun hreached => hnot ?_⟩)
    obtain ⟨x, hx, hxk, -⟩ := (Async.Items.reached_of_fine hfine).mp hreached
    have hxt : w.rows x.id = some x := hall x hx
    rw [show x.id = k from hxk, hrow] at hxt
    cases hxt
    exact hx
  · obtain ⟨⟨x, hx, hxs⟩, hno⟩ := (hopen k).mp ⟨t, hrow, hstale⟩
    have hid : x.id = k := (hw k x hx).1
    exact hno ((Async.Items.reached_of_fine hfine).mpr ⟨x, hin k x hx hxs, hid, hxs⟩)

end Tournaments

section Repositories

variable [DecidableEq U] {w : Tournaments U} {order : List (Tournament U) → List (Tournament U)}

/-- `orderBy: { createdAt: 'desc' }`. -/
structure NewestFirst (rows sorted : List (Tournament U)) : Prop where
  perm : sorted.Perm rows
  sorted : sorted.Pairwise fun a b => b.createdAt ≤ a.createdAt

/-- A credit is booked. -/
def Tournaments.book (ref : TournamentRef U) (amountCents : ℕ) (w : Tournaments U) : Tournaments U :=
  { w with purse := w.purse.credit ref amountCents }

/-- A credit goes through unless it is refused. -/
theorem Tournaments.reply_credits (f : Refused U M) :
    Tournaments.Credits f.tournament (Tournaments.reply f.tournamentFault) Tournaments.book := by
  refine ⟨fun _ _ => rfl, fun _ _ => rfl, fun u a ref w => ?_, fun _ _ _ => rfl, fun _ _ _ => rfl⟩
  have hfault : (fun q : TournamentQuery U => if q.inMemory then Fault.none else f.tournamentFault q) (.credit u a ref) =
      if f.tournament ref then .before else .none := rfl
  unfold Tournaments.reply
  by_cases hno : f.tournament ref = true
  · rw [if_pos hno] at hfault ⊢
    refine Async.faulty_before ?_ _ _
    exact hfault
  · rw [if_neg hno] at hfault ⊢
    refine Async.faulty_none ?_ _ _
    exact hfault

theorem Tournaments.reply_credits_all : Tournaments.Credits (U := U) (fun _ => false) (Tournaments.reply fun _ => .none)
    Tournaments.book :=
  ⟨fun _ _ => rfl, fun _ _ => rfl, fun _ _ _ _ => rfl, fun _ _ _ => rfl, fun _ _ _ => rfl⟩

theorem Tournaments.prismaReply_credits (order : List (Tournament U) → List (Tournament U)) :
    Tournaments.Credits (fun _ => false) (Tournaments.prismaReply order fun _ => .none) Tournaments.book :=
  ⟨fun _ _ => rfl, fun _ _ => rfl, fun _ _ _ _ => rfl, fun _ _ _ => rfl, fun _ _ _ => rfl⟩

/-- **The sweep covers every stale tournament** of the in-memory repository, after every run. The rows of
the database are covered, and the same ids voided, exactly if no stale one stands behind the newest fifty. -/
theorem stale_sweep_covers_iff (s : TournamentService) (es : List (TournamentEvent U))
    (horder : ∀ rows, NewestFirst rows (order rows)) (now maxAgeMs : ℤ) :
    let w := run (Tournaments.step s) {} es
    ∃ ids w₁ ids' w₂,
      (TournamentService.sweepStale now maxAgeMs).exec (Tournaments.reply fun _ => .none) w = (.ok ids, w₁) ∧
      (TournamentService.sweepStale now maxAgeMs).exec (Tournaments.prismaReply order fun _ => .none) w = (.ok ids', w₂) ∧
      w₁.Swept (now - maxAgeMs) ∧
      (w₂.Swept (now - maxAgeMs) ∧ (∀ id, id ∈ ids' ↔ id ∈ ids) ↔
        ∀ t ∈ (order w.stored).drop 50, ¬t.Stale (now - maxAgeMs)) := by
  intro w
  have hw : Numbered w := tournaments_numbered s es
  have hmem : ∀ t, t ∈ order w.stored ↔ w.rows t.id = some t := by
    intro t
    rw [(horder _).perm.mem_iff, hw.mem_stored]
  have hnodup : (order w.stored).Nodup := (horder _).perm.nodup_iff.mpr hw.stored_nodup
  obtain ⟨ids, w₁, hrun, hids, hswept⟩ := sweepStale_voids_listed Tournaments.reply_credits_all w.stored rfl hw
    (fun x hx => hw.mem_stored.mp hx) now maxAgeMs
  obtain ⟨ids', w₂, hrun', hids', hswept'⟩ := sweepStale_voids_listed (Tournaments.prismaReply_credits order)
    ((order w.stored).take 50) rfl hw (fun x hx => (hmem x).mp (List.mem_of_mem_take hx)) now maxAgeMs
  -- a row is among the first fifty, or behind them
  have hcut : ∀ t, w.rows t.id = some t → t ∈ (order w.stored).take 50 ∨ t ∈ (order w.stored).drop 50 := by
    intro t ht
    rw [← List.mem_append, List.take_append_drop]
    exact (hmem t).mpr ht
  refine ⟨ids, w₁, ids', w₂, hrun, hrun', hswept.mpr fun k t hrow _ => ?_, ?_, fun hbehind => ⟨?_, fun id => ?_⟩⟩
  · refine hw.mem_stored.mpr ?_
    rw [(hw k t hrow).1]
    exact hrow
  · rintro ⟨hdone, -⟩ t ht hstale
    have hrow := (hmem t).mp (List.mem_of_mem_drop ht)
    exact List.disjoint_take_drop hnodup le_rfl (hswept'.mp hdone _ t hrow hstale) ht
  · refine hswept'.mpr fun k t hrow hstale => ?_
    rw [← (hw k t hrow).1] at hrow
    exact (hcut t hrow).resolve_right fun ht => hbehind t ht hstale
  · rw [hids, hids']
    constructor
    · rintro ⟨t, ht, rfl, hstale⟩
      exact ⟨t, hw.mem_stored.mpr ((hmem t).mp (List.mem_of_mem_take ht)), rfl, hstale⟩
    · rintro ⟨t, ht, rfl, hstale⟩
      exact ⟨t, (hcut t (hw.mem_stored.mp ht)).resolve_right fun hno => hbehind t hno hstale, rfl, hstale⟩

/-- The newest rows first. -/
def byAge (rows : List (Tournament U)) : List (Tournament U) := rows.mergeSort fun a b => b.createdAt ≤ a.createdAt

omit [DecidableEq U] in
theorem byAge_newestFirst (rows : List (Tournament U)) : NewestFirst rows (byAge rows) := by
  refine ⟨List.mergeSort_perm _ _, ?_⟩
  have hsorted := @List.pairwise_mergeSort _ (fun a b : Tournament U => decide (b.createdAt ≤ a.createdAt))
    (fun a b c hab hbc => by simp only [decide_eq_true_eq] at hab hbc ⊢; omega)
    (fun a b => by simp only [Bool.or_eq_true, decide_eq_true_eq]; omega) rows
  exact hsorted.imp fun h => by simpa using h

omit [DecidableEq U] in
/-- With more than `n` rows, one as old as any stands behind the newest `n`. -/
theorem NewestFirst.behind {rows sorted : List (Tournament U)} (h : NewestFirst rows sorted) {n : ℕ}
    (hn : n < rows.length) {x : Tournament U} (hx : x ∈ rows) :
    ∃ t ∈ sorted.drop n, t ∈ rows ∧ t.createdAt ≤ x.createdAt := by
  have hne : sorted.drop n ≠ [] := by
    intro hnil
    have hle := List.drop_eq_nil_iff.mp hnil
    have hlen := h.perm.length_eq
    omega
  have hin : x ∈ sorted.take n ∨ x ∈ sorted.drop n := by
    rw [← List.mem_append, List.take_append_drop]
    exact h.perm.mem_iff.mpr hx
  rcases hin with hin | hin
  · obtain ⟨t, ht⟩ := List.exists_mem_of_ne_nil _ hne
    have hsorted := h.sorted
    rw [← List.take_append_drop n sorted, List.pairwise_append] at hsorted
    exact ⟨t, ht, h.perm.mem_iff.mp (List.mem_of_mem_drop ht), hsorted.2.2 x hin t ht⟩
  · exact ⟨x, hin, hx, le_rfl⟩

/-- One tournament more than the database lists, made one after another. -/
def crowdedLobby : List (TournamentEvent ℕ) := (List.range 51).map fun i => .call (.create 100 2 i) fun _ => .none

/-- The oldest of 51 stale tournaments stands behind the newest fifty: the sweep of the database
misses what the sweep in memory covers. -/
theorem stale_sweep_covers_crowded : ∃ ids w₁ ids' w₂,
    (TournamentService.sweepStale 200 100).exec (Tournaments.reply fun _ => .none)
      (run (Tournaments.step tenPercent) {} crowdedLobby) = (.ok ids, w₁) ∧ w₁.Swept 100 ∧
    (TournamentService.sweepStale 200 100).exec (Tournaments.prismaReply byAge fun _ => .none)
      (run (Tournaments.step tenPercent) {} crowdedLobby) = (.ok ids', w₂) ∧
    ¬(w₂.Swept 100 ∧ ∀ id, id ∈ ids' ↔ id ∈ ids) := by
  obtain ⟨ids, w₁, ids', w₂, hrun, hrun', hswept, hiff⟩ :=
    stale_sweep_covers_iff tenPercent crowdedLobby byAge_newestFirst 200 100
  refine ⟨ids, w₁, ids', w₂, hrun, hswept, hrun', fun hboth => ?_⟩
  have hmany : 50 < (run (Tournaments.step tenPercent) {} crowdedLobby).stored.length := by decide +kernel
  have hopen : ∀ t ∈ (run (Tournaments.step tenPercent) {} crowdedLobby).stored, t.status.sweepable = true := by
    decide +kernel
  obtain ⟨x, hx, hold⟩ : ∃ x ∈ (run (Tournaments.step tenPercent) {} crowdedLobby).stored, x.createdAt = 0 := by
    decide +kernel
  obtain ⟨t, hlast, hstored, hle⟩ := (byAge_newestFirst _).behind hmany hx
  exact hiff.mp hboth t hlast ⟨hopen t hstored, by omega⟩

end Repositories

end Murlan
