import Murlan.Spec.ClubWar

/-!
# A club war's money

The invariant of the wars over every run of calls, any of whose writes may fail. `w.Due a r`
says that the war `w` owes the amount `a` under the reference `r`: once it is decided for a
club (`won`) the shares and the rake, before that and on a tie the buy-ins. `KeptWar p id w`:
every player paid one buy-in, nothing but what is due was credited, and a war that ended has
credited all of it.

* `KeptWar.credited_le`, `KeptWar.credited_eq`: what follows for the totals.
* `ClubWarsOK.change`: a call moves money for its own war only.
* `club_war_never_overpays`: over every run in which no report decides a war for a club
  after a refund.
-/

namespace Murlan

variable {U : Type}

namespace ClubWar

/-- All pairings are decided, and not for a tie. -/
def won (w : ClubWar U) : Bool :=
  (w.status = .running ∧ w.decided = true ∨ w.status = .finished) ∧ w.leader.isSome = true

/-- A war that is undecided is not won. -/
theorem won_eq_false {w : ClubWar U} (hs : w.status ≠ .finished) (hd : w.status = .running → w.decided = false) :
    w.won = false := by
  unfold won
  simp only [decide_eq_false_iff_not]
  rintro ⟨⟨hrunning, hdecided⟩ | hfinished, -⟩
  · rw [hd hrunning] at hdecided
    cases hdecided
  · exact hs hfinished

theorem won_finished {w : ClubWar U} (hs : w.status = .finished) : w.won = w.leader.isSome := by
  simp [won, hs]

theorem won_running {w : ClubWar U} (hs : w.status = .running) (hd : w.decided = true) :
    w.won = w.leader.isSome := by
  simp [won, hs, hd]

/-- Pairings that were just drawn have no winner. -/
theorem begin_decided (w : ClubWar U) : w.begin.decided = false := by
  unfold decided
  simp only [decide_eq_false_iff_not, not_and, List.all_eq_true]
  intro hne hall
  obtain ⟨p, hp⟩ := List.exists_mem_of_ne_nil _ hne
  have hsome := hall p hp
  obtain ⟨a, -, hb⟩ := List.mem_flatMap.mp hp
  obtain ⟨b, -, rfl⟩ := List.mem_map.mp hb
  cases hsome

theorem begin_won (w : ClubWar U) : w.begin.won = false :=
  won_eq_false (by simp [begin]) fun _ => w.begin_decided

/-- What joining a side changes. -/
theorem seat_fields (w : ClubWar U) (side : WarSide) (u : U) :
    (w.seat side u).id = w.id ∧ (w.seat side u).stakeCents = w.stakeCents ∧
    (w.seat side u).rakeBps = w.rakeBps ∧
    (w.seat side u).prizePoolCents = w.prizePoolCents + w.stakeCents := by
  unfold seat
  cases side with
  | a =>
    dsimp only
    split <;> exact ⟨rfl, rfl, rfl, rfl⟩
  | b =>
    dsimp only
    split <;> exact ⟨rfl, rfl, rfl, rfl⟩

/-- A player who joins is added to the players. -/
theorem seat_players (w : ClubWar U) (side : WarSide) (u : U) :
    (w.seat side u).players.Perm (u :: w.players) := by
  cases side with
  | a =>
    have hplayers : (w.seat .a u).players = w.rosterA ++ [u] ++ w.rosterB := by
      unfold seat
      dsimp only
      split <;> rfl
    rw [hplayers, List.append_assoc]
    exact List.perm_middle
  | b =>
    have hplayers : (w.seat .b u).players = w.rosterA ++ (w.rosterB ++ [u]) := by
      unfold seat
      dsimp only
      split <;> rfl
    rw [hplayers, ← List.append_assoc]
    exact List.perm_append_singleton u _

/-- Two full sides begin, and nothing is decided. -/
theorem seat_open {w : ClubWar U} (hs : w.status = .registering) (side : WarSide) (u : U) :
    (w.seat side u).status.active = true ∧ (w.seat side u).won = false := by
  have hopen : ∀ x : ClubWar U, x.status = .registering → x.status.active = true ∧ x.won = false := by
    intro x hx
    refine ⟨by rw [hx]; rfl, won_eq_false (by simp [hx]) (by simp [hx])⟩
  unfold seat
  cases side with
  | a =>
    dsimp only
    split
    · exact ⟨rfl, begin_won _⟩
    · exact hopen _ hs
  | b =>
    dsimp only
    split
    · exact ⟨rfl, begin_won _⟩
    · exact hopen _ hs

theorem rakeShare_le {w : ClubWar U} (h : w.rakeBps ≤ 10000) : w.rakeShare ≤ w.prizePoolCents := by
  have hmul : w.prizePoolCents * w.rakeBps ≤ 10000 * w.prizePoolCents := by
    rw [Nat.mul_comm]
    exact Nat.mul_le_mul_right _ h
  exact Nat.div_le_of_le_mul hmul

variable [DecidableEq U]

/-- What the war owes under a reference. -/
def Due (w : ClubWar U) (a : ℕ) : ClubWarRef U → Prop
  | .refund _ u => w.won = false ∧ u ∈ w.players ∧ a = w.stakeCents
  | .rollback _ _ => False
  | .share _ u => w.won = true ∧ u ∈ w.decideWinner.winners ∧ a = w.decideWinner.per
  | .rake _ => w.won = true ∧ a = w.decideWinner.rake

/-- The shares and the rake are the pool. -/
theorem per_mul_add_rake {w : ClubWar U} (h : w.rakeBps ≤ 10000) :
    w.per * w.winners.length + w.rake = w.prizePoolCents := by
  have hshare := rakeShare_le h
  have hper : w.per * w.winners.length ≤ w.prizePoolCents - w.rakeShare := Nat.div_mul_le_self _ _
  unfold rake
  omega

theorem winners_sublist (w : ClubWar U) : w.winners.Sublist w.players := by
  unfold winners players
  split
  · exact List.sublist_append_left _ _
  · exact List.sublist_append_right _ _

/-- An accepted report of an undecided pairing changes the pairings and the scores. -/
theorem report_ok {w w' : ClubWar U} {a b winner : U} (h : w.report a b winner = .ok (some w')) :
    w.status = .running ∧ w.decided = false ∧
      ∃ ps x y, w' = { w with pairings := ps, scoreA := x, scoreB := y } := by
  unfold report at h
  split at h
  · cases h
  rename_i hs
  split at h
  · cases h
  rename_i p hp
  split at h
  · cases h
  rename_i hopen
  split at h
  · cases h
  cases h
  refine ⟨by simpa using hs, ?_, _, _, _, rfl⟩
  -- the pairing found has no winner yet
  unfold decided
  simp only [decide_eq_false_iff_not, not_and, List.all_eq_true]
  intro _ hall
  exact hopen (hall p (List.mem_of_find?_eq_some hp))

end ClubWar

variable [DecidableEq U]

/-- A war's row and the purse agree. -/
structure KeptWar (p : Purse U (ClubWarRef U)) (id : ℕ) (w : ClubWar U) : Prop where
  id_eq : w.id = id
  rate : w.rakeBps ≤ 10000
  players : w.players.Nodup
  paid : p.debited id = w.stakeCents * w.players.length
  pool : w.prizePoolCents = w.stakeCents * w.players.length
  due : ∀ r ∈ p.book.refs, r.id = id → w.Due (p.book.amount r) r
  ended : w.status.active = false → ∀ r a, r.id = id → w.Due a r → 0 < a → r ∈ p.book.refs
  decision : w.status = .finished → w.winnerClubId = w.leader

/-- The invariant of the wars. -/
structure ClubWarsOK (s : ClubWars U) : Prop where
  row : ∀ id w, s.rows id = some w → id < s.seq ∧ KeptWar s.purse id w
  untouched : ∀ id, s.rows id = none → Untouched ClubWarRef.id s.purse id
  fresh : ∀ id, s.seq ≤ id → s.rows id = none

namespace KeptWar

variable {p p' : Purse U (ClubWarRef U)} {id : ℕ} {w : ClubWar U}

/-- The row agrees with any purse with the same money for it. -/
theorem same (h : KeptWar p id w) (hsame : SameMoney ClubWarRef.id p p' id) : KeptWar p' id w := by
  refine ⟨h.id_eq, h.rate, h.players, ?_, h.pool, ?_, ?_, h.decision⟩
  · rw [hsame.debited]
    exact h.paid
  · intro r hr hid
    rw [hsame.amount r hid]
    exact h.due r ((hsame.refs r hid).mp hr) hid
  · intro hs r a hid hdue ha
    exact (hsame.refs r hid).mpr (h.ended hs r a hid hdue ha)

/-- No reference is credited with more than is due under it. -/
theorem amount_le (h : KeptWar p id w) {r : ClubWarRef U} {a : ℕ} (hid : r.id = id)
    (hdue : ∀ b, w.Due b r → b ≤ a) : p.book.amount r ≤ a := by
  by_cases hr : r ∈ p.book.refs
  · exact hdue _ (h.due r hr hid)
  · rw [Book.amount_of_not_mem hr]
    omega

/-- Once the war ended, each reference is credited with what is due under it. -/
theorem amount_eq (h : KeptWar p id w) (hs : w.status.active = false) {r : ClubWarRef U} {a : ℕ}
    (hid : r.id = id) (ha : w.Due a r) (hdue : ∀ b, w.Due b r → b = a) : p.book.amount r = a := by
  by_cases hr : r ∈ p.book.refs
  · exact hdue _ (h.due r hr hid)
  · rw [Book.amount_of_not_mem hr]
    by_contra hne
    exact hr (h.ended hs r a hid ha (by omega))

/-- What was credited is the refunds, the shares and the rake. -/
theorem credited_sum (h : KeptWar p id w) :
    p.credited ClubWarRef.id id = (w.players.map fun u => p.book.amount (.refund id u)).sum +
      ((w.decideWinner.winners.map fun u => p.book.amount (.share id u)).sum + p.book.amount (.rake id)) := by
  have hwinners : w.decideWinner.winners.Nodup := h.players.sublist w.decideWinner.winners_sublist
  have hnodup : (w.players.map (ClubWarRef.refund id) ++
      (w.decideWinner.winners.map (ClubWarRef.share id) ++ [ClubWarRef.rake id])).Nodup := by
    rw [List.nodup_append, List.nodup_append]
    refine ⟨h.players.map fun u v huv => by simpa using huv,
      ⟨hwinners.map fun u v huv => by simpa using huv, by simp, ?_⟩, ?_⟩
    · rintro r hr s hs rfl
      obtain ⟨u, -, rfl⟩ := List.mem_map.mp hr
      simp at hs
    · rintro r hr s hs rfl
      obtain ⟨u, -, rfl⟩ := List.mem_map.mp hr
      simp at hs
  have hkind : ∀ r ∈ p.book.refs, r.id = id ↔ r ∈ w.players.map (ClubWarRef.refund id) ++
      (w.decideWinner.winners.map (ClubWarRef.share id) ++ [ClubWarRef.rake id]) := by
    intro r hr
    constructor
    · rintro rfl
      have hdue := h.due r hr rfl
      cases r with
      | refund i u => exact List.mem_append_left _ (List.mem_map.mpr ⟨u, hdue.2.1, rfl⟩)
      | rollback i u => exact hdue.elim
      | share i u =>
        exact List.mem_append_right _ (List.mem_append_left _ (List.mem_map.mpr ⟨u, hdue.2.1, rfl⟩))
      | rake i => simp [ClubWarRef.id]
    · intro hmem
      simp only [List.mem_append, List.mem_map, List.mem_singleton] at hmem
      obtain ⟨u, -, rfl⟩ | ⟨u, -, rfl⟩ | rfl := hmem <;> rfl
  unfold Purse.credited
  rw [Book.total_eq_sum p.book _ hnodup hkind, List.map_append, List.sum_append, List.map_append,
    List.sum_append, List.map_map, List.map_map]
  simp [Function.comp_def]

/-- **No more is credited than was debited.** -/
theorem credited_le (h : KeptWar p id w) : p.credited ClubWarRef.id id ≤ p.debited id := by
  rw [h.credited_sum, h.paid]
  cases hwon : w.won with
  | false =>
    -- only refunds are due
    have hrefund : (w.players.map fun u => p.book.amount (.refund id u)).sum ≤ w.stakeCents * w.players.length :=
      Book.sum_amounts_le fun u _ => h.amount_le rfl fun b hb => le_of_eq hb.2.2
    have hshare : (w.decideWinner.winners.map fun u => p.book.amount (.share id u)).sum ≤
        0 * w.decideWinner.winners.length :=
      Book.sum_amounts_le fun u _ => h.amount_le rfl fun b hb => by simp [hwon, ClubWar.Due] at hb
    have hrake : p.book.amount (.rake id) ≤ 0 := h.amount_le rfl fun b hb => by simp [hwon, ClubWar.Due] at hb
    omega
  | true =>
    have hrefund : (w.players.map fun u => p.book.amount (.refund id u)).sum ≤ 0 * w.players.length :=
      Book.sum_amounts_le fun u _ => h.amount_le rfl fun b hb => by simp [hwon, ClubWar.Due] at hb
    have hshare : (w.decideWinner.winners.map fun u => p.book.amount (.share id u)).sum ≤
        w.decideWinner.per * w.decideWinner.winners.length :=
      Book.sum_amounts_le fun u _ => h.amount_le rfl fun b hb => le_of_eq hb.2.2
    have hrake : p.book.amount (.rake id) ≤ w.decideWinner.rake := h.amount_le rfl fun b hb => le_of_eq hb.2
    have hpool : w.decideWinner.per * w.decideWinner.winners.length + w.decideWinner.rake = w.prizePoolCents :=
      ClubWar.per_mul_add_rake (w := w.decideWinner) h.rate
    have := h.pool
    omega

/-- **What a war that ended has credited.** -/
theorem credited_eq (h : KeptWar p id w) (hs : w.status.active = false) :
    p.credited ClubWarRef.id id = w.prizePoolCents ∧
    (w.won = false → ∀ u ∈ w.players, p.book.amount (.refund id u) = w.stakeCents) ∧
    (w.won = true → (∀ u ∈ w.decideWinner.winners, p.book.amount (.share id u) = w.decideWinner.per) ∧
      p.book.amount (.rake id) = w.decideWinner.rake) := by
  rw [h.credited_sum]
  cases hwon : w.won with
  | false =>
    have hrefund : ∀ u ∈ w.players, p.book.amount (.refund id u) = w.stakeCents := fun u hu =>
      h.amount_eq hs rfl ⟨hwon, hu, rfl⟩ fun b hb => hb.2.2
    have hshare : (w.decideWinner.winners.map fun u => p.book.amount (.share id u)).sum ≤
        0 * w.decideWinner.winners.length :=
      Book.sum_amounts_le fun u _ => h.amount_le rfl fun b hb => by simp [hwon, ClubWar.Due] at hb
    have hrake : p.book.amount (.rake id) ≤ 0 := h.amount_le rfl fun b hb => by simp [hwon, ClubWar.Due] at hb
    have hsum := Book.sum_amounts_eq hrefund
    have hpool := h.pool
    refine ⟨by omega, fun _ => hrefund, ?_⟩
    intro hc
    cases hc
  | true =>
    have hrefund : (w.players.map fun u => p.book.amount (.refund id u)).sum ≤ 0 * w.players.length :=
      Book.sum_amounts_le fun u _ => h.amount_le rfl fun b hb => by simp [hwon, ClubWar.Due] at hb
    have hshare : ∀ u ∈ w.decideWinner.winners, p.book.amount (.share id u) = w.decideWinner.per := fun u hu =>
      h.amount_eq hs rfl ⟨hwon, hu, rfl⟩ fun b hb => hb.2.2
    have hrake : p.book.amount (.rake id) = w.decideWinner.rake :=
      h.amount_eq hs rfl ⟨hwon, rfl⟩ fun b hb => hb.2
    have hsum := Book.sum_amounts_eq hshare
    have hpool : w.decideWinner.per * w.decideWinner.winners.length + w.decideWinner.rake = w.prizePoolCents :=
      ClubWar.per_mul_add_rake (w := w.decideWinner) h.rate
    refine ⟨by omega, ?_, fun _ => ⟨hshare, hrake⟩⟩
    intro hc
    cases hc

/-- A refund says that nothing was paid to winners. -/
theorem not_both (h : KeptWar p id w) {u : U} (hu : .refund id u ∈ p.book.refs) :
    (∀ v, .share id v ∉ p.book.refs) ∧ .rake id ∉ p.book.refs := by
  have hwon : w.won = false := (h.due _ hu rfl).1
  refine ⟨fun v hv => ?_, fun hr => ?_⟩
  · have hdue := h.due _ hv rfl
    rw [hdue.1] at hwon
    cases hwon
  · have hdue := h.due _ hr rfl
    rw [hdue.1] at hwon
    cases hwon

/-- Something is due only where there is a pool. -/
theorem pool_pos (h : KeptWar p id w) {r : ClubWarRef U} {a : ℕ} (hdue : w.Due a r) (ha : 0 < a) :
    0 < w.prizePoolCents := by
  have hpool : w.decideWinner.per * w.decideWinner.winners.length + w.decideWinner.rake = w.prizePoolCents :=
    ClubWar.per_mul_add_rake (w := w.decideWinner) h.rate
  cases r with
  | refund i u =>
    obtain ⟨-, hu, rfl⟩ := hdue
    rw [h.pool]
    exact Nat.mul_pos ha (List.length_pos_of_mem hu)
  | rollback i u => exact hdue.elim
  | share i u =>
    obtain ⟨-, hu, rfl⟩ := hdue
    have hper := Nat.mul_pos ha (List.length_pos_of_mem hu)
    omega
  | rake i =>
    obtain ⟨-, rfl⟩ := hdue
    omega

/-! ## The row of an open war -/

/-- What is due is credited. -/
theorem credit (h : KeptWar p id w) {r : ClubWarRef U} {a : ℕ} (hdue : w.Due a r) :
    KeptWar (p.credit r a) id w := by
  refine ⟨h.id_eq, h.rate, h.players, h.paid, h.pool, ?_, ?_, h.decision⟩
  · exact Book.credit_family (f := fun r => r) (P := fun r a => r.id = id → w.Due a r) h.due (fun _ => hdue)
      fun _ hr => hr
  · intro hs r' a' hid hdue' ha
    exact Book.mem_refs_credit.mpr (.inl (h.ended hs r' a' hid hdue' ha))

/-- A war that is not decided for a club changes its pairings and its score: what was refunded
stays due, unless the war is now decided for a club. -/
theorem move {w' : ClubWar U} (h : KeptWar p id w) (hwon : w.won = false) (hid : w'.id = w.id)
    (hstake : w'.stakeCents = w.stakeCents) (hrate : w'.rakeBps = w.rakeBps)
    (hplayers : w'.players = w.players) (hpool : w'.prizePoolCents = w.prizePoolCents)
    (hopen : w'.status.active = true) (hnone : w'.won = true → ∀ u, .refund id u ∉ p.book.refs) :
    KeptWar p id w' := by
  refine ⟨hid.trans h.id_eq, hrate ▸ h.rate, hplayers ▸ h.players, ?_, ?_, ?_, ?_, ?_⟩
  · rw [hstake, hplayers]
    exact h.paid
  · rw [hstake, hplayers, hpool]
    exact h.pool
  · intro r hr hrid
    have hdue := h.due r hr hrid
    cases r with
    | refund i u =>
      obtain rfl : i = id := hrid
      cases hwon' : w'.won with
      | false => exact ⟨hwon', hplayers ▸ hdue.2.1, hstake ▸ hdue.2.2⟩
      | true => exact absurd hr (hnone hwon' u)
    | rollback i u => exact hdue.elim
    | share i u =>
      rw [hdue.1] at hwon
      cases hwon
    | rake i =>
      rw [hdue.1] at hwon
      cases hwon
  · intro hs
    rw [hopen] at hs
    cases hs
  · intro hf
    rw [hf] at hopen
    cases hopen

/-- The war ends once everything due is credited. -/
theorem close {w' : ClubWar U} (h : KeptWar p id w) (hwon : w'.won = w.won) (hid : w'.id = w.id)
    (hstake : w'.stakeCents = w.stakeCents) (hrate : w'.rakeBps = w.rakeBps)
    (hplayers : w'.players = w.players) (hpool : w'.prizePoolCents = w.prizePoolCents)
    (hdecide : w'.decideWinner.winners = w.decideWinner.winners)
    (hdecision : w'.status = .finished → w'.winnerClubId = w'.leader)
    (hall : ∀ r a, r.id = id → w.Due a r → 0 < a → r ∈ p.book.refs) : KeptWar p id w' := by
  have hshare : w'.decideWinner.rakeShare = w.decideWinner.rakeShare := by
    show w'.prizePoolCents * w'.rakeBps / 10000 = w.prizePoolCents * w.rakeBps / 10000
    rw [hpool, hrate]
  have hper : w'.decideWinner.per = w.decideWinner.per := by
    show (w'.prizePoolCents - w'.decideWinner.rakeShare) / w'.decideWinner.winners.length =
      (w.prizePoolCents - w.decideWinner.rakeShare) / w.decideWinner.winners.length
    rw [hpool, hshare, hdecide]
  have hrake : w'.decideWinner.rake = w.decideWinner.rake := by
    show w'.decideWinner.rakeShare +
        (w'.prizePoolCents - w'.decideWinner.rakeShare - w'.decideWinner.per * w'.decideWinner.winners.length) =
      w.decideWinner.rakeShare +
        (w.prizePoolCents - w.decideWinner.rakeShare - w.decideWinner.per * w.decideWinner.winners.length)
    rw [hpool, hshare, hper, hdecide]
  have hdue : ∀ r a, w'.Due a r ↔ w.Due a r := by
    intro r a
    cases r <;> simp only [ClubWar.Due, hwon, hplayers, hstake, hdecide, hper, hrake]
  refine ⟨hid.trans h.id_eq, hrate ▸ h.rate, hplayers ▸ h.players, ?_, ?_, ?_, ?_, hdecision⟩
  · rw [hstake, hplayers]
    exact h.paid
  · rw [hstake, hplayers, hpool]
    exact h.pool
  · intro r hr hrid
    exact (hdue _ _).mpr (h.due r hr hrid)
  · intro _ r a hrid ha
    exact hall r a hrid ((hdue _ _).mp ha)

/-- A player joins once the buy-in is paid. -/
theorem seat (h : KeptWar p id w) (hs : w.status = .registering) (side : WarSide) {u : U}
    (hu : u ∉ w.players) (hbook : p'.book = p.book) (hpaid : p'.debited id = p.debited id + w.stakeCents) :
    KeptWar p' id (w.seat side u) := by
  obtain ⟨hid, hstake, hrate, hpool⟩ := w.seat_fields side u
  obtain ⟨hopen, hwon'⟩ := ClubWar.seat_open hs side u
  have hplayers := w.seat_players side u
  have hlen : (w.seat side u).players.length = w.players.length + 1 := hplayers.length_eq
  have hwon : w.won = false := ClubWar.won_eq_false (by simp [hs]) (by simp [hs])
  refine ⟨hid.trans h.id_eq, hrate ▸ h.rate, ?_, ?_, ?_, ?_, ?_, ?_⟩
  · rw [hplayers.nodup_iff]
    exact List.nodup_cons.mpr ⟨hu, h.players⟩
  · rw [hpaid, h.paid, hstake, hlen, Nat.mul_succ]
  · rw [hpool, h.pool, hstake, hlen, Nat.mul_succ]
  · intro r hr hrid
    rw [hbook] at hr ⊢
    have hdue := h.due r hr hrid
    cases r with
    | refund i v => exact ⟨hwon', hplayers.mem_iff.mpr (List.mem_cons_of_mem u hdue.2.1), hstake ▸ hdue.2.2⟩
    | rollback i v => exact hdue.elim
    | share i v =>
      rw [hdue.1] at hwon
      cases hwon
    | rake i =>
      rw [hdue.1] at hwon
      cases hwon
  · intro hended
    rw [hopen] at hended
    cases hended
  · intro hf
    rw [hf] at hopen
    cases hopen

end KeptWar

/-- A new war owes nothing. -/
theorem Untouched.keptWar {p : Purse U (ClubWarRef U)} {id : ℕ} {w : ClubWar U}
    (h : Untouched ClubWarRef.id p id) (hid : w.id = id) (hrate : w.rakeBps ≤ 10000)
    (hplayers : w.players = []) (hpool : w.prizePoolCents = 0) (hs : w.status = .registering) :
    KeptWar p id w := by
  refine ⟨hid, hrate, by simp [hplayers], by simp [h.debited, hplayers], by simp [hpool, hplayers], ?_, ?_, ?_⟩
  · intro r hr hrid
    exact absurd hrid (h.refs r hr)
  · intro hended
    rw [hs] at hended
    cases hended
  · intro hf
    rw [hs] at hf
    cases hf

namespace ClubWarsOK

variable {s s' : ClubWars U} {id : ℕ} {w : ClubWar U}

/-- A change of one war's row and money. -/
theorem change (h : ClubWarsOK s) (w' : ClubWar U) (hid : id < s'.seq) (hseq : s.seq ≤ s'.seq)
    (hrows : ∀ j, j ≠ id → s'.rows j = s.rows j)
    (hmoney : ∀ j, j ≠ id → SameMoney ClubWarRef.id s.purse s'.purse j)
    (hrow : s'.rows id = some w') (hkept : KeptWar s'.purse id w') : ClubWarsOK s' := by
  refine ⟨?_, ?_, ?_⟩
  · intro j x hj
    by_cases hji : j = id
    · subst hji
      rw [hrow] at hj
      cases hj
      exact ⟨hid, hkept⟩
    · rw [hrows j hji] at hj
      obtain ⟨hlt, hx⟩ := h.row j x hj
      exact ⟨by omega, hx.same (hmoney j hji)⟩
  · intro j hj
    have hji : j ≠ id := by
      rintro rfl
      rw [hrow] at hj
      cases hj
    rw [hrows j hji] at hj
    exact (h.untouched j hj).same (hmoney j hji)
  · intro j hj
    rw [hrows j (by omega)]
    exact h.fresh j (by omega)

/-- A row is written, and money moves for its war only. -/
theorem write (h : ClubWarsOK s) {p : Purse U (ClubWarRef U)} {w' : ClubWar U} (hid : id < s.seq)
    (hmoney : ∀ j, j ≠ id → SameMoney ClubWarRef.id s.purse p j) (hkept : KeptWar p id w') :
    ClubWarsOK { s.setRow w' with purse := p } := by
  have heq : w'.id = id := hkept.id_eq
  refine h.change w' hid (le_refl s.seq) ?_ hmoney ?_ hkept
  · intro j hj
    exact Function.update_of_ne (by omega) _ _
  · show Function.update s.rows w'.id (some w') id = some w'
    rw [heq, Function.update_self]

/-- Only the row changes. -/
theorem setRow (h : ClubWarsOK s) {w' : ClubWar U} (hid : id < s.seq) (hkept : KeptWar s.purse id w') :
    ClubWarsOK (s.setRow w') :=
  h.write hid (fun _ _ => .refl s.purse) hkept

/-- What is due to a war is credited. -/
theorem credit (h : ClubWarsOK s) (hrow : s.rows id = some w) {r : ClubWarRef U} (hr : r.id = id) {a : ℕ}
    (hdue : w.Due a r) : ClubWarsOK { s with purse := s.purse.credit r a } := by
  obtain ⟨hid, hk⟩ := h.row id w hrow
  refine h.change w hid (le_refl s.seq) (fun _ _ => rfl) ?_ hrow (hk.credit hdue)
  intro j hj
  exact .credit (by omega) a

/-- The unit of work of a registration. -/
theorem escrow (h : ClubWarsOK s) (hrow : s.rows id = some w) (hs : w.status = .registering) (side : WarSide)
    {u : U} (hu : u ∉ w.players) : ClubWarsOK (ClubWars.answer (.escrow u (w.seat side u)) s).2 := by
  obtain ⟨hid, hk⟩ := h.row id w hrow
  obtain ⟨hid', hstake, -⟩ := w.seat_fields side u
  have heq : (w.seat side u).id = id := hid'.trans hk.id_eq
  refine h.write hid ?_ (hk.seat hs side hu rfl ?_)
  · intro j hj
    exact .debit (by omega) _ _
  · rw [Purse.debited_debit, if_pos heq, hstake]

end ClubWarsOK

/-! ## One call -/

section Calls

variable {fault : ClubWarQuery U → Fault} {α : Type} {s : ClubWars U} {v : ClubWarService}

/-- The call keeps the wars in order, wherever it ends or fails. -/
abbrev SafeWar (fault : ClubWarQuery U → Fault) (p : Captain U α) (s : ClubWars U) : Prop :=
  p.Keeps (ClubWars.reply fault) ClubWarsOK s

theorem SafeWar.ask (h : ClubWarsOK s) (q : ClubWarQuery U) {f : q.Answer → Captain U α}
    (hq : ClubWarsOK (ClubWars.answer q s).2)
    (hf : SafeWar fault (f (ClubWars.answer q s).1) (ClubWars.answer q s).2) :
    SafeWar fault (Async.await q >>= f) s :=
  Async.Keeps.ask h q hq hf

/-- The row of a war is read. -/
theorem SafeWar.get (h : ClubWarsOK s) (id : ℕ) {f : Option (ClubWar U) → Captain U α}
    (hnone : SafeWar fault (f none) s) (hsome : ∀ w, s.rows id = some w → SafeWar fault (f (some w)) s) :
    SafeWar fault (ClubWarService.get id >>= f) s := by
  refine SafeWar.ask h (.get id) h ?_
  show SafeWar fault (f (s.rows id)) s
  cases hrow : s.rows id with
  | none => exact hnone
  | some w => exact hsome w hrow

/-- A new war costs nobody anything. -/
theorem createWar_safe (h : ClubWarsOK s) (clubAId clubBId : U) (stakeCents size now : ℤ) :
    SafeWar fault (v.create clubAId clubBId stakeCents size now) s := by
  unfold ClubWarService.create
  refine .throwIf h _ _ fun _ => .throwIf h _ _ fun _ => .throwIf h _ _ fun _ => ?_
  refine Async.wp_await_faulty (ClubWarQuery.create _) (fun _ => ?_) (fun _ => h) fun _ => ?_
  all_goals
    have hnew := (h.untouched s.seq (h.fresh s.seq (le_refl _))).keptWar
      (w := { id := s.seq, clubAId, clubBId, stakeCents := stakeCents.toNat, rakeBps := v.rakeBps,
              size := size.toNat, createdAt := now }) rfl v.rakeBps_le rfl rfl rfl
    refine h.change _ (Nat.lt_succ_self s.seq) (Nat.le_succ s.seq) (fun j hj => ?_) (fun _ _ => .refl _) ?_ hnew
    · exact Function.update_of_ne hj _ _
    · exact Function.update_self ..

/-- A registration takes the stake and no more. -/
theorem registerWar_safe (huow : v.uow = true) (h : ClubWarsOK s) (id : ℕ) (u : U) (side : WarSide) :
    SafeWar fault (v.register id u side) s := by
  unfold ClubWarService.register
  refine SafeWar.get h id (.throw h _) fun w hrow => ?_
  refine .throwIf h _ _ fun hs => .throwIf h _ _ fun hu => .throwIf h _ _ fun _ => ?_
  have hs : w.status = .registering := by simpa using hs
  have hu : u ∉ w.players := by simpa [ClubWar.players] using hu
  obtain ⟨hid, hk⟩ := h.row id w hrow
  by_cases hb : 0 < w.stakeCents
  · rw [if_pos ⟨huow, hb⟩]
    have hescrow := h.escrow hrow hs side hu
    exact SafeWar.ask h (.escrow u (w.seat side u)) hescrow (.pure hescrow _)
  · rw [if_neg (fun hc => hb hc.2)]
    -- a free war only writes the row
    have hsaved : ClubWarsOK (s.setRow (w.seat side u)) := by
      refine h.setRow hid (hk.seat hs side hu rfl ?_)
      omega
    unfold ClubWarService.registerSaga
    simp only [if_neg hb]
    show SafeWar fault (((ClubWarService.save (w.seat side u)).tryCatch fun e => throw e) >>=
      fun _ => Pure.pure (w.seat side u)) s
    unfold SafeWar Async.Keeps
    rw [Async.wp_bind, Async.wp_tryCatch]
    exact Async.wp_await_faulty (ClubWarQuery.save (w.seat side u)) (fun _ => hsaved) (fun _ => h) fun _ => hsaved

/-- A start moves no money. -/
theorem startWar_safe (h : ClubWarsOK s) (id : ℕ) : SafeWar fault (ClubWarService.start id) s := by
  unfold ClubWarService.start
  refine SafeWar.get h id (.throw h _) fun w hrow => ?_
  refine .throwIf h _ _ fun hs => .throwIf h _ _ fun _ => ?_
  have hs : w.status = .registering := by simpa using hs
  obtain ⟨hid, hk⟩ := h.row id w hrow
  have hwon : w.won = false := ClubWar.won_eq_false (by simp [hs]) (by simp [hs])
  have hkept : KeptWar s.purse id w.begin := by
    refine hk.move hwon rfl rfl rfl rfl rfl rfl fun hc => ?_
    rw [w.begin_won] at hc
    cases hc
  have hsaved := h.setRow hid hkept
  exact SafeWar.ask h (.save w.begin) hsaved (.pure hsaved _)

/-- One credit after another of what is due, as far as they get. -/
theorem credits_wp (h : ClubWarsOK s) {w : ClubWar U} (hrow : s.rows w.id = some w) {us : List U} {a : ℕ}
    {f : U → ClubWarRef U} (hid : ∀ u, (f u).id = w.id) (hdue : ∀ u ∈ us, w.Due a (f u)) :
    (us.forM fun u => ClubWarService.credit u a (f u)).wp (.store (ClubWars.reply fault))
      (fun _ s' => ClubWarsOK s' ∧ s'.rows w.id = some w ∧ ∀ u ∈ us, f u ∈ s'.purse.book.refs)
      (fun _ => ClubWarsOK) s := by
  refine Async.wp_forM (I := fun done s' => ClubWarsOK s' ∧ s'.rows w.id = some w ∧
    ∀ u ∈ done, f u ∈ s'.purse.book.refs) ?_ ⟨h, hrow, by simp⟩
  rintro done u rest hus s' ⟨hs', hrow', hdone⟩
  have hu : u ∈ us := by
    rw [hus]
    simp
  have hcredited := hs'.credit hrow' (hid u) (hdue u hu)
  unfold ClubWarService.credit
  rw [Async.wp_bind, Async.wp_throwIf]
  refine ⟨fun _ => hs', fun _ => ?_⟩
  refine Async.wp_await_faulty (ClubWarQuery.credit u a (f u)) (fun _ => ⟨hcredited, hrow', ?_⟩)
    (fun _ => hs') fun _ => hcredited
  intro x hx
  show f x ∈ (s'.purse.book.credit (f u) a).refs
  rw [Book.mem_refs_credit]
  rcases List.mem_append.mp hx with hx | hx
  · exact .inl (hdone x hx)
  · right
    rw [List.mem_singleton.mp hx]

/-- Everything that is due to the war is credited. -/
def ClubWars.Cleared (s : ClubWars U) (w : ClubWar U) : Prop :=
  ∀ r a, r.id = w.id → w.Due a r → 0 < a → r ∈ s.purse.book.refs

/-- The refunds of a war that is not decided for a club. -/
theorem refundAllWar_wp (h : ClubWarsOK s) {w : ClubWar U} (hrow : s.rows w.id = some w) (hwon : w.won = false) :
    (ClubWarService.refundAll w).wp (.store (ClubWars.reply fault))
      (fun _ s' => ClubWarsOK s' ∧ s'.rows w.id = some w ∧ s'.Cleared w) (fun _ => ClubWarsOK) s := by
  -- only the buy-ins are due
  have hcleared : ∀ s' : ClubWars U, (0 < w.stakeCents → ∀ u ∈ w.players, .refund w.id u ∈ s'.purse.book.refs) →
      s'.Cleared w := by
    intro s' hall r a hid hdue ha
    cases r with
    | refund i u =>
      obtain rfl : i = w.id := hid
      obtain ⟨-, hu, rfl⟩ := hdue
      exact hall ha u hu
    | rollback i u => exact hdue.elim
    | share i u =>
      rw [hdue.1] at hwon
      cases hwon
    | rake i =>
      rw [hdue.1] at hwon
      cases hwon
  unfold ClubWarService.refundAll
  by_cases hb : w.stakeCents = 0
  · rw [if_pos hb]
    exact ⟨h, hrow, hcleared s (by omega)⟩
  · rw [if_neg hb]
    refine Async.wp_mono (credits_wp h hrow (f := ClubWarRef.refund w.id) (fun _ => rfl) fun u hu => ⟨hwon, hu, rfl⟩)
      ?_ fun _ _ he => he
    rintro - s' ⟨hs', hrow', hall⟩
    exact ⟨hs', hrow', hcleared s' fun _ => hall⟩

/-- The shares and the rake of a war that is decided for a club. -/
theorem payoutSplit_wp (h : ClubWarsOK s) {w : ClubWar U} (hrow : s.rows w.id = some w) (hwon : w.won = true) :
    (ClubWarService.payoutSplit w.decideWinner).wp (.store (ClubWars.reply fault))
      (fun _ s' => ClubWarsOK s' ∧ s'.rows w.id = some w ∧ s'.Cleared w) (fun _ => ClubWarsOK) s := by
  have hcleared : ∀ s' : ClubWars U, (∀ u ∈ w.decideWinner.winners, .share w.id u ∈ s'.purse.book.refs) →
      (0 < w.decideWinner.rake → .rake w.id ∈ s'.purse.book.refs) → s'.Cleared w := by
    intro s' hshare hrake r a hid hdue ha
    cases r with
    | refund i u =>
      rw [hdue.1] at hwon
      cases hwon
    | rollback i u => exact hdue.elim
    | share i u =>
      obtain rfl : i = w.id := hid
      exact hshare u hdue.2.1
    | rake i =>
      obtain rfl : i = w.id := hid
      exact hrake (hdue.2 ▸ ha)
  unfold ClubWarService.payoutSplit
  rw [Async.wp_bind]
  refine Async.wp_mono (credits_wp h hrow (f := ClubWarRef.share w.id) (fun _ => rfl) fun u hu => ⟨hwon, hu, rfl⟩)
    ?_ fun _ _ he => he
  rintro - s' ⟨hs', hrow', hshare⟩
  by_cases hr : 0 < w.decideWinner.rake
  · rw [if_pos hr]
    have hraked := hs'.credit hrow' (r := .rake w.id) rfl ⟨hwon, rfl⟩
    refine Async.wp_await_faulty (ClubWarQuery.recordRake w.decideWinner.rake (.rake w.id))
      (fun _ => ⟨hraked, hrow', hcleared _ (fun u hu => ?_) fun _ => ?_⟩) (fun _ => hs') fun _ => hraked
    · exact Book.mem_refs_credit.mpr (.inl (hshare u hu))
    · exact Book.mem_refs_credit.mpr (.inr rfl)
  · rw [if_neg hr]
    exact ⟨hs', hrow', hcleared s' hshare fun hr' => absurd hr' hr⟩

/-- A war whose pairings are all decided is paid, and only then ends. -/
theorem settleWar_safe (h : ClubWarsOK s) {w : ClubWar U} (hrow : s.rows w.id = some w)
    (hs : w.status = .running) (hd : w.decided = true) :
    SafeWar fault (ClubWarService.settle w.decideWinner) s := by
  obtain ⟨-, hk⟩ := h.row w.id w hrow
  have hwon := ClubWar.won_running hs hd
  have hpaid : (ClubWarService.payoutSettled w.decideWinner).wp (.store (ClubWars.reply fault))
      (fun _ s' => ClubWarsOK s' ∧ s'.rows w.id = some w ∧ s'.Cleared w) (fun _ => ClubWarsOK) s := by
    unfold ClubWarService.payoutSettled
    split
    · rename_i hb
      -- nothing was paid in, so nothing is due
      refine ⟨h, hrow, fun r a _ hdue ha => ?_⟩
      have hpos := hk.pool_pos hdue ha
      have hpool := hk.pool
      rcases hb with (hb : w.stakeCents = 0) | (hb : w.prizePoolCents = 0)
      · rw [hb, Nat.zero_mul] at hpool
        omega
      · omega
    · split
      · rename_i hleader
        have hleader : w.leader = none := hleader
        exact refundAllWar_wp h hrow (by rw [hwon, hleader]; rfl)
      · rename_i club hleader
        have hleader : w.leader = some club := hleader
        exact payoutSplit_wp h hrow (by rw [hwon, hleader]; rfl)
  unfold ClubWarService.settle
  refine Async.Keeps.bind hpaid ?_
  rintro - s' ⟨hs', hrow', hall⟩
  obtain ⟨hid, hk'⟩ := hs'.row w.id w hrow'
  have hkept : KeptWar s'.purse w.id w.decideWinner.finished := by
    have hfinished : w.decideWinner.finished.won = w.leader.isSome := ClubWar.won_finished rfl
    exact hk'.close (hfinished.trans hwon.symm) rfl rfl rfl rfl rfl rfl (fun _ => rfl) hall
  have hsaved := hs'.setRow hid hkept
  exact Async.wp_await_faulty (ClubWarQuery.save w.decideWinner.finished) (fun _ => hsaved) (fun _ => hs') fun _ => hsaved

/-- The war is cancelled once every buy-in is refunded. -/
theorem cancelledWar_ok (h : ClubWarsOK s) {w : ClubWar U} (hrow : s.rows w.id = some w) (hwon : w.won = false)
    (hall : s.Cleared w) : ClubWarsOK (s.setRow w.cancelled) := by
  obtain ⟨hid, hk⟩ := h.row w.id w hrow
  refine h.setRow hid (hk.close ?_ rfl rfl rfl rfl rfl rfl (fun hf => by cases hf) hall)
  rw [hwon]
  exact ClubWar.won_eq_false (by simp [ClubWar.cancelled]) (by simp [ClubWar.cancelled])

/-- A cancelled war gives back what it took. -/
theorem cancelWar_safe (h : ClubWarsOK s) (id : ℕ) : SafeWar fault (ClubWarService.cancel id) s := by
  unfold ClubWarService.cancel
  refine SafeWar.get h id (.throw h _) fun w hrow => ?_
  refine .throwIf h _ _ fun hs => ?_
  have hs : w.status = .registering := by simpa using hs
  have hwon : w.won = false := ClubWar.won_eq_false (by simp [hs]) (by simp [hs])
  obtain rfl : w.id = id := (h.row id w hrow).2.id_eq
  refine Async.Keeps.bind (refundAllWar_wp h hrow hwon) ?_
  rintro - s' ⟨hs', hrow', hall⟩
  have hsaved := cancelledWar_ok hs' hrow' hwon hall
  exact SafeWar.ask hs' (.save w.cancelled) hsaved (.pure hsaved _)

/-- The sweep gives back what the wars took. -/
theorem sweepStaleWars_safe (h : ClubWarsOK s) (now maxAgeMs : ℤ) :
    SafeWar fault (ClubWarService.sweepStaleWars now maxAgeMs) s := by
  unfold ClubWarService.sweepStaleWars
  refine SafeWar.ask h .listActive h ?_
  refine Async.wp_foldlM (I := ClubWarsOK) ?_ h
  intro swept snap _ s' hs'
  show SafeWar fault (ClubWarService.sweepOne (now - maxAgeMs) swept snap) s'
  unfold ClubWarService.sweepOne
  split
  · exact .pure hs' _
  · refine SafeWar.get hs' snap.id (.pure hs' _) fun w hrow => ?_
    dsimp only
    split
    · exact .pure hs' _
    rename_i hactive
    have hid : w.id = snap.id := (hs'.row _ w hrow).2.id_eq
    rw [← hid] at hrow
    split
    · rename_i hdecided
      exact Async.Keeps.bind (settleWar_safe hs' hrow hdecided.1 hdecided.2) fun _ _ ht => .pure ht _
    · rename_i hopen
      -- not all pairings are decided, so nobody was paid
      have hwon : w.won = false := by
        refine ClubWar.won_eq_false ?_ fun hrunning => ?_
        · intro hf
          simp [hf, ClubWarStatus.active] at hactive
        · simpa [hrunning] using hopen
      refine Async.Keeps.bind (refundAllWar_wp hs' hrow hwon) ?_
      rintro - t ⟨ht, hrow', hall⟩
      have hsaved := cancelledWar_ok ht hrow' hwon hall
      exact SafeWar.ask ht (.save w.cancelled) hsaved (.pure hsaved _)

end Calls

/-! ## Every run -/

/-- Some buy-in of the war was refunded. -/
def ClubWars.refunded (s : ClubWars U) (w : ClubWar U) : Bool :=
  w.players.any fun u => .refund w.id u ∈ s.purse.book.refs

/-- A report that decides the war for a club although some buy-in was refunded. -/
def ClubWars.paysRefunded (s : ClubWars U) (e : ClubWarEvent U) : Bool :=
  match e.call with
  | .reportResult id aUserId bUserId winnerId =>
    match s.rows id with
    | none => false
    | some w =>
      match w.report aUserId bUserId winnerId with
      | .ok (some w') => w'.decided && w'.leader.isSome && s.refunded w
      | _ => false
  | _ => false

section Steps

variable {fault : ClubWarQuery U → Fault} {s : ClubWars U} {v : ClubWarService}

/-- A war not refunded has no refund booked. -/
theorem KeptWar.not_refunded {id : ℕ} {w : ClubWar U} (h : KeptWar s.purse id w)
    (hr : s.refunded w = false) (u : U) : .refund id u ∉ s.purse.book.refs := by
  intro hu
  obtain ⟨-, hmem, -⟩ := h.due _ hu rfl
  obtain rfl := h.id_eq
  unfold ClubWars.refunded at hr
  rw [List.any_eq_false] at hr
  simpa [hu] using hr u hmem

/-- A report pays out at most the pool, unless the war was refunded. -/
theorem reportWar_safe (h : ClubWarsOK s) (id : ℕ) (a b winner : U)
    (hpays : s.paysRefunded ⟨.reportResult id a b winner, fault⟩ = false) :
    SafeWar fault (ClubWarService.reportResult id a b winner) s := by
  unfold ClubWarService.reportResult
  unfold ClubWars.paysRefunded at hpays
  refine SafeWar.get h id (.throw h _) fun w hrow => ?_
  simp only [hrow] at hpays
  obtain ⟨hid, hk⟩ := h.row id w hrow
  dsimp only
  split
  · exact .throw h _
  · exact .pure h _
  · rename_i w' hreport
    simp only [hreport] at hpays
    obtain ⟨hrunning, hdecided, ps, x, y, hw'⟩ := ClubWar.report_ok hreport
    have hwon : w.won = false := ClubWar.won_eq_false (by simp [hrunning]) fun _ => hdecided
    have hs' : w'.status = .running := by
      rw [hw']
      exact hrunning
    have hopen : w'.status.active = true := by
      rw [hs']
      rfl
    obtain ⟨hid', hstake, hrate, hplayers, hpool⟩ : w'.id = w.id ∧ w'.stakeCents = w.stakeCents ∧
        w'.rakeBps = w.rakeBps ∧ w'.players = w.players ∧ w'.prizePoolCents = w.prizePoolCents := by
      rw [hw']
      exact ⟨rfl, rfl, rfl, rfl, rfl⟩
    split
    · rename_i hd
      -- decided for a club, or for nobody
      have hkept : KeptWar s.purse id w'.decideWinner := by
        refine hk.move hwon hid' hstake hrate hplayers hpool hopen fun hc => ?_
        have hleader : w'.leader.isSome = true := by
          have hwon' : w'.decideWinner.won = w'.leader.isSome := ClubWar.won_running hs' hd
          rw [← hwon']
          exact hc
        rw [hd, hleader] at hpays
        exact hk.not_refunded (by simpa using hpays)
      have hsaved := h.setRow hid hkept
      refine SafeWar.ask h (.save w'.decideWinner) hsaved ?_
      have hsettle : SafeWar fault (ClubWarService.settle w'.decideWinner.decideWinner) (s.setRow w'.decideWinner) :=
        settleWar_safe hsaved (Function.update_self ..) hs' hd
      exact Async.Keeps.bind hsettle fun _ _ ht => .pure ht _
    · rename_i hd
      have hwon' : w'.won = false := ClubWar.won_eq_false (by simp [hs']) fun _ => by simpa using hd
      have hkept : KeptWar s.purse id w' := by
        refine hk.move hwon hid' hstake hrate hplayers hpool hopen fun hc => ?_
        rw [hwon'] at hc
        cases hc
      have hsaved := h.setRow hid hkept
      exact SafeWar.ask h (.save w') hsaved (.pure hsaved _)

/-- **Every event that does not pay after a refund keeps the wars in order.** -/
theorem club_war_step_ok (huow : v.uow = true) (h : ClubWarsOK s) (e : ClubWarEvent U)
    (he : s.paysRefunded e = false) : ClubWarsOK (s.step v e) := by
  obtain ⟨c, fault⟩ := e
  have hsafe : SafeWar fault (c.program v) s := by
    cases c with
    | create a b stake size now => exact (createWar_safe h a b stake size now).map _
    | register id u side => exact (registerWar_safe huow h id u side).map _
    | start id => exact (startWar_safe h id).map _
    | reportResult id a b winner => exact (reportWar_safe h id a b winner he).map _
    | cancel id => exact (cancelWar_safe h id).map _
    | sweepStaleWars now maxAgeMs => exact (sweepStaleWars_safe h now maxAgeMs).map _
  exact hsafe.exec

end Steps

theorem club_wars_boot_ok : ClubWarsOK ({} : ClubWars U) := by
  refine ⟨?_, ?_, fun _ _ => rfl⟩
  · intro id w hrow
    cases hrow
  · intro id _
    exact ⟨rfl, by simp [Book.refs]⟩

/-- **A club war never pays out more than it escrowed**, over every run in which no report
decides a war for a club after one of its buy-ins was refunded: no more is credited than was
debited, refunds and a payout exclude each other, a finished war has credited its pool, as the
shares and the rake or on a tie as the buy-ins, and a cancelled one its buy-ins. -/
theorem club_war_never_overpays (v : ClubWarService) (huow : v.uow = true) (es : List (ClubWarEvent U))
    (hes : Guarded (ClubWars.step v) (fun s e => s.paysRefunded e = false) {} es) (id : ℕ) :
    let s := run (ClubWars.step v) {} es
    s.purse.credited ClubWarRef.id id ≤ s.purse.debited id ∧
    (∀ u, .refund id u ∈ s.purse.book.refs →
      (∀ x, .share id x ∉ s.purse.book.refs) ∧ .rake id ∉ s.purse.book.refs) ∧
    ∀ w, s.rows id = some w →
      (w.status = .finished → s.purse.credited ClubWarRef.id id = w.prizePoolCents ∧
        w.winnerClubId = w.leader ∧
        (w.leader = none → ∀ u ∈ w.players, s.purse.book.amount (.refund id u) = w.stakeCents) ∧
        (w.leader ≠ none → (∀ u ∈ w.winners, s.purse.book.amount (.share id u) = w.per) ∧
          s.purse.book.amount (.rake id) = w.rake)) ∧
      (w.status = .cancelled → s.purse.credited ClubWarRef.id id = s.purse.debited id ∧
        ∀ u ∈ w.players, s.purse.book.amount (.refund id u) = w.stakeCents) := by
  intro s
  have h : ClubWarsOK s :=
    guarded_inv (P := ClubWarsOK) (fun _ e hs he => club_war_step_ok huow hs e he) club_wars_boot_ok es hes
  refine ⟨?_, ?_, ?_⟩
  · cases hrow : s.rows id with
    | some w => exact (h.row id w hrow).2.credited_le
    | none =>
      rw [(h.untouched id hrow).credited]
      omega
  · intro u hu
    cases hrow : s.rows id with
    | some w => exact (h.row id w hrow).2.not_both hu
    | none => exact absurd rfl ((h.untouched id hrow).refs _ hu)
  · intro w hrow
    obtain ⟨-, hk⟩ := h.row id w hrow
    constructor
    · intro hs
      obtain ⟨hpool, hrefund, hpaid⟩ := hk.credited_eq (by rw [hs]; rfl)
      have hwon := ClubWar.won_finished hs
      have hdecision := hk.decision hs
      have hsame : w.decideWinner = w := by
        unfold ClubWar.decideWinner
        rw [← hdecision]
      rw [hsame] at hpaid
      refine ⟨hpool, hdecision, fun hnone => hrefund ?_, fun hsome => hpaid ?_⟩
      · rw [hwon, hnone]
        rfl
      · rw [hwon]
        exact Option.isSome_iff_ne_none.mpr hsome
    · intro hs
      obtain ⟨hpool, hrefund, -⟩ := hk.credited_eq (by rw [hs]; rfl)
      have hwon : w.won = false := ClubWar.won_eq_false (by simp [hs]) (by simp [hs])
      refine ⟨?_, hrefund hwon⟩
      rw [hpool, hk.paid, hk.pool]

/-- A rake of 5%, with a unit of work. -/
def fivePercent : ClubWarService := { rakeBps := 500, uow := true }

/-- One against one; the war is started, decided, and its payout fails before the rake; the
sweep ends it. -/
def paidInTwo : List (ClubWarEvent ℕ) :=
  [⟨.create 1 2 100 2 0, fun _ => .none⟩, ⟨.register 0 7 .a, fun _ => .none⟩,
    ⟨.register 0 8 .b, fun _ => .none⟩, ⟨.start 0, fun _ => .none⟩,
    ⟨.reportResult 0 7 8 7, fun q => match q with
      | .recordRake _ _ => .before
      | _ => .none⟩,
    ⟨.sweepStaleWars 10 5, fun _ => .none⟩]

/-- The war is finished, and its pool of 200 is credited once: 190 to the winner, 10 as the rake. -/
theorem club_war_never_overpays_swept :
    let s := run (ClubWars.step fivePercent) {} paidInTwo
    (s.rows 0).map (fun w => w.status) = some .finished ∧ s.purse.credited ClubWarRef.id 0 = 200 ∧
      s.purse.credited ClubWarRef.id 0 ≤ s.purse.debited 0 ∧ s.purse.book.amount (.share 0 7) = 190 ∧
      s.purse.book.amount (.rake 0) = 10 := by
  intro s
  obtain ⟨hle, -, hrow⟩ := club_war_never_overpays fivePercent rfl paidInTwo (by decide +kernel) 0
  have hread : (s.rows 0).map (fun w => (w.status, w.leader, w.winners)) = some (.finished, some 1, [7]) ∧
      (s.rows 0).map (fun w => (w.prizePoolCents, w.per, w.rake)) = some (200, 190, 10) := by decide +kernel
  cases hw : s.rows 0 with
  | none =>
    rw [hw] at hread
    cases hread.1
  | some w =>
    rw [hw] at hread
    simp only [Option.map_some, Option.some.injEq, Prod.mk.injEq] at hread ⊢
    obtain ⟨⟨hstatus, hleader, hwinners⟩, hpool, hper, hrake⟩ := hread
    obtain ⟨hcredited, -, -, hpaid⟩ := (hrow w hw).1 hstatus
    obtain ⟨hshares, hraked⟩ := hpaid (by rw [hleader]; exact Option.some_ne_none 1)
    refine ⟨hstatus, hcredited.trans hpool, hle, ?_, hraked.trans hrake⟩
    exact (hshares 7 (by rw [hwinners]; exact List.mem_singleton_self 7)).trans hper

/-- A cancellation fails before the second refund; the war is started and decided, and its
winner gets the whole pool. -/
def decidedAfterRefund : List (ClubWarEvent ℕ) :=
  [⟨.create 1 2 100 2 0, fun _ => .none⟩, ⟨.register 0 7 .a, fun _ => .none⟩,
    ⟨.register 0 8 .b, fun _ => .none⟩,
    ⟨.cancel 0, fun q => match q with
      | .credit 8 _ _ => .before
      | _ => .none⟩,
    ⟨.start 0, fun _ => .none⟩, ⟨.reportResult 0 7 8 7, fun _ => .none⟩]

/-- Two stakes of 100, 300 paid out: a refund first, the pool after it. -/
theorem club_war_overpays :
    (run (ClubWars.step fivePercent) {} decidedAfterRefund).purse.credited ClubWarRef.id 0 = 300 ∧
      (run (ClubWars.step fivePercent) {} decidedAfterRefund).purse.debited 0 = 200 ∧
      ((run (ClubWars.step fivePercent) {} decidedAfterRefund).rows 0).map (fun w => w.status) =
        some .finished ∧
      .refund 0 7 ∈ (run (ClubWars.step fivePercent) {} decidedAfterRefund).purse.book.refs ∧
      .share 0 7 ∈ (run (ClubWars.step fivePercent) {} decidedAfterRefund).purse.book.refs := by
  decide +kernel

end Murlan
