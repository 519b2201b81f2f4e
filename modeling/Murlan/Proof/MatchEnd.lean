import Murlan.Proof.Conservation
import Murlan.Proof.Progress
import Murlan.Proof.Step

/-!
# The end of a match

* `settle_completes`, `refund_completes`: a money call that is answered at once.
* `matchEnd_finalized`, `matchEnd_void`, `matchEnd_won`: the three ways of
  `settleAndEmitMatchEnd`, carried to its end.
* `match_end_closes`: what `settleAndEmitMatchEnd` comes to, for every list of
  winners.
-/

set_option linter.unusedSectionVars false

namespace Murlan

section Calls

variable {U M : Type} [DecidableEq U] [DecidableEq M] {m : Money U M} {r : MatchRecord U M}

/-- A task carried on until it has no request to wait for: two requests, answered. -/
def Money.complete (m : Money U M) (t : ℕ) : Money U M :=
  (((m.onDb t .answered).onResume t).onDb t .answered).onResume t

theorem Money.onDb_settleFind {t : ℕ} {i : SeatedSettle M} (h : m.tasks t = some (.settleFind i .pending)) :
    m.onDb t .answered = m.set t (.settleFind i (.answered (m.db.find i.matchId))) := by
  unfold Money.onDb
  rw [h]
  rfl

theorem Money.onDb_refundFind {t : ℕ} {id : M} (h : m.tasks t = some (.refundFind id none .pending)) :
    m.onDb t .answered = m.set t (.refundFind id none (.answered (m.db.find id))) := by
  unfold Money.onDb
  rw [h]
  rfl

/-- A settlement of an active match, answered at once: nothing is paid exactly if no
winner is a player of the row, and otherwise the row is settled or the call throws. -/
theorem settle_completes (hok : MoneyOK m) {i : SeatedSettle M} (hfree : m.inFlight i.matchId = false)
    (hfind : m.db.find i.matchId = some r) (hact : r.status = .active) :
    let m' := (m.settle i).complete m.nextTask
    ((∀ w ∈ i.winnerSeats, seatToUser r.players w = none) ∧
        m'.tasks m.nextTask = some (.done (.settle none)) ∧ m'.db = m.db) ∨
      (∃ w ∈ i.winnerSeats, (seatToUser r.players w).isSome = true) ∧
        (m'.tasks m.nextTask = some (.done .threw) ∨
          ∃ s r', m'.tasks m.nextTask = some (.done (.settle (some s))) ∧
            m'.db.find i.matchId = some r' ∧ r'.status = .settled) := by
  intro m'
  have hid : r.id = i.matchId := Db.find_id hfind
  set t := m.nextTask with ht
  -- first turn: the match is claimed and looked up
  have h1 : m.settle i = (m.claim i.matchId).spawn (.settleFind i .pending) := if_neg (by simp [hfree])
  have hk1 : (m.settle i).tasks t = some (.settleFind i .pending) := by rw [h1]; exact Function.update_self ..
  have hdb1 : (m.settle i).db = m.db := by rw [h1]; rfl
  have hok1 : MoneyOK (m.settle i) := hok.step_ok (.settle i)
  have h2 := Money.onDb_settleFind hk1
  rw [hdb1, hfind] at h2
  -- the row is found
  set m₂ := (m.settle i).onDb t .answered with hm₂
  have hk2 : m₂.tasks t = some (.settleFind i (.answered (some r))) := by rw [h2]; exact Money.set_tasks ..
  have hdb2 : m₂.db = m.db := by rw [h2]; exact hdb1
  have h3 : m₂.onResume t = m₂.settleFound t i (some r) := by
    unfold Money.onResume
    rw [hk2]
  -- only winners with a human on their seat are paid
  set ws := i.winnerSeats.filter (fun s => (seatToUser r.players s).isSome) with hws
  by_cases hnone : ws = []
  · left
    have h4 : m₂.onResume t = m₂.finish t i.matchId (.settle none) := by
      rw [h3]
      simp only [Money.settleFound, ne_eq, hact, not_true_eq_false, if_false, ← hws, hnone, if_true]
    have hk4 : (m₂.onResume t).tasks t = some (.done (.settle none)) := by rw [h4]; exact Money.finish_tasks ..
    have hm' : m' = m₂.onResume t := by
      show ((m₂.onResume t).onDb t .answered).onResume t = _
      rw [Money.onDb_done _ hk4, Money.onResume_done hk4]
    refine ⟨fun w hw => ?_, hm' ▸ hk4, ?_⟩
    · have hno := List.filter_eq_nil_iff.1 hnone w hw
      simpa using hno
    · rw [hm', h4]
      exact hdb2
  · right
    obtain ⟨w, hw⟩ := List.exists_mem_of_ne_nil _ hnone
    refine ⟨⟨w, (List.mem_filter.1 hw).1, (List.mem_filter.1 hw).2⟩, ?_⟩
    cases hs : splitPot r.potCents r.rakeBps ws with
    | error e =>
      left
      have h4 : m₂.onResume t = m₂.finish t i.matchId .threw := by
        rw [h3]
        simp only [Money.settleFound, ne_eq, hact, not_true_eq_false, if_false, ← hws, hnone, hs]
      have hk4 : (m₂.onResume t).tasks t = some (.done .threw) := by rw [h4]; exact Money.finish_tasks ..
      show (((m₂.onResume t).onDb t .answered).onResume t).tasks t = _
      rw [Money.onDb_done _ hk4, Money.onResume_done hk4]
      exact hk4
    | ok s =>
      have h4 : m₂.onResume t = m₂.set t (.settleCommit r s ws .pending) := by
        rw [h3]
        simp only [Money.settleFound, ne_eq, hact, not_true_eq_false, if_false, ← hws, hnone, hs]
      have hk4 : (m₂.onResume t).tasks t = some (.settleCommit r s ws .pending) := by
        rw [h4]; exact Money.set_tasks ..
      have hok4 : MoneyOK (m₂.onResume t) := (hok1.onDb_ok t .answered).onResume_ok t
      have hdb4 : (m₂.onResume t).db = m.db := by rw [h4]; exact hdb2
      set m₃ := m₂.onResume t with hm₃
      -- the row is still the one that was read
      obtain ⟨hfind3, -, hw3⟩ : m₃.db.find r.id = some r ∧ r.status = .active ∧ Winners r ws s :=
        hok4.knows t _ hk4
      cases htx : settleTx r s ws m₃.db with
      | error e =>
        left
        have h5 : m₃.onDb t .answered = (m₃.setDb m₃.db).set t (.settleCommit r s ws (.answered (some e))) := by
          unfold Money.onDb
          rw [hk4]
          simp only [Money.commit, htx]
        have h6 : (m₃.onDb t .answered).onResume t = (m₃.onDb t .answered).finish t r.id .threw := by
          have hk5 : (m₃.onDb t .answered).tasks t = some (.settleCommit r s ws (.answered (some e))) := by
            rw [h5]; exact Money.set_tasks ..
          show Money.onResume _ t = _
          unfold Money.onResume
          rw [hk5]
        show ((m₃.onDb t .answered).onResume t).tasks t = _
        rw [h6]
        exact Money.finish_tasks ..
      | ok db' =>
        right
        have h5 : m₃.onDb t .answered = (m₃.setDb db').set t (.settleCommit r s ws (.answered none)) := by
          unfold Money.onDb
          rw [hk4]
          simp only [Money.commit, htx]
        have h6 : (m₃.onDb t .answered).onResume t =
            (m₃.onDb t .answered).finish t r.id (.settle (some s)) := by
          have hk5 : (m₃.onDb t .answered).tasks t = some (.settleCommit r s ws (.answered none)) := by
            rw [h5]; exact Money.set_tasks ..
          show Money.onResume _ t = _
          unfold Money.onResume
          rw [hk5]
        -- the transaction has gone through and closed the row
        have hbooks := settleTx_books hfind3 hact
          (fresh_of_active hok4.refs (hok4.books r.id) hfind3 hact)
          (by rw [splitPot_seats hw3.split]; exact hw3.nodup) htx
        refine ⟨s, r.settled ws, ?_, ?_, rfl⟩
        · show ((m₃.onDb t .answered).onResume t).tasks t = _
          rw [h6]
          exact Money.finish_tasks ..
        · show ((m₃.onDb t .answered).onResume t).db.find _ = _
          rw [h6, h5]
          show db'.find _ = _
          rw [hbooks.find, if_pos hid.symm]

/-- A refund of an active match, answered at once: the row is cancelled or the call
throws. -/
theorem refund_completes (hok : MoneyOK m) {id : M} (hfree : m.inFlight id = false)
    (hfind : m.db.find id = some r) (hact : r.status = .active) :
    let m' := (m.refund id).complete m.nextTask
    m'.tasks m.nextTask = some (.done .threw) ∨
      m'.tasks m.nextTask = some (.done .refund) ∧
        ∃ r', m'.db.find id = some r' ∧ r'.status = .cancelled := by
  intro m'
  have hid : r.id = id := Db.find_id hfind
  set t := m.nextTask with ht
  -- first turn: the match is claimed and looked up
  have h1 : m.refund id = (m.claim id).spawn (.refundFind id none .pending) := if_neg (by simp [hfree])
  have hk1 : (m.refund id).tasks t = some (.refundFind id none .pending) := by
    rw [h1]; exact Function.update_self ..
  have hdb1 : (m.refund id).db = m.db := by rw [h1]; rfl
  have hok1 : MoneyOK (m.refund id) := hok.step_ok (.refund id)
  have h2 := Money.onDb_refundFind hk1
  rw [hdb1, hfind] at h2
  set m₂ := (m.refund id).onDb t .answered with hm₂
  have hk2 : m₂.tasks t = some (.refundFind id none (.answered (some r))) := by rw [h2]; exact Money.set_tasks ..
  -- the row is active: the refund is sent
  have h3 : m₂.onResume t = m₂.set t (.refundCommit r none .pending) := by
    unfold Money.onResume
    rw [hk2]
    simp only [Money.refundFound, ne_eq, hact, not_true_eq_false, if_false]
  set m₃ := m₂.onResume t with hm₃
  have hk3 : m₃.tasks t = some (.refundCommit r none .pending) := by rw [h3]; exact Money.set_tasks ..
  have hok3 : MoneyOK m₃ := (hok1.onDb_ok t .answered).onResume_ok t
  obtain ⟨hfind3, -⟩ : m₃.db.find r.id = some r ∧ r.status = .active := hok3.knows t _ hk3
  cases htx : refundTx r m₃.db with
  | error e =>
    left
    have h5 : m₃.onDb t .answered = (m₃.setDb m₃.db).set t (.refundCommit r none (.answered (some e))) := by
      unfold Money.onDb
      rw [hk3]
      simp only [Money.commit, htx]
    have h6 : (m₃.onDb t .answered).onResume t = (m₃.onDb t .answered).finish t r.id .threw := by
      have hk5 : (m₃.onDb t .answered).tasks t = some (.refundCommit r none (.answered (some e))) := by
        rw [h5]; exact Money.set_tasks ..
      show Money.onResume _ t = _
      unfold Money.onResume
      rw [hk5]
      rfl
    show ((m₃.onDb t .answered).onResume t).tasks t = _
    rw [h6]
    exact Money.finish_tasks ..
  | ok db' =>
    right
    have h5 : m₃.onDb t .answered = (m₃.setDb db').set t (.refundCommit r none (.answered none)) := by
      unfold Money.onDb
      rw [hk3]
      simp only [Money.commit, htx]
    have h6 : (m₃.onDb t .answered).onResume t = (m₃.onDb t .answered).finish t r.id .refund := by
      have hk5 : (m₃.onDb t .answered).tasks t = some (.refundCommit r none (.answered none)) := by
        rw [h5]; exact Money.set_tasks ..
      show Money.onResume _ t = _
      unfold Money.onResume
      rw [hk5]
      rfl
    -- the transaction has gone through and closed the row
    have hsane := ((hok3.books r.id).of_active hfind3 hact).1
    have hbooks := refundTx_books hfind3 hact
      (fresh_of_active hok3.refs (hok3.books r.id) hfind3 hact) hsane.seats_nodup htx
    refine ⟨?_, r.cancelled, ?_, rfl⟩
    · show ((m₃.onDb t .answered).onResume t).tasks t = _
      rw [h6]
      exact Money.finish_tasks ..
    · show ((m₃.onDb t .answered).onResume t).db.find _ = _
      rw [h6, h5]
      show db'.find _ = _
      rw [hbooks.find, if_pos hid.symm]

end Calls

namespace Gateway

variable {g g₁ : Gateway} {i k t : ℕ} {r : Room} {id : MatchId} {rec : MatchRecord User MatchId}
  {result : EndResult}

/-! ## The end, answered -/

/-- The answers a call waits for that has the money task `t` and the number `k`. -/
def answers (t k : ℕ) : List Event :=
  [.db t .answered, .resume t, .db t .answered, .resume t, .resumeEnding k, .resumeEnding k]

/-- `settleAndEmitMatchEnd` to its end: a call that awaits is answered at once. -/
def matchEnd (g : Gateway) (roomId : ℕ) (result : EndResult) : Gateway :=
  let g₁ := g.settleAndEmitMatchEnd roomId result
  if g₁.nextEnding = g.nextEnding then g₁ else run step g₁ (answers g.money.nextTask g.nextEnding)

/-- The money task has thrown. -/
def threw (m : Money User MatchId) (t : ℕ) : Bool :=
  match m.tasks t with
  | some (.done .threw) => true
  | _ => false

theorem threw_of {m : Money User MatchId} (h : m.tasks t = some (.done .threw)) : threw m t = true := by
  unfold threw
  rw [h]

/-- The row of the match is closed and `match:end` is sent. -/
structure Closed (g g' : Gateway) (roomId : ℕ) (id : MatchId) : Prop where
  row : ∃ rec, g'.money.db.find id = some rec ∧ rec.status ≠ .active
  announced : ∃ e : MatchEnd, e.roomId = roomId ∧ g'.matchEnds = g.matchEnds ++ [e]

theorem run_answers (g : Gateway) (t k : ℕ) :
    run step g (answers t k) = ((g.withMoney (g.money.complete t)).resumeEnding k).resumeEnding k := rfl

theorem resumeEnding_ended (h : g.endings k = none) : g.resumeEnding k = g := by
  unfold resumeEnding
  rw [h]

theorem endEnding_ended (g : Gateway) (k : ℕ) : (g.endEnding k).endings k = none := Function.update_self ..

/-- The refund of a match without a winner is done: its end is announced. -/
theorem resumeEnding_refunded {x : Ending} (hx : g.endings k = some x) (hst : x.stage = .refunding t)
    (hd : g.money.tasks t = some (.done .refund)) :
    ∃ e : MatchEnd, e.roomId = x.roomId ∧ (g.resumeEnding k).matchEnds = g.matchEnds ++ [e] ∧
      (g.resumeEnding k).money = g.money ∧ (g.resumeEnding k).endings k = none := by
  have h : g.resumeEnding k = (g.announceVoid x.roomId x.result).endEnding k := by
    unfold resumeEnding
    rw [hx]
    simp only [hst, hd]
  rw [h]
  exact ⟨_, rfl, rfl, rfl, endEnding_ended ..⟩

/-- Nothing was settled: nothing is announced. -/
theorem resumeEnding_unsettled {x : Ending} (hx : g.endings k = some x) (hst : x.stage = .settling t)
    (hd : g.money.tasks t = some (.done (.settle none))) :
    (g.resumeEnding k).matchEnds = g.matchEnds ∧ (g.resumeEnding k).endings k = none := by
  have h : g.resumeEnding k = (g.freeGone x.roomId).endEnding k := by
    unfold resumeEnding
    rw [hx]
    simp only [hst, hd]
  rw [h]
  exact ⟨rfl, endEnding_ended ..⟩

/-- The end of a live match is told. -/
theorem announce_announces (hr : g.rooms.rooms i = some r) (hm : r.match_.isSome = true)
    (result : EndResult) (payout : Option ℕ) :
    ∃ e : MatchEnd, e.roomId = i ∧ (g.announce i result payout).matchEnds = g.matchEnds ++ [e] ∧
      (g.announce i result payout).money = g.money := by
  obtain ⟨m, hm⟩ := Option.isSome_iff_exists.1 hm
  have hsb : ∃ sb, g.scoreboardOf i = some sb := by
    unfold scoreboardOf Room.scoreboard
    rw [hr, Option.bind_some, hm]
    exact ⟨_, rfl⟩
  obtain ⟨sb, hsb⟩ := hsb
  unfold announce
  rw [hsb]
  exact ⟨_, rfl, rfl, rfl⟩

/-- The pot was paid out: the end is announced, in a ranked room once its result is
recorded. -/
theorem resumeEnding_settled {x : Ending} (hx : g.endings k = some x) (hst : x.stage = .settling t)
    {s : Settlement} (hd : g.money.tasks t = some (.done (.settle (some s))))
    (hr : g.rooms.rooms x.roomId = some r) (hm : r.match_.isSome = true) :
    ∃ e : MatchEnd, e.roomId = x.roomId ∧
      ((g.resumeEnding k).resumeEnding k).matchEnds = g.matchEnds ++ [e] ∧
      ((g.resumeEnding k).resumeEnding k).money = g.money := by
  have h : g.resumeEnding k = g.afterPayout k x (some s.paid) := by
    unfold resumeEnding
    rw [hx]
    simp only [hst, hd]
  rw [h]
  unfold afterPayout
  split
  · obtain ⟨e, he, hends, hmoney⟩ := announce_announces hr hm x.result (some s.paid)
    rw [resumeEnding_ended (endEnding_ended ..)]
    exact ⟨e, he, hends, hmoney⟩
  · have hrec : (g.setEnding k { x with stage := .recording (some s.paid) }).endings k =
        some { x with stage := .recording (some s.paid) } := Function.update_self ..
    have hr' : (g.setEnding k { x with stage := .recording (some s.paid) }).rooms.rooms x.roomId = some r := hr
    obtain ⟨e, he, hends, hmoney⟩ := announce_announces hr' hm x.result (some s.paid)
    refine ⟨e, he, ?_, ?_⟩
    · unfold resumeEnding
      rw [hrec]
      exact hends
    · unfold resumeEnding
      rw [hrec]
      exact hmoney

/-! ## The call itself -/

/-- What the call has done when it first awaits. -/
theorem settleAndEmitMatchEnd_awaits (hr : g.rooms.rooms i = some r) (hid : r.matchId = some id)
    (hpr : r.practice = false) (hnew : id ∉ g.finalized) (result : EndResult) :
    ∃ g₂ : Gateway, g₂.money = g.money ∧ g₂.matchEnds = g.matchEnds ∧ g₂.nextEnding = g.nextEnding ∧
      g₂.rooms.rooms i = some r.finish ∧
      g.settleAndEmitMatchEnd i result =
        if result.winnerSeats = [] then
          (g₂.withMoney (g.money.refund id)).await { roomId := i, result, stage := .refunding g.money.nextTask }
        else (g₂.withMoney (g.money.settle (result.settleInput id))).await
          { roomId := i, result, stage := .settling g.money.nextTask } := by
  have hkey : g.finalizeKey i = id := by
    unfold finalizeKey RoomManager.matchIdOf
    rw [hr, Option.bind_some, hid]
    rfl
  cases hc : g.claimFinalize i with
  | none =>
    unfold claimFinalize at hc
    simp only [hkey, if_neg hnew] at hc
    cases hc
  | some g₂ =>
    obtain ⟨hrooms, hmoney, -, -, hnext, hends⟩ := claimFinalize_some hc
    have hr₂ : g₂.rooms.rooms i = some r.finish := by
      rw [hrooms]
      unfold RoomManager.markFinished RoomManager.modify
      rw [hr]
      exact Function.update_self ..
    have hid₂ : g₂.rooms.matchIdOf i = some id := by
      unfold RoomManager.matchIdOf
      rw [hr₂, Option.bind_some]
      exact hid
    have hpr₂ : g₂.isPractice i = false := by
      unfold isPractice
      rw [hr₂]
      exact hpr
    refine ⟨g₂, hmoney, hends, hnext, hr₂, ?_⟩
    unfold settleAndEmitMatchEnd
    rw [hc]
    cases hws : result.winnerSeats with
    | nil => simp [hid₂, hmoney]
    | cons w ws => simp [hid₂, hmoney, hpr₂]

/-- A call on a claimed match is answered at once and changes nothing. -/
theorem complete_done {m : Money User MatchId} {o : CallResult User MatchId}
    (h : m.tasks t = some (.done o)) : m.complete t = m := by
  unfold Money.complete
  rw [Money.onDb_done _ h, Money.onResume_done h, Money.onDb_done _ h, Money.onResume_done h]

/-- The awaited call, carried to its end. -/
theorem matchEnd_eq {g₂ : Gateway} {m : Money User MatchId} {x : Ending}
    (hg : g.settleAndEmitMatchEnd i result = (g₂.withMoney m).await x) (hn : g₂.nextEnding = g.nextEnding) :
    g.matchEnd i result =
      ((((g₂.withMoney m).await x).withMoney (m.complete g.money.nextTask)).resumeEnding
        g.nextEnding).resumeEnding g.nextEnding := by
  have hne : ((g₂.withMoney m).await x).nextEnding ≠ g.nextEnding := by
    show g₂.nextEnding + 1 ≠ g.nextEnding
    omega
  unfold matchEnd
  rw [hg]
  simp only [if_neg hne]
  exact run_answers ..

theorem await_endings (g₂ : Gateway) (x : Ending) (hn : g₂.nextEnding = k) : (g₂.await x).endings k = some x := by
  rw [← hn]
  exact Function.update_self ..

section Cases

variable (hok : MoneyOK g.money) (hr : g.rooms.rooms i = some r) (hid : r.matchId = some id)
  (hpr : r.practice = false) (hrow : g.money.db.find id = some rec) (hact : rec.status = .active)

include hrow hact in
/-- A match that has been finalized is left as it is. -/
theorem matchEnd_finalized (hr : g.rooms.rooms i = some r) (hid : r.matchId = some id)
    (hold : id ∈ g.finalized) : ¬ Closed g (g.matchEnd i result) i id := by
  have hkey : g.finalizeKey i = id := by
    unfold finalizeKey RoomManager.matchIdOf
    rw [hr, Option.bind_some, hid]
    rfl
  have hclaimed : g.Claimed i := by
    unfold Claimed
    rw [hkey]
    exact hold
  have hsame : g.matchEnd i result = g := by
    unfold matchEnd
    rw [settleAndEmitMatchEnd_claimed hclaimed result]
    exact if_pos rfl
  rintro ⟨⟨rec', hrec', hclosed⟩, -⟩
  rw [hsame, hrow] at hrec'
  cases hrec'
  exact hclosed hact

include hok hr hid hpr hrow hact in
/-- Nobody won: the stakes are refunded, unless the match is claimed. -/
theorem matchEnd_void (hnew : id ∉ g.finalized) (hws : result.winnerSeats = [])
    (hdone : threw (g.matchEnd i result).money g.money.nextTask = false) :
    Closed g (g.matchEnd i result) i id ↔ g.money.inFlight id = false := by
  obtain ⟨g₂, hmoney, hends, hnext, hr₂, hcall⟩ := settleAndEmitMatchEnd_awaits hr hid hpr hnew result
  rw [if_pos hws] at hcall
  have heq := matchEnd_eq hcall hnext
  set m := g.money.refund id with hm
  set g₃ := ((g₂.withMoney m).await { roomId := i, result, stage := .refunding g.money.nextTask }).withMoney
    (m.complete g.money.nextTask) with hg₃
  have hx : g₃.endings g.nextEnding = some { roomId := i, result, stage := .refunding g.money.nextTask } :=
    await_endings (g₂.withMoney m) _ hnext
  have hends₃ : g₃.matchEnds = g.matchEnds := hends
  -- once the refund is done the end is announced, whatever the row has become
  have hfin : g₃.money.tasks g.money.nextTask = some (.done .refund) →
      (∃ e : MatchEnd, e.roomId = i ∧ (g.matchEnd i result).matchEnds = g.matchEnds ++ [e]) ∧
        (g.matchEnd i result).money = m.complete g.money.nextTask := by
    intro hd
    obtain ⟨e, he, hann, hmon, hend⟩ := resumeEnding_refunded hx rfl hd
    rw [heq, resumeEnding_ended hend, ← hends₃]
    exact ⟨⟨e, he, hann⟩, hmon⟩
  cases hfly : g.money.inFlight id with
  | true =>
    have hmm : m = g.money.spawn (.done .refund) := by
      rw [hm]
      unfold Money.refund
      rw [if_pos hfly]
    have hd : m.tasks g.money.nextTask = some (.done .refund) := by rw [hmm]; exact Function.update_self ..
    have hcomp := complete_done hd
    obtain ⟨-, hmon⟩ := hfin (by show (m.complete _).tasks _ = _; rw [hcomp]; exact hd)
    refine ⟨fun h => ?_, fun h => absurd h (by simp)⟩
    obtain ⟨rec', hrec', hclosed⟩ := h.row
    rw [hmon, hcomp, hmm] at hrec'
    have hsame : g.money.db.find id = some rec' := hrec'
    rw [hrow] at hsame
    cases hsame
    exact absurd hact hclosed
  | false =>
    refine ⟨fun _ => rfl, fun _ => ?_⟩
    rcases refund_completes hok hfly hrow hact with hthrew | ⟨hd, rec', hrec', hst⟩
    · exfalso
      have hx₄ : g₃.resumeEnding g.nextEnding = (g₃.freeGone i).endEnding g.nextEnding := by
        unfold resumeEnding
        rw [hx]
        have hthrew' : g₃.money.tasks g.money.nextTask = some (.done .threw) := hthrew
        simp only [hthrew']
      rw [heq, hx₄, resumeEnding_ended (endEnding_ended ..)] at hdone
      exact absurd (threw_of hthrew) (Bool.eq_false_iff.1 hdone)
    · obtain ⟨hann, hmon⟩ := hfin hd
      exact ⟨⟨rec', by rw [hmon]; exact hrec', by rw [hst]; simp⟩, hann⟩

include hok hr hid hpr hrow hact in
/-- Somebody won: the pot is settled, unless the match is claimed or no winner is an
escrowed player. -/
theorem matchEnd_won (hmatch : r.match_.isSome = true) (hnew : id ∉ g.finalized) (hws : result.winnerSeats ≠ [])
    (hdone : threw (g.matchEnd i result).money g.money.nextTask = false) :
    Closed g (g.matchEnd i result) i id ↔
      g.money.inFlight id = false ∧ ∃ w ∈ result.winnerSeats, (seatToUser rec.players w).isSome = true := by
  obtain ⟨g₂, hmoney, hends, hnext, hr₂, hcall⟩ := settleAndEmitMatchEnd_awaits hr hid hpr hnew result
  rw [if_neg hws] at hcall
  have heq := matchEnd_eq hcall hnext
  set m := g.money.settle (result.settleInput id) with hm
  set g₃ := ((g₂.withMoney m).await { roomId := i, result, stage := .settling g.money.nextTask }).withMoney
    (m.complete g.money.nextTask) with hg₃
  have hx : g₃.endings g.nextEnding = some { roomId := i, result, stage := .settling g.money.nextTask } :=
    await_endings (g₂.withMoney m) _ hnext
  have hends₃ : g₃.matchEnds = g.matchEnds := hends
  -- a settlement of nothing is not announced
  have hsilent : g₃.money.tasks g.money.nextTask = some (.done (.settle none)) →
      ¬ Closed g (g.matchEnd i result) i id := by
    intro hd h
    obtain ⟨e, -, hann⟩ := h.announced
    obtain ⟨hsame, hend⟩ := resumeEnding_unsettled hx rfl hd
    rw [heq, resumeEnding_ended hend, hsame, hends₃] at hann
    simpa using congrArg List.length hann
  cases hfly : g.money.inFlight id with
  | true =>
    have hmm : m = g.money.spawn (.done (.settle none)) := by
      rw [hm]
      unfold Money.settle
      rw [if_pos (show g.money.inFlight (result.settleInput id).matchId = true from hfly)]
    have hd : m.tasks g.money.nextTask = some (.done (.settle none)) := by
      rw [hmm]; exact Function.update_self ..
    have hd₃ : g₃.money.tasks g.money.nextTask = some (.done (.settle none)) := by
      show (m.complete _).tasks _ = _
      rw [complete_done hd]
      exact hd
    exact ⟨fun h => absurd h (hsilent hd₃), fun h => absurd h.1 (by simp)⟩
  | false =>
    have hmem : ∀ w, w ∈ (result.settleInput id).winnerSeats ↔ w ∈ result.winnerSeats := fun w => List.mem_dedup
    rcases settle_completes hok (i := result.settleInput id) hfly hrow hact with
      ⟨hno, hd, -⟩ | ⟨⟨w, hw, hwin⟩, hthrew | ⟨s, rec', hd, hrec', hst⟩⟩
    · refine ⟨fun h => absurd h (hsilent hd), ?_⟩
      rintro ⟨-, w, hw, hwin⟩
      rw [hno w ((hmem w).2 hw)] at hwin
      cases hwin
    · exfalso
      have hx₄ : g₃.resumeEnding g.nextEnding = (g₃.freeGone i).endEnding g.nextEnding := by
        unfold resumeEnding
        rw [hx]
        have hthrew' : g₃.money.tasks g.money.nextTask = some (.done .threw) := hthrew
        simp only [hthrew']
      rw [heq, hx₄, resumeEnding_ended (endEnding_ended ..)] at hdone
      exact absurd (threw_of hthrew) (Bool.eq_false_iff.1 hdone)
    · refine ⟨fun _ => ⟨rfl, w, (hmem w).1 hw, hwin⟩, fun _ => ?_⟩
      have hr₃ : g₃.rooms.rooms i = some r.finish := hr₂
      have hm₃ : r.finish.match_.isSome = true := hmatch
      obtain ⟨e, he, hann, hmon⟩ := resumeEnding_settled hx rfl hd hr₃ hm₃
      rw [← heq] at hann hmon
      rw [hends₃] at hann
      refine ⟨⟨rec', ?_, by rw [hst]; simp⟩, e, he, hann⟩
      rw [hmon]
      exact hrec'

end Cases

/-- **The end of a match.** In every state a server can reach, the end of a match that
has a row closes the row and is announced exactly if it is the first end of that match,
no other call has claimed the match, and nobody won or some winner is an escrowed
player. -/
theorem match_end_closes (earlier : List (MoneyEvent User MatchId)) (tag target rakeBps : ℕ)
    (es : List Event) (hg : g = run step (boot earlier tag target rakeBps) es)
    (hr : g.rooms.rooms i = some r) (hid : r.matchId = some id) (hmatch : r.match_.isSome = true)
    (hpr : r.practice = false) (hrow : g.money.db.find id = some rec) (hact : rec.status = .active)
    (result : EndResult) (hdone : threw (g.matchEnd i result).money g.money.nextTask = false) :
    Closed g (g.matchEnd i result) i id ↔
      id ∉ g.finalized ∧ g.money.inFlight id = false ∧
        (result.winnerSeats = [] ∨ ∃ w ∈ result.winnerSeats, (seatToUser rec.players w).isSome = true) := by
  have hok : MoneyOK g.money := hg ▸ run_moneyOK earlier tag target rakeBps es
  by_cases hnew : id ∈ g.finalized
  · exact ⟨fun h => absurd h (matchEnd_finalized hrow hact hr hid hnew), fun h => absurd hnew h.1⟩
  · by_cases hws : result.winnerSeats = []
    · rw [matchEnd_void hok hr hid hpr hrow hact hnew hws hdone]
      simp [hnew, hws]
    · rw [matchEnd_won hok hr hid hpr hrow hact hmatch hnew hws hdone]
      simp [hnew, hws]

/-! ## A ranked match against bots -/

/-- A queued human gets a bot for an opponent, the free row is created, and the match
starts. -/
def vsBot : List Event :=
  [.register (.human 0), .connect 0 0, .rankedQueueJoin 0 .oneVOne, .enqueue 0, .formRankedVsBots 0 .oneVOne,
    .countdown 1 fun _ => sortedDeal 2, .db 0 .answered, .resume 0, .db 0 .answered, .resume 0,
    .resumeBegin 0 fun _ => sortedDeal 2]

/-- The row of a free match against a bot. -/
def vsBotRow : MatchRecord User MatchId :=
  { id := ⟨0, 1, 1⟩, type := .oneVOne, stakeCents := 0, rakeBps := 500, potCents := 0,
    players := [⟨0, .human 0⟩] }

/-- The human wins: the row is settled. -/
theorem match_end_closes_human :
    Closed (run step (boot [] 0 21 500) vsBot)
        ((run step (boot [] 0 21 500) vsBot).matchEnd 1
          { winnerSide := 0, winnerSeats := [0], finalSideScores := [21, 0] }) 1 ⟨0, 1, 1⟩ :=
  (match_end_closes [] 0 21 500 vsBot rfl
    (Option.some_get (show ((run step (boot [] 0 21 500) vsBot).rooms.rooms 1).isSome = true by decide +kernel)).symm
    (by decide +kernel) (by decide +kernel) (by decide +kernel)
    (show (run step (boot [] 0 21 500) vsBot).money.db.find ⟨0, 1, 1⟩ = some vsBotRow by decide +kernel)
    rfl _ (by decide +kernel)).2 ⟨by decide +kernel, by decide +kernel, Or.inr ⟨0, by decide, by decide⟩⟩

/-- The bot wins: its seat is no player of the row, nothing is settled, the row stays
active and no end is announced. -/
theorem match_end_forgotten :
    let live := run step (boot [] 0 21 500) vsBot
    let ended := run step live (.idle 1 0 :: answers 1 0)
    (live.rooms.rooms 1).map Room.status = some .inMatch ∧ (ended.rooms.rooms 1).map Room.status = some .finished ∧
      (ended.endings 0).isNone = true ∧ threw ended.money 1 = false ∧
      (ended.money.db.find ⟨0, 1, 1⟩).map MatchRecord.status = some .active ∧ ended.matchEnds = [] := by
  decide +kernel

end Gateway

end Murlan
