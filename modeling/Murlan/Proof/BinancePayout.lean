import Mathlib.Data.List.Induction
import Murlan.Proof.Withdrawals
import Murlan.Spec.BinancePayout

/-!
# What a payout answer means

`ClassifiedSafely`: an answer is a definite failure only after an explicit rejection, a
duplicate only if the rejection says so, a success only with an id, and ambiguous otherwise.
`payout_safe_iff` says for which answers this holds. Not for a 2xx answer whose body cannot be
read (`unread_body_refunded`), and not for a rejection that merely names `withdrawOrderId`.
In every run of the desk, a withdrawal that was sent is refunded only after an answer that is
a definite failure (`refunded_after_rejection`).
-/

namespace Murlan

section Classification

variable (parse : String → Option BinanceBody)

/-- A 4xx status other than 429, or an error code in the body. -/
def ExplicitRejection : SendReply → Prop
  | .threw _ _ => False
  | .response status body =>
    (400 ≤ status ∧ status < 500 ∧ status ≠ 429) ∨ (errorCode parse (body.getD "")).isSome = true

/-- The code means a repeated id, or the message says so; the message of a body that is not
JSON is the body. -/
def SaysUsed : SendReply → Prop
  | .threw _ _ => False
  | .response _ body =>
    match parse (body.getD "") with
    | none => saysDuplicate (body.getD "") = true
    | some j => j.code.number?.any (fun code => code ∈ duplicateCodes) = true ∨ saysDuplicate (j.msg.text.getD "") = true

/-- The id the provider gave. -/
def GivesId (providerRef : Option String) : SendReply → Prop
  | .threw _ _ => False
  | .response status body =>
    isOkStatus status = true ∧
      ∃ j id, parse (body.getD "") = some j ∧ j.id.isTruthy = true ∧ j.id.text = some id ∧ providerRef = some id

/-- What the result may say of an answer. -/
structure ClassifiedSafely (currency : String) (reply : SendReply) (r : PayoutResult) : Prop where
  definite : r.refused = true → payoutNetwork currency = none ∨ ExplicitRejection parse reply
  duplicate : r.duplicate = true → ExplicitRejection parse reply ∧ SaysUsed parse reply
  success : r.ok = true → GivesId parse r.providerRef reply
  rest : r.ok = false → r.duplicate = false → r.refused = false → r.ambiguous = true

/-- A 2xx answer has an id or an error code; an answer below 400 that is no success has an
error code or reads as a duplicate; what reads as a duplicate is a rejection that says so. -/
def Readable : SendReply → Prop
  | .threw _ _ => True
  | .response status body =>
    if isOkStatus status = true then
      if (errorCode parse (body.getD "")).isSome = true then
        classifyBinanceError parse (body.getD "") = true → SaysUsed parse (.response status body)
      else ∃ j, parse (body.getD "") = some j ∧ j.id.isTruthy = true
    else if classifyBinanceError parse (body.getD "") = true then
      ExplicitRejection parse (.response status body) ∧ SaysUsed parse (.response status body)
    else status < 400 → (errorCode parse (body.getD "")).isSome = true

variable {parse} {status : ℕ} {body : Option String} {currency : String}

theorem isOkStatus_iff : isOkStatus status = true ↔ 200 ≤ status ∧ status < 300 := by
  unfold isOkStatus
  simp

/-- The catch claims nothing. -/
theorem ambiguousSend_safe (currency : String) (reply : SendReply) (timeoutMs : ℕ) (aborted : Bool) (err : String) :
    ClassifiedSafely parse currency reply (ambiguousSend timeoutMs aborted err) := by
  refine ⟨fun hr => ?_, fun hr => ?_, fun hr => ?_, fun _ _ _ => rfl⟩
  · cases hr
  · cases hr
  · cases hr

/-- The answers with success. -/
theorem acceptedSend_safe_iff (hok : isOkStatus status = true) (hcurrency : payoutNetwork currency ≠ none)
    (timeoutMs : ℕ) :
    ClassifiedSafely parse currency (.response status body) (acceptedSend parse timeoutMs (body.getD "")) ↔
      Readable parse (.response status body) := by
  have hstatus := isOkStatus_iff.mp hok
  unfold Readable acceptedSend
  dsimp only
  rw [if_pos hok]
  by_cases hcode : (errorCode parse (body.getD "")).isSome = true
  -- the body carries an error code: a rejection, unless the code is that of a duplicate
  · have hexplicit : ExplicitRejection parse (.response status body) := .inr hcode
    rw [if_pos hcode, if_pos hcode]
    by_cases hdup : classifyBinanceError parse (body.getD "") = true
    · rw [if_pos hdup]
      constructor
      · intro h _
        exact (h.duplicate rfl).2
      · intro h
        refine ⟨fun hr => ?_, fun _ => ⟨hexplicit, h hdup⟩, fun hr => ?_, fun _ hr => ?_⟩
        · cases hr
        · cases hr
        · cases hr
    · rw [if_neg hdup]
      refine iff_of_true ?_ fun h => absurd h hdup
      split
      · refine ⟨fun _ => .inr hexplicit, fun hr => ?_, fun hr => ?_, fun _ _ hr => ?_⟩
        · cases hr
        · cases hr
        · cases hr
      · exact ambiguousSend_safe _ _ _ _ _
  · rw [if_neg hcode, if_neg hcode]
    cases hparse : parse (body.getD "") with
    -- an unreadable body is called a definite failure, of a send the provider had accepted
    | none =>
      refine iff_of_false (fun h => ?_) (by rintro ⟨j, hj, -⟩; cases hj)
      rcases h.definite rfl with hnone | hclient | herror
      · exact hcurrency hnone
      · omega
      · exact hcode herror
    | some j =>
      by_cases hid : j.id.isTruthy = true
      · refine iff_of_true ?_ ⟨j, rfl, hid⟩
        rw [Option.getD_some, if_pos hid]
        split
        · rename_i id htext
          refine ⟨fun hr => ?_, fun hr => ?_, fun _ => ⟨hok, j, id, hparse, hid, htext, rfl⟩, fun hr => ?_⟩
          · cases hr
          · cases hr
          · cases hr
        · exact ambiguousSend_safe _ _ _ _ _
      -- no id in it: a definite failure once more
      · refine iff_of_false (fun h => ?_) ?_
        · rw [Option.getD_some, if_neg hid] at h
          rcases h.definite rfl with hnone | hclient | herror
          · exact hcurrency hnone
          · omega
          · exact hcode herror
        · rintro ⟨j', hj', hid'⟩
          cases hj'
          exact hid hid'

/-- The answers without success. -/
theorem rejectedSend_safe_iff (hok : ¬isOkStatus status = true) (hcurrency : payoutNetwork currency ≠ none) :
    ClassifiedSafely parse currency (.response status body) (rejectedSend parse status (body.getD "")) ↔
      Readable parse (.response status body) := by
  unfold Readable rejectedSend
  dsimp only
  rw [if_neg hok]
  by_cases hdup : classifyBinanceError parse (body.getD "") = true
  · rw [if_pos hdup, if_pos hdup]
    constructor
    · intro h
      exact h.duplicate rfl
    · intro h
      refine ⟨fun hr => ?_, fun _ => h, fun hr => ?_, fun _ hr => ?_⟩
      · cases hr
      · cases hr
      · cases hr
  · rw [if_neg hdup, if_neg hdup]
    by_cases hunknown : 500 ≤ status ∨ status = 429
    · rw [if_pos hunknown]
      refine iff_of_true ⟨fun hr => ?_, fun hr => ?_, fun hr => ?_, fun _ _ _ => rfl⟩ fun hlt => ?_
      · cases hr
      · cases hr
      · cases hr
      · omega
    · rw [if_neg hunknown]
      constructor
      · intro h hlt
        rcases h.definite rfl with hnone | hclient | herror
        · exact absurd hnone hcurrency
        · omega
        · exact herror
      · intro h
        refine ⟨fun _ => .inr ?_, fun hr => ?_, fun hr => ?_, fun _ _ hr => ?_⟩
        · by_cases hlt : status < 400
          · exact .inr (h hlt)
          · exact .inl ⟨by omega, by omega, by omega⟩
        · cases hr
        · cases hr
        · cases hr

/-- A payout is classified safely exactly if its network is unknown or the answer can be read. -/
theorem binancePayout_safe_iff (parse : String → Option BinanceBody) (currency : String) (timeoutMs : ℕ) (reply : SendReply) :
    ClassifiedSafely parse currency reply (binancePayout parse currency timeoutMs reply) ↔
      (payoutNetwork currency ≠ none → Readable parse reply) := by
  unfold binancePayout
  split
  · rename_i hnone
    refine iff_of_true ⟨fun _ => .inl hnone, fun hr => ?_, fun hr => ?_, fun _ _ hr => ?_⟩ fun h => absurd hnone h
    · cases hr
    · cases hr
    · cases hr
  · rename_i network hsome
    have hcurrency : payoutNetwork currency ≠ none := by
      rw [hsome]
      exact Option.some_ne_none _
    rw [forall_prop_of_true hcurrency]
    cases reply with
    | threw aborted err => exact iff_of_true (ambiguousSend_safe _ _ _ _ _) trivial
    | response status body =>
      dsimp only
      by_cases hok : isOkStatus status = true
      · rw [if_pos hok]
        exact acceptedSend_safe_iff hok hcurrency timeoutMs
      · rw [if_neg hok]
        exact rejectedSend_safe_iff hok hcurrency

end Classification

section Runs

variable {U : Type} [DecidableEq U]

/-- Every answer on record is one that an event brought. -/
theorem outcomes_brought (setup : WithdrawalSetup) (es : List (DeskEvent U)) {id : ℕ} {r : PayoutResult}
    (h : (id, r) ∈ (run (WithdrawalDesk.step setup) {} es).outcomes) :
    ∃ k reply, .execute k reply ∈ es ∧ r = reply.payout := by
  induction es using List.reverseRecOn with
  | nil => cases h
  | append_singleton es e ih =>
    rw [run_append] at h
    have hold : (id, r) ∈ (run (WithdrawalDesk.step setup) {} es).outcomes →
        ∃ k reply, .execute k reply ∈ es ++ [e] ∧ r = reply.payout := by
      intro hmem
      obtain ⟨k, reply, he, hr⟩ := ih hmem
      exact ⟨k, reply, List.mem_append_left _ he, hr⟩
    generalize run (WithdrawalDesk.step setup) {} es = d at h hold
    change (id, r) ∈ (d.step setup e).outcomes at h
    cases e with
    | start op => exact hold h
    | execute k reply =>
      simp only [WithdrawalDesk.step] at h
      split at h
      · exact hold h
      split at h
      · exact hold h
      · exact hold h
      · rename_i q next hprog
        -- what the query adds is the answer of this event
        have hanswer : (id, r) ∈ (q.answer reply d).2.outcomes → (id, r) ∈ d.outcomes ∨ r = reply.payout := by
          intro hmem
          rcases Desk.answer_traffic reply d q with ⟨-, ho⟩ | ⟨-, -, -, -, -, -, ho⟩ | ⟨id', -, -, ho⟩
          · exact .inl (ho ▸ hmem)
          · exact .inl (ho ▸ hmem)
          · rw [ho] at hmem
            rcases List.mem_append.mp hmem with hmem | hmem
            · exact .inl hmem
            · obtain ⟨-, hr⟩ := Prod.mk.inj (List.mem_singleton.mp hmem)
              exact .inr hr
        have hreply : (id, r) ∈ (q.reply reply d).2.outcomes → (id, r) ∈ d.outcomes ∨ r = reply.payout := by
          unfold Desk.reply
          cases reply.fault with
          | none => exact hanswer
          | before => exact .inl
          | after => exact hanswer
        rcases hreply h with hmem | hr
        · exact hold hmem
        · exact ⟨k, reply, List.mem_append_right _ List.mem_cons_self, hr⟩

/-- A withdrawal that was sent is refunded only after an explicit rejection, over every run in
which all answers are readable. -/
theorem refunded_after_rejection {parse : String → Option BinanceBody} {currency : String} {timeoutMs : ℕ}
    (setup : WithdrawalSetup) (es : List (DeskEvent U))
    (hes : ∀ k reply, .execute k reply ∈ es → ∃ send, reply.payout = binancePayout parse currency timeoutMs send ∧
      (payoutNetwork currency ≠ none → Readable parse send))
    {id : ℕ} (hsent : id ∈ (run (WithdrawalDesk.step setup) {} es).sends)
    (hrefund : .refund id ∈ (run (WithdrawalDesk.step setup) {} es).refs) :
    payoutNetwork currency = none ∨ ∃ send, ExplicitRejection parse send ∧
      (id, binancePayout parse currency timeoutMs send) ∈ (run (WithdrawalDesk.step setup) {} es).outcomes := by
  obtain ⟨st, voids, h⟩ := desk_run_ok setup es
  rcases h.custody.refund id hrefund with hvoid | ⟨r, hr, hrefused⟩
  · exact absurd hsent (h.custody.void id hvoid).1.sends
  · obtain ⟨k, reply, he, rfl⟩ := outcomes_brought setup es hr
    obtain ⟨send, hsend, hreadable⟩ := hes k reply he
    rw [hsend] at hr hrefused
    rcases ((binancePayout_safe_iff parse currency timeoutMs send).mpr hreadable).definite hrefused with hnone | hexplicit
    · exact .inl hnone
    · exact .inr ⟨send, hexplicit, hr⟩

/-- **Payout classification.** An answer is classified safely exactly if it is readable; and
where all answers are, nothing that the provider may have accepted is refunded. -/
theorem payout_classification (parse : String → Option BinanceBody) (currency : String) (timeoutMs : ℕ) :
    (∀ reply, ClassifiedSafely parse currency reply (binancePayout parse currency timeoutMs reply) ↔
      (payoutNetwork currency ≠ none → Readable parse reply)) ∧
    ∀ (setup : WithdrawalSetup) (es : List (DeskEvent U)),
      (∀ k reply, .execute k reply ∈ es → ∃ send, reply.payout = binancePayout parse currency timeoutMs send ∧
        (payoutNetwork currency ≠ none → Readable parse send)) →
      ∀ id ∈ (run (WithdrawalDesk.step setup) {} es).sends,
        .refund id ∈ (run (WithdrawalDesk.step setup) {} es).refs →
          payoutNetwork currency = none ∨ ∃ send, ExplicitRejection parse send ∧
            (id, binancePayout parse currency timeoutMs send) ∈ (run (WithdrawalDesk.step setup) {} es).outcomes :=
  ⟨binancePayout_safe_iff parse currency timeoutMs,
    fun setup es hes _ hsent hrefund => refunded_after_rejection setup es hes hsent hrefund⟩

end Runs

/-- The provider refuses the address. -/
def badAddress : SendReply := .response 400 (some "bad address")

/-- The user asks for ten dollars, the withdrawal is sent automatically, and the send is refused. -/
def refusedSend : List (DeskEvent ℕ) :=
  let reply : DeskReply := { payout := binancePayout (fun _ => none) "usdttrc20" 20000 badAddress }
  [.start (.request 7 1000 "Taddress"), .execute 0 reply, .start (.autoPayout 0), .execute 1 reply, .execute 1 reply,
    .execute 1 reply, .execute 1 reply, .execute 1 reply]

/-- The refund follows the rejection. -/
theorem payout_classification_refused :
    0 ∈ (run (WithdrawalDesk.step chainSetup) {} refusedSend).sends ∧
    RefundRef.refund 0 ∈ (run (WithdrawalDesk.step chainSetup) {} refusedSend).refs ∧
    ∃ send, ExplicitRejection (fun _ => none) send ∧ (0, binancePayout (fun _ => none) "usdttrc20" 20000 send) ∈
      (run (WithdrawalDesk.step chainSetup) {} refusedSend).outcomes := by
  have hsent : 0 ∈ (run (WithdrawalDesk.step chainSetup) {} refusedSend).sends := by decide +kernel
  have hrefund : RefundRef.refund 0 ∈ (run (WithdrawalDesk.step chainSetup) {} refusedSend).refs := by decide +kernel
  have hreadable : Readable (fun _ => none) badAddress := by
    unfold Readable badAddress
    dsimp only
    rw [if_neg (by decide), if_neg (by decide +kernel)]
    decide
  have hes : ∀ k reply, DeskEvent.execute k reply ∈ refusedSend →
      ∃ send, reply.payout = binancePayout (fun _ => none) "usdttrc20" 20000 send ∧
        (payoutNetwork "usdttrc20" ≠ none → Readable (fun _ => none) send) := by
    intro k reply he
    refine ⟨badAddress, ?_, fun _ => hreadable⟩
    simp only [refusedSend, List.mem_cons, DeskEvent.execute.injEq, reduceCtorEq, List.not_mem_nil, or_false,
      false_or] at he
    rcases he with ⟨-, rfl⟩ | ⟨-, rfl⟩ | ⟨-, rfl⟩ | ⟨-, rfl⟩ | ⟨-, rfl⟩ | ⟨-, rfl⟩ <;> rfl
  refine ⟨hsent, hrefund, ?_⟩
  rcases (payout_classification (fun _ => none) "usdttrc20" 20000).2 chainSetup refusedSend hes 0 hsent hrefund with
    hnone | hrejected
  · exact absurd hnone (by decide)
  · exact hrejected

/-- The send is accepted, and the connection breaks before the body is read. -/
def unreadBody : SendReply := .response 200 none

/-- The user asks for ten dollars, and the withdrawal is sent automatically. -/
def unreadSend : List (DeskEvent ℕ) :=
  [.start (.request 7 1000 "Taddress"), .execute 0 {}, .start (.autoPayout 0), .execute 1 {}, .execute 1 {}, .execute 1 {},
    .execute 1 { payout := binancePayout (fun _ => none) "usdttrc20" 20000 unreadBody }, .execute 1 {}]

/-- An accepted send whose answer cannot be read is a definite failure, and is refunded. -/
theorem unread_body_refunded :
    (binancePayout (fun _ => none) "usdttrc20" 20000 unreadBody).refused = true ∧
      ¬ClassifiedSafely (fun _ => none) "usdttrc20" unreadBody
        (binancePayout (fun _ => none) "usdttrc20" 20000 unreadBody) ∧
      (run (WithdrawalDesk.step chainSetup) {} unreadSend).sends = [0] ∧
      RefundRef.refund 0 ∈ (run (WithdrawalDesk.step chainSetup) {} unreadSend).refs := by
  have hrefused : (binancePayout (fun _ => none) "usdttrc20" 20000 unreadBody).refused = true := by decide +kernel
  refine ⟨hrefused, fun h => ?_, by decide +kernel, by decide +kernel⟩
  rcases h.definite hrefused with hnone | hclient | herror
  · exact absurd hnone (by decide)
  · omega
  · cases herror

end Murlan
