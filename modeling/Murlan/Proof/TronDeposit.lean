import Murlan.Spec.TronDeposit
import Mathlib.Tactic.Linarith

/-!
# A transfer that is listed, and one that is named

`verify` and `parseTransfer` make the same checks (`verifyRow_ok_iff`,
`parseTransfer_eq_some`), but `verify` stops at the first row with the id, while
`listIncoming` goes on to the next. So the two agree exactly where nothing stands before the
first acceptable row (`verify_agrees_iff`); a transaction with a small and a large transfer is
credited by the poller and refused by hand (`dust_masks_transfer`).
-/

namespace Murlan

/-! ## Ids -/

theorem isLowerHex_iff (c : Char) :
    isLowerHex c = true ↔ (48 ≤ c.toNat ∧ c.toNat ≤ 57) ∨ (97 ≤ c.toNat ∧ c.toNat ≤ 102) := by
  unfold isLowerHex Char.isDigit
  simp only [Bool.or_eq_true, Bool.and_eq_true, decide_eq_true_eq]
  exact Iff.rfl

theorem isHex_iff (c : Char) : isHex c = true ↔ isLowerHex c = true ∨ (65 ≤ c.toNat ∧ c.toNat ≤ 70) := by
  unfold isHex
  simp only [Bool.or_eq_true, Bool.and_eq_true, decide_eq_true_eq]
  exact Iff.rfl

theorem toNat_toLower (c : Char) :
    c.toLower.toNat = if 65 ≤ c.toNat ∧ c.toNat ≤ 90 then c.toNat + 32 else c.toNat := by
  unfold Char.toLower
  split
  · rename_i h
    have hlo : 65 ≤ c.toNat := h.1
    have hhi : c.toNat ≤ 90 := h.2
    rw [if_pos ⟨hlo, hhi⟩]
    show (c.val + 32).toNat = c.val.toNat + 32
    rw [UInt32.toNat_add]
    have hval : c.val.toNat ≤ 90 := hhi
    show (c.val.toNat + 32) % 4294967296 = c.val.toNat + 32
    omega
  · rename_i h
    exact (if_neg h).symm

theorem isLowerHex_toLower (c : Char) : isLowerHex c.toLower = isHex c := by
  rw [Bool.eq_iff_iff, isHex_iff, isLowerHex_iff, isLowerHex_iff, toNat_toLower]
  split
  · omega
  · omega

theorem toList_lowerCase (s : String) : (lowerCase s).toList = s.toList.map Char.toLower := by
  unfold lowerCase
  rw [String.toList_ofList]

/-- An id is one that is lower-case hex once its letters are. -/
theorem isLowerTxId_lowerCase (s : String) : isLowerTxId (lowerCase s) = isTxId s := by
  unfold isLowerTxId isTxId
  rw [toList_lowerCase, List.length_map, List.all_map]
  have hhex : isLowerHex ∘ Char.toLower = isHex := funext isLowerHex_toLower
  rw [hhex]

namespace TronDepositVerifier

variable [Numbers] {v : TronDepositVerifier} {dest want : String} {tx : TransferRow} {c : ℤ} {e : IncomingTransfer}

/-! ## The checks -/

/-- The row is a transfer of some cents in the token to the address. -/
structure Credits (v : TronDepositVerifier) (dest : String) (tx : TransferRow) (c : ℤ) : Prop where
  toAddr : tx.toAddr = .string dest
  contract : contractOf tx = .string v.contract
  value : ∃ value decimals, tx.value.toNumber = some value ∧ 0 < value ∧ decimalsOf tx = some decimals ∧
    validDecimals decimals = true ∧ centsOf value decimals = c
  pos : 0 < c

theorem Credits.unique {c' : ℤ} (h : v.Credits dest tx c) (h' : v.Credits dest tx c') : c = c' := by
  obtain ⟨value, decimals, hvalue, -, hdecimals, -, hc⟩ := h.value
  obtain ⟨value', decimals', hvalue', -, hdecimals', -, hc'⟩ := h'.value
  rw [hvalue, Option.some.injEq] at hvalue'
  rw [hdecimals, Option.some.injEq] at hdecimals'
  rw [← hc, ← hc', hvalue', hdecimals']

/-- A row that credits is accepted. -/
theorem verifyRow_credits (h : v.Credits dest tx c) :
    v.verifyRow dest tx = { ok := true, amountCents := some c, fromAddr := some tx.fromAddr } := by
  obtain ⟨value, decimals, hvalue, hpos, hdecimals, hvalid, rfl⟩ := h.value
  have hcents := h.pos
  unfold verifyRow
  rw [if_neg (not_not.mpr h.toAddr), if_neg (not_not.mpr h.contract), hvalue]
  dsimp only
  rw [if_neg (not_le.mpr hpos), hdecimals]
  dsimp only
  rw [if_neg (by rw [hvalid]; decide), if_neg (by omega)]

/-- A row that is accepted credits. -/
theorem credits_of_verifyRow (h : (v.verifyRow dest tx).ok = true) : ∃ c, v.Credits dest tx c := by
  unfold verifyRow at h
  split at h
  · cases h
  rename_i hto
  split at h
  · cases h
  rename_i hcontract
  split at h
  · cases h
  rename_i value hvalue
  split at h
  · cases h
  rename_i hpos
  split at h
  · cases h
  rename_i decimals hdecimals
  split at h
  · cases h
  rename_i hvalid
  split at h
  · cases h
  rename_i hcents
  exact ⟨_, not_not.mp hto, not_not.mp hcontract,
    ⟨value, decimals, hvalue, not_le.mp hpos, hdecimals, Bool.eq_true_of_not_eq_false hvalid, rfl⟩, by omega⟩

/-- Where the id is hex, `verify` reads the same. -/
theorem rowId_eq_iff (hwant : isLowerTxId want = true) :
    rowId tx = want ↔ lowerCase tx.transactionId.text = want := by
  unfold rowId
  have hne : ∀ s : String, s.toList.length ≠ 64 → ¬lowerCase s = want := by
    rintro s hs rfl
    unfold isLowerTxId at hwant
    simp only [Bool.and_eq_true, decide_eq_true_eq, toList_lowerCase, List.length_map] at hwant
    exact hs hwant.1
  cases hid : tx.transactionId with
  | undefined => exact iff_of_false (hne "" (by decide)) (hne "undefined" (by decide))
  | null => exact iff_of_false (hne "" (by decide)) (hne "null" (by decide))
  | bool b => exact Iff.rfl
  | number x => exact Iff.rfl
  | string s => exact Iff.rfl

/-- A row that credits is listed. -/
theorem parseTransfer_credits (h : v.Credits dest tx c) (hid : isLowerTxId (rowId tx) = true) :
    v.parseTransfer dest (some tx) = some {
      txId := rowId tx
      amountCents := c
      fromAddr := if tx.fromAddr.isNullish then "" else tx.fromAddr.text } := by
  obtain ⟨value, decimals, hvalue, hpos, hdecimals, hvalid, rfl⟩ := h.value
  have hcents := h.pos
  unfold parseTransfer
  dsimp only
  rw [if_neg (not_not.mpr h.toAddr), if_neg (not_not.mpr h.contract), hvalue]
  dsimp only
  rw [if_neg (not_le.mpr hpos), hdecimals]
  dsimp only
  rw [if_neg (by rw [hvalid]; decide), if_neg (by omega)]
  exact if_neg (by rw [hid]; decide)

/-- A row becomes a transfer to credit by the checks of `verify`, and its id. -/
theorem credits_of_parseTransfer {t : Option TransferRow} (h : v.parseTransfer dest t = some e) :
    ∃ tx, t = some tx ∧ v.Credits dest tx e.amountCents ∧ e.txId = rowId tx ∧ isLowerTxId e.txId = true := by
  unfold parseTransfer at h
  split at h
  · cases h
  rename_i tx
  refine ⟨tx, rfl, ?_⟩
  split at h
  · cases h
  rename_i hto
  split at h
  · cases h
  rename_i hcontract
  split at h
  · cases h
  rename_i value hvalue
  split at h
  · cases h
  rename_i hpos
  split at h
  · cases h
  rename_i decimals hdecimals
  split at h
  · cases h
  rename_i hvalid
  split at h
  · cases h
  rename_i hcents
  split at h
  · cases h
  rename_i hid
  obtain rfl := Option.some.inj h
  refine ⟨⟨not_not.mp hto, not_not.mp hcontract,
    ⟨value, decimals, hvalue, not_le.mp hpos, hdecimals, Bool.eq_true_of_not_eq_false hvalid, rfl⟩,
    not_le.mp hcents⟩, rfl, ?_⟩
  exact Bool.eq_true_of_not_eq_false hid

/-! ## One list, read twice -/

/-- The row is a transfer to credit under the id. -/
def Accepts (v : TronDepositVerifier) (dest want : String) (t : Option TransferRow) : Prop :=
  ∃ e, v.parseTransfer dest t = some e ∧ e.txId = want

/-- `verify` looks no further: the row is null, or has the id. -/
def Stops (want : String) : Option TransferRow → Prop
  | none => True
  | some tx => lowerCase tx.transactionId.text = want

/-- Nothing stops `verify` before the first transfer to credit under the id. -/
def Unmasked (v : TronDepositVerifier) (dest want : String) (rows : List (Option TransferRow)) : Prop :=
  ∀ pre t post, rows = pre ++ t :: post → v.Accepts dest want t → (∀ r ∈ pre, ¬v.Accepts dest want r) →
    ∀ r ∈ pre, ¬Stops want r

variable {t : Option TransferRow} {rows : List (Option TransferRow)}

theorem Accepts.credits (h : v.Accepts dest want t) :
    ∃ tx c, t = some tx ∧ v.Credits dest tx c ∧ lowerCase tx.transactionId.text = want ∧ isLowerTxId want = true := by
  obtain ⟨e, he, rfl⟩ := h
  obtain ⟨tx, ht, hcredits, hid, hhex⟩ := credits_of_parseTransfer he
  exact ⟨tx, _, ht, hcredits, (rowId_eq_iff hhex).mp hid.symm, hhex⟩

theorem Accepts.stops (h : v.Accepts dest want t) : Stops want t := by
  obtain ⟨tx, c, rfl, -, hid, -⟩ := h.credits
  exact hid

theorem accepts_of_verifyRow (hwant : isLowerTxId want = true) (hid : lowerCase tx.transactionId.text = want)
    (h : (v.verifyRow dest tx).ok = true) : v.Accepts dest want (some tx) := by
  obtain ⟨c, hcredits⟩ := credits_of_verifyRow h
  have hrow : rowId tx = want := (rowId_eq_iff hwant).mpr hid
  exact ⟨_, parseTransfer_credits hcredits (hrow ▸ hwant), hrow⟩

theorem unmasked_accepts (h : v.Accepts dest want t) : v.Unmasked dest want (t :: rows) := by
  intro pre t' post hsplit _ hpre r hr
  cases pre with
  | nil => cases hr
  | cons r' pre =>
    obtain ⟨rfl, -⟩ := List.cons.inj hsplit
    exact absurd h (hpre _ List.mem_cons_self)

/-- A row that is no transfer to credit masks all that follow, or none. -/
theorem unmasked_cons (h : ¬v.Accepts dest want t) :
    v.Unmasked dest want (t :: rows) ↔
      (∀ r ∈ rows, ¬v.Accepts dest want r) ∨ (¬Stops want t ∧ v.Unmasked dest want rows) := by
  constructor
  · intro hall
    by_cases hstop : Stops want t
    · refine .inl fun r hr haccepts => ?_
      -- the first acceptable row of the rest would stand behind `t`
      classical
      obtain ⟨t', ht'⟩ : ∃ t', rows.find? (fun r => decide (v.Accepts dest want r)) = some t' := by
        rw [← Option.isSome_iff_exists, List.find?_isSome]
        exact ⟨r, hr, decide_eq_true haccepts⟩
      obtain ⟨haccepts', pre, post, hrows, hpre⟩ := List.find?_eq_some_iff_append.mp ht'
      refine hall (t :: pre) t' post (by rw [hrows, List.cons_append]) (of_decide_eq_true haccepts') ?_ t
        List.mem_cons_self hstop
      intro r hr
      rcases List.mem_cons.mp hr with rfl | hr
      · exact h
      · simpa using hpre r hr
    · refine .inr ⟨hstop, fun pre t' post hsplit haccepts hpre r hr => ?_⟩
      refine hall (t :: pre) t' post (by rw [hsplit, List.cons_append]) haccepts ?_ r (List.mem_cons_of_mem _ hr)
      intro r hr
      rcases List.mem_cons.mp hr with rfl | hr
      · exact h
      · exact hpre r hr
  · intro hcases pre t' post hsplit haccepts hpre r hr
    cases pre with
    | nil => cases hr
    | cons t₀ pre =>
      obtain ⟨rfl, hrest⟩ := List.cons.inj hsplit
      rcases hcases with hnone | ⟨hstop, hrows⟩
      · refine absurd haccepts (hnone t' ?_)
        rw [hrest]
        exact List.mem_append_right _ List.mem_cons_self
      · rcases List.mem_cons.mp hr with rfl | hr
        · exact hstop
        · exact hrows pre t' post hrest haccepts (fun r hr => hpre r (List.mem_cons_of_mem _ hr)) r hr

/-- The row found has the id. -/
theorem findRow_id (h : findRow want rows = .ok (some tx)) : lowerCase tx.transactionId.text = want := by
  induction rows with
  | nil => cases h
  | cons t rows ih =>
    cases t with
    | none => cases h
    | some tx' =>
      unfold findRow at h
      split at h
      · rename_i heq
        obtain rfl : tx' = tx := by simpa using h
        exact heq
      · exact ih h

/-- The row that `verify` judges, and its verdict. -/
theorem findRow_accepts (hwant : isLowerTxId want = true) :
    (∃ tx, findRow want rows = .ok (some tx) ∧ (v.verifyRow dest tx).ok = true) ↔
      (∃ t ∈ rows, v.Accepts dest want t) ∧ v.Unmasked dest want rows := by
  induction rows with
  | nil =>
    refine iff_of_false ?_ ?_
    · rintro ⟨tx, h, -⟩
      cases h
    · rintro ⟨⟨t, ht, -⟩, -⟩
      cases ht
  | cons t rows ih =>
    by_cases haccepts : v.Accepts dest want t
    · obtain ⟨tx, c, rfl, hcredits, hid, -⟩ := haccepts.credits
      refine iff_of_true ⟨tx, if_pos hid, ?_⟩ ⟨⟨_, List.mem_cons_self, haccepts⟩, unmasked_accepts haccepts⟩
      rw [verifyRow_credits hcredits]
    · rw [unmasked_cons haccepts]
      by_cases hstop : Stops want t
      · -- `verify` stops here, and fails
        refine iff_of_false ?_ ?_
        · rintro ⟨tx, hfind, hok⟩
          cases t with
          | none => cases hfind
          | some tx' =>
            rw [show findRow want (some tx' :: rows) = .ok (some tx') from if_pos hstop] at hfind
            obtain rfl : tx' = tx := by simpa using hfind
            exact haccepts (accepts_of_verifyRow hwant hstop hok)
        · rintro ⟨⟨r, hr, hraccepts⟩, hnone | ⟨hgo, -⟩⟩
          · rcases List.mem_cons.mp hr with rfl | hr
            · exact haccepts hraccepts
            · exact hnone r hr hraccepts
          · exact hgo hstop
      · have hfind : findRow want (t :: rows) = findRow want rows := by
          cases t with
          | none => exact absurd trivial hstop
          | some tx => exact if_neg hstop
        have hlisted : (∃ r ∈ t :: rows, v.Accepts dest want r) ↔ ∃ r ∈ rows, v.Accepts dest want r := by
          simp [haccepts]
        rw [hfind, ih, hlisted]
        constructor
        · rintro ⟨hsome, hunmasked⟩
          exact ⟨hsome, .inr ⟨hstop, hunmasked⟩⟩
        · rintro ⟨⟨r, hr, hraccepts⟩, hnone | ⟨-, hunmasked⟩⟩
          · exact absurd hraccepts (hnone r hr)
          · exact ⟨⟨r, hr, hraccepts⟩, hunmasked⟩

/-- The first entry with the id comes from the row that `verify` judges. -/
theorem find_listed (hwant : isLowerTxId want = true) (hfind : findRow want rows = .ok (some tx))
    (hparse : v.parseTransfer dest (some tx) = some e) :
    (rows.filterMap (v.parseTransfer dest)).find? (fun e => e.txId = want) = some e := by
  induction rows with
  | nil => cases hfind
  | cons t rows ih =>
    cases t with
    | none => cases hfind
    | some tx' =>
      by_cases hid : lowerCase tx'.transactionId.text = want
      · rw [show findRow want (some tx' :: rows) = .ok (some tx') from if_pos hid] at hfind
        obtain rfl : tx' = tx := by simpa using hfind
        obtain ⟨tx, htx, -, hrow, -⟩ := credits_of_parseTransfer hparse
        obtain rfl := Option.some.inj htx
        have heq : e.txId = want := hrow.trans ((rowId_eq_iff hwant).mpr hid)
        rw [List.filterMap_cons_some hparse]
        exact List.find?_cons_of_pos (decide_eq_true heq)
      · rw [show findRow want (some tx' :: rows) = findRow want rows from if_neg hid] at hfind
        cases hskip : v.parseTransfer dest (some tx') with
        | none =>
          rw [List.filterMap_cons_none hskip]
          exact ih hfind
        | some e' =>
          obtain ⟨tx, htx, -, hrow, -⟩ := credits_of_parseTransfer hskip
          obtain rfl := Option.some.inj htx
          have hne : e'.txId ≠ want := fun heq => hid ((rowId_eq_iff hwant).mp (hrow.symm.trans heq))
          rw [List.filterMap_cons_some hskip, List.find?_cons_of_neg (by simpa using hne)]
          exact ih hfind

/-! ## The two paths -/

variable {reply : TronReply} {txId address : String}

/-- The list is the rows that pass. -/
theorem listIncoming_eq (h : address ≠ "") :
    v.listIncoming reply address = reply.rows.filterMap (v.parseTransfer address) := by
  unfold listIncoming
  rw [if_neg h]
  cases reply with
  | threw err => rfl
  | status code => rfl
  | body data => rfl

/-- An id is listed exactly if some row of it is accepted. -/
theorem listed_iff (h : address ≠ "") :
    (∃ e ∈ v.listIncoming reply address, e.txId = want) ↔ ∃ t ∈ reply.rows, v.Accepts address want t := by
  rw [listIncoming_eq h]
  constructor
  · rintro ⟨e, he, hid⟩
    obtain ⟨t, ht, hparse⟩ := List.mem_filterMap.mp he
    exact ⟨t, ht, e, hparse, hid⟩
  · rintro ⟨t, ht, e, hparse, hid⟩
    exact ⟨e, List.mem_filterMap.mpr ⟨t, ht, hparse⟩, hid⟩

/-- An id is judged by the first row of it. -/
theorem verify_of_findRow (hid : isTxId txId = true) (h : address ≠ "")
    (hfind : findRow (lowerCase txId) reply.rows = .ok (some tx)) :
    v.verify reply txId (some address) = v.verifyRow address tx := by
  unfold verify
  rw [if_neg (by rw [hid]; decide)]
  dsimp only [Option.or]
  rw [if_neg h]
  cases reply with
  | threw err => cases hfind
  | status code => cases hfind
  | body data =>
    dsimp only [fetchTransfers]
    rw [hfind]

/-- What is accepted has a proper id and a row. -/
theorem verify_ok (hok : (v.verify reply txId (some address)).ok = true) :
    isTxId txId = true ∧ address ≠ "" ∧
      ∃ tx, findRow (lowerCase txId) reply.rows = .ok (some tx) ∧ (v.verifyRow address tx).ok = true := by
  have hid : isTxId txId = true := by
    by_contra hbad
    unfold verify at hok
    rw [if_pos (Bool.eq_false_of_not_eq_true hbad)] at hok
    cases hok
  unfold verify at hok
  rw [if_neg (by rw [hid]; decide)] at hok
  dsimp only [Option.or] at hok
  split at hok
  · cases hok
  rename_i haddress
  refine ⟨hid, haddress, ?_⟩
  cases reply with
  | threw err => cases hok
  | status code => cases hok
  | body data =>
    dsimp only [fetchTransfers] at hok
    split at hok
    · cases hok
    · cases hok
    · rename_i tx hfind
      exact ⟨tx, hfind, hok⟩

/-- The transfer is accepted by hand exactly if the poller lists it, and for the amount of
the first entry. -/
structure Agrees (v : TronDepositVerifier) (reply : TronReply) (txId address : String) : Prop where
  iff : (v.verify reply txId (some address)).ok = true ↔ ∃ e ∈ v.listIncoming reply address, e.txId = lowerCase txId
  amount : (v.verify reply txId (some address)).ok = true →
    (v.verify reply txId (some address)).amountCents =
      ((v.listIncoming reply address).find? fun e => e.txId = lowerCase txId).map IncomingTransfer.amountCents

/-- A transfer that `verify` accepts is listed. -/
theorem verify_listed (hok : (v.verify reply txId (some address)).ok = true) :
    (∃ e ∈ v.listIncoming reply address, e.txId = lowerCase txId) ∧
      (v.verify reply txId (some address)).amountCents =
        ((v.listIncoming reply address).find? fun e => e.txId = lowerCase txId).map IncomingTransfer.amountCents := by
  obtain ⟨hid, haddress, tx, hfind, hrow⟩ := verify_ok hok
  have hwant : isLowerTxId (lowerCase txId) = true := by rw [isLowerTxId_lowerCase, hid]
  obtain ⟨hsome, -⟩ := (findRow_accepts hwant).mp ⟨tx, hfind, hrow⟩
  obtain ⟨c, hcredits⟩ := credits_of_verifyRow hrow
  have hlower := findRow_id hfind
  have hparse := parseTransfer_credits hcredits (((rowId_eq_iff hwant).mpr hlower).symm ▸ hwant)
  refine ⟨(listed_iff haddress).mpr hsome, ?_⟩
  rw [verify_of_findRow hid haddress hfind, verifyRow_credits hcredits, listIncoming_eq haddress,
    find_listed hwant hfind hparse]
  rfl

/-- The two paths agree exactly where no null row and no other row with the id stands before
the first transfer to credit. -/
theorem verify_agrees_iff (v : TronDepositVerifier) (reply : TronReply) (txId address : String) :
    v.Agrees reply txId address ↔ (address ≠ "" → v.Unmasked address (lowerCase txId) reply.rows) := by
  constructor
  · intro h haddress pre t post hrows haccepts
    have hwant : isLowerTxId (lowerCase txId) = true := by
      obtain ⟨-, -, -, -, -, hhex⟩ := haccepts.credits
      exact hhex
    have hlisted : ∃ t ∈ reply.rows, v.Accepts address (lowerCase txId) t := by
      refine ⟨t, ?_, haccepts⟩
      rw [hrows]
      exact List.mem_append_right _ List.mem_cons_self
    obtain ⟨-, -, tx, hfind, hrow⟩ := verify_ok (h.iff.mpr ((listed_iff haddress).mpr hlisted))
    exact ((findRow_accepts hwant).mp ⟨tx, hfind, hrow⟩).2 pre t post hrows haccepts
  · intro hunmasked
    refine ⟨⟨fun hok => (verify_listed hok).1, fun hlisted => ?_⟩, fun hok => (verify_listed hok).2⟩
    have haddress : address ≠ "" := by
      rintro rfl
      obtain ⟨e, he, -⟩ := hlisted
      cases he
    obtain ⟨t, ht, haccepts⟩ := (listed_iff haddress).mp hlisted
    obtain ⟨-, -, -, -, -, hwant⟩ := haccepts.credits
    obtain ⟨tx, hfind, hrow⟩ := (findRow_accepts hwant).mpr ⟨⟨t, ht, haccepts⟩, hunmasked haddress⟩
    rw [verify_of_findRow (by rw [← isLowerTxId_lowerCase, hwant]) haddress hfind]
    exact hrow

end TronDepositVerifier

/-! ## A small transfer before a large one -/

/-- Doubles. No text of a number is read below. -/
instance doubles : Numbers where
  round := Rounding.signed 53
  text x := toString x

namespace TronDepositVerifier

/-- A transaction id. -/
def someTxId : String := "aaaaaaaaaaaaaaaaaaaaaaaaaaaaaaaaaaaaaaaaaaaaaaaaaaaaaaaaaaaaaaaa"

/-- An address. -/
def someAddress : String := "TJRabPrwbZy45sbavfcjinPJC18kjpRTv8"

/-- A transfer of the transaction to the address, in millionths of a dollar. -/
def someTransfer (value : String) : Option TransferRow :=
  some {
    transactionId := .string someTxId
    toAddr := .string someAddress
    value := .string value
    tokenInfo := some { address := .string usdtTrc20Contract, decimals := .number 6 } }

/-- One transaction pays a millionth of a dollar and twenty dollars to the address. The
poller lists the twenty dollars; `verify` sees the first transfer only. -/
theorem dust_masks_transfer :
    ({} : TronDepositVerifier).listIncoming (.body (some [someTransfer "1", someTransfer "20000000"])) someAddress =
        [{ txId := someTxId, amountCents := 2000, fromAddr := "" }] ∧
      ({} : TronDepositVerifier).verify (.body (some [someTransfer "1", someTransfer "20000000"])) someTxId
        (some someAddress) = .failed "Shumë shumë e vogël." ∧
      ¬({} : TronDepositVerifier).Agrees (.body (some [someTransfer "1", someTransfer "20000000"])) someTxId
        someAddress := by
  have hlisted : ({} : TronDepositVerifier).listIncoming (.body (some [someTransfer "1", someTransfer "20000000"]))
      someAddress = [{ txId := someTxId, amountCents := 2000, fromAddr := "" }] := by decide +kernel
  have hfailed : ({} : TronDepositVerifier).verify (.body (some [someTransfer "1", someTransfer "20000000"])) someTxId
      (some someAddress) = .failed "Shumë shumë e vogël." := by decide +kernel
  refine ⟨hlisted, hfailed, fun h => ?_⟩
  have hok := h.iff.mpr ⟨_, by rw [hlisted]; exact List.mem_cons_self, by decide +kernel⟩
  rw [hfailed] at hok
  cases hok

end TronDepositVerifier

end Murlan
