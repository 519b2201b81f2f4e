import Murlan.Base.Rounding

/-!
# Deposits on TRON

`money/tronDeposit.ts`: a transfer that is named by its transaction id (`verify`), and the
transfers to an address that the poller credits by itself (`listIncoming`). Both read the
answer of one request.
-/

namespace Murlan

/-- What the language makes of a number: the double next to it, and its text. Where `round` is
the identity, numbers are exact. -/
class Numbers where
  round : ℚ → ℚ
  text : ℚ → String

/-- A field of a row as the service sends it. -/
inductive Scalar where
  | undefined | null
  | bool (b : Bool)
  | number (x : ℚ)
  | string (s : String)
  deriving DecidableEq, Repr

/-! ## Number(text) -/

namespace Numeral

/-- A blank, or the end of a line. -/
def isStrWhiteSpace (c : Char) : Bool :=
  c.toNat ∈ [0x9, 0xA, 0xB, 0xC, 0xD, 0x20, 0xA0, 0x1680, 0x2028, 0x2029, 0x202F, 0x205F, 0x3000, 0xFEFF] ||
    (0x2000 ≤ c.toNat && c.toNat ≤ 0x200A)

/-- White space goes from both ends. -/
def trim (cs : List Char) : List Char :=
  ((cs.dropWhile isStrWhiteSpace).reverse.dropWhile isStrWhiteSpace).reverse

/-- What a character counts as a digit of some base, 16 for one that is no digit at all. -/
def digit (c : Char) : ℕ :=
  if c.isDigit then c.toNat - '0'.toNat
  else if 'a' ≤ c ∧ c ≤ 'f' then c.toNat - 'a'.toNat + 10
  else if 'A' ≤ c ∧ c ≤ 'F' then c.toNat - 'A'.toNat + 10
  else 16

/-- The number that digits write, none where there are none or one is not of the base. -/
def digits (base : ℕ) (cs : List Char) : Option ℕ :=
  if cs ≠ [] ∧ cs.all (digit · < base) then some (cs.foldl (fun n c => base * n + digit c) 0) else none

/-- A run of digits after at most one sign. -/
def signed (cs : List Char) : Option ℤ :=
  match cs with
  | '+' :: cs => (digits 10 cs).map fun n => (n : ℤ)
  | '-' :: cs => (digits 10 cs).map fun n => -(n : ℤ)
  | cs => (digits 10 cs).map fun n => (n : ℤ)

/-- The exponent behind a significand, which may be left out. -/
def exponent : List Char → Option ℤ
  | [] => some 0
  | 'e' :: cs => signed cs
  | 'E' :: cs => signed cs
  | _ => none

/-- Digits with a point before, among or behind them, and an exponent. -/
def unsignedDecimal (cs : List Char) : Option ℚ :=
  let whole := cs.takeWhile Char.isDigit
  match cs.dropWhile Char.isDigit with
  | '.' :: rest =>
    let fraction := rest.takeWhile Char.isDigit
    (digits 10 (whole ++ fraction)).bind fun n =>
      (exponent (rest.dropWhile Char.isDigit)).map fun e => n * 10 ^ (e - fraction.length : ℤ)
  | rest => (digits 10 whole).bind fun n => (exponent rest).map fun e => n * 10 ^ e

/-- The value of a text. `Infinity` has none, as a text that is no numeral: no caller tells
them apart. -/
def value (s : String) : Option ℚ :=
  match trim s.toList with
  | [] => some 0
  | '0' :: 'x' :: cs => (digits 16 cs).map fun n => (n : ℚ)
  | '0' :: 'X' :: cs => (digits 16 cs).map fun n => (n : ℚ)
  | '0' :: 'o' :: cs => (digits 8 cs).map fun n => (n : ℚ)
  | '0' :: 'O' :: cs => (digits 8 cs).map fun n => (n : ℚ)
  | '0' :: 'b' :: cs => (digits 2 cs).map fun n => (n : ℚ)
  | '0' :: 'B' :: cs => (digits 2 cs).map fun n => (n : ℚ)
  | '-' :: cs => (unsignedDecimal cs).map fun x => -x
  | '+' :: cs => unsignedDecimal cs
  | cs => unsignedDecimal cs

example : ["2e7", "0x1312D00", "20000000.0", " +.2E+8\n", "200000000e-1"].map value =
    List.replicate 5 (some 20000000) := by decide +kernel

example : ["Infinity", "-0x1", "1_000", ".", "2e", "1e1.5", "20 000"].map value = List.replicate 7 none := by
  decide +kernel

end Numeral

namespace Scalar

/-- What `??` replaces. -/
def isNullish (x : Scalar) : Bool := x = undefined || x = null

variable [Numbers]

/-- `String(x)`. -/
def text : Scalar → String
  | undefined => "undefined"
  | null => "null"
  | bool b => if b then "true" else "false"
  | number x => Numbers.text x
  | string s => s

/-- The double next to a number, none where that is an infinity. -/
def toFinite (x : ℚ) : Option ℚ := if |x| < 2 ^ 1024 - 2 ^ 970 then some (Numbers.round x) else none

/-- `Number(x)`, none unless `Number.isFinite`. -/
def toNumber : Scalar → Option ℚ
  | undefined => none
  | null => some 0
  | bool b => some (if b then 1 else 0)
  | number x => toFinite x
  | string s => (Numeral.value s).bind toFinite

end Scalar

/-- What a row says of its token. -/
structure TokenInfo where
  address : Scalar := .undefined
  decimals : Scalar := .undefined
  deriving DecidableEq, Repr

/-- A row of the service's list. -/
structure TransferRow where
  transactionId : Scalar := .undefined
  toAddr : Scalar := .undefined
  fromAddr : Scalar := .undefined
  value : Scalar := .undefined
  tokenInfo : Option TokenInfo := none
  deriving DecidableEq, Repr

/-- `USDT_TRC20_CONTRACT`. -/
def usdtTrc20Contract : String := "TR7NHqjeKQxGTCi8q8ZY4pL8otSzgjLj6t"

/-- What a request comes back with: it throws, it has another status than 2xx, or it has a
body, whose `data` may be no list. A row may be null. -/
inductive TronReply where
  | threw (err : String)
  | status (code : ℕ)
  | body (data : Option (List (Option TransferRow)))
  deriving DecidableEq, Repr

/-- The rows of an answer: none of one that failed. -/
def TronReply.rows : TronReply → List (Option TransferRow)
  | threw _ => []
  | status _ => []
  | body data => data.getD []

/-- What `verify` answers. -/
structure TronDepositVerification where
  ok : Bool
  amountCents : Option ℤ := none
  fromAddr : Option Scalar := none
  error : Option String := none
  deriving DecidableEq, Repr

/-- A transfer as `listIncoming` gives it. -/
structure IncomingTransfer where
  txId : String
  amountCents : ℤ
  fromAddr : String
  deriving DecidableEq, Repr

/-- A refusal, with its text. -/
def TronDepositVerification.failed (error : String) : TronDepositVerification := { ok := false, error := some error }

/-- `toLowerCase()`; it makes no other character a letter of `a` to `f`. -/
def lowerCase (s : String) : String := String.ofList (s.toList.map Char.toLower)

/-- A hexadecimal digit in lower case. -/
def isLowerHex (c : Char) : Bool := c.isDigit || ('a' ≤ c && c ≤ 'f')

/-- A hexadecimal digit. -/
def isHex (c : Char) : Bool := isLowerHex c || ('A' ≤ c && c ≤ 'F')

/-- `/^[0-9a-f]{64}$/`. -/
def isLowerTxId (s : String) : Bool := s.toList.length = 64 && s.toList.all isLowerHex

/-- `/^[0-9a-fA-F]{64}$/`. -/
def isTxId (s : String) : Bool := s.toList.length = 64 && s.toList.all isHex

/-- The verifier: the address it watches, and the token's contract. -/
structure TronDepositVerifier where
  depositAddress : Option String := none
  contract : String := usdtTrc20Contract

namespace TronDepositVerifier

/-- The rows, or the text of an error. -/
def fetchTransfers : TronReply → Except String (Except String (List (Option TransferRow)))
  | .threw err => .error err
  | .status code => .ok (.error s!"TronGrid {code}")
  | .body data => .ok (.ok (TronReply.body data).rows)

/-- The contract a row names. -/
def contractOf (tx : TransferRow) : Scalar := (tx.tokenInfo.map TokenInfo.address).getD .undefined

variable [Numbers]

/-- The first row with the id. A null row has no fields to read. -/
def findRow (want : String) : List (Option TransferRow) → Except String (Option TransferRow)
  | [] => .ok none
  | none :: _ => .error "TypeError: Cannot read properties of null (reading 'transaction_id')"
  | some t :: rows => if lowerCase t.transactionId.text = want then .ok (some t) else findRow want rows

/-- The decimals a row names, six when it names none. -/
def decimalsOf (tx : TransferRow) : Option ℚ :=
  let decimals := (tx.tokenInfo.map TokenInfo.decimals).getD .undefined
  if decimals.isNullish then some 6 else decimals.toNumber

/-- `Number.isInteger`, and at most 18. -/
def validDecimals (decimals : ℚ) : Bool := decimals.den = 1 && 0 ≤ decimals && decimals ≤ 18

/-- Cents of a token amount, rounded down; the power of ten is a double itself. -/
def centsOf (value decimals : ℚ) : ℤ := ⌊Numbers.round (Numbers.round (value * 100) / 10 ^ decimals.num.toNat)⌋

/-- The checks of `verify` on the row it has found. -/
def verifyRow (v : TronDepositVerifier) (dest : String) (tx : TransferRow) : TronDepositVerification :=
  if tx.toAddr ≠ .string dest then .failed "Marrësi i gabuar."
  else if contractOf tx ≠ .string v.contract then .failed "Nuk është USDT-TRC20."
  else
    match tx.value.toNumber with
    | none => .failed "Shumë e pavlefshme."
    | some value =>
      if value ≤ 0 then .failed "Shumë e pavlefshme."
      else
        match decimalsOf tx with
        | none => .failed "Token i pavlefshëm."
        | some decimals =>
          if validDecimals decimals = false then .failed "Token i pavlefshëm."
          else if centsOf value decimals ≤ 0 then .failed "Shumë shumë e vogël."
          else { ok := true, amountCents := some (centsOf value decimals), fromAddr := some tx.fromAddr }

/-- `verify`: the transfer of an id, checked field by field. -/
def verify (v : TronDepositVerifier) (reply : TronReply) (txId : String) (toAddress : Option String) :
    TronDepositVerification :=
  if isTxId txId = false then .failed "TxID i pavlefshëm."
  else
    match toAddress.or v.depositAddress with
    | none => .failed "Mungon adresa e marrjes."
    | some dest =>
      if dest = "" then .failed "Mungon adresa e marrjes."
      else
        match fetchTransfers reply with
        | .error err => .failed s!"Gabim verifikimi: {err}"
        | .ok (.error error) => .failed error
        | .ok (.ok rows) =>
          match findRow (lowerCase txId) rows with
          | .error err => .failed s!"Gabim verifikimi: {err}"
          | .ok none => .failed "Transaksioni nuk u gjet ose nuk shkoi te adresa e duhur."
          | .ok (some tx) => v.verifyRow dest tx

/-- The id of a row as the poller reads it. -/
def rowId (tx : TransferRow) : String := lowerCase (if tx.transactionId.isNullish then "" else tx.transactionId.text)

/-- A row as a transfer to credit, none to skip it. -/
def parseTransfer (v : TronDepositVerifier) (dest : String) : Option TransferRow → Option IncomingTransfer
  | none => none
  | some tx =>
    if tx.toAddr ≠ .string dest then none
    else if contractOf tx ≠ .string v.contract then none
    else
      match tx.value.toNumber with
      | none => none
      | some value =>
        if value ≤ 0 then none
        else
          match decimalsOf tx with
          | none => none
          | some decimals =>
            if validDecimals decimals = false then none
            else if centsOf value decimals ≤ 0 then none
            else if isLowerTxId (rowId tx) = false then none
            else some {
              txId := rowId tx
              amountCents := centsOf value decimals
              fromAddr := if tx.fromAddr.isNullish then "" else tx.fromAddr.text }

/-- `listIncoming`: every transfer to an address that passes the checks. -/
def listIncoming (v : TronDepositVerifier) (reply : TronReply) (address : String) : List IncomingTransfer :=
  if address = "" then []
  else
    match fetchTransfers reply with
    | .error _ => []
    | .ok (.error _) => []
    | .ok (.ok rows) => rows.filterMap (v.parseTransfer address)

end TronDepositVerifier

end Murlan
