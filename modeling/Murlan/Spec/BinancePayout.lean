import Mathlib.Data.Rat.Defs
import Murlan.Spec.TronDeposit
import Murlan.Spec.Withdrawals

/-!
# The payout provider

`BinancePayoutProvider.payout` (`money/binancePayout.ts`): what one request to send comes back
with, read as a `PayoutResult`. `parse` is `JSON.parse`: none where it throws.
-/

namespace Murlan

/-- A field of a parsed body. A number and an object come with the text that `String` gives; none
of an object on which it throws (its `toString` and `valueOf` are no functions). -/
inductive BodyField where
  | undefined | null
  | bool (b : Bool)
  | number (q : ℚ) (text : String)
  | string (s : String)
  | object (text : Option String)
  deriving DecidableEq

namespace BodyField

/-- `String(x ?? '')`; none if it throws. -/
def text : BodyField → Option String
  | undefined | null => some ""
  | bool b => some (if b then "true" else "false")
  | number _ text => some text
  | string s => some s
  | object text => text

/-- `typeof x === 'number'`. -/
def number? : BodyField → Option ℚ
  | number q _ => some q
  | _ => none

/-- What JavaScript takes a field for in a condition. -/
def isTruthy : BodyField → Bool
  | undefined | null => false
  | bool b => b
  | number q _ => q ≠ 0
  | string s => s ≠ ""
  | object _ => true

end BodyField

/-- What is read of a parsed body; nothing of one that is no object. -/
structure BinanceBody where
  code : BodyField := .undefined
  msg : BodyField := .undefined
  id : BodyField := .undefined
  deriving DecidableEq

/-- What the request comes back with: it throws (an abort among others), or there is a
response, whose body is none if it cannot be read. -/
inductive SendReply where
  | threw (aborted : Bool) (err : String)
  | response (status : ℕ) (body : Option String)
  deriving DecidableEq

/-- `res.ok`. -/
def isOkStatus (status : ℕ) : Bool := 200 ≤ status && status < 300

/-- `NETWORKS`: coin and network. -/
def payoutNetwork (currency : String) : Option (String × String) :=
  if currency = "usdttrc20" then some ("USDT", "TRX")
  else if currency = "usdtbep20" then some ("USDT", "BSC")
  else if currency = "btc" then some ("BTC", "BTC")
  else none

/-- `BINANCE_DUPLICATE_CODES`. -/
def duplicateCodes : List ℚ := [-9000, -4046, -5021]

/-- The text has the word in it, in any case. -/
def mentions (word text : String) : Bool := (lowerCase text).toList.tails.any fun t => word.toList.isPrefixOf t

/-- The words of `DUPLICATE_MSG` that say something was there before. -/
def saysDuplicate (text : String) : Bool :=
  mentions "duplicat" text || mentions "already exist" text || mentions "already submitt" text

/-- `DUPLICATE_MSG`. -/
def duplicateMsg (text : String) : Bool := saysDuplicate text || mentions "withdraworderid" text

section Payout

variable (parse : String → Option BinanceBody)

/-- A message that `String` throws on is passed over. -/
def classifyBinanceError (bodyText : String) : Bool :=
  let j := (parse bodyText).getD {}
  j.code.number?.any (fun code => code ∈ duplicateCodes) || duplicateMsg (j.msg.text.getD "") || duplicateMsg bodyText

/-- The code of an error envelope. -/
def errorCode (bodyText : String) : Option ℚ :=
  (parse bodyText).bind fun data => data.code.number?.filter fun code => code ≠ 0 ∧ code ≠ 200

/-- The first 180 characters. -/
def excerpt (s : String) : String := (s.take 180).toString

/-- An answer without success. -/
def rejectedSend (status : ℕ) (bodyText : String) : PayoutResult :=
  if classifyBinanceError parse bodyText then
    { ok := false, duplicate := true
      error := some s!"binance duplicate withdrawOrderId ({status}): {excerpt bodyText}" }
  else if 500 ≤ status ∨ status = 429 then
    { ok := false, ambiguous := true, error := some s!"binance withdraw ambiguous ({status}): {excerpt bodyText}" }
  else { ok := false, error := some s!"binance withdraw failed ({status}): {excerpt bodyText}" }

/-- The catch of `payout`. -/
def ambiguousSend (timeoutMs : ℕ) (aborted : Bool) (err : String) : PayoutResult :=
  { ok := false, ambiguous := true
    error := some (if aborted then s!"binance send timed out after {timeoutMs}ms (ambiguous)"
      else s!"binance error (ambiguous): {err}") }

/-- What `String` throws. -/
def notPrimitive : String := "TypeError: Cannot convert object to primitive value"

/-- The code of an envelope as it is printed; a number always has a text. -/
def codeText (data : BinanceBody) : String := data.code.text.getD ""

/-- A 2xx answer, which may have an error in it. A message or an id that `String` throws on goes
to the catch. -/
def acceptedSend (timeoutMs : ℕ) (bodyText : String) : PayoutResult :=
  let data := (parse bodyText).getD {}
  if (errorCode parse bodyText).isSome then
    if classifyBinanceError parse bodyText then
      { ok := false, duplicate := true, error := some s!"binance duplicate withdrawOrderId: {excerpt bodyText}" }
    else
      match data.msg.text with
      | some msg =>
        { ok := false, error := some s!"binance withdraw failed (code {codeText data}): {excerpt msg}" }
      | none => ambiguousSend timeoutMs false notPrimitive
  else if data.id.isTruthy then
    match data.id.text with
    | some id => { ok := true, providerRef := some id }
    | none => ambiguousSend timeoutMs false notPrimitive
  else { ok := false, error := some "binance: no withdrawal id in response" }

/-- `payout`, given what the request comes back with. -/
def binancePayout (currency : String) (timeoutMs : ℕ) (reply : SendReply) : PayoutResult :=
  match payoutNetwork currency with
  | none => { ok := false, error := some s!"unsupported payout currency: {currency}" }
  | some _ =>
    match reply with
    | .threw aborted err => ambiguousSend timeoutMs aborted err
    | .response status body =>
      let bodyText := body.getD ""
      if isOkStatus status then acceptedSend parse timeoutMs bodyText else rejectedSend parse status bodyText

end Payout

end Murlan
