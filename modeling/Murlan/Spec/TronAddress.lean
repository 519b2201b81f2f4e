import Mathlib.Data.String.Basic

/-!
# TRON addresses

`money/tronAddress.ts`: base58 decoding, the check of an address, and its body as the parameter of
a contract call. A string is the list of its UTF-16 code units, an array of numbers a list. SHA-256 is a
parameter.
-/

namespace Murlan

/-- A text as JavaScript has it. -/
abbrev CodeUnits := List UInt16

/-- A text of the basic plane. -/
def codeUnits (text : String) : CodeUnits := text.toList.map fun c => UInt16.ofNat c.toNat

/-- `for (const ch of s)`: two units that are a surrogate pair are one character. -/
def codePoints : CodeUnits → List CodeUnits
  | [] => []
  | [u] => [[u]]
  | u :: v :: s =>
    if 0xD800 ≤ u ∧ u < 0xDC00 ∧ 0xDC00 ≤ v ∧ v < 0xE000 then [u, v] :: codePoints s
    else [u] :: codePoints (v :: s)

/-- `text.indexOf(ch)` -/
def indexOf (text ch : CodeUnits) : Option ℕ := (List.range text.length).find? fun i => ch.isPrefixOf (text.drop i)

/-- `text.padStart(n, c)` -/
def padStart (n : ℕ) (c : Char) (text : List Char) : List Char := List.replicate (n - text.length) c ++ text

namespace TronAddress

/-- The digits of base 58, in order. -/
def ALPHABET : CodeUnits := codeUnits "123456789ABCDEFGHJKLMNPQRSTUVWXYZabcdefghijkmnopqrstuvwxyz"

/-- `'1'` -/
def ONE : UInt16 := UInt16.ofNat '1'.toNat

/-- The bytes that `while (carry > 0)` pushes; it runs `carry` times at most. -/
def pushCarry : ℕ → ℕ → List ℕ
  | 0, _ => []
  | fuel + 1, carry => if 0 < carry then (carry &&& 0xff) :: pushCarry fuel (carry >>> 8) else []

/-- The body of the loop over the characters: `bytes` is multiplied by 58, the least significant byte first, and
`carry` is added. -/
def addDigit : List ℕ → ℕ → List ℕ
  | [], carry => pushCarry carry carry
  | byte :: bytes, carry => ((carry + byte * 58) &&& 0xff) :: addDigit bytes ((carry + byte * 58) >>> 8)

/-- What the loop over the leading ones pushes. -/
def leadingOnes : CodeUnits → List ℕ
  | [] => []
  | u :: s => if u = ONE then 0 :: leadingOnes s else []

/-- The bytes a text stands for; a foreign character is refused. -/
def base58Decode (s : CodeUnits) : Option (List UInt8) := do
  let bytes ← (codePoints s).foldlM (fun bytes ch => do
    let value ← indexOf ALPHABET ch
    pure (addDigit bytes value)) [0]
  pure ((bytes ++ leadingOnes s).reverse.map UInt8.ofNat)

/-- The hex digits of a byte. -/
def hexByte (b : UInt8) : List Char := padStart 2 '0' (Nat.toDigits 16 b.toNat)

/-- An address as a contract wants it: the checksum is verified, then twenty bytes in a word. -/
def tronAddressToAbiParam (addr : CodeUnits) : Option (List Char) :=
  match base58Decode addr with
  | none => none
  | some decoded =>
    if decoded.length ≠ 25 ∨ decoded[0]? ≠ some 0x41 then none
    else some (List.replicate 24 '0' ++ ((decoded.drop 1).take 20).flatMap hexByte)

/-- An argument that is not a string is `none`. -/
def isValidTronAddress (sha256 : List UInt8 → List UInt8) : Option CodeUnits → Bool
  | none => false
  | some addr =>
    if addr.length ≠ 34 ∨ addr[0]? ≠ some (UInt16.ofNat 'T'.toNat) then false
    else
      match base58Decode addr with
      | none => false
      | some decoded =>
        if decoded.length ≠ 25 ∨ decoded[0]? ≠ some 0x41 then false
        else
          let checksum := (decoded.drop 21).take 4
          let h := sha256 (sha256 (decoded.take 21))
          (List.range 4).all fun i => checksum[i]? = h[i]?

end TronAddress

end Murlan
