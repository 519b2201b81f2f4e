import Mathlib.Data.String.Basic
import Murlan.Spec.Shuffle

/-!
# Provably fair deals

`server/src/fair/prng.ts` and `provablyFair.ts` (the dealer of a match, its commitment and its
reveal, `verifyDeal`), and `client/src/lib/fairVerify.ts`, which deals again in the browser.
SHA-256 and HMAC-SHA-256 are parameters, random bytes are arguments. What throws is an
`Except.error`.
-/

namespace Murlan

/-- The two primitives; both have 32 bytes. -/
structure Hashes where
  sha256 : ByteArray → List UInt8
  hmac : ByteArray → ByteArray → List UInt8
  sha256_length : ∀ msg, (sha256 msg).length = 32
  hmac_length : ∀ key msg, (hmac key msg).length = 32

/-- The message of a block. -/
def fairMessage (clientSeed : String) (nonce block : ℕ) : String :=
  clientSeed ++ ":" ++ toString nonce ++ ":" ++ toString block

/-- `readUInt32BE(pos)`, `getUint32(pos, false)` -/
def readUInt32BE (buffer : List UInt8) (pos : ℕ) : Except String ℕ :=
  match buffer.drop pos with
  | a :: b :: c :: d :: _ => .ok (((a.toNat * 256 + b.toNat) * 256 + c.toNat) * 256 + d.toNat)
  | _ => .error "out of range"

/-- A hexadecimal digit. -/
def hexDigit (n : ℕ) : Char := Nat.digitChar n

/-- `digest('hex')`, `toString('hex')` -/
def hex (bytes : List UInt8) : String :=
  String.ofList (bytes.flatMap fun b => [hexDigit (b.toNat / 16), hexDigit (b.toNat % 16)])

/-! ## The server -/

/-- The variables of `hmacRng`. -/
structure HmacRng where
  block : ℕ
  buffer : List UInt8
  pos : ℕ

/-- The generator before its first draw. -/
def HmacRng.initial : HmacRng := ⟨0, [], 0⟩

namespace Hashes

variable (H : Hashes)

/-- A block of the keyed stream. -/
def serverMac (serverSeed clientSeed : String) (nonce block : ℕ) : List UInt8 :=
  H.hmac serverSeed.toUTF8 (fairMessage clientSeed nonce block).toUTF8

/-- A draw: four bytes of the stream, a new block when fewer are left. -/
def hmacRng (serverSeed clientSeed : String) (nonce : ℕ) : StateT HmacRng (Except String) ℚ := do
  let st ← get
  let st := if st.buffer.length < st.pos + 4 then
      { block := st.block + 1, buffer := H.serverMac serverSeed clientSeed nonce st.block, pos := 0 } else st
  let v ← readUInt32BE st.buffer st.pos
  set { st with pos := st.pos + 4 }
  pure (v / 2 ^ 32)

/-- A text's hash, in hexadecimal. -/
def sha256Hex (input : String) : String := hex (H.sha256 input.toUTF8)

end Hashes

/-- A game dealt from a shuffle: its index and its nonce. -/
structure GameSeedRecord where
  index : ℕ
  nonce : ℕ
  deriving DecidableEq, Repr

/-- A match's shuffle: the seeds, the commitment and the games dealt. -/
structure FairShuffle where
  serverSeed : String
  serverSeedHash : String
  clientSeed : String
  numPlayers : ℕ
  games : List GameSeedRecord

/-- What is published after the match. -/
structure FairReveal where
  serverSeed : String
  serverSeedHash : String
  clientSeed : String
  numPlayers : ℕ
  gameCount : ℕ
  deriving DecidableEq, Repr

/-- The seed if it is there and not empty, else random bytes in hex. -/
def seedOr {n : ℕ} (seed : Option String) (random : Vector UInt8 n) : String :=
  match seed with
  | some s => if 0 < s.length then s else hex random.toList
  | none => hex random.toList

namespace Hashes

variable (H : Hashes)

/-- A shuffle from given seeds, or from random bytes where none is given. -/
def createFairShuffle (numPlayers : ℕ) (clientSeed serverSeed : Option String) (srvBytes : Vector UInt8 32)
    (cliBytes : Vector UInt8 16) : FairShuffle :=
  let seedSrv := seedOr serverSeed srvBytes
  { serverSeed := seedSrv, serverSeedHash := H.sha256Hex seedSrv, clientSeed := seedOr clientSeed cliBytes, numPlayers,
    games := [] }

/-- One call of `deal()`. -/
def nextDeal : StateT FairShuffle (Except String) (List (List Card)) := do
  let fs ← get
  let nonce := fs.games.length
  let (hands, _) ← (deal fs.numPlayers (H.hmacRng fs.serverSeed fs.clientSeed nonce)).run .initial
  set ({ fs with games := fs.games ++ [⟨nonce, nonce⟩] } : FairShuffle)
  pure hands

/-- The deals of a match of `n` games. -/
def matchDeals : ℕ → StateT FairShuffle (Except String) (List (List (List Card)))
  | 0 => pure []
  | n + 1 => do
    let hands ← H.nextDeal
    let rest ← matchDeals n
    pure (hands :: rest)

/-- A deal is computed again from the seeds. -/
def verifyDeal (serverSeed clientSeed : String) (nonce numPlayers : ℕ) : Except String (List (List Card)) := do
  let (hands, _) ← (deal numPlayers (H.hmacRng serverSeed clientSeed nonce)).run .initial
  pure hands

/-- A seed is hashed and compared. -/
def verifyCommitment (serverSeed serverSeedHash : String) : Bool := H.sha256Hex serverSeed == serverSeedHash

end Hashes

/-- The hash that is sent to the clients up-front. -/
def FairShuffle.commitment (fs : FairShuffle) : String × String := (fs.serverSeedHash, fs.clientSeed)

/-- What is published once the match is over. -/
def FairShuffle.reveal (fs : FairShuffle) : FairReveal :=
  { serverSeed := fs.serverSeed, serverSeedHash := fs.serverSeedHash, clientSeed := fs.clientSeed,
    numPlayers := fs.numPlayers, gameCount := fs.games.length }

/-- The UTF-16 code units of a text, by which `sort()` compares. -/
def utf16 (s : String) : List ℕ :=
  s.toList.flatMap fun c =>
    if c.toNat < 0x10000 then [c.toNat]
    else [0xd800 + (c.toNat - 0x10000) / 0x400, 0xdc00 + (c.toNat - 0x10000) % 0x400]

/-- One reproducible seed of the players' seeds. -/
def Hashes.combineClientSeeds (H : Hashes) (seeds : List String) (random : Vector UInt8 16) : String :=
  let usable := (seeds.filter fun s => 0 < s.length).mergeSort fun a b => utf16 a ≤ utf16 b
  if 0 < usable.length then H.sha256Hex ("|".intercalate usable) else hex random.toList

/-! ## The browser -/

/-- How many blocks the browser fetches ahead. -/
def fairBlocks : ℕ := 16

/-- `out.set(bytes, offset)` -/
def setBytes (out : List UInt8) (offset : ℕ) (bytes : List UInt8) : List UInt8 :=
  out.take offset ++ bytes ++ out.drop (offset + bytes.length)

namespace Hashes

variable (H : Hashes)

/-- The MACs of the first blocks, one after another. An empty key cannot be imported. -/
def hmacBlocks (serverSeed clientSeed : String) (nonce : ℕ) : Except String (List UInt8) :=
  if serverSeed.toUTF8.size = 0 then .error "Zero-length key is not supported"
  else
    .ok ((List.range fairBlocks).foldl
      (fun out block => setBytes out (block * 32) (H.hmac serverSeed.toUTF8 (fairMessage clientSeed nonce block).toUTF8))
      (List.replicate (fairBlocks * 32) 0))

end Hashes

/-- The rng on the blocks; its state is `pos`. -/
def fairRng (view : List UInt8) : StateT ℕ (Except String) ℚ := do
  let pos ← get
  let v ← readUInt32BE view pos
  set (pos + 4)
  pure (v / 2 ^ 32)

/-- `b.toString(16).padStart(2, '0')` -/
def hexByte (b : UInt8) : List Char := (Nat.toDigits 16 b.toNat).leftpad 2 '0'

namespace Hashes

variable (H : Hashes)

/-- The browser's own deal from the seeds. -/
def reconstructDeal (serverSeed clientSeed : String) (nonce numPlayers : ℕ) : Except String (List (List Card)) := do
  if numPlayers ≠ 2 ∧ numPlayers ≠ 3 ∧ numPlayers ≠ 4 then return []
  let view ← H.hmacBlocks serverSeed clientSeed nonce
  let (hands, _) ← (deal numPlayers (fairRng view)).run 0
  pure hands

/-- The browser's `sha256Hex` and `verifyCommitment`. -/
def clientSha256Hex (input : String) : String := String.ofList ((H.sha256 input.toUTF8).flatMap hexByte)

/-- The browser's own check of the commitment. -/
def clientVerifyCommitment (serverSeed serverSeedHash : String) : Bool :=
  H.clientSha256Hex serverSeed == serverSeedHash

end Hashes

end Murlan
