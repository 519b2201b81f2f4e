import Mathlib.Data.List.Basic
import Murlan.Base.Numerals
import Murlan.Proof.Shuffle
import Murlan.Spec.ProvablyFair

/-!
# Deals can be verified

Both rngs return the numbers of one stream, `drawValue`: the `k`-th is read from the MAC of the
block `k / 8`. A shuffle draws 53 of them, which the browser's 16 blocks hold.

* `verifyDeal_eq`, `reconstructDeal_eq`, `matchDeals_run`: all deals are `fairHands`.
* `fairMessage_injective`: the message of a block tells client seed, nonce and block.
* `deals_verifiable`: what is revealed verifies every deal of the match.
-/

namespace Murlan

/-! ## Reading words -/

/-- The big-endian word at a place. -/
def wordAt (bytes : List UInt8) (pos : ℕ) : ℕ := (readUInt32BE bytes pos).toOption.getD 0

section

variable {bytes bytes' : List UInt8} {pos : ℕ}

/-- Four bytes are read as a number. -/
theorem readUInt32BE_ok (bytes : List UInt8) (pos : ℕ) (h : pos + 4 ≤ bytes.length) :
    readUInt32BE bytes pos = .ok (wordAt bytes pos) := by
  unfold wordAt readUInt32BE
  have hlen : (bytes.drop pos).length = bytes.length - pos := List.length_drop
  generalize bytes.drop pos = rest at hlen
  rcases rest with - | ⟨a, - | ⟨b, - | ⟨c, - | ⟨d, l⟩⟩⟩⟩
  · simp at hlen
    omega
  · simp at hlen
    omega
  · simp at hlen
    omega
  · simp at hlen
    omega
  · rfl

/-- A word depends on its four bytes. -/
theorem wordAt_take : wordAt (bytes.take (pos + 4)) pos = wordAt bytes pos := by
  unfold wordAt readUInt32BE
  rw [List.drop_take, Nat.add_sub_cancel_left]
  rcases bytes.drop pos with - | ⟨a, - | ⟨b, - | ⟨c, - | ⟨d, l⟩⟩⟩⟩
  all_goals rfl

theorem wordAt_append_left (h : pos + 4 ≤ bytes.length) : wordAt (bytes ++ bytes') pos = wordAt bytes pos := by
  rw [← wordAt_take, List.take_append_of_le_length h, wordAt_take]

theorem wordAt_append_right : wordAt (bytes ++ bytes') (bytes.length + pos) = wordAt bytes' pos := by
  unfold wordAt readUInt32BE
  rw [List.drop_append, List.drop_eq_nil_of_le (by omega), List.nil_append, Nat.add_sub_cancel_left]

end

/-! ## Draws of an rng with a known course -/

theorem ok_bind {α β : Type} (a : α) (f : α → Except String β) : (Except.ok a >>= f) = f a := rfl

/-- Draws follow the course of the generator. -/
theorem draws_course {σ : Type} {rng : StateT σ (Except String) ℚ} {st : ℕ → σ} {val : ℕ → ℚ} {N : ℕ}
    (h : ∀ k < N, rng.run (st k) = .ok (val k, st (k + 1))) (n : ℕ) : ∀ k, k + n ≤ N →
    (draws rng n).run (st k) = .ok ((List.range' k n).map val, st (k + n)) := by
  induction n with
  | zero => exact fun k _ => rfl
  | succ n ih =>
    intro k hk
    rw [draws, StateT.run_bind, h k (by omega)]
    change (StateT.run (draws rng n >>= fun rs => pure (val k :: rs)) (st (k + 1))) = _
    rw [StateT.run_bind, ih (k + 1) (by omega), List.range'_succ]
    have hadd : k + 1 + n = k + (n + 1) := by omega
    rw [hadd]
    rfl

/-- A deal whose rng returns the numbers `val` one after another. -/
theorem deal_course {σ : Type} {rng : StateT σ (Except String) ℚ} {st : ℕ → σ} {val : ℕ → ℚ}
    (h : ∀ k < 53, rng.run (st k) = .ok (val k, st (k + 1))) (players : ℕ) :
    (deal players rng).run (st 0) =
      .ok (slices (shuffleWith ((List.range' 0 53).map val) buildDeck) 0 (dealSizes players), st 53) := by
  rw [deal_draws, StateT.run_map, draws_course h 53 0 (by omega)]
  rfl

namespace Hashes

variable (H : Hashes) (serverSeed clientSeed : String) (nonce : ℕ)

/-- The `k`-th number of the stream of a game. -/
def drawValue (k : ℕ) : ℚ := (wordAt (H.serverMac serverSeed clientSeed nonce (k / 8)) (4 * (k % 8)) : ℚ) / 2 ^ 32

/-- The hands of a game. -/
def fairHands (numPlayers : ℕ) : List (List Card) :=
  slices (shuffleWith ((List.range' 0 53).map (H.drawValue serverSeed clientSeed nonce)) buildDeck) 0
    (dealSizes numPlayers)

theorem serverMac_length (block : ℕ) : (H.serverMac serverSeed clientSeed nonce block).length = 32 :=
  H.hmac_length _ _

/-! ## The server's rng -/

/-- The variables of `hmacRng` after `k` numbers. -/
def rngAt (k : ℕ) : HmacRng :=
  match k with
  | 0 => .initial
  | k + 1 => ⟨k / 8 + 1, H.serverMac serverSeed clientSeed nonce (k / 8), 4 * (k % 8) + 4⟩

/-- The `k`-th number is read from the block `k / 8`. -/
theorem hmacRng_run (k : ℕ) : (H.hmacRng serverSeed clientSeed nonce).run (H.rngAt serverSeed clientSeed nonce k) =
    .ok (H.drawValue serverSeed clientSeed nonce k, H.rngAt serverSeed clientSeed nonce (k + 1)) := by
  have hlen := H.serverMac_length serverSeed clientSeed nonce
  -- after the refill, if one is due, the block is the one of the number
  have hrefill : (if (H.rngAt serverSeed clientSeed nonce k).buffer.length <
      (H.rngAt serverSeed clientSeed nonce k).pos + 4 then
      { block := (H.rngAt serverSeed clientSeed nonce k).block + 1,
        buffer := H.serverMac serverSeed clientSeed nonce (H.rngAt serverSeed clientSeed nonce k).block, pos := 0 }
      else H.rngAt serverSeed clientSeed nonce k : HmacRng) =
      ⟨k / 8 + 1, H.serverMac serverSeed clientSeed nonce (k / 8), 4 * (k % 8)⟩ := by
    cases k with
    | zero => rfl
    | succ k =>
      simp only [rngAt, hlen]
      by_cases hk : k % 8 = 7
      · rw [if_pos (by omega), show (k + 1) / 8 = k / 8 + 1 by omega, show (k + 1) % 8 = 0 by omega]
      · rw [if_neg (by omega), show (k + 1) / 8 = k / 8 by omega, show (k + 1) % 8 = k % 8 + 1 by omega, Nat.mul_add]
  have hread := readUInt32BE_ok (H.serverMac serverSeed clientSeed nonce (k / 8)) (4 * (k % 8))
    (by rw [hlen]; omega)
  unfold hmacRng
  simp only [StateT.run_bind, StateT.run_get, pure_bind]
  rw [hrefill]
  simp only [hread]
  rfl

theorem verifyDeal_eq (numPlayers : ℕ) : H.verifyDeal serverSeed clientSeed nonce numPlayers =
    .ok (H.fairHands serverSeed clientSeed nonce numPlayers) := by
  have hdeal := deal_course (fun k _ => H.hmacRng_run serverSeed clientSeed nonce k) numPlayers
  unfold verifyDeal
  rw [show HmacRng.initial = H.rngAt serverSeed clientSeed nonce 0 from rfl, hdeal]
  rfl

/-! ## The browser's rng -/

/-- Each block has 32 bytes. -/
theorem blocks_length (mac : ℕ → List UInt8) (hmac : ∀ b, (mac b).length = 32) (n : ℕ) :
    ((List.range n).flatMap mac).length = n * 32 := by
  induction n with
  | zero => rfl
  | succ n ih =>
    rw [List.range_succ, List.flatMap_append, List.length_append, ih]
    simp only [List.flatMap_singleton, hmac]
    omega

/-- The bytes after some blocks have been written. -/
theorem setBytes_blocks (mac : ℕ → List UInt8) (hmac : ∀ b, (mac b).length = 32) (N n : ℕ) (hn : n ≤ N) :
    (List.range n).foldl (fun out block => setBytes out (block * 32) (mac block)) (List.replicate (N * 32) 0) =
      (List.range n).flatMap mac ++ List.replicate ((N - n) * 32) 0 := by
  have hflat := blocks_length mac hmac
  induction n with
  | zero => simp
  | succ n ih =>
    rw [List.range_succ, List.foldl_append, ih (by omega), List.flatMap_append]
    simp only [List.foldl_cons, List.foldl_nil, List.flatMap_singleton]
    unfold setBytes
    rw [← hflat n, List.take_left, List.drop_append, List.drop_eq_nil_of_le (by omega), List.nil_append,
      Nat.add_sub_cancel_left, hmac, List.drop_replicate, List.append_assoc, List.append_assoc]
    congr 3
    omega

/-- The words of the concatenated blocks are those of the blocks. -/
theorem wordAt_blocks (mac : ℕ → List UInt8) (hmac : ∀ b, (mac b).length = 32) (n k : ℕ) (hk : k < 8 * n) :
    wordAt ((List.range n).flatMap mac) (4 * k) = wordAt (mac (k / 8)) (4 * (k % 8)) := by
  have hflat := blocks_length mac hmac
  induction n with
  | zero => omega
  | succ n ih =>
    rw [List.range_succ, List.flatMap_append]
    simp only [List.flatMap_singleton]
    by_cases hlt : k < 8 * n
    · rw [wordAt_append_left (by rw [hflat]; omega), ih hlt]
    · have hpos : 4 * k = ((List.range n).flatMap mac).length + 4 * (k % 8) := by
        rw [hflat]
        omega
      rw [hpos, wordAt_append_right, show k / 8 = n by omega]

/-- The place that the browser reads the `k`-th number from. -/
def viewPos (k : ℕ) : ℕ := 4 * k

/-- The browser's generator draws the server's values. -/
theorem fairRng_run (k : ℕ) (hk : k < 53) :
    (fairRng ((List.range fairBlocks).flatMap (H.serverMac serverSeed clientSeed nonce))).run (viewPos k) =
      .ok (H.drawValue serverSeed clientSeed nonce k, viewPos (k + 1)) := by
  have hlen := H.serverMac_length serverSeed clientSeed nonce
  have hword := wordAt_blocks _ hlen fairBlocks k (by unfold fairBlocks; omega)
  have hflat : ((List.range fairBlocks).flatMap (H.serverMac serverSeed clientSeed nonce)).length = 512 := by
    rw [blocks_length _ hlen]
    rfl
  have hread := readUInt32BE_ok ((List.range fairBlocks).flatMap (H.serverMac serverSeed clientSeed nonce)) (4 * k)
    (by rw [hflat]; omega)
  unfold fairRng viewPos
  simp only [StateT.run_bind, StateT.run_get, pure_bind]
  rw [hread, hword]
  rfl

/-- The browser deals the server's hands. -/
theorem reconstructDeal_eq {numPlayers : ℕ} (hplayers : numPlayers = 2 ∨ numPlayers = 3 ∨ numPlayers = 4)
    (hkey : serverSeed.toUTF8.size ≠ 0) : H.reconstructDeal serverSeed clientSeed nonce numPlayers =
    .ok (H.fairHands serverSeed clientSeed nonce numPlayers) := by
  have hblocks : H.hmacBlocks serverSeed clientSeed nonce =
      .ok ((List.range fairBlocks).flatMap (H.serverMac serverSeed clientSeed nonce)) := by
    have hmac : ∀ block, H.hmac serverSeed.toUTF8 (fairMessage clientSeed nonce block).toUTF8 =
        H.serverMac serverSeed clientSeed nonce block := fun _ => rfl
    unfold hmacBlocks
    rw [if_neg hkey]
    simp only [hmac]
    have hset := setBytes_blocks _ (H.serverMac_length serverSeed clientSeed nonce) fairBlocks fairBlocks le_rfl
    rw [Nat.sub_self, Nat.zero_mul, List.replicate_zero, List.append_nil] at hset
    rw [hset]
  have hdeal := deal_course (H.fairRng_run serverSeed clientSeed nonce) numPlayers
  unfold reconstructDeal
  rw [if_neg (by omega), hblocks]
  rw [ok_bind, show (0 : ℕ) = viewPos 0 from rfl, hdeal]
  rfl

/-! ## The dealer of a match -/

/-- The server deals the hands of its seeds. -/
theorem nextDeal_run (fs : FairShuffle) : H.nextDeal.run fs =
    .ok (H.fairHands fs.serverSeed fs.clientSeed fs.games.length fs.numPlayers,
      { fs with games := fs.games ++ [⟨fs.games.length, fs.games.length⟩] }) := by
  have hdeal := deal_course (fun k _ => H.hmacRng_run fs.serverSeed fs.clientSeed fs.games.length k) fs.numPlayers
  unfold nextDeal
  simp only [StateT.run_bind, StateT.run_get, pure_bind]
  rw [show HmacRng.initial = H.rngAt fs.serverSeed fs.clientSeed fs.games.length 0 from rfl, hdeal]
  rfl

/-- **The deals of a match** are those of the nonces from the number of games on. -/
theorem matchDeals_run (n : ℕ) : ∀ fs : FairShuffle, (H.matchDeals n).run fs =
    .ok ((List.range' fs.games.length n).map fun i => H.fairHands fs.serverSeed fs.clientSeed i fs.numPlayers,
      { fs with games := fs.games ++ (List.range' fs.games.length n).map fun i => ⟨i, i⟩ }) := by
  induction n with
  | zero =>
    intro fs
    simp [matchDeals]
    rfl
  | succ n ih =>
    intro fs
    rw [matchDeals, StateT.run_bind, nextDeal_run]
    change (StateT.run (H.matchDeals n >>= fun rest => pure (_ :: rest)) _) = _
    rw [StateT.run_bind, ih]
    simp only [List.length_append, List.length_singleton, List.range'_succ, List.map_cons, List.append_assoc,
      List.cons_append, List.nil_append]
    rfl

end Hashes

/-! ## The message of a block -/

/-- What precedes and what follows the first separator. -/
theorem split_first {α : Type} {c : α} {x y : List α} : ∀ {a b : List α}, c ∉ a → c ∉ b → a ++ c :: x = b ++ c :: y →
    a = b ∧ x = y := by
  intro a
  induction a with
  | nil =>
    intro b _ hb h
    cases b with
    | nil => exact ⟨rfl, (List.cons.inj h).2⟩
    | cons d b =>
      rw [List.nil_append, List.cons_append, List.cons.injEq] at h
      exact absurd (h.1 ▸ List.mem_cons_self) hb
  | cons d a ih =>
    intro b ha hb h
    cases b with
    | nil =>
      rw [List.nil_append, List.cons_append, List.cons.injEq] at h
      exact absurd (h.1 ▸ List.mem_cons_self) ha
    | cons e b =>
      rw [List.cons_append, List.cons_append, List.cons.injEq] at h
      rw [List.mem_cons, not_or] at ha hb
      obtain ⟨hab, hxy⟩ := ih ha.2 hb.2 h.2
      exact ⟨by rw [h.1, hab], hxy⟩

/-- What precedes and what follows the last separator. -/
theorem split_last {α : Type} {c : α} {x y a b : List α} (ha : c ∉ a) (hb : c ∉ b) (h : x ++ c :: a = y ++ c :: b) :
    x = y ∧ a = b := by
  have hrev : a.reverse ++ c :: x.reverse = b.reverse ++ c :: y.reverse := by
    simpa using congrArg List.reverse h
  obtain ⟨hab, hxy⟩ := split_first (by simpa using ha) (by simpa using hb) hrev
  exact ⟨List.reverse_injective hxy, List.reverse_injective hab⟩

theorem toList_toString (n : ℕ) : (toString n).toList = Nat.toDigits 10 n := String.toList_ofList

theorem colon_notMem (n : ℕ) : ':' ∉ (toString n).toList := by
  rw [toList_toString]
  intro h
  have hdigit := Nat.isDigit_of_mem_toDigits (by decide) (by decide) h
  revert hdigit
  decide

theorem toString_injective {m n : ℕ} (h : (toString m).toList = (toString n).toList) : m = n := by
  rw [toList_toString, toList_toString] at h
  have hval := congrArg (fun l => Nat.ofDigitChars 10 l 0) h
  simpa only [Nat.ofDigitChars_ten_toDigits] using hval

/-- **The message tells client seed, nonce and block**, whatever text the seed is. -/
theorem fairMessage_injective {c c' : String} {n n' b b' : ℕ} (h : (fairMessage c n b).toUTF8 = (fairMessage c' n' b').toUTF8) :
    c = c' ∧ n = n' ∧ b = b' := by
  have htext : fairMessage c n b = fairMessage c' n' b' := String.toByteArray_inj.1 h
  have hlist := congrArg String.toList htext
  have hcolon : (":" : String).toList = [':'] := rfl
  simp only [fairMessage, String.toList_append, hcolon, List.append_assoc, List.singleton_append] at hlist
  rw [← List.append_assoc, ← List.append_assoc] at hlist
  obtain ⟨hfront, hb⟩ := split_last (colon_notMem b) (colon_notMem b') hlist
  obtain ⟨hc, hn⟩ := split_last (colon_notMem n) (colon_notMem n') hfront
  exact ⟨String.toList_inj.1 hc, toString_injective hn, toString_injective hb⟩

/-! ## The commitment -/

/-- The browser prints a byte as the server does. -/
theorem hexByte_eq (b : UInt8) : hexByte b = [hexDigit (b.toNat / 16), hexDigit (b.toNat % 16)] := by
  unfold hexByte List.leftpad
  exact Numerals.toDigits_byte b.toNat_lt

theorem clientSha256Hex_eq (H : Hashes) (input : String) : H.clientSha256Hex input = H.sha256Hex input := by
  unfold Hashes.clientSha256Hex Hashes.sha256Hex hex
  rw [show hexByte = fun b => [hexDigit (b.toNat / 16), hexDigit (b.toNat % 16)] from funext hexByte_eq]

theorem hex_length (bytes : List UInt8) : (hex bytes).length = 2 * bytes.length := by
  unfold hex
  rw [String.length_ofList, List.length_flatMap]
  simp
  omega

theorem size_ne_zero {s : String} (h : 0 < s.length) : s.toUTF8.size ≠ 0 := by
  intro h0
  have hempty : s = "" := by
    rw [← String.toByteArray_inj]
    exact ByteArray.size_eq_zero_iff.1 h0
  rw [hempty] at h
  exact absurd h (by decide)

/-- A seed in use is never empty. -/
theorem seedOr_length {n : ℕ} (hn : 0 < n) (seed : Option String) (random : Vector UInt8 n) :
    0 < (seedOr seed random).length := by
  have hrandom : 0 < (hex random.toList).length := by
    rw [hex_length, Vector.length_toList]
    omega
  unfold seedOr
  split
  · split
    · assumption
    · exact hrandom
  · exact hrandom

/-- A combined seed is never empty. -/
theorem seedOr_combined (H : Hashes) (seeds : List String) (random cliBytes : Vector UInt8 16) :
    seedOr (some (H.combineClientSeeds seeds random)) cliBytes = H.combineClientSeeds seeds random := by
  have hlen : 0 < (H.combineClientSeeds seeds random).length := by
    unfold Hashes.combineClientSeeds
    simp only
    split
    · rw [Hashes.sha256Hex, hex_length, H.sha256_length]
      omega
    · rw [hex_length, Vector.length_toList]
      omega
  exact if_pos hlen

/-- **Deals are verifiable.** -/
theorem deals_verifiable (H : Hashes) (numPlayers : ℕ) (hplayers : numPlayers = 2 ∨ numPlayers = 3 ∨ numPlayers = 4)
    (clientSeed serverSeed : Option String) (srvBytes : Vector UInt8 32) (cliBytes : Vector UInt8 16) (n : ℕ) :
    let fs := H.createFairShuffle numPlayers clientSeed serverSeed srvBytes cliBytes
    (∃ hands fs', (H.matchDeals n).run fs = .ok (hands, fs') ∧ hands.length = n ∧ fs'.reveal.gameCount = n ∧
      (∀ i < n, fs'.games[i]? = some ⟨i, i⟩ ∧ ∃ dealt, hands[i]? = some dealt ∧
        H.verifyDeal fs'.reveal.serverSeed fs'.reveal.clientSeed i fs'.reveal.numPlayers = .ok dealt ∧
        H.reconstructDeal fs'.reveal.serverSeed fs'.reveal.clientSeed i fs'.reveal.numPlayers = .ok dealt) ∧
      H.verifyCommitment fs'.reveal.serverSeed fs.commitment.1 = true ∧
      H.clientVerifyCommitment fs'.reveal.serverSeed fs.commitment.1 = true ∧
      (∀ seeds random, clientSeed = some (H.combineClientSeeds seeds random) →
        fs'.reveal.clientSeed = H.combineClientSeeds seeds random)) ∧
    ∀ c c' : String, ∀ m m' b b' : ℕ, (fairMessage c m b).toUTF8 = (fairMessage c' m' b').toUTF8 →
      (c, m, b) = (c', m', b') := by
  intro fs
  refine ⟨⟨_, _, H.matchDeals_run n fs, by simp, ?_, ?_, ?_, ?_, ?_⟩, ?_⟩
  · show (fs.games ++ _).length = n
    simp [fs, Hashes.createFairShuffle]
  · intro i hi
    have hkey : fs.serverSeed.toUTF8.size ≠ 0 := size_ne_zero (seedOr_length (by omega) serverSeed srvBytes)
    refine ⟨?_, H.fairHands fs.serverSeed fs.clientSeed i fs.numPlayers, ?_, H.verifyDeal_eq _ _ _ _,
      H.reconstructDeal_eq _ _ _ hplayers hkey⟩
    · show (fs.games ++ _)[i]? = _
      simp [fs, Hashes.createFairShuffle, hi]
    · have hzero : fs.games.length = 0 := rfl
      rw [hzero]
      simp [hi]
  · exact beq_self_eq_true _
  · show (H.clientSha256Hex fs.serverSeed == fs.serverSeedHash) = true
    rw [clientSha256Hex_eq]
    exact beq_self_eq_true _
  · rintro seeds random rfl
    exact seedOr_combined H seeds random cliBytes
  · intro c c' m m' b b' h
    obtain ⟨rfl, rfl, rfl⟩ := fairMessage_injective h
    rfl

/-- A checksum of the bytes, spread over 32 places. -/
def spread (bytes : List UInt8) : List UInt8 :=
  (List.range 32).map fun i => bytes.foldl (fun acc b => acc * 31 + b) (UInt8.ofNat i)

/-- Hashes that depend on every byte of the key and of the message. -/
def mixHashes : Hashes where
  sha256 msg := spread msg.data.toList
  hmac key msg := spread (key.data.toList ++ msg.data.toList)
  sha256_length _ := by simp [spread]
  hmac_length _ _ := by simp [spread]

/-- Three games of two players: their messages have different hashes, and both the server and the
browser deal each game again from the reveal. -/
theorem deals_verifiable_two :
    let fs := mixHashes.createFairShuffle 2 (some "ab:1") none (Vector.replicate 32 7) (Vector.replicate 16 7)
    mixHashes.serverMac "k" "ab:1" 0 0 ≠ mixHashes.serverMac "k" "ab:1" 1 0 ∧
    (2 = 2 ∨ 2 = 3 ∨ 2 = 4) ∧ ∃ hands fs', (mixHashes.matchDeals 3).run fs = .ok (hands, fs') ∧ hands.length = 3 ∧
      (∀ i < 3, fs'.games[i]? = some ⟨i, i⟩ ∧ ∃ dealt, hands[i]? = some dealt ∧
        mixHashes.verifyDeal fs'.reveal.serverSeed fs'.reveal.clientSeed i fs'.reveal.numPlayers = .ok dealt ∧
        mixHashes.reconstructDeal fs'.reveal.serverSeed fs'.reveal.clientSeed i fs'.reveal.numPlayers = .ok dealt) ∧
      mixHashes.verifyCommitment fs'.reveal.serverSeed fs.commitment.1 = true := by
  intro fs
  obtain ⟨⟨hands, fs', hrun, hlen, -, hdeals, hcommit, -⟩, -⟩ := deals_verifiable mixHashes 2 (by decide)
    (some "ab:1") none (Vector.replicate 32 7) (Vector.replicate 16 7) 3
  exact ⟨by decide +kernel, by decide, hands, fs', hrun, hlen, hdeals, hcommit⟩

end Murlan
