import Mathlib.Data.List.GetD
import Murlan.Base.Numerals
import Murlan.Spec.TronAddress

/-!
# Addresses are checked exactly

* `carry_lt`: the loop stays where 32-bit operators are those of numbers.
* `addDigit_eq`: what the inner loop leaves are the base-256 digits of 58 times the number and the digit.
* `base58Decode_eq`: what the decoder returns, for every string.
* `base58Decode_eq_some_iff`: decoding undoes encoding, and nothing else is decoded to the same bytes.
* `isValidTronAddress_iff`, `IsAddressOf.unique`, `IsAddressOf.abiParam`: which strings are accepted, and what they stand
  for.
-/

namespace Murlan

namespace TronAddress

/-! ## Characters -/

/-- The value of a character in base 58. -/
def valueOf (u : UInt16) : ℕ := ALPHABET.idxOf u

theorem alphabet_eq : ALPHABET =
    [49, 50, 51, 52, 53, 54, 55, 56, 57, 65, 66, 67, 68, 69, 70, 71, 72, 74, 75, 76, 77, 78, 80, 81, 82, 83, 84,
    85, 86, 87, 88, 89, 90, 97, 98, 99, 100, 101, 102, 103, 104, 105, 106, 107, 109, 110, 111, 112, 113, 114,
    115, 116, 117, 118, 119, 120, 121, 122] := by
  decide +kernel

theorem alphabet_ascii {u : UInt16} (h : u ∈ ALPHABET) : u < 128 := by
  -- one character after another: there are too many code units to decide it for each
  have hall : ALPHABET.all (fun u => decide (u < 128)) = true := by rw [alphabet_eq]; decide
  exact of_decide_eq_true (List.all_eq_true.mp hall u h)

theorem alphabet_nodup : ALPHABET.Nodup := by rw [alphabet_eq]; decide +kernel

theorem alphabet_length : ALPHABET.length = 58 := by rw [alphabet_eq]; rfl

theorem valueOf_lt {u : UInt16} (h : u ∈ ALPHABET) : valueOf u < 58 := alphabet_length ▸ List.idxOf_lt_length_of_mem h

/-- Every character is of the alphabet. -/
def IsBase58 (s : CodeUnits) : Prop := ∀ u ∈ s, u ∈ ALPHABET

instance (s : CodeUnits) : Decidable (IsBase58 s) := List.decidableBAll (fun u => u ∈ ALPHABET) s

@[simp] theorem isBase58_nil : IsBase58 [] := fun _ h => absurd h List.not_mem_nil

@[simp]
theorem isBase58_cons {u : UInt16} {s : CodeUnits} : IsBase58 (u :: s) ↔ u ∈ ALPHABET ∧ IsBase58 s :=
  List.forall_mem_cons

/-- A character is found where it first stands. -/
theorem indexOf_unit (u : UInt16) : indexOf ALPHABET [u] = if u ∈ ALPHABET then some (valueOf u) else none := by
  have hat : ∀ i, List.isPrefixOf [u] (ALPHABET.drop i) = decide (ALPHABET[i]? = some u) := by
    intro i
    rw [← List.head?_drop]
    cases ALPHABET.drop i with
    | nil => rfl
    | cons v l => simp [List.isPrefixOf, Bool.beq_eq_decide_eq, eq_comm]
  unfold indexOf
  simp only [hat]
  split
  · rename_i hmem
    refine List.find?_range_eq_some.mpr ⟨?_, ?_, fun j hj => ?_⟩
    · exact decide_eq_true (List.getElem?_idxOf hmem)
    · exact List.mem_range.mpr (List.idxOf_lt_length_of_mem hmem)
    · rw [Bool.not_eq_true', decide_eq_false_iff_not]
      intro hsame
      obtain ⟨hlt, heq⟩ := List.getElem?_eq_some_iff.mp hsame
      have hnot : (ALPHABET[j] == u) = false := List.not_of_lt_findIdx (p := (· == u)) hj
      rw [heq] at hnot
      simp at hnot
  · rename_i hmem
    refine List.find?_eq_none.mpr fun i _ hi => hmem ?_
    exact List.mem_of_getElem? (of_decide_eq_true hi)

/-- A surrogate pair is no substring of the alphabet. -/
theorem indexOf_pair {u v : UInt16} (hu : 0xD800 ≤ u) : indexOf ALPHABET [u, v] = none := by
  refine List.find?_eq_none.mpr fun i _ hi => ?_
  have hmem : u ∈ ALPHABET.drop i := (List.isPrefixOf_iff_prefix.mp hi).subset List.mem_cons_self
  have hlt : u.toNat < 128 := UInt16.lt_iff_toNat_lt.mp (alphabet_ascii (List.mem_of_mem_drop hmem))
  have hge : 0xD800 ≤ u.toNat := UInt16.le_iff_toNat_le.mp hu
  omega

/-! ## Bytes -/

/-- A carry is written in base 256. -/
theorem pushCarry_eq : ∀ {fuel carry : ℕ}, carry ≤ fuel → pushCarry fuel carry = Nat.digits 256 carry := by
  intro fuel
  induction fuel with
  | zero =>
    intro carry h
    rw [Nat.le_zero.mp h, Nat.digits_zero]
    rfl
  | succ fuel ih =>
    intro carry h
    unfold pushCarry
    split
    · rename_i hpos
      have hless : carry / 256 ≤ fuel := by omega
      rw [Nat.digits_def' (by decide) hpos, show carry &&& 0xff = carry % 256 from Nat.and_two_pow_sub_one_eq_mod carry 8,
        Nat.shiftRight_eq_div_pow, ih hless]
    · rename_i hzero
      rw [show carry = 0 by omega, Nat.digits_zero]

/-- Within the loop the carry stays below 58 and a sum below `2 ^ 14`, where the 32-bit `&` and `>>` are those of numbers. -/
theorem carry_lt {carry byte : ℕ} (hcarry : carry < 58) (hbyte : byte < 256) :
    carry + byte * 58 < 2 ^ 14 ∧ (carry + byte * 58) >>> 8 < 58 := by
  rw [Nat.shiftRight_eq_div_pow]
  omega

/-- **The inner loop** multiplies by 58 and adds: what it leaves are the digits of the result. The induction is on the
bytes; the most significant one is not zero, or there is none. -/
theorem addDigit_eq : ∀ {bytes : List ℕ} {carry : ℕ}, (∀ h : bytes ≠ [], bytes.getLast h ≠ 0) →
    addDigit bytes carry = Nat.digits 256 (58 * Nat.ofDigits 256 bytes + carry) := by
  intro bytes
  induction bytes with
  | nil =>
    intro carry _
    simpa [addDigit] using pushCarry_eq (Nat.le_refl carry)
  | cons byte bytes ih =>
    intro carry hlast
    have hrest : ∀ h : bytes ≠ [], bytes.getLast h ≠ 0 := by
      intro h
      rw [← List.getLast_cons (a := byte) h]
      exact hlast (List.cons_ne_nil _ _)
    -- the number is not zero, so it has a lowest digit
    have hpos : 0 < 58 * Nat.ofDigits 256 (byte :: bytes) + carry := by
      have hne : Nat.ofDigits 256 (byte :: bytes) ≠ 0 := fun hzero =>
        hlast (List.cons_ne_nil _ _) (Nat.digits_zero_of_eq_zero (by decide) hzero _ (List.getLast_mem _))
      omega
    unfold addDigit
    rw [Nat.digits_def' (by decide) hpos, ih hrest, Nat.ofDigits_cons]
    rw [show ∀ n, n &&& 0xff = n % 256 from fun n => Nat.and_two_pow_sub_one_eq_mod n 8, Nat.shiftRight_eq_div_pow]
    congr 1
    · omega
    · congr 1
      omega

/-- The array as it stands when the characters so far denote `n`: the least significant byte first, a single zero for
zero. -/
def littleEndian (n : ℕ) : List ℕ := if n = 0 then [0] else Nat.digits 256 n

/-- One digit more is one step of the numeral. -/
theorem addDigit_littleEndian (n : ℕ) {value : ℕ} (h : value < 58) :
    addDigit (littleEndian n) value = littleEndian (58 * n + value) := by
  unfold littleEndian
  by_cases hn : n = 0
  · subst hn
    rw [if_pos rfl]
    -- the first character that counts
    have hsmall : addDigit [0] value = [value] := by
      unfold addDigit addDigit
      rw [Nat.zero_mul, Nat.add_zero, show value &&& 0xff = value % 256 from Nat.and_two_pow_sub_one_eq_mod value 8,
        Nat.shiftRight_eq_div_pow, Nat.mod_eq_of_lt (by omega), show value / 2 ^ 8 = 0 by omega]
      rfl
    rw [hsmall, Nat.mul_zero, Nat.zero_add]
    split
    · rename_i hzero
      rw [hzero]
    · rename_i hpos
      exact (Nat.digits_of_lt 256 value hpos (by omega)).symm
  · rw [if_neg hn, if_neg (by omega), addDigit_eq (fun hne => Nat.getLast_digit_ne_zero 256 hn), Nat.ofDigits_digits]

/-! ## The characters of a string -/

/-- The number that a string denotes in base 58. -/
def denotes (s : CodeUnits) : ℕ := Numerals.value 58 (s.map valueOf)

/-- The digits give the number. -/
theorem foldl_addDigit {s : CodeUnits} (hs : IsBase58 s) :
    s.foldl (fun bytes u => addDigit bytes (valueOf u)) [0] = littleEndian (denotes s) := by
  induction s using List.reverseRecOn with
  | nil => rfl
  | append_singleton s u ih =>
    have hlt := valueOf_lt (hs u (by simp))
    rw [List.foldl_append, ih fun v hv => hs v (List.mem_append_left _ hv)]
    show addDigit (littleEndian (denotes s)) (valueOf u) = _
    rw [addDigit_littleEndian _ hlt]
    unfold denotes
    rw [List.map_append, List.map_singleton, Numerals.value_append_singleton]

/-- **The loop over the characters** goes by the code units: a pair of surrogates ends it, as either of them would. -/
theorem foldlM_codePoints (s : CodeUnits) : ∀ bytes : List ℕ,
    (codePoints s).foldlM (fun bytes ch => do
      let value ← indexOf ALPHABET ch
      pure (addDigit bytes value)) bytes =
    if IsBase58 s then some (s.foldl (fun bytes u => addDigit bytes (valueOf u)) bytes) else none := by
  induction s using codePoints.induct with
  | case1 => intro bytes; simp [codePoints]
  | case2 u =>
    intro bytes
    simp only [codePoints, List.foldlM_cons, List.foldlM_nil, indexOf_unit]
    by_cases hu : u ∈ ALPHABET <;> simp [hu]
  | case3 u v s hpair ih =>
    intro bytes
    have hu : u ∉ ALPHABET := by
      intro hmem
      have hlt : u.toNat < 128 := UInt16.lt_iff_toNat_lt.mp (alphabet_ascii hmem)
      have hge : 0xD800 ≤ u.toNat := UInt16.le_iff_toNat_le.mp hpair.1
      omega
    rw [codePoints, if_pos hpair, List.foldlM_cons, indexOf_pair hpair.1, if_neg fun hall => hu (isBase58_cons.mp hall).1]
    rfl
  | case4 u v s hpair ih =>
    intro bytes
    rw [codePoints, if_neg hpair, List.foldlM_cons, indexOf_unit]
    by_cases hu : u ∈ ALPHABET
    · rw [if_pos hu]
      show (codePoints (v :: s)).foldlM _ (addDigit bytes (valueOf u)) = _
      rw [ih]
      simp [hu]
    · rw [if_neg hu, if_neg fun hall => hu (isBase58_cons.mp hall).1]
      rfl

/-- Each leading one is a zero byte. -/
theorem leadingOnes_eq (s : CodeUnits) : leadingOnes s = List.replicate (s.takeWhile (· = ONE)).length 0 := by
  induction s with
  | nil => rfl
  | cons u s ih =>
    unfold leadingOnes
    by_cases hu : u = ONE
    · simp [hu, ih, List.replicate_succ]
    · simp [hu]

/-- The digits of a number in base 256, the most significant one first; a single zero for zero. -/
def bigEndian (n : ℕ) : List ℕ := if n = 0 then [0] else (Nat.digits 256 n).reverse

/-- **What `base58Decode` returns.** -/
theorem base58Decode_eq (s : CodeUnits) : base58Decode s =
    if IsBase58 s then
      some ((List.replicate (s.takeWhile (· = ONE)).length 0 ++ bigEndian (denotes s)).map UInt8.ofNat)
    else none := by
  unfold base58Decode
  rw [foldlM_codePoints]
  split
  · rename_i hall
    have hreverse : (littleEndian (denotes s)).reverse = bigEndian (denotes s) := by
      unfold littleEndian bigEndian
      split <;> rfl
    show some _ = some _
    rw [foldl_addDigit hall, leadingOnes_eq, List.reverse_append, List.reverse_replicate, hreverse]
  · rfl

/-! ## Encoding -/

/-- The base58 encoding of bytes: a `1` for each zero they lead with, and the digits in base 58. -/
def base58Encode (bytes : List UInt8) : CodeUnits :=
  (Numerals.recode 256 58 (bytes.map UInt8.toNat)).map fun v => ALPHABET.getD v 0

theorem alphabet_valueOf {u : UInt16} (h : u ∈ ALPHABET) : ALPHABET.getD (valueOf u) 0 = u := by
  unfold valueOf
  rw [List.getD_eq_getElem?_getD, List.getElem?_idxOf h, Option.getD_some]

theorem valueOf_alphabet {v : ℕ} (h : v < 58) : valueOf (ALPHABET.getD v 0) = v := by
  have hlt : v < ALPHABET.length := alphabet_length ▸ h
  unfold valueOf
  rw [List.getD_eq_getElem _ _ hlt]
  exact alphabet_nodup.idxOf_getElem v hlt

theorem alphabet_mem {v : ℕ} (h : v < 58) : ALPHABET.getD v 0 ∈ ALPHABET := by
  have hlt : v < ALPHABET.length := alphabet_length ▸ h
  rw [List.getD_eq_getElem _ _ hlt]
  exact List.getElem_mem hlt

theorem valueOf_eq_zero {u : UInt16} (h : u ∈ ALPHABET) : valueOf u = 0 ↔ u = ONE := by
  have hfirst : ALPHABET.getD 0 0 = ONE := by rw [alphabet_eq]; rfl
  constructor
  · intro hzero
    rw [← alphabet_valueOf h, hzero, hfirst]
  · intro hone
    rw [hone, ← hfirst, valueOf_alphabet (by decide)]

/-- The leading ones are the leading zeros. -/
theorem leading_values {s : CodeUnits} (hs : IsBase58 s) :
    Numerals.leading (s.map valueOf) = (s.takeWhile (· = ONE)).length := by
  unfold Numerals.leading
  rw [List.takeWhile_map, List.length_map]
  induction s with
  | nil => rfl
  | cons u s ih =>
    have hzero := valueOf_eq_zero (hs u List.mem_cons_self)
    have hrest := ih fun v hv => hs v (List.mem_cons_of_mem u hv)
    by_cases hu : u = ONE
    · have hvalue : valueOf u = 0 := hzero.mpr hu
      rw [List.takeWhile_cons_of_pos (by simpa using hvalue), List.takeWhile_cons_of_pos (by simpa using hu), List.length_cons,
        List.length_cons, hrest]
    · have hne : valueOf u ≠ 0 := fun h => hu (hzero.mp h)
      simp [hu, hne]

theorem bytes_lt {bytes : List UInt8} : ∀ d ∈ bytes.map UInt8.toNat, d < 256 := by
  intro d hd
  obtain ⟨b, -, rfl⟩ := List.mem_map.mp hd
  exact b.toNat_lt

/-- Numbers below 256 are bytes. -/
theorem map_bytes {l : List ℕ} (hl : ∀ d ∈ l, d < 256) : (l.map UInt8.ofNat).map UInt8.toNat = l := by
  rw [List.map_map]
  conv_rhs => rw [← List.map_id l]
  exact List.map_congr_left fun d hd => UInt8.toNat_ofNat_of_lt (hl d hd)

theorem map_values {s : CodeUnits} (hs : IsBase58 s) : (s.map valueOf).map (fun v => ALPHABET.getD v 0) = s := by
  rw [List.map_map]
  conv_rhs => rw [← List.map_id s]
  refine List.map_congr_left fun u hu => ?_
  rw [Function.comp_apply, id_eq, alphabet_valueOf (hs u hu)]

theorem map_characters {l : List ℕ} (hl : ∀ d ∈ l, d < 58) : (l.map fun v => ALPHABET.getD v 0).map valueOf = l := by
  rw [List.map_map]
  conv_rhs => rw [← List.map_id l]
  refine List.map_congr_left fun d hd => ?_
  rw [Function.comp_apply, id_eq, valueOf_alphabet (hl d hd)]

/-- A string that does not denote zero is decoded to the bytes of its number, behind its leading zeros. -/
theorem base58Decode_of_ne_zero {s : CodeUnits} (hs : IsBase58 s) (hne : denotes s ≠ 0) :
    base58Decode s = some ((Numerals.recode 58 256 (s.map valueOf)).map UInt8.ofNat) := by
  rw [base58Decode_eq, if_pos hs]
  unfold Numerals.recode bigEndian
  rw [if_neg hne, leading_values hs]
  rfl

/-- **Decoding undoes encoding**, of bytes that do not denote zero, and of nothing else. -/
theorem base58Decode_eq_some_iff {s : CodeUnits} {bytes : List UInt8}
    (hne : Numerals.value 256 (bytes.map UInt8.toNat) ≠ 0) : base58Decode s = some bytes ↔ s = base58Encode bytes := by
  constructor
  · intro hdecode
    have hs : IsBase58 s := by
      by_contra hbad
      rw [base58Decode_eq, if_neg hbad] at hdecode
      cases hdecode
    have hdigits : ∀ d ∈ s.map valueOf, d < 58 := by
      intro d hd
      obtain ⟨u, hu, rfl⟩ := List.mem_map.mp hd
      exact valueOf_lt (hs u hu)
    have hpos : denotes s ≠ 0 := by
      intro hzero
      rw [base58Decode_eq, if_pos hs, hzero] at hdecode
      obtain rfl := Option.some.inj hdecode
      refine hne ?_
      rw [map_bytes]
      · exact Numerals.value_zeros_append 256 _ [0]
      · intro d hd
        simp [bigEndian] at hd
        omega
    rw [base58Decode_of_ne_zero hs hpos] at hdecode
    obtain rfl := Option.some.inj hdecode
    unfold base58Encode
    rw [map_bytes fun d hd => Numerals.digits_lt_of_mem_recode (by decide) hd, Numerals.recode_recode (by decide) hdigits,
      map_values hs]
  · rintro rfl
    have hdigits : ∀ d ∈ Numerals.recode 256 58 (bytes.map UInt8.toNat), d < 58 := fun d hd =>
      Numerals.digits_lt_of_mem_recode (by decide) hd
    have hvalues : (base58Encode bytes).map valueOf = Numerals.recode 256 58 (bytes.map UInt8.toNat) := map_characters hdigits
    have hs : IsBase58 (base58Encode bytes) := by
      intro u hu
      obtain ⟨v, hv, rfl⟩ := List.mem_map.mp hu
      exact alphabet_mem (hdigits v hv)
    have hpos : denotes (base58Encode bytes) ≠ 0 := by
      unfold denotes
      rw [hvalues, Numerals.value_recode]
      exact hne
    rw [base58Decode_of_ne_zero hs hpos, hvalues, Numerals.recode_recode (by decide) bytes_lt, List.map_map]
    conv_rhs => rw [← List.map_id bytes]
    exact congrArg some (List.map_congr_left fun b _ => UInt8.ofNat_toNat)

/-! ## Addresses -/

variable {sha256 : List UInt8 → List UInt8} {s : CodeUnits} {body check bytes : List UInt8}

/-- The string is the base58 encoding of `0x41`, the body, and the first four bytes of the double hash of these. -/
def IsAddressOf (sha256 : List UInt8 → List UInt8) (s : CodeUnits) (body : List UInt8) : Prop :=
  body.length = 20 ∧ ∃ check, check.length = 4 ∧ check <+: sha256 (sha256 (0x41 :: body)) ∧
    s = base58Encode (0x41 :: (body ++ check))

/-- The hex digits of bytes. -/
def hexDigits (bytes : List UInt8) : List Char :=
  bytes.flatMap fun b => [Nat.digitChar (b.toNat / 16), Nat.digitChar (b.toNat % 16)]

/-- What 25 bytes denote that begin with `0x41`. -/
theorem value_prefixed (h : bytes.length = 24) :
    65 * 256 ^ 24 ≤ Numerals.value 256 ((0x41 :: bytes).map UInt8.toNat) ∧
      Numerals.value 256 ((0x41 :: bytes).map UInt8.toNat) < 66 * 256 ^ 24 := by
  have hlength : (bytes.map UInt8.toNat).length = 24 := (List.length_map _).trans h
  have hlt : Numerals.value 256 (bytes.map UInt8.toNat) < 256 ^ (bytes.map UInt8.toNat).length :=
    Numerals.value_lt (by decide) bytes_lt
  have hcons := Numerals.value_cons 256 65 (bytes.map UInt8.toNat)
  rw [hlength] at hlt hcons
  rw [List.map_cons, show UInt8.toNat 0x41 = 65 from rfl, hcons]
  omega

/-- The encoding of 25 bytes that begin with `0x41` has 34 characters, the first of them a `T`. -/
theorem base58Encode_prefixed (h : bytes.length = 24) :
    (base58Encode (0x41 :: bytes)).length = 34 ∧ (base58Encode (0x41 :: bytes))[0]? = some (UInt16.ofNat 'T'.toNat) := by
  obtain ⟨hge, hlt⟩ := value_prefixed h
  have hrecode : Numerals.recode 256 58 ((0x41 :: bytes).map UInt8.toNat) =
      (Nat.digits 58 (Numerals.value 256 ((0x41 :: bytes).map UInt8.toNat))).reverse := by
    have hleading : Numerals.leading ((0x41 :: bytes).map UInt8.toNat) = 0 := by simp [Numerals.leading]
    unfold Numerals.recode
    rw [hleading]
    rfl
  unfold base58Encode
  rw [hrecode, List.length_map, List.length_reverse]
  generalize Numerals.value 256 ((0x41 :: bytes).map UInt8.toNat) = n at hge hlt
  have hlength : (Nat.digits 58 n).length = 34 := by
    have hle : (Nat.digits 58 n).length ≤ 34 := (Nat.digits_length_le_iff (by decide) n).mpr (by omega)
    have hnot : ¬(Nat.digits 58 n).length ≤ 33 := fun hle => by
      have := (Nat.digits_length_le_iff (by decide) n).mp hle
      omega
    omega
  refine ⟨hlength, ?_⟩
  -- the first digit is what the 33 others leave of the number
  have hvalue := Numerals.value_reverse_digits 58 n
  have hdigits : ∀ d ∈ (Nat.digits 58 n).reverse, d < 58 := fun d hd => Nat.digits_lt_base (by decide) (List.mem_reverse.mp hd)
  rw [← List.length_reverse] at hlength
  cases hcases : (Nat.digits 58 n).reverse with
  | nil =>
    rw [hcases] at hlength
    cases hlength
  | cons d l =>
    rw [hcases] at hvalue hdigits hlength
    rw [List.length_cons] at hlength
    have hl : l.length = 33 := by omega
    have hrest := Numerals.value_lt (b := 58) (by decide) fun x hx => hdigits x (List.mem_cons_of_mem d hx)
    rw [Numerals.value_cons, hl] at hvalue
    rw [hl] at hrest
    have hd : d = 26 := by omega
    rw [hd]
    rfl

theorem IsAddressOf.decoded (h : IsAddressOf sha256 s body) : ∃ check, check.length = 4 ∧
    check <+: sha256 (sha256 (0x41 :: body)) ∧ base58Decode s = some (0x41 :: (body ++ check)) := by
  obtain ⟨hbody, check, hcheck, hprefix, rfl⟩ := h
  have hlength : (body ++ check).length = 24 := by simp [hbody, hcheck]
  have hvalue := (value_prefixed hlength).1
  exact ⟨check, hcheck, hprefix, (base58Decode_eq_some_iff (by omega)).mpr rfl⟩

/-- Four bytes agree with a hash one by one exactly if it begins with them. -/
theorem checksum_iff {h : List UInt8} (hcheck : check.length = 4) :
    ((List.range 4).all fun i => check[i]? = h[i]?) = true ↔ check <+: h := by
  rw [List.all_eq_true, List.prefix_iff_getElem?]
  constructor
  · intro hall i hi
    have heq := of_decide_eq_true (hall i (List.mem_range.mpr (by omega)))
    rw [← heq, List.getElem?_eq_getElem hi]
  · intro hall i hi
    have hlt : i < check.length := by
      have := List.mem_range.mp hi
      omega
    rw [decide_eq_true_iff, hall i hlt, List.getElem?_eq_getElem hlt]

/-- **Which strings are accepted.** -/
theorem isValidTronAddress_iff :
    isValidTronAddress sha256 (some s) = true ↔ s.length = 34 ∧ ∃ body, IsAddressOf sha256 s body := by
  unfold isValidTronAddress
  constructor
  · intro hvalid
    dsimp only at hvalid
    split at hvalid
    · cases hvalid
    · rename_i hshape
      obtain ⟨hlength, -⟩ := not_or.mp hshape
      split at hvalid
      · cases hvalid
      · rename_i decoded hdecode
        split at hvalid
        · cases hvalid
        · rename_i hform
          obtain ⟨hsize, hfirst⟩ := not_or.mp hform
          rw [not_not] at hsize hfirst hlength
          cases decoded with
          | nil => cases hsize
          | cons first rest =>
            obtain rfl : first = 0x41 := Option.some.inj hfirst
            have hrest : rest.length = 24 := by
              rw [List.length_cons] at hsize
              omega
            have hcheck : (rest.drop 20).length = 4 := by rw [List.length_drop]; omega
            have hchecksum : ((0x41 :: rest).drop 21).take 4 = rest.drop 20 :=
              List.take_of_length_le (by rw [List.drop_succ_cons]; omega)
            rw [hchecksum, checksum_iff hcheck] at hvalid
            refine ⟨hlength, rest.take 20, by rw [List.length_take]; omega, rest.drop 20, hcheck, hvalid, ?_⟩
            have hvalue := (value_prefixed hrest).1
            rw [List.take_append_drop]
            exact (base58Decode_eq_some_iff (by omega)).mp hdecode
  · rintro ⟨hlength, body, haddress⟩
    obtain ⟨check, hcheck, hprefix, hdecode⟩ := haddress.decoded
    obtain ⟨hbody, check', hcheck', -, hs⟩ := haddress
    have hbytes : (body ++ check').length = 24 := by simp [hbody, hcheck']
    have hfirst : s[0]? = some (UInt16.ofNat 'T'.toNat) := hs ▸ (base58Encode_prefixed hbytes).2
    dsimp only
    rw [if_neg (not_or.mpr ⟨not_not.mpr hlength, not_not.mpr hfirst⟩), hdecode]
    dsimp only
    rw [if_neg (by simp [hbody, hcheck])]
    have hpayload : (0x41 :: (body ++ check)).take 21 = 0x41 :: body := by
      rw [List.take_succ_cons, List.take_left' hbody]
    have hchecksum : ((0x41 :: (body ++ check)).drop 21).take 4 = check := by
      rw [List.drop_succ_cons, List.drop_left' hbody]
      exact List.take_of_length_le (Nat.le_of_eq hcheck)
    rw [hpayload, hchecksum]
    exact (checksum_iff hcheck).mpr hprefix

/-- An address has one body. -/
theorem IsAddressOf.body_unique {body' : List UInt8} (h : IsAddressOf sha256 s body) (h' : IsAddressOf sha256 s body') :
    body' = body := by
  obtain ⟨check, -, -, hdecode⟩ := h.decoded
  obtain ⟨check', -, -, hdecode'⟩ := h'.decoded
  have hbytes := List.cons.inj (Option.some.inj (hdecode'.symm.trans hdecode))
  exact (List.append_inj hbytes.2 (h'.1.trans h.1.symm)).1

/-- The body of an address is that of no other. -/
theorem IsAddressOf.unique {s' : CodeUnits} (h : IsAddressOf sha256 s body) (h' : IsAddressOf sha256 s' body) : s = s' := by
  obtain ⟨-, check, hcheck, hprefix, rfl⟩ := h
  obtain ⟨-, check', hcheck', hprefix', rfl⟩ := h'
  rw [List.prefix_iff_eq_take.mp hprefix, List.prefix_iff_eq_take.mp hprefix', hcheck, hcheck']

theorem hexByte_eq (b : UInt8) : hexByte b = [Nat.digitChar (b.toNat / 16), Nat.digitChar (b.toNat % 16)] :=
  Numerals.toDigits_byte b.toNat_lt

/-- **The parameter of a contract call.** -/
theorem IsAddressOf.abiParam (h : IsAddressOf sha256 s body) :
    tronAddressToAbiParam s = some (List.replicate 24 '0' ++ hexDigits body) := by
  obtain ⟨check, hcheck, -, hdecode⟩ := h.decoded
  unfold tronAddressToAbiParam
  rw [hdecode]
  dsimp only
  rw [if_neg (by simp [h.1, hcheck]), List.drop_succ_cons, List.drop_zero, List.take_left' h.1]
  unfold hexDigits
  rw [List.flatMap_congr fun b _ => hexByte_eq b]

/-- Two digits a byte. -/
theorem hexDigits_length (bytes : List UInt8) : (hexDigits bytes).length = 2 * bytes.length := by
  induction bytes with
  | nil => rfl
  | cons b bytes ih =>
    unfold hexDigits at ih ⊢
    rw [List.flatMap_cons, List.length_append, ih, List.length_cons]
    simp only [List.length_cons, List.length_nil]
    omega

/-- **Addresses are checked exactly.** `base58Decode` refuses the strings with a character outside the alphabet, and
gives the base-256 digits of the number that any other denotes, behind a zero for each one it begins with. A string is
accepted exactly if it has 34 characters and encodes `0x41`, a body of 20 bytes and their checksum; no two accepted
strings have one body; and the parameter of a call is the body in hex, 64 digits in all. -/
theorem address_checking_exact (sha256 : List UInt8 → List UInt8) :
    (∀ s, base58Decode s =
      if IsBase58 s then
        some ((List.replicate (s.takeWhile (· = ONE)).length 0 ++ bigEndian (denotes s)).map UInt8.ofNat)
      else none) ∧
    (∀ s, isValidTronAddress sha256 (some s) = true ↔ s.length = 34 ∧ ∃ body, IsAddressOf sha256 s body) ∧
    (∀ s s' body, isValidTronAddress sha256 (some s) = true → isValidTronAddress sha256 (some s') = true →
      IsAddressOf sha256 s body → IsAddressOf sha256 s' body → s = s') ∧
    ∀ s, isValidTronAddress sha256 (some s) = true → ∃ body, IsAddressOf sha256 s body ∧
      (∀ body', IsAddressOf sha256 s body' → body' = body) ∧
      tronAddressToAbiParam s = some (List.replicate 24 '0' ++ hexDigits body) ∧
      (List.replicate 24 '0' ++ hexDigits body).length = 64 := by
  refine ⟨base58Decode_eq, fun s => isValidTronAddress_iff, fun s s' body _ _ h h' => h.unique h', fun s hvalid => ?_⟩
  obtain ⟨-, body, hbody⟩ := isValidTronAddress_iff.mp hvalid
  refine ⟨body, hbody, fun body' => hbody.body_unique, hbody.abiParam, ?_⟩
  rw [List.length_append, List.length_replicate, hexDigits_length, hbody.1]

end TronAddress

end Murlan
