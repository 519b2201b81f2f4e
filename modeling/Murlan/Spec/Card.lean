import Mathlib.Algebra.Ring.Nat
import Mathlib.Data.List.Sort

/-!
# Cards and combinations: the rules engine

The rules of `packages/engine/src/engine.ts`: the card model, the two orders of
cards, the recognition of a combination (`identifyCombo`), which combination
beats which (`beats`) and the check of a proposed play (`validatePlay`).

Cards are compared in the source through their `cardId`; `cardId_inj` lets the
model compare the cards themselves.
-/

namespace Murlan

/-- The suits of the 52 standard cards. -/
inductive Suit where
  | S | H | D | C
  deriving DecidableEq, Repr

/-- The ranks, from the weakest on. -/
inductive Rank where
  | r3 | r4 | r5 | r6 | r7 | r8 | r9 | r10 | J | Q | K | A | r2
  deriving DecidableEq, Repr

/-- The colours of the jokers. -/
inductive JokerColor where
  | black | red
  deriving DecidableEq, Repr

/-- A card of the deck of 54. -/
inductive Card where
  | standard (rank : Rank) (suit : Suit)
  | joker (color : JokerColor)
  deriving DecidableEq, Repr

/-- The suit in an id. -/
def Suit.name : Suit → String
  | .S => "S" | .H => "H" | .D => "D" | .C => "C"

/-- The rank in an id. -/
def Rank.name : Rank → String
  | .r3 => "3" | .r4 => "4" | .r5 => "5" | .r6 => "6" | .r7 => "7" | .r8 => "8" | .r9 => "9"
  | .r10 => "10" | .J => "J" | .Q => "Q" | .K => "K" | .A => "A" | .r2 => "2"

/-- The colour in an id. -/
def JokerColor.name : JokerColor → String
  | .black => "black" | .red => "red"

/-- The stable id of a card. -/
def cardId : Card → String
  | .joker c => "J-" ++ c.name
  | .standard r s => r.name ++ s.name

/-- Power order of the ranks: `3 < 4 < … < A < 2`. -/
def Rank.power : Rank → ℕ
  | .r3 => 0 | .r4 => 1 | .r5 => 2 | .r6 => 3 | .r7 => 4 | .r8 => 5 | .r9 => 6
  | .r10 => 7 | .J => 8 | .Q => 9 | .K => 10 | .A => 11 | .r2 => 12

/-- The jokers beat every rank. -/
def JokerColor.power : JokerColor → ℕ
  | .black => 13 | .red => 14

/-- The power of a card on its own. -/
def singlePower : Card → ℕ
  | .joker c => c.power
  | .standard r _ => r.power

/-- Sequence order inside a run; an Ace has no fixed value. -/
def Rank.seq : Rank → Option ℕ
  | .A => none
  | .r2 => some 2 | .r3 => some 3 | .r4 => some 4 | .r5 => some 5 | .r6 => some 6 | .r7 => some 7
  | .r8 => some 8 | .r9 => some 9 | .r10 => some 10 | .J => some 11 | .Q => some 12 | .K => some 13

/-- Whether the card is a joker. -/
def Card.isJoker : Card → Bool
  | .joker _ => true
  | .standard _ _ => false

/-- The rank of a card that is no joker. -/
def Card.rank? : Card → Option Rank
  | .standard r _ => some r
  | .joker _ => none

/-- The suit of a card that is no joker. -/
def Card.suit? : Card → Option Suit
  | .standard _ s => some s
  | .joker _ => none

/-- The kinds of plays. -/
inductive ComboType where
  | single | pair | triple | kolor | bomb | flush
  deriving DecidableEq, Repr

/-- `power` is the key of a single, pair, triple or bomb, `topSeq` the key of a run. -/
structure Combo where
  type : ComboType
  cards : List Card
  size : ℕ
  power : Option ℕ := none
  topSeq : Option ℕ := none
  deriving DecidableEq, Repr

/-- Each value is one more than the value before it. -/
def consecutive (vals : List ℕ) : Bool := (vals.zip vals.tail).all fun p => p.2 == p.1 + 1

/-- The values of a run when the `i`-th Ace counts 14 exactly where bit `i` of `mask` is set. -/
def runVals (fixed : List ℕ) (aces mask : ℕ) : List ℕ :=
  (fixed ++ (List.range aces).map fun i => if mask.testBit i then 14 else 1).insertionSort (· ≤ ·)

/-- The top value of a run, or `none` when the cards are not one. -/
def straightTop (cards : List Card) : Option ℕ :=
  if cards.length < 5 then none
  else if cards.any Card.isJoker then none
  else
    let fixed := cards.filterMap fun c => c.rank?.bind Rank.seq
    let aces := (cards.filter fun c => c.rank? == some .A).length
    (List.range (2 ^ aces)).findSome? fun mask =>
      let vals := runVals fixed aces mask
      if vals.Nodup ∧ consecutive vals = true then vals.getLast? else none

/-- All cards have the rank of the first, and none is a joker. -/
def allSameRank (cards : List Card) : Bool :=
  if cards.any Card.isJoker then false
  else cards.all fun c => c.rank? == (cards.head?.bind Card.rank?)

/-- All cards have the suit of the first, and none is a joker. -/
def allSameSuit (cards : List Card) : Bool :=
  if cards.any Card.isJoker then false
  else cards.all fun c => c.suit? == (cards.head?.bind Card.suit?)

/-- The combination the cards form, if any. -/
def identifyCombo (cards : List Card) : Option Combo :=
  match cards with
  | [] => none
  | [c] => some { type := .single, cards, size := 1, power := some (singlePower c) }
  | [c, _] =>
    if !allSameRank cards then none
    else some { type := .pair, cards, size := 2, power := c.rank?.map Rank.power }
  | [c, _, _] =>
    if !allSameRank cards then none
    else some { type := .triple, cards, size := 3, power := c.rank?.map Rank.power }
  | [c, _, _, _] =>
    if !allSameRank cards then none
    else some { type := .bomb, cards, size := 4, power := c.rank?.map Rank.power }
  | _ =>
    match straightTop cards with
    | none => none
    | some top =>
      some { type := if allSameSuit cards then .flush else .kolor, cards, size := cards.length,
             topSeq := some top }

/-- `a > b` on keys; a missing key compares false, as `undefined` does. -/
def keyGt : Option ℕ → Option ℕ → Bool
  | some a, some b => b < a
  | _, _ => false

/-- `candidate` may be played on `current`. -/
def beats (candidate current : Combo) : Bool :=
  if candidate.type = .flush then
    if current.type = .flush then
      if candidate.size ≠ current.size then false else keyGt candidate.topSeq current.topSeq
    else true
  else if candidate.type = .bomb then
    if current.type = .flush then false
    else if current.type = .bomb then keyGt candidate.power current.power
    else true
  else if candidate.type ≠ current.type then false
  else match candidate.type with
    | .single | .pair | .triple => keyGt candidate.power current.power
    | .kolor =>
      -- only the run shifted up by exactly one beats a run
      if candidate.size ≠ current.size then false
      else match candidate.topSeq, current.topSeq with
        | some a, some b => a == b + 1
        | _, _ => false
    | _ => false

/-- The verdict on a play. -/
structure PlayCheck where
  ok : Bool
  combo : Option Combo := none
  reason : Option String := none
  code : Option String := none
  deriving DecidableEq, Repr

/-- The check of a play; `current` is `none` when the player leads. -/
def validatePlay (cards : List Card) (current : Option Combo) : PlayCheck :=
  match identifyCombo cards with
  | none =>
    { ok := false, reason := some "Kjo nuk është një kombinim i vlefshëm.", code := some "invalid_combo" }
  | some combo =>
    match current with
    | none => { ok := true, combo := some combo }
    | some cur =>
      if !beats combo cur then
        { ok := false, combo := some combo, reason := some "Nuk e mund kombinimin aktual.",
          code := some "does_not_beat" }
      else { ok := true, combo := some combo }

/-- The 54 cards. -/
def buildDeck : List Card :=
  let ranks : List Rank := [.r3, .r4, .r5, .r6, .r7, .r8, .r9, .r10, .J, .Q, .K, .A, .r2]
  let suits : List Suit := [.S, .H, .D, .C]
  (suits.flatMap fun s => ranks.map fun r => Card.standard r s) ++ [.joker .black, .joker .red]

theorem mem_buildDeck (c : Card) : c ∈ buildDeck := by
  cases c with
  | standard r s => cases r <;> cases s <;> decide
  | joker c => cases c <;> decide

theorem Rank.name_inj {r r' : Rank} (h : r.name = r'.name) : r = r' := by
  have hnodup : (([.r3, .r4, .r5, .r6, .r7, .r8, .r9, .r10, .J, .Q, .K, .A, .r2] : List Rank).map Rank.name).Nodup := by
    decide +kernel
  exact List.inj_on_of_nodup_map hnodup (by cases r <;> decide) (by cases r' <;> decide) h

theorem Suit.name_inj {s s' : Suit} (h : s.name = s'.name) : s = s' := by
  have hnodup : (([.S, .H, .D, .C] : List Suit).map Suit.name).Nodup := by decide +kernel
  exact List.inj_on_of_nodup_map hnodup (by cases s <;> decide) (by cases s' <;> decide) h

theorem Suit.name_length (s : Suit) : s.name.length = 1 := by cases s <;> decide

theorem Rank.name_length (r : Rank) : r.name.length ≤ 2 := by cases r <;> decide

theorem cardId_joker_length (c : JokerColor) : 4 ≤ (cardId (.joker c)).length := by cases c <;> decide

theorem cardId_standard_length (r : Rank) (s : Suit) : (cardId (.standard r s)).length ≤ 3 := by
  have hr := r.name_length
  have hs := s.name_length
  rw [cardId, String.length_append]
  omega

/-- **`cardId` tells cards apart.** -/
theorem cardId_inj {a b : Card} : cardId a = cardId b ↔ a = b := by
  constructor
  · intro h
    have hlen := congrArg String.length h
    cases a with
    | standard r s =>
      cases b with
      | standard r' s' =>
        -- the suit is the last character
        have hchars := congrArg String.toList h
        rw [cardId, cardId, String.toList_append, String.toList_append] at hchars
        obtain ⟨hr, hs⟩ := List.append_inj' hchars
          (by rw [String.length_toList, String.length_toList, s.name_length, s'.name_length])
        rw [Rank.name_inj (String.toList_inj.1 hr), Suit.name_inj (String.toList_inj.1 hs)]
      | joker c' =>
        have hshort := cardId_standard_length r s
        have hlong := cardId_joker_length c'
        omega
    | joker c =>
      cases b with
      | standard r' s' =>
        have hshort := cardId_standard_length r' s'
        have hlong := cardId_joker_length c
        omega
      | joker c' =>
        revert h
        cases c <;> cases c' <;> decide
  · intro h
    rw [h]

/-- A combination consists of the cards it was found in. -/
theorem identifyCombo_cards {cards : List Card} {combo : Combo} (h : identifyCombo cards = some combo) :
    combo.cards = cards := by
  unfold identifyCombo at h
  split at h
  · cases h
  · cases h; rfl
  · split at h
    · cases h
    · cases h; rfl
  · split at h
    · cases h
    · cases h; rfl
  · split at h
    · cases h
    · cases h; rfl
  · split at h
    · cases h
    · cases h; rfl

/-- An accepted play carries the combination of its cards. -/
theorem validatePlay_ok {cards : List Card} {current : Option Combo}
    (h : (validatePlay cards current).ok = true) :
    (validatePlay cards current).combo = identifyCombo cards ∧ (identifyCombo cards).isSome := by
  unfold validatePlay at h ⊢
  cases hc : identifyCombo cards with
  | none => rw [hc] at h; simp at h
  | some combo =>
    rw [hc] at h
    cases current with
    | none => simp
    | some cur => simp only at h ⊢; split at h <;> simp_all

/-- **Any single card may lead.** -/
theorem validatePlay_lead_single (c : Card) :
    validatePlay [c] none =
      { ok := true, combo := some { type := .single, cards := [c], size := 1, power := some (singlePower c) } } :=
  rfl

end Murlan
