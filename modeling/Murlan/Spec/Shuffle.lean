import Murlan.Base.Rounding
import Murlan.Base.Swaps
import Murlan.Spec.Card

/-!
# Shuffling and dealing

`shuffle`, `dealSizes` and `deal` of `packages/engine/src/engine.ts`. An rng is an action that
returns a number, in whatever monad the caller has; a product of numbers is the rounded one of
IEEE doubles. `shuffleAt` is the shuffle on arrays that live at addresses, to tell the copy from
the argument.
-/

namespace Murlan

/-- `Math.floor(r * n)`, with the 53 bits of a double. -/
def toIndex (r : ℚ) (n : ℕ) : ℕ := ⌊Rounding.round 53 (r * n)⌋₊

variable {m : Type → Type} [Monad m] {T : Type}

/-- The loop of `shuffle` from the place `i` down to 1. -/
def shuffleLoop (rng : m ℚ) : ℕ → List T → m (List T)
  | 0, a => pure a
  | i + 1, a => do
    let r ← rng
    shuffleLoop rng i (swapAt a (i + 1) (toIndex r (i + 2)))

/-- Fisher–Yates. -/
def shuffle (arr : List T) (rng : m ℚ) : m (List T) := shuffleLoop rng (arr.length - 1) arr

/-- Every array is shorter. -/
def arrayLimit : ℕ := 2 ^ 32

/-- The arrays that have been allocated, by address. -/
abbrev Arrays (T : Type) : Type := List (List T)

/-- The loop on the array at an address. -/
def shuffleLoopAt (rng : m ℚ) (addr : ℕ) : ℕ → Arrays T → m (Arrays T)
  | 0, h => pure h
  | i + 1, h => do
    let r ← rng
    shuffleLoopAt rng addr i (h.modify addr fun a => swapAt a (i + 1) (toIndex r (i + 2)))

/-- `shuffle` of the array at an address: the address of a copy of it, which is shuffled in place. -/
def shuffleAt (arr : ℕ) (rng : m ℚ) (h : Arrays T) : m (ℕ × Arrays T) := do
  let a := h.getD arr []
  let h' ← shuffleLoopAt rng h.length (a.length - 1) (h ++ [a])
  pure (h.length, h')

/-- How many cards each seat is dealt. -/
def dealSizes (players : ℕ) : List ℕ :=
  if players = 2 then [18, 18] else if players = 3 then [18, 18, 18] else [14, 14, 13, 13]

/-- The slices of a list with the given sizes, from the place `i` on. -/
def slices (deck : List T) : ℕ → List ℕ → List (List T)
  | _, [] => []
  | i, size :: sizes => (deck.drop i).take size :: slices deck (i + size) sizes

/-- A deal: the deck is shuffled and cut. -/
def deal (players : ℕ) (rng : m ℚ) : m (List (List Card)) := do
  let deck ← shuffle buildDeck rng
  pure (slices deck 0 (dealSizes players))

end Murlan
