import Mathlib.Data.Nat.Basic
import Mathlib.Logic.Function.Basic

/-!
# Promise chains

Work that is serialised by a key: each link is chained behind the one that is the last of its key
when it joins, begins once that one has settled, and settles. The map from the keys to their last
links is pruned: an entry is deleted once its link has settled, if it is still the last.

* `Ordered`: what the links, the map and the order of joining say of each other; every operation
  keeps it.
* `Ordered.alone`: when a link has begun, all links of its key that joined before have settled;
  `Ordered.exclusive`: of one key no two links are under way together.
-/

namespace Murlan

/-- Links are numbered in the order in which they join. -/
structure PromiseChains (κ : Type*) where
  count : ℕ := 0
  key : ℕ → Option κ := fun _ => none
  prev : ℕ → Option ℕ := fun _ => none
  tail : κ → Option ℕ := fun _ => none
  begun : ℕ → Bool := fun _ => false
  settled : ℕ → Bool := fun _ => false

namespace PromiseChains

variable {κ : Type*}

/-- A link may begin. -/
def ready (c : PromiseChains κ) (i : ℕ) : Bool :=
  decide (i < c.count) && !c.begun i &&
    match c.prev i with
    | none => true
    | some p => c.settled p

/-- A link begins, when the one before it has settled. -/
def start (c : PromiseChains κ) (i : ℕ) : PromiseChains κ :=
  if c.ready i then { c with begun := Function.update c.begun i true } else c

/-- A link that has begun settles. -/
def settle (c : PromiseChains κ) (i : ℕ) : PromiseChains κ :=
  if c.begun i then { c with settled := Function.update c.settled i true } else c

/-- A link joins the chain of its key. -/
def join [DecidableEq κ] (c : PromiseChains κ) (k : κ) : PromiseChains κ :=
  { c with
    count := c.count + 1
    key := Function.update c.key c.count (some k)
    prev := Function.update c.prev c.count (c.tail k)
    tail := Function.update c.tail k (some c.count) }

/-- The entry of a key is deleted if the link has settled and is still the last. -/
def prune [DecidableEq κ] (c : PromiseChains κ) (i : ℕ) : PromiseChains κ :=
  match c.key i with
  | none => c
  | some k => if c.settled i ∧ c.tail k = some i then { c with tail := Function.update c.tail k none } else c

/-- Links are numbered in the order they joined, and each waits for an earlier one of its key. -/
structure Ordered (c : PromiseChains κ) : Prop where
  numbered : ∀ i k, c.key i = some k → i < c.count
  keyed : ∀ i < c.count, ∃ k, c.key i = some k
  earlier : ∀ i p, c.prev i = some p → p < i
  began : ∀ i, c.begun i = true → i < c.count
  ended : ∀ i, c.settled i = true → c.begun i = true
  free : ∀ k, c.tail k = none → ∀ i, c.key i = some k → c.settled i = true
  last : ∀ k p, c.tail k = some p → c.key p = some k ∧ ∀ i, c.key i = some k → i ≤ p
  first : ∀ i k, c.key i = some k → c.prev i = none → ∀ j < i, c.key j = some k → c.settled j = true
  behind : ∀ i k p, c.key i = some k → c.prev i = some p → c.key p = some k ∧ ∀ j < i, c.key j = some k → j ≤ p
  alone : ∀ i k, c.begun i = true → c.key i = some k → ∀ j < i, c.key j = some k → c.settled j = true

/-- With no link, the chains are in order. -/
theorem ordered_empty : Ordered ({} : PromiseChains κ) where
  numbered _ _ h := by cases h
  keyed i h := absurd h (Nat.not_lt_zero i)
  earlier _ _ h := by cases h
  began _ h := by cases h
  ended _ h := by cases h
  free _ _ _ h := by cases h
  last _ _ h := by cases h
  first _ _ h := by cases h
  behind _ _ _ h := by cases h
  alone _ _ h := by cases h

variable {c : PromiseChains κ} {i : ℕ}

/-! ## What an operation changes -/

@[simp] theorem start_key : (c.start i).key = c.key := by
  unfold start
  split <;> rfl

@[simp] theorem start_count : (c.start i).count = c.count := by
  unfold start
  split <;> rfl

@[simp] theorem start_prev : (c.start i).prev = c.prev := by
  unfold start
  split <;> rfl

@[simp] theorem start_settled : (c.start i).settled = c.settled := by
  unfold start
  split <;> rfl

theorem start_begun (h : c.ready i = true) (j : ℕ) : (c.start i).begun j = (decide (j = i) || c.begun j) := by
  unfold start
  rw [if_pos h]
  show Function.update c.begun i true j = _
  rw [Function.update_apply]
  split <;> simp [*]

theorem start_begun_of_ne {j : ℕ} (h : j ≠ i) : (c.start i).begun j = c.begun j := by
  unfold start
  split
  · exact Function.update_of_ne h _ _
  · rfl

@[simp] theorem settle_key : (c.settle i).key = c.key := by
  unfold settle
  split <;> rfl

@[simp] theorem settle_count : (c.settle i).count = c.count := by
  unfold settle
  split <;> rfl

@[simp] theorem settle_prev : (c.settle i).prev = c.prev := by
  unfold settle
  split <;> rfl

@[simp] theorem settle_begun : (c.settle i).begun = c.begun := by
  unfold settle
  split <;> rfl

theorem settle_settled (h : c.begun i = true) (j : ℕ) : (c.settle i).settled j = (decide (j = i) || c.settled j) := by
  unfold settle
  rw [if_pos h]
  show Function.update c.settled i true j = _
  rw [Function.update_apply]
  split <;> simp [*]

theorem settle_settled_of_ne {j : ℕ} (h : j ≠ i) : (c.settle i).settled j = c.settled j := by
  unfold settle
  split
  · exact Function.update_of_ne h _ _
  · rfl

/-! ## The order of the links -/

/-- Of one key no two links are under way together. -/
theorem Ordered.exclusive (h : c.Ordered) {j : ℕ} {k : κ} (hi : c.begun i = true) (hi' : c.settled i = false)
    (hj : c.begun j = true) (hj' : c.settled j = false) (hki : c.key i = some k) (hkj : c.key j = some k) : i = j := by
  rcases Nat.lt_trichotomy i j with hlt | heq | hlt
  · exact absurd ((h.alone j k hj hkj i hlt hki).symm.trans hi') (by decide)
  · exact heq
  · exact absurd ((h.alone i k hi hki j hlt hkj).symm.trans hj') (by decide)

/-- A link begins once the one before it has settled, and with that all before it. -/
theorem Ordered.start (h : c.Ordered) (i : ℕ) : (c.start i).Ordered := by
  unfold PromiseChains.start
  split
  · rename_i hready
    unfold ready at hready
    rw [Bool.and_eq_true, Bool.and_eq_true, decide_eq_true_iff] at hready
    obtain ⟨⟨hcount, -⟩, hprev⟩ := hready
    have hcases : ∀ {j}, Function.update c.begun i true j = true → j = i ∨ c.begun j = true := by
      intro j hj
      rw [Function.update_apply] at hj
      split at hj
      · exact .inl ‹_›
      · exact .inr hj
    refine { h with
      began := fun j hj => ?_
      ended := fun j hj => ?_
      alone := fun j k hj hk j' hlt hk' => ?_ }
    · rcases hcases hj with rfl | hj
      · exact hcount
      · exact h.began j hj
    · dsimp only
      rw [Function.update_apply]
      split
      · rfl
      · exact h.ended j hj
    · rcases hcases hj with rfl | hj
      · cases hp : c.prev j with
        | none => exact h.first j k hk hp j' hlt hk'
        | some p =>
          rw [hp] at hprev
          obtain ⟨hkp, hlast⟩ := h.behind j k p hk hp
          rcases Nat.lt_or_eq_of_le (hlast j' hlt hk') with hbefore | rfl
          · exact h.alone p k (h.ended p hprev) hkp j' hbefore hk'
          · exact hprev
      · exact h.alone j k hj hk j' hlt hk'
  · exact h

/-- A link that settles leaves the chains in order. -/
theorem Ordered.settle (h : c.Ordered) (i : ℕ) : (c.settle i).Ordered := by
  unfold PromiseChains.settle
  split
  · rename_i hbegun
    have hmore : ∀ {j}, c.settled j = true → Function.update c.settled i true j = true := by
      intro j hj
      rw [Function.update_apply]
      split
      · rfl
      · exact hj
    refine { h with
      ended := fun j hj => ?_
      free := fun k hk j hj => hmore (h.free k hk j hj)
      first := fun j k hk hp j' hlt hk' => hmore (h.first j k hk hp j' hlt hk')
      alone := fun j k hj hk j' hlt hk' => hmore (h.alone j k hj hk j' hlt hk') }
    have hj' : Function.update c.settled i true j = true := hj
    rw [Function.update_apply] at hj'
    split at hj'
    · rename_i heq
      exact heq ▸ hbegun
    · exact h.ended j hj'
  · exact h

variable [DecidableEq κ]

@[simp] theorem prune_key : (c.prune i).key = c.key := by
  unfold prune
  split
  · rfl
  · split <;> rfl

@[simp] theorem prune_count : (c.prune i).count = c.count := by
  unfold prune
  split
  · rfl
  · split <;> rfl

@[simp] theorem prune_prev : (c.prune i).prev = c.prev := by
  unfold prune
  split
  · rfl
  · split <;> rfl

@[simp] theorem prune_begun : (c.prune i).begun = c.begun := by
  unfold prune
  split
  · rfl
  · split <;> rfl

@[simp] theorem prune_settled : (c.prune i).settled = c.settled := by
  unfold prune
  split
  · rfl
  · split <;> rfl

/-- The entry that is deleted is that of a key whose links have all settled. -/
theorem Ordered.prune (h : c.Ordered) (i : ℕ) : (c.prune i).Ordered := by
  unfold PromiseChains.prune
  split
  · exact h
  · rename_i k hk
    split
    · rename_i hlast
      obtain ⟨hsettled, htail⟩ := hlast
      refine { h with
        free := fun k' hk' j hj => ?_
        last := fun k' p hk' => ?_ }
      · have hk'' : Function.update c.tail k none k' = none := hk'
        rw [Function.update_apply] at hk''
        split at hk''
        · rename_i heq
          subst heq
          rcases Nat.lt_or_eq_of_le ((h.last k' i htail).2 j hj) with hbefore | rfl
          · exact h.alone i k' (h.ended i hsettled) hk j hbefore hj
          · exact hsettled
        · exact h.free k' hk'' j hj
      · have hk'' : Function.update c.tail k none k' = some p := hk'
        rw [Function.update_apply] at hk''
        split at hk''
        · cases hk''
        · exact h.last k' p hk''
    · exact h

/-- A link that joins leaves the chains in order. -/
theorem Ordered.join (h : c.Ordered) (k : κ) : (c.join k).Ordered := by
  have hold : ∀ {i}, i < c.count → (c.join k).key i = c.key i := fun hi => Function.update_of_ne (Nat.ne_of_lt hi) _ _
  have hself : (c.join k).key c.count = some k := Function.update_self _ _ _
  -- a link is the new one, or was there before
  have hkey : ∀ {i k'}, (c.join k).key i = some k' → (i = c.count ∧ k' = k) ∨ (i < c.count ∧ c.key i = some k') := by
    intro i k' hk
    have hk' : Function.update c.key c.count (some k) i = some k' := hk
    rw [Function.update_apply] at hk'
    split at hk'
    · rename_i heq
      exact .inl ⟨heq, (Option.some.inj hk').symm⟩
    · exact .inr ⟨h.numbered i k' hk', hk'⟩
  have hbound : ∀ {i k'}, (c.join k).key i = some k' → i < c.count + 1 := by
    intro i k' hk
    rcases hkey hk with ⟨rfl, -⟩ | ⟨hi, -⟩
    · exact Nat.lt_succ_self _
    · exact Nat.lt_succ_of_lt hi
  have hearlier : ∀ {i j k'}, (c.join k).key i = some k' → j < i → (c.join k).key j = some k' → c.key j = some k' := by
    intro i j k' hk hj hkj
    rcases hkey hkj with ⟨rfl, -⟩ | ⟨-, hkj⟩
    · exact absurd (hbound hk) (by omega)
    · exact hkj
  have hprev : ∀ {i}, i < c.count → (c.join k).prev i = c.prev i := fun hi => Function.update_of_ne (Nat.ne_of_lt hi) _ _
  have hprevNew : (c.join k).prev c.count = c.tail k := Function.update_self _ _ _
  refine
    { numbered := fun i k' hk => hbound hk
      keyed := fun i hi => ?_
      earlier := fun i p hp => ?_
      began := fun i hi => Nat.lt_succ_of_lt (h.began i hi)
      ended := h.ended
      free := fun k' hk i hi => ?_
      last := fun k' p hk => ?_
      first := fun i k' hk hp j hj hkj => ?_
      behind := fun i k' p hk hp => ?_
      alone := fun i k' hi hk j hj hkj => ?_ }
  · rcases Nat.lt_succ_iff_lt_or_eq.mp hi with hi | rfl
    · obtain ⟨k', hk'⟩ := h.keyed i hi
      exact ⟨k', (hold hi).trans hk'⟩
    · exact ⟨k, hself⟩
  · have hp' : Function.update c.prev c.count (c.tail k) i = some p := hp
    rw [Function.update_apply] at hp'
    split at hp'
    · rename_i heq
      rw [heq]
      exact h.numbered p k (h.last k p hp').1
    · exact h.earlier i p hp'
  · have hk' : Function.update c.tail k (some c.count) k' = none := hk
    rw [Function.update_apply] at hk'
    split at hk'
    · cases hk'
    · rename_i hne
      rcases hkey hi with ⟨-, heq⟩ | ⟨-, hi⟩
      · exact absurd heq hne
      · exact h.free k' hk' i hi
  · have hk' : Function.update c.tail k (some c.count) k' = some p := hk
    rw [Function.update_apply] at hk'
    split at hk'
    · rename_i heq
      obtain rfl := Option.some.inj hk'
      exact ⟨heq ▸ hself, fun i hi => Nat.le_of_lt_succ (hbound hi)⟩
    · rename_i hne
      obtain ⟨hp, hlast⟩ := h.last k' p hk'
      refine ⟨(hold (h.numbered p k' hp)).trans hp, fun i hi => ?_⟩
      rcases hkey hi with ⟨-, heq⟩ | ⟨-, hi⟩
      · exact absurd heq hne
      · exact hlast i hi
  · have hj' := hearlier hk hj hkj
    rcases hkey hk with ⟨rfl, rfl⟩ | ⟨hi, hk⟩
    · exact h.free k' (hprevNew.symm.trans hp) j hj'
    · exact h.first i k' hk ((hprev hi).symm.trans hp) j hj hj'
  · rcases hkey hk with ⟨rfl, rfl⟩ | ⟨hi, hki⟩
    · obtain ⟨hkp, hlast⟩ := h.last k' p (hprevNew.symm.trans hp)
      exact ⟨(hold (h.numbered p k' hkp)).trans hkp, fun j hj hkj => hlast j (hearlier hk hj hkj)⟩
    · obtain ⟨hkp, hlast⟩ := h.behind i k' p hki ((hprev hi).symm.trans hp)
      exact ⟨(hold (h.numbered p k' hkp)).trans hkp, fun j hj hkj => hlast j hj (hearlier hk hj hkj)⟩
  · have hi' := h.began i hi
    exact h.alone i k' hi ((hold hi').symm.trans hk) j hj (hearlier hk hj hkj)

end PromiseChains

end Murlan
