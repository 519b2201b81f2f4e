import Mathlib.Data.List.AList

/-!
# Maps that are pruned

A map that many keys are written to is kept small: once it has more than `limit` entries, those
that have served their time are dropped.

* `lookup_keep`: what is left when only the entries that satisfy `p` are kept.
* `prune_le`, `prune_drops`: a prune adds nothing, and drops nothing that satisfies `p`.
-/

namespace Murlan

namespace Entries

variable {κ ν : Type*}

/-- The entries that satisfy `p`. -/
def keep (p : κ → ν → Bool) (m : AList fun _ : κ => ν) : AList fun _ : κ => ν where
  entries := m.entries.filter fun e => p e.1 e.2
  nodupKeys := m.nodupKeys.sublist List.filter_sublist

/-- Past `limit` entries, only those that satisfy `p` are kept. -/
def prune (limit : ℕ) (p : κ → ν → Bool) (m : AList fun _ : κ => ν) : AList fun _ : κ => ν :=
  if limit < m.entries.length then keep p m else m

variable [DecidableEq κ] {p : κ → ν → Bool} {m : AList fun _ : κ => ν} {k : κ}

theorem lookup_keep {v : ν} : (keep p m).lookup k = some v ↔ m.lookup k = some v ∧ p k v = true := by
  rw [← Option.mem_def, ← Option.mem_def, AList.mem_lookup_iff, AList.mem_lookup_iff]
  exact List.mem_filter

theorem prune_le {limit : ℕ} {v : ν} (h : (prune limit p m).lookup k = some v) : m.lookup k = some v := by
  unfold prune at h
  split at h
  · exact (lookup_keep.mp h).1
  · exact h

/-- What a prune drops did not satisfy `p`. -/
theorem prune_drops {limit : ℕ} {v : ν} (h : m.lookup k = some v) (hgone : (prune limit p m).lookup k = none) :
    p k v = false := by
  unfold prune at hgone
  split at hgone
  · cases hp : p k v with
    | false => rfl
    | true => exact absurd (hgone.symm.trans (lookup_keep.mpr ⟨h, hp⟩)) (by simp)
  · exact absurd (hgone.symm.trans h) (by simp)

end Entries

end Murlan
