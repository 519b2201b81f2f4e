import Mathlib.Data.List.Basic

/-!
# Journals

A journal is a list that only grows, one entry at a time. `Justified P log` says that every entry
stands in `P` to the entries before it.

* `justified_append`: what one more entry owes.
* `Justified.mono`: the entries of a journal may rely on its own members.
-/

namespace Murlan

variable {α : Type*} {P Q : List α → α → Prop} {log pre post : List α} {a b : α}

/-- Every entry of the journal stands in `P` to the entries before it. -/
def Justified (P : List α → α → Prop) (log : List α) : Prop := ∀ pre a post, log = pre ++ a :: post → P pre a

theorem justified_nil : Justified P [] := by
  intro pre a post h
  cases pre with
  | nil => cases h
  | cons _ _ => cases h

/-- One more entry owes its own reasons, and nothing else. -/
theorem justified_append : Justified P (log ++ [a]) ↔ Justified P log ∧ P log a := by
  constructor
  · intro h
    refine ⟨fun pre b post heq => h pre b (post ++ [a]) ?_, h log a [] rfl⟩
    rw [heq, List.append_assoc, List.cons_append]
  · rintro ⟨h, ha⟩ pre b post heq
    rcases List.eq_nil_or_concat post with rfl | ⟨post', c, rfl⟩
    · obtain ⟨rfl, hb⟩ := List.append_inj' heq rfl
      cases hb
      exact ha
    · rw [List.concat_eq_append, ← List.cons_append, ← List.append_assoc] at heq
      exact h pre b post' (List.append_inj' heq rfl).1

/-- Reasons may be replaced where they stand for an entry of the journal. -/
theorem Justified.mono (h : Justified P log) (hpq : ∀ pre a, a ∈ log → pre ⊆ log → P pre a → Q pre a) : Justified Q log := by
  intro pre a post heq
  refine hpq pre a ?_ ?_ (h pre a post heq)
  · rw [heq]
    exact List.mem_append_right pre List.mem_cons_self
  · rw [heq]
    exact List.subset_append_left pre (a :: post)

theorem Justified.mem (h : Justified P log) (ha : a ∈ log) : ∃ pre, pre ⊆ log ∧ P pre a := by
  obtain ⟨pre, post, heq⟩ := List.append_of_mem ha
  refine ⟨pre, ?_, h pre a post heq⟩
  rw [heq]
  exact List.subset_append_left pre (a :: post)

end Murlan
