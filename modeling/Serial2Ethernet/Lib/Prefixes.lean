/-
# Concatenations of prefixes

`cs.flatMap p.take` is what a reader gets who is handed the first `c` elements
of `p` again and again, for `c` in `cs`. It spells a prefix of `p` only if
every block of `p` that it should have been repeats the beginning of `p`
(`flatMap_take_eq`).
-/
import Mathlib

namespace Lib

variable {α : Type}

/-- From position `t` on, `p` consists of its own prefixes of lengths `cs`. -/
def Repeats (p : List α) : List ℕ → ℕ → Prop
  | [], _ => True
  | c :: cs, t => (p.drop t).take c = p.take c ∧ Repeats p cs (t + c)

theorem length_flatMap_take {p : List α} : ∀ {cs : List ℕ}, (∀ c ∈ cs, c ≤ p.length) →
    (cs.flatMap p.take).length = cs.sum
  | [], _ => rfl
  | c :: cs, h => by
    rw [List.flatMap_cons, List.length_append, length_flatMap_take fun x hx => h x (by simp [hx]),
      List.length_take, Nat.min_eq_left (h c (by simp)), List.sum_cons]

theorem flatMap_take_eq_block (p : List α) : ∀ (cs : List ℕ) (t : ℕ), t + cs.sum ≤ p.length →
    (cs.flatMap p.take = (p.drop t).take cs.sum ↔ Repeats p cs t)
  | [], _, _ => by simp [Repeats]
  | c :: cs, t, h => by
    rw [List.sum_cons] at h
    have ih := flatMap_take_eq_block p cs (t + c) (by omega)
    have hsplit : (p.drop t).take (c + cs.sum) =
        (p.drop t).take c ++ (p.drop (t + c)).take cs.sum := by
      rw [List.take_add, List.drop_drop]
    have hlen : (p.take c).length = ((p.drop t).take c).length := by
      simp only [List.length_take, List.length_drop]
      omega
    rw [List.flatMap_cons, List.sum_cons, hsplit, Repeats, ← ih]
    constructor
    · intro h
      obtain ⟨h₁, h₂⟩ := List.append_inj h hlen
      exact ⟨h₁.symm, h₂⟩
    · rintro ⟨h₁, h₂⟩
      rw [h₁, h₂]

/-- The prefixes of lengths `cs` concatenate to the prefix of length `n`
exactly when the lengths add up and `p` repeats its beginning. -/
theorem flatMap_take_eq {p : List α} {cs : List ℕ} {n : ℕ} (hcs : ∀ c ∈ cs, c ≤ p.length)
    (hn : n ≤ p.length) : cs.flatMap p.take = p.take n ↔ cs.sum = n ∧ Repeats p cs 0 := by
  constructor
  · intro h
    have hsum : cs.sum = n := by
      rw [← length_flatMap_take hcs, h, List.length_take, Nat.min_eq_left hn]
    refine ⟨hsum, (flatMap_take_eq_block p cs 0 (by omega)).mp ?_⟩
    rw [h, hsum, List.drop_zero]
  · rintro ⟨rfl, hR⟩
    exact (flatMap_take_eq_block p cs 0 (by omega)).mpr hR

end Lib
