/-
# Rings of slots

`n` slots in a ring, and a list in the slots from one on. A write behind the
list leaves it alone as long as there is room (`RingHolds.write`), and takes
the list one further (`RingHolds.push`); the first slot is the head of the
list, and behind it is the tail.
-/
import Mathlib

namespace Lib

variable {n : ℕ} {α : Type}

/-- The slot `k` places behind `i`. -/
def slot (i : Fin n) (k : ℕ) : Fin n := ⟨(i + k) % n, Nat.mod_lt _ i.pos⟩

@[simp] theorem slot_zero (i : Fin n) : slot i 0 = i := by
  apply Fin.ext
  exact Nat.mod_eq_of_lt i.isLt

@[simp] theorem slot_slot (i : Fin n) (a b : ℕ) : slot (slot i a) b = slot i (a + b) := by
  apply Fin.ext
  unfold slot
  dsimp only
  rw [Nat.mod_add_mod, Nat.add_assoc]

theorem slot_next (i : Fin n) (k : ℕ) : slot (slot i 1) k = slot i (k + 1) := by
  rw [slot_slot, Nat.add_comm 1 k]

/-- A round later it is the same slot. -/
theorem slot_round (i : Fin n) : slot i n = i := by
  apply Fin.ext
  unfold slot
  dsimp only
  rw [Nat.add_mod_right, Nat.mod_eq_of_lt i.isLt]

/-- Less than a round apart, slots are different. -/
theorem slot_inj {i : Fin n} {a b : ℕ} (ha : a < n) (hb : b < n) (h : slot i a = slot i b) : a = b := by
  have hmod : (i + a) % n = (i + b) % n := congrArg Fin.val h
  have hab : a % n = b % n := Nat.ModEq.add_left_cancel' i hmod
  rwa [Nat.mod_eq_of_lt ha, Nat.mod_eq_of_lt hb] at hab

theorem slot_succ_ne {i : Fin n} {k : ℕ} (h : k + 1 < n) : slot i (k + 1) ≠ i := by
  intro e
  have hzero : slot i (k + 1) = slot i 0 := e.trans (slot_zero i).symm
  exact absurd (slot_inj h (Nat.zero_lt_of_lt h) hzero) (Nat.succ_ne_zero k)

/-- The slots from `i` on hold the list. -/
def RingHolds (buf : Fin n → α) (i : Fin n) (xs : List α) : Prop :=
  ∀ k (h : k < xs.length), buf (slot i k) = xs[k]

namespace RingHolds

variable {buf : Fin n → α} {i : Fin n} {xs : List α} {x : α}

theorem nil : RingHolds buf i [] := by
  intro k h
  simp at h

theorem head (h : RingHolds buf i (x :: xs)) : buf i = x := by
  have := h 0 (by simp)
  rwa [slot_zero] at this

theorem tail (h : RingHolds buf i (x :: xs)) : RingHolds buf (slot i 1) xs := by
  intro k hk
  rw [slot_slot, Nat.add_comm]
  exact h (k + 1) (by simpa using hk)

/-- A write behind the list leaves it alone. -/
theorem write (h : RingHolds buf i xs) (hroom : xs.length < n) (x : α) :
    RingHolds (Function.update buf (slot i xs.length) x) i xs := by
  intro k hk
  have hne : slot i k ≠ slot i xs.length := fun e => by
    have := slot_inj (by omega) hroom e
    omega
  rw [Function.update_of_ne hne]
  exact h k hk

/-- The slot behind the list is taken into it. -/
theorem snoc (h : RingHolds buf i xs) (hx : buf (slot i xs.length) = x) :
    RingHolds buf i (xs ++ [x]) := by
  intro k hk
  by_cases hlt : k < xs.length
  · rw [List.getElem_append_left hlt]
    exact h k hlt
  · have hk' : k = xs.length := by
      simp at hk
      omega
    subst hk'
    simpa using hx

/-- An item written behind the list is taken into it. -/
theorem push (h : RingHolds buf i xs) (hroom : xs.length < n) (x : α) :
    RingHolds (Function.update buf (slot i xs.length) x) i (xs ++ [x]) :=
  (h.write hroom x).snoc (Function.update_self ..)

end RingHolds

end Lib
