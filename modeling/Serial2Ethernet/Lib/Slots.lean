/-
# Slots with owners

A table of slots, each free or used, and parties that each hold at most one of
them. `Owned` says that the used slots are the held ones and that no slot has
two holders; taking a free slot and giving a held one back keep it.
-/
import Mathlib

namespace Lib

variable {ι κ : Type} {used : κ → Prop} {held : ι → Option κ}

/-- The used slots are those that are held, each by one party. -/
structure Owned (used : κ → Prop) (held : ι → Option κ) : Prop where
  used_iff : ∀ k, used k ↔ ∃ c, held c = some k
  inj : ∀ c c' k, held c = some k → held c' = some k → c = c'

namespace Owned

theorem init (hused : ∀ k, ¬ used k) (hheld : ∀ c, held c = none) : Owned used held := by
  refine ⟨fun k => ⟨fun h => absurd h (hused k), ?_⟩, ?_⟩
  · rintro ⟨c, h⟩
    rw [hheld] at h
    cases h
  · intro c c' k h
    rw [hheld] at h
    cases h

/-- A party that holds nothing takes a free slot. -/
theorem take [DecidableEq ι] (h : Owned used held) {used' : κ → Prop} {c : ι} {k : κ} (hfree : ¬ used k)
    (hnone : held c = none) (hk : used' k) (hother : ∀ k', k' ≠ k → (used' k' ↔ used k')) :
    Owned used' (Function.update held c (some k)) := by
  have hnot : ∀ c', held c' ≠ some k := fun c' hc' => hfree ((h.used_iff k).mpr ⟨c', hc'⟩)
  refine ⟨fun k' => ?_, fun c₁ c₂ k' h₁ h₂ => ?_⟩
  · by_cases hkk : k' = k
    · subst hkk
      exact iff_of_true hk ⟨c, Function.update_self ..⟩
    · rw [hother k' hkk, h.used_iff]
      constructor
      · rintro ⟨c', hc'⟩
        have hne : c' ≠ c := by
          rintro rfl
          rw [hnone] at hc'
          cases hc'
        exact ⟨c', by rwa [Function.update_of_ne hne]⟩
      · rintro ⟨c', hc'⟩
        by_cases hcc : c' = c
        · rw [hcc, Function.update_self] at hc'
          exact absurd (Option.some.inj hc').symm hkk
        · exact ⟨c', by rwa [Function.update_of_ne hcc] at hc'⟩
  · by_cases hc₁ : c₁ = c <;> by_cases hc₂ : c₂ = c
    · rw [hc₁, hc₂]
    · rw [hc₁, Function.update_self] at h₁
      rw [Function.update_of_ne hc₂, ← h₁] at h₂
      exact absurd h₂ (hnot c₂)
    · rw [hc₂, Function.update_self] at h₂
      rw [Function.update_of_ne hc₁, ← h₂] at h₁
      exact absurd h₁ (hnot c₁)
    · rw [Function.update_of_ne hc₁] at h₁
      rw [Function.update_of_ne hc₂] at h₂
      exact h.inj c₁ c₂ k' h₁ h₂

/-- A party gives back the slot it holds. -/
theorem give [DecidableEq ι] (h : Owned used held) {used' : κ → Prop} {c : ι} {k : κ} (hc : held c = some k)
    (hk : ¬ used' k) (hother : ∀ k', k' ≠ k → (used' k' ↔ used k')) :
    Owned used' (Function.update held c none) := by
  refine ⟨fun k' => ?_, fun c₁ c₂ k' h₁ h₂ => ?_⟩
  · by_cases hkk : k' = k
    · subst hkk
      refine iff_of_false hk ?_
      rintro ⟨c', hc'⟩
      by_cases hcc : c' = c
      · rw [hcc, Function.update_self] at hc'
        cases hc'
      · rw [Function.update_of_ne hcc] at hc'
        exact hcc (h.inj c' c k' hc' hc)
    · rw [hother k' hkk, h.used_iff]
      constructor
      · rintro ⟨c', hc'⟩
        have hne : c' ≠ c := by
          rintro rfl
          exact hkk (Option.some.inj (hc'.symm.trans hc))
        exact ⟨c', by rwa [Function.update_of_ne hne]⟩
      · rintro ⟨c', hc'⟩
        by_cases hcc : c' = c
        · rw [hcc, Function.update_self] at hc'
          cases hc'
        · exact ⟨c', by rwa [Function.update_of_ne hcc] at hc'⟩
  · have hne : ∀ {c' k'}, Function.update held c none c' = some k' → c' ≠ c := by
      rintro c' k' hh rfl
      rw [Function.update_self] at hh
      cases hh
    rw [Function.update_of_ne (hne h₁)] at h₁
    rw [Function.update_of_ne (hne h₂)] at h₂
    exact h.inj c₁ c₂ k' h₁ h₂

/-- What the parties hold is the same. -/
theorem congr (h : Owned used held) {held' : ι → Option κ} (heq : ∀ c, held' c = held c) : Owned used held' := by
  obtain rfl : held' = held := funext heq
  exact h

end Owned

end Lib
