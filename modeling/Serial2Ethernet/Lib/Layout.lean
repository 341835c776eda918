/-
# Blocks in a table

A table of numbers that starts as `g`; blocks of consecutive entries are taken
where the table is 0, each entry of a block then carries the block's length,
and blocks are released again. `LaidOn g n bs t` says that `t` is what the
blocks `bs` make of `g`: a block can be taken (`LaidOn.take`) and released
(`LaidOn.release`), and when none is left the table is `g` again
(`LaidOn.eq_ground`).

`TopRun` is the highest place for a block. A scan from the top finds it if it
knows at each entry how many free entries start there (`Gap`).
-/
import Mathlib

namespace Lib

/-- Consecutive entries of a table. -/
structure Block where
  start : ℕ
  len : ℕ
  deriving DecidableEq, Repr

/-- The entry belongs to the block. -/
def Block.Covers (b : Block) (i : ℕ) : Prop := b.start ≤ i ∧ i < b.start + b.len

instance Block.decidableCovers (b : Block) (i : ℕ) : Decidable (b.Covers i) := inferInstanceAs (Decidable (_ ∧ _))

theorem covers_mk {s l i : ℕ} : (⟨s, l⟩ : Block).Covers i ↔ s ≤ i ∧ i < s + l := Iff.rfl

theorem Block.covers_start {b : Block} (h : 0 < b.len) : b.Covers b.start := ⟨le_rfl, by omega⟩

/-- No entry belongs to both blocks. -/
def Block.Apart (a b : Block) : Prop := ∀ i, a.Covers i → ¬ b.Covers i

theorem Block.Apart.symm {a b : Block} (h : a.Apart b) : b.Apart a := fun i hb ha => h i ha hb

/-- The entries of the block are 0. -/
def Free (t : ℕ → ℕ) (b : Block) : Prop := ∀ i, b.Covers i → t i = 0

/-- The table with `v` in the entries of the block. -/
def fill (t : ℕ → ℕ) (b : Block) (v : ℕ) : ℕ → ℕ := fun i => if b.Covers i then v else t i

section Fill

variable {t : ℕ → ℕ} {b : Block} {i : ℕ}

theorem fill_inside (h : b.Covers i) (v : ℕ) : fill t b v i = v := if_pos h

theorem fill_outside (h : ¬ b.Covers i) (v : ℕ) : fill t b v i = t i := if_neg h

end Fill

/-! ### Taking and releasing -/

/-- `t` is what the blocks make of `g`: they lie within the first `n` entries,
apart from each other and where `g` is 0, each entry of a block carries the
block's length, and the others are those of `g`. -/
structure LaidOn (g : ℕ → ℕ) (n : ℕ) (bs : List Block) (t : ℕ → ℕ) : Prop where
  pos : ∀ b ∈ bs, 0 < b.len
  fits : ∀ b ∈ bs, b.start + b.len ≤ n
  apart : bs.Pairwise Block.Apart
  free : ∀ b ∈ bs, Free g b
  inside : ∀ b ∈ bs, ∀ i, b.Covers i → t i = b.len
  outside : ∀ i, (∀ b ∈ bs, ¬ b.Covers i) → t i = g i

namespace LaidOn

variable {g t : ℕ → ℕ} {n : ℕ} {bs : List Block} {b : Block}

theorem nil (g : ℕ → ℕ) (n : ℕ) : LaidOn g n [] g where
  pos := by simp
  fits := by simp
  apart := .nil
  free := by simp
  inside := by simp
  outside := fun _ _ => rfl

/-- Without blocks the table is as it was. -/
theorem eq_ground (h : LaidOn g n [] t) : t = g := by
  funext i
  exact h.outside i (by simp)

/-- The first entry of a block carries its length. -/
theorem at_start (h : LaidOn g n bs t) (hb : b ∈ bs) : t b.start = b.len :=
  h.inside b hb b.start (Block.covers_start (h.pos b hb))

/-- A free place is in none of the blocks. -/
theorem apart_of_free (h : LaidOn g n bs t) (hb : Free t b) : ∀ a ∈ bs, a.Apart b := by
  intro a ha i hai hbi
  have hzero := hb i hbi
  have hlen := h.inside a ha i hai
  have := h.pos a ha
  omega

/-- A block is taken where the table is 0. -/
theorem take (h : LaidOn g n bs t) (hpos : 0 < b.len) (hfits : b.start + b.len ≤ n) (hb : Free t b) :
    LaidOn g n (bs ++ [b]) (fill t b b.len) := by
  have hapart := h.apart_of_free hb
  have hmem : ∀ a, a ∈ bs ++ [b] ↔ a ∈ bs ∨ a = b := by simp
  refine ⟨?_, ?_, ?_, ?_, ?_, ?_⟩
  · intro a ha
    rcases (hmem a).mp ha with ha | rfl
    · exact h.pos a ha
    · exact hpos
  · intro a ha
    rcases (hmem a).mp ha with ha | rfl
    · exact h.fits a ha
    · exact hfits
  · refine List.pairwise_append.mpr ⟨h.apart, List.pairwise_singleton _ _, fun a ha c hc => ?_⟩
    rw [List.mem_singleton.mp hc]
    exact hapart a ha
  · intro a ha
    rcases (hmem a).mp ha with ha | rfl
    · exact h.free a ha
    · intro i hi
      rw [← h.outside i fun c hc hci => hapart c hc i hci hi]
      exact hb i hi
  · intro a ha i hi
    rcases (hmem a).mp ha with ha | rfl
    · rw [fill_outside (hapart a ha i hi)]
      exact h.inside a ha i hi
    · exact fill_inside hi _
  · intro i hi
    rw [fill_outside (hi b (by simp))]
    exact h.outside i fun a ha => hi a (by simp [ha])

/-- A block is released. -/
theorem release {as cs : List Block} (h : LaidOn g n (as ++ b :: cs) t) :
    LaidOn g n (as ++ cs) (fill t b 0) := by
  have hsub : ∀ a ∈ as ++ cs, a ∈ as ++ b :: cs := fun a ha => by
    rw [List.mem_append, List.mem_cons]
    exact (List.mem_append.mp ha).imp_right .inr
  have hapart : ∀ a ∈ as ++ cs, a.Apart b := by
    obtain ⟨-, hcs, has⟩ := List.pairwise_append.mp h.apart
    intro a ha
    rcases List.mem_append.mp ha with ha | ha
    · exact has a ha b List.mem_cons_self
    · exact (List.rel_of_pairwise_cons hcs ha).symm
  refine ⟨fun a ha => h.pos a (hsub a ha), fun a ha => h.fits a (hsub a ha), ?_,
    fun a ha => h.free a (hsub a ha), ?_, ?_⟩
  · exact h.apart.sublist ((List.Sublist.refl as).append (List.sublist_cons_self b cs))
  · intro a ha i hi
    rw [fill_outside (hapart a ha i hi)]
    exact h.inside a (hsub a ha) i hi
  · intro i hi
    by_cases hb : b.Covers i
    · rw [fill_inside hb]
      exact (h.free b (by simp) i hb).symm
    · rw [fill_outside hb]
      refine h.outside i fun a ha => ?_
      rw [List.mem_append, List.mem_cons] at ha
      rcases ha with ha | rfl | ha
      · exact hi a (List.mem_append.mpr (.inl ha))
      · exact hb
      · exact hi a (List.mem_append.mpr (.inr ha))

/-- What is laid on a table that itself has blocks adds to them. -/
theorem trans {as : List Block} {u : ℕ → ℕ} (h : LaidOn g n as t) (h' : LaidOn t n bs u) :
    LaidOn g n (as ++ bs) u := by
  have hapart : ∀ a ∈ as, ∀ b ∈ bs, a.Apart b := fun a ha b hb => h.apart_of_free (h'.free b hb) a ha
  refine ⟨?_, ?_, List.pairwise_append.mpr ⟨h.apart, h'.apart, hapart⟩, ?_, ?_, ?_⟩
  · intro b hb
    exact (List.mem_append.mp hb).elim (h.pos b) (h'.pos b)
  · intro b hb
    exact (List.mem_append.mp hb).elim (h.fits b) (h'.fits b)
  · intro b hb i hi
    rcases List.mem_append.mp hb with hb | hb
    · exact h.free b hb i hi
    · rw [← h.outside i fun a ha hai => hapart a ha b hb i hai hi]
      exact h'.free b hb i hi
  · intro b hb i hi
    rcases List.mem_append.mp hb with hb | hb
    · rw [h'.outside i fun a ha => hapart b hb a ha i hi]
      exact h.inside b hb i hi
    · exact h'.inside b hb i hi
  · intro i hi
    rw [h'.outside i fun b hb => hi b (by simp [hb])]
    exact h.outside i fun a ha => hi a (by simp [ha])

end LaidOn

/-! ### The highest free place -/

/-- The highest place for `k` entries that are 0, within the first `n`. -/
structure TopRun (t : ℕ → ℕ) (n i k : ℕ) : Prop where
  free : Free t ⟨i, k⟩
  fits : i + k ≤ n
  top : ∀ j, i < j → j + k ≤ n → ¬ Free t ⟨j, k⟩

theorem TopRun.lt {t : ℕ → ℕ} {n i k : ℕ} (h : TopRun t n i k) (hk : 0 < k) : i < n := by
  have := h.fits
  omega

/-- Exactly `c` free entries start at `i`, within the first `n`. -/
structure Gap (t : ℕ → ℕ) (n i c : ℕ) : Prop where
  free : Free t ⟨i, c⟩
  fits : i + c ≤ n
  stop : i + c < n → t (i + c) ≠ 0

section Gap

variable {t : ℕ → ℕ} {n i c : ℕ}

theorem gap_end (t : ℕ → ℕ) (n : ℕ) : Gap t n n 0 where
  free := fun i hi => by
    rw [covers_mk] at hi
    omega
  fits := le_rfl
  stop := fun h => absurd h (lt_irrefl _)

theorem gap_used (h : i < n) (hi : t i ≠ 0) : Gap t n i 0 where
  free := fun j hj => by
    rw [covers_mk] at hj
    omega
  fits := h.le
  stop := fun _ => hi

theorem Gap.cons (h : Gap t n (i + 1) c) (hi : t i = 0) : Gap t n i (c + 1) where
  free := fun j hj => by
    rw [covers_mk] at hj
    by_cases hj' : j = i
    · rw [hj', hi]
    · exact h.free j (covers_mk.mpr (by omega))
  fits := by
    have := h.fits
    omega
  stop := fun hlt => by
    rw [show i + (c + 1) = i + 1 + c by omega] at hlt ⊢
    exact h.stop hlt

/-- As many entries as the gap has are free, and no more. -/
theorem Gap.free_iff (h : Gap t n i c) {k : ℕ} (hk : i + k ≤ n) : Free t ⟨i, k⟩ ↔ k ≤ c := by
  constructor
  · intro hfree
    by_contra hgt
    have hlt : i + c < n := by omega
    exact h.stop hlt (hfree (i + c) (covers_mk.mpr (by omega)))
  · intro hle j hj
    rw [covers_mk] at hj
    exact h.free j (covers_mk.mpr (by omega))

end Gap

end Lib
