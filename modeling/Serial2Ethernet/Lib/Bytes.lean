/-
# Little-endian words in byte memory

`byte v j` is byte `j` of a 32-bit word, `u16` and `u32` assemble words from
their bytes, lowest first. A memory of `n` bytes is a function on `Fin n`;
`store32` writes the four bytes of a word at an address and drops the ones
past the end. `store32_inside` and `store32_frame` say what it changes.

`storeAll` stores words one after the other, and they may overlap: an address
holds the byte of the last store over it (`storeAll_apply`). When the
addresses ascend, that is the store nearest below (`lastOver_ascending`).
-/
import Mathlib

namespace Lib

/-- Byte `j` of a 32-bit word. -/
def byte (v : UInt32) (j : ℕ) : UInt8 := UInt8.ofNat (v.toNat / 256 ^ j)

/-- The 16-bit word with these bytes, lowest first. -/
def u16 (b₀ b₁ : UInt8) : UInt16 := UInt16.ofNat (b₀.toNat + 256 * b₁.toNat)

/-- The 32-bit word with these bytes, lowest first. -/
def u32 (b₀ b₁ b₂ b₃ : UInt8) : UInt32 :=
  UInt32.ofNat (b₀.toNat + 256 * b₁.toNat + 65536 * b₂.toNat + 16777216 * b₃.toNat)

theorem toNat_byte (v : UInt32) (j : ℕ) : (byte v j).toNat = v.toNat / 256 ^ j % 256 := by
  simp [byte]

theorem toNat_u16 (b₀ b₁ : UInt8) : (u16 b₀ b₁).toNat = b₀.toNat + 256 * b₁.toNat := by
  have h₀ := b₀.toNat_lt
  have h₁ := b₁.toNat_lt
  simp only [u16, UInt16.toNat_ofNat']
  omega

theorem u16_eq_zero {b₀ b₁ : UInt8} (h : (u16 b₀ b₁).toNat = 0) : b₀ = 0 ∧ b₁ = 0 := by
  rw [toNat_u16] at h
  exact ⟨UInt8.toNat_inj.mp (by simp; omega), UInt8.toNat_inj.mp (by simp; omega)⟩

theorem toNat_u32 (b₀ b₁ b₂ b₃ : UInt8) : (u32 b₀ b₁ b₂ b₃).toNat =
    b₀.toNat + 256 * b₁.toNat + 65536 * b₂.toNat + 16777216 * b₃.toNat := by
  have h₀ := b₀.toNat_lt
  have h₁ := b₁.toNat_lt
  have h₂ := b₂.toNat_lt
  have h₃ := b₃.toNat_lt
  simp only [u32, UInt32.toNat_ofNat']
  omega

/-- A word is the word of its bytes. -/
theorem u32_byte (v : UInt32) : u32 (byte v 0) (byte v 1) (byte v 2) (byte v 3) = v := by
  apply UInt32.toNat_inj.mp
  have h := v.toNat_lt
  simp only [toNat_u32, toNat_byte]
  omega

/-- The number with these bytes, lowest first. -/
def ofBytes : List UInt8 → ℕ
  | [] => 0
  | b :: bs => b.toNat + 256 * ofBytes bs

/-- The bytes of a word from one on. -/
theorem ofBytes_from (v : UInt32) : ∀ n i : ℕ,
    ofBytes ((List.range n).map fun j => byte v (i + j)) = v.toNat / 256 ^ i % 256 ^ n := by
  intro n
  induction n with
  | zero =>
    intro i
    rw [Nat.pow_zero, Nat.mod_one]
    rfl
  | succ n ih =>
    intro i
    have hnext : (fun j => byte v (i + j)) ∘ Nat.succ = fun j => byte v (i + 1 + j) := by
      funext j
      exact congrArg (byte v) (by rw [Nat.succ_eq_add_one]; omega)
    rw [List.range_succ_eq_map, List.map_cons, List.map_map, hnext, ofBytes, ih, toNat_byte, Nat.add_zero,
      Nat.pow_succ 256 n, Nat.mul_comm (256 ^ n), Nat.mod_mul, Nat.pow_succ, Nat.div_div_eq_div_mul]

/-- The low bytes of a word are the word modulo their number of values. -/
theorem ofBytes_byte (v : UInt32) (n : ℕ) : ofBytes ((List.range n).map (byte v)) = v.toNat % 256 ^ n := by
  have h := ofBytes_from v n 0
  simp only [Nat.zero_add, Nat.pow_zero, Nat.div_one] at h
  exact h

/-! ### The bytes of a word -/

section Narrow

variable (a b c d : UInt8) (v : UInt32)

theorem byte_zero : byte v 0 = v.toUInt8 := by
  apply UInt8.toNat_inj.mp
  simp [toNat_byte]

theorem byte_toUInt8 : byte a.toUInt32 0 = a := by
  rw [byte_zero, UInt8.toUInt8_toUInt32]

/-- The two low bytes survive in 16 bits. -/
theorem byte_toUInt16 {j : ℕ} (hj : j < 2) : byte v.toUInt16.toUInt32 j = byte v j := by
  apply UInt8.toNat_inj.mp
  rw [toNat_byte, toNat_byte, UInt16.toNat_toUInt32, UInt32.toNat_toUInt16]
  interval_cases j <;> omega

theorem byte_u16 : byte (u16 a b).toUInt32 0 = a ∧ byte (u16 a b).toUInt32 1 = b := by
  have ha := a.toNat_lt
  have hb := b.toNat_lt
  constructor <;> apply UInt8.toNat_inj.mp <;>
    rw [toNat_byte, UInt16.toNat_toUInt32, toNat_u16] <;> omega

theorem byte_u32 : byte (u32 a b c d) 0 = a ∧ byte (u32 a b c d) 1 = b ∧
    byte (u32 a b c d) 2 = c ∧ byte (u32 a b c d) 3 = d := by
  have ha := a.toNat_lt
  have hb := b.toNat_lt
  have hc := c.toNat_lt
  have hd := d.toNat_lt
  refine ⟨?_, ?_, ?_, ?_⟩ <;> apply UInt8.toNat_inj.mp <;> rw [toNat_byte, toNat_u32] <;> omega

end Narrow

/-! ### Memory -/

/-- A memory of `n` bytes. -/
abbrev Mem (n : ℕ) := Fin n → UInt8

/-- The four bytes of `v` are stored at `off`; the ones past the end are dropped. -/
def store32 {n : ℕ} (m : Mem n) (off : ℕ) (v : UInt32) : Mem n := fun k =>
  if off ≤ k ∧ k < off + 4 then byte v (k - off) else m k

section Store

variable {n : ℕ} (m : Mem n) (off : ℕ) (v : UInt32) (k : Fin n)

theorem store32_inside {off : ℕ} (h : off ≤ k ∧ k < off + 4) :
    store32 m off v k = byte v (k - off) := if_pos h

theorem store32_frame {off : ℕ} (h : k < off ∨ off + 4 ≤ k) : store32 m off v k = m k :=
  if_neg (by omega)

end Store

/-! ### A sequence of stores -/

/-- The words are stored at their addresses, one after the other. -/
def storeAll {n : ℕ} : List (ℕ × UInt32) → Mem n → Mem n
  | [], m => m
  | w :: ws, m => storeAll ws (store32 m w.1 w.2)

/-- The store reaches over the address. -/
def Covers (k : ℕ) (w : ℕ × UInt32) : Prop := w.1 ≤ k ∧ k < w.1 + 4

instance (k : ℕ) (w : ℕ × UInt32) : Decidable (Covers k w) := inferInstanceAs (Decidable (_ ∧ _))

/-- The byte that the last store over an address leaves there. -/
def lastOver (k : ℕ) : List (ℕ × UInt32) → Option UInt8
  | [] => none
  | w :: ws => (lastOver k ws).or (if Covers k w then some (byte w.2 (k - w.1)) else none)

theorem storeAll_apply {n : ℕ} (k : Fin n) : ∀ (ws : List (ℕ × UInt32)) (m : Mem n),
    storeAll ws m k = (lastOver k ws).getD (m k)
  | [], _ => rfl
  | w :: ws, m => by
    rw [storeAll, storeAll_apply k ws, lastOver]
    cases lastOver k ws with
    | some b => rfl
    | none =>
      by_cases hk : Covers k w
      · rw [if_pos hk, store32_inside m w.2 k hk]
        rfl
      · rw [if_neg hk, store32_frame m w.2 k (by unfold Covers at hk; omega)]
        rfl

theorem lastOver_append (k : ℕ) (vs : List (ℕ × UInt32)) : ∀ ws : List (ℕ × UInt32),
    lastOver k (ws ++ vs) = (lastOver k vs).or (lastOver k ws)
  | [] => by simp [lastOver]
  | w :: ws => by rw [List.cons_append, lastOver, lastOver, lastOver_append k vs ws, Option.or_assoc]

theorem lastOver_eq_none {k : ℕ} : ∀ {ws : List (ℕ × UInt32)}, (∀ w ∈ ws, ¬ Covers k w) →
    lastOver k ws = none
  | [], _ => rfl
  | w :: ws, h => by
    rw [lastOver, lastOver_eq_none fun w' hw => h w' (List.mem_cons_of_mem _ hw),
      if_neg (h w List.mem_cons_self)]
    rfl

/-- At ascending addresses, the store over `k` behind which no other starts up
to `k` is the last one over it. -/
theorem lastOver_ascending {k : ℕ} {w : ℕ × UInt32} (hk : Covers k w) :
    ∀ {ws : List (ℕ × UInt32)}, (ws.map Prod.fst).Pairwise (· < ·) → w ∈ ws →
    (∀ w' ∈ ws, w.1 < w'.1 → k < w'.1) → lastOver k ws = some (byte w.2 (k - w.1))
  | [], _, hw, _ => absurd hw List.not_mem_nil
  | a :: ws, hasc, hw, hnext => by
    rw [List.map_cons, List.pairwise_cons] at hasc
    rw [lastOver]
    rcases List.mem_cons.mp hw with rfl | hw
    · have hnone : lastOver k ws = none := lastOver_eq_none fun w' hw' hc => by
        have := hnext w' (List.mem_cons_of_mem _ hw') (hasc.1 _ (List.mem_map_of_mem hw'))
        exact absurd hc.1 (by omega)
      rw [hnone, if_pos hk]
      rfl
    · rw [lastOver_ascending hk hasc.2 hw fun w' hw' => hnext w' (List.mem_cons_of_mem _ hw')]
      rfl

end Lib
