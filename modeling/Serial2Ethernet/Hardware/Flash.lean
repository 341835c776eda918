/-
# Main flash

The flash is its bytes by address and a count of the erase and program
operations issued so far. What status operation `n` returns is a parameter
(`Outcomes`): an operation that returns `FLASH_COMPLETE` has its effect, any
other leaves the bytes as they are. A completed erase sets the sector to
0xFF; a completed byte program can only clear bits.
-/
import Mathlib

namespace Serial2Ethernet
namespace Flash

/-- `FLASH_Status`. -/
inductive Status
  | busy
  | errorRd
  | errorPgs
  | errorPgp
  | errorPga
  | errorWrp
  | errorProgram
  | errorOperation
  | complete
  deriving DecidableEq, Repr

/-- The status each erase or program operation returns, by its number. -/
abbrev Outcomes := ℕ → Status

/-- Every operation completes. -/
def allComplete : Outcomes := fun _ => .complete

/-- The first `k` operations complete, the later ones return `e`. -/
def stopAfter (k : ℕ) (e : Status) : Outcomes := fun i => if i < k then .complete else e

/-- The bytes of the flash, and the operations issued since power-on. -/
structure Dev where
  mem : ℕ → UInt8
  ops : ℕ

instance instNeZeroSector : NeZero 12 := ⟨by decide⟩

/-- The first address of a sector. -/
def addrFlashSector : Fin 12 → ℕ :=
  ![0x08000000, 0x08004000, 0x08008000, 0x0800C000, 0x08010000, 0x08020000,
    0x08040000, 0x08060000, 0x08080000, 0x080A0000, 0x080C0000, 0x080E0000]

/-- The size of a sector: four of 16, one of 64 and seven of 128 Kbytes. -/
def sectorSize : Fin 12 → ℕ :=
  ![0x4000, 0x4000, 0x4000, 0x4000, 0x10000, 0x20000,
    0x20000, 0x20000, 0x20000, 0x20000, 0x20000, 0x20000]

/-- The address lies in the sector. -/
def InSector (s : Fin 12) (a : ℕ) : Prop :=
  addrFlashSector s ≤ a ∧ a < addrFlashSector s + sectorSize s

instance (s : Fin 12) (a : ℕ) : Decidable (InSector s a) := inferInstanceAs (Decidable (_ ∧ _))

/-- The bytes with one sector erased. -/
def erased (s : Fin 12) (mem : ℕ → UInt8) : ℕ → UInt8 := fun a => if InSector s a then 0xFF else mem a

/-- `FLASH_EraseSector`. -/
def eraseSector (out : Outcomes) (s : Fin 12) (f : Dev) : Status × Dev :=
  if out f.ops = .complete then (.complete, ⟨erased s f.mem, f.ops + 1⟩)
  else (out f.ops, ⟨f.mem, f.ops + 1⟩)

/-- `FLASH_ProgramByte`. -/
def programByte (out : Outcomes) (addr : ℕ) (data : UInt8) (f : Dev) : Status × Dev :=
  if out f.ops = .complete then
    (.complete, ⟨Function.update f.mem addr (f.mem addr &&& data), f.ops + 1⟩)
  else (out f.ops, ⟨f.mem, f.ops + 1⟩)

section Operations

variable {out : Outcomes} {f : Dev}

theorem eraseSector_complete (h : out f.ops = .complete) (s : Fin 12) :
    eraseSector out s f = (.complete, ⟨erased s f.mem, f.ops + 1⟩) := if_pos h

theorem eraseSector_fails (h : out f.ops ≠ .complete) (s : Fin 12) :
    eraseSector out s f = (out f.ops, ⟨f.mem, f.ops + 1⟩) := if_neg h

theorem programByte_complete (h : out f.ops = .complete) (addr : ℕ) (data : UInt8) :
    programByte out addr data f =
      (.complete, ⟨Function.update f.mem addr (f.mem addr &&& data), f.ops + 1⟩) := if_pos h

theorem programByte_fails (h : out f.ops ≠ .complete) (addr : ℕ) (data : UInt8) :
    programByte out addr data f = (out f.ops, ⟨f.mem, f.ops + 1⟩) := if_neg h

end Operations

/-- Every byte can be programmed over 0xFF. -/
theorem ones_and (b : UInt8) : (0xFF : UInt8) &&& b = b := by
  apply UInt8.toBitVec_inj.mp
  exact BitVec.allOnes_and

/-- How many of the `m` operations from number `n` on complete before the first that does not. -/
def completes (out : Outcomes) : (n m : ℕ) → ℕ
  | _, 0 => 0
  | n, m + 1 => if out n = .complete then completes out (n + 1) m + 1 else 0

theorem completes_allComplete : ∀ m n : ℕ, completes allComplete n m = m
  | 0, _ => rfl
  | m + 1, n => by rw [completes, if_pos (show allComplete n = .complete from rfl), completes_allComplete m]

theorem completes_stopAfter {k : ℕ} {e : Status} (he : e ≠ .complete) : ∀ m n : ℕ,
    completes (stopAfter k e) n m = min m (k - n)
  | 0, _ => by simp [completes]
  | m + 1, n => by
    rw [completes, completes_stopAfter he m]
    by_cases hn : n < k
    · rw [if_pos (by simp [stopAfter, hn])]
      omega
    · rw [if_neg (by simp [stopAfter, hn, he])]
      omega

theorem completes_eq_iff {out : Outcomes} : ∀ {m n : ℕ},
    completes out n m = m ↔ ∀ i < m, out (n + i) = .complete
  | 0, n => by simp [completes]
  | m + 1, n => by
    rw [Nat.forall_lt_succ_left', completes]
    by_cases hok : out n = .complete
    · rw [if_pos hok, Nat.add_right_cancel_iff, completes_eq_iff]
      simp only [Nat.add_zero, hok, true_and, Nat.add_right_comm n 1, Nat.add_assoc n]
    · rw [if_neg hok]
      simp [hok]

/-- Every operation issued between the two states has completed. -/
def Completed (out : Outcomes) (f f' : Dev) : Prop := ∀ n, f.ops ≤ n → n < f'.ops → out n = .complete

/-- The first operation completes. -/
theorem completed_step {out : Outcomes} {f f₁ f' : Dev} (hops : f₁.ops = f.ops + 1)
    (hok : out f.ops = .complete) : Completed out f f' ↔ Completed out f₁ f' := by
  constructor
  · exact fun h n h₁ => h n (by omega)
  · intro h n h₁ h₂
    rcases Nat.eq_or_lt_of_le h₁ with rfl | hlt
    · exact hok
    · exact h n (by omega) h₂

/-- The only operation fails. -/
theorem not_completed_step {out : Outcomes} {f f' : Dev} (hops : f'.ops = f.ops + 1)
    (hfail : out f.ops ≠ .complete) : ¬ Completed out f f' :=
  fun h => hfail (h f.ops le_rfl (by omega))

end Flash
end Serial2Ethernet
