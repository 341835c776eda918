/-
# The stored configuration

`s_cfg` in RAM and its record at the start of flash sector 11. `writeFlash`
first looks for a byte that is not 0xFF and erases its sector, then programs
the bytes in order; an operation that does not complete ends it silently. The
erase loop does not advance after an erase, so it is modelled with fuel:
`none` says that it has not ended after two turns for every byte and one.
-/
import Serial2Ethernet.Hardware.Flash
import Serial2Ethernet.Hardware.SysConfig

namespace Serial2Ethernet
namespace Config

open Flash

/-- `STMFLASH_GetFlashSector`. -/
def stmflashGetFlashSector (addr : ℕ) : Fin 12 :=
  if addr < addrFlashSector 1 then 0
  else if addr < addrFlashSector 2 then 1
  else if addr < addrFlashSector 3 then 2
  else if addr < addrFlashSector 4 then 3
  else if addr < addrFlashSector 5 then 4
  else if addr < addrFlashSector 6 then 5
  else if addr < addrFlashSector 7 then 6
  else if addr < addrFlashSector 8 then 7
  else if addr < addrFlashSector 9 then 8
  else if addr < addrFlashSector 10 then 9
  else if addr < addrFlashSector 11 then 10
  else 11

/-- `readByteFlash`. -/
def readByteFlash (f : Dev) (faddr : ℕ) : UInt8 := f.mem faddr

/-- The loop that erases the sectors with a byte other than 0xFF in the range. -/
def eraseLoop (out : Outcomes) (endaddr : ℕ) : (fuel addrx : ℕ) → Dev → Option (Status × Dev)
  | 0, _, _ => none
  | fuel + 1, addrx, f =>
    if addrx < endaddr then
      if readByteFlash f addrx ≠ 0xFF then
        let r := eraseSector out (stmflashGetFlashSector addrx) f
        if r.1 ≠ .complete then some r else eraseLoop out endaddr fuel addrx r.2
      else eraseLoop out endaddr fuel (addrx + 1) f
    else some (.complete, f)

/-- The loop that programs the bytes. -/
def programLoop (out : Outcomes) (endaddr : ℕ) : (pBuffer : List UInt8) → (faddr : ℕ) → Dev → Dev
  | [], _, f => f
  | b :: pBuffer, faddr, f =>
    if faddr < endaddr then
      let r := programByte out faddr b f
      if r.1 ≠ .complete then r.2 else programLoop out endaddr pBuffer (faddr + 1) r.2
    else f

/-- `writeFlash` of all the bytes of `pBuffer`. -/
def writeFlash (out : Outcomes) (faddr : ℕ) (pBuffer : List UInt8) (f : Dev) : Option Dev :=
  if faddr < addrFlashSector 0 then some f
  else
    let endaddr := (faddr + pBuffer.length) % 2 ^ 32
    let erase :=
      if faddr < 0x1FFF0000 then eraseLoop out endaddr (2 * pBuffer.length + 1) faddr f
      else some (.complete, f)
    erase.map fun r => if r.1 = .complete then programLoop out endaddr pBuffer faddr r.2 else r.2

/-- `s_cfg` and the flash. -/
structure Store where
  sCfg : SysConfig
  flash : Dev

/-- The configuration with the header 0xaa 0xaa. -/
def withHeader (c : SysConfig) : SysConfig := fun k => if k.val < 2 then 0xaa else c k

/-- The values `defaultConfig` assigns, field by field. -/
def defaults : SysConfig :=
  SysConfig.ofFields {
    header := ![0xaa, 0xaa]
    ipAddr := ![10, 100, 0, 127]
    ipMask := ![255, 255, 255, 0]
    ipGate := ![10, 100, 0, 1]
    listenPort := 4000
    remoteIp := ![10, 100, 0, 104]
    remotePort := 3000
    baudRates := fun _ => 115200
    parities := fun _ => 0
    queryCycleS := 1 }

/-- `s_cfg` becomes the configuration and is written to sector 11. -/
def store (out : Outcomes) (c : SysConfig) (st : Store) : Option Store :=
  (writeFlash out (addrFlashSector 11) (List.ofFn c) st.flash).map fun f => ⟨c, f⟩

/-- Reset config to default. -/
def defaultConfig (out : Outcomes) (st : Store) : Option Store := store out defaults st

/-- Set system configuration. -/
def setConfig (out : Outcomes) (nCfg : SysConfig) (st : Store) : Option Store :=
  store out (withHeader nCfg) st

/-- The record at the start of sector 11. -/
def record (mem : ℕ → UInt8) : SysConfig := fun k => mem (addrFlashSector 11 + k)

/-- Prepare system configuration. -/
def prepareConfig (out : Outcomes) (st : Store) : Option Store :=
  let h0 := readByteFlash st.flash (addrFlashSector 11)
  let h1 := readByteFlash st.flash (addrFlashSector 11 + 1)
  if h0 = 0xaa ∧ h1 = 0xaa then some ⟨record st.flash.mem, st.flash⟩ else defaultConfig out st

/-- Get system configuration. -/
def getConfig (st : Store) : SysConfig := st.sCfg

/-- Power off and on: the flash keeps its bytes, RAM holds anything. -/
def reboot (ram : SysConfig) (st : Store) : Store := ⟨ram, ⟨st.flash.mem, 0⟩⟩

/-! ### The loops of `writeFlash`, inside one sector -/

theorem getFlashSector_eleven {addr : ℕ} (h : addrFlashSector 11 ≤ addr) :
    stmflashGetFlashSector addr = 11 := by
  have hle : ∀ s, s ≤ 11 → ¬ addr < addrFlashSector s := by
    intro s _
    have : addrFlashSector s ≤ addrFlashSector 11 := by
      revert s
      decide
    omega
  simp [stmflashGetFlashSector, hle]

theorem eraseLoop_clean (out : Outcomes) (endaddr : ℕ) : ∀ (fuel addrx : ℕ) (f : Dev),
    endaddr - addrx < fuel → (∀ a, addrx ≤ a → a < endaddr → f.mem a = 0xFF) →
    eraseLoop out endaddr fuel addrx f = some (.complete, f)
  | 0, _, _, h, _ => by omega
  | fuel + 1, addrx, f, hfuel, hclean => by
    rw [eraseLoop]
    by_cases hlt : addrx < endaddr
    · rw [if_pos hlt, if_neg (by simp [readByteFlash, hclean addrx le_rfl hlt])]
      exact eraseLoop_clean out endaddr fuel (addrx + 1) f (by omega)
        fun a h₁ h₂ => hclean a (by omega) h₂
    · rw [if_neg hlt]

theorem eraseLoop_dirty (out : Outcomes) {endaddr : ℕ}
    (hend : endaddr ≤ addrFlashSector 11 + sectorSize 11) : ∀ (fuel addrx : ℕ) (f : Dev),
    addrFlashSector 11 ≤ addrx → 2 * (endaddr - addrx) < fuel →
    (∃ a, addrx ≤ a ∧ a < endaddr ∧ f.mem a ≠ 0xFF) →
    eraseLoop out endaddr fuel addrx f = some (eraseSector out 11 f)
  | 0, _, _, _, h, _ => by omega
  | fuel + 1, addrx, f, hbase, hfuel, ⟨a, ha, hae, hne⟩ => by
    have hlt : addrx < endaddr := by omega
    rw [eraseLoop, if_pos hlt]
    by_cases hx : f.mem addrx = 0xFF
    · rw [if_neg (by simp [readByteFlash, hx])]
      have hne' : addrx ≠ a := fun h => hne (h ▸ hx)
      exact eraseLoop_dirty out hend fuel (addrx + 1) f (by omega) (by omega)
        ⟨a, by omega, hae, hne⟩
    · rw [if_pos (show readByteFlash f addrx ≠ 0xFF from hx), getFlashSector_eleven hbase]
      by_cases hok : out f.ops = .complete
      · rw [eraseSector_complete hok]
        dsimp only
        rw [if_neg (by simp)]
        refine eraseLoop_clean out endaddr fuel addrx _ (by omega) fun b hb hbe => ?_
        exact if_pos ⟨by omega, by omega⟩
      · rw [eraseSector_fails hok]
        exact if_pos hok

/-- What the program loop leaves: as many bytes as operations complete. -/
theorem programLoop_eq (out : Outcomes) {endaddr : ℕ} : ∀ (pBuffer : List UInt8) (faddr : ℕ) (f : Dev),
    faddr + pBuffer.length ≤ endaddr → ∀ a,
    (programLoop out endaddr pBuffer faddr f).mem a =
      if faddr ≤ a ∧ a < faddr + completes out f.ops pBuffer.length then
        f.mem a &&& pBuffer.getD (a - faddr) 0
      else f.mem a
  | [], faddr, f, _, a => by
    rw [programLoop, if_neg (by simp [completes])]
  | b :: pBuffer, faddr, f, hend, a => by
    rw [List.length_cons] at hend
    rw [programLoop, if_pos (by omega), List.length_cons, completes]
    by_cases hok : out f.ops = .complete
    · rw [programByte_complete hok, if_pos hok]
      dsimp only
      rw [if_neg (by simp), programLoop_eq out pBuffer (faddr + 1) _ (by omega) a]
      dsimp only
      by_cases ha : a = faddr
      · subst ha
        rw [if_neg (by omega), if_pos (by omega), Function.update_self]
        simp
      · have hget : (b :: pBuffer).getD (a - faddr) 0 = pBuffer.getD (a - (faddr + 1)) 0 ∨ a < faddr := by
          by_cases hlt : a < faddr
          · exact Or.inr hlt
          · left
            rw [show a - faddr = (a - (faddr + 1)) + 1 by omega, List.getD_cons_succ]
        rw [Function.update_of_ne ha]
        by_cases hin : faddr + 1 ≤ a ∧ a < faddr + 1 + completes out (f.ops + 1) pBuffer.length
        · rw [if_pos hin, if_pos (by omega), hget.resolve_right (by omega)]
        · rw [if_neg hin, if_neg (by omega)]
    · rw [programByte_fails hok, if_neg hok]
      dsimp only
      rw [if_pos hok, if_neg (by omega)]

/-- The program loop issues one operation for each byte, up to the first that does not complete. -/
theorem completed_programLoop (out : Outcomes) {endaddr : ℕ} : ∀ (pBuffer : List UInt8) (faddr : ℕ) (f : Dev),
    faddr + pBuffer.length ≤ endaddr →
    (Completed out f (programLoop out endaddr pBuffer faddr f) ↔
      ∀ i < pBuffer.length, out (f.ops + i) = .complete)
  | [], faddr, f, _ => by
    refine iff_of_true (fun n h₁ h₂ => ?_) (fun i hi => absurd hi (Nat.not_lt_zero i))
    exact absurd (h₁.trans_lt h₂) (lt_irrefl _)
  | b :: pBuffer, faddr, f, hend => by
    rw [List.length_cons] at hend
    rw [programLoop, if_pos (by omega), List.length_cons, Nat.forall_lt_succ_left']
    by_cases hok : out f.ops = .complete
    · rw [programByte_complete hok]
      dsimp only
      rw [if_neg (by simp)]
      have ih := completed_programLoop out pBuffer (faddr + 1)
        ⟨Function.update f.mem faddr (f.mem faddr &&& b), f.ops + 1⟩
        (by omega : faddr + 1 + pBuffer.length ≤ endaddr)
      dsimp only at ih
      simp only [Nat.add_right_comm f.ops 1, Nat.add_assoc f.ops] at ih ⊢
      rw [← ih]
      show _ ↔ out f.ops = .complete ∧ _
      rw [and_iff_right hok]
      exact completed_step rfl hok
    · rw [programByte_fails hok]
      dsimp only
      rw [if_pos hok]
      exact iff_of_false (not_completed_step rfl hok) fun h => hok h.1

end Config
end Serial2Ethernet
