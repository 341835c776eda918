/-
# A write anywhere in main flash

`writeFlash` over a range that may cross sectors. The erase loop stays where it
is after an erase and finds 0xFF there the next time, because the sector it has
erased is that of the address (`inSector_getFlashSector`); so every address
takes two turns at most. A sector is erased for a byte other than 0xFF in it,
and after that it has none, so it is not erased again (`eraseLogged_exact`).
`eraseLogged` is the loop together with the sectors it erases; without them it
is the loop (`eraseLogged_eq`).
-/
import Serial2Ethernet.Hardware.Config

namespace Serial2Ethernet
namespace Config

open Flash

/-! ### The sectors -/

/-- One test of the lookup: below the next sector the address lies in this one. -/
theorem inSector_below {s next rest : Fin 12} {a : ℕ} (hnext : addrFlashSector s + sectorSize s = addrFlashSector next)
    (hlo : addrFlashSector s ≤ a) (hrest : addrFlashSector next ≤ a → InSector rest a) :
    InSector (if a < addrFlashSector next then s else rest) a := by
  by_cases hlt : a < addrFlashSector next
  · rw [if_pos hlt]
    exact ⟨hlo, hlt.trans_eq hnext.symm⟩
  · rw [if_neg hlt]
    exact hrest (Nat.le_of_not_lt hlt)

theorem inSector_getFlashSector {a : ℕ} (hlo : addrFlashSector 0 ≤ a)
    (hhi : a < addrFlashSector 11 + sectorSize 11) : InSector (stmflashGetFlashSector a) a := by
  unfold stmflashGetFlashSector
  refine inSector_below rfl hlo fun h₁ => inSector_below rfl h₁ fun h₂ => inSector_below rfl h₂ fun h₃ => ?_
  refine inSector_below rfl h₃ fun h₄ => inSector_below rfl h₄ fun h₅ => inSector_below rfl h₅ fun h₆ => ?_
  refine inSector_below rfl h₆ fun h₇ => inSector_below rfl h₇ fun h₈ => inSector_below rfl h₈ fun h₉ => ?_
  exact inSector_below rfl h₉ fun h₁₀ => inSector_below rfl h₁₀ fun h₁₁ => ⟨h₁₁, hhi⟩

theorem inSector_inj {s t : Fin 12} {a : ℕ} (hs : InSector s a) (ht : InSector t a) : s = t := by
  by_contra hne
  have hapart : ∀ s t : Fin 12, s ≠ t →
      addrFlashSector s + sectorSize s ≤ addrFlashSector t ∨ addrFlashSector t + sectorSize t ≤ addrFlashSector s := by
    decide
  rcases hapart s t hne with h | h
  · exact absurd (hs.2.trans_le h) (Nat.not_lt.mpr ht.1)
  · exact absurd (ht.2.trans_le h) (Nat.not_lt.mpr hs.1)

/-! ### The erase loop and the sectors it erases -/

/-- `eraseLoop`, with the sectors it erases. -/
def eraseLogged (out : Outcomes) (endaddr : ℕ) : (fuel addrx : ℕ) → Dev → Option ((Status × Dev) × List (Fin 12))
  | 0, _, _ => none
  | fuel + 1, addrx, f =>
    if addrx < endaddr then
      if readByteFlash f addrx ≠ 0xFF then
        let s := stmflashGetFlashSector addrx
        let r := eraseSector out s f
        if r.1 ≠ .complete then some (r, [s])
        else (eraseLogged out endaddr fuel addrx r.2).map fun l => (l.1, s :: l.2)
      else eraseLogged out endaddr fuel (addrx + 1) f
    else some ((.complete, f), [])

/-- `writeFlash`, with the sectors it erases. -/
def writeLogged (out : Outcomes) (faddr : ℕ) (pBuffer : List UInt8) (f : Dev) : Option (Dev × List (Fin 12)) :=
  if faddr < addrFlashSector 0 then some (f, [])
  else
    let endaddr := (faddr + pBuffer.length) % 2 ^ 32
    let erase :=
      if faddr < 0x1FFF0000 then eraseLogged out endaddr (2 * pBuffer.length + 1) faddr f
      else some ((.complete, f), [])
    erase.map fun l => (if l.1.1 = .complete then programLoop out endaddr pBuffer faddr l.1.2 else l.1.2, l.2)

theorem eraseLogged_eq (out : Outcomes) (endaddr : ℕ) : ∀ (fuel addrx : ℕ) (f : Dev),
    (eraseLogged out endaddr fuel addrx f).map Prod.fst = eraseLoop out endaddr fuel addrx f
  | 0, _, _ => rfl
  | fuel + 1, addrx, f => by
    rw [eraseLogged, eraseLoop]
    by_cases hlt : addrx < endaddr
    · rw [if_pos hlt, if_pos hlt]
      by_cases hdirty : readByteFlash f addrx ≠ 0xFF
      · rw [if_pos hdirty, if_pos hdirty]
        dsimp only
        by_cases hfail : (eraseSector out (stmflashGetFlashSector addrx) f).1 ≠ .complete
        · rw [if_pos hfail, if_pos hfail]
          rfl
        · rw [if_neg hfail, if_neg hfail, ← eraseLogged_eq out endaddr fuel addrx, Option.map_map]
          rfl
      · rw [if_neg hdirty, if_neg hdirty]
        exact eraseLogged_eq out endaddr fuel (addrx + 1) f
    · rw [if_neg hlt, if_neg hlt]
      rfl

/-- Without the sectors it is `writeFlash`. -/
theorem writeLogged_eq (out : Outcomes) (faddr : ℕ) (pBuffer : List UInt8) (f : Dev) :
    (writeLogged out faddr pBuffer f).map Prod.fst = writeFlash out faddr pBuffer f := by
  unfold writeLogged writeFlash
  by_cases hlow : faddr < addrFlashSector 0
  · rw [if_pos hlow, if_pos hlow]
    rfl
  · rw [if_neg hlow, if_neg hlow]
    dsimp only
    by_cases hmain : faddr < 0x1FFF0000
    · rw [if_pos hmain, if_pos hmain, ← eraseLogged_eq, Option.map_map, Option.map_map]
      rfl
    · rw [if_neg hmain, if_neg hmain]
      rfl

/-! ### One turn -/

theorem eraseLogged_dirty {endaddr fuel addrx : ℕ} {f : Dev} (hlt : addrx < endaddr) (hdirty : f.mem addrx ≠ 0xFF) :
    eraseLogged allComplete endaddr (fuel + 1) addrx f =
      (eraseLogged allComplete endaddr fuel addrx ⟨erased (stmflashGetFlashSector addrx) f.mem, f.ops + 1⟩).map
        fun l => (l.1, stmflashGetFlashSector addrx :: l.2) := by
  have hread : readByteFlash f addrx ≠ 0xFF := hdirty
  rw [eraseLogged, if_pos hlt, if_pos hread]
  dsimp only
  rw [eraseSector_complete rfl, if_neg (not_not.mpr rfl)]

theorem eraseLogged_clean {out : Outcomes} {endaddr fuel addrx : ℕ} {f : Dev} (hlt : addrx < endaddr)
    (hclean : f.mem addrx = 0xFF) :
    eraseLogged out endaddr (fuel + 1) addrx f = eraseLogged out endaddr fuel (addrx + 1) f := by
  have hread : readByteFlash f addrx = 0xFF := hclean
  rw [eraseLogged, if_pos hlt, if_neg (not_not.mpr hread)]

/-! ### The whole loop -/

/-- What the loop leaves over `n` bytes from `addrx` on: the sectors it has erased are
different, each had a byte other than 0xFF in the range, and the range has none. -/
structure Erased (n addrx : ℕ) (f f' : Dev) (sectors : List (Fin 12)) : Prop where
  nodup : sectors.Nodup
  dirty : ∀ s ∈ sectors, ∃ a, addrx ≤ a ∧ a < addrx + n ∧ InSector s a ∧ f.mem a ≠ 0xFF
  mem : ∀ a, f'.mem a = if ∃ s ∈ sectors, InSector s a then 0xFF else f.mem a
  clean : ∀ a, addrx ≤ a → a < addrx + n → f'.mem a = 0xFF

theorem Erased.step {n addrx : ℕ} {f f' : Dev} {sectors : List (Fin 12)} (h : Erased n (addrx + 1) f f' sectors)
    (hclean : f.mem addrx = 0xFF) : Erased (n + 1) addrx f f' sectors := by
  refine ⟨h.nodup, fun s hs => ?_, h.mem, fun a h₁ h₂ => ?_⟩
  · obtain ⟨a, h₁, h₂, ha⟩ := h.dirty s hs
    exact ⟨a, by omega, by omega, ha⟩
  · by_cases ha : a = addrx
    · rw [h.mem, ha, hclean, ite_self]
    · exact h.clean a (by omega) (by omega)

/-- The loop behind the erase of a sector with a byte other than 0xFF. -/
theorem Erased.cons {n addrx a₀ : ℕ} {f f' : Dev} {s : Fin 12} {ops : ℕ} {sectors : List (Fin 12)}
    (h : Erased n addrx ⟨erased s f.mem, ops⟩ f' sectors) (hlo : addrx ≤ a₀) (hhi : a₀ < addrx + n)
    (hs : InSector s a₀) (hdirty : f.mem a₀ ≠ 0xFF) : Erased n addrx f f' (s :: sectors) := by
  have hkept (a : ℕ) (hne : erased s f.mem a ≠ 0xFF) : ¬ InSector s a ∧ f.mem a ≠ 0xFF := by
    unfold erased at hne
    by_cases hin : InSector s a
    · rw [if_pos hin] at hne
      exact absurd rfl hne
    · rw [if_neg hin] at hne
      exact ⟨hin, hne⟩
  refine ⟨List.nodup_cons.mpr ⟨fun hmem => ?_, h.nodup⟩, fun t ht => ?_, fun a => ?_, h.clean⟩
  · -- an erased sector has nothing left to erase
    obtain ⟨a, -, -, hin, hne⟩ := h.dirty s hmem
    exact (hkept a hne).1 hin
  · rcases List.mem_cons.mp ht with rfl | ht
    · exact ⟨a₀, hlo, hhi, hs, hdirty⟩
    · obtain ⟨a, h₁, h₂, hin, hne⟩ := h.dirty t ht
      exact ⟨a, h₁, h₂, hin, (hkept a hne).2⟩
  · rw [h.mem]
    dsimp only [erased]
    simp only [List.mem_cons, exists_eq_or_imp]
    by_cases hin : InSector s a
    · simp [hin]
    · simp [hin]

/-- **The erase loop ends**, after two turns for every address at most. -/
theorem eraseLogged_exact : ∀ (n fuel addrx : ℕ) (f : Dev), addrFlashSector 0 ≤ addrx →
    addrx + n ≤ addrFlashSector 11 + sectorSize 11 → 2 * n < fuel →
    ∃ f' sectors, eraseLogged allComplete (addrx + n) fuel addrx f = some ((.complete, f'), sectors) ∧
      Erased n addrx f f' sectors
  | 0, fuel + 1, addrx, f, _, _, _ => by
    refine ⟨f, [], ?_, List.nodup_nil, fun s hs => ?_, fun a => ?_, fun a h₁ h₂ => ?_⟩
    · rw [Nat.add_zero, eraseLogged, if_neg (Nat.lt_irrefl addrx)]
    · cases hs
    · simp
    · exact absurd (h₁.trans_lt h₂) (Nat.lt_irrefl addrx)
  | n + 1, fuel + 2, addrx, f, hlo, hhi, hfuel => by
    have hlt : addrx < addrx + (n + 1) := by omega
    have hend : addrx + (n + 1) = addrx + 1 + n := by omega
    by_cases hclean : f.mem addrx = 0xFF
    · rw [eraseLogged_clean hlt hclean, hend]
      obtain ⟨f', sectors, hok, h⟩ := eraseLogged_exact n (fuel + 1) (addrx + 1) f (by omega) (by omega) (by omega)
      exact ⟨f', sectors, hok, h.step hclean⟩
    · have hin := inSector_getFlashSector hlo (hlt.trans_le hhi)
      have hff : erased (stmflashGetFlashSector addrx) f.mem addrx = 0xFF := if_pos hin
      obtain ⟨f', sectors, hok, h⟩ := eraseLogged_exact n fuel (addrx + 1)
        ⟨erased (stmflashGetFlashSector addrx) f.mem, f.ops + 1⟩ (by omega) (by omega) (by omega)
      refine ⟨f', stmflashGetFlashSector addrx :: sectors, ?_, (h.step hff).cons le_rfl hlt hin hclean⟩
      rw [eraseLogged_dirty hlt hclean, eraseLogged_clean hlt hff, hend, hok]
      rfl

/-! ### The write -/

/-- The range holds the bytes, the sectors erased are different and each has an address
in the range, and outside the range the other sectors are as they were. -/
structure Exact (faddr : ℕ) (pBuffer : List UInt8) (f f' : Dev) (sectors : List (Fin 12)) : Prop where
  nodup : sectors.Nodup
  meets : ∀ s ∈ sectors, ∃ a, faddr ≤ a ∧ a < faddr + pBuffer.length ∧ InSector s a
  written : ∀ i (h : i < pBuffer.length), f'.mem (faddr + i) = pBuffer[i]
  kept : ∀ s ∉ sectors, ∀ a, InSector s a → ¬ (faddr ≤ a ∧ a < faddr + pBuffer.length) → f'.mem a = f.mem a

theorem Erased.program {faddr : ℕ} {pBuffer : List UInt8} {f f₁ : Dev} {sectors : List (Fin 12)}
    (h : Erased pBuffer.length faddr f f₁ sectors) :
    Exact faddr pBuffer f (programLoop allComplete (faddr + pBuffer.length) pBuffer faddr f₁) sectors := by
  have hmem := programLoop_eq allComplete pBuffer faddr f₁ le_rfl
  rw [completes_allComplete] at hmem
  refine ⟨h.nodup, fun s hs => ?_, fun i hi => ?_, fun s hs a hin hout => ?_⟩
  · obtain ⟨a, h₁, h₂, hin, -⟩ := h.dirty s hs
    exact ⟨a, h₁, h₂, hin⟩
  · have hge : faddr ≤ faddr + i := Nat.le_add_right _ _
    have hlt : faddr + i < faddr + pBuffer.length := Nat.add_lt_add_left hi _
    calc (programLoop allComplete (faddr + pBuffer.length) pBuffer faddr f₁).mem (faddr + i)
        = f₁.mem (faddr + i) &&& pBuffer.getD i 0 := by rw [hmem, if_pos ⟨hge, hlt⟩, Nat.add_sub_cancel_left]
      _ = pBuffer.getD i 0 := by rw [h.clean _ hge hlt, ones_and]
      _ = pBuffer[i] := by
        rw [List.getD_eq_getElem?_getD, List.getElem?_eq_getElem hi]
        rfl
  · have hother : ¬ ∃ t ∈ sectors, InSector t a := by
      rintro ⟨t, ht, hint⟩
      exact hs (inSector_inj hin hint ▸ ht)
    rw [hmem, if_neg hout, h.mem, if_neg hother]

/-- **A write is exact.** Anywhere in main flash, `writeFlash` ends, has erased each
sector once at most and none outside the range, and leaves the bytes in the range and
the sectors it has not erased as they were outside it. -/
theorem writeFlash_exact {faddr : ℕ} {pBuffer : List UInt8} (hlo : 0x08000000 ≤ faddr)
    (hhi : faddr + pBuffer.length ≤ 0x08100000) (f : Dev) :
    ∃ f' sectors, writeFlash allComplete faddr pBuffer f = some f' ∧
      writeLogged allComplete faddr pBuffer f = some (f', sectors) ∧ Exact faddr pBuffer f f' sectors := by
  obtain ⟨f₁, sectors, hok, h⟩ := eraseLogged_exact pBuffer.length (2 * pBuffer.length + 1) faddr f hlo hhi (by omega)
  have hlog : writeLogged allComplete faddr pBuffer f =
      some (programLoop allComplete (faddr + pBuffer.length) pBuffer faddr f₁, sectors) := by
    have hlow : ¬ faddr < addrFlashSector 0 := Nat.not_lt.mpr hlo
    have hmain : faddr < 0x1FFF0000 := by omega
    unfold writeLogged
    rw [if_neg hlow, Nat.mod_eq_of_lt (by omega)]
    dsimp only
    rw [if_pos hmain, hok]
    rfl
  refine ⟨_, sectors, ?_, hlog, h.program⟩
  rw [← writeLogged_eq, hlog]
  rfl

/-- Three bytes over the end of sector 4, in a flash of zeros. -/
theorem writeFlash_exact_crossing :
    ∃ f' sectors, writeFlash allComplete 0x0801FFFE [1, 2, 3] ⟨fun _ => 0, 0⟩ = some f' ∧
      writeLogged allComplete 0x0801FFFE [1, 2, 3] ⟨fun _ => 0, 0⟩ = some (f', sectors) ∧
      Exact 0x0801FFFE [1, 2, 3] ⟨fun _ => 0, 0⟩ f' sectors :=
  writeFlash_exact (by decide) (by decide) _

end Config
end Serial2Ethernet
