/-
# The boot behind a request

A baud rate is stored as %u converts it and used at the next boot as the
divisor of the UART clock, the quotient cut to 16 bits. Nothing between the
form and the divisor looks at it: `usableBoot_iff_rates` says which rates of
an accepted request can be booted with.
-/
import Serial2Ethernet.Hardware.UartFsmc
import Serial2Ethernet.Http.Form

namespace Serial2Ethernet
namespace CgiSsi

open Lib Config Flash Httpd UartFsmc

/-- All channels are initialized, each with the divisor 14745600 / rate, and
the divisor is a number from 1 to 65535. -/
def UsableBoot (cfg : SysConfig) : Prop :=
  ∃ tr, initUartFsmc cfg [] = .ok tr ∧ ∀ chl : Fin 16,
    let q := 14745600 / (cfg.baudRates chl).toNat
    1 ≤ q ∧ q ≤ 65535 ∧ ∃ lo hi : UInt8,
      writtenTo (uart1Base + baseInterval * chl) (writes tr) = [lo] ∧
      writtenTo (uart1Base + baseInterval * chl + 1) (writes tr) = [hi] ∧
      lo.toNat + 256 * hi.toNat = q

theorem divisor_bytes (x : UInt16) :
    (x &&& 0xff).toUInt8.toNat + 256 * (x >>> 8).toUInt8.toNat = x.toNat := by
  have hx := x.toNat_lt
  have hlo : (x &&& 0xff).toUInt8.toNat = x.toNat % 256 := by
    rw [UInt16.toNat_toUInt8, UInt16.toNat_and, show (0xff : UInt16).toNat = 2 ^ 8 - 1 from rfl,
      Nat.and_two_pow_sub_one_eq_mod]
    omega
  have hhi : (x >>> 8).toUInt8.toNat = x.toNat / 256 := by
    rw [UInt16.toNat_toUInt8, UInt16.toNat_shiftRight, show (8 : UInt16).toNat % 16 = 8 from rfl,
      Nat.shiftRight_eq_div_pow]
    omega
  omega

theorem quotient_range {b : ℕ} : (1 ≤ 14745600 / b ∧ 14745600 / b ≤ 65535) ↔ 226 ≤ b ∧ b ≤ 14745600 := by
  rcases Nat.eq_zero_or_pos b with rfl | hb
  · simp
  · rw [Nat.le_div_iff_mul_le hb, Nat.div_le_iff_le_mul_add_pred hb]
    omega

theorem usableBoot_iff (cfg : SysConfig) : UsableBoot cfg ↔
    ∀ chl, 226 ≤ (cfg.baudRates chl).toNat ∧ (cfg.baudRates chl).toNat ≤ 14745600 := by
  constructor
  · rintro ⟨tr, -, h⟩ chl
    obtain ⟨h₁, h₂, -⟩ := h chl
    exact quotient_range.mp ⟨h₁, h₂⟩
  · intro h
    have hne : ∀ chl ∈ List.finRange 16, cfg.baudRates chl ≠ 0 := fun chl _ h0 => by
      have := (h chl).1
      rw [h0] at this
      exact absurd this (by decide)
    obtain ⟨tr, htr, hw⟩ := initUartLoop_ok cfg (List.finRange 16) (resetUartFsmc []) hne
    refine ⟨tr, htr, fun chl => ?_⟩
    have hq := quotient_range.mpr (h chl)
    have hfactor : (uartClock / cfg.baudRates chl).toUInt16.toNat =
        14745600 / (cfg.baudRates chl).toNat := by
      rw [UInt32.toNat_toUInt16, UInt32.toNat_div, show uartClock.toNat = 14745600 from rfl]
      exact Nat.mod_eq_of_lt (by omega)
    have hreg : ∀ d < 3, writtenTo (uart1Base + baseInterval * chl + d) (writes tr) =
        writtenTo (uart1Base + baseInterval * chl + d) (initWrites cfg chl) := fun d hd => by
      rw [hw, writtenTo_append, writtenTo_initWrites cfg chl hd _ (List.nodup_finRange 16),
        if_pos (List.mem_finRange chl), writes_resetUartFsmc]
      have hne : resetAddr ≠ uart1Base + baseInterval * chl + d := by
        unfold resetAddr uart1Base
        omega
      have hreset : writtenTo (uart1Base + baseInterval * chl + d)
          (writes [] ++ [(resetAddr, 0), (resetAddr, 1)]) = [] := by
        simp [writtenTo, hne]
      rw [hreset, List.nil_append]
    refine ⟨hq.1, hq.2, ((uartClock / cfg.baudRates chl).toUInt16 &&& 0xff).toUInt8,
      ((uartClock / cfg.baudRates chl).toUInt16 >>> 8).toUInt8, (hreg 0 (by decide)).trans ?_,
      (hreg 1 (by decide)).trans ?_, ?_⟩
    · simp [writtenTo, initWrites]
    · simp [writtenTo, initWrites]
    · rw [divisor_bytes, hfactor]

section Request

variable {ovf : Overflow} {ps : List Param} {g : SysConfig} {w w' : Web}

theorem accepted_rates (hdone : (configLoop ovf ps parameters ⟨g, []⟩).1 = .done) {chl : Fin 16}
    (hgiven : supplied (baudRate chl).name ps ≠ none) :
    parsed ovf ps (baudRate chl) =
      some [(withHeader (configLoop ovf ps parameters ⟨g, []⟩).2.nCfg).baudRates chl] := by
  have hp : baudRate chl ∈ parameters := by simp [parameters]
  obtain ⟨hnull, hrej⟩ := (configLoop_done_iff parameters _).mp hdone (baudRate chl) hp
  have hpar := parsed_given hgiven hnull fun hm => hrej ⟨hm, by simp [baudRate]⟩
  obtain ⟨b, hb⟩ := List.length_eq_one_iff.mp (parsed_eq_some hpar).2
  rw [hb] at hpar
  have hbyte : ∀ j < 4, ∀ k : Fin 103, k.val = 22 + 4 * chl + j →
      withHeader (configLoop ovf ps parameters ⟨g, []⟩).2.nCfg k = byte b j := fun j hj k hk => by
    rw [withHeader, if_neg (by omega)]
    exact converted_byte hdone hp hpar (i := 0) Nat.one_pos hj (by
      rw [hk]
      simp [baudRate])
  rw [hpar, SysConfig.baudRates, hbyte 0 (by decide) _ rfl, hbyte 1 (by decide) _ (by dsimp only; omega),
    hbyte 2 (by decide) _ (by dsimp only; omega), hbyte 3 (by decide) _ (by dsimp only; omega), u32_byte]

/-- **An accepted request with all parameters gives a usable boot exactly
when** every baud rate, as %u converts it, is between 226 and 14745600. -/
theorem usableBoot_iff_rates (ram : SysConfig)
    (haccept : configHandler ovf ps allComplete g w = .ok (some (configShtml, w')))
    (h9 : w'.statusIndex = 9) (hgiven : ∀ p ∈ parameters, supplied p.name ps ≠ none) :
    ∃ st, prepareConfig allComplete (reboot ram w'.store) = some st ∧
      (UsableBoot (getConfig st) ↔
        ∀ chl, ∃ b, parsed ovf ps (baudRate chl) = some [b] ∧ 226 ≤ b.toNat ∧ b.toNat ≤ 14745600) := by
  have hdone : (configLoop ovf ps parameters ⟨g, []⟩).1 = .done :=
    not_not.mp fun hend => statusIndex_ne_nine g w hend haccept h9
  obtain ⟨st, hst, hcfg, -, hboot⟩ := configHandler_done g w hdone
  rw [hst] at haccept
  cases haccept
  refine ⟨_, hboot ram, ?_⟩
  have hget : getConfig ⟨st.sCfg, (reboot ram st).flash⟩ =
      withHeader (configLoop ovf ps parameters ⟨g, []⟩).2.nCfg := hcfg
  rw [hget, usableBoot_iff]
  refine forall_congr' fun chl => ?_
  rw [accepted_rates hdone (hgiven (baudRate chl) (by simp [parameters]))]
  simp

end Request

/-- The form of the default configuration, submitted unchanged, is bootable. -/
theorem usableBoot_defaults : ∃ w' st,
    configHandler (fun _ _ => 0) (form defaultWeb) allComplete (fun _ => 0) defaultWeb =
      .ok (some (configShtml, w')) ∧
    prepareConfig allComplete (reboot (fun _ => 0) w'.store) = some st ∧ UsableBoot (getConfig st) := by
  have hdone := (form_accepted (fun _ _ => 0) (fun _ => 0) defaultWeb (List.Perm.refl _)).1
  obtain ⟨st, hst, -⟩ := configHandler_done (fun _ => 0) defaultWeb hdone
  have hgiven : ∀ p ∈ parameters, supplied p.name (form defaultWeb) ≠ none := fun p hp => by
    obtain ⟨value, hs, -⟩ := supplied_form (fun _ _ => 0) defaultWeb (List.Perm.refl _) hp
    simp [hs]
  obtain ⟨st', hboot, hiff⟩ := usableBoot_iff_rates (fun _ => 0) hst rfl hgiven
  refine ⟨_, st', hst, hboot, hiff.mpr fun chl => ?_⟩
  have hrate := accepted_rates hdone (hgiven (baudRate chl) (by simp [parameters]))
  have heq := (form_accepted (fun _ _ => 0) (fun _ => 0) defaultWeb (List.Perm.refl _)).2
  have h115200 : ∀ chl, (withHeader defaults).baudRates chl = 115200 := by decide
  rw [heq] at hrate
  exact ⟨_, hrate, by rw [show defaultWeb.store.sCfg = defaults from rfl, h115200]; decide⟩

/-- A configuration of zeros, over an erased flash. -/
def zeroWeb : Web := ⟨⟨fun _ => 0, ⟨fun _ => 0xFF, 0⟩⟩, 0⟩

/-- A baud rate of 0 is accepted, and the next boot divides by it. -/
theorem not_usableBoot : ∃ w' st,
    configHandler (fun _ _ => 0) (form zeroWeb) allComplete (fun _ => 0) zeroWeb =
      .ok (some (configShtml, w')) ∧ w'.statusIndex = 9 ∧
    (∀ p ∈ parameters, supplied p.name (form zeroWeb) ≠ none) ∧
    prepareConfig allComplete (reboot (fun _ => 0) w'.store) = some st ∧
    initUartFsmc (getConfig st) [] = .error .divByZero ∧ ¬ UsableBoot (getConfig st) := by
  obtain ⟨hdone, heq⟩ := form_accepted (fun _ _ => 0) (fun _ => 0) zeroWeb (List.Perm.refl _)
  obtain ⟨st, hst, hcfg, -, hboot⟩ := configHandler_done (fun _ => 0) zeroWeb hdone
  have hgiven : ∀ p ∈ parameters, supplied p.name (form zeroWeb) ≠ none := fun p hp => by
    obtain ⟨value, hs, -⟩ := supplied_form (fun _ _ => 0) zeroWeb (List.Perm.refl _) hp
    simp [hs]
  have h0 : (getConfig ⟨st.sCfg, (reboot (fun _ => 0) st).flash⟩).baudRates 0 = 0 := by
    have hrates : (withHeader zeroWeb.store.sCfg).baudRates 0 = 0 := by decide
    show st.sCfg.baudRates 0 = 0
    rw [hcfg, heq, hrates]
  refine ⟨_, _, hst, rfl, hgiven, hboot _, ?_, ?_⟩
  · exact initUartLoop_zero _ _ _ ⟨0, List.mem_finRange 0, h0⟩
  · rw [usableBoot_iff]
    intro h
    have := (h 0).1
    rw [h0] at this
    exact absurd this (by decide)

end CgiSsi
end Serial2Ethernet
