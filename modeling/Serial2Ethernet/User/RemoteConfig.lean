/-
# Remote configuration: message 0xA3

`updateConfig` takes a configuration out of a message and sets it
(`updateConfig_sets`), but `handleProtocol` has no case for 0xA3 and nothing
else calls it: whatever arrives, the stored configuration stays as it is
(`foldl_onStore`). So the message does what it is for exactly when there is
nothing to do (`remoteConfig_iff`).
-/
import Serial2Ethernet.Hardware.ConfigStore
import Serial2Ethernet.User.Resync

namespace Serial2Ethernet
namespace ProtocolLayer

open Flash Config

/-- The little-endian 32-bit word at an offset from a pointer. -/
def u32At (ptr : List UInt8) (i : ℕ) : UInt32 :=
  Lib.u32 (u8At ptr i) (u8At ptr (i + 1)) (u8At ptr (i + 2)) (u8At ptr (i + 3))

/-- `COM_DEV_CONFIG`. -/
structure ComDevConfig where
  head : MessageHead
  ipAddr : Fin 4 → UInt8
  ipMask : Fin 4 → UInt8
  ipGate : Fin 4 → UInt8
  listenPort : UInt16
  remoteIp : Fin 4 → UInt8
  remotePort : UInt16
  baudRates : Fin 16 → UInt32
  parities : Fin 16 → UInt8
  queryCycleS : UInt8

/-- `sizeof(COM_DEV_CONFIG)`. -/
def comDevConfigSize : ℕ := 105

/-- The pointer, seen as a `COM_DEV_CONFIG`. -/
def comDevConfig (ptr : List UInt8) : ComDevConfig where
  head := messageHead ptr
  ipAddr i := u8At ptr (4 + i)
  ipMask i := u8At ptr (8 + i)
  ipGate i := u8At ptr (12 + i)
  listenPort := u16At ptr 16
  remoteIp i := u8At ptr (18 + i)
  remotePort := u16At ptr 22
  baudRates chl := u32At ptr (24 + 4 * chl)
  parities chl := u8At ptr (88 + chl)
  queryCycleS := u8At ptr 104

/-- Apply new config: all but the header is copied over the local `n_cfg`,
which holds anything before. -/
def updateConfig (out : Outcomes) (nCfg : SysConfig) (ptr : List UInt8) (st : Store) : Option Store :=
  if (messageHead ptr).len.toNat = comDevConfigSize + 1 then
    setConfig out (fun k => if k.val < 2 then nCfg k else u8At ptr (4 + (k.val - 2))) st
  else some st

/-- What a call does to the configuration. -/
def Call.onStore (st : Store) : Call → Store
  | .sendDataUartFsmc _ _ _ => st
  | .openLED _ => st
  | .resetUartFsmc => st

/-- Successive `onRecvData` calls, and the configuration. -/
def configSession (d : Decoder) (st : Store) (chunks : List (List UInt8)) :
    Except Fault (Decoder × Store) :=
  (session d chunks).map fun r => (r.1, r.2.foldl Call.onStore st)

/-! ### What the message is for -/

/-- The configuration has the header and, field by field, what the message holds. -/
structure Carries (c : SysConfig) (msg : ComDevConfig) : Prop where
  header : ∀ i, c.header i = 0xaa
  ipAddr : c.ipAddr = msg.ipAddr
  ipMask : c.ipMask = msg.ipMask
  ipGate : c.ipGate = msg.ipGate
  listenPort : c.listenPort = msg.listenPort
  remoteIp : c.remoteIp = msg.remoteIp
  remotePort : c.remotePort = msg.remotePort
  baudRates : c.baudRates = msg.baudRates
  parities : c.parities = msg.parities
  queryCycleS : c.queryCycleS = msg.queryCycleS

/-- The frame is a message 0xA3 of the right length. -/
def SetsConfig (f : Frame) : Prop := f.code = 0xA3 ∧ f.body.length = comDevConfigSize + 1

instance (f : Frame) : Decidable (SetsConfig f) := inferInstanceAs (Decidable (_ ∧ _))

/-- What a frame is to do to the configuration: set it, for good, or nothing. -/
def Configures (f : Frame) (st st' : Store) : Prop :=
  if SetsConfig f then
    Carries (getConfig st') (comDevConfig f.body) ∧ ∀ ram, ∃ st'',
      prepareConfig allComplete (reboot ram st') = some st'' ∧ getConfig st'' = getConfig st'
  else st' = st

/-- The copied bytes are the fields: the two declarations agree. -/
theorem carries_copy (ptr : List UInt8) (nCfg : SysConfig) :
    Carries (withHeader fun k => if k.val < 2 then nCfg k else u8At ptr (4 + (k.val - 2)))
      (comDevConfig ptr) := by
  have hcopy : ∀ (k : Fin 103) (i : ℕ), 2 ≤ k.val → i = k.val + 2 →
      withHeader (fun k => if k.val < 2 then nCfg k else u8At ptr (4 + (k.val - 2))) k = u8At ptr i := by
    rintro k i h2 rfl
    rw [withHeader, if_neg (by omega), if_neg (by omega), show 4 + (k.val - 2) = k.val + 2 by omega]
  constructor
  · intro i
    exact if_pos i.isLt
  · funext i
    exact hcopy _ _ (by dsimp only; omega) (by dsimp only; omega)
  · funext i
    exact hcopy _ _ (by dsimp only; omega) (by dsimp only; omega)
  · funext i
    exact hcopy _ _ (by dsimp only; omega) (by dsimp only; omega)
  · exact congrArg₂ Lib.u16 (hcopy 14 16 (by decide) rfl) (hcopy 15 17 (by decide) rfl)
  · funext i
    exact hcopy _ _ (by dsimp only; omega) (by dsimp only; omega)
  · exact congrArg₂ Lib.u16 (hcopy 20 22 (by decide) rfl) (hcopy 21 23 (by decide) rfl)
  · funext chl
    unfold SysConfig.baudRates
    rw [hcopy _ (24 + 4 * chl) (by dsimp only; omega) (by dsimp only; omega),
      hcopy _ (24 + 4 * chl + 1) (by dsimp only; omega) (by dsimp only; omega),
      hcopy _ (24 + 4 * chl + 2) (by dsimp only; omega) rfl,
      hcopy _ (24 + 4 * chl + 3) (by dsimp only; omega) (by dsimp only; omega)]
    rfl
  · funext chl
    exact hcopy _ _ (by dsimp only; omega) (by dsimp only; omega)
  · exact hcopy 102 104 (by decide) rfl

/-- `updateConfig` would do it. -/
theorem updateConfig_sets (nCfg : SysConfig) (st : Store) (f : Frame) {ptr : List UInt8}
    (hptr : ptr.take f.body.length = f.body) :
    ∃ st', updateConfig allComplete nCfg ptr st = some st' ∧
      (f.body.length = comDevConfigSize + 1 → Carries (getConfig st') (comDevConfig ptr) ∧
        ∀ ram, ∃ st'', prepareConfig allComplete (reboot ram st') = some st'' ∧
          getConfig st'' = getConfig st') ∧
      (f.body.length ≠ comDevConfigSize + 1 → st' = st) := by
  have hlen := messageHead_len f.accepted hptr
  by_cases h : f.body.length = comDevConfigSize + 1
  · obtain ⟨f', hf', hr⟩ := store_complete
      (withHeader fun k => if k.val < 2 then nCfg k else u8At ptr (4 + (k.val - 2))) st
    refine ⟨⟨_, f'⟩, ?_, fun _ => ⟨carries_copy ptr nCfg, fun ram => ?_⟩, fun hne => absurd h hne⟩
    · rw [updateConfig, if_pos (by rw [hlen, h])]
      exact hf'
    · exact ⟨_, prepareConfig_stored _ (stored_withHeader hr), hr⟩
  · refine ⟨st, ?_, fun h' => absurd h' h, fun _ => rfl⟩
    rw [updateConfig, if_neg (by rw [hlen]; exact h)]

/-! ### What happens -/

/-- No call changes the configuration. -/
theorem foldl_onStore (calls : List Call) (st : Store) : calls.foldl Call.onStore st = st := by
  induction calls with
  | nil => rfl
  | cons call calls ih =>
    rw [List.foldl_cons]
    cases call with
    | sendDataUartFsmc chl ptr size => exact ih
    | openLED index => exact ih
    | resetUartFsmc => exact ih

theorem configSession_ok {d d' : Decoder} {chunks : List (List UInt8)} {ptrs : List (List UInt8)}
    (h : receiving d chunks.flatten = .ok (d', ptrs)) (st : Store) :
    configSession d st chunks = .ok (d', st) := by
  rw [configSession, session_of_receiving h, Except.map, foldl_onStore]

/-- What a boot loads. -/
theorem loaded_eq (ram : SysConfig) (st : Store) :
    ∃ st', prepareConfig allComplete (reboot ram st) = some st' ∧
      (Stored st.flash.mem → getConfig st' = record st.flash.mem) ∧
      (¬ Stored st.flash.mem → getConfig st' = defaults) := by
  by_cases hS : Stored st.flash.mem
  · have hS' : Stored (reboot ram st).flash.mem := hS
    exact ⟨_, prepareConfig_stored _ hS', fun _ => rfl, fun h => absurd hS h⟩
  · have hS' : ¬ Stored (reboot ram st).flash.mem := hS
    obtain ⟨f, hf, -⟩ := prepareConfig_defaults hS'
    exact ⟨_, hf, fun h => absurd h hS, fun _ => rfl⟩

/-- Every boot loads the configuration in RAM again exactly if it is the
record or, where none is stored, the defaults. -/
theorem boots_iff (st : Store) :
    (∀ ram, ∃ st', prepareConfig allComplete (reboot ram st) = some st' ∧ getConfig st' = getConfig st) ↔
      (Stored st.flash.mem → getConfig st = record st.flash.mem) ∧
        (¬ Stored st.flash.mem → getConfig st = defaults) := by
  constructor
  · intro hall
    obtain ⟨st', hp, hrec, hdef⟩ := loaded_eq st.sCfg st
    obtain ⟨st'', hp', heq⟩ := hall st.sCfg
    obtain rfl : st' = st'' := Option.some.inj (hp.symm.trans hp')
    rw [← heq]
    exact ⟨hrec, hdef⟩
  · rintro ⟨hrec, hdef⟩ ram
    obtain ⟨st', hp, hrec', hdef'⟩ := loaded_eq ram st
    refine ⟨st', hp, ?_⟩
    by_cases hS : Stored st.flash.mem
    · rw [hrec' hS, hrec hS]
    · rw [hdef' hS, hdef hS]

/-- **Message 0xA3 takes effect exactly when there is nothing to do**: the
frame has another code or length, or the configuration in RAM already has its
fields and is what a boot loads. -/
theorem remoteConfig_iff {d : Decoder} {f : Frame} (hone : HandledOnce d f) {chunks : List (List UInt8)}
    (hc : chunks.flatten = f.wire) (st : Store) :
    (∃ d' st', configSession d st chunks = .ok (d', st') ∧ Configures f st st') ↔
      (SetsConfig f → Carries (getConfig st) (comDevConfig f.body) ∧
        (Stored st.flash.mem → getConfig st = record st.flash.mem) ∧
        (¬ Stored st.flash.mem → getConfig st = defaults)) := by
  obtain ⟨d', ptr, hr, -⟩ := hone
  rw [← hc] at hr
  have hsession := configSession_ok hr st
  have hsame : (∃ d' st', configSession d st chunks = .ok (d', st') ∧ Configures f st st') ↔
      Configures f st st := by
    constructor
    · rintro ⟨d₁, st₁, h₁, hconf⟩
      rw [hsession] at h₁
      cases h₁
      exact hconf
    · exact fun hconf => ⟨d', st, hsession, hconf⟩
  rw [hsame, Configures]
  by_cases hset : SetsConfig f
  · rw [if_pos hset, boots_iff]
    exact ⟨fun h _ => h, fun h => h hset⟩
  · rw [if_neg hset]
    exact ⟨fun _ h => absurd h hset, fun _ => rfl⟩

/-- A message 0xA3 with nothing in it changes nothing. -/
def emptyConfigFrame : Frame where
  body := [5, 0, 0xA3, 0, 0x58]
  accepted := ⟨by decide, by decide, by decide, by decide⟩
  five_le := by decide

theorem remoteConfig_empty : ∃ d' st',
    configSession (initProtocolLayer true powerOn).dec ⟨defaults, ⟨fun _ => 0xFF, 0⟩⟩
        [[0xaa, 0xaa], [5, 0, 0xA3, 0, 0x58]] = .ok (d', st') ∧
      Configures emptyConfigFrame ⟨defaults, ⟨fun _ => 0xFF, 0⟩⟩ st' := by
  obtain ⟨d', ptr, hr, -, hptr⟩ := emptyConfigFrame.receiving (d := (initProtocolLayer true powerOn).dec) rfl
  exact (remoteConfig_iff ⟨d', ptr, hr, hptr⟩ rfl _).mpr fun h => absurd h (by decide)

/-- A configuration of zeros in a frame. -/
def zeroConfigFrame : Frame where
  body := 106 :: 0 :: 0xA3 :: 0 :: (List.replicate 101 0 ++ [243])
  accepted := ⟨by decide, by decide, by decide +kernel, by decide +kernel⟩
  five_le := by decide

theorem setsConfig_zeroConfigFrame : SetsConfig zeroConfigFrame :=
  ⟨show Lib.u16 0xA3 0 = 0xA3 by decide, by simp [zeroConfigFrame, comDevConfigSize]⟩

/-- It leaves the defaults in place, which a boot over an erased flash loads again. -/
theorem remoteConfig_ignored : ¬ ∀ (d : Decoder) (f : Frame) (st : Store), HandledOnce d f →
    f.code = 0xA3 → ∃ d' st', configSession d st [f.wire] = .ok (d', st') ∧ Configures f st st' := by
  intro hall
  obtain ⟨d', ptr, hr, -, hptr⟩ := zeroConfigFrame.receiving (d := (initProtocolLayer true powerOn).dec) rfl
  obtain ⟨d₁, st₁, h₁, hconf⟩ := hall _ zeroConfigFrame ⟨defaults, ⟨fun _ => 0xFF, 0⟩⟩
    ⟨d', ptr, hr, hptr⟩ setsConfig_zeroConfigFrame.1
  have hr' : receiving (initProtocolLayer true powerOn).dec [zeroConfigFrame.wire].flatten =
      .ok (d', [ptr]) := by
    rw [List.flatten_singleton]
    exact hr
  rw [configSession_ok hr'] at h₁
  cases h₁
  rw [Configures, if_pos setsConfig_zeroConfigFrame] at hconf
  have hip := congrFun hconf.1.ipAddr 0
  change defaults.ipAddr 0 = u8At zeroConfigFrame.body 4 at hip
  revert hip
  decide

end ProtocolLayer
end Serial2Ethernet
