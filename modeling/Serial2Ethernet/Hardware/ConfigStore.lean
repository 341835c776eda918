/-
# The configuration across power failures

What a call of `setConfig` leaves in the record is decided by how many of its
flash operations complete: the erase, if a byte of the record is not 0xFF, and
then the bytes from the front (`store_dirty`, `store_clean`). The two header
bytes are programmed first and are all that `prepareConfig` looks at, so a
failure behind them is loaded as a configuration (`torn`);
`setConfig_atomic_iff` says for which failures that does no harm.
-/
import Serial2Ethernet.Hardware.Config

namespace Serial2Ethernet
namespace Config

open Flash

/-! ### What is left in the record -/

/-- The first `m` bytes of a configuration in an erased record. -/
def partly (c : SysConfig) (m : ℕ) : SysConfig := fun k => if k.val < m then c k else 0xFF

theorem partly_all (c : SysConfig) {m : ℕ} (h : 103 ≤ m) : partly c m = c :=
  funext fun k => if_pos (by omega)

theorem record_programLoop (out : Outcomes) (c : SysConfig) (f : Dev)
    (hclean : ∀ k, record f.mem k = 0xFF) {endaddr : ℕ} (hend : addrFlashSector 11 + 103 ≤ endaddr) :
    record (programLoop out endaddr (List.ofFn c) (addrFlashSector 11) f).mem =
      partly c (completes out f.ops 103) := by
  funext k
  have hlen : addrFlashSector 11 + (List.ofFn c).length ≤ endaddr := by
    rw [List.length_ofFn]
    exact hend
  have h := programLoop_eq out (List.ofFn c) (addrFlashSector 11) f hlen (addrFlashSector 11 + k)
  simp only [record] at hclean ⊢
  rw [h, hclean k, List.length_ofFn, Nat.add_sub_cancel_left, partly]
  by_cases hk : k.val < completes out f.ops 103
  · have hget : (List.ofFn c)[k.val]? = some (c k) := by
      rw [List.getElem?_ofFn, dif_pos k.isLt]
    rw [if_pos (by omega), if_pos hk, ones_and, List.getD_eq_getElem?_getD, hget]
    rfl
  · rw [if_neg (by omega), if_neg hk]

theorem eraseLoop_record_clean (out : Outcomes) {f : Dev} (hclean : ∀ k, record f.mem k = 0xFF) :
    eraseLoop out (addrFlashSector 11 + 103) 207 (addrFlashSector 11) f = some (.complete, f) := by
  refine eraseLoop_clean out (addrFlashSector 11 + 103) 207 (addrFlashSector 11) f (by omega) fun a h₁ h₂ => ?_
  have := hclean ⟨a - addrFlashSector 11, by omega⟩
  simpa [record, Nat.add_sub_cancel' h₁] using this

theorem eraseLoop_record_dirty (out : Outcomes) {f : Dev} (hdirty : ∃ k, record f.mem k ≠ 0xFF) :
    eraseLoop out (addrFlashSector 11 + 103) 207 (addrFlashSector 11) f = some (eraseSector out 11 f) := by
  obtain ⟨k, hk⟩ := hdirty
  have hend : addrFlashSector 11 + 103 ≤ addrFlashSector 11 + sectorSize 11 := by decide
  exact eraseLoop_dirty out hend 207 (addrFlashSector 11) f le_rfl (by omega)
    ⟨addrFlashSector 11 + k, by omega, by omega, hk⟩

section Store

variable (out : Outcomes) (c : SysConfig) (st : Store)

/-- `store` erases if need be, and programs the record. -/
theorem store_eq : store out c st =
    (eraseLoop out (addrFlashSector 11 + 103) 207 (addrFlashSector 11) st.flash).map fun r =>
      ⟨c, if r.1 = .complete then
        programLoop out (addrFlashSector 11 + 103) (List.ofFn c) (addrFlashSector 11) r.2
      else r.2⟩ := by
  have hend : (addrFlashSector 11 + (List.ofFn c).length) % 2 ^ 32 = addrFlashSector 11 + 103 := by
    rw [List.length_ofFn]
    rfl
  have hfuel : 2 * (List.ofFn c).length + 1 = 207 := by rw [List.length_ofFn]
  unfold store writeFlash
  rw [if_neg (show ¬ addrFlashSector 11 < addrFlashSector 0 by decide), hend, hfuel]
  dsimp only
  rw [if_pos (show addrFlashSector 11 < 0x1FFF0000 by decide), Option.map_map]
  rfl

/-- Over an erased record the bytes are programmed from the front. -/
theorem store_clean {st : Store} (hclean : ∀ k, record st.flash.mem k = 0xFF) :
    ∃ f, store out c st = some ⟨c, f⟩ ∧ record f.mem = partly c (completes out st.flash.ops 103) := by
  refine ⟨_, ?_, record_programLoop out c st.flash hclean le_rfl⟩
  rw [store_eq, eraseLoop_record_clean out hclean]
  rfl

/-- Over a record with a byte to erase, the sector is erased first. -/
theorem store_dirty {st : Store} (hdirty : ∃ k, record st.flash.mem k ≠ 0xFF) :
    ∃ f, store out c st = some ⟨c, f⟩ ∧ record f.mem =
      if out st.flash.ops = .complete then partly c (completes out (st.flash.ops + 1) 103)
      else record st.flash.mem := by
  rw [store_eq, eraseLoop_record_dirty out hdirty]
  by_cases hok : out st.flash.ops = .complete
  · rw [eraseSector_complete hok, if_pos hok]
    refine ⟨_, rfl, record_programLoop out c ⟨erased 11 st.flash.mem, _⟩ (fun i => ?_) le_rfl⟩
    refine if_pos ⟨by omega, ?_⟩
    have : (103 : ℕ) ≤ sectorSize 11 := by decide
    omega
  · rw [eraseSector_fails hok, if_neg hok]
    exact ⟨_, rfl, by simp [hok]⟩

/-- When every operation completes the record is the configuration. -/
theorem store_complete : ∃ f, store allComplete c st = some ⟨c, f⟩ ∧ record f.mem = c := by
  by_cases hclean : ∀ k, record st.flash.mem k = 0xFF
  · obtain ⟨f, hf, hr⟩ := store_clean allComplete c hclean
    exact ⟨f, hf, by rw [hr, completes_allComplete, partly_all c le_rfl]⟩
  · obtain ⟨f, hf, hr⟩ := store_dirty allComplete c (not_forall.mp hclean)
    refine ⟨f, hf, ?_⟩
    rw [hr, if_pos (show allComplete _ = .complete from rfl), completes_allComplete,
      partly_all c le_rfl]

end Store

/-! ### How many operations a write takes -/

/-- The operations of a write that completes: the erase if it is needed, and the bytes. -/
def writeOps (f : Dev) : ℕ := if ∀ k, record f.mem k = 0xFF then 103 else 104

section Operations

variable {out : Outcomes} {c : SysConfig} {st st' : Store}

/-- The operations issued by a write have all completed exactly if those it needs complete. -/
theorem completed_store (h : store out c st = some st') : Completed out st.flash st'.flash ↔
    ∀ i < writeOps st.flash, out (st.flash.ops + i) = .complete := by
  have hprog := fun f => completed_programLoop out (List.ofFn c) (addrFlashSector 11) f
    (by rw [List.length_ofFn] : addrFlashSector 11 + (List.ofFn c).length ≤ addrFlashSector 11 + 103)
  rw [List.length_ofFn] at hprog
  rw [store_eq] at h
  unfold writeOps
  by_cases hclean : ∀ k, record st.flash.mem k = 0xFF
  · rw [eraseLoop_record_clean out hclean] at h
    obtain rfl := Option.some.inj h
    rw [if_pos hclean]
    exact hprog st.flash
  · rw [eraseLoop_record_dirty out (not_forall.mp hclean)] at h
    rw [if_neg hclean, Nat.forall_lt_succ_left', Nat.add_zero]
    by_cases hok : out st.flash.ops = .complete
    · rw [eraseSector_complete hok] at h
      obtain rfl := Option.some.inj h
      have hrest := hprog ⟨erased 11 st.flash.mem, st.flash.ops + 1⟩
      simp only [Nat.add_right_comm st.flash.ops 1, Nat.add_assoc st.flash.ops] at hrest
      rw [and_iff_right hok, ← hrest]
      exact completed_step rfl hok
    · rw [eraseSector_fails hok] at h
      obtain rfl := Option.some.inj h
      dsimp only
      rw [if_neg hok]
      exact iff_of_false (not_completed_step rfl hok) fun h => hok h.1

/-- A write whose operations all complete leaves the configuration in the record. -/
theorem record_of_completed (h : store out c st = some st') (hall : Completed out st.flash st'.flash) :
    record st'.flash.mem = c := by
  have hops := (completed_store h).mp hall
  unfold writeOps at hops
  by_cases hclean : ∀ k, record st.flash.mem k = 0xFF
  · obtain ⟨f, hf, hr⟩ := store_clean out c hclean
    obtain rfl := Option.some.inj (hf.symm.trans h)
    rw [if_pos hclean] at hops
    rw [hr, completes_eq_iff.mpr hops, partly_all c le_rfl]
  · obtain ⟨f, hf, hr⟩ := store_dirty out c (not_forall.mp hclean)
    obtain rfl := Option.some.inj (hf.symm.trans h)
    rw [if_neg hclean, Nat.forall_lt_succ_left', Nat.add_zero] at hops
    have hprog : ∀ i < 103, out (st.flash.ops + 1 + i) = .complete := by
      intro i hi
      rw [Nat.add_right_comm]
      exact hops.2 i hi
    rw [hr, if_pos hops.1, completes_eq_iff.mpr hprog, partly_all c le_rfl]

theorem store_returns (out : Outcomes) (c : SysConfig) (st : Store) :
    ∃ f, store out c st = some ⟨c, f⟩ := by
  by_cases hclean : ∀ k, record st.flash.mem k = 0xFF
  · obtain ⟨f, hf, -⟩ := store_clean out c hclean
    exact ⟨f, hf⟩
  · obtain ⟨f, hf, -⟩ := store_dirty out c (not_forall.mp hclean)
    exact ⟨f, hf⟩

end Operations

/-! ### What is loaded -/

/-- The header bytes say that a configuration is stored. -/
def Stored (mem : ℕ → UInt8) : Prop := record mem 0 = 0xaa ∧ record mem 1 = 0xaa

theorem stored_withHeader {mem : ℕ → UInt8} {c : SysConfig} (h : record mem = withHeader c) : Stored mem := by
  unfold Stored
  rw [h]
  exact ⟨rfl, rfl⟩

theorem prepareConfig_stored (out : Outcomes) {st : Store} (h : Stored st.flash.mem) :
    prepareConfig out st = some ⟨record st.flash.mem, st.flash⟩ := if_pos h

theorem prepareConfig_defaults {st : Store} (h : ¬ Stored st.flash.mem) :
    ∃ f, prepareConfig allComplete st = some ⟨defaults, f⟩ ∧ record f.mem = defaults := by
  obtain ⟨f, hf, hr⟩ := store_complete defaults st
  exact ⟨f, (if_neg h).trans hf, hr⟩

theorem setConfig_persists (n ram : SysConfig) (st : Store) :
    ∃ st₁ st₂, setConfig allComplete n st = some st₁ ∧ st₁.sCfg = withHeader n ∧
      record st₁.flash.mem = withHeader n ∧
      prepareConfig allComplete (reboot ram st₁) = some st₂ ∧ st₂.sCfg = withHeader n := by
  obtain ⟨f, hf, hr⟩ := store_complete (withHeader n) st
  exact ⟨_, _, hf, rfl, hr, prepareConfig_stored _ (stored_withHeader hr), hr⟩

/-! ### Any sequence of writes -/

/-- A call that writes a configuration. -/
inductive Write
  | setConfig (nCfg : SysConfig)
  | defaultConfig

namespace Write

/-- The configuration it writes. -/
def written : Write → SysConfig
  | .setConfig nCfg => withHeader nCfg
  | .defaultConfig => defaults

def perform (out : Outcomes) : Write → Store → Option Store
  | .setConfig nCfg => Config.setConfig out nCfg
  | .defaultConfig => Config.defaultConfig out

/-- The calls one after another. -/
def performAll (out : Outcomes) : List Write → Store → Option Store
  | [], st => some st
  | w :: ws, st => (w.perform out st).bind (performAll out ws)

theorem written_header (w : Write) : w.written 0 = 0xaa ∧ w.written 1 = 0xaa := by
  cases w <;> exact ⟨rfl, rfl⟩

theorem perform_complete (w : Write) (st : Store) :
    ∃ f, w.perform allComplete st = some ⟨w.written, f⟩ ∧ record f.mem = w.written := by
  cases w with
  | setConfig nCfg => exact store_complete (withHeader nCfg) st
  | defaultConfig => exact store_complete defaults st

/-- The record is what the last call wrote. -/
theorem performAll_complete : ∀ (ws : List Write) (st : Store),
    ∃ st', performAll allComplete ws st = some st' ∧ (ws = [] → st' = st) ∧
      ∀ w, ws.getLast? = some w → record st'.flash.mem = w.written
  | [], st => ⟨st, rfl, fun _ => rfl, fun w h => by simp at h⟩
  | w :: ws, st => by
    obtain ⟨f, hf, hr⟩ := w.perform_complete st
    obtain ⟨st', hst', hnil, hlast⟩ := performAll_complete ws ⟨w.written, f⟩
    refine ⟨st', by rw [performAll, hf]; exact hst', fun h => by simp at h, fun w' hw' => ?_⟩
    cases ws with
    | nil =>
      obtain rfl : w = w' := by simpa using hw'
      rw [hnil rfl]
      exact hr
    | cons w₂ ws => exact hlast w' (by simpa using hw')

end Write

/-- **Persistence.** After any calls of `setConfig` and `defaultConfig` whose
flash operations complete, over any flash, a boot with any RAM loads what the
last of them wrote, with its header; after none, over a flash that stores no
configuration, it loads the defaults and stores them. -/
theorem writes_persist (ws : List Write) (ram : SysConfig) (st : Store) :
    ∃ st₁ st₂, Write.performAll allComplete ws st = some st₁ ∧
      prepareConfig allComplete (reboot ram st₁) = some st₂ ∧
      (∀ w, ws.getLast? = some w → getConfig st₂ = w.written ∧
        getConfig st₂ 0 = 0xaa ∧ getConfig st₂ 1 = 0xaa) ∧
      (ws = [] → ¬ Stored st.flash.mem → getConfig st₂ = defaults ∧ record st₂.flash.mem = defaults) := by
  obtain ⟨st₁, h₁, hnil, hlast⟩ := Write.performAll_complete ws st
  cases hw : ws.getLast? with
  | none =>
    rw [List.getLast?_eq_none_iff] at hw
    obtain rfl := hnil hw
    by_cases hS : Stored st₁.flash.mem
    · exact ⟨st₁, _, h₁, prepareConfig_stored _ hS, fun w h => by simp at h, fun _ h => absurd hS h⟩
    · obtain ⟨f, hf, hr⟩ : ∃ f, prepareConfig allComplete (reboot ram st₁) = some ⟨defaults, f⟩ ∧
          record f.mem = defaults := prepareConfig_defaults hS
      exact ⟨st₁, _, h₁, hf, fun w h => by simp at h, fun _ _ => ⟨rfl, hr⟩⟩
  | some w =>
    have hr := hlast w hw
    have hS : Stored (reboot ram st₁).flash.mem := by
      show record st₁.flash.mem 0 = 0xaa ∧ record st₁.flash.mem 1 = 0xaa
      rw [hr]
      exact w.written_header
    refine ⟨st₁, _, h₁, prepareConfig_stored _ hS, fun w' h => ?_, fun h => ?_⟩
    · obtain rfl := Option.some.inj h
      have hload : getConfig ⟨record (reboot ram st₁).flash.mem, (reboot ram st₁).flash⟩ = w.written := hr
      rw [hload]
      exact ⟨rfl, w.written_header⟩
    · rw [h] at hw
      cases hw

/-- Zeros are set, then the defaults, then ones without a header. -/
theorem writes_persist_three : ∃ st₁ st₂,
    Write.performAll allComplete [.setConfig fun _ => 0, .defaultConfig, .setConfig fun _ => 1]
      ⟨fun _ => 0, ⟨fun _ => 0x55, 0⟩⟩ = some st₁ ∧
    prepareConfig allComplete (reboot (fun _ => 7) st₁) = some st₂ ∧ getConfig st₂ = withHeader fun _ => 1 := by
  obtain ⟨st₁, st₂, h₁, h₂, hlast, -⟩ :=
    writes_persist [.setConfig fun _ => 0, .defaultConfig, .setConfig fun _ => 1] (fun _ => 7)
      ⟨fun _ => 0, ⟨fun _ => 0x55, 0⟩⟩
  exact ⟨st₁, st₂, h₁, h₂, (hlast (.setConfig fun _ => 1) rfl).1⟩

/-! ### A failure in `setConfig` -/

/-- The record after `k` of the operations of a `setConfig` over a stored
configuration: the erase, and `k - 1` bytes. -/
def torn (n : SysConfig) (k : ℕ) : SysConfig := partly (withHeader n) (k - 1)

/-- `setConfig` fails at operation `k`, the board is rebooted, and the
configuration loaded is the old one, the new one or the default one. -/
def CommitsAtomically (mem : ℕ → UInt8) (n ram ram' : SysConfig) (k : ℕ) (e : Status) : Prop :=
  ∃ st st', setConfig (stopAfter k e) n ⟨ram, ⟨mem, 0⟩⟩ = some st ∧
    prepareConfig allComplete (reboot ram' st) = some st' ∧
    (getConfig st' = record mem ∨ getConfig st' = withHeader n ∨ getConfig st' = defaults)

section Crash

variable {mem : ℕ → UInt8} (hold : Stored mem) (n ram ram' : SysConfig) (k : ℕ) {e : Status}
  (he : e ≠ .complete)

include hold he

/-- What the next boot loads after a failure at operation `k`. -/
theorem crash_loads : ∃ st st', setConfig (stopAfter k e) n ⟨ram, ⟨mem, 0⟩⟩ = some st ∧
    prepareConfig allComplete (reboot ram' st) = some st' ∧
    getConfig st' = if k = 0 then record mem else if k < 3 then defaults else torn n k := by
  let st₀ : Store := ⟨ram, ⟨mem, 0⟩⟩
  have hdirty : ∃ i, record st₀.flash.mem i ≠ 0xFF := ⟨0, by rw [hold.1]; decide⟩
  obtain ⟨f, hf, hr⟩ := store_dirty (stopAfter k e) (withHeader n) hdirty
  rw [completes_stopAfter he, show st₀.flash.ops = 0 from rfl, show st₀.flash.mem = mem from rfl] at hr
  refine ⟨⟨withHeader n, f⟩, ?_⟩
  by_cases h0 : k = 0
  · rw [if_neg (by simp [stopAfter, h0, he])] at hr
    have hS : Stored (reboot ram' ⟨withHeader n, f⟩).flash.mem := by
      unfold Stored
      rw [show record (reboot ram' ⟨withHeader n, f⟩).flash.mem = record mem from hr]
      exact hold
    rw [if_pos h0]
    exact ⟨_, hf, prepareConfig_stored _ hS, hr⟩
  · rw [if_pos (by simp [stopAfter]; omega)] at hr
    have htorn : record f.mem = torn n k := by
      rw [hr, torn]
      funext i
      unfold partly
      congr 1
      simp only [eq_iff_iff]
      omega
    rw [if_neg h0]
    by_cases h3 : k < 3
    · have hS : ¬ Stored (reboot ram' ⟨withHeader n, f⟩).flash.mem := by
        show ¬ (record f.mem 0 = 0xaa ∧ record f.mem 1 = 0xaa)
        rintro ⟨-, h1⟩
        rw [htorn, torn, partly, if_neg (by simp; omega)] at h1
        exact absurd h1 (by decide)
      obtain ⟨f', hf', -⟩ := prepareConfig_defaults hS
      exact ⟨_, hf, hf', by rw [if_pos h3]; rfl⟩
    · have hS : Stored (reboot ram' ⟨withHeader n, f⟩).flash.mem := by
        show record f.mem 0 = 0xaa ∧ record f.mem 1 = 0xaa
        rw [htorn, torn, partly, partly, if_pos (by simp; omega), if_pos (by simp; omega)]
        exact ⟨rfl, rfl⟩
      exact ⟨_, hf, prepareConfig_stored _ hS, by rw [if_neg h3]; exact htorn⟩

theorem commitsAtomically_iff : CommitsAtomically mem n ram ram' k e ↔
    k < 3 ∨ torn n k = record mem ∨ torn n k = withHeader n ∨ torn n k = defaults := by
  obtain ⟨st, st', hset, hprep, hload⟩ := crash_loads hold n ram ram' k he
  have hiff : CommitsAtomically mem n ram ram' k e ↔
      (getConfig st' = record mem ∨ getConfig st' = withHeader n ∨ getConfig st' = defaults) := by
    constructor
    · rintro ⟨st₁, st₁', h₁, h₁', h⟩
      rw [hset, Option.some.injEq] at h₁
      rw [← h₁, hprep, Option.some.injEq] at h₁'
      rwa [← h₁'] at h
    · exact fun h => ⟨st, st', hset, hprep, h⟩
  rw [hiff, hload]
  by_cases h0 : k = 0
  · simp [h0]
  · by_cases h3 : k < 3
    · simp [h0, h3]
    · simp [h0, h3]

/-- **A failure in `setConfig` is harmless exactly when** it comes before the
second header byte is programmed, or the bytes not yet programmed are 0xFF in
the new configuration anyway, or what has been programmed happens to be the
old configuration. -/
theorem setConfig_atomic_iff : CommitsAtomically mem n ram ram' k e ↔
    k < 3 ∨ (∀ i : Fin 103, k ≤ i.val + 1 → withHeader n i = 0xFF) ∨
      ∀ i : Fin 103, record mem i = if i.val + 1 < k then withHeader n i else 0xFF := by
  rw [commitsAtomically_iff hold n ram ram' k he]
  have hnew : torn n k = withHeader n ↔ ∀ i : Fin 103, k ≤ i.val + 1 → withHeader n i = 0xFF := by
    rw [funext_iff]
    refine forall_congr' fun i => ?_
    unfold torn partly
    by_cases hi : i.val < k - 1
    · simp only [hi, if_true, true_iff]
      omega
    · simp only [hi, if_false, eq_comm]
      exact ⟨fun h _ => h, fun h => h (by omega)⟩
  have hrec : torn n k = record mem ↔
      ∀ i : Fin 103, record mem i = if i.val + 1 < k then withHeader n i else 0xFF := by
    rw [eq_comm, funext_iff]
    refine forall_congr' fun i => ?_
    have hi : i.val < k - 1 ↔ i.val + 1 < k := by omega
    simp only [torn, partly, hi]
  -- the last byte of the defaults is not 0xFF, so only a complete write can be the defaults
  have hdef : torn n k = defaults → torn n k = withHeader n := by
    intro h
    have hlast := congrFun h 102
    by_cases hk : (102 : Fin 103).val < k - 1
    · exact partly_all _ (by simp at hk; omega)
    · rw [torn, partly, if_neg hk] at hlast
      exact absurd hlast (by decide)
  rw [← hnew, ← hrec]
  constructor
  · rintro (h | h | h | h)
    · exact Or.inl h
    · exact Or.inr (Or.inr h)
    · exact Or.inr (Or.inl h)
    · exact Or.inr (Or.inl (hdef h))
  · rintro (h | h | h)
    · exact Or.inl h
    · exact Or.inr (Or.inr (Or.inl h))
    · exact Or.inr (Or.inl h)

end Crash

theorem stored_aa : Stored fun _ => 0xaa := ⟨rfl, rfl⟩

/-- The header is erased but not yet programmed: the defaults are loaded. -/
theorem setConfig_atomic_erased :
    CommitsAtomically (fun _ => 0xaa) (fun _ => 0) (fun _ => 0) (fun _ => 0) 1 .errorWrp :=
  (setConfig_atomic_iff stored_aa _ _ _ 1 (by decide)).mpr (Or.inl (by decide))

/-- The header is programmed and nothing else: a record of 0xFF bytes is
loaded in place of an all-zero configuration. -/
theorem setConfig_torn :
    ¬ CommitsAtomically (fun _ => 0xaa) (fun _ => 0) (fun _ => 0) (fun _ => 0) 3 .errorWrp := by
  rw [commitsAtomically_iff stored_aa _ _ _ 3 (by decide)]
  rintro (h | h | h | h)
  · omega
  · exact absurd (congrFun h 2) (by decide)
  · exact absurd (congrFun h 2) (by decide)
  · exact absurd (congrFun h 2) (by decide)

end Config
end Serial2Ethernet
