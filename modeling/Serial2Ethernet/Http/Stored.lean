/-
# What a request reports

`Config_Handler` sets `status_index` to 9, "configured, takes effect after
reboot", before it calls `setConfig`, and hears nothing back: `writeFlash`
ends silently at the first operation that fails, with `s_cfg` already changed.
`reportsTruly_iff` says when the report is true all the same.
-/
import Serial2Ethernet.Http.Update

namespace Serial2Ethernet
namespace CgiSsi

open Lib Config Flash Httpd

/-- The flash holds `s_cfg`, and any boot brings it up. -/
def Persists (st : Store) : Prop :=
  record st.flash.mem = getConfig st ∧
    ∀ out ram, ∃ st', prepareConfig out (reboot ram st) = some st' ∧ getConfig st' = getConfig st

/-- If the request is reported as configured, the configuration is stored and
no flash operation of the request has failed. -/
def ReportsTruly (ovf : Overflow) (ps : List Param) (out : Outcomes) (nCfg : SysConfig) (w : Web) : Prop :=
  ∀ page w', configHandler ovf ps out nCfg w = .ok (some (page, w')) → w'.statusIndex = 9 →
    Persists w'.store ∧ Completed out w.store.flash w'.store.flash

/-- A block of the request returns with a status, or stops at a null pointer. -/
def Refused (ovf : Overflow) (ps : List Param) : Prop :=
  ∃ p ∈ parameters, supplied p.name ps = some none ∨ Rejects ovf ps p

section Handler

variable {ovf : Overflow} {ps : List Param}

theorem refused_iff (nCfg : SysConfig) : Refused ovf ps ↔ (configLoop ovf ps parameters ⟨nCfg, []⟩).1 ≠ .done := by
  constructor
  · rintro ⟨p, hp, h⟩ hdone
    obtain ⟨hnull, hrej⟩ := (configLoop_done_iff parameters _).mp hdone p hp
    exact h.elim hnull hrej
  · intro hend
    by_contra h
    refine hend ((configLoop_done_iff parameters _).mpr fun p hp => ⟨fun hnull => ?_, fun hrej => ?_⟩)
    · exact h ⟨p, hp, .inl hnull⟩
    · exact h ⟨p, hp, .inr hrej⟩

theorem refused_unchanged (h : Refused ovf ps) {out : Outcomes} {nCfg : SysConfig} {w w' : Web} {page : String}
    (hok : configHandler ovf ps out nCfg w = .ok (some (page, w'))) :
    1 ≤ w'.statusIndex ∧ w'.statusIndex ≤ 8 ∧ w'.store = w.store :=
  configHandler_refuses nCfg w ((refused_iff nCfg).mp h) hok

theorem statusIndex_of_refused (h : Refused ovf ps) {out : Outcomes} {nCfg : SysConfig} {w w' : Web}
    {page : String} (hok : configHandler ovf ps out nCfg w = .ok (some (page, w'))) : w'.statusIndex ≠ 9 :=
  statusIndex_ne_nine nCfg w ((refused_iff nCfg).mp h) hok

theorem configHandler_accepted (h : ¬ Refused ovf ps) (out : Outcomes) (nCfg : SysConfig) (w : Web) :
    let c := withHeader (configLoop ovf ps parameters ⟨nCfg, []⟩).2.nCfg
    ∃ f, configHandler ovf ps out nCfg w = .ok (some (configShtml, ⟨⟨c, f⟩, 9⟩)) ∧
      Config.store out c w.store = some ⟨c, f⟩ := by
  have hdone := not_not.mp (mt (refused_iff nCfg).mpr h)
  obtain ⟨f, hf⟩ := store_returns out (withHeader (configLoop ovf ps parameters ⟨nCfg, []⟩).2.nCfg) w.store
  refine ⟨f, ?_, hf⟩
  rw [configHandler_eq, hdone]
  dsimp only
  rw [setConfig, hf]
  rfl

theorem persists_of_record {c : SysConfig} {f : Dev} (h : record f.mem = withHeader c) :
    Persists ⟨withHeader c, f⟩ := by
  refine ⟨h, fun out ram => ⟨_, prepareConfig_stored out (stored_withHeader h), h⟩⟩

theorem defaults_header : withHeader defaults = defaults := by decide

/-- After a boot, any other boot loads the same configuration, if the flash works. -/
theorem persists_boot {st st' : Store} (h : prepareConfig allComplete st = some st') : Persists st' := by
  by_cases hstored : Stored st.flash.mem
  · obtain rfl := Option.some.inj ((prepareConfig_stored allComplete hstored).symm.trans h)
    exact ⟨rfl, fun out ram => ⟨_, prepareConfig_stored out hstored, rfl⟩⟩
  · obtain ⟨f, hf, hrec⟩ := prepareConfig_defaults hstored
    obtain rfl := Option.some.inj (hf.symm.trans h)
    rw [← defaults_header] at hrec ⊢
    exact persists_of_record hrec

/-- **A report of success is true exactly when** the request is refused, and so
not reported as configured, or every operation the write takes completes: the
erase, unless the record is erased already, and the 103 bytes. -/
theorem reportsTruly_iff (ovf : Overflow) (ps : List Param) (out : Outcomes) (nCfg : SysConfig) (w : Web) :
    ReportsTruly ovf ps out nCfg w ↔
      Refused ovf ps ∨ ∀ i < writeOps w.store.flash, out (w.store.flash.ops + i) = .complete := by
  by_cases href : Refused ovf ps
  · exact iff_of_true (fun page w' hok h9 => absurd h9 (statusIndex_of_refused href hok)) (.inl href)
  · obtain ⟨f, hok, hstore⟩ := configHandler_accepted href out nCfg w
    rw [or_iff_right href, ← completed_store hstore]
    constructor
    · exact fun h => (h _ _ hok rfl).2
    · intro hall page w' hok' _
      rw [hok] at hok'
      cases hok'
      exact ⟨persists_of_record (record_of_completed hstore hall), hall⟩

/-- The first byte of a request without parameters cannot be programmed: it is
reported as configured, and the record stays erased. -/
theorem not_reportsTruly : ¬ ReportsTruly (fun _ _ => 0) [] (stopAfter 0 .errorWrp) (fun _ => 0)
    ⟨⟨defaults, ⟨fun _ => 0xFF, 0⟩⟩, 0⟩ := by
  intro h
  have href : ¬ Refused (fun _ _ => 0) [] := by
    rintro ⟨p, -, hnull | ⟨⟨value, hv, -⟩, -⟩⟩
    · cases hnull
    · cases hv
  obtain ⟨f, hok, hstore⟩ := configHandler_accepted href (stopAfter 0 .errorWrp) (fun _ => 0)
    ⟨⟨defaults, ⟨fun _ => 0xFF, 0⟩⟩, 0⟩
  have hall := (completed_store hstore).mp (h _ _ hok rfl).2
  exact absurd (hall 0 (by decide)) (by decide)

end Handler

end CgiSsi
end Serial2Ethernet
