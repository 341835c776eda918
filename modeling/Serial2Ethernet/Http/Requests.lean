/-
# What requests do to the device

Over a run of the server, with any clients and whatever TCP does. A request for
`/config.cgi` stops the device if the first parameter at which the handler would
end has no value, and nothing else in the server does (`site_safe_iff`). The
configuration is the one of the last request that was accepted, and any boot
loads it, if the flash works (`site_config`). Every request for `/reboot.cgi`
leaves its message, as long as there is room in the queue, and no message that
is pending is lost (`reboots_pending`).
-/
import Serial2Ethernet.Http.Site
import Serial2Ethernet.Http.Stored

namespace Serial2Ethernet
namespace CgiSsi

open Lib Config Flash Httpd

/-! ### Null pointers -/

/-- The first of the blocks at which the handler ends has a parameter without a value. -/
def ReadsNull (ovf : Overflow) (ps : List Param) (blocks : List Parameter) : Prop :=
  ∃ before p behind, blocks = before ++ p :: behind ∧ supplied p.name ps = some none ∧
    ∀ q ∈ before, supplied q.name ps ≠ some none ∧ ¬ Rejects ovf ps q

variable {ovf : Overflow} {ps : List Param}

theorem readsNull_cons {p : Parameter} {blocks : List Parameter} : ReadsNull ovf ps (p :: blocks) ↔
    supplied p.name ps = some none ∨
      (supplied p.name ps ≠ some none ∧ ¬ Rejects ovf ps p) ∧ ReadsNull ovf ps blocks := by
  constructor
  · rintro ⟨before, q, behind, hsplit, hnull, hbefore⟩
    cases before with
    | nil =>
      obtain ⟨rfl, -⟩ := List.cons.inj hsplit
      exact .inl hnull
    | cons p' before =>
      obtain ⟨rfl, hblocks⟩ := List.cons.inj hsplit
      rw [List.forall_mem_cons] at hbefore
      exact .inr ⟨hbefore.1, before, q, behind, hblocks, hnull, hbefore.2⟩
  · rintro (hnull | ⟨hp, before, q, behind, rfl, hnull, hbefore⟩)
    · exact ⟨[], p, blocks, rfl, hnull, fun _ h => absurd h List.not_mem_nil⟩
    · exact ⟨p :: before, q, behind, rfl, hnull, List.forall_mem_cons.mpr ⟨hp, hbefore⟩⟩

theorem configLoop_null_iff : ∀ (blocks : List Parameter) (l : Local),
    (configLoop ovf ps blocks l).1 = .null ↔ ReadsNull ovf ps blocks
  | [], l => by
    refine iff_of_false (by simp [configLoop]) ?_
    rintro ⟨before, p, behind, hsplit, -⟩
    simp at hsplit
  | p :: blocks, l => by
    rw [readsNull_cons]
    rcases configLoop_cons ovf ps p blocks l with
      ⟨hs, h⟩ | ⟨status, hm, hk, h⟩ | ⟨hm, hk, h⟩ | ⟨hs, hm, h⟩
    · rw [h]
      simp [hs]
    · rw [h]
      obtain ⟨value, hv, -⟩ := id hm
      simp [Rejects, hm, hk, hv]
    · rw [h, configLoop_null_iff blocks]
      obtain ⟨value, hv, -⟩ := hm
      simp [Rejects, hk, hv]
    · rw [h, configLoop_null_iff blocks]
      simp [Rejects, hs, hm]

end CgiSsi

namespace Httpd

open Lib Fs Ssi Config Flash CgiSsi MsgInterface

variable {T : Type} {pl : Platform T}

/-! ### One call -/

/-- The call gives a null pointer to `sscanf`. -/
def Call.Null (pl : Platform T) : Call → Prop
  | .config ps _ => ReadsNull pl.ovf ps parameters
  | _ => False

/-- The configuration after the call: that of the request, if it is accepted. -/
def Call.cfg (pl : Platform T) (c : SysConfig) : Call → SysConfig
  | .config ps nCfg =>
    if (configLoop pl.ovf ps parameters ⟨nCfg, []⟩).1 = .done then
      withHeader (configLoop pl.ovf ps parameters ⟨nCfg, []⟩).2.nCfg
    else c
  | .reboot => c
  | .rest a => getConfig a.web.store

theorem cfg_of_done {ps : List Param} {nCfg : SysConfig} (h : (configLoop pl.ovf ps parameters ⟨nCfg, []⟩).1 = .done)
    (c : SysConfig) : Call.cfg pl c (.config ps nCfg) =
      withHeader (configLoop pl.ovf ps parameters ⟨nCfg, []⟩).2.nCfg := if_pos h

theorem cfg_of_refused {ps : List Param} {nCfg : SysConfig} (h : (configLoop pl.ovf ps parameters ⟨nCfg, []⟩).1 ≠ .done)
    (c : SysConfig) : Call.cfg pl c (.config ps nCfg) = c := if_neg h

/-- The messages that are published by the call. -/
def Call.reboots : Call → ℕ
  | .reboot => 1
  | _ => 0

theorem apply_returns (a : App) (k : Call) : (∃ a', k.apply pl a = .ok a') ↔ ¬ k.Null pl := by
  cases k with
  | config ps nCfg =>
    show (∃ a', configCall pl ps nCfg a = .ok a') ↔ ¬ ReadsNull pl.ovf ps parameters
    rw [← configLoop_null_iff parameters ⟨nCfg, []⟩, configCall, configHandler_eq]
    cases (configLoop pl.ovf ps parameters ⟨nCfg, []⟩).1 with
    | null => exact iff_of_false (fun ⟨_, h⟩ => by cases h) fun h => h rfl
    | reject s => exact iff_of_true ⟨_, rfl⟩ End.noConfusion
    | done => exact iff_of_true ⟨_, rfl⟩ End.noConfusion
  | reboot => exact iff_of_true ⟨_, rfl⟩ id
  | rest a' => exact iff_of_true ⟨_, rfl⟩ id

/-- What a request does: it is refused, or its configuration is stored. -/
theorem configCall_cases {ps : List Param} {nCfg : SysConfig} {a a' : App} (h : configCall pl ps nCfg a = .ok a') :
    a'.queue = a.queue ∧ ((Refused pl.ovf ps ∧ a'.web.store = a.web.store) ∨ ¬ Refused pl.ovf ps ∧
      Config.store pl.out (withHeader (configLoop pl.ovf ps parameters ⟨nCfg, []⟩).2.nCfg) a.web.store =
        some a'.web.store) := by
  obtain ⟨r, hr, rfl⟩ := map_ok_iff.mp h
  refine ⟨rfl, ?_⟩
  by_cases href : Refused pl.ovf ps
  · refine .inl ⟨href, ?_⟩
    cases r with
    | none => rfl
    | some r => exact (refused_unchanged href hr).2.2
  · obtain ⟨f, hok, hstore⟩ := configHandler_accepted href pl.out nCfg a.web
    obtain rfl := Except.ok.inj (hok.symm.trans hr)
    exact .inr ⟨href, hstore⟩

theorem store_sCfg {out : Outcomes} {c : SysConfig} {st st' : Store} (h : Config.store out c st = some st') :
    st'.sCfg = c := by
  obtain ⟨f, hf⟩ := store_returns out c st
  rw [← Option.some.inj (hf.symm.trans h)]

/-- A call leaves its configuration. -/
theorem apply_cfg {k : Call} {a a' : App} (h : k.apply pl a = .ok a') :
    getConfig a'.web.store = k.cfg pl (getConfig a.web.store) := by
  cases k with
  | config ps nCfg =>
    rcases (configCall_cases h).2 with ⟨href, hstore⟩ | ⟨href, hstore⟩
    · rw [cfg_of_refused ((refused_iff nCfg).mp href), hstore]
    · rw [cfg_of_done (not_not.mp (mt (refused_iff nCfg).mpr href))]
      exact store_sCfg hstore
  | reboot =>
    obtain rfl := Except.ok.inj h
    rfl
  | rest b =>
    obtain rfl := Except.ok.inj h
    rfl

/-- What is stored is what any boot loads, if the flash works. -/
theorem persists_store (hflash : pl.out = allComplete) {c : SysConfig} {st st' : Store}
    (h : Config.store pl.out (withHeader c) st = some st') : Persists st' := by
  rw [hflash] at h
  obtain ⟨f, hf, hrec⟩ := store_complete (withHeader c) st
  rw [← Option.some.inj (hf.symm.trans h)]
  exact persists_of_record hrec

/-- A call leaves a configuration that any boot loads, if the flash works. -/
theorem apply_persists (hflash : pl.out = allComplete) {k : Call} (hrest : ∀ b, k = .rest b → Persists b.web.store)
    {a a' : App} (hP : Persists a.web.store) (h : k.apply pl a = .ok a') : Persists a'.web.store := by
  cases k with
  | config ps nCfg =>
    rcases (configCall_cases h).2 with ⟨-, hstore⟩ | ⟨-, hstore⟩
    · rwa [hstore]
    · exact persists_store hflash hstore
  | reboot =>
    obtain rfl := Except.ok.inj h
    exact hP
  | rest b =>
    obtain rfl := Except.ok.inj h
    exact hrest b rfl

/-- A call publishes its messages, and leaves those that are pending. -/
theorem apply_queue {k : Call} (hrest : ∀ b, k ≠ .rest b) {a a' : App} (hq : a.queue.Sound)
    (h : k.apply pl a = .ok a') :
    a'.queue.Sound ∧ pendingMsgs a'.queue =
      (pendingMsgs a.queue ++ List.replicate k.reboots rebootMsg).take msgMaxLen := by
  have hlen := pendingMsgs_le hq
  cases k with
  | config ps nCfg =>
    rw [(configCall_cases h).1]
    refine ⟨hq, ?_⟩
    show _ = (pendingMsgs a.queue ++ []).take msgMaxLen
    rw [List.append_nil, List.take_of_length_le hlen]
  | reboot =>
    obtain rfl := Except.ok.inj h
    refine ⟨sound_publishMsg hq _, (pendingMsgs_publishMsg hq _).trans ?_⟩
    show _ = (pendingMsgs a.queue ++ [rebootMsg]).take msgMaxLen
    by_cases hroom : a.queue.nMsg < msgMaxLen
    · rw [if_pos hroom, List.take_of_length_le]
      rw [List.length_append, length_pendingMsgs]
      exact hroom
    · rw [if_neg hroom, List.take_append_of_le_length (by rw [length_pendingMsgs]; omega), List.take_of_length_le hlen]
  | rest b => exact absurd rfl (hrest b)

/-- The messages of the calls, one after the other. -/
theorem take_reboots : ∀ (ks : List Call) (ms : List MsgBody), ks.foldl
    (fun ms k => (ms ++ List.replicate (Call.reboots k) rebootMsg).take msgMaxLen) (ms.take msgMaxLen) =
      (ms ++ List.replicate (ks.map Call.reboots).sum rebootMsg).take msgMaxLen
  | [], ms => by simp
  | k :: ks, ms => by
    have htake : (ms.take msgMaxLen ++ List.replicate k.reboots rebootMsg).take msgMaxLen =
        (ms ++ List.replicate k.reboots rebootMsg).take msgMaxLen := by
      rw [List.take_append, List.take_append, List.take_take, Nat.min_self, List.length_take]
      congr 2
      omega
    rw [List.foldl_cons, htake, take_reboots ks, List.append_assoc, List.replicate_append_replicate, List.map_cons,
      List.sum_cons]

/-! ### Runs -/

section Runs

variable {fsRoot : List FsdataFile} {as : List (Event (Site T))} {w : Site T} {fs : FsMemory} {s : Server (Site T)}
  {o : List Buffer} (hbody : ∀ f ∈ fsRoot, HasBody f) (hfree : ∀ i, (fs i).inuse = false)
include hbody hfree

/-- What a run from the start does to the application. -/
theorem calls_ok (hr : run (step (siteEnv pl) fsRoot) (Server.init w fs) as = .ok (s, o)) :
    (calls pl fsRoot (Server.init w fs) as).foldlM (Call.apply pl) w.app = .ok s.world.app := by
  have h := run_calls hbody as (init_inv (siteEnv pl) fsRoot w hfree)
  rw [hr] at h
  exact h.symm

omit hbody hfree in
theorem calls_append {pre post : List (Event (Site T))} {s s' : Server (Site T)} {o : List Buffer}
    (hr : run (step (siteEnv pl) fsRoot) s pre = .ok (s', o)) :
    calls pl fsRoot s (pre ++ post) = calls pl fsRoot s pre ++ calls pl fsRoot s' post := trace_append pre post hr

/-- **The server and its handlers.** From the start, a run of any callbacks on any connections is, to the
application, the calls of the handlers for the requests that are completed, one after the other, and it
faults exactly if one of these does. -/
theorem site_calls : (run (step (siteEnv pl) fsRoot) (Server.init w fs) as).map (fun r => r.1.world.app) =
    (calls pl fsRoot (Server.init w fs) as).foldlM (Call.apply pl) w.app :=
  run_calls hbody as (init_inv (siteEnv pl) fsRoot w hfree)

/-- **The configuration** after a run is that of the last request that was accepted, and if the flash
works any boot loads it. -/
theorem site_config (hr : run (step (siteEnv pl) fsRoot) (Server.init w fs) as = .ok (s, o)) :
    getConfig s.world.app.web.store =
        (calls pl fsRoot (Server.init w fs) as).foldl (Call.cfg pl) (getConfig w.app.web.store) ∧
      (pl.out = allComplete → Persists w.app.web.store → (∀ v, .world v ∈ as → Persists v.app.web.store) →
        Persists s.world.app.web.store) := by
  have h := calls_ok hbody hfree hr
  refine ⟨?_, fun hflash hP hrest => ?_⟩
  · exact (foldlM_shows (P := fun _ => True) (f := fun a : App => getConfig a.web.store)
      (fun k _ y y' _ hk => ⟨trivial, apply_cfg hk⟩) trivial h).2
  · refine (foldlM_shows (P := fun a : App => Persists a.web.store) (f := fun _ => ()) (g := fun _ _ => ())
      (fun k hk y y' hy happ => ⟨apply_persists hflash (fun b hb => ?_) hy happ, rfl⟩) hP h).1
    obtain ⟨e, he, s', hcall⟩ := mem_trace hk
    obtain ⟨v, rfl, rfl⟩ := callAt_rest (hcall.trans (congrArg some hb))
    exact hrest v he

/-- **Reboots.** If only requests are made, each for `/reboot.cgi` leaves its message, up to the capacity
of the queue, behind those that are pending. -/
theorem reboots_pending (hq : w.app.queue.Sound) (honly : ∀ e ∈ as, e.pcb ≠ none)
    (hr : run (step (siteEnv pl) fsRoot) (Server.init w fs) as = .ok (s, o)) :
    pendingMsgs s.world.app.queue = (pendingMsgs w.app.queue ++ List.replicate
      ((calls pl fsRoot (Server.init w fs) as).map Call.reboots).sum rebootMsg).take msgMaxLen := by
  have h := foldlM_shows (P := fun a : App => a.queue.Sound) (f := fun a => pendingMsgs a.queue)
    (g := fun ms k => (ms ++ List.replicate (Call.reboots k) rebootMsg).take msgMaxLen)
    (fun k hk y y' hy happ => ?_) hq (calls_ok hbody hfree hr)
  · rw [h.2, ← take_reboots, List.take_of_length_le (pendingMsgs_le hq)]
  · refine apply_queue (fun b hb => ?_) hy happ
    obtain ⟨e, he, s', hcall⟩ := mem_trace hk
    obtain ⟨v, rfl, -⟩ := callAt_rest (hcall.trans (congrArg some hb))
    exact honly _ he rfl

end Runs

/-! ### Requests to the small site -/

theorem page_body : ∀ f ∈ [pageFile], HasBody f := by
  intro f hf
  obtain rfl := List.mem_singleton.mp hf
  have hnone : strnstr (crlf ++ crlf) pageFile.data pageFile.data.length = none := by decide
  refine ⟨by decide, fun k hk => ?_⟩
  rw [hnone] at hk
  cases hk

/-- Runs of the small site. -/
def smallRun : List (Event (Site Unit)) → Except Fault (Server (Site Unit) × List Buffer) :=
  run (step (siteEnv smallPlatform) [pageFile]) (Server.init smallSite noFiles)

/-- A client of the small site is there. -/
def smallClient : Server (Site Unit) := httpAccept (siteEnv smallPlatform) (Server.init smallSite noFiles) 0

/-- The first request of a client calls the handler for its URI. -/
theorem callAt_first {s : Server (Site Unit)} {c : ℕ} (hc : s.conns c = .active .init) {req : List (List UInt8)}
    {uri : List UInt8} (hline : parseLine (requestData req) = .get uri false) :
    callAt smallPlatform s (.recv c (some req) .ok) =
      (handlerOf (siteEnv smallPlatform c) uri).map (Call.of smallPlatform s.world.tcp) := by
  have hidle : HttpState.init.handle.isNone = true := rfl
  have hreq : HttpState.init.req ++ req = req := rfl
  show (calledFor (siteEnv smallPlatform c) req (s.conns c)).map _ = _
  rw [hc, calledFor, if_pos hidle, hreq, hline]

theorem reboot_called {s : Server (Site Unit)} (hc : s.conns 0 = .active .init) :
    callAt smallPlatform s (.recv 0 (some rebootRequest) .ok) = some .reboot := by
  have hline : parseLine (requestData rebootRequest) = .get rebootCgi false := by decide
  exact callAt_first hc hline

theorem rebootEvents_calls :
    calls smallPlatform [pageFile] (Server.init smallSite noFiles) rebootEvents = [.reboot] := by
  show [] ++ trace _ _ smallClient [_] = _
  rw [trace_singleton, reboot_called rfl]
  rfl

theorem reboot_run : ∃ s o, smallRun rebootEvents = .ok (s, o) := by
  refine site_runs page_body (init_inv (siteEnv smallPlatform) [pageFile] smallSite noFiles_free)
    ⟨rebootHandler smallSite.app, ?_⟩
  rw [rebootEvents_calls]
  rfl

theorem site_calls_small : (smallRun rebootEvents).map (fun r => r.1.world.app) =
    .ok (rebootHandler smallSite.app) := by
  refine (site_calls page_body noFiles_free).trans ?_
  rw [rebootEvents_calls]
  rfl

theorem reboots_pending_small : ∃ s o, smallRun rebootEvents = .ok (s, o) ∧
    pendingMsgs s.world.app.queue = [rebootMsg] := by
  obtain ⟨s, o, hr⟩ := reboot_run
  refine ⟨s, o, hr, ?_⟩
  rw [reboots_pending page_body noFiles_free ⟨Nat.zero_le _, rfl⟩ (by simp [rebootEvents, Event.pcb]) hr,
    rebootEvents_calls]
  rfl

/-! ### Forms of two clients -/

/-- The small site with a configuration. -/
def bootedSite (store : Store) : Site Unit := smallSite.setApp ⟨⟨store, 0⟩, smallSite.app.queue⟩

def getUri (uri : String) : List (List UInt8) := [text "GET ", text uri, text " HTTP/1.0\r\n"]

/-- The URI is that of a request for `/config.cgi` with these parameters. -/
structure Configures (uri : String) (ps : List Param) : Prop where
  line : parseLine (requestData (getUri uri)) = .get (text uri) false
  params : (handlerOf (siteEnv smallPlatform 0) (text uri)).map (Call.of smallPlatform ()) = some (.config ps 0)

def portsUri : String := "/config.cgi?rport=7&lport=5"

def ports : List Param := [⟨"rport".toList, some "7".toList⟩, ⟨"lport".toList, some "5".toList⟩]

theorem ports_configures : Configures portsUri ports := ⟨by decide +kernel, rfl⟩

/-- The period is no number. -/
def refusedUri : String := "/config.cgi?cycle=x"

def badPeriod : List Param := [⟨"cycle".toList, some "x".toList⟩]

theorem refused_configures : Configures refusedUri badPeriod := ⟨by decide +kernel, rfl⟩

/-- Two clients are there, and one after the other makes a request. -/
def twoForms (uri : String) : List (Event (Site Unit)) :=
  [.accept 0, .accept 1, .recv 0 (some (getUri portsUri)) .ok, .recv 1 (some (getUri uri)) .ok]

def formsRun (store : Store) (uri : String) : Except Fault (Server (Site Unit) × List Buffer) :=
  run (step (siteEnv smallPlatform) [pageFile]) (Server.init (bootedSite store) noFiles) (twoForms uri)

theorem ports_done : (configLoop (fun _ _ => 0) ports parameters ⟨0, []⟩).1 = .done := by decide +kernel

theorem ports_returns (a : App) : ∃ a', Call.apply smallPlatform a (.config ports 0) = .ok a' := by
  refine (apply_returns a _).mpr fun hnull => ?_
  have hend := (configLoop_null_iff parameters ⟨0, []⟩).mpr hnull
  exact End.noConfusion (hend.symm.trans ports_done)

theorem twoForms_calls (store : Store) {uri : String} {ps : List Param} (h : Configures uri ps) :
    calls smallPlatform [pageFile] (Server.init (bootedSite store) noFiles) (twoForms uri) =
      [.config ports 0, .config ps 0] := by
  obtain ⟨s, hrun, hclients⟩ : ∃ s, run (step (siteEnv smallPlatform) [pageFile])
      (Server.init (bootedSite store) noFiles) [.accept 0, .accept 1] = .ok (s, []) ∧
      ∀ c, c = 0 ∨ c = 1 → s.conns c = .active .init :=
    ⟨_, rfl, fun c hc => by rcases hc with rfl | rfl <;> rfl⟩
  have hinv := run_inv page_body [.accept 0, .accept 1] (init_inv _ _ _ noFiles_free) hrun
  have hcall : callAt smallPlatform s (.recv 0 (some (getUri portsUri)) .ok) = some (.config ports 0) :=
    (callAt_first (hclients 0 (.inl rfl)) ports_configures.line).trans ports_configures.params
  have hcalls : calls smallPlatform [pageFile] s [.recv 0 (some (getUri portsUri)) .ok] = [.config ports 0] := by
    rw [calls, trace_singleton, hcall]
    rfl
  obtain ⟨a, ha⟩ := ports_returns s.world.app
  obtain ⟨s₁, o₁, hstep⟩ := site_runs page_body hinv ⟨a, by rw [hcalls]; exact (bind_pure _).trans ha⟩
  have hch := (step_ok page_body hinv ((run_singleton s _).symm.trans hstep)).2 1
  have hother : s₁.conns 1 = .active .init := (hch.other (fun h => by cases h) (hclients 1 (.inr rfl))).1
  have hcall₁ : callAt smallPlatform s₁ (.recv 1 (some (getUri uri)) .ok) = some (.config ps 0) :=
    (callAt_first hother h.line).trans h.params
  have hcalls₁ : calls smallPlatform [pageFile] s₁ [.recv 1 (some (getUri uri)) .ok] = [.config ps 0] := by
    rw [calls, trace_singleton, hcall₁]
    rfl
  have hsplit : twoForms uri = [.accept 0, .accept 1] ++
    ([.recv 0 (some (getUri portsUri)) .ok] ++ [.recv 1 (some (getUri uri)) .ok]) := rfl
  rw [hsplit, calls_append hrun, calls_append hstep, hcalls, hcalls₁]
  rfl

theorem badPeriod_rejected : (configLoop (fun _ _ => 0) badPeriod parameters ⟨0, []⟩).1 = .reject 8 := by
  decide +kernel

theorem refused_safe : ∀ k ∈ [Call.config ports 0, .config badPeriod 0], ¬ k.Null smallPlatform := by
  have hends : ∀ {ps : List Param}, (configLoop (fun _ _ => 0) ps parameters ⟨0, []⟩).1 ≠ .null →
      ¬ (Call.config ps 0).Null smallPlatform := fun h hnull => h ((configLoop_null_iff parameters _).mpr hnull)
  rw [List.forall_mem_cons, List.forall_mem_singleton]
  exact ⟨hends (ports_done ▸ End.noConfusion), hends (badPeriod_rejected ▸ End.noConfusion)⟩

/-- The small site boots with an erased record. -/
theorem smallSite_boots : ∃ f, prepareConfig allComplete smallSite.app.web.store = some ⟨defaults, f⟩ := by
  have hempty : ¬ Stored smallSite.app.web.store.flash.mem := fun h => by
    have hheader : (0xFF : UInt8) = 0xaa := h.1
    exact absurd hheader (by decide)
  obtain ⟨f, hboot, -⟩ := prepareConfig_defaults hempty
  exact ⟨f, hboot⟩

/-- From a boot on, a form that is accepted and one that is refused. -/
theorem site_config_small : ∃ store s o, prepareConfig allComplete smallSite.app.web.store = some store ∧
    formsRun store refusedUri = .ok (s, o) ∧ SysConfig.listenPort (getConfig s.world.app.web.store) = 5 ∧
    SysConfig.remotePort (getConfig s.world.app.web.store) = 7 ∧ Persists s.world.app.web.store := by
  obtain ⟨f, hboot⟩ := smallSite_boots
  obtain ⟨s, o, hr⟩ : ∃ s o, formsRun ⟨defaults, f⟩ refusedUri = .ok (s, o) := by
    refine site_runs page_body (init_inv _ _ _ noFiles_free) ?_
    rw [twoForms_calls _ refused_configures]
    exact (foldlM_returns apply_returns _ _).mpr refused_safe
  obtain ⟨hcfg, hpersists⟩ := site_config page_body noFiles_free hr
  have hports : getConfig s.world.app.web.store =
      withHeader (configLoop (fun _ _ => 0) ports parameters ⟨0, []⟩).2.nCfg := by
    have hbad : (configLoop smallPlatform.ovf badPeriod parameters ⟨0, []⟩).1 ≠ .done := fun h =>
      End.noConfusion (badPeriod_rejected.symm.trans h)
    rw [hcfg, twoForms_calls _ refused_configures, List.foldl_cons, List.foldl_cons, List.foldl_nil,
      cfg_of_refused hbad]
    exact cfg_of_done ports_done _
  refine ⟨_, s, o, hboot, hr, ?_, ?_, hpersists rfl (persists_boot hboot) fun v hv => ?_⟩
  · rw [hports]
    decide +kernel
  · rw [hports]
    decide +kernel
  · simp [twoForms] at hv

end Httpd
end Serial2Ethernet
