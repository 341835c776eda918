/-
# The site of the device

The server with the tags and handlers of the configuration page. The handlers
work on the configuration, on `status_index` and on the message queue; TCP and
the heap work on a state of their own. So a run of the server does to the
former what the handlers do that it calls, in the order in which the requests
are complete, however TCP cuts and mixes them (`run_calls`).
-/
import Serial2Ethernet.Lib.Trace
import Serial2Ethernet.System.MsgInterface
import Serial2Ethernet.Http.Calls
import Serial2Ethernet.Http.Update

namespace Serial2Ethernet
namespace Httpd

open Lib Fs Ssi Config Flash CgiSsi MsgInterface

/-! ### The texts of the source -/

/-- The characters of the source that are no ASCII characters, in its encoding. -/
def gbkTable : List (Char × List UInt8) :=
  [ ('本', [0xB1, 0xBE]), ('地', [0xB5, 0xD8]), ('配', [0xC5, 0xE4]), ('置', [0xD6, 0xC3]),
    ('错', [0xB4, 0xED]), ('误', [0xCE, 0xF3]), ('子', [0xD7, 0xD3]), ('网', [0xCD, 0xF8]),
    ('掩', [0xD1, 0xDA]), ('码', [0xC2, 0xEB]), ('监', [0xBC, 0xE0]), ('听', [0xCC, 0xFD]),
    ('端', [0xB6, 0xCB]), ('口', [0xBF, 0xDA]), ('上', [0xC9, 0xCF]), ('报', [0xB1, 0xA8]),
    ('波', [0xB2, 0xA8]), ('特', [0xCC, 0xD8]), ('率', [0xC2, 0xCA]), ('校', [0xD0, 0xA3]),
    ('验', [0xD1, 0xE9]), ('轮', [0xC2, 0xD6]), ('询', [0xD1, 0xAF]), ('周', [0xD6, 0xDC]),
    ('期', [0xC6, 0xDA]), ('成', [0xB3, 0xC9]), ('功', [0xB9, 0xA6]), ('，', [0xA3, 0xAC]),
    ('重', [0xD6, 0xD8]), ('启', [0xC6, 0xF4]), ('后', [0xBA, 0xF3]), ('生', [0xC9, 0xFA]),
    ('效', [0xD0, 0xA7]), ('正', [0xD5, 0xFD]), ('在', [0xD4, 0xDA]) ]

/-- The bytes of a text of the source. -/
def gbk (s : List Char) : List UInt8 := s.flatMap fun c => (gbkTable.lookup c).getD [UInt8.ofNat c.toNat]

/-! ### The application -/

/-- What the handlers work on. -/
structure App where
  web : Web
  queue : Queue

/-- The reboot signal. -/
def rebootMsg : MsgBody := ⟨msgConfigApply, 0⟩

/-- Apply configuration by reboot. -/
def applyConfig (q : Queue) : Queue := (publishMsg rebootMsg q).2

/-- The application, and the state of TCP and the heap. -/
structure Site (T : Type) where
  app : App
  tcp : T

/-- What the application runs on: TCP on each connection, the heap, the flash, the C library, and what
`n_cfg` holds at first on the stack. -/
structure Platform (T : Type) where
  tcpSndbuf : (pcb : ℕ) → T → ℕ
  tcpMss : (pcb : ℕ) → T → ℕ
  queueFull : (pcb : ℕ) → T → Bool
  tcpWrite : (pcb : ℕ) → T → (ptr : List UInt8) → (copy : Bool) → Err × T
  tcpClose : (pcb : ℕ) → T → Err × T
  memMalloc : T → (size : ℕ) → Bool × T
  httpStateSize : ℕ
  nCfg : T → SysConfig
  ovf : Overflow
  out : Outcomes

variable {T : Type}

def Site.setTcp (w : Site T) (tcp : T) : Site T := { w with tcp }

def Site.setApp (w : Site T) (app : App) : Site T := { w with app }

def configCgi : List UInt8 := text "/config.cgi"

def rebootCgi : List UInt8 := text "/reboot.cgi"

section Handlers

variable (pl : Platform T)

/-- `Config_Handler`. The write to flash always ends (`store_returns`). -/
def configCall (ps : List Param) (nCfg : SysConfig) (a : App) : Except Fault App :=
  (configHandler pl.ovf ps pl.out nCfg a.web).map fun r => { a with web := (r.map Prod.snd).getD a.web }

/-- Handler to reboot. -/
def rebootHandler (a : App) : App := ⟨{ a.web with statusIndex := 10 }, applyConfig a.queue⟩

/-- Both handlers answer with the same page. -/
def ppcURLs : List (Cgi (Site T)) :=
  [ ⟨configCgi, fun w ps => (configCall pl ps (pl.nCfg w.tcp) w.app).map fun a => (text configShtml, w.setApp a)⟩,
    ⟨rebootCgi, fun w _ => .ok (text configShtml, w.setApp (rebootHandler w.app))⟩ ]

/-- The server of the device, on a connection. -/
def siteEnv (pcb : ℕ) : Env (Site T) where
  tcpSndbuf w := pl.tcpSndbuf pcb w.tcp
  tcpMss w := pl.tcpMss pcb w.tcp
  queueFull w := pl.queueFull pcb w.tcp
  tcpWrite w ptr copy := ((pl.tcpWrite pcb w.tcp ptr copy).1, w.setTcp (pl.tcpWrite pcb w.tcp ptr copy).2)
  tcpClose w := ((pl.tcpClose pcb w.tcp).1, w.setTcp (pl.tcpClose pcb w.tcp).2)
  memMalloc w size := ((pl.memMalloc w.tcp size).1, w.setTcp (pl.memMalloc w.tcp size).2)
  gPpcTags := (List.finRange 40).map fun i => text (ppcTAGs i)
  gPfnSSIHandler w iIndex := gbk (ssiHandler (Fin.ofNat 40 iIndex) w.app.web)
  gPCGIs := ppcURLs pl
  httpStateSize := pl.httpStateSize

end Handlers

/-! ### Calls -/

/-- What is done to the application: a handler is called, or the rest of the firmware does something. -/
inductive Call
  | config (ps : List Param) (nCfg : SysConfig)
  | reboot
  | rest (a : App)

section Calls

variable (pl : Platform T)

def Call.apply (a : App) : Call → Except Fault App
  | .config ps nCfg => configCall pl ps nCfg a
  | .reboot => .ok (rebootHandler a)
  | .rest a => .ok a

/-- The call of a handler. -/
def Call.of (tcp : T) (r : Cgi (Site T) × List Param) : Call :=
  if r.1.pcCGIName = configCgi then .config r.2 (pl.nCfg tcp) else .reboot

/-- What an event does to the application. -/
def callAt (s : Server (Site T)) : Event (Site T) → Option Call
  | .world w => some (.rest w.app)
  | e => (called (siteEnv pl) s e).map (Call.of pl s.world.tcp)

/-- What a run of the server does to the application. -/
def calls (fsRoot : List FsdataFile) : Server (Site T) → List (Event (Site T)) → List Call :=
  trace (step (siteEnv pl) fsRoot) (callAt pl)

end Calls

section Runs

variable {pl : Platform T} {fsRoot : List FsdataFile} {s : Server (Site T)}

/-- TCP and the heap leave the application alone. -/
theorem site_keeps (pl : Platform T) (J : App → Prop) (c : ℕ) : (siteEnv pl c).Keeps fun w => J w.app :=
  ⟨fun _ _ _ h => h, fun _ h => h, fun _ _ h => h⟩

theorem mem_ppcURLs {cgi : Cgi (Site T)} (h : cgi ∈ ppcURLs pl) (w : Site T) (ps : List Param) :
    (cgi.pfnCGIHandler w ps).map (fun r => r.2.app) = (Call.of pl w.tcp (cgi, ps)).apply pl w.app := by
  unfold ppcURLs at h
  rw [List.mem_cons, List.mem_singleton] at h
  rcases h with rfl | rfl
  · show _ = configCall pl ps (pl.nCfg w.tcp) w.app
    dsimp only
    cases configCall pl ps (pl.nCfg w.tcp) w.app <;> rfl
  · have hne : rebootCgi ≠ configCgi := by decide
    rw [Call.of, if_neg hne]
    rfl

theorem called_mem {e : Event (Site T)} {r : Cgi (Site T) × List Param} (h : called (siteEnv pl) s e = some r) :
    r.1 ∈ ppcURLs pl := by
  unfold called calledFor handlerOf at h
  split at h
  · split at h
    · split at h
      · split at h
        · split at h
          · cases h
          · obtain ⟨cgi, hcgi, rfl⟩ := Option.map_eq_some_iff.mp h
            exact List.mem_of_find?_eq_some hcgi
        · cases h
      · cases h
    · cases h
  · cases h

/-- The rest of the firmware acts at an event of its own. -/
theorem callAt_rest {e : Event (Site T)} {b : App} (h : callAt pl s e = some (.rest b)) :
    ∃ w, e = .world w ∧ w.app = b := by
  have hnone : (called (siteEnv pl) s e).map (Call.of pl s.world.tcp) ≠ some (.rest b) := by
    intro ho
    obtain ⟨r, -, hr⟩ := Option.map_eq_some_iff.mp ho
    unfold Call.of at hr
    split at hr <;> cases hr
  cases e with
  | world w => exact ⟨w, rfl, Call.rest.inj (Option.some.inj h)⟩
  | _ => exact absurd h hnone

theorem acted_app (s : Server (Site T)) (e : Event (Site T)) :
    (acted (siteEnv pl) s e).map Site.app = applyCall (Call.apply pl) s.world.app (callAt pl s e) := by
  have hcalled : (answer s.world (called (siteEnv pl) s e)).map Site.app =
      applyCall (Call.apply pl) s.world.app ((called (siteEnv pl) s e).map (Call.of pl s.world.tcp)) := by
    cases hc : called (siteEnv pl) s e with
    | none => rfl
    | some r =>
      refine Eq.trans ?_ (mem_ppcURLs (called_mem hc) s.world r.2)
      show ((r.1.pfnCGIHandler s.world r.2).map Prod.snd).map Site.app = _
      cases r.1.pfnCGIHandler s.world r.2 <;> rfl
  cases e with
  | world w => rfl
  | _ => exact hcalled

/-- **A run of the server**, to the application, is the calls of its handlers, one after the other in the
order in which their requests are complete; it faults exactly if one of these does. -/
theorem run_calls (hbody : ∀ f ∈ fsRoot, HasBody f) (as : List (Event (Site T)))
    (h : ServerInv (siteEnv pl) fsRoot s) :
    (run (step (siteEnv pl) fsRoot) s as).map (fun r => r.1.world.app) =
      (calls pl fsRoot s as).foldlM (Call.apply pl) s.world.app := by
  have hacts : ActsOn (step (siteEnv pl) fsRoot) (callAt pl) (Call.apply pl) (fun s => s.world.app)
      (ServerInv (siteEnv pl) fsRoot) := by
    intro s e hs
    rw [← acted_app]
    cases hstep : step (siteEnv pl) fsRoot s e with
    | error f =>
      rw [acted_of_fault hbody hs hstep]
      rfl
    | ok r =>
      obtain ⟨s', o⟩ := r
      obtain ⟨w, hw, hkeep⟩ := step_acted (J := fun _ => True) (fun c => .of_true _) hstep
      have happ : s'.world.app = w.app := by
        obtain ⟨w', hw', happ⟩ := step_acted (fun c => site_keeps pl (· = w.app) c) hstep
        obtain rfl := Except.ok.inj (hw.symm.trans hw')
        exact happ rfl
      rw [hw]
      exact congrArg Except.ok happ
  exact run_trace (fun s e s' o hs hstep => (step_ok hbody hs hstep).1) hacts as h

/-- As long as no handler faults, the server runs. -/
theorem site_runs (hbody : ∀ f ∈ fsRoot, HasBody f) {as : List (Event (Site T))} (h : ServerInv (siteEnv pl) fsRoot s)
    (hcalls : ∃ a, (calls pl fsRoot s as).foldlM (Call.apply pl) s.world.app = .ok a) :
    ∃ s' o, run (step (siteEnv pl) fsRoot) s as = .ok (s', o) := by
  obtain ⟨a, ha⟩ := hcalls
  rw [← run_calls hbody as h] at ha
  obtain ⟨⟨s', o⟩, hr, -⟩ := map_ok_iff.mp ha
  exact ⟨s', o, hr⟩

end Runs

/-! ### A small site -/

/-- TCP that takes all it is given, a flash that works, and a cleared stack. -/
def smallPlatform : Platform Unit where
  tcpSndbuf _ _ := 2920
  tcpMss _ _ := 1460
  queueFull _ _ := false
  tcpWrite _ _ _ _ := (.ok, ())
  tcpClose _ _ := (.ok, ())
  memMalloc _ _ := (true, ())
  httpStateSize := 0
  nCfg _ _ := 0
  ovf _ _ := 0
  out := allComplete

/-- A page with two of the tags. -/
def pageFile : FsdataFile := ⟨text configShtml, text "<!--#lport--><!--#status-->.", false⟩

/-- The site at its start, with no message pending. -/
def smallSite : Site Unit := ⟨⟨⟨⟨defaults, ⟨fun _ => 0xFF, 0⟩⟩, 0⟩, ⟨fun _ => ⟨0, 0⟩, 0, 0, 0⟩⟩, ()⟩

def rebootRequest : List (List UInt8) := [text "GET /reboot.cgi HTTP/1.0\r\n"]

/-- A client reboots the device. -/
def rebootEvents : List (Event (Site Unit)) := [.accept 0, .recv 0 (some rebootRequest) .ok]

end Httpd
end Serial2Ethernet
