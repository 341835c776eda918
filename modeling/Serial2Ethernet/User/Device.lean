/-
# The device

The server and the main loop, on one message queue and one configuration. The
callbacks of TCP, the interrupts of the console, of the timer and of the key, and
the turns of the main loop come in any order (`step`), call by call.

Messages are put behind those that are pending, and only turns of the main loop
take them, the first one first. So a request for `/reboot.cgi` for which the
queue has room resets the board, at the latest with the turn behind as many as
there are messages before it, whatever happens meanwhile (`reboot_resets`). As
long as the flash works, what the device starts with then is the configuration
it has now (`device_persists`).
-/
import Serial2Ethernet.System.MsgFifo
import Serial2Ethernet.Http.Requests
import Serial2Ethernet.User.Main

namespace Serial2Ethernet
namespace Main

open Lib MsgInterface MsgHandlers

/-! ### Turns of the main loop -/

def Act.isTurn : Act → Bool
  | .processMsg _ => true
  | _ => false

section Turns

variable {q : Queue} {f f' : Firmware} {a : Act} {m : MsgBody} {ms : List MsgBody} {o : List Call}

theorem prefix_publishMsg (h : q.Sound) (m : MsgBody) : pendingMsgs q <+: pendingMsgs (publishMsg m q).2 := by
  rw [pendingMsgs_publishMsg h m]
  split
  · exact List.prefix_append _ _
  · exact List.prefix_refl _

theorem prefix_publishAll (ms : List MsgBody) (h : q.Sound) : pendingMsgs q <+: pendingMsgs (publishAll ms q) := by
  induction ms generalizing q with
  | nil => exact List.prefix_refl _
  | cons m ms ih => exact (prefix_publishMsg h m).trans (ih (sound_publishMsg h m))

/-- The first message that is pending is the next one. -/
theorem getNextMsg_first (hp : pendingMsgs q = m :: ms) :
    (getNextMsg q).1 = some m ∧ pendingMsgs (getNextMsg q).2 = ms := by
  have htaken := pendingMsgs_getNextMsg q
  cases hnext : (getNextMsg q).1 with
  | none =>
    have hlen := length_pendingMsgs q
    rw [hp, (getNextMsg_eq_none q).mp hnext] at hlen
    cases hlen
  | some m' =>
    rw [hnext, hp] at htaken
    obtain ⟨rfl, hrest⟩ := List.cons.inj htaken
    exact ⟨rfl, hrest.symm⟩

theorem sound_processMsg (h : f.queue.Sound) (reg29 : UInt16) : (processMsg reg29 f).1.queue.Sound := by
  have hq := sound_getNextMsg h
  unfold processMsg
  rcases hnext : getNextMsg f.queue with ⟨m | m, q⟩
  · rwa [hnext] at hq
  · rw [hnext] at hq
    dsimp only
    split_ifs
    · exact hq
    · exact sound_publishAll _ hq
    · exact hq
    · exact hq
    · exact hq

/-- A turn takes the first message, and what it publishes is put behind the others. -/
theorem processMsg_takes (h : f.queue.Sound) (hp : pendingMsgs f.queue = m :: ms) (reg29 : UInt16) :
    ms <+: pendingMsgs (processMsg reg29 f).1.queue := by
  have hq := sound_getNextMsg h
  obtain ⟨hfirst, rfl⟩ := getNextMsg_first hp
  unfold processMsg
  rcases hnext : getNextMsg f.queue with ⟨m | m', q⟩
  · simp [hnext] at hfirst
  · rw [hnext] at hq
    dsimp only
    split_ifs
    · exact List.prefix_refl _
    · exact prefix_publishAll _ hq
    · exact List.prefix_refl _
    · exact List.prefix_refl _
    · exact List.prefix_refl _

/-- The turn for `MSG_CONFIG_APPLY`. -/
theorem processMsg_reset (hp : pendingMsgs f.queue = Httpd.rebootMsg :: ms) (reg29 : UInt16) :
    (processMsg reg29 f).2 = .blink :: resetPulse := by
  obtain ⟨hfirst, -⟩ := getNextMsg_first hp
  unfold processMsg
  rcases hnext : getNextMsg f.queue with ⟨m | m, q⟩
  · rw [hnext] at hfirst
    cases hfirst
  · rw [hnext] at hfirst
    obtain rfl := Option.some.inj hfirst
    rfl

/-- What is no turn takes no message. -/
theorem step_publishes (h : f.queue.Sound) (ha : a.isTurn = false) (hs : step f a = .ok (f', o)) :
    f'.queue.Sound ∧ pendingMsgs f.queue <+: pendingMsgs f'.queue := by
  cases a with
  | usart3 res =>
    obtain ⟨r, -, hr⟩ := map_ok_iff.mp hs
    obtain ⟨rfl, -⟩ := Prod.mk.inj hr
    exact ⟨sound_publishAll _ h, prefix_publishAll _ h⟩
  | tim3 =>
    obtain ⟨r, -, hr⟩ := map_ok_iff.mp hs
    obtain ⟨rfl, -⟩ := Prod.mk.inj hr
    exact ⟨sound_publishAll _ h, prefix_publishAll _ h⟩
  | configApply =>
    obtain ⟨rfl, -⟩ := Prod.mk.inj (Except.ok.inj hs)
    exact ⟨sound_publishMsg h _, prefix_publishMsg h _⟩
  | processMsg reg29 => cases ha

end Turns

end Main

namespace Device

open Lib Fs MsgInterface Httpd Config Flash CgiSsi

variable {T : Type}

/-- The server with the application, and the rest of the firmware. The queue is that of the application. -/
structure State (T : Type) where
  server : Server (Site T)
  main : Main.Firmware

/-- What happens to the device. -/
inductive Act (T : Type)
  /-- A callback of TCP. -/
  | http (e : Event (Site T)) (callback : e.pcb ≠ none)
  /-- TCP and the heap go on. -/
  | tcp (tcp : T)
  /-- The key is pressed. -/
  | key
  /-- An interrupt of the console or of the timer, or a turn of the main loop. -/
  | main (a : Main.Act) (noKey : a ≠ .configApply)

def State.queue (d : State T) : Queue := d.server.world.app.queue

def State.firmware (d : State T) : Main.Firmware := { d.main with queue := d.queue }

def State.setWorld (d : State T) (w : Site T) : State T := { d with server := { d.server with world := w } }

def State.setFirmware (d : State T) (f : Main.Firmware) : State T :=
  { d.setWorld (d.server.world.setApp { d.server.world.app with queue := f.queue }) with main := f }

/-- `EXTI9_5_IRQHandler`. The write to flash always ends (`store_returns`). -/
def extiHandler (pl : Platform T) (a : App) : App :=
  ⟨{ a.web with store := (defaultConfig pl.out a.web.store).getD a.web.store }, applyConfig a.queue⟩

def step (pl : Platform T) (fsRoot : List FsdataFile) (d : State T) : Act T → Except Fault (State T × List Main.Call)
  | .http e _ => (Httpd.step (siteEnv pl) fsRoot d.server e).map fun r => ({ d with server := r.1 }, [])
  | .tcp tcp => .ok (d.setWorld (d.server.world.setTcp tcp), [])
  | .key => .ok (d.setWorld (d.server.world.setApp (extiHandler pl d.server.world.app)), [])
  | .main a _ => (Main.step d.firmware a).map fun r => (d.setFirmware r.1, r.2)

/-- A turn of the main loop. -/
def Act.isTurn : Act T → Bool
  | .main a _ => a.isTurn
  | _ => false

def turns (as : List (Act T)) : ℕ := as.countP Act.isTurn

section Steps

variable {pl : Platform T} {fsRoot : List FsdataFile} {d d' d₁ : State T} {a : Act T} {o o' : List Main.Call}
  {m : MsgBody} {ms : List MsgBody}

structure Inv (pl : Platform T) (fsRoot : List FsdataFile) (d : State T) : Prop where
  server : ServerInv (siteEnv pl) fsRoot d.server
  queue : d.queue.Sound

theorem eq_of_isTurn (h : a.isTurn = true) : ∃ reg29 hne, a = .main (.processMsg reg29) hne := by
  cases a with
  | main a hne => cases a with
    | processMsg reg29 => exact ⟨reg29, hne, rfl⟩
    | _ => cases h
  | _ => cases h

variable (hbody : ∀ f ∈ fsRoot, HasBody f)
include hbody

/-- What a callback does to the application: a handler is called, or nothing. -/
theorem http_app (h : Inv pl fsRoot d) {e : Event (Site T)} (he : e.pcb ≠ none) {s' : Server (Site T)}
    {bs : List Buffer} (hs : Httpd.step (siteEnv pl) fsRoot d.server e = .ok (s', bs)) :
    (callAt pl d.server e = none ∧ s'.world.app = d.server.world.app) ∨
      ∃ k, callAt pl d.server e = some k ∧ (∀ b, k ≠ .rest b) ∧ k.apply pl d.server.world.app = .ok s'.world.app := by
  have hr : run (Httpd.step (siteEnv pl) fsRoot) d.server [e] = .ok (s', bs ++ []) :=
    run_cons_ok.mpr ⟨s', bs, [], hs, rfl, rfl⟩
  have hcalls := run_calls hbody [e] h.server
  rw [hr, calls, trace_singleton] at hcalls
  cases hcall : callAt pl d.server e with
  | none =>
    rw [hcall] at hcalls
    exact .inl ⟨rfl, Except.ok.inj hcalls⟩
  | some k =>
    refine .inr ⟨k, rfl, ?_, ?_⟩
    · rintro b rfl
      obtain ⟨w, rfl, -⟩ := callAt_rest hcall
      exact he rfl
    · rw [hcall, Option.toList_some, List.foldlM_cons] at hcalls
      cases hk : k.apply pl d.server.world.app with
      | error f =>
        rw [hk] at hcalls
        cases hcalls
      | ok a' =>
        rw [hk] at hcalls
        exact hcalls.symm

/-- What a callback does to the queue: it is what the handler does that is called. -/
theorem http_queue (h : Inv pl fsRoot d) {e : Event (Site T)} (he : e.pcb ≠ none) {s' : Server (Site T)}
    {bs : List Buffer} (hs : Httpd.step (siteEnv pl) fsRoot d.server e = .ok (s', bs)) :
    s'.world.app.queue.Sound ∧ pendingMsgs s'.world.app.queue = (pendingMsgs d.queue ++
      List.replicate ((callAt pl d.server e).elim 0 Httpd.Call.reboots) rebootMsg).take msgMaxLen := by
  rcases http_app hbody h he hs with ⟨hcall, happ⟩ | ⟨k, hcall, hrest, happ⟩
  · rw [hcall, happ]
    refine ⟨h.queue, ?_⟩
    show pendingMsgs d.queue = (pendingMsgs d.queue ++ []).take msgMaxLen
    rw [List.append_nil, List.take_of_length_le (pendingMsgs_le h.queue)]
  · rw [hcall]
    exact apply_queue hrest h.queue happ

theorem setWorld_inv (h : Inv pl fsRoot d) (w : Site T) (hq : w.app.queue.Sound) : Inv pl fsRoot (d.setWorld w) := by
  have hstep : Httpd.step (siteEnv pl) fsRoot d.server (.world w) = .ok ((d.setWorld w).server, []) := rfl
  exact ⟨(step_ok hbody h.server hstep).1, hq⟩

/-- What is no turn takes no message. -/
theorem step_publishes (h : Inv pl fsRoot d) (ha : a.isTurn = false) (hs : step pl fsRoot d a = .ok (d', o)) :
    Inv pl fsRoot d' ∧ pendingMsgs d.queue <+: pendingMsgs d'.queue := by
  cases a with
  | http e he =>
    obtain ⟨⟨s', bs⟩, hstep, hd⟩ := map_ok_iff.mp hs
    obtain ⟨rfl, -⟩ := Prod.mk.inj hd
    obtain ⟨hsound, hpending⟩ := http_queue hbody h he hstep
    refine ⟨⟨(step_ok hbody h.server hstep).1, hsound⟩, ?_⟩
    show _ <+: pendingMsgs s'.world.app.queue
    rw [hpending, List.take_append, List.take_of_length_le (pendingMsgs_le h.queue)]
    exact List.prefix_append _ _
  | tcp tcp =>
    obtain ⟨rfl, -⟩ := Prod.mk.inj (Except.ok.inj hs)
    exact ⟨setWorld_inv hbody h _ h.queue, List.prefix_refl _⟩
  | key =>
    obtain ⟨rfl, -⟩ := Prod.mk.inj (Except.ok.inj hs)
    exact ⟨setWorld_inv hbody h _ (sound_publishMsg h.queue _), Main.prefix_publishMsg h.queue _⟩
  | main a hne =>
    obtain ⟨⟨f', o'⟩, hstep, hd⟩ := map_ok_iff.mp hs
    obtain ⟨rfl, -⟩ := Prod.mk.inj hd
    obtain ⟨hsound, hpre⟩ := Main.step_publishes (f := d.firmware) h.queue ha hstep
    have hinv := setWorld_inv hbody h (d.server.world.setApp { d.server.world.app with queue := f'.queue }) hsound
    exact ⟨⟨hinv.server, hsound⟩, hpre⟩

theorem turn_inv (h : Inv pl fsRoot d) (reg29 : UInt16) :
    Inv pl fsRoot (d.setFirmware (Main.processMsg reg29 d.firmware).1) := by
  have hsound := Main.sound_processMsg (f := d.firmware) h.queue reg29
  have hinv := setWorld_inv hbody h
    (d.server.world.setApp { d.server.world.app with queue := (Main.processMsg reg29 d.firmware).1.queue }) hsound
  exact ⟨hinv.server, hsound⟩

/-- A turn takes the first message, and resets the board if it is `MSG_CONFIG_APPLY`. -/
theorem turn_takes (h : Inv pl fsRoot d) (hp : pendingMsgs d.queue = m :: ms) {reg29 : UInt16} {hne}
    (hs : step pl fsRoot d (.main (.processMsg reg29) hne) = .ok (d', o)) :
    Inv pl fsRoot d' ∧ ms <+: pendingMsgs d'.queue ∧ (m = rebootMsg → o = .blink :: Main.resetPulse) := by
  have hturn : step pl fsRoot d (.main (.processMsg reg29) hne) = .ok
    (d.setFirmware (Main.processMsg reg29 d.firmware).1, (Main.processMsg reg29 d.firmware).2) := rfl
  obtain ⟨rfl, rfl⟩ := Prod.mk.inj (Except.ok.inj (hs.symm.trans hturn))
  refine ⟨turn_inv hbody h reg29, Main.processMsg_takes (f := d.firmware) h.queue hp reg29, ?_⟩
  rintro rfl
  exact Main.processMsg_reset (f := d.firmware) hp reg29

/-- A message to apply the configuration is handled in its turn, whatever is published meanwhile. -/
theorem run_resets : ∀ (as : List (Act T)) {d d' : State T} {o : List Main.Call} {before : List MsgBody},
    Inv pl fsRoot d → before ++ [rebootMsg] <+: pendingMsgs d.queue → before.length < turns as →
    run (step pl fsRoot) d as = .ok (d', o) → (.blink :: Main.resetPulse) <:+: o
  | [], _, _, _, before, _, _, hturns, _ => absurd hturns (Nat.not_lt_zero before.length)
  | a :: as, d, d', o, before, h, hpre, hturns, hr => by
    obtain ⟨d₁, o₁, o₂, hstep, hrest, rfl⟩ := run_cons_ok.mp hr
    by_cases hturn : a.isTurn = true
    · obtain ⟨reg29, hne, rfl⟩ := eq_of_isTurn hturn
      obtain ⟨behind, hpending⟩ := hpre
      cases before with
      | nil =>
        obtain ⟨-, -, hreset⟩ := turn_takes hbody h hpending.symm hstep
        rw [hreset rfl]
        exact (List.prefix_append _ _).isInfix
      | cons m before =>
        obtain ⟨hinv, hkeep, -⟩ := turn_takes hbody h hpending.symm hstep
        have hpre₁ : before ++ [rebootMsg] <+: pendingMsgs d₁.queue := (List.prefix_append _ behind).trans hkeep
        have hturns₁ : before.length < turns as := by
          rw [turns, List.countP_cons_of_pos hturn, List.length_cons] at hturns
          exact Nat.lt_of_succ_lt_succ hturns
        exact (run_resets as hinv hpre₁ hturns₁ hrest).trans (List.suffix_append _ _).isInfix
    · obtain ⟨hinv, hkeep⟩ := step_publishes hbody h (Bool.eq_false_iff.mpr hturn) hstep
      rw [turns, List.countP_cons_of_neg hturn] at hturns
      exact (run_resets as hinv (hpre.trans hkeep) hturns hrest).trans (List.suffix_append _ _).isInfix

theorem step_inv (h : Inv pl fsRoot d) (hs : step pl fsRoot d a = .ok (d', o)) : Inv pl fsRoot d' := by
  by_cases hturn : a.isTurn = true
  · obtain ⟨reg29, hne, rfl⟩ := eq_of_isTurn hturn
    obtain ⟨rfl, -⟩ := Prod.mk.inj (Except.ok.inj hs)
    exact turn_inv hbody h reg29
  · exact (step_publishes hbody h (Bool.eq_false_iff.mpr hturn) hs).1

theorem run_inv (as : List (Act T)) (h : Inv pl fsRoot d) (hr : run (step pl fsRoot) d as = .ok (d', o)) :
    Inv pl fsRoot d' :=
  run_keeps (fun _ _ _ _ hd hstep => step_inv hbody hd hstep) as h hr

/-- **From the request to the reset.** In any run of the device, a request for `/reboot.cgi` that is completed
while there is room in the queue resets the board, no later than with the turn of the main loop behind as
many as there are messages pending, whatever else happens meanwhile. -/
theorem reboot_resets {w : Site T} {fs : FsMemory} (hfree : ∀ i, (fs i).inuse = false) (hq : w.app.queue.Sound)
    {main : Main.Firmware} {pre rest : List (Act T)} {e : Event (Site T)} {he : e.pcb ≠ none} {d₂ : State T}
    {o₁ o₂ : List Main.Call} (hpre : run (step pl fsRoot) ⟨Server.init w fs, main⟩ pre = .ok (d, o))
    (hcall : callAt pl d.server e = some .reboot) (hroom : d.queue.nMsg < msgMaxLen)
    (hstep : step pl fsRoot d (.http e he) = .ok (d₁, o₁)) (hrest : run (step pl fsRoot) d₁ rest = .ok (d₂, o₂))
    (hturns : d.queue.nMsg < turns rest) : (.blink :: Main.resetPulse) <:+: o₂ := by
  have hinit : Inv pl fsRoot ⟨Server.init w fs, main⟩ := ⟨init_inv (siteEnv pl) fsRoot w hfree, hq⟩
  have h := run_inv hbody pre hinit hpre
  obtain ⟨⟨s', bs⟩, hserver, hd⟩ := map_ok_iff.mp hstep
  obtain ⟨rfl, -⟩ := Prod.mk.inj hd
  obtain ⟨-, hpending⟩ := http_queue hbody h he hserver
  have hone : pendingMsgs s'.world.app.queue = pendingMsgs d.queue ++ [rebootMsg] := by
    rw [hpending, hcall]
    refine List.take_of_length_le ?_
    rw [List.length_append, length_pendingMsgs]
    exact hroom
  rw [← length_pendingMsgs] at hturns
  exact run_resets hbody rest (step_inv hbody h hstep) (hone ▸ List.prefix_refl _) hturns hrest

end Steps

/-! ### The configuration -/

section Configuration

variable {pl : Platform T} {fsRoot : List FsdataFile} {d d' : State T} {a : Act T} {o : List Main.Call}

theorem persists_key (hflash : pl.out = allComplete) (a : App) : Persists (extiHandler pl a).web.store := by
  obtain ⟨f, hf⟩ := store_returns pl.out defaults a.web.store
  have hstore : (extiHandler pl a).web.store = ⟨defaults, f⟩ := by
    unfold extiHandler defaultConfig
    rw [hf]
    rfl
  have hheader : Config.store pl.out (withHeader defaults) a.web.store = some ⟨defaults, f⟩ := by
    rwa [defaults_header]
  rw [hstore]
  exact persists_store hflash hheader

variable (hbody : ∀ f ∈ fsRoot, HasBody f)
include hbody

theorem step_persists (hflash : pl.out = allComplete) (h : Inv pl fsRoot d)
    (hP : Persists d.server.world.app.web.store) (hs : step pl fsRoot d a = .ok (d', o)) :
    Persists d'.server.world.app.web.store := by
  cases a with
  | http e he =>
    obtain ⟨⟨s', bs⟩, hstep, hd⟩ := map_ok_iff.mp hs
    obtain ⟨rfl, -⟩ := Prod.mk.inj hd
    rcases http_app hbody h he hstep with ⟨-, happ⟩ | ⟨k, -, hrest, happ⟩
    · show Persists s'.world.app.web.store
      rwa [happ]
    · exact apply_persists hflash (fun b hb => absurd hb (hrest b)) hP happ
  | tcp tcp =>
    obtain ⟨rfl, -⟩ := Prod.mk.inj (Except.ok.inj hs)
    exact hP
  | key =>
    obtain ⟨rfl, -⟩ := Prod.mk.inj (Except.ok.inj hs)
    exact persists_key hflash d.server.world.app
  | main a hne =>
    obtain ⟨r, -, hd⟩ := map_ok_iff.mp hs
    obtain ⟨rfl, -⟩ := Prod.mk.inj hd
    exact hP

/-- **What the device starts with.** From a boot on, in any run of the device, the record in the flash is the
configuration and any boot loads it, if the flash works. -/
theorem device_persists {w : Site T} {fs : FsMemory} (hfree : ∀ i, (fs i).inuse = false) (hq : w.app.queue.Sound)
    (hflash : pl.out = allComplete) {st : Store} (hboot : prepareConfig pl.out st = some w.app.web.store)
    {main : Main.Firmware} {as : List (Act T)}
    (hr : run (step pl fsRoot) ⟨Server.init w fs, main⟩ as = .ok (d, o)) :
    Persists d.server.world.app.web.store := by
  have hinit : Inv pl fsRoot ⟨Server.init w fs, main⟩ := ⟨init_inv (siteEnv pl) fsRoot w hfree, hq⟩
  rw [hflash] at hboot
  have hP : Persists (State.mk (Server.init w fs) main).server.world.app.web.store := persists_boot hboot
  exact (run_keeps (I := fun d => Inv pl fsRoot d ∧ Persists d.server.world.app.web.store)
    (fun _ _ _ _ hd hstep => ⟨step_inv hbody hd.1 hstep, step_persists hbody hflash hd.1 hd.2 hstep⟩)
    as ⟨hinit, hP⟩ hr).2

end Configuration

/-! ### The small site -/

/-- The device with the small site, after `initilize`. -/
def smallDevice : State Unit :=
  ⟨Server.init smallSite noFiles, Main.initilize 1 smallSite.app.queue Main.zeroedTimer⟩

def deviceStep : State Unit → Act Unit → Except Fault (State Unit × List Main.Call) := step smallPlatform [pageFile]

/-- A client comes. -/
def clientAct : Act Unit := .http (.accept 0) (Option.some_ne_none 0)

/-- The client reboots the device. -/
def rebootAct : Act Unit := .http (.recv 0 (some rebootRequest) .ok) (Option.some_ne_none 0)

def turnAct : Act Unit := .main (.processMsg 0) Main.Act.noConfusion

/-- The console gets an empty line. -/
def lineActs : List (Act Unit) :=
  [.main (.usart3 0x0d) Main.Act.noConfusion, .main (.usart3 0x0a) Main.Act.noConfusion]

/-- The messages of two lines are pending when the request comes, and the key is pressed before they are handled. -/
theorem reboot_resets_small : ∃ d d₁ o₁, run deviceStep smallDevice (clientAct :: (lineActs ++ lineActs)) = .ok (d, []) ∧
    pendingMsgs d.queue = [⟨msgConsoleCommand, 0⟩, ⟨msgConsoleCommand, 0⟩] ∧ deviceStep d rebootAct = .ok (d₁, o₁) ∧
    ∃ d₂ o₂, run deviceStep d₁ [turnAct, .key, turnAct, turnAct] = .ok (d₂, o₂) ∧
      (.blink :: Main.resetPulse) <:+: o₂ := by
  obtain ⟨d, hpre, hclient, hpending⟩ : ∃ d, run deviceStep smallDevice (clientAct :: (lineActs ++ lineActs)) =
    .ok (d, []) ∧ d.server.conns 0 = .active .init ∧
      pendingMsgs d.queue = [⟨msgConsoleCommand, 0⟩, ⟨msgConsoleCommand, 0⟩] := ⟨_, rfl, rfl, by decide +kernel⟩
  have hinit : Inv smallPlatform [pageFile] smallDevice :=
    ⟨init_inv (siteEnv smallPlatform) [pageFile] smallSite noFiles_free, ⟨Nat.zero_le _, rfl⟩⟩
  have hinv := run_inv page_body _ hinit hpre
  have hcall : callAt smallPlatform d.server (.recv 0 (some rebootRequest) .ok) = some .reboot :=
    reboot_called hclient
  have hcalls : (calls smallPlatform [pageFile] d.server [.recv 0 (some rebootRequest) .ok]).foldlM
      (Call.apply smallPlatform) d.server.world.app = .ok (rebootHandler d.server.world.app) := by
    rw [calls, trace_singleton, hcall]
    rfl
  obtain ⟨s₁, bs₁, hr⟩ := site_runs page_body hinv.server ⟨_, hcalls⟩
  rw [run_singleton] at hr
  have hstep : deviceStep d rebootAct = .ok ({ d with server := s₁ }, []) := map_ok_iff.mpr ⟨(s₁, bs₁), hr, rfl⟩
  obtain ⟨d₂, o₂, hrest⟩ : ∃ d₂ o₂, run deviceStep { d with server := s₁ } [turnAct, .key, turnAct, turnAct] =
    .ok (d₂, o₂) := ⟨_, _, rfl⟩
  have htwo : d.queue.nMsg = 2 := by rw [← length_pendingMsgs, hpending]; rfl
  refine ⟨d, _, _, hpre, hpending, hstep, d₂, o₂, hrest, ?_⟩
  exact reboot_resets page_body noFiles_free ⟨Nat.zero_le _, rfl⟩ hpre hcall (htwo ▸ by decide) hstep hrest
    (htwo ▸ by decide)

theorem device_persists_small : ∃ store d o, run deviceStep ⟨Server.init (bootedSite store) noFiles, smallDevice.main⟩
    [clientAct, .key, turnAct] = .ok (d, o) ∧ Persists d.server.world.app.web.store := by
  obtain ⟨f, hboot⟩ := smallSite_boots
  obtain ⟨d, o, hr⟩ : ∃ d o, run deviceStep ⟨Server.init (bootedSite ⟨defaults, f⟩) noFiles, smallDevice.main⟩
    [clientAct, .key, turnAct] = .ok (d, o) := ⟨_, _, rfl⟩
  have hq : (bootedSite ⟨defaults, f⟩).app.queue.Sound := ⟨Nat.zero_le _, rfl⟩
  have hflash : smallPlatform.out = allComplete := rfl
  have hstart : prepareConfig smallPlatform.out smallSite.app.web.store =
    some (bootedSite ⟨defaults, f⟩).app.web.store := hboot
  exact ⟨_, d, o, hr, device_persists page_body noFiles_free hq hflash hstart hr⟩

end Device
end Serial2Ethernet
