/-
# The main loop and the interrupts, call by call

`processMsg` takes one message from the queue and hands it to its handler.
Between two of its calls a byte arrives at the console, the timer's interrupt
comes, or another handler publishes `MSG_CONFIG_APPLY` (`Act`).

The commands of the console and the messages about them are in two queues.
`commands_counted_iff`: they agree in number as long as no line is completed
while the message queue is full; the result of `publishMsg` is not looked at.
-/
import Serial2Ethernet.User.MsgHandlers

namespace Serial2Ethernet
namespace Main

open Lib MsgInterface MsgHandlers

/-- The globals of the modules under the main loop. -/
structure Firmware where
  queue : Queue
  console : Console.Globals
  timer : Timer.Globals
  /-- `link_status`. -/
  linkStatus : UInt8

/-- A call of the main loop into another module. -/
inductive Call
  | handler (c : MsgHandlers.Call)
  | blink
  | writeFSMC (addr : ℕ) (val : UInt8)
  deriving DecidableEq, Repr

/-- The messages published go into the queue one after another, as far as there is room. -/
def publishAll (ms : List MsgBody) (q : Queue) : Queue := ms.foldl (fun q m => (publishMsg m q).2) q

/-- The pulse that resets the board. -/
def resetPulse : List Call := [.writeFSMC 1 0, .writeFSMC 1 1, .writeFSMC 1 0]

/-- The main loop's turn. `MSG_CONFIG_APPLY` runs on into `MSG_LINK_DOWN`. -/
def processMsg (reg29 : UInt16) (f : Firmware) : Firmware × List Call :=
  match getNextMsg f.queue with
  | (none, q) => ({ f with queue := q }, [])
  | (some m, q) =>
    if m.msg = msgConsoleCommand then ({ f with queue := q, console := onConsoleCommand f.console }, [])
    else if m.msg = msgWorktick then
      let r := onWorkTick m.para reg29 f.linkStatus
      ({ f with queue := publishAll (published r.2) q, linkStatus := r.1 }, r.2.map .handler)
    else if m.msg = msgConfigApply then ({ f with queue := q }, .blink :: resetPulse)
    else if m.msg = msgLinkDown then ({ f with queue := q }, resetPulse)
    else ({ f with queue := q }, [])

/-- One of the producers, or the main loop. -/
inductive Act
  | usart3 (res : UInt8)
  | tim3
  | configApply
  | processMsg (reg29 : UInt16)
  deriving DecidableEq, Repr

def step (f : Firmware) : Act → Except Fault (Firmware × List Call)
  | .usart3 res =>
    (Console.usart3IrqHandler res f.console).map fun r =>
      ({ f with console := r.1, queue := publishAll r.2 f.queue }, [])
  | .tim3 =>
    (Timer.timerProcess f.timer).map fun r =>
      ({ f with timer := r.1, queue := publishAll r.2 f.queue }, [])
  | .configApply => .ok ({ f with queue := (publishMsg ⟨msgConfigApply, 0⟩ f.queue).2 }, [])
  | .processMsg reg29 => .ok (Main.processMsg reg29 f)

/-- After `initilize`. -/
def initilize (queryCycleS : UInt8) (q : Queue) (t : Timer.Globals) : Firmware where
  queue := initMsgInterface q
  console := Console.initConsole Console.powerOn
  timer := Timer.initTimer queryCycleS t
  linkStatus := 1

/-! ### The messages about commands -/

def IsCommand (m : MsgBody) : Bool := m.msg = msgConsoleCommand

/-- How many of the pending messages are about commands. -/
def pendingCommands (q : Queue) : ℕ := (pendingMsgs q).countP IsCommand

/-- There is a message for each command, and no other. -/
def Counted (f : Firmware) : Prop := pendingCommands f.queue = f.console.cmdCnt

/-- The line that the byte completes becomes a command only if its message finds room. -/
def Announced (f : Firmware) : Act → Prop
  | .usart3 res => Console.Completes f.console res → f.console.cmdCnt < Console.cmdMaxCnt →
      f.queue.nMsg < msgMaxLen
  | _ => True

section Queue

variable {q : Queue}

theorem sound_publishAll (ms : List MsgBody) (h : q.Sound) : (publishAll ms q).Sound := by
  induction ms generalizing q with
  | nil => exact h
  | cons m ms ih => exact ih (sound_publishMsg h m)

theorem pendingCommands_publishMsg (h : q.Sound) (m : MsgBody) : pendingCommands (publishMsg m q).2 =
    if q.nMsg < msgMaxLen ∧ IsCommand m then pendingCommands q + 1 else pendingCommands q := by
  unfold pendingCommands
  rw [pendingMsgs_publishMsg h m]
  by_cases hroom : q.nMsg < msgMaxLen
  · by_cases hm : IsCommand m
    · simp [hroom, hm]
    · simp [hroom, hm]
  · simp [hroom]

/-- Other messages do not count. -/
theorem pendingCommands_publishAll (ms : List MsgBody) (h : q.Sound) (hms : ∀ m ∈ ms, IsCommand m = false) :
    pendingCommands (publishAll ms q) = pendingCommands q := by
  induction ms generalizing q with
  | nil => rfl
  | cons m ms ih =>
    rw [List.forall_mem_cons] at hms
    calc pendingCommands (publishAll (m :: ms) q)
        = pendingCommands (publishMsg m q).2 := ih (sound_publishMsg h m) hms.2
      _ = pendingCommands q := by rw [pendingCommands_publishMsg h, if_neg (by simp [hms.1])]

/-- The message taken counts no more. -/
theorem pendingCommands_getNextMsg (q : Queue) : pendingCommands q =
    ((getNextMsg q).1.toList.countP IsCommand) + pendingCommands (getNextMsg q).2 := by
  unfold pendingCommands
  rw [← List.countP_append, ← pendingMsgs_getNextMsg]

end Queue

/-- A tick of the timer is no message about a command. -/
theorem timerProcess_ok {t : Timer.Globals} (h : t.cycle ≠ 0) : ∃ t' o,
    Timer.timerProcess t = .ok (t', o) ∧ t'.cycle ≠ 0 ∧ ∀ m ∈ o, IsCommand m = false := by
  unfold Timer.timerProcess
  dsimp only
  rw [if_neg h]
  refine ⟨_, _, rfl, ?_, fun m hm => ?_⟩
  · split <;> exact h
  · split at hm
    · rw [List.mem_singleton.mp hm]
      rfl
    · cases hm

/-- Nor is what a tick makes the main loop publish. -/
theorem onWorkTick_other (para : Int32) (reg29 : UInt16) (linkStatus : UInt8) :
    ∀ m ∈ published (onWorkTick para reg29 linkStatus).2, IsCommand m = false := by
  intro m hm
  by_cases h9 : para = 9
  · rw [h9, (onWorkTick_nine reg29 linkStatus).2.1] at hm
    split at hm
    · rw [List.mem_singleton.mp hm]
      rfl
    · cases hm
  · rw [(onWorkTick_of_ne reg29 linkStatus h9).2.1] at hm
    cases hm

theorem onConsoleCommand_eq (c : Console.Globals) : onConsoleCommand c = (Console.getCommand c).2 := by
  unfold onConsoleCommand Console.getCommandNum Console.getCommand
  by_cases h : c.cmdCnt > 0
  · rw [if_pos h, if_pos h]
  · rw [if_neg h, if_neg h]

/-! ### Steps -/

/-- The queues are sound, and the timer has been initialized. -/
structure Firmware.Sound (f : Firmware) : Prop where
  queue : f.queue.Sound
  console : f.console.Sound
  cycle : f.timer.cycle ≠ 0

theorem sound_initilize (queryCycleS : UInt8) (q : Queue) (t : Timer.Globals) :
    (initilize queryCycleS q t).Sound where
  queue := sound_init q
  console := Console.sound_init
  cycle := Timer.cycle_ne_zero (Timer.counts_initTimer queryCycleS t)

theorem counted_initilize (queryCycleS : UInt8) (q : Queue) (t : Timer.Globals) :
    Counted (initilize queryCycleS q t) := rfl

/-- A byte. -/
theorem counted_usart3 {f : Firmware} (h : f.Sound) (res : UInt8) : ∃ f' o,
    step f (.usart3 res) = .ok (f', o) ∧ f'.Sound ∧
      (Counted f → (Counted f' ↔ Announced f (.usart3 res))) := by
  obtain ⟨c', o, hok, hs, hrec⟩ := Console.usart3_receives h.console res
  refine ⟨{ f with console := c', queue := publishAll o f.queue }, [], by rw [step, hok]; rfl,
    ⟨sound_publishAll o h.queue, hs, h.cycle⟩, fun hC => ?_⟩
  unfold Counted Announced at *
  dsimp only
  cases hrec with
  | line hno => exact iff_of_true hC fun hyes => absurd hyes hno
  | command hyes hroom cmd =>
    rw [publishAll, List.foldl_cons, List.foldl_nil, pendingCommands_publishMsg h.queue, hC]
    by_cases hq : f.queue.nMsg < msgMaxLen
    · rw [if_pos ⟨hq, rfl⟩]
      exact iff_of_true rfl fun _ _ => hq
    · rw [if_neg fun hq' => hq hq'.1]
      exact iff_of_false (Nat.succ_ne_self _).symm fun hall => hq (hall hyes hroom)
  | overflow hyes hfull => exact iff_of_true hC fun _ hlt => absurd hfull hlt.ne

/-- The main loop takes a command with each message about one. -/
theorem counted_processMsg {f : Firmware} (h : f.Sound) (reg29 : UInt16) :
    (processMsg reg29 f).1.Sound ∧ (Counted f → Counted (processMsg reg29 f).1) := by
  have hq := sound_getNextMsg h.queue
  have htaken := pendingCommands_getNextMsg f.queue
  unfold processMsg Counted
  rcases hnext : getNextMsg f.queue with ⟨m | m, q⟩
  · rw [hnext] at hq htaken
    exact ⟨⟨hq, h.console, h.cycle⟩, fun hC => by rw [htaken] at hC; simpa using hC⟩
  · rw [hnext] at hq htaken
    by_cases hcmd : m.msg = msgConsoleCommand
    · have hone : pendingCommands f.queue = 1 + pendingCommands q := by
        rw [htaken]
        simp [IsCommand, hcmd]
      obtain ⟨c', o, hok, hs⟩ := Console.step_sound h.console .getCommand
      obtain ⟨rfl, -⟩ := Prod.mk.inj (Except.ok.inj hok)
      simp only [if_pos hcmd, onConsoleCommand_eq]
      refine ⟨⟨hq, hs, h.cycle⟩, fun hC => ?_⟩
      rw [Console.getCommand_cmdCnt, ← hC, hone]
      omega
    · have hnone : pendingCommands f.queue = pendingCommands q := by
        rw [htaken]
        simp [IsCommand, hcmd]
      rw [hnone]
      simp only [if_neg hcmd]
      by_cases htick : m.msg = msgWorktick
      · simp only [if_pos htick]
        refine ⟨⟨sound_publishAll _ hq, h.console, h.cycle⟩, fun hC => ?_⟩
        exact (pendingCommands_publishAll _ hq (onWorkTick_other _ _ _)).trans hC
      · simp only [if_neg htick]
        split_ifs
        · exact ⟨⟨hq, h.console, h.cycle⟩, id⟩
        · exact ⟨⟨hq, h.console, h.cycle⟩, id⟩
        · exact ⟨⟨hq, h.console, h.cycle⟩, id⟩

/-- **The commands of the console and the messages about them agree in number
exactly as long as** no line becomes a command while the message queue is full. -/
theorem commands_counted_iff (queryCycleS : UInt8) (q : Queue) (t : Timer.Globals) (acts : List Act) :
    Always step Counted (initilize queryCycleS q t) acts ↔
      Meets step Announced (initilize queryCycleS q t) acts := by
  refine always_iff_meets Firmware.Sound Counted Announced ?_ acts (sound_initilize queryCycleS q t)
    (counted_initilize queryCycleS q t)
  intro f a h
  cases a with
  | usart3 res => exact counted_usart3 h res
  | tim3 =>
    obtain ⟨t', o, hok, hc, hms⟩ := timerProcess_ok h.cycle
    refine ⟨{ f with timer := t', queue := publishAll o f.queue }, [], by rw [step, hok]; rfl,
      ⟨sound_publishAll o h.queue, h.console, hc⟩, fun hC => iff_of_true ?_ trivial⟩
    exact (pendingCommands_publishAll o h.queue hms).trans hC
  | configApply =>
    refine ⟨_, _, rfl, ⟨sound_publishMsg h.queue _, h.console, h.cycle⟩, fun hC => iff_of_true ?_ trivial⟩
    unfold Counted
    dsimp only
    rw [pendingCommands_publishMsg h.queue, if_neg fun hm => absurd hm.2 (by decide)]
    exact hC
  | processMsg reg29 =>
    obtain ⟨hs, hC⟩ := counted_processMsg h reg29
    exact ⟨_, _, rfl, hs, fun h => iff_of_true (hC h) trivial⟩

/-- The globals of the timer before anything has run. -/
def zeroedTimer : Timer.Globals := ⟨0, 0, 0⟩

/-- Sixty-four changes of the configuration, and then an empty line. -/
def fullQueue : List Act := List.replicate 64 .configApply ++ [.usart3 0x0d, .usart3 0x0a]

/-- The command of the line stays in the console. -/
theorem command_stranded : ¬ ∀ acts, Always step Counted (initilize 1 ⟨fun _ => ⟨0, 0⟩, 0, 0, 0⟩ zeroedTimer) acts := by
  intro hall
  have hobs : (run step (initilize 1 ⟨fun _ => ⟨0, 0⟩, 0, 0, 0⟩ zeroedTimer) fullQueue).toOption.map
      (fun r => (pendingCommands r.1.queue, r.1.console.cmdCnt)) = some (0, 1) := by decide +kernel
  obtain ⟨f, o, hrun, hf⟩ := run_observed _ hobs
  obtain ⟨hpending, hcnt⟩ := Prod.mk.inj hf
  have hC := (always_iff _ _).mp (hall fullQueue) fullQueue [] f o (List.append_nil _).symm hrun
  rw [Counted, hpending, hcnt] at hC
  cases hC

end Main
end Serial2Ethernet
