/-
# The timer's start

`initTimer` enables the interrupt of TIM3 and only then assigns `timer_cnt` and
`cycle`; that `TIM_TimeBaseInit` generates an update event can leave the flag
of the interrupt set by then. The statements behind `NVIC_Init` are taken one
by one here, and `TIM3_IRQHandler` may run between any two of them.

`cycle` is 0 up to the last statement. So the handler never divides by 0
exactly if it finds no update flag before it (`neverByZero_iff`).
-/
import Serial2Ethernet.User.Timer

namespace Serial2Ethernet
namespace Timer

open Lib MsgInterface

/-! ### The source -/

/-- What `initTimer` does next, once the channel is enabled. -/
inductive Statement
  /-- `timer_cnt = 0;` -/
  | clearTimerCnt
  /-- `if(cfg->query_cycle_s>0)` -/
  | testCycle
  /-- `cycle = 20*cfg->query_cycle_s;`, or `cycle = 20;` in the other branch. -/
  | setCycle (positive : Bool)
  | done
  deriving DecidableEq, Repr

/-- The globals, with the next statement of `initTimer` and the update flag of TIM3. -/
structure Startup where
  next : Statement
  t : Globals
  uif : Bool

/-- `initTimer` goes on by a statement, TIM3 generates an update event, or its interrupt is taken. -/
inductive StartAct
  | initTimer
  | update
  | tim3
  deriving DecidableEq, Repr

/-- The next statement of `initTimer`. -/
def initTimerStep (queryCycleS : UInt8) (s : Startup) : Startup :=
  match s.next with
  | .clearTimerCnt => { s with next := .testCycle, t := { s.t with timerCnt := 0 } }
  | .testCycle => { s with next := .setCycle (queryCycleS > 0) }
  | .setCycle true => { s with next := .done, t := { s.t with cycle := 20 * queryCycleS.toUInt32 } }
  | .setCycle false => { s with next := .done, t := { s.t with cycle := 20 } }
  | .done => s

/-- Handler of the interrupt of timer 3. -/
def tim3IrqHandler (s : Startup) : Except Fault (Startup × List MsgBody) :=
  if s.uif then (timerProcess s.t).map fun r => ({ s with t := r.1, uif := false }, r.2)
  else .ok ({ s with uif := false }, [])

def startStep (queryCycleS : UInt8) (s : Startup) : StartAct → Except Fault (Startup × List MsgBody)
  | .initTimer => .ok (initTimerStep queryCycleS s, [])
  | .update => .ok ({ s with uif := true }, [])
  | .tim3 => tim3IrqHandler s

/-- The channel has just been enabled; the flag may be set already. -/
def enabled (uif : Bool) : Startup := ⟨.clearTimerCnt, powerOn, uif⟩

/-- Without interrupts the statements are `initTimer`. -/
theorem run_initTimer (q : UInt8) (t : Globals) (uif : Bool) :
    run (startStep q) ⟨.clearTimerCnt, t, uif⟩ [.initTimer, .initTimer, .initTimer] =
      .ok (⟨.done, initTimer q t, uif⟩, []) := by
  by_cases h : q > 0
  · simp [run, startStep, initTimerStep, initTimer, h]
  · simp [run, startStep, initTimerStep, initTimer, h]

/-! ### The cycle -/

/-- If the interrupt runs `timerProcess`, the cycle is not 0. -/
def CycleSet (s : Startup) (a : StartAct) : Prop := a = .tim3 → s.uif → s.t.cycle ≠ 0

/-- If the interrupt runs `timerProcess`, `initTimer` is done. -/
def AfterInit (s : Startup) (a : StartAct) : Prop := a = .tim3 → s.uif → s.next = .done

/-- No step divides by 0, and every `timerProcess` finds a cycle other than 0. -/
def NeverByZero (q : UInt8) (s : Startup) (acts : List StartAct) : Prop :=
  (∃ s' out, run (startStep q) s acts = .ok (s', out)) ∧ Meets (startStep q) CycleSet s acts

/-- The cycle is assigned by the last statement, and by no other. -/
structure Unassigned (q : UInt8) (s : Startup) : Prop where
  branch : ∀ positive, s.next = .setCycle positive → positive = decide (q > 0)
  cycle : s.t.cycle ≠ 0 ↔ s.next = .done

theorem unassigned_enabled (q : UInt8) (uif : Bool) : Unassigned q (enabled uif) where
  branch := by simp [enabled]
  cycle := by simp [enabled, powerOn]

section Unassigned

variable {q : UInt8} {s : Startup}

theorem Unassigned.initTimerStep (h : Unassigned q s) : Unassigned q (initTimerStep q s) := by
  obtain ⟨next, t, uif⟩ := s
  have hcycle := h.cycle
  cases next with
  | clearTimerCnt => exact ⟨by simp [Timer.initTimerStep], by simpa [Timer.initTimerStep] using hcycle⟩
  | testCycle => exact ⟨by simp [Timer.initTimerStep], by simpa [Timer.initTimerStep] using hcycle⟩
  | setCycle positive =>
    have hset := cycle_initTimer q t
    obtain rfl := h.branch positive rfl
    unfold initTimer at hset
    by_cases hq : q > 0
    · rw [if_pos hq] at hset
      simp only [Timer.initTimerStep, hq, decide_true]
      exact ⟨by simp, iff_of_true hset rfl⟩
    · simp only [Timer.initTimerStep, hq, decide_false]
      exact ⟨by simp, iff_of_true (by decide : (20 : UInt32) ≠ 0) rfl⟩
  | done => exact h

theorem Unassigned.step (h : Unassigned q s) {a : StartAct} {s' : Startup} {out : List MsgBody}
    (hok : startStep q s a = .ok (s', out)) : Unassigned q s' := by
  cases a with
  | initTimer =>
    cases hok
    exact h.initTimerStep
  | update =>
    cases hok
    exact ⟨h.branch, h.cycle⟩
  | tim3 =>
    unfold startStep tim3IrqHandler at hok
    dsimp only at hok
    by_cases huif : s.uif
    · rw [if_pos huif] at hok
      by_cases h0 : s.t.cycle = 0
      · rw [timerProcess_divByZero h0] at hok
        cases hok
      · obtain ⟨t', out', hrun, hcycle, -⟩ := timerProcess_ok h0
        rw [hrun] at hok
        cases hok
        exact ⟨h.branch, by rw [hcycle]; exact h.cycle⟩
    · rw [if_neg huif] at hok
      cases hok
      exact ⟨h.branch, h.cycle⟩

/-- A step does not fault if it finds the cycle set. -/
theorem startStep_ok {a : StartAct} (h : CycleSet s a) : ∃ s' out, startStep q s a = .ok (s', out) := by
  cases a with
  | initTimer => exact ⟨_, _, rfl⟩
  | update => exact ⟨_, _, rfl⟩
  | tim3 =>
    unfold startStep tim3IrqHandler
    dsimp only
    by_cases huif : s.uif
    · obtain ⟨t', out, hrun, -⟩ := timerProcess_ok (h rfl huif)
      rw [if_pos huif, hrun]
      exact ⟨_, _, rfl⟩
    · rw [if_neg huif]
      exact ⟨_, _, rfl⟩

end Unassigned

/-- **The start is safe exactly if** no interrupt runs `timerProcess` before the
last statement of `initTimer`. -/
theorem neverByZero_iff (q : UInt8) (uif : Bool) (acts : List StartAct) :
    NeverByZero q (enabled uif) acts ↔ Meets (startStep q) AfterInit (enabled uif) acts := by
  have hiff : Meets (startStep q) CycleSet (enabled uif) acts ↔ Meets (startStep q) AfterInit (enabled uif) acts := by
    refine meets_congr (Unassigned q) (fun s a s' out hI hok => hI.step hok) (fun s a hI => ?_) acts
      (unassigned_enabled q uif)
    exact forall_congr' fun _ => forall_congr' fun _ => hI.cycle
  constructor
  · exact fun h => hiff.mp h.2
  · intro h
    have hset := hiff.mpr h
    obtain ⟨s', out, hrun, -⟩ := run_total (fun s acts => Meets (startStep q) CycleSet s acts)
      (fun s a acts hm => by
        obtain ⟨s', out, hok⟩ := startStep_ok (q := q) hm.1
        exact ⟨s', out, hok, hm.2 (s', out) (by simp [hok, Except.toOption])⟩) acts (enabled uif) hset
    exact ⟨⟨s', out, hrun⟩, hset⟩

/-- The flag is set when the channel is enabled, and the interrupt comes first. -/
theorem not_neverByZero : ¬ ∀ (q : UInt8) (uif : Bool) (acts : List StartAct), NeverByZero q (enabled uif) acts := by
  intro h
  obtain ⟨⟨s', out, hrun⟩, -⟩ := h 1 true [.tim3]
  have hfault : startStep 1 (enabled true) .tim3 = .error .divByZero := rfl
  rw [run_singleton, hfault] at hrun
  cases hrun

end Timer
end Serial2Ethernet
