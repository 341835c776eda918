/-
# The message queue

The queue of 64 messages between the interrupt handlers and the main loop:
`publishMsg` and `getNextMsg` as the functions they are when nothing comes
between, and as the reads and writes of the shared variables they consist of.
Between any two of these an interrupt of a higher level may start a
`publishMsg` of its own, so the calls in progress are a stack and only the
last one runs.

An undisturbed call does what the function does (`publishMsg_undisturbed`,
`getNextMsg_undisturbed`).
-/
import Serial2Ethernet.Lib.Ring
import Serial2Ethernet.Lib.Run

namespace Serial2Ethernet
namespace MsgInterface

open Lib

/-- Message structure. -/
structure MsgBody where
  msg : Int32
  para : Int32
  deriving DecidableEq, Repr

def msgMaxLen : ℕ := 64

instance instNeZeroMsg : NeZero 64 := ⟨by decide⟩

/-- The shared variables. The indices are below 64 by the types they are
assigned from; `nMsg` stays far from its 32 bits. -/
structure Queue where
  msgList : Fin 64 → MsgBody
  iMsgPull : Fin 64
  iMsgPush : Fin 64
  nMsg : ℕ

/-- Initialize interface. -/
def initMsgInterface (q : Queue) : Queue := { q with iMsgPull := 0, iMsgPush := 0, nMsg := 0 }

/-- Publish a message; the result is 0, or 1 if there is no room. -/
def publishMsg (m : MsgBody) (q : Queue) : ℕ × Queue :=
  if q.nMsg < msgMaxLen then
    (0, { q with
      msgList := Function.update q.msgList q.iMsgPush m
      iMsgPush := slot q.iMsgPush 1
      nMsg := q.nMsg + 1 })
  else (1, q)

/-- Get pending message number. -/
def getPendingMsgNum (q : Queue) : ℕ := q.nMsg

/-- Get next pending message; `none` is the result 1. -/
def getNextMsg (q : Queue) : Option MsgBody × Queue :=
  if q.nMsg > 0 then
    (some (q.msgList q.iMsgPull), { q with iMsgPull := slot q.iMsgPull 1, nMsg := q.nMsg - 1 })
  else (none, q)

/-! ### Message codes -/

def msgStartHw : Int32 := 0

def msgStartUser : Int32 := 0x1000

def msgConsoleCommand : Int32 := msgStartHw

def msgConfigApply : Int32 := msgStartHw + 1

def msgWorktick : Int32 := msgStartUser

def msgLinkDown : Int32 := msgStartUser + 1

/-! ### The queue as a list -/

/-- The messages published and not taken, oldest first. -/
def pendingMsgs (q : Queue) : List MsgBody :=
  (List.range q.nMsg).map fun k => q.msgList (slot q.iMsgPull k)

/-- The number and the indices agree. -/
structure Queue.Sound (q : Queue) : Prop where
  le : q.nMsg ≤ msgMaxLen
  push : q.iMsgPush = slot q.iMsgPull q.nMsg

@[simp] theorem length_pendingMsgs (q : Queue) : (pendingMsgs q).length = q.nMsg := by
  simp [pendingMsgs]

theorem ringHolds_pendingMsgs (q : Queue) : RingHolds q.msgList q.iMsgPull (pendingMsgs q) := by
  intro k hk
  simp [pendingMsgs]

/-- Nothing else is held. -/
theorem pendingMsgs_eq {q : Queue} {ms : List MsgBody} (h : RingHolds q.msgList q.iMsgPull ms)
    (hlen : ms.length = q.nMsg) : pendingMsgs q = ms := by
  refine List.ext_getElem (by rw [length_pendingMsgs, hlen]) fun k hk hk' => ?_
  rw [← ringHolds_pendingMsgs q k hk, h k hk']

theorem sound_init (q : Queue) : (initMsgInterface q).Sound where
  le := Nat.zero_le _
  push := (slot_zero _).symm

section Sound

variable {q : Queue} (h : q.Sound)

include h

theorem pendingMsgs_le : (pendingMsgs q).length ≤ msgMaxLen := by
  rw [length_pendingMsgs]
  exact h.le

theorem sound_publishMsg (m : MsgBody) : (publishMsg m q).2.Sound := by
  unfold publishMsg
  by_cases hroom : q.nMsg < msgMaxLen
  · rw [if_pos hroom]
    refine ⟨hroom, ?_⟩
    dsimp only
    rw [h.push, slot_slot]
  · rw [if_neg hroom]
    exact h

/-- `publishMsg` appends the message, if there is room. -/
theorem pendingMsgs_publishMsg (m : MsgBody) : pendingMsgs (publishMsg m q).2 =
    if q.nMsg < msgMaxLen then pendingMsgs q ++ [m] else pendingMsgs q := by
  unfold publishMsg
  by_cases hroom : q.nMsg < msgMaxLen
  · rw [if_pos hroom, if_pos hroom]
    have hlen : (pendingMsgs q).length < 64 := by
      rw [length_pendingMsgs]
      exact hroom
    refine pendingMsgs_eq ?_ (by simp)
    have hring := (ringHolds_pendingMsgs q).push hlen m
    rw [length_pendingMsgs, ← h.push] at hring
    exact hring
  · rw [if_neg hroom, if_neg hroom]

theorem sound_getNextMsg : (getNextMsg q).2.Sound := by
  unfold getNextMsg
  by_cases hn : q.nMsg > 0
  · rw [if_pos hn]
    refine ⟨(Nat.sub_le _ _).trans h.le, ?_⟩
    dsimp only
    rw [h.push, slot_slot, Nat.add_sub_cancel' hn]
  · rw [if_neg hn]
    exact h

omit h in
/-- `getNextMsg` takes the oldest message, if there is one. -/
theorem pendingMsgs_getNextMsg (q : Queue) :
    pendingMsgs q = (getNextMsg q).1.toList ++ pendingMsgs (getNextMsg q).2 := by
  unfold getNextMsg
  by_cases hn : q.nMsg > 0
  · rw [if_pos hn]
    obtain ⟨n, hn'⟩ : ∃ n, q.nMsg = n + 1 := ⟨q.nMsg - 1, by omega⟩
    simp [pendingMsgs, hn', List.range_succ_eq_map, Function.comp_def, slot_slot, Nat.add_comm]
  · rw [if_neg hn]
    rfl

end Sound

/-! ### The calls, step by step -/

/-- What a call of `publishMsg` does next, with what it has read. -/
inductive PublishPc
  | check
  | readMsg
  | writeMsg (i : Fin 64)
  | readPara
  | writePara (i : Fin 64)
  | readPush
  | writePush (i : Fin 64)
  | readNum
  | writeNum (n : ℕ)
  deriving DecidableEq, Repr

/-- What a call of `getNextMsg` does next, with what it has read. -/
inductive GetPc
  | check
  | readMsg
  | loadMsg (i : Fin 64)
  | readPara (msg : Int32)
  | loadPara (msg : Int32) (i : Fin 64)
  | readPull (m : MsgBody)
  | writePull (m : MsgBody) (i : Fin 64)
  | readNum (m : MsgBody)
  | writeNum (m : MsgBody) (n : ℕ)
  deriving DecidableEq, Repr

/-- A call in progress. -/
inductive Call
  | publish (m : MsgBody) (pc : PublishPc)
  | getNext (pc : GetPc)
  deriving DecidableEq, Repr

/-- What the calls tell. `put` is the moment at which a message stands in the
queue, the other four are returns: of 0 and 1 by `publishMsg`, of 0 and 1 by
`getNextMsg`. -/
inductive Event
  | put (m : MsgBody)
  | published (m : MsgBody)
  | refused (m : MsgBody)
  | got (m : MsgBody)
  | empty
  deriving DecidableEq, Repr

/-- One step of `publishMsg`; no call is left when it returns. -/
def publishStep (q : Queue) (m : MsgBody) : PublishPc → Queue × Option PublishPc × List Event
  | .check => if q.nMsg < msgMaxLen then (q, some .readMsg, []) else (q, none, [.refused m])
  | .readMsg => (q, some (.writeMsg q.iMsgPush), [])
  | .writeMsg i =>
    ({ q with msgList := Function.update q.msgList i { q.msgList i with msg := m.msg } },
      some .readPara, [])
  | .readPara => (q, some (.writePara q.iMsgPush), [])
  | .writePara i =>
    ({ q with msgList := Function.update q.msgList i { q.msgList i with para := m.para } },
      some .readPush, [])
  | .readPush => (q, some (.writePush q.iMsgPush), [])
  | .writePush i => ({ q with iMsgPush := slot i 1 }, some .readNum, [.put m])
  | .readNum => (q, some (.writeNum q.nMsg), [])
  | .writeNum n => ({ q with nMsg := n + 1 }, none, [.published m])

/-- One step of `getNextMsg`. -/
def getStep (q : Queue) : GetPc → Queue × Option GetPc × List Event
  | .check => if q.nMsg > 0 then (q, some .readMsg, []) else (q, none, [.empty])
  | .readMsg => (q, some (.loadMsg q.iMsgPull), [])
  | .loadMsg i => (q, some (.readPara (q.msgList i).msg), [])
  | .readPara msg => (q, some (.loadPara msg q.iMsgPull), [])
  | .loadPara msg i => (q, some (.readPull ⟨msg, (q.msgList i).para⟩), [])
  | .readPull m => (q, some (.writePull m q.iMsgPull), [])
  | .writePull m i => ({ q with iMsgPull := slot i 1 }, some (.readNum m), [])
  | .readNum m => (q, some (.writeNum m q.nMsg), [])
  | .writeNum m n => ({ q with nMsg := n - 1 }, none, [.got m])

/-- One step of a call. -/
def Call.step (q : Queue) : Call → Queue × Option Call × List Event
  | .publish m pc =>
    let r := publishStep q m pc
    (r.1, r.2.1.map (.publish m), r.2.2)
  | .getNext pc =>
    let r := getStep q pc
    (r.1, r.2.1.map .getNext, r.2.2)

/-- Who runs a call: the main loop, or one of the interrupts by their levels. -/
inductive Level
  | main
  | usart3
  | tim3
  | ethExti
  deriving DecidableEq, Repr

def Level.prio : Level → ℕ
  | .main => 0
  | .usart3 => 1
  | .tim3 => 2
  | .ethExti => 3

/-- The queue and the calls in progress; the first is the one that runs, the
others have been preempted. -/
structure State where
  q : Queue
  calls : List (Level × Call)

/-- Nothing in progress has the level or a higher one. -/
def Preempts (level : Level) (calls : List (Level × Call)) : Prop :=
  ∀ c ∈ calls.head?, c.1.prio < level.prio

instance (level : Level) (calls : List (Level × Call)) : Decidable (Preempts level calls) :=
  inferInstanceAs (Decidable (∀ c ∈ calls.head?, _))

/-- A call starts, or the last one takes a step. -/
inductive Act
  | publish (level : Level) (m : MsgBody)
  | getNext (level : Level)
  | step
  deriving DecidableEq, Repr

/-- One action; an error if it is not possible now. Only `publishMsg` preempts other calls. -/
def step (s : State) : Act → Except Unit (State × List Event)
  | .publish level m =>
    if Preempts level s.calls then .ok (⟨s.q, (level, .publish m .check) :: s.calls⟩, [])
    else .error ()
  | .getNext level =>
    if s.calls = [] then .ok (⟨s.q, [(level, .getNext .check)]⟩, [])
    else .error ()
  | .step =>
    match s.calls with
    | [] => .error ()
    | (level, call) :: below =>
      let r := call.step s.q
      .ok (⟨r.1, (r.2.1.map fun c => (level, c)).toList ++ below⟩, r.2.2)

/-! ### Undisturbed calls -/

/-- A `publishMsg` that nothing preempts is the function. -/
theorem publishMsg_undisturbed (q : Queue) (m : MsgBody) {level : Level}
    {calls : List (Level × Call)} (h : Preempts level calls) : ∃ k,
    run step ⟨q, calls⟩ (.publish level m :: List.replicate k .step) =
      .ok (⟨(publishMsg m q).2, calls⟩,
        if (publishMsg m q).1 = 0 then [.put m, .published m] else [.refused m]) := by
  unfold publishMsg
  by_cases hroom : q.nMsg < msgMaxLen
  · exact ⟨9, by simp [List.replicate, run, step, h, Call.step, publishStep, hroom]⟩
  · exact ⟨1, by simp [List.replicate, run, step, h, Call.step, publishStep, hroom]⟩

/-- A `getNextMsg` that nothing preempts is the function. -/
theorem getNextMsg_undisturbed (q : Queue) (level : Level) : ∃ k,
    run step ⟨q, []⟩ (.getNext level :: List.replicate k .step) =
      .ok (⟨(getNextMsg q).2, []⟩, [(getNextMsg q).1.elim .empty .got]) := by
  unfold getNextMsg
  by_cases hn : q.nMsg > 0
  · exact ⟨9, by simp [List.replicate, run, step, Call.step, getStep, hn]⟩
  · exact ⟨1, by simp [List.replicate, run, step, Call.step, getStep, hn]⟩

end MsgInterface
end Serial2Ethernet
