/-
# The message queue is a bounded FIFO

Called one after another, the functions of the message interface answer as a
list of at most 64 messages would that grows at its end and is taken from its
front (`answers_fifo`). The ring is full and empty at the same index equality; it is
`nMsg` that tells the two apart.
-/
import Serial2Ethernet.System.Preemption

namespace Serial2Ethernet
namespace MsgInterface

open Lib

/-- A call of the message interface. -/
inductive Op
  | initMsgInterface
  | publishMsg (m : MsgBody)
  | getPendingMsgNum
  | getNextMsg
  deriving DecidableEq, Repr

/-- What a call returns: nothing, a result, a number, or the message that goes
to the caller's variables (`none` is the result 1, which leaves them alone). -/
inductive Reply
  | done
  | result (r : ℕ)
  | number (n : ℕ)
  | next (m : Option MsgBody)
  deriving DecidableEq, Repr

/-- One call. -/
def opStep (q : Queue) : Op → Except Unit (Queue × List Reply)
  | .initMsgInterface => .ok (initMsgInterface q, [.done])
  | .publishMsg m => .ok ((publishMsg m q).2, [.result (publishMsg m q).1])
  | .getPendingMsgNum => .ok (q, [.number (getPendingMsgNum q)])
  | .getNextMsg => .ok ((getNextMsg q).2, [.next (getNextMsg q).1])

/-- The same calls on a list of at most `cap` messages, oldest first. -/
def fifoOp (cap : ℕ) (ms : List MsgBody) : Op → Except Unit (List MsgBody × List Reply)
  | .initMsgInterface => .ok ([], [.done])
  | .publishMsg m =>
    if ms.length < cap then .ok (ms ++ [m], [.result 0]) else .ok (ms, [.result 1])
  | .getPendingMsgNum => .ok (ms, [.number ms.length])
  | .getNextMsg =>
    match ms with
    | [] => .ok ([], [.next none])
    | m :: ms => .ok (ms, [.next (some m)])

theorem pendingMsgs_init (q : Queue) : pendingMsgs (initMsgInterface q) = [] := rfl

theorem sound_zeroed : zeroed.Sound := sound_init zeroed

/-! ### When a call is refused -/

theorem publishMsg_eq_one (m : MsgBody) (q : Queue) : (publishMsg m q).1 = 1 ↔ msgMaxLen ≤ q.nMsg := by
  unfold publishMsg
  by_cases hroom : q.nMsg < msgMaxLen
  · rw [if_pos hroom]
    omega
  · rw [if_neg hroom]
    omega

theorem publishMsg_refused {m : MsgBody} {q : Queue} (h : (publishMsg m q).1 = 1) : publishMsg m q = (1, q) :=
  if_neg (Nat.not_lt.mpr ((publishMsg_eq_one m q).mp h))

theorem publishMsg_taken {m : MsgBody} {q : Queue} (h : q.nMsg < msgMaxLen) : (publishMsg m q).1 = 0 := by
  unfold publishMsg
  rw [if_pos h]

theorem getNextMsg_eq_none (q : Queue) : (getNextMsg q).1 = none ↔ q.nMsg = 0 := by
  unfold getNextMsg
  by_cases hn : q.nMsg > 0
  · rw [if_pos hn]
    simp
    omega
  · rw [if_neg hn]
    simp
    omega

theorem getNextMsg_refused {q : Queue} (h : (getNextMsg q).1 = none) : getNextMsg q = (none, q) :=
  if_neg (by rw [(getNextMsg_eq_none q).mp h]; decide)

/-! ### Any calls -/

/-- The queue stands for the list. -/
structure Queue.Holds (q : Queue) (ms : List MsgBody) : Prop where
  sound : q.Sound
  pending : pendingMsgs q = ms

namespace Queue.Holds

variable {q : Queue} {ms : List MsgBody} (h : q.Holds ms)

include h

theorem length : ms.length = q.nMsg := by
  rw [← h.pending, length_pendingMsgs]

/-- Each call on the queue does and answers what it does on the list. -/
theorem step (a : Op) : ∃ q' ms' o, opStep q a = .ok (q', o) ∧ fifoOp msgMaxLen ms a = .ok (ms', o) ∧
    q'.Holds ms' := by
  have hlen := h.length
  cases a with
  | initMsgInterface => exact ⟨_, _, _, rfl, rfl, sound_init q, pendingMsgs_init q⟩
  | publishMsg m =>
    have hpending := pendingMsgs_publishMsg h.sound m
    rw [h.pending] at hpending
    refine ⟨_, _, _, rfl, ?_, sound_publishMsg h.sound m, hpending⟩
    rw [fifoOp, hlen]
    by_cases hroom : q.nMsg < msgMaxLen
    · rw [if_pos hroom, if_pos hroom, publishMsg_taken hroom]
    · rw [if_neg hroom, if_neg hroom, (publishMsg_eq_one m q).mpr (Nat.not_lt.mp hroom)]
  | getPendingMsgNum => exact ⟨_, _, _, rfl, by rw [fifoOp, hlen]; rfl, h⟩
  | getNextMsg =>
    have htaken := pendingMsgs_getNextMsg q
    rw [h.pending] at htaken
    refine ⟨_, _, _, rfl, ?_, sound_getNextMsg h.sound, rfl⟩
    cases hnext : (getNextMsg q).1 with
    | none =>
      obtain rfl : ms = [] := List.length_eq_zero_iff.mp (hlen.trans ((getNextMsg_eq_none q).mp hnext))
      rw [hnext] at htaken
      rw [(List.append_eq_nil_iff.mp htaken.symm).2]
      rfl
    | some m =>
      rw [hnext] at htaken
      subst htaken
      rfl

end Queue.Holds

/-- **A bounded FIFO.** From the zeroed variables, any calls answer as a list
of at most 64 messages would. `publishMsg` is refused exactly when 64 messages
are pending and `getNextMsg` exactly when none is, and then nothing changes. -/
theorem answers_fifo (ops : List Op) : ∃ q replies, run opStep zeroed ops = .ok (q, replies) ∧
    run (fifoOp 64) [] ops = .ok (pendingMsgs q, replies) ∧
    (∀ m, ((publishMsg m q).1 = 1 ↔ (pendingMsgs q).length = 64) ∧
      ((publishMsg m q).1 = 1 → (publishMsg m q).2 = q)) ∧
    ((getNextMsg q).1 = none ↔ pendingMsgs q = []) ∧ ((getNextMsg q).1 = none → (getNextMsg q).2 = q) := by
  obtain ⟨q, ms, replies, hrun, hfifo, hq⟩ := run_simulates Queue.Holds (fun _ _ a h => h.step a) ops
    ⟨sound_zeroed, rfl⟩
  have hle := hq.sound.le
  refine ⟨q, replies, hrun, hq.pending ▸ hfifo, fun m => ⟨?_, fun h => by rw [publishMsg_refused h]⟩, ?_,
    fun h => by rw [getNextMsg_refused h]⟩
  · rw [publishMsg_eq_one, length_pendingMsgs]
    exact ⟨fun h => le_antisymm hle h, fun h => h.ge⟩
  · rw [getNextMsg_eq_none, ← length_pendingMsgs, List.length_eq_zero_iff]

end MsgInterface
end Serial2Ethernet
