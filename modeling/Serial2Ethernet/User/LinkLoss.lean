/-
# Link losses

The main loop as the interrupts see it: `processMsg` calls `getNextMsg`, then
handles the message it took, and what the handler publishes is a call of
`publishMsg` again. The calls are those of the message queue, step by step,
and the other producers may start theirs between any two steps.

`onWorkTick` keeps the state of the link before it knows whether `publishMsg`
has room. As long as there is room, and no call is preempted where it must
not be, every loss of the link is one message (`link_losses`). Else it is
lost (`link_loss_lost`). An undisturbed turn is `processMsg`
(`processMsg_undisturbed`).
-/
import Serial2Ethernet.System.Preemption
import Serial2Ethernet.User.Main

namespace Serial2Ethernet
namespace LinkLoss

open Lib MsgInterface MsgHandlers

/-- The queue with the calls in progress, and the main loop. -/
structure State where
  ms : MsgInterface.State
  /-- The message that `processMsg` has taken and not handled yet. -/
  taken : Option MsgBody
  /-- `link_status`. -/
  linkStatus : UInt8

/-- What is observed: the events of the queue, and the samples of the link. -/
inductive Event
  | queue (e : MsgInterface.Event)
  | sample (up : Bool)
  deriving DecidableEq, Repr

inductive Act
  /-- Another producer calls `publishMsg`. -/
  | publish (level : Level) (m : MsgBody)
  /-- The call that runs takes a step. -/
  | call
  /-- `processMsg` calls `getNextMsg`. -/
  | getNext
  /-- `processMsg` handles the message, with what register 29 of the PHY holds. -/
  | handle (reg29 : UInt16)
  deriving DecidableEq, Repr

/-- The new `link_status`, and the calls of the handler. The other handlers
do nothing to the link or the queue. -/
def handler (m : MsgBody) (reg29 : UInt16) (linkStatus : UInt8) : UInt8 × List MsgHandlers.Call :=
  if m.msg = msgWorktick then onWorkTick m.para reg29 linkStatus else (linkStatus, [])

/-- What the handler's calls tell of the link. -/
def sampled (reg29 : UInt16) (calls : List MsgHandlers.Call) : List Event :=
  if .lan8720GetLink ∈ calls then [.sample (lan8720GetLink reg29 = 0)] else []

/-- One action; an error if it is not possible now. Another producer in the main
loop has its turn only when no message is in hand. -/
def step (s : State) : Act → Except Unit (State × List Event)
  | .publish level m =>
    if m.msg ≠ msgLinkDown ∧ (level = .main → s.taken = none) then
      (MsgInterface.step s.ms (.publish level m)).map fun r => ({ s with ms := r.1 }, r.2.map .queue)
    else .error ()
  | .call =>
    (MsgInterface.step s.ms .step).map fun r =>
      ({ s with ms := r.1, taken := (gots r.2).getLast?.or s.taken }, r.2.map .queue)
  | .getNext =>
    if s.taken = none then
      (MsgInterface.step s.ms (.getNext .main)).map fun r => ({ s with ms := r.1 }, r.2.map .queue)
    else .error ()
  | .handle reg29 =>
    match s.taken with
    | none => .error ()
    | some m =>
      if s.ms.calls = [] then
        let r := handler m reg29 s.linkStatus
        -- a handler publishes at most one message, as its last call into the queue
        .ok (⟨⟨s.ms.q, (published r.2).map fun m => (.main, .publish m .check)⟩, none, r.1⟩,
          sampled reg29 r.2)
      else .error ()

def start (q : Queue) : State := ⟨MsgInterface.start q, none, 1⟩

/-! ### Counting -/

def queueEvents (ev : List Event) : List MsgInterface.Event :=
  ev.filterMap fun | .queue e => some e | _ => none

/-- The samples of the link, in order; `true` is up. -/
def samples (ev : List Event) : List Bool :=
  ev.filterMap fun | .sample up => some up | _ => none

/-- The transitions from up to down, of a link that has been `up`. -/
def drops (up : Bool) : List Bool → ℕ
  | [] => 0
  | u :: us => (if up && !u then 1 else 0) + drops u us

/-- What the link was at last decides. -/
theorem drops_concat (up u : Bool) (us : List Bool) :
    drops up (us ++ [u]) = drops up us + if us.getLastD up && !u then 1 else 0 := by
  induction us generalizing up with
  | nil => simp [drops]
  | cons v us ih => rw [List.cons_append, drops, drops, ih, List.getLastD_cons, Nat.add_assoc]

def IsLinkDown (m : MsgBody) : Bool := m.msg = msgLinkDown

/-- The message about the link that the call has still to put into the queue. -/
def unput : MsgInterface.Call → ℕ
  | .publish _ .readNum | .publish _ (.writeNum _) => 0
  | .publish m _ => if IsLinkDown m then 1 else 0
  | .getNext _ => 0

def unputs (calls : List (Level × MsgInterface.Call)) : ℕ := (calls.map fun c => unput c.2).sum

/-- The call is a `publishMsg` for a message about the link, and looks for room. -/
def Asks : MsgInterface.Call → Bool
  | .publish m .check => IsLinkDown m
  | _ => false

/-- The step is safe, and a message about the link finds room. -/
def Kept (s : State) (a : Act) : Prop :=
  a = .call → Safe s.ms .step ∧ ∀ c ∈ s.ms.calls.head?, Asks c.2 → s.ms.q.nMsg < msgMaxLen

instance (s : State) (a : Act) : Decidable (Kept s a) :=
  inferInstanceAs (Decidable (_ → _ ∧ _))

theorem queueEvents_append (ev ev' : List Event) :
    queueEvents (ev ++ ev') = queueEvents ev ++ queueEvents ev' := List.filterMap_append

theorem samples_append (ev ev' : List Event) : samples (ev ++ ev') = samples ev ++ samples ev' :=
  List.filterMap_append

@[simp] theorem queueEvents_queue (o : List MsgInterface.Event) : queueEvents (o.map .queue) = o := by
  induction o with
  | nil => rfl
  | cons e o ih => exact congrArg (e :: ·) ih

@[simp] theorem samples_queue (o : List MsgInterface.Event) : samples (o.map .queue) = [] := by
  induction o with
  | nil => rfl
  | cons e o ih => exact ih

theorem puts_append (ev ev' : List MsgInterface.Event) : puts (ev ++ ev') = puts ev ++ puts ev' :=
  List.filterMap_append

/-! ### Steps -/

/-- A call puts a message about the link in the step after which it has none to put. -/
theorem unput_step {q : Queue} {c : MsgInterface.Call} (h : Asks c → q.nMsg < msgMaxLen) :
    (puts (c.step q).2.2).countP IsLinkDown + (c.step q).2.1.elim 0 unput = unput c := by
  cases c with
  | publish m pc =>
    cases pc with
    | check =>
      unfold Call.step publishStep
      by_cases hroom : q.nMsg < msgMaxLen
      · simp [hroom, puts, unput]
      · have hother : ¬ IsLinkDown m := fun hm => hroom (h hm)
        simp [hroom, puts, unput, hother]
    | writePush i => simp [Call.step, publishStep, puts, unput]
    | _ => exact Nat.zero_add _
  | getNext pc =>
    cases pc with
    | check =>
      unfold Call.step getStep
      by_cases hn : q.nMsg > 0
      · simp [hn, puts, unput]
      · simp [hn, puts, unput]
    | _ => rfl

/-- Every loss of the link is a message put into the queue, or in a call that
will put it, and `link_status` is what the link was at last. -/
structure Holds (s : State) (ev : List Event) : Prop where
  queue : ∃ pending, Inv s.ms (queueEvents ev) pending
  status : s.linkStatus ≠ 0 ↔ (samples ev).getLastD true = true
  count : (puts (queueEvents ev)).countP IsLinkDown + unputs s.ms.calls = drops true (samples ev)

theorem holds_start (q : Queue) : Holds (start q) [] where
  queue := ⟨[], Tally.init q, trivial, fun _ hc => by cases hc⟩
  status := iff_of_true (show (1 : UInt8) ≠ 0 by decide) rfl
  count := rfl

/-- A step of the queue's that puts what the calls were to put. -/
theorem Holds.queue_step {s : State} {ev : List Event} (h : Holds s ev) {a : MsgInterface.Act}
    {ms' : MsgInterface.State} {o : List MsgInterface.Event} (hsafe : Safe s.ms a)
    (hstep : MsgInterface.step s.ms a = .ok (ms', o))
    (hput : (puts o).countP IsLinkDown + unputs ms'.calls = unputs s.ms.calls) (taken : Option MsgBody) :
    Holds ⟨ms', taken, s.linkStatus⟩ (ev ++ o.map .queue) := by
  obtain ⟨pending, hinv⟩ := h.queue
  refine ⟨?_, ?_, ?_⟩
  · rw [queueEvents_append, queueEvents_queue]
    exact hinv.step_inv hsafe hstep
  · rw [samples_append, samples_queue, List.append_nil]
    exact h.status
  · rw [queueEvents_append, queueEvents_queue, samples_append, samples_queue, List.append_nil,
      puts_append, List.countP_append, Nat.add_assoc, hput]
    exact h.count

theorem publish_ok {ms ms' : MsgInterface.State} {level : Level} {m : MsgBody} {o : List MsgInterface.Event}
    (h : MsgInterface.step ms (.publish level m) = .ok (ms', o)) :
    o = [] ∧ ms'.calls = (level, .publish m .check) :: ms.calls := by
  simp only [MsgInterface.step] at h
  split at h
  · obtain ⟨rfl, rfl⟩ := Prod.mk.inj (Except.ok.inj h)
    exact ⟨rfl, rfl⟩
  · cases h

theorem getNext_ok {ms ms' : MsgInterface.State} {level : Level} {o : List MsgInterface.Event}
    (h : MsgInterface.step ms (.getNext level) = .ok (ms', o)) :
    o = [] ∧ ms.calls = [] ∧ ms'.calls = [(level, .getNext .check)] := by
  simp only [MsgInterface.step] at h
  split at h
  next hidle =>
    obtain ⟨rfl, rfl⟩ := Prod.mk.inj (Except.ok.inj h)
    exact ⟨rfl, hidle, rfl⟩
  · cases h

theorem unputs_call {ms ms' : MsgInterface.State} {o : List MsgInterface.Event}
    (h : MsgInterface.step ms .step = .ok (ms', o))
    (hroom : ∀ c ∈ ms.calls.head?, Asks c.2 → ms.q.nMsg < msgMaxLen) :
    (puts o).countP IsLinkDown + unputs ms'.calls = unputs ms.calls := by
  obtain ⟨q, calls⟩ := ms
  cases calls with
  | nil => cases h
  | cons c below =>
    obtain ⟨level, call⟩ := c
    obtain ⟨rfl, rfl⟩ := Prod.mk.inj (Except.ok.inj h)
    have hone := unput_step (hroom _ rfl)
    unfold unputs
    rw [List.map_cons, List.sum_cons, ← hone, List.map_append, List.sum_append, Nat.add_assoc]
    cases (call.step q).2.1 <;> rfl

/-- A handler has nothing to do with the link, or samples it. -/
theorem handler_cases (m : MsgBody) (reg29 : UInt16) (linkStatus : UInt8) :
    ((handler m reg29 linkStatus).1 = linkStatus ∧ published (handler m reg29 linkStatus).2 = [] ∧
      sampled reg29 (handler m reg29 linkStatus).2 = []) ∨
    ((handler m reg29 linkStatus).1 = (if lan8720GetLink reg29 ≠ 0 then 0 else 1) ∧
      published (handler m reg29 linkStatus).2 =
        (if lan8720GetLink reg29 ≠ 0 ∧ linkStatus ≠ 0 then [⟨msgLinkDown, 0⟩] else []) ∧
      sampled reg29 (handler m reg29 linkStatus).2 = [.sample (lan8720GetLink reg29 = 0)]) := by
  unfold handler
  by_cases htick : m.msg = msgWorktick
  · rw [if_pos htick]
    by_cases h9 : m.para = 9
    · obtain ⟨hstatus, hpub, hread⟩ := onWorkTick_nine reg29 linkStatus
      rw [h9]
      exact .inr ⟨hstatus, hpub, if_pos hread⟩
    · obtain ⟨hstatus, hpub, hread⟩ := onWorkTick_of_ne reg29 linkStatus h9
      exact .inl ⟨hstatus, hpub, if_neg hread⟩
  · rw [if_neg htick]
    exact .inl ⟨rfl, rfl, if_neg List.not_mem_nil⟩

/-- A sample of the link, after which the call of the handler is still to come. -/
theorem Holds.sample {s : State} {ev : List Event} (h : Holds s ev) (hidle : s.ms.calls = []) {u : Bool}
    {linkStatus : UInt8} (hstatus : linkStatus ≠ 0 ↔ u = true) {ms : List MsgBody}
    (hms : ms = if s.linkStatus ≠ 0 ∧ u = false then [⟨msgLinkDown, 0⟩] else []) :
    Holds ⟨⟨s.ms.q, ms.map fun m => (.main, .publish m .check)⟩, none, linkStatus⟩ (ev ++ [.sample u]) := by
  obtain ⟨⟨q, calls⟩, taken, ls⟩ := s
  obtain rfl : calls = [] := hidle
  obtain ⟨pending, hinv⟩ := h.queue
  have hcount : (puts (queueEvents ev)).countP IsLinkDown = drops true (samples ev) := h.count
  have hqueue : queueEvents (ev ++ [.sample u]) = queueEvents ev := by
    rw [queueEvents_append]
    exact List.append_nil _
  have hsamples : samples (ev ++ [.sample u]) = samples ev ++ [u] := samples_append _ _
  have hlast : ls ≠ 0 ∧ u = false ↔ ((samples ev).getLastD true && !u) = true := by
    rw [Bool.and_eq_true, Bool.not_eq_true', ← h.status]
  refine ⟨⟨pending, ?_⟩, ?_, ?_⟩
  · rw [hqueue, hms]
    split
    · exact hinv.publish_starts
    · exact hinv
  · rw [hsamples, hstatus]
    simp
  · rw [hqueue, hsamples, drops_concat, hcount, hms]
    simp only [hlast]
    split <;> rfl

theorem Holds.handle {ms : MsgInterface.State} {m : MsgBody} {linkStatus : UInt8} {ev : List Event}
    (h : Holds ⟨ms, some m, linkStatus⟩ ev) (hidle : ms.calls = []) (reg29 : UInt16) :
    Holds ⟨⟨ms.q, (published (handler m reg29 linkStatus).2).map fun m => (.main, .publish m .check)⟩, none,
      (handler m reg29 linkStatus).1⟩ (ev ++ sampled reg29 (handler m reg29 linkStatus).2) := by
  rcases handler_cases m reg29 linkStatus with ⟨hstatus, hpub, hsam⟩ | ⟨hstatus, hpub, hsam⟩
  · rw [hstatus, hpub, hsam, List.append_nil, List.map_nil]
    obtain ⟨q, calls⟩ := ms
    obtain rfl : calls = [] := hidle
    exact ⟨h.queue, h.status, h.count⟩
  · rw [hsam]
    refine h.sample hidle ?_ ?_
    · rw [hstatus]
      by_cases hdown : lan8720GetLink reg29 = 0
      · simp [hdown]
      · simp [hdown]
    · rw [hpub]
      simp [and_comm]

/-- **One step.** -/
theorem holds_step {s s' : State} {a : Act} {ev o : List Event} (h : Holds s ev) (hkept : Kept s a)
    (hstep : step s a = .ok (s', o)) : Holds s' (ev ++ o) := by
  cases a with
  | publish level m =>
    simp only [step] at hstep
    split at hstep
    next hother =>
      obtain ⟨⟨ms', e⟩, hms, hr⟩ := map_ok_iff.mp hstep
      obtain ⟨rfl, rfl⟩ := Prod.mk.inj hr
      obtain ⟨rfl, hcalls⟩ := publish_ok hms
      refine h.queue_step (fun ha => by cases ha) hms ?_ s.taken
      rw [hcalls]
      simp [puts, unputs, unput, IsLinkDown, hother.1]
    · cases hstep
  | call =>
    obtain ⟨hsafe, hroom⟩ := hkept rfl
    obtain ⟨⟨ms', e⟩, hms, hr⟩ := map_ok_iff.mp hstep
    obtain ⟨rfl, rfl⟩ := Prod.mk.inj hr
    exact h.queue_step hsafe hms (unputs_call hms hroom) _
  | getNext =>
    simp only [step] at hstep
    split at hstep
    · obtain ⟨⟨ms', e⟩, hms, hr⟩ := map_ok_iff.mp hstep
      obtain ⟨rfl, rfl⟩ := Prod.mk.inj hr
      obtain ⟨rfl, hidle, hcalls⟩ := getNext_ok hms
      refine h.queue_step (fun ha => by cases ha) hms ?_ s.taken
      rw [hidle, hcalls]
      rfl
    · cases hstep
  | handle reg29 =>
    obtain ⟨ms, taken, linkStatus⟩ := s
    cases taken with
    | none => cases hstep
    | some m =>
      simp only [step] at hstep
      split at hstep
      next hidle =>
        obtain ⟨rfl, rfl⟩ := Prod.mk.inj (Except.ok.inj hstep)
        exact h.handle hidle reg29
      · cases hstep

/-! ### Undisturbed turns -/

def calls (k : ℕ) : List Act := List.replicate k .call

/-- The calls of the queue run as they do without the main loop. -/
theorem run_calls (k : ℕ) {ms ms' : MsgInterface.State} {o : List MsgInterface.Event}
    (taken : Option MsgBody) (linkStatus : UInt8)
    (h : run MsgInterface.step ms (List.replicate k .step) = .ok (ms', o)) :
    run step ⟨ms, taken, linkStatus⟩ (calls k) =
      .ok (⟨ms', (gots o).getLast?.or taken, linkStatus⟩, o.map .queue) := by
  induction k generalizing ms o taken with
  | zero =>
    obtain ⟨rfl, rfl⟩ := Prod.mk.inj (Except.ok.inj h)
    rfl
  | succ k ih =>
    obtain ⟨ms₁, o₁, o₂, hstep, hrun, rfl⟩ := run_cons_ok.mp h
    have hgots : gots (o₁ ++ o₂) = gots o₁ ++ gots o₂ := List.filterMap_append
    have hcall : step ⟨ms, taken, linkStatus⟩ .call =
        .ok (⟨ms₁, (gots o₁).getLast?.or taken, linkStatus⟩, o₁.map .queue) := by
      rw [step, hstep]
      rfl
    refine run_cons_ok.mpr ⟨_, _, o₂.map .queue, hcall, ?_, List.map_append⟩
    rw [hgots, List.getLast?_append, Option.or_assoc]
    exact ih _ hrun

theorem getNextMsg_turn (q : Queue) (linkStatus : UInt8) : ∃ k o,
    run step ⟨⟨q, []⟩, none, linkStatus⟩ (.getNext :: calls k) =
      .ok (⟨⟨(getNextMsg q).2, []⟩, (getNextMsg q).1, linkStatus⟩, o) := by
  obtain ⟨k, hget⟩ := getNextMsg_undisturbed q .main
  obtain ⟨ms₁, o₁, o₂, hstart, hcalls, ho⟩ := run_cons_ok.mp hget
  obtain ⟨rfl, -, -⟩ := getNext_ok hstart
  obtain rfl : [(getNextMsg q).1.elim .empty .got] = o₂ := ho
  have htaken : (gots [(getNextMsg q).1.elim .empty .got]).getLast?.or none = (getNextMsg q).1 := by
    cases (getNextMsg q).1 <;> rfl
  have hrun := run_calls k none linkStatus hcalls
  rw [htaken] at hrun
  exact ⟨k, _, run_cons_ok.mpr ⟨_, _, _, by rw [step, if_pos rfl, hstart]; rfl, hrun, rfl⟩⟩

theorem publishMsg_turn (q : Queue) (m : MsgBody) (linkStatus : UInt8) : ∃ k o,
    run step ⟨⟨q, [(.main, .publish m .check)]⟩, none, linkStatus⟩ (calls k) =
      .ok (⟨⟨(publishMsg m q).2, []⟩, none, linkStatus⟩, o) := by
  have hidle : Preempts .main [] := nofun
  obtain ⟨k, hpub⟩ := publishMsg_undisturbed q m hidle
  obtain ⟨ms₁, o₁, o₂, hstart, hcalls, ho⟩ := run_cons_ok.mp hpub
  obtain ⟨rfl, rfl⟩ := Prod.mk.inj (Except.ok.inj hstart)
  rw [List.nil_append] at ho
  have htaken : (gots o₂).getLast?.or none = none := by
    rw [← ho]
    split <;> rfl
  have hrun := run_calls k none linkStatus hcalls
  rw [htaken] at hrun
  exact ⟨k, _, hrun⟩

/-- A turn that takes a message leaves what its handler does. -/
theorem processMsg_handler {f : Main.Firmware} {m : MsgBody} {q : Queue} (reg29 : UInt16)
    (h : getNextMsg f.queue = (some m, q)) :
    (Main.processMsg reg29 f).1.queue = Main.publishAll (published (handler m reg29 f.linkStatus).2) q ∧
      (Main.processMsg reg29 f).1.linkStatus = (handler m reg29 f.linkStatus).1 := by
  unfold Main.processMsg handler
  rw [h]
  dsimp only
  by_cases htick : m.msg = msgWorktick
  · rw [if_neg (by rw [htick]; decide), if_pos htick, if_pos htick]
    exact ⟨rfl, rfl⟩
  · rw [if_neg htick, if_neg htick]
    split_ifs
    · exact ⟨rfl, rfl⟩
    · exact ⟨rfl, rfl⟩
    · exact ⟨rfl, rfl⟩
    · exact ⟨rfl, rfl⟩

/-- What a handler publishes is put into the queue. -/
theorem handler_turn (m : MsgBody) (reg29 : UInt16) (linkStatus : UInt8) (q : Queue) : ∃ k o,
    run step ⟨⟨q, []⟩, some m, linkStatus⟩ (.handle reg29 :: calls k) =
      .ok (⟨⟨Main.publishAll (published (handler m reg29 linkStatus).2) q, []⟩, none,
        (handler m reg29 linkStatus).1⟩, o) := by
  have hone : published (handler m reg29 linkStatus).2 = [] ∨
      published (handler m reg29 linkStatus).2 = [⟨msgLinkDown, 0⟩] := by
    rcases handler_cases m reg29 linkStatus with ⟨-, hpub, -⟩ | ⟨-, hpub, -⟩
    · exact .inl hpub
    · rw [hpub]
      split
      · exact .inr rfl
      · exact .inl rfl
  have hcalls : ∃ k o, run step ⟨⟨q, (published (handler m reg29 linkStatus).2).map fun m =>
        (.main, .publish m .check)⟩, none, (handler m reg29 linkStatus).1⟩ (calls k) =
      .ok (⟨⟨Main.publishAll (published (handler m reg29 linkStatus).2) q, []⟩, none,
        (handler m reg29 linkStatus).1⟩, o) := by
    rcases hone with hpub | hpub
    · rw [hpub]
      exact ⟨0, [], rfl⟩
    · rw [hpub]
      exact publishMsg_turn q _ _
  obtain ⟨k, o, hrun⟩ := hcalls
  exact ⟨k, sampled reg29 (handler m reg29 linkStatus).2 ++ o,
    run_cons_ok.mpr ⟨_, _, _, rfl, hrun, rfl⟩⟩

/-- **A turn of the main loop that nothing disturbs is `processMsg`.** -/
theorem processMsg_undisturbed (f : Main.Firmware) (reg29 : UInt16) : ∃ k rest o,
    (rest = [] ∨ ∃ k', rest = .handle reg29 :: calls k') ∧
    run step ⟨⟨f.queue, []⟩, none, f.linkStatus⟩ (.getNext :: calls k ++ rest) =
      .ok (⟨⟨(Main.processMsg reg29 f).1.queue, []⟩, none, (Main.processMsg reg29 f).1.linkStatus⟩, o) := by
  obtain ⟨k, o, htake⟩ := getNextMsg_turn f.queue f.linkStatus
  rcases hnext : getNextMsg f.queue with ⟨m | m, q⟩
  · rw [hnext] at htake
    refine ⟨k, [], o, .inl rfl, ?_⟩
    rw [List.append_nil, htake, Main.processMsg, hnext]
  · rw [hnext] at htake
    obtain ⟨hqueue, hstatus⟩ := processMsg_handler reg29 hnext
    obtain ⟨k', o', hrun⟩ := handler_turn m reg29 f.linkStatus q
    rw [hqueue, hstatus]
    refine ⟨k, .handle reg29 :: calls k', o ++ o', .inr ⟨k', rfl⟩, ?_⟩
    exact run_append_ok.mpr ⟨_, _, _, htake, hrun, rfl⟩

/-! ### Runs -/

/-- **Every loss of the link is one message.** In a run whose steps are safe,
and in which the messages about the link find room, the messages put into the
queue and those a call is about to put are as many as the losses of the link;
whenever no call is in progress, so are the ones taken and the ones pending. -/
theorem link_losses {q : Queue} {acts : List Act} {s : State} {ev : List Event}
    (hkept : Meets step Kept (start q) acts) (h : run step (start q) acts = .ok (s, ev)) :
    (puts (queueEvents ev)).countP IsLinkDown + unputs s.ms.calls = drops true (samples ev) ∧
      (s.ms.calls = [] → (gots (queueEvents ev)).countP IsLinkDown + (pendingMsgs s.ms.q).countP IsLinkDown =
        drops true (samples ev)) := by
  have hend : Holds s ev := run_meets Holds Kept (fun s a s' o o' hI hP hs => holds_step hI hP hs) acts
    (holds_start q) hkept h
  refine ⟨hend.count, fun hidle => ?_⟩
  obtain ⟨pending, hinv⟩ := hend.queue
  have htally := hinv.tally
  have hcount := hend.count
  rw [hidle] at htally hcount
  obtain ⟨pending', horder, hlen, hring⟩ := htally.intact.fifo
  rw [← hcount, pendingMsgs_eq hring hlen, ← List.countP_append, ← horder]
  rfl

/-- The tick that reads the link is published and taken. -/
def tickTaken : List Act :=
  [[.publish .tim3 ⟨msgWorktick, 9⟩], calls 9, [.getNext], calls 9].flatten

/-- The link is down; a change of the configuration comes when `publishMsg` has found room. -/
def preemptedLoss : List Act :=
  [tickTaken, [.handle 0x10], calls 1, [.publish .ethExti ⟨msgConfigApply, 0⟩], calls 9, calls 8].flatten

/-- The message about the loss is pending. -/
theorem link_losses_preempted : ∃ s ev, run step (start zeroed) preemptedLoss = .ok (s, ev) ∧
    samples ev = [false] ∧ (pendingMsgs s.ms.q).countP IsLinkDown = 1 := by
  have hobs : (run step (start zeroed) preemptedLoss).toOption.map
      (fun r => (r.1.ms.calls, samples r.2, (gots (queueEvents r.2)).countP IsLinkDown)) =
        some ([], [false], 0) := by decide +kernel
  obtain ⟨s, ev, hrun, hr⟩ := run_observed _ hobs
  simp only [Prod.mk.injEq] at hr
  obtain ⟨hidle, hsamples, hgots⟩ := hr
  have hcount := (link_losses (by decide +kernel) hrun).2 hidle
  rw [hgots, hsamples, Nat.zero_add] at hcount
  exact ⟨s, ev, hrun, hsamples, hcount⟩

/-- The tick is among 64 messages, the others of which change the
configuration, and when it has been taken another one comes. -/
def fullLoss : List Act :=
  [[.publish .tim3 ⟨msgWorktick, 9⟩], calls 9,
    (List.replicate 63 (.publish .ethExti ⟨msgConfigApply, 0⟩ :: calls 9)).flatten, [.getNext], calls 9,
    [.publish .ethExti ⟨msgConfigApply, 0⟩], calls 9, [.handle 0x10], calls 1].flatten

/-- `publishMsg` has no room for the message about the loss, and nobody looks at its result. -/
theorem link_loss_lost : ¬ ∀ acts s ev, run step (start zeroed) acts = .ok (s, ev) → s.ms.calls = [] →
    (gots (queueEvents ev)).countP IsLinkDown + (pendingMsgs s.ms.q).countP IsLinkDown =
      drops true (samples ev) := by
  intro hall
  have hobs : (run step (start zeroed) fullLoss).toOption.map
      (fun r => (r.1.ms.calls, samples r.2, (gots (queueEvents r.2)).countP IsLinkDown,
        (pendingMsgs r.1.ms.q).countP IsLinkDown)) = some ([], [false], 0, 0) := by decide +kernel
  obtain ⟨s, ev, hrun, hr⟩ := run_observed _ hobs
  simp only [Prod.mk.injEq] at hr
  obtain ⟨hidle, hsamples, hgots, hpending⟩ := hr
  have hcount := hall fullLoss s ev hrun hidle
  rw [hgots, hpending, hsamples] at hcount
  cases hcount

end LinkLoss
end Serial2Ethernet
