/-
# The message queue under preemption

What the calls in progress leave of the queue: the messages taken, the one a
`getNextMsg` has read, and the ones the ring holds are the messages put, in
this order, and `nMsg` is short of that by what is not counted yet (`Tally`).

A `publishMsg` may come between the steps of other calls, as long as none of
them holds a register that it makes stale, and there is room for the messages
of all that have passed the check. In a run whose steps all keep to this
(`Safe`) the queue is intact whenever no call is in progress
(`intact_of_safe`). Else it need not be: a `publishMsg` between the two halves
of a `nMsg++` is not counted (`publishMsg_lost`).
-/
import Serial2Ethernet.System.MsgInterface

namespace Serial2Ethernet
namespace MsgInterface

open Lib

/-! ### What the calls have told -/

/-- The messages put into the queue, in order. -/
def puts (ev : List Event) : List MsgBody :=
  ev.filterMap fun | .put m => some m | _ => none

/-- The messages of the calls of `publishMsg` that returned 0. -/
def publishes (ev : List Event) : List MsgBody :=
  ev.filterMap fun | .published m => some m | _ => none

/-- The messages of the calls of `getNextMsg` that returned 0. -/
def gots (ev : List Event) : List MsgBody :=
  ev.filterMap fun | .got m => some m | _ => none

/-- The queue when no call is in progress: `nMsg` counts the messages
published and not taken, and they stand between the two indices, in the
order in which they were put behind those taken. -/
structure Intact (q : Queue) (ev : List Event) : Prop where
  number : q.nMsg + (gots ev).length = (publishes ev).length
  push : q.iMsgPush = (q.iMsgPull + q.nMsg) % msgMaxLen
  fifo : ∃ pending, puts ev = gots ev ++ pending ∧ pending.length = q.nMsg ∧
    RingHolds q.msgList q.iMsgPull pending
  told : (puts ev).Perm (publishes ev)

/-! ### How far a call is -/

/-- The phases of `publishMsg` (the first three) and of `getNextMsg`. -/
inductive Phase
  /-- The room is not checked. -/
  | before
  /-- The room is checked, and the message is not put yet. -/
  | filling
  /-- The message is put, and not counted yet. -/
  | put (m : MsgBody)
  /-- The message is not read. -/
  | reading
  /-- The message is read, and the index still points to it. -/
  | loaded (m : MsgBody)
  /-- The message is pulled, and still counted. -/
  | pulled (m : MsgBody)
  deriving DecidableEq, Repr

def Call.phase : Call → Phase
  | .publish _ .check => .before
  | .publish m .readNum | .publish m (.writeNum _) => .put m
  | .publish _ _ => .filling
  | .getNext (.readPull m) | .getNext (.writePull m _) => .loaded m
  | .getNext (.readNum m) | .getNext (.writeNum m _) => .pulled m
  | .getNext _ => .reading

namespace Phase

/-- The room it has been promised. -/
@[simp] def reserved : Phase → ℕ
  | .filling => 1
  | _ => 0

/-- The message put and not counted yet. -/
@[simp] def uncounted : Phase → List MsgBody
  | .put m => [m]
  | _ => []

/-- The message read and still counted. -/
@[simp] def taken : Phase → List MsgBody
  | .loaded m | .pulled m => [m]
  | _ => []

/-- The places the index is behind. -/
@[simp] def behind : Phase → ℕ
  | .loaded _ => 1
  | _ => 0

/-- It is one of a `publishMsg` past its check. -/
def Adds : Phase → Prop
  | .filling | .put _ => True
  | .before | .reading | .loaded _ | .pulled _ => False

/-- It is one of `publishMsg`. -/
def Publishes : Phase → Prop
  | .before | .filling | .put _ => True
  | .reading | .loaded _ | .pulled _ => False

end Phase

def reserved (ps : List Phase) : ℕ := (ps.map Phase.reserved).sum

def uncounted (ps : List Phase) : List MsgBody := ps.flatMap Phase.uncounted

def taken (ps : List Phase) : List MsgBody := ps.flatMap Phase.taken

def behind (ps : List Phase) : ℕ := (ps.map Phase.behind).sum

def phases (calls : List (Level × Call)) : List Phase := calls.map fun c => c.2.phase

section
variable (p : Phase) (ps : List Phase)

@[simp] theorem reserved_nil : reserved [] = 0 := rfl

@[simp] theorem uncounted_nil : uncounted [] = [] := rfl

@[simp] theorem taken_nil : taken [] = [] := rfl

@[simp] theorem behind_nil : behind [] = 0 := rfl

@[simp] theorem reserved_cons : reserved (p :: ps) = p.reserved + reserved ps := List.sum_cons

@[simp] theorem uncounted_cons : uncounted (p :: ps) = p.uncounted ++ uncounted ps := List.flatMap_cons

@[simp] theorem taken_cons : taken (p :: ps) = p.taken ++ taken ps := List.flatMap_cons

@[simp] theorem behind_cons : behind (p :: ps) = p.behind + behind ps := List.sum_cons

end

/-- No register of the call holds what an addition to the queue changes. -/
def Call.Steady : Call → Prop
  | .publish _ .check | .publish _ .readMsg | .publish _ .readNum => True
  | .publish _ _ => False
  | .getNext (.writeNum _ _) => False
  | .getNext _ => True

instance : ∀ c : Call, Decidable c.Steady
  | .publish _ .check | .publish _ .readMsg | .publish _ .readNum => .isTrue trivial
  | .publish _ (.writeMsg _) | .publish _ .readPara | .publish _ (.writePara _)
  | .publish _ .readPush | .publish _ (.writePush _) | .publish _ (.writeNum _) => .isFalse id
  | .getNext (.writeNum _ _) => .isFalse id
  | .getNext .check | .getNext .readMsg | .getNext (.loadMsg _) | .getNext (.readPara _)
  | .getNext (.loadPara _ _) | .getNext (.readPull _) | .getNext (.writePull _ _)
  | .getNext (.readNum _) => .isTrue trivial

/-- A message may be added above these calls. -/
def Addable (q : Queue) (below : List (Level × Call)) : Prop :=
  (∀ c ∈ below, c.2.Steady) ∧
  q.nMsg + (uncounted (phases below)).length + reserved (phases below) <
    msgMaxLen + (taken (phases below)).length

instance (q : Queue) (below : List (Level × Call)) : Decidable (Addable q below) :=
  inferInstanceAs (Decidable (_ ∧ _))

/-- No `publishMsg` passes its check where no message may be added. -/
def Safe (s : State) (a : Act) : Prop :=
  a = .step → (∃ c ∈ s.calls.head?, c.2.phase = .before) → s.q.nMsg < msgMaxLen →
    Addable s.q s.calls.tail

instance (s : State) (a : Act) : Decidable (Safe s a) :=
  inferInstanceAs (Decidable (_ → _ → _ → _))

/-! ### The tally of the queue -/

/-- The queue, with calls in progress in these phases. -/
structure Tally (q : Queue) (ps : List Phase) (ev : List Event) (pending : List MsgBody) : Prop where
  ring : RingHolds q.msgList (slot q.iMsgPull (behind ps)) pending
  push : q.iMsgPush = slot q.iMsgPull (behind ps + pending.length)
  count : pending.length + (taken ps).length = q.nMsg + (uncounted ps).length
  room : pending.length + reserved ps ≤ msgMaxLen
  order : puts ev = gots ev ++ taken ps ++ pending
  told : (puts ev).Perm (publishes ev ++ uncounted ps)

namespace Tally

variable {q : Queue} {ps : List Phase} {ev : List Event} {pending : List MsgBody} {m : MsgBody}

theorem init (q : Queue) : Tally (initMsgInterface q) [] [] [] where
  ring := RingHolds.nil
  push := rfl
  count := rfl
  room := Nat.zero_le _
  order := rfl
  told := List.Perm.refl _

/-- With no call in progress the queue is intact. -/
theorem intact (h : Tally q [] ev pending) : Intact q ev := by
  have hcount : pending.length = q.nMsg := h.count
  have hring : RingHolds q.msgList q.iMsgPull pending := by simpa using h.ring
  have horder : puts ev = gots ev ++ pending := by simpa using h.order
  have htold : (puts ev).Perm (publishes ev) := by simpa using h.told
  refine ⟨?_, ?_, ⟨pending, horder, hcount, hring⟩, htold⟩
  · calc q.nMsg + (gots ev).length = (puts ev).length := by
          rw [horder, List.length_append, hcount, Nat.add_comm]
      _ = (publishes ev).length := htold.length_eq
  · rw [h.push, ← hcount]
    simp [slot, behind, msgMaxLen]

/-- Only these four of the phases matter. -/
theorem congr {ps' : List Phase} (h : Tally q ps ev pending) (hr : reserved ps' = reserved ps)
    (hu : uncounted ps' = uncounted ps) (ht : taken ps' = taken ps) (hb : behind ps' = behind ps) :
    Tally q ps' ev pending where
  ring := by rw [hb]; exact h.ring
  push := by rw [hb]; exact h.push
  count := by rw [ht, hu]; exact h.count
  room := by rw [hr]; exact h.room
  order := by rw [ht]; exact h.order
  told := by rw [hu]; exact h.told

theorem before_iff : Tally q (.before :: ps) ev pending ↔ Tally q ps ev pending := by
  constructor <;> intro h <;>
    exact h.congr (by simp) (by simp) (by simp) (by simp)

theorem reading_iff : Tally q (.reading :: ps) ev pending ↔ Tally q ps ev pending := by
  constructor <;> intro h <;>
    exact h.congr (by simp) (by simp) (by simp) (by simp)

theorem refused (h : Tally q ps ev pending) : Tally q ps (ev ++ [.refused m]) pending where
  ring := h.ring
  push := h.push
  count := h.count
  room := h.room
  order := by simpa [puts, gots] using h.order
  told := by simpa [puts, publishes] using h.told

theorem empty (h : Tally q ps ev pending) : Tally q ps (ev ++ [.empty]) pending where
  ring := h.ring
  push := h.push
  count := h.count
  room := h.room
  order := by simpa [puts, gots] using h.order
  told := by simpa [puts, publishes] using h.told

/-- The check of `publishMsg` promises room. -/
theorem reserve (h : Tally q ps ev pending) (hroom : pending.length + MsgInterface.reserved ps < msgMaxLen) :
    Tally q (.filling :: ps) ev pending where
  ring := by simpa using h.ring
  push := by simpa using h.push
  count := by simpa using h.count
  room := by
    rw [reserved_cons, Phase.reserved]
    omega
  order := by simpa using h.order
  told := by simpa using h.told

/-- The slot that `publishMsg` writes to is behind the messages. -/
theorem fill (h : Tally q (.filling :: ps) ev pending) (x : MsgBody) :
    Tally { q with msgList := Function.update q.msgList q.iMsgPush x } (.filling :: ps) ev pending where
  ring := by
    have hroom : pending.length < 64 := by
      have hle := h.room
      rw [reserved_cons, Phase.reserved, msgMaxLen] at hle
      omega
    have hpush : q.iMsgPush = slot (slot q.iMsgPull (behind (.filling :: ps))) pending.length := by
      rw [slot_slot]
      exact h.push
    dsimp only
    rw [hpush]
    exact h.ring.write hroom x
  push := h.push
  count := h.count
  room := h.room
  order := h.order
  told := h.told

/-- The message in the slot is put by taking the index one further. -/
theorem put (h : Tally q (.filling :: ps) ev pending) (hm : q.msgList q.iMsgPush = m) :
    Tally { q with iMsgPush := slot q.iMsgPush 1 } (.put m :: ps) (ev ++ [.put m]) (pending ++ [m]) where
  ring := by
    have hring : RingHolds q.msgList (slot q.iMsgPull (behind ps)) pending := by simpa using h.ring
    have hpush : q.iMsgPush = slot (slot q.iMsgPull (behind ps)) pending.length := by
      rw [slot_slot]
      simpa using h.push
    have hsnoc := hring.snoc (x := m) (by rw [← hpush]; exact hm)
    simpa using hsnoc
  push := by
    have hpush := h.push
    simp only [behind_cons, Phase.behind, Nat.zero_add] at hpush ⊢
    rw [hpush, slot_slot, List.length_append, List.length_singleton, Nat.add_assoc]
  count := by
    have hcount := h.count
    simp only [taken_cons, uncounted_cons, Phase.taken, Phase.uncounted, List.nil_append,
      List.length_append, List.length_singleton] at hcount ⊢
    omega
  room := by
    have hroom := h.room
    simp only [reserved_cons, Phase.reserved, List.length_append, List.length_singleton] at hroom ⊢
    omega
  order := by
    have horder := h.order
    simp only [puts, gots, taken_cons, Phase.taken, List.nil_append, List.filterMap_append] at horder ⊢
    simp [horder]
  told := by
    have htold := h.told
    simp only [puts, publishes, uncounted_cons, Phase.uncounted, List.nil_append,
      List.filterMap_append] at htold ⊢
    simpa using List.perm_append_comm.trans ((htold.cons m).trans List.perm_middle.symm)

/-- What has been put is counted. -/
theorem counted (h : Tally q (.put m :: ps) ev pending) :
    Tally { q with nMsg := q.nMsg + 1 } ps (ev ++ [.published m]) pending where
  ring := by simpa using h.ring
  push := by simpa using h.push
  count := by
    have hcount := h.count
    simp only [taken_cons, uncounted_cons, Phase.taken, Phase.uncounted, List.nil_append,
      List.length_append, List.length_singleton] at hcount ⊢
    omega
  room := by simpa using h.room
  order := by simpa [puts, gots] using h.order
  told := by simpa [puts, publishes] using h.told

/-- The head of the messages is read. -/
theorem load (h : Tally q [.reading] ev (m :: pending)) : Tally q [.loaded m] ev pending where
  ring := by simpa using h.ring.tail
  push := by simpa [Nat.add_comm] using h.push
  count := by simpa [Nat.add_comm] using h.count
  room := by
    have hroom : pending.length + 1 ≤ msgMaxLen := by simpa using h.room
    simpa using Nat.le_of_succ_le hroom
  order := by simpa using h.order
  told := by simpa using h.told

/-- The index is taken past the message read. -/
theorem pull (h : Tally q [.loaded m] ev pending) :
    Tally { q with iMsgPull := slot q.iMsgPull 1 } [.pulled m] ev pending where
  ring := by simpa using h.ring
  push := by simpa using h.push
  count := h.count
  room := h.room
  order := h.order
  told := h.told

/-- The message pulled is no longer counted. -/
theorem countedOff (h : Tally q [.pulled m] ev pending) :
    Tally { q with nMsg := q.nMsg - 1 } [] (ev ++ [.got m]) pending where
  ring := by simpa using h.ring
  push := by simpa using h.push
  count := by
    have hcount : pending.length + 1 = q.nMsg := by simpa using h.count
    simp only [taken_nil, uncounted_nil, List.length_nil]
    omega
  room := h.room
  order := by simpa [puts, gots] using h.order
  told := by simpa [puts, publishes] using h.told

end Tally

/-! ### What a call has read -/

/-- What a call of `publishMsg` has read and written so far still holds. -/
def PublishPc.Valid (q : Queue) (m : MsgBody) : PublishPc → Prop
  | .check | .readMsg | .readNum => True
  | .writeMsg i => i = q.iMsgPush
  | .readPara => (q.msgList q.iMsgPush).msg = m.msg
  | .writePara i => i = q.iMsgPush ∧ (q.msgList q.iMsgPush).msg = m.msg
  | .readPush => q.msgList q.iMsgPush = m
  | .writePush i => i = q.iMsgPush ∧ q.msgList q.iMsgPush = m
  | .writeNum n => n = q.nMsg

/-- What a call of `getNextMsg` has read so far still holds. -/
def GetPc.Valid (q : Queue) (pending : List MsgBody) : GetPc → Prop
  | .check | .readPull _ | .readNum _ => True
  | .readMsg => ∃ m, pending.head? = some m
  | .loadMsg i => i = q.iMsgPull ∧ ∃ m, pending.head? = some m
  | .readPara msg => ∃ m, pending.head? = some m ∧ m.msg = msg
  | .loadPara msg i => i = q.iMsgPull ∧ ∃ m, pending.head? = some m ∧ m.msg = msg
  | .writePull _ i => i = q.iMsgPull
  | .writeNum _ n => n = q.nMsg

def Call.Valid (q : Queue) (pending : List MsgBody) : Call → Prop
  | .publish m pc => pc.Valid q m
  | .getNext pc => pc.Valid q pending

/-- What a steady call has read still holds after an addition to the queue. -/
theorem Call.Steady.valid {c : Call} (hc : c.Steady) {q q' : Queue} {pending pending' : List MsgBody}
    (h : c.Valid q pending) (hpull : q'.iMsgPull = q.iMsgPull)
    (hhead : ∀ m, pending.head? = some m → pending'.head? = some m) : c.Valid q' pending' := by
  cases c with
  | publish m pc =>
    cases pc with
    | check => trivial
    | readMsg => trivial
    | readNum => trivial
    | _ => exact absurd hc id
  | getNext pc =>
    unfold Call.Valid at h ⊢
    cases pc with
    | check => trivial
    | readMsg =>
      obtain ⟨m, hm⟩ := h
      exact ⟨m, hhead m hm⟩
    | loadMsg i =>
      obtain ⟨hi, m, hm⟩ := h
      exact ⟨hi.trans hpull.symm, m, hhead m hm⟩
    | readPara msg =>
      obtain ⟨m, hm, hmsg⟩ := h
      exact ⟨m, hhead m hm, hmsg⟩
    | loadPara msg i =>
      obtain ⟨hi, m, hm, hmsg⟩ := h
      exact ⟨hi.trans hpull.symm, m, hhead m hm, hmsg⟩
    | readPull m => trivial
    | writePull m i => exact Eq.trans h hpull.symm
    | readNum m => trivial
    | writeNum m n => exact absurd hc id

/-- Above any call are calls of `publishMsg` only, and below one that is past
its check are steady calls only. -/
def Nested : List (Level × Call) → Prop
  | [] => True
  | c :: below => (below ≠ [] → c.2.phase.Publishes) ∧ (c.2.phase.Adds → ∀ b ∈ below, b.2.Steady) ∧
      Nested below

/-- The invariant of the safe runs. -/
structure Inv (s : State) (ev : List Event) (pending : List MsgBody) : Prop where
  tally : Tally s.q (phases s.calls) ev pending
  nested : Nested s.calls
  valid : ∀ c ∈ s.calls, c.2.Valid s.q pending

namespace Inv

variable {q q' : Queue} {level : Level} {c c' : Call} {below : List (Level × Call)}
  {ev ev' : List Event} {pending pending' : List MsgBody} {m : MsgBody}

/-- Below a call of `getNextMsg` is nothing. -/
theorem getNext_last {pc : GetPc} (h : Inv ⟨q, (level, .getNext pc) :: below⟩ ev pending) : below = [] := by
  by_contra hne
  have hpub := h.nested.1 hne
  cases pc <;> exact hpub

/-- A step that changes nothing but what the call has read. -/
theorem reads (h : Inv ⟨q, (level, c) :: below⟩ ev pending) (hphase : c'.phase = c.phase)
    (hvalid : c'.Valid q pending) : Inv ⟨q, (level, c') :: below⟩ ev pending where
  tally := by
    have htally := h.tally
    simp only [phases, List.map_cons] at htally ⊢
    rw [hphase]
    exact htally
  nested := by
    have hnested := h.nested
    unfold Nested at hnested ⊢
    dsimp only at hnested ⊢
    rw [hphase]
    exact hnested
  valid := by
    intro b hb
    rcases List.mem_cons.mp hb with rfl | hb
    · exact hvalid
    · exact h.valid b (List.mem_cons_of_mem _ hb)

/-- A step of a `publishMsg` that is past its check: the calls below are steady. -/
theorem adds (h : Inv ⟨q, (level, c) :: below⟩ ev pending) (hc : c.phase.Adds)
    (hc' : c'.phase.Publishes) (hpull : q'.iMsgPull = q.iMsgPull)
    (hhead : ∀ m, pending.head? = some m → pending'.head? = some m)
    (htally : Tally q' (c'.phase :: phases below) ev' pending') (hvalid : c'.Valid q' pending') :
    Inv ⟨q', (level, c') :: below⟩ ev' pending' where
  tally := htally
  nested := ⟨fun _ => hc', fun _ => h.nested.2.1 hc, h.nested.2.2⟩
  valid := by
    intro b hb
    rcases List.mem_cons.mp hb with rfl | hb
    · exact hvalid
    · exact (h.nested.2.1 hc b hb).valid (h.valid b (List.mem_cons_of_mem _ hb)) hpull hhead

theorem returns (h : Inv ⟨q, (level, c) :: below⟩ ev pending) (htally : Tally q' (phases below) ev' pending)
    (hvalid : ∀ b ∈ below, b.2.Valid q' pending) : Inv ⟨q', below⟩ ev' pending where
  tally := htally
  nested := h.nested.2.2
  valid := hvalid

/-- `publishMsg` at its check. -/
theorem publish_check (h : Inv ⟨q, (level, .publish m .check) :: below⟩ ev pending)
    (hsafe : q.nMsg < msgMaxLen → Addable q below) (hroom : q.nMsg < msgMaxLen) :
    Inv ⟨q, (level, .publish m .readMsg) :: below⟩ ev pending := by
  have htally : Tally q (phases below) ev pending := Tally.before_iff.mp h.tally
  obtain ⟨hsteady, hadd⟩ := hsafe hroom
  have hcount := htally.count
  exact {
    tally := htally.reserve (by omega)
    nested := ⟨fun _ => trivial, fun _ => hsteady, h.nested.2.2⟩
    valid := by
      intro b hb
      rcases List.mem_cons.mp hb with rfl | hb
      · trivial
      · exact h.valid b (List.mem_cons_of_mem _ hb) }

/-- **The steps of `publishMsg`** keep the invariant. -/
theorem publish_step {pc : PublishPc} (h : Inv ⟨q, (level, .publish m pc) :: below⟩ ev pending)
    (hsafe : pc = .check → q.nMsg < msgMaxLen → Addable q below) : ∃ pending',
    Inv ⟨(publishStep q m pc).1, ((publishStep q m pc).2.1.map fun pc => (level, .publish m pc)).toList ++ below⟩
      (ev ++ (publishStep q m pc).2.2) pending' := by
  have hself := h.valid _ List.mem_cons_self
  cases pc with
  | check =>
    refine ⟨pending, ?_⟩
    unfold publishStep
    by_cases hroom : q.nMsg < msgMaxLen
    · simp only [if_pos hroom, List.append_nil]
      exact h.publish_check (hsafe rfl) hroom
    · simp only [if_neg hroom]
      exact h.returns (Tally.before_iff.mp h.tally).refused fun b hb => h.valid b (List.mem_cons_of_mem _ hb)
  | readMsg =>
    refine ⟨pending, ?_⟩
    simp only [publishStep, List.append_nil]
    exact h.reads rfl rfl
  | writeMsg i =>
    refine ⟨pending, ?_⟩
    have hi : i = q.iMsgPush := hself
    simp only [publishStep, List.append_nil, hi]
    refine h.adds trivial trivial rfl (fun _ hm => hm) (h.tally.fill _) ?_
    show (Function.update q.msgList q.iMsgPush _ q.iMsgPush).msg = m.msg
    rw [Function.update_self]
  | readPara =>
    refine ⟨pending, ?_⟩
    simp only [publishStep, List.append_nil]
    exact h.reads rfl ⟨rfl, hself⟩
  | writePara i =>
    refine ⟨pending, ?_⟩
    obtain ⟨hi, hmsg⟩ : i = q.iMsgPush ∧ (q.msgList q.iMsgPush).msg = m.msg := hself
    simp only [publishStep, List.append_nil, hi]
    refine h.adds trivial trivial rfl (fun _ hm => hm) (h.tally.fill _) ?_
    show Function.update q.msgList q.iMsgPush _ q.iMsgPush = m
    rw [Function.update_self, hmsg]
  | readPush =>
    refine ⟨pending, ?_⟩
    simp only [publishStep, List.append_nil]
    exact h.reads rfl ⟨rfl, hself⟩
  | writePush i =>
    refine ⟨pending ++ [m], ?_⟩
    obtain ⟨hi, hmsg⟩ : i = q.iMsgPush ∧ q.msgList q.iMsgPush = m := hself
    simp only [publishStep, hi]
    refine h.adds trivial trivial rfl ?_ (h.tally.put hmsg) trivial
    intro m' hm'
    rw [List.head?_append, hm', Option.some_or]
  | readNum =>
    refine ⟨pending, ?_⟩
    simp only [publishStep, List.append_nil]
    exact h.reads rfl rfl
  | writeNum n =>
    refine ⟨pending, ?_⟩
    have hn : n = q.nMsg := hself
    simp only [publishStep, hn]
    refine h.returns h.tally.counted ?_
    intro b hb
    exact (h.nested.2.1 trivial b hb).valid (h.valid b (List.mem_cons_of_mem _ hb)) rfl fun _ hm => hm

theorem single (htally : Tally q [c.phase] ev pending) (hc : ¬ c.phase.Adds) (hvalid : c.Valid q pending) :
    Inv ⟨q, [(level, c)]⟩ ev pending where
  tally := htally
  nested := ⟨fun h => absurd rfl h, fun h => absurd h hc, trivial⟩
  valid := by
    intro b hb
    rw [List.mem_singleton.mp hb]
    exact hvalid

/-- What `getNextMsg` reads at its index is the head of the messages. -/
theorem head (h : Tally q [.reading] ev pending) (hm : pending.head? = some m) :
    q.msgList q.iMsgPull = m := by
  obtain ⟨rest, rfl⟩ := List.head?_eq_some_iff.mp hm
  have hring := h.ring.head
  simpa using hring

/-- **The steps of `getNextMsg`** keep the invariant. -/
theorem getNext_step {pc : GetPc} (h : Inv ⟨q, [(level, .getNext pc)]⟩ ev pending) : ∃ pending',
    Inv ⟨(getStep q pc).1, ((getStep q pc).2.1.map fun pc => (level, .getNext pc)).toList⟩
      (ev ++ (getStep q pc).2.2) pending' := by
  have hself := h.valid _ List.mem_cons_self
  cases pc with
  | check =>
    refine ⟨pending, ?_⟩
    have htally : Tally q [] ev pending := Tally.reading_iff.mp h.tally
    have hcount : pending.length = q.nMsg := htally.count
    unfold getStep
    by_cases hn : q.nMsg > 0
    · simp only [if_pos hn, List.append_nil]
      have hne : pending ≠ [] := List.ne_nil_of_length_pos (by omega)
      exact h.reads rfl ⟨pending.head hne, List.head?_eq_some_head hne⟩
    · simp only [if_neg hn]
      exact h.returns htally.empty (by simp)
  | readMsg =>
    refine ⟨pending, ?_⟩
    simp only [getStep, List.append_nil]
    exact h.reads rfl ⟨rfl, hself⟩
  | loadMsg i =>
    refine ⟨pending, ?_⟩
    obtain ⟨hi, m, hm⟩ : i = q.iMsgPull ∧ ∃ m, pending.head? = some m := hself
    have hread : q.msgList q.iMsgPull = m := head h.tally hm
    simp only [getStep, List.append_nil, hi, hread]
    exact h.reads rfl ⟨m, hm, rfl⟩
  | readPara msg =>
    refine ⟨pending, ?_⟩
    simp only [getStep, List.append_nil]
    exact h.reads rfl ⟨rfl, hself⟩
  | loadPara msg i =>
    obtain ⟨hi, m, hm, hmsg⟩ : i = q.iMsgPull ∧ ∃ m, pending.head? = some m ∧ m.msg = msg := hself
    have hread : q.msgList q.iMsgPull = m := head h.tally hm
    obtain ⟨rest, rfl⟩ := List.head?_eq_some_iff.mp hm
    refine ⟨rest, ?_⟩
    simp only [getStep, List.append_nil, hi, hread, ← hmsg]
    exact single h.tally.load id trivial
  | readPull m =>
    refine ⟨pending, ?_⟩
    simp only [getStep, List.append_nil]
    exact h.reads rfl rfl
  | writePull m i =>
    refine ⟨pending, ?_⟩
    have hi : i = q.iMsgPull := hself
    simp only [getStep, List.append_nil, hi]
    exact single h.tally.pull id trivial
  | readNum m =>
    refine ⟨pending, ?_⟩
    simp only [getStep, List.append_nil]
    exact h.reads rfl rfl
  | writeNum m n =>
    refine ⟨pending, ?_⟩
    have hn : n = q.nMsg := hself
    simp only [getStep, hn]
    exact h.returns h.tally.countedOff (by simp)

/-! ### Runs -/

/-- A call of `publishMsg` starts. -/
theorem publish_starts (h : Inv ⟨q, below⟩ ev pending) :
    Inv ⟨q, (level, .publish m .check) :: below⟩ ev pending where
  tally := Tally.before_iff.mpr h.tally
  nested := ⟨fun _ => trivial, fun hadd => absurd hadd id, h.nested⟩
  valid := by
    intro b hb
    rcases List.mem_cons.mp hb with rfl | hb
    · trivial
    · exact h.valid b hb

/-- **One step.** Every action that is safe keeps the invariant. -/
theorem step_inv {s s' : State} {a : Act} {o : List Event} (h : Inv s ev pending) (hsafe : Safe s a)
    (hstep : step s a = .ok (s', o)) : ∃ pending', Inv s' (ev ++ o) pending' := by
  obtain ⟨q, calls⟩ := s
  cases a with
  | publish level m =>
    simp only [step] at hstep
    split at hstep
    · obtain ⟨rfl, rfl⟩ : _ = s' ∧ [] = o := by simpa using hstep
      rw [List.append_nil]
      exact ⟨pending, h.publish_starts⟩
    · cases hstep
  | getNext level =>
    simp only [step] at hstep
    split at hstep
    next hidle =>
      obtain ⟨rfl, rfl⟩ : _ = s' ∧ [] = o := by simpa using hstep
      subst hidle
      rw [List.append_nil]
      exact ⟨pending, single (Tally.reading_iff.mpr h.tally) id trivial⟩
    · cases hstep
  | step =>
    cases calls with
    | nil => cases hstep
    | cons c below =>
      obtain ⟨level, call⟩ := c
      obtain ⟨rfl, rfl⟩ : _ = s' ∧ _ = o := by simpa [step] using hstep
      cases call with
      | publish m pc =>
        have hcheck : pc = .check → q.nMsg < msgMaxLen → Addable q below := by
          intro hpc
          subst hpc
          exact hsafe rfl ⟨_, rfl, rfl⟩
        simpa [Call.step, Function.comp_def] using h.publish_step hcheck
      | getNext pc =>
        obtain rfl := h.getNext_last
        simpa [Call.step, Function.comp_def] using h.getNext_step

end Inv

/-- Nothing in progress, in a queue just initialized. -/
def start (q : Queue) : State := ⟨initMsgInterface q, []⟩

/-- The variables before anything has run. -/
def zeroed : Queue := ⟨fun _ => ⟨0, 0⟩, 0, 0, 0⟩

/-- **Safe runs.** In every run from the initialization whose steps are all
safe, the queue is intact whenever no call is in progress. -/
theorem intact_of_safe {q : Queue} {acts : List Act} {s : State} {ev : List Event}
    (hsafe : Meets step Safe (start q) acts) (h : run step (start q) acts = .ok (s, ev))
    (hidle : s.calls = []) : Intact s.q ev := by
  have hstart : ∃ pending, Inv (start q) [] pending := by
    refine ⟨[], Tally.init q, trivial, ?_⟩
    intro c hc
    cases hc
  have hrun := run_meets (fun s ev => ∃ pending, Inv s ev pending) Safe
    (fun s a s' o o' ⟨pending, hI⟩ hP hs => hI.step_inv hP hs) acts hstart hsafe h
  obtain ⟨pending, hI⟩ := hrun
  obtain ⟨q', calls⟩ := s
  obtain rfl : calls = [] := hidle
  exact hI.tally.intact

def steps (k : ℕ) : List Act := List.replicate k .step

/-- A tick of the timer before `publishMsg` of the main loop reads its index, and one
before its `getNextMsg` pulls. -/
def earlyTicks : List Act :=
  [[.publish .main ⟨1, 0⟩], steps 1, [.publish .tim3 ⟨0x1000, 0⟩], steps 9, steps 8,
    [.getNext .main], steps 6, [.publish .tim3 ⟨0x1000, 1⟩], steps 9, steps 3].flatten

/-- The ticks are safe; the first one is taken, as it is put first. -/
theorem intact_of_safe_ticks : ∃ s ev, run step (start zeroed) earlyTicks = .ok (s, ev) ∧
    gots ev = [⟨0x1000, 0⟩] ∧ Intact s.q ev := by
  have hend : (run step (start zeroed) earlyTicks).toOption.map (fun r => (r.1.calls, gots r.2)) =
      some ([], [⟨0x1000, 0⟩]) := by decide +kernel
  obtain ⟨s, ev, hrun, hobs⟩ := run_observed _ hend
  obtain ⟨hidle, hgots⟩ := Prod.mk.inj hobs
  exact ⟨s, ev, hrun, hgots, intact_of_safe (by decide +kernel) hrun hidle⟩

/-- A tick of the timer while `publishMsg` of the main loop counts its message. -/
def lateTick : List Act :=
  [[.publish .main ⟨1, 0⟩], steps 8, [.publish .tim3 ⟨0x1000, 0⟩], steps 9, steps 1].flatten

/-- Two messages are published, and one is counted. -/
theorem publishMsg_lost : ∃ s ev, run step (start zeroed) lateTick = .ok (s, ev) ∧
    s.calls = [] ∧ s.q.nMsg = 1 ∧ (publishes ev).length = 2 ∧ ¬ Intact s.q ev := by
  have hend : (run step (start zeroed) lateTick).toOption.map
      (fun r => (r.1.calls, r.1.q.nMsg, gots r.2, (publishes r.2).length)) = some ([], 1, [], 2) := by
    decide +kernel
  obtain ⟨s, ev, hrun, hobs⟩ := run_observed _ hend
  simp only [Prod.mk.injEq] at hobs
  obtain ⟨hidle, hnum, hgots, hpub⟩ := hobs
  refine ⟨s, ev, hrun, hidle, hnum, hpub, ?_⟩
  intro h
  have := h.number
  rw [hnum, hgots, hpub] at this
  cases this

end MsgInterface
end Serial2Ethernet
