/-
# A command in the hands of the consumer

`getCommand` returns a pointer into the ring and frees its slot in the same
call. The lines that are completed from then on go into the slots behind, and
the one that finds seven commands pending goes into the freed slot, since it is
eight places from it. After that the ring is full and no line is stored. So
the command stays as it is exactly if that line is its own
(`handed_intact_iff`).
-/
import Serial2Ethernet.Hardware.ConsoleLines

namespace Serial2Ethernet
namespace Console

open Lib MsgInterface

/-- A byte is received. -/
def receive (c : Globals) (res : UInt8) : Except Fault (Globals × List MsgBody) := usart3IrqHandler res c

/-- The line so far, as it would be read in a command. -/
def Globals.line (c : Globals) : UInt16 × List UInt8 :=
  (c.rxSta &&& 0x3fff, c.rxBuf.toList.take (c.rxSta &&& 0x3fff).toNat)

/-- If the byte completes a line behind seven pending commands, the line is the command's own. -/
def Spares (cmd : ConsoleCmd) (c : Globals) (res : UInt8) : Prop :=
  Completes c res → c.cmdCnt + 1 = cmdMaxCnt → c.line = cmd.read

instance (cmd : ConsoleCmd) (c : Globals) (res : UInt8) : Decidable (Spares cmd c res) :=
  inferInstanceAs (Decidable (_ → _ → _))

/-! ### What is copied -/

theorem copyLoop_drop (rxBuf : Vector UInt8 20) : ∀ (n i : ℕ) (cmd cmd' : Vector UInt8 20),
    copyLoop rxBuf n i cmd = .ok cmd' → cmd'.toList.drop (i + n) = cmd.toList.drop (i + n)
  | 0, i, cmd, cmd', h => by
    cases h
    rfl
  | n + 1, i, cmd, cmd', h => by
    rw [copyLoop] at h
    split at h
    · rw [show i + (n + 1) = i + 1 + n by omega, copyLoop_drop rxBuf n (i + 1) _ cmd' h, Vector.toList_set,
        List.drop_set_of_lt (by omega)]
    · cases h

/-- A copy of `n` bytes changes nothing exactly if they are there already. -/
theorem copyLoop_eq_iff {rxBuf cmd cmd' : Vector UInt8 20} {n : ℕ} (hn : n ≤ 20)
    (h : copyLoop rxBuf n 0 cmd = .ok cmd') : cmd' = cmd ↔ rxBuf.toList.take n = cmd.toList.take n := by
  obtain ⟨cmd₁, hok, htake⟩ := copyLoop_copies rxBuf n 0 cmd (by omega) rfl
  have hdrop := copyLoop_drop rxBuf n 0 cmd cmd' h
  rw [h] at hok
  cases hok
  rw [Nat.zero_add] at htake hdrop
  rw [← htake]
  constructor
  · exact fun e => by rw [e]
  · intro e
    apply Vector.toList_inj.mp
    rw [← List.take_append_drop n cmd'.toList, e, hdrop, List.take_append_drop]

/-- The line stored over a command is the command exactly if it was before. -/
theorem stored_eq_iff {c : Globals} {cmd : ConsoleCmd} {bytes : Vector UInt8 20}
    (hn : (c.rxSta &&& 0x3fff).toNat ≤ 20)
    (hcopy : copyLoop c.rxBuf (c.rxSta &&& 0x3fff).toNat 0 cmd.cmd = .ok bytes) :
    ConsoleCmd.mk (c.rxSta &&& 0x3fff) bytes = cmd ↔ c.line = cmd.read := by
  obtain ⟨len, own⟩ := cmd
  unfold Globals.line ConsoleCmd.read
  rw [ConsoleCmd.mk.injEq, Prod.mk.injEq]
  refine and_congr_right fun hlen => ?_
  rw [← hlen]
  exact copyLoop_eq_iff hn hcopy

/-! ### Any run -/

/-- The save index is behind the pending commands. -/
structure Globals.Rings (c : Globals) : Prop where
  sound : c.Sound
  save : c.iCmdSave = slot c.iCmdRead c.cmdCnt

theorem rings_init : (initConsole powerOn).Rings := ⟨sound_init, rfl⟩

theorem Globals.Rings.receives {c c' : Globals} {res : UInt8} {o : List MsgBody} (h : c.Rings) (hs : c'.Sound)
    (hrec : Receives c res c' o) : c'.Rings ∧ c'.iCmdRead = c.iCmdRead := by
  cases hrec with
  | line hno rxBuf rxSta => exact ⟨⟨hs, h.save⟩, rfl⟩
  | command hcomp hroom cmd =>
    refine ⟨⟨hs, ?_⟩, rfl⟩
    show slot c.iCmdSave 1 = slot c.iCmdRead (c.cmdCnt + 1)
    rw [h.save, slot_slot]
  | overflow hcomp hfull => exact ⟨⟨hs, h.save⟩, rfl⟩

theorem Globals.Rings.getCommand {c : Globals} (h : c.Rings) : (getCommand c).2.Rings := by
  unfold Console.getCommand
  by_cases hpos : c.cmdCnt > 0
  · rw [if_pos hpos]
    refine ⟨⟨(Nat.sub_le _ _).trans h.sound.le, h.sound.word⟩, ?_⟩
    show c.iCmdSave = slot (slot c.iCmdRead 1) (c.cmdCnt - 1)
    rw [slot_next, Nat.sub_add_cancel hpos, h.save]
  · rw [if_neg hpos]
    exact h

theorem run_rings {c c' : Globals} {acts : List Act} {o : List MsgBody} (h : c.Rings)
    (hrun : run step c acts = .ok (c', o)) : c'.Rings := by
  refine run_history (fun c _ _ => c.Rings) c h ?_ acts hrun
  rintro c hist a c' o o' - hr hstep
  cases a with
  | byte res =>
    obtain ⟨c₁, o₁, hok, hs, hrec⟩ := usart3_receives hr.sound res
    obtain ⟨rfl, -⟩ := Prod.mk.inj (Except.ok.inj (hok.symm.trans hstep))
    exact (hr.receives hs hrec).1
  | getCommand =>
    obtain ⟨rfl, -⟩ := Prod.mk.inj (Except.ok.inj hstep)
    exact hr.getCommand

/-! ### The slot that was handed over -/

/-- The read index is behind the slot `i`. -/
def Handed (i : Fin 8) (c : Globals) : Prop := c.Rings ∧ c.iCmdRead = slot i 1

theorem Handed.save {i : Fin 8} {c : Globals} (h : Handed i c) : c.iCmdSave = slot i (c.cmdCnt + 1) := by
  rw [h.1.save, h.2, slot_next]

/-- A byte leaves the command in the slot as it is exactly if it spares it. -/
theorem Handed.receive {i : Fin 8} {c : Globals} {cmd : ConsoleCmd} (h : Handed i c) (res : UInt8) :
    ∃ c' o, Console.receive c res = .ok (c', o) ∧ Handed i c' ∧
      (c.cmds.get i = cmd → (c'.cmds.get i = cmd ↔ Spares cmd c res)) := by
  obtain ⟨c', o, hok, hs, hrec⟩ := usart3_receives h.1.sound res
  obtain ⟨hr, hread⟩ := h.1.receives hs hrec
  refine ⟨c', o, hok, ⟨hr, hread.trans h.2⟩, fun hcmd => ?_⟩
  cases hrec with
  | line hno => exact iff_of_true hcmd fun hcomp => absurd hcomp hno
  | overflow hcomp hfull => exact iff_of_true hcmd fun _ hlast => absurd hlast (by omega)
  | command hcomp hroom bytes hcopy =>
    by_cases hlast : c.cmdCnt + 1 = cmdMaxCnt
    · -- the save index has come round to the slot
      have hi : c.iCmdSave = i := by
        rw [h.save, hlast]
        exact slot_round i
      subst hi hcmd
      have hstored : (c.stored bytes).cmds.get c.iCmdSave = ⟨c.rxSta &&& 0x3fff, bytes⟩ :=
        Vector.getElem_set_self c.iCmdSave.isLt
      rw [hstored, stored_eq_iff (word_length h.1.sound.word).2 hcopy]
      exact ⟨fun hline _ _ => hline, fun hspares => hspares hcomp hlast⟩
    · have hne : c.iCmdSave ≠ i := by
        rw [h.save]
        exact slot_succ_ne (lt_of_le_of_ne hroom hlast)
      refine iff_of_true ?_ fun _ hlast' => absurd hlast' hlast
      rw [← hcmd]
      exact Vector.getElem_set_ne c.iCmdSave.isLt i.isLt fun e => hne (Fin.ext e)

/-- **A command handed over.** From any state a run of the console reaches, the
command that `getCommand` returns stays as it is while bytes are received, exactly
if a line completed behind seven pending commands is the command's own. -/
theorem handed_intact_iff {acts : List Act} {o : List MsgBody} {c c₁ : Globals} {cmd : ConsoleCmd}
    (hrun : run step (initConsole powerOn) acts = .ok (c, o)) (hget : getCommand c = (some cmd, c₁))
    (bytes : List UInt8) :
    Always receive (fun c' => c'.cmds.get c.iCmdRead = cmd) c₁ bytes ↔ Meets receive (Spares cmd) c₁ bytes := by
  have hr : c.Rings := run_rings rings_init hrun
  unfold getCommand at hget
  by_cases hpos : c.cmdCnt > 0
  · have hr₁ := hr.getCommand
    unfold getCommand at hr₁
    rw [if_pos hpos] at hget hr₁
    obtain ⟨hcmd, rfl⟩ := Prod.mk.inj hget
    exact always_iff_meets (Handed c.iCmdRead) (fun c' => c'.cmds.get c.iCmdRead = cmd) (Spares cmd)
      (fun c' res h => h.receive res) bytes ⟨hr₁, rfl⟩ (Option.some.inj hcmd)
  · rw [if_neg hpos] at hget
    cases hget

/-- A line of one byte is handed over, and seven empty lines follow. -/
theorem handed_intact_seven_lines : ∃ c o cmd c₁,
    run step (initConsole powerOn) [.byte 0x41, .byte 0x0d, .byte 0x0a] = .ok (c, o) ∧
      getCommand c = (some cmd, c₁) ∧
      Always receive (fun c' => c'.cmds.get c.iCmdRead = cmd) c₁ (List.replicate 7 [0x0d, 0x0a]).flatten := by
  have hobs : (run step (initConsole powerOn) [.byte 0x41, .byte 0x0d, .byte 0x0a]).toOption.map
      (fun r => (getCommand r.1).1.map fun cmd =>
        decide (Meets receive (Spares cmd) (getCommand r.1).2 (List.replicate 7 [0x0d, 0x0a]).flatten)) =
      some (some true) := by decide +kernel
  obtain ⟨c, o, hrun, hc⟩ := run_observed _ hobs
  obtain ⟨cmd, hcmd, hmeets⟩ := Option.map_eq_some_iff.mp hc
  have hget : getCommand c = (some cmd, (getCommand c).2) := Prod.ext hcmd rfl
  exact ⟨c, o, cmd, _, hrun, hget, (handed_intact_iff hrun hget _).mpr (of_decide_eq_true hmeets)⟩

/-- The first of eight empty lines is handed over, and a line of one byte follows. -/
theorem not_handed_intact : ¬ ∀ acts c o cmd c₁ bytes, run step (initConsole powerOn) acts = .ok (c, o) →
    getCommand c = (some cmd, c₁) → Always receive (fun c' => c'.cmds.get c.iCmdRead = cmd) c₁ bytes := by
  intro hall
  have hobs : (run step (initConsole powerOn) (List.replicate 8 [.byte 0x0d, .byte 0x0a]).flatten).toOption.map
      (fun r => ((getCommand r.1).1.map ConsoleCmd.len,
        (run receive (getCommand r.1).2 [0x41, 0x0d, 0x0a]).toOption.map fun r' => (r'.1.cmds.get r.1.iCmdRead).len)) =
      some (some 0, some 1) := by decide +kernel
  obtain ⟨c, o, hrun, hc⟩ := run_observed _ hobs
  obtain ⟨hfirst, hsecond⟩ := Prod.mk.inj hc
  obtain ⟨cmd, hcmd, hlen⟩ := Option.map_eq_some_iff.mp hfirst
  obtain ⟨c', o', hrun', hlen'⟩ := run_observed _ hsecond
  have hintact := hall _ c o cmd (getCommand c).2 [0x41, 0x0d, 0x0a] hrun (Prod.ext hcmd rfl)
  have hsame : c'.cmds.get c.iCmdRead = cmd := (always_iff _ _).mp hintact _ [] c' o' (List.append_nil _).symm hrun'
  rw [hsame, hlen] at hlen'
  exact absurd hlen' (by decide)

end Console
end Serial2Ethernet
