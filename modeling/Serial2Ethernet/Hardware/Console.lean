/-
# The console: lines from USART3, queued as commands

The interrupt handler collects a line byte by byte. `USART3_RX_STA` is its
length with two flags on top, 0x4000 after a carriage return and 0x8000 after
the line feed behind it. A complete line becomes a command, if one of the
eight slots is free, and the state starts over; if none is, the flag 0x8000
stays, no byte is looked at any more, and nothing ever clears it.

`neverLocked_iff` says which runs this spoils.
-/
import Serial2Ethernet.Hardware.Board
import Serial2Ethernet.System.MsgInterface

namespace Serial2Ethernet
namespace Console

open Lib MsgInterface

def commandMaxSize : ℕ := 20

def cmdMaxCnt : ℕ := 8

instance instNeZeroCmd : NeZero 8 := ⟨by decide⟩

/-- Data structure of command. -/
structure ConsoleCmd where
  len : UInt16
  cmd : Vector UInt8 20

/-- The globals. The indices are below 8 by the types they are assigned from;
`cmdCnt` stays far from its 16 bits. -/
structure Globals where
  cmds : Vector ConsoleCmd 8
  iCmdRead : Fin 8
  iCmdSave : Fin 8
  cmdCnt : ℕ
  /-- `USART3_RX_BUF`. -/
  rxBuf : Vector UInt8 20
  /-- `USART3_RX_STA`. -/
  rxSta : UInt16

/-- Initialize console: the command list. -/
def initConsole (c : Globals) : Globals := { c with iCmdRead := 0, iCmdSave := 0, cmdCnt := 0 }

/-- The globals at power-on. -/
def powerOn : Globals :=
  ⟨Vector.replicate 8 ⟨0, Vector.replicate 20 0⟩, 0, 0, 0, Vector.replicate 20 0, 0⟩

/-- Whether console received a command. -/
def getCommandNum (c : Globals) : ℕ := c.cmdCnt

/-- Get command; `none` is the null pointer. -/
def getCommand (c : Globals) : Option ConsoleCmd × Globals :=
  if c.cmdCnt > 0 then
    (some c.cmds[c.iCmdRead], { c with iCmdRead := slot c.iCmdRead 1, cmdCnt := c.cmdCnt - 1 })
  else (none, c)

/-- The loop `cmd[i] = USART3_RX_BUF[i]`, `n` times from `i` on. -/
def copyLoop (rxBuf : Vector UInt8 20) : (n i : ℕ) → Vector UInt8 20 → Except Fault (Vector UInt8 20)
  | 0, _, cmd => .ok cmd
  | n + 1, i, cmd =>
    if h : i < 20 then copyLoop rxBuf n (i + 1) (cmd.set i rxBuf[i] h) else .error (.read i)

/-- Interrupt handler of USART3 for a received byte; the outputs are what it publishes. -/
def usart3IrqHandler (res : UInt8) (c : Globals) : Except Fault (Globals × List MsgBody) :=
  if c.rxSta &&& 0x8000 = 0 then
    if c.rxSta &&& 0x4000 ≠ 0 then
      if res ≠ 0x0a then .ok ({ c with rxSta := 0 }, [])
      else
        let sta := c.rxSta ||| 0x8000
        if c.cmdCnt < cmdMaxCnt then
          match copyLoop c.rxBuf (sta &&& 0x3fff).toNat 0 c.cmds[c.iCmdSave].cmd with
          | .error e => .error e
          | .ok cmd =>
            .ok ({ c with
              cmds := c.cmds.set c.iCmdSave ⟨sta &&& 0x3fff, cmd⟩
              iCmdSave := slot c.iCmdSave 1
              cmdCnt := c.cmdCnt + 1
              rxSta := 0 }, [⟨msgConsoleCommand, 0⟩])
        else .ok ({ c with rxSta := sta }, [])
    else if res = 0x0d then .ok ({ c with rxSta := c.rxSta ||| 0x4000 }, [])
    else if (c.rxSta &&& 0x3fff).toNat < commandMaxSize then
      match store c.rxBuf (c.rxSta &&& 0x3fff).toNat res with
      | .error e => .error e
      | .ok rxBuf => .ok ({ c with rxBuf := rxBuf, rxSta := c.rxSta + 1 }, [])
    else .ok (c, [])
  else .ok (c, [])

/-! ### The state word -/

/-- A length of at most 20, with the flags as they can be. -/
def Word (sta : UInt16) : Prop :=
  ∃ n : Fin 21, sta = UInt16.ofNat n ∨ sta = UInt16.ofNat n ||| 0x4000 ∨ sta = UInt16.ofNat n ||| 0xC000

/-- The flag of end. -/
def Ended (c : Globals) : Prop := c.rxSta &&& 0x8000 ≠ 0

instance (c : Globals) : Decidable (Ended c) := inferInstanceAs (Decidable (_ ≠ _))

theorem word_zero : Word 0 := ⟨0, Or.inl rfl⟩

/-- While no flag is set the word is the length. -/
theorem word_content {sta : UInt16} (h : Word sta) (h15 : sta &&& 0x8000 = 0) (h14 : sta &&& 0x4000 = 0) :
    Word (sta ||| 0x4000) ∧ (sta ||| 0x4000) &&& 0x8000 = 0 ∧
      ((sta &&& 0x3fff).toNat < commandMaxSize → Word (sta + 1) ∧ (sta + 1) &&& 0x8000 = 0) := by
  rcases h with ⟨n, rfl | rfl | rfl⟩
  · refine ⟨⟨n, Or.inr (Or.inl rfl)⟩, ?_⟩
    have hall : ∀ n : Fin 21, (UInt16.ofNat n ||| 0x4000) &&& 0x8000 = 0 ∧
        ((UInt16.ofNat n &&& 0x3fff).toNat < commandMaxSize →
          (∃ m : Fin 21, UInt16.ofNat n + 1 = UInt16.ofNat m) ∧ (UInt16.ofNat n + 1) &&& 0x8000 = 0) := by
      decide
    refine ⟨(hall n).1, fun hlt => ⟨?_, ((hall n).2 hlt).2⟩⟩
    obtain ⟨m, hm⟩ := ((hall n).2 hlt).1
    exact ⟨m, Or.inl hm⟩
  · have hall : ∀ n : Fin 21, (UInt16.ofNat n ||| 0x4000) &&& 0x4000 ≠ 0 := by decide
    exact absurd h14 (hall n)
  · have hall : ∀ n : Fin 21, (UInt16.ofNat n ||| 0xC000) &&& 0x8000 ≠ 0 := by decide
    exact absurd h15 (hall n)

/-- After a carriage return the line feed sets the flag of end. -/
theorem word_complete {sta : UInt16} (h : Word sta) (h15 : sta &&& 0x8000 = 0) (h14 : sta &&& 0x4000 ≠ 0) :
    Word (sta ||| 0x8000) ∧ (sta ||| 0x8000) &&& 0x8000 ≠ 0 := by
  rcases h with ⟨n, rfl | rfl | rfl⟩
  · have hall : ∀ n : Fin 21, UInt16.ofNat n &&& 0x4000 = 0 := by decide
    exact absurd (hall n) h14
  · have hall : ∀ n : Fin 21, (UInt16.ofNat n ||| 0x4000) ||| 0x8000 = UInt16.ofNat n ||| 0xC000 ∧
        ((UInt16.ofNat n ||| 0x4000) ||| 0x8000) &&& 0x8000 ≠ 0 := by decide
    exact ⟨⟨n, Or.inr (Or.inr (hall n).1)⟩, (hall n).2⟩
  · have hall : ∀ n : Fin 21, (UInt16.ofNat n ||| 0xC000) &&& 0x8000 ≠ 0 := by decide
    exact absurd h15 (hall n)

/-- The length is at most 20, and the flag of end is not part of it. -/
theorem word_length {sta : UInt16} (h : Word sta) :
    (sta ||| 0x8000) &&& 0x3fff = sta &&& 0x3fff ∧ (sta &&& 0x3fff).toNat ≤ commandMaxSize := by
  have hall (flags : UInt16) (hflags : flags = 0 ∨ flags = 0x4000 ∨ flags = 0xC000) : ∀ n : Fin 21,
      ((UInt16.ofNat n ||| flags) ||| 0x8000) &&& 0x3fff = (UInt16.ofNat n ||| flags) &&& 0x3fff ∧
        ((UInt16.ofNat n ||| flags) &&& 0x3fff).toNat ≤ commandMaxSize := by
    rcases hflags with rfl | rfl | rfl <;> decide
  rcases h with ⟨n, rfl | rfl | rfl⟩
  · have hzero := hall 0 (Or.inl rfl) n
    rwa [UInt16.or_zero] at hzero
  · exact hall _ (Or.inr (Or.inl rfl)) n
  · exact hall _ (Or.inr (Or.inr rfl)) n

/-! ### A byte -/

/-- The byte completes a line. -/
def Completes (c : Globals) (res : UInt8) : Prop :=
  ¬ Ended c ∧ c.rxSta &&& 0x4000 ≠ 0 ∧ res = 0x0a

instance (c : Globals) (res : UInt8) : Decidable (Completes c res) :=
  inferInstanceAs (Decidable (_ ∧ _ ∧ _))

/-- At most eight commands are queued, and the line is not too long. -/
structure Globals.Sound (c : Globals) : Prop where
  le : c.cmdCnt ≤ cmdMaxCnt
  word : Word c.rxSta

theorem sound_init : (initConsole powerOn).Sound := ⟨Nat.zero_le _, word_zero⟩

theorem copyLoop_ok (rxBuf : Vector UInt8 20) : ∀ (n i : ℕ) (cmd : Vector UInt8 20), i + n ≤ 20 →
    ∃ cmd', copyLoop rxBuf n i cmd = .ok cmd'
  | 0, _, cmd, _ => ⟨cmd, rfl⟩
  | n + 1, i, cmd, h => by
    rw [copyLoop, dif_pos (by omega)]
    exact copyLoop_ok rxBuf n (i + 1) _ (by omega)

/-- The line stored as a command, with these bytes. -/
def Globals.stored (c : Globals) (cmd : Vector UInt8 20) : Globals :=
  { c with
    cmds := c.cmds.set c.iCmdSave ⟨c.rxSta &&& 0x3fff, cmd⟩ c.iCmdSave.isLt
    iCmdSave := slot c.iCmdSave 1
    cmdCnt := c.cmdCnt + 1
    rxSta := 0 }

/-- What a byte makes of the console, and what it publishes: it changes the line so far
at most, or it completes the line, which becomes a command if there is room. -/
inductive Receives (c : Globals) (res : UInt8) : Globals → List MsgBody → Prop
  | line (hno : ¬ Completes c res) (rxBuf : Vector UInt8 20) (rxSta : UInt16)
      (hended : rxSta &&& 0x8000 = 0 ↔ c.rxSta &&& 0x8000 = 0) :
      Receives c res { c with rxBuf := rxBuf, rxSta := rxSta } []
  | command (hcomp : Completes c res) (hroom : c.cmdCnt < cmdMaxCnt) (cmd : Vector UInt8 20)
      (hcopy : copyLoop c.rxBuf (c.rxSta &&& 0x3fff).toNat 0 (c.cmds.get c.iCmdSave).cmd = .ok cmd) :
      Receives c res (c.stored cmd) [⟨msgConsoleCommand, 0⟩]
  | overflow (hcomp : Completes c res) (hfull : c.cmdCnt = cmdMaxCnt)
      (hended : (c.rxSta ||| 0x8000) &&& 0x8000 ≠ 0) : Receives c res { c with rxSta := c.rxSta ||| 0x8000 } []

/-- **A byte** is received without a fault. -/
theorem usart3_receives {c : Globals} (h : c.Sound) (res : UInt8) :
    ∃ c' o, usart3IrqHandler res c = .ok (c', o) ∧ c'.Sound ∧ Receives c res c' o := by
  unfold usart3IrqHandler
  by_cases h15 : c.rxSta &&& 0x8000 = 0
  · rw [if_pos h15]
    by_cases h14 : c.rxSta &&& 0x4000 = 0
    · have hC : ¬ Completes c res := fun hC => hC.2.1 h14
      obtain ⟨hW, hW0, hnext⟩ := word_content h.word h15 h14
      rw [if_neg (not_not.mpr h14)]
      by_cases hcr : res = 0x0d
      · rw [if_pos hcr]
        exact ⟨_, _, rfl, ⟨h.le, hW⟩, .line hC c.rxBuf _ (iff_of_true hW0 h15)⟩
      · rw [if_neg hcr]
        by_cases hlt : (c.rxSta &&& 0x3fff).toNat < commandMaxSize
        · have hroom : (c.rxSta &&& 0x3fff).toNat < 20 := hlt
          rw [if_pos hlt, store, dif_pos hroom]
          obtain ⟨hW', hW0'⟩ := hnext hlt
          exact ⟨_, _, rfl, ⟨h.le, hW'⟩, .line hC _ _ (iff_of_true hW0' h15)⟩
        · rw [if_neg hlt]
          exact ⟨_, _, rfl, h, .line hC c.rxBuf c.rxSta Iff.rfl⟩
    · rw [if_pos h14]
      by_cases hlf : res = 0x0a
      · have hC : Completes c res := ⟨not_not.mpr h15, h14, hlf⟩
        obtain ⟨hW, hE⟩ := word_complete h.word h15 h14
        obtain ⟨hmask, hlen⟩ := word_length h.word
        rw [if_neg (not_not.mpr hlf)]
        dsimp only
        rw [hmask]
        by_cases hroom : c.cmdCnt < cmdMaxCnt
        · obtain ⟨cmd, hcmd⟩ := copyLoop_ok c.rxBuf _ 0 c.cmds[c.iCmdSave].cmd ((Nat.zero_add _).le.trans hlen)
          rw [if_pos hroom, hcmd]
          exact ⟨_, _, rfl, ⟨hroom, word_zero⟩, .command hC hroom cmd hcmd⟩
        · rw [if_neg hroom]
          exact ⟨_, _, rfl, ⟨h.le, hW⟩, .overflow hC (Nat.le_antisymm h.le (Nat.not_lt.mp hroom)) hE⟩
      · rw [if_pos hlf]
        exact ⟨_, _, rfl, ⟨h.le, word_zero⟩, .line (fun hC => hlf hC.2.2) c.rxBuf 0 (iff_of_true rfl h15)⟩
  · rw [if_neg h15]
    exact ⟨_, _, rfl, h, .line (fun hC => hC.1 h15) c.rxBuf c.rxSta Iff.rfl⟩

/-! ### Bytes and commands in any order -/

/-- A byte is received, or a command is taken. -/
inductive Act
  | byte (res : UInt8)
  | getCommand
  deriving DecidableEq, Repr

def step (c : Globals) : Act → Except Fault (Globals × List MsgBody)
  | .byte res => usart3IrqHandler res c
  | .getCommand => .ok ((Console.getCommand c).2, [])

/-- While there is room for a command the flag of end is clear. -/
def Unlocked (c : Globals) : Prop := c.cmdCnt < cmdMaxCnt → c.rxSta &&& 0x8000 = 0

instance (c : Globals) : Decidable (Unlocked c) := inferInstanceAs (Decidable (_ → _))

theorem step_sound {c : Globals} (h : c.Sound) (a : Act) : ∃ c' o, step c a = .ok (c', o) ∧ c'.Sound := by
  cases a with
  | byte res =>
    obtain ⟨c', o, hok, hs, -⟩ := usart3_receives h res
    exact ⟨c', o, hok, hs⟩
  | getCommand =>
    refine ⟨_, _, rfl, ?_⟩
    unfold getCommand
    split
    · exact ⟨(Nat.sub_le _ _).trans h.le, h.word⟩
    · exact h

/-- The handler never leaves its buffers. -/
theorem run_sound {c : Globals} (h : c.Sound) (acts : List Act) :
    ∃ c' o, run step c acts = .ok (c', o) ∧ c'.Sound :=
  run_total (fun c _ => c.Sound) (fun _ a _ h => step_sound h a) acts c h

theorem getCommand_cmdCnt (c : Globals) : (getCommand c).2.cmdCnt = c.cmdCnt - 1 := by
  unfold getCommand
  split
  · rfl
  · dsimp only
    omega

theorem getCommand_rxSta (c : Globals) : (getCommand c).2.rxSta = c.rxSta := by
  unfold getCommand
  split <;> rfl

/-- A locked console stays locked, and a command taken from it leaves room. -/
theorem run_ended : ∀ (acts : List Act) {c c' : Globals} {o : List MsgBody}, Ended c →
    run step c acts = .ok (c', o) →
    Ended c' ∧ c'.cmdCnt ≤ c.cmdCnt ∧ (.getCommand ∈ acts → c'.cmdCnt ≤ c.cmdCnt - 1)
  | [], c, c', o, hE, hrun => by
    obtain ⟨rfl, -⟩ := run_nil_ok.mp hrun
    exact ⟨hE, le_rfl, fun h => by simp at h⟩
  | .byte res :: acts, c, c', o, hE, hrun => by
    have hdrop : step c (.byte res) = .ok (c, []) := if_neg hE
    obtain ⟨c₁, o₁, o₂, h₁, h₂, -⟩ := run_cons_ok.mp hrun
    rw [hdrop] at h₁
    cases h₁
    obtain ⟨hE', hle, hlt⟩ := run_ended acts hE h₂
    exact ⟨hE', hle, fun hmem => hlt (by simpa using hmem)⟩
  | .getCommand :: acts, c, c', o, hE, hrun => by
    obtain ⟨c₁, o₁, o₂, h₁, h₂, -⟩ := run_cons_ok.mp hrun
    cases h₁
    have hE₁ : Ended (getCommand c).2 := by
      unfold Ended
      rwa [getCommand_rxSta]
    obtain ⟨hE', hle, -⟩ := run_ended acts hE₁ h₂
    rw [getCommand_cmdCnt] at hle
    exact ⟨hE', hle.trans (Nat.sub_le _ _), fun _ => hle⟩

/-- In the run no command is taken after a line that was completed with all slots occupied. -/
def NoTakeAfterOverflow (c : Globals) (acts : List Act) : Prop :=
  ∀ pre res post c' o, acts = pre ++ .byte res :: post → run step c pre = .ok (c', o) →
    Completes c' res → c'.cmdCnt = cmdMaxCnt → .getCommand ∉ post

/-- What a run leaves when the flag of end is set: a line was completed with
all slots occupied, and they still are unless a command has been taken since. -/
def Overflown (c₀ : Globals) (c : Globals) (hist : List Act) : Prop :=
  ∃ pre res post c' o, hist = pre ++ .byte res :: post ∧ run step c₀ pre = .ok (c', o) ∧
    Completes c' res ∧ c'.cmdCnt = cmdMaxCnt ∧ (.getCommand ∉ post → c.cmdCnt = cmdMaxCnt)

theorem Overflown.append {c₀ c c' : Globals} {hist : List Act} {a : Act} (h : Overflown c₀ c hist)
    (ha : a ≠ .getCommand → c'.cmdCnt = c.cmdCnt) : Overflown c₀ c' (hist ++ [a]) := by
  obtain ⟨pre, res, post, c₁, o, rfl, hrun, hC, hfull, hpost⟩ := h
  refine ⟨pre, res, post ++ [a], c₁, o, by simp, hrun, hC, hfull, fun hno => ?_⟩
  rw [List.mem_append, not_or] at hno
  have hne : a ≠ .getCommand := fun e => hno.2 (by rw [e]; exact List.mem_singleton_self _)
  rw [ha hne, hpost hno.1]

theorem ended_overflown {c₀ c : Globals} (h₀ : c₀.Sound) (hclear : ¬ Ended c₀) {acts : List Act}
    {o : List MsgBody} (hrun : run step c₀ acts = .ok (c, o)) : Ended c → Overflown c₀ c acts := by
  refine (run_history (fun c hist _ => c.Sound ∧ (Ended c → Overflown c₀ c hist)) c₀
    ⟨h₀, fun hE => absurd hE hclear⟩ ?_ acts hrun).2
  rintro c hist a c' o o' hhist ⟨hs, hO⟩ hstep
  cases a with
  | byte res =>
    obtain ⟨c₁, o₁, hok, hs', hrec⟩ := usart3_receives hs res
    have hboth : (c₁, o₁) = (c', o') := by
      rw [step, hok] at hstep
      exact Except.ok.inj hstep
    obtain ⟨rfl, rfl⟩ := Prod.mk.inj hboth
    refine ⟨hs', fun hE => ?_⟩
    cases hrec with
    | line hno rxBuf rxSta hended => exact (hO ((not_congr hended).mp hE)).append fun _ => rfl
    | command => exact absurd (by decide : (0 : UInt16) &&& 0x8000 = 0) hE
    | overflow hC hfull => exact ⟨hist, res, [], c, o, rfl, hhist, hC, hfull, fun _ => hfull⟩
  | getCommand =>
    obtain ⟨c₁, o₁, hok, hs'⟩ := step_sound hs .getCommand
    have hboth : (c₁, o₁) = (c', o') := by
      rw [hok] at hstep
      exact Except.ok.inj hstep
    obtain ⟨rfl, rfl⟩ := Prod.mk.inj hboth
    obtain ⟨rfl, -⟩ := Prod.mk.inj (Except.ok.inj hok)
    refine ⟨hs', fun hE => ?_⟩
    unfold Ended at hE
    rw [getCommand_rxSta] at hE
    exact (hO hE).append fun h => absurd rfl h

/-- **The console locks up exactly when** a command is taken after a line was
completed with all eight slots occupied. In every other run, as long as there
is room for a command, the bytes are processed. -/
theorem neverLocked_iff (acts : List Act) :
    Always step Unlocked (initConsole powerOn) acts ↔
      NoTakeAfterOverflow (initConsole powerOn) acts := by
  rw [always_iff]
  constructor
  · rintro hall pre res post c o rfl hrun hC hfull hmem
    obtain ⟨c₁, o₁, h₁, hs⟩ := run_sound sound_init pre
    obtain ⟨rfl, -⟩ := Prod.mk.inj (Except.ok.inj (h₁.symm.trans hrun))
    obtain ⟨c₂, o₂, h₂, hs₂, hrec⟩ := usart3_receives hs res
    obtain ⟨c₃, o₃, h₃, hs₃⟩ := run_sound hs₂ post
    have hE₂ : Ended c₂ ∧ c₂.cmdCnt = cmdMaxCnt := by
      cases hrec with
      | line hno => exact absurd hC hno
      | command hcomp hroom => exact absurd hfull hroom.ne
      | overflow hcomp hfull hended => exact ⟨hended, hfull⟩
    obtain ⟨hE₃, -, hlt⟩ := run_ended post hE₂.1 h₃
    have hlt := hlt hmem
    have hwhole : run step (initConsole powerOn) (pre ++ .byte res :: post) = .ok (c₃, o₁ ++ (o₂ ++ o₃)) :=
      run_append_ok.mpr ⟨_, _, _, h₁, run_cons_ok.mpr ⟨_, _, _, h₂, h₃, rfl⟩, rfl⟩
    refine hE₃ (hall _ [] c₃ _ (List.append_nil _).symm hwhole ?_)
    rw [hE₂.2] at hlt
    unfold cmdMaxCnt at hlt ⊢
    omega
  · intro hno pre post c o e hrun hroom
    by_contra hE
    have hclear : ¬ Ended (initConsole powerOn) := fun h => h (by decide)
    obtain ⟨p, res, q, c₁, o₁, rfl, hrun₁, hC, hfull, hcnt⟩ := ended_overflown sound_init hclear hrun hE
    have hq := hno p res (q ++ post) c₁ o₁ (by rw [e]; simp) hrun₁ hC hfull
    have hcnt := hcnt fun h => hq (List.mem_append_left _ h)
    omega

/-- Nine empty lines, and then a command is taken. -/
def nineLines : List Act :=
  (List.replicate 9 [.byte 0x0d, .byte 0x0a]).flatten ++ [.getCommand]

theorem locked_nine_lines : ¬ ∀ acts, Always step Unlocked (initConsole powerOn) acts := by
  intro hall
  have hobs : (run step (initConsole powerOn) nineLines).toOption.map (fun r => (r.1.cmdCnt, r.1.rxSta)) =
      some (7, 0xC000) := by decide +kernel
  obtain ⟨c, o, hrun, hc⟩ := run_observed _ hobs
  obtain ⟨hcnt, hsta⟩ := Prod.mk.inj hc
  have hclear := (always_iff _ _).mp (hall nineLines) nineLines [] c o (List.append_nil _).symm hrun
    (by rw [hcnt]; decide)
  rw [hsta] at hclear
  exact absurd hclear (by decide)

end Console
end Serial2Ethernet
